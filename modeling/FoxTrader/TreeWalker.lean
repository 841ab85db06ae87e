import FoxTrader.Lib.Buckets
import FoxTrader.Lib.Checked

/-! # The flat tree walker

    `TreeWalker_ParseFromJson` takes an xgboost artifact apart, refuses what it does not serve, and lays
    the trees out flat: the nodes of all trees in one array in file order, the roots grouped by class,
    leaves made into loops on themselves. `TreeWalker_PredictMargin` then walks every tree of a class
    the same number of steps, routing with masks instead of branches.

    The artifact is the document behind its text: a key that is missing or of another type is `none`,
    numbers written as strings are read, and so is an element of an array. Floats are any type with the
    three operations the walk uses. -/

namespace FoxTrader

open Lib Function

/-- `WALKER_MAX_TREES`, `WALKER_MAX_NODES_PER_TREE`, `WALKER_MAX_TOTAL_NODES`, `WALKER_MAX_CLASSES`. -/
abbrev walkerMaxTrees : Nat := 4096
abbrev walkerMaxNodesPerTree : Nat := 2048
abbrev walkerMaxTotalNodes : Nat := 131072
abbrev walkerMaxClasses : Nat := 8

/-- The refuse codes. `unfinished` is none of them: it says that the depth sweep was cut off. -/
inductive WalkerErr where
  | json | version | booster | objective | multiTarget | vectorLeaf | parallelTree | categorical | featureIdx
  | overCap | baseScore | shape | unfinished
  deriving DecidableEq

inductive WalkerObjective where
  | softprob | logistic | identity
  deriving DecidableEq

/-! ### The artifact -/

structure TreeJson (α : Type) where
  sizeLeafVector : Option Int
  splitType : Option (List (Option Int))
  categoriesCount : Option Nat
  splitConditions : Option (List (Option α))
  splitIndices : Option (List (Option Int))
  leftChildren : Option (List (Option Int))
  rightChildren : Option (List (Option Int))
  defaultLeft : Option (List (Option Int))

/-- The values that can be read off the text of `base_score`, and whether it is in brackets. -/
structure BaseScoreJson (α : Type) where
  isVec : Bool
  values : List α

structure LearnerModelParam (α : Type) where
  numClass : Option Int
  numFeature : Option Int
  numTarget : Option Int
  baseScore : Option (BaseScoreJson α)

structure GradientBooster (α : Type) where
  name : Option String
  hasModel : Bool
  numParallelTree : Option Int
  trees : Option (List (TreeJson α))
  treeInfo : Option (List (Option Int))

/-- `versionMajor` is the first element of the version array, if there is an array. -/
structure ModelJson (α : Type) where
  versionMajor : Option (Option Int)
  hasLearner : Bool
  objectiveName : Option String
  learnerModelParam : Option (LearnerModelParam α)
  gradientBooster : Option (GradientBooster α)

/-- The node arrays of a tree. -/
structure NodeArrays (α : Type) where
  splitConditions : List (Option α)
  splitIndices : List (Option Int)
  leftChildren : List (Option Int)
  rightChildren : List (Option Int)
  defaultLeft : List (Option Int)

/-- One node as the arrays have it. -/
structure NodeRow (α : Type) where
  cond : α
  feat : Int
  left : Int
  right : Int
  dflt : Int

namespace NodeArrays

variable {α : Type}

def count (a : NodeArrays α) : Nat := a.leftChildren.length

def ragged (a : NodeArrays α) : Bool :=
  a.splitConditions.length ≠ a.count || a.splitIndices.length ≠ a.count || a.rightChildren.length ≠ a.count ||
    a.defaultLeft.length ≠ a.count

def row (a : NodeArrays α) (n : Nat) : Option (NodeRow α) := do
  let cond ← a.splitConditions[n]?.join
  let feat ← a.splitIndices[n]?.join
  let left ← a.leftChildren[n]?.join
  let right ← a.rightChildren[n]?.join
  let dflt ← a.defaultLeft[n]?.join
  return { cond, feat, left, right, dflt }

end NodeArrays

def TreeJson.arrays {α : Type} (t : TreeJson α) : Option (NodeArrays α) := do
  let splitConditions ← t.splitConditions
  let splitIndices ← t.splitIndices
  let leftChildren ← t.leftChildren
  let rightChildren ← t.rightChildren
  let defaultLeft ← t.defaultLeft
  return { splitConditions, splitIndices, leftChildren, rightChildren, defaultLeft }

/-! ### The flat model -/

/-- `meta` holds the feature in bits 0 to 23, the default direction in bit 30, the leaf mark in bit 31. -/
structure FlatTreeNode (α : Type) where
  cond : α
  bits : BitVec 32
  left : BitVec 32
  right : BitVec 32
  deriving Inhabited

abbrev walkerMetaFeatMask : BitVec 32 := 0x00FFFFFF
abbrev walkerMetaDefaultLeft : BitVec 32 := 1#32 <<< 30
abbrev walkerMetaIsLeaf : BitVec 32 := 1#32 <<< 31

structure FlatTreeModel (α : Type) where
  objective : WalkerObjective
  numClass : Nat
  numFeature : Int
  numTrees : Nat
  maxDepth : Nat
  totalNodes : Nat
  treesPerClass : Nat → Nat
  baseScore : Nat → α
  nodes : List (FlatTreeNode α)
  treeRoots : Nat → BitVec 32
  classTreeStart : Nat → Nat

namespace TreeWalker

variable {α : Type}

/-! ### Parsing -/

def parseObjective : String → Except WalkerErr WalkerObjective
  | "multi:softprob" => .ok .softprob
  | "binary:logistic" => .ok .logistic
  | "reg:squarederror" => .ok .identity
  | _ => .error .objective

/-- The margins every class starts from: one value for all, or one for each. -/
def parseBaseScore (score : Option (BaseScoreJson α)) (numClass : Nat) : Except WalkerErr (Nat → α) :=
  match score with
  | none => .error .baseScore
  | some score =>
    match (if score.isVec then score.values else score.values.take 1).take walkerMaxClasses with
    | [] => .error .baseScore
    | [value] => .ok fun _ => value
    | first :: rest =>
      if (first :: rest).length = numClass then .ok fun c => (first :: rest).getD c first else .error .baseScore

/-- The split types of a tree: none but numerical ones. -/
def checkSplitType (v : Option Int) : Except WalkerErr Unit :=
  match v with
  | none => .error .json
  | some v => if v ≠ 0 then .error .categorical else .ok ()

/-- The gates of the first pass on one tree; the number of its nodes. -/
def checkTree (t : TreeJson α) : Except WalkerErr Nat :=
  if t.sizeLeafVector.any (· > 1) then .error .vectorLeaf
  else
    match t.leftChildren with
    | none => .error .json
    | some leftChildren =>
      if leftChildren.length = 0 ∨ leftChildren.length > walkerMaxNodesPerTree then .error .overCap
      else do
        let _ ← (t.splitType.getD []).mapM checkSplitType
        if t.categoriesCount.any (· > 0) then .error .categorical else .ok leftChildren.length

/-- What the first pass counts. -/
structure Sizes where
  numTrees : Nat
  totalNodes : Nat

def sizeTree (s : Sizes) (t : TreeJson α) : Except WalkerErr Sizes :=
  if s.numTrees ≥ walkerMaxTrees then .error .overCap
  else do
    let count ← checkTree t
    return { numTrees := s.numTrees + 1, totalNodes := s.totalNodes + count }

/-- The class of a tree. -/
def classOf (numClass : Nat) (gid : Option Int) : Except WalkerErr Nat :=
  match gid with
  | none => .error .shape
  | some gid => if gid < 0 ∨ gid ≥ numClass then .error .shape else .ok gid.toNat

/-- The bits of a node. -/
def packMeta (isLeaf : Bool) (feat : Int) (dflt : Int) : BitVec 32 :=
  (if isLeaf then 0 else BitVec.ofInt 32 feat &&& walkerMetaFeatMask) |||
    (if dflt ≠ 0 then walkerMetaDefaultLeft else 0) ||| (if isLeaf then walkerMetaIsLeaf else 0)

/-- One node of the second pass; `base` is the index of its tree's first node. -/
def fillNode (numFeature : Int) (a : NodeArrays α) (base n : Nat) : Except WalkerErr (FlatTreeNode α) :=
  match a.row n with
  | none => .error .json
  | some r =>
    let isLeaf := r.left = -1
    if ¬isLeaf ∧ (r.feat < 0 ∨ r.feat ≥ numFeature) then .error .featureIdx
    else if ¬isLeaf ∧ (r.left < 0 ∨ r.left ≥ a.count ∨ r.right < 0 ∨ r.right ≥ a.count) then .error .shape
    else
      .ok
        { cond := r.cond, bits := packMeta isLeaf r.feat r.dflt
          left := .ofNat 32 (base + if isLeaf then n else r.left.toNat)
          right := .ofNat 32 (base + if isLeaf then n else r.right.toNat) }

/-- The depth of the tree just filled: a sweep with an explicit stack, no longer than the scratch it has. -/
def depthSweep [Inhabited α] (nodes : List (FlatTreeNode α)) : Nat → List (Nat × Nat) → Nat → Except WalkerErr Nat
  | _, [], treeDepth => .ok treeDepth
  | 0, _ :: _, _ => .error .unfinished
  | fuel + 1, (ni, dd) :: rest, treeDepth =>
    let nd := nodes.getD ni default
    if nd.bits &&& walkerMetaIsLeaf ≠ 0 then depthSweep nodes fuel rest (max treeDepth dd)
    else if rest.length + 2 > walkerMaxNodesPerTree then .error .shape
    else depthSweep nodes fuel ((nd.right.toNat, dd + 1) :: (nd.left.toNat, dd + 1) :: rest) (max treeDepth dd)

/-- What the second pass has written. -/
structure FillState (α : Type) where
  nodes : List (FlatTreeNode α)
  roots : Buckets (BitVec 32)
  maxDepth : Nat

/-- One tree of the second pass, with its class. -/
def fillTree [Inhabited α] (fuel : Nat) (numFeature : Int) (s : FillState α) (t : TreeJson α × Nat) :
    Except WalkerErr (FillState α) :=
  match t.1.arrays with
  | none => .error .json
  | some a =>
    if a.ragged then .error .shape
    else do
      let base := s.nodes.length
      let filled ← (List.range a.count).mapM (fillNode numFeature a base)
      let nodes := s.nodes ++ filled
      let treeDepth ← depthSweep nodes fuel [(base, 1)] 1
      return { nodes, roots := s.roots.place (t.2, .ofNat 32 base), maxDepth := max s.maxDepth treeDepth }

/-- The trees, from the first pass on. -/
def parseTrees [Inhabited α] (fuel : Nat) (objective : WalkerObjective) (numClass : Nat) (numFeature : Int)
    (baseScore : Nat → α) (trees : List (TreeJson α)) (treeInfo : List (Option Int)) :
    Except WalkerErr (FlatTreeModel α) := do
  let sizes ← trees.foldlM sizeTree { numTrees := 0, totalNodes := 0 }
  if sizes.numTrees = 0 then .error .shape
  else if sizes.totalNodes > walkerMaxTotalNodes then .error .overCap
  else if treeInfo.length ≠ sizes.numTrees then .error .shape
  else
    let classes ← treeInfo.mapM (classOf numClass)
    let treesPerClass := fun c => classes.countP (· = c)
    let classTreeStart := starts treesPerClass
    let filled ← (trees.zip classes).foldlM (fillTree fuel numFeature)
      { nodes := [], roots := { cursor := classTreeStart, cells := fun _ => 0 }, maxDepth := 1 }
    return { objective, numClass, numFeature, numTrees := sizes.numTrees, maxDepth := filled.maxDepth
             totalNodes := sizes.totalNodes, treesPerClass, baseScore, nodes := filled.nodes
             treeRoots := filled.roots.cells, classTreeStart }

/-- `TreeWalker_ParseFromJson`. -/
def parseFromJson [Inhabited α] (fuel : Nat) (doc : ModelJson α) : Except WalkerErr (FlatTreeModel α) :=
  match doc.versionMajor with
  | none => .error .json
  | some major =>
    if major ≠ some 3 then .error .version
    else if !doc.hasLearner then .error .json
    else
      match doc.objectiveName, doc.learnerModelParam with
      | none, _ => .error .json
      | some name, params => do
        let objective ← parseObjective name
        match params with
        | none => .error .json
        | some lmp =>
          match lmp.numClass, lmp.numFeature with
          | some classes, some numFeature =>
            let numClass := if classes > 1 then classes.toNat else 1
            if lmp.numTarget.getD 1 ≠ 1 then .error .multiTarget
            else if numClass > walkerMaxClasses then .error .overCap
            else if objective = .softprob ∧ numClass < 2 then .error .shape
            else do
              let baseScore ← parseBaseScore lmp.baseScore numClass
              match doc.gradientBooster with
              | none => .error .json
              | some gb =>
                if gb.name ≠ some "gbtree" then .error .booster
                else if !gb.hasModel then .error .json
                else if gb.numParallelTree.getD 1 ≠ 1 then .error .parallelTree
                else
                  match gb.trees, gb.treeInfo with
                  | some trees, some treeInfo =>
                    parseTrees fuel objective numClass numFeature baseScore trees treeInfo
                  | _, _ => .error .json
          | _, _ => .error .json

/-! ### Walking -/

/-- The operations on floats the walk makes. -/
structure FloatOps (α : Type) where
  lt : α → α → Bool
  isMissing : α → Bool
  add : α → α → α

/-- One step of `TreeWalker_WalkOneIdx`. -/
def route (ops : FloatOps α) (n : FlatTreeNode α) (features : Nat → α) : BitVec 32 :=
  let fv := features (n.bits &&& walkerMetaFeatMask).toNat
  let isMissing : BitVec 32 := if ops.isMissing fv then 1 else 0
  let lt : BitVec 32 := if ops.lt fv n.cond then 1 else 0
  let dleft := (n.bits >>> 30) &&& 1
  let mmask := 0 - isMissing
  let goLeft := (dleft &&& mmask) ||| (lt &&& ~~~mmask)
  let lmask := -goLeft
  (n.left &&& lmask) ||| (n.right &&& ~~~lmask)

def walkOneIdx [Inhabited α] (ops : FloatOps α) (nodes : List (FlatTreeNode α)) (features : Nat → α) :
    Nat → BitVec 32 → BitVec 32
  | 0, idx => idx
  | depth + 1, idx => walkOneIdx ops nodes features depth (route ops (nodes.getD idx.toNat default) features)

def walkOne [Inhabited α] (ops : FloatOps α) (nodes : List (FlatTreeNode α)) (root : BitVec 32) (features : Nat → α)
    (depth : Nat) : α :=
  (nodes.getD (walkOneIdx ops nodes features depth root).toNat default).cond

/-- The margin of one class. -/
def classMargin [Inhabited α] (ops : FloatOps α) (m : FlatTreeModel α) (features : Nat → α) (c : Nat) : α :=
  (List.range (m.treesPerClass c)).foldl
    (fun acc t => ops.add acc (walkOne ops m.nodes (m.treeRoots (m.classTreeStart c + t)) features m.maxDepth))
    (m.baseScore c)

/-- `TreeWalker_PredictMargin`. -/
def predictMargin [Inhabited α] (ops : FloatOps α) (m : FlatTreeModel α) (features : Nat → α) :
    Except WalkerErr (List α) :=
  if m.numClass < 1 ∨ m.numClass > walkerMaxClasses then .error .shape
  else .ok ((List.range m.numClass).map (classMargin ops m features))

end TreeWalker

end FoxTrader
