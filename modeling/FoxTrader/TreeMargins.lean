import Mathlib.Algebra.GroupWithZero.Nat
import Mathlib.Data.List.Perm.Subperm
import FoxTrader.TreeWalker

/-! # The margins of the flat walker are the model's

    An xgboost model is a forest: every tree has a class, and its value on a feature vector is found by
    going left below the threshold, right otherwise, and to the default side when the feature is missing.
    The parser lays the trees out in one array and the walk makes the same number of masked steps on
    every tree. On every model within the limits the parser checks, with split indices that fit the 24
    bits a node has for them, the parse goes through and every margin is the base score of its class
    followed by the values of the trees of the class in file order. -/

namespace FoxTrader

open Lib

variable {α : Type}

/-! ### The model behind the artifact -/

inductive XgbTree (α : Type) where
  | leaf (value : α)
  | split (feature : Nat) (threshold : α) (defaultLeft : Bool) (left right : XgbTree α)

namespace XgbTree

/-- Whether a split sends the features left. -/
def goesLeft (ops : TreeWalker.FloatOps α) (features : Nat → α) (feature : Nat) (threshold : α) (defaultLeft : Bool) :
    Bool :=
  if ops.isMissing (features feature) then defaultLeft else ops.lt (features feature) threshold

def eval (ops : TreeWalker.FloatOps α) (features : Nat → α) : XgbTree α → α
  | leaf value => value
  | split feature threshold defaultLeft left right =>
    if goesLeft ops features feature threshold defaultLeft then left.eval ops features else right.eval ops features

def depth : XgbTree α → Nat
  | leaf _ => 1
  | split _ _ _ left right => max left.depth right.depth + 1

def size : XgbTree α → Nat
  | leaf _ => 1
  | split _ _ _ left right => left.size + right.size + 1

theorem depth_pos : ∀ tree : XgbTree α, 0 < tree.depth
  | leaf _ => Nat.one_pos
  | split .. => Nat.succ_pos _

end XgbTree

/-- The trees come in file order, each with its class. -/
structure XgbModel (α : Type) where
  numClass : Nat
  numFeature : Int
  baseScore : Nat → α
  trees : List (Nat × XgbTree α)

/-- The margin of a class: its base score, and then the values of its trees in file order. -/
def XgbModel.margin (ops : TreeWalker.FloatOps α) (model : XgbModel α) (features : Nat → α) (c : Nat) : α :=
  (bucket c model.trees).foldl (fun acc tree => ops.add acc (tree.eval ops features)) (model.baseScore c)

/-- The arrays hold the tree whose root is the node `n`. -/
inductive NodeArrays.Is (a : NodeArrays α) : Nat → XgbTree α → Prop
  | leaf {n : Nat} {r : NodeRow α} (hrow : a.row n = some r) (hleaf : r.left = -1) : Is a n (.leaf r.cond)
  | split {n : Nat} {r : NodeRow α} {left right : XgbTree α} (hrow : a.row n = some r) (hleaf : r.left ≠ -1)
      (hleft : Is a r.left.toNat left) (hright : Is a r.right.toNat right) :
      Is a n (.split r.feat.toNat r.cond (r.dflt ≠ 0) left right)

/-- A split with a feature of the model that fits the bits for it, and children in the tree. -/
structure NodeRow.Served (r : NodeRow α) (numFeature : Int) (count : Nat) : Prop where
  feat : 0 ≤ r.feat ∧ r.feat < numFeature ∧ r.feat ≤ walkerMetaFeatMask.toNat
  left : 0 ≤ r.left ∧ r.left < count
  right : 0 ≤ r.right ∧ r.right < count

/-- Every row is there, and every split is one the walker serves. -/
def NodeArrays.Served (a : NodeArrays α) (numFeature : Int) : Prop :=
  ∀ n < a.count, ∃ r, a.row n = some r ∧ (r.left ≠ -1 → r.Served numFeature a.count)

/-- The artifact of a tree, within the limits of the walker. -/
structure TreeJson.Encodes (t : TreeJson α) (numFeature : Int) (tree : XgbTree α) : Prop where
  scalarLeaf : ∀ k, t.sizeLeafVector = some k → k ≤ 1
  numerical : ∀ types, t.splitType = some types → ∀ v ∈ types, v = some 0
  noCategories : ∀ k, t.categoriesCount = some k → k = 0
  nodes : ∃ a, t.arrays = some a ∧ a.ragged = false ∧ a.count ≤ walkerMaxNodesPerTree ∧
    a.Served numFeature ∧ a.Is 0 tree

/-- The base score of an artifact: one for all classes, or one for each. -/
def BaseScoreJson.Encodes (score : BaseScoreJson α) (numClass : Nat) (baseScore : Nat → α) : Prop :=
  (∃ value, score.values = [value] ∧ ∀ c, baseScore c = value) ∨
    score.isVec = true ∧ score.values.length = numClass ∧ ∀ c < numClass, score.values[c]? = some (baseScore c)

def TreeJson.count (t : TreeJson α) : Nat := (t.leftChildren.getD []).length

/-- The parameters of a model: the score is that of each class. -/
structure LearnerModelParam.Encodes (lmp : LearnerModelParam α) (model : XgbModel α) : Prop where
  numClass : ∃ classes, lmp.numClass = some classes ∧ model.numClass = if classes > 1 then classes.toNat else 1
  numFeature : lmp.numFeature = some model.numFeature
  numTarget : lmp.numTarget.getD 1 = 1
  baseScore : ∃ score, lmp.baseScore = some score ∧ score.Encodes model.numClass model.baseScore
  servedClasses : model.numClass ≤ walkerMaxClasses

/-- The forest of a model, each tree with its class. -/
structure GradientBooster.Encodes (gb : GradientBooster α) (model : XgbModel α) : Prop where
  name : gb.name = some "gbtree"
  hasModel : gb.hasModel = true
  numParallelTree : gb.numParallelTree.getD 1 = 1
  trees : ∃ entries : List (TreeJson α × Nat × XgbTree α), gb.trees = some (entries.map (·.1)) ∧
    gb.treeInfo = some (entries.map fun e => some (e.2.1 : Int)) ∧ model.trees = entries.map (·.2) ∧
    (∀ e ∈ entries, e.2.1 < model.numClass ∧ e.1.Encodes model.numFeature e.2.2) ∧
    entries ≠ [] ∧ entries.length ≤ walkerMaxTrees ∧ (entries.map fun e => e.1.count).sum ≤ walkerMaxTotalNodes

/-- The artifact of a model, within the limits of the walker. -/
structure ModelJson.Encodes (doc : ModelJson α) (model : XgbModel α) : Prop where
  version : doc.versionMajor = some (some 3)
  learner : doc.hasLearner = true
  objective : ∃ name objective, doc.objectiveName = some name ∧ TreeWalker.parseObjective name = .ok objective ∧
    (objective = .softprob → 2 ≤ model.numClass)
  params : ∃ lmp, doc.learnerModelParam = some lmp ∧ lmp.Encodes model
  forest : ∃ gb, doc.gradientBooster = some gb ∧ gb.Encodes model

/-! ### A tree in its arrays -/

theorem NodeArrays.row_lt {a : NodeArrays α} {n : Nat} {r : NodeRow α} (h : a.row n = some r) : n < a.count := by
  obtain ⟨_, _, h⟩ := Option.bind_eq_some_iff.1 h
  obtain ⟨_, _, h⟩ := Option.bind_eq_some_iff.1 h
  obtain ⟨left, hleft, _⟩ := Option.bind_eq_some_iff.1 h
  exact (List.getElem?_eq_some_iff.1 (Option.join_eq_some_iff.1 hleft)).1

/-- The arrays say which tree it is. -/
theorem NodeArrays.Is.unique {a : NodeArrays α} {n : Nat} {tree : XgbTree α} (h : a.Is n tree) :
    ∀ {tree' : XgbTree α}, a.Is n tree' → tree = tree' := by
  induction h with
  | leaf hrow hleaf =>
    rintro _ (⟨hrow', -⟩ | ⟨hrow', hleaf', -, -⟩)
    · rw [Option.some.inj (hrow.symm.trans hrow')]
    · rw [Option.some.inj (hrow.symm.trans hrow')] at hleaf
      exact absurd hleaf hleaf'
  | split hrow hleaf _ _ ihl ihr =>
    rintro _ (⟨hrow', hleaf'⟩ | ⟨hrow', -, hleft', hright'⟩)
    · rw [Option.some.inj (hrow.symm.trans hrow')] at hleaf
      exact absurd hleaf' hleaf
    · obtain rfl := Option.some.inj (hrow.symm.trans hrow')
      rw [ihl hleft', ihr hright']

/-- A way down the tree meets no node twice: below a node are only smaller trees. -/
theorem NodeArrays.Is.exists_path {a : NodeArrays α} {n : Nat} {tree : XgbTree α} (h : a.Is n tree) :
    ∃ path : List Nat, path.Nodup ∧ path.length = tree.depth ∧
      ∀ i ∈ path, i < a.count ∧ ∃ sub, a.Is i sub ∧ sub.size ≤ tree.size := by
  induction h with
  | @leaf n r hrow hleaf =>
    refine ⟨[n], by simp, rfl, fun i hi => ?_⟩
    rw [List.mem_singleton.1 hi]
    exact ⟨row_lt hrow, _, .leaf hrow hleaf, Nat.le_refl _⟩
  | @split n r left right hrow hleaf hleft hright ihl ihr =>
    have hself : a.Is n (.split r.feat.toNat r.cond (r.dflt ≠ 0) left right) := .split hrow hleaf hleft hright
    obtain ⟨child, hdepth, hsize, path, hnodup, hlength, hpath⟩ :
        ∃ child : XgbTree α, child.depth + 1 = max left.depth right.depth + 1 ∧
          child.size < left.size + right.size + 1 ∧
          ∃ path : List Nat, path.Nodup ∧ path.length = child.depth ∧
            ∀ i ∈ path, i < a.count ∧ ∃ sub, a.Is i sub ∧ sub.size ≤ child.size := by
      rcases Nat.le_total left.depth right.depth with hle | hle
      · exact ⟨right, by omega, by omega, ihr⟩
      · exact ⟨left, by omega, by omega, ihl⟩
    refine ⟨n :: path, List.nodup_cons.2 ⟨fun hmem => ?_, hnodup⟩, ?_, fun i hi => ?_⟩
    · obtain ⟨-, sub, hsub, hle⟩ := hpath n hmem
      rw [← hself.unique hsub, XgbTree.size] at hle
      omega
    · rw [List.length_cons, hlength, hdepth, XgbTree.depth]
    · rcases List.mem_cons.1 hi with rfl | hi
      · exact ⟨row_lt hrow, _, hself, Nat.le_refl _⟩
      · obtain ⟨hlt, sub, hsub, hle⟩ := hpath i hi
        exact ⟨hlt, sub, hsub, by rw [XgbTree.size]; omega⟩

theorem NodeArrays.Is.depth_le {a : NodeArrays α} {n : Nat} {tree : XgbTree α} (h : a.Is n tree) :
    tree.depth ≤ a.count := by
  obtain ⟨path, hnodup, hlength, hpath⟩ := h.exists_path
  have hsub : path ⊆ List.range a.count := fun i hi => List.mem_range.2 (hpath i hi).1
  rw [← hlength, ← List.length_range (n := a.count)]
  exact (List.subperm_of_subset hnodup hsub).length_le

namespace TreeWalker

/-! ### One step of the walk -/

theorem packMeta_leaf (feat dflt : Int) : packMeta true feat dflt &&& walkerMetaIsLeaf ≠ 0 := by
  have hleaf : packMeta true feat dflt = (if dflt ≠ 0 then walkerMetaDefaultLeft else 0) ||| walkerMetaIsLeaf :=
    congrArg (· ||| walkerMetaIsLeaf) BitVec.zero_or
  rw [hleaf]
  split <;> decide

theorem packMeta_split (feat dflt : Int) :
    packMeta false feat dflt =
      (BitVec.ofInt 32 feat &&& walkerMetaFeatMask) ||| (if dflt ≠ 0 then walkerMetaDefaultLeft else 0) :=
  BitVec.or_zero

theorem packMeta_split_leaf (feat dflt : Int) : packMeta false feat dflt &&& walkerMetaIsLeaf = 0 := by
  have hfeat : walkerMetaFeatMask &&& walkerMetaIsLeaf = 0#32 := by decide
  rw [packMeta_split, BitVec.and_or_distrib_right, BitVec.and_assoc, hfeat, BitVec.and_zero, BitVec.zero_or]
  split <;> decide

theorem packMeta_split_feature {feat : Int} (dflt : Int) (h0 : 0 ≤ feat) (h : feat ≤ walkerMetaFeatMask.toNat) :
    (packMeta false feat dflt &&& walkerMetaFeatMask).toNat = feat.toNat := by
  have hdflt : (if dflt ≠ 0 then walkerMetaDefaultLeft else 0) &&& walkerMetaFeatMask = 0#32 := by
    split <;> decide
  have hmask : walkerMetaFeatMask.toNat = 16777215 := rfl
  have hnat : (BitVec.ofInt 32 feat).toNat = feat.toNat := by
    rw [BitVec.toNat_ofInt]
    omega
  rw [packMeta_split, BitVec.and_or_distrib_right, BitVec.and_assoc, BitVec.and_self, hdflt, BitVec.or_zero,
    BitVec.toNat_and, hnat]
  exact Nat.and_two_pow_sub_one_of_lt_two_pow (n := 24) (by omega)

theorem packMeta_split_default (feat dflt : Int) :
    packMeta false feat dflt >>> 30 &&& 1 = if dflt ≠ 0 then 1#32 else 0#32 := by
  have hfeat : walkerMetaFeatMask >>> 30 = 0#32 := by decide
  rw [packMeta_split, BitVec.ushiftRight_or_distrib, BitVec.ushiftRight_and_distrib, hfeat, BitVec.and_zero,
    BitVec.zero_or]
  split <;> decide

theorem mask_side (left : Bool) (x y : BitVec 32) :
    (x &&& if left then BitVec.allOnes 32 else 0#32) ||| (y &&& ~~~(if left then BitVec.allOnes 32 else 0#32)) =
      if left then x else y := by
  cases left with
  | true => rw [if_pos rfl, if_pos rfl, BitVec.and_allOnes, BitVec.not_allOnes, BitVec.and_zero, BitVec.or_zero]
  | false =>
    rw [if_neg Bool.false_ne_true, if_neg Bool.false_ne_true, BitVec.not_zero, BitVec.and_allOnes, BitVec.and_zero,
      BitVec.zero_or]

/-- The masks select one of the two sides. -/
theorem mask_select (missing lt dl : Bool) (x y : BitVec 32) :
    (x &&& -(((if dl then 1#32 else 0#32) &&& (0 - if missing then 1 else 0)) |||
        ((if lt then 1 else 0) &&& ~~~(0 - if missing then 1 else 0)))) |||
      (y &&& ~~~(-(((if dl then 1#32 else 0#32) &&& (0 - if missing then 1 else 0)) |||
        ((if lt then 1 else 0) &&& ~~~(0 - if missing then 1 else 0))))) =
      if (if missing then dl else lt) then x else y := by
  have hmask : -(((if dl then 1#32 else 0#32) &&& (0 - if missing then 1 else 0)) |||
      ((if lt then 1 else 0) &&& ~~~(0 - if missing then 1 else 0))) =
        if (if missing then dl else lt) then BitVec.allOnes 32 else 0#32 := by
    revert missing lt dl
    decide
  rw [hmask]
  exact mask_side ..

/-- The side a step takes. -/
theorem route_eq (ops : FloatOps α) (n : FlatTreeNode α) (features : Nat → α) {dl : Bool}
    (hdl : n.bits >>> 30 &&& 1 = if dl then 1#32 else 0#32) :
    route ops n features =
      if XgbTree.goesLeft ops features (n.bits &&& walkerMetaFeatMask).toNat n.cond dl then n.left else n.right := by
  simp only [route, XgbTree.goesLeft, hdl]
  exact mask_select ..

/-- A node whose sides are both itself is not left. -/
theorem route_loop (ops : FloatOps α) {n : FlatTreeNode α} (features : Nat → α) {idx : BitVec 32}
    (hleft : n.left = idx)
    (hright : n.right = idx) : route ops n features = idx := by
  have hself : ∀ x m : BitVec 32, (x &&& m) ||| (x &&& ~~~m) = x := by
    intro x m
    rw [← BitVec.and_or_distrib_left, BitVec.or_not_self, BitVec.and_allOnes]
  simp only [route, hleft, hright]
  exact hself _ _

/-! ### A tree in the flat array -/

/-- The flat nodes from `idx` on are the tree: its leaves are loops. -/
inductive Laid (nodes : List (FlatTreeNode α)) : BitVec 32 → XgbTree α → Prop
  | leaf {idx : BitVec 32} {nd : FlatTreeNode α} (hnd : nodes[idx.toNat]? = some nd)
      (hleaf : nd.bits &&& walkerMetaIsLeaf ≠ 0) (hleft : nd.left = idx) (hright : nd.right = idx) :
      Laid nodes idx (.leaf nd.cond)
  | split {idx : BitVec 32} {nd : FlatTreeNode α} {dl : Bool} {left right : XgbTree α}
    (hnd : nodes[idx.toNat]? = some nd)
      (hleaf : nd.bits &&& walkerMetaIsLeaf = 0) (hdl : nd.bits >>> 30 &&& 1 = if dl then 1#32 else 0#32)
      (hleft : Laid nodes nd.left left) (hright : Laid nodes nd.right right) :
      Laid nodes idx (.split (nd.bits &&& walkerMetaFeatMask).toNat nd.cond dl left right)

/-- More nodes behind the tree do not change it. -/
theorem Laid.append {nodes : List (FlatTreeNode α)} (more : List (FlatTreeNode α)) {idx : BitVec 32}
    {tree : XgbTree α}
    (h : Laid nodes idx tree) : Laid (nodes ++ more) idx tree := by
  have hget : ∀ {i : Nat} {nd : FlatTreeNode α}, nodes[i]? = some nd → (nodes ++ more)[i]? = some nd := by
    intro i nd hnd
    rw [List.getElem?_append_left (List.getElem?_eq_some_iff.1 hnd).1, hnd]
  induction h with
  | leaf hnd hleaf hleft hright => exact .leaf (hget hnd) hleaf hleft hright
  | split hnd hleaf hdl _ _ ihl ihr => exact .split (hget hnd) hleaf hdl ihl ihr

theorem getD_of_getElem? [Inhabited α] {nodes : List (FlatTreeNode α)} {i : Nat} {nd : FlatTreeNode α}
    (h : nodes[i]? = some nd) :
    nodes.getD i default = nd := by
  rw [List.getD_eq_getElem?_getD, h, Option.getD_some]

/-- At a leaf the walk stays. -/
theorem walkOneIdx_loop [Inhabited α] (ops : FloatOps α) {nodes : List (FlatTreeNode α)} (features : Nat → α)
    {idx : BitVec 32}
    {nd : FlatTreeNode α} (hnd : nodes[idx.toNat]? = some nd) (hleft : nd.left = idx) (hright : nd.right = idx)
    (d : Nat) :
    walkOneIdx ops nodes features d idx = idx := by
  induction d with
  | zero => rfl
  | succ d ih =>
    rw [walkOneIdx, getD_of_getElem? hnd, route_loop ops features hleft hright, ih]

/-- A walk as long as the tree is deep ends at the value of the tree. -/
theorem Laid.walkOne [Inhabited α] (ops : FloatOps α) {nodes : List (FlatTreeNode α)} (features : Nat → α)
    {idx : BitVec 32}
    {tree : XgbTree α} (h : Laid nodes idx tree) :
    ∀ {d : Nat}, tree.depth ≤ d + 1 → TreeWalker.walkOne ops nodes idx features d = tree.eval ops features := by
  induction h with
  | leaf hnd hleaf hleft hright =>
    intro d _
    rw [TreeWalker.walkOne, walkOneIdx_loop ops features hnd hleft hright, getD_of_getElem? hnd, XgbTree.eval]
  | @split idx nd dl left right hnd hleaf hdl _ _ ihl ihr =>
    intro d hd
    rw [XgbTree.depth] at hd
    have hdeep := left.depth_pos
    obtain ⟨d, rfl⟩ : ∃ e, d = e + 1 := ⟨d - 1, by omega⟩
    rw [TreeWalker.walkOne, walkOneIdx, getD_of_getElem? hnd, route_eq ops nd features hdl, XgbTree.eval]
    split
    · exact ihl (by omega)
    · exact ihr (by omega)

/-- The sweep over a tree on the stack, with room for the stack of the tree, notes how deep it goes. -/
theorem Laid.depthSweep [Inhabited α] {nodes : List (FlatTreeNode α)} {idx : BitVec 32} {tree : XgbTree α}
    (h : Laid nodes idx tree) :
    ∀ {fuel dd treeDepth : Nat} {rest : List (Nat × Nat)}, rest.length + tree.depth ≤ walkerMaxNodesPerTree →
      TreeWalker.depthSweep nodes (fuel + tree.size) ((idx.toNat, dd) :: rest) treeDepth =
        TreeWalker.depthSweep nodes fuel rest (max treeDepth (dd + tree.depth - 1)) := by
  induction h with
  | leaf hnd hleaf _ _ =>
    intro fuel dd treeDepth rest _
    rw [XgbTree.size, TreeWalker.depthSweep]
    simp only [getD_of_getElem? hnd]
    rw [if_pos hleaf]
    rfl
  | @split idx nd dl left right hnd hleaf hdl _ _ ihl ihr =>
    intro fuel dd treeDepth rest hroom
    rw [XgbTree.depth] at hroom
    have hdeep := left.depth_pos
    rw [XgbTree.size, ← Nat.add_assoc, ← Nat.add_assoc, TreeWalker.depthSweep]
    simp only [getD_of_getElem? hnd]
    rw [if_neg (not_not.2 hleaf), if_neg (by omega), ihr (by rw [List.length_cons]; omega), ihl (by omega),
      XgbTree.depth]
    congr 1
    omega

/-! ### One tree of the second pass -/

/-- The node a row becomes. -/
def nodeOf (base n : Nat) (r : NodeRow α) : FlatTreeNode α :=
  { cond := r.cond, bits := packMeta (r.left = -1) r.feat r.dflt
    left := .ofNat 32 (base + if r.left = -1 then n else r.left.toNat)
    right := .ofNat 32 (base + if r.left = -1 then n else r.right.toNat) }

theorem fillNode_ok {numFeature : Int} {a : NodeArrays α} (base : Nat) {n : Nat} {r : NodeRow α}
    (hrow : a.row n = some r)
    (hserved : r.left ≠ -1 → r.Served numFeature a.count) : fillNode numFeature a base n = .ok (nodeOf base n r) := by
  simp only [fillNode, hrow]
  by_cases hleaf : r.left = -1
  · rw [if_neg (fun h => h.1 hleaf), if_neg (fun h => h.1 hleaf)]
    rfl
  · obtain ⟨hfeat, hleft, hright⟩ := hserved hleaf
    rw [if_neg (by omega), if_neg (by omega)]
    rfl

/-- The flat nodes of the arrays, behind those of the trees before. -/
theorem exists_filled {numFeature : Int} {a : NodeArrays α} (h : a.Served numFeature) (base : Nat) :
    ∃ filled, (List.range a.count).mapM (fillNode numFeature a base) = .ok filled ∧ filled.length = a.count ∧
      ∀ n r, a.row n = some r → filled[n]? = some (nodeOf base n r) := by
  obtain ⟨filled, hfilled⟩ :=
    exists_mapM_ok (f := fillNode numFeature a base) (l := List.range a.count) fun n hn => by
    obtain ⟨r, hrow, hserved⟩ := h n (List.mem_range.1 hn)
    exact ⟨_, fillNode_ok base hrow hserved⟩
  have hall := mapM_ok_iff.1 hfilled
  have hlength : filled.length = a.count := by rw [← hall.length_eq, List.length_range]
  refine ⟨filled, hfilled, hlength, fun n r hrow => ?_⟩
  have hn : n < a.count := NodeArrays.row_lt hrow
  obtain ⟨r', hrow', hserved⟩ := h n hn
  obtain rfl := Option.some.inj (hrow.symm.trans hrow')
  have hget := List.Forall₂.get hall (i := n) (by rwa [List.length_range]) (by rwa [hlength])
  rw [List.get_eq_getElem, List.getElem_range, fillNode_ok base hrow hserved] at hget
  rw [List.getElem?_eq_getElem (by rwa [hlength]), Except.ok.inj hget, List.get_eq_getElem]

/-- What the arrays hold is laid out from the base on. -/
theorem laid_of_is {numFeature : Int} {a : NodeArrays α} (hserved : a.Served numFeature)
    {nodes filled : List (FlatTreeNode α)}
    (hfits : nodes.length + a.count ≤ walkerMaxTotalNodes)
    (hfilled : ∀ n r, a.row n = some r → filled[n]? = some (nodeOf nodes.length n r)) {n : Nat} {tree : XgbTree α}
    (h : a.Is n tree) : Laid (nodes ++ filled) (.ofNat 32 (nodes.length + n)) tree := by
  have hget : ∀ {n r}, a.row n = some r →
      (nodes ++ filled)[(BitVec.ofNat 32 (nodes.length + n)).toNat]? = some (nodeOf nodes.length n r) := by
    intro n r hrow
    have hn := NodeArrays.row_lt hrow
    have hcap : walkerMaxTotalNodes = 131072 := rfl
    rw [BitVec.toNat_ofNat, Nat.mod_eq_of_lt (by omega), List.getElem?_append_right (Nat.le_add_right ..),
      Nat.add_sub_cancel_left, hfilled n r hrow]
  induction h with
  | @leaf n r hrow hleaf =>
    have hloop : (if r.left = -1 then n else r.left.toNat) = n ∧ (if r.left = -1 then n else r.right.toNat) = n :=
      ⟨if_pos hleaf, if_pos hleaf⟩
    refine .leaf (hget hrow) ?_ ?_ ?_
    · simp only [nodeOf, hleaf, decide_true]
      exact packMeta_leaf r.feat r.dflt
    · simp only [nodeOf, hloop]
    · simp only [nodeOf, hloop]
  | @split n r left right hrow hleaf _ _ ihl ihr =>
    obtain ⟨r', hrow', hr'⟩ := hserved n (NodeArrays.row_lt hrow)
    obtain rfl := Option.some.inj (hrow.symm.trans hrow')
    obtain ⟨⟨hfeat, -, hbits⟩, -, -⟩ := hr' hleaf
    have hmeta : (nodeOf nodes.length n r).bits = packMeta false r.feat r.dflt := by
      simp only [nodeOf, hleaf, decide_false]
    have hsplit : Laid (nodes ++ filled) (.ofNat 32 (nodes.length + n))
        (.split _ (nodeOf nodes.length n r).cond (r.dflt ≠ 0) left right) := .split (hget hrow)
      (by rw [hmeta]; exact packMeta_split_leaf ..)
        (by rw [hmeta, packMeta_split_default]; simp only [decide_eq_true_eq])
      (by simpa only [nodeOf, if_neg hleaf] using ihl) (by simpa only [nodeOf, if_neg hleaf] using ihr)
    rwa [hmeta, packMeta_split_feature r.dflt hfeat hbits] at hsplit

theorem count_of_arrays {t : TreeJson α} {a : NodeArrays α} (h : t.arrays = some a) : t.count = a.count := by
  obtain ⟨_, _, h⟩ := Option.bind_eq_some_iff.1 h
  obtain ⟨_, _, h⟩ := Option.bind_eq_some_iff.1 h
  obtain ⟨left, hleft, h⟩ := Option.bind_eq_some_iff.1 h
  obtain ⟨_, _, h⟩ := Option.bind_eq_some_iff.1 h
  obtain ⟨_, _, h⟩ := Option.bind_eq_some_iff.1 h
  rw [← Option.some.inj h, TreeJson.count, hleft]
  rfl

/-- A tree is filled in behind the others, its root noted, and the depth is at least its own. -/
theorem fillTree_ok [Inhabited α] {fuel : Nat} {numFeature : Int} {s : FillState α} {t : TreeJson α} {c : Nat}
    {tree : XgbTree α}
    (h : t.Encodes numFeature tree) (hfits : s.nodes.length + t.count ≤ walkerMaxTotalNodes)
    (hfuel : tree.size ≤ fuel) :
    ∃ nodes maxDepth, fillTree fuel numFeature s (t, c) =
        .ok { nodes, roots := s.roots.place (c, .ofNat 32 s.nodes.length), maxDepth } ∧
      nodes.length = s.nodes.length + t.count ∧ (∃ filled, nodes = s.nodes ++ filled) ∧ s.maxDepth ≤ maxDepth ∧
        tree.depth ≤ maxDepth ∧ Laid nodes (.ofNat 32 s.nodes.length) tree := by
  obtain ⟨a, harrays, hragged, hcap, hserved, his⟩ := h.nodes
  have hcount := count_of_arrays harrays
  obtain ⟨filled, hfilled, hlength, hrows⟩ := exists_filled hserved s.nodes.length
  have hlaid : Laid (s.nodes ++ filled) (.ofNat 32 s.nodes.length) tree :=
    laid_of_is hserved (by rw [← hcount]; exact hfits) hrows his
  have hroot : (BitVec.ofNat 32 s.nodes.length).toNat = s.nodes.length := by
    have hcap : walkerMaxTotalNodes = 131072 := rfl
    rw [BitVec.toNat_ofNat, Nat.mod_eq_of_lt (by omega)]
  have hsweep : depthSweep (s.nodes ++ filled) fuel [(s.nodes.length, 1)] 1 = .ok (max 1 (1 + tree.depth - 1)) := by
    have hroom : ([] : List (Nat × Nat)).length + tree.depth ≤ walkerMaxNodesPerTree := by
      have hdepth := his.depth_le
      rw [List.length_nil]
      omega
    obtain ⟨spare, rfl⟩ := Nat.exists_eq_add_of_le' hfuel
    have hswept : depthSweep (s.nodes ++ filled) (spare + tree.size) [((BitVec.ofNat 32 s.nodes.length).toNat, 1)] 1 = _ :=
      hlaid.depthSweep hroom
    rw [hroot] at hswept
    rw [hswept, depthSweep]
  refine ⟨s.nodes ++ filled, max s.maxDepth (max 1 (1 + tree.depth - 1)), ?_, ?_, ⟨filled, rfl⟩, by omega,
    by omega, hlaid⟩
  · simp only [fillTree, harrays, hragged, hfilled, ok_bind, hsweep]
    rfl
  · rw [List.length_append, hlength, hcount]

/-! ### The two passes -/

theorem checkTree_ok {numFeature : Int} {t : TreeJson α} {tree : XgbTree α} (h : t.Encodes numFeature tree) :
    checkTree t = .ok t.count := by
  obtain ⟨a, harrays, -, hcap, -, his⟩ := h.nodes
  obtain ⟨left, hleft, hcount⟩ : ∃ left, t.leftChildren = some left ∧ left.length = a.count := by
    obtain ⟨_, _, h⟩ := Option.bind_eq_some_iff.1 harrays
    obtain ⟨_, _, h⟩ := Option.bind_eq_some_iff.1 h
    obtain ⟨left, hleft, h⟩ := Option.bind_eq_some_iff.1 h
    obtain ⟨_, _, h⟩ := Option.bind_eq_some_iff.1 h
    obtain ⟨_, _, h⟩ := Option.bind_eq_some_iff.1 h
    exact ⟨left, hleft, by rw [← Option.some.inj h]; rfl⟩
  have hpos := Nat.lt_of_lt_of_le tree.depth_pos his.depth_le
  have hvector : t.sizeLeafVector.any (· > 1) = false := by
    cases hk : t.sizeLeafVector with
    | none => rfl
    | some k => exact decide_eq_false (Int.not_lt.2 (h.scalarLeaf k hk))
  have hcategories : t.categoriesCount.any (· > 0) = false := by
    cases hk : t.categoriesCount with
    | none => rfl
    | some k => exact decide_eq_false (by rw [h.noCategories k hk]; exact Nat.not_lt_zero 0)
  obtain ⟨types, htypes⟩ := exists_mapM_ok (f := checkSplitType) (l := t.splitType.getD []) fun v hv => by
    cases hk : t.splitType with
    | none => rw [hk] at hv; exact absurd hv List.not_mem_nil
    | some types => rw [hk] at hv; exact ⟨(), by rw [h.numerical types hk v hv]; rfl⟩
  simp only [checkTree, hvector, hcategories, hleft, htypes, ok_bind, TreeJson.count, Option.getD_some]
  rw [if_neg Bool.false_ne_true, if_neg (by omega), if_neg Bool.false_ne_true]

/-- The entries of a forest: the artifact of each tree, its class, and the tree. -/
abbrev ForestEntry (α : Type) : Type := TreeJson α × Nat × XgbTree α

/-- What the first pass counts. -/
theorem sizeTrees_ok {numFeature : Int} {entries : List (ForestEntry α)}
    (h : ∀ e ∈ entries, e.1.Encodes numFeature e.2.2) (hcap : entries.length ≤ walkerMaxTrees) :
    (entries.map (·.1)).foldlM sizeTree { numTrees := 0, totalNodes := 0 } =
      .ok { numTrees := entries.length, totalNodes := (entries.map fun e => e.1.count).sum } := by
  rw [List.foldlM_map]
  obtain ⟨s, hs, rfl⟩ := foldlM_goes_through (f := fun s (e : ForestEntry α) => sizeTree s e.1)
    (fun s done => s = { numTrees := done.length, totalNodes := (done.map fun e => e.1.count).sum }) entries
    (by
      rintro _ done e rest rfl rfl
      refine ⟨_, ?_, rfl⟩
      have he := checkTree_ok (h e (List.mem_append_right _ List.mem_cons_self))
      rw [List.length_append, List.length_cons] at hcap
      simp only [sizeTree, he, ok_bind]
      rw [if_neg (by omega), List.length_append, List.map_append, List.sum_append]
      rfl) rfl
  exact hs

/-- What is in the flat arrays once some of the trees are filled in: each root with its tree. -/
structure Filled (start : Nat → Nat) (s : FillState α) (done : List (ForestEntry α))
    (items : List (Nat × BitVec 32 × XgbTree α)) : Prop where
  trees : items.map (fun item => (item.1, item.2.2)) = done.map (·.2)
  roots : s.roots =
    (items.map fun item => (item.1, item.2.1)).foldl Buckets.place { cursor := start, cells := fun _ => (0 : BitVec 32) }
  length : s.nodes.length = (done.map fun e => e.1.count).sum
  laid : ∀ item ∈ items, item.2.2.depth ≤ s.maxDepth ∧ Laid s.nodes item.2.1 item.2.2

theorem Filled.fillTree [Inhabited α] {fuel : Nat} {numFeature : Int} {start : Nat → Nat} {s : FillState α}
    {done : List (ForestEntry α)} {items : List (Nat × BitVec 32 × XgbTree α)} (h : Filled start s done items)
    {e : ForestEntry α}
    (he : e.1.Encodes numFeature e.2.2) (hfits : ((done ++ [e]).map fun e => e.1.count).sum ≤ walkerMaxTotalNodes)
    (hfuel : e.2.2.size ≤ fuel) :
    ∃ s' item, TreeWalker.fillTree fuel numFeature s (e.1, e.2.1) = .ok s' ∧
      Filled start s' (done ++ [e]) (items ++ [item]) := by
  have hsum : ((done ++ [e]).map fun e => e.1.count).sum = s.nodes.length + e.1.count := by
    rw [h.length, List.map_append, List.sum_append]
    rfl
  obtain ⟨nodes, maxDepth, hfill, hlength, ⟨filled, hfilled⟩, hdeeper, hdepth, hlaid⟩ :=
    fillTree_ok (s := s) (c := e.2.1) he (by rw [← hsum]; exact hfits) hfuel
  refine ⟨_, (e.2.1, .ofNat 32 s.nodes.length, e.2.2), hfill, ?_, ?_, ?_, fun item hitem => ?_⟩
  · rw [List.map_append, List.map_append, h.trees]
    rfl
  · rw [List.map_append, List.foldl_append, ← h.roots]
    rfl
  · rw [hsum, ← hlength]
  · rcases List.mem_append.1 hitem with hitem | hitem
    · obtain ⟨hle, hold⟩ := h.laid item hitem
      exact ⟨Nat.le_trans hle hdeeper, hfilled ▸ hold.append filled⟩
    · rw [List.mem_singleton.1 hitem]
      exact ⟨hdepth, hlaid⟩

/-- What the second pass leaves behind. -/
theorem fillTrees_ok [Inhabited α] {fuel : Nat} {numFeature : Int} {entries : List (ForestEntry α)}
    (h : ∀ e ∈ entries, e.1.Encodes numFeature e.2.2)
    (hcap : (entries.map fun e => e.1.count).sum ≤ walkerMaxTotalNodes)
    (hfuel : ∀ e ∈ entries, e.2.2.size ≤ fuel) (start : Nat → Nat) :
    ∃ s items, ((entries.map (·.1)).zip (entries.map (·.2.1))).foldlM (fillTree fuel numFeature)
        { nodes := [], roots := { cursor := start, cells := fun _ => 0 }, maxDepth := 1 } = .ok s ∧
      Filled start s entries items := by
  rw [List.zip_map', List.foldlM_map]
  have hstart : Filled start
      { nodes := [], roots := { cursor := start, cells := fun _ => 0 }, maxDepth := 1 } ([] : List (ForestEntry α)) [] :=
    ⟨rfl, rfl, rfl, fun _ hitem => absurd hitem List.not_mem_nil⟩
  obtain ⟨s, hs, items, hitems⟩ :=
    foldlM_goes_through (f := fun s (e : ForestEntry α) => fillTree fuel numFeature s (e.1, e.2.1))
      (fun s done => ∃ items, Filled start s done items) entries
      (by
        rintro s done e rest rfl ⟨items, hitems⟩
        have he := List.mem_append_right done (List.mem_cons_self (a := e) (l := rest))
        have hprefix : ((done ++ [e]).map fun e => e.1.count).sum ≤ walkerMaxTotalNodes := by
          rw [List.append_cons, List.map_append, List.sum_append] at hcap
          exact Nat.le_trans (Nat.le_add_right ..) hcap
        obtain ⟨s', item, hfill, hs'⟩ := hitems.fillTree (h e he) hprefix (hfuel e he)
        exact ⟨s', hfill, _, hs'⟩)
      ⟨[], hstart⟩
  exact ⟨s, items, hs, hitems⟩

theorem classes_ok {numClass : Nat} {entries : List (ForestEntry α)} (h : ∀ e ∈ entries, e.2.1 < numClass) :
    (entries.map fun e => some (e.2.1 : Int)).mapM (classOf numClass) = .ok (entries.map (·.2.1)) := by
  refine mapM_ok_iff.2 (List.forall₂_map_left_iff.2 (List.forall₂_map_right_iff.2 (List.forall₂_same.2 fun e he => ?_)))
  have hlt := h e he
  simp only [classOf]
  rw [if_neg (by omega), Int.toNat_natCast]

theorem parseBaseScore_ok {score : BaseScoreJson α} {numClass : Nat} {baseScore : Nat → α}
    (h : score.Encodes numClass baseScore)
    (hpos : 0 < numClass) (hcap : numClass ≤ walkerMaxClasses) :
    ∃ base, parseBaseScore (some score) numClass = .ok base ∧ ∀ c < numClass, base c = baseScore c := by
  rcases h with ⟨value, hvalues, hbase⟩ | ⟨hvec, hlength, hbase⟩
  · refine ⟨fun _ => value, ?_, fun c _ => (hbase c).symm⟩
    simp only [parseBaseScore, hvalues]
    cases score.isVec <;> rfl
  · have htake : score.values.take walkerMaxClasses = score.values := List.take_of_length_le (by omega)
    simp only [parseBaseScore, hvec, if_true, htake]
    match hv : score.values with
    | [] => rw [hv] at hlength; exact absurd hlength (by rw [List.length_nil]; omega)
    | [value] =>
      refine ⟨fun _ => value, rfl, fun c hc => ?_⟩
      rw [hv, List.length_singleton] at hlength
      obtain rfl : c = 0 := by omega
      have hget := hbase 0 hc
      rw [hv] at hget
      exact Option.some.inj hget
    | first :: second :: rest =>
      rw [hv] at hlength
      refine ⟨_, if_pos hlength, fun c hc => ?_⟩
      have hget := hbase c hc
      rw [hv] at hget
      rw [List.getD_eq_getElem?_getD, hget, Option.getD_some]

/-- The trees of a class, read through the laid out roots, make its margin. -/
theorem classMargin_eq [Inhabited α] (ops : FloatOps α) {m : FlatTreeModel α} {model : XgbModel α} {s : FillState α}
    {items : List (Nat × BitVec 32 × XgbTree α)} {entries : List (ForestEntry α)}
    (hfilled : Filled (starts m.treesPerClass) s entries items) (htrees : model.trees = entries.map (·.2))
    (hcounts : m.treesPerClass = fun c => (bucket c items).length) (hnodes : m.nodes = s.nodes)
    (hdepth : m.maxDepth = s.maxDepth)
    (hroots : m.treeRoots = s.roots.cells) (hstarts : m.classTreeStart = starts m.treesPerClass)
    (features : Nat → α) {c : Nat}
    (hbase : m.baseScore c = model.baseScore c) : classMargin ops m features c = model.margin ops features c := by
  have hkeys : ∀ k, (bucket k (items.map fun item => (item.1, item.2.1))).length = (bucket k items).length :=
    fun k => by
    rw [bucket_map (fun x : BitVec 32 × XgbTree α => x.1), List.length_map]
  have hread : (List.range (m.treesPerClass c)).map (fun t => m.treeRoots (m.classTreeStart c + t)) =
      (bucket c items).map (·.1) := by
    have hlaid := Buckets.read_bucket (fun _ => (0 : BitVec 32)) (items.map fun item => (item.1, item.2.1)) c
    rw [bucket_map (fun x : BitVec 32 × XgbTree α => x.1), List.length_map] at hlaid
    rw [← hlaid, hroots, hstarts, hfilled.roots, hcounts]
    simp only [Buckets.layout, hkeys]
  have hvalue : ∀ item ∈ bucket c items, TreeWalker.walkOne ops m.nodes item.1 features m.maxDepth =
    item.2.eval ops features := by
    intro item hitem
    obtain ⟨keyed, hkeyed, rfl⟩ := List.mem_map.1 hitem
    obtain ⟨hle, hlaid⟩ := hfilled.laid keyed (List.mem_of_mem_filter hkeyed)
    rw [hnodes, hdepth]
    exact hlaid.walkOne ops features (Nat.le_succ_of_le hle)
  have hforest : bucket c model.trees = (bucket c items).map (·.2) := by
    rw [htrees, ← hfilled.trees, bucket_map (fun x : BitVec 32 × XgbTree α => x.2)]
  calc classMargin ops m features c
      = (((List.range (m.treesPerClass c)).map fun t => m.treeRoots (m.classTreeStart c + t)).map fun root =>
          TreeWalker.walkOne ops m.nodes root features m.maxDepth).foldl ops.add (m.baseScore c) := by
        rw [List.foldl_map, List.foldl_map, classMargin]
    _ = ((bucket c items).map fun item => item.2.eval ops features).foldl ops.add (model.baseScore c) := by
        rw [hread, hbase, List.map_map]
        exact congrArg _ (List.map_congr_left hvalue)
    _ = model.margin ops features c := by
        rw [XgbModel.margin, hforest, List.foldl_map, List.foldl_map]

theorem parseTrees_ok [Inhabited α] {fuel : Nat} (objective : WalkerObjective) {gb : GradientBooster α}
    {model : XgbModel α}
    (hgb : gb.Encodes model) (hfuel : ∀ t ∈ model.trees, t.2.size ≤ fuel) (hcap : model.numClass ≤ walkerMaxClasses)
    (hpos : 0 < model.numClass) {base : Nat → α} (hbase : ∀ c < model.numClass, base c = model.baseScore c) :
    ∃ trees treeInfo m, gb.trees = some trees ∧ gb.treeInfo = some treeInfo ∧
      parseTrees fuel objective model.numClass model.numFeature base trees treeInfo = .ok m ∧
      ∀ ops features, predictMargin ops m features =
        .ok ((List.range model.numClass).map (model.margin ops features)) := by
  obtain ⟨entries, htrees, hinfo, hforest, hentries, hne, hcount, hnodes⟩ := hgb.trees
  have hencodes := fun e he => (hentries e he).2
  have hsizes := sizeTrees_ok hencodes hcount
  have hclasses := classes_ok fun e he => (hentries e he).1
  obtain ⟨s, items, hs, hfilled⟩ := fillTrees_ok hencodes hnodes
    (fun e he => hfuel e.2 (by rw [hforest]; exact List.mem_map_of_mem he))
    (starts fun c => (entries.map (·.2.1)).countP (· = c))
  have hkeys : items.map (·.1) = entries.map (·.2.1) := by
    have hfst := congrArg (List.map Prod.fst) hfilled.trees
    rwa [List.map_map, List.map_map] at hfst
  let counts := fun c => (entries.map (·.2.1)).countP (· = c)
  let m : FlatTreeModel α :=
    { objective, numClass := model.numClass, numFeature := model.numFeature, numTrees := entries.length,
      maxDepth := s.maxDepth
      totalNodes := (entries.map fun e => e.1.count).sum, treesPerClass := counts, baseScore := base, nodes := s.nodes
      treeRoots := s.roots.cells, classTreeStart := starts counts }
  refine ⟨_, _, m, htrees, hinfo, ?_, fun ops features => ?_⟩
  · simp only [parseTrees, hsizes, ok_bind, hclasses, hs]
    rw [if_neg (fun h0 => hne (List.length_eq_zero_iff.1 h0)), if_neg (Nat.not_lt.2 hnodes),
      if_neg (fun h0 => h0 (by rw [List.length_map]))]
    rfl
  · rw [predictMargin, if_neg (by change ¬(model.numClass < 1 ∨ model.numClass > walkerMaxClasses); omega)]
    have hcounts : m.treesPerClass = fun c => (bucket c items).length := by
      funext c
      rw [bucket_length, hkeys]
    refine congrArg Except.ok (List.map_congr_left fun c hc => ?_)
    exact classMargin_eq ops hfilled hforest hcounts rfl rfl rfl rfl features
      (hbase c (List.mem_range.1 hc))

/-- On every served model the parse goes through, and the margins are the base scores followed by the
    values of the trees in file order, whatever the operations on floats are. -/
theorem tree_margins_right [Inhabited α] {fuel : Nat} {doc : ModelJson α} {model : XgbModel α}
    (hdoc : doc.Encodes model)
    (hfuel : ∀ t ∈ model.trees, t.2.size ≤ fuel) :
    ∃ m, parseFromJson fuel doc = .ok m ∧ ∀ ops features,
      predictMargin ops m features = .ok ((List.range model.numClass).map (model.margin ops features)) := by
  obtain ⟨name, objective, hname, hobjective, hsoftprob⟩ := hdoc.objective
  obtain ⟨lmp, hparams, hlmp⟩ := hdoc.params
  obtain ⟨gb, hboost, hgb⟩ := hdoc.forest
  obtain ⟨classes, hclasses, hnumClass⟩ := hlmp.numClass
  obtain ⟨score, hscore, hvalues⟩ := hlmp.baseScore
  have hcap := hlmp.servedClasses
  have hpos : 0 < model.numClass := by
    rw [hnumClass]
    split <;> omega
  obtain ⟨base, hparsed, hbase⟩ := parseBaseScore_ok hvalues hpos hcap
  obtain ⟨trees, treeInfo, m, htrees, hinfo, hok, hmargins⟩ := parseTrees_ok objective hgb hfuel hcap hpos hbase
  refine ⟨m, ?_, hmargins⟩
  simp only [parseFromJson, hdoc.version, hdoc.learner, hname, hobjective, hparams, hclasses, hlmp.numFeature,
    hboost, ← hnumClass,
    hscore, hparsed, htrees, hinfo, ok_bind, hok]
  rw [if_neg (not_not.2 rfl), if_neg (by decide), if_neg (not_not.2 hlmp.numTarget), if_neg (by omega),
    if_neg (fun h => by have := hsoftprob h.1; omega), if_neg (not_not.2 hgb.name),
      if_neg (by rw [hgb.hasModel]; decide),
    if_neg (not_not.2 hgb.numParallelTree)]

/-- A stump on `feature` with the threshold 5 and the leaves 1 and 2. -/
def sampleStump (feature : Int) : TreeJson Int :=
  { sizeLeafVector := some 1, splitType := some [some 0, some 0, some 0], categoriesCount := some 0
    splitConditions := some [some 5, some 1, some 2], splitIndices := some [some feature, some 0, some 0]
    leftChildren := some [some 1, some (-1), some (-1)], rightChildren := some [some 2, some (-1), some (-1)]
    defaultLeft := some [some 1, some 0, some 0] }

/-- The stump on the feature 1, for the class 1, and one on `feature` for the class 0. -/
def sampleForest (feature : Int) (numFeature : Int) : ModelJson Int :=
  { versionMajor := some (some 3), hasLearner := true, objectiveName := some "multi:softprob"
    learnerModelParam := some
      { numClass := some 2, numFeature := some numFeature, numTarget := some 1
        baseScore := some { isVec := true, values := [10, 20] } }
    gradientBooster := some
      { name := some "gbtree", hasModel := true, numParallelTree := some 1
        trees := some [sampleStump 1, sampleStump feature], treeInfo := some [some 1, some 0] } }

def sampleModel (feature : Nat) (numFeature : Int) : XgbModel Int :=
  { numClass := 2, numFeature, baseScore := fun c => if c = 0 then 10 else 20
    trees := [(1, .split 1 5 true (.leaf 1) (.leaf 2)), (0, .split feature 5 true (.leaf 1) (.leaf 2))] }

theorem sampleStump_is (feature : Nat) :
    ∃ a, (sampleStump feature).arrays = some a ∧ a.ragged = false ∧ a.count = 3 ∧
      a.Is 0 (.split feature 5 true (.leaf 1) (.leaf 2)) :=
  have hsplit : (1 : Int) ≠ -1 := by decide
  ⟨_, rfl, rfl, rfl, .split (r := ⟨5, feature, 1, 2, 1⟩) rfl hsplit
    (.leaf (r := ⟨1, 0, -1, -1, 0⟩) rfl rfl) (.leaf (r := ⟨2, 0, -1, -1, 0⟩) rfl rfl)⟩

theorem sampleStump_encodes (feature : Nat) {numFeature : Int} (h : (feature : Int) < numFeature)
    (hbits : feature ≤ walkerMetaFeatMask.toNat) :
    (sampleStump feature).Encodes numFeature (.split feature 5 true (.leaf 1) (.leaf 2)) := by
  refine ⟨fun k hk => ?_, fun types htypes v hv => ?_, fun k hk => ?_, ?_⟩
  · exact Int.le_of_eq (Option.some.inj hk).symm
  · obtain rfl := Option.some.inj htypes
    simpa using hv
  · exact (Option.some.inj hk).symm
  · obtain ⟨a, harrays, hragged, hcount, his⟩ := sampleStump_is feature
    refine ⟨a, harrays, hragged, by rw [hcount]; decide, fun n hn => ?_, his⟩
    rw [hcount] at hn ⊢
    obtain rfl := Option.some.inj harrays
    match n, hn with
    | 0, _ =>
      have hchildren : (0 ≤ (1 : Int) ∧ (1 : Int) < (3 : Nat)) ∧ 0 ≤ (2 : Int) ∧ (2 : Int) < (3 : Nat) := by decide
      exact ⟨⟨5, feature, 1, 2, 1⟩, rfl, fun _ =>
        ⟨⟨Int.natCast_nonneg _, h, Int.ofNat_le.2 hbits⟩, hchildren.1, hchildren.2⟩⟩
    | 1, _ => exact ⟨_, rfl, fun hleaf => absurd rfl hleaf⟩
    | 2, _ => exact ⟨_, rfl, fun hleaf => absurd rfl hleaf⟩

theorem sampleForest_encodes : (sampleForest 0 2).Encodes (sampleModel 0 2) := by
  refine ⟨rfl, rfl, ⟨_, _, rfl, rfl, fun _ => by decide⟩, ⟨_, rfl, ?_⟩, ⟨_, rfl, ?_⟩⟩
  · exact ⟨⟨2, rfl, by decide⟩, rfl, rfl, ⟨_, rfl, .inr ⟨rfl, rfl, by decide⟩⟩, by decide⟩
  · refine ⟨rfl, rfl, rfl, [(sampleStump 1, 1, .split 1 5 true (.leaf 1) (.leaf 2)),
      (sampleStump 0, 0, .split 0 5 true (.leaf 1) (.leaf 2))], rfl, rfl, rfl, ?_, by decide, by decide, by decide⟩
    intro e he
    rcases List.mem_pair.1 he with rfl | rfl
    · exact ⟨by decide, sampleStump_encodes 1 (by decide) (by decide)⟩
    · exact ⟨by decide, sampleStump_encodes 0 (by decide) (by decide)⟩

theorem tree_margins_right_two_stumps :
    ∃ m, parseFromJson 3 (sampleForest 0 2) = .ok m ∧ ∀ ops features,
      predictMargin ops m features = .ok ((List.range 2).map ((sampleModel 0 2).margin ops features)) := by
  refine tree_margins_right sampleForest_encodes (by decide)

def sampleFloatOps : FloatOps Int := { lt := fun x y => x < y, isMissing := fun _ => false, add := (· + ·) }

/-- A split on the feature `2 ^ 24` passes the gates, and reads the feature 0. -/
theorem wide_split_misrouted :
    (∃ a, (sampleStump 16777216).arrays = some a ∧ a.ragged = false ∧ a.count = 3 ∧
      a.Is 0 (.split 16777216 5 true (.leaf 1) (.leaf 2))) ∧
    (∃ m, parseFromJson 3 (sampleForest 16777216 16777217) = .ok m ∧
      predictMargin sampleFloatOps m (fun i => if i = 16777216 then 9 else 0) = .ok [11, 21]) ∧
    (List.range 2).map ((sampleModel 16777216 16777217).margin sampleFloatOps fun i => if i = 16777216 then 9
      else 0) =
      [12, 21] :=
  ⟨sampleStump_is 16777216, ⟨_, rfl, rfl⟩, by decide⟩

end TreeWalker

end FoxTrader
