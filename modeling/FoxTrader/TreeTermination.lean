import FoxTrader.Lib.StackSweep
import FoxTrader.TreeMargins

/-! # Whether the parse of an artifact comes to its end

    The sweep that finds the depth of a tree follows children of which the gates know only that they are
    nodes of the tree. It refuses a graph that would overrun its stack, and so a cycle that goes on to the
    right is refused. A cycle that goes on to the left leaves the stack as it is, and the parse goes round
    in it for ever. Every other artifact is refused or parsed, and what is parsed are finite trees within
    the arrays made for them. -/

namespace FoxTrader

open Lib Function

variable {α : Type}

/-- The children of a node in the arrays; a leaf has none. -/
def NodeArrays.children (a : NodeArrays α) (n : Nat) : Option (Nat × Nat) :=
  match a.row n with
  | none => none
  | some r => if r.left = -1 then none else some (r.left.toNat, r.right.toNat)

/-- The gates of the second pass on a node. -/
structure NodeRow.Admitted (r : NodeRow α) (numFeature : Int) (count : Nat) : Prop where
  feat : 0 ≤ r.feat ∧ r.feat < numFeature
  left : 0 ≤ r.left ∧ r.left < count
  right : 0 ≤ r.right ∧ r.right < count

/-- Every node of the arrays passes its gates. -/
def NodeArrays.Admitted (a : NodeArrays α) (numFeature : Int) : Prop :=
  ∀ n < a.count, ∃ r, a.row n = some r ∧ (r.left ≠ -1 → r.Admitted numFeature a.count)

/-- The node arrays of a tree that passes the gates. -/
def TreeJson.Admits (t : TreeJson α) (numFeature : Int) (a : NodeArrays α) : Prop :=
  t.arrays = some a ∧ a.ragged = false ∧ a.Admitted numFeature

/-- The nodes of the artifact's tree are a finite tree below the first. -/
def TreeJson.Finite (t : TreeJson α) (numFeature : Int) : Prop :=
  ∃ a, t.Admits numFeature a ∧ StackSweep.Grounded a.children 0

/-- The sweep of the artifact's tree goes left for ever. -/
def TreeJson.Lingers (t : TreeJson α) (numFeature : Int) : Prop :=
  ∃ a, t.Admits numFeature a ∧ StackSweep.Lingers a.children 0

namespace TreeWalker

/-! ### The two passes -/

/-- What the first pass hands to the second. -/
structure PassOne (α : Type) where
  objective : WalkerObjective
  numClass : Nat
  numFeature : Int
  baseScore : Nat → α
  sizes : Sizes
  trees : List (TreeJson α)
  classes : List Nat

/-- The sizes and the classes of the trees. -/
def sizeTrees (numClass : Nat) (trees : List (TreeJson α)) (treeInfo : List (Option Int)) :
    Except WalkerErr (Sizes × List Nat) := do
  let sizes ← trees.foldlM sizeTree { numTrees := 0, totalNodes := 0 }
  if sizes.numTrees = 0 then .error .shape
  else if sizes.totalNodes > walkerMaxTotalNodes then .error .overCap
  else if treeInfo.length ≠ sizes.numTrees then .error .shape
  else
    let classes ← treeInfo.mapM (classOf numClass)
    return (sizes, classes)

/-- Everything before the first node is filled in. -/
def passOne (doc : ModelJson α) : Except WalkerErr (PassOne α) :=
  match doc.versionMajor with
  | none => .error .json
  | some major =>
    if major ≠ some 3 then .error .version
    else if !doc.hasLearner then .error .json
    else
      match doc.objectiveName, doc.learnerModelParam with
      | none, _ => .error .json
      | some name, params => do
        let objective ← parseObjective name
        match params with
        | none => .error .json
        | some lmp =>
          match lmp.numClass, lmp.numFeature with
          | some classes, some numFeature =>
            let numClass := if classes > 1 then classes.toNat else 1
            if lmp.numTarget.getD 1 ≠ 1 then .error .multiTarget
            else if numClass > walkerMaxClasses then .error .overCap
            else if objective = .softprob ∧ numClass < 2 then .error .shape
            else do
              let baseScore ← parseBaseScore lmp.baseScore numClass
              match doc.gradientBooster with
              | none => .error .json
              | some gb =>
                if gb.name ≠ some "gbtree" then .error .booster
                else if !gb.hasModel then .error .json
                else if gb.numParallelTree.getD 1 ≠ 1 then .error .parallelTree
                else
                  match gb.trees, gb.treeInfo with
                  | some trees, some treeInfo => do
                    let (sizes, classes) ← sizeTrees numClass trees treeInfo
                    return { objective, numClass, numFeature, baseScore, sizes, trees, classes }
                  | _, _ => .error .json
          | _, _ => .error .json

/-- Before the first tree is filled in. -/
def fillStart (p : PassOne α) : FillState α :=
  { nodes := [], roots := { cursor := starts fun c => p.classes.countP (· = c), cells := fun _ => 0 }, maxDepth := 1 }

/-- The fill, and the model it makes. -/
def passTwo [Inhabited α] (fuel : Nat) (p : PassOne α) : Except WalkerErr (FlatTreeModel α) := do
  let treesPerClass := fun c => p.classes.countP (· = c)
  let filled ← (p.trees.zip p.classes).foldlM (fillTree fuel p.numFeature) (fillStart p)
  return { objective := p.objective, numClass := p.numClass, numFeature := p.numFeature, numTrees := p.sizes.numTrees
           maxDepth := filled.maxDepth, totalNodes := p.sizes.totalNodes, treesPerClass, baseScore := p.baseScore
           nodes := filled.nodes, treeRoots := filled.roots.cells, classTreeStart := starts treesPerClass }

theorem parseTrees_eq [Inhabited α] (fuel : Nat) (objective : WalkerObjective) (numClass : Nat) (numFeature : Int)
    (baseScore : Nat → α) (trees : List (TreeJson α)) (treeInfo : List (Option Int)) :
    parseTrees fuel objective numClass numFeature baseScore trees treeInfo =
      sizeTrees numClass trees treeInfo >>= fun s =>
        passTwo fuel { objective, numClass, numFeature, baseScore, sizes := s.1, trees, classes := s.2 } := by
  simp only [parseTrees, sizeTrees]
  cases trees.foldlM sizeTree { numTrees := 0, totalNodes := 0 } with
  | error e => rfl
  | ok sizes =>
    simp only [ok_bind]
    split
    · rfl
    split
    · rfl
    split
    · rfl
    cases treeInfo.mapM (classOf numClass) with
    | error e => rfl
    | ok classes => rfl

/-- The parse is the two passes. -/
theorem parseFromJson_eq [Inhabited α] (fuel : Nat) (doc : ModelJson α) :
    parseFromJson fuel doc = passOne doc >>= passTwo fuel := by
  simp only [parseFromJson, passOne]
  cases doc.versionMajor with
  | none => rfl
  | some major =>
    simp only []
    split
    · rfl
    split
    · rfl
    cases doc.objectiveName with
    | none => rfl
    | some name =>
      simp only []
      cases parseObjective name with
      | error e => rfl
      | ok objective =>
        simp only [ok_bind]
        cases doc.learnerModelParam with
        | none => rfl
        | some lmp =>
          simp only []
          cases lmp.numClass with
          | none => rfl
          | some classes =>
            cases lmp.numFeature with
            | none => rfl
            | some numFeature =>
              simp only []
              generalize (if classes > 1 then classes.toNat else 1) = numClass
              split
              · rfl
              split
              · rfl
              split
              · rfl
              cases parseBaseScore lmp.baseScore numClass with
              | error e => rfl
              | ok baseScore =>
                simp only [ok_bind]
                cases doc.gradientBooster with
                | none => rfl
                | some gb =>
                  simp only []
                  split
                  · rfl
                  split
                  · rfl
                  split
                  · rfl
                  cases gb.trees with
                  | none => rfl
                  | some trees =>
                    cases gb.treeInfo with
                    | none => rfl
                    | some treeInfo =>
                      simp only [parseTrees_eq]
                      cases sizeTrees numClass trees treeInfo with
                      | error e => rfl
                      | ok s => rfl

/-! ### The first pass is not cut off -/

theorem refused {β : Type} {e : WalkerErr} (he : e ≠ .unfinished) :
    (Except.error e : Except WalkerErr β) ≠ .error .unfinished :=
  fun h => he (Except.error.inj h)

theorem parseObjective_ne (name : String) : parseObjective name ≠ .error .unfinished := by
  unfold parseObjective
  split
  · exact ok_ne_error _ _
  · exact ok_ne_error _ _
  · exact ok_ne_error _ _
  · exact refused (by decide)

theorem parseBaseScore_ne (score : Option (BaseScoreJson α)) (numClass : Nat) :
    parseBaseScore score numClass ≠ .error .unfinished := by
  unfold parseBaseScore
  split
  · exact refused (by decide)
  split
  · exact refused (by decide)
  · exact ok_ne_error _ _
  split
  · exact ok_ne_error _ _
  · exact refused (by decide)

theorem checkSplitType_ne (v : Option Int) : checkSplitType v ≠ .error .unfinished := by
  unfold checkSplitType
  split
  · exact refused (by decide)
  split
  · exact refused (by decide)
  · exact ok_ne_error _ _

theorem checkTree_ne (t : TreeJson α) : checkTree t ≠ .error .unfinished := by
  unfold checkTree
  split
  · exact refused (by decide)
  split
  · exact refused (by decide)
  split
  · exact refused (by decide)
  refine bind_ne_error (mapM_ne_error fun v _ => checkSplitType_ne v) fun _ _ => ?_
  split
  · exact refused (by decide)
  · exact ok_ne_error _ _

theorem sizeTree_ne (s : Sizes) (t : TreeJson α) : sizeTree s t ≠ .error .unfinished := by
  unfold sizeTree
  split
  · exact refused (by decide)
  · exact bind_ne_error (checkTree_ne t) fun _ _ => ok_ne_error _ _

theorem classOf_ne (numClass : Nat) (gid : Option Int) : classOf numClass gid ≠ .error .unfinished := by
  unfold classOf
  split
  · exact refused (by decide)
  split
  · exact refused (by decide)
  · exact ok_ne_error _ _

theorem sizeTrees_ne (numClass : Nat) (trees : List (TreeJson α)) (treeInfo : List (Option Int)) :
    sizeTrees numClass trees treeInfo ≠ .error .unfinished := by
  unfold sizeTrees
  refine bind_ne_error (foldlM_ne_error (fun s t _ => sizeTree_ne s t) _) fun _ _ => ?_
  split
  · exact refused (by decide)
  split
  · exact refused (by decide)
  split
  · exact refused (by decide)
  exact bind_ne_error (mapM_ne_error fun gid _ => classOf_ne numClass gid) fun _ _ => ok_ne_error _ _

theorem passOne_ne (doc : ModelJson α) : passOne doc ≠ .error .unfinished := by
  unfold passOne
  split
  · exact refused (by decide)
  split
  · exact refused (by decide)
  split
  · exact refused (by decide)
  split
  · exact refused (by decide)
  refine bind_ne_error (parseObjective_ne _) fun _ _ => ?_
  split
  · exact refused (by decide)
  split
  next classes numFeature _ _ =>
    generalize (if classes > 1 then classes.toNat else 1) = numClass
    simp only []
    split
    · exact refused (by decide)
    split
    · exact refused (by decide)
    split
    · exact refused (by decide)
    refine bind_ne_error (parseBaseScore_ne _ _) fun _ _ => ?_
    split
    · exact refused (by decide)
    split
    · exact refused (by decide)
    split
    · exact refused (by decide)
    split
    · exact refused (by decide)
    split
    · exact bind_ne_error (sizeTrees_ne _ _ _) fun _ _ => ok_ne_error _ _
    · exact refused (by decide)
  next => exact refused (by decide)

/-! ### The first pass counts the nodes -/

/-- A tree has a node, and no more than the sweep has room for. -/
def Sized (t : TreeJson α) : Prop := 0 < t.count ∧ t.count ≤ walkerMaxNodesPerTree

theorem checkTree_sized {t : TreeJson α} {count : Nat} (h : checkTree t = .ok count) : Sized t ∧ count = t.count := by
  unfold checkTree at h
  split at h
  · cases h
  split at h
  · cases h
  next leftChildren hleft =>
    have hcount : t.count = leftChildren.length := by rw [TreeJson.count, hleft, Option.getD_some]
    split at h
    · cases h
    next hsize =>
      obtain ⟨_, _, h⟩ := bind_ok h
      split at h
      · cases h
      · refine ⟨⟨?_, ?_⟩, ?_⟩
        · omega
        · omega
        · rw [hcount, Except.ok.inj h]

theorem sizeTrees_ok_inv {numClass : Nat} {trees : List (TreeJson α)} {treeInfo : List (Option Int)}
    {sizes : Sizes} {classes : List Nat}
    (h : sizeTrees numClass trees treeInfo = .ok (sizes, classes)) :
    trees ≠ [] ∧ sizes.numTrees = trees.length ∧ sizes.totalNodes = (trees.map TreeJson.count).sum ∧
      sizes.totalNodes ≤ walkerMaxTotalNodes ∧ classes.length = trees.length ∧ (∀ c ∈ classes, c < numClass) ∧
      ∀ t ∈ trees, Sized t := by
  unfold sizeTrees at h
  obtain ⟨s, hs, h⟩ := bind_ok h
  split at h
  · cases h
  next hne =>
  split at h
  · cases h
  next hcap =>
  split at h
  · cases h
  next hlength =>
  obtain ⟨cs, hcs, h⟩ := bind_ok h
  obtain ⟨rfl, rfl⟩ := Prod.mk.inj (Except.ok.inj h)
  obtain ⟨hnum, htotal, hsized⟩ := foldlM_ok_inv
    (fun (s : Sizes) (done : List (TreeJson α)) =>
      s.numTrees = done.length ∧ s.totalNodes = (done.map TreeJson.count).sum ∧ ∀ t ∈ done, Sized t) trees
    (by
      rintro s done t rest s' - ⟨hnum, htotal, hsized⟩ hstep
      unfold sizeTree at hstep
      split at hstep
      · cases hstep
      obtain ⟨count, hcount, hstep⟩ := bind_ok hstep
      obtain rfl := Except.ok.inj hstep
      obtain ⟨ht, rfl⟩ := checkTree_sized hcount
      refine ⟨?_, ?_, fun u hu => ?_⟩
      · rw [List.length_append, hnum, List.length_singleton]
      · rw [List.map_append, List.sum_append, htotal, List.map_singleton, List.sum_singleton]
      · rcases List.mem_append.1 hu with hu | hu
        · exact hsized u hu
        · rwa [List.mem_singleton.1 hu])
    ⟨rfl, rfl, fun _ ht => absurd ht List.not_mem_nil⟩ hs
  have hclasses := mapM_ok_iff.1 hcs
  refine ⟨?_, hnum, htotal, Nat.not_lt.1 hcap, ?_, fun c hc => ?_, hsized⟩
  · rintro rfl
    exact hne hnum
  · rw [← hclasses.length_eq, ← hnum]
    exact not_not.1 hlength
  · obtain ⟨i, hi, rfl⟩ := List.getElem_of_mem hc
    have hget := List.Forall₂.get hclasses (i := i) (by rwa [hclasses.length_eq]) hi
    rw [List.get_eq_getElem, List.get_eq_getElem] at hget
    unfold classOf at hget
    split at hget
    · cases hget
    split at hget
    · cases hget
    next hrange =>
      rw [← Except.ok.inj hget]
      omega

/-! ### One tree of the second pass -/

/-- The nodes of a tree. -/
def fillNodes (numFeature : Int) (base : Nat) (t : TreeJson α) : Except WalkerErr (List (FlatTreeNode α)) :=
  match t.arrays with
  | none => .error .json
  | some a => if a.ragged then .error .shape else (List.range a.count).mapM (fillNode numFeature a base)

/-- The children of a flat node. -/
def flatChildren [Inhabited α] (nodes : List (FlatTreeNode α)) (i : Nat) : Option (Nat × Nat) :=
  let nd := nodes.getD i default
  if nd.bits &&& walkerMetaIsLeaf ≠ 0 then none else some (nd.left.toNat, nd.right.toNat)

/-- What the parse makes of the end of a sweep. -/
def ofSweep : StackSweep.SweepEnd → Except WalkerErr Nat
  | .depth d => .ok d
  | .full => .error .shape
  | .unfinished => .error .unfinished

/-- The sweep of the parse is that of the graph of its nodes. -/
theorem depthSweep_eq [Inhabited α] (nodes : List (FlatTreeNode α)) (fuel : Nat) :
    ∀ (stack : List (Nat × Nat)) (treeDepth : Nat),
    depthSweep nodes fuel stack treeDepth =
      ofSweep (StackSweep.sweep (flatChildren nodes) walkerMaxNodesPerTree fuel stack treeDepth) := by
  induction fuel with
  | zero =>
    intro stack treeDepth
    match stack with
    | [] => rfl
    | _ :: _ => rfl
  | succ fuel ih =>
    intro stack treeDepth
    match stack with
    | [] => rfl
    | (ni, dd) :: rest =>
      simp only [depthSweep, StackSweep.sweep, flatChildren]
      split
      next => exact ih rest _
      next =>
        simp only []
        split
        · rfl
        · exact ih _ _

theorem fillTree_eq [Inhabited α] (fuel : Nat) (numFeature : Int) (s : FillState α) (t : TreeJson α × Nat) :
    fillTree fuel numFeature s t = fillNodes numFeature s.nodes.length t.1 >>= fun filled =>
      ofSweep (StackSweep.sweep (flatChildren (s.nodes ++ filled)) walkerMaxNodesPerTree fuel [(s.nodes.length, 1)] 1) >>=
        fun treeDepth => .ok
          { nodes := s.nodes ++ filled, roots := s.roots.place (t.2, .ofNat 32 s.nodes.length)
            maxDepth := max s.maxDepth treeDepth } := by
  simp only [fillTree, fillNodes]
  cases t.1.arrays with
  | none => rfl
  | some a =>
    simp only []
    split
    · rfl
    cases (List.range a.count).mapM (fillNode numFeature a s.nodes.length) with
    | error e => rfl
    | ok filled =>
      simp only [ok_bind, depthSweep_eq]
      rfl

theorem fillNode_ok_iff {numFeature : Int} {a : NodeArrays α} {base n : Nat} {nd : FlatTreeNode α} :
    fillNode numFeature a base n = .ok nd ↔
      ∃ r, a.row n = some r ∧ (r.left ≠ -1 → r.Admitted numFeature a.count) ∧ nd = nodeOf base n r := by
  unfold fillNode
  cases a.row n with
  | none =>
    constructor
    · intro h
      cases h
    · rintro ⟨r, hr, -⟩
      cases hr
  | some r =>
    simp only [Option.some.injEq, exists_eq_left']
    split
    next h =>
      constructor
      · intro h
        cases h
      · rintro ⟨hadmitted, -⟩
        have := (hadmitted h.1).feat
        omega
    next hfeat =>
      split
      next h =>
        constructor
        · intro h
          cases h
        · rintro ⟨hadmitted, -⟩
          have hleft := (hadmitted h.1).left
          have hright := (hadmitted h.1).right
          omega
      next hchild =>
        constructor
        · intro h
          exact ⟨fun hleaf => ⟨by omega, by omega, by omega⟩, (Except.ok.inj h).symm⟩
        · rintro ⟨-, rfl⟩
          rfl

theorem fillNodes_ne (numFeature : Int) (base : Nat) (t : TreeJson α) :
    fillNodes numFeature base t ≠ .error .unfinished := by
  unfold fillNodes
  split
  · exact refused (by decide)
  split
  · exact refused (by decide)
  refine mapM_ne_error fun n _ => ?_
  unfold fillNode
  split
  · exact refused (by decide)
  simp only []
  split
  · exact refused (by decide)
  split
  · exact refused (by decide)
  · exact ok_ne_error _ _

/-- The nodes are filled in if the tree passes its gates. -/
theorem fillNodes_ok {numFeature : Int} {t : TreeJson α} {a : NodeArrays α} (h : t.Admits numFeature a) (base : Nat) :
    ∃ filled, fillNodes numFeature base t = .ok filled := by
  obtain ⟨harrays, hragged, hnodes⟩ := h
  simp only [fillNodes, harrays]
  rw [if_neg (by rw [hragged]; exact Bool.false_ne_true)]
  refine exists_mapM_ok fun n hn => ?_
  obtain ⟨r, hrow, hadmitted⟩ := hnodes n (List.mem_range.1 hn)
  exact ⟨_, fillNode_ok_iff.2 ⟨r, hrow, hadmitted, rfl⟩⟩

/-- Filled in nodes are those of a tree that passes its gates. -/
theorem fillNodes_ok_inv {numFeature : Int} {t : TreeJson α} {base : Nat} {filled : List (FlatTreeNode α)}
    (h : fillNodes numFeature base t = .ok filled) :
    ∃ a, t.Admits numFeature a ∧ filled.length = a.count ∧
      ∀ n < a.count, ∃ r, a.row n = some r ∧ (r.left ≠ -1 → r.Admitted numFeature a.count) ∧
        filled[n]? = some (nodeOf base n r) := by
  unfold fillNodes at h
  split at h
  · cases h
  next a harrays =>
    split at h
    · cases h
    next hragged =>
      have hall := mapM_ok_iff.1 h
      have hlength : filled.length = a.count := by rw [← hall.length_eq, List.length_range]
      have hrows : ∀ n < a.count, ∃ r, a.row n = some r ∧ (r.left ≠ -1 → r.Admitted numFeature a.count) ∧
          filled[n]? = some (nodeOf base n r) := by
        intro n hn
        have hget := List.Forall₂.get hall (i := n) (by rwa [List.length_range]) (by rwa [hlength])
        rw [List.get_eq_getElem, List.getElem_range] at hget
        obtain ⟨r, hrow, hadmitted, hnode⟩ := fillNode_ok_iff.1 hget
        exact ⟨r, hrow, hadmitted, by rw [List.getElem?_eq_getElem (by rwa [hlength]), ← hnode, List.get_eq_getElem]⟩
      refine ⟨a, ⟨harrays, by simpa using hragged, fun n hn => ?_⟩, hlength, hrows⟩
      obtain ⟨r, hrow, hadmitted, -⟩ := hrows n hn
      exact ⟨r, hrow, hadmitted⟩

/-! ### The graph of a tree -/

section Graph

variable {numFeature : Int} {a : NodeArrays α}

/-- The children of a node of the arrays are nodes of the arrays. -/
theorem children_mem (h : a.Admitted numFeature) :
    ∀ n ∈ Finset.range a.count, ∀ l r, a.children n = some (l, r) → l ∈ Finset.range a.count ∧
      r ∈ Finset.range a.count := by
  intro n hn l r hchildren
  obtain ⟨row, hrow, hadmitted⟩ := h n (Finset.mem_range.1 hn)
  simp only [NodeArrays.children, hrow] at hchildren
  split at hchildren
  · cases hchildren
  next hleaf =>
    obtain ⟨rfl, rfl⟩ := Prod.mk.inj (Option.some.inj hchildren)
    have hleft := (hadmitted hleaf).left
    have hright := (hadmitted hleaf).right
    exact ⟨Finset.mem_range.2 (by omega), Finset.mem_range.2 (by omega)⟩

/-- The flat nodes of a tree have its graph. -/
theorem flatChildren_filled [Inhabited α] {nodes filled : List (FlatTreeNode α)}
    (hfits : nodes.length + a.count ≤ walkerMaxTotalNodes)
    (hrows : ∀ n < a.count, ∃ r, a.row n = some r ∧ (r.left ≠ -1 → r.Admitted numFeature a.count) ∧
      filled[n]? = some (nodeOf nodes.length n r)) :
    ∀ n ∈ Finset.range a.count, flatChildren (nodes ++ filled) (nodes.length + n) =
      (a.children n).map (Prod.map (nodes.length + ·) (nodes.length + ·)) := by
  intro n hn
  obtain ⟨r, hrow, hadmitted, hget⟩ := hrows n (Finset.mem_range.1 hn)
  have hnode : (nodes ++ filled).getD (nodes.length + n) default = nodeOf nodes.length n r := by
    rw [List.getD_eq_getElem?_getD, List.getElem?_append_right (Nat.le_add_right ..), Nat.add_sub_cancel_left, hget,
      Option.getD_some]
  simp only [flatChildren, hnode, NodeArrays.children, hrow]
  by_cases hleaf : r.left = -1
  · have hbits : (nodeOf nodes.length n r).bits = packMeta true r.feat r.dflt := by
      simp only [nodeOf, hleaf, decide_true]
    rw [hbits, if_pos (packMeta_leaf r.feat r.dflt), if_pos hleaf, Option.map_none]
  · have hbits : (nodeOf nodes.length n r).bits = packMeta false r.feat r.dflt := by
      simp only [nodeOf, hleaf, decide_false]
    have hleft := (hadmitted hleaf).left
    have hright := (hadmitted hleaf).right
    have hcap : walkerMaxTotalNodes = 131072 := rfl
    rw [hbits, if_neg (not_not.2 (packMeta_split_leaf r.feat r.dflt)), if_neg hleaf, Option.map_some]
    simp only [nodeOf, if_neg hleaf, BitVec.toNat_ofNat, Prod.map_apply]
    rw [Nat.mod_eq_of_lt (by omega), Nat.mod_eq_of_lt (by omega)]

/-- Flat nodes point at nodes of their tree. -/
theorem filled_links {nodes filled : List (FlatTreeNode α)} (hlength : filled.length = a.count)
    (hrows : ∀ n < a.count, ∃ r, a.row n = some r ∧ (r.left ≠ -1 → r.Admitted numFeature a.count) ∧
      filled[n]? = some (nodeOf nodes.length n r)) :
    ∀ nd ∈ filled, nd.left.toNat < nodes.length + a.count ∧ nd.right.toNat < nodes.length + a.count := by
  intro nd hnd
  obtain ⟨n, hn, rfl⟩ := List.getElem_of_mem hnd
  obtain ⟨r, -, hadmitted, hget⟩ := hrows n (by rwa [← hlength])
  rw [List.getElem?_eq_getElem hn] at hget
  rw [Option.some.inj hget]
  simp only [nodeOf, BitVec.toNat_ofNat]
  by_cases hleaf : r.left = -1
  · rw [if_pos hleaf, if_pos hleaf]
    exact ⟨(Nat.mod_le _ _).trans_lt (by omega), (Nat.mod_le _ _).trans_lt (by omega)⟩
  · have hleft := (hadmitted hleaf).left
    have hright := (hadmitted hleaf).right
    rw [if_neg hleaf, if_neg hleaf]
    exact ⟨(Nat.mod_le _ _).trans_lt (by omega), (Nat.mod_le _ _).trans_lt (by omega)⟩

theorem card_range_le {t : TreeJson α} (hadmits : t.Admits numFeature a) (hsized : Sized t) :
    (Finset.range a.count).card ≤ walkerMaxNodesPerTree := by
  rw [Finset.card_range, ← count_of_arrays hadmits.1]
  exact hsized.2

theorem zero_mem_range {t : TreeJson α} (hadmits : t.Admits numFeature a) (hsized : Sized t) :
    0 ∈ Finset.range a.count := by
  rw [Finset.mem_range, ← count_of_arrays hadmits.1]
  exact hsized.1

end Graph

/-- A tree that passes its gates is filled in as the sweep of its own graph says. -/
theorem fillTree_admits [Inhabited α] {numFeature : Int} {s : FillState α} {t : TreeJson α} {a : NodeArrays α}
    (c : Nat)
    (h : t.Admits numFeature a) (hsized : Sized t) (hfits : s.nodes.length + t.count ≤ walkerMaxTotalNodes) :
    ∃ filled, fillNodes numFeature s.nodes.length t = .ok filled ∧ ∀ fuel, fillTree fuel numFeature s (t, c) =
      ofSweep (StackSweep.sweep a.children walkerMaxNodesPerTree fuel [(0, 1)] 1) >>= fun treeDepth => .ok
        { nodes := s.nodes ++ filled, roots := s.roots.place (c, .ofNat 32 s.nodes.length)
          maxDepth := max s.maxDepth treeDepth } := by
  obtain ⟨filled, hfilled⟩ := fillNodes_ok h s.nodes.length
  obtain ⟨a', ha', hlength, hrows⟩ := fillNodes_ok_inv hfilled
  obtain rfl : a = a' := Option.some.inj (h.1.symm.trans ha'.1)
  have hcount := count_of_arrays h.1
  refine ⟨filled, hfilled, fun fuel => ?_⟩
  have hlabel := flatChildren_filled (by rwa [← hcount]) hrows
  have hroot : ∀ p ∈ [(0, 1)], p.1 ∈ Finset.range a.count := by
    intro p hp
    rw [List.mem_singleton.1 hp, Finset.mem_range, ← hcount]
    exact hsized.1
  have hsweep : StackSweep.sweep (flatChildren (s.nodes ++ filled)) walkerMaxNodesPerTree fuel [(s.nodes.length, 1)] 1 = _ :=
    StackSweep.sweep_relabel (children_mem h.2.2) hlabel fuel [(0, 1)] 1 hroot
  rw [fillTree_eq, hfilled, ok_bind, hsweep]

/-! ### Which trees come to an end -/

section Ends

variable [Inhabited α] {numFeature : Int} {s s' : FillState α} {t : TreeJson α} {c fuel : Nat}

theorem ofSweep_ne {e : StackSweep.SweepEnd} : ofSweep e ≠ .error .unfinished ↔ e ≠ .unfinished := by
  cases e with
  | depth d => exact ⟨fun _ h => (by cases h), fun _ => ok_ne_error _ _⟩
  | full => exact ⟨fun _ h => (by cases h), fun _ => refused (by decide)⟩
  | unfinished => exact ⟨fun h => absurd rfl h, fun h => absurd rfl h⟩

/-- More steps do not change how a tree is filled in. -/
theorem fillTree_mono (numFeature : Int) (s : FillState α) (t : TreeJson α × Nat) (fuel k : Nat)
    (h : fillTree fuel numFeature s t ≠ .error .unfinished) :
    fillTree (fuel + k) numFeature s t = fillTree fuel numFeature s t := by
  rw [fillTree_eq] at h ⊢
  rw [fillTree_eq]
  cases hfilled : fillNodes numFeature s.nodes.length t.1 with
  | error e => rfl
  | ok filled =>
    rw [hfilled, ok_bind] at h
    rw [ok_bind, ok_bind, StackSweep.sweep_mono fun hcut => h (by rw [hcut]; rfl)]

theorem fillTrees_mono {trees : List (TreeJson α × Nat)}
    (h : trees.foldlM (fillTree fuel numFeature) s ≠ .error .unfinished) (k : Nat) :
    trees.foldlM (fillTree (fuel + k) numFeature) s = trees.foldlM (fillTree fuel numFeature) s :=
  foldlM_congr_of_ne_error (fun s t => fillTree_mono numFeature s t fuel k) h

/-- The sweep goes left for ever, and the tree is never done. -/
theorem fillTree_lingers (c : Nat) (h : t.Lingers numFeature) (hsized : Sized t)
    (hfits : s.nodes.length + t.count ≤ walkerMaxTotalNodes) (fuel : Nat) :
    fillTree fuel numFeature s (t, c) = .error .unfinished := by
  obtain ⟨a, hadmits, hlingers⟩ := h
  obtain ⟨filled, -, hfill⟩ := fillTree_admits c hadmits hsized hfits
  rw [hfill, hlingers.unfinished (children_mem hadmits.2.2) (zero_mem_range hadmits hsized)
    (card_range_le hadmits hsized)]
  rfl

/-- Any other tree is done. -/
theorem exists_fillTree_ne (c : Nat) (h : ¬t.Lingers numFeature) (hsized : Sized t)
    (hfits : s.nodes.length + t.count ≤ walkerMaxTotalNodes) :
    ∃ fuel, fillTree fuel numFeature s (t, c) ≠ .error .unfinished := by
  cases hfilled : fillNodes numFeature s.nodes.length t with
  | error e =>
    refine ⟨0, ?_⟩
    rw [fillTree_eq, hfilled]
    exact refused fun he => fillNodes_ne numFeature s.nodes.length t (by rw [hfilled, he])
  | ok filled =>
    obtain ⟨a, hadmits, -⟩ := fillNodes_ok_inv hfilled
    obtain ⟨fuel, hends⟩ := (StackSweep.stops_iff (children_mem hadmits.2.2) (zero_mem_range hadmits hsized)
      (card_range_le hadmits hsized)).2 fun hlingers => h ⟨a, hadmits, hlingers⟩
    obtain ⟨filled', -, hfill⟩ := fillTree_admits c hadmits hsized hfits
    refine ⟨fuel, ?_⟩
    rw [hfill]
    exact bind_ne_error (ofSweep_ne.2 hends) fun _ _ => ok_ne_error _ _

/-- A finite tree is filled in. -/
theorem exists_fillTree_ok (c : Nat) (h : t.Finite numFeature) (hsized : Sized t)
    (hfits : s.nodes.length + t.count ≤ walkerMaxTotalNodes) :
    ∃ fuel s', fillTree fuel numFeature s (t, c) = .ok s' := by
  obtain ⟨a, hadmits, d, hdepth⟩ := h
  obtain ⟨filled, -, hfill⟩ := fillTree_admits c hadmits hsized hfits
  have hclosed := children_mem hadmits.2.2
  have hshallow : d ≤ walkerMaxNodesPerTree :=
    (hdepth.le_card hclosed (fun _ hv _ => hv) (zero_mem_range hadmits hsized)).trans (card_range_le hadmits hsized)
  rcases hdepth.leads_or walkerMaxNodesPerTree 1 1 [] with ⟨-, hfull⟩ | ⟨k, -, hleads⟩
  · rw [List.length_nil, Nat.zero_add] at hfull
    exact absurd hshallow (Nat.not_le.2 hfull)
  · have hend : StackSweep.sweep a.children walkerMaxNodesPerTree (0 + k) [(0, 1)] 1 =
      .depth (max 1 (1 + d - 1)) := by
      rw [hleads 0, StackSweep.sweep]
    exact ⟨0 + k, _, by rw [hfill, hend, ofSweep, ok_bind]⟩

/-- A tree that is filled in is a finite one. -/
theorem fillTree_ok_inv (hsized : Sized t) (hfits : s.nodes.length + t.count ≤ walkerMaxTotalNodes)
    (h : fillTree fuel numFeature s (t, c) = .ok s') :
    ∃ a filled d, t.Admits numFeature a ∧ StackSweep.Depth a.children 0 d ∧
      fillNodes numFeature s.nodes.length t = .ok filled ∧
      s' = { nodes := s.nodes ++ filled, roots := s.roots.place (c, .ofNat 32 s.nodes.length), maxDepth := max s.maxDepth d } := by
  have hfilled := h
  rw [fillTree_eq] at hfilled
  obtain ⟨filled, hfilled, -⟩ := bind_ok hfilled
  obtain ⟨a, hadmits, -⟩ := fillNodes_ok_inv hfilled
  obtain ⟨filled', hfilled', hfill⟩ := fillTree_admits c hadmits hsized hfits
  rw [hfill] at h
  obtain ⟨d, hd, h⟩ := bind_ok h
  have hend : StackSweep.sweep a.children walkerMaxNodesPerTree fuel [(0, 1)] 1 = .depth d := by
    cases hend : StackSweep.sweep a.children walkerMaxNodesPerTree fuel [(0, 1)] 1 with
    | depth n =>
      rw [hend] at hd
      rw [Except.ok.inj hd]
    | full =>
      rw [hend] at hd
      cases hd
    | unfinished =>
      rw [hend] at hd
      cases hd
  exact ⟨a, filled', d, hadmits, StackSweep.depth_of_sweep hend, hfilled', (Except.ok.inj h).symm⟩

/-- The fill comes to its end unless a tree that lingers comes after finite ones. -/
theorem fillTrees_ends_iff : ∀ {trees : List (TreeJson α × Nat)} {s : FillState α}, (∀ t ∈ trees, Sized t.1) →
    s.nodes.length + (trees.map fun t => t.1.count).sum ≤ walkerMaxTotalNodes →
    ((∃ fuel, trees.foldlM (fillTree fuel numFeature) s ≠ .error .unfinished) ↔
      ∀ before t after, trees.map (·.1) = before ++ t :: after → (∀ u ∈ before, u.Finite numFeature) →
        ¬t.Lingers numFeature) := by
  intro trees
  induction trees with
  | nil =>
    intro s _ _
    refine ⟨fun _ before t after h => ?_, fun _ => ⟨0, ok_ne_error _ _⟩⟩
    exact absurd h.symm (List.append_ne_nil_of_right_ne_nil before (List.cons_ne_nil t after))
  | cons t ts ih =>
    intro s hsized hfits
    obtain ⟨t, c⟩ := t
    rw [List.map_cons, List.sum_cons] at hfits
    change s.nodes.length + (t.count + (ts.map fun t => t.1.count).sum) ≤ walkerMaxTotalNodes at hfits
    have ht : Sized t := hsized _ List.mem_cons_self
    have hroom : s.nodes.length + t.count ≤ walkerMaxTotalNodes := by omega
    have hnext : ∀ {fuel s'}, fillTree fuel numFeature s (t, c) = .ok s' →
        s'.nodes.length + (ts.map fun t => t.1.count).sum ≤ walkerMaxTotalNodes := by
      intro fuel s' hs'
      obtain ⟨a, filled, d, hadmits, -, hfilled, rfl⟩ := fillTree_ok_inv ht hroom hs'
      obtain ⟨a', ha', hlength, -⟩ := fillNodes_ok_inv hfilled
      rw [List.length_append, hlength, ← count_of_arrays ha'.1]
      omega
    have hrest : ∀ u ∈ ts, Sized u.1 := fun u hu => hsized u (List.mem_cons_of_mem _ hu)
    constructor
    · rintro ⟨fuel, hends⟩ before u after hsplit hfinite
      rw [List.foldlM_cons] at hends
      have hfirst : fillTree fuel numFeature s (t, c) ≠ .error .unfinished := fun hcut => hends (by rw [hcut]; rfl)
      match before with
      | [] =>
        obtain ⟨rfl, -⟩ := List.cons.inj hsplit
        exact fun hlingers => hfirst (fillTree_lingers c hlingers ht hroom fuel)
      | b :: before =>
        obtain ⟨rfl, htail⟩ := List.cons.inj hsplit
        obtain ⟨fuel', s', hok⟩ := exists_fillTree_ok c (hfinite _ List.mem_cons_self) ht hroom
        have hsame : fillTree fuel numFeature s (t, c) = .ok s' := by
          rw [← fillTree_mono numFeature s (t, c) fuel fuel' hfirst, Nat.add_comm,
            fillTree_mono numFeature s (t, c) fuel' fuel (by rw [hok]; exact ok_ne_error _ _), hok]
        rw [hsame, ok_bind] at hends
        exact (ih hrest (hnext hok)).1 ⟨fuel, hends⟩ before u after htail fun w hw =>
          hfinite w (List.mem_cons_of_mem _ hw)
    · intro hno
      have hstays : ¬t.Lingers numFeature := hno [] t (ts.map (·.1)) rfl fun _ hu => absurd hu List.not_mem_nil
      obtain ⟨k, hk⟩ := exists_fillTree_ne c hstays ht hroom
      cases hfirst : fillTree k numFeature s (t, c) with
      | error e =>
        refine ⟨k, ?_⟩
        rw [List.foldlM_cons, hfirst]
        exact refused fun he => hk (by rw [hfirst, he])
      | ok s' =>
        obtain ⟨a, filled, d, hadmits, hdepth, -, -⟩ := fillTree_ok_inv ht hroom hfirst
        obtain ⟨fuel, hends⟩ := (ih hrest (hnext hfirst)).2 fun before u after hsplit hfinite =>
          hno (t :: before) u after (by rw [List.map_cons, hsplit, List.cons_append]) fun w hw => by
            rcases List.mem_cons.1 hw with rfl | hw
            · exact ⟨a, hadmits, d, hdepth⟩
            · exact hfinite w hw
        refine ⟨fuel + k, ?_⟩
        rw [List.foldlM_cons, Nat.add_comm, fillTree_mono numFeature s (t, c) k fuel hk, hfirst, ok_bind,
          Nat.add_comm,
          fillTrees_mono hends]
        exact hends

end Ends

/-! ### What is parsed -/

/-- A model all of whose trees are finite and within its arrays: the depth is that of the longest way from
    a root to a leaf, and the cells behind the roots are as they were. -/
structure Sound [Inhabited α] (m : FlatTreeModel α) : Prop where
  nodes : m.nodes.length = m.totalNodes
  links : ∀ nd ∈ m.nodes, nd.left.toNat < m.totalNodes ∧ nd.right.toNat < m.totalNodes
  numClass : m.numClass ≤ walkerMaxClasses
  classes : ∀ c < m.numClass, m.classTreeStart c + m.treesPerClass c ≤ m.numTrees
  noOthers : ∀ c, m.numClass ≤ c → m.treesPerClass c = 0
  roots : ∀ i < m.numTrees, (m.treeRoots i).toNat < m.totalNodes
  behind : ∀ i, m.numTrees ≤ i → m.treeRoots i = 0
  wellFounded : ∀ i < m.numTrees, Acc (StackSweep.Child (flatChildren m.nodes)) (m.treeRoots i).toNat
  maxDepth : IsGreatest {n | ∃ i < m.numTrees, StackSweep.Way (flatChildren m.nodes) (m.treeRoots i).toNat n} m.maxDepth

/-- What the second pass has written after some of the trees: each with its class, its root and its depth. -/
structure Written [Inhabited α] (start : Nat → Nat) (s : FillState α) (done : List (TreeJson α × Nat))
    (items : List (Nat × Nat × Nat)) : Prop where
  classes : items.map (·.1) = done.map (·.2)
  roots : s.roots = (items.map fun item => (item.1, BitVec.ofNat 32 item.2.1)).foldl Buckets.place
    { cursor := start, cells := fun _ => (0 : BitVec 32) }
  length : s.nodes.length = (done.map fun t => t.1.count).sum
  links : ∀ nd ∈ s.nodes, nd.left.toNat < s.nodes.length ∧ nd.right.toNat < s.nodes.length
  trees : ∀ item ∈ items, item.2.1 < s.nodes.length ∧ StackSweep.Depth (flatChildren s.nodes) item.2.1 item.2.2 ∧
    item.2.2 ≤ s.maxDepth
  deepest : s.maxDepth = 1 ∨ ∃ item ∈ items, item.2.2 = s.maxDepth

section Written

variable [Inhabited α]

theorem flatChildren_append {nodes : List (FlatTreeNode α)} (more : List (FlatTreeNode α)) {v : Nat}
    (hv : v < nodes.length) :
    flatChildren (nodes ++ more) v = flatChildren nodes v := by
  simp only [flatChildren, List.getD_eq_getElem?_getD, List.getElem?_append_left hv]

theorem flatChildren_mem {nodes : List (FlatTreeNode α)}
    (h : ∀ nd ∈ nodes, nd.left.toNat < nodes.length ∧ nd.right.toNat < nodes.length) :
    ∀ v ∈ Finset.range nodes.length, ∀ l r, flatChildren nodes v = some (l, r) →
      l ∈ Finset.range nodes.length ∧ r ∈ Finset.range nodes.length := by
  intro v hv l r hchildren
  have hget := List.getElem?_eq_getElem (Finset.mem_range.1 hv)
  simp only [flatChildren, getD_of_getElem? hget] at hchildren
  split at hchildren
  · cases hchildren
  · obtain ⟨rfl, rfl⟩ := Prod.mk.inj (Option.some.inj hchildren)
    obtain ⟨hleft, hright⟩ := h _ (List.getElem_mem (Finset.mem_range.1 hv))
    exact ⟨Finset.mem_range.2 hleft, Finset.mem_range.2 hright⟩

/-- More nodes behind the trees do not change their depths. -/
theorem depth_append {nodes : List (FlatTreeNode α)} (more : List (FlatTreeNode α))
    (h : ∀ nd ∈ nodes, nd.left.toNat < nodes.length ∧ nd.right.toNat < nodes.length) {v d : Nat}
    (hv : v < nodes.length)
    (hd : StackSweep.Depth (flatChildren nodes) v d) : StackSweep.Depth (flatChildren (nodes ++ more)) v d := by
  have hlabel : ∀ v ∈ Finset.range nodes.length,
      flatChildren (nodes ++ more) (id v) = (flatChildren nodes v).map (Prod.map id id) := by
    intro v hv
    rw [Prod.map_id, Option.map_id, id, id, flatChildren_append more (Finset.mem_range.1 hv)]
  exact (StackSweep.depth_relabel (flatChildren_mem h) hlabel (Finset.mem_range.2 hv)).2 hd

theorem Written.fillTree {fuel : Nat} {numFeature : Int} {start : Nat → Nat} {s s' : FillState α}
    {done : List (TreeJson α × Nat)}
    {items : List (Nat × Nat × Nat)} (h : Written start s done items) {t : TreeJson α × Nat} (hsized : Sized t.1)
    (hfits : ((done ++ [t]).map fun t => t.1.count).sum ≤ walkerMaxTotalNodes)
    (hfill : TreeWalker.fillTree fuel numFeature s t = .ok s') :
    ∃ item, Written start s' (done ++ [t]) (items ++ [item]) := by
  have hsum : ((done ++ [t]).map fun t => t.1.count).sum = s.nodes.length + t.1.count := by
    rw [h.length, List.map_append, List.sum_append, List.map_singleton, List.sum_singleton]
  rw [hsum] at hfits
  obtain ⟨a, filled, d, hadmits, hdepth, hfilled, rfl⟩ := fillTree_ok_inv hsized hfits hfill
  obtain ⟨a', ha', hlength, hrows⟩ := fillNodes_ok_inv hfilled
  obtain rfl : a = a' := Option.some.inj (hadmits.1.symm.trans ha'.1)
  have hcount := count_of_arrays hadmits.1
  have hnew : StackSweep.Depth (flatChildren (s.nodes ++ filled)) (s.nodes.length + 0) d :=
    (StackSweep.depth_relabel (children_mem hadmits.2.2) (flatChildren_filled (by rwa [← hcount]) hrows)
      (zero_mem_range hadmits hsized)).2 hdepth
  have hmore : (s.nodes ++ filled).length = s.nodes.length + a.count := by rw [List.length_append, hlength]
  have hpos : 0 < a.count := hcount ▸ hsized.1
  refine ⟨(t.2, s.nodes.length, d), ?_, ?_, ?_, fun nd hnd => ?_, fun item hitem => ?_, ?_⟩
  · rw [List.map_append, List.map_append, h.classes]
    rfl
  · rw [List.map_append, List.foldl_append, ← h.roots]
    rfl
  · rw [hsum, hcount, hmore]
  · simp only [hmore]
    rcases List.mem_append.1 hnd with hnd | hnd
    · have hlinks := h.links nd hnd
      omega
    · exact filled_links hlength hrows nd hnd
  · simp only [hmore]
    rcases List.mem_append.1 hitem with hitem | hitem
    · obtain ⟨hlt, hold, hle⟩ := h.trees item hitem
      exact ⟨by omega, depth_append filled h.links hlt hold, by omega⟩
    · rw [List.mem_singleton.1 hitem]
      exact ⟨Nat.lt_add_of_pos_right hpos, hnew, le_max_right _ _⟩
  · rcases Nat.lt_or_ge s.maxDepth d with hlt | hge
    · exact .inr ⟨_, List.mem_append_right _ List.mem_cons_self, (max_eq_right hlt.le).symm⟩
    · simp only [max_eq_left hge]
      rcases h.deepest with hone | ⟨item, hitem, heq⟩
      · exact .inl hone
      · exact .inr ⟨item, List.mem_append_left _ hitem, heq⟩

end Written

/-- What the first pass has found out. -/
theorem passOne_ok_inv {doc : ModelJson α} {p : PassOne α} (h : passOne doc = .ok p) :
    p.numClass ≤ walkerMaxClasses ∧ ∃ treeInfo, sizeTrees p.numClass p.trees treeInfo = .ok (p.sizes, p.classes) := by
  unfold passOne at h
  split at h
  · cases h
  split at h
  · cases h
  split at h
  · cases h
  split at h
  · cases h
  obtain ⟨objective, -, h⟩ := bind_ok h
  split at h
  · cases h
  split at h
  next classes numFeature _ _ =>
    generalize (if classes > 1 then classes.toNat else 1) = numClass at h
    simp only [] at h
    split at h
    · cases h
    split at h
    · cases h
    next hcap =>
    split at h
    · cases h
    obtain ⟨baseScore, -, h⟩ := bind_ok h
    split at h
    · cases h
    split at h
    · cases h
    split at h
    · cases h
    split at h
    · cases h
    split at h
    next trees treeInfo _ _ =>
      obtain ⟨s, hs, h⟩ := bind_ok h
      obtain rfl := Except.ok.inj h
      exact ⟨Nat.not_lt.1 hcap, treeInfo, hs⟩
    next => cases h
  next => cases h

/-- The fill of all trees, from the first on. -/
theorem exists_written [Inhabited α] {fuel : Nat} {numFeature : Int} {start : Nat → Nat}
    {trees : List (TreeJson α × Nat)}
    {s : FillState α} (hsized : ∀ t ∈ trees, Sized t.1)
    (hfits : (trees.map fun t => t.1.count).sum ≤ walkerMaxTotalNodes)
    (h : trees.foldlM (fillTree fuel numFeature)
      { nodes := [], roots := { cursor := start, cells := fun _ => 0 }, maxDepth := 1 } = .ok s) :
    ∃ items, Written start s trees items := by
  refine foldlM_ok_inv (fun s done => ∃ items, Written start s done items) trees ?_ ⟨[], ?_⟩ h
  · rintro s done t rest s' rfl ⟨items, hitems⟩ hfill
    have hprefix : ((done ++ [t]).map fun t => t.1.count).sum ≤ walkerMaxTotalNodes := by
      rw [List.append_cons, List.map_append, List.sum_append] at hfits
      exact Nat.le_trans (Nat.le_add_right ..) hfits
    obtain ⟨item, hitem⟩ := hitems.fillTree (hsized t (List.mem_append_right _ List.mem_cons_self)) hprefix hfill
    exact ⟨_, hitem⟩
  · exact
      { classes := rfl, roots := rfl, length := rfl, links := fun _ hnd => absurd hnd List.not_mem_nil
        trees := fun _ hitem => absurd hitem List.not_mem_nil, deepest := .inl rfl }

section Slots

variable [Inhabited α] {counts : Nat → Nat} {s : FillState α} {done : List (TreeJson α × Nat)}
    {items : List (Nat × Nat × Nat)}

/-- The roots by class. -/
def rootCells (items : List (Nat × Nat × Nat)) : List (Nat × BitVec 32) :=
  items.map fun item => (item.1, BitVec.ofNat 32 item.2.1)

theorem Written.roots_eq (h : Written (starts counts) s done items)
    (hcounts : counts = fun c => (bucket c (rootCells items)).length) :
    s.roots = Buckets.layout (fun _ => 0) (rootCells items) := by
  rw [h.roots, hcounts]
  rfl

theorem Written.root_toNat (h : Written (starts counts) s done items) (hfits : s.nodes.length ≤ walkerMaxTotalNodes)
    {item : Nat × Nat × Nat} (hitem : item ∈ items) : (BitVec.ofNat 32 item.2.1).toNat = item.2.1 := by
  have hlt := (h.trees item hitem).1
  have hmax : walkerMaxTotalNodes = 131072 := rfl
  rw [BitVec.toNat_ofNat, Nat.mod_eq_of_lt (by omega)]

/-- Every cell of the classes holds the root of a tree. -/
theorem Written.exists_item (h : Written (starts counts) s done items) (hfits : s.nodes.length ≤ walkerMaxTotalNodes)
    (hcounts : counts = fun c => (bucket c (rootCells items)).length) {n i : Nat} (hi : i < starts counts n) :
    ∃ item ∈ items, (s.roots.cells i).toNat = item.2.1 := by
  rw [hcounts] at hi
  obtain ⟨c, -, j, hj, rfl⟩ := exists_stretch _ hi
  have hread :=
    (Buckets.holds_layout (fun _ => (0 : BitVec 32)) (rootCells items)).cells c j _
      (List.getElem?_eq_getElem hj)
  obtain ⟨item, hitem, heq⟩ := List.mem_map.1 (mem_bucket.1 (List.getElem_mem hj))
  exact ⟨item, hitem, by rw [h.roots_eq hcounts, hread, ← (Prod.mk.inj heq).2, h.root_toNat hfits hitem]⟩

/-- Every tree has its root in a cell of its class. -/
theorem Written.exists_slot (h : Written (starts counts) s done items) (hfits : s.nodes.length ≤ walkerMaxTotalNodes)
    (hcounts : counts = fun c => (bucket c (rootCells items)).length) {n : Nat} {item : Nat × Nat × Nat}
    (hitem : item ∈ items)
    (hclass : item.1 < n) : ∃ i < starts counts n, (s.roots.cells i).toNat = item.2.1 := by
  have hmem : BitVec.ofNat 32 item.2.1 ∈ bucket item.1 (rootCells items) :=
    mem_bucket.2 (List.mem_map.2 ⟨item, hitem, rfl⟩)
  obtain ⟨j, hj, heq⟩ := List.getElem_of_mem hmem
  have hread :=
    (Buckets.holds_layout (fun _ => (0 : BitVec 32)) (rootCells items)).cells item.1 j _
      (List.getElem?_eq_getElem hj)
  have hstretch := starts_add_le (fun c => (bucket c (rootCells items)).length) hclass
  refine ⟨starts (fun c => (bucket c (rootCells items)).length) item.1 + j, by rw [hcounts]; omega, ?_⟩
  rw [h.roots_eq hcounts, hread, heq, h.root_toNat hfits hitem]

/-- The depth is that of the longest way from a root to a leaf. -/
theorem Written.isGreatest (h : Written (starts counts) s done items) (hfits : s.nodes.length ≤ walkerMaxTotalNodes)
    (hcounts : counts = fun c => (bucket c (rootCells items)).length) {n : Nat}
    (hclasses : ∀ item ∈ items, item.1 < n)
    (hne : items ≠ []) :
    IsGreatest {d | ∃ i < starts counts n, StackSweep.Way (flatChildren s.nodes) (s.roots.cells i).toNat d} s.maxDepth := by
  constructor
  · obtain ⟨item, hitem, hle⟩ : ∃ item ∈ items, s.maxDepth ≤ item.2.2 := by
      rcases h.deepest with hone | ⟨item, hitem, heq⟩
      · obtain ⟨item, hitem⟩ := List.exists_mem_of_ne_nil items hne
        exact ⟨item, hitem, by rw [hone]; exact (h.trees item hitem).2.1.pos⟩
      · exact ⟨item, hitem, heq.ge⟩
    obtain ⟨i, hi, heq⟩ := h.exists_slot hfits hcounts hitem (hclasses item hitem)
    obtain ⟨-, hdepth, hge⟩ := h.trees item hitem
    refine ⟨i, hi, ?_⟩
    rw [heq, Nat.le_antisymm hle hge]
    exact hdepth.isGreatest.1
  · rintro d ⟨i, hi, hway⟩
    obtain ⟨item, hitem, heq⟩ := h.exists_item hfits hcounts hi
    obtain ⟨-, hdepth, hle⟩ := h.trees item hitem
    rw [heq] at hway
    exact (hdepth.isGreatest.2 hway).trans hle

end Slots

/-- A model that is parsed is sound. -/
theorem passTwo_sound [Inhabited α] {fuel : Nat} {doc : ModelJson α} {p : PassOne α} {m : FlatTreeModel α}
    (hone : passOne doc = .ok p) (h : passTwo fuel p = .ok m) : Sound m := by
  obtain ⟨hcap, treeInfo, hsizes⟩ := passOne_ok_inv hone
  obtain ⟨hne, hnum, htotal, hfits, hlength, hclasses, hsized⟩ := sizeTrees_ok_inv hsizes
  unfold passTwo at h
  obtain ⟨s, hs, h⟩ := bind_ok h
  obtain rfl := Except.ok.inj h
  have hfst : (p.trees.zip p.classes).map (·.1) = p.trees := List.map_fst_zip hlength.ge
  have hsnd : (p.trees.zip p.classes).map (·.2) = p.classes := List.map_snd_zip hlength.le
  have hsum : ((p.trees.zip p.classes).map fun t => t.1.count).sum = p.sizes.totalNodes := by
    rw [htotal, ← hfst, List.map_map, hfst]
    rfl
  obtain ⟨items, hwritten⟩ :=
    exists_written (fun t ht => hsized _ (List.of_mem_zip ht).1) (by rw [hsum]; exact hfits) hs
  have hkeys : items.map (·.1) = p.classes := by rw [hwritten.classes, hsnd]
  have hnodes : s.nodes.length = p.sizes.totalNodes := hwritten.length.trans hsum
  have hcap' : s.nodes.length ≤ walkerMaxTotalNodes := by rwa [hnodes]
  have hcounts : (fun c => p.classes.countP (· = c)) = fun c => (bucket c (rootCells items)).length := by
    funext c
    rw [bucket_length, rootCells, List.map_map]
    exact congrArg (List.countP _) hkeys.symm
  have htrees : starts (fun c => p.classes.countP (· = c)) p.numClass = p.sizes.numTrees := by
    rw [starts_countP, List.countP_eq_length.2 fun c hc => decide_eq_true (hclasses c hc), hlength, hnum]
  have hitems : ∀ item ∈ items, item.1 < p.numClass := fun item hitem =>
    hclasses _ (by rw [← hkeys]; exact List.mem_map_of_mem hitem)
  have hsome : items ≠ [] := by
    rintro rfl
    rw [← hkeys, List.map_nil, List.length_nil] at hlength
    exact hne (List.length_eq_zero_iff.1 hlength.symm)
  have hgreatest := hwritten.isGreatest hcap' hcounts hitems hsome
  have hroot : ∀ i < p.sizes.numTrees, ∃ item ∈ items, (s.roots.cells i).toNat = item.2.1 := by
    rw [← htrees]
    exact fun i hi => hwritten.exists_item hcap' hcounts hi
  refine ⟨hnodes, ?_, hcap, fun c hc => ?_, fun c hc => ?_, fun i hi => ?_, fun i hi => ?_, fun i hi => ?_, ?_⟩
  · simp only [← hnodes]
    exact hwritten.links
  · simp only [← htrees]
    exact starts_add_le _ hc
  · refine List.countP_eq_zero.2 fun k hk => ?_
    simp only [decide_eq_true_eq]
    exact Nat.ne_of_lt ((hclasses k hk).trans_le hc)
  · obtain ⟨item, hitem, heq⟩ := hroot i hi
    simp only [← hnodes, heq]
    exact (hwritten.trees item hitem).1
  · simp only [hwritten.roots_eq hcounts]
    refine Buckets.layout_cells_of_le _ (fun cell hcell => ?_) (by rw [← hcounts, htrees]; exact hi)
    obtain ⟨item, hitem, rfl⟩ := List.mem_map.1 hcell
    exact hitems item hitem
  · obtain ⟨item, hitem, heq⟩ := hroot i hi
    simp only [heq]
    exact StackSweep.grounded_iff_acc.1 ⟨_, (hwritten.trees item hitem).2.1⟩
  · rw [htrees] at hgreatest
    exact hgreatest

theorem passTwo_ne_iff [Inhabited α] (fuel : Nat) (p : PassOne α) : passTwo fuel p ≠ .error .unfinished ↔
    (p.trees.zip p.classes).foldlM (fillTree fuel p.numFeature) (fillStart p) ≠ .error .unfinished := by
  simp only [passTwo]
  constructor
  · intro h hcut
    exact h (by rw [hcut]; rfl)
  · exact fun h => bind_ne_error h fun _ _ => ok_ne_error _ _

/-- No tree that the fill comes to lingers. -/
def NoLinger (doc : ModelJson α) : Prop :=
  ∀ p, passOne doc = .ok p → ∀ before t after, p.trees = before ++ t :: after →
    (∀ u ∈ before, u.Finite p.numFeature) → ¬t.Lingers p.numFeature

/-- The second pass comes to its end unless the fill comes to a tree that lingers. -/
theorem passTwo_ends_iff [Inhabited α] {doc : ModelJson α} {p : PassOne α} (hone : passOne doc = .ok p) :
    (∃ fuel, passTwo fuel p ≠ .error .unfinished) ↔ NoLinger doc := by
  obtain ⟨-, treeInfo, hsizes⟩ := passOne_ok_inv hone
  obtain ⟨-, -, htotal, hfits, hlength, -, hsized⟩ := sizeTrees_ok_inv hsizes
  have hfst : (p.trees.zip p.classes).map (·.1) = p.trees := List.map_fst_zip hlength.ge
  have hsum : (fillStart p).nodes.length + ((p.trees.zip p.classes).map fun t => t.1.count).sum ≤
    walkerMaxTotalNodes := by
    rw [htotal, ← hfst, List.map_map] at hfits
    rw [fillStart, List.length_nil, Nat.zero_add]
    exact hfits
  simp only [passTwo_ne_iff]
  rw [fillTrees_ends_iff (fun t ht => hsized _ (List.of_mem_zip ht).1) hsum, hfst]
  constructor
  · intro h q hq
    rw [hone] at hq
    obtain rfl := Except.ok.inj hq
    exact h
  · exact fun h => h p hone

/-- The parse comes to its end, and what it parses is sound, just if the fill comes to no tree that
    lingers: one whose gates are passed, whose nodes are no finite tree, and where the way that turns
    right wherever the right child is no finite tree goes only left from some node on. -/
theorem parseFromJson_sound_iff [Inhabited α] (doc : ModelJson α) :
    ((∃ fuel, parseFromJson fuel doc ≠ .error .unfinished) ∧ ∀ fuel m, parseFromJson fuel doc = .ok m → Sound m) ↔
      NoLinger doc := by
  simp only [parseFromJson_eq]
  cases hone : passOne doc with
  | error e =>
    constructor
    · intro _ p hp
      rw [hone] at hp
      cases hp
    · intro _
      refine ⟨⟨0, fun he => passOne_ne doc (by rw [hone, Except.error.inj he])⟩, fun _ _ hm => ?_⟩
      cases hm
  | ok p =>
    simp only [ok_bind, passTwo_ends_iff hone]
    exact ⟨And.left, fun hno => ⟨hno, fun fuel m hm => passTwo_sound hone hm⟩⟩

/-- A split whose left child is itself, and a leaf. -/
def leftLoop : TreeJson Int :=
  { sizeLeafVector := some 1, splitType := some [some 0, some 0], categoriesCount := some 0
    splitConditions := some [some 5, some 1], splitIndices := some [some 0, some 0]
    leftChildren := some [some 0, some (-1)], rightChildren := some [some 1, some (-1)]
    defaultLeft := some [some 0, some 0] }

/-- An artifact with that tree only. -/
def leftLoopForest : ModelJson Int :=
  { versionMajor := some (some 3), hasLearner := true, objectiveName := some "reg:squarederror"
    learnerModelParam := some
      { numClass := some 0, numFeature := some 1, numTarget := some 1, baseScore := some { isVec := false, values := [0] } }
    gradientBooster := some
      { name := some "gbtree", hasModel := true, numParallelTree := some 1, trees := some [leftLoop], treeInfo := some [some 0] } }

theorem leftLoop_lingers : leftLoop.Lingers 1 := by
  refine ⟨⟨[some 5, some 1], [some 0, some 0], [some 0, some (-1)], [some 1, some (-1)], [some 0, some 0]⟩,
    ⟨rfl, rfl, ?_⟩, ?_⟩
  · intro n hn
    match n, hn with
    | 0, _ => exact ⟨⟨5, 0, 0, 1, 0⟩, rfl, fun _ => ⟨by decide, by decide, by decide⟩⟩
    | 1, _ => exact ⟨⟨1, 0, -1, -1, 0⟩, rfl, fun hleaf => absurd rfl hleaf⟩
  · generalize hchildren : NodeArrays.children _ = children
    have hroot : children 0 = some (0, 1) := by rw [← hchildren]; rfl
    have hleaf : StackSweep.Grounded children 1 := ⟨1, .leaf (by rw [← hchildren]; rfl)⟩
    have hstay : ∀ i, (StackSweep.descent children)^[i] 0 = 0 := iterate_fixed (StackSweep.descent_left hroot hleaf)
    refine ⟨fun hground => ?_, 0, fun i _ => ?_⟩
    · obtain ⟨d, hd⟩ := hground
      obtain ⟨b, hb⟩ := hleaf
      have hdeeper := hd.unique (.node hroot hd hb)
      omega
    · rw [hstay, StackSweep.turnsRight_iff hroot]
      exact not_not.2 hleaf

/-- On a split that is its own left child the sweep goes round for ever. -/
theorem parseFromJson_never_ends :
    ¬((∃ fuel, parseFromJson fuel leftLoopForest ≠ .error .unfinished) ∧
      ∀ fuel m, parseFromJson fuel leftLoopForest = .ok m → Sound m) := by
  rintro ⟨⟨fuel, hends⟩, -⟩
  rw [parseFromJson_eq] at hends
  have hone : passOne leftLoopForest = .ok _ := rfl
  have hno := (passTwo_ends_iff hone).1 ⟨fuel, hends⟩
  exact hno _ rfl [] leftLoop [] rfl (fun _ hu => absurd hu List.not_mem_nil) leftLoop_lingers

end TreeWalker

end FoxTrader
