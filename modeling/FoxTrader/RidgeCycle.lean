import FoxTrader.EnsembleModelZoo
import FoxTrader.Lib.SlidingWindow
import FoxTrader.RidgeCorrelation

/-! # The two modes of a ridge cycle

    Every cycle records a vector of predictions and asks for the correlations of the last 64. The full mode
    walks them back from the head of the ring, the online mode adds the latest to its sums and, once it has
    added 64, takes away the one before its window.

    The first cycle leaves before the online mode has added its vector, so that it is one behind until its
    window is full: at the second cycle the two statuses differ (`ridgeCycles_agree_iff`), and from the
    sixty-fifth on the two modes have the same sums (`ridgeCycles_agree_of_full`). -/

namespace FoxTrader

open Lib Finset

variable {K : Type*} [Field K] [LinearOrder K]

def ridgeHistoryDepth : ℕ := 64

/-- `RidgeBlender_UpdateOnline`. -/
def updateOnline (m : ℕ) (rw' : RidgeWeights K) (new : ℕ → K) (oldest : Option (ℕ → K)) (nModels : ℤ) :
    RidgeWeights K :=
  if nModels < 1 then rw'
  else
    let n := modelCount nModels m
    match oldest with
    | none =>
      { rw' with
        onlineSumX := fillCells n (fun i => rw'.onlineSumX i + new i) rw'.onlineSumX
        onlineSumXX := fun i => if i < n then
          fillCells n (fun j => rw'.onlineSumXX i j + new i * new j) (rw'.onlineSumXX i) else rw'.onlineSumXX i
        onlineWindowCount := rw'.onlineWindowCount + 1 }
    | some old =>
      { rw' with
        onlineSumX := fillCells n (fun i => rw'.onlineSumX i + (new i - old i)) rw'.onlineSumX
        onlineSumXX := fun i => if i < n then
          fillCells n (fun j => rw'.onlineSumXX i j + (new i * new j - old i * old j)) (rw'.onlineSumXX i)
          else rw'.onlineSumXX i }

/-- `RidgeBlender_BuildHistoryFromRing`: the predictions of the last slots, the latest first. -/
def buildHistoryFromRing (ring : ℕ → PredictionRecord K) (ringHead ringSize predictCallCount : ℕ) :
    List (ℕ → K) :=
  let avail := if predictCallCount < ridgeHistoryDepth then predictCallCount else ridgeHistoryDepth
  (List.range avail).map fun k => (ring ((ringHead + ringSize - 1 - k) % ringSize)).predictions

/-- The sums of a history. -/
def historySums (n : ℕ) (history : List (ℕ → K)) : CorrSums K where
  sumX := fillCells n (fun i => history.foldl (fun s x => s + x i) 0) fun _ => 0
  sumXX := fun i => if i < n then fillCells n (fun j => history.foldl (fun s x => s + x i * x j) 0) fun _ => 0
    else fun _ => 0
  windowCount := history.length

/-- `RidgeBlender_BuildCorr`. -/
def buildCorr (sqrt : K → K) (m : ℕ) (corr : ℕ → ℕ → K) (history : List (ℕ → K)) (nModels : ℤ) : ℕ → ℕ → K :=
  if history.length < 2 || decide (nModels < 1) then identityCorr m corr
  else finalizeCorrFromSums sqrt m corr (historySums (modelCount nModels m) history) nModels

/-- `RidgeBlender_OnlineCycleStep`. -/
def onlineCycleStep (sqrt : K → K) (m : ℕ) (rw' : RidgeWeights K) (ring : ℕ → PredictionRecord K)
    (ringHead ringSize predictCallCount : ℕ) (nModels : ℤ) (useOnlineIncremental : Bool) : ℤ × RidgeWeights K :=
  if nModels < 1 || ringSize < 1 || predictCallCount < 2 then (-1, rw')
  else if useOnlineIncremental then
    let latest := (ring ((ringHead + ringSize - 1) % ringSize)).predictions
    let oldest := if ridgeHistoryDepth ≤ rw'.onlineWindowCount then
        some (ring ((ringHead + ringSize - 1 - ridgeHistoryDepth) % ringSize)).predictions
      else none
    let rw' := updateOnline m rw' latest oldest nModels
    let sums : CorrSums K := ⟨rw'.onlineSumX, rw'.onlineSumXX, rw'.onlineWindowCount⟩
    (if 2 ≤ rw'.onlineWindowCount then 0 else -1,
      { rw' with corrMatrix := finalizeCorrFromSums sqrt m rw'.corrMatrix sums nModels })
  else
    let history := buildHistoryFromRing ring ringHead ringSize predictCallCount
    if history.length < 2 then (-1, rw')
    else (0, { rw' with corrMatrix := buildCorr sqrt m rw'.corrMatrix history nModels })

/-! ### Runs -/

/-- A ring of predictions and the weights of one mode. -/
structure RidgeNode (K : Type*) where
  ring : ℕ → PredictionRecord K
  ringHead : ℕ
  predictCallCount : ℕ
  weights : RidgeWeights K

/-- What every run of a size and a mode has in common. -/
structure RidgeSetup (K : Type*) where
  sqrt : K → K
  maxModels : ℕ
  ringSize : ℕ
  nModels : ℤ

namespace RidgeSetup

/-- A vector of predictions recorded. -/
def recordVector (cfg : RidgeSetup K) (node : RidgeNode K) (x : ℕ → K) : RidgeNode K :=
  { node with
    ring := Function.update node.ring node.ringHead
      { node.ring node.ringHead with predictCall := node.predictCallCount + 1, predictions := x }
    ringHead := (node.ringHead + 1) % cfg.ringSize
    predictCallCount := node.predictCallCount + 1 }

/-- A cycle: a vector recorded, and the step of the mode. -/
def cycleStep (cfg : RidgeSetup K) (online : Bool) (node : RidgeNode K) (x : ℕ → K) : ℤ × RidgeNode K :=
  let node := cfg.recordVector node x
  let result := onlineCycleStep cfg.sqrt cfg.maxModels node.weights node.ring node.ringHead cfg.ringSize
    node.predictCallCount cfg.nModels online
  (result.1, { node with weights := result.2 })

/-- The node after the cycles of a mode. -/
def cycles (cfg : RidgeSetup K) (online : Bool) (node : RidgeNode K) (xs : List (ℕ → K)) : RidgeNode K :=
  xs.foldl (fun node x => (cfg.cycleStep online node x).2) node

/-- The status of a cycle after others. -/
def statusAfter (cfg : RidgeSetup K) (online : Bool) (node : RidgeNode K) (xs : List (ℕ → K)) (x : ℕ → K) : ℤ :=
  (cfg.cycleStep online (cfg.cycles online node xs) x).1

/-- At every cycle the two modes return the same status and leave the same matrix. -/
def ModesAgree (cfg : RidgeSetup K) (node : RidgeNode K) (xs : List (ℕ → K)) : Prop :=
  ∀ done x, done ++ [x] <+: xs →
    cfg.statusAfter true node done x = cfg.statusAfter false node done x ∧
      (cfg.cycles true node (done ++ [x])).weights.corrMatrix =
        (cfg.cycles false node (done ++ [x])).weights.corrMatrix

end RidgeSetup

/-! ### The sums of a history -/

omit [LinearOrder K] in
theorem historySums_eq (n : ℕ) (history : List (ℕ → K)) : historySums n history =
    { sumX := fillCells n (fun i => (history.map fun x => x i).sum) fun _ => 0
      sumXX := fun i => if i < n then fillCells n (fun j => (history.map fun x => x i * x j).sum) fun _ => 0
        else fun _ => 0
      windowCount := history.length } := by
  unfold historySums
  simp only [foldl_add_map, zero_add]

omit [LinearOrder K] in
/-- The order of a history does not matter. -/
theorem historySums_reverse (n : ℕ) (history : List (ℕ → K)) :
    historySums n history.reverse = historySums n history := by
  rw [historySums_eq, historySums_eq]
  simp only [List.map_reverse, List.sum_reverse, List.length_reverse]

/-- The sums an online mode keeps. -/
def RidgeWeights.onlineSums (rw' : RidgeWeights K) : CorrSums K :=
  ⟨rw'.onlineSumX, rw'.onlineSumXX, rw'.onlineWindowCount⟩

variable {m : ℕ} {nModels : ℤ} {rw' : RidgeWeights K} {history : List (ℕ → K)}

omit [LinearOrder K] in
theorem updateOnline_add (hn : 1 ≤ nModels) (h : rw'.onlineSums = historySums (modelCount nModels m) history)
    (x : ℕ → K) : (updateOnline m rw' x none nModels).onlineSums =
      historySums (modelCount nModels m) (history ++ [x]) := by
  rw [historySums_eq] at h ⊢
  obtain ⟨hX, hXX, hcount⟩ := CorrSums.mk.inj h
  have hgo : ¬nModels < 1 := by omega
  rw [updateOnline, if_neg hgo, RidgeWeights.onlineSums]
  dsimp only
  rw [hX, hXX, hcount, List.length_append, List.length_singleton]
  simp only [List.map_append, List.map_singleton, List.sum_append, List.sum_singleton]
  congr 1
  · funext i
    unfold fillCells
    grind
  · funext i j
    unfold fillCells
    grind

omit [LinearOrder K] in
theorem updateOnline_replace (hn : 1 ≤ nModels) {old : ℕ → K}
    (h : rw'.onlineSums = historySums (modelCount nModels m) (old :: history)) (x : ℕ → K) :
    (updateOnline m rw' x (some old) nModels).onlineSums = historySums (modelCount nModels m) (history ++ [x]) := by
  rw [historySums_eq] at h ⊢
  obtain ⟨hX, hXX, hcount⟩ := CorrSums.mk.inj h
  have hgo : ¬nModels < 1 := by omega
  rw [updateOnline, if_neg hgo, RidgeWeights.onlineSums]
  dsimp only
  rw [hX, hXX, hcount, List.length_append, List.length_singleton, List.length_cons]
  simp only [List.map_append, List.sum_append, List.map_cons, List.sum_cons]
  congr 1
  · funext i
    unfold fillCells
    grind
  · funext i j
    unfold fillCells
    grind

omit [LinearOrder K] in
theorem updateOnline_corrMatrix (x : ℕ → K) (oldest : Option (ℕ → K)) :
    (updateOnline m rw' x oldest nModels).corrMatrix = rw'.corrMatrix := by
  unfold updateOnline
  split
  · rfl
  · cases oldest <;> rfl

/-! ### The ring -/

/-- The slot so many places before the head. -/
theorem ringIndex {size : ℕ} {k c : ℕ} (hc : c < k) (hsize : c < size) :
    (k % size + size - 1 - c) % size = (k - 1 - c) % size := by
  have hdiv := Nat.div_add_mod k size
  calc (k % size + size - 1 - c) % size = (k % size + size - 1 - c + size * (k / size)) % size := by
        rw [Nat.add_mul_mod_self_left]
    _ = (k - 1 - c + size) % size := by
        congr 1
        omega
    _ = (k - 1 - c) % size := Nat.add_mod_right ..

namespace RidgeSetup

variable {cfg : RidgeSetup K}

/-- The ring after the vectors. -/
structure RingAt (cfg : RidgeSetup K) (node : RidgeNode K) (xs : List (ℕ → K)) : Prop where
  count : node.predictCallCount = xs.length
  head : node.ringHead = xs.length % cfg.ringSize
  slots : ∀ j x, xs[j]? = some x → xs.length ≤ j + cfg.ringSize → (node.ring (j % cfg.ringSize)).predictions = x

omit [Field K] [LinearOrder K] in
theorem RingAt.record {node : RidgeNode K} {xs : List (ℕ → K)} (h : RingAt cfg node xs) (x : ℕ → K) :
    RingAt cfg (cfg.recordVector node x) (xs ++ [x]) := by
  have hlen : (xs ++ [x]).length = xs.length + 1 := by rw [List.length_append, List.length_singleton]
  refine ⟨?_, ?_, fun j y hy hlast => ?_⟩
  · rw [hlen, ← h.count]
    rfl
  · rw [hlen, ← Nat.mod_add_mod, ← h.head]
    rfl
  · unfold recordVector
    dsimp only
    rw [hlen] at hlast
    rcases Nat.lt_or_ge j xs.length with hlt | hge
    · have hne : j % cfg.ringSize ≠ node.ringHead := fun heq => by
        rw [h.head] at heq
        have hdvd := (Nat.modEq_iff_dvd' hlt.le).1 heq
        have hle := Nat.le_of_dvd (by omega) hdvd
        omega
      rw [List.getElem?_append_left hlt] at hy
      rw [Function.update_of_ne hne]
      exact h.slots j y hy (by omega)
    · have hj : j = xs.length := by
        have hlt := (List.getElem?_eq_some_iff.1 hy).1
        omega
      subst hj
      rw [List.getElem?_concat_length] at hy
      cases hy
      rw [← h.head, Function.update_self]

omit [Field K] [LinearOrder K] in
/-- The history walked back from the head is the window, the latest first. -/
theorem RingAt.walk {node : RidgeNode K} {xs : List (ℕ → K)} (h : RingAt cfg node xs)
    (hsize : ridgeHistoryDepth < cfg.ringSize) :
    buildHistoryFromRing node.ring node.ringHead cfg.ringSize node.predictCallCount =
      (window ridgeHistoryDepth xs).reverse := by
  have havail : (if node.predictCallCount < ridgeHistoryDepth then node.predictCallCount else ridgeHistoryDepth) =
      min xs.length ridgeHistoryDepth := by
    rw [h.count]
    split <;> omega
  unfold buildHistoryFromRing
  dsimp only
  rw [havail]
  refine List.ext_getElem ?_ fun k hk hk' => ?_
  · rw [List.length_map, List.length_range, List.length_reverse, length_window]
  · rw [List.length_map, List.length_range] at hk
    have hlt : xs.length - 1 - k < xs.length := by omega
    have hget : xs[xs.length - 1 - k]? = some xs[xs.length - 1 - k] := List.getElem?_eq_getElem hlt
    rw [List.getElem_map, List.getElem_range, List.getElem_reverse, h.head, ringIndex (by omega) (by omega),
      h.slots _ _ hget (by omega)]
    simp only [window, List.getElem_drop, List.length_drop]
    congr 1
    omega

/-! ### The two modes -/

/-- A node that has recorded nothing, with sums of nothing. -/
structure FreshNode (node : RidgeNode K) : Prop where
  count : node.predictCallCount = 0
  head : node.ringHead = 0
  sumX : node.weights.onlineSumX = fun _ => 0
  sumXX : node.weights.onlineSumXX = fun _ _ => 0
  window : node.weights.onlineWindowCount = 0

theorem cycles_snoc (cfg : RidgeSetup K) (online : Bool) (node : RidgeNode K) (xs : List (ℕ → K)) (x : ℕ → K) :
    cfg.cycles online node (xs ++ [x]) = (cfg.cycleStep online (cfg.cycles online node xs) x).2 :=
  List.foldl_concat ..

theorem cycles_ring {node : RidgeNode K} (h : FreshNode node) (online : Bool) (xs : List (ℕ → K)) :
    RingAt cfg (cfg.cycles online node xs) xs := by
  induction xs using List.reverseRecOn with
  | nil => exact ⟨h.count, h.head.trans (Nat.zero_mod _).symm, fun _ _ hj => by cases hj⟩
  | append_singleton xs x ih =>
    rw [cycles_snoc]
    have hnext := ih.record x
    exact ⟨hnext.count, hnext.head, hnext.slots⟩

omit [Field K] [LinearOrder K] in
theorem recordVector_weights (node : RidgeNode K) (x : ℕ → K) :
    (cfg.recordVector node x).weights = node.weights := rfl

/-- The first cycle leaves before either mode has done anything. -/
theorem cycleStep_first (online : Bool) {node : RidgeNode K} (h : node.predictCallCount = 0) (x : ℕ → K) :
    cfg.cycleStep online node x = (-1, cfg.recordVector node x) := by
  have hcount : (cfg.recordVector node x).predictCallCount < 2 := by
    have : (cfg.recordVector node x).predictCallCount = node.predictCallCount + 1 := rfl
    omega
  unfold cycleStep onlineCycleStep
  dsimp only
  rw [if_pos (by rw [decide_eq_true hcount, Bool.or_true])]

omit [Field K] [LinearOrder K] in
theorem not_idle (hn : 1 ≤ cfg.nModels) (hsize : ridgeHistoryDepth < cfg.ringSize) {count : ℕ} (hcount : 2 ≤ count) :
    (decide (cfg.nModels < 1) || decide (cfg.ringSize < 1) || decide (count < 2)) = false := by
  rw [decide_eq_false (by omega), decide_eq_false (by omega), decide_eq_false (by omega), Bool.or_self, Bool.or_self]

/-- What a cycle of the full mode does from the second on. -/
theorem cycleStep_full (hn : 1 ≤ cfg.nModels) (hsize : ridgeHistoryDepth < cfg.ringSize) {node : RidgeNode K}
    {xs : List (ℕ → K)} (h : RingAt cfg node xs) (hxs : xs ≠ []) (x : ℕ → K) :
    (cfg.cycleStep false node x).1 = 0 ∧
      (cfg.cycleStep false node x).2.weights.corrMatrix = finalizeCorrFromSums cfg.sqrt cfg.maxModels
        node.weights.corrMatrix (historySums (modelCount cfg.nModels cfg.maxModels)
          (window ridgeHistoryDepth (xs ++ [x]))) cfg.nModels := by
  have hring := h.record x
  have hpos := List.length_pos_of_ne_nil hxs
  have hcount : 2 ≤ (cfg.recordVector node x).predictCallCount := by
    rw [hring.count, List.length_append, List.length_singleton]
    omega
  have hlen : 2 ≤ (window ridgeHistoryDepth (xs ++ [x])).reverse.length := by
    rw [List.length_reverse, length_window, List.length_append, List.length_singleton]
    unfold ridgeHistoryDepth
    omega
  unfold cycleStep onlineCycleStep
  dsimp only
  rw [not_idle hn hsize hcount, if_neg Bool.false_ne_true, if_neg Bool.false_ne_true, hring.walk hsize,
    if_neg (by omega), recordVector_weights]
  refine ⟨rfl, ?_⟩
  dsimp only
  rw [buildCorr, decide_eq_false (by omega), decide_eq_false (by omega), Bool.or_self, if_neg Bool.false_ne_true,
    historySums_reverse]

/-- What a cycle of the online mode does from the second on: its window is of the vectors after the
    first. -/
theorem cycleStep_online (hn : 1 ≤ cfg.nModels) (hsize : ridgeHistoryDepth < cfg.ringSize) {node : RidgeNode K}
    {xs : List (ℕ → K)} (h : RingAt cfg node xs) (hxs : xs ≠ [])
    (hsums : node.weights.onlineSums =
      historySums (modelCount cfg.nModels cfg.maxModels) (window ridgeHistoryDepth xs.tail)) (x : ℕ → K) :
    (cfg.cycleStep true node x).2.weights.onlineSums =
        historySums (modelCount cfg.nModels cfg.maxModels) (window ridgeHistoryDepth (xs ++ [x]).tail) ∧
      (cfg.cycleStep true node x).1 = (if 2 ≤ (window ridgeHistoryDepth (xs ++ [x]).tail).length then 0 else -1) ∧
      (cfg.cycleStep true node x).2.weights.corrMatrix = finalizeCorrFromSums cfg.sqrt cfg.maxModels
        node.weights.corrMatrix (historySums (modelCount cfg.nModels cfg.maxModels)
          (window ridgeHistoryDepth (xs ++ [x]).tail)) cfg.nModels := by
  have hring := h.record x
  have hpos := List.length_pos_of_ne_nil hxs
  have hlen : (xs ++ [x]).length = xs.length + 1 := by rw [List.length_append, List.length_singleton]
  have hcount : 2 ≤ (cfg.recordVector node x).predictCallCount := by
    rw [hring.count, hlen]
    omega
  have hlatest : ((cfg.recordVector node x).ring (((cfg.recordVector node x).ringHead + cfg.ringSize - 1) %
      cfg.ringSize)).predictions = x := by
    have hindex : ((xs.length + 1) % cfg.ringSize + cfg.ringSize - 1 - 0) % cfg.ringSize =
        (xs.length + 1 - 1 - 0) % cfg.ringSize := ringIndex (by omega) (by omega)
    rw [Nat.sub_zero] at hindex
    rw [hring.head, hlen, hindex]
    exact hring.slots _ _ (by rw [Nat.add_sub_cancel, Nat.sub_zero, List.getElem?_concat_length]) (by omega)
  have hwindow : node.weights.onlineWindowCount = (window ridgeHistoryDepth xs.tail).length :=
    congrArg CorrSums.windowCount hsums
  have htail : (xs ++ [x]).tail = xs.tail ++ [x] := List.tail_append_of_ne_nil hxs
  have hnext : (updateOnline cfg.maxModels node.weights x
      (if ridgeHistoryDepth ≤ node.weights.onlineWindowCount then
        some ((cfg.recordVector node x).ring (((cfg.recordVector node x).ringHead + cfg.ringSize - 1 -
          ridgeHistoryDepth) % cfg.ringSize)).predictions
      else none) cfg.nModels).onlineSums =
        historySums (modelCount cfg.nModels cfg.maxModels) (window ridgeHistoryDepth (xs ++ [x]).tail) := by
    rw [htail]
    by_cases hfull : ridgeHistoryDepth ≤ xs.tail.length
    · obtain ⟨old, rest, hold, hcons, hsnoc⟩ := window_snoc_of_le (by decide) hfull
      rw [hwindow, length_window, if_pos (by omega), hsnoc]
      have holdest : ((cfg.recordVector node x).ring (((cfg.recordVector node x).ringHead + cfg.ringSize - 1 -
          ridgeHistoryDepth) % cfg.ringSize)).predictions = old := by
        rw [List.length_tail] at hfull hold
        rw [hring.head, hlen, ringIndex (by omega) (by omega)]
        refine hring.slots _ _ ?_ (by omega)
        rw [List.getElem?_tail] at hold
        have hindex : xs.length + 1 - 1 - ridgeHistoryDepth = xs.length - 1 - ridgeHistoryDepth + 1 := by omega
        have hlt : xs.length - 1 - ridgeHistoryDepth + 1 < xs.length := by
          unfold ridgeHistoryDepth at *
          omega
        rw [hindex, List.getElem?_append_left hlt, hold]
      rw [holdest]
      exact updateOnline_replace hn (hsums.trans (congrArg _ hcons)) x
    · rw [hwindow, length_window, if_neg fun hle => hfull (hle.trans (min_le_left _ _)),
        window_snoc_of_lt (not_le.1 hfull)]
      exact updateOnline_add hn hsums x
  unfold cycleStep onlineCycleStep
  dsimp only
  rw [not_idle hn hsize hcount, if_neg Bool.false_ne_true, if_pos rfl, hlatest, recordVector_weights]
  have hcount' := congrArg CorrSums.windowCount hnext
  refine ⟨hnext, if_congr (iff_of_eq (congrArg (2 ≤ ·) hcount')) rfl rfl, ?_⟩
  dsimp only
  rw [updateOnline_corrMatrix]
  exact congrArg (fun sums => finalizeCorrFromSums cfg.sqrt cfg.maxModels node.weights.corrMatrix sums cfg.nModels) hnext

/-- The online mode's sums are those of the last 64 vectors after the first. -/
theorem cycles_onlineSums (hn : 1 ≤ cfg.nModels) (hsize : ridgeHistoryDepth < cfg.ringSize) {node : RidgeNode K}
    (h : FreshNode node) (xs : List (ℕ → K)) :
    (cfg.cycles true node xs).weights.onlineSums =
      historySums (modelCount cfg.nModels cfg.maxModels) (window ridgeHistoryDepth xs.tail) := by
  have hnothing : node.weights.onlineSums = historySums (modelCount cfg.nModels cfg.maxModels) [] := by
    rw [RidgeWeights.onlineSums, h.sumX, h.sumXX, h.window, historySums_eq]
    unfold fillCells
    simp only [List.map_nil, List.sum_nil, List.length_nil, ite_self]
  induction xs using List.reverseRecOn with
  | nil => exact hnothing
  | append_singleton xs x ih =>
    rw [cycles_snoc]
    by_cases hxs : xs = []
    · have hstart : cfg.cycles true node [] = node := rfl
      rw [hxs, hstart, cycleStep_first true h.count]
      exact hnothing
    · exact (cycleStep_online hn hsize (cycles_ring h true xs) hxs ih x).1

/-- The first status is a refusal, the full mode's next one is not, and the online mode's is one more. -/
theorem statusAfter_full (hn : 1 ≤ cfg.nModels) (hsize : ridgeHistoryDepth < cfg.ringSize) {node : RidgeNode K}
    (h : FreshNode node) (xs : List (ℕ → K)) (x : ℕ → K) :
    cfg.statusAfter false node xs x = if 1 ≤ xs.length then 0 else -1 := by
  by_cases hxs : xs = []
  · subst hxs
    exact congrArg Prod.fst (cycleStep_first false h.count x)
  · have hpos : 1 ≤ xs.length := List.length_pos_of_ne_nil hxs
    rw [if_pos hpos]
    exact (cycleStep_full hn hsize (cycles_ring h false xs) hxs x).1

theorem statusAfter_online (hn : 1 ≤ cfg.nModels) (hsize : ridgeHistoryDepth < cfg.ringSize) {node : RidgeNode K}
    (h : FreshNode node) (xs : List (ℕ → K)) (x : ℕ → K) :
    cfg.statusAfter true node xs x = if 2 ≤ xs.length then 0 else -1 := by
  by_cases hxs : xs = []
  · subst hxs
    exact congrArg Prod.fst (cycleStep_first true h.count x)
  · have hstatus := (cycleStep_online hn hsize (cycles_ring h true xs) hxs (cycles_onlineSums hn hsize h xs) x).2.1
    have hlen : 2 ≤ (window ridgeHistoryDepth (xs ++ [x]).tail).length ↔ 2 ≤ xs.length := by
      rw [length_window, List.length_tail, List.length_append, List.length_singleton]
      unfold ridgeHistoryDepth
      omega
    exact hstatus.trans (if_congr hlen rfl rfl)

/-- The modes agree at every cycle if and only if there is at most one. -/
theorem ridgeCycles_agree_iff (hn : 1 ≤ cfg.nModels) (hsize : ridgeHistoryDepth < cfg.ringSize) {node : RidgeNode K}
    (h : FreshNode node) (xs : List (ℕ → K)) : cfg.ModesAgree node xs ↔ xs.length ≤ 1 := by
  constructor
  · intro hagree
    by_contra hmany
    obtain ⟨x, xs, rfl⟩ := List.exists_cons_of_length_pos (Nat.lt_trans Nat.one_pos (not_le.1 hmany))
    obtain ⟨y, rest, rfl⟩ := List.exists_cons_of_length_pos (Nat.lt_of_succ_lt_succ (not_le.1 hmany))
    have hsecond := (hagree [x] y ⟨rest, rfl⟩).1
    rw [statusAfter_online hn hsize h, statusAfter_full hn hsize h, List.length_singleton] at hsecond
    exact absurd hsecond (by decide)
  · intro hfew done x hdone
    have hlen := hdone.length_le
    rw [List.length_append, List.length_singleton] at hlen
    obtain rfl : done = [] := List.eq_nil_of_length_eq_zero (by omega)
    have hfirst (online : Bool) : cfg.cycleStep online node x = (-1, cfg.recordVector node x) :=
      cycleStep_first online h.count x
    refine ⟨?_, ?_⟩
    · exact (congrArg Prod.fst (hfirst true)).trans (congrArg Prod.fst (hfirst false)).symm
    · exact congrArg (fun r : ℤ × RidgeNode K => r.2.weights.corrMatrix) ((hfirst true).trans (hfirst false).symm)

/-- From the sixty-fifth cycle on both modes succeed, with the correlations of the same sums: the same
    matrix wherever no constant model stands before one that varies. -/
theorem ridgeCycles_agree_of_full (hn : 1 ≤ cfg.nModels) (hsize : ridgeHistoryDepth < cfg.ringSize)
    {node : RidgeNode K} (h : FreshNode node) {xs : List (ℕ → K)} (hfull : ridgeHistoryDepth ≤ xs.length)
    (x : ℕ → K) :
    let sums := historySums (modelCount cfg.nModels cfg.maxModels) (window ridgeHistoryDepth (xs ++ [x]))
    cfg.statusAfter true node xs x = 0 ∧ cfg.statusAfter false node xs x = 0 ∧
      (cfg.cycles true node (xs ++ [x])).weights.onlineSums = sums ∧
      ((∀ i j, i < j → j < modelCount cfg.nModels cfg.maxModels → sums.Constant cfg.sqrt i →
          sums.Constant cfg.sqrt j) →
        ∀ a b, a < modelCount cfg.nModels cfg.maxModels → b < modelCount cfg.nModels cfg.maxModels →
          (cfg.cycles true node (xs ++ [x])).weights.corrMatrix a b =
            (cfg.cycles false node (xs ++ [x])).weights.corrMatrix a b) := by
  have hxs : xs ≠ [] := fun hnil => by
    rw [hnil, List.length_nil] at hfull
    exact absurd hfull (by decide)
  have hsame : window ridgeHistoryDepth (xs ++ [x]).tail = window ridgeHistoryDepth (xs ++ [x]) := by
    have hlen : (xs ++ [x]).length = xs.length + 1 := by rw [List.length_append, List.length_singleton]
    rw [window, window, List.length_tail, ← List.drop_one, List.drop_drop, hlen]
    congr 1
    omega
  have hwindow : 2 ≤ (historySums (modelCount cfg.nModels cfg.maxModels)
      (window ridgeHistoryDepth (xs ++ [x]))).windowCount := by
    have hcount : (historySums (modelCount cfg.nModels cfg.maxModels) (window ridgeHistoryDepth (xs ++ [x]))).windowCount =
        (window ridgeHistoryDepth (xs ++ [x])).length := rfl
    rw [hcount, length_window, List.length_append, List.length_singleton]
    unfold ridgeHistoryDepth at *
    omega
  have hdepth : (2 : ℕ) ≤ ridgeHistoryDepth := by decide
  have honline := cycleStep_online hn hsize (cycles_ring h true xs) hxs (cycles_onlineSums hn hsize h xs) x
  rw [hsame] at honline
  refine ⟨?_, ?_, ?_, fun hordered a b ha hb => ?_⟩
  · rw [statusAfter_online hn hsize h, if_pos (by omega)]
  · rw [statusAfter_full hn hsize h, if_pos (by omega)]
  · rw [cycles_snoc]
    exact honline.1
  · rw [cycles_snoc, cycles_snoc, honline.2.2, (cycleStep_full hn hsize (cycles_ring h false xs) hxs x).2,
      finalizeCorrFromSums_pair hwindow hn hordered _ ha hb, finalizeCorrFromSums_pair hwindow hn hordered _ ha hb]

/-! Two models in a ring of 256, from nothing. -/

def ridgeSetup : RidgeSetup ℚ where
  sqrt := sampleRoot
  maxModels := 8
  ringSize := 256
  nModels := 2

def freshNode : RidgeNode ℚ where
  ring := fun _ => ⟨0, 0, fun _ => 0, 0, false, false⟩
  ringHead := 0
  predictCallCount := 0
  weights :=
    { corrMatrix := fun _ _ => 0
      mu := fun _ => 0
      L := fun _ _ => 0
      y := fun _ => 0
      wInternal := fun _ => 0
      nModels := 0
      fallbackToUniform := false
      onlineSumX := fun _ => 0
      onlineSumXX := fun _ _ => 0
      onlineWindowCount := 0 }

theorem ridgeCycles_agree_one : ridgeSetup.ModesAgree freshNode [fun _ => 1 / 2] ↔
    [fun _ : ℕ => (1 / 2 : ℚ)].length ≤ 1 :=
  ridgeCycles_agree_iff (by decide) (by decide) ⟨rfl, rfl, rfl, rfl, rfl⟩ _

theorem ridgeCycles_second :
    ridgeSetup.statusAfter true freshNode [fun _ => 1 / 2] (fun _ => 1 / 4) = -1 ∧
      ridgeSetup.statusAfter false freshNode [fun _ => 1 / 2] (fun _ => 1 / 4) = 0 ∧
      ¬ridgeSetup.ModesAgree freshNode [fun _ => 1 / 2, fun _ => 1 / 4] := by
  have honline : ridgeSetup.statusAfter true freshNode [fun _ => 1 / 2] (fun _ => 1 / 4) = -1 := by decide +kernel
  have hfull : ridgeSetup.statusAfter false freshNode [fun _ => 1 / 2] (fun _ => 1 / 4) = 0 := by decide +kernel
  refine ⟨honline, hfull, fun hagree => ?_⟩
  have hsecond := (hagree [fun _ => 1 / 2] (fun _ => 1 / 4) (List.prefix_refl _)).1
  rw [honline, hfull] at hsecond
  exact absurd hsecond (by decide)

end RidgeSetup

end FoxTrader
