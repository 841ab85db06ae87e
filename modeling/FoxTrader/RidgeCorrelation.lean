import FoxTrader.CholeskySolve

/-! # The correlations of the models

    The correlations are written pair by pair into a matrix that is kept from cycle to cycle. A model that
    varies writes its pairs with the models after it on both sides of the diagonal, a constant one only its
    own row: with a constant model before one that varies the entry below the diagonal, which the solver
    reads, keeps what it held. So the matrix depends on the sums alone exactly when no constant model
    stands before one that varies (`finalizeCorr_determined_iff`). -/

namespace FoxTrader

open Lib Finset

variable {K : Type*} [Field K] [LinearOrder K]

/-- One entry of a matrix written. -/
def setEntry (corr : ℕ → ℕ → K) (i j : ℕ) (x : K) : ℕ → ℕ → K :=
  Function.update corr i (Function.update (corr i) j x)

/-- The identity, over the whole matrix of `m`. -/
def identityCorr (m : ℕ) (corr : ℕ → ℕ → K) : ℕ → ℕ → K := fun i j =>
  if i < m ∧ j < m then (if i = j then 1 else 0) else corr i j

/-- What the correlations are made of. -/
structure CorrSums (K : Type*) where
  sumX : ℕ → K
  sumXX : ℕ → ℕ → K
  windowCount : ℕ

namespace CorrSums

/-- Below it a standard deviation counts as none. -/
def stdThreshold : K := 1 / (10 : ℕ) ^ 9

def mean (s : CorrSums K) (i : ℕ) : K := s.sumX i / s.windowCount

def var (s : CorrSums K) (i : ℕ) : K :=
  let v := s.sumXX i i / s.windowCount - s.mean i * s.mean i
  if 0 < v then v else 0

def std (sqrt : K → K) (s : CorrSums K) (i : ℕ) : K := sqrt (s.var i)

/-- A model whose predictions count as constant. -/
def Constant (sqrt : K → K) (s : CorrSums K) (i : ℕ) : Prop := s.std sqrt i < stdThreshold

instance (sqrt : K → K) (s : CorrSums K) (i : ℕ) : Decidable (s.Constant sqrt i) :=
  inferInstanceAs (Decidable (_ < _))

/-- The correlation of a pair, clamped. -/
def corr (sqrt : K → K) (s : CorrSums K) (i j : ℕ) : K :=
  let cov := s.sumXX i j / s.windowCount - s.mean i * s.mean j
  let c := cov / (s.std sqrt i * s.std sqrt j)
  let c := if 1 < c then 1 else c
  if c < -1 then -1 else c

/-- The writes of one model among `n`. -/
def fillRow (sqrt : K → K) (s : CorrSums K) (n : ℕ) (corr : ℕ → ℕ → K) (i : ℕ) : ℕ → ℕ → K :=
  let corr := setEntry corr i i 1
  if s.Constant sqrt i then
    (List.range n).foldl (fun corr j => if j = i then corr else setEntry corr i j 0) corr
  else
    (List.range' (i + 1) (n - (i + 1))).foldl (fun corr j =>
      if s.Constant sqrt j then setEntry (setEntry corr i j 0) j i 0
      else
        let c := s.corr sqrt i j
        setEntry (setEntry corr i j c) j i c) corr

/-- The rows and columns of the models there are not. -/
def fillUnused (n m : ℕ) (corr : ℕ → ℕ → K) : ℕ → ℕ → K :=
  (List.range' n (m - n)).foldl (fun corr i =>
    (List.range m).foldl (fun corr j =>
      let x := if i = j then 1 else 0
      setEntry (setEntry corr i j x) j i x) corr) corr

end CorrSums

/-- `RidgeBlender_FinalizeCorrFromSums`, into a matrix of `m`. -/
def finalizeCorrFromSums (sqrt : K → K) (m : ℕ) (corr : ℕ → ℕ → K) (s : CorrSums K) (nModels : ℤ) : ℕ → ℕ → K :=
  if s.windowCount < 2 || decide (nModels < 1) then identityCorr m corr
  else
    let n := (min nModels m).toNat
    CorrSums.fillUnused n m ((List.range n).foldl (s.fillRow sqrt n) corr)

/-! ### What the writes leave -/

omit [Field K] [LinearOrder K] in
theorem setEntry_apply (corr : ℕ → ℕ → K) (i j : ℕ) (x : K) (a b : ℕ) :
    setEntry corr i j x a b = if a = i ∧ b = j then x else corr a b := by
  unfold setEntry
  by_cases ha : a = i
  · by_cases hb : b = j
    · rw [if_pos ⟨ha, hb⟩, ha, hb, Function.update_self, Function.update_self]
    · rw [if_neg fun h => hb h.2, ha, Function.update_self, Function.update_of_ne hb]
  · rw [if_neg fun h => ha h.1, Function.update_of_ne ha]

omit [LinearOrder K] in
/-- A row of zeros, without its diagonal. -/
theorem foldl_zeroRow (i : ℕ) (l : List ℕ) (corr : ℕ → ℕ → K) (a b : ℕ) :
    l.foldl (fun corr j => if j = i then corr else setEntry corr i j 0) corr a b =
      if a = i ∧ b ∈ l ∧ b ≠ i then 0 else corr a b := by
  induction l generalizing corr with
  | nil => rw [List.foldl_nil, if_neg fun h => List.not_mem_nil h.2.1]
  | cons j l ih =>
    rw [List.foldl_cons, ih]
    by_cases hold : a = i ∧ b ∈ l ∧ b ≠ i
    · rw [if_pos hold, if_pos ⟨hold.1, List.mem_cons_of_mem _ hold.2.1, hold.2.2⟩]
    · rw [if_neg hold]
      by_cases hj : j = i
      · rw [if_pos hj, if_neg fun h => hold ⟨h.1, (List.mem_cons.1 h.2.1).resolve_left fun hb => h.2.2 (hb.trans hj),
          h.2.2⟩]
      · rw [if_neg hj, setEntry_apply]
        refine if_congr ⟨fun h => ⟨h.1, h.2 ▸ List.mem_cons_self, fun hb => hj (h.2.symm.trans hb)⟩, fun h =>
          ⟨h.1, ?_⟩⟩
          rfl rfl
        exact (List.mem_cons.1 h.2.1).resolve_right fun hmem => hold ⟨h.1, hmem, h.2.2⟩

omit [Field K] [LinearOrder K] in
/-- A row and the column of the same number, with the same values. -/
theorem foldl_setPair (i : ℕ) (x : ℕ → K) (l : List ℕ) (corr : ℕ → ℕ → K) (a b : ℕ) :
    l.foldl (fun corr j => setEntry (setEntry corr i j (x j)) j i (x j)) corr a b =
      if a = i ∧ b ∈ l then x b else if b = i ∧ a ∈ l then x a else corr a b := by
  induction l generalizing corr with
  | nil => rw [List.foldl_nil, if_neg fun h => List.not_mem_nil h.2, if_neg fun h => List.not_mem_nil h.2]
  | cons j l ih =>
    rw [List.foldl_cons, ih, setEntry_apply, setEntry_apply]
    grind

namespace CorrSums

variable (sqrt : K → K) (s : CorrSums K) {n m : ℕ}

/-- What a varying model writes for a model after it. -/
def pairValue (i j : ℕ) : K := if s.Constant sqrt j then 0 else s.corr sqrt i j

theorem fillRow_constant {i : ℕ} (h : s.Constant sqrt i) (corr : ℕ → ℕ → K) (a b : ℕ) :
    s.fillRow sqrt n corr i a b =
      if a = i ∧ b = i then 1 else if a = i ∧ b < n then 0 else corr a b := by
  unfold fillRow
  dsimp only
  rw [if_pos h, foldl_zeroRow, setEntry_apply]
  simp only [List.mem_range]
  grind

theorem fillRow_varying {i : ℕ} (h : ¬s.Constant sqrt i) (hi : i < n) (corr : ℕ → ℕ → K) (a b : ℕ) :
    s.fillRow sqrt n corr i a b =
      if a = i ∧ b = i then 1
      else if a = i ∧ i < b ∧ b < n then s.pairValue sqrt i b
      else if b = i ∧ i < a ∧ a < n then s.pairValue sqrt i a
      else corr a b := by
  have hwrite : (fun (corr : ℕ → ℕ → K) (j : ℕ) =>
      if s.Constant sqrt j then setEntry (setEntry corr i j 0) j i 0
      else setEntry (setEntry corr i j (s.corr sqrt i j)) j i (s.corr sqrt i j)) =
        fun corr j => setEntry (setEntry corr i j (s.pairValue sqrt i j)) j i (s.pairValue sqrt i j) := by
    funext corr j
    unfold pairValue
    by_cases hj : s.Constant sqrt j
    · rw [if_pos hj, if_pos hj]
    · rw [if_neg hj, if_neg hj]
  have hmem (j : ℕ) : j ∈ List.range' (i + 1) (n - (i + 1)) ↔ i < j ∧ j < n := by
    rw [List.mem_range'_1]
    omega
  unfold fillRow
  dsimp only
  rw [if_neg h, hwrite, foldl_setPair, setEntry_apply]
  simp only [hmem]
  grind

/-- An entry after the first `t` models have written. -/
def rowsEntry (corr : ℕ → ℕ → K) (t a b : ℕ) : K :=
  if a = b then (if a < t then 1 else corr a b)
  else if a < b then
    if a < t then (if s.Constant sqrt a then 0 else s.pairValue sqrt a b) else corr a b
  else if a < t ∧ s.Constant sqrt a then 0
  else if b < t ∧ ¬s.Constant sqrt b then s.pairValue sqrt b a
  else corr a b

theorem foldl_fillRow (corr : ℕ → ℕ → K) {t : ℕ} (ht : t ≤ n) {a b : ℕ} (ha : a < n) (hb : b < n) :
    (List.range t).foldl (s.fillRow sqrt n) corr a b = s.rowsEntry sqrt corr t a b := by
  induction t with
  | zero =>
    rw [List.range_zero, List.foldl_nil, rowsEntry]
    grind
  | succ t ih =>
    rw [List.range_succ, List.foldl_append, List.foldl_cons, List.foldl_nil]
    have hbefore := ih (by omega)
    by_cases hconst : s.Constant sqrt t
    · rw [s.fillRow_constant sqrt hconst, hbefore]
      unfold rowsEntry pairValue
      grind
    · rw [s.fillRow_varying sqrt hconst ht, hbefore]
      unfold rowsEntry pairValue
      grind

theorem foldl_fillRow_outside (corr : ℕ → ℕ → K) {t : ℕ} (ht : t ≤ n) {a b : ℕ} (h : ¬(a < n ∧ b < n)) :
    (List.range t).foldl (s.fillRow sqrt n) corr a b = corr a b := by
  induction t with
  | zero => rfl
  | succ t ih =>
    rw [List.range_succ, List.foldl_append, List.foldl_cons, List.foldl_nil]
    have hbefore := ih (by omega)
    by_cases hconst : s.Constant sqrt t
    · rw [s.fillRow_constant sqrt hconst, hbefore]
      grind
    · rw [s.fillRow_varying sqrt hconst ht, hbefore]
      grind

omit [LinearOrder K] in
theorem fillUnused_apply (n m : ℕ) (corr : ℕ → ℕ → K) (a b : ℕ) :
    fillUnused n m corr a b =
      if a < m ∧ b < m ∧ ¬(a < n ∧ b < n) then (if a = b then 1 else 0) else corr a b := by
  have hrows (t : ℕ) : (List.range' n t).foldl (fun corr i =>
      (List.range m).foldl (fun corr j =>
        let x := if i = j then 1 else 0
        setEntry (setEntry corr i j x) j i x) corr) corr a b =
      if (n ≤ a ∧ a < n + t ∧ b < m) ∨ (n ≤ b ∧ b < n + t ∧ a < m) then (if a = b then 1 else 0) else corr a b := by
    induction t with
    | zero =>
      rw [List.range'_zero, List.foldl_nil]
      grind
    | succ t ih =>
      rw [List.range'_concat, List.foldl_append, List.foldl_cons, List.foldl_nil]
      dsimp only
      rw [foldl_setPair (n + 1 * t) (fun j => if n + 1 * t = j then 1 else 0), ih]
      simp only [List.mem_range]
      grind
  rw [fillUnused, hrows]
  grind

end CorrSums

/-! ### The finished matrix -/

/-- How many models a count stands for, in arrays of `m`. -/
def modelCount (nModels : ℤ) (m : ℕ) : ℕ := (min nModels m).toNat

/-- A correlation matrix of the first `n` models, of which some are constant. -/
structure IsCorrelation (n : ℕ) (constant : ℕ → Prop) (corr : ℕ → ℕ → K) : Prop where
  symm : ∀ a b, a < n → b < n → corr a b = corr b a
  diag : ∀ a, a < n → corr a a = 1
  bounds : ∀ a b, a < n → b < n → -1 ≤ corr a b ∧ corr a b ≤ 1
  zero : ∀ a b, a < n → b < n → a ≠ b → constant a → corr a b = 0 ∧ corr b a = 0

/-- Two matrices that differ at most in the cells of `m`. -/
def SameOutside (m : ℕ) (corr corr' : ℕ → ℕ → K) : Prop := ∀ a b, ¬(a < m ∧ b < m) → corr a b = corr' a b

omit [LinearOrder K] in
theorem identityCorr_congr {corr corr' : ℕ → ℕ → K} (h : SameOutside m corr corr') :
    identityCorr m corr = identityCorr m corr' := by
  funext a b
  unfold identityCorr
  exact ite_congr rfl (fun _ => rfl) fun hout => h a b hout

/-- What the sums are meant to determine, whatever the matrix held. -/
structure Determined (sqrt : K → K) (m : ℕ) (s : CorrSums K) (nModels : ℤ) : Prop where
  correlation : ∀ corr, IsCorrelation (modelCount nModels m) (s.Constant sqrt)
    (finalizeCorrFromSums sqrt m corr s nModels)
  same : ∀ corr corr', SameOutside m corr corr' →
    finalizeCorrFromSums sqrt m corr s nModels = finalizeCorrFromSums sqrt m corr' s nModels
  solved : ∀ corr corr', SameOutside m corr corr' → ∀ L y w mu ridgeLambda,
    choleskySolve sqrt m L y w (finalizeCorrFromSums sqrt m corr s nModels) mu ridgeLambda (modelCount nModels m) =
      choleskySolve sqrt m L y w (finalizeCorrFromSums sqrt m corr' s nModels) mu ridgeLambda (modelCount nModels m)

variable {sqrt : K → K} {m : ℕ} {s : CorrSums K} {nModels : ℤ}

/-- An entry of the finished matrix. -/
theorem finalizeCorrFromSums_apply (hwindow : 2 ≤ s.windowCount) (hn : 1 ≤ nModels) (corr : ℕ → ℕ → K) (a b : ℕ) :
    finalizeCorrFromSums sqrt m corr s nModels a b =
      if a < modelCount nModels m ∧ b < modelCount nModels m then s.rowsEntry sqrt corr (modelCount nModels m) a b
      else if a < m ∧ b < m then (if a = b then 1 else 0)
      else corr a b := by
  have hgo : (decide (s.windowCount < 2) || decide (nModels < 1)) = false := by
    rw [decide_eq_false (by omega), decide_eq_false (by omega), Bool.or_self]
  have hle : modelCount nModels m ≤ m := by
    unfold modelCount
    omega
  unfold finalizeCorrFromSums
  rw [hgo, if_neg Bool.false_ne_true, ← modelCount, CorrSums.fillUnused_apply]
  by_cases hin : a < modelCount nModels m ∧ b < modelCount nModels m
  · rw [if_neg fun h => h.2.2 hin, if_pos hin, CorrSums.foldl_fillRow sqrt s corr le_rfl hin.1 hin.2]
  · rw [CorrSums.foldl_fillRow_outside sqrt s corr le_rfl hin, if_neg hin]
    refine if_congr ⟨fun h => ⟨h.1, h.2.1⟩, fun h => ⟨h.1, h.2, hin⟩⟩ rfl rfl

/-- Without models or without a window the matrix is the identity. -/
theorem finalizeCorrFromSums_of_none (hn : nModels < 1) (corr : ℕ → ℕ → K) :
    finalizeCorrFromSums sqrt m corr s nModels = identityCorr m corr := by
  unfold finalizeCorrFromSums
  rw [if_pos (by rw [decide_eq_true hn, Bool.or_true])]

/-- The entry above the diagonal of a pair, zero if one of the two is constant. -/
def CorrSums.pairEntry (sqrt : K → K) (s : CorrSums K) (a b : ℕ) : K :=
  if s.Constant sqrt a then 0 else if s.Constant sqrt b then 0 else s.corr sqrt a b

/-- Every entry is a pair's, except below the diagonal where a varying model stands after a constant
    one. -/
theorem rowsEntry_last {n : ℕ} (corr : ℕ → ℕ → K) {a b : ℕ} (ha : a < n) (hb : b < n) :
    s.rowsEntry sqrt corr n a b =
      if a = b then 1
      else if a < b then s.pairEntry sqrt a b
      else if s.Constant sqrt b ∧ ¬s.Constant sqrt a then corr a b
      else s.pairEntry sqrt b a := by
  unfold CorrSums.rowsEntry CorrSums.pairEntry CorrSums.pairValue
  grind

/-- An entry of the first models. -/
theorem finalizeCorrFromSums_entry (hwindow : 2 ≤ s.windowCount) (hn : 1 ≤ nModels) (corr : ℕ → ℕ → K) {a b : ℕ}
    (ha : a < modelCount nModels m) (hb : b < modelCount nModels m) :
    finalizeCorrFromSums sqrt m corr s nModels a b =
      if a = b then 1
      else if a < b then s.pairEntry sqrt a b
      else if s.Constant sqrt b ∧ ¬s.Constant sqrt a then corr a b
      else s.pairEntry sqrt b a := by
  rw [finalizeCorrFromSums_apply hwindow hn, if_pos ⟨ha, hb⟩, rowsEntry_last corr ha hb]

/-- With no constant model before one that varies every entry is a pair's. -/
theorem finalizeCorrFromSums_pair (hwindow : 2 ≤ s.windowCount) (hn : 1 ≤ nModels)
    (hordered : ∀ i j, i < j → j < modelCount nModels m → s.Constant sqrt i → s.Constant sqrt j) (corr : ℕ → ℕ → K)
    {a b : ℕ} (ha : a < modelCount nModels m) (hb : b < modelCount nModels m) :
    finalizeCorrFromSums sqrt m corr s nModels a b =
      if a = b then 1 else if a < b then s.pairEntry sqrt a b else s.pairEntry sqrt b a := by
  rw [finalizeCorrFromSums_entry hwindow hn corr ha hb]
  by_cases heq : a = b
  · rw [if_pos heq, if_pos heq]
  · by_cases hlt : a < b
    · rw [if_neg heq, if_neg heq, if_pos hlt, if_pos hlt]
    · rw [if_neg heq, if_neg heq, if_neg hlt, if_neg hlt, if_neg fun h => h.2 (hordered b a (by omega) ha h.1)]

/-- Then what the matrix held does not matter. -/
theorem finalizeCorrFromSums_congr (hwindow : 2 ≤ s.windowCount) (hn : 1 ≤ nModels)
    (hordered : ∀ i j, i < j → j < modelCount nModels m → s.Constant sqrt i → s.Constant sqrt j)
    {corr corr' : ℕ → ℕ → K} (h : SameOutside m corr corr') :
    finalizeCorrFromSums sqrt m corr s nModels = finalizeCorrFromSums sqrt m corr' s nModels := by
  funext a b
  by_cases hin : a < modelCount nModels m ∧ b < modelCount nModels m
  · rw [finalizeCorrFromSums_pair hwindow hn hordered corr hin.1 hin.2,
      finalizeCorrFromSums_pair hwindow hn hordered corr' hin.1 hin.2]
  · rw [finalizeCorrFromSums_apply hwindow hn, finalizeCorrFromSums_apply hwindow hn, if_neg hin, if_neg hin]
    exact ite_congr rfl (fun _ => rfl) fun hout => h a b hout

variable [IsStrictOrderedRing K]

theorem corr_bounds (a b : ℕ) : -1 ≤ s.corr sqrt a b ∧ s.corr sqrt a b ≤ 1 := by
  have hone : (-1 : K) ≤ 1 := neg_one_lt_zero.le.trans zero_le_one
  have hclamp (c : K) : -1 ≤ (if c < -1 then -1 else c) ∧ (c ≤ 1 → (if c < -1 then -1 else c) ≤ 1) := by
    split_ifs with h
    · exact ⟨le_rfl, fun _ => hone⟩
    · exact ⟨not_lt.1 h, id⟩
  have hcap (c : K) : (if 1 < c then 1 else c) ≤ 1 := by
    split_ifs with h
    · exact le_rfl
    · exact not_lt.1 h
  exact ⟨(hclamp _).1, (hclamp _).2 (hcap _)⟩

theorem pairEntry_bounds (a b : ℕ) : -1 ≤ s.pairEntry sqrt a b ∧ s.pairEntry sqrt a b ≤ 1 := by
  unfold CorrSums.pairEntry
  split_ifs
  · exact ⟨neg_one_lt_zero.le, zero_le_one⟩
  · exact ⟨neg_one_lt_zero.le, zero_le_one⟩
  · exact corr_bounds a b

/-- The matrix is a correlation matrix that the sums determine, whatever it held, if and only if no
    constant model stands before one that varies. -/
theorem finalizeCorr_determined_iff (hwindow : 2 ≤ s.windowCount) :
    Determined sqrt m s nModels ↔
      ∀ i j, i < j → j < modelCount nModels m → s.Constant sqrt i → s.Constant sqrt j := by
  rcases lt_or_ge nModels 1 with hnone | hn
  · have hzero : modelCount nModels m = 0 := by
      unfold modelCount
      omega
    have hident : ∀ corr, finalizeCorrFromSums sqrt m corr s nModels = identityCorr m corr :=
      finalizeCorrFromSums_of_none hnone
    refine ⟨fun _ i j _ hj => absurd hj (by omega), fun _ => ⟨fun corr => ?_, fun corr corr' h => ?_,
      fun corr corr' h L y w mu ridgeLambda => ?_⟩⟩
    · rw [hzero]
      exact ⟨fun _ _ ha => absurd ha (Nat.not_lt_zero _), fun _ ha => absurd ha (Nat.not_lt_zero _),
        fun _ _ ha => absurd ha (Nat.not_lt_zero _), fun _ _ ha => absurd ha (Nat.not_lt_zero _)⟩
    · rw [hident, hident, identityCorr_congr h]
    · rw [hident, hident, identityCorr_congr h]
  · constructor
    · intro hdetermined i j hij hj hconst
      by_contra hvaries
      -- the entry below the diagonal of the pair still holds what was there
      have hstale : finalizeCorrFromSums sqrt m (fun _ _ => 2) s nModels j i = 2 := by
        rw [finalizeCorrFromSums_entry hwindow hn _ hj (hij.trans hj), if_neg hij.ne', if_neg (not_lt.2 hij.le),
          if_pos ⟨hconst, hvaries⟩]
      have hbound := ((hdetermined.correlation fun _ _ => 2).bounds j i hj (hij.trans hj)).2
      rw [hstale] at hbound
      exact absurd hbound (not_le.2 one_lt_two)
    · intro hordered
      have hpair : ∀ corr {a b : ℕ}, a < modelCount nModels m → b < modelCount nModels m →
          finalizeCorrFromSums sqrt m corr s nModels a b =
            if a = b then 1 else if a < b then s.pairEntry sqrt a b else s.pairEntry sqrt b a :=
        finalizeCorrFromSums_pair hwindow hn hordered
      refine ⟨fun corr => ⟨fun a b ha hb => ?_, fun a ha => ?_, fun a b ha hb => ?_, fun a b ha hb hne hconst => ?_⟩,
        fun corr corr' h => finalizeCorrFromSums_congr hwindow hn hordered h,
        fun corr corr' h L y w mu ridgeLambda => by rw [finalizeCorrFromSums_congr hwindow hn hordered h]⟩
      · rw [hpair corr ha hb, hpair corr hb ha]
        grind
      · rw [hpair corr ha ha, if_pos rfl]
      · rw [hpair corr ha hb]
        split_ifs
        · exact ⟨neg_one_lt_zero.le.trans zero_le_one, le_rfl⟩
        · exact pairEntry_bounds a b
        · exact pairEntry_bounds b a
      · rw [hpair corr ha hb, hpair corr hb ha]
        unfold CorrSums.pairEntry
        grind

/-! Two predictions of two models: the first model says one half twice, the second zero and one. -/

def steadyFirst : CorrSums ℚ where
  sumX := fun _ => 1
  sumXX := fun i j => if i = 1 ∧ j = 1 then 1 else 1 / 2
  windowCount := 2

/-- The root of the two variances there are. -/
def sampleRoot (x : ℚ) : ℚ := if x = 1 / 4 then 1 / 2 else 0

theorem finalizeCorr_determined_sample :
    Determined sampleRoot 8 steadyFirst 2 ↔
      ∀ i j, i < j → j < modelCount 2 8 → steadyFirst.Constant sampleRoot i → steadyFirst.Constant sampleRoot j :=
  finalizeCorr_determined_iff (by decide)

theorem finalizeCorr_stale :
    finalizeCorrFromSums sampleRoot 8 (fun _ _ => 2 / 5) steadyFirst 2 1 0 = 2 / 5 ∧
      finalizeCorrFromSums sampleRoot 8 (fun _ _ => 0) steadyFirst 2 1 0 = 0 ∧
      ¬Determined sampleRoot 8 steadyFirst 2 := by
  have hstale : finalizeCorrFromSums sampleRoot 8 (fun _ _ => 2 / 5) steadyFirst 2 1 0 = 2 / 5 := by decide +kernel
  have hupper : finalizeCorrFromSums sampleRoot 8 (fun _ _ => 2 / 5) steadyFirst 2 0 1 = 0 := by decide +kernel
  refine ⟨hstale, by decide +kernel, fun hdetermined => ?_⟩
  have hsymm := (hdetermined.correlation fun _ _ => 2 / 5).symm 1 0 (by decide) (by decide)
  rw [hstale, hupper] at hsymm
  norm_num at hsymm

end FoxTrader
