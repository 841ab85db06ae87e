import FoxTrader.EnsembleModelZoo
import FoxTrader.Lib.SlidingWindow
import Mathlib.Data.List.Induction

/-! # The drift watchdog

    An arm's last hundred outcomes are meant to decide whether its weight is taken. The slot of an outcome
    is the count of the outcomes, and the count stops at a hundred: up to the hundred and first outcome
    that is a sliding window, afterwards every outcome is written over the one before it.

    So the average follows the window as long as the outcomes that stay for good sum up to what those in
    the window do (`updateDrifts_follow_iff`). -/

namespace FoxTrader

open Lib

/-- The outcomes, correct ones up and wrong ones down. -/
def tally (outcomes : List Bool) : ℤ := (outcomes.map fun c => if c then (1 : ℤ) else -1).sum

theorem tally_append (l l' : List Bool) : tally (l ++ l') = tally l + tally l' := by
  rw [tally, List.map_append, List.sum_append]
  rfl

theorem tally_cons (c : Bool) (l : List Bool) : tally (c :: l) = tally [c] + tally l := tally_append [c] l

theorem abs_tally_le (l : List Bool) : |tally l| ≤ l.length := by
  induction l with
  | nil => rfl
  | cons c l ih =>
    have hone : |tally [c]| = 1 := by cases c <;> rfl
    have hsum := abs_add_le (tally [c]) (tally l)
    rw [tally_cons, List.length_cons]
    push_cast
    omega

/-- What the slots hold after the outcomes. -/
def slotOutcomes (outcomes : List Bool) : List Bool :=
  if outcomes.length ≤ driftIcHistory then outcomes
  else outcomes.getLast?.toList ++ (outcomes.take driftIcHistory).drop 1

theorem slotOutcomes_of_le {l : List Bool} (h : l.length ≤ driftIcHistory) : slotOutcomes l = l := if_pos h

theorem slotOutcomes_snoc_of_le {l : List Bool} (h : driftIcHistory ≤ l.length) (c : Bool) :
    slotOutcomes (l ++ [c]) = c :: (l.take driftIcHistory).drop 1 := by
  have hlen : ¬(l ++ [c]).length ≤ driftIcHistory := by
    rw [List.length_append, List.length_singleton]
    omega
  rw [slotOutcomes, if_neg hlen, List.getLast?_concat, List.take_append_of_le_length h]
  rfl

theorem slotOutcomes_full {l : List Bool} (h : driftIcHistory ≤ l.length) :
    ∃ c, slotOutcomes l = c :: (l.take driftIcHistory).drop 1 := by
  rcases eq_or_lt_of_le h with heq | hlt
  · obtain ⟨c, rest, rfl⟩ := List.exists_cons_of_length_pos (l := l) (by unfold driftIcHistory at h; omega)
    refine ⟨c, ?_⟩
    rw [slotOutcomes_of_le heq.ge, heq, List.take_length, List.drop_one, List.tail_cons]
  · obtain ⟨l', c, rfl⟩ := List.eq_nil_or_concat'  l |>.resolve_left (by rintro rfl; simp at hlt)
    rw [List.length_append, List.length_singleton] at hlt
    have hle : driftIcHistory ≤ l'.length := by omega
    exact ⟨c, by rw [slotOutcomes_snoc_of_le hle, List.take_append_of_le_length hle]⟩

theorem length_slotOutcomes (l : List Bool) : (slotOutcomes l).length = min l.length driftIcHistory := by
  by_cases h : l.length ≤ driftIcHistory
  · rw [slotOutcomes_of_le h, min_eq_left h]
  · have hle : driftIcHistory ≤ l.length := by omega
    obtain ⟨c, hc⟩ := slotOutcomes_full hle
    rw [hc, List.length_cons, List.length_drop, List.length_take, min_eq_left hle, min_eq_right hle]
    rfl

variable {K : Type*}

/-- One call of the watchdog. -/
structure DriftCall (K : Type*) where
  arm : ℤ
  correct : Bool
  icFloor : K

def outcomesOf (arm : ℤ) (calls : List (DriftCall K)) : List Bool :=
  (calls.filter fun c => c.arm == arm).map DriftCall.correct

theorem outcomesOf_snoc_self (calls : List (DriftCall K)) (c : DriftCall K) :
    outcomesOf c.arm (calls ++ [c]) = outcomesOf c.arm calls ++ [c.correct] := by
  simp [outcomesOf]

theorem outcomesOf_snoc_of_ne (calls : List (DriftCall K)) {c : DriftCall K} {arm : ℤ} (h : c.arm ≠ arm) :
    outcomesOf arm (calls ++ [c]) = outcomesOf arm calls := by
  simp [outcomesOf, h]

variable [Field K] [LinearOrder K]

/-- An arm without outcomes. -/
def freshDrift : PerArmDrift K where
  icHistory := List.replicate driftIcHistory 0
  icCount := 0
  icAvg := 0
  demoted := false

def outcomeValue (c : Bool) : K := if c then 1 else -1

omit [LinearOrder K] in
theorem foldl_outcomeValue (l : List Bool) (a : ℤ) :
    (l.map outcomeValue).foldl (· + ·) (a : K) = ((a + tally l : ℤ) : K) := by
  induction l generalizing a with
  | nil => rw [List.map_nil, List.foldl_nil, tally, List.map_nil, List.sum_nil, add_zero]
  | cons c l ih =>
    have hvalue : (outcomeValue c : K) = ((tally [c] : ℤ) : K) := by cases c <;> simp [outcomeValue, tally]
    rw [List.map_cons, List.foldl_cons, hvalue, ← Int.cast_add, ih, tally_cons c l, add_assoc]

namespace PerArmDrift

/-- The slots of an arm after the outcomes. -/
structure Holds (d : PerArmDrift K) (outcomes : List Bool) : Prop where
  history : d.icHistory = (slotOutcomes outcomes).map outcomeValue ++
    List.replicate (driftIcHistory - (slotOutcomes outcomes).length) 0
  count : d.icCount = min outcomes.length driftIcHistory

omit [LinearOrder K] in
theorem Holds.fresh : Holds (freshDrift : PerArmDrift K) [] := ⟨rfl, rfl⟩

omit [LinearOrder K] in
/-- The next slot takes the outcome, from the hundred and first on always the first one. -/
theorem record_holds (r : FloatRounding K) {d : PerArmDrift K} {outcomes : List Bool} (h : d.Holds outcomes)
    (c : Bool) : (d.record r c).Holds (outcomes ++ [c]) := by
  have hlen : (outcomes ++ [c]).length = outcomes.length + 1 := by
    rw [List.length_append, List.length_singleton]
  by_cases hfull : driftIcHistory ≤ outcomes.length
  · obtain ⟨c', hc'⟩ := slotOutcomes_full hfull
    have hcount : d.icCount = driftIcHistory := h.count.trans (min_eq_right hfull)
    refine ⟨?_, ?_⟩
    · have hset : (d.record r c).icHistory = d.icHistory.set (d.icCount % driftIcHistory) (outcomeValue c) := rfl
      rw [hset, h.history, hcount, Nat.mod_self, hc', List.map_cons, List.cons_append, List.set_cons_zero,
        slotOutcomes_snoc_of_le hfull]
      rfl
    · have hset : (d.record r c).icCount = if d.icCount < driftIcHistory then d.icCount + 1 else d.icCount := rfl
      rw [hset, hcount, if_neg (lt_irrefl _), hlen, min_eq_right (by omega)]
  · have hle : outcomes.length ≤ driftIcHistory := by omega
    have hcount : d.icCount = outcomes.length := h.count.trans (min_eq_left hle)
    refine ⟨?_, ?_⟩
    · have hset : (d.record r c).icHistory = d.icHistory.set (d.icCount % driftIcHistory) (outcomeValue c) := rfl
      have hzeros : driftIcHistory - outcomes.length = driftIcHistory - (outcomes.length + 1) + 1 := by omega
      rw [hset, h.history, hcount, Nat.mod_eq_of_lt (by omega), slotOutcomes_of_le hle,
        slotOutcomes_of_le (by omega), List.set_append_right _ _ (by rw [List.length_map]), List.length_map,
        Nat.sub_self, hlen, hzeros, List.replicate_succ, List.set_cons_zero, List.map_append, List.append_assoc]
      rfl
    · have hset : (d.record r c).icCount = if d.icCount < driftIcHistory then d.icCount + 1 else d.icCount := rfl
      rw [hset, hcount, if_pos (by omega), hlen, min_eq_left (by omega)]

omit [LinearOrder K] in
/-- The average is that of the slots. -/
theorem record_avg (r : FloatRounding K) {d : PerArmDrift K} {outcomes : List Bool} (h : d.Holds outcomes)
    (c : Bool) : (d.record r c).icAvg = r.round ((tally (slotOutcomes (outcomes ++ [c])) : K) /
      (min (outcomes ++ [c]).length driftIcHistory : ℕ)) := by
  have hafter := record_holds r h c
  have hpos : 0 < min (outcomes ++ [c]).length driftIcHistory := by
    rw [List.length_append, List.length_singleton]
    unfold driftIcHistory
    omega
  have hn : (if driftIcHistory < (d.record r c).icCount then driftIcHistory else (d.record r c).icCount) =
      min (outcomes ++ [c]).length driftIcHistory := by
    rw [hafter.count, if_neg (by omega)]
  have hdef : (d.record r c).icAvg =
      if 0 < (if driftIcHistory < (d.record r c).icCount then driftIcHistory else (d.record r c).icCount) then
        r.round ((((d.record r c).icHistory.take (if driftIcHistory < (d.record r c).icCount then driftIcHistory
          else (d.record r c).icCount)).foldl (· + ·) 0) / ((if driftIcHistory < (d.record r c).icCount
          then driftIcHistory else (d.record r c).icCount : ℕ) : K))
      else 0 := rfl
  have htake : (d.record r c).icHistory.take (min (outcomes ++ [c]).length driftIcHistory) =
      (slotOutcomes (outcomes ++ [c])).map outcomeValue := by
    rw [hafter.history, List.take_left' ((List.length_map _).trans (length_slotOutcomes _))]
  have hsum := foldl_outcomeValue (K := K) (slotOutcomes (outcomes ++ [c])) 0
  rw [Int.cast_zero, zero_add] at hsum
  rw [hdef, hn, if_pos hpos, htake, hsum]

end PerArmDrift

/-! ### One call -/

/-- The average of the outcomes in the window. -/
def windowMean (r : FloatRounding K) (outcomes : List Bool) : K :=
  r.round ((tally (window driftIcHistory outcomes) : K) / (min outcomes.length driftIcHistory : ℕ))

/-- What one call is meant to leave of its arm, with the outcomes so far, its own among them. -/
structure FollowsWindow (r : FloatRounding K) (before after : PerArmDrift K) (outcomes : List Bool) (icFloor : K) :
    Prop where
  avg : after.icAvg = windowMean r outcomes
  demotes : before.demoted = false →
    (after.demoted = true ↔ 20 ≤ outcomes.length ∧ windowMean r outcomes < r.round icFloor)
  recovers : before.demoted = true →
    (after.demoted = false ↔ r.round (r.round icFloor + r.round recoveryMargin) < windowMean r outcomes)

/-- The outcomes that stay in the slots for good sum up to what those in the window do, the last one
    apart. -/
def SlidesAlike (outcomes : List Bool) : Prop :=
  driftIcHistory + 1 < outcomes.length →
    tally ((outcomes.take driftIcHistory).drop 1) = tally (window driftIcHistory outcomes).dropLast

/-- The slots average the window if and only if what they keep for good does. -/
theorem tally_slotOutcomes_iff (outcomes : List Bool) :
    tally (slotOutcomes outcomes) = tally (window driftIcHistory outcomes) ↔ SlidesAlike outcomes := by
  rcases Nat.lt_or_ge driftIcHistory outcomes.length with hlong | hshort
  · obtain ⟨l, c, rfl⟩ := List.eq_nil_or_concat' outcomes |>.resolve_left (by rintro rfl; simp at hlong)
    rw [List.length_append, List.length_singleton] at hlong
    have hle : driftIcHistory ≤ l.length := by omega
    obtain ⟨x, rest, -, hwindow, hsnoc⟩ := window_snoc_of_le (by unfold driftIcHistory; omega) hle
    rw [slotOutcomes_snoc_of_le hle, tally_cons, hsnoc, tally_append, SlidesAlike, List.length_append,
      List.length_singleton, List.take_append_of_le_length hle, hsnoc, List.dropLast_concat, add_comm (tally [c]),
      add_left_inj]
    refine ⟨fun h _ => h, fun h => ?_⟩
    rcases eq_or_lt_of_le hle with heq | hlt
    · -- the hundred and first outcome takes the slot of the first, which is the oldest
      have hall : window driftIcHistory l = l := window_of_le heq.ge
      rw [heq, List.take_length, ← hall, hwindow, List.drop_one, List.tail_cons]
    · exact h (by omega)
  · rw [slotOutcomes_of_le hshort, window_of_le hshort, SlidesAlike]
    exact ⟨fun _ h => absurd h (by omega), fun _ => rfl⟩

namespace PerArmDrift

/-- The watchdog's verdict on an arm. -/
def judged (r : FloatRounding K) (d : PerArmDrift K) (icFloor : K) : PerArmDrift K :=
  if d.demotes r icFloor then { d with demoted := true }
  else if d.recovers r icFloor then { d with demoted := false }
  else d

theorem judged_icAvg (r : FloatRounding K) (d : PerArmDrift K) (icFloor : K) :
    (d.judged r icFloor).icAvg = d.icAvg := by
  unfold judged
  split_ifs <;> rfl

theorem judged_holds (r : FloatRounding K) {d : PerArmDrift K} {outcomes : List Bool} (h : d.Holds outcomes)
    (icFloor : K) : (d.judged r icFloor).Holds outcomes := by
  unfold judged
  split_ifs
  · exact ⟨h.history, h.count⟩
  · exact ⟨h.history, h.count⟩
  · exact h

theorem judged_demoted_of_weight (r : FloatRounding K) {d : PerArmDrift K} (h : d.demoted = false) (icFloor : K) :
    (d.judged r icFloor).demoted = true ↔ 20 ≤ min d.icCount driftIcHistory ∧ d.icAvg < r.round icFloor := by
  have hrecovers : d.recovers r icFloor = false := by rw [recovers, h, Bool.false_and]
  have hdemotes : d.demotes r icFloor = true ↔ 20 ≤ min d.icCount driftIcHistory ∧ d.icAvg < r.round icFloor := by
    rw [demotes, h, Bool.not_false, Bool.and_true, Bool.and_eq_true, decide_eq_true_eq, decide_eq_true_eq]
  rw [← hdemotes, judged, hrecovers]
  by_cases hd : d.demotes r icFloor = true
  · rw [if_pos hd]
    exact ⟨fun _ => hd, fun _ => rfl⟩
  · rw [if_neg hd, if_neg Bool.false_ne_true, h]
    exact ⟨fun hf => absurd hf Bool.false_ne_true, fun ht => absurd ht hd⟩

theorem judged_demoted_of_none (r : FloatRounding K) {d : PerArmDrift K} (h : d.demoted = true) (icFloor : K) :
    (d.judged r icFloor).demoted = false ↔ r.round (r.round icFloor + r.round recoveryMargin) < d.icAvg := by
  have hdemotes : d.demotes r icFloor = false := by rw [demotes, h, Bool.not_true, Bool.and_false]
  have hrecovers : d.recovers r icFloor = true ↔ r.round (r.round icFloor + r.round recoveryMargin) < d.icAvg := by
    rw [recovers, h, Bool.true_and, decide_eq_true_eq]
  rw [← hrecovers, judged, hdemotes, if_neg Bool.false_ne_true]
  by_cases hr : d.recovers r icFloor = true
  · rw [if_pos hr]
    exact ⟨fun _ => hr, fun _ => rfl⟩
  · rw [if_neg hr, h]
    exact ⟨fun hf => absurd hf.symm Bool.false_ne_true, fun ht => absurd ht hr⟩

/-- One call does what it is meant to if and only if the slots' outcomes and the window's sum up alike. -/
theorem follows_iff [IsStrictOrderedRing K] (r : FloatRounding K) {d : PerArmDrift K} {outcomes : List Bool}
    (h : d.Holds outcomes) (c : Bool)
    (icFloor : K) :
    FollowsWindow r d ((d.record r c).judged r icFloor) (outcomes ++ [c]) icFloor ↔
      SlidesAlike (outcomes ++ [c]) := by
  have havg := record_avg r h c
  have hlen : (outcomes ++ [c]).length = outcomes.length + 1 := by
    rw [List.length_append, List.length_singleton]
  rw [← tally_slotOutcomes_iff]
  constructor
  · intro hfollows
    by_cases hlong : driftIcHistory ≤ (outcomes ++ [c]).length
    · have heq := hfollows.avg
      rw [judged_icAvg, havg, windowMean, min_eq_right hlong] at heq
      have hslots := abs_tally_le (slotOutcomes (outcomes ++ [c]))
      have hwindow := abs_tally_le (window driftIcHistory (outcomes ++ [c]))
      rw [length_slotOutcomes, min_eq_right hlong] at hslots
      rw [length_window, min_eq_right hlong] at hwindow
      exact r.hundredths _ _ hslots hwindow heq
    · rw [slotOutcomes_of_le (by omega), window_of_le (by omega)]
  · intro hsame
    have hmean : (d.record r c).icAvg = windowMean r (outcomes ++ [c]) := by rw [havg, hsame, windowMean]
    have hcount := (record_holds r h c).count
    refine ⟨(judged_icAvg ..).trans hmean, fun hweight => ?_, fun hnone => ?_⟩
    · rw [judged_demoted_of_weight r (d := d.record r c) hweight, hmean, hcount]
      refine and_congr_left fun _ => ?_
      unfold driftIcHistory
      omega
    · rw [judged_demoted_of_none r (d := d.record r c) hnone, hmean]

end PerArmDrift

/-! ### Runs -/

namespace EnsembleModelZoo

/-- The arms a call can reach. -/
def IsArm (z : EnsembleModelZoo K) (arm : ℤ) : Prop := 0 ≤ arm ∧ arm < z.ensurePrimary.primaryCount

theorem updateDrift_primaryCount (r : FloatRounding K) (z : EnsembleModelZoo K) (arm : ℤ) (correct : Bool)
    (icFloor : K) :
    (z.updateDrift r arm correct icFloor).ensurePrimary.primaryCount = z.ensurePrimary.primaryCount := by
  have hroles : (z.updateDrift r arm correct icFloor).ensurePrimary.primaryCount =
      z.ensurePrimary.ensurePrimary.primaryCount := by
    unfold updateDrift
    dsimp only
    split_ifs
    · rfl
    · exact ensurePrimary_primaryCount_congr rfl rfl rfl rfl rfl
    · exact ensurePrimary_primaryCount_congr rfl rfl rfl rfl rfl
    · exact ensurePrimary_primaryCount_congr rfl rfl rfl rfl rfl
  rw [hroles, ensurePrimary_ensurePrimary]

/-- A call records its outcome and judges the arm. -/
theorem updateDrift_drift (r : FloatRounding K) {z : EnsembleModelZoo K} {arm : ℤ} (h : z.IsArm arm) (correct : Bool)
    (icFloor : K) : (z.updateDrift r arm correct icFloor).drift =
      Function.update z.drift arm.toNat (((z.drift arm.toNat).record r correct).judged r icFloor) := by
  have hin : ¬(decide (arm < 0) || decide (z.ensurePrimary.primaryCount ≤ arm)) = true := by
    rw [Bool.or_eq_true, decide_eq_true_eq, decide_eq_true_eq]
    obtain ⟨h0, hlt⟩ := h
    omega
  unfold updateDrift
  dsimp only
  rw [if_neg hin, ensurePrimary_drift]
  unfold PerArmDrift.judged demoteArm
  split_ifs
  · dsimp only
    rw [Function.update_idem, Function.update_self]
  · exact Function.update_idem ..
  · rfl

theorem updateDrift_drift_of_not (r : FloatRounding K) {z : EnsembleModelZoo K} {arm : ℤ} (h : ¬z.IsArm arm)
    (correct : Bool) (icFloor : K) : (z.updateDrift r arm correct icFloor).drift = z.drift := by
  have hout : (decide (arm < 0) || decide (z.ensurePrimary.primaryCount ≤ arm)) = true := by
    rw [Bool.or_eq_true, decide_eq_true_eq, decide_eq_true_eq]
    unfold IsArm at h
    omega
  unfold updateDrift
  dsimp only
  rw [if_pos hout, ensurePrimary_drift]

def updateDrifts (r : FloatRounding K) (z : EnsembleModelZoo K) (calls : List (DriftCall K)) : EnsembleModelZoo K :=
  calls.foldl (fun z c => z.updateDrift r c.arm c.correct c.icFloor) z

theorem updateDrifts_snoc (r : FloatRounding K) (z : EnsembleModelZoo K) (calls : List (DriftCall K))
    (c : DriftCall K) : z.updateDrifts r (calls ++ [c]) =
      (z.updateDrifts r calls).updateDrift r c.arm c.correct c.icFloor := List.foldl_concat ..

theorem updateDrifts_primaryCount (r : FloatRounding K) (z : EnsembleModelZoo K) (calls : List (DriftCall K)) :
    (z.updateDrifts r calls).ensurePrimary.primaryCount = z.ensurePrimary.primaryCount := by
  induction calls using List.reverseRecOn with
  | nil => rfl
  | append_singleton calls c ih => rw [updateDrifts_snoc, updateDrift_primaryCount, ih]

theorem updateDrifts_isArm (r : FloatRounding K) (z : EnsembleModelZoo K) (calls : List (DriftCall K)) (arm : ℤ) :
    (z.updateDrifts r calls).IsArm arm ↔ z.IsArm arm := by
  rw [IsArm, updateDrifts_primaryCount]
  rfl

/-- After any calls an arm's slots hold what its own outcomes leave. -/
theorem updateDrifts_holds (r : FloatRounding K) {z : EnsembleModelZoo K} (hfresh : ∀ a, z.drift a = freshDrift)
    (calls : List (DriftCall K)) {arm : ℤ} (h : z.IsArm arm) :
    ((z.updateDrifts r calls).drift arm.toNat).Holds (outcomesOf arm calls) := by
  induction calls using List.reverseRecOn with
  | nil => exact hfresh arm.toNat ▸ .fresh
  | append_singleton calls c ih =>
    rw [updateDrifts_snoc]
    by_cases harm : c.arm = arm
    · subst harm
      rw [updateDrift_drift r ((updateDrifts_isArm r z calls _).2 h), Function.update_self, outcomesOf_snoc_self]
      exact PerArmDrift.judged_holds r (PerArmDrift.record_holds r ih _) _
    · rw [outcomesOf_snoc_of_ne calls harm]
      by_cases hc : (z.updateDrifts r calls).IsArm c.arm
      · have hne : arm.toNat ≠ c.arm.toNat := by
          have h0 := h.1
          have h0' := hc.1
          omega
        rw [updateDrift_drift r hc, Function.update_of_ne hne]
        exact ih
      · rw [updateDrift_drift_of_not r hc]
        exact ih

variable [IsStrictOrderedRing K]

/-- Every call follows its arm's window if and only if, whenever an arm has had more than a hundred and one
    outcomes, those that stay in the slots for good sum up to what those in the window do. -/
theorem updateDrifts_follow_iff (r : FloatRounding K) {z : EnsembleModelZoo K} (hfresh : ∀ a, z.drift a = freshDrift)
    (calls : List (DriftCall K)) :
    (∀ done c, done ++ [c] <+: calls → z.IsArm c.arm →
      FollowsWindow r ((z.updateDrifts r done).drift c.arm.toNat) ((z.updateDrifts r (done ++ [c])).drift c.arm.toNat)
        (outcomesOf c.arm (done ++ [c])) c.icFloor) ↔
      ∀ done c, done ++ [c] <+: calls → z.IsArm c.arm → SlidesAlike (outcomesOf c.arm (done ++ [c])) := by
  refine forall₄_congr fun done c _ harm => ?_
  rw [updateDrifts_snoc, updateDrift_drift r ((updateDrifts_isArm r z done _).2 harm), Function.update_self,
    outcomesOf_snoc_self]
  exact PerArmDrift.follows_iff r (updateDrifts_holds r hfresh done harm) c.correct c.icFloor

/-! An ensemble of three arms over the rationals, and a hundred wrong outcomes after a hundred correct
    ones. -/

theorem hundredths_injective (a b : ℤ) (_ : |a| ≤ 100) (_ : |b| ≤ 100)
    (h : id ((a : ℚ) / 100) = id ((b : ℚ) / 100)) : a = b :=
  Int.cast_injective ((div_left_inj' (by norm_num)).1 h)

def exactRounding : FloatRounding ℚ where
  round := id
  hundredths := hundredths_injective

def freshZoo : EnsembleModelZoo ℚ where
  active := true
  banditsReady := true
  buySignalCount := 3
  barrierCount := 0
  regimeCount := 0
  primaryHandles := some .buySignal
  primaryCount := 3
  disabledHorizonMask := 0#8
  bandits := fun _ => ⟨banditArms 3, BanditState.sampleBandit⟩
  rewardRing := fun _ => ⟨0, 0, fun _ => 0, 0, false, false⟩
  rewardRingHead := 0
  predictCallCount := 0
  drift := fun _ => freshDrift

theorem updateDrifts_follow_sample :
    (∀ done c, done ++ [c] <+: [(⟨0, true, 1 / 50⟩ : DriftCall ℚ), ⟨5, false, 1 / 50⟩] → freshZoo.IsArm c.arm →
      FollowsWindow exactRounding ((freshZoo.updateDrifts exactRounding done).drift c.arm.toNat)
        ((freshZoo.updateDrifts exactRounding (done ++ [c])).drift c.arm.toNat) (outcomesOf c.arm (done ++ [c]))
        c.icFloor) ↔
      ∀ done c, done ++ [c] <+: [(⟨0, true, 1 / 50⟩ : DriftCall ℚ), ⟨5, false, 1 / 50⟩] → freshZoo.IsArm c.arm →
        SlidesAlike (outcomesOf c.arm (done ++ [c])) :=
  updateDrifts_follow_iff exactRounding (fun _ => rfl) _

/-- A hundred correct outcomes of the first arm, then a hundred wrong ones. -/
def goodThenBad : List (DriftCall ℚ) :=
  List.replicate 100 ⟨0, true, 1 / 50⟩ ++ List.replicate 100 ⟨0, false, 1 / 50⟩

theorem updateDrifts_stuck :
    ((freshZoo.updateDrifts exactRounding goodThenBad).drift 0).icAvg = 49 / 50 ∧
      ((freshZoo.updateDrifts exactRounding goodThenBad).drift 0).demoted = false ∧
      windowMean exactRounding (outcomesOf 0 goodThenBad) = -1 ∧
      ¬∀ done c, done ++ [c] <+: goodThenBad → freshZoo.IsArm c.arm →
        FollowsWindow exactRounding ((freshZoo.updateDrifts exactRounding done).drift c.arm.toNat)
          ((freshZoo.updateDrifts exactRounding (done ++ [c])).drift c.arm.toNat) (outcomesOf c.arm (done ++ [c]))
          c.icFloor := by
  have havg : ((freshZoo.updateDrifts exactRounding goodThenBad).drift 0).icAvg = 49 / 50 := by decide +kernel
  have hmean : windowMean exactRounding (outcomesOf 0 goodThenBad) = -1 := by decide +kernel
  refine ⟨havg, by decide +kernel, hmean, fun hfollows => ?_⟩
  have hsplit : List.replicate 100 ⟨0, true, 1 / 50⟩ ++ List.replicate 99 ⟨0, false, 1 / 50⟩ ++
      [(⟨0, false, 1 / 50⟩ : DriftCall ℚ)] = goodThenBad := by
    rw [goodThenBad, List.append_assoc, ← List.replicate_succ']
  have harm : freshZoo.IsArm 0 := ⟨le_rfl, by decide⟩
  have hprefix : List.replicate 100 ⟨0, true, 1 / 50⟩ ++ List.replicate 99 ⟨0, false, 1 / 50⟩ ++
      [(⟨0, false, 1 / 50⟩ : DriftCall ℚ)] <+: goodThenBad := hsplit ▸ List.prefix_refl _
  have hlast := (hfollows _ _ hprefix harm).avg
  dsimp only at hlast
  rw [hsplit, Int.toNat_zero, hmean, havg] at hlast
  norm_num at hlast

end EnsembleModelZoo

end FoxTrader
