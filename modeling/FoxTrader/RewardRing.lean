import FoxTrader.DriftWatchdog
import Mathlib.Data.List.Induction
import Mathlib.Algebra.Order.Floor.Ring
import Mathlib.Data.List.Nodup
import Mathlib.Data.Rat.Floor
import Mathlib.Tactic.Linarith

/-! # The ring of predictions and its rewards

    Every slow cycle records one prediction and then rewards the records that are old enough, by the
    number of predictions a horizon lasts. A record stays in its slot until 256 predictions later: as long
    as a horizon lasts fewer predictions, every record is rewarded in exactly one cycle, by that cycle's
    price, and with a longer horizon the record is written over first (`rewardRun_once_iff`). A trade that
    closes never rewards a record that a trade has rewarded. -/

namespace FoxTrader

variable {K : Type*}

/-- What one slow cycle records and rewards by. -/
structure RewardCycle (K : Type*) where
  regimeId : ℤ
  perArmPreds : ℕ → K
  nArms : ℤ
  samplePrice : K
  currentPrice : K
  icFloor : K

inductive RewardStep (K : Type*) where
  | cycle (c : RewardCycle K)
  | tradeClose (realizedPnlBps rewardMult : K)
  /-- The operator's choice of arms. -/
  | disable (mask : BitVec 8)

namespace EnsembleModelZoo

/-- All that the ring of predictions depends on is the same. -/
structure SameRing (z z' : EnsembleModelZoo K) : Prop where
  active : z'.active = z.active
  banditsReady : z'.banditsReady = z.banditsReady
  ring : z'.rewardRing = z.rewardRing
  head : z'.rewardRingHead = z.rewardRingHead
  calls : z'.predictCallCount = z.predictCallCount

theorem SameRing.refl (z : EnsembleModelZoo K) : SameRing z z := ⟨rfl, rfl, rfl, rfl, rfl⟩

theorem SameRing.trans {z z' z'' : EnsembleModelZoo K} (h : SameRing z z') (h' : SameRing z' z'') : SameRing z z'' :=
  ⟨h'.active.trans h.active, h'.banditsReady.trans h.banditsReady, h'.ring.trans h.ring, h'.head.trans h.head,
    h'.calls.trans h.calls⟩

theorem SameRing.foldl {β : Type*} {f : EnsembleModelZoo K → β → EnsembleModelZoo K} (hf : ∀ z b, SameRing z (f z b))
    (l : List β) (z : EnsembleModelZoo K) : SameRing z (l.foldl f z) := by
  induction l generalizing z with
  | nil => exact .refl z
  | cons b l ih => exact (hf z b).trans (ih (f z b))

theorem ensurePrimary_sameRing (z : EnsembleModelZoo K) : SameRing z z.ensurePrimary := by
  unfold ensurePrimary
  split_ifs <;> exact ⟨rfl, rfl, rfl, rfl, rfl⟩

theorem credit_sameRing (dispatch : RewardDispatch K) (z : EnsembleModelZoo K) (w : Reward K) :
    SameRing z (z.credit dispatch w) := ⟨rfl, rfl, rfl, rfl, rfl⟩

end EnsembleModelZoo

/-- The cycles among the steps. -/
def cyclesOf : List (RewardStep K) → List (RewardCycle K)
  | [] => []
  | .cycle c :: steps => c :: cyclesOf steps
  | _ :: steps => cyclesOf steps

theorem cyclesOf_append (steps steps' : List (RewardStep K)) :
    cyclesOf (steps ++ steps') = cyclesOf steps ++ cyclesOf steps' := by
  induction steps with
  | nil => rfl
  | cons s steps ih =>
    cases s with
    | cycle c => exact congrArg (c :: ·) ih
    | tradeClose _ _ => exact ih
    | disable _ => exact ih

theorem cyclesOf_replicate (n : ℕ) (c : RewardCycle K) : (cyclesOf (List.replicate n (.cycle c))).length = n := by
  induction n with
  | zero => rfl
  | succ n ih => exact congrArg (· + 1) ih

theorem cyclesOf_length_lt {done steps : List (RewardStep K)} {c : RewardCycle K}
    (h : done ++ [.cycle c] <+: steps) : (cyclesOf done).length < (cyclesOf steps).length := by
  obtain ⟨rest, rfl⟩ := h
  rw [cyclesOf_append, cyclesOf_append, List.length_append, List.length_append]
  exact Nat.lt_of_lt_of_le (Nat.lt_succ_self _) (Nat.le_add_right ..)

/-- The step of a cycle with so many before it. -/
theorem exists_cycle {steps : List (RewardStep K)} {k : ℕ} (h : k < (cyclesOf steps).length) :
    ∃ done c, done ++ [.cycle c] <+: steps ∧ (cyclesOf done).length = k := by
  induction steps generalizing k with
  | nil => exact absurd h (Nat.not_lt_zero k)
  | cons s steps ih =>
    have hskip {j : ℕ} (hs : ∀ done, (cyclesOf (s :: done)).length = (cyclesOf done).length + j)
        (hk : j ≤ k) : ∃ done c, done ++ [.cycle c] <+: s :: steps ∧ (cyclesOf done).length = k := by
      have hall := hs steps
      have hless : k - j < (cyclesOf steps).length := by omega
      obtain ⟨done, c, hdone, hlen⟩ := ih hless
      exact ⟨s :: done, c, List.cons_prefix_cons.2 ⟨rfl, hdone⟩, by rw [hs, hlen]; omega⟩
    cases s with
    | cycle c =>
      rcases Nat.eq_zero_or_pos k with rfl | hk
      · exact ⟨[], c, ⟨steps, rfl⟩, rfl⟩
      · exact hskip (fun _ => rfl) hk
    | tradeClose _ _ => exact hskip (fun _ => rfl) (Nat.zero_le k)
    | disable _ => exact hskip (fun _ => rfl) (Nat.zero_le k)

variable [Field K] [LinearOrder K]

/-- The record of a cycle's prediction. -/
def RewardCycle.record (c : RewardCycle K) (n : ℕ) (rewardedLookback rewardedTrade : Bool) : PredictionRecord K where
  predictCall := n
  regimeId := c.regimeId
  predictions := fun a => if (a : ℤ) < min c.nArms ensembleHorizonMax then c.perArmPreds a else evenOdds
  samplePrice := c.samplePrice
  rewardedLookback
  rewardedTrade

namespace EnsembleModelZoo

/-- A cycle after its prediction was recorded. -/
def recorded (z : EnsembleModelZoo K) (c : RewardCycle K) : EnsembleModelZoo K :=
  z.recordPrediction c.regimeId c.perArmPreds c.nArms c.samplePrice

def rewardStep (env : RewardEnv K) (z : EnsembleModelZoo K) : RewardStep K → EnsembleModelZoo K
  | .cycle c => ((z.recorded c).tickRewardsFromLookback env c.currentPrice c.icFloor).1
  | .tradeClose realizedPnlBps rewardMult => z.tradeCloseReward env realizedPnlBps rewardMult
  | .disable mask => { z with disabledHorizonMask := mask }

/-- What a step rewards by the price since. -/
def lookbackRewards (env : RewardEnv K) (z : EnsembleModelZoo K) : RewardStep K → List (Reward K)
  | .cycle c => ((z.recorded c).tickRewardsFromLookback env c.currentPrice c.icFloor).2
  | _ => []

/-- The record a step rewards by a trade. -/
def tradeReward (z : EnsembleModelZoo K) : RewardStep K → Option ℕ
  | .tradeClose _ _ => z.tradeFound.map fun i => (z.rewardRing i).predictCall
  | _ => none

def rewardRun (env : RewardEnv K) (z : EnsembleModelZoo K) (steps : List (RewardStep K)) : EnsembleModelZoo K :=
  steps.foldl (rewardStep env) z

/-- The records that trades rewarded, in order. -/
def tradeRewards (env : RewardEnv K) (z : EnsembleModelZoo K) : List (RewardStep K) → List ℕ
  | [] => []
  | s :: steps => (z.tradeReward s).toList ++ (z.rewardStep env s).tradeRewards env steps

end EnsembleModelZoo

/-- What the arms have earned with the prediction made so many predictions ago, among the cycles up to the
    last one, `c`. -/
def earned (cycles : List (RewardCycle K)) (lookbackCalls : ℕ) (arms : List ℕ) (currentPrice : K) :
    List (Reward K) :=
  match cycles.reverse[lookbackCalls]? with
  | none => []
  | some d =>
    if d.samplePrice ≤ 0 then []
    else
      let rec' := d.record (cycles.length - lookbackCalls) false false
      rec'.rewards (rec'.priceUp currentPrice) 1 arms

/-- How many predictions a horizon lasts. -/
def RewardEnv.horizonCalls (env : RewardEnv K) : ℕ := ⌈(env.forwardTicks / env.pollInterval : ℚ)⌉.toNat

open EnsembleModelZoo

/-- What the rewards of a run are meant to be. -/
structure RewardedOnce (env : RewardEnv K) (z : EnsembleModelZoo K) (steps : List (RewardStep K)) : Prop where
  /-- A cycle rewards the prediction made as many predictions ago as the horizon lasts, and no other. -/
  lookback : ∀ done c, done ++ [.cycle c] <+: steps →
    (z.rewardRun env done).lookbackRewards env (.cycle c) =
      earned (cyclesOf (done ++ [.cycle c])) env.horizonCalls (z.rewardRun env done).ensurePrimary.enabledArms
        c.currentPrice
  /-- No slot is written over before its record was rewarded. -/
  kept : ∀ done c, done ++ [.cycle c] <+: steps →
    let slot := (z.rewardRun env done).rewardRing ((z.rewardRun env done).rewardRingHead % rewardRingSize)
    slot.predictCall = 0 ∨ slot.rewardedLookback = true
  trade : (z.tradeRewards env steps).Nodup

/-- An ensemble that has recorded nothing. -/
structure FreshRewards (z : EnsembleModelZoo K) : Prop where
  active : z.active = true
  banditsReady : z.banditsReady = true
  empty : ∀ i, (z.rewardRing i).predictCall = 0
  head : z.rewardRingHead = 0
  calls : z.predictCallCount = 0

/-! ### One look at a slot -/

namespace PredictionRecord

/-- A record after a look at its slot. -/
def ticked (rec : PredictionRecord K) (now lookbackCalls : ℕ) : PredictionRecord K :=
  if rec.due now lookbackCalls then { rec with rewardedLookback := true } else rec

/-- What a look at a slot rewards. -/
def slotRewards (rec : PredictionRecord K) (now lookbackCalls : ℕ) (currentPrice : K) (arms : List ℕ) :
    List (Reward K) :=
  if rec.due now lookbackCalls then
    if rec.samplePrice ≤ 0 then [] else rec.rewards (rec.priceUp currentPrice) 1 arms
  else []

end PredictionRecord

namespace EnsembleModelZoo

/-- Another record in a slot. -/
def setSlot (z : EnsembleModelZoo K) (i : ℕ) (rec : PredictionRecord K) : EnsembleModelZoo K :=
  { z with rewardRing := Function.update z.rewardRing i rec }

theorem updateDrift_sameRing (r : FloatRounding K) (z : EnsembleModelZoo K) (arm : ℤ) (correct : Bool) (icFloor : K) :
    SameRing z (z.updateDrift r arm correct icFloor) := by
  refine (ensurePrimary_sameRing z).trans ?_
  unfold updateDrift
  dsimp only
  split_ifs <;> exact ⟨rfl, rfl, rfl, rfl, rfl⟩

/-- A look at a slot changes its record alone, and rewards what is due there. -/
theorem tickSlot_spec (env : RewardEnv K) (currentPrice icFloor : K) (arms : List ℕ) (now : ℕ)
    (acc : EnsembleModelZoo K × List (Reward K)) (i : ℕ) :
    (tickSlot env currentPrice icFloor arms now acc i).2 =
        acc.2 ++ (acc.1.rewardRing i).slotRewards now env.lookbackCalls currentPrice arms ∧
      SameRing (acc.1.setSlot i ((acc.1.rewardRing i).ticked now env.lookbackCalls))
        (tickSlot env currentPrice icFloor arms now acc i).1 := by
  by_cases hdue : (acc.1.rewardRing i).due now env.lookbackCalls = true
  · have hslot : (acc.1.rewardRing i).ticked now env.lookbackCalls =
        { acc.1.rewardRing i with rewardedLookback := true } := if_pos hdue
    unfold tickSlot PredictionRecord.slotRewards setSlot
    dsimp only
    rw [hslot, hdue, Bool.not_true, if_neg Bool.false_ne_true, if_pos rfl]
    by_cases hprice : (acc.1.rewardRing i).samplePrice ≤ 0
    · rw [if_pos hprice, if_pos hprice, List.append_nil]
      exact ⟨rfl, .refl _⟩
    · rw [if_neg hprice, if_neg hprice]
      have hsame := SameRing.foldl (f := fun z w => (z.credit env.dispatch w).updateDrift env.rounding w.arm
          ((acc.1.rewardRing i).correct ((acc.1.rewardRing i).priceUp currentPrice) w.arm) icFloor)
        (fun z w => (credit_sameRing env.dispatch z w).trans (updateDrift_sameRing ..))
        ((acc.1.rewardRing i).rewards ((acc.1.rewardRing i).priceUp currentPrice) 1 arms) acc.1
      exact ⟨rfl, hsame.active, hsame.banditsReady, congrArg (Function.update · i _) hsame.ring, hsame.head,
        hsame.calls⟩
  · have hslot : (acc.1.rewardRing i).ticked now env.lookbackCalls = acc.1.rewardRing i := if_neg hdue
    rw [Bool.not_eq_true] at hdue
    unfold tickSlot PredictionRecord.slotRewards setSlot
    dsimp only
    rw [hslot, hdue, Bool.not_false, if_pos rfl, if_neg Bool.false_ne_true, List.append_nil, Function.update_eq_self]
    exact ⟨rfl, .refl _⟩

/-! ### The walk over the slots -/

theorem flatMap_eq_of_unique {α β : Type*} {l : List α} (hl : l.Nodup) {i : α} (hi : i ∈ l) {f : α → List β}
    (h : ∀ j ∈ l, j ≠ i → f j = []) : l.flatMap f = f i := by
  induction l with
  | nil => exact absurd hi List.not_mem_nil
  | cons j l ih =>
    obtain ⟨hj, hl⟩ := List.nodup_cons.1 hl
    rw [List.flatMap_cons]
    rcases List.mem_cons.1 hi with rfl | hmem
    · rw [List.flatMap_eq_nil_iff.2 fun k hk => h k (List.mem_cons_of_mem _ hk) fun heq => hj (heq ▸ hk),
        List.append_nil]
    · rw [h j List.mem_cons_self fun heq => hj (heq ▸ hmem), List.nil_append,
        ih hl hmem fun k hk => h k (List.mem_cons_of_mem _ hk)]

/-- The walk looks at every slot once. -/
theorem foldl_tickSlot (env : RewardEnv K) (currentPrice icFloor : K) (arms : List ℕ) (now : ℕ) {l : List ℕ}
    (hl : l.Nodup) (acc : EnsembleModelZoo K × List (Reward K)) :
    (l.foldl (tickSlot env currentPrice icFloor arms now) acc).2 = acc.2 ++
        l.flatMap (fun i => (acc.1.rewardRing i).slotRewards now env.lookbackCalls currentPrice arms) ∧
      SameRing { acc.1 with rewardRing := fun i => if i ∈ l then (acc.1.rewardRing i).ticked now env.lookbackCalls
          else acc.1.rewardRing i } (l.foldl (tickSlot env currentPrice icFloor arms now) acc).1 := by
  induction l generalizing acc with
  | nil =>
    simp only [List.foldl_nil, List.flatMap_nil, List.append_nil, List.not_mem_nil, if_false]
    exact ⟨trivial, .refl _⟩
  | cons i l ih =>
    obtain ⟨hi, hl⟩ := List.nodup_cons.1 hl
    obtain ⟨hlog, hstep⟩ := tickSlot_spec env currentPrice icFloor arms now acc i
    obtain ⟨hrest, hring⟩ := ih hl (tickSlot env currentPrice icFloor arms now acc i)
    have hothers (j : ℕ) (hj : j ∈ l) :
        (tickSlot env currentPrice icFloor arms now acc i).1.rewardRing j = acc.1.rewardRing j := by
      have hne : j ≠ i := fun heq => hi (heq ▸ hj)
      rw [hstep.ring]
      exact Function.update_of_ne hne ..
    rw [List.foldl_cons, List.flatMap_cons]
    refine ⟨?_, hring.active.trans hstep.active, hring.banditsReady.trans hstep.banditsReady, ?_,
      hring.head.trans hstep.head, hring.calls.trans hstep.calls⟩
    · rw [hrest, hlog, List.append_assoc]
      refine congrArg _ (congrArg _ (List.flatMap_congr fun j hj => ?_))
      rw [hothers j hj]
    · rw [hring.ring]
      funext j
      dsimp only
      by_cases hj : j ∈ l
      · rw [if_pos hj, if_pos (List.mem_cons_of_mem _ hj), hothers j hj]
      · rw [if_neg hj, hstep.ring]
        by_cases hji : j = i
        · rw [if_pos (hji ▸ List.mem_cons_self), hji]
          exact Function.update_self ..
        · rw [if_neg fun hmem => (List.mem_cons.1 hmem).elim hji hj]
          exact Function.update_of_ne hji ..

theorem tickRewardsFromLookback_spec (env : RewardEnv K) {z : EnsembleModelZoo K} (hactive : z.active = true)
    (hready : z.banditsReady = true) (currentPrice icFloor : K) :
    (z.tickRewardsFromLookback env currentPrice icFloor).2 =
        (List.range rewardRingSize).flatMap (fun i => (z.rewardRing i).slotRewards z.predictCallCount env.lookbackCalls
          currentPrice z.ensurePrimary.enabledArms) ∧
      SameRing { z with rewardRing := fun i => if i ∈ List.range rewardRingSize
          then (z.rewardRing i).ticked z.predictCallCount env.lookbackCalls else z.rewardRing i }
        (z.tickRewardsFromLookback env currentPrice icFloor).1 := by
  have hprimary := ensurePrimary_sameRing z
  obtain ⟨hlog, hring⟩ := foldl_tickSlot env currentPrice icFloor z.ensurePrimary.enabledArms z.predictCallCount
    (List.nodup_range (n := rewardRingSize)) (z.ensurePrimary, [])
  have hgo : (!z.active || !z.banditsReady) = false := by rw [hactive, hready, Bool.not_true, Bool.or_self]
  unfold tickRewardsFromLookback
  dsimp only
  rw [hgo, if_neg Bool.false_ne_true]
  refine ⟨?_, hring.active.trans hprimary.active, hring.banditsReady.trans hprimary.banditsReady, ?_,
    hring.head.trans hprimary.head, hring.calls.trans hprimary.calls⟩
  · rw [hlog, hprimary.ring, List.nil_append]
  · rw [hring.ring, hprimary.ring]

/-! ### What the slots hold -/

/-- The ring after the cycles, of which the first so many have been looked at, and the records that trades
    rewarded. -/
structure RingHolds (env : RewardEnv K) (z : EnsembleModelZoo K) (cycles : List (RewardCycle K)) (looked : ℕ)
    (traded : List ℕ) : Prop where
  active : z.active = true
  banditsReady : z.banditsReady = true
  calls : z.predictCallCount = cycles.length
  head : z.rewardRingHead = cycles.length % rewardRingSize
  unwritten : ∀ i, cycles.length ≤ i → i < rewardRingSize → (z.rewardRing i).predictCall = 0
  written : ∀ n d, cycles[n]? = some d → cycles.length ≤ n + rewardRingSize →
    z.rewardRing (n % rewardRingSize) = d.record (n + 1) (decide (n + 1 + env.lookbackCalls ≤ looked))
      (decide (n + 1 ∈ traded))
  traded_le : ∀ n ∈ traded, n ≤ cycles.length

namespace RingHolds

variable {env : RewardEnv K} {z : EnsembleModelZoo K} {cycles : List (RewardCycle K)} {looked : ℕ} {traded : List ℕ}

omit [LinearOrder K] in
theorem fresh (env : RewardEnv K) (h : FreshRewards z) : RingHolds env z [] 0 [] where
  active := h.active
  banditsReady := h.banditsReady
  calls := h.calls
  head := h.head
  unwritten := fun i _ _ => h.empty i
  written := fun _ _ hd => by cases hd
  traded_le := fun _ hn => absurd hn List.not_mem_nil

omit [LinearOrder K] in
/-- A slot was never written, or holds the last prediction of its place. -/
theorem slot_cases (h : RingHolds env z cycles looked traded) {i : ℕ} (hi : i < rewardRingSize) :
    (z.rewardRing i).predictCall = 0 ∨
      ∃ n d, cycles[n]? = some d ∧ cycles.length ≤ n + rewardRingSize ∧ n % rewardRingSize = i ∧ z.rewardRing i =
        d.record (n + 1) (decide (n + 1 + env.lookbackCalls ≤ looked)) (decide (n + 1 ∈ traded)) := by
  rcases Nat.lt_or_ge i cycles.length with hlt | hge
  · obtain ⟨n, hn, hlast, hmod⟩ : ∃ n, n < cycles.length ∧ cycles.length ≤ n + rewardRingSize ∧
        n % rewardRingSize = i := by
      refine ⟨i + rewardRingSize * ((cycles.length - 1 - i) / rewardRingSize), ?_, ?_, ?_⟩
      all_goals unfold rewardRingSize at *; omega
    have hd := List.getElem?_eq_getElem hn
    exact .inr ⟨n, _, hd, hlast, hmod, hmod ▸ h.written n _ hd hlast⟩
  · exact .inl (h.unwritten i hge hi)

omit [LinearOrder K] in
/-- A prediction takes the slot of the one 256 predictions before it. -/
theorem recorded (h : RingHolds env z cycles cycles.length traded) (c : RewardCycle K) :
    RingHolds env (z.recorded c) (cycles ++ [c]) cycles.length traded := by
  have hgo : (!z.active) = false := by rw [h.active, Bool.not_true]
  have hdef : z.recorded c =
      { z with
        predictCallCount := z.predictCallCount + 1
        rewardRing := Function.update z.rewardRing (z.rewardRingHead % rewardRingSize)
          (c.record (z.predictCallCount + 1) false false)
        rewardRingHead := (z.rewardRingHead + 1) % rewardRingSize } := by
    unfold EnsembleModelZoo.recorded recordPrediction
    rw [hgo, if_neg Bool.false_ne_true]
    rfl
  have hlen : (cycles ++ [c]).length = cycles.length + 1 := by rw [List.length_append, List.length_singleton]
  have hslot : z.rewardRingHead % rewardRingSize = cycles.length % rewardRingSize := by rw [h.head, Nat.mod_mod]
  rw [hdef, hslot]
  refine ⟨h.active, h.banditsReady, ?_, ?_, fun i hle hi => ?_, fun n d hd hlast => ?_, fun n hn => ?_⟩
  · rw [hlen]
    exact congrArg (· + 1) h.calls
  · dsimp only
    rw [hlen, h.head, Nat.mod_add_mod]
  · have hne : i ≠ cycles.length % rewardRingSize := by
      rw [Nat.mod_eq_of_lt (by omega)]
      omega
    dsimp only
    rw [Function.update_of_ne hne]
    exact h.unwritten i (by omega) hi
  · dsimp only
    rcases Nat.lt_or_ge n cycles.length with hlt | hge
    · have hne : n % rewardRingSize ≠ cycles.length % rewardRingSize := by
        unfold rewardRingSize at *
        omega
      rw [List.getElem?_append_left hlt] at hd
      rw [Function.update_of_ne hne]
      exact h.written n d hd (by omega)
    · have hn : n = cycles.length := by
        have := (List.getElem?_eq_some_iff.1 hd).1
        omega
      subst hn
      rw [List.getElem?_concat_length] at hd
      cases hd
      have hlook : ¬cycles.length + 1 + env.lookbackCalls ≤ cycles.length := by omega
      have htrade : cycles.length + 1 ∉ traded := fun hmem => by
        have := h.traded_le _ hmem
        omega
      rw [Function.update_self, decide_eq_false hlook, decide_eq_false htrade, h.calls]
  · have := h.traded_le n hn
    omega

omit [LinearOrder K] in
/-- What is due when one more cycle is looked at is the prediction as many predictions ago. -/
theorem due_iff (d : RewardCycle K) (n looked : ℕ) (trade : Bool) :
    (d.record (n + 1) (decide (n + 1 + env.lookbackCalls ≤ looked)) trade).due (looked + 1) env.lookbackCalls = true ↔
      n + env.lookbackCalls = looked := by
  unfold PredictionRecord.due RewardCycle.record
  simp only [Bool.and_eq_true, bne_iff_ne, Bool.not_eq_true', decide_eq_false_iff_not]
  omega

omit [LinearOrder K] in
/-- After the look every record that is old enough is marked. -/
theorem ticked_record (d : RewardCycle K) (n looked : ℕ) (trade : Bool) :
    (d.record (n + 1) (decide (n + 1 + env.lookbackCalls ≤ looked)) trade).ticked (looked + 1) env.lookbackCalls =
      d.record (n + 1) (decide (n + 1 + env.lookbackCalls ≤ looked + 1)) trade := by
  unfold PredictionRecord.ticked
  by_cases hdue : n + env.lookbackCalls = looked
  · rw [if_pos ((due_iff d n looked trade).2 hdue),
      decide_eq_true (by omega : n + 1 + env.lookbackCalls ≤ looked + 1)]
    rfl
  · rw [if_neg (mt (due_iff d n looked trade).1 hdue)]
    have hsame : n + 1 + env.lookbackCalls ≤ looked ↔ n + 1 + env.lookbackCalls ≤ looked + 1 := by omega
    rw [decide_eq_decide.2 hsame]

omit [Field K] [LinearOrder K] in
theorem due_of_unwritten {rec : PredictionRecord K} (h : rec.predictCall = 0) (now lookbackCalls : ℕ) :
    rec.due now lookbackCalls = false := by
  unfold PredictionRecord.due
  rw [h]
  rfl

/-- The look at the slots marks what has come of age. -/
theorem looked_at (h : RingHolds env z cycles looked traded) (hlen : cycles.length = looked + 1)
    (currentPrice icFloor : K) :
    RingHolds env (z.tickRewardsFromLookback env currentPrice icFloor).1 cycles (looked + 1) traded := by
  obtain ⟨-, hsame⟩ := tickRewardsFromLookback_spec env h.active h.banditsReady currentPrice icFloor
  have hnow : z.predictCallCount = looked + 1 := h.calls.trans hlen
  have hslot {i : ℕ} (hi : i < rewardRingSize) :
      (z.tickRewardsFromLookback env currentPrice icFloor).1.rewardRing i =
        (z.rewardRing i).ticked (looked + 1) env.lookbackCalls := by
    rw [hsame.ring]
    dsimp only
    rw [if_pos (List.mem_range.2 hi), hnow]
  refine ⟨hsame.active.trans h.active, hsame.banditsReady.trans h.banditsReady, hsame.calls.trans h.calls,
    hsame.head.trans h.head, fun i hle hi => ?_, fun n d hd hlast => ?_, h.traded_le⟩
  · have hempty := h.unwritten i hle hi
    rw [hslot hi, PredictionRecord.ticked, due_of_unwritten hempty, if_neg Bool.false_ne_true]
    exact hempty
  · rw [hslot (Nat.mod_lt _ (by decide)), h.written n d hd hlast]
    exact ticked_record d n looked _

/-- The walk rewards the one prediction that has come of age, if it is still there. -/
theorem lookback_eq (h : RingHolds env z cycles looked traded) (hlen : cycles.length = looked + 1)
    (hkept : env.lookbackCalls < rewardRingSize ∨ looked < env.lookbackCalls) (currentPrice icFloor : K) :
    (z.tickRewardsFromLookback env currentPrice icFloor).2 =
      earned cycles env.lookbackCalls z.ensurePrimary.enabledArms currentPrice := by
  obtain ⟨hlog, -⟩ := tickRewardsFromLookback_spec env h.active h.banditsReady currentPrice icFloor
  have hnow : z.predictCallCount = looked + 1 := h.calls.trans hlen
  rw [hlog, hnow]
  have hnone {i : ℕ} (hi : i < rewardRingSize)
      (hne : ∀ n, n + env.lookbackCalls = looked → n % rewardRingSize ≠ i) :
      (z.rewardRing i).slotRewards (looked + 1) env.lookbackCalls currentPrice z.ensurePrimary.enabledArms = [] := by
    have hdue : (z.rewardRing i).due (looked + 1) env.lookbackCalls = false := by
      rcases h.slot_cases hi with hempty | ⟨n, d, -, -, hmod, hrec⟩
      · exact due_of_unwritten hempty _ _
      · rw [hrec, ← Bool.not_eq_true, due_iff]
        exact fun heq => hne n heq hmod
    rw [PredictionRecord.slotRewards, hdue, if_neg Bool.false_ne_true]
  rcases Nat.lt_or_ge looked env.lookbackCalls with hyoung | hold
  · have hget : cycles.reverse[env.lookbackCalls]? = none := by
      rw [List.getElem?_eq_none_iff, List.length_reverse]
      omega
    rw [earned, hget]
    exact List.flatMap_eq_nil_iff.2 fun i hi => hnone (List.mem_range.1 hi) fun n heq => by omega
  · have hring : env.lookbackCalls < rewardRingSize := hkept.resolve_right (by omega)
    have hn : looked - env.lookbackCalls < cycles.length := by omega
    have hd := List.getElem?_eq_getElem hn
    have hget : cycles.reverse[env.lookbackCalls]? = some cycles[looked - env.lookbackCalls] := by
      rw [List.getElem?_reverse (by omega), ← hd]
      congr 1
      omega
    have hrec := h.written _ _ hd (by omega)
    have hcall : cycles.length - env.lookbackCalls = looked - env.lookbackCalls + 1 := by omega
    rw [flatMap_eq_of_unique List.nodup_range (List.mem_range.2 (Nat.mod_lt (looked - env.lookbackCalls) (by decide)))
      fun i hi hne => hnone (List.mem_range.1 hi) fun n heq => by
        have hsame : n = looked - env.lookbackCalls := by omega
        exact hsame ▸ Ne.symm hne]
    rw [earned, hget, hrec, PredictionRecord.slotRewards, if_pos ((due_iff _ _ _ _).2 (by omega)), hcall]
    rfl

omit [LinearOrder K] in
/-- Another choice of arms changes nothing in the ring. -/
theorem sameRing (h : RingHolds env z cycles looked traded) {z' : EnsembleModelZoo K} (hsame : SameRing z z') :
    RingHolds env z' cycles looked traded where
  active := hsame.active.trans h.active
  banditsReady := hsame.banditsReady.trans h.banditsReady
  calls := hsame.calls.trans h.calls
  head := hsame.head.trans h.head
  unwritten := hsame.ring ▸ h.unwritten
  written := hsame.ring ▸ h.written
  traded_le := h.traded_le

omit [Field K] [LinearOrder K] in
/-- The walk back ends at a record that was written and that no trade has rewarded. -/
theorem tradeSlot_some {l : List ℕ} {i : ℕ} (h : z.tradeSlot l = some i) :
    i < rewardRingSize ∧ (z.rewardRing i).predictCall ≠ 0 ∧ (z.rewardRing i).rewardedTrade = false := by
  induction l with
  | nil => cases h
  | cons back rest ih =>
    unfold tradeSlot at h
    dsimp only at h
    split_ifs at h with hcall htrade
    · exact ih h
    · rw [Option.some.injEq] at h
      subst h
      exact ⟨Nat.mod_lt _ (by decide), hcall, Bool.not_eq_true _ ▸ htrade⟩

omit [Field K] [LinearOrder K] in
theorem tradeFound_some {i : ℕ} (h : z.tradeFound = some i) :
    i < rewardRingSize ∧ (z.rewardRing i).predictCall ≠ 0 ∧ (z.rewardRing i).rewardedTrade = false := by
  unfold tradeFound at h
  split_ifs at h
  exact tradeSlot_some h

omit [LinearOrder K] in
/-- What a trade rewards was rewarded by none before, and the ring remembers. -/
theorem trade_found (h : RingHolds env z cycles looked traded) {i : ℕ} (hi : z.tradeFound = some i) :
    (z.rewardRing i).predictCall ∉ traded ∧
      RingHolds env (z.setSlot i { z.rewardRing i with rewardedTrade := true }) cycles looked
        (traded ++ [(z.rewardRing i).predictCall]) := by
  obtain ⟨hlt, hcall, htrade⟩ := tradeFound_some hi
  obtain hempty | ⟨n, d, hd, hlast, hmod, hrec⟩ := h.slot_cases hlt
  · exact absurd hempty hcall
  have hnumber : (z.rewardRing i).predictCall = n + 1 := by rw [hrec]; rfl
  have hnew : n + 1 ∉ traded := by
    rw [hrec] at htrade
    exact of_decide_eq_false htrade
  have hn : n < cycles.length := (List.getElem?_eq_some_iff.1 hd).1
  rw [hnumber]
  refine ⟨hnew, h.active, h.banditsReady, h.calls, h.head, fun j hle hj => ?_, fun n' d' hd' hlast' => ?_,
    fun m hm => ?_⟩
  · have hempty := h.unwritten j hle hj
    have hne : j ≠ i := fun heq => hcall (heq ▸ hempty)
    unfold setSlot
    dsimp only
    rw [Function.update_of_ne hne]
    exact hempty
  · unfold setSlot
    dsimp only
    by_cases hsame : n' = n
    · subst hsame
      rw [hmod, Function.update_self, hrec, decide_eq_true (List.mem_append_right traded List.mem_cons_self)]
      rw [hd, Option.some.injEq] at hd'
      rw [hd']
      rfl
    · have hne : n' % rewardRingSize ≠ i := by
        have hn' := (List.getElem?_eq_some_iff.1 hd').1
        unfold rewardRingSize at *
        omega
      have hmem : n' + 1 ∈ traded ++ [n + 1] ↔ n' + 1 ∈ traded := by
        rw [List.mem_append, List.mem_singleton, or_iff_left (by omega)]
      rw [Function.update_of_ne hne, decide_eq_decide.2 hmem]
      exact h.written n' d' hd' hlast'
  · rcases List.mem_append.1 hm with hm | hm
    · exact h.traded_le m hm
    · rw [List.mem_singleton.1 hm]
      omega

end RingHolds

/-! ### Runs -/

omit [LinearOrder K] in
theorem recorded_enabledArms (z : EnsembleModelZoo K) (c : RewardCycle K) :
    (z.recorded c).ensurePrimary.enabledArms = z.ensurePrimary.enabledArms := by
  have hcount : (z.recorded c).ensurePrimary.primaryCount = z.ensurePrimary.primaryCount := by
    unfold recorded recordPrediction
    split_ifs
    · rfl
    · exact ensurePrimary_primaryCount_congr rfl rfl rfl rfl rfl
  have hmask : (z.recorded c).disabledHorizonMask = z.disabledHorizonMask := by
    unfold recorded recordPrediction
    split_ifs <;> rfl
  rw [enabledArms, hcount, ensurePrimary_disabledHorizonMask, hmask, enabledArms, ensurePrimary_disabledHorizonMask]

theorem tradeCloseReward_some (env : RewardEnv K) {z : EnsembleModelZoo K} {i : ℕ} (h : z.tradeFound = some i)
    (realizedPnlBps rewardMult : K) :
    SameRing (z.setSlot i { z.rewardRing i with rewardedTrade := true })
      (z.tradeCloseReward env realizedPnlBps rewardMult) := by
  have hprimary := ensurePrimary_sameRing z
  have hsame := hprimary.trans (SameRing.foldl (credit_sameRing env.dispatch)
    ((z.ensurePrimary.rewardRing i).rewards (decide (0 < realizedPnlBps)) rewardMult z.ensurePrimary.enabledArms)
    z.ensurePrimary)
  have hslot : z.ensurePrimary.rewardRing i = z.rewardRing i := congrFun hprimary.ring i
  unfold tradeCloseReward
  rw [h]
  dsimp only
  refine ⟨hsame.active, hsame.banditsReady, ?_, hsame.head, hsame.calls⟩
  rw [hsame.ring, hslot]
  rfl

theorem tradeCloseReward_none (env : RewardEnv K) {z : EnsembleModelZoo K} (h : z.tradeFound = none)
    (realizedPnlBps rewardMult : K) : SameRing z (z.tradeCloseReward env realizedPnlBps rewardMult) := by
  unfold tradeCloseReward
  rw [h]
  dsimp only
  split_ifs
  · exact .refl z
  · exact ensurePrimary_sameRing z

theorem rewardRun_snoc (env : RewardEnv K) (z : EnsembleModelZoo K) (steps : List (RewardStep K)) (s : RewardStep K) :
    z.rewardRun env (steps ++ [s]) = (z.rewardRun env steps).rewardStep env s := List.foldl_concat ..

theorem tradeRewards_snoc (env : RewardEnv K) (z : EnsembleModelZoo K) (steps : List (RewardStep K))
    (s : RewardStep K) : z.tradeRewards env (steps ++ [s]) =
      z.tradeRewards env steps ++ ((z.rewardRun env steps).tradeReward s).toList := by
  induction steps generalizing z with
  | nil => exact List.append_nil _
  | cons t steps ih =>
    rw [List.cons_append, tradeRewards, ih, tradeRewards, List.append_assoc]
    rfl

/-- The ring of every state of a run, and no record rewarded by two trades. -/
theorem rewardRun_holds (env : RewardEnv K) {z : EnsembleModelZoo K} (hfresh : FreshRewards z)
    (steps : List (RewardStep K)) :
    RingHolds env (z.rewardRun env steps) (cyclesOf steps) (cyclesOf steps).length (z.tradeRewards env steps) ∧
      (z.tradeRewards env steps).Nodup := by
  induction steps using List.reverseRecOn with
  | nil => exact ⟨.fresh env hfresh, .nil⟩
  | append_singleton steps s ih =>
    obtain ⟨hring, hnodup⟩ := ih
    rw [rewardRun_snoc, tradeRewards_snoc, cyclesOf_append]
    cases s with
    | cycle c =>
      have hlen : (cyclesOf steps ++ cyclesOf [.cycle c]).length = (cyclesOf steps).length + 1 :=
        List.length_append
      have hnone : (z.rewardRun env steps).tradeReward (.cycle c) = none := rfl
      rw [hlen, hnone, Option.toList_none, List.append_nil]
      exact ⟨(hring.recorded c).looked_at hlen c.currentPrice c.icFloor, hnodup⟩
    | tradeClose realizedPnlBps rewardMult =>
      have hcycles : cyclesOf steps ++ cyclesOf [.tradeClose realizedPnlBps rewardMult] = cyclesOf steps :=
        List.append_nil _
      rw [hcycles]
      cases hfound : (z.rewardRun env steps).tradeFound with
      | none =>
        have hnone : (z.rewardRun env steps).tradeReward (.tradeClose realizedPnlBps rewardMult) = none := by
          rw [tradeReward, hfound, Option.map_none]
        rw [hnone, Option.toList_none, List.append_nil]
        exact ⟨hring.sameRing (tradeCloseReward_none env hfound _ _), hnodup⟩
      | some i =>
        have hsome : (z.rewardRun env steps).tradeReward (.tradeClose realizedPnlBps rewardMult) =
            some ((z.rewardRun env steps).rewardRing i).predictCall := by
          rw [tradeReward, hfound, Option.map_some]
        obtain ⟨hnew, hafter⟩ := hring.trade_found hfound
        rw [hsome, Option.toList_some]
        exact ⟨hafter.sameRing (tradeCloseReward_some env hfound _ _), hnodup.append (List.nodup_singleton _)
          (List.disjoint_singleton.2 hnew)⟩
    | disable mask =>
      have hcycles : cyclesOf steps ++ cyclesOf [.disable mask] = cyclesOf steps := List.append_nil _
      have hnone : (z.rewardRun env steps).tradeReward (.disable mask) = none := rfl
      rw [hcycles, hnone, Option.toList_none, List.append_nil]
      exact ⟨hring.sameRing ⟨rfl, rfl, rfl, rfl, rfl⟩, hnodup⟩

omit [LinearOrder K] in
/-- With a positive horizon and interval the delay is the number of predictions a horizon lasts. -/
theorem lookbackCalls_eq {env : RewardEnv K} (hforward : 0 < env.forwardTicks) (hpoll : 0 < env.pollInterval) :
    env.lookbackCalls = env.horizonCalls := by
  have hf : env.forward = env.forwardTicks := if_neg (not_le.2 hforward)
  have hp : env.poll = env.pollInterval := if_neg (not_le.2 hpoll)
  have hceil : ⌈(env.forwardTicks / env.pollInterval : ℚ)⌉ =
      (env.forwardTicks + env.pollInterval - 1) / env.pollInterval := by
    rw [Int.ceil_eq_iff]
    have hpq : (0 : ℚ) < env.pollInterval := Int.cast_pos.2 hpoll
    have hlow := Int.ediv_mul_le (env.forwardTicks + env.pollInterval - 1) hpoll.ne'
    have hhigh := Int.lt_ediv_add_one_mul_self (env.forwardTicks + env.pollInterval - 1) hpoll
    constructor
    · rw [lt_div_iff₀ hpq]
      have : (((env.forwardTicks + env.pollInterval - 1) / env.pollInterval - 1) * env.pollInterval : ℤ) <
          env.forwardTicks := by linarith
      exact_mod_cast this
    · rw [div_le_iff₀ hpq]
      have : env.forwardTicks ≤
          ((env.forwardTicks + env.pollInterval - 1) / env.pollInterval * env.pollInterval : ℤ) := by linarith
      exact_mod_cast this
  have hpos : 0 < ((env.forwardTicks + env.pollInterval - 1) / env.pollInterval).toNat := by
    have hle : 1 ≤ (env.forwardTicks + env.pollInterval - 1) / env.pollInterval :=
      (Int.le_ediv_iff_mul_le hpoll).2 (by linarith)
    omega
  unfold RewardEnv.lookbackCalls RewardEnv.horizonCalls
  dsimp only
  rw [hf, hp, hceil, if_neg hpos.ne']

/-- With a horizon that lasts longer the first prediction is written over before it is rewarded. -/
theorem not_rewardedOnce (env : RewardEnv K) {z : EnsembleModelZoo K} (hfresh : FreshRewards z)
    {steps : List (RewardStep K)} (hlong : rewardRingSize ≤ env.lookbackCalls)
    (hmany : rewardRingSize < (cyclesOf steps).length) : ¬RewardedOnce env z steps := by
  intro honce
  obtain ⟨done, c, hdone, hlen⟩ := exists_cycle hmany
  have hring := (rewardRun_holds env hfresh done).1
  obtain ⟨d, hd⟩ : ∃ d, (cyclesOf done)[0]? = some d := ⟨_, List.getElem?_eq_getElem (by rw [hlen]; decide)⟩
  -- its slot comes round when the ring has been filled
  have hfirst := hring.written 0 d hd (by omega)
  have hkept := honce.kept done c hdone
  dsimp only at hkept
  have hhead : (z.rewardRun env done).rewardRingHead % rewardRingSize = 0 % rewardRingSize := by
    rw [hring.head, hlen, Nat.mod_mod, Nat.mod_self, Nat.zero_mod]
  rw [hhead, hfirst] at hkept
  rcases hkept with hempty | hrewarded
  · exact absurd hempty (Nat.succ_ne_zero 0)
  · have hle := of_decide_eq_true hrewarded
    omega

/-- Every prediction is rewarded once, by the cycle that is old enough for it, before its slot is written
    over, if and only if a horizon lasts fewer predictions than the ring has slots or no slot is ever
    written twice. -/
theorem rewardRun_once_iff (env : RewardEnv K) (hforward : 0 < env.forwardTicks) (hpoll : 0 < env.pollInterval)
    {z : EnsembleModelZoo K} (hfresh : FreshRewards z) (steps : List (RewardStep K)) :
    RewardedOnce env z steps ↔ env.horizonCalls < rewardRingSize ∨ (cyclesOf steps).length ≤ rewardRingSize := by
  have hdelay := lookbackCalls_eq hforward hpoll
  have hslot (done : List (RewardStep K)) := (rewardRun_holds env hfresh done).1
  constructor
  · intro honce
    by_contra hlost
    push Not at hlost
    exact not_rewardedOnce env hfresh (hdelay ▸ hlost.1) hlost.2 honce
  · intro hkept
    refine ⟨fun done c hdone => ?_, fun done c hdone => ?_, (rewardRun_holds env hfresh steps).2⟩
    · have hring := (hslot done).recorded c
      have hprimary : ((z.rewardRun env done).recorded c).ensurePrimary.enabledArms =
          (z.rewardRun env done).ensurePrimary.enabledArms := recorded_enabledArms _ c
      have hlen := cyclesOf_length_lt hdone
      rw [lookbackRewards, hring.lookback_eq (by rw [List.length_append, List.length_singleton]) (by omega), hprimary,
        hdelay, cyclesOf_append]
      rfl
    · have hring := hslot done
      dsimp only
      rw [hring.head, Nat.mod_mod]
      have hlen := cyclesOf_length_lt hdone
      rcases Nat.lt_or_ge (cyclesOf done).length rewardRingSize with hfew | hfull
      · rw [Nat.mod_eq_of_lt hfew]
        exact .inl (hring.unwritten _ le_rfl hfew)
      · have hn : (cyclesOf done).length - rewardRingSize < (cyclesOf done).length := by
          unfold rewardRingSize at *
          omega
        have hrec := hring.written _ _ (List.getElem?_eq_getElem hn) (by omega)
        have hsame : (cyclesOf done).length % rewardRingSize =
            ((cyclesOf done).length - rewardRingSize) % rewardRingSize := (Nat.mod_eq_sub_mod hfull)
        rw [hsame, hrec]
        refine .inr (decide_eq_true ?_)
        omega

/-! The horizon of a thousand ticks with a prediction every three ticks, and every ten. -/

def rewardEnv (pollInterval : ℤ) : RewardEnv ℚ where
  dispatch := exp3OnlyReward BanditState.sampleMath
  rounding := exactRounding
  forwardTicks := 1000
  pollInterval

def steadyCycle : RewardCycle ℚ := ⟨1, fun _ => 3 / 4, 3, 100, 100, 1 / 50⟩

theorem freshZoo_freshRewards : FreshRewards freshZoo := ⟨rfl, rfl, fun _ => rfl, rfl, rfl⟩

theorem rewardRun_once_sample :
    RewardedOnce (rewardEnv 10) freshZoo [.cycle steadyCycle, .tradeClose 12 4] ↔
      (rewardEnv 10).horizonCalls < rewardRingSize ∨
        (cyclesOf [.cycle steadyCycle, .tradeClose 12 4]).length ≤ rewardRingSize :=
  rewardRun_once_iff (rewardEnv 10) (by decide) (by decide) freshZoo_freshRewards _

theorem rewardRun_lost : ¬RewardedOnce (rewardEnv 3) freshZoo (List.replicate 257 (.cycle steadyCycle)) := by
  refine not_rewardedOnce (rewardEnv 3) freshZoo_freshRewards (by decide) ?_
  rw [cyclesOf_replicate]
  decide

end EnsembleModelZoo

end FoxTrader
