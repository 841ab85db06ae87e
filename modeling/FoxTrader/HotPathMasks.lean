import FoxTrader.Lib.FlagWord
import FoxTrader.ExecutionCore

/-! # The hot path on words

    `ExecutionCore_Tick_Impl` has no condition until an event is pushed: it computes both gates on 64-bit
    words, with masks made by negation and complement, and the flags of a leg are bytes. Here the tick is
    written on these words. On flags that are zero or one it is the tick on conditions, in both variants. -/

namespace FoxTrader

open Lib

/-! ### The reference gates -/

namespace GateParameters

/-- `BG_Evaluate` on words. -/
def bgEvaluateMasks (p : GateParameters) (tick : Tick) : Bool :=
  let priceBelow := flagWord 64 (tick.price.lt p.bgPriceThreshold)
  let priceAbove := flagWord 64 (tick.price.gt p.bgPriceThreshold)
  let buyAbove := flagWord 64 (p.has gateFlagBuyAbove)
  let priceOk := (priceAbove &&& buyAbove) ||| (priceBelow &&& ~~~buyAbove)
  let volumeOk := flagWord 64 (tick.volume.gt p.bgVolumeThreshold)
  let volumeRequired := flagWord 64 (p.has gateFlagVolumeRequired)
  let volumeCheck := (volumeRequired &&& volumeOk) ||| (~~~volumeRequired &&& 1#64)
  let blockedMask := -flagWord 64 (p.has gateFlagBuyBlocked)
  (priceOk &&& volumeCheck) &&& ~~~blockedMask ≠ 0#64

/-- `SG_Evaluate` on words. -/
def sgEvaluateMasks (p : GateParameters) (currentPrice : Money) : Bool :=
  let tpEnabled := flagWord 64 (p.has gateFlagTpEnabled)
  let slEnabled := flagWord 64 (p.has gateFlagSlEnabled)
  let effectiveTp := p.sgTakeProfitPrice.max p.ratchetTp
  let effectiveSl := p.sgStopLossPrice.max p.ratchetSl
  let tpHit := flagWord 64 (currentPrice.ge effectiveTp)
  let slHit := flagWord 64 (currentPrice.le effectiveSl)
  (tpEnabled &&& tpHit) ||| (slEnabled &&& slHit) ≠ 0#64

theorem bgEvaluateMasks_eq (p : GateParameters) (tick : Tick) : p.bgEvaluateMasks tick = p.bgEvaluate tick := by
  unfold bgEvaluateMasks bgEvaluate
  simp only [flagWord_and, flagWord_and_not, flagWord_or, not_flagWord_and_one, flagWord_and_not_neg,
    flagWord_ne_zero (w := 64) (by decide), Bool.decide_eq_true]

theorem sgEvaluateMasks_eq (p : GateParameters) (currentPrice : Money) :
    p.sgEvaluateMasks currentPrice = p.sgEvaluate currentPrice := by
  unfold sgEvaluateMasks sgEvaluate sgFires
  simp only [flagWord_and, flagWord_or, flagWord_ne_zero (w := 64) (by decide), Bool.decide_eq_true]

end GateParameters

/-! ### The tick -/

/-- A core as the hot path has it: `active` and `active_b` are bytes, all else is in `rest`, whose own flags are
    not read. -/
structure HotCore where
  active : BitVec 8
  activeB : BitVec 8
  rest : ExecutionCore

/-- The masks a tick computes before it pushes. -/
structure GateWords where
  canEnter : BitVec 64
  canExitA : BitVec 64
  canExitB : BitVec 64
  pairActive : BitVec 64

namespace HotCore

/-- The inlined buy gate with its staleness mask: `bg_fires`. -/
def bgFiresWord (core : ExecutionCore) (tick : Tick) : BitVec 64 :=
  let p := core.cachedParams
  let priceBelow := flagWord 64 (tick.price.lt p.bgPriceThreshold)
  let priceAbove := flagWord 64 (tick.price.gt p.bgPriceThreshold)
  let buyAbove := flagWord 64 (p.has gateFlagBuyAbove)
  let priceOk := (priceAbove &&& buyAbove) ||| (priceBelow &&& ~~~buyAbove)
  let volumeOk := flagWord 64 (tick.volume.gt p.bgVolumeThreshold)
  let volumeReq := flagWord 64 (p.has gateFlagVolumeRequired)
  let volumeCheck := (volumeReq &&& volumeOk) ||| (~~~volumeReq &&& 1#64)
  let blocked := flagWord 64 (p.has gateFlagBuyBlocked)
  let blockedMask := -blocked
  let bgFires := (priceOk &&& volumeCheck) &&& ~~~blockedMask
  let sequence := BitVec.ofNat 64 tick.sequence
  let publishTick := BitVec.ofNat 64 core.cachedPublishTick
  let staleEnabled := flagWord 64 (p.has gateFlagStalenessEnabled)
  let hasStamp := flagWord 64 (publishTick ≠ 0#64)
  let tickGeStamp := flagWord 64 (publishTick ≤ sequence)
  let paramGap := (sequence - publishTick) &&& -tickGeStamp
  let overAge := flagWord 64 (BitVec.ofNat 64 p.paramMaxAgeTicks < paramGap)
  let stale := staleEnabled &&& hasStamp &&& overAge
  let staleMask := -stale
  bgFires &&& ~~~staleMask

/-- The inlined sell gate against the levels `tp` and `sl`. -/
def sgFiresWord (p : GateParameters) (tick : Tick) (tp sl : Money) : BitVec 64 :=
  let tpEnabled := flagWord 64 (p.has gateFlagTpEnabled)
  let slEnabled := flagWord 64 (p.has gateFlagSlEnabled)
  let effectiveSl := sl.max p.ratchetSl
  let effectiveTp := tp.max p.ratchetTp
  let tpHit := flagWord 64 (tick.price.ge effectiveTp)
  let slHit := flagWord 64 (tick.price.le effectiveSl)
  (tpEnabled &&& tpHit) ||| (slEnabled &&& slHit)

/-- The masks; `PAIR_BRANCHLESS` computes leg B's gate in any case and masks it, the other variant branches. -/
def gateWords (pairBranchless : Bool) (h : HotCore) (tick : Tick) : GateWords :=
  let core := h.rest
  let p := core.cachedParams
  let tp := if h.active ≠ 0#8 then core.liveTp else p.sgTakeProfitPrice
  let sl := if h.active ≠ 0#8 then core.liveSl else p.sgStopLossPrice
  let bgFires := bgFiresWord core tick
  let sgFiresA := sgFiresWord p tick tp sl
  let sgFiresB :=
    if pairBranchless then sgFiresWord p tick core.liveTpB core.liveSlB &&& -h.activeB.setWidth 64
    else if h.activeB ≠ 0#8 then sgFiresWord p tick core.liveTpB core.liveSlB
    else 0#64
  let perm := core.permission.setWidth 64
  let anyActive := ((h.active ||| h.activeB) &&& 1#8).setWidth 64
  { canEnter := (~~~anyActive &&& perm &&& bgFires) &&& 1#64
    canExitA := (h.active.setWidth 64 &&& sgFiresA) &&& 1#64
    canExitB := (h.activeB.setWidth 64 &&& sgFiresB) &&& 1#64
    pairActive := flagWord 64 (p.has gateFlagPairActive) }

/-- Which pushes went in, or were not asked for. -/
structure Pushed where
  exitA : BitVec 8
  exitB : BitVec 8
  entryA : BitVec 8
  entryB : BitVec 8

/-- The rare branch: the events of the legs whose masks are set, and the count of failed pushes. -/
def pushEvents (g : GateWords) (core : ExecutionCore) (tick : Tick) : Pushed × ExecutionCore :=
  if g.canEnter ||| g.canExitA ||| g.canExitB ≠ 0#64 then
    let (exitAPushed, core) := core.exitLeg tick (g.canExitA ≠ 0#64) .a
    let (exitBPushed, core) := core.exitLeg tick (g.canExitB ≠ 0#64) .b
    let ((entryAPushed, entryBPushed), core) := if g.canEnter ≠ 0#64 then core.enter tick else ((true, true), core)
    let pushed : Pushed :=
      ⟨flagWord 8 exitAPushed, flagWord 8 exitBPushed, flagWord 8 entryAPushed, flagWord 8 entryBPushed⟩
    let allPushed := pushed.exitA &&& pushed.exitB &&& pushed.entryA &&& pushed.entryB
    (pushed, { core with ringPushFailures := if allPushed ≠ 0#8 then core.ringPushFailures else core.ringPushFailures + 1 })
  else (⟨1#8, 1#8, 1#8, 1#8⟩, core)

/-- `ExecutionCore_Tick_Impl` after the refresh. -/
def tickBody (pairBranchless : Bool) (h : HotCore) (tick : Tick) : HotCore :=
  let g := gateWords pairBranchless h tick
  let (pushed, core) := pushEvents g h.rest tick
  let exitAEff := g.canExitA &&& pushed.exitA.setWidth 64
  let exitBEff := g.canExitB &&& pushed.exitB.setWidth 64
  let enterAEff := g.canEnter &&& pushed.entryA.setWidth 64
  let enterBEff := enterAEff &&& pushed.entryB.setWidth 64 &&& g.pairActive
  { active := ((h.active.setWidth 64 ||| enterAEff) &&& ~~~exitAEff).setWidth 8
    activeB := ((h.activeB.setWidth 64 ||| enterBEff) &&& ~~~exitBEff).setWidth 8
    rest := core }

def refresh (h : HotCore) : HotCore := { h with rest := h.rest.refresh }

def tickImpl (pairBranchless : Bool) (h : HotCore) (tick : Tick) : HotCore := tickBody pairBranchless h.refresh tick

/-! ### The words are flags -/

/-- A core with these flags. -/
def withFlags (core : ExecutionCore) (active activeB : Bool) : ExecutionCore := { core with active, activeB }

/-- The core with its flags as conditions. -/
def toCore (h : HotCore) : ExecutionCore := withFlags h.rest (h.active ≠ 0#8) (h.activeB ≠ 0#8)

/-- What the types of the counters promise. -/
structure WordSized (core : ExecutionCore) (tick : Tick) : Prop where
  sequence : tick.sequence < 18446744073709551616
  publishTick : core.cachedPublishTick < 18446744073709551616
  maxAge : core.cachedParams.paramMaxAgeTicks < 18446744073709551616

theorem paramGap_eq {sequence publishTick : ℕ} (hs : sequence < 18446744073709551616)
    (hp : publishTick < 18446744073709551616) :
    (BitVec.ofNat 64 sequence - BitVec.ofNat 64 publishTick) &&&
        -flagWord 64 (BitVec.ofNat 64 publishTick ≤ BitVec.ofNat 64 sequence) =
      BitVec.ofNat 64 (if sequence ≥ publishTick then sequence - publishTick else 0) := by
  have hsNat : (BitVec.ofNat 64 sequence).toNat = sequence := by rw [BitVec.toNat_ofNat, Nat.mod_eq_of_lt hs]
  have hpNat : (BitVec.ofNat 64 publishTick).toNat = publishTick := by rw [BitVec.toNat_ofNat, Nat.mod_eq_of_lt hp]
  have hle : BitVec.ofNat 64 publishTick ≤ BitVec.ofNat 64 sequence ↔ sequence ≥ publishTick := by
    rw [BitVec.le_def, hsNat, hpNat]
  rw [and_neg_flagWord]
  by_cases h : sequence ≥ publishTick
  · rw [if_pos (decide_eq_true (hle.2 h)), if_pos h]
    refine BitVec.eq_of_toNat_eq ?_
    rw [BitVec.toNat_sub_of_le (hle.2 h), hsNat, hpNat, BitVec.toNat_ofNat, Nat.mod_eq_of_lt (by omega)]
  · rw [if_neg (by rw [decide_eq_true_iff, hle]; exact h), if_neg h]

theorem bgFiresWord_eq {core : ExecutionCore} {tick : Tick} (h : WordSized core tick) :
    bgFiresWord core tick = flagWord 64 (core.bgFires tick) := by
  have hstamp : (BitVec.ofNat 64 core.cachedPublishTick ≠ 0#64) ↔ core.cachedPublishTick ≠ 0 := by
    refine not_congr ⟨fun heq => ?_, fun heq => by rw [heq]⟩
    have hval := congrArg BitVec.toNat heq
    rwa [BitVec.toNat_ofNat, Nat.mod_eq_of_lt h.publishTick, BitVec.toNat_zero] at hval
  have hage : BitVec.ofNat 64 core.cachedParams.paramMaxAgeTicks <
        BitVec.ofNat 64 (if tick.sequence ≥ core.cachedPublishTick then tick.sequence - core.cachedPublishTick
          else 0) ↔
      (if tick.sequence ≥ core.cachedPublishTick then tick.sequence - core.cachedPublishTick else 0) >
        core.cachedParams.paramMaxAgeTicks := by
    have hseq := h.sequence
    rw [BitVec.lt_def, BitVec.toNat_ofNat, BitVec.toNat_ofNat, Nat.mod_eq_of_lt h.maxAge,
      Nat.mod_eq_of_lt (by split <;> omega)]
  unfold bgFiresWord ExecutionCore.bgFires ExecutionCore.stale GateParameters.bgEvaluate
  simp only [paramGap_eq h.sequence h.publishTick, flagWord_and, flagWord_and_not, flagWord_or, not_flagWord_and_one,
    flagWord_and_not_neg, decide_eq_decide.2 hstamp, decide_eq_decide.2 hage]

theorem sgFiresWord_eq (p : GateParameters) (tick : Tick) (tp sl : Money) :
    sgFiresWord p tick tp sl = flagWord 64 (p.sgFires tick.price tp sl) := by
  unfold sgFiresWord GateParameters.sgFires
  simp only [flagWord_and, flagWord_or]

/-- The lowest bit of the permission byte. -/
theorem permission_and_one (perm : BitVec 8) : perm.setWidth 64 &&& 1#64 = flagWord 64 (perm &&& 1 = 1) := by
  revert perm
  decide

theorem canEnterWord_eq (active activeB fires : Bool) (perm : BitVec 8) :
    (~~~(((flagWord 8 active ||| flagWord 8 activeB) &&& 1#8).setWidth 64) &&& perm.setWidth 64 &&& flagWord 64 fires) &&& 1#64 =
      flagWord 64 (!(active || activeB) && decide (perm &&& 1 = 1) && fires) := by
  have hany : ((flagWord 8 active ||| flagWord 8 activeB) &&& 1#8).setWidth 64 = flagWord 64 (active || activeB) := by
    have hone : 1#8 = flagWord 8 true := rfl
    rw [flagWord_or, hone, flagWord_and, Bool.and_true, setWidth_flagWord (by decide)]
  have hlow : ∀ x y z : BitVec 64, (x &&& y &&& z) &&& 1#64 = (x &&& 1#64) &&& (y &&& 1#64) &&& z := by
    intro x y z
    ext i
    simp only [BitVec.getElem_and]
    cases x[i] <;> cases y[i] <;> cases z[i] <;> simp
  rw [hany, hlow, not_flagWord_and_one, permission_and_one, flagWord_and, flagWord_and]

/-- On flags that are zero or one, every mask is the flag of its condition. -/
theorem gateWords_eq (pairBranchless active activeB : Bool) {core : ExecutionCore} {tick : Tick}
    (h : WordSized core tick) :
    gateWords pairBranchless ⟨flagWord 8 active, flagWord 8 activeB, core⟩ tick =
      { canEnter := flagWord 64 ((withFlags core active activeB).canEnter tick)
        canExitA := flagWord 64 (active && (withFlags core active activeB).sgFiresA tick)
        canExitB := flagWord 64 (activeB && (withFlags core active activeB).sgFiresB pairBranchless tick)
        pairActive := flagWord 64 (core.cachedParams.has gateFlagPairActive) } := by
  have hone : 1#64 = flagWord 64 true := rfl
  have hne : ∀ b, (flagWord 8 b ≠ 0#8) ↔ b = true := flagWord_ne_zero (by decide)
  have hsgB : (if pairBranchless then sgFiresWord core.cachedParams tick core.liveTpB core.liveSlB &&& -(flagWord 8 activeB).setWidth 64
        else if flagWord 8 activeB ≠ 0#8 then sgFiresWord core.cachedParams tick core.liveTpB core.liveSlB
          else 0#64) =
      flagWord 64 ((withFlags core active activeB).sgFiresB pairBranchless tick) := by
    rw [setWidth_flagWord (by decide), sgFiresWord_eq, flagWord_and_neg]
    simp only [hne]
    cases pairBranchless with
    | true => rfl
    | false =>
      cases activeB with
      | true => rfl
      | false => rfl
  unfold gateWords
  dsimp only
  rw [hsgB, bgFiresWord_eq h, canEnterWord_eq, sgFiresWord_eq, setWidth_flagWord (by decide),
    setWidth_flagWord (by decide),
    hone, flagWord_and, flagWord_and, flagWord_and, flagWord_and, Bool.and_true, Bool.and_true]
  simp only [hne]
  rfl

/-! ### The pushes -/

section Pushes
variable (core : ExecutionCore) (tick : Tick) (a b : Bool)

/-- Pushing does not look at the flags. -/
theorem exitLeg_withFlags (fires : Bool) (leg : Leg) :
    (withFlags core a b).exitLeg tick fires leg =
      ((core.exitLeg tick fires leg).1, withFlags (core.exitLeg tick fires leg).2 a b) := by
  cases fires <;> rfl

theorem enter_withFlags :
    (withFlags core a b).enter tick = ((core.enter tick).1, withFlags (core.enter tick).2 a b) := by
  have hpush : (withFlags core a b).pushEvent tick .entry .a =
      ((core.pushEvent tick .entry .a).1, withFlags (core.pushEvent tick .entry .a).2 a b) := rfl
  unfold ExecutionCore.enter
  rw [hpush]
  obtain ⟨_ | _, c⟩ := core.pushEvent tick .entry .a
  · rfl
  · have hstash : (withFlags c a b).stashLegA tick = withFlags (c.stashLegA tick) a b := rfl
    have hflags : (withFlags (c.stashLegA tick) a b).cachedParams = (c.stashLegA tick).cachedParams := rfl
    dsimp only
    rw [hstash, hflags]
    split
    case isFalse => rfl
    case isTrue =>
      have hpushB : (withFlags (c.stashLegA tick) a b).pushEvent tick .entry .b =
          (((c.stashLegA tick).pushEvent tick .entry .b).1, withFlags ((c.stashLegA tick).pushEvent tick .entry .b).2 a b) := rfl
      rw [hpushB]
      obtain ⟨_ | _, c'⟩ := (c.stashLegA tick).pushEvent tick .entry .b
      · rfl
      · rfl

/-- What the pushes of a tick come to. -/
structure Pushes where
  exitA : Bool
  exitB : Bool
  entryA : Bool
  entryB : Bool
  core : ExecutionCore

/-- The pushes on conditions, in the order of the tick. -/
def pushes (enter exitA exitB : Bool) : Pushes :=
  let x := core.exitLeg tick exitA .a
  let y := x.2.exitLeg tick exitB .b
  let z := if enter then y.2.enter tick else ((true, true), y.2)
  ⟨x.1, y.1, z.1.1, z.1.2, z.2⟩

theorem pushEvents_eq (enter exitA exitB : Bool) (pairActive : BitVec 64) :
    let g : GateWords := ⟨flagWord 64 enter, flagWord 64 exitA, flagWord 64 exitB, pairActive⟩
    let r := pushes core tick enter exitA exitB
    pushEvents g core tick = (⟨flagWord 8 r.exitA, flagWord 8 r.exitB, flagWord 8 r.entryA, flagWord 8 r.entryB⟩,
      { r.core with ringPushFailures :=
          if r.exitA && r.exitB && r.entryA && r.entryB then r.core.ringPushFailures
            else r.core.ringPushFailures + 1 }) := by
  have hne : ∀ b, (flagWord 64 b ≠ 0#64) ↔ b = true := flagWord_ne_zero (by decide)
  have hneByte : ∀ b, (flagWord 8 b ≠ 0#8) ↔ b = true := flagWord_ne_zero (by decide)
  intro g r
  show pushEvents ⟨flagWord 64 enter, flagWord 64 exitA, flagWord 64 exitB, pairActive⟩ core tick = _
  unfold pushEvents
  simp only [flagWord_or, flagWord_and, hne, hneByte, Bool.decide_eq_true]
  split
  case isTrue => rfl
  case isFalse hquiet =>
    have hnone : enter = false ∧ exitA = false ∧ exitB = false := by
      simpa only [Bool.or_eq_true, not_or, Bool.not_eq_true, and_assoc] using hquiet
    obtain ⟨rfl, rfl, rfl⟩ := hnone
    rfl

theorem pushes_withFlags (enter exitA exitB : Bool) :
    pushes (withFlags core a b) tick enter exitA exitB =
      { pushes core tick enter exitA exitB with core := withFlags (pushes core tick enter exitA exitB).core a b } := by
  unfold pushes
  rw [exitLeg_withFlags]
  dsimp only
  rw [exitLeg_withFlags]
  cases enter with
  | false => rfl
  | true =>
    dsimp only
    rw [if_pos rfl, if_pos rfl, enter_withFlags]

end Pushes

/-- The tick on words is the tick on conditions. -/
theorem tickBody_eq (pairBranchless active activeB : Bool) {core : ExecutionCore} {tick : Tick}
    (h : WordSized core tick) :
    let c := ExecutionCore.tickBody pairBranchless (withFlags core active activeB) tick
    (tickBody pairBranchless ⟨flagWord 8 active, flagWord 8 activeB, core⟩ tick).active = flagWord 8 c.active ∧
      (tickBody pairBranchless ⟨flagWord 8 active, flagWord 8 activeB, core⟩ tick).activeB = flagWord 8 c.activeB ∧
      withFlags (tickBody pairBranchless ⟨flagWord 8 active, flagWord 8 activeB, core⟩ tick).rest c.active c.activeB = c := by
  intro c
  let core' := withFlags core active activeB
  let enter := core'.canEnter tick
  let exitA := active && core'.sgFiresA tick
  let exitB := activeB && core'.sgFiresB pairBranchless tick
  let r := pushes core tick enter exitA exitB
  have hc : c = { withFlags r.core active activeB with
      active := (active || (enter && r.entryA)) && !(exitA && r.exitA)
      activeB := (activeB || (enter && r.entryA && r.entryB && core.cachedParams.has gateFlagPairActive)) && !(exitB && r.exitB)
      ringPushFailures := if r.exitA && r.exitB && r.entryA && r.entryB then r.core.ringPushFailures
        else r.core.ringPushFailures + 1 } := by
    have hpushes := pushes_withFlags core tick active activeB enter exitA exitB
    have hbody : c = { (pushes core' tick enter exitA exitB).core with
        active := (active || (enter && (pushes core' tick enter exitA exitB).entryA)) &&
          !(exitA && (pushes core' tick enter exitA exitB).exitA)
        activeB := (activeB || (enter && (pushes core' tick enter exitA exitB).entryA &&
          (pushes core' tick enter exitA exitB).entryB && core.cachedParams.has gateFlagPairActive)) &&
          !(exitB && (pushes core' tick enter exitA exitB).exitB)
        ringPushFailures := if (pushes core' tick enter exitA exitB).exitA && (pushes core' tick enter exitA exitB).exitB &&
            (pushes core' tick enter exitA exitB).entryA && (pushes core' tick enter exitA exitB).entryB
          then (pushes core' tick enter exitA exitB).core.ringPushFailures
          else (pushes core' tick enter exitA exitB).core.ringPushFailures + 1 } := rfl
    rw [hbody, hpushes]
    rfl
  have hpush := pushEvents_eq core tick enter exitA exitB (flagWord 64 (core.cachedParams.has gateFlagPairActive))
  rw [hc]
  unfold tickBody
  rw [gateWords_eq pairBranchless active activeB h]
  dsimp only at hpush ⊢
  rw [hpush]
  dsimp only
  simp only [setWidth_flagWord (w := 8) (by decide), setWidth_flagWord (w := 64) (by decide), flagWord_and,
    flagWord_or,
    flagWord_and_not]
  exact ⟨rfl, rfl, rfl⟩

/-! ### The events -/

/-- The events of the masks that are set. -/
def fired (g : GateWords) (core : ExecutionCore) (tick : Tick) : List TradeEvent :=
  (if g.canExitA ≠ 0#64 then [core.event tick .exit .a] else []) ++
    ((if g.canExitB ≠ 0#64 then [core.event tick .exit .b] else []) ++
      if g.canEnter ≠ 0#64 then
        core.event tick .entry .a :: if g.pairActive ≠ 0#64 then [core.event tick .entry .b] else []
      else [])

theorem pushEvent_of_room {core : ExecutionCore} (tick : Tick) (type : TradeEventType) (leg : Leg)
    (hroom : core.eventRing.items.length < eventRingSize) : (core.pushEvent tick type leg).1 = true := by
  have hpush : (core.pushEvent tick type leg).1 = (core.eventRing.tryPush (core.event tick type leg)).1 := rfl
  rw [hpush, Fifo.tryPush_fst, Fifo.isFull, decide_eq_false (Nat.not_le.2 hroom), Bool.not_false]

theorem exitLeg_of_room {core : ExecutionCore} (tick : Tick) (fires : Bool) (leg : Leg)
    (hroom : core.eventRing.items.length < eventRingSize) :
    (core.exitLeg tick fires leg).2.eventRing.items =
      core.eventRing.items ++ if fires then [core.event tick .exit leg] else [] := by
  have hpushed : (core.exitLeg tick fires leg).1 = true := by
    cases fires with
    | false => rfl
    | true => exact pushEvent_of_room tick .exit leg hroom
  rw [ExecutionCore.exitLeg_items, hpushed, Bool.and_true]

theorem enter_of_room {core : ExecutionCore} (tick : Tick) (hroom : core.eventRing.items.length + 2 ≤ eventRingSize) :
    (core.enter tick).2.eventRing.items = core.eventRing.items ++
      (core.event tick .entry .a ::
        if core.cachedParams.has gateFlagPairActive then [core.event tick .entry .b] else []) := by
  have hfirst := pushEvent_of_room tick .entry .a (by omega : core.eventRing.items.length < eventRingSize)
  have hitems := ExecutionCore.pushEvent_items core tick .entry .a
  rw [hfirst, if_pos rfl] at hitems
  have hpushed : (core.enter tick).1 = (true, true) := by
    unfold ExecutionCore.enter
    split
    case h_1 c heq =>
      rw [heq] at hfirst
      exact absurd hfirst Bool.false_ne_true
    case h_2 c heq =>
      rw [heq] at hitems
      dsimp only
      split
      case isFalse => rfl
      case isTrue =>
        have hsecond : ((c.stashLegA tick).pushEvent tick .entry .b).1 = true := by
          refine pushEvent_of_room tick .entry .b ?_
          show c.eventRing.items.length < eventRingSize
          rw [hitems, List.length_append, List.length_singleton]
          omega
        split
        case h_1 c' heq' =>
          rw [heq'] at hsecond
          exact absurd hsecond Bool.false_ne_true
        case h_2 => rfl
  rw [ExecutionCore.enter_items, hpushed]
  simp only [if_true, Bool.true_and]

/-- With room for two events, what is pushed is what fired. -/
theorem pushes_items {core : ExecutionCore} (tick : Tick) {enter exitA exitB : Bool}
    (hflat : enter = true → exitA = false ∧ exitB = false)
    (hroom : core.eventRing.items.length + 2 ≤ eventRingSize) :
    (pushes core tick enter exitA exitB).core.eventRing.items = core.eventRing.items ++
      fired ⟨flagWord 64 enter, flagWord 64 exitA, flagWord 64 exitB,
        flagWord 64 (core.cachedParams.has gateFlagPairActive)⟩ core tick := by
  have hne : ∀ b, (flagWord 64 b ≠ 0#64) ↔ b = true := flagWord_ne_zero (by decide)
  unfold pushes fired
  dsimp only
  simp only [hne]
  cases henter : enter with
  | true =>
    obtain ⟨rfl, rfl⟩ := hflat henter
    exact enter_of_room tick hroom
  | false =>
    have hA := exitLeg_of_room tick exitA .a (by omega : core.eventRing.items.length < eventRingSize)
    have hlen : (core.exitLeg tick exitA .a).2.eventRing.items.length < eventRingSize := by
      rw [hA, List.length_append]
      split <;> simp only [List.length_singleton, List.length_nil] <;> omega
    have hB := exitLeg_of_room tick exitB .b hlen
    rw [ExecutionCore.exitLeg_event] at hB
    simp only [Bool.false_eq_true, if_false, List.append_nil]
    rw [hB, hA, List.append_assoc]

/-! ### Main results -/

/-- What is promised of a tick: both variants come to the same core, entries and exits fire when the reference
    gates say so, and what fires is pushed while there is room. -/
structure TickRight (h : HotCore) (tick : Tick) : Prop where
  same : tickImpl true h tick = tickImpl false h tick
  entry : ∀ pb, (gateWords pb h.refresh tick).canEnter ≠ 0#64 ↔
    h.active = 0#8 ∧ h.activeB = 0#8 ∧ h.rest.permission &&& 1 = 1 ∧
      h.rest.refresh.cachedParams.bgEvaluateMasks tick = true ∧ h.rest.refresh.stale tick = false
  exitA : ∀ pb, (gateWords pb h.refresh tick).canExitA ≠ 0#64 ↔
    h.active = 1#8 ∧
      { h.rest.refresh.cachedParams with sgTakeProfitPrice := h.rest.liveTp, sgStopLossPrice := h.rest.liveSl }.sgEvaluateMasks
        tick.price = true
  pushed : ∀ pb, h.rest.eventRing.items.length + 2 ≤ eventRingSize →
    (tickImpl pb h tick).rest.eventRing.items =
      h.rest.eventRing.items ++ fired (gateWords pb h.refresh tick) h.rest.refresh tick
  bytes : ∀ pb, (tickImpl pb h tick).active.toNat ≤ 1 ∧ (tickImpl pb h tick).activeB.toNat ≤ 1
  refines : ∀ pb, (tickImpl pb h tick).toCore = ExecutionCore.tickImpl pb h.toCore tick

/-- What the refresh leaves alone. -/
theorem refresh_keeps (core : ExecutionCore) :
    core.refresh.permission = core.permission ∧ core.refresh.liveTp = core.liveTp ∧
      core.refresh.liveSl = core.liveSl ∧
      core.refresh.eventRing = core.eventRing := by
  unfold ExecutionCore.refresh
  split <;> exact ⟨rfl, rfl, rfl, rfl⟩

theorem refresh_withFlags (core : ExecutionCore) (a b : Bool) :
    (withFlags core a b).refresh = withFlags core.refresh a b := by
  have hslot : (withFlags core a b).paramSlot = core.paramSlot := rfl
  have hseq : (withFlags core a b).cachedSeq = core.cachedSeq := rfl
  unfold ExecutionCore.refresh
  rw [hslot, hseq]
  split <;> rfl

theorem toCore_flags (a b : Bool) (core : ExecutionCore) :
    toCore ⟨flagWord 8 a, flagWord 8 b, core⟩ = withFlags core a b := by
  have hne : ∀ b, (flagWord 8 b ≠ 0#8) ↔ b = true := flagWord_ne_zero (by decide)
  unfold toCore
  simp only [hne, Bool.decide_eq_true]

/-- For every core whose flags are zero or one, and every tick. -/
theorem tick_right (h : HotCore) (tick : Tick) (hactive : h.active.toNat ≤ 1) (hactiveB : h.activeB.toNat ≤ 1)
    (hsize : WordSized h.rest.refresh tick) : TickRight h tick := by
  obtain ⟨active, activeB, core⟩ := h
  obtain ⟨a, rfl⟩ := exists_flagWord (by decide) hactive
  obtain ⟨b, rfl⟩ := exists_flagWord (by decide) hactiveB
  have hne : ∀ b, (flagWord 64 b ≠ 0#64) ↔ b = true := flagWord_ne_zero (by decide)
  have hzero : ∀ b, flagWord 8 b = 0#8 ↔ b = false := by decide
  have hone : ∀ b, flagWord 8 b = 1#8 ↔ b = true := by decide
  have hwords := fun pb => gateWords_eq pb a b hsize
  have htick := fun pb => tickBody_eq pb a b hsize
  obtain ⟨hpermission, hliveTp, hliveSl, hring⟩ := refresh_keeps core
  have hrefresh : HotCore.refresh ⟨flagWord 8 a, flagWord 8 b, core⟩ =
    ⟨flagWord 8 a, flagWord 8 b, core.refresh⟩ := rfl
  have hsgB : (withFlags core.refresh a b).sgFiresB true tick = (withFlags core.refresh a b).sgFiresB false tick := by
    cases b with
    | true => exact Bool.and_true _
    | false => exact Bool.and_false _
  refine ⟨?_, fun pb => ?_, fun pb => ?_, fun pb hroom => ?_, fun pb => ?_, fun pb => ?_⟩
  · rw [tickImpl, tickImpl, hrefresh, tickBody, tickBody, hwords, hwords, hsgB]
  · rw [hrefresh, hwords, hne, GateParameters.bgEvaluateMasks_eq, hzero, hzero]
    simp only [ExecutionCore.canEnter, ExecutionCore.permitted, ExecutionCore.bgFires, withFlags, hpermission,
      Bool.and_eq_true, Bool.not_eq_true', Bool.or_eq_false_iff, decide_eq_true_eq, and_assoc]
    rfl
  · rw [hrefresh, hwords, hne, GateParameters.sgEvaluateMasks_eq, hone, Bool.and_eq_true]
    refine and_congr_right fun ha => ?_
    subst ha
    rw [← hliveTp, ← hliveSl]
    rfl
  · rw [tickImpl, hrefresh, tickBody, hwords]
    have hflat : (withFlags core.refresh a b).canEnter tick = true →
        (a && (withFlags core.refresh a b).sgFiresA tick) = false ∧
          (b && (withFlags core.refresh a b).sgFiresB pb tick) = false := by
      intro henter
      simp only [ExecutionCore.canEnter, withFlags, Bool.and_eq_true, Bool.not_eq_true',
        Bool.or_eq_false_iff] at henter
      rw [henter.1.1.1, henter.1.1.2]
      exact ⟨rfl, rfl⟩
    have hpush := pushEvents_eq core.refresh tick ((withFlags core.refresh a b).canEnter tick)
      (a && (withFlags core.refresh a b).sgFiresA tick) (b && (withFlags core.refresh a b).sgFiresB pb tick)
      (flagWord 64 (core.refresh.cachedParams.has gateFlagPairActive))
    dsimp only at hpush ⊢
    rw [hpush, ← hring]
    exact pushes_items tick hflat (by rw [hring]; exact hroom)
  · obtain ⟨hA, hB, -⟩ := htick pb
    rw [tickImpl, hrefresh, hA, hB]
    have hbit : ∀ b, (flagWord 8 b).toNat ≤ 1 := by decide
    exact ⟨hbit _, hbit _⟩
  · obtain ⟨hA, hB, hcore⟩ := htick pb
    rw [toCore_flags, ExecutionCore.tickImpl, refresh_withFlags, ← hcore, ← toCore_flags, ← hA, ← hB]
    rfl

/-- Buys below a hundred, sells at a hundred and five or at ninety-five, unless it is older than eight ticks. -/
def sampleGates : GateParameters :=
  { GateParameters.init with
    bgPriceThreshold := (Money.fromInt 100).val, sgTakeProfitPrice := (Money.fromInt 105).val
    sgStopLossPrice := (Money.fromInt 95).val, paramMaxAgeTicks := 8
    flags := gateFlagTpEnabled ||| gateFlagSlEnabled ||| gateFlagStalenessEnabled }

/-- A permitted core with a fresh pack in its slot, flat on both legs. -/
def sampleHotCore : HotCore :=
  ⟨0#8, 0#8, ((ExecutionCore.init 3).setParameters sampleGates 40).setPermission 1⟩

theorem tick_right_flat : TickRight sampleHotCore ⟨(Money.fromInt 99).val, .zero, 7, 44⟩ :=
  tick_right sampleHotCore ⟨(Money.fromInt 99).val, .zero, 7, 44⟩ (by decide) (by decide)
    ⟨by decide, by decide +kernel, by decide +kernel⟩

end HotCore

end FoxTrader
