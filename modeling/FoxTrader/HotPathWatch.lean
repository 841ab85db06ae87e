import FoxTrader.EventDrain
import FoxTrader.ExitsKept
import FoxTrader.LegAlternation

/-! # Who watches an open position

    The cores tick, the drain turns their events into submissions, and the order manager submits
    and processes results, in any order. A core believes its leg open from the event it sends, not
    from the fill, so its belief and the ledger's slots run apart while something is under way.
    A slot is watched while its leg is open in the core or one of the leg's events is still in the
    ring; behind every slot that is active and not watched there has to be a sell under way, and no
    buy that could open it again. Where no step breaks this, an engine come to rest has a stop-loss
    on every open position (`open_positions_watched`). `unwatched_position` is the shortest run that
    breaks it: an entry and its exit drained together. -/

namespace FoxTrader

open Lib Function

/-! ### What a core has in its ring -/

namespace ExecutionCore

variable {core : ExecutionCore} {leg : Leg}

/-- A leg is open, or an event of it is still to be drained. -/
def watches (core : ExecutionCore) (leg : Leg) : Bool :=
  core.legActive leg || !(legTypes leg core.eventRing.items).isEmpty

theorem watches_eq_false :
    core.watches leg = false ↔ core.legActive leg = false ∧ legTypes leg core.eventRing.items = [] := by
  rw [watches, Bool.or_eq_false_iff, Bool.not_eq_false', List.isEmpty_iff]

/-- The last event of a leg in the ring says whether the leg is open. -/
def RingTells (core : ExecutionCore) (leg : Leg) : Prop :=
  ∀ type, (legTypes leg core.eventRing.items).getLast? = some type → (core.legActive leg = true ↔ type = .entry)

theorem legTypes_cons (ev : TradeEvent) (es : List TradeEvent) :
    legTypes leg (ev :: es) = if ev.leg = leg then ev.type :: legTypes leg es else legTypes leg es := by
  simp only [legTypes, List.filter_cons, decide_eq_true_eq]
  split <;> rfl

theorem tick_items (core : ExecutionCore) (t : Tick) :
    (core.tick t).eventRing.items = core.eventRing.items ++ core.queuedBy t := by
  have hring := core.refresh_frame.2.2.1
  rcases tickBody_cases (core.cachedParams.has gateFlagPairActive) core.refresh t with
    ⟨ea, eb, -, -, -, -, hitems⟩ | ⟨eb, -, -, -, -, -, hitems⟩ <;>
  · rw [hring] at hitems
    rw [queuedBy_of_items hitems]
    exact hitems

theorem RingTells.tick (h : RingTells core leg) (t : Tick) : RingTells (core.tick t) leg := by
  intro type hlast
  rw [tick_items, legTypes_append] at hlast
  rcases core.leg_cases t leg with ⟨hq, hk⟩ | ⟨hq, -, hk⟩ | ⟨hq, -, hk⟩
  · rw [hq, List.append_nil] at hlast
    rw [hk]
    exact h type hlast
  · rw [hq, List.getLast?_concat, Option.some_inj] at hlast
    subst hlast
    simp [hk]
  · rw [hq, List.getLast?_concat, Option.some_inj] at hlast
    subst hlast
    simp [hk]

/-- A tick takes its eyes off a leg only by an event that is then in the ring. -/
theorem watches_of_tick {t : Tick} (h : (core.tick t).watches leg = false) : core.watches leg = false := by
  rw [watches_eq_false, tick_items, legTypes_append, List.append_eq_nil_iff] at h
  obtain ⟨hactive, hitems, hqueued⟩ := h
  refine watches_eq_false.2 ⟨?_, hitems⟩
  rcases core.leg_cases t leg with ⟨-, hk⟩ | ⟨hq, -, -⟩ | ⟨hq, -, -⟩
  · exact hk.symm.trans hactive
  · exact absurd (hq.symm.trans hqueued) (List.cons_ne_nil _ _)
  · exact absurd (hq.symm.trans hqueued) (List.cons_ne_nil _ _)

/-- The core once the front of its ring is taken. -/
def pop (core : ExecutionCore) : ExecutionCore := { core with eventRing := core.eventRing.tryPop.2 }

theorem pop_legActive : core.pop.legActive leg = core.legActive leg := by cases leg <;> rfl

theorem legTypes_pop {ev : TradeEvent} (hpop : core.eventRing.tryPop.1 = some ev) (leg : Leg) :
    legTypes leg core.eventRing.items =
      if ev.leg = leg then ev.type :: legTypes leg core.pop.eventRing.items
        else legTypes leg core.pop.eventRing.items := by
  rw [Fifo.tryPop_some hpop, legTypes_cons]
  rfl

theorem RingTells.pop (h : RingTells core leg) : RingTells core.pop leg := by
  intro type hlast
  rw [pop_legActive]
  refine h type ?_
  rcases hpop : core.eventRing.tryPop.1 with _ | ev
  · rw [ExecutionCore.pop, Fifo.tryPop_none hpop] at hlast
    exact hlast
  · rw [legTypes_pop hpop leg]
    split
    · rw [List.getLast?_cons, hlast]
      rfl
    · exact hlast

end ExecutionCore

/-! ### The engine -/

structure Engine where
  oms : OrderManagerState
  cores : NodeIdx → ExecutionCore
  nodes : NodeIdx → EntryContext

/-- `drain` takes one event of a core; `own` is a drain of a submit queue, the arrival or the
    processing of a result, or a pass of the composer. -/
inductive EngineAct where
  | tick (n : NodeIdx) (t : Tick)
  | setParameters (n : NodeIdx) (newParams : GateParameters) (publishTick : Nat)
  | setPermission (n : NodeIdx) (value : BitVec 8)
  | drain (n : NodeIdx) (nowTick : Nat)
  | rebuild (n : NodeIdx) (ctx : EntryContext)
  | own (a : OrderManagerState.Act)

namespace Engine

open OrderManagerState

def init (balance : Money) (tradeLog : Option (List (EmitRecord × Money))) (nodes : NodeIdx → EntryContext) :
    Engine :=
  { oms := .init balance tradeLog, cores := fun n => .init n.val, nodes }

def setCore (s : Engine) (n : NodeIdx) (core : ExecutionCore) : Engine := { s with cores := update s.cores n core }

theorem setCore_self (s : Engine) (n : NodeIdx) (core : ExecutionCore) : (s.setCore n core).cores n = core :=
  update_self ..

theorem setCore_of_ne {s : Engine} {n m : NodeIdx} (hne : m ≠ n) (core : ExecutionCore) :
    (s.setCore n core).cores m = s.cores m := update_of_ne hne ..

/-- One event of node `n` is drained; whether its submission goes in is not looked at. -/
def drain (c : DrainConfig) (s : Engine) (n : NodeIdx) (nowTick : Nat) : Engine :=
  match (s.cores n).eventRing.tryPop.1 with
  | none => s
  | some ev =>
    let s := s.setCore n (s.cores n).pop
    match c.drainEvent s.oms.books.portfolio (s.nodes n) n ev with
    | none => s
    | some cmd => { s with oms := s.oms.pushSubmit cmd, nodes := update s.nodes n ((s.nodes n).stamp nowTick ev) }

def step (c : DrainConfig) (s : Engine) : EngineAct → Engine
  | .tick n t => s.setCore n ((s.cores n).tick t)
  | .setParameters n newParams publishTick => s.setCore n ((s.cores n).setParameters newParams publishTick)
  | .setPermission n value => s.setCore n ((s.cores n).setPermission value)
  | .drain n nowTick => s.drain c n nowTick
  | .rebuild n ctx => { s with nodes := update s.nodes n ctx }
  | .own a => if a.isOwn then { s with oms := s.oms.step c.oms a } else s

/-- Nothing is under way: no event, no submission, no result, no order. -/
structure Quiescent (s : Engine) : Prop where
  events : ∀ n, (s.cores n).eventRing.items = []
  submits : ∀ p, (s.oms.submitQueues p).items = []
  results : ∀ n, (s.oms.resultRings n).items = []
  stream : s.oms.wsResultQueue.items = []
  orders : ∀ i, s.oms.orderBitmap i = false

instance (s : Engine) : Decidable s.Quiescent :=
  decidable_of_iff ((∀ n, (s.cores n).eventRing.items = []) ∧ (∀ p, (s.oms.submitQueues p).items = []) ∧
      (∀ n, (s.oms.resultRings n).items = []) ∧ s.oms.wsResultQueue.items = [] ∧ ∀ i, s.oms.orderBitmap i = false)
    ⟨fun h => ⟨h.1, h.2.1, h.2.2.1, h.2.2.2.1, h.2.2.2.2⟩,
      fun h => ⟨h.events, h.submits, h.results, h.stream, h.orders⟩⟩

/-! ### What has to hold behind every slot -/

variable {c : DrainConfig} {s : Engine} {p : SlotIdx}

/-- Whether the core of the slot's node watches the slot's leg. -/
def watched (c : DrainConfig) (s : Engine) (p : SlotIdx) : Bool :=
  (s.cores (c.oms.slotNode p)).watches (slotLeg c.oms.partialExitEnabled p)

/-- The steps that leave no position unwatched. An exit that is the last event of a leg closed in the
    core is drained when no buy of its slot is under way and, if the slot holds something, when its
    submit queue has room; and the last sell under way for an active slot nobody watches is neither
    refused nor lost to a result. Executed quantities have a size. -/
def Covered (c : DrainConfig) (s : Engine) : EngineAct → Prop
  | .drain n _ =>
    ∀ ev ∈ (s.cores n).eventRing.tryPop.1, ev.type = .exit → (s.cores n).pop.watches ev.leg = false →
      ∀ p ∈ legSlot c.oms.partialExitEnabled n ev.leg, s.oms.entering p = false ∧
        (s.oms.books.portfolio.active p = true → (s.oms.submitQueues p).isFull = false)
  | .own a =>
    (∀ x ∈ s.oms.executed a, Sizable x.1.result) ∧
      ∀ p, s.watched c p = false → s.oms.books.portfolio.active p = true → SparesLastExit c.oms s.oms a p
  | _ => True

instance (c : DrainConfig) (s : Engine) : ∀ a, Decidable (s.Covered c a)
  | .drain n _ => inferInstanceAs (Decidable (∀ ev ∈ (s.cores n).eventRing.tryPop.1, _))
  | .own _ => inferInstanceAs (Decidable (_ ∧ ∀ _, _))
  | .tick .. | .setParameters .. | .setPermission .. | .rebuild .. => inferInstanceAs (Decidable True)

structure Inv (c : DrainConfig) (s : Engine) : Prop where
  homed : Homed s.oms
  stocked : s.oms.books.portfolio.Stocked
  rings : ∀ n leg, (s.cores n).RingTells leg
  calm : ∀ p, s.watched c p = false → s.oms.entering p = false
  exits : ∀ p, s.watched c p = false → s.oms.books.portfolio.active p = true → s.oms.exitUnderWay p = true

theorem Inv.init (c : DrainConfig) (balance : Money) (tradeLog : Option (List (EmitRecord × Money)))
    (nodes : NodeIdx → EntryContext) : Inv c (init balance tradeLog nodes) := by
  refine ⟨.init balance tradeLog, fun _ h => absurd h Bool.false_ne_true,
    fun n leg type hlast => absurd hlast.symm (Option.some_ne_none type), fun p _ => ?_,
    fun p _ h => absurd h Bool.false_ne_true⟩
  rw [← Bool.not_eq_true, entering_iff]
  rintro (⟨cmd, hmem, -⟩ | ⟨i, hocc, -⟩)
  · exact List.not_mem_nil hmem
  · exact Bool.false_ne_true hocc

/-- A step of one core that keeps what its ring tells and takes its eyes off no leg. -/
theorem Inv.setCore (h : Inv c s) {n : NodeIdx} {core : ExecutionCore} (hring : ∀ leg, core.RingTells leg)
    (hwatches : ∀ leg, core.watches leg = false → (s.cores n).watches leg = false) : Inv c (s.setCore n core) := by
  have hback : ∀ p, (s.setCore n core).watched c p = false → s.watched c p = false := by
    intro p hp
    rcases eq_or_ne (c.oms.slotNode p) n with heq | hne
    · rw [watched, heq, setCore_self] at hp
      rw [watched, heq]
      exact hwatches _ hp
    · rw [watched, setCore_of_ne hne] at hp
      exact hp
  refine ⟨h.homed, h.stocked, fun m leg => ?_, fun p hp => h.calm p (hback p hp), fun p hp => h.exits p (hback p hp)⟩
  rcases eq_or_ne m n with rfl | hne
  · rw [setCore_self]
    exact hring leg
  · rw [setCore_of_ne hne]
    exact h.rings m leg

/-- A slot that is unwatched once an event is drained: the event was its leg's last and an exit, or it
    was unwatched before. -/
theorem watched_of_pop (h : Inv c s) {n : NodeIdx} {ev : TradeEvent} (hpop : (s.cores n).eventRing.tryPop.1 = some ev)
    (hp : (s.setCore n (s.cores n).pop).watched c p = false) :
    (legSlot c.oms.partialExitEnabled n ev.leg = some p ∧ ev.type = .exit ∧ (s.cores n).pop.watches ev.leg = false) ∨
      (legSlot c.oms.partialExitEnabled n ev.leg ≠ some p ∧ s.watched c p = false) := by
  rcases eq_or_ne (c.oms.slotNode p) n with rfl | hne
  · rw [watched, setCore_self] at hp
    rcases eq_or_ne (slotLeg c.oms.partialExitEnabled p) ev.leg with heq | hne
    · left
      rw [heq] at hp
      refine ⟨legSlot_eq_some.2 ⟨rfl, heq⟩, ?_, hp⟩
      -- the event is all the ring has of its leg, and the leg is closed
      obtain ⟨hclosed, hrest⟩ := ExecutionCore.watches_eq_false.1 hp
      rw [ExecutionCore.pop_legActive] at hclosed
      have hall := ExecutionCore.legTypes_pop hpop ev.leg
      rw [if_pos rfl, hrest] at hall
      have htells := h.rings _ ev.leg ev.type (by rw [hall]; rfl)
      cases htype : ev.type with
      | exit => rfl
      | entry => exact absurd (hclosed.symm.trans (htells.2 htype)) Bool.false_ne_true
    · right
      refine ⟨fun hslot => hne (legSlot_eq_some.1 hslot).2, ?_⟩
      obtain ⟨hclosed, hrest⟩ := ExecutionCore.watches_eq_false.1 hp
      refine ExecutionCore.watches_eq_false.2 ⟨ExecutionCore.pop_legActive.symm.trans hclosed, ?_⟩
      rw [ExecutionCore.legTypes_pop hpop _, if_neg hne.symm]
      exact hrest
  · right
    rw [watched, setCore_of_ne hne] at hp
    exact ⟨fun hslot => hne (legSlot_eq_some.1 hslot).1, hp⟩

/-- The drain of an exit pushes a sell if the slot holds anything. -/
theorem drainEvent_of_held (ctx : EntryContext) {n : NodeIdx} {ev : TradeEvent} (htype : ev.type = .exit)
    (hslot : legSlot c.oms.partialExitEnabled n ev.leg = some p) (hst : s.oms.books.portfolio.Stocked)
    (hactive : s.oms.books.portfolio.active p = true) :
    c.drainEvent s.oms.books.portfolio ctx n ev = some (c.orderFor s.oms.books.portfolio ctx n p ev).val := by
  refine DrainConfig.drainEvent_eq_some.2 ⟨p, hslot, rfl, Money.gt_iff.2 ?_⟩
  rw [DrainConfig.orderFor_qty, DrainConfig.orderQty, htype]
  exact hst p hactive

theorem Inv.drain (h : Inv c s) (n : NodeIdx) (nowTick : Nat) (hok : s.Covered c (.drain n nowTick)) :
    Inv c (s.drain c n nowTick) := by
  unfold Engine.drain
  split
  · exact h
  next ev hpop =>
    have hrings : ∀ m leg, ((s.setCore n (s.cores n).pop).cores m).RingTells leg := by
      intro m leg
      rcases eq_or_ne m n with rfl | hne
      · rw [setCore_self]
        exact (h.rings m leg).pop
      · rw [setCore_of_ne hne]
        exact h.rings m leg
    dsimp only
    split
    next hnone =>
      refine ⟨h.homed, h.stocked, hrings, fun p hp => ?_, fun p hp hactive => ?_⟩
      · rcases watched_of_pop h hpop hp with ⟨hslot, htype, hlast⟩ | ⟨-, hbefore⟩
        · exact (hok ev hpop htype hlast p hslot).1
        · exact h.calm p hbefore
      · rcases watched_of_pop h hpop hp with ⟨hslot, htype, -⟩ | ⟨-, hbefore⟩
        · have hsome := drainEvent_of_held (s.nodes n) htype hslot h.stocked hactive
          exact absurd (hnone.symm.trans hsome).symm (Option.some_ne_none _)
        · exact h.exits p hbefore hactive
    next cmd hcmd =>
      obtain ⟨slot, hslot, rfl, -⟩ := DrainConfig.drainEvent_eq_some.1 hcmd
      have hne : ∀ p, legSlot c.oms.partialExitEnabled n ev.leg ≠ some p → p ≠ slot := by
        rintro p hother rfl
        exact hother hslot
      refine ⟨h.homed.pushSubmit _, h.stocked, hrings, fun p hp => ?_, fun p hp hactive => ?_⟩
      · rcases watched_of_pop h hpop hp with ⟨hslot', htype, hlast⟩ | ⟨hother, hbefore⟩
        · refine entering_pushSubmit_of_sell ?_ (hok ev hpop htype hlast p hslot').1
          rw [DrainConfig.orderFor_type, htype]
          rfl
        · exact (entering_pushSubmit_of_ne (hne p hother)).trans (h.calm p hbefore)
      · rcases watched_of_pop h hpop hp with ⟨hslot', htype, hlast⟩ | ⟨hother, hbefore⟩
        · obtain rfl := Option.some_inj.1 (hslot.symm.trans hslot')
          refine exitUnderWay_of_queued (mem_queuedExits_pushSubmit ?_ ((hok ev hpop htype hlast slot hslot).2 hactive))
          rw [DrainConfig.orderFor_type, htype]
          rfl
        · exact (exitUnderWay_pushSubmit_of_ne (hne p hother)).trans (h.exits p hbefore hactive)

theorem Inv.own (h : Inv c s) {a : Act} (hown : a.isOwn = true) (hok : s.Covered c (.own a)) :
    Inv c { s with oms := s.oms.step c.oms a } := by
  have hsize : ∀ cmd j, s.oms.executed a = some (cmd, j) → Sizable cmd.result :=
    fun cmd j hexec => hok.1 (cmd, j) hexec
  have hstocked := stocked_act (c := c.oms) hsize h.stocked
  have hactive : ∀ p, s.watched c p = false → (s.oms.act c.oms a).val.books.portfolio.active p = true →
      s.oms.books.portfolio.active p = true :=
    fun p hp hafter => active_of_act hsize h.stocked (h.calm p hp) hafter
  refine ⟨h.homed.act hown, hstocked, h.rings, fun p hp => ?_, fun p hp hafter => ?_⟩
  · by_contra hbuy
    rw [Bool.not_eq_false] at hbuy
    exact Bool.false_ne_true ((h.calm p hp).symm.trans (entering_act (c := c.oms) hown h.homed hbuy))
  · have hbefore := hactive p hp hafter
    rcases exitUnderWay_act (c := c.oms) hown h.homed (h.exits p hp hbefore) (hok.2 p hp hbefore) with hexit | hflat
    · exact hexit
    · -- what is still active holds something
      have hheld := hstocked.active_iff.1 hafter
      rw [hflat, Money.zero_v] at hheld
      exact absurd hheld (Int.lt_irrefl 0)

theorem inv_step (c : DrainConfig) (s : Engine) (a : EngineAct) (h : Inv c s) (hok : s.Covered c a) :
    Inv c (s.step c a) := by
  cases a with
  | tick n t => exact h.setCore (fun leg => (h.rings n leg).tick t) fun _ => ExecutionCore.watches_of_tick
  | setParameters n newParams publishTick =>
    refine h.setCore (fun leg => ?_) fun leg hleg => ?_
    · cases leg <;> exact h.rings n _
    · cases leg <;> exact hleg
  | setPermission n value =>
    refine h.setCore (fun leg => ?_) fun leg hleg => ?_
    · cases leg <;> exact h.rings n _
    · cases leg <;> exact hleg
  | drain n nowTick => exact h.drain n nowTick hok
  | rebuild n ctx => exact ⟨h.homed, h.stocked, h.rings, h.calm, h.exits⟩
  | own a =>
    simp only [step]
    split
    next hown => exact h.own hown hok
    · exact h

/-- In every run whose steps lose no exit, an engine come to rest has the core's leg open behind every
    active slot. -/
theorem open_positions_watched (c : DrainConfig) (balance : Money) (tradeLog : Option (List (EmitRecord × Money)))
    (nodes : NodeIdx → EntryContext) (acts : List EngineAct)
    (hcovered : Steps (step c) (Covered c) (init balance tradeLog nodes) acts)
    (hquiet : (run (step c) (init balance tradeLog nodes) acts).Quiescent) (p : SlotIdx)
    (hactive : (run (step c) (init balance tradeLog nodes) acts).oms.books.portfolio.active p = true) :
    ((run (step c) (init balance tradeLog nodes) acts).cores (c.oms.slotNode p)).legActive
      (slotLeg c.oms.partialExitEnabled p) = true := by
  have hinv : Inv c (run (step c) (init balance tradeLog nodes) acts) :=
    run_inv_of_steps (inv_step c) acts (.init c balance tradeLog nodes) hcovered
  generalize run (step c) (init balance tradeLog nodes) acts = s at hinv hquiet hactive ⊢
  by_contra hclosed
  rw [Bool.not_eq_true] at hclosed
  have hunwatched : s.watched c p = false := by
    refine ExecutionCore.watches_eq_false.2 ⟨hclosed, ?_⟩
    rw [hquiet.events]
    rfl
  have hexit := hinv.exits p hunwatched hactive
  have hnone : s.oms.exitUnderWay p = false := by
    refine exitUnderWay_eq_false.2 ⟨?_, List.eq_nil_iff_forall_not_mem.2 fun i hi => ?_⟩
    · rw [queuedExits, hquiet.submits]
      rfl
    · exact Bool.false_ne_true ((hquiet.orders i).symm.trans (mem_liveExits.1 hi).1)
  exact Bool.false_ne_true (hnone.symm.trans hexit)

/-! ### An entry and its exit -/

/-- Buy at 100 or below, take the profit at 110. -/
def samplePack : GateParameters :=
  { GateParameters.init with
    bgPriceThreshold := (Money.fromInt 100).val
    sgTakeProfitPrice := (Money.fromInt 110).val
    flags := gateFlagTpEnabled }

def sampleTick (price : Int) : EngineAct :=
  .tick firstIdx { price := (Money.fromInt price).val, volume := .zero, timestamp := 0, sequence := 0 }

/-- Node 0 is armed and enters at 99. -/
def sampleEntry : List EngineAct := [.setParameters firstIdx samplePack 0, .setPermission firstIdx 1, sampleTick 99]

/-- What the owner does about one event on paper: drain it, submit its order and book the fill. -/
def sampleTurn : List EngineAct := [.drain firstIdx 0, .own (.popSubmit firstIdx), .own .popResult]

/-- Bought, sold at the target and bought again, each filled before the next event. -/
def sampleReentry : List EngineAct :=
  sampleEntry ++ sampleTurn ++ [sampleTick 110] ++ sampleTurn ++ [sampleTick 98] ++ sampleTurn

theorem open_positions_watched_reentry :
    let s := run (step (sampleDrain samplePaper)) (init .zero none fun _ => sampleContext) sampleReentry
    (s.cores ((sampleDrain samplePaper).oms.slotNode 0)).legActive
      (slotLeg (sampleDrain samplePaper).oms.partialExitEnabled 0) = true :=
  open_positions_watched (sampleDrain samplePaper) .zero none (fun _ => sampleContext) sampleReentry
    (by decide +kernel)
    (by decide +kernel) 0 (by decide +kernel)

/-- The entry and the exit are drained together, before the buy is filled: the exit finds nothing to
    sell, the buy fills, and ten units are held that no core watches. -/
theorem unwatched_position :
    let s := run (step (sampleDrain samplePaper)) (init .zero none fun _ => sampleContext)
      (sampleEntry ++ [sampleTick 110, .drain firstIdx 0] ++ sampleTurn)
    s.Quiescent ∧ s.oms.books.portfolio.active 0 = true ∧
      (s.oms.books.portfolio.positions 0).quantity = (Money.fromInt 10).val ∧ (s.cores 0).legActive .a = false := by
  decide +kernel

end Engine

end FoxTrader
