import FoxTrader.ExecutionCore

/-! # Every leg alternates entry and exit

    Runs of one execution core under ticks, parameter pushes, permission changes and event-ring
    drains in any order, with the list of everything the core has queued so far as a ghost. Per leg
    the queued types are `entry, exit, entry, …` and the active flag says which of the two comes
    next, however long the ring stays full: a push that fails changes neither. -/

namespace FoxTrader

open Lib

def TradeEventType.flip : TradeEventType → TradeEventType
  | .entry => .exit
  | .exit => .entry

namespace ExecutionCore

inductive Act where
  | tick (t : Tick)
  | setParameters (newParams : GateParameters) (publishTick : Nat)
  | setPermission (value : BitVec 8)
  | drain

/-- A core and every event it has queued. -/
structure Traced where
  core : ExecutionCore
  queued : List TradeEvent

def step (s : Traced) : Act → Traced
  | .tick t => { core := s.core.tick t, queued := s.queued ++ s.core.queuedBy t }
  | .setParameters p n => { s with core := s.core.setParameters p n }
  | .setPermission v => { s with core := s.core.setPermission v }
  | .drain => { s with core := { s.core with eventRing := s.core.eventRing.tryPop.2 } }

def legActive (c : ExecutionCore) : Leg → Bool
  | .a => c.active
  | .b => c.activeB

/-- The types of the events of one leg, in order. -/
def legTypes (leg : Leg) (es : List TradeEvent) : List TradeEventType :=
  (es.filter (·.leg = leg)).map (·.type)

/-- Strict alternation, beginning with `k`. -/
def Alternates : TradeEventType → List TradeEventType → Prop
  | _, [] => True
  | k, t :: ts => t = k ∧ Alternates k.flip ts

/-- What may follow: `k` at the start, then the flip of the last one. -/
def nextType (k : TradeEventType) (ts : List TradeEventType) : TradeEventType :=
  (ts.getLast?.map TradeEventType.flip).getD k

theorem alternates_append_singleton : ∀ (k : TradeEventType) (ts : List TradeEventType) (t : TradeEventType),
    Alternates k ts → t = nextType k ts → Alternates k (ts ++ [t])
  | _, [], _, _, ht => ⟨ht, trivial⟩
  | k, [u], t, h, ht => ⟨h.1, by rw [ht, ← h.1]; rfl, trivial⟩
  | k, u :: v :: ts, t, h, ht =>
    ⟨h.1, alternates_append_singleton k.flip (v :: ts) t h.2 (by
      rw [ht, nextType, nextType, List.getLast?_cons_cons]
      cases hl : (v :: ts).getLast? with
      | none => simp at hl
      | some x => rfl)⟩

@[simp] theorem legTypes_append (leg : Leg) (es fs : List TradeEvent) :
    legTypes leg (es ++ fs) = legTypes leg es ++ legTypes leg fs := by
  rw [legTypes, List.filter_append, List.map_append]; rfl

/-! ### A tick, leg by leg -/

theorem refresh_frame (c : ExecutionCore) : c.refresh.active = c.active ∧
    c.refresh.activeB = c.activeB ∧ c.refresh.eventRing = c.eventRing ∧
    c.refresh.permission = c.permission := by
  unfold refresh
  split <;> exact ⟨rfl, rfl, rfl, rfl⟩

theorem queuedBy_of_items {c : ExecutionCore} {t : Tick} {es : List TradeEvent}
    (h : (c.tick t).eventRing.items = c.eventRing.items ++ es) : c.queuedBy t = es := by
  rw [queuedBy, h, List.drop_left]

/-- `tickBody_cases` for a whole tick, on the events it queued. -/
theorem tick_cases (c : ExecutionCore) (t : Tick) :
    (∃ ea eb : Bool, (ea = true → c.active = true) ∧ (eb = true → c.activeB = true) ∧
      (c.tick t).active = (c.active && !ea) ∧ (c.tick t).activeB = (c.activeB && !eb) ∧
      c.queuedBy t = (if ea then [c.refresh.event t .exit .a] else []) ++
        if eb then [c.refresh.event t .exit .b] else []) ∨
    (∃ eb : Bool, c.active = false ∧ c.activeB = false ∧ c.refresh.canEnter t = true ∧
      (c.tick t).active = true ∧ (c.tick t).activeB = eb ∧
      c.queuedBy t = c.refresh.event t .entry .a :: if eb then [c.refresh.event t .entry .b] else []) := by
  obtain ⟨hA, hB, hring, -⟩ := c.refresh_frame
  rcases tickBody_cases (c.cachedParams.has gateFlagPairActive) c.refresh t with
    ⟨ea, eb, hea, heb, ha, hb, hitems⟩ | ⟨eb, hfa, hfb, hce, ha, hb, hitems⟩
  · rw [hA] at hea ha
    rw [hB] at heb hb
    rw [hring] at hitems
    exact .inl ⟨ea, eb, hea, heb, ha, hb, queuedBy_of_items hitems⟩
  · rw [hring] at hitems
    exact .inr ⟨eb, hA ▸ hfa, hB ▸ hfb, hce, ha, hb, queuedBy_of_items hitems⟩

/-- For one leg a tick queues nothing and keeps the flag, or queues the one event the flag allows
    and flips it. -/
theorem leg_cases (c : ExecutionCore) (t : Tick) (leg : Leg) :
    (legTypes leg (c.queuedBy t) = [] ∧ (c.tick t).legActive leg = c.legActive leg) ∨
    (legTypes leg (c.queuedBy t) = [.exit] ∧ c.legActive leg = true ∧ (c.tick t).legActive leg = false) ∨
    (legTypes leg (c.queuedBy t) = [.entry] ∧ c.legActive leg = false ∧
      (c.tick t).legActive leg = true) := by
  rcases c.tick_cases t with ⟨ea, eb, hea, heb, ha, hb, hq⟩ | ⟨eb, hfa, hfb, -, ha, hb, hq⟩
  · rw [hq]
    cases leg with
    | a =>
      simp only [legActive, ha]
      cases ea with
      | false => left; cases eb <;> simp [legTypes, event]
      | true => right; left; cases eb <;> simp [legTypes, event, hea rfl]
    | b =>
      simp only [legActive, hb]
      cases eb with
      | false => left; cases ea <;> simp [legTypes, event]
      | true => right; left; cases ea <;> simp [legTypes, event, heb rfl]
  · rw [hq]
    cases leg with
    | a => right; right; simp only [legActive, ha, hfa]; cases eb <;> simp [legTypes, event]
    | b =>
      simp only [legActive, hb, hfb]
      cases eb with
      | false => left; simp [legTypes, event]
      | true => right; right; simp [legTypes, event]

/-! ### The invariant over runs -/

/-- Per leg the queued types alternate, and the flag is up exactly behind an entry. -/
def LegInv (leg : Leg) (s : Traced) : Prop :=
  Alternates .entry (legTypes leg s.queued) ∧
    (s.core.legActive leg = true ↔ (legTypes leg s.queued).getLast? = some .entry)

theorem LegInv.next {leg : Leg} {s : Traced} (h : LegInv leg s) :
    nextType .entry (legTypes leg s.queued) = if s.core.legActive leg then .exit else .entry := by
  rw [nextType]
  cases hl : (legTypes leg s.queued).getLast? with
  | none => rw [if_neg (by rw [h.2, hl]; simp)]; rfl
  | some k =>
    cases k with
    | entry => rw [if_pos (h.2.2 hl)]; rfl
    | exit => rw [if_neg (by rw [h.2, hl]; simp)]; rfl

theorem legInv_step (leg : Leg) (s : Traced) (a : Act) (h : LegInv leg s) : LegInv leg (step s a) := by
  cases a with
  | setParameters p n => cases leg <;> exact h
  | setPermission v => cases leg <;> exact h
  | drain => cases leg <;> exact h
  | tick t =>
    simp only [LegInv, step, legTypes_append]
    rcases s.core.leg_cases t leg with ⟨hq, hk⟩ | ⟨hq, hk, hk'⟩ | ⟨hq, hk, hk'⟩
    · rw [hq, List.append_nil, hk]
      exact h
    · rw [hq, hk']
      exact ⟨alternates_append_singleton _ _ _ h.1 (by rw [h.next, hk, if_pos rfl]), by simp⟩
    · rw [hq, hk']
      exact ⟨alternates_append_singleton _ _ _ h.1 (by rw [h.next, hk]; rfl), by simp⟩

theorem legInv_run {core : ExecutionCore} (hA : core.active = false) (hB : core.activeB = false)
    (as : List Act) (leg : Leg) : LegInv leg (run step ⟨core, []⟩ as) :=
  run_inv (legInv_step leg) as ⟨trivial, by cases leg <;> simp [legActive, legTypes, hA, hB]⟩

/-- Leg B enters only in a tick in which leg A does. -/
theorem entry_b_with_entry_a {c : ExecutionCore} {t : Tick} {e : TradeEvent} (he : e ∈ c.queuedBy t)
    (hb : e.leg = .b) (hentry : e.type = .entry) :
    ∃ e' ∈ c.queuedBy t, e'.leg = .a ∧ e'.type = .entry := by
  rcases c.tick_cases t with ⟨ea, eb, -, -, -, -, hq⟩ | ⟨eb, -, -, -, -, -, hq⟩
  · rw [hq] at he
    cases ea <;> cases eb <;> simp [event] at he <;> rcases he with rfl | rfl <;> simp at hentry
  · exact ⟨c.refresh.event t .entry .a, by rw [hq]; exact List.mem_cons_self, rfl, rfl⟩

/-- An entry is queued only by a permitted core on parameters that are not stale. -/
theorem entry_permitted_fresh {c : ExecutionCore} {t : Tick} {e : TradeEvent} (he : e ∈ c.queuedBy t)
    (hentry : e.type = .entry) : c.permitted = true ∧ c.refresh.stale t = false := by
  rcases c.tick_cases t with ⟨ea, eb, -, -, -, -, hq⟩ | ⟨eb, -, -, hce, -, -, hq⟩
  · rw [hq] at he
    cases ea <;> cases eb <;> simp [event] at he <;> rcases he with rfl | rfl <;> simp at hentry
  · simp only [canEnter, bgFires, Bool.and_eq_true, Bool.not_eq_true'] at hce
    refine ⟨?_, hce.2.2⟩
    have hperm := hce.1.2
    rwa [permitted, c.refresh_frame.2.2.2] at hperm

/-- From an inactive core, over any run: every leg's queued events strictly alternate beginning
    with an entry, its flag is up exactly when the last of them is an entry, and at the next tick
    leg B enters only with leg A and no leg enters without permission or on stale parameters. -/
theorem legs_alternate (core : ExecutionCore) (hA : core.active = false) (hB : core.activeB = false)
    (as : List Act) :
    (∀ leg, Alternates .entry (legTypes leg (run step ⟨core, []⟩ as).queued) ∧
      ((run step ⟨core, []⟩ as).core.legActive leg = true ↔
        (legTypes leg (run step ⟨core, []⟩ as).queued).getLast? = some .entry)) ∧
    ∀ t, ∀ e ∈ (run step ⟨core, []⟩ as).core.queuedBy t, e.type = .entry →
      (e.leg = .b → ∃ e' ∈ (run step ⟨core, []⟩ as).core.queuedBy t, e'.leg = .a ∧ e'.type = .entry) ∧
      (run step ⟨core, []⟩ as).core.permitted = true ∧
      (run step ⟨core, []⟩ as).core.refresh.stale t = false :=
  ⟨legInv_run hA hB as, fun _ _ he hentry =>
    ⟨fun hb => entry_b_with_entry_a he hb hentry, entry_permitted_fresh he hentry⟩⟩

/-- Grant permission, push a pack, enter below the threshold, drain, exit at the target. -/
def roundTrip : List Act :=
  let tickAt (price : Int) : Act :=
    .tick { price := (Money.fromInt price).val, volume := .zero, timestamp := 0, sequence := 0 }
  let p := { GateParameters.init with
    bgPriceThreshold := (Money.fromInt 100).val
    sgTakeProfitPrice := (Money.fromInt 110).val
    flags := gateFlagTpEnabled }
  [.setParameters p 0, .setPermission 1, tickAt 99, tickAt 100, .drain, tickAt 110]

theorem legs_alternate_roundTrip :
    legTypes .a (run step ⟨init 0, []⟩ roundTrip).queued = [.entry, .exit] ∧
      Alternates .entry (legTypes .a (run step ⟨init 0, []⟩ roundTrip).queued) :=
  ⟨by decide, ((legs_alternate (init 0) rfl rfl roundTrip).1 .a).1⟩

end ExecutionCore

end FoxTrader
