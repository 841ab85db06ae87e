import FoxTrader.Lib.Run
import FoxTrader.Composer

/-! # The paired fill rings

    A leg pushes its fill event and then, if a trade log is wired, its record onto the two rings of
    its node. The composer applies lowest node first and first-in first-out within a node, and takes
    one record off the second ring for each event off the first. A full ring is drained on the spot
    and the push repeated. The rings here have any capacity, and what applying and rendering do is a
    `Sink`, so nothing but the transport is at work: every emitted event is played exactly once or
    still waiting, in the order of its node, and always with its own record. The composer's rings are
    these, of 128 slots. -/

namespace FoxTrader

open Lib Function

/-- What the composer does to its books: for an event, for its record, and at the end of a pass. -/
structure Sink (σ : Type) where
  apply : σ → FillEvent → σ
  render : σ → EmitRecord → σ
  drainFunnels : σ → σ

/-- The rings, and the books they are applied to. -/
structure FillRings (cap : Nat) (σ : Type) where
  fillRings : NodeIdx → Fifo FillEvent cap
  emitRings : NodeIdx → Fifo EmitRecord cap
  fillRingFullEvents : Nat
  books : σ

namespace FillRings

variable {cap : Nat} {σ : Type}

def init (books : σ) : FillRings cap σ :=
  { fillRings := fun _ => .empty, emitRings := fun _ => .empty, fillRingFullEvents := 0, books }

section

variable (sink : Sink σ) (tradeLog : Bool)

/-- The record paired with an applied event of `n`, if a log is wired. -/
def emitTradeRow (r : FillRings cap σ) (n : NodeIdx) : FillRings cap σ :=
  if tradeLog then
    match (r.emitRings n).tryPop with
    | (none, _) => r
    | (some rec, ring) => { r with emitRings := update r.emitRings n ring, books := sink.render r.books rec }
  else r

/-- One event popped off ring `n`. -/
def applyFill (r : FillRings cap σ) (n : NodeIdx) (fe : FillEvent) : FillRings cap σ :=
  emitTradeRow sink tradeLog { r with books := sink.apply r.books fe } n

/-- `while (SPSCRing_TryPop(&agg.fill_rings[n], &fe))`, for `fuel` turns. -/
def drainRing (n : NodeIdx) : Nat → FillRings cap σ → FillRings cap σ
  | 0, r => r
  | fuel + 1, r =>
    match (r.fillRings n).tryPop with
    | (none, _) => r
    | (some fe, ring) =>
      drainRing n fuel (applyFill sink tradeLog { r with fillRings := update r.fillRings n ring } n fe)

/-- The loop over one ring: it ends after as many turns as there are events, since nobody pushes. -/
def drainNode (r : FillRings cap σ) (n : NodeIdx) : FillRings cap σ :=
  drainRing sink tradeLog n (r.fillRings n).items.length r

/-- `EngineCommon_FillRingsApply`. -/
def fillRingsApply (r : FillRings cap σ) : FillRings cap σ :=
  let r := (List.finRange 16).foldl (drainNode sink tradeLog) r
  { r with books := sink.drainFunnels r.books }

/-- `EngineCommon_FillEmit`, and whether the event went in. -/
def fillEmit (r : FillRings cap σ) (fe : FillEvent) : Bool × FillRings cap σ :=
  match (r.fillRings fe.node).tryPush fe with
  | (true, ring) => (true, { r with fillRings := update r.fillRings fe.node ring })
  | (false, _) =>
    let r := fillRingsApply sink tradeLog { r with fillRingFullEvents := r.fillRingFullEvents + 1 }
    let push := (r.fillRings fe.node).tryPush fe
    (push.1, { r with fillRings := update r.fillRings fe.node push.2 })

/-- `real_on_entry_fill_emit`, `real_on_exit_fill_emit`. -/
def emitRecord (r : FillRings cap σ) (n : NodeIdx) (rec : EmitRecord) : FillRings cap σ :=
  if tradeLog then { r with emitRings := update r.emitRings n ((r.emitRings n).tryPush rec).2 } else r

end

/-- What a leg emits: an event and its record, of one slot. -/
structure Emission (c : OmsConfig) where
  fe : FillEvent
  record : EmitRecord
  node : fe.node = c.slotNode record.slot

inductive Act (c : OmsConfig) where
  | emit (e : Emission c)
  | apply

/-- A leg emits, or the composer applies. -/
def step {c : OmsConfig} (sink : Sink σ) (tradeLog : Bool) (r : FillRings cap σ) : Act c → FillRings cap σ
  | .emit e => emitRecord tradeLog (fillEmit sink tradeLog r e.fe).2 (c.slotNode e.record.slot) e.record
  | .apply => fillRingsApply sink tradeLog r

/-! ### What is played -/

/-- An event with its record, if records are kept. -/
abbrev Leg := FillEvent × Option EmitRecord

/-- What a pass of the composer does to the books, event by event. -/
inductive Effect where
  | fill (leg : Leg)
  | funnels

def play (sink : Sink σ) (b : σ) : Effect → σ
  | .fill (fe, some rec) => sink.render (sink.apply b fe) rec
  | .fill (fe, none) => sink.apply b fe
  | .funnels => sink.drainFunnels b

def Effect.leg : Effect → Option Leg
  | .fill leg => some leg
  | .funnels => none

/-- The legs of node `n` among those played. -/
def played (n : NodeIdx) (effects : List Effect) : List Leg :=
  (effects.filterMap Effect.leg).filter fun leg => leg.1.node = n

/-- The legs of node `n` among those emitted. -/
def emitted {c : OmsConfig} (tradeLog : Bool) (n : NodeIdx) (as : List (Act c)) : List Leg :=
  as.filterMap fun
    | .emit e => if e.fe.node = n then some (e.fe, if tradeLog then some e.record else none) else none
    | .apply => none

/-- The legs waiting in the rings of node `n`. -/
def waiting (tradeLog : Bool) (r : FillRings cap σ) (n : NodeIdx) : List Leg :=
  if tradeLog then (r.fillRings n).items.zip ((r.emitRings n).items.map some)
    else (r.fillRings n).items.map fun fe => (fe, none)

/-! ### One turn of the loop -/

variable {sink : Sink σ} {tradeLog : Bool} {r : FillRings cap σ} {n : NodeIdx}

/-- With a log the two rings of every node hold as many; and a ring holds events of its node. -/
structure Paired (tradeLog : Bool) (r : FillRings cap σ) : Prop where
  lengths : tradeLog = true → ∀ n, (r.emitRings n).items.length = (r.fillRings n).items.length
  node : ∀ n, ∀ fe ∈ (r.fillRings n).items, fe.node = n

variable (sink) in
/-- A turn takes the oldest event of its ring together with its record, and plays them. -/
theorem applyFill_plays (h : Paired tradeLog r) {fe : FillEvent} (hpop : (r.fillRings n).tryPop.1 = some fe) :
    let r' := applyFill sink tradeLog { r with fillRings := update r.fillRings n (r.fillRings n).tryPop.2 } n fe
    Paired tradeLog r' ∧ r'.fillRings = update r.fillRings n (r.fillRings n).tryPop.2 ∧
      ∃ record, r'.books = play sink r.books (.fill (fe, record)) ∧
        ∀ m, waiting tradeLog r m = (if m = n then [(fe, record)] else []) ++ waiting tradeLog r' m := by
  have hitems := Fifo.tryPop_some hpop
  have hnode : ∀ m, ∀ e ∈ ((update r.fillRings n (r.fillRings n).tryPop.2) m).items, e.node = m := by
    intro m e he
    rcases eq_or_ne m n with rfl | hne
    · rw [update_self] at he
      exact h.node m e (Fifo.mem_of_mem_tryPop he)
    · rw [update_of_ne hne] at he
      exact h.node m e he
  generalize (r.fillRings n).tryPop.2 = ring at hitems hnode ⊢
  intro r'
  cases tradeLog with
  | false =>
    refine ⟨⟨fun hfalse => absurd hfalse Bool.false_ne_true, hnode⟩, rfl, none, rfl, fun m => ?_⟩
    rcases eq_or_ne m n with rfl | hne
    · show (r.fillRings m).items.map _ = _ ++ ((update r.fillRings m ring) m).items.map _
      rw [hitems, update_self, if_pos rfl]
      rfl
    · show (r.fillRings m).items.map _ = _ ++ ((update r.fillRings n ring) m).items.map _
      rw [update_of_ne hne, if_neg hne]
      rfl
  | true =>
    have hlen := h.lengths rfl n
    rcases hrec : (r.emitRings n).tryPop with ⟨_ | record, records⟩
    · -- the record ring is not empty where the event ring is not
      have hnil := Fifo.tryPop_eq_none.1 (congrArg Prod.fst hrec)
      rw [hnil, hitems] at hlen
      exact absurd hlen (by simp)
    have hrecs : (r.emitRings n).items = record :: records.items := by
      have := Fifo.tryPop_some (congrArg Prod.fst hrec)
      rwa [hrec] at this
    have hr' : r' = { r with
        fillRings := update r.fillRings n ring, emitRings := update r.emitRings n records
        books := sink.render (sink.apply r.books fe) record } := by
      simp only [r', applyFill, emitTradeRow, if_true, hrec]
    rw [hr']
    refine ⟨⟨fun _ m => ?_, hnode⟩, rfl, some record, rfl, fun m => ?_⟩
    · rcases eq_or_ne m n with rfl | hne
      · rw [hitems, hrecs] at hlen
        simpa using hlen
      · simpa only [update_of_ne hne] using h.lengths rfl m
    · rcases eq_or_ne m n with rfl | hne
      · simp [waiting, hitems, hrecs]
      · simp [waiting, hne]

/-! ### Everything emitted is played or waiting -/

/-- What was emitted, node by node, is what was played followed by what waits. -/
structure Tracks (sink : Sink σ) (tradeLog : Bool) (books : σ) (sent : NodeIdx → List Leg)
    (r : FillRings cap σ) : Prop where
  paired : Paired tradeLog r
  effects : ∃ effects, r.books = effects.foldl (play sink) books ∧
    ∀ n, sent n = played n effects ++ waiting tradeLog r n

variable {books : σ} {sent : NodeIdx → List Leg}

theorem played_snoc (n : NodeIdx) (effects : List Effect) (leg : Leg) :
    played n (effects ++ [.fill leg]) = played n effects ++ if leg.1.node = n then [leg] else [] := by
  rw [played, List.filterMap_append, List.filter_append]
  refine congrArg (played n effects ++ ·) ?_
  by_cases hn : leg.1.node = n <;> simp [Effect.leg, hn]

theorem Tracks.turn (h : Tracks sink tradeLog books sent r) {fe : FillEvent}
    (hpop : (r.fillRings n).tryPop.1 = some fe) :
    Tracks sink tradeLog books sent
      (applyFill sink tradeLog { r with fillRings := update r.fillRings n (r.fillRings n).tryPop.2 } n fe) := by
  obtain ⟨hpaired, -, record, hbooks, hwaiting⟩ := applyFill_plays sink h.paired hpop
  obtain ⟨effects, hplayed, hemitted⟩ := h.effects
  have hnode : fe.node = n := h.paired.node n fe (by rw [Fifo.tryPop_some hpop]; exact List.mem_cons_self)
  refine ⟨hpaired, effects ++ [.fill (fe, record)], ?_, fun m => ?_⟩
  · rw [hbooks, hplayed, List.foldl_append]
    rfl
  · rw [hemitted m, hwaiting m, played_snoc, List.append_assoc]
    simp only [hnode, eq_comm]

/-- The loop plays what it pops; with a turn for each event it empties its ring and no other. -/
theorem Tracks.drainRing : ∀ (fuel : Nat) {r : FillRings cap σ}, Tracks sink tradeLog books sent r →
    Tracks sink tradeLog books sent (drainRing sink tradeLog n fuel r) ∧
      (∀ m, m ≠ n → ((FillRings.drainRing sink tradeLog n fuel r).fillRings m) = r.fillRings m) ∧
      ((r.fillRings n).items.length ≤ fuel → ((FillRings.drainRing sink tradeLog n fuel r).fillRings n).items = [])
  | 0, r, h => ⟨h, fun _ _ => rfl, fun hlen => List.length_eq_zero_iff.1 (Nat.le_zero.1 hlen)⟩
  | fuel + 1, r, h => by
    rw [FillRings.drainRing]
    rcases hpop : (r.fillRings n).tryPop with ⟨_ | fe, ring⟩
    · exact ⟨h, fun _ _ => rfl, fun _ => Fifo.tryPop_eq_none.1 (congrArg Prod.fst hpop)⟩
    have hfst : (r.fillRings n).tryPop.1 = some fe := congrArg Prod.fst hpop
    have hturn := h.turn hfst
    obtain ⟨-, hrings, -⟩ := applyFill_plays sink h.paired hfst
    have hitems := Fifo.tryPop_some hfst
    simp only [hpop] at hturn hrings hitems ⊢
    obtain ⟨htracks, hothers, hempty⟩ := Tracks.drainRing fuel hturn
    refine ⟨htracks, fun m hne => ?_, fun hlen => hempty ?_⟩
    · rw [hothers m hne, hrings, update_of_ne hne]
    · rw [hrings, update_self]
      rw [hitems, List.length_cons] at hlen
      omega

/-- A pass of the composer keeps track and leaves every ring empty. -/
theorem Tracks.fillRingsApply (h : Tracks sink tradeLog books sent r) :
    Tracks sink tradeLog books sent (fillRingsApply sink tradeLog r) ∧
      ∀ n, ((FillRings.fillRingsApply sink tradeLog r).fillRings n).items = [] := by
  have hloop : ∀ (ns : List NodeIdx) {r : FillRings cap σ}, Tracks sink tradeLog books sent r →
      Tracks sink tradeLog books sent (ns.foldl (drainNode sink tradeLog) r) ∧
        ∀ n, n ∈ ns ∨ (r.fillRings n).items = [] → ((ns.foldl (drainNode sink tradeLog) r).fillRings n).items =
          [] := by
    intro ns
    induction ns with
    | nil => exact fun h => ⟨h, fun n hn => hn.resolve_left List.not_mem_nil⟩
    | cons m ns ih =>
      intro r h
      obtain ⟨htracks, hothers, hempty⟩ := Tracks.drainRing (n := m) (r.fillRings m).items.length h
      obtain ⟨htracks', hempty'⟩ := ih htracks
      refine ⟨htracks', fun n hn => hempty' n ?_⟩
      rcases eq_or_ne n m with rfl | hne
      · exact .inr (hempty le_rfl)
      · rw [List.mem_cons] at hn
        exact hn.imp (fun hmem => hmem.resolve_left hne) fun hnil => (congrArg Fifo.items (hothers n hne)).trans hnil
  have hdrained := hloop (List.finRange 16) h
  unfold FillRings.fillRingsApply
  generalize (List.finRange 16).foldl (drainNode sink tradeLog) r = r' at hdrained ⊢
  obtain ⟨⟨hpaired, effects, hplayed, hemitted⟩, hempty⟩ := hdrained
  refine ⟨⟨⟨hpaired.lengths, hpaired.node⟩, effects ++ [.funnels], ?_, fun n => ?_⟩, fun n =>
    hempty n (.inl (List.mem_finRange n))⟩
  · rw [List.foldl_append, ← hplayed]
    rfl
  · rw [hemitted n, played, played, List.filterMap_append]
    simp [Effect.leg, waiting]

/-! ### Emitting -/

/-- An event goes in, at once or after a pass has made room. -/
theorem fillEmit_spec [NeZero cap] (h : Tracks sink tradeLog books sent r) (fe : FillEvent) :
    (fillEmit sink tradeLog r fe).1 = true ∧ ∃ r' ring, Tracks sink tradeLog books sent r' ∧
      (fillEmit sink tradeLog r fe).2 = { r' with fillRings := update r'.fillRings fe.node ring } ∧
      (r'.fillRings fe.node).items.length < cap ∧ ring.items = (r'.fillRings fe.node).items ++ [fe] := by
  have hroom : ∀ {ring : Fifo FillEvent cap}, (ring.tryPush fe).1 = true → ring.items.length < cap := by
    intro ring hok
    simpa [Fifo.tryPush_fst, Fifo.isFull] using hok
  unfold fillEmit
  rcases hpush : (r.fillRings fe.node).tryPush fe with ⟨_ | _, ring⟩
  · have hcounted : Tracks sink tradeLog books sent { r with fillRingFullEvents := r.fillRingFullEvents + 1 } :=
      ⟨⟨h.paired.lengths, h.paired.node⟩, h.effects⟩
    obtain ⟨htracks, hempty⟩ := hcounted.fillRingsApply
    have hok : (((FillRings.fillRingsApply sink tradeLog { r with fillRingFullEvents := r.fillRingFullEvents + 1 }).fillRings
        fe.node).tryPush fe).1 = true := by
      simp [Fifo.tryPush_fst, Fifo.isFull, hempty, NeZero.ne cap]
    exact ⟨hok, _, _, htracks, rfl, hroom hok, Fifo.tryPush_items_of_ok hok⟩
  · have hok : ((r.fillRings fe.node).tryPush fe).1 = true := congrArg Prod.fst hpush
    refine ⟨rfl, r, ring, h, rfl, hroom hok, ?_⟩
    have hitems := Fifo.tryPush_items_of_ok hok
    rwa [hpush] at hitems

/-- A leg of node `n`, as far as records are kept. -/
def Emission.leg {c : OmsConfig} (e : Emission c) (tradeLog : Bool) : Leg :=
  (e.fe, if tradeLog then some e.record else none)

theorem Tracks.emit [NeZero cap] {c : OmsConfig} (h : Tracks sink tradeLog books sent r) (e : Emission c) :
    Tracks sink tradeLog books (fun n => sent n ++ if e.fe.node = n then [e.leg tradeLog] else [])
      (step sink tradeLog r (.emit e)) := by
  obtain ⟨-, r', ring, ⟨hpaired, effects, hplayed, hemitted⟩, hemit, hroom, hring⟩ := fillEmit_spec h e.fe
  have hnode : ∀ m, ∀ fe ∈ ((update r'.fillRings e.fe.node ring) m).items, fe.node = m := by
    intro m fe hfe
    rcases eq_or_ne m e.fe.node with rfl | hne
    · rw [update_self, hring] at hfe
      rcases List.mem_append.1 hfe with hold | hnew
      · exact hpaired.node _ fe hold
      · rw [List.mem_singleton.1 hnew]
    · rw [update_of_ne hne] at hfe
      exact hpaired.node m fe hfe
  have hwaiting : ∀ {r'' : FillRings cap σ}, r''.books = r'.books →
      (∀ m, waiting tradeLog r'' m = waiting tradeLog r' m ++ if e.fe.node = m then [e.leg tradeLog] else []) →
      ∃ effects, r''.books = effects.foldl (play sink) books ∧
        ∀ m, sent m ++ (if e.fe.node = m then [e.leg tradeLog] else []) =
          played m effects ++ waiting tradeLog r'' m := by
    intro r'' hbooks hwait
    refine ⟨effects, hbooks.trans hplayed, fun m => ?_⟩
    rw [hemitted m, hwait m, List.append_assoc]
  rw [step, hemit, emitRecord, ← e.node]
  cases tradeLog with
  | false =>
    refine ⟨⟨fun hfalse => absurd hfalse Bool.false_ne_true, hnode⟩, hwaiting rfl fun m => ?_⟩
    rcases eq_or_ne m e.fe.node with rfl | hne
    · simp [waiting, hring, Emission.leg]
    · simp [waiting, hne, hne.symm]
  | true =>
    have hlen := hpaired.lengths rfl e.fe.node
    have hrecords : ((r'.emitRings e.fe.node).tryPush e.record).2.items =
      (r'.emitRings e.fe.node).items ++ [e.record] := by
      refine Fifo.tryPush_items_of_ok ?_
      simp [Fifo.tryPush_fst, Fifo.isFull, hlen, hroom]
    refine ⟨⟨fun _ m => ?_, hnode⟩, hwaiting rfl fun m => ?_⟩
    · rcases eq_or_ne m e.fe.node with rfl | hne
      · simp [hring, hrecords, hlen]
      · simpa [hne] using hpaired.lengths rfl m
    · rcases eq_or_ne m e.fe.node with rfl | hne
      · have hzip : ((r'.fillRings e.fe.node).items ++ [e.fe]).zip
            ((r'.emitRings e.fe.node).items.map some ++ [some e.record]) =
              (r'.fillRings e.fe.node).items.zip ((r'.emitRings e.fe.node).items.map some) ++
                [(e.fe, some e.record)] :=
          List.zip_append (by simp [hlen])
        simp [waiting, hring, hrecords, Emission.leg, hzip]
      · simp [waiting, hne, hne.symm]

/-! ### Every schedule -/

theorem tracks_init (sink : Sink σ) (tradeLog : Bool) (books : σ) :
    Tracks sink tradeLog books (fun _ => []) (init books : FillRings cap σ) := by
  refine ⟨⟨fun _ _ => rfl, fun _ _ hfe => absurd hfe List.not_mem_nil⟩, [], rfl, fun n => ?_⟩
  cases tradeLog <;> rfl

theorem emitted_cons_emit {c : OmsConfig} (n : NodeIdx) (e : Emission c) (as : List (Act c)) :
    emitted tradeLog n (.emit e :: as) = (if e.fe.node = n then [e.leg tradeLog] else []) ++
      emitted tradeLog n as := by
  by_cases hn : e.fe.node = n <;> simp [emitted, Emission.leg, hn]

theorem tracks_run [NeZero cap] {c : OmsConfig} (as : List (Act c)) (h : Tracks sink tradeLog books sent r) :
    Tracks sink tradeLog books (fun n => sent n ++ emitted tradeLog n as) (run (step sink tradeLog) r as) := by
  induction as generalizing r sent with
  | nil => simpa [emitted] using h
  | cons a as ih =>
    rw [run_cons]
    cases a with
    | apply => exact ih h.fillRingsApply.1
    | emit e => simpa only [emitted_cons_emit, ← List.append_assoc] using ih (h.emit e)

/-- Under every schedule of emissions and passes, for every capacity: the legs emitted on a node are
    those played on the books, in that order and each with its own record, and then those waiting;
    an event always goes in; and after a pass nothing waits. -/
theorem played_once [NeZero cap] (c : OmsConfig) (sink : Sink σ) (tradeLog : Bool) (books : σ) (as : List (Act c)) :
    let r := run (step sink tradeLog) (init books : FillRings cap σ) as
    (∃ effects, r.books = effects.foldl (play sink) books ∧
        ∀ n, emitted tradeLog n as = played n effects ++ waiting tradeLog r n) ∧
      (∀ fe, (fillEmit sink tradeLog r fe).1 = true) ∧
      ∀ n, waiting tradeLog (fillRingsApply sink tradeLog r) n = [] := by
  intro r
  have h : Tracks sink tradeLog books (fun n => [] ++ emitted tradeLog n as) r :=
    tracks_run as (tracks_init sink tradeLog books)
  refine ⟨?_, fun fe => (fillEmit_spec h fe).1, fun n => ?_⟩
  · obtain ⟨effects, hplayed, hemitted⟩ := h.effects
    exact ⟨effects, hplayed, fun n => (List.nil_append _).symm.trans (hemitted n)⟩
  · have hempty := h.fillRingsApply.2 n
    cases tradeLog <;> simp [waiting, hempty]

/-- An event of node 0 and its record, both numbered. -/
def sampleEmission (seq : Nat) : Emission { liveTrading := false, partialExitEnabled := false, eventLogMode := appendMode, adapter := ⟨none, none⟩, aggWired := true } where
  fe :=
    { slot := firstIdx, node := firstIdx, isSell := false, orderComplete := true, isMaker := false,
      slotFlat := false, seq
      qty := .zero, price := .zero, fee := .zero, net := .zero, notional := .zero, entryFeeLeg := .zero }
  record :=
    { fillPrice := .zero, entryPriceSnap := .zero, qty := .zero, net := .zero, fee := .zero, timestampUs := seq
      slot := firstIdx, strategyId := 0, isEntry := true }
  node := rfl

/-- Books that note each event and each record played, and each end of a pass. -/
def sampleSink : Sink (List (Nat × Nat)) where
  apply notes fe := notes ++ [(fe.seq, 0)]
  render notes record := notes ++ [(0, record.timestampUs)]
  drainFunnels notes := notes ++ [(0, 0)]

/-- The third event on rings of two slots plays the first two on the spot. -/
theorem played_once_overflow :
    let as := [.emit (sampleEmission 1), .emit (sampleEmission 2), .emit (sampleEmission 3)]
    let r := run (step sampleSink true) (init [] : FillRings 2 (List (Nat × Nat))) as
    r.books = [(1, 0), (0, 1), (2, 0), (0, 2), (0, 0)] ∧ r.fillRingFullEvents = 1 ∧
      (∃ effects, r.books = effects.foldl (play sampleSink) [] ∧
        ∀ n, emitted true n as = played n effects ++ waiting true r n) ∧
      (∀ fe, (fillEmit sampleSink true r fe).1 = true) ∧
      ∀ n, waiting true (fillRingsApply sampleSink true r) n = [] :=
  ⟨by decide +kernel, by decide +kernel, played_once _ sampleSink true [] _⟩

/-! ### A pass as one loop -/

def setFillRings (r : FillRings cap σ) (f : NodeIdx → Fifo FillEvent cap) : FillRings cap σ :=
  { r with fillRings := f }

/-- The turns of a pass, whatever ring they come from. -/
def turns (sink : Sink σ) (tradeLog : Bool) (fes : List FillEvent) (r : FillRings cap σ) : FillRings cap σ :=
  fes.foldl (fun r fe => applyFill sink tradeLog r fe.node fe) r

theorem applyFill_setFillRings (r : FillRings cap σ) (f : NodeIdx → Fifo FillEvent cap) (n : NodeIdx)
    (fe : FillEvent) :
    applyFill sink tradeLog (r.setFillRings f) n fe = (applyFill sink tradeLog r n fe).setFillRings f := by
  simp only [applyFill, emitTradeRow, setFillRings]
  cases tradeLog with
  | false => rfl
  | true => rcases hpop : (r.emitRings n).tryPop with ⟨_ | record, ring⟩ <;> rfl

theorem turns_setFillRings (f : NodeIdx → Fifo FillEvent cap) (fes : List FillEvent) (r : FillRings cap σ) :
    turns sink tradeLog fes (r.setFillRings f) = (turns sink tradeLog fes r).setFillRings f := by
  induction fes generalizing r with
  | nil => rfl
  | cons fe fes ih =>
    rw [turns, List.foldl_cons, applyFill_setFillRings]
    exact ih (applyFill sink tradeLog r fe.node fe)

theorem turns_of_empty (hempty : r.fillRings n = .empty) :
    (turns sink tradeLog (r.fillRings n).items r).setFillRings (update r.fillRings n .empty) = r := by
  have hsame : update r.fillRings n .empty = r.fillRings := by rw [← hempty, update_eq_self]
  rw [hsame, hempty]
  rfl

/-- Draining a ring is a turn for each of its events, on the emptied ring. -/
theorem drainRing_eq (fuel : Nat) {r : FillRings cap σ} (hnode : ∀ fe ∈ (r.fillRings n).items, fe.node = n)
    (hfuel : (r.fillRings n).items.length ≤ fuel) :
    drainRing sink tradeLog n fuel r =
      (turns sink tradeLog (r.fillRings n).items r).setFillRings (update r.fillRings n .empty) := by
  induction fuel generalizing r with
  | zero => exact (turns_of_empty (Fifo.ext (List.length_eq_zero_iff.1 (Nat.le_zero.1 hfuel)))).symm
  | succ fuel ih =>
    rw [drainRing]
    rcases hpop : (r.fillRings n).tryPop with ⟨_ | fe, ring⟩
    · exact (turns_of_empty (Fifo.ext (Fifo.tryPop_eq_none.1 (congrArg Prod.fst hpop)))).symm
    have hitems : (r.fillRings n).items = fe :: ring.items := by
      have := Fifo.tryPop_some (congrArg Prod.fst hpop)
      rwa [hpop] at this
    have hself : fe.node = n := hnode fe (by rw [hitems]; exact List.mem_cons_self)
    rw [hitems] at hnode hfuel ⊢
    have hring : (((applyFill sink tradeLog r n fe).setFillRings (update r.fillRings n ring)).fillRings n) =
      ring := update_self ..
    have hdrain : drainRing sink tradeLog n fuel ((applyFill sink tradeLog r n fe).setFillRings (update r.fillRings n ring)) =
        (turns sink tradeLog ring.items (applyFill sink tradeLog r n fe)).setFillRings
          (update r.fillRings n .empty) := by
      rw [ih, hring, turns_setFillRings]
      · simp only [setFillRings, update_idem]
      · intro e he
        rw [hring] at he
        exact hnode e (List.mem_cons_of_mem fe he)
      · rw [hring]
        exact Nat.le_of_succ_le_succ hfuel
    refine (congrArg (drainRing sink tradeLog n fuel) (applyFill_setFillRings r (update r.fillRings n ring) n fe)).trans ?_
    rw [hdrain, turns, turns, List.foldl_cons, hself]

theorem foldl_drainNode (ns : List NodeIdx) {r : FillRings cap σ} (hnodup : ns.Nodup)
    (hnode : ∀ n, ∀ fe ∈ (r.fillRings n).items, fe.node = n) :
    ns.foldl (drainNode sink tradeLog) r =
      (turns sink tradeLog (ns.flatMap fun n => (r.fillRings n).items) r).setFillRings
        fun n => if n ∈ ns then .empty else r.fillRings n := by
  induction ns generalizing r with
  | nil => rfl
  | cons m ns ih =>
    obtain ⟨hm, hnodup⟩ := List.nodup_cons.1 hnodup
    have hdrain : drainNode sink tradeLog r m =
        (turns sink tradeLog (r.fillRings m).items r).setFillRings (update r.fillRings m .empty) :=
      drainRing_eq _ (hnode m) le_rfl
    have hrest : (ns.flatMap fun n => (update r.fillRings m .empty n).items) = ns.flatMap fun n =>
      (r.fillRings n).items := by
      refine List.flatMap_congr fun n hn => ?_
      rw [update_of_ne]
      rintro rfl
      exact hm hn
    have hnode' : ∀ n, ∀ fe ∈ (update r.fillRings m .empty n).items, fe.node = n := by
      intro n fe hfe
      rcases eq_or_ne n m with rfl | hne
      · rw [update_self] at hfe
        exact absurd hfe List.not_mem_nil
      · rw [update_of_ne hne] at hfe
        exact hnode n fe hfe
    have hrings : (fun n => if n ∈ ns then Fifo.empty else update r.fillRings m .empty n) =
        fun n => if n ∈ m :: ns then .empty else r.fillRings n := by
      funext n
      rcases eq_or_ne n m with rfl | hne
      · simp
      · simp [hne]
    rw [List.foldl_cons, hdrain, ih hnodup hnode', turns_setFillRings]
    show ((turns sink tradeLog (ns.flatMap fun n => (update r.fillRings m .empty n).items) _).setFillRings _).setFillRings
      (fun n => if n ∈ ns then Fifo.empty else update r.fillRings m .empty n) = _
    rw [hrest, hrings, List.flatMap_cons, turns, turns, turns, List.foldl_append]
    rfl

/-- A pass is a turn for each waiting event, lane after lane, on emptied rings. -/
theorem fillRingsApply_eq (hnode : ∀ n, ∀ fe ∈ (r.fillRings n).items, fe.node = n) :
    fillRingsApply sink tradeLog r =
      let r' := (turns sink tradeLog (lanes fun n => (r.fillRings n).items) r).setFillRings fun _ => .empty
      { r' with books := sink.drainFunnels r'.books } := by
  rw [fillRingsApply, foldl_drainNode _ (List.nodup_finRange 16) hnode]
  simp only [List.mem_finRange, if_true]
  rfl

end FillRings

/-! ### The composer's rings -/

namespace Composer

variable {c : OmsConfig}

/-- What the composer does with an event and its record besides transporting them. -/
def sink (c : OmsConfig) : Sink Composer where
  apply k fe :=
    let els := (k.els.nodeRowsBook c.partialExitEnabled fe).val
    { k with
      ledger := (k.ledger.applyFill fe).val
      els := { els with agg := { els.agg with appliedSeq := update els.agg.appliedSeq fe.node fe.seq } } }
  render k record := { k with tradeLog := k.tradeLog.map (· ++ [(record, k.ledger.balance)]) }
  drainFunnels := eventFunnelDrain

/-- The composer whose books are `r`'s and whose rings are `r`'s. -/
def ofRings (r : FillRings fillEventRingSize Composer) : Composer :=
  { r.books with
    els := { r.books.els with
      agg := { r.books.els.agg with
        fillRings := r.fillRings, emitRings := r.emitRings, fillRingFullEvents := r.fillRingFullEvents } } }

end Composer

/-- The rows with other rings. -/
def EventLoopState.withRings (st : EventLoopState) (r : FillRings fillEventRingSize Composer) : EventLoopState :=
  { st with agg := { st.agg with fillRings := r.fillRings, emitRings := r.emitRings, fillRingFullEvents := r.fillRingFullEvents } }

theorem EventLoopState.nodeRowsBook_withRings (partialOn : Bool) (st : EventLoopState)
    (r : FillRings fillEventRingSize Composer)
    (fe : FillEvent) :
    ((st.withRings r).nodeRowsBook partialOn fe).val = ((st.nodeRowsBook partialOn fe).val).withRings r := by
  have hconclude : ∀ st' : EventLoopState, ((st'.withRings r).concludeTrade partialOn fe.slot fe.node).val =
      ((st'.concludeTrade partialOn fe.slot fe.node).val).withRings r := by
    intro st'
    unfold concludeTrade
    split
    · rfl
    · show (if st'.partnerPendingBitmap fe.node = true then _ else _ : Flagged 64 EventLoopState).val = _
      split <;> rfl
  unfold nodeRowsBook
  split
  · rfl
  · rw [Flagged.bind_val, Flagged.bind_val]
    split
    · exact hconclude (st.bookSell fe).val
    · rfl

namespace Composer

variable {c : OmsConfig}

/-- One event of the composer's loop is one turn on its rings. -/
theorem applyFill_ofRings (r : FillRings fillEventRingSize Composer) (fe : FillEvent) :
    ((ofRings r).applyFill c fe).val = ofRings (r.applyFill (sink c) r.books.tradeLog.isSome fe.node fe) := by
  have hrows : ((ofRings r).els.nodeRowsBook c.partialExitEnabled fe).val =
      (r.books.els.nodeRowsBook c.partialExitEnabled fe).val.withRings r :=
    EventLoopState.nodeRowsBook_withRings c.partialExitEnabled r.books.els r fe
  simp only [applyFill, Flagged.bind_val, Flagged.pure_val, hrows, FillRings.applyFill, FillRings.emitTradeRow]
  have hlog : (ofRings r).tradeLog = r.books.tradeLog := rfl
  have hledger : (ofRings r).ledger = r.books.ledger := rfl
  unfold emitTradeRow
  cases htl : r.books.tradeLog with
  | none =>
    simp only [hlog, htl, Option.isSome_none, Bool.false_eq_true, if_false]
    simp [ofRings, sink, EventLoopState.withRings, htl]
  | some rows =>
    simp only [hlog, hledger, htl, Option.isSome_some, if_true]
    rcases hpop : (r.emitRings fe.node).tryPop with ⟨_ | record, ring⟩
    all_goals
      simp only [EventLoopState.withRings, hpop]
      simp [ofRings, sink, htl]

theorem applyFill_tradeLog (r : FillRings fillEventRingSize Composer) (n : NodeIdx) (fe : FillEvent) :
    (r.applyFill (sink c) r.books.tradeLog.isSome n fe).books.tradeLog.isSome = r.books.tradeLog.isSome := by
  unfold FillRings.applyFill FillRings.emitTradeRow
  split
  · split
    · rfl
    · simp [sink]
  · rfl

theorem foldlM_ofRings (fes : List FillEvent) (r : FillRings fillEventRingSize Composer) :
    (fes.foldlM (applyFill c) (ofRings r)).val =
      ofRings (FillRings.turns (sink c) r.books.tradeLog.isSome fes r) := by
  induction fes generalizing r with
  | nil => rfl
  | cons fe fes ih =>
    rw [List.foldlM_cons, Flagged.bind_val, applyFill_ofRings, ih, applyFill_tradeLog, FillRings.turns,
      FillRings.turns, List.foldl_cons]

/-- The composer's pass is the loop over its rings. -/
theorem fillRingsApply_ofRings {r : FillRings fillEventRingSize Composer}
    (hnode : ∀ n, ∀ fe ∈ (r.fillRings n).items, fe.node = n) :
    ((ofRings r).fillRingsApply c).val = ofRings (r.fillRingsApply (sink c) r.books.tradeLog.isSome) := by
  have hclear : (ofRings r).clearFillRings = ofRings (r.setFillRings fun _ => .empty) := rfl
  have hpending : (ofRings r).pendingFills = lanes fun n => (r.fillRings n).items := rfl
  rw [FillRings.fillRingsApply_eq hnode]
  simp only [fillRingsApply, Flagged.bind_val, Flagged.pure_val, hclear, hpending, foldlM_ofRings]
  rw [FillRings.turns_setFillRings]
  rfl

/-- A leg's event reaches the composer's rings as it does these. -/
theorem fillEmit_ofRings (hwired : c.aggWired = true) {r : FillRings fillEventRingSize Composer}
    (hnode : ∀ n, ∀ fe ∈ (r.fillRings n).items, fe.node = n) (fe : FillEvent) :
    ((ofRings r).fillEmit c fe).val = ofRings (r.fillEmit (sink c) r.books.tradeLog.isSome fe).2 := by
  have hring : (ofRings r).els.agg.fillRings = r.fillRings := rfl
  simp only [fillEmit, FillRings.fillEmit, hwired, Bool.not_true, Bool.false_eq_true, if_false, hring]
  rcases hpush : (r.fillRings fe.node).tryPush fe with ⟨_ | _, ring⟩
  · have hcount : (ofRings r).countFillRingFull =
      ofRings { r with fillRingFullEvents := r.fillRingFullEvents + 1 } := rfl
    simp only [Flagged.bind_val, Flagged.pure_val, hcount]
    have happlied :=
      fillRingsApply_ofRings (c := c) (r := { r with fillRingFullEvents := r.fillRingFullEvents + 1 }) hnode
    rw [happlied]
    generalize FillRings.fillRingsApply (sink c) _ _ = r'
    rfl
  · rfl

theorem emitRecord_ofRings (hwired : c.aggWired = true) (r : FillRings fillEventRingSize Composer)
    (record : EmitRecord) :
    (ofRings r).emitRecord c record =
      ofRings (r.emitRecord r.books.tradeLog.isSome (c.slotNode record.slot) record) := by
  have hlog : (ofRings r).tradeLog = r.books.tradeLog := rfl
  unfold emitRecord FillRings.emitRecord
  cases htl : r.books.tradeLog with
  | none => simp only [hlog, htl, Option.isSome_none, Bool.false_eq_true, if_false]
  | some rows =>
    simp only [hlog, htl, hwired, Option.isSome_some, Bool.not_true, Bool.false_eq_true, if_false, if_true]
    simp [ofRings, htl]

end Composer

end FoxTrader
