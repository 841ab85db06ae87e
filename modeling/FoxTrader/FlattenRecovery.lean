import FoxTrader.Portfolio
import FoxTrader.Lib.Run

/-! # The emergency flatten and its recovery window

    Any slow-path thread that finds the feed stale tries to set `flatten_pending`; the one whose CAS
    wins stores the deadline of the recovery window and then calls `EventLoop_FlattenAll`. Any thread
    that finds the deadline behind its clock tries to set it back to 0, and the one whose CAS wins
    clears the flag. One turn is one atomic step of one thread.

    What happens is a cycle (`Phase`): a win, a clear whose clock is at or past the win's deadline, the
    flag's store. The call itself comes behind the deadline's store, so a winner that is held up there
    may call after its window has ended, and after the call of the next winner. -/

namespace FoxTrader

open Lib Function

/-- The clock, in microseconds, as `std::chrono` counts it. -/
abbrev clockBound : Nat := 2 ^ 63

/-- What the two functions read of the configuration, as the loader clamps it. -/
structure FlattenConfig where
  wsFlattenActive : Bool
  thresholdSecs : Nat
  recoveryDelaySecs : Nat
  threshold_range : 1 ≤ thresholdSecs ∧ thresholdSecs ≤ 3600
  delay_range : recoveryDelaySecs ≤ 86400

/-- Where a thread stands between two atomic steps. -/
inductive RecoveryPc where
  | idle
  /-- The feed is stale by the thread's clock; the CAS on `flatten_pending` is next. -/
  | stale (nowUs : Nat)
  /-- The CAS is won; the deadline's store is next. -/
  | won (deadlineUs : Nat)
  /-- The deadline is stored; the call of `EventLoop_FlattenAll` is next. -/
  | stored (deadlineUs : Nat)
  /-- The deadline read is behind the thread's clock; the CAS on it is next. -/
  | expired (untilUs nowUs : Nat)
  /-- The deadline is cleared; the flag's store is next. -/
  | cleared

/-- The thread has won a CAS and not made the store that follows it. -/
def RecoveryPc.between : RecoveryPc → Bool
  | .won _ | .cleared => true
  | _ => false

/-- A thread enters one of the functions with its clock, or makes its next step. -/
inductive RecoveryAct where
  | checkWsStaleness (lastTickUs nowUs : Nat)
  | tryClearRecovery (nowUs : Nat)
  | go

def RecoveryAct.nowUs : RecoveryAct → Nat
  | .checkWsStaleness _ nowUs => nowUs
  | .tryClearRecovery nowUs => nowUs
  | .go => 0

/-- What others can tell from the steps: the two CAS that were won, the flag's store, the call. -/
inductive RecoveryEvent where
  | win (n : NodeIdx) (deadlineUs : Nat)
  | flattenAll (n : NodeIdx) (deadlineUs : Nat)
  | clear (n : NodeIdx) (nowUs : Nat)
  | resume (n : NodeIdx)
  deriving DecidableEq

structure RecoveryState where
  flattenPending : Bool
  recoveryUntilUs : Nat
  pc : NodeIdx → RecoveryPc

namespace RecoveryState

def init : RecoveryState := { flattenPending := false, recoveryUntilUs := 0, pc := fun _ => .idle }

def goto (s : RecoveryState) (n : NodeIdx) (pc : RecoveryPc) : RecoveryState := { s with pc := update s.pc n pc }

/-- The checks of `EventLoop_CheckWsStaleness` ahead of its CAS. -/
def isStale (cfg : FlattenConfig) (lastTickUs nowUs : Nat) : Bool :=
  let gapUs := if nowUs > lastTickUs then nowUs - lastTickUs else 0
  cfg.wsFlattenActive && lastTickUs != 0 && gapUs ≥ cfg.thresholdSecs * 1000000

def deadline (cfg : FlattenConfig) (nowUs : Nat) : Nat := (nowUs + cfg.recoveryDelaySecs * 1000000) % 2 ^ 64

/-- `EventLoop_CheckWsStaleness` and `EventLoop_TryClearRecovery`, an atomic step at a time. -/
def turn (cfg : FlattenConfig) (s : RecoveryState) (n : NodeIdx) (act : RecoveryAct) :
    RecoveryState × List RecoveryEvent :=
  match s.pc n, act with
  | .idle, .checkWsStaleness lastTickUs nowUs =>
    (if isStale cfg lastTickUs nowUs then s.goto n (.stale nowUs) else s, [])
  | .idle, .tryClearRecovery nowUs =>
    (if s.recoveryUntilUs = 0 then s
      else if nowUs < s.recoveryUntilUs then s else s.goto n (.expired s.recoveryUntilUs nowUs), [])
  | .stale nowUs, .go =>
    if s.flattenPending then (s.goto n .idle, [])
    else ({ s with flattenPending := true }.goto n (.won (deadline cfg nowUs)), [.win n (deadline cfg nowUs)])
  | .won deadlineUs, .go => ({ s with recoveryUntilUs := deadlineUs }.goto n (.stored deadlineUs), [])
  | .stored deadlineUs, .go => (s.goto n .idle, [.flattenAll n deadlineUs])
  | .expired untilUs nowUs, .go =>
    if s.recoveryUntilUs = untilUs then ({ s with recoveryUntilUs := 0 }.goto n .cleared, [.clear n nowUs])
    else (s.goto n .idle, [])
  | .cleared, .go => ({ s with flattenPending := false }.goto n .idle, [.resume n])
  | _, _ => (s, [])

def step (cfg : FlattenConfig) (s : RecoveryState) (a : NodeIdx × RecoveryAct) : RecoveryState :=
  (s.turn cfg a.1 a.2).1

def events (cfg : FlattenConfig) (s : RecoveryState) (a : NodeIdx × RecoveryAct) : List RecoveryEvent :=
  (s.turn cfg a.1 a.2).2

end RecoveryState

/-! ### The cycle -/

/-- Where the recovery stands. -/
inductive Phase where
  | flat
  | held (deadlineUs : Nat)
  | clearing
  deriving DecidableEq

namespace Phase

/-- What may happen in a phase, and the phase it leads to. -/
def next : Phase → RecoveryEvent → Option Phase
  | ph, .flattenAll .. => some ph
  | .flat, .win _ deadlineUs => some (.held deadlineUs)
  | .held deadlineUs, .clear _ nowUs => if deadlineUs ≤ nowUs then some .clearing else none
  | .clearing, .resume _ => some .flat
  | _, _ => none

/-- The phase after the events, if each of them may happen. -/
def after (ph : Phase) : List RecoveryEvent → Option Phase
  | [] => some ph
  | e :: es => (ph.next e).bind fun ph => ph.after es

theorem after_append (ph : Phase) (es fs : List RecoveryEvent) :
    ph.after (es ++ fs) = (ph.after es).bind fun ph => ph.after fs := by
  induction es generalizing ph with
  | nil => rfl
  | cons e es ih =>
    rw [List.cons_append, after, after]
    cases ph.next e with
    | none => rfl
    | some ph' => exact ih ph'

/-- Before the next win there is a clear past the deadline. -/
theorem clear_of_win {deadlineUs deadlineUs' : Nat} {n : NodeIdx} (mid post : List RecoveryEvent)
    (h : (held deadlineUs).after (mid ++ .win n deadlineUs' :: post) ≠ none) :
    ∃ m nowUs, .clear m nowUs ∈ mid ∧ deadlineUs ≤ nowUs := by
  induction mid with
  | nil => exact absurd rfl h
  | cons e mid ih =>
    cases e with
    | win m d => exact absurd rfl h
    | resume m => exact absurd rfl h
    | flattenAll m d =>
      obtain ⟨m', nowUs, hmem, hle⟩ := ih h
      exact ⟨m', nowUs, List.mem_cons_of_mem _ hmem, hle⟩
    | clear m nowUs =>
      refine ⟨m, nowUs, List.mem_cons_self, ?_⟩
      by_contra hlt
      refine h ?_
      rw [List.cons_append, after, next, if_neg hlt]
      rfl

end Phase

/-! ### The invariant -/

/-- What a thread has seen: a clock that runs, and a deadline behind it. -/
def RecoveryPc.Seen : RecoveryPc → Prop
  | .stale nowUs => 0 < nowUs ∧ nowUs < clockBound
  | .expired untilUs nowUs => 0 < untilUs ∧ untilUs ≤ nowUs
  | _ => True

namespace RecoveryState

/-- No thread is between a CAS it has won and its store. -/
def Nobody (s : RecoveryState) : Prop := ∀ n, (s.pc n).between = false

/-- Only the thread `n` may be. -/
def Only (s : RecoveryState) (n : NodeIdx) : Prop := ∀ m, m ≠ n → (s.pc m).between = false

/-- What the shared words and the threads are in a phase. -/
def Stands (s : RecoveryState) : Phase → Prop
  | .flat => s.flattenPending = false ∧ s.recoveryUntilUs = 0 ∧ s.Nobody
  | .held deadlineUs => s.flattenPending = true ∧ 0 < deadlineUs ∧
      (s.recoveryUntilUs = deadlineUs ∧ s.Nobody ∨
        s.recoveryUntilUs = 0 ∧ ∃ n, s.pc n = .won deadlineUs ∧ s.Only n)
  | .clearing => s.flattenPending = true ∧ s.recoveryUntilUs = 0 ∧ ∃ n, s.pc n = .cleared ∧ s.Only n

variable {cfg : FlattenConfig} {s : RecoveryState} {n : NodeIdx} {pc : RecoveryPc} {ph : Phase}

theorem Nobody.goto (h : s.Nobody) (hpc : pc.between = false) : (s.goto n pc).Nobody := by
  intro m
  rcases eq_or_ne m n with rfl | hne
  · simpa only [RecoveryState.goto, update_self] using hpc
  · simpa only [RecoveryState.goto, update_of_ne hne] using h m

theorem Only.goto (h : s.Only n) : (s.goto n pc).Only n := by
  intro m hne
  simpa only [RecoveryState.goto, update_of_ne hne] using h m hne

theorem Only.goto_of_ne {m : NodeIdx} (h : s.Only n) (hpc : pc.between = false) : (s.goto m pc).Only n := by
  intro i hi
  rcases eq_or_ne i m with rfl | hne
  · simpa only [RecoveryState.goto, update_self] using hpc
  · simpa only [RecoveryState.goto, update_of_ne hne] using h i hi

theorem Nobody.only (h : s.Nobody) : s.Only n := fun m _ => h m

/-- The last one between is through. -/
theorem Only.nobody (h : s.Only n) (hpc : pc.between = false) : (s.goto n pc).Nobody := by
  intro m
  rcases eq_or_ne m n with rfl | hne
  · simpa only [RecoveryState.goto, update_self] using hpc
  · simpa only [RecoveryState.goto, update_of_ne hne] using h m hne

/-- A thread that goes from one place to another, neither of them between, leaves the phase as it is. -/
theorem Stands.goto (h : s.Stands ph) (hfrom : (s.pc n).between = false) (hto : pc.between = false) :
    (s.goto n pc).Stands ph := by
  have hother : ∀ {m q}, q.between = true → s.pc m = q → (s.goto n pc).pc m = q := by
    intro m q hq hm
    have hne : m ≠ n := by
      rintro rfl
      rw [hm, hq] at hfrom
      exact Bool.false_ne_true hfrom.symm
    rw [← hm]
    exact update_of_ne hne ..
  cases ph with
  | flat => exact ⟨h.1, h.2.1, h.2.2.goto hto⟩
  | held deadlineUs =>
    obtain ⟨hpending, hpos, ⟨huntil, hnobody⟩ | ⟨huntil, m, hm, honly⟩⟩ := h
    · exact ⟨hpending, hpos, .inl ⟨huntil, hnobody.goto hto⟩⟩
    · exact ⟨hpending, hpos, .inr ⟨huntil, m, hother rfl hm, honly.goto_of_ne hto⟩⟩
  | clearing =>
    obtain ⟨hpending, huntil, m, hm, honly⟩ := h
    exact ⟨hpending, huntil, m, hother rfl hm, honly.goto_of_ne hto⟩

/-- The recovery is in a phase, and every thread knows what it has seen. -/
structure Recovering (s : RecoveryState) (ph : Phase) : Prop where
  stands : s.Stands ph
  seen : ∀ n, (s.pc n).Seen

theorem seen_goto (h : ∀ n, (s.pc n).Seen) (hpc : pc.Seen) (m : NodeIdx) : ((s.goto n pc).pc m).Seen := by
  rcases eq_or_ne m n with rfl | hne
  · simpa only [goto, update_self] using hpc
  · simpa only [goto, update_of_ne hne] using h m

theorem Recovering.goto (h : s.Recovering ph) (hfrom : (s.pc n).between = false) (hto : pc.between = false)
    (hpc : pc.Seen) :
    (s.goto n pc).Recovering ph :=
  ⟨h.stands.goto hfrom hto, seen_goto h.seen hpc⟩

/-- A stale feed by a clock that runs is a clock past 0. -/
theorem pos_of_isStale {lastTickUs nowUs : Nat} (h : isStale cfg lastTickUs nowUs = true) : 0 < nowUs := by
  have hthreshold := cfg.threshold_range.1
  simp only [isStale, Bool.and_eq_true, decide_eq_true_eq] at h
  obtain ⟨-, hgap⟩ := h
  split at hgap <;> omega

/-- The deadline of a clock that runs does not wrap. -/
theorem deadline_pos {nowUs : Nat} (hpos : 0 < nowUs) (hbound : nowUs < clockBound) : 0 < deadline cfg nowUs := by
  have hdelay := cfg.delay_range
  rw [clockBound] at hbound
  rw [deadline, Nat.mod_eq_of_lt (by omega)]
  omega

/-- The CAS on the flag is won: the recovery was flat. -/
theorem Recovering.win (cfg : FlattenConfig) {nowUs : Nat} (h : s.Recovering ph) (hpc : s.pc n = .stale nowUs)
    (hclear : s.flattenPending = false) :
    ph = .flat ∧ ({ s with flattenPending := true }.goto n (.won (deadline cfg nowUs))).Recovering
      (.held (deadline cfg nowUs)) := by
  obtain ⟨hstands, hseen⟩ := h
  have hnow : (RecoveryPc.stale nowUs).Seen := hpc ▸ hseen n
  cases ph with
  | held d => exact absurd (hclear.symm.trans hstands.1) Bool.false_ne_true
  | clearing => exact absurd (hclear.symm.trans hstands.1) Bool.false_ne_true
  | flat =>
    obtain ⟨-, huntil, hnobody⟩ := hstands
    refine ⟨rfl, ⟨rfl, deadline_pos hnow.1 hnow.2, .inr ⟨huntil, n, update_self .., ?_⟩⟩, ?_⟩
    · exact Only.goto (s := { s with flattenPending := true }) hnobody.only
    · exact seen_goto (s := { s with flattenPending := true }) hseen trivial

/-- A thread between its CAS and its store is the only one, and says which phase it is. -/
theorem Recovering.phase_of_between (h : s.Recovering ph) (hpc : (s.pc n).between = true) :
    (∃ deadlineUs, s.pc n = .won deadlineUs ∧ ph = .held deadlineUs ∨ s.pc n = .cleared ∧ ph = .clearing) ∧
      s.Only n := by
  have hsame : ∀ {m}, s.Only m → m = n := by
    intro m honly
    by_contra hne
    exact Bool.false_ne_true ((honly n (Ne.symm hne)).symm.trans hpc)
  cases ph with
  | flat => exact absurd ((h.stands.2.2 n).symm.trans hpc) Bool.false_ne_true
  | held deadlineUs =>
    obtain ⟨-, -, ⟨-, hnobody⟩ | ⟨-, m, hm, honly⟩⟩ := h.stands
    · exact absurd ((hnobody n).symm.trans hpc) Bool.false_ne_true
    · obtain rfl := hsame honly
      exact ⟨⟨deadlineUs, .inl ⟨hm, rfl⟩⟩, honly⟩
  | clearing =>
    obtain ⟨-, -, m, hm, honly⟩ := h.stands
    obtain rfl := hsame honly
    exact ⟨⟨0, .inr ⟨hm, rfl⟩⟩, honly⟩

/-- The deadline's store opens the window. -/
theorem Recovering.store {deadlineUs : Nat} (h : s.Recovering ph) (hpc : s.pc n = .won deadlineUs) :
    ({ s with recoveryUntilUs := deadlineUs }.goto n (.stored deadlineUs)).Recovering ph := by
  obtain ⟨⟨d, ⟨hwon, rfl⟩ | ⟨hcleared, -⟩⟩, honly⟩ := h.phase_of_between (by rw [hpc]; rfl)
  · obtain rfl : deadlineUs = d := by
      rw [hpc] at hwon
      exact RecoveryPc.won.inj hwon
    obtain ⟨hpending, hpos, -⟩ := h.stands
    refine ⟨⟨hpending, hpos, .inl ⟨rfl, ?_⟩⟩, ?_⟩
    · exact Only.nobody (s := { s with recoveryUntilUs := deadlineUs }) honly rfl
    · exact seen_goto (s := { s with recoveryUntilUs := deadlineUs }) h.seen trivial
  · exact absurd (hpc.symm.trans hcleared) RecoveryPc.noConfusion

/-- The CAS on the deadline is won: the window was open and is past its deadline. -/
theorem Recovering.clear {nowUs : Nat} (h : s.Recovering ph) (hpc : s.pc n = .expired s.recoveryUntilUs nowUs) :
    ph = .held s.recoveryUntilUs ∧ s.recoveryUntilUs ≤ nowUs ∧
      ({ s with recoveryUntilUs := 0 }.goto n .cleared).Recovering .clearing := by
  have hexpired : (RecoveryPc.expired s.recoveryUntilUs nowUs).Seen := hpc ▸ h.seen n
  obtain ⟨hpos, hle⟩ := hexpired
  cases ph with
  | flat => exact absurd h.stands.2.1 (Nat.ne_of_gt hpos)
  | clearing => exact absurd h.stands.2.1 (Nat.ne_of_gt hpos)
  | held deadlineUs =>
    obtain ⟨hpending, -, ⟨huntil, hnobody⟩ | ⟨huntil, -⟩⟩ := h.stands
    · refine ⟨by rw [huntil], hle, ⟨hpending, rfl, n, update_self .., ?_⟩, ?_⟩
      · exact Only.goto (s := { s with recoveryUntilUs := 0 }) hnobody.only
      · exact seen_goto (s := { s with recoveryUntilUs := 0 }) h.seen trivial
    · exact absurd huntil (Nat.ne_of_gt hpos)

/-- The flag's store ends the recovery. -/
theorem Recovering.resume (h : s.Recovering ph) (hpc : s.pc n = .cleared) :
    ph = .clearing ∧ ({ s with flattenPending := false }.goto n .idle).Recovering .flat := by
  obtain ⟨⟨d, ⟨hwon, -⟩ | ⟨-, rfl⟩⟩, honly⟩ := h.phase_of_between (by rw [hpc]; rfl)
  · exact absurd (hpc.symm.trans hwon) RecoveryPc.noConfusion
  · refine ⟨rfl, ⟨rfl, h.stands.2.1, ?_⟩, ?_⟩
    · exact Only.nobody (s := { s with flattenPending := false }) honly rfl
    · exact seen_goto (s := { s with flattenPending := false }) h.seen trivial

/-- A step makes only what may happen in its phase, and leads to the phase of that. -/
theorem Recovering.turn (cfg : FlattenConfig) (h : s.Recovering ph) (n : NodeIdx) (act : RecoveryAct)
    (hclock : act.nowUs < clockBound) :
    ∃ ph', ph.after (s.turn cfg n act).2 = some ph' ∧ (s.turn cfg n act).1.Recovering ph' := by
  unfold RecoveryState.turn
  split
  next lastTickUs nowUs hpc =>
    refine ⟨ph, rfl, ?_⟩
    dsimp only
    split
    next hstale => exact h.goto (by rw [hpc]; rfl) rfl ⟨pos_of_isStale hstale, hclock⟩
    next => exact h
  next nowUs hpc =>
    refine ⟨ph, rfl, ?_⟩
    dsimp only
    split
    next => exact h
    next hactive =>
      split
      next => exact h
      next hexpired => exact h.goto (by rw [hpc]; rfl) rfl ⟨Nat.pos_of_ne_zero hactive, Nat.le_of_not_lt hexpired⟩
  next nowUs hpc =>
    split
    next => exact ⟨ph, rfl, h.goto (by rw [hpc]; rfl) rfl trivial⟩
    next hclear =>
      obtain ⟨rfl, hheld⟩ := h.win cfg hpc (eq_false_of_ne_true hclear)
      exact ⟨_, rfl, hheld⟩
  next deadlineUs hpc => exact ⟨ph, rfl, h.store hpc⟩
  next deadlineUs hpc => exact ⟨ph, rfl, h.goto (by rw [hpc]; rfl) rfl trivial⟩
  next untilUs nowUs hpc =>
    split
    next huntil =>
      subst huntil
      obtain ⟨rfl, hle, hclearing⟩ := h.clear hpc
      refine ⟨.clearing, ?_, hclearing⟩
      rw [Phase.after, Phase.next, if_pos hle]
      rfl
    next => exact ⟨ph, rfl, h.goto (by rw [hpc]; rfl) rfl trivial⟩
  next hpc =>
    obtain ⟨rfl, hflat⟩ := h.resume hpc
    exact ⟨.flat, rfl, hflat⟩
  next => exact ⟨ph, rfl, h⟩

theorem recovering_init : init.Recovering .flat := ⟨⟨rfl, rfl, fun _ => rfl⟩, fun _ => trivial⟩

/-! ### Runs -/

def isWin (n : NodeIdx) : RecoveryEvent → Bool
  | .win m _ => m = n
  | _ => false

def isCall (n : NodeIdx) : RecoveryEvent → Bool
  | .flattenAll m _ => m = n
  | _ => false

/-- The thread has won a flatten and not called for it yet. -/
def owesCall : RecoveryPc → Bool
  | .won _ | .stored _ => true
  | _ => false

/-- A step moves one thread, and what it wins and calls is its own. -/
theorem turn_calls (cfg : FlattenConfig) (s : RecoveryState) (n : NodeIdx) (act : RecoveryAct) :
    ∃ pc, (s.turn cfg n act).1.pc = update s.pc n pc ∧
      (owesCall (s.pc n)).toNat + (s.turn cfg n act).2.countP (isWin n) =
        (s.turn cfg n act).2.countP (isCall n) + (owesCall pc).toNat ∧
      ∀ m, m ≠ n → (s.turn cfg n act).2.countP (isWin m) = 0 ∧ (s.turn cfg n act).2.countP (isCall m) = 0 := by
  have hstay : s.pc = update s.pc n (s.pc n) := (update_eq_self n s.pc).symm
  have hquiet : ∀ m, m ≠ n → ([] : List RecoveryEvent).countP (isWin m) = 0 ∧
    ([] : List RecoveryEvent).countP (isCall m) = 0 :=
    fun _ _ => ⟨rfl, rfl⟩
  unfold turn
  split
  next lastTickUs nowUs hpc =>
    dsimp only
    split
    · exact ⟨.stale nowUs, rfl, by rw [hpc]; rfl, hquiet⟩
    · exact ⟨_, hstay, Nat.add_comm .., hquiet⟩
  next nowUs hpc =>
    dsimp only
    split
    · exact ⟨_, hstay, Nat.add_comm .., hquiet⟩
    split
    · exact ⟨_, hstay, Nat.add_comm .., hquiet⟩
    · exact ⟨.expired s.recoveryUntilUs nowUs, rfl, by rw [hpc]; rfl, hquiet⟩
  next nowUs hpc =>
    split
    · exact ⟨.idle, rfl, by rw [hpc]; rfl, hquiet⟩
    · refine ⟨_, rfl, ?_, fun m hne => ?_⟩
      · simp [hpc, isWin, isCall, owesCall]
      · simp [isWin, isCall, Ne.symm hne]
  next deadlineUs hpc => exact ⟨.stored deadlineUs, rfl, by rw [hpc]; rfl, hquiet⟩
  next deadlineUs hpc =>
    refine ⟨.idle, rfl, ?_, fun m hne => ?_⟩
    · simp [hpc, isWin, isCall, owesCall]
    · simp [isWin, isCall, Ne.symm hne]
  next untilUs nowUs hpc =>
    split
    · refine ⟨.cleared, rfl, ?_, fun m hne => ?_⟩
      · simp [hpc, isWin, isCall, owesCall]
      · simp [isWin, isCall]
    · exact ⟨.idle, rfl, by rw [hpc]; rfl, hquiet⟩
  next hpc =>
    refine ⟨.idle, rfl, ?_, fun m hne => ?_⟩
    · simp [hpc, isWin, isCall, owesCall]
    · simp [isWin, isCall]
  next => exact ⟨_, hstay, Nat.add_comm .., hquiet⟩

/-- Every win of a thread is followed by one call of its own before the next one. -/
theorem calls_turn {es : List RecoveryEvent} (m : NodeIdx) (act : RecoveryAct)
    (h : ∀ n, es.countP (isWin n) = es.countP (isCall n) + (owesCall (s.pc n)).toNat) (n : NodeIdx) :
    (es ++ (s.turn cfg m act).2).countP (isWin n) =
      (es ++ (s.turn cfg m act).2).countP (isCall n) + (owesCall ((s.turn cfg m act).1.pc n)).toNat := by
  obtain ⟨pc, hpc, hown, hothers⟩ := turn_calls cfg s m act
  have hbefore := h n
  rw [List.countP_append, List.countP_append, hpc]
  rcases eq_or_ne n m with rfl | hne
  · rw [update_self]
    omega
  · obtain ⟨hwins, hcalls⟩ := hothers n hne
    rw [update_of_ne hne, hwins, hcalls]
    omega

/-- The recovery is in order: what has happened is a cycle, the flag is set from a win to the store behind the clear,
    an open window has a deadline, there is a clear past the first deadline between two wins, and a thread calls once
    for each of its wins. -/
structure Right (s : RecoveryState) (es : List RecoveryEvent) : Prop where
  flag : ∃ ph, Phase.flat.after es = some ph ∧ (s.flattenPending = true ↔ ph ≠ .flat)
  deadline : s.flattenPending = true → s.Nobody → 0 < s.recoveryUntilUs
  cleared : ∀ pre mid post n n' deadlineUs deadlineUs',
    es = pre ++ .win n deadlineUs :: (mid ++ .win n' deadlineUs' :: post) →
      ∃ m nowUs, .clear m nowUs ∈ mid ∧ deadlineUs ≤ nowUs
  calls : ∀ n, es.countP (isWin n) = es.countP (isCall n) + (owesCall (s.pc n)).toNat

/-- Whatever the order in which the threads step, the recovery is in order. -/
theorem flatten_recovery_right (cfg : FlattenConfig) (as : List (NodeIdx × RecoveryAct))
    (hclock : ∀ a ∈ as, a.2.nowUs < clockBound) :
    Right (run (step cfg) init as) (outputs (step cfg) (events cfg) init as) := by
  have hstep : ∀ (s : RecoveryState) (a : NodeIdx × RecoveryAct) (es : List RecoveryEvent),
      ((∃ ph, Phase.flat.after es = some ph ∧ s.Recovering ph) ∧
        ∀ n, es.countP (isWin n) = es.countP (isCall n) + (owesCall (s.pc n)).toNat) → a.2.nowUs < clockBound →
      (∃ ph, Phase.flat.after (es ++ events cfg s a) = some ph ∧ (step cfg s a).Recovering ph) ∧
        ∀ n, (es ++ events cfg s a).countP (isWin n) =
          (es ++ events cfg s a).countP (isCall n) + (owesCall ((step cfg s a).pc n)).toNat := by
    rintro s a es ⟨⟨ph, hafter, hph⟩, hcalls⟩ hnow
    obtain ⟨ph', hnext, hph'⟩ := Recovering.turn cfg hph a.1 a.2 hnow
    refine ⟨⟨ph', ?_, hph'⟩, calls_turn a.1 a.2 hcalls⟩
    rw [Phase.after_append, hafter]
    exact hnext
  have hrun := run_outputs hstep as [] ⟨⟨.flat, rfl, recovering_init⟩, fun _ => rfl⟩ (steps_of_forall hclock)
  rw [List.nil_append] at hrun
  generalize run (step cfg) init as = s at hrun ⊢
  generalize outputs (step cfg) (events cfg) init as = es at hrun ⊢
  obtain ⟨⟨ph, hafter, hph⟩, hcalls⟩ := hrun
  refine ⟨⟨ph, hafter, ?_⟩, ?_, ?_, hcalls⟩
  · cases ph with
    | flat => simp [hph.stands.1]
    | held deadlineUs => simp [hph.stands.1]
    | clearing => simp [hph.stands.1]
  · intro hpending hnobody
    cases ph with
    | flat => exact absurd (hph.stands.1.symm.trans hpending) Bool.false_ne_true
    | held deadlineUs =>
      obtain ⟨-, hpos, ⟨huntil, -⟩ | ⟨-, n, hn, -⟩⟩ := hph.stands
      · rw [huntil]
        exact hpos
      · have hbetween := hnobody n
        rw [hn] at hbetween
        exact absurd hbetween.symm Bool.false_ne_true
    | clearing =>
      obtain ⟨-, -, n, hn, -⟩ := hph.stands
      have hbetween := hnobody n
      rw [hn] at hbetween
      exact absurd hbetween.symm Bool.false_ne_true
  · intro pre mid post n n' deadlineUs deadlineUs' hes
    rw [hes, Phase.after_append] at hafter
    obtain ⟨before, -, hrest⟩ := Option.bind_eq_some_iff.1 hafter
    rw [Phase.after] at hrest
    obtain ⟨won, hwon, hrest⟩ := Option.bind_eq_some_iff.1 hrest
    obtain rfl : won = .held deadlineUs := by
      cases before with
      | flat => exact (Option.some.inj hwon).symm
      | held d => exact absurd hwon.symm (Option.some_ne_none _)
      | clearing => exact absurd hwon.symm (Option.some_ne_none _)
    exact Phase.clear_of_win mid post (by rw [hrest]; exact Option.some_ne_none _)

theorem sampleFlatten_ranges : (1 ≤ 60 ∧ 60 ≤ 3600) ∧ 60 ≤ 86400 := by decide

/-- A live session with a minute on both. -/
def sampleFlatten : FlattenConfig :=
  { wsFlattenActive := true, thresholdSecs := 60, recoveryDelaySecs := 60, threshold_range := sampleFlatten_ranges.1
    delay_range := sampleFlatten_ranges.2 }

/-- The first thread wins and is held up at its call, until the second one has ended the window, won another
    flatten and called. -/
def sampleLateCall : List (NodeIdx × RecoveryAct) :=
  [(firstIdx, .checkWsStaleness 1000000 100000000), (firstIdx, .go), (firstIdx, .go),
    (nextIdx, .tryClearRecovery 160000000), (nextIdx, .go), (nextIdx, .go),
    (nextIdx, .checkWsStaleness 1000000 161000000), (nextIdx, .go), (nextIdx, .go), (nextIdx, .go), (firstIdx, .go)]

theorem flatten_recovery_right_late_call :
    Right (run (step sampleFlatten) init sampleLateCall)
      (outputs (step sampleFlatten) (events sampleFlatten) init sampleLateCall) :=
  flatten_recovery_right sampleFlatten sampleLateCall (by decide)

/-- A clock that is a minute from the end of its 64 bits. -/
def sampleClockEnd : List (NodeIdx × RecoveryAct) :=
  [(firstIdx, .checkWsStaleness 1000000 (2 ^ 64 - 60000000)), (firstIdx, .go), (firstIdx, .go)]

/-- Between two calls there need not be a clear, and at the end of the clock a window has no deadline. -/
theorem flatten_calls_late :
    ¬(∀ pre mid post n n' deadlineUs deadlineUs',
        outputs (step sampleFlatten) (events sampleFlatten) init sampleLateCall =
            pre ++ .flattenAll n deadlineUs :: (mid ++ .flattenAll n' deadlineUs' :: post) →
          ∃ m nowUs, .clear m nowUs ∈ mid ∧ deadlineUs ≤ nowUs) ∧
      ¬((run (step sampleFlatten) init sampleClockEnd).flattenPending = true →
        (run (step sampleFlatten) init sampleClockEnd).Nobody →
          0 < (run (step sampleFlatten) init sampleClockEnd).recoveryUntilUs) := by
  refine ⟨fun h => ?_, fun h => ?_⟩
  · have hcalls : outputs (step sampleFlatten) (events sampleFlatten) init sampleLateCall =
        [.win firstIdx 160000000, .clear nextIdx 160000000, .resume nextIdx, .win nextIdx 221000000] ++
          .flattenAll nextIdx 221000000 :: ([] ++ .flattenAll firstIdx 160000000 :: []) := by decide
    obtain ⟨m, nowUs, hmem, -⟩ := h _ _ _ _ _ _ _ hcalls
    exact absurd hmem List.not_mem_nil
  · have hopen : (run (step sampleFlatten) init sampleClockEnd).Nobody := by
      unfold Nobody
      decide
    exact absurd (h (by decide) hopen) (by decide)

end RecoveryState

end FoxTrader
