import FoxTrader.BinanceOrderAPI

/-! # The clock offset of signed requests

    A signed request carries the local clock plus `time_offset_ms`. `BinanceOrderAPI_SyncClock` sets the
    offset to the server's time less the local clock, the resync of the retry loop to the local clock
    less the server's time. Moments are read off the server's clock; the local clock is ahead of it by
    `drift`, and an answer of the time endpoint was under way for `delay`. -/

namespace FoxTrader

/-! ### Clocks -/

/-- `binance_current_ms` at a moment of the server's clock. -/
def currentMs (drift moment : ℤ) : ℤ := moment + drift

/-- A question to `/api/v3/time`; the local clock is read with the answer. -/
structure TimeQuery where
  exchange : Exchange Response
  readAt : ℤ
  delay : ℕ

/-- `serverTime` in a `200`: the server's clock when it answered. -/
def TimeQuery.answer (q : TimeQuery) : Option ℤ :=
  match q.exchange.answered with
  | some r => if r.status = 200 then some (q.readAt - q.delay) else none
  | none => none

/-- What sets the offset. -/
inductive SyncSource where
  | retry | syncClock
  deriving DecidableEq

inductive ClockEvent where
  | signed (moment timestamp : ℤ)
  | synced (source : SyncSource) (delay : ℕ)
  deriving DecidableEq

/-- The offset beside what the requests leave behind, and what happened so far, the latest first. -/
structure ClockSession where
  api : BinanceOrderAPI
  timeOffsetMs : ℤ
  log : List ClockEvent

namespace ClockSession

variable (drift : ℤ) (s : ClockSession)

/-- The timestamp of `binance_signed_request`. -/
def sign (moment : ℤ) : ClockSession :=
  { s with log := .signed moment (currentMs drift moment + s.timeOffsetMs) :: s.log }

def request {α : Type} (reply : α → Response) (x : Exchange α) : ClockSession :=
  { s with api := (restRequest reply s.api x).1 }

/-- The resync of the retry loop. -/
def resync (q : TimeQuery) : ClockSession :=
  let s := s.request id q.exchange
  match q.answer with
  | some serverMs =>
    { s with timeOffsetMs := currentMs drift q.readAt - serverMs, log := .synced .retry q.delay :: s.log }
  | none => s

/-- `BinanceOrderAPI_SyncClock`; `BinanceOrderAPI_ServerTime` is zero without an answer. -/
def syncClock (q : TimeQuery) : ClockSession :=
  let s := s.request id q.exchange
  let serverTime := q.answer.getD 0
  if 0 < serverTime then
    { s with timeOffsetMs := serverTime - currentMs drift q.readAt, log := .synced .syncClock q.delay :: s.log }
  else s

end ClockSession

/-! ### The retry loop -/

/-- A turn of the retry loop and the moments at which it reads the local clock. -/
structure ClockedAttempt where
  stopBefore : Bool
  signedAt : ℤ
  post : Exchange Reaction
  stopWaiting : Bool
  time : TimeQuery

/-- The turn without its clock. -/
def ClockedAttempt.turn (a : ClockedAttempt) : Attempt where
  stopBefore := a.stopBefore
  post := a.post
  stopWaiting := a.stopWaiting
  resync := a.time.exchange

def noteClockError (drift : ℤ) (s : ClockSession) (a : ClockedAttempt) : Option Response → ClockSession
  | none => s
  | some r =>
    if r.status ≠ 200 && isClientError r.status then
      let s := { s with api := { s.api with lastErrorCode := r.body.code } }
      if r.body.code = binanceTimestamp then s.resync drift a.time else s
    else s

/-- The loop of `binance_retry_request` from turn `n` on, with its clock. -/
def clockedLoop (drift : ℤ) (s : ClockSession) (n : ℕ) : List ClockedAttempt → ClockSession
  | [] => s
  | a :: rest =>
    if 0 < n && a.stopBefore then s
    else
      let sent := (s.sign drift a.signedAt).request Reaction.reply a.post
      let reply := a.post.answered.map Reaction.reply
      let s := noteClockError drift sent a reply
      match verdict a.turn reply with
      | some _ => s
      | none => clockedLoop drift s (n + 1) rest

/-! ### Calls -/

/-- The calls on one instance that sign or sync: a request with retries, one without
    (`BinanceOrderAPI_CancelOrder`, `BinanceOrderAPI_GetStatus`), and a sync of the clock. -/
inductive RestCall where
  | retry (attempts : Fin 4 → ClockedAttempt)
  | once (signedAt : ℤ) (exchange : Exchange Response)
  | syncClock (q : TimeQuery)

def ClockSession.call (drift : ℤ) (s : ClockSession) : RestCall → ClockSession
  | .retry attempts => clockedLoop drift s 0 (List.ofFn attempts)
  | .once signedAt exchange => (s.sign drift signedAt).request id exchange
  | .syncClock q => s.syncClock drift q

def ClockSession.run (drift : ℤ) (s : ClockSession) (calls : List RestCall) : ClockSession :=
  calls.foldl (ClockSession.call drift) s

/-- The calls on an instance that was left with some offset. -/
def history (drift : ℤ) (api : BinanceOrderAPI) (offset : ℤ) (calls : List RestCall) : List ClockEvent :=
  (ClockSession.run drift ⟨api, offset, []⟩ calls).log

/-- The clock changes nothing else: the loop leaves what the loop without a clock leaves. -/
theorem clockedLoop_api (drift : ℤ) (as : List ClockedAttempt) (s : ClockSession) (n : ℕ) :
    (clockedLoop drift s n as).api = (retryLoop s.api n (as.map ClockedAttempt.turn)).api := by
  induction as generalizing s n with
  | nil => rfl
  | cons a rest ih =>
    have hnote (s : ClockSession) (reply : Option Response) :
        (noteClockError drift s a reply).api = noteError s.api a.turn reply := by
      cases reply with
      | none => rfl
      | some r =>
        rw [noteClockError, noteError]
        split
        case isTrue =>
          dsimp only
          split
          case isTrue =>
            rw [ClockSession.resync]
            cases a.time.answer <;> rfl
          case isFalse => rfl
        case isFalse => rfl
    rw [clockedLoop, List.map_cons, retryLoop]
    have hstop : a.turn.stopBefore = a.stopBefore := rfl
    rw [hstop]
    split
    case isTrue => rfl
    case isFalse =>
      have hpost : a.turn.post = a.post := rfl
      dsimp only
      rw [restRequest_reply, hpost]
      cases verdict a.turn (a.post.answered.map Reaction.reply) with
      | some reply => exact hnote ..
      | none =>
        dsimp only
        rw [ih, hnote]
        rfl

/-! ### The offset that the last sync left -/

/-- The latest sync. -/
def lastSync : List ClockEvent → Option (SyncSource × ℕ)
  | [] => none
  | .signed _ _ :: before => lastSync before
  | .synced source delay :: _ => some (source, delay)

/-- The offset behind a sync. -/
def offsetOf (drift initial : ℤ) : Option (SyncSource × ℕ) → ℤ
  | none => initial
  | some (.retry, delay) => drift + delay
  | some (.syncClock, delay) => -drift - delay

/-- Every timestamp was made with the offset of the sync before it. -/
def Stamped (drift initial : ℤ) : List ClockEvent → Prop
  | [] => True
  | .signed moment timestamp :: before =>
    timestamp = moment + drift + offsetOf drift initial (lastSync before) ∧ Stamped drift initial before
  | .synced _ _ :: before => Stamped drift initial before

/-- What holds between requests. -/
structure ClockSession.Inv (drift initial : ℤ) (s : ClockSession) : Prop where
  offset : s.timeOffsetMs = offsetOf drift initial (lastSync s.log)
  stamped : Stamped drift initial s.log

section Invariant
variable {drift initial : ℤ} {s : ClockSession}

theorem inv_sign (h : s.Inv drift initial) (moment : ℤ) : (s.sign drift moment).Inv drift initial :=
  ⟨h.offset, congrArg _ h.offset, h.stamped⟩

theorem inv_request {α : Type} (h : s.Inv drift initial) (reply : α → Response) (x : Exchange α) :
    (s.request reply x).Inv drift initial := ⟨h.offset, h.stamped⟩

theorem answer_eq {q : TimeQuery} {serverMs : ℤ} (h : q.answer = some serverMs) : serverMs = q.readAt - q.delay := by
  rw [TimeQuery.answer] at h
  repeat' split at h
  all_goals cases h
  rfl

theorem inv_resync (h : s.Inv drift initial) (q : TimeQuery) : (s.resync drift q).Inv drift initial := by
  rw [ClockSession.resync]
  cases hans : q.answer with
  | none => exact inv_request h id q.exchange
  | some serverMs =>
    refine ⟨?_, h.stamped⟩
    show currentMs drift q.readAt - serverMs = drift + q.delay
    rw [answer_eq hans, currentMs]
    ring

theorem inv_syncClock (h : s.Inv drift initial) (q : TimeQuery) : (s.syncClock drift q).Inv drift initial := by
  rw [ClockSession.syncClock]
  cases hans : q.answer with
  | none => exact inv_request h id q.exchange
  | some serverMs =>
    dsimp only [Option.getD_some]
    split
    case isFalse => exact inv_request h id q.exchange
    case isTrue =>
      refine ⟨?_, h.stamped⟩
      show serverMs - currentMs drift q.readAt = -drift - q.delay
      rw [answer_eq hans, currentMs]
      ring

theorem inv_noteClockError (h : s.Inv drift initial) (a : ClockedAttempt) (reply : Option Response) :
    (noteClockError drift s a reply).Inv drift initial := by
  cases reply with
  | none => exact h
  | some r =>
    rw [noteClockError]
    split
    case isFalse => exact h
    case isTrue =>
      dsimp only
      split
      case isTrue =>
        have hnoted : ClockSession.Inv drift initial { s with api := { s.api with lastErrorCode := r.body.code } } :=
          ⟨h.offset, h.stamped⟩
        exact inv_resync hnoted a.time
      case isFalse => exact ⟨h.offset, h.stamped⟩

theorem inv_clockedLoop (as : List ClockedAttempt) (n : ℕ) (h : s.Inv drift initial) :
    (clockedLoop drift s n as).Inv drift initial := by
  induction as generalizing s n with
  | nil => exact h
  | cons a rest ih =>
    rw [clockedLoop]
    split
    case isTrue => exact h
    case isFalse =>
      have hturn := inv_noteClockError (inv_request (inv_sign h a.signedAt) Reaction.reply a.post) a
        (a.post.answered.map Reaction.reply)
      dsimp only
      split
      case h_1 => exact hturn
      case h_2 => exact ih (n + 1) hturn

theorem inv_call (h : s.Inv drift initial) (c : RestCall) : (s.call drift c).Inv drift initial := by
  cases c with
  | retry attempts => exact inv_clockedLoop _ 0 h
  | once signedAt exchange => exact inv_request (inv_sign h signedAt) id exchange
  | syncClock q => exact inv_syncClock h q

theorem inv_run (calls : List RestCall) (h : s.Inv drift initial) : (s.run drift calls).Inv drift initial := by
  induction calls generalizing s with
  | nil => exact h
  | cons c calls ih => exact ih (inv_call h c)

/-- A timestamp of the history. -/
theorem stamped_suffix {log before : List ClockEvent} {moment timestamp : ℤ} (h : Stamped drift initial log)
    (hsuffix : .signed moment timestamp :: before <:+ log) :
    timestamp = moment + drift + offsetOf drift initial (lastSync before) := by
  induction log with
  | nil => exact absurd (List.suffix_nil.1 hsuffix) (List.cons_ne_nil _ _)
  | cons e log ih =>
    rcases List.suffix_cons_iff.1 hsuffix with heq | hlater
    · cases heq
      exact h.1
    · cases e with
      | signed moment' timestamp' => exact ih h.2 hlater
      | synced source delay => exact ih h hlater

end Invariant

/-! ### Main results -/

/-- Once the retry loop has synced the clock, every signed request carries the server's clock, up to the
    delay of the answer the offset was taken from. -/
def OnServerTime (log : List ClockEvent) : Prop :=
  ∀ (moment timestamp : ℤ) (before : List ClockEvent), .signed moment timestamp :: before <:+ log →
    (∃ delay, .synced .retry delay ∈ before) →
      ∃ source delay, lastSync before = some (source, delay) ∧ |timestamp - moment| ≤ delay

theorem lastSync_of_mem {source : SyncSource} {delay : ℕ} {log : List ClockEvent} (h : .synced source delay ∈ log) :
    ∃ source delay, lastSync log = some (source, delay) := by
  induction log with
  | nil => exact absurd h List.not_mem_nil
  | cons e log ih =>
    cases e with
    | synced source' delay' => exact ⟨source', delay', rfl⟩
    | signed moment timestamp => exact ih ((List.mem_cons.1 h).resolve_left ClockEvent.noConfusion)

theorem mem_of_lastSync {source : SyncSource} {delay : ℕ} {log : List ClockEvent}
    (h : lastSync log = some (source, delay)) : .synced source delay ∈ log := by
  induction log with
  | nil => cases h
  | cons e log ih =>
    cases e with
    | synced source' delay' =>
      cases h
      exact List.mem_cons_self
    | signed moment timestamp => exact List.mem_cons_of_mem _ (ih h)

/-- The requests behind a resync of the retry loop are on the server's time exactly when the local clock is
    not ahead of the server's, and behind it by no more than the answer was under way. -/
theorem onServerTime_iff (drift : ℤ) (api : BinanceOrderAPI) (offset : ℤ) (calls : List RestCall) :
    OnServerTime (history drift api offset calls) ↔
      ∀ (moment timestamp : ℤ) (before : List ClockEvent) (delay : ℕ),
        .signed moment timestamp :: before <:+ history drift api offset calls →
          lastSync before = some (.retry, delay) → -delay ≤ drift ∧ drift ≤ 0 := by
  have hinv : (ClockSession.run drift ⟨api, offset, []⟩ calls).Inv drift offset := inv_run calls ⟨rfl, trivial⟩
  constructor
  · intro hright moment timestamp before delay hsuffix hlast
    obtain ⟨source, delay', hlast', hclose⟩ := hright moment timestamp before hsuffix ⟨delay, mem_of_lastSync hlast⟩
    cases hlast.symm.trans hlast'
    rw [stamped_suffix hinv.stamped hsuffix, hlast, offsetOf, abs_le] at hclose
    omega
  · rintro hdrift moment timestamp before hsuffix ⟨delay, hmem⟩
    obtain ⟨source, delay, hlast⟩ := lastSync_of_mem hmem
    refine ⟨source, delay, hlast, ?_⟩
    rw [stamped_suffix hinv.stamped hsuffix, hlast, abs_le]
    cases source with
    | retry =>
      have hbound := hdrift moment timestamp before delay hsuffix hlast
      rw [offsetOf]
      omega
    | syncClock =>
      rw [offsetOf]
      omega

/-- A request that arrives and is answered. -/
def answeredBy {α : Type} (a : α) : Exchange α where
  connects := true
  first := ⟨true, some a⟩
  reconnects := true
  resend := ⟨false, none⟩
  replyRead := true

theorem badRequest_ne_ok : 400 ≠ 200 := by decide

/-- A timestamp the venue refuses, and the time it then tells without delay. -/
def refusedTurn : ClockedAttempt where
  stopBefore := false
  signedAt := 1000000
  post := answeredBy (.refuse ⟨400, none, { Body.empty with code := binanceTimestamp }⟩ badRequest_ne_ok)
  stopWaiting := false
  time := ⟨answeredBy ⟨200, none, Body.empty⟩, 1000100, 0⟩

def takenTurn : ClockedAttempt where
  stopBefore := false
  signedAt := 1001100
  post := answeredBy (.take true 0 ⟨200, none, Body.empty⟩ (Or.inl rfl))
  stopWaiting := false
  time := ⟨answeredBy ⟨200, none, Body.empty⟩, 1001200, 0⟩

/-- A local clock two seconds ahead: the timestamp behind the resync is four seconds ahead. -/
theorem onServerTime_ahead :
    ¬OnServerTime (history 2000 ⟨0, 0⟩ 0 [.retry fun i => if i.val = 0 then refusedTurn else takenTurn]) := by
  have hlog : history 2000 ⟨0, 0⟩ 0 [.retry fun i => if i.val = 0 then refusedTurn else takenTurn] =
      [.signed 1001100 1005100, .synced .retry 0, .signed 1000000 1002000] := by rfl
  rw [hlog]
  intro hright
  obtain ⟨source, delay, hlast, hclose⟩ := hright 1001100 1005100 _ (List.suffix_refl _) ⟨0, List.mem_cons_self⟩
  cases hlast
  exact absurd hclose (by decide)

end FoxTrader
