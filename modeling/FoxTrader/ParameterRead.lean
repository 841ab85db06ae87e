import FoxTrader.ParameterCache

/-! # What a read of the parameter slot returns

    The machine of `ParameterCache` with a history: what each completed write stored (write 0 is the
    initial pack), how many writes were complete when the running `ParameterSlot_Read` was called,
    and for every read that returned its value and the two counts around it. A read may be called at
    any time, by a tick that misses or by anyone else (`call`), and may be torn and retried as often
    as the writes make it. `read_linearizes` says that it returns what one completed write stored:
    the last one at the instant of its final check. Only the counter's 64 bits stand in the way: a
    read during which exactly `2⁶³` writes complete sees the counter it started from. -/

namespace FoxTrader

open Lib ParameterSlot Function

namespace ParameterRead

open ParameterCache (Words Sys Reader Writer)

/-- A read that has returned, and how many writes were complete at its call and at its return. -/
structure Returned (ι : Type) where
  value : Words ι × Nat
  started : Nat
  ended : Nat

/-- The machine with the ghosts of its reads; `started` counts along until a read is called. -/
structure Traced (ι : Type) where
  sys : Sys ι
  history : Nat → Words ι × Nat
  started : Nat
  reads : List (Returned ι)

inductive Act (ι : Type) where
  | call
  | finish
  | base (a : ParameterCache.Act ι)

/-- The reader is inside `ParameterSlot_Read`. -/
def isReading {ι : Type} : Reader ι → Bool
  | .reading | .copying .. => true
  | _ => false

variable {ι : Type}

def init (initial : Words ι) : Traced ι :=
  { sys := ParameterCache.init initial, history := fun _ => (initial, 0), started := 0, reads := [] }

/-- The read that returns when the machine moves on to `s'`, if one does. -/
def returning (t : Traced ι) (s' : Sys ι) : List (Returned ι) :=
  if isReading t.sys.reader && s'.reader.isReloading then
    [{ value := (s'.cachedParams, s'.cachedPublishTick), started := t.started, ended := s'.writes }]
  else []

/-- The ghosts follow the machine to `s'`. -/
def advance (t : Traced ι) (s' : Sys ι) : Traced ι :=
  { sys := s'
    history := update t.history s'.writes s'.last
    started := if isReading t.sys.reader && isReading s'.reader then t.started else s'.writes
    reads := t.reads ++ returning t s' }

def step [DecidableEq ι] [Fintype ι] (t : Traced ι) : Act ι → Traced ι
  | .call => if t.sys.reader.isIdle then { t with sys := { t.sys with reader := .reading } } else t
  | .finish => if t.sys.reader.isReloading then { t with sys := { t.sys with reader := .idle } } else t
  | .base a => advance t (ParameterCache.step t.sys a)

/-- Fewer than `2⁶³` writes complete during one read. -/
def FewWrites (t : Traced ι) : Act ι → Prop
  | .base .writePublish => isReading t.sys.reader = true → t.sys.writes + 1 < t.started + 2 ^ 63
  | _ => True

instance (t : Traced ι) : ∀ a, Decidable (FewWrites t a)
  | .base .writePublish => inferInstanceAs (Decidable (_ → _))
  | .call | .finish | .base (.writeBegin ..) | .base .writeMark | .base
    (.writeWord _) | .base .writeTick | .base .tick
  | .base .readSeq | .base (.readWord _) | .base .readTick | .base .readCheck | .base .reload => isTrue trivial

/-! ### The invariant -/

/-- What the running read has copied of write `k` is the last write's if there was none since. -/
def CopyOk (started : Nat) (s : Sys ι) : Prop :=
  match s.reader with
  | .copying s1 done tickDone =>
    ∃ k, started ≤ k ∧ k ≤ s.writes ∧ s1 = stableSeq k ∧ (k = s.writes →
      (∀ i, done i = true → s.cachedParams i = s.last.1 i) ∧ (tickDone = true → s.cachedPublishTick = s.last.2))
  | _ => True

/-- The read returned the last write complete when it ended. -/
structure Linearized (history : Nat → Words ι × Nat) (r : Returned ι) : Prop where
  ordered : r.started ≤ r.ended
  value : r.value = history r.ended

structure Inv (t : Traced ι) : Prop where
  slot : ParameterCache.SlotOk t.sys
  history : t.history t.sys.writes = t.sys.last
  near : t.sys.writes < t.started + 2 ^ 63
  started : t.started ≤ t.sys.writes
  outside : isReading t.sys.reader = false → t.started = t.sys.writes
  copy : CopyOk t.started t.sys
  past : ∀ r ∈ t.reads, r.ended ≤ t.sys.writes
  reads : ∀ r ∈ t.reads, Linearized t.history r

theorem copyOk_of_not_reading {s : Sys ι} {started : Nat} (h : isReading s.reader = false) : CopyOk started s := by
  unfold CopyOk
  cases hr : s.reader with
  | copying s1 done tickDone =>
    rw [hr] at h
    exact absurd h Bool.false_ne_true.symm
  | _ => trivial

theorem isReloading_eq_false {r : Reader ι} (h : isReading r = true) : r.isReloading = false := by
  cases r with
  | reading | copying => rfl
  | idle | reloading => exact absurd h Bool.false_ne_true

theorem inv_init (initial : Words ι) : Inv (init initial) :=
  ⟨⟨rfl, rfl, rfl⟩, rfl, by simp [init, ParameterCache.init], le_rfl, fun _ => rfl, trivial, fun _ h =>
    absurd h List.not_mem_nil,
    fun _ h => absurd h List.not_mem_nil⟩

variable {t : Traced ι} {s' : Sys ι}

/-- What is returned is linearized where it returns. -/
theorem linearized_returning (h : Inv t) (hwrites : s'.writes = t.sys.writes)
    (hreturn : isReading t.sys.reader = true → s'.reader.isReloading = true →
      (s'.cachedParams, s'.cachedPublishTick) = s'.last) :
    ∀ r ∈ returning t s', r.ended ≤ s'.writes ∧ Linearized (update t.history s'.writes s'.last) r := by
  intro r hr
  unfold returning at hr
  split at hr
  next hret =>
    rw [Bool.and_eq_true] at hret
    obtain rfl := List.mem_singleton.1 hr
    refine ⟨le_rfl, ?_, ?_⟩
    · exact hwrites ▸ h.started
    · show (s'.cachedParams, s'.cachedPublishTick) = update t.history s'.writes s'.last s'.writes
      rw [update_self]
      exact hreturn hret.1 hret.2
  next => exact absurd hr List.not_mem_nil

/-- A step that completes no write. -/
theorem Inv.advance_same (h : Inv t) (hslot : ParameterCache.SlotOk s') (hwrites : s'.writes = t.sys.writes)
    (hlast : s'.last = t.sys.last) (hcopy : CopyOk t.started s')
    (hreturn : isReading t.sys.reader = true → s'.reader.isReloading = true →
      (s'.cachedParams, s'.cachedPublishTick) = s'.last) :
    Inv (advance t s') := by
  have hhistory : update t.history s'.writes s'.last = t.history := by
    rw [hwrites, hlast, ← h.history, update_eq_self]
  have hreads := linearized_returning h hwrites hreturn
  rw [hhistory] at hreads
  have hstarted : (advance t s').started = t.started ∨
      (advance t s').started = s'.writes ∧ isReading s'.reader = false := by
    unfold advance
    cases hr : isReading t.sys.reader with
    | false => exact .inl (hwrites.trans (h.outside hr).symm)
    | true =>
      cases hr' : isReading s'.reader with
      | false => exact .inr ⟨rfl, rfl⟩
      | true => exact .inl rfl
  have hnear := h.near
  have hle := h.started
  refine ⟨hslot, update_self .., ?_, ?_, ?_, ?_, ?_, ?_⟩
  · show s'.writes < _
    rcases hstarted with he | ⟨he, -⟩ <;> omega
  · show _ ≤ s'.writes
    rcases hstarted with he | ⟨he, -⟩ <;> omega
  · intro hout
    show (if isReading t.sys.reader && isReading s'.reader then t.started else s'.writes) = s'.writes
    rw [show isReading s'.reader = false from hout, Bool.and_false, if_neg Bool.false_ne_true]
  · rcases hstarted with he | ⟨-, hout⟩
    · rw [he]
      exact hcopy
    · exact copyOk_of_not_reading hout
  · intro r hr
    rcases List.mem_append.1 hr with hold | hnew
    · exact (h.past r hold).trans_eq hwrites.symm
    · exact (hreads r hnew).1
  · intro r hr
    show Linearized (update t.history s'.writes s'.last) r
    rw [hhistory]
    rcases List.mem_append.1 hr with hold | hnew
    · exact h.reads r hold
    · exact (hreads r hnew).2

/-- A step that completes a write: what is being copied is now an older one's. -/
theorem Inv.advance_write (h : Inv t) (hslot : ParameterCache.SlotOk s') (hwrites : s'.writes = t.sys.writes + 1)
    (hreader : s'.reader = t.sys.reader)
    (hfew : isReading t.sys.reader = true → t.sys.writes + 1 < t.started + 2 ^ 63) :
    Inv (advance t s') := by
  have hreturning : returning t s' = [] := by
    unfold returning
    rw [hreader]
    cases hr : isReading t.sys.reader with
    | false => rfl
    | true =>
      rw [isReloading_eq_false hr]
      rfl
  have hreads : (advance t s').reads = t.reads := by
    show t.reads ++ returning t s' = t.reads
    rw [hreturning, List.append_nil]
  have hstarted : (advance t s').started = if isReading t.sys.reader then t.started else s'.writes := by
    show (if isReading t.sys.reader && isReading s'.reader then t.started else s'.writes) = _
    rw [hreader, Bool.and_self]
  have hle := h.started
  refine ⟨hslot, update_self .., ?_, ?_, ?_, ?_, ?_, ?_⟩
  · show s'.writes < _
    rw [hstarted]
    split
    next hr => exact hwrites ▸ hfew hr
    next => omega
  · show _ ≤ s'.writes
    rw [hstarted]
    split <;> omega
  · intro hout
    have hout' : isReading t.sys.reader = false := hreader ▸ hout
    show _ = s'.writes
    rw [hstarted, hout', if_neg Bool.false_ne_true]
  · rw [hstarted]
    show CopyOk _ s'
    cases hr : isReading t.sys.reader with
    | false => exact copyOk_of_not_reading (hreader ▸ hr)
    | true =>
      have hcopy := h.copy
      unfold CopyOk at hcopy ⊢
      rw [hreader]
      cases hc : t.sys.reader with
      | copying s1 done tickDone =>
        simp only [hc, if_true] at hcopy ⊢
        obtain ⟨k, hk, hkn, hs1, -⟩ := hcopy
        exact ⟨k, hk, by omega, hs1, fun he => absurd he (by omega)⟩
      | _ => trivial
  · rw [hreads]
    intro r hr
    show r.ended ≤ s'.writes
    exact (h.past r hr).trans (by omega)
  · rw [hreads]
    intro r hr
    have hpast := h.past r hr
    obtain ⟨hordered, hvalue⟩ := h.reads r hr
    refine ⟨hordered, hvalue.trans ?_⟩
    exact (update_of_ne (by omega) ..).symm

/-! ### The steps -/

theorem CopyOk.congr {s : Sys ι} {started : Nat} (h : CopyOk started s) (hreader : s'.reader = s.reader)
    (hwrites : s'.writes = s.writes) (hlast : s'.last = s.last) (hparams : s'.cachedParams = s.cachedParams)
    (htick : s'.cachedPublishTick = s.cachedPublishTick) : CopyOk started s' := by
  unfold CopyOk at h ⊢
  rw [hreader, hwrites, hlast, hparams, htick]
  exact h

/-- A step of the producer that completes no write, or a step of a party that is not there. -/
theorem Inv.advance_frame (h : Inv t) (hslot : ParameterCache.SlotOk s') (hreader : s'.reader = t.sys.reader)
    (hwrites : s'.writes = t.sys.writes) (hlast : s'.last = t.sys.last)
    (hparams : s'.cachedParams = t.sys.cachedParams)
    (htick : s'.cachedPublishTick = t.sys.cachedPublishTick) : Inv (advance t s') := by
  refine h.advance_same hslot hwrites hlast (h.copy.congr hreader hwrites hlast hparams htick) fun hreading hret => ?_
  rw [hreader, isReloading_eq_false hreading] at hret
  exact absurd hret Bool.false_ne_true

theorem Inv.advance_self (h : Inv t) : Inv (advance t t.sys) := h.advance_frame h.slot rfl rfl rfl rfl rfl

variable [DecidableEq ι] [Fintype ι]

theorem inv_writePublish (h : Inv t) (hfew : FewWrites t (.base .writePublish)) :
    Inv (step t (.base .writePublish)) := by
  have hslot := ParameterCache.slotOk_writePublish h.slot
  simp only [step]
  cases hw : t.sys.writer with
  | copying q p tick done tickDone =>
    by_cases hall : (∀ i, done i = true) ∧ tickDone = true
    · simp only [ParameterCache.step, hw, if_pos hall] at hslot ⊢
      exact h.advance_write hslot rfl rfl hfew
    · simp only [ParameterCache.step, hw, if_neg hall]
      exact h.advance_self
  | _ =>
    simp only [ParameterCache.step, hw]
    exact h.advance_self

theorem inv_write (h : Inv t) {a : ParameterCache.Act ι} (hslot : ParameterCache.SlotOk (ParameterCache.step t.sys a))
    (ha : (∃ p tick, a = .writeBegin p tick) ∨ a = .writeMark ∨ (∃ i, a = .writeWord i) ∨ a = .writeTick) :
    Inv (step t (.base a)) := by
  simp only [step]
  rcases ha with ⟨p, tick, rfl⟩ | rfl | ⟨i, rfl⟩ | rfl
  all_goals
    simp only [ParameterCache.step] at hslot ⊢
    split at hslot <;> exact h.advance_frame hslot rfl rfl rfl rfl rfl

theorem inv_tick (h : Inv t) : Inv (step t (.base .tick)) := by
  simp only [step]
  cases hr : t.sys.reader with
  | idle =>
    simp only [ParameterCache.step, hr]
    split
    · exact h.advance_same ⟨h.slot.buffer, h.slot.publishTick, h.slot.writer⟩ rfl rfl trivial fun _ hret =>
        absurd hret Bool.false_ne_true
    · exact h.advance_self
  | _ =>
    simp only [ParameterCache.step, hr]
    exact h.advance_self

/-- Nothing is copied yet of the write the counter names. -/
theorem inv_readSeq (h : Inv t) : Inv (step t (.base .readSeq)) := by
  simp only [step]
  cases hr : t.sys.reader with
  | reading =>
    cases hm : midWrite t.sys.slot.seq with
    | true =>
      simp only [ParameterCache.step, hr, hm, if_true]
      exact h.advance_self
    | false =>
      simp only [ParameterCache.step, hr, hm, Bool.false_eq_true, if_false]
      refine h.advance_same ⟨h.slot.buffer, h.slot.publishTick, h.slot.writer⟩ rfl rfl ?_ fun _ hret =>
        absurd hret Bool.false_ne_true
      refine ⟨t.sys.writes, h.started, le_rfl, h.slot.seq_of_stable hm, fun _ => ⟨fun i hi => ?_, fun ht => ?_⟩⟩
      · exact absurd hi Bool.false_ne_true
      · exact absurd ht Bool.false_ne_true
  | _ =>
    simp only [ParameterCache.step, hr]
    exact h.advance_self

theorem inv_readWord (h : Inv t) (i : ι) : Inv (step t (.base (.readWord i))) := by
  simp only [step]
  cases hr : t.sys.reader with
  | copying s1 done tickDone =>
    have hcopy := h.copy
    simp only [CopyOk, hr] at hcopy
    obtain ⟨k, hk, hkn, hs1, hcopied⟩ := hcopy
    simp only [ParameterCache.step, hr]
    refine h.advance_same ⟨h.slot.buffer, h.slot.publishTick, h.slot.writer⟩ rfl rfl ?_ fun _ hret =>
      absurd hret Bool.false_ne_true
    refine ⟨k, hk, hkn, hs1, fun he => ⟨?_, (hcopied he).2⟩⟩
    intro j hj
    show update t.sys.cachedParams i _ j = t.sys.last.1 j
    by_cases hji : j = i
    · rw [hji, update_self, hs1, he, h.slot.buffer]
    · rw [update_of_ne hji] at hj ⊢
      exact (hcopied he).1 j hj
  | _ =>
    simp only [ParameterCache.step, hr]
    exact h.advance_self

theorem inv_readTick (h : Inv t) : Inv (step t (.base .readTick)) := by
  simp only [step]
  cases hr : t.sys.reader with
  | copying s1 done tickDone =>
    have hcopy := h.copy
    simp only [CopyOk, hr] at hcopy
    obtain ⟨k, hk, hkn, hs1, hcopied⟩ := hcopy
    simp only [ParameterCache.step, hr]
    refine h.advance_same ⟨h.slot.buffer, h.slot.publishTick, h.slot.writer⟩ rfl rfl ?_ fun _ hret =>
      absurd hret Bool.false_ne_true
    refine ⟨k, hk, hkn, hs1, fun he => ⟨(hcopied he).1, fun _ => ?_⟩⟩
    rw [hs1, he]
    exact h.slot.publishTick
  | _ =>
    simp only [ParameterCache.step, hr]
    exact h.advance_self

/-- An unmoved counter: no write has completed since it was loaded, so the copy is the last write's. -/
theorem inv_readCheck (h : Inv t) : Inv (step t (.base .readCheck)) := by
  simp only [step]
  cases hr : t.sys.reader with
  | copying s1 done tickDone =>
    by_cases hall : (∀ i, done i = true) ∧ tickDone = true
    · have hcopy := h.copy
      simp only [CopyOk, hr] at hcopy
      obtain ⟨k, hk, hkn, hs1, hcopied⟩ := hcopy
      simp only [ParameterCache.step, hr, if_pos hall]
      have hnear := h.near
      by_cases heq : s1 = t.sys.slot.seq
      · have hm : midWrite t.sys.slot.seq = false := by rw [← heq, hs1, midWrite_stableSeq]
        have hlast : k = t.sys.writes := stableSeq_inj_of_near hkn (by omega) (by
          rw [← hs1, heq, h.slot.seq_of_stable hm])
        obtain ⟨hwords, htick⟩ := hcopied hlast
        refine h.advance_same ⟨h.slot.buffer, h.slot.publishTick, h.slot.writer⟩ rfl rfl
          (copyOk_of_not_reading (by simp only [if_pos heq]; rfl)) fun _ _ => ?_
        exact Prod.ext (funext fun i => hwords i (hall.1 i)) (htick hall.2)
      · refine h.advance_same ⟨h.slot.buffer, h.slot.publishTick, h.slot.writer⟩ rfl rfl ?_ fun _ hret => ?_
        · simp only [if_neg heq]
          trivial
        · simp only [if_neg heq] at hret
          exact absurd hret Bool.false_ne_true
    · simp only [ParameterCache.step, hr, if_neg hall]
      exact h.advance_self
  | _ =>
    simp only [ParameterCache.step, hr]
    exact h.advance_self

theorem inv_reload (h : Inv t) : Inv (step t (.base .reload)) := by
  simp only [step]
  cases hr : t.sys.reader with
  | reloading =>
    simp only [ParameterCache.step, hr]
    exact h.advance_same ⟨h.slot.buffer, h.slot.publishTick, h.slot.writer⟩ rfl rfl
      (copyOk_of_not_reading rfl) fun _ hret =>
      absurd hret Bool.false_ne_true
  | _ =>
    simp only [ParameterCache.step, hr]
    exact h.advance_self

omit [DecidableEq ι] [Fintype ι] in
/-- A call or a return: the reader moves while nothing is being read. -/
theorem inv_setReader (h : Inv t) {r : Reader ι} (hout : isReading t.sys.reader = false)
    (hr : CopyOk t.started { t.sys with reader := r }) :
    Inv { t with sys := { t.sys with reader := r } } :=
  ⟨⟨h.slot.buffer, h.slot.publishTick, h.slot.writer⟩, h.history, h.near, h.started, fun _ =>
    h.outside hout, hr, h.past, h.reads⟩

theorem inv_step (t : Traced ι) (a : Act ι) (h : Inv t) (hfew : FewWrites t a) : Inv (step t a) := by
  cases a with
  | call =>
    simp only [step]
    split
    next hidle => exact inv_setReader h (by rw [ParameterCache.Reader.eq_idle hidle]; rfl) trivial
    next => exact h
  | finish =>
    simp only [step]
    split
    next hret =>
      refine inv_setReader h ?_ trivial
      cases hr : isReading t.sys.reader with
      | false => rfl
      | true =>
        rw [isReloading_eq_false hr] at hret
        exact absurd hret Bool.false_ne_true
    next => exact h
  | base a =>
    cases a with
    | writeBegin p tick => exact inv_write h (ParameterCache.slotOk_writeBegin h.slot p tick) (.inl ⟨p, tick, rfl⟩)
    | writeMark => exact inv_write h (ParameterCache.slotOk_writeMark h.slot) (.inr (.inl rfl))
    | writeWord i => exact inv_write h (ParameterCache.slotOk_writeWord h.slot i) (.inr (.inr (.inl ⟨i, rfl⟩)))
    | writeTick => exact inv_write h (ParameterCache.slotOk_writeTick h.slot) (.inr (.inr (.inr rfl)))
    | writePublish => exact inv_writePublish h hfew
    | tick => exact inv_tick h
    | readSeq => exact inv_readSeq h
    | readWord i => exact inv_readWord h i
    | readTick => exact inv_readTick h
    | readCheck => exact inv_readCheck h
    | reload => exact inv_reload h

/-- In every run in which fewer than `2⁶³` writes complete during each read, every read returns what
    one completed write stored, parameters and publish tick: the last one complete when it returns. -/
theorem read_linearizes (initial : Words ι) (as : List (Act ι)) (hfew : Steps step FewWrites (init initial) as) :
    let t := run step (init initial) as
    ∀ r ∈ t.reads, ∃ j, r.started ≤ j ∧ j ≤ r.ended ∧ r.value = t.history j := by
  intro t r hr
  obtain ⟨hordered, hvalue⟩ := (run_inv_of_steps inv_step as (inv_init initial) hfew).reads r hr
  exact ⟨r.ended, hordered, le_rfl, hvalue⟩

/-- The rest of a read whose counter is loaded. -/
def copyToCheck : List (Act (Fin 24)) :=
  (List.finRange 24).map (fun i => .base (.readWord i)) ++ [.base .readTick, .base .readCheck]

/-- A write between the copied words makes the read start over and return that write. -/
theorem read_linearizes_retried :
    let t := run step (init (ParameterCache.pack 0))
      ([.call, .base .readSeq, .base (.readWord 0)] ++ (ParameterCache.wholeWrite (ParameterCache.pack 1) 7).map .base ++
        copyToCheck ++ [.base .readSeq] ++ copyToCheck)
    t.reads.map (fun r => (r.started, r.ended, r.value.2)) = [(0, 1, 7)] ∧
      ∀ r ∈ t.reads, ∃ j, r.started ≤ j ∧ j ≤ r.ended ∧ r.value = t.history j :=
  ⟨by decide +kernel, read_linearizes _ _ (by decide +kernel)⟩

/-! ### What the history holds -/

/-- What the running write is about to store. -/
def pendingWrite : Writer ι → Option (Words ι × Nat)
  | .idle => none
  | .loaded _ p tick | .copying _ p tick .. => some (p, tick)

/-- `P` holds of everything stored, being stored and remembered. -/
structure Written (P : Words ι × Nat → Prop) (t : Traced ι) : Prop where
  last : P t.sys.last
  pending : ∀ w, pendingWrite t.sys.writer = some w → P w
  history : ∀ j, P (t.history j)

omit [DecidableEq ι] [Fintype ι] in
theorem Written.advance {P : Words ι × Nat → Prop} (h : Written P t) (hlast : P s'.last)
    (hpending : ∀ w, pendingWrite s'.writer = some w → P w) : Written P (advance t s') := by
  refine ⟨hlast, hpending, fun j => ?_⟩
  show P (update t.history s'.writes s'.last j)
  rcases eq_or_ne j s'.writes with rfl | hne
  · rw [update_self]
    exact hlast
  · rw [update_of_ne hne]
    exact h.history j

theorem written_step {P : Words ι × Nat → Prop} (t : Traced ι) (a : Act ι) (h : Written P t)
    (ha : ∀ p tick, a = .base (.writeBegin p tick) → P (p, tick)) : Written P (step t a) := by
  cases a with
  | call | finish =>
    simp only [step]
    split
    · exact ⟨h.last, h.pending, h.history⟩
    · exact h
  | base a =>
    simp only [step]
    cases a with
    | writeBegin p tick =>
      simp only [ParameterCache.step]
      split
      · refine h.advance h.last fun w hw => ?_
        obtain rfl := Option.some_inj.1 hw
        exact ha p tick rfl
      · exact h.advance h.last h.pending
    | writePublish =>
      simp only [ParameterCache.step]
      cases hw : t.sys.writer with
      | copying q p tick done tickDone =>
        have hp : P (p, tick) := h.pending _ (by rw [hw]; rfl)
        simp only
        split
        · exact h.advance hp fun w hnone => absurd hnone.symm (Option.some_ne_none w)
        · exact h.advance h.last h.pending
      | _ => exact h.advance h.last h.pending
    | writeMark | writeWord | writeTick =>
      simp only [ParameterCache.step]
      split
      next hw => exact h.advance h.last fun w hs => h.pending w (by rw [hw]; exact hs)
      next => exact h.advance h.last h.pending
    | tick | readSeq | readCheck =>
      simp only [ParameterCache.step]
      split
      · split <;> exact h.advance h.last h.pending
      · exact h.advance h.last h.pending
    | readWord | readTick | reload =>
      simp only [ParameterCache.step]
      split <;> exact h.advance h.last h.pending

/-- Whatever holds of the initial pack and of everything written holds of the history. -/
theorem history_of_written {initial : Words ι} {P : Words ι × Nat → Prop} (hinit : P (initial, 0)) {as : List (Act ι)}
    (hwritten : ∀ p tick, .base (.writeBegin p tick) ∈ as → P (p, tick)) (j : Nat) :
    P ((run step (init initial) as).history j) := by
  have hstart : Written P (init initial) :=
    ⟨hinit, fun w hw => absurd hw.symm (Option.some_ne_none w), fun _ => hinit⟩
  refine (run_inv_of_steps written_step as hstart (steps_of_forall fun a ha p tick hbegin => hwritten p tick ?_)).history j
  exact hbegin ▸ ha

/-! ### The counter wraps around -/

theorem run_base (t : Traced ι) (as : List (ParameterCache.Act ι)) :
    (run step t (as.map .base)).sys = run ParameterCache.step t.sys as := by
  induction as generalizing t with
  | nil => rfl
  | cons a as ih => exact ih (advance t (ParameterCache.step t.sys a))

/-- Whole writes, one after the other. -/
theorem run_writes {s : Sys ι} (hw : s.writer = .idle) (p : Words ι) (tick : Nat) (ws : List ι)
    (hall : ∀ i, i ∈ ws) (n : Nat) :
    ∃ last writes, run ParameterCache.step s (List.replicate n
        ([.writeBegin p tick, .writeMark] ++ ws.map .writeWord ++ [.writeTick, .writePublish])).flatten =
      { s with slot := (fun slot => slot.write p tick)^[n] s.slot, last := last, writes := writes } := by
  induction n generalizing s with
  | zero => exact ⟨s.last, s.writes, rfl⟩
  | succ n ih =>
    rw [List.replicate_succ, List.flatten_cons, run_append, ParameterCache.run_write s hw p tick hall]
    obtain ⟨last, writes, hrun⟩ :=
      ih (s := { s with slot := s.slot.write p tick, last := (p, tick), writes := s.writes + 1 }) hw
    exact ⟨last, writes, by rw [hrun, Function.iterate_succ_apply]⟩

/-- Two words, both alike. -/
def pair (w : BitVec 64) : Words (Fin 2) := fun _ => w

/-- A read that copies its first word, sees `n` writes, and copies its second. -/
def interrupted (n : Nat) : List (Act (Fin 2)) :=
  [.call, .base .readSeq, .base (.readWord 0)] ++
    (List.replicate n ([.writeBegin (pair 1) 7, .writeMark] ++ [0, 1].map .writeWord ++
      [.writeTick, .writePublish])).flatten.map .base ++
    [.base (.readWord 1), .base .readTick, .base .readCheck]

/-- Every pack in the history of the run has two words alike. -/
theorem history_interrupted (n j : Nat) :
    ((run step (init (pair 0)) (interrupted n)).history j).1 0 =
      ((run step (init (pair 0)) (interrupted n)).history j).1 1 := by
  refine history_of_written (P := fun w => w.1 0 = w.1 1) rfl (fun p tick hmem => ?_) j
  simp only [interrupted, List.mem_append, List.mem_map, List.mem_flatten, List.mem_replicate] at hmem
  simp at hmem
  rw [hmem.2.1]
  rfl

/-- If the counter comes back to where the read began, its check passes on what it has copied. -/
theorem reads_interrupted {n : Nat} (hn : 2 ≤ n) (hwrap : stableSeq n = 0) :
    ∃ r ∈ (run step (init (pair 0)) (interrupted n)).reads, r.value.1 0 = 0 ∧ r.value.1 1 = 1 := by
  obtain ⟨k, rfl⟩ := Nat.exists_eq_add_of_le' hn
  rw [interrupted, run_append, run_append]
  -- the read has loaded the counter and copied its first word
  generalize hcopying : run step (init (pair 0)) [.call, .base .readSeq, .base (.readWord 0)] = t1
  have hsys : t1.sys = { ParameterCache.init (pair 0) with
      reader := .copying 0 (update (fun _ => false) 0 true) false, cachedParams := update (pair 0) 0 0 } := by
    rw [← hcopying]
    rfl
  -- the writes bring the counter back and leave their pack in both buffers
  obtain ⟨last, writes, hwritten⟩ :=
    run_writes (s := t1.sys) (by rw [hsys]; rfl) (pair 1) 7 [0, 1] (by decide) (k + 2)
  rw [← run_base] at hwritten
  generalize run step t1 _ = t2 at hwritten ⊢
  have hseq : t2.sys.slot.seq = 0 := by
    have := seq_iterate_write t1.sys.slot (m := 0) (by rw [hsys]; rfl) (pair 1) 7 (k + 2)
    rw [hwritten, this, Nat.zero_add, hwrap]
  have hbuffers : ∀ b, t2.sys.slot.buffers b = pair 1 := by
    intro b
    have hseq' := seq_iterate_write t1.sys.slot (m := 0) (by rw [hsys]; rfl) (pair 1) 7 k
    rw [hwritten]
    simp only [Function.iterate_succ_apply']
    exact (write_write hseq' (pair 1) 7 b).1
  have hreader : t2.sys.reader = .copying 0 (update (fun _ => false) 0 true) false := by rw [hwritten, hsys]
  have hparams : t2.sys.cachedParams = update (pair 0) 0 0 := by rw [hwritten, hsys]
  -- the second word is the written one, and the check sees the counter the read began with
  rw [show ([.base (.readWord 1), .base .readTick, .base .readCheck] : List (Act (Fin 2))) =
    [.readWord 1, .readTick].map .base ++ [.base .readCheck] from rfl, run_append, run_cons, run_nil]
  have hcopied := run_base t2 [.readWord 1, .readTick]
  simp only [run_cons, run_nil, ParameterCache.step, hreader, hparams, hbuffers] at hcopied
  generalize run step t2 _ = t4 at hcopied ⊢
  have hall : ∀ i : Fin 2, update (update (fun _ => false) 0 true) 1 true i = true := by decide
  refine ⟨⟨(t4.sys.cachedParams, t4.sys.cachedPublishTick), t4.started, t4.sys.writes⟩, ?_, ?_, ?_⟩
  · refine List.mem_append_right _ ?_
    simp [returning, ParameterCache.step, hcopied, hall, hseq, isReading, Reader.isReloading]
  · rw [hcopied]
    rfl
  · rw [hcopied]
    rfl

/-- A read torn by a counter that came back returns what no write stored. -/
theorem torn_of_wrap {n : Nat} (hn : 2 ≤ n) (hwrap : stableSeq n = 0) :
    let t := run step (init (pair 0)) (interrupted n)
    ∃ r ∈ t.reads, r.value.1 0 = 0 ∧ r.value.1 1 = 1 ∧ ∀ j, r.value ≠ t.history j := by
  intro t
  obtain ⟨r, hr, h0, h1⟩ := reads_interrupted hn hwrap
  refine ⟨r, hr, h0, h1, fun j hj => ?_⟩
  have hsame : (t.history j).1 0 = (t.history j).1 1 := history_interrupted n j
  rw [← hj, h0, h1] at hsame
  exact absurd hsame (by decide)

/-- After `2⁶³` writes the read returns one word of the initial pack and one of the written one. -/
theorem read_torn_by_wrap :
    let t := run step (init (pair 0)) (interrupted (2 ^ 63))
    ∃ r ∈ t.reads, r.value.1 0 = 0 ∧ r.value.1 1 = 1 ∧ ∀ j, r.value ≠ t.history j :=
  torn_of_wrap (by decide) (by decide)

end ParameterRead

end FoxTrader
