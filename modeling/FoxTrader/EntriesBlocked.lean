import FoxTrader.KillResets
import FoxTrader.SlowPathRun

/-! # Entries under a kill

    Passes of the composer and cycles of the nodes in any order. A cycle that begins under the node's
    kill flag, under the published kill of the account or in a recovery window is to publish a blocked
    pack, unless the core has no permission anyway.

    A full rebuild derives the block anew from all three. Under the account's kill nothing is lost by a
    skipped one either: the trip has taken the permission of every core, and no cycle gives it back.
    Under the other two a skipped rebuild publishes the pack as it was before
    (`entries_blocked_iff`). -/

namespace FoxTrader

open Lib Function

/-! ### The gates -/

namespace CycleInput

variable (x : CycleInput) (g : Gated)

/-- What blocks the entries of a full rebuild whatever the market does. -/
def halts : Bool := x.recovering || x.killTripped || x.globalKill

theorem blocked_recovery (h : x.recovering = true) : (x.recovery g).params.has gateFlagBuyBlocked = true := by
  unfold recovery
  rw [if_pos h]
  exact blocked_or g.params

theorem blocked_killGates (h : x.killTripped = true ∨ x.globalKill = true) :
    (x.killGates g).params.has gateFlagBuyBlocked = true := by
  unfold killGates
  rcases h with h | h
  · refine (Gated.narrows_zeroGateIf _ _ _).blocked ?_
    rw [h]
    exact g.blocked_zeroGate .nodeKill
  · rw [h]
    exact Gated.blocked_zeroGate _ .globalKill

/-- The gates behind leave a block in place. -/
theorem blocked_gates (h : x.halts = true) : (x.gates g).params.has gateFlagBuyBlocked = true := by
  have hkill : (x.killGates (x.entryGates g)).params.has gateFlagBuyBlocked = true := by
    unfold halts at h
    simp only [Bool.or_eq_true] at h
    rcases h with (hrecovering | hnode) | hglobal
    · refine (x.narrows_killGates _).blocked ((x.narrows_nodeBudget _).blocked ((x.narrows_imbalance _).blocked ?_))
      exact x.blocked_recovery _ hrecovering
    · exact x.blocked_killGates _ (.inl hnode)
    · exact x.blocked_killGates _ (.inr hglobal)
  exact (x.narrows_feeFloor _).blocked ((x.narrows_marketGates _).blocked hkill)

end CycleInput

/-- A pack that is pushed is blocked if the rebuild is a full one, and is the pending one otherwise. -/
theorem SlowPath.blocked_pushed {n : NodeIdx} {x : CycleInput} {s : SlowPath} (h : x.halts = true)
    (hfull : x.skipsRebuild s.ctx.node = false) : (s.pushed n x).has gateFlagBuyBlocked = true := by
  rw [SlowPath.pushed, (SlowContext.rebuild_of_full hfull).1]
  exact x.blocked_gates _ h

theorem SlowPath.pushed_of_skip {n : NodeIdx} {x : CycleInput} {s : SlowPath}
    (hskip : x.skipsRebuild s.ctx.node = true) : s.pushed n x = s.ctx.node.pendingParams := by
  rw [SlowPath.pushed, SlowContext.rebuild_of_skip hskip]

/-! ### The permissions in a pass -/

namespace KillState

open OrderManagerState

variable {cfg : KillConfig} {c : OmsConfig} {s : KillState}

/-- Once the account is killed no registered core has permission. -/
def Revoked (cfg : KillConfig) (s : KillState) : Prop :=
  s.killSwitchTripped = true → ∀ n : NodeIdx, n.val < cfg.registeredCount → s.permission n = 0

variable (cfg) in
theorem revoked_killSwitchTrip (s : KillState) : Revoked cfg (s.killSwitchTrip cfg) := by
  intro _ n hn
  unfold killSwitchTrip clearAllPermissions
  exact if_pos hn

variable (cfg c) in
theorem revoked_fatalLanes : ∀ (sites : List (Fin 16)) {s : KillState}, Revoked cfg s →
    Revoked cfg (sites.foldlM (fatalLane cfg c) s).val
  | [], _, h => h
  | site :: sites, s, _ => by
    rw [List.foldlM_cons, Flagged.bind_val]
    exact revoked_fatalLanes sites (revoked_killSwitchTrip cfg s)

variable (cfg c) in
/-- The valuation leaves the account and the permissions alone. -/
theorem account_evalNodes (s : KillState) (currentPrice : Money) :
    (s.evalNodes cfg c currentPrice).val.killSwitchTripped = s.killSwitchTripped ∧
      (s.evalNodes cfg c currentPrice).val.permission = s.permission := by
  unfold evalNodes
  generalize registered cfg = ns
  induction ns generalizing s with
  | nil => exact ⟨rfl, rfl⟩
  | cons n ns ih =>
    rw [List.foldlM_cons, Flagged.bind_val]
    exact ih _

variable (cfg) in
theorem revoked_killSwitchEvaluate (h : Revoked cfg s) : Revoked cfg (s.killSwitchEvaluate cfg).val := by
  unfold killSwitchEvaluate
  split
  · exact h
  · simp only [Flagged.bind_val, Flagged.pure_val]
    split
    · exact revoked_killSwitchTrip cfg s
    · exact h

theorem revoked_finish (h : Revoked cfg s) (currentPrice : Money) (drags : List DragCmd) :
    Revoked cfg (s.finish cfg c currentPrice drags).val := by
  obtain ⟨htripped, hpermission⟩ := account_evalNodes cfg c (s.dragged drags) currentPrice
  have hvalued : Revoked cfg ((s.dragged drags).evalNodes cfg c currentPrice).val := by
    unfold Revoked
    rw [htripped, hpermission]
    exact h
  exact revoked_killSwitchEvaluate cfg hvalued

variable (cfg c) in
theorem revoked_step (s : KillState) (a : Act) (h : Revoked cfg s) : Revoked cfg (s.step cfg c a) := by
  cases a with
  | requestTrip lanes => exact h
  | requestReset n => exact h
  | own a =>
    unfold Revoked
    rw [step, act]
    split <;> exact h
  | compose currentPrice drags =>
    have hturn : Revoked cfg (s.composeTurn cfg c currentPrice drags).val := by
      unfold composeTurn
      split
      · exact h
      · exact revoked_fatalLanes cfg c _ h
      · exact revoked_finish h currentPrice drags
    exact hturn

/-- What holds between two passes. -/
structure Settled (cfg : KillConfig) (s : KillState) : Prop where
  idle : s.phase = .idle
  tidy : Tidy cfg s
  revoked : Revoked cfg s
  word : s.killWord.getLsbD 0 = true ↔ s.killSwitchTripped = true

variable (cfg c) in
/-- Where the last turn of a pass finds the composer. -/
theorem phase_toFinish (p : Pass) (hidle : s.phase = .idle) :
    (run (step cfg c) s p.toFinish).phase = .tripsTaken := by
  have hphase₁ := (nodes_step_idle cfg c p.currentPrice p.drags hidle).2
  have hphase₂ := (nodes_run_of_quiet cfg c p.afterResets p.quietResets
    (s := s.step cfg c p.turn) (by rw [Pass.turn, hphase₁]; exact ComposePhase.noConfusion)).2
  have htrips : (run (step cfg c) s p.toTrips).phase = .resetsTaken := hphase₂.trans hphase₁
  have hphase₃ := (nodes_step_resetsTaken cfg c p.currentPrice p.drags htrips).2
  have hphase₄ := (nodes_run_of_quiet cfg c p.afterTrips p.quietTrips
    (s := (run (step cfg c) s p.toTrips).step cfg c p.turn)
      (by rw [Pass.turn, hphase₃]; exact ComposePhase.noConfusion)).2
  rw [Pass.toFinish, run_append, run_cons]
  exact hphase₄.trans hphase₃

/-- A pass publishes the flag of the account as it leaves it. -/
theorem Settled.pass (h : Settled cfg s) (p : Pass) : Settled cfg (run (step cfg c) s p.acts) := by
  have hphase := phase_toFinish cfg c p h.idle
  have htidy := run_inv (fun s a (h : Tidy cfg s) => (turn_step (c := c) s a h).2) p.toFinish h.tidy
  have hrevoked := run_inv (revoked_step cfg c) p.acts h.revoked
  obtain ⟨hturn, htidy'⟩ := turn_step (c := c) (run (step cfg c) s p.toFinish) p.turn htidy
  obtain ⟨hword, -⟩ := hturn.published ⟨hphase, _, _, rfl⟩
  rw [Pass.acts, run_append, run_cons, run_nil] at hrevoked ⊢
  refine ⟨?_, htidy', hrevoked, (hword 0).trans ?_⟩
  · rw [Pass.turn, step, act, composeTurn, hphase]
    rfl
  · constructor
    · rintro (⟨-, hset⟩ | ⟨n, hzero, -⟩)
      · exact hset
      · omega
    · exact fun hset => .inl ⟨rfl, hset⟩

/-- The other threads leave the flags, the word and the permissions alone. -/
theorem Settled.quiet (h : Settled cfg s) {a : Act} (hquiet : a.isCompose = false) :
    Settled cfg (s.step cfg c a) := by
  have htidy := (turn_step (c := c) s a h.tidy).2
  have hrevoked := revoked_step cfg c s a h.revoked
  cases a with
  | requestTrip lanes => exact ⟨h.idle, htidy, hrevoked, h.word⟩
  | requestReset n => exact ⟨h.idle, htidy, hrevoked, h.word⟩
  | compose currentPrice drags => exact absurd hquiet Bool.true_eq_false.mp
  | own a =>
    have hsame : (s.step cfg c (.own a)).phase = s.phase ∧ (s.step cfg c (.own a)).killWord = s.killWord ∧
        (s.step cfg c (.own a)).killSwitchTripped = s.killSwitchTripped := by
      rw [step, act]
      split <;> exact ⟨rfl, rfl, rfl⟩
    refine ⟨hsame.1.trans h.idle, htidy, hrevoked, ?_⟩
    rw [hsame.2.1, hsame.2.2]
    exact h.word

end KillState

/-! ### Runs of passes and cycles -/

/-- The composer's state, and the slow path of every node but for the core's permission, which is the
    composer's to take. -/
structure EntryState where
  kill : KillState
  slow : NodeIdx → SlowPath

/-- A pass, a turn of another thread between two passes, and a cycle of a node. -/
inductive EntryAct where
  | pass (p : KillState.Pass)
  | other (a : KillState.Act)
  | cycle (n : NodeIdx) (x : CycleInput)

namespace EntryState

open KillState (sampleKillBoot sampleKillConfig sampleQuietPass)

variable (cfg : KillConfig) (c : OmsConfig)

/-- `(kill_word & KILLWORD_MASK_GLOBAL) != 0`. -/
def globalKill (s : EntryState) : Bool := s.kill.killWord.getLsbD 0

/-- The cycle's input with the kill flags that it finds. -/
def input (s : EntryState) (n : NodeIdx) (x : CycleInput) : CycleInput :=
  { x with killTripped := (s.kill.nodes n).killTripped, globalKill := s.globalKill }

/-- The slow path of a node, with the permission of its core. -/
def slowPath (s : EntryState) (n : NodeIdx) : SlowPath :=
  { s.slow n with core := (s.slow n).core.setPermission (s.kill.permission n) }

/-- Only registered nodes have a slow path that runs. -/
def cycle (s : EntryState) (n : NodeIdx) (x : CycleInput) : EntryState :=
  if n.val < cfg.registeredCount then
    let slow := (s.slowPath n).slowPathCycleOneCore n (s.input n x)
    { kill := { s.kill with permission := update s.kill.permission n slow.core.permission }
      slow := update s.slow n slow }
  else s

def step (s : EntryState) : EntryAct → EntryState
  | .pass p => { s with kill := run (KillState.step cfg c) s.kill p.acts }
  | .other a => if a.isCompose then s else { s with kill := s.kill.step cfg c a }
  | .cycle n x => s.cycle cfg n x

/-- The pack that a cycle publishes here. -/
def pushed (s : EntryState) (n : NodeIdx) (x : CycleInput) : GateParameters := (s.slowPath n).pushed n (s.input n x)

/-- The node's kill flag, the published kill of the account, or a recovery window is in force. -/
def InForce (s : EntryState) (n : NodeIdx) (x : CycleInput) : Prop :=
  (s.kill.nodes n).killTripped = true ∨ s.globalKill = true ∨ x.recovering = true

instance (s : EntryState) (n : NodeIdx) (x : CycleInput) : Decidable (s.InForce n x) :=
  inferInstanceAs (Decidable (_ ∨ _ ∨ _))

/-- Nothing is tripped or requested at boot. -/
structure Booted (s : EntryState) : Prop where
  fresh : KillState.Fresh cfg s.kill
  idle : s.kill.phase = .idle
  untripped : s.kill.killSwitchTripped = false
  word : s.kill.killWord = 0

variable {cfg c} {s : EntryState}

theorem Booted.settled (h : Booted cfg s) : s.kill.Settled cfg where
  idle := h.idle
  tidy := h.fresh.tidy
  revoked := fun hset => absurd (hset.symm.trans h.untripped) (by decide)
  word := by
    rw [h.word, h.untripped]
    decide

/-- A cycle gives permission only while the account is not killed. -/
theorem permission_cycle (s : EntryState) (n : NodeIdx) (x : CycleInput) :
    ((s.slowPath n).slowPathCycleOneCore n (s.input n x)).core.permission = s.kill.permission n ∨
      s.globalKill = false := by
  unfold SlowPath.slowPathCycleOneCore SlowPath.grant
  rw [SlowPath.push_rebuilt]
  dsimp only
  split
  next hgrants =>
    unfold SlowPath.grants at hgrants
    simp only [Bool.and_eq_true, Bool.not_eq_true'] at hgrants
    exact .inr hgrants.1.1
  next => exact .inl rfl

theorem settled_step (s : EntryState) (a : EntryAct) (h : s.kill.Settled cfg) :
    (s.step cfg c a).kill.Settled cfg := by
  cases a with
  | pass p => exact h.pass p
  | other a =>
    unfold step
    dsimp only
    split
    next => exact h
    next hquiet => exact h.quiet (Bool.eq_false_iff.2 hquiet)
  | cycle n x =>
    unfold step cycle
    dsimp only
    split
    next hn =>
      refine ⟨h.idle, h.tidy, fun hset m hm => ?_, h.word⟩
      have hkept := (s.permission_cycle n x).resolve_right fun hclear =>
        Bool.false_ne_true (hclear.symm.trans (h.word.2 hset))
      rcases eq_or_ne m n with rfl | hne
      · exact (update_self ..).trans (hkept.trans (h.revoked hset m hm))
      · exact (update_of_ne hne ..).trans (h.revoked hset m hm)
    next => exact h

theorem halts_input {n : NodeIdx} {x : CycleInput} (h : s.InForce n x) : (s.input n x).halts = true := by
  unfold CycleInput.halts
  simp only [Bool.or_eq_true]
  rcases h with hnode | hglobal | hrecovering
  · exact .inl (.inr hnode)
  · exact .inr hglobal
  · exact .inl (.inl hrecovering)

/-- In every reachable state a cycle in force publishes a blocked pack or finds no permission, unless it skips
    its rebuild under the node's kill or in a recovery window, with an unblocked pack pending and permission. -/
theorem entries_blocked_iff (hboot : Booted cfg s) (as : List EntryAct) {n : NodeIdx}
    (hn : n.val < cfg.registeredCount) (x : CycleInput) (hforce : (run (step cfg c) s as).InForce n x) :
    (((run (step cfg c) s as).pushed n x).has gateFlagBuyBlocked = true ∨
        (run (step cfg c) s as).kill.permission n = 0) ↔
      ((run (step cfg c) s as).globalKill = true ∨
        ((run (step cfg c) s as).input n x).skipsRebuild ((run (step cfg c) s as).slow n).ctx.node = false ∨
        ((run (step cfg c) s as).slow n).ctx.node.pendingParams.has gateFlagBuyBlocked = true ∨
        (run (step cfg c) s as).kill.permission n = 0) := by
  have hsettled : (run (step cfg c) s as).kill.Settled cfg := run_inv settled_step as hboot.settled
  generalize run (step cfg c) s as = s at hforce hsettled ⊢
  have hpushed : s.pushed n x = (s.slowPath n).pushed n (s.input n x) := rfl
  rw [hpushed]
  rcases Bool.eq_false_or_eq_true ((s.input n x).skipsRebuild (s.slow n).ctx.node) with hskip | hfull
  · rw [SlowPath.pushed_of_skip (s := s.slowPath n) hskip]
    refine ⟨fun h => .inr (.inr h), ?_⟩
    rintro (hglobal | hfull | h)
    · exact .inr (hsettled.revoked (hsettled.word.1 hglobal) n hn)
    · exact absurd (hskip.symm.trans hfull) (by decide)
    · exact h
  · have hblocked := SlowPath.blocked_pushed (n := n) (s := s.slowPath n) (halts_input hforce) hfull
    exact iff_of_true (.inl hblocked) (.inr (.inl hfull))

/-! A node that rebuilds lazily is tripped between two cycles. -/

def quietEntryState : EntryState where
  kill := { sampleKillBoot with permission := fun _ => 0 }
  slow _ := quietBoot

theorem quietEntryState_booted : Booted sampleKillConfig quietEntryState :=
  ⟨⟨rfl, rfl, fun _ _ => rfl⟩, rfl, rfl, rfl⟩

def quietLazy (nowUs : Nat) : CycleInput :=
  { quietInput quietFlat with
    cfg := { quietCfg with lazyRebuildEnabled := true, lazyRebuildForcePeriodUs := 1000 }, nowUs }

/-- A first rebuild, and the trip of the node. -/
def quietTrip : List EntryAct :=
  [.cycle firstIdx (quietLazy 1), .other (.requestTrip (killTripLaneNode firstIdx)), .pass sampleQuietPass]

theorem entries_blocked_iff_forced :
    (((run (step sampleKillConfig samplePaper) quietEntryState quietTrip).pushed firstIdx
          (quietLazy 5000)).has gateFlagBuyBlocked = true ∨
        (run (step sampleKillConfig samplePaper) quietEntryState quietTrip).kill.permission firstIdx = 0) ↔
      ((run (step sampleKillConfig samplePaper) quietEntryState quietTrip).globalKill = true ∨
        ((run (step sampleKillConfig samplePaper) quietEntryState quietTrip).input firstIdx
            (quietLazy 5000)).skipsRebuild
          ((run (step sampleKillConfig samplePaper) quietEntryState quietTrip).slow firstIdx).ctx.node = false ∨
        ((run (step sampleKillConfig samplePaper) quietEntryState quietTrip).slow
          firstIdx).ctx.node.pendingParams.has gateFlagBuyBlocked = true ∨
        (run (step sampleKillConfig samplePaper) quietEntryState quietTrip).kill.permission firstIdx = 0) :=
  entries_blocked_iff quietEntryState_booted quietTrip (by decide) (quietLazy 5000) (by decide +kernel)

/-- The cycle behind the trip skips its rebuild: it publishes a pack that is not blocked, to a core that has
    permission. -/
theorem entries_not_blocked :
    (run (step sampleKillConfig samplePaper) quietEntryState quietTrip).InForce firstIdx (quietLazy 2) ∧
      ((run (step sampleKillConfig samplePaper) quietEntryState quietTrip).pushed firstIdx
        (quietLazy 2)).has gateFlagBuyBlocked = false ∧
      (run (step sampleKillConfig samplePaper) quietEntryState quietTrip).kill.permission firstIdx = 1 := by
  decide +kernel

end EntryState

end FoxTrader
