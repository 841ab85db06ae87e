import FoxTrader.SlowPathRun

/-! # Whose ratchets a trade gets

    A trade of a core is to run under no ratchet but its own. The run carries along which trade every
    ratchet was written for: a cycle writes for the trade whose positions the portfolio has while it
    runs, which is the business of the drain and of the fills, and the packs of the slot keep what they
    were pushed with. The cycles clear a ratchet once they see the slots inactive, but a core that
    leaves a trade enters the next one on the pack it has.

    Where every entry finds the ratchets cleared, and every cycle during a trade finds its position, an
    open leg has only ratchets of its own trade (`ratchets_owned`). -/

namespace FoxTrader

open Lib

/-- The trades that the two ratchets of a pack were written for. -/
structure RatchetOwners where
  sl : Nat
  tp : Nat

namespace RatchetOwners

/-- A ratchet that changes from `p` to `q` is written for the trade `held`. -/
def after (o : RatchetOwners) (p q : GateParameters) (held : Nat) : RatchetOwners where
  sl := if q.ratchetSl.v = p.ratchetSl.v then o.sl else held
  tp := if q.ratchetTp.v = p.ratchetTp.v then o.tp else held

/-- The ratchets of `p` are zero or the trade's. -/
def For (o : RatchetOwners) (p : GateParameters) (trade : Nat) : Prop :=
  (p.ratchetSl.v = 0 ∨ o.sl = trade) ∧ (p.ratchetTp.v = 0 ∨ o.tp = trade)

instance (o : RatchetOwners) (p : GateParameters) (trade : Nat) : Decidable (o.For p trade) :=
  inferInstanceAs (Decidable ((_ ∨ _) ∧ (_ ∨ _)))

theorem For.after {o : RatchetOwners} {p : GateParameters} {trade : Nat} (h : o.For p trade) (q : GateParameters) :
    (o.after p q trade).For q trade := by
  constructor
  · by_cases hsame : q.ratchetSl.v = p.ratchetSl.v
    · refine h.1.imp hsame.trans fun howner => ?_
      exact (if_pos hsame).trans howner
    · exact .inr (if_neg hsame)
  · by_cases hsame : q.ratchetTp.v = p.ratchetTp.v
    · refine h.2.imp hsame.trans fun howner => ?_
      exact (if_pos hsame).trans howner
    · exact .inr (if_neg hsame)

end RatchetOwners

/-- A pack without ratchets. -/
def GateParameters.Cleared (p : GateParameters) : Prop := p.ratchetSl.v = 0 ∧ p.ratchetTp.v = 0

instance (p : GateParameters) : Decidable p.Cleared := inferInstanceAs (Decidable (_ ∧ _))

theorem GateParameters.Cleared.owned {p : GateParameters} (h : p.Cleared) (o : RatchetOwners) (trade : Nat) :
    o.For p trade := ⟨.inl h.1, .inl h.2⟩

/-! ### Runs -/

namespace ExecutionCore

def isOpen (c : ExecutionCore) : Bool := c.active || c.activeB

/-- The tick enters a trade. -/
def opens (c : ExecutionCore) (t : Tick) : Bool := !c.isOpen && (c.tick t).isOpen

end ExecutionCore

/-- A slow path, the number of the core's trade, and whose ratchets are pending and in force. -/
structure OwnedPath where
  path : SlowPath
  trade : Nat
  pending : RatchetOwners
  inForce : RatchetOwners

namespace OwnedPath

/-- A step, and for a cycle the trade whose positions the portfolio has; where it has none, the number does
    not matter. -/
def step (n : NodeIdx) (s : OwnedPath) : SlowAct × Nat → OwnedPath
  | (.cycle x, held) =>
    let pushed := s.path.pushed n x
    let path := s.path.step n (.cycle x)
    let owners := s.pending.after s.path.ctx.node.pendingParams pushed held
    { s with path, inForce := owners, pending := owners.after pushed path.ctx.node.pendingParams held }
  | (.tick t, _) =>
    { s with path := s.path.step n (.tick t), trade := if s.path.core.opens t then s.trade + 1 else s.trade }
  | (a, _) => { s with path := s.path.step n a }

/-- An entry finds no ratchet, in force or pending, and a cycle during a trade finds the trade's position. -/
def KeepsApart (s : OwnedPath) : SlowAct × Nat → Prop
  | (.cycle _, held) => s.path.core.isOpen = true → held = s.trade
  | (.tick t, _) => s.path.core.opens t = true →
    s.path.core.inForce.Cleared ∧ s.path.ctx.node.pendingParams.Cleared
  | _ => True

instance (s : OwnedPath) : (a : SlowAct × Nat) → Decidable (s.KeepsApart a)
  | (.cycle _, held) => inferInstanceAs (Decidable (s.path.core.isOpen = true → held = s.trade))
  | (.tick t, _) => inferInstanceAs (Decidable (s.path.core.opens t = true →
      s.path.core.inForce.Cleared ∧ s.path.ctx.node.pendingParams.Cleared))
  | (.drain, _) => inferInstanceAs (Decidable True)
  | (.revoke, _) => inferInstanceAs (Decidable True)

/-- What an open leg has, and is going to get, is the trade's own. -/
def Owned (s : OwnedPath) : Prop :=
  s.path.core.isOpen = true →
    s.inForce.For s.path.core.inForce s.trade ∧ s.pending.For s.path.ctx.node.pendingParams s.trade

theorem owned_step (n : NodeIdx) (s : OwnedPath) (a : SlowAct × Nat) (h : s.Owned)
    (hok : s.path.CountsOn a.1 ∧ s.KeepsApart a) : (s.step n a).Owned := by
  obtain ⟨a, held⟩ := a
  obtain ⟨hcount, hapart⟩ := hok
  cases a with
  | cycle x =>
    intro hopen
    have hlegs : (s.path.slowPathCycleOneCore n x).core.isOpen = s.path.core.isOpen :=
      congrArg₂ or (s.path.cycle_legs .a).1 (s.path.cycle_legs .b).1
    have hbefore : s.path.core.isOpen = true := hlegs.symm.trans hopen
    obtain rfl := hapart hbefore
    have hforce : (s.path.slowPathCycleOneCore n x).core.inForce = s.path.pushed n x := SlowPath.cycle_inForce hcount
    have hpushed := (h hbefore).2.after (s.path.pushed n x)
    refine ⟨?_, hpushed.after _⟩
    rw [step, SlowPath.step, hforce]
    exact hpushed
  | tick t =>
    intro hopen
    rw [step, SlowPath.step, s.path.core.inForce_tick t]
    cases hopens : s.path.core.opens t with
    | true =>
      obtain ⟨hforce, hpending⟩ := hapart hopens
      exact ⟨hforce.owned _ _, hpending.owned _ _⟩
    | false =>
      have hbefore : s.path.core.isOpen = true := by
        have hafter : (s.path.core.tick t).isOpen = true := hopen
        rw [ExecutionCore.opens, hafter, Bool.and_true, Bool.not_eq_false'] at hopens
        exact hopens
      exact h hbefore
  | drain =>
    intro hopen
    have hforce : (s.step n (.drain, held)).path.core.inForce = s.path.core.inForce :=
      ExecutionCore.inForce_of_held rfl
    rw [hforce]
    exact h hopen
  | revoke =>
    intro hopen
    have hforce : (s.step n (.revoke, held)).path.core.inForce = s.path.core.inForce :=
      ExecutionCore.inForce_of_held rfl
    rw [hforce]
    exact h hopen

def quietOwned : OwnedPath := ⟨quietBoot, 0, ⟨0, 0⟩, ⟨0, 0⟩⟩

def quietTrade (held : Nat) : List (SlowAct × Nat) :=
  [(.cycle (quietInput quietFlat), held), (.tick (quietTick 99), held + 1), (.cycle (quietInput quietHeld), held + 1),
    (.tick (quietTick 99), held + 1)]

end OwnedPath

end FoxTrader
