import FoxTrader.KillRequests

/-! # Resets of a node's kill switch

    The first turn of a pass takes a reset: it clears the node's flag and its peak. The last turn of the
    same pass finds no peak, takes the allocation for it and judges the node again, so the reset holds
    only where the node has not lost too much of its allocation. -/

namespace FoxTrader

namespace KillState

open Lib Function OrderManagerState

variable {cfg : KillConfig} {c : OmsConfig}

/-! ### Passes -/

def Act.isCompose : Act → Bool
  | .compose _ _ => true
  | _ => false

/-- The three turns of one pass, and what the other threads do between them. -/
structure Pass where
  currentPrice : Money
  drags : List DragCmd
  afterResets : List Act
  afterTrips : List Act
  quietResets : ∀ a ∈ afterResets, a.isCompose = false
  quietTrips : ∀ a ∈ afterTrips, a.isCompose = false

def Pass.turn (p : Pass) : Act := .compose p.currentPrice p.drags

/-- Up to the turn that takes the trip requests. -/
def Pass.toTrips (p : Pass) : List Act := p.turn :: p.afterResets

/-- Up to the turn that judges the nodes. -/
def Pass.toFinish (p : Pass) : List Act := p.toTrips ++ p.turn :: p.afterTrips

def Pass.acts (p : Pass) : List Act := p.toFinish ++ [p.turn]

/-! ### The judgement of a node -/

/-- The state with the drags applied, in which the nodes are valued. -/
def dragged (s : KillState) (drags : List DragCmd) : KillState :=
  { s with oms := { s.oms with books := { s.oms.books with portfolio := drags.foldl applyDrag s.oms.books.portfolio } } }

/-- The value of a node. -/
def nodeValue (cfg : KillConfig) (c : OmsConfig) (s : KillState) (currentPrice : Money) (n : NodeIdx) : Money :=
  ((s.nodes n).allocatedBalance.add
    ((s.oms.books.composer.els.nodes n).nodeRealized.add (s.unrealized cfg c n currentPrice).val).val).val

/-- The value that the last pass saw, from the pack it published. -/
def lastValue (s : KillState) (n : NodeIdx) : Option Money :=
  s.publish.map fun pack => ((pack.rows n).alloc.add ((pack.rows n).realized.add (pack.rows n).unrealized).val).val

/-- A node with this peak and this value is past its limit and lost enough. -/
def breaches (cfg : KillConfig) (n : NodeIdx) (peak value : Money) : Bool :=
  let drop := (peak.sub value).val
  let dd := if drop.gt .zero && peak.gt .zero then (drop.div peak).val else .zero
  let threshold := if !(cfg.nodeMaxDrawdownPct n).isZero then cfg.nodeMaxDrawdownPct n else cfg.maxDrawdownPct
  dd.gt threshold && drop.gt cfg.minKillLoss

/-- The same without a peak: the node is measured from its allocation. -/
def breachesAfresh (cfg : KillConfig) (n : NodeIdx) (alloc value : Money) : Bool :=
  breaches cfg n (alloc.max value) value

theorem killTripped_judgeNode_eq (threshold minKillLoss dd drop : Money) (k : KillNode) :
    (judgeNode threshold minKillLoss dd drop k).killTripped =
      (k.killTripped || (dd.gt threshold && drop.gt minKillLoss)) := by
  rw [judgeNode]
  split
  next h => rw [killTripped_tripNode, h, Bool.or_true]
  next h => rw [Bool.eq_false_iff.2 h, Bool.or_false]

/-- A node without a peak. -/
theorem killTripped_evalNode_eq (s : KillState) (currentPrice : Money) (n : NodeIdx)
    (hpeak : (s.nodes n).nodePeakBalance = .zero) :
    (s.evalNode cfg c currentPrice n).val.killTripped =
      ((s.nodes n).killTripped ||
        breachesAfresh cfg n (s.nodes n).allocatedBalance (nodeValue cfg c s currentPrice n)) := by
  simp only [evalNode, Flagged.bind_val, Flagged.pure_val, killTripped_judgeNode_eq]
  have hzero : (s.nodes n).nodePeakBalance.isZero = true := by
    rw [hpeak]
    rfl
  rw [if_pos hzero, breachesAfresh, breaches, nodeValue]
  split <;> rfl

/-! ### The last turn -/

section Finish
variable (cfg c)

theorem oms_evalNodeTurn (currentPrice : Money) (s : KillState) (n : NodeIdx) :
    (evalNodeTurn cfg c currentPrice s n).val.oms = s.oms := rfl

theorem nodes_evalNodeTurn (currentPrice : Money) (s : KillState) (n : NodeIdx) :
    (evalNodeTurn cfg c currentPrice s n).val.nodes = update s.nodes n (s.evalNode cfg c currentPrice n).val := rfl

/-- A valuation reads its own node and the books. -/
theorem evalNode_congr {s s' : KillState} (currentPrice : Money) {n : NodeIdx} (homs : s'.oms = s.oms)
    (hnode : s'.nodes n = s.nodes n) : s'.evalNode cfg c currentPrice n = s.evalNode cfg c currentPrice n := by
  unfold evalNode unrealized heldSlots
  rw [homs, hnode]

/-- The loop leaves the other nodes alone and values each of its own once. -/
theorem nodes_foldlM_evalNodeTurn (currentPrice : Money) :
    ∀ (ns : List NodeIdx) (s : KillState), ns.Nodup →
      (ns.foldlM (evalNodeTurn cfg c currentPrice) s).val.oms = s.oms ∧
        ∀ n, (ns.foldlM (evalNodeTurn cfg c currentPrice) s).val.nodes n =
          if n ∈ ns then (s.evalNode cfg c currentPrice n).val else s.nodes n
  | [], s, _ => ⟨rfl, fun n => (if_neg List.not_mem_nil).symm⟩
  | m :: ns, s, hnodup => by
    obtain ⟨hfresh, hrest⟩ := List.nodup_cons.1 hnodup
    obtain ⟨ihoms, ih⟩ := nodes_foldlM_evalNodeTurn currentPrice ns (evalNodeTurn cfg c currentPrice s m).val hrest
    rw [List.foldlM_cons, Flagged.bind_val]
    refine ⟨ihoms, fun n => ?_⟩
    rw [ih n, nodes_evalNodeTurn]
    by_cases heq : n = m
    · subst heq
      rw [if_neg hfresh, if_pos List.mem_cons_self, update_self]
    · have hother : (evalNodeTurn cfg c currentPrice s m).val.nodes n = s.nodes n := update_of_ne heq ..
      rw [evalNode_congr cfg c currentPrice (oms_evalNodeTurn cfg c currentPrice s m) hother, update_of_ne heq]
      simp only [List.mem_cons, heq, false_or]

theorem mem_registered (n : NodeIdx) : n ∈ registered cfg ↔ n.val < cfg.registeredCount := by
  simp [registered]

theorem nodes_killSwitchEvaluate (s : KillState) : (s.killSwitchEvaluate cfg).val.nodes = s.nodes ∧
    (s.killSwitchEvaluate cfg).val.oms = s.oms := by
  unfold killSwitchEvaluate
  split
  · exact ⟨rfl, rfl⟩
  · simp only [Flagged.bind_val, Flagged.pure_val]
    split
    · unfold killSwitchTrip clearAllPermissions
      split <;> exact ⟨rfl, rfl⟩
    · exact ⟨rfl, rfl⟩

/-- A registered node behind the last turn is the node as it was valued. -/
theorem nodes_finish (s : KillState) (currentPrice : Money) (drags : List DragCmd) {n : NodeIdx}
    (hn : n.val < cfg.registeredCount) :
    (s.finish cfg c currentPrice drags).val.nodes n = ((s.dragged drags).evalNode cfg c currentPrice n).val := by
  have hfinish : (s.finish cfg c currentPrice drags).val.nodes =
      (killSwitchEvaluate cfg ((s.dragged drags).evalNodes cfg c currentPrice).val).val.nodes := rfl
  have hnodup : (registered cfg).Nodup := (List.nodup_finRange 16).filter _
  rw [hfinish, (nodes_killSwitchEvaluate cfg _).1, evalNodes,
    (nodes_foldlM_evalNodeTurn cfg c currentPrice (registered cfg) (s.dragged drags) hnodup).2 n,
    if_pos ((mem_registered cfg n).2 hn)]

/-- The pack holds the value that the pass saw. -/
theorem lastValue_finish (s : KillState) (currentPrice : Money) (drags : List DragCmd) {n : NodeIdx}
    (hn : n.val < cfg.registeredCount) :
    (s.finish cfg c currentPrice drags).val.lastValue n =
      some (nodeValue cfg c (s.dragged drags) currentPrice n) := by
  let s' := (killSwitchEvaluate cfg ((s.dragged drags).evalNodes cfg c currentPrice).val).val
  have hnodup : (registered cfg).Nodup := (List.nodup_finRange 16).filter _
  have hloop := nodes_foldlM_evalNodeTurn cfg c currentPrice (registered cfg) (s.dragged drags) hnodup
  have hnode : s'.nodes n = ((s.dragged drags).evalNode cfg c currentPrice n).val :=
    nodes_finish cfg c s currentPrice drags hn
  have homs : s'.oms = (s.dragged drags).oms := (nodes_killSwitchEvaluate cfg _).2.trans hloop.1
  have hpack : (s.finish cfg c currentPrice drags).val.lastValue n = some (((s'.nodes n).allocatedBalance.add
      ((s'.oms.books.composer.els.nodes n).nodeRealized.add (s'.nodes n).nodeUnrealizedView).val).val) := rfl
  have hfields : ∀ (threshold minKillLoss dd drop : Money) (k : KillNode),
      (judgeNode threshold minKillLoss dd drop k).allocatedBalance = k.allocatedBalance ∧
        (judgeNode threshold minKillLoss dd drop k).nodeUnrealizedView = k.nodeUnrealizedView := by
    intro threshold minKillLoss dd drop k
    unfold judgeNode tripNode
    split
    · split <;> exact ⟨rfl, rfl⟩
    · exact ⟨rfl, rfl⟩
  rw [hpack, hnode, homs, nodeValue]
  simp only [evalNode, Flagged.bind_val, Flagged.pure_val, (hfields _ _ _ _ _).1, (hfields _ _ _ _ _).2]

end Finish

/-! ### The turns before it -/

section Turns
variable (cfg c)

/-- The other threads leave nodes and phase alone while the pass is under way. -/
theorem nodes_step_of_quiet {s : KillState} {a : Act} (hquiet : a.isCompose = false) (hphase : s.phase ≠ .idle) :
    (s.step cfg c a).nodes = s.nodes ∧ (s.step cfg c a).phase = s.phase := by
  cases a with
  | requestTrip lanes => exact ⟨rfl, rfl⟩
  | requestReset n => exact ⟨rfl, rfl⟩
  | compose currentPrice drags => exact absurd hquiet Bool.true_eq_false.mp
  | own a =>
    rw [step, act, if_neg hphase]
    exact ⟨rfl, rfl⟩

theorem nodes_run_of_quiet (as : List Act) {s : KillState} (hquiet : ∀ a ∈ as, a.isCompose = false)
    (hphase : s.phase ≠ .idle) :
    (run (step cfg c) s as).nodes = s.nodes ∧ (run (step cfg c) s as).phase = s.phase := by
  induction as generalizing s with
  | nil => exact ⟨rfl, rfl⟩
  | cons a as ih =>
    obtain ⟨ha, has⟩ := List.forall_mem_cons.1 hquiet
    obtain ⟨hnodes, hsame⟩ := nodes_step_of_quiet cfg c ha hphase
    obtain ⟨ihnodes, ihphase⟩ := ih has (by rw [hsame]; exact hphase)
    rw [run_cons]
    exact ⟨ihnodes.trans hnodes, ihphase.trans hsame⟩

theorem nodes_step_idle {s : KillState} (currentPrice : Money) (drags : List DragCmd) (hphase : s.phase = .idle) :
    (s.step cfg c (.compose currentPrice drags)).nodes =
        (fun n => if s.killResetMask.getLsbD n.val then resetNode (s.nodes n) else s.nodes n) ∧
      (s.step cfg c (.compose currentPrice drags)).phase = .resetsTaken := by
  rw [step, act, composeTurn, hphase]
  exact ⟨rfl, rfl⟩

theorem nodes_fatalLanes : ∀ (sites : List (Fin 16)) (s : KillState),
    (sites.foldlM (fatalLane cfg c) s).val.nodes = s.nodes ∧ (sites.foldlM (fatalLane cfg c) s).val.phase = s.phase
  | [], _ => ⟨rfl, rfl⟩
  | site :: sites, s => by
    have htrip : (s.killSwitchTrip cfg).nodes = s.nodes ∧ (s.killSwitchTrip cfg).phase = s.phase := by
      unfold killSwitchTrip clearAllPermissions
      split <;> exact ⟨rfl, rfl⟩
    have hlane : (s.fatalLane cfg c site).val.nodes = s.nodes ∧ (s.fatalLane cfg c site).val.phase = s.phase := htrip
    obtain ⟨hnodes, hphase⟩ := nodes_fatalLanes sites (s.fatalLane cfg c site).val
    rw [List.foldlM_cons, Flagged.bind_val]
    exact ⟨hnodes.trans hlane.1, hphase.trans hlane.2⟩

theorem nodes_step_resetsTaken {s : KillState} (currentPrice : Money) (drags : List DragCmd)
    (hphase : s.phase = .resetsTaken) :
    (s.step cfg c (.compose currentPrice drags)).nodes =
        (fun n => if n.val < cfg.registeredCount ∧ s.killTripRequest.getLsbD n.val then tripNode (s.nodes n)
          else s.nodes n) ∧
      (s.step cfg c (.compose currentPrice drags)).phase = .tripsTaken := by
  rw [step, act, composeTurn, hphase]
  exact nodes_fatalLanes cfg c (globalLanes s.killTripRequest) _

end Turns

/-- The value of a node that a pass sees. -/
def valueSeen (cfg : KillConfig) (c : OmsConfig) (s : KillState) (p : Pass) (n : NodeIdx) : Money :=
  nodeValue cfg c ((run (step cfg c) s p.toFinish).dragged p.drags) p.currentPrice n

/-- The pass takes a trip request for the node. -/
def takesTrip (cfg : KillConfig) (c : OmsConfig) (s : KillState) (p : Pass) (n : NodeIdx) : Bool :=
  (run (step cfg c) s p.toTrips).killTripRequest.getLsbD n.val

variable {s : KillState}

/-- A node that was reset, where the last turn of the pass finds it. -/
theorem node_toFinish (p : Pass) {n : NodeIdx} (hn : n.val < cfg.registeredCount) (hidle : s.phase = .idle)
    (hreset : s.killResetMask.getLsbD n.val = true) :
    (run (step cfg c) s p.toFinish).phase = .tripsTaken ∧
      (run (step cfg c) s p.toFinish).nodes n =
        if takesTrip cfg c s p n then tripNode (resetNode (s.nodes n)) else resetNode (s.nodes n) := by
  obtain ⟨hnodes₁, hphase₁⟩ := nodes_step_idle cfg c p.currentPrice p.drags hidle
  obtain ⟨hnodes₂, hphase₂⟩ := nodes_run_of_quiet cfg c p.afterResets p.quietResets
    (s := s.step cfg c p.turn) (by rw [Pass.turn, hphase₁]; exact ComposePhase.noConfusion)
  rw [Pass.turn] at hnodes₂ hphase₂
  have htrips : (run (step cfg c) s p.toTrips).phase = .resetsTaken := hphase₂.trans hphase₁
  have hnode : (run (step cfg c) s p.toTrips).nodes n = resetNode (s.nodes n) := by
    refine (congrFun (hnodes₂.trans hnodes₁) n).trans ?_
    exact if_pos hreset
  obtain ⟨hnodes₃, hphase₃⟩ := nodes_step_resetsTaken cfg c p.currentPrice p.drags htrips
  obtain ⟨hnodes₄, hphase₄⟩ := nodes_run_of_quiet cfg c p.afterTrips p.quietTrips
    (s := (run (step cfg c) s p.toTrips).step cfg c p.turn)
      (by rw [Pass.turn, hphase₃]; exact ComposePhase.noConfusion)
  rw [Pass.turn] at hnodes₄ hphase₄
  rw [Pass.toFinish, run_append, run_cons, Pass.turn]
  refine ⟨hphase₄.trans hphase₃, (congrFun (hnodes₄.trans hnodes₃) n).trans ?_⟩
  rw [hnode, takesTrip]
  simp only [hn, true_and]

/-- What becomes of a reset by the end of its pass. -/
theorem killTripped_pass (p : Pass) {n : NodeIdx} (hn : n.val < cfg.registeredCount) (hidle : s.phase = .idle)
    (hreset : s.killResetMask.getLsbD n.val = true) :
    ((run (step cfg c) s p.acts).nodes n).killTripped =
      (takesTrip cfg c s p n || breachesAfresh cfg n (s.nodes n).allocatedBalance (valueSeen cfg c s p n)) := by
  obtain ⟨hphase, hnode⟩ := node_toFinish (c := c) p hn hidle hreset
  have hlast : (run (step cfg c) s p.acts).nodes n =
      ((run (step cfg c) s p.toFinish).finish cfg c p.currentPrice p.drags).val.nodes n := by
    rw [Pass.acts, run_append, run_cons, run_nil, Pass.turn]
    show (act cfg c (run (step cfg c) s p.toFinish) (.compose p.currentPrice p.drags)).val.nodes n = _
    rw [act, composeTurn, hphase]
  have hdragged : ((run (step cfg c) s p.toFinish).dragged p.drags).nodes n =
    (run (step cfg c) s p.toFinish).nodes n := rfl
  have hfields : ((run (step cfg c) s p.toFinish).nodes n).nodePeakBalance = .zero ∧
      ((run (step cfg c) s p.toFinish).nodes n).allocatedBalance = (s.nodes n).allocatedBalance ∧
        ((run (step cfg c) s p.toFinish).nodes n).killTripped = takesTrip cfg c s p n := by
    rw [hnode]
    cases takesTrip cfg c s p n <;> exact ⟨rfl, rfl, rfl⟩
  rw [hlast, nodes_finish cfg c _ p.currentPrice p.drags hn,
    killTripped_evalNode_eq _ _ _ (by rw [hdragged]; exact hfields.1), hdragged, hfields.2.1, hfields.2.2, valueSeen]

/-! ### Main results -/

/-- The pass that starts in this state takes a reset of a tripped node and sees the value that the pass before
    it saw. -/
structure ResetsAt (cfg : KillConfig) (c : OmsConfig) (s : KillState) (p : Pass) (n : NodeIdx) : Prop where
  idle : s.phase = .idle
  tripped : (s.nodes n).killTripped = true
  requested : s.killResetMask.getLsbD n.val = true
  same : s.lastValue n = some (valueSeen cfg c s p n)

/-- In every pass of a run that takes a reset at an unchanged value, the reset holds. -/
def ResetsHold (cfg : KillConfig) (c : OmsConfig) (s : KillState) (acts : List Act) : Prop :=
  ∀ (before after : List Act) (p : Pass) (n : NodeIdx), acts = before ++ p.acts ++ after →
    ResetsAt cfg c (run (step cfg c) s before) p n →
      ((run (step cfg c) s (before ++ p.acts)).nodes n).killTripped = false

/-- In every such pass the node is not asked to trip, and has not lost too much of its allocation. -/
def ResetsMeet (cfg : KillConfig) (c : OmsConfig) (s : KillState) (acts : List Act) : Prop :=
  ∀ (before after : List Act) (p : Pass) (n : NodeIdx) (value : Money), acts = before ++ p.acts ++ after →
    ResetsAt cfg c (run (step cfg c) s before) p n → (run (step cfg c) s before).lastValue n = some value →
      takesTrip cfg c (run (step cfg c) s before) p n = false ∧
        breachesAfresh cfg n ((run (step cfg c) s before).nodes n).allocatedBalance value = false

/-- A reset holds exactly where the pass takes no trip request for the node and the node, measured from its
    allocation, is within its limits. -/
theorem resets_hold_iff (hfresh : Fresh cfg s) (acts : List Act) :
    ResetsHold cfg c s acts ↔ ResetsMeet cfg c s acts := by
  have htidy : ∀ before, Tidy cfg (run (step cfg c) s before) := fun before =>
    run_inv (fun s a (h : Tidy cfg s) => (turn_step s a h).2) before hfresh.tidy
  have hpass : ∀ (before : List Act) (p : Pass) (n : NodeIdx), ResetsAt cfg c (run (step cfg c) s before) p n →
      (((run (step cfg c) s (before ++ p.acts)).nodes n).killTripped = false ↔
        takesTrip cfg c (run (step cfg c) s before) p n = false ∧
          breachesAfresh cfg n ((run (step cfg c) s before).nodes n).allocatedBalance
            (valueSeen cfg c (run (step cfg c) s before) p n) = false) := by
    intro before p n h
    have hn : n.val < cfg.registeredCount :=
      Nat.lt_of_not_le fun hle => Bool.false_ne_true ((htidy before n hle).symm.trans h.tripped)
    rw [run_append, killTripped_pass p hn h.idle h.requested, Bool.or_eq_false_iff]
  constructor
  · intro hhold before after p n value hacts h hvalue
    cases h.same.symm.trans hvalue
    exact (hpass before p n h).1 (hhold before after p n hacts h)
  · intro hmeet before after p n hacts h
    exact (hpass before p n h).2 (hmeet before after p n _ hacts h h.same)

/-- A hundred allocated to every node. -/
def sampleFunded : KillState :=
  { sampleKillBoot with nodes := fun _ => { sampleKillNode with allocatedBalance := (Money.fromInt 100).val } }

/-- The composer books. -/
def sampleWired : OmsConfig := { samplePaper with aggWired := true }

def sampleQuietPass : Pass where
  currentPrice := .zero
  drags := []
  afterResets := []
  afterTrips := []
  quietResets _ h := absurd h List.not_mem_nil
  quietTrips _ h := absurd h List.not_mem_nil

/-- Ten bought and sold at one price lose two in fees, and the node trips; then a reset is asked for. -/
def sampleLoss : List Act :=
  [.own (.submit (sampleTrade firstIdx .marketBuy 10)), .own .popResult, .own (.submit (sampleTrade firstIdx .marketSell 10)),
    .own .popResult] ++ sampleQuietPass.acts ++ [.requestReset firstIdx]

/-- Where the sample stands when its reset is taken. -/
def sampleTripped : KillState := run (step sampleKillConfig sampleWired) sampleFunded sampleLoss

theorem resets_hold_iff_loss :
    ResetsHold sampleKillConfig sampleWired sampleFunded (sampleLoss ++ sampleQuietPass.acts) ↔
      ResetsMeet sampleKillConfig sampleWired sampleFunded (sampleLoss ++ sampleQuietPass.acts) :=
  resets_hold_iff ⟨rfl, rfl, fun _ _ => rfl⟩ _

/-- The reset is taken at the value that the last pass saw, and the node is tripped again. -/
theorem resets_hold_retripped :
    ¬ResetsHold sampleKillConfig sampleWired sampleFunded (sampleLoss ++ sampleQuietPass.acts) := by
  intro hhold
  have hat : ResetsAt sampleKillConfig sampleWired sampleTripped sampleQuietPass firstIdx :=
    ⟨by decide +kernel, by decide +kernel, by decide +kernel, by decide +kernel⟩
  have hagain : ((run (step sampleKillConfig sampleWired) sampleFunded (sampleLoss ++ sampleQuietPass.acts)).nodes
      firstIdx).killTripped = true := by decide +kernel
  exact Bool.false_ne_true
    ((hhold sampleLoss [] sampleQuietPass firstIdx (List.append_nil _).symm hat).symm.trans hagain)

end KillState

end FoxTrader
