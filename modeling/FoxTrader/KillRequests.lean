import FoxTrader.KillSwitch

/-! # Kill requests are served once

    Both request words are taken whole by one turn of the pass, so every lane asked for is in the
    first taking after it and in no other. What a pass takes it applies, a lane that names no
    registered node excepted; flags only go up, but for the reset of the very node; and the kill word
    a pass stores is the flags it ends with. -/

namespace FoxTrader

namespace KillState

open Lib Function OrderManagerState

variable {cfg : KillConfig} {c : OmsConfig} {s s' s'' : KillState}

/-! ### What only raises flags -/

/-- No flag falls, none of an unregistered node moves, and the request words are left alone. -/
structure Raises (cfg : KillConfig) (s s' : KillState) : Prop where
  node : ∀ n, (s.nodes n).killTripped = true → (s'.nodes n).killTripped = true
  account : s.killSwitchTripped = true → s'.killSwitchTripped = true
  unregistered : ∀ n : NodeIdx, cfg.registeredCount ≤ n.val → (s'.nodes n).killTripped = (s.nodes n).killTripped
  resets : s'.killResetMask = s.killResetMask
  trips : s'.killTripRequest = s.killTripRequest

theorem Raises.refl (cfg : KillConfig) (s : KillState) :
    Raises cfg s s := ⟨fun _ h => h, id, fun _ _ => rfl, rfl, rfl⟩

theorem Raises.trans (h : Raises cfg s s') (h' : Raises cfg s' s'') : Raises cfg s s'' :=
  ⟨fun n hn => h'.node n (h.node n hn), fun hs => h'.account (h.account hs),
    fun n hn => (h'.unregistered n hn).trans (h.unregistered n hn), h'.resets.trans h.resets, h'.trips.trans h.trips⟩

variable (cfg) in
theorem raises_killSwitchTrip (s : KillState) :
    Raises cfg s (s.killSwitchTrip cfg) ∧ (s.killSwitchTrip cfg).killSwitchTripped = true := by
  unfold killSwitchTrip clearAllPermissions
  split
  next h => exact ⟨⟨fun _ hn => hn, id, fun _ _ => rfl, rfl, rfl⟩, h⟩
  next => exact ⟨⟨fun _ hn => hn, fun _ => rfl, fun _ _ => rfl, rfl, rfl⟩, rfl⟩

variable (cfg c) in
theorem raises_fatalLane (s : KillState) (site : Fin 16) :
    Raises cfg s (s.fatalLane cfg c site).val ∧ (s.fatalLane cfg c site).val.killSwitchTripped = true := by
  obtain ⟨⟨hnode, haccount, hunregistered, hresets, htrips⟩, hset⟩ := raises_killSwitchTrip cfg s
  exact ⟨⟨hnode, haccount, hunregistered, hresets, htrips⟩, hset⟩

variable (cfg c) in
/-- The fatal lanes raise flags only, and any of them the account's. -/
theorem raises_fatalLanes :
    ∀ (sites : List (Fin 16)) (s : KillState), Raises cfg s (sites.foldlM (fatalLane cfg c) s).val ∧
    (sites ≠ [] → (sites.foldlM (fatalLane cfg c) s).val.killSwitchTripped = true)
  | [], s => ⟨.refl cfg s, fun h => absurd rfl h⟩
  | site :: sites, s => by
    obtain ⟨hraises, hset⟩ := raises_fatalLane cfg c s site
    obtain ⟨ihraises, -⟩ := raises_fatalLanes sites (s.fatalLane cfg c site).val
    rw [List.foldlM_cons, Flagged.bind_val]
    exact ⟨hraises.trans ihraises, fun _ => ihraises.account hset⟩

theorem killTripped_tripNode (k : KillNode) : (tripNode k).killTripped = true := by
  unfold tripNode
  split
  next h => exact h
  next => rfl

theorem killTripped_judgeNode {k : KillNode} (h : k.killTripped = true) (threshold minKillLoss dd drop : Money) :
    (judgeNode threshold minKillLoss dd drop k).killTripped = true := by
  unfold judgeNode
  split
  · exact killTripped_tripNode k
  · exact h

theorem killTripped_evalNode (s : KillState) (currentPrice : Money) (n : NodeIdx)
    (h : (s.nodes n).killTripped = true) :
    (s.evalNode cfg c currentPrice n).val.killTripped = true := by
  simp only [evalNode, Flagged.bind_val, Flagged.pure_val]
  exact killTripped_judgeNode (by exact h) _ _ _ _

/-- The valuation of a registered node. -/
theorem raises_evalNodeTurn (s : KillState) (currentPrice : Money) {n : NodeIdx} (hn : n.val < cfg.registeredCount) :
    Raises cfg s (evalNodeTurn cfg c currentPrice s n).val := by
  have hnodes : ∀ m, m ≠ n → (evalNodeTurn cfg c currentPrice s n).val.nodes m = s.nodes m :=
    fun m hm => update_of_ne hm ..
  refine ⟨fun m hm => ?_, id, fun m hm => ?_, rfl, rfl⟩
  · by_cases heq : m = n
    · subst heq
      have hself : (evalNodeTurn cfg c currentPrice s m).val.nodes m = (s.evalNode cfg c currentPrice m).val :=
        update_self ..
      rw [hself]
      exact killTripped_evalNode s currentPrice m hm
    · rwa [hnodes m heq]
  · rw [hnodes m fun heq => by subst heq; omega]

variable (cfg c) in
theorem raises_evalNodes (s : KillState) (currentPrice : Money) :
    Raises cfg s (s.evalNodes cfg c currentPrice).val := by
  have hns : ∀ (ns : List NodeIdx), (∀ n ∈ ns, n.val < cfg.registeredCount) → ∀ s' : KillState,
      Raises cfg s' (ns.foldlM (evalNodeTurn cfg c currentPrice) s').val := by
    intro ns
    induction ns with
    | nil => exact fun _ s' => .refl cfg s'
    | cons n ns ih =>
      intro hns s'
      rw [List.foldlM_cons, Flagged.bind_val]
      exact (raises_evalNodeTurn s' currentPrice (hns n List.mem_cons_self)).trans
        (ih (fun m hm => hns m (List.mem_cons_of_mem n hm)) _)
  exact hns (registered cfg) (fun n hn => of_decide_eq_true (List.mem_filter.1 hn).2) s

variable (cfg) in
theorem raises_killSwitchEvaluate (s : KillState) : Raises cfg s (s.killSwitchEvaluate cfg).val := by
  unfold killSwitchEvaluate
  split
  · exact .refl cfg s
  · simp only [Flagged.bind_val, Flagged.pure_val]
    split
    · exact (raises_killSwitchTrip cfg s).1
    · exact .refl cfg s

variable (cfg c) in
theorem raises_finish (s : KillState) (currentPrice : Money) (drags : List DragCmd) :
    Raises cfg s (s.finish cfg c currentPrice drags).val := by
  let s₁ : KillState := { s with oms := { s.oms with books := { s.oms.books with
    portfolio := drags.foldl applyDrag s.oms.books.portfolio } } }
  have hdrags : Raises cfg s s₁ := ⟨fun _ h => h, id, fun _ _ => rfl, rfl, rfl⟩
  have hnodes := raises_evalNodes cfg c s₁ currentPrice
  have haccount := raises_killSwitchEvaluate cfg (s₁.evalNodes cfg c currentPrice).val
  obtain ⟨hnode, hset, hunregistered, hresets, htrips⟩ := (hdrags.trans hnodes).trans haccount
  exact ⟨hnode, hset, hunregistered, hresets, htrips⟩

/-! ### The kill word -/

theorem getLsbD_foldl_or {α : Type} (mask : α → BitVec 64) (up : α → Prop) [DecidablePred up] (i : ℕ) :
    ∀ (xs : List α) (word : BitVec 64),
      (xs.foldl (fun word x => if up x then word ||| mask x else word) word).getLsbD i = true ↔
        word.getLsbD i = true ∨ ∃ x ∈ xs, up x ∧ (mask x).getLsbD i = true
  | [], word => by simp
  | x :: xs, word => by
    rw [List.foldl_cons, getLsbD_foldl_or mask up i xs]
    by_cases hx : up x
    · rw [if_pos hx, BitVec.getLsbD_or, Bool.or_eq_true, or_assoc]
      simp [hx]
    · rw [if_neg hx]
      simp [hx]

theorem getLsbD_killwordNodeMask (n : NodeIdx) (i : ℕ) : (killwordNodeMask n).getLsbD i = true ↔ i = 16 + n.val := by
  have hn := n.isLt
  rw [killwordNodeMask, BitVec.getLsbD_shiftLeft]
  simp only [Bool.and_eq_true, Bool.not_eq_true', decide_eq_true_eq, decide_eq_false_iff_not, BitVec.getLsbD_one]
  omega

/-- The flags, as the kill word should hold them. -/
def WordIsFlags (s : KillState) (word : BitVec 64) : Prop :=
  ∀ i, word.getLsbD i = true ↔ (i = 0 ∧ s.killSwitchTripped = true) ∨ ∃ n, i = 16 + n.val ∧
    (s.nodes n).killTripped = true

/-- No flag of an unregistered node is up. -/
def Tidy (cfg : KillConfig) (s : KillState) : Prop :=
  ∀ n : NodeIdx, cfg.registeredCount ≤ n.val → (s.nodes n).killTripped = false

theorem wordIsFlags_composeKillWord (h : Tidy cfg s) : WordIsFlags s (s.composeKillWord cfg) := by
  intro i
  have hregistered : ∀ n, (s.nodes n).killTripped = true → n.val < cfg.registeredCount := fun n hn =>
    Nat.lt_of_not_le fun hle => Bool.false_ne_true ((h n hle).symm.trans hn)
  have haccount : (if s.killSwitchTripped = true then killwordMaskGlobal else 0).getLsbD i = true ↔
      i = 0 ∧ s.killSwitchTripped = true := by
    split
    next hset => simp [killwordMaskGlobal, hset]
    next hclear => simp [hclear]
  rw [composeKillWord, getLsbD_foldl_or, haccount]
  refine or_congr_right ⟨?_, ?_⟩
  · rintro ⟨n, -, hn, hmask⟩
    exact ⟨n, (getLsbD_killwordNodeMask n i).1 hmask, hn.2⟩
  · rintro ⟨n, hi, hn⟩
    exact ⟨n, List.mem_finRange n, ⟨hregistered n hn, hn⟩, (getLsbD_killwordNodeMask n i).2 hi⟩

/-! ### What one turn does -/

/-- The turn is the composer's, and the composer stands at `phase`. -/
def Composes (s : KillState) (a : Act) (phase : ComposePhase) : Prop :=
  s.phase = phase ∧ ∃ currentPrice drags, a = .compose currentPrice drags

/-- The fatal lanes consumed so far. -/
def fatalSeq (s : KillState) : Nat := s.oms.books.composer.els.agg.killTripFatalSeq

/-- What a turn keeps, what it may clear, and what it applies of the requests it takes. -/
structure Turn (cfg : KillConfig) (s : KillState) (a : Act) (s' : KillState) : Prop where
  account : s.killSwitchTripped = true → s'.killSwitchTripped = true
  cleared : ∀ n, (s.nodes n).killTripped = true → (s'.nodes n).killTripped = false →
    Composes s a .idle ∧ s.killResetMask.getLsbD n.val = true
  reset : Composes s a .idle → ∀ n : NodeIdx, s.killResetMask.getLsbD n.val = true →
    s'.nodes n = resetNode (s.nodes n)
  trip : Composes s a .resetsTaken → ∀ n : NodeIdx, n.val < cfg.registeredCount →
    s.killTripRequest.getLsbD n.val = true →
    (s'.nodes n).killTripped = true
  fatal : Composes s a .resetsTaken → ∀ site : Fin 16, s.killTripRequest.getLsbD (16 + site.val) = true →
    s'.killSwitchTripped = true
  counted : Composes s a .resetsTaken → s'.fatalSeq = s.fatalSeq + (globalLanes s.killTripRequest).length
  published : Composes s a .tripsTaken → WordIsFlags s' s'.killWord ∧
    s'.publish.map (·.killWordCopy) = some s'.killWord

theorem turn_takeResets (s : KillState) (currentPrice : Money) (drags : List DragCmd) (hphase : s.phase = .idle) :
    Turn cfg s (.compose currentPrice drags) (s.takeResets c).val ∧ (Tidy cfg s → Tidy cfg (s.takeResets c).val) := by
  have hnodes : (s.takeResets c).val.nodes =
      fun n => if s.killResetMask.getLsbD n.val then resetNode (s.nodes n) else s.nodes n := rfl
  have hidle : Composes s (.compose currentPrice drags) .idle := ⟨hphase, _, _, rfl⟩
  have hnot : ∀ phase, phase ≠ .idle → ¬Composes s (.compose currentPrice drags) phase :=
    fun phase hne h => hne (h.1.symm.trans hphase)
  refine ⟨⟨id, fun n hn hcleared => ?_, fun _ n hlane => ?_, fun h => absurd h (hnot _ (by decide)), fun h => absurd h (hnot _ (by decide)),
    fun h => absurd h (hnot _ (by decide)), fun h => absurd h (hnot _ (by decide))⟩, fun htidy n hn => ?_⟩
  · rw [hnodes] at hcleared
    by_cases hlane : s.killResetMask.getLsbD n.val = true
    · exact ⟨hidle, hlane⟩
    · simp only [if_neg hlane] at hcleared
      exact absurd (hcleared.symm.trans hn) Bool.false_ne_true
  · rw [hnodes]
    exact if_pos hlane
  · rw [hnodes]
    show (if s.killResetMask.getLsbD n.val = true then resetNode (s.nodes n) else s.nodes n).killTripped = false
    split
    · rfl
    · exact htidy n hn

theorem fatalSeq_fatalLane (s : KillState) (site : Fin 16) :
    (s.fatalLane cfg c site).val.fatalSeq = s.fatalSeq + 1 := by
  have hbooks : (s.killSwitchTrip cfg).oms = s.oms := by
    unfold killSwitchTrip clearAllPermissions
    split <;> rfl
  simp only [fatalLane, fatalSeq, Flagged.bind_val, Flagged.pure_val, hbooks]
  unfold Composer.fatalMarker
  split <;> rfl

theorem fatalSeq_fatalLanes : ∀ (sites : List (Fin 16)) (s : KillState),
    (sites.foldlM (fatalLane cfg c) s).val.fatalSeq = s.fatalSeq + sites.length
  | [], _ => rfl
  | site :: sites, s => by
    rw [List.foldlM_cons, Flagged.bind_val, fatalSeq_fatalLanes sites, fatalSeq_fatalLane, List.length_cons]
    omega

theorem turn_takeTrips (s : KillState) (currentPrice : Money) (drags : List DragCmd)
    (hphase : s.phase = .resetsTaken) :
    Turn cfg s (.compose currentPrice drags) (s.takeTrips cfg c).val ∧
      (Tidy cfg s → Tidy cfg (s.takeTrips cfg c).val) := by
  let s₁ : KillState := { s with
    nodes := fun n =>
      if n.val < cfg.registeredCount ∧ s.killTripRequest.getLsbD n.val then tripNode (s.nodes n) else s.nodes n
    killTripRequest := 0, phase := .tripsTaken }
  have hval : (s.takeTrips cfg c).val = ((globalLanes s.killTripRequest).foldlM (fatalLane cfg c) s₁).val := rfl
  obtain ⟨hraises, hset⟩ := raises_fatalLanes cfg c (globalLanes s.killTripRequest) s₁
  have hnot : ∀ phase, phase ≠ .resetsTaken → ¬Composes s (.compose currentPrice drags) phase :=
    fun phase hne h => hne (h.1.symm.trans hphase)
  have hnodes : ∀ n, (s.nodes n).killTripped = true → (s₁.nodes n).killTripped = true := by
    intro n hn
    show (if n.val < cfg.registeredCount ∧ s.killTripRequest.getLsbD n.val = true then tripNode (s.nodes n)
      else s.nodes n).killTripped = true
    split
    · exact killTripped_tripNode _
    · exact hn
  rw [hval]
  refine ⟨⟨fun h => hraises.account h, fun n hn hcleared => ?_, fun h => absurd h (hnot _ (by decide)), fun _ n hn hlane => ?_,
    fun _ site hlane => hset (List.ne_nil_of_mem (List.mem_filter.2 ⟨List.mem_finRange site, hlane⟩)), fun _ =>
      fatalSeq_fatalLanes _ s₁, fun h => absurd h (hnot _ (by decide))⟩,
    fun htidy n hn => ?_⟩
  · exact absurd (hcleared.symm.trans (hraises.node n (hnodes n hn))) Bool.false_ne_true
  · refine hraises.node n ?_
    show (if n.val < cfg.registeredCount ∧ s.killTripRequest.getLsbD n.val = true then tripNode (s.nodes n)
      else s.nodes n).killTripped = true
    rw [if_pos ⟨hn, hlane⟩]
    exact killTripped_tripNode _
  · rw [hraises.unregistered n hn]
    show (if n.val < cfg.registeredCount ∧ s.killTripRequest.getLsbD n.val = true then tripNode (s.nodes n)
      else s.nodes n).killTripped = false
    rw [if_neg fun h => absurd h.1 (by omega)]
    exact htidy n hn

/-- What the pass has before it stores the kill word. -/
def evaluated (cfg : KillConfig) (c : OmsConfig) (s : KillState) (currentPrice : Money) (drags : List DragCmd) :
    KillState :=
  let books := { s.oms.books with portfolio := drags.foldl applyDrag s.oms.books.portfolio }
  (killSwitchEvaluate cfg ({ s with oms := { s.oms with books } }.evalNodes cfg c currentPrice).val).val

theorem turn_finish (s : KillState) (currentPrice : Money) (drags : List DragCmd) (hphase : s.phase = .tripsTaken)
    (htidy : Tidy cfg s) :
    Turn cfg s (.compose currentPrice drags) (s.finish cfg c currentPrice drags).val ∧
      Tidy cfg (s.finish cfg c currentPrice drags).val := by
  have hraises := raises_finish cfg c s currentPrice drags
  have htidy' : Tidy cfg (s.finish cfg c currentPrice drags).val :=
    fun n hn => (hraises.unregistered n hn).trans (htidy n hn)
  have hnot : ∀ phase, phase ≠ .tripsTaken → ¬Composes s (.compose currentPrice drags) phase :=
    fun phase hne h => hne (h.1.symm.trans hphase)
  have hword : WordIsFlags (evaluated cfg c s currentPrice drags)
    ((evaluated cfg c s currentPrice drags).composeKillWord cfg) :=
    wordIsFlags_composeKillWord htidy'
  exact ⟨⟨hraises.account, fun n hn hcleared => absurd (hcleared.symm.trans (hraises.node n hn)) Bool.false_ne_true,
    fun h => absurd h (hnot _ (by decide)), fun h => absurd h (hnot _ (by decide)), fun h =>
      absurd h (hnot _ (by decide)),
    fun h => absurd h (hnot _ (by decide)), fun _ => ⟨hword, rfl⟩⟩, htidy'⟩

/-- A turn that is not the composer's leaves the flags alone. -/
theorem turn_of_same {a : Act} (hnodes : s'.nodes = s.nodes) (haccount : s'.killSwitchTripped = s.killSwitchTripped)
    (hnot : ∀ currentPrice drags, a ≠ .compose currentPrice drags) : Turn cfg s a s' := by
  have hcompose : ∀ phase, ¬Composes s a phase := fun phase ⟨_, currentPrice, drags, heq⟩ =>
    hnot currentPrice drags heq
  exact ⟨fun h => haccount.trans h, fun n hn hcleared =>
    absurd (hcleared.symm.trans (hnodes ▸ hn)) Bool.false_ne_true,
    fun h => absurd h (hcompose _), fun h => absurd h (hcompose _), fun h => absurd h (hcompose _), fun h =>
      absurd h (hcompose _),
    fun h => absurd h (hcompose _)⟩

/-- The status word is none of the flags. -/
theorem Turn.step {a : Act} (h : Turn cfg s a (s.act cfg c a).val ∧ Tidy cfg (s.act cfg c a).val) :
    Turn cfg s a (s.step cfg c a) ∧ Tidy cfg (s.step cfg c a) := by
  obtain ⟨⟨haccount, hcleared, hreset, htrip, hfatal, hcounted, hpublished⟩, htidy⟩ := h
  exact ⟨⟨haccount, hcleared, hreset, htrip, hfatal, hcounted, hpublished⟩, htidy⟩

theorem turn_step (s : KillState) (a : Act) (htidy : Tidy cfg s) :
    Turn cfg s a (s.step cfg c a) ∧ Tidy cfg (s.step cfg c a) := by
  refine Turn.step ?_
  cases a with
  | requestTrip lanes => exact ⟨turn_of_same rfl rfl fun _ _ => Act.noConfusion, htidy⟩
  | requestReset n => exact ⟨turn_of_same rfl rfl fun _ _ => Act.noConfusion, htidy⟩
  | own a =>
    rw [act]
    split
    · exact ⟨turn_of_same rfl rfl fun _ _ => Act.noConfusion, htidy⟩
    · exact ⟨turn_of_same rfl rfl fun _ _ => Act.noConfusion, htidy⟩
  | compose currentPrice drags =>
    rw [act, composeTurn]
    rcases hphase : s.phase with _ | _ | _
    · exact (turn_takeResets s currentPrice drags hphase).imp_right fun h => h htidy
    · exact (turn_takeTrips s currentPrice drags hphase).imp_right fun h => h htidy
    · exact turn_finish s currentPrice drags hphase htidy

/-! ### What the request words see -/

/-- What a turn does to the trip word. -/
def tripEvents (s : KillState) (a : Act) : List (WordEvent 32) :=
  match a with
  | .requestTrip lanes => [.requested lanes]
  | .compose _ _ => if s.phase = .resetsTaken then [.taken s.killTripRequest] else []
  | _ => []

/-- What a turn does to the reset mask. -/
def resetEvents (s : KillState) (a : Act) : List (WordEvent 32) :=
  match a with
  | .requestReset n => [.requested (killTripLaneNode n)]
  | .compose _ _ => if s.phase = .idle then [.taken s.killResetMask] else []
  | _ => []

variable (cfg c) in
theorem words_composeTurn (s : KillState) (currentPrice : Money) (drags : List DragCmd) :
    (s.composeTurn cfg c currentPrice drags).val.killTripRequest =
      (if s.phase = .resetsTaken then 0 else s.killTripRequest) ∧
      (s.composeTurn cfg c currentPrice drags).val.killResetMask =
        (if s.phase = .idle then 0 else s.killResetMask) := by
  rw [composeTurn]
  rcases hphase : s.phase with _ | _ | _
  · exact ⟨rfl, rfl⟩
  · have hraises := (raises_fatalLanes cfg c (globalLanes s.killTripRequest)
      { s with
        nodes := fun n =>
          if n.val < cfg.registeredCount ∧ s.killTripRequest.getLsbD n.val then tripNode (s.nodes n) else s.nodes n
        killTripRequest := 0, phase := .tripsTaken }).1
    exact ⟨hraises.trips, hraises.resets⟩
  · have hraises := raises_finish cfg c s currentPrice drags
    exact ⟨hraises.trips, hraises.resets⟩

variable (cfg c) in
/-- Every turn leaves both words as its events say. -/
theorem words_step (s : KillState) (a : Act) :
    ((s.step cfg c a).killTripRequest = WordEvent.wordAfter s.killTripRequest (tripEvents s a) ∧
        WordEvent.Served s.killTripRequest (tripEvents s a)) ∧
      ((s.step cfg c a).killResetMask = WordEvent.wordAfter s.killResetMask (resetEvents s a) ∧
        WordEvent.Served s.killResetMask (resetEvents s a)) := by
  cases a with
  | requestTrip lanes => exact ⟨⟨rfl, trivial⟩, rfl, trivial⟩
  | requestReset n => exact ⟨⟨rfl, trivial⟩, rfl, trivial⟩
  | own a =>
    have hwords : (s.step cfg c (.own a)).killTripRequest = s.killTripRequest ∧
        (s.step cfg c (.own a)).killResetMask = s.killResetMask := by
      rw [step, act]
      split <;> exact ⟨rfl, rfl⟩
    exact ⟨⟨hwords.1, trivial⟩, hwords.2, trivial⟩
  | compose currentPrice drags =>
    obtain ⟨htrips, hresets⟩ := words_composeTurn cfg c s currentPrice drags
    have hstep : (s.step cfg c (.compose currentPrice drags)).killTripRequest =
          (s.composeTurn cfg c currentPrice drags).val.killTripRequest ∧
        (s.step cfg c (.compose currentPrice drags)).killResetMask =
          (s.composeTurn cfg c currentPrice drags).val.killResetMask := ⟨rfl, rfl⟩
    rw [hstep.1, hstep.2, htrips, hresets, tripEvents, resetEvents]
    refine ⟨?_, ?_⟩
    · split
      · exact ⟨rfl, rfl, trivial⟩
      · exact ⟨rfl, trivial⟩
    · split
      · exact ⟨rfl, rfl, trivial⟩
      · exact ⟨rfl, trivial⟩

/-- Nothing asked for yet, and no flag of an unregistered node up. -/
structure Fresh (cfg : KillConfig) (s : KillState) : Prop where
  trips : s.killTripRequest = 0
  resets : s.killResetMask = 0
  tidy : Tidy cfg s

/-- The promise of the kill requests, for a whole run. -/
structure Honoured (cfg : KillConfig) (c : OmsConfig) (s : KillState) (acts : List Act) : Prop where
  trips : WordEvent.ServedOnce (outputs (step cfg c) tripEvents s acts)
  resets : WordEvent.ServedOnce (outputs (step cfg c) resetEvents s acts)
  turns : ∀ before a after, acts = before ++ a :: after →
    Turn cfg (run (step cfg c) s before) a (run (step cfg c) s (before ++ [a]))
  account : ∀ before after, acts = before ++ after → (run (step cfg c) s before).killSwitchTripped = true →
    (run (step cfg c) s acts).killSwitchTripped = true

theorem kill_requests_honoured (hfresh : Fresh cfg s) (acts : List Act) : Honoured cfg c s acts := by
  have htidy : ∀ before, Tidy cfg (run (step cfg c) s before) := fun before =>
    run_inv (fun s a (h : Tidy cfg s) => (turn_step s a h).2) before hfresh.tidy
  refine ⟨?_, ?_, ?_, ?_⟩
  · have hserved : WordEvent.Served s.killTripRequest (outputs (step cfg c) tripEvents s acts) :=
      (WordEvent.served_outputs (fun s a => (words_step cfg c s a).1.1) (fun s a => (words_step cfg c s a).1.2) acts s).1
    rw [hfresh.trips] at hserved
    exact hserved.servedOnce
  · have hserved : WordEvent.Served s.killResetMask (outputs (step cfg c) resetEvents s acts) :=
      (WordEvent.served_outputs (fun s a => (words_step cfg c s a).2.1) (fun s a => (words_step cfg c s a).2.2) acts s).1
    rw [hfresh.resets] at hserved
    exact hserved.servedOnce
  · rintro before a after -
    rw [run_append, run_cons, run_nil]
    exact (turn_step _ a (htidy before)).1
  · rintro before after rfl hset
    rw [run_append]
    have hkept : ∀ s' : KillState, ∀ a, (Tidy cfg s' ∧ s'.killSwitchTripped = true) →
        (Tidy cfg (step cfg c s' a) ∧ (step cfg c s' a).killSwitchTripped = true) := fun s' a h =>
      ⟨(turn_step s' a h.1).2, (turn_step s' a h.1).1.account h.2⟩
    exact (run_inv hkept after ⟨htidy before, hset⟩).2

/-- One registered node, and limits that nothing passes. -/
def sampleKillConfig : KillConfig :=
  { registeredCount := 1, mtmKillSwitchEnabled := false, maxDrawdownPct := sampleRate, nodeMaxDrawdownPct := fun _ => .zero
    minKillLoss := .zero, ksMinBalance := .zero, ksMaxDrawdownPct := .zero }

/-- A node with nothing allocated. -/
def sampleKillNode : KillNode :=
  { killTripped := false, driftKillTripped := false, nodePeakBalance := .zero, nodeDdPct := .zero,
    nodeUnrealizedView := .zero
    allocatedBalance := .zero, nodeKsTripsTotal := 0 }

/-- A fresh boot. -/
def sampleKillBoot : KillState :=
  { oms := .init (Money.fromInt 1000).val none, nodes := fun _ => sampleKillNode, killSwitchTripped := false,
    ksTripsTotal := 0
    permission := fun _ => 1, killResetMask := 0, killTripRequest := 0, killWord := 0, publish := none,
      phase := .idle }

/-- A trip request for `n`, and a whole pass. -/
def samplePass (n : NodeIdx) : List Act :=
  [.requestTrip (killTripLaneNode n), .compose .zero [], .compose .zero [], .compose .zero []]

theorem kill_requests_honoured_one_pass :
    Honoured sampleKillConfig samplePaper sampleKillBoot (samplePass firstIdx) :=
  kill_requests_honoured ⟨rfl, rfl, fun _ _ => rfl⟩ _

/-- The request for a node that is not registered is taken, and nothing comes of it. -/
theorem kill_request_ignored :
    (run (step sampleKillConfig samplePaper) sampleKillBoot (samplePass nextIdx)).killTripRequest = 0 ∧
      ((run (step sampleKillConfig samplePaper) sampleKillBoot (samplePass nextIdx)).nodes nextIdx).killTripped = false := by
  decide +kernel

end KillState

end FoxTrader
