import FoxTrader.PurgeGap

/-! # Labels that do not see the test

    A fold is sound if the prices of its test do not show in the labels it trains on. What a label
    function still asks of the ticks ahead of a sample is its outlook: nothing, the first of two barriers
    touched, the price of one tick, or the furthest price. A label is settled before a tick if that and
    the later ones cannot change it. The gap keeps the test from the labels exactly when each sample
    trained on is settled before the first one tested; a mean distance of the samples does not bring that
    about, nor does any gap for a scan without an end. -/

namespace FoxTrader

namespace Backtest

variable {π ℓ : Type} {F : Floats π ℓ}

/-! ### Other prices -/

/-- The ticks with other prices from the number `T` on. -/
def repriced (T : Nat) (price : Nat → π) (ticks : List (HistoricalTick π)) : List (HistoricalTick π) :=
  ticks.mapIdx fun i t => if T ≤ i then { t with price := price i } else t

/-- The number of ticks in the files before `f`. -/
def ticksUpto (files : List (List (HistoricalTick π))) (f : Nat) : Nat := ((files.take f).map List.length).sum

def repricedFiles (T : Nat) (price : Nat → π) (files : List (List (HistoricalTick π))) :
    List (List (HistoricalTick π)) :=
  files.mapIdx fun f ticks => repriced (T - ticksUpto files f) (fun i => price (ticksUpto files f + i)) ticks

/-- Other prices from the first tested sample on leave the labels a fold trains on as they are. -/
def WalkForwardRun.TestBlind (run : WalkForwardRun π) (ds : DataSet F) (fold : PurgedSplit) : Prop :=
  ∀ price : Nat → π, (∀ i, F.positive (price i)) → ∀ s ∈ run.trainSamples ds fold,
    run.label F (repricedFiles (run.testTick ds fold) price ds.files) s = run.label F ds.files s

/-! ### What a label still depends on -/

/-- Whether a price is further than the furthest so far. -/
def Floats.beyond (F : Floats π ℓ) (higher : Bool) (e p : π) : Bool :=
  match higher with
  | true => F.lt e p
  | false => F.lt p e

inductive Outlook (π ℓ : Type) where
  | fixed (label : ℓ)
  | barriers (up down : π) (onUp onDown neither : ℓ) (stop : Nat)
  | oneTick (target : Nat) (absent : ℓ) (label : π → ℓ)
  | extreme (higher : Bool) (stop : Nat) (label : π → Nat → ℓ)

/-- The label an outlook comes to. -/
def Outlook.label (F : Floats π ℓ) (ticks : List (HistoricalTick π)) (idx : Nat) (samplePrice : π) : Outlook π ℓ → ℓ
  | .fixed l => l
  | .barriers up down onUp onDown neither stop => firstPassage F up down onUp onDown neither (ahead ticks idx stop)
  | .oneTick target absent label =>
    match ticks[target]? with
    | none => absent
    | some t => label t.price
  | .extreme higher stop label =>
    let e := furthest (F.beyond higher) samplePrice idx (ahead ticks idx stop)
    label e.1 e.2

/-- The outlook of the scans for barriers some sigmas away. -/
def sigmaOutlook (F : Floats π ℓ) (samplePrice : π) (onUp onDown neither : ℓ) (stop : Nat) (sigmas : π → π) :
    Option π → Outlook π ℓ
  | none => .fixed neither
  | some vol =>
    .barriers (sigmasAbove F samplePrice (sigmas vol))
    (sigmasBelow F samplePrice (sigmas vol)) onUp onDown neither stop

def pctOutlook (F : Floats π ℓ) (samplePrice tpPct slPct : π) (onUp onDown neither : ℓ) (stop : Nat) : Outlook π ℓ :=
  .barriers (pctAbove F samplePrice tpPct) (pctBelow F samplePrice slPct) onUp onDown neither stop

def forwardPnlOutlook (F : Floats π ℓ) (total tickIdx : Nat) (samplePrice : π) (forwardTicks : Int) : Outlook π ℓ :=
  let targetIdx := forwardTarget total tickIdx forwardTicks
  if targetIdx ≤ tickIdx then .fixed (F.num 0)
  else .oneTick targetIdx.toNat (F.num 0) fun p =>
    F.toFloat (F.mul (F.div (F.sub p samplePrice) samplePrice) (F.lit 100))

def futureReturnOutlook (F : Floats π ℓ) (total tickIdx : Nat) (samplePrice : π) (extra : Int) : Outlook π ℓ :=
  let forwardTicks := if extra > 0 then extra else 100
  if tickIdx + forwardTicks ≥ total || F.le samplePrice (F.lit 0) then .fixed F.nan
  else .oneTick (tickIdx + forwardTicks).toNat F.nan fun p => F.toFloat (F.div (F.sub p samplePrice) samplePrice)

def extremeOutlook (F : Floats π ℓ) (tickIdx stop : Nat) (extra : Int) (higher : Bool) (pct : π → π) : Outlook π ℓ :=
  .extreme higher stop fun p j => if nearStart tickIdx extra j && F.lt (F.lit (1 / 1000)) (pct p) then F.num 1
    else F.num 0

/-- The outlook of each label function. -/
def labelOutlook (F : Floats π ℓ) (label : LabelId) (ticks : List (HistoricalTick π)) (tickIdx : Nat)
    (samplePrice tp sl : π)
    (extra : Int) : Outlook π ℓ :=
  let sigma (volWindow : Int) := labelVolRollingSigma F ticks tickIdx volWindow
  let volWindow := if extra ≤ 0 then 20 else extra
  let total := ticks.length
  let bounded := lookaheadEnd ticks tickIdx extra
  let k := barrierKOrDefault F tp
  match label with
  | none => pctOutlook F samplePrice tp sl (F.num 1) (F.num 0) (F.num 0) total
  | some .winLoss => pctOutlook F samplePrice tp sl (F.num 1) (F.num 0) (F.num 0) total
  | some .barrier => pctOutlook F samplePrice tp sl (F.num 1) (F.num 0) (F.num (1 / 2)) total
  | some .forwardPnl => forwardPnlOutlook F total tickIdx samplePrice extra
  | some .regime => .fixed (F.num extra)
  | some .volBarrier =>
    sigmaOutlook F samplePrice (F.num 1) (F.num 0) (F.num (1 / 2)) total (fun vol => F.mul k vol) (sigma volWindow)
  | some .willPeak => extremeOutlook F tickIdx bounded extra true (risePct F samplePrice)
  | some .willValley => extremeOutlook F tickIdx bounded extra false (dropPct F samplePrice)
  | some .peakValleyStable => pctOutlook F samplePrice tp sl (F.num 2) (F.num 1) (F.num 0) bounded
  | some .csPercentileRank => futureReturnOutlook F total tickIdx samplePrice extra
  | some .csZscoreRobust => futureReturnOutlook F total tickIdx samplePrice extra
  | some .csVolscaledDemeaned => futureReturnOutlook F total tickIdx samplePrice extra
  | some .volBarrier3c =>
    sigmaOutlook F samplePrice (F.num 2) (F.num 1) (F.num 0) total (fun vol => F.mul k vol) (sigma volWindow)
  | some .volBarrier3cTimed =>
    sigmaOutlook F samplePrice (F.num 2) (F.num 1) (F.num 0) bounded
      (fun vol => F.mul (F.mul k vol) (F.sqrt (F.ofInt (lookahead extra))))
      (sigma (if F.le (F.ofInt labelVolMinPeriods) sl then F.toInt sl else labelVolWindowDefault))

theorem labelForwardPnl_outlook (F : Floats π ℓ) (ticks : List (HistoricalTick π)) (tickIdx : Nat)
    (samplePrice tp sl : π) (extra : Int) :
    labelForwardPnl F ticks tickIdx samplePrice tp sl extra =
      (forwardPnlOutlook F ticks.length tickIdx samplePrice extra).label F ticks tickIdx samplePrice := by
  simp only [labelForwardPnl, forwardPnlOutlook]
  by_cases hahead : forwardTarget ticks.length tickIdx extra ≤ tickIdx
  · rw [if_pos hahead, if_pos hahead]
    rfl
  · rw [if_neg hahead, if_neg hahead]
    rfl

theorem labelFutureReturn_outlook (F : Floats π ℓ) (ticks : List (HistoricalTick π)) (tickIdx : Nat)
    (samplePrice tp sl : π) (extra : Int) :
    labelFutureReturn F ticks tickIdx samplePrice tp sl extra =
      (futureReturnOutlook F ticks.length tickIdx samplePrice extra).label F ticks tickIdx samplePrice := by
  simp only [labelFutureReturn, futureReturnOutlook]
  by_cases hnan : tickIdx + (if extra > 0 then extra else 100) ≥ ticks.length || F.le samplePrice (F.lit 0)
  · rw [if_pos hnan, if_pos hnan]
    rfl
  · rw [if_neg hnan, if_neg hnan]
    rfl

/-- A label function gives the label its outlook comes to. -/
theorem labelFnOf_outlook (F : Floats π ℓ) (label : LabelId) (ticks : List (HistoricalTick π)) (tickIdx : Nat)
    (samplePrice tp sl : π)
    (extra : Int) : labelFnOf F label ticks tickIdx samplePrice tp sl extra =
      (labelOutlook F label ticks tickIdx samplePrice tp sl extra).label F ticks tickIdx samplePrice := by
  have hsigma : ∀ (volWindow : Int) (onUp onDown neither : ℓ) (stop : Nat) (sigmas : π → π),
      (match labelVolRollingSigma F ticks tickIdx volWindow with
        | none => neither
        | some vol =>
          firstPassage F (sigmasAbove F samplePrice (sigmas vol))
            (sigmasBelow F samplePrice (sigmas vol)) onUp onDown
            neither (ahead ticks tickIdx stop)) =
        (sigmaOutlook F samplePrice onUp onDown neither stop sigmas (labelVolRollingSigma F ticks tickIdx volWindow)).label F
          ticks tickIdx samplePrice := by
    intro volWindow onUp onDown neither stop sigmas
    cases labelVolRollingSigma F ticks tickIdx volWindow <;> rfl
  cases label with
  | none => rfl
  | some l =>
    cases l with
    | winLoss => rfl
    | barrier => rfl
    | forwardPnl => exact labelForwardPnl_outlook F ticks tickIdx samplePrice tp sl extra
    | regime => rfl
    | volBarrier => exact hsigma ..
    | willPeak => rfl
    | willValley => rfl
    | peakValleyStable => rfl
    | csPercentileRank => exact labelFutureReturn_outlook F ticks tickIdx samplePrice tp sl extra
    | csZscoreRobust => exact labelFutureReturn_outlook F ticks tickIdx samplePrice tp sl extra
    | csVolscaledDemeaned => exact labelFutureReturn_outlook F ticks tickIdx samplePrice tp sl extra
    | volBarrier3c => exact hsigma ..
    | volBarrier3cTimed => exact hsigma ..

/-! ### Ticks with other prices -/

theorem length_repriced (T : Nat) (price : Nat → π) (ticks : List (HistoricalTick π)) :
    (repriced T price ticks).length = ticks.length :=
  List.length_mapIdx

theorem getElem?_repriced (T : Nat) (price : Nat → π) (ticks : List (HistoricalTick π)) (i : Nat) :
    (repriced T price ticks)[i]? = (ticks[i]?).map fun t => if T ≤ i then { t with price := price i } else t :=
  List.getElem?_mapIdx

theorem getElem?_repriced_before {T i : Nat} (price : Nat → π) (ticks : List (HistoricalTick π)) (h : i < T) :
    (repriced T price ticks)[i]? = ticks[i]? := by
  rw [getElem?_repriced]
  simp only [if_neg (Nat.not_le.2 h), Option.map_id']

theorem take_repriced {T n : Nat} (price : Nat → π) (ticks : List (HistoricalTick π)) (h : n ≤ T) :
    (repriced T price ticks).take n = ticks.take n := by
  refine List.ext_getElem? fun i => ?_
  rw [List.getElem?_take, List.getElem?_take]
  by_cases hi : i < n
  · rw [if_pos hi, if_pos hi, getElem?_repriced_before price ticks (Nat.lt_of_lt_of_le hi h)]
  · rw [if_neg hi, if_neg hi]

theorem length_ahead_repriced (T : Nat) (price : Nat → π) (ticks : List (HistoricalTick π)) (idx stop : Nat) :
    (ahead (repriced T price ticks) idx stop).length = (ahead ticks idx stop).length := by
  simp only [ahead, List.length_drop, List.length_take, length_repriced]

/-- The ticks ahead that keep their price. -/
def beforeTick (T : Nat) (ticks : List (HistoricalTick π)) (idx stop : Nat) : List (HistoricalTick π) :=
  (ahead ticks idx stop).take (T - (idx + 1))

def fromTick (T : Nat) (ticks : List (HistoricalTick π)) (idx stop : Nat) : List (HistoricalTick π) :=
  (ahead ticks idx stop).drop (T - (idx + 1))

theorem ahead_split (T : Nat) (ticks : List (HistoricalTick π)) (idx stop : Nat) :
    ahead ticks idx stop = beforeTick T ticks idx stop ++ fromTick T ticks idx stop :=
  (List.take_append_drop ..).symm

theorem beforeTick_repriced (T : Nat) (price : Nat → π) (ticks : List (HistoricalTick π)) (idx stop : Nat) :
    beforeTick T (repriced T price ticks) idx stop = beforeTick T ticks idx stop := by
  refine List.ext_getElem? fun i => ?_
  simp only [beforeTick, ahead, List.getElem?_take, List.getElem?_drop]
  split
  · split
    · exact getElem?_repriced_before price ticks (by omega)
    · rfl
  · rfl

theorem getElem?_fromTick_repriced {T : Nat} (price : Nat → π) (ticks : List (HistoricalTick π)) {idx : Nat}
    (stop i : Nat) (hidx : idx ≤ T) :
    (fromTick T (repriced T price ticks) idx stop)[i]? =
      ((fromTick T ticks idx stop)[i]?).map fun t => { t with price := price (idx + 1 + (T - (idx + 1) + i)) } := by
  have hfrom : T ≤ idx + 1 + (T - (idx + 1) + i) := by omega
  simp only [fromTick, ahead, List.getElem?_take, List.getElem?_drop, getElem?_repriced, if_pos hfrom]
  split <;> rfl

theorem length_fromTick_repriced (T : Nat) (price : Nat → π) (ticks : List (HistoricalTick π)) (idx stop : Nat) :
    (fromTick T (repriced T price ticks) idx stop).length = (fromTick T ticks idx stop).length := by
  simp only [fromTick, List.length_drop, length_ahead_repriced]

/-- Every tick from there on has one of the new prices. -/
theorem mem_fromTick_repriced {T : Nat} {price : Nat → π} {ticks : List (HistoricalTick π)} {idx stop : Nat}
    (hidx : idx ≤ T)
    {t : HistoricalTick π} (ht : t ∈ fromTick T (repriced T price ticks) idx stop) : ∃ i, t.price = price i := by
  obtain ⟨i, hi⟩ := List.getElem?_of_mem ht
  rw [getElem?_fromTick_repriced price ticks stop i hidx] at hi
  obtain ⟨u, -, rfl⟩ := Option.map_eq_some_iff.1 hi
  exact ⟨_, rfl⟩

theorem mem_ahead {ticks : List (HistoricalTick π)} {idx stop : Nat} {t : HistoricalTick π}
    (ht : t ∈ ahead ticks idx stop) : t ∈ ticks :=
  List.mem_of_mem_take (List.mem_of_mem_drop ht)

/-- An outlook is read off the ticks before the sample and their number. -/
theorem labelVolRollingSigma_congr {ticks ticks' : List (HistoricalTick π)} {tickIdx : Nat}
    (htake : ticks'.take tickIdx = ticks.take tickIdx)
    (volWindow : Int) :
    labelVolRollingSigma F ticks' tickIdx volWindow = labelVolRollingSigma F ticks tickIdx volWindow := by
  simp only [labelVolRollingSigma, htake]

theorem labelOutlook_congr {ticks ticks' : List (HistoricalTick π)} {tickIdx : Nat}
    (hlength : ticks'.length = ticks.length)
    (htake : ticks'.take tickIdx = ticks.take tickIdx) (label : LabelId) (samplePrice tp sl : π) (extra : Int) :
    labelOutlook F label ticks' tickIdx samplePrice tp sl extra =
      labelOutlook F label ticks tickIdx samplePrice tp sl extra := by
  have hend : lookaheadEnd ticks' tickIdx extra = lookaheadEnd ticks tickIdx extra := by
    rw [lookaheadEnd, lookaheadEnd, hlength]
  simp only [labelOutlook, labelVolRollingSigma_congr htake, hlength, hend]

/-! ### When a label is settled -/

/-- Ticks from `T` on cannot change what the outlook comes to: none of them is read, or none of the
    prices they can have makes a difference. -/
def Outlook.Settled (F : Floats π ℓ) (store : ℓ → ℓ) (ticks : List (HistoricalTick π)) (idx : Nat)
    (samplePrice : π) (T : Nat) :
    Outlook π ℓ → Prop
  | .fixed _ => True
  | .barriers up down onUp onDown neither stop =>
    (∃ t ∈ beforeTick T ticks idx stop, touch F up down onUp onDown t.price ≠ none) ∨ fromTick T ticks idx stop = [] ∨
      ∀ p p', F.positive p → F.positive p' →
        store ((touch F up down onUp onDown p).getD neither) = store ((touch F up down onUp onDown p').getD neither)
  | .oneTick target _ label =>
    target < T ∨ ticks.length ≤ target ∨ ∀ p p', F.positive p → F.positive p' → store (label p) = store (label p')
  | .extreme higher stop label =>
    let e := furthest (F.beyond higher) samplePrice idx (beforeTick T ticks idx stop)
    ∀ j, T ≤ j → idx < j → j < idx + 1 + (ahead ticks idx stop).length → ∀ p, F.positive p → F.beyond higher e.1 p →
      store (label p j) = store (label e.1 e.2)

/-! ### Barriers -/

section Barriers

variable {up down : π} {onUp onDown neither : ℓ}

theorem firstPassage_touched {reach : List (HistoricalTick π)}
    (h : ∃ t ∈ reach, touch F up down onUp onDown t.price ≠ none)
    (reach' : List (HistoricalTick π)) :
    firstPassage F up down onUp onDown neither (reach ++ reach') =
      firstPassage F up down onUp onDown neither reach := by
  obtain ⟨t, ht, htouch⟩ := h
  obtain ⟨l, hl⟩ : ∃ l, reach.findSome? (fun t => touch F up down onUp onDown t.price) = some l :=
    Option.isSome_iff_exists.1 (List.findSome?_isSome_iff.2 ⟨t, ht, Option.isSome_iff_ne_none.2 htouch⟩)
  rw [firstPassage, firstPassage, List.findSome?_append, hl, Option.some_or]

theorem firstPassage_untouched {reach : List (HistoricalTick π)}
    (h : ∀ t ∈ reach, touch F up down onUp onDown t.price = none)
    (reach' : List (HistoricalTick π)) :
    firstPassage F up down onUp onDown neither (reach ++ reach') =
      firstPassage F up down onUp onDown neither reach' := by
  rw [firstPassage, firstPassage, List.findSome?_append, List.findSome?_eq_none_iff.2 h, Option.none_or]

/-- What a scan comes to is what one of its prices alone comes to. -/
theorem firstPassage_mem (F : Floats π ℓ) (up down : π) (onUp onDown neither : ℓ) :
    ∀ {reach : List (HistoricalTick π)}, reach ≠ [] →
    ∃ t ∈ reach, firstPassage F up down onUp onDown neither reach = (touch F up down onUp onDown t.price).getD neither
  | [], hne => absurd rfl hne
  | t :: reach, _ => by
    cases htouch : touch F up down onUp onDown t.price with
    | some l =>
      refine ⟨t, List.mem_cons_self, ?_⟩
      rw [firstPassage, List.findSome?_cons_of_isSome (by rw [htouch]; rfl), htouch]
    | none =>
      have hrest :
      firstPassage F up down onUp onDown neither (t :: reach) =
        firstPassage F up down onUp onDown neither reach := by
        rw [firstPassage, firstPassage, List.findSome?_cons, htouch]
      by_cases hempty : reach = []
      · refine ⟨t, List.mem_cons_self, ?_⟩
        rw [hrest, hempty, htouch]
        rfl
      · obtain ⟨u, hu, hlabel⟩ := firstPassage_mem F up down onUp onDown neither hempty
        exact ⟨u, List.mem_cons_of_mem t hu, by rw [hrest, hlabel]⟩

theorem barriers_settled_iff {store : ℓ → ℓ} {ticks : List (HistoricalTick π)} {idx T stop : Nat} {samplePrice : π}
    (hpos : ∀ t ∈ ticks, F.positive t.price) (hidx : idx ≤ T) :
    (∀ price : Nat → π, (∀ i, F.positive (price i)) →
      store ((Outlook.barriers up down onUp onDown neither stop).label F (repriced T price ticks) idx samplePrice) =
        store ((Outlook.barriers up down onUp onDown neither stop).label F ticks idx samplePrice)) ↔
      (Outlook.barriers up down onUp onDown neither stop).Settled F store ticks idx samplePrice T := by
  simp only [Outlook.label, Outlook.Settled, ahead_split T, beforeTick_repriced]
  by_cases htouched : ∃ t ∈ beforeTick T ticks idx stop, touch F up down onUp onDown t.price ≠ none
  · refine iff_of_true (fun price _ => ?_) (.inl htouched)
    rw [firstPassage_touched htouched, firstPassage_touched htouched]
  · have huntouched : ∀ t ∈ beforeTick T ticks idx stop, touch F up down onUp onDown t.price = none :=
      fun t ht => not_not.1 fun h => htouched ⟨t, ht, h⟩
    simp only [firstPassage_untouched huntouched]
    by_cases hempty : fromTick T ticks idx stop = []
    · refine iff_of_true (fun price _ => ?_) (.inr (.inl hempty))
      have hnew : fromTick T (repriced T price ticks) idx stop = [] :=
        List.length_eq_zero_iff.1 (by rw [length_fromTick_repriced, hempty]; rfl)
      rw [hempty, hnew]
    · have hnew : ∀ price : Nat → π, fromTick T (repriced T price ticks) idx stop ≠ [] := fun price h => hempty
        (List.length_eq_zero_iff.1 (by rw [← length_fromTick_repriced T price, h]; rfl))
      constructor
      · -- One price for all of them shows what that price comes to.
        intro hsame
        have hall : ∀ p, F.positive p → store ((touch F up down onUp onDown p).getD neither) =
            store (firstPassage F up down onUp onDown neither (fromTick T ticks idx stop)) := by
          intro p hp
          obtain ⟨t, ht, hlabel⟩ := firstPassage_mem F up down onUp onDown neither (hnew fun _ => p)
          obtain ⟨-, hprice⟩ := mem_fromTick_repriced hidx ht
          rw [← hsame (fun _ => p) fun _ => hp, hlabel, hprice]
        exact .inr (.inr fun p p' hp hp' => (hall p hp).trans (hall p' hp').symm)
      · intro hsettled price hprice
        obtain ⟨t, ht, hlabel⟩ := firstPassage_mem F up down onUp onDown neither (hnew price)
        obtain ⟨u, hu, hlabel'⟩ := firstPassage_mem F up down onUp onDown neither hempty
        obtain ⟨i, hi⟩ := mem_fromTick_repriced hidx ht
        rcases hsettled with h | h | h
        · exact absurd h htouched
        · exact absurd h hempty
        · rw [hlabel, hlabel']
          exact h _ _ (by rw [hi]; exact hprice i) (hpos u (mem_ahead (List.mem_of_mem_drop hu)))

end Barriers

/-! ### One tick -/

theorem oneTick_settled_iff {store : ℓ → ℓ} {ticks : List (HistoricalTick π)} {idx T target : Nat} {absent : ℓ}
    {label : π → ℓ}
    {samplePrice : π} (hpos : ∀ t ∈ ticks, F.positive t.price) :
    (∀ price : Nat → π, (∀ i, F.positive (price i)) →
      store ((Outlook.oneTick target absent label).label F (repriced T price ticks) idx samplePrice) =
        store ((Outlook.oneTick target absent label).label F ticks idx samplePrice)) ↔
      (Outlook.oneTick target absent label).Settled F store ticks idx samplePrice T := by
  simp only [Outlook.label, Outlook.Settled, getElem?_repriced]
  cases htarget : ticks[target]? with
  | none => exact iff_of_true (fun _ _ => rfl) (.inr (.inl (List.getElem?_eq_none_iff.1 htarget)))
  | some t =>
    have hlength : ¬ticks.length ≤ target := Nat.not_le.2 (List.getElem?_eq_some_iff.1 htarget).1
    by_cases hbefore : target < T
    · refine iff_of_true (fun price _ => ?_) (.inl hbefore)
      simp only [Option.map_some, if_neg (Nat.not_le.2 hbefore)]
    · simp only [Option.map_some, if_pos (Nat.not_lt.1 hbefore), hbefore, hlength, false_or]
      constructor
      · intro hsame p p' hp hp'
        exact (hsame (fun _ => p) fun _ => hp).trans (hsame (fun _ => p') fun _ => hp').symm
      · intro hsettled price hprice
        exact hsettled _ _ (hprice target) (hpos t (List.mem_of_getElem? htarget))

/-! ### The furthest price -/

theorem Floats.beyond_irrefl (F : Floats π ℓ) (higher : Bool) (p : π) : F.beyond higher p p = false := by
  cases higher <;> exact F.lt_irrefl p

theorem Floats.beyond_trans (F : Floats π ℓ) {higher : Bool} {p p' p'' : π} (h : F.beyond higher p p')
    (h' : F.beyond higher p' p'') :
    F.beyond higher p p'' := by
  cases higher with
  | true => exact F.lt_trans h h'
  | false => exact F.lt_trans h' h

theorem furthestFrom_append (beyond : π → π → Bool) (e : π × Nat) (n : Nat) (reach reach' : List (HistoricalTick π)) :
    furthestFrom beyond e n (reach ++ reach') =
      furthestFrom beyond (furthestFrom beyond e n reach) (n + reach.length) reach' := by
  rw [furthestFrom, List.zipIdx_append, List.foldl_append]
  rfl

/-- Prices that are not beyond the furthest so far leave it. -/
theorem furthestFrom_stays {beyond : π → π → Bool} {e : π × Nat} : ∀ {reach : List (HistoricalTick π)} (n : Nat),
    (∀ t ∈ reach, beyond e.1 t.price = false) → furthestFrom beyond e n reach = e
  | [], _, _ => rfl
  | t :: reach, n, h => by
    have hhead : furthestFrom beyond e n (t :: reach) = furthestFrom beyond e (n + 1) reach := by
      rw [furthestFrom, List.zipIdx_cons, List.foldl_cons,
        if_neg (by rw [h t List.mem_cons_self]; exact Bool.false_ne_true)]
      rfl
    rw [hhead]
    exact furthestFrom_stays (n + 1) fun u hu => h u (List.mem_cons_of_mem t hu)

/-- The furthest price is the one so far or that of a tick beyond it. -/
theorem furthestFrom_mem (F : Floats π ℓ) (higher : Bool) : ∀ (reach : List (HistoricalTick π)) (e : π × Nat)
    (n : Nat),
    furthestFrom (F.beyond higher) e n reach = e ∨
      ∃ (i : Nat) (t : HistoricalTick π), reach[i]? = some t ∧ F.beyond higher e.1 t.price ∧
        furthestFrom (F.beyond higher) e n reach = (t.price, n + i)
  | [], _, _ => .inl rfl
  | t :: reach, e, n => by
    have hcons : furthestFrom (F.beyond higher) e n (t :: reach) =
        furthestFrom (F.beyond higher) (if F.beyond higher e.1 t.price then (t.price, n) else e) (n + 1) reach := rfl
    have hplace : ∀ i, n + 1 + i = n + (i + 1) := fun i => by omega
    rw [hcons]
    by_cases hbeyond : F.beyond higher e.1 t.price
    · rw [if_pos hbeyond]
      refine .inr ?_
      rcases furthestFrom_mem F higher reach (t.price, n) (n + 1) with h | ⟨i, u, hu, hbeyond', h⟩
      · exact ⟨0, t, rfl, hbeyond, h⟩
      · exact ⟨i + 1, u, hu, F.beyond_trans hbeyond hbeyond', by rw [h, hplace]⟩
    · rw [if_neg hbeyond]
      rcases furthestFrom_mem F higher reach e (n + 1) with h | ⟨i, u, hu, hbeyond', h⟩
      · exact .inl h
      · exact .inr ⟨i + 1, u, hu, hbeyond', by rw [h, hplace]⟩

/-- A price from a position on that is beyond the furthest so far, with none before, is the furthest. -/
theorem furthestFrom_reached (F : Floats π ℓ) {higher : Bool} {e : π × Nat} {n i : Nat} {p : π}
    {reach : List (HistoricalTick π)}
    (hi : i < reach.length) (hbefore : ∀ t ∈ reach.take i, t.price = e.1) (hfrom : ∀ t ∈ reach.drop i, t.price = p)
    (hbeyond : F.beyond higher e.1 p) : furthestFrom (F.beyond higher) e n reach = (p, n + i) := by
  have hstays : furthestFrom (F.beyond higher) e n (reach.take i) = e :=
    furthestFrom_stays n fun t ht => by rw [hbefore t ht]; exact F.beyond_irrefl higher e.1
  have hlength : (reach.take i).length = i := List.length_take_of_le hi.le
  obtain ⟨t, rest, hdrop⟩ : ∃ t rest, reach.drop i = t :: rest := ⟨_, _, List.drop_eq_getElem_cons hi⟩
  rw [hdrop] at hfrom
  have hcons : furthestFrom (F.beyond higher) e (n + i) (t :: rest) =
      furthestFrom (F.beyond higher) (if F.beyond higher e.1 t.price then (t.price, n + i) else e)
        (n + i + 1) rest := rfl
  rw [← List.take_append_drop i reach, furthestFrom_append, hstays, hlength, hdrop, hcons,
    hfrom t List.mem_cons_self, if_pos hbeyond]
  exact furthestFrom_stays _ fun u hu => by rw [hfrom u (List.mem_cons_of_mem t hu)]; exact F.beyond_irrefl higher p

/-- A price at each tick from `j` on, and another before. -/
def priceFrom (j : Nat) (e p : π) (i : Nat) : π := if i < j then e else p

theorem furthest_reprices {higher : Bool} {ticks : List (HistoricalTick π)} {idx T stop j : Nat}
    {samplePrice p : π} (hidx : idx ≤ T)
    (hT : T ≤ j) (hj : idx < j) (hreach : j < idx + 1 + (ahead ticks idx stop).length)
    (hbeyond : F.beyond higher (furthest (F.beyond higher) samplePrice idx (beforeTick T ticks idx stop)).1 p) :
    furthest (F.beyond higher) samplePrice idx (ahead (repriced T (priceFrom j
      (furthest (F.beyond higher) samplePrice idx (beforeTick T ticks idx stop)).1 p) ticks) idx stop) = (p, j) := by
  generalize he : furthest (F.beyond higher) samplePrice idx (beforeTick T ticks idx stop) = e at hbeyond ⊢
  have hlength : (beforeTick T ticks idx stop).length = T - (idx + 1) := by
    rw [beforeTick, List.length_take]
    omega
  have hget : ∀ i t, (fromTick T (repriced T (priceFrom j e.1 p) ticks) idx stop)[i]? = some t →
      t.price = priceFrom j e.1 p (idx + 1 + (T - (idx + 1)) + i) := by
    intro i t ht
    rw [getElem?_fromTick_repriced _ ticks stop i hidx] at ht
    obtain ⟨u, -, rfl⟩ := Option.map_eq_some_iff.1 ht
    exact congrArg (priceFrom j e.1 p) (by omega)
  rw [ahead_split T, beforeTick_repriced, furthest, furthestFrom_append, ← furthest, he, hlength,
    furthestFrom_reached (i := j - (idx + 1 + (T - (idx + 1)))) F ?_ ?_ ?_ hbeyond]
  · exact congrArg (Prod.mk p) (by omega)
  · rw [length_fromTick_repriced, fromTick, List.length_drop]
    omega
  · intro t ht
    obtain ⟨i, hi⟩ := List.getElem?_of_mem ht
    rw [List.getElem?_take] at hi
    split at hi
    next hlt => rw [hget i t hi, priceFrom, if_pos (by omega)]
    · nomatch hi
  · intro t ht
    obtain ⟨i, hi⟩ := List.getElem?_of_mem ht
    rw [List.getElem?_drop] at hi
    rw [hget _ t hi, priceFrom, if_neg (by omega)]

theorem furthest_positive {higher : Bool} {ticks : List (HistoricalTick π)} {idx T stop : Nat} {samplePrice : π}
    (hpos : ∀ t ∈ ticks, F.positive t.price) (hsample : F.positive samplePrice) :
    F.positive (furthest (F.beyond higher) samplePrice idx (beforeTick T ticks idx stop)).1 := by
  rcases furthestFrom_mem F higher (beforeTick T ticks idx stop) (samplePrice, idx) (idx + 1) with h |
    ⟨i, t, ht, -, h⟩
  · rw [furthest, h]
    exact hsample
  · rw [furthest, h]
    exact hpos t (mem_ahead (List.mem_of_mem_take (List.mem_of_getElem? ht)))

/-- What a scan can end with once it has seen `e`: that, or a further price at a tick from `T` on. -/
def GoesOn (F : Floats π ℓ) (higher : Bool) (T idx reach : Nat) (e r : π × Nat) : Prop :=
  r = e ∨ T ≤ r.2 ∧ idx < r.2 ∧ r.2 < idx + 1 + reach ∧ F.positive r.1 ∧ F.beyond higher e.1 r.1

theorem furthest_goesOn {higher : Bool} {ticks ticks' : List (HistoricalTick π)} {idx T stop : Nat} {samplePrice : π}
    (hbefore : beforeTick T ticks' idx stop = beforeTick T ticks idx stop)
    (hlength : (ahead ticks' idx stop).length = (ahead ticks idx stop).length)
    (hpos : ∀ t ∈ fromTick T ticks' idx stop, F.positive t.price) :
    GoesOn F higher T idx (ahead ticks idx stop).length
      (furthest (F.beyond higher) samplePrice idx (beforeTick T ticks idx stop))
      (furthest (F.beyond higher) samplePrice idx (ahead ticks' idx stop)) := by
  generalize he : furthest (F.beyond higher) samplePrice idx (beforeTick T ticks idx stop) = e
  have hsplit : furthest (F.beyond higher) samplePrice idx (ahead ticks' idx stop) =
      furthestFrom (F.beyond higher) e (idx + 1 + (beforeTick T ticks' idx stop).length)
        (fromTick T ticks' idx stop) := by
    rw [ahead_split T, furthest, furthestFrom_append, ← furthest, hbefore, he]
  rw [hsplit]
  rcases furthestFrom_mem F higher (fromTick T ticks' idx stop) e
    (idx + 1 + (beforeTick T ticks' idx stop).length) with
    h | ⟨i, t, ht, hbeyond, h⟩
  · exact .inl h
  · have hi : i < (fromTick T ticks' idx stop).length := (List.getElem?_eq_some_iff.1 ht).1
    rw [fromTick, List.length_drop, hlength] at hi
    have hcount : (beforeTick T ticks' idx stop).length = T - (idx + 1) := by
      rw [beforeTick, List.length_take, hlength]
      omega
    rw [h]
    exact .inr ⟨by simp only []; omega, by simp only []; omega, by simp only []; omega, hpos t (List.mem_of_getElem? ht), hbeyond⟩

/-- Prices no further than the one seen keep it. -/
theorem furthest_kept {higher : Bool} {ticks : List (HistoricalTick π)} {idx T stop : Nat} {samplePrice : π}
    (hidx : idx ≤ T) :
    furthest (F.beyond higher) samplePrice idx
      (ahead (repriced T (fun _ => (furthest (F.beyond higher) samplePrice idx (beforeTick T ticks idx stop)).1) ticks) idx stop) =
      furthest (F.beyond higher) samplePrice idx (beforeTick T ticks idx stop) := by
  rw [ahead_split T, beforeTick_repriced]
  conv_lhs => rw [furthest, furthestFrom_append, ← furthest]
  refine furthestFrom_stays _ fun t ht => ?_
  obtain ⟨-, hprice⟩ := mem_fromTick_repriced hidx ht
  rw [hprice]
  exact F.beyond_irrefl higher _

theorem extreme_settled_iff {store : ℓ → ℓ} {ticks : List (HistoricalTick π)} {idx T stop : Nat} {higher : Bool}
    {label : π → Nat → ℓ}
    {samplePrice : π} (hpos : ∀ t ∈ ticks, F.positive t.price) (hsample : F.positive samplePrice) (hidx : idx ≤ T) :
    (∀ price : Nat → π, (∀ i, F.positive (price i)) →
      store ((Outlook.extreme higher stop label).label F (repriced T price ticks) idx samplePrice) =
        store ((Outlook.extreme higher stop label).label F ticks idx samplePrice)) ↔
      (Outlook.extreme higher stop label).Settled F store ticks idx samplePrice T := by
  have hseen : F.positive (furthest (F.beyond higher) samplePrice idx (beforeTick T ticks idx stop)).1 :=
    furthest_positive hpos hsample
  simp only [Outlook.label, Outlook.Settled]
  constructor
  · intro hsame j hT hj hreach p hp hbeyond
    -- Once with the price seen from `T` on, once with the further one from `j` on.
    have hkept := hsame (fun _ => _) fun _ => hseen
    rw [furthest_kept hidx] at hkept
    have hreached := hsame (priceFrom j _ p) fun i => by
      unfold priceFrom
      split
      · exact hseen
      · exact hp
    rw [furthest_reprices hidx hT hj hreach hbeyond] at hreached
    exact hreached.trans hkept.symm
  · intro hsettled price hprice
    have hlabel : ∀ {r : π × Nat}, GoesOn F higher T idx (ahead ticks idx stop).length
        (furthest (F.beyond higher) samplePrice idx (beforeTick T ticks idx stop)) r →
        store (label r.1 r.2) =
          store (label (furthest (F.beyond higher) samplePrice idx (beforeTick T ticks idx stop)).1
          (furthest (F.beyond higher) samplePrice idx (beforeTick T ticks idx stop)).2) := by
      intro r hr
      rcases hr with rfl | ⟨hT, hj, hreach, hp, hbeyond⟩
      · rfl
      · exact hsettled r.2 hT hj hreach r.1 hp hbeyond
    have hnew := hlabel (furthest_goesOn (beforeTick_repriced T price ticks idx stop) (length_ahead_repriced ..) fun t ht => by
      obtain ⟨i, hi⟩ := mem_fromTick_repriced hidx ht
      rw [hi]
      exact hprice i)
    have horiginal := hlabel (furthest_goesOn rfl rfl fun t ht => hpos t (mem_ahead (List.mem_of_mem_drop ht)))
    exact hnew.trans horiginal.symm

/-- Other prices from `T` on leave the label exactly when its outlook is settled before. -/
theorem Outlook.settled_iff (o : Outlook π ℓ) {store : ℓ → ℓ} {ticks : List (HistoricalTick π)} {idx T : Nat}
    {samplePrice : π}
    (hpos : ∀ t ∈ ticks, F.positive t.price) (hsample : F.positive samplePrice) (hidx : idx ≤ T) :
    (∀ price : Nat → π, (∀ i, F.positive (price i)) →
      store (o.label F (repriced T price ticks) idx samplePrice) = store (o.label F ticks idx samplePrice)) ↔
      o.Settled F store ticks idx samplePrice T := by
  cases o with
  | fixed l => exact iff_of_true (fun _ _ => rfl) trivial
  | barriers => exact barriers_settled_iff hpos hidx
  | oneTick => exact oneTick_settled_iff hpos
  | extreme => exact extreme_settled_iff hpos hsample hidx

/-! ### The labels of a data set -/

/-- The ticks a label function is given for a sample. -/
def sampleWindow (files : List (List (HistoricalTick π))) (s : Sample (SampleNote π)) : List (HistoricalTick π) :=
  fileTicks files s.file ++ fileTicks files (s.file + 1)

/-- How a label is stored (`storedLabel`). -/
def stored (N : LabelNumbers ℓ) (kind : LabelKind) (l : ℓ) : ℓ := if N.isBad l then N.neutral kind else l

/-- The label of a sample is settled before the tick `T`. -/
def WalkForwardRun.Settled (run : WalkForwardRun π) (ds : DataSet F) (T : Nat) (s : Sample (SampleNote π)) : Prop :=
  (labelOutlook F run.target.labelType (sampleWindow ds.files s) s.localIdx s.noted.price
      (run.target.tp F run.roundtripFeePct) (run.target.sl F) (run.target.extra s.noted)).Settled F
    (stored F.labelNumbers (labelTypeKind F run.target.labelType)) (sampleWindow ds.files s) s.localIdx s.noted.price
    (T - ticksUpto ds.files s.file)

theorem WalkForwardRun.label_eq (run : WalkForwardRun π) (files : List (List (HistoricalTick π)))
    (s : Sample (SampleNote π)) :
    run.label F files s = stored F.labelNumbers (labelTypeKind F run.target.labelType)
      ((labelOutlook F run.target.labelType (sampleWindow files s) s.localIdx s.noted.price (run.target.tp F run.roundtripFeePct)
        (run.target.sl F) (run.target.extra s.noted)).label F (sampleWindow files s) s.localIdx s.noted.price) := by
  rw [← labelFnOf_outlook]
  rfl

theorem ticksUpto_succ (files : List (List (HistoricalTick π))) (f : Nat) :
    ticksUpto files (f + 1) = ticksUpto files f + (fileTicks files f).length := by
  rw [ticksUpto, List.take_add_one, List.map_append, List.sum_append, ← ticksUpto, fileTicks]
  cases files[f]? with
  | none => rfl
  | some ticks => simp

theorem fileTicks_repriced (T : Nat) (price : Nat → π) (files : List (List (HistoricalTick π))) (f : Nat) :
    fileTicks (repricedFiles T price files) f =
      repriced (T - ticksUpto files f) (fun i => price (ticksUpto files f + i)) (fileTicks files f) := by
  rw [fileTicks, fileTicks, repricedFiles, List.getElem?_mapIdx]
  cases files[f]? with
  | none => rfl
  | some ticks => rfl

theorem repriced_append (T : Nat) (price : Nat → π) (ticks ticks' : List (HistoricalTick π)) :
    repriced T price (ticks ++ ticks') =
      repriced T price ticks ++ repriced (T - ticks.length) (fun i => price (ticks.length + i)) ticks' := by
  have hshift : (fun i (t : HistoricalTick π) => if T ≤ i + ticks.length then { t with price := price (i + ticks.length) } else t) =
      fun i t => if T - ticks.length ≤ i then { t with price := price (ticks.length + i) } else t := by
    funext i t
    simp only [Nat.sub_le_iff_le_add, Nat.add_comm i]
  rw [repriced, List.mapIdx_append, hshift]
  rfl

/-- The window of a sample in the data set with other prices. -/
theorem sampleWindow_repriced (T : Nat) (price : Nat → π) (files : List (List (HistoricalTick π)))
    (s : Sample (SampleNote π)) :
    sampleWindow (repricedFiles T price files) s =
      repriced (T - ticksUpto files s.file) (fun i => price (ticksUpto files s.file + i)) (sampleWindow files s) := by
  rw [sampleWindow, sampleWindow, fileTicks_repriced, fileTicks_repriced, repriced_append, ticksUpto_succ,
    Nat.sub_add_eq]
  simp only [Nat.add_assoc]

theorem mem_fileTicks {files : List (List (HistoricalTick π))} {f : Nat} {t : HistoricalTick π}
    (ht : t ∈ fileTicks files f) :
    ∃ ticks ∈ files, t ∈ ticks := by
  rw [fileTicks] at ht
  cases hf : files[f]? with
  | none => rw [hf] at ht; exact absurd ht List.not_mem_nil
  | some ticks => rw [hf] at ht; exact ⟨ticks, List.mem_of_getElem? hf, ht⟩

theorem DataSet.window_positive (ds : DataSet F) (s : Sample (SampleNote π)) :
    ∀ t ∈ sampleWindow ds.files s, F.positive t.price := by
  intro t ht
  rcases List.mem_append.1 ht with ht | ht <;>
    exact let ⟨ticks, hticks, ht⟩ := mem_fileTicks ht; ds.positive ticks hticks t ht

/-- Other prices from the tick `T` on leave the label of a sample collected no later exactly when it is
    settled before. -/
theorem WalkForwardRun.settled_iff (run : WalkForwardRun π) (ds : DataSet F) {T : Nat}
    {s : Sample (SampleNote π)} (hs : s ∈ ds.samples)
    (hT : s.tickIndex ≤ T) :
    (∀ price : Nat → π, (∀ i, F.positive (price i)) → run.label F (repricedFiles T price ds.files) s = run.label F ds.files s) ↔
      run.Settled ds T s := by
  obtain ⟨-, hnumber, hsample⟩ := ds.collectedOn s hs
  have hidx : s.localIdx ≤ T - ticksUpto ds.files s.file := by
    rw [← ticksUpto] at hnumber
    omega
  rw [WalkForwardRun.Settled, ← Outlook.settled_iff _ (ds.window_positive s) hsample hidx]
  have hlabel : ∀ price : Nat → π, run.label F (repricedFiles T price ds.files) s =
      stored F.labelNumbers (labelTypeKind F run.target.labelType)
        ((labelOutlook F run.target.labelType (sampleWindow ds.files s) s.localIdx s.noted.price
          (run.target.tp F run.roundtripFeePct) (run.target.sl F) (run.target.extra s.noted)).label F
          (repriced (T - ticksUpto ds.files s.file) (fun i => price (ticksUpto ds.files s.file + i)) (sampleWindow ds.files s))
          s.localIdx s.noted.price) := by
    intro price
    rw [run.label_eq, sampleWindow_repriced, labelOutlook_congr (length_repriced ..) (take_repriced _ _ hidx)]
  simp only [hlabel, run.label_eq ds.files]
  constructor
  · intro hsame price hprice
    have hshift := hsame (fun n => price (n - ticksUpto ds.files s.file)) fun _ => hprice _
    simpa only [Nat.add_sub_cancel_left] using hshift
  · intro hsame price hprice
    exact hsame _ fun _ => hprice _

/-- The prices of a fold's test do not show in the labels it trains on exactly when each of these is
    settled before the first sample of the test. -/
theorem WalkForwardRun.test_blind_iff (run : WalkForwardRun π) (ds : DataSet F) {fold : PurgedSplit}
    (hfold : fold ∈ run.folds ds)
    (hvalid : fold.valid) :
    run.TestBlind ds fold ↔ ∀ s ∈ run.trainSamples ds fold, run.Settled ds (run.testTick ds fold) s := by
  have hbefore := fun s hs => run.trainSamples_before ds hfold hvalid (s := s) hs
  constructor
  · intro hblind s hs
    exact (run.settled_iff ds (hbefore s hs).1 (hbefore s hs).2).1 fun price hprice => hblind price hprice s hs
  · intro hsettled price hprice s hs
    exact (run.settled_iff ds (hbefore s hs).1 (hbefore s hs).2).2 (hsettled s hs) price hprice

/-! ### A gap that is too short -/

/-- Prices as rationals, and labels as rationals with a `none` that is not a number. -/
def rationalFloats : Floats Rat (Option Rat) :=
  { lit := id, ofInt := fun i => i, toInt := Rat.floor, add := (· + ·), sub := (· - ·), mul := (· * ·), div := (· / ·)
    sqrt := fun x => mkRat (Nat.sqrt (x * 1000000000000).floor.toNat) 1000000
    lt := fun x y => decide (x < y), le := fun x y => decide (x ≤ y)
    num := some, nan := none, toFloat := some, isNan := Option.isNone, isInf := fun _ => false
    eq := fun l l' => l == l' && l.isSome
    lt_irrefl := fun _ => decide_eq_false Rat.lt_irrefl
    lt_trans := fun h h' => decide_eq_true (Rat.not_le.1 fun hle =>
      Rat.not_le.2 (of_decide_eq_true h') (Rat.le_trans hle (Rat.le_of_lt (of_decide_eq_true h)))) }

/-- A tick every quarter of an hour; the prices go up by one with each. -/
@[irreducible] def sampleTicks : List (HistoricalTick Rat) :=
  (List.range 4046).map fun i =>
    { timestampUs := 1714348800000000 + 900000000 * i, price := 100 + i, qty := 1, isBuyerMaker := 0 }

/-- A sample on every tick at first, then on every thirtieth. -/
@[irreducible] def sampleTickIndices : List Nat := List.range 126 ++ (List.range 124).map fun i => 125 + 30 * (i + 1)

def sampleCollected : List (Sample (SampleNote Rat)) :=
  sampleTickIndices.map fun i =>
    { tickIndex := i, file := 0, localIdx := i, noted := { price := 100 + i, regime := 0 } }

theorem sampleTicks_positive : ∀ file ∈ [sampleTicks], ∀ t ∈ file, rationalFloats.positive t.price := by
  decide +kernel

theorem sampleCollected_sorted : sampleCollected.Pairwise fun s s' => s.tickIndex ≤ s'.tickIndex := by
  decide +kernel

theorem sampleCollected_on : ∀ s ∈ sampleCollected, s.localIdx < (([sampleTicks][s.file]?).getD []).length ∧
    s.tickIndex = (([sampleTicks].take s.file).map List.length).sum + s.localIdx ∧
      rationalFloats.positive s.noted.price := by
  decide +kernel

/-- Forty days of ticks in one file. -/
def sampleDataSet : DataSet rationalFloats :=
  { files := [sampleTicks], samples := sampleCollected, firstTickUs := 1714348800000000, lastTickUs := 1717809300000000
    positive := sampleTicks_positive, sorted := sampleCollected_sorted, collectedOn := sampleCollected_on }

/-- Two folds of returns 200 ticks ahead. -/
def sampleRun : WalkForwardRun Rat :=
  { nSplits := 2, horizonTicks := 200, bufferTicks := 1, minTrainSamples := 50
    target := { labelType := some .forwardPnl, tpPct := 0, slPct := 0, forwardTicks := 200 }, roundtripFeePct := 0 }

/-- The second fold: the gap of 70 samples is 70 ticks there, and the horizon is 200. -/
def sampleFold : PurgedSplit :=
  { trainStart := 0, trainEnd := 55, testStart := 125, testEnd := 250, purgeGap := 70, trainCount := 55,
    testCount := 125, valid := true }

def sampleTrained : Sample (SampleNote Rat) :=
  { tickIndex := 54, file := 0, localIdx := 54, noted := { price := 154, regime := 0 } }

theorem sampleFold_generated : sampleFold ∈ sampleRun.folds sampleDataSet := by
  decide +kernel

theorem test_blind_iff_two_folds :
    sampleRun.TestBlind sampleDataSet sampleFold ↔
      ∀ s ∈ sampleRun.trainSamples sampleDataSet sampleFold, sampleRun.Settled sampleDataSet
        (sampleRun.testTick sampleDataSet sampleFold) s :=
  sampleRun.test_blind_iff sampleDataSet sampleFold_generated rfl

theorem sampleTrained_target :
    forwardTarget (sampleWindow sampleDataSet.files sampleTrained).length 54 200 = 254 := by
  decide +kernel

theorem sampleTrained_unsettled : ¬sampleRun.Settled sampleDataSet 125 sampleTrained := by
  have houtlook : ∀ tp sl, labelOutlook rationalFloats (some .forwardPnl)
    (sampleWindow sampleDataSet.files sampleTrained) 54 154 tp sl 200 =
      .oneTick 254 (some 0) fun p => some ((p - 154) / 154 * 100) := by
    intro tp sl
    simp only [labelOutlook, forwardPnlOutlook, sampleTrained_target]
    rfl
  have hlength : ¬(sampleWindow sampleDataSet.files sampleTrained).length ≤ 254 := by decide +kernel
  intro hsettled
  have hsettled : (Outlook.oneTick 254 (some 0) fun p : Rat => some ((p - 154) / 154 * 100)).Settled rationalFloats
      (stored rationalFloats.labelNumbers .regression)
        (sampleWindow sampleDataSet.files sampleTrained) 54 154 125 := by
    rw [← houtlook]
    exact hsettled
  rcases hsettled with h | h | h
  · exact absurd h (by decide)
  · exact hlength h
  · exact absurd (h 1 2 rfl rfl) (by decide +kernel)

/-- The return behind tick 54 is read off tick 254; the first sample tested is that on tick 125. -/
theorem trained_on_a_test_price :
    sampleFold ∈ sampleRun.folds sampleDataSet ∧ sampleFold.valid ∧
      ¬sampleRun.TestBlind sampleDataSet sampleFold := by
  refine ⟨sampleFold_generated, rfl, fun hblind => sampleTrained_unsettled ?_⟩
  have htrained : sampleTrained ∈ sampleRun.trainSamples sampleDataSet sampleFold := by decide +kernel
  have hcollected : sampleTrained ∈ sampleDataSet.samples := by decide +kernel
  have htick : sampleRun.testTick sampleDataSet sampleFold = 125 := by decide +kernel
  refine (sampleRun.settled_iff sampleDataSet hcollected (by decide)).1 fun price hprice => ?_
  rw [← htick]
  exact hblind price hprice sampleTrained htrained

end Backtest

end FoxTrader
