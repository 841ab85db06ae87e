import FoxTrader.FixedPointExp
import FoxTrader.Lib.DecayingAverage

/-! # The flow state's decaying accumulators

    Every trade is pushed into a node's flow state with its timestamp. Three sums of the signed volume decay
    in doubles; two sums and eight averages decay in binary fixed point. The share kept over a gap is the
    exponential of minus the gap by the half-life.

    An average is a decaying average of its samples as long as the shares are between nothing and
    everything. A gap is an unsigned difference that is read as a signed one, and the exponential narrows
    its multiple of ln 2 to an `int`: the shortest half-life leaves that range after 14885222362563596
    microseconds, and the gaps up to there are the ones for which nothing overshoots
    (`flowPushes_kept_iff`). -/

namespace FoxTrader

open Lib

/-! ### Half-lives, in microseconds -/

def flowHalflife10sUs : ℤ := 10000000
def flowHalflife1mUs : ℤ := 60000000
def flowHalflife5mUs : ℤ := 300000000
def flowHalflife30mUs : ℤ := 1800000000
def flowHalflife1hUs : ℤ := 3600000000
def flowHalflife2hUs : ℤ := 7200000000
def flowHalflife8hUs : ℤ := 28800000000
def flowHalflife24hUs : ℤ := 86400000000

def flowHalflives : List ℤ :=
  [flowHalflife10sUs, flowHalflife1mUs, flowHalflife5mUs, flowHalflife30mUs, flowHalflife1hUs, flowHalflife2hUs,
    flowHalflife8hUs, flowHalflife24hUs]

/-! ### The two recurrences -/

/-- A decaying sum. -/
structure EwmaSum where
  v : Fpn

/-- A decaying average. -/
structure EwmaAvg where
  v : Fpn

def ewmaAccumulateStep (prev decay sample : Float) : Float := prev * decay + sample

def ewmaNormalizedStep (prev decay sample : Fpn) : Fpn :=
  (prev.mul decay).addSat (((Fpn.fromDouble 1.0).sub decay).mul sample)

def EwmaSum.step (s : EwmaSum) (decay sample : Fpn) : EwmaSum := ⟨(s.v.mul decay).addSat sample⟩

def EwmaAvg.step (s : EwmaAvg) (decay sample : Fpn) : EwmaAvg := ⟨ewmaNormalizedStep s.v decay sample⟩

theorem EwmaAvg.step_v (s : EwmaAvg) (decay sample : Fpn) :
    (s.step decay sample).v = ewmaNormalizedStep s.v decay sample := rfl

/-! ### The state and its push -/

structure FlowState where
  ewma10s : Float
  ewma1m : Float
  ewma5m : Float
  /-- The timestamp of the last push, zero before any. -/
  lastUs : UInt64
  flow30m : EwmaSum
  flow2h : EwmaSum
  retEma30m : EwmaAvg
  retEma2h : EwmaAvg
  retEma8h : EwmaAvg
  retEma24h : EwmaAvg
  rvol1h : EwmaAvg
  rvol8h : EwmaAvg
  vwapPv24h : EwmaAvg
  vwapV24h : EwmaAvg
  prevPrice : Fpn
  firstUs : UInt64

/-- What one push is handed. -/
structure FlowTick where
  timestampUs : UInt64
  signedVolume : Float
  price : Fpn
  volume : Fpn

namespace FlowState

/-- `FlowState_Init`. -/
def init : FlowState where
  ewma10s := 0.0
  ewma1m := 0.0
  ewma5m := 0.0
  lastUs := 0
  flow30m := ⟨.zero⟩
  flow2h := ⟨.zero⟩
  retEma30m := ⟨.zero⟩
  retEma2h := ⟨.zero⟩
  retEma8h := ⟨.zero⟩
  retEma24h := ⟨.zero⟩
  rvol1h := ⟨.zero⟩
  rvol8h := ⟨.zero⟩
  vwapPv24h := ⟨.zero⟩
  vwapV24h := ⟨.zero⟩
  prevPrice := .zero
  firstUs := 0

/-- The share kept over a gap, which is read as a signed number. -/
def decay (dtUs : UInt64) (halflifeUs : ℤ) : Fpn :=
  Fpn.exp (((Fpn.fromInt (int64 dtUs.toNat)).divNoAssert (Fpn.fromInt halflifeUs)).negate)

/-- `FlowState_Push`. -/
def push (s : FlowState) (t : FlowTick) : FlowState :=
  if s.lastUs = 0 then
    let sv := Fpn.fromDouble t.signedVolume
    { s with
      ewma10s := t.signedVolume
      ewma1m := t.signedVolume
      ewma5m := t.signedVolume
      lastUs := t.timestampUs
      flow30m := ⟨sv⟩
      flow2h := ⟨sv⟩
      retEma30m := ⟨t.price⟩
      retEma2h := ⟨t.price⟩
      retEma8h := ⟨t.price⟩
      retEma24h := ⟨t.price⟩
      rvol1h := ⟨.zero⟩
      rvol8h := ⟨.zero⟩
      vwapPv24h := ⟨t.price.mul t.volume⟩
      vwapV24h := ⟨t.volume⟩
      prevPrice := t.price
      firstUs := t.timestampUs }
  else if t.timestampUs ≤ s.lastUs then
    -- a decay of one: the averages stay, the sums take the sample
    let sv := Fpn.fromDouble t.signedVolume
    { s with
      ewma10s := s.ewma10s + t.signedVolume
      ewma1m := s.ewma1m + t.signedVolume
      ewma5m := s.ewma5m + t.signedVolume
      flow30m := ⟨s.flow30m.v.addSat sv⟩
      flow2h := ⟨s.flow2h.v.addSat sv⟩ }
  else
    let dtUs := t.timestampUs - s.lastUs
    let decay10s := (decay dtUs flowHalflife10sUs).toDouble
    let decay1m := (decay dtUs flowHalflife1mUs).toDouble
    let decay5m := (decay dtUs flowHalflife5mUs).toDouble
    let d30m := decay dtUs flowHalflife30mUs
    let d1h := decay dtUs flowHalflife1hUs
    let d2h := decay dtUs flowHalflife2hUs
    let d8h := decay dtUs flowHalflife8hUs
    let d24h := decay dtUs flowHalflife24hUs
    let sv := Fpn.fromDouble t.signedVolume
    let r := (t.price.sub s.prevPrice).divNoAssert s.prevPrice
    let r2 := r.mul r
    { s with
      ewma10s := ewmaAccumulateStep s.ewma10s decay10s t.signedVolume
      ewma1m := ewmaAccumulateStep s.ewma1m decay1m t.signedVolume
      ewma5m := ewmaAccumulateStep s.ewma5m decay5m t.signedVolume
      flow30m := s.flow30m.step d30m sv
      flow2h := s.flow2h.step d2h sv
      retEma30m := s.retEma30m.step d30m t.price
      retEma2h := s.retEma2h.step d2h t.price
      retEma8h := s.retEma8h.step d8h t.price
      retEma24h := s.retEma24h.step d24h t.price
      rvol1h := s.rvol1h.step d1h r2
      rvol8h := s.rvol8h.step d8h r2
      vwapPv24h := s.vwapPv24h.step d24h (t.price.mul t.volume)
      vwapV24h := s.vwapV24h.step d24h t.volume
      prevPrice := t.price
      lastUs := t.timestampUs }

def run (s : FlowState) (ts : List FlowTick) : FlowState := ts.foldl push s

end FlowState

/-! ### The eight averages -/

inductive FlowAverage where
  | retEma30m
  | retEma2h
  | retEma8h
  | retEma24h
  | rvol1h
  | rvol8h
  | vwapPv24h
  | vwapV24h

namespace FlowAverage

def halflifeUs : FlowAverage → ℤ
  | retEma30m => flowHalflife30mUs
  | retEma2h => flowHalflife2hUs
  | retEma8h | rvol8h => flowHalflife8hUs
  | rvol1h => flowHalflife1hUs
  | retEma24h | vwapPv24h | vwapV24h => flowHalflife24hUs

/-- What the first push seeds. -/
def seedOf (t : FlowTick) : FlowAverage → Fpn
  | retEma30m | retEma2h | retEma8h | retEma24h => t.price
  | rvol1h | rvol8h => .zero
  | vwapPv24h => t.price.mul t.volume
  | vwapV24h => t.volume

/-- What a push after a gap mixes in. -/
def sampleOf (s : FlowState) (t : FlowTick) : FlowAverage → Fpn
  | retEma30m | retEma2h | retEma8h | retEma24h => t.price
  | rvol1h | rvol8h =>
    let r := (t.price.sub s.prevPrice).divNoAssert s.prevPrice
    r.mul r
  | vwapPv24h => t.price.mul t.volume
  | vwapV24h => t.volume

end FlowAverage

namespace FlowState

def ewma (s : FlowState) : FlowAverage → EwmaAvg
  | .retEma30m => s.retEma30m
  | .retEma2h => s.retEma2h
  | .retEma8h => s.retEma8h
  | .retEma24h => s.retEma24h
  | .rvol1h => s.rvol1h
  | .rvol8h => s.rvol8h
  | .vwapPv24h => s.vwapPv24h
  | .vwapV24h => s.vwapV24h

def average (s : FlowState) (a : FlowAverage) : Fpn := (s.ewma a).v

/-- A push that meets a gap. -/
def Gap (s : FlowState) (t : FlowTick) : Prop := s.lastUs ≠ 0 ∧ ¬t.timestampUs ≤ s.lastUs

/-- What a push gives an average. -/
def taken (s : FlowState) (t : FlowTick) (a : FlowAverage) : List AverageAct :=
  if s.lastUs = 0 then [.seed (a.seedOf t).v]
  else if t.timestampUs ≤ s.lastUs then []
  else [.blend (decay (t.timestampUs - s.lastUs) a.halflifeUs).v (a.sampleOf s t).v]

/-- What a run gives an average. -/
def takenRun (a : FlowAverage) : FlowState → List FlowTick → List AverageAct
  | _, [] => []
  | s, t :: ts => s.taken t a ++ takenRun a (s.push t) ts

variable {s : FlowState} {t : FlowTick}

theorem ewma_seed (h : s.lastUs = 0) (a : FlowAverage) : (s.push t).ewma a = ⟨a.seedOf t⟩ := by
  rw [push, if_pos h]
  cases a <;> rfl

theorem ewma_stay (h : s.lastUs ≠ 0) (hle : t.timestampUs ≤ s.lastUs) (a : FlowAverage) :
    (s.push t).ewma a = s.ewma a := by
  rw [push, if_neg h, if_pos hle]
  cases a <;> rfl

theorem ewma_blend (h : s.Gap t) (a : FlowAverage) :
    (s.push t).ewma a = (s.ewma a).step (decay (t.timestampUs - s.lastUs) a.halflifeUs) (a.sampleOf s t) := by
  rw [push, if_neg h.1, if_neg h.2]
  cases a <;> rfl

theorem average_blend (h : s.Gap t) (a : FlowAverage) :
    (s.push t).average a =
      ewmaNormalizedStep (s.average a) (decay (t.timestampUs - s.lastUs) a.halflifeUs) (a.sampleOf s t) := by
  rw [average, ewma_blend h, EwmaAvg.step_v, average]

/-! ### The share kept over a gap -/

theorem flowHalflives_ge : ∀ hl ∈ flowHalflives, 10000000 ≤ hl ∧ hl ≤ 86400000000 := by decide

theorem halflifeUs_mem (a : FlowAverage) : a.halflifeUs ∈ flowHalflives := by
  cases a <;> decide

/-- The quotient of a gap by a half-life, in payload and below zero. -/
theorem decayArgument_v {n hl : ℕ} (hn : n < 9223372036854775808) (hpos : 0 < hl) (hhl : hl < 9223372036854775808) :
    (((Fpn.fromInt n).divNoAssert (Fpn.fromInt hl)).negate).v = -((n * fpnOne / hl : ℕ) : ℤ) := by
  have hscale : fpnOne = 18446744073709551616 := by decide
  have hnumFits : Fpn.Fits ((n : ℤ) * fpnOne) := by
    unfold Fpn.Fits fpnMax
    rw [hscale]
    omega
  have hdenFits : Fpn.Fits ((hl : ℤ) * fpnOne) := by
    unfold Fpn.Fits fpnMax
    rw [hscale]
    omega
  have hquot : n * fpnOne / hl ≤ n * fpnOne := Nat.div_le_self _ _
  have hcancel : n * fpnOne * fpnOne / (hl * fpnOne) = n * fpnOne / hl :=
    Nat.mul_div_mul_right _ _ (by decide)
  have hfits : Fpn.DivFits (Fpn.fromInt n) (Fpn.fromInt hl) := by
    unfold Fpn.DivFits fpnMax
    rw [Fpn.fromInt_v hnumFits, Fpn.fromInt_v hdenFits, Int.natAbs_mul, Int.natAbs_mul, Int.natAbs_natCast,
      Int.natAbs_natCast, Int.natAbs_natCast, hcancel]
    rw [hscale] at hquot ⊢
    omega
  have hdiv : ((Fpn.fromInt n).divNoAssert (Fpn.fromInt hl)).v = (n * fpnOne / hl : ℕ) := by
    have hden : (Fpn.fromInt hl).v ≠ 0 := by
      rw [Fpn.fromInt_v hdenFits, hscale]
      omega
    rw [Fpn.div_tdiv hden hfits, Fpn.fromInt_v hnumFits, Fpn.fromInt_v hdenFits, ← hcancel]
    norm_cast
  rw [hscale] at hdiv hquot ⊢
  generalize n * 18446744073709551616 / hl = q at hdiv hquot ⊢
  rw [Fpn.negate, Fpn.saturate_v] <;> rw [hdiv] <;> unfold fpnMax <;> omega

/-- The longest gap whose multiple of ln 2 an `int` holds at every half-life. -/
def longestGapUs : ℕ := 14885222362563596

/-- Up to the longest gap a share is between nothing and everything. -/
theorem decay_unit {dtUs : UInt64} {hl : ℤ} (hhl : hl ∈ flowHalflives) (hdt : dtUs.toNat ≤ longestGapUs) :
    0 ≤ (decay dtUs hl).v ∧ (decay dtUs hl).v ≤ fpnOne := by
  obtain ⟨hlow, hup⟩ := flowHalflives_ge hl hhl
  obtain ⟨n, rfl⟩ := Int.eq_ofNat_of_zero_le ((by decide : (0 : ℤ) ≤ 10000000).trans hlow)
  unfold longestGapUs at hdt
  have hshort : dtUs.toNat * fpnOne / n ≤ Fpn.expReach := by
    have hscale : fpnOne = 18446744073709551616 := by decide
    have hfirst : dtUs.toNat * fpnOne / n ≤ dtUs.toNat * fpnOne / 10000000 :=
      Nat.div_le_div_left (by omega) (by decide)
    refine hfirst.trans ?_
    unfold Fpn.expReach
    rw [hscale]
    omega
  unfold decay
  rw [int64_of_mem (by omega) (by omega)]
  exact Fpn.exp_unit (decayArgument_v (by omega) (by omega) (by omega)) hshort

/-! ### One push as a step of a decaying average -/

theorem one_v : (Fpn.fromDouble 1.0).v = fpnOne := by decide +kernel

/-- The step in saturating arithmetic, for values that are not below zero. -/
theorem ewmaNormalizedStep_v {prev d sample : Fpn} (hprev : 0 ≤ prev.v) (hd : 0 ≤ d.v ∧ d.v ≤ fpnOne)
    (hsample : 0 ≤ sample.v) :
    (ewmaNormalizedStep prev d sample).v = averageStep fpnOne prev.v (.blend d.v sample.v) := by
  have hone : 0 < fpnOne := by decide
  have hrest : ((Fpn.fromDouble 1.0).sub d).v = fpnOne - d.v := by
    have hscale : ((fpnOne : ℕ) : ℤ) = 18446744073709551616 := by decide
    rw [Fpn.sub_v] <;> rw [one_v]
    unfold Fpn.Fits fpnMax
    omega
  have hkept : (prev.mul d).v = (prev.v * d.v).tdiv fpnOne := Fpn.mul_share hprev hd
  have htaken : (((Fpn.fromDouble 1.0).sub d).mul sample).v = ((fpnOne - d.v) * sample.v).tdiv fpnOne := by
    rw [Fpn.share_mul hsample] <;> rw [hrest]
    exact ⟨sub_nonneg.2 hd.2, sub_le_self _ hd.1⟩
  have hmax : (prev.v * d.v).tdiv fpnOne + ((fpnOne - d.v) * sample.v).tdiv fpnOne ≤ fpnMax :=
    (blend_le_max hone hprev hsample hd).trans (max_le prev.upper sample.upper)
  have hpos : 0 ≤ (prev.v * d.v).tdiv fpnOne + ((fpnOne - d.v) * sample.v).tdiv fpnOne :=
    add_nonneg (mul_tdiv_nonneg hprev hd.1) (mul_tdiv_nonneg (sub_nonneg.2 hd.2) hsample)
  rw [ewmaNormalizedStep, Fpn.addSat_v] <;> rw [hkept, htaken]
  · rfl
  · exact ⟨(by decide : -(fpnMax + 1) ≤ 0).trans hpos, hmax⟩

/-- A push whose price and volume are not below zero. -/
def Positive (t : FlowTick) : Prop := 0 ≤ t.price.v ∧ 0 ≤ t.volume.v

instance (t : FlowTick) : Decidable (Positive t) := inferInstanceAs (Decidable (_ ∧ _))

theorem seedOf_nonneg (h : Positive t) (a : FlowAverage) : 0 ≤ (a.seedOf t).v := by
  cases a with
  | retEma30m | retEma2h | retEma8h | retEma24h => exact h.1
  | rvol1h | rvol8h => exact le_rfl
  | vwapPv24h => exact Fpn.mul_nonneg_v h.1 h.2
  | vwapV24h => exact h.2

/-- A squared return is not below zero, whatever the prices are. -/
theorem sampleOf_nonneg (h : Positive t) (a : FlowAverage) : 0 ≤ (a.sampleOf s t).v := by
  cases a with
  | retEma30m | retEma2h | retEma8h | retEma24h => exact h.1
  | rvol1h | rvol8h => exact Fpn.square_nonneg_v _
  | vwapPv24h => exact Fpn.mul_nonneg_v h.1 h.2
  | vwapV24h => exact h.2

/-- No longer a gap than `gapMaxUs`. -/
def Near (gapMaxUs : ℕ) (s : FlowState) (t : FlowTick) : Prop :=
  s.Gap t → (t.timestampUs - s.lastUs).toNat ≤ gapMaxUs

theorem taken_weighs (h : Positive t) (hnear : Near longestGapUs s t) (a : FlowAverage) :
    ∀ act ∈ s.taken t a, act.Weighs fpnOne := by
  intro act hact
  unfold taken at hact
  split at hact
  next hfirst =>
    obtain rfl := List.mem_singleton.1 hact
    exact seedOf_nonneg h a
  next hlater =>
    split at hact
    next hle => exact absurd hact List.not_mem_nil
    next hgap =>
      obtain rfl := List.mem_singleton.1 hact
      exact ⟨decay_unit (halflifeUs_mem a) (hnear ⟨hlater, hgap⟩), sampleOf_nonneg h a⟩

/-- The average after a push is what it was given, on top of what it was. -/
theorem average_push (h : Positive t) (hnear : Near longestGapUs s t) (a : FlowAverage) (hs : 0 ≤ (s.average a).v) :
    ((s.push t).average a).v = (s.taken t a).foldl (averageStep fpnOne) (s.average a).v := by
  unfold taken
  split
  next hfirst =>
    rw [average, ewma_seed hfirst]
    rfl
  next hlater =>
    split
    next hle =>
      rw [average, ewma_stay hlater hle]
      rfl
    next hgap =>
      have hunit := decay_unit (halflifeUs_mem a) (hnear ⟨hlater, hgap⟩)
      rw [average_blend ⟨hlater, hgap⟩, ewmaNormalizedStep_v hs hunit (sampleOf_nonneg h a)]
      rfl

/-! ### Runs -/

/-- Every push of a run comes within `gapMaxUs` of the last one that advanced the clock. -/
def Spaced (gapMaxUs : ℕ) : FlowState → List FlowTick → Prop
  | _, [] => True
  | s, t :: ts => Near gapMaxUs s t ∧ Spaced gapMaxUs (s.push t) ts

theorem spaced_concat {gapMaxUs : ℕ} {ts : List FlowTick} :
    ∀ {s : FlowState}, Spaced gapMaxUs s (ts ++ [t]) ↔ Spaced gapMaxUs s ts ∧ Near gapMaxUs (s.run ts) t := by
  induction ts with
  | nil => exact ⟨fun h => ⟨trivial, h.1⟩, fun h => ⟨h.2, trivial⟩⟩
  | cons x ts ih =>
    intro s
    rw [List.cons_append, Spaced, Spaced, ih, and_assoc]
    rfl

theorem Spaced.mono {m n : ℕ} (h : m ≤ n) {ts : List FlowTick} :
    ∀ {s : FlowState}, Spaced m s ts → Spaced n s ts := by
  induction ts with
  | nil => exact fun _ => trivial
  | cons x ts ih => exact fun hs => ⟨fun hgap => (hs.1 hgap).trans h, ih hs.2⟩

theorem takenRun_concat (a : FlowAverage) {ts : List FlowTick} :
    ∀ {s : FlowState}, takenRun a s (ts ++ [t]) = takenRun a s ts ++ (s.run ts).taken t a := by
  induction ts with
  | nil =>
    intro s
    exact List.append_nil _
  | cons x ts ih =>
    intro s
    rw [List.cons_append, takenRun, takenRun, ih, List.append_assoc]
    rfl

theorem run_concat (s : FlowState) (ts : List FlowTick) (t : FlowTick) : s.run (ts ++ [t]) = (s.run ts).push t :=
  List.foldl_concat ..

/-- An average after a run is the decaying average of what the run gave it. -/
theorem average_run (a : FlowAverage) :
    ∀ ts : List FlowTick, (∀ x ∈ ts, Positive x) → Spaced longestGapUs init ts →
      (∀ act ∈ takenRun a init ts, act.Weighs fpnOne) ∧
        ((init.run ts).average a).v = (takenRun a init ts).foldl (averageStep fpnOne) 0 := by
  have hone : 0 < fpnOne := by decide
  intro ts
  induction ts using List.reverseRecOn with
  | nil =>
    refine fun _ _ => ⟨fun _ hact => absurd hact List.not_mem_nil, ?_⟩
    cases a <;> rfl
  | append_singleton ts t ih =>
    intro hpos hspaced
    obtain ⟨hbefore, hnear⟩ := spaced_concat.1 hspaced
    obtain ⟨hweighs, hvalue⟩ := ih (fun x hx => hpos x (List.mem_append_left [t] hx)) hbefore
    have ht : Positive t := hpos t List.mem_concat_self
    have hlow : 0 ≤ ((init.run ts).average a).v := hvalue ▸ (averageRun_mem hone _ hweighs).1
    rw [takenRun_concat, run_concat]
    refine ⟨fun act hact => ?_, ?_⟩
    · rcases List.mem_append.1 hact with hold | hnew
      · exact hweighs act hold
      · exact taken_weighs ht hnear a act hnew
    · rw [average_push ht hnear a hlow, hvalue, List.foldl_append]

/-- What a push after a run has to keep. -/
structure Kept (ts : List FlowTick) (t : FlowTick) : Prop where
  /-- Across a gap every half-life keeps a share. -/
  decays : (init.run ts).Gap t → ∀ hl ∈ flowHalflives,
    0 ≤ (decay (t.timestampUs - (init.run ts).lastUs) hl).v ∧
      (decay (t.timestampUs - (init.run ts).lastUs) hl).v ≤ fpnOne
  /-- Every average is between zero and its largest sample. -/
  within : ∀ a, 0 ≤ ((init.run (ts ++ [t])).average a).v ∧
    ((init.run (ts ++ [t])).average a).v ≤ largestSample (takenRun a init (ts ++ [t]))
  /-- What is kept across a gap is no more than what was there. -/
  fades : (init.run ts).Gap t → ∀ a : FlowAverage,
    (((init.run ts).average a).mul (decay (t.timestampUs - (init.run ts).lastUs) a.halflifeUs)).v ≤
      ((init.run ts).average a).v
  /-- Only a larger sample makes an average grow. -/
  grows : (init.run ts).Gap t → ∀ a : FlowAverage,
    ((init.run (ts ++ [t])).average a).v ≤ max ((init.run ts).average a).v (a.sampleOf (init.run ts) t).v

theorem kept_of_spaced {ts : List FlowTick} (hpos : ∀ x ∈ ts ++ [t], Positive x)
    (hspaced : Spaced longestGapUs init (ts ++ [t])) : Kept ts t := by
  have hone : 0 < fpnOne := by decide
  obtain ⟨hbefore, hnear⟩ := spaced_concat.1 hspaced
  have ht : Positive t := hpos t List.mem_concat_self
  have hlow : ∀ a, 0 ≤ ((init.run ts).average a).v := by
    intro a
    obtain ⟨hweighs, hvalue⟩ := average_run a ts (fun x hx => hpos x (List.mem_append_left [t] hx)) hbefore
    exact hvalue ▸ (averageRun_mem hone _ hweighs).1
  refine { decays := ?_, within := ?_, fades := ?_, grows := ?_ }
  · exact fun hgap hl hhl => decay_unit hhl (hnear hgap)
  · intro a
    obtain ⟨hweighs, hvalue⟩ := average_run a (ts ++ [t]) hpos hspaced
    rw [hvalue]
    exact averageRun_mem hone _ hweighs
  · intro hgap a
    have hunit := decay_unit (halflifeUs_mem a) (hnear hgap)
    rw [Fpn.mul_share (hlow a) hunit]
    exact mul_tdiv_le hone (hlow a) hunit.2
  · intro hgap a
    have hunit := decay_unit (halflifeUs_mem a) (hnear hgap)
    rw [run_concat, average_blend hgap, ewmaNormalizedStep_v (hlow a) hunit (sampleOf_nonneg ht a)]
    exact blend_le_max hone (hlow a) (sampleOf_nonneg ht a) hunit

/-! ### Past the longest gap -/

def openingTick : FlowTick where
  timestampUs := 1
  signedVolume := 0.0
  price := .fromInt 2
  volume := .fromInt 1

/-- A push at a later time, with price and volume one. -/
def tickAt (timestampUs : UInt64) : FlowTick where
  timestampUs := timestampUs
  signedVolume := 0.0
  price := .fromInt 1
  volume := .fromInt 1

theorem positive_pair (timestampUs : UInt64) : ∀ x ∈ [openingTick] ++ [tickAt timestampUs], Positive x := by
  intro x hx
  rcases List.mem_cons.1 hx with rfl | hlater
  · decide +kernel
  · obtain rfl := List.mem_singleton.1 hlater
    have hone : 0 ≤ (Fpn.fromInt 1).v := by decide
    exact ⟨hone, hone⟩

theorem lastUs_opening : (init.run [openingTick]).lastUs = 1 := rfl

/-- One microsecond past the longest gap the multiple of ln 2 leaves the `int` at the shortest half-life. -/
theorem decay_past_longest : (fpnOne : ℤ) < (decay 14885222362563597 flowHalflife10sUs).v := by decide +kernel

/-- The gaps up to the longest are the ones under which every run of pushes with prices and volumes that are
    not below zero keeps its averages. -/
theorem flowPushes_kept_iff (gapMaxUs : ℕ) :
    (∀ ts t, (∀ x ∈ ts ++ [t], Positive x) → Spaced gapMaxUs init (ts ++ [t]) → Kept ts t) ↔
      gapMaxUs ≤ longestGapUs := by
  constructor
  · intro h
    by_contra hlong
    have hspaced : Spaced gapMaxUs init ([openingTick] ++ [tickAt 14885222362563598]) := by
      refine ⟨fun hgap => absurd rfl hgap.1, fun _ => ?_, trivial⟩
      exact (by decide : (14885222362563598 - 1 : UInt64).toNat ≤ longestGapUs + 1).trans (not_le.1 hlong)
    have hgap : (init.run [openingTick]).Gap (tickAt 14885222362563598) := by
      unfold Gap
      rw [lastUs_opening]
      decide
    have hkept := (h [openingTick] (tickAt 14885222362563598) (positive_pair _) hspaced).decays hgap
      flowHalflife10sUs List.mem_cons_self
    rw [lastUs_opening] at hkept
    exact absurd hkept.2 (not_le.2 decay_past_longest)
  · exact fun h ts t hpos hspaced => kept_of_spaced hpos (hspaced.mono h)

/-- A gap that reads as a step back blows the day's average up to a hundred thousand, on prices of two and one. -/
theorem average_past_longest :
    largestSample (takenRun .retEma24h init [openingTick, tickAt 18446743073709551617]) <
      ((init.run [openingTick, tickAt 18446743073709551617]).average .retEma24h).v := by
  decide +kernel

/-- A gap that reads as a step back, and one of 943 years, which wraps the narrowed multiple to plus five. -/
theorem flowPushes_overshoot :
    (∀ x ∈ [openingTick, tickAt 18446743073709551617], Positive x) ∧
      ¬Kept [openingTick] (tickAt 18446743073709551617) ∧
      (∀ x ∈ [openingTick, tickAt 29770444680072628], Positive x) ∧
        ¬Kept [openingTick] (tickAt 29770444680072628) := by
  refine ⟨positive_pair _, fun h => ?_, positive_pair _, fun h => ?_⟩
  · exact absurd (h.within .retEma24h).2 (not_le.2 average_past_longest)
  · have hgap : (init.run [openingTick]).Gap (tickAt 29770444680072628) := by
      unfold Gap
      rw [lastUs_opening]
      decide
    have hkept := h.decays hgap flowHalflife10sUs List.mem_cons_self
    rw [lastUs_opening] at hkept
    exact absurd hkept.2 (by decide +kernel)

end FlowState

end FoxTrader
