import Mathlib.Logic.Function.Basic
import FoxTrader.FixedPoint

/-! # Rolling market statistics

    `RollingStats_Push` takes a price, a volume and the side of the trade into a window of the last
    `W` samples. Ring buffers keep the samples so that the one that falls out can be taken off the
    running sums again; three deques keep the slots that can still become the lowest price, the
    highest price and the highest volume. From two samples on, the sums give the means, the variance
    and the regression on the position in the window. -/

namespace FoxTrader

open Function

/-! ### Monotonic deques -/

/-- `min_dq`, `max_dq` or `vmax_dq` with its head and size: ring-buffer slots, oldest first. -/
structure SlotDeque where
  dq : Nat → Nat
  head : Nat
  size : Nat

namespace SlotDeque

/-- Drop the front if it is the slot about to be overwritten. -/
def expire (W : Nat) (d : SlotDeque) (evict : Bool) (slot : Nat) : SlotDeque :=
  let expires := evict && decide (0 < d.size) && d.dq d.head = slot
  { d with head := (d.head + expires.toNat) &&& (W - 1), size := d.size - expires.toNat }

/-- The size once every worse slot at the back is dropped. -/
def popBack (W : Nat) (dq : Nat → Nat) (head : Nat) (worse : Nat → Bool) : Nat → Nat
  | 0 => 0
  | size + 1 => if worse (dq ((head + size) &&& (W - 1))) then popBack W dq head worse size else size + 1

/-- One turn of phase 6 for one deque. -/
def push (W : Nat) (d : SlotDeque) (evict : Bool) (slot : Nat) (worse : Nat → Bool) : SlotDeque :=
  let d := d.expire W evict slot
  let size := popBack W d.dq d.head worse d.size
  { d with dq := update d.dq ((d.head + size) &&& (W - 1)) slot, size := size + 1 }

/-- The slot at the front. -/
def front (d : SlotDeque) : Nat := d.dq d.head

end SlotDeque

/-! ### The state -/

structure RollingStats where
  priceAvg : Fpn
  priceSlope : Fpn
  priceRSquared : Fpn
  priceVariance : Fpn
  priceStddev : Fpn
  priceMin : Fpn
  priceMax : Fpn
  volumeAvg : Fpn
  volumeSlope : Fpn
  volumeMax : Fpn
  volumeDelta : Fpn
  vwap : Fpn
  vwapDeviation : Fpn
  head : Nat
  count : Nat
  buyVolumeSum : Fpn
  sellVolumeSum : Fpn
  pvSum : Fpn
  volSum : Fpn
  priceSumRunning : Fpn
  priceSumY2Running : Fpn
  priceSumXyRunning : Fpn
  volumeSumRunning : Fpn
  volSumXyRunning : Fpn
  priceBuf : Nat → Fpn
  volumeBuf : Nat → Fpn
  pvBuf : Nat → Fpn
  sideBits : Nat → BitVec 64
  minDq : SlotDeque
  maxDq : SlotDeque
  vmaxDq : SlotDeque

/-- One sample. -/
structure Sample where
  price : Fpn
  volume : Fpn
  isBuyerMaker : Bool

namespace RollingStats

/-- `RollingStats_Init`. -/
def init : RollingStats :=
  { priceAvg := .zero, priceSlope := .zero, priceRSquared := .zero, priceVariance := .zero, priceStddev := .zero
    priceMin := .zero, priceMax := .zero, volumeAvg := .zero, volumeSlope := .zero, volumeMax := .zero
    volumeDelta := .zero, vwap := .zero, vwapDeviation := .zero, head := 0, count := 0
    buyVolumeSum := .zero, sellVolumeSum := .zero, pvSum := .zero, volSum := .zero, priceSumRunning := .zero
    priceSumY2Running := .zero, priceSumXyRunning := .zero, volumeSumRunning := .zero, volSumXyRunning := .zero
    priceBuf := fun _ => .zero, volumeBuf := fun _ => .zero, pvBuf := fun _ => .zero, sideBits := fun _ => 0
    minDq := ⟨fun _ => 0, 0, 0⟩, maxDq := ⟨fun _ => 0, 0, 0⟩, vmaxDq := ⟨fun _ => 0, 0, 0⟩ }

/-! ### Sides -/

/-- Bit `slot` of the side words. -/
def sideAt (sideBits : Nat → BitVec 64) (slot : Nat) : Bool := (sideBits (slot >>> 6)).getLsbD (slot &&& 63)

/-- Set or clear bit `slot` of the side words. -/
def setSide (sideBits : Nat → BitVec 64) (slot : Nat) (isBuyerMaker : Bool) : Nat → BitVec 64 :=
  let bit : BitVec 64 := 1#64 <<< (slot &&& 63)
  let mask : BitVec 64 := if isBuyerMaker then BitVec.allOnes 64 else 0
  update sideBits (slot >>> 6) ((sideBits (slot >>> 6) &&& ~~~bit) ||| (bit &&& mask))

/-! ### One push -/

/-- A running sum without what falls out of the window and with what comes in. -/
def slide (sum evict add : Fpn) : Fpn := (sum.sub evict).addSat add

/-- Whether the window is full, so that the oldest sample falls out. -/
def evicts (W : Nat) (rs : RollingStats) : Bool := W ≤ rs.count

/-- What is taken off a sum: the oldest sample's part, zero during warm-up. -/
def evicted (W : Nat) (rs : RollingStats) (oldest : Fpn) : Fpn := .blendOnMask oldest .zero (rs.evicts W)

def oldestPrice (rs : RollingStats) : Fpn := rs.priceBuf rs.head

def oldestVolume (rs : RollingStats) : Fpn := rs.volumeBuf rs.head

def oldestPv (rs : RollingStats) : Fpn := rs.pvBuf rs.head

def oldestSide (rs : RollingStats) : Bool := sideAt rs.sideBits rs.head

/-- Phase 2: directional volumes, `pv_sum` and `vol_sum`. -/
def pushVolumes (W : Nat) (rs : RollingStats) (x : Sample) : RollingStats :=
  let evict := rs.evicts W
  { rs with
    buyVolumeSum := slide rs.buyVolumeSum (.blendOnMask rs.oldestVolume .zero (evict && !rs.oldestSide))
      (.blendOnMask .zero x.volume x.isBuyerMaker)
    sellVolumeSum := slide rs.sellVolumeSum (.blendOnMask rs.oldestVolume .zero (evict && rs.oldestSide))
      (.blendOnMask x.volume .zero x.isBuyerMaker)
    pvSum := slide rs.pvSum (rs.evicted W rs.oldestPv) (x.price.mul x.volume)
    volSum := slide rs.volSum (rs.evicted W rs.oldestVolume) x.volume }

/-- Phase 3: the volume-weighted price. -/
def pushVwap (rs : RollingStats) (price : Fpn) : RollingStats :=
  let traded := !rs.volSum.isZero
  let newVwap := rs.pvSum.divNoAssert (.blendOnMask rs.volSum (.fromInt 1) traded)
  let newDeviation := (price.sub newVwap).divNoAssert (.blendOnMask newVwap (.fromInt 1) traded)
  { rs with
    vwap := .blendOnMask newVwap rs.vwap traded
    vwapDeviation := .blendOnMask newDeviation rs.vwapDeviation traded }

/-- Where the new sample stands in the window. -/
def position (W : Nat) (rs : RollingStats) : Int := rs.count + (rs.evicts W).toNat * ((W : Int) - 1 - rs.count)

/-- Phase 5: the sums of the regression, from the sums before the push. -/
def pushSums (W : Nat) (rs old : RollingStats) (x : Sample) : RollingStats :=
  let place := Fpn.fromInt (old.position W)
  { rs with
    priceSumXyRunning := slide old.priceSumXyRunning (old.evicted W (old.priceSumRunning.sub old.oldestPrice))
      (place.mul x.price)
    volSumXyRunning := slide old.volSumXyRunning (old.evicted W (old.volumeSumRunning.sub old.oldestVolume))
      (place.mul x.volume)
    priceSumRunning := slide old.priceSumRunning (old.evicted W old.oldestPrice) x.price
    priceSumY2Running := slide old.priceSumY2Running (old.evicted W (old.oldestPrice.mul old.oldestPrice))
      (x.price.mul x.price)
    volumeSumRunning := slide old.volumeSumRunning (old.evicted W old.oldestVolume) x.volume }

/-- Phase 4: the sample into the ring buffers. -/
def write (rs : RollingStats) (x : Sample) : RollingStats :=
  { rs with
    priceBuf := update rs.priceBuf rs.head x.price
    volumeBuf := update rs.volumeBuf rs.head x.volume
    pvBuf := update rs.pvBuf rs.head (x.price.mul x.volume)
    sideBits := setSide rs.sideBits rs.head x.isBuyerMaker }

/-- Phase 6: the deques, on the ring buffers as written, and the extremes at their fronts. -/
def pushExtremes (W : Nat) (rs : RollingStats) (x : Sample) : RollingStats :=
  let evict := rs.evicts W
  let minDq := rs.minDq.push W evict rs.head fun slot => (rs.priceBuf slot).greaterThan x.price
  let maxDq := rs.maxDq.push W evict rs.head fun slot => (rs.priceBuf slot).lessThan x.price
  let vmaxDq := rs.vmaxDq.push W evict rs.head fun slot => (rs.volumeBuf slot).lessThan x.volume
  { rs with
    minDq, maxDq, vmaxDq
    priceMin := rs.priceBuf minDq.front
    priceMax := rs.priceBuf maxDq.front
    volumeMax := rs.volumeBuf vmaxDq.front }

/-- Phase 7. -/
def advance (W : Nat) (rs : RollingStats) : RollingStats :=
  { rs with head := (rs.head + 1) &&& (W - 1), count := rs.count + (decide (rs.count < W)).toNat }

/-- Phase 8: `(buy - sell) / (buy + sell)`. -/
def pushDelta (rs : RollingStats) : RollingStats :=
  let total := rs.buyVolumeSum.addSat rs.sellVolumeSum
  let traded := !total.isZero
  let diff := rs.buyVolumeSum.sub rs.sellVolumeSum
  { rs with volumeDelta := .blendOnMask (diff.divNoAssert (.blendOnMask total (.fromInt 1) traded)) .zero traded }

/-- `GetReciprocalLUT().values[n]`. -/
def reciprocal (n : Nat) : Fpn := if n = 0 then .zero else (Fpn.fromInt 1).divNoAssert (.fromInt n)

/-- `ss_total`. -/
def ssTotal (rs : RollingStats) : Fpn :=
  ((Fpn.fromInt rs.count).mul rs.priceSumY2Running).sub (rs.priceSumRunning.mul rs.priceSumRunning)

/-- `sum_x` and `sum_x2`. -/
def sumX (rs : RollingStats) : Fpn := .fromInt (rs.count * (rs.count - 1) / 2 : Nat)

def sumX2 (rs : RollingStats) : Fpn := .fromInt (rs.count * (rs.count - 1) * (2 * rs.count - 1) / 6 : Nat)

/-- `n · Σ x y - Σ x · Σ y`, the numerator of a slope. -/
def slopeNumerator (rs : RollingStats) (sumXy sumY : Fpn) : Fpn :=
  ((Fpn.fromInt rs.count).mul sumXy).sub (rs.sumX.mul sumY)

/-- `denominator`. -/
def slopeDenominator (rs : RollingStats) : Fpn := ((Fpn.fromInt rs.count).mul rs.sumX2).sub (rs.sumX.mul rs.sumX)

/-- Phase 9: the regression. -/
def regress (rs : RollingStats) : RollingStats :=
  let recip := reciprocal rs.count
  let numerator := rs.slopeNumerator rs.priceSumXyRunning rs.priceSumRunning
  let sloped := !rs.slopeDenominator.isZero
  let safeDenom := Fpn.blendOnMask rs.slopeDenominator (.fromInt 1) sloped
  let slope := Fpn.blendOnMask (numerator.divNoAssert safeDenom) .zero sloped
  let spread := sloped && !rs.ssTotal.isZero
  let safeTotal := Fpn.blendOnMask rs.ssTotal (.fromInt 1) spread
  let volNumerator := rs.slopeNumerator rs.volSumXyRunning rs.volumeSumRunning
  { rs with
    priceAvg := rs.priceSumRunning.mul recip
    volumeAvg := rs.volumeSumRunning.mul recip
    priceStddev := (rs.priceMax.sub rs.priceMin).divNoAssert (.fromInt 4)
    priceVariance := rs.ssTotal.mul (recip.mul recip)
    priceSlope := slope
    priceRSquared := .blendOnMask (slope.mul (numerator.divNoAssert safeTotal)) .zero spread
    volumeSlope := .blendOnMask (volNumerator.divNoAssert safeDenom) .zero sloped }

/-- `RollingStats_Push` up to the regression. -/
def pushWindow (W : Nat) (rs : RollingStats) (x : Sample) : RollingStats :=
  let s := ((rs.pushVolumes W x).pushVwap x.price).write x
  (((s.pushSums W rs x).pushExtremes W x).advance W).pushDelta

/-- `RollingStats_Push`. -/
def push (W : Nat) (rs : RollingStats) (x : Sample) : RollingStats :=
  let rs := rs.pushWindow W x
  if rs.count < 2 then rs else rs.regress

end RollingStats

end FoxTrader
