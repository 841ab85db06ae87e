import FoxTrader.Lib.Run
import FoxTrader.RollingExtremes

/-! # The window the statistics are of

    What a push keeps is a function of the last `W` samples: the running sums are the sums over them,
    the sum weighted by position moves by the sum of what stays when everything moves down by one, and
    the extremes are those of the window because its deques are staircases of it. -/

namespace FoxTrader

open Lib Function

namespace RollingStats

variable {W : ℕ}

/-! ### Side bits -/

theorem and_63 (slot : ℕ) : slot &&& 63 = slot % 64 := Nat.and_two_pow_sub_one_eq_mod slot 6

theorem shiftRight_6 (slot : ℕ) : slot >>> 6 = slot / 64 := Nat.shiftRight_eq_div_pow slot 6

theorem getLsbD_bit {i j : ℕ} (hi : i < 64) : (1#64 <<< i).getLsbD j = decide (j = i) := by
  by_cases hji : j = i
  · simp [hji, hi]
  · have hne : ¬ (i ≤ j ∧ j - i = 0) := fun h => hji (by omega)
    simp only [BitVec.getLsbD_shiftLeft, BitVec.getLsbD_one]
    rw [decide_eq_false hji]
    by_cases hlt : j < i
    · simp [hlt]
    · rw [decide_eq_false (fun h : j - i = 0 => hne ⟨not_lt.1 hlt, h⟩), Bool.and_false, Bool.and_false]

/-- Only the bit that is set changes. -/
theorem sideAt_setSide (sideBits : ℕ → BitVec 64) (slot other : ℕ) (isBuyerMaker : Bool) :
    sideAt (setSide sideBits slot isBuyerMaker) other =
      if other = slot then isBuyerMaker else sideAt sideBits other := by
  unfold sideAt setSide
  rw [shiftRight_6, shiftRight_6, and_63, and_63]
  by_cases hword : other / 64 = slot / 64
  · have hlt : slot % 64 < 64 := Nat.mod_lt _ (by omega)
    have hother : other % 64 < 64 := Nat.mod_lt _ (by omega)
    rw [hword, update_self, BitVec.getLsbD_or, BitVec.getLsbD_and, BitVec.getLsbD_and, BitVec.getLsbD_not,
      getLsbD_bit hlt,
      decide_eq_true hother]
    by_cases hbit : other % 64 = slot % 64
    · have heq : other = slot := by omega
      rw [if_pos heq, decide_eq_true hbit]
      cases isBuyerMaker with
      | false => simp
      | true => simp only [if_true, BitVec.getLsbD_allOnes, decide_eq_true hother, Bool.and_true, Bool.or_true]
    · have hne : other ≠ slot := fun heq => hbit (congrArg (· % 64) heq)
      rw [if_neg hne, decide_eq_false hbit]
      simp
  · have hne : other ≠ slot := fun heq => hword (congrArg (· / 64) heq)
    rw [update_of_ne hword, if_neg hne]

/-! ### Sums -/

/-- The sum over some samples. -/
def total (f : Sample → ℤ) (xs : List Sample) : ℤ := (xs.map f).sum

theorem total_append (f : Sample → ℤ) (xs ys : List Sample) : total f (xs ++ ys) = total f xs + total f ys := by
  rw [total, List.map_append, List.sum_append, total, total]

theorem total_singleton (f : Sample → ℤ) (x : Sample) : total f [x] = f x := by
  rw [total, List.map_singleton, List.sum_singleton]

/-- A running sum that neither loses nor gains by saturation. -/
def SlideFits (sum evict add : Fpn) : Prop := Fpn.Fits (sum.v - evict.v) ∧ Fpn.Fits (sum.v - evict.v + add.v)

instance (sum evict add : Fpn) : Decidable (SlideFits sum evict add) := inferInstanceAs (Decidable (_ ∧ _))

theorem slide_v {sum evict add : Fpn} (h : SlideFits sum evict add) :
    (slide sum evict add).v = sum.v - evict.v + add.v := by
  have hsub := Fpn.sub_v h.1
  rw [slide, Fpn.addSat_v (hsub ▸ h.2), hsub]

/-- A running sum over what is gone and what stays becomes one over what stays and what comes in. -/
theorem slide_total {f : Sample → ℤ} {gone rest : List Sample} {x : Sample} {sum evict add : Fpn}
    (hsum : sum.v = total f (gone ++ rest)) (hevict : evict.v = total f gone) (hadd : add.v = f x)
    (h : SlideFits sum evict add) : (slide sum evict add).v = total f (rest ++ [x]) := by
  rw [slide_v h, hsum, hevict, hadd, total_append, total_append, total_singleton]
  ring

/-- The sum of a quantity over some samples, each times its position. -/
def totalXy (f : Sample → ℤ) (xs : List Sample) : ℤ := weightedSum (xs.map f)

/-- The weighted sum loses the sum of what stays if something is gone. -/
theorem slide_totalXy {f : Sample → ℤ} {gone rest : List Sample} {x : Sample} {sum evict add : Fpn}
    (hgone : gone.length ≤ 1) (hsum : sum.v = totalXy f (gone ++ rest))
    (hevict : evict.v = gone.length * total f rest)
    (hadd : add.v = rest.length * f x) (h : SlideFits sum evict add) :
    (slide sum evict add).v = totalXy f (rest ++ [x]) := by
  have hnew : totalXy f (rest ++ [x]) = totalXy f rest + rest.length * f x := by
    rw [totalXy, totalXy, List.map_append, List.map_singleton, weightedSum_snoc, List.length_map]
  have hold : totalXy f (gone ++ rest) = totalXy f rest + gone.length * total f rest := by
    rcases gone with _ | ⟨y, _ | ⟨z, gone⟩⟩
    · rw [List.nil_append, List.length_nil, Nat.cast_zero, zero_mul, add_zero]
    · rw [totalXy, totalXy, List.singleton_append, List.map_cons, weightedSum_cons, total, List.length_singleton,
        Nat.cast_one, one_mul]
    · exact absurd hgone (by simp)
  rw [slide_v h, hsum, hevict, hadd, hold, hnew]
  ring

/-! ### What moves -/

/-- Of a full window the oldest sample goes, the one at the head of the ring buffers. -/
structure Moves (W : ℕ) (rs : RollingStats) (gone rest : List Sample) : Prop where
  evicts : (rs.evicts W).toNat = gone.length
  price : ∀ y ∈ gone, rs.oldestPrice = y.price
  volume : ∀ y ∈ gone, rs.oldestVolume = y.volume
  pv : ∀ y ∈ gone, rs.oldestPv = y.price.mul y.volume
  side : ∀ y ∈ gone, rs.oldestSide = y.isBuyerMaker
  place : rs.position W = rest.length

/-- No operation on the sums saturates in a push. -/
def Unsaturated (W : ℕ) (rs : RollingStats) (x : Sample) : Prop :=
  SlideFits rs.buyVolumeSum (.blendOnMask rs.oldestVolume .zero (rs.evicts W && !rs.oldestSide))
      (.blendOnMask .zero x.volume x.isBuyerMaker) ∧
    SlideFits rs.sellVolumeSum (.blendOnMask rs.oldestVolume .zero (rs.evicts W && rs.oldestSide))
      (.blendOnMask x.volume .zero x.isBuyerMaker) ∧
    SlideFits rs.pvSum (rs.evicted W rs.oldestPv) (x.price.mul x.volume) ∧
    SlideFits rs.volSum (rs.evicted W rs.oldestVolume) x.volume ∧
    SlideFits rs.priceSumRunning (rs.evicted W rs.oldestPrice) x.price ∧
    SlideFits rs.priceSumY2Running (rs.evicted W (rs.oldestPrice.mul rs.oldestPrice)) (x.price.mul x.price) ∧
    SlideFits rs.volumeSumRunning (rs.evicted W rs.oldestVolume) x.volume ∧
    Fpn.Fits (rs.position W * fpnOne) ∧
    Fpn.Fits (rs.priceSumRunning.v - rs.oldestPrice.v) ∧
    Fpn.MulFits (.fromInt (rs.position W)) x.price ∧
    SlideFits rs.priceSumXyRunning (rs.evicted W (rs.priceSumRunning.sub rs.oldestPrice))
      ((Fpn.fromInt (rs.position W)).mul x.price) ∧
    Fpn.Fits (rs.volumeSumRunning.v - rs.oldestVolume.v) ∧
    Fpn.MulFits (.fromInt (rs.position W)) x.volume ∧
    SlideFits rs.volSumXyRunning (rs.evicted W (rs.volumeSumRunning.sub rs.oldestVolume))
      ((Fpn.fromInt (rs.position W)).mul x.volume)

instance (W : ℕ) (rs : RollingStats) (x : Sample) : Decidable (rs.Unsaturated W x) :=
  inferInstanceAs (Decidable (_ ∧ _))

/-- The running sums are the sums over these samples. -/
structure SumsOver (rs : RollingStats) (xs : List Sample) : Prop where
  price : rs.priceSumRunning.v = total (·.price.v) xs
  priceY2 : rs.priceSumY2Running.v = total (fun x => (x.price.mul x.price).v) xs
  priceXy : rs.priceSumXyRunning.v = totalXy (·.price.v) xs
  volume : rs.volumeSumRunning.v = total (·.volume.v) xs
  volumeXy : rs.volSumXyRunning.v = totalXy (·.volume.v) xs
  vol : rs.volSum.v = total (·.volume.v) xs
  pv : rs.pvSum.v = total (fun x => (x.price.mul x.volume).v) xs
  buy : rs.buyVolumeSum.v = total (fun x => if x.isBuyerMaker then 0 else x.volume.v) xs
  sell : rs.sellVolumeSum.v = total (fun x => if x.isBuyerMaker then x.volume.v else 0) xs

section
variable {rs : RollingStats} {gone rest : List Sample} {x : Sample}

/-- Nothing or one sample goes. -/
theorem Moves.gone_eq (hm : Moves W rs gone rest) :
    rs.evicts W = false ∧ gone = [] ∨ ∃ y, rs.evicts W = true ∧ gone = [y] := by
  have hlen := hm.evicts
  cases hevicts : rs.evicts W with
  | false =>
    rw [hevicts, Bool.toNat_false] at hlen
    exact .inl ⟨rfl, List.length_eq_zero_iff.1 hlen.symm⟩
  | true =>
    rw [hevicts, Bool.toNat_true] at hlen
    obtain ⟨y, hy⟩ := List.length_eq_one_iff.1 hlen.symm
    exact .inr ⟨y, rfl, hy⟩

/-- What is taken off a sum is the part of what is gone. -/
theorem Moves.evicted_v (hm : Moves W rs gone rest) {f : Sample → ℤ} {oldest : Fpn}
    (hf : ∀ y ∈ gone, oldest.v = f y) :
    (rs.evicted W oldest).v = total f gone := by
  rw [evicted, Fpn.blendOnMask_zero_v]
  rcases hm.gone_eq with ⟨hevicts, rfl⟩ | ⟨y, hevicts, rfl⟩
  · rw [hevicts]
    rfl
  · rw [hevicts, if_pos rfl, total_singleton, hf y (List.mem_singleton_self y)]

/-- The same for the part of one side, `side` saying whether the oldest sample is of it. -/
theorem Moves.evictedSide_v (hm : Moves W rs gone rest) {side : Bool} {f : Sample → ℤ}
    (hf : ∀ y ∈ gone, (if side then y.volume.v else 0) = f y) :
    (Fpn.blendOnMask rs.oldestVolume .zero (rs.evicts W && side)).v = total f gone := by
  rw [Fpn.blendOnMask_zero_v]
  rcases hm.gone_eq with ⟨hevicts, rfl⟩ | ⟨y, hevicts, rfl⟩
  · rw [hevicts]
    rfl
  · have hy := List.mem_singleton_self y
    rw [hevicts, Bool.true_and, total_singleton, hm.volume y hy, hf y hy]

/-- What is taken off a weighted sum is the sum of what stays, if something is gone. -/
theorem Moves.evictedXy_v (hm : Moves W rs gone rest) {f : Sample → ℤ} {sum oldest : Fpn}
    (hsum : sum.v = total f (gone ++ rest)) (hf : ∀ y ∈ gone, oldest.v = f y) (hfits : Fpn.Fits (sum.v - oldest.v)) :
    (rs.evicted W (sum.sub oldest)).v = gone.length * total f rest := by
  rw [evicted, Fpn.blendOnMask_zero_v]
  rcases hm.gone_eq with ⟨hevicts, rfl⟩ | ⟨y, hevicts, rfl⟩
  · rw [hevicts, List.length_nil, Nat.cast_zero, zero_mul]
    rfl
  · rw [hevicts, if_pos rfl, Fpn.sub_v hfits, hsum, hf y (List.mem_singleton_self y), total_append, total_singleton,
      List.length_singleton]
    ring

/-- The position of the new sample times a quantity of it. -/
theorem Moves.place_mul_v (hm : Moves W rs gone rest) {b : Fpn} (hplace : Fpn.Fits (rs.position W * fpnOne))
    (hmul : Fpn.MulFits (.fromInt (rs.position W)) b) :
    ((Fpn.fromInt (rs.position W)).mul b).v = rest.length * b.v := by
  rw [hm.place] at hplace hmul ⊢
  exact Fpn.fromInt_mul_v hplace hmul

/-- A push moves every sum on. -/
theorem SumsOver.pushWindow (h : rs.SumsOver (gone ++ rest)) (hm : Moves W rs gone rest)
    (hfits : rs.Unsaturated W x) :
    (rs.pushWindow W x).SumsOver (rest ++ [x]) := by
  obtain ⟨hbuy, hsell, hpv, hvol, hprice, hy2, hvolume, hplace, hsub, hmul, hxy, hsubv, hmulv, hxyv⟩ := hfits
  have hone : gone.length ≤ 1 := hm.evicts ▸ Bool.toNat_le _
  have hpriceOf : ∀ y ∈ gone, rs.oldestPrice.v = y.price.v := fun y hy => congrArg Fpn.v (hm.price y hy)
  have hvolumeOf : ∀ y ∈ gone, rs.oldestVolume.v = y.volume.v := fun y hy => congrArg Fpn.v (hm.volume y hy)
  refine ⟨?_, ?_, ?_, ?_, ?_, ?_, ?_, ?_, ?_⟩
  · exact slide_total h.price (hm.evicted_v hpriceOf) rfl hprice
  · refine slide_total h.priceY2 (hm.evicted_v fun y hy => ?_) rfl hy2
    rw [hm.price y hy]
  · exact slide_totalXy hone h.priceXy (hm.evictedXy_v h.price hpriceOf hsub) (hm.place_mul_v hplace hmul) hxy
  · exact slide_total h.volume (hm.evicted_v hvolumeOf) rfl hvolume
  · exact slide_totalXy hone h.volumeXy (hm.evictedXy_v h.volume hvolumeOf hsubv) (hm.place_mul_v hplace hmulv) hxyv
  · exact slide_total h.vol (hm.evicted_v hvolumeOf) rfl hvol
  · exact slide_total h.pv (hm.evicted_v fun y hy => congrArg Fpn.v (hm.pv y hy)) rfl hpv
  · refine slide_total h.buy (hm.evictedSide_v fun y hy => ?_) ?_ hbuy
    · rw [hm.side y hy]
      cases y.isBuyerMaker <;> rfl
    · cases x.isBuyerMaker <;> rfl
  · refine slide_total h.sell (hm.evictedSide_v fun y hy => ?_) ?_ hsell
    · rw [hm.side y hy]
    · cases x.isBuyerMaker <;> rfl

end

/-! ### The window after every push -/

/-- A quantity by position in the stream. -/
def keyAt (f : Sample → ℤ) (xs : List Sample) (k : ℕ) : ℤ := (xs[k]?).elim 0 f

/-- The slots of the window hold its samples. -/
def Buffered (W : ℕ) (rs : RollingStats) (xs : List Sample) : Prop :=
  ∀ k y, xs.length - W ≤ k → xs[k]? = some y → rs.priceBuf (k % W) = y.price ∧ rs.volumeBuf (k % W) = y.volume ∧
    rs.pvBuf (k % W) = y.price.mul y.volume ∧ sideAt rs.sideBits (k % W) = y.isBuyerMaker

/-- The statistics are those of the window over the samples so far. -/
structure Tracks (W : ℕ) (rs : RollingStats) (xs : List Sample) : Prop where
  count : rs.count = min xs.length W
  head : rs.head = xs.length % W
  buffered : rs.Buffered W xs
  sums : rs.SumsOver (window W xs)
  minDq : rs.minDq.Holds W (keyAt (·.price.v) xs) (xs.length - W) xs.length
  maxDq : rs.maxDq.Holds W (keyAt (-·.price.v) xs) (xs.length - W) xs.length
  vmaxDq : rs.vmaxDq.Holds W (keyAt (-·.volume.v) xs) (xs.length - W) xs.length
  fronts : xs ≠ [] → rs.priceMin = rs.priceBuf rs.minDq.front ∧ rs.priceMax = rs.priceBuf rs.maxDq.front ∧
    rs.volumeMax = rs.volumeBuf rs.vmaxDq.front

theorem keyAt_snoc (f : Sample → ℤ) (xs : List Sample) (x : Sample) {k : ℕ} (hk : k < xs.length) :
    keyAt f xs k = keyAt f (xs ++ [x]) k := by
  rw [keyAt, keyAt, List.getElem?_append_left hk]

theorem keyAt_last (f : Sample → ℤ) (xs : List Sample) (x : Sample) : keyAt f (xs ++ [x]) xs.length = f x := by
  rw [keyAt, List.getElem?_concat_length, Option.elim_some]

section
variable {rs : RollingStats} {xs : List Sample} {x : Sample}

/-- The last slots hold the last samples once the new one is written. -/
theorem Buffered.write (h : rs.Buffered W xs) (hhead : rs.head = xs.length % W) :
    (rs.write x).Buffered W (xs ++ [x]) := by
  intro k y hlo hy
  have hk := (List.getElem?_eq_some_iff.1 hy).1
  rw [List.length_append, List.length_singleton] at hlo hk
  unfold RollingStats.write
  dsimp only
  rw [sideAt_setSide]
  rcases Nat.lt_succ_iff_lt_or_eq.1 hk with hlt | rfl
  · rw [List.getElem?_append_left hlt] at hy
    have hne : k % W ≠ rs.head := hhead ▸ mod_ne_of_lt hlt (by omega)
    rw [update_of_ne hne, update_of_ne hne, update_of_ne hne, if_neg hne]
    exact h k y (by omega) hy
  · rw [List.getElem?_concat_length] at hy
    obtain rfl := Option.some_injective _ hy
    rw [← hhead, update_self, update_self, update_self, if_pos rfl]
    exact ⟨rfl, rfl, rfl, rfl⟩

theorem Tracks.evicts_eq (h : rs.Tracks W xs) : rs.evicts W = decide (W ≤ xs.length) := by
  rw [evicts, h.count]
  exact decide_eq_decide.2 (by omega)

/-- What goes and what stays. -/
theorem Tracks.moves (hpos : 0 < W) (h : rs.Tracks W xs) :
    ∃ gone rest, window W xs = gone ++ rest ∧ rs.Moves W gone rest ∧ ∀ x, window W (xs ++ [x]) = rest ++ [x] := by
  by_cases hfull : W ≤ xs.length
  · obtain ⟨y, rest, hy, hwindow, hnext⟩ := window_snoc_of_le hpos hfull
    have hevicts : rs.evicts W = true := h.evicts_eq.trans (decide_eq_true hfull)
    have hslot : (xs.length - W) % W = rs.head := by
      rw [h.head]
      exact (Nat.mod_eq_sub_mod hfull).symm
    obtain ⟨hprice, hvolume, hpv, hside⟩ := h.buffered _ y le_rfl hy
    rw [hslot] at hprice hvolume hpv hside
    refine ⟨[y], rest, hwindow, ⟨?_, ?_, ?_, ?_, ?_, ?_⟩, hnext⟩
    · rw [hevicts]
      rfl
    · exact fun z hz => List.mem_singleton.1 hz ▸ hprice
    · exact fun z hz => List.mem_singleton.1 hz ▸ hvolume
    · exact fun z hz => List.mem_singleton.1 hz ▸ hpv
    · exact fun z hz => List.mem_singleton.1 hz ▸ hside
    · have hlen := congrArg List.length hwindow
      rw [length_window, Nat.min_eq_right hfull, List.length_cons] at hlen
      rw [position, hevicts, h.count, Nat.min_eq_right hfull, Bool.toNat_true]
      omega
  · have hevicts : rs.evicts W = false := h.evicts_eq.trans (decide_eq_false hfull)
    refine ⟨[], window W xs, rfl, ⟨?_, ?_, ?_, ?_, ?_, ?_⟩, window_snoc_of_lt (not_le.1 hfull)⟩
    · rw [hevicts]
      rfl
    · exact fun z hz => absurd hz List.not_mem_nil
    · exact fun z hz => absurd hz List.not_mem_nil
    · exact fun z hz => absurd hz List.not_mem_nil
    · exact fun z hz => absurd hz List.not_mem_nil
    · rw [position, hevicts, h.count, length_window, Bool.toNat_false]
      omega

/-- One turn of a deque whose order is that of `f`. -/
theorem holds_turn (hW : W.isPowerOfTwo) {d : SlotDeque} {f : Sample → ℤ}
    (hd : d.Holds W (keyAt f xs) (xs.length - W) xs.length) (worse : ℕ → Bool)
    (hworse : ∀ k y, xs.length + 1 - W ≤ k → xs[k]? = some y → worse (k % W) = decide (f x < f y)) :
    (d.push W (decide (W ≤ xs.length)) (xs.length % W) worse).Holds W (keyAt f (xs ++ [x])) ((xs ++ [x]).length - W)
      (xs ++ [x]).length := by
  have hpos : 0 < W := Nat.zero_lt_of_lt hd.1
  have hlo : xs.length - W + (decide (W ≤ xs.length)).toNat = xs.length + 1 - W := by
    by_cases hfull : W ≤ xs.length
    · rw [decide_eq_true hfull, Bool.toNat_true]
      omega
    · rw [decide_eq_false hfull, Bool.toNat_false]
      omega
  have hnew := hd.congr fun k hk => keyAt_snoc f xs x hk
  rw [List.length_append, List.length_singleton, ← hlo]
  refine hnew.push hW (by omega) (fun hfull => ?_) (by omega) fun k hk hlt => ?_
  · have := of_decide_eq_true hfull
    omega
  · have hy : xs[k]? = some xs[k] := List.getElem?_eq_getElem hlt
    rw [hworse k xs[k] (hlo ▸ hk) hy, keyAt_last, ← keyAt_snoc f xs x hlt, keyAt, hy, Option.elim_some]

/-- What a push does to the place in the buffers. -/
theorem pushWindow_place (W : ℕ) (rs : RollingStats) (x : Sample) :
    (rs.pushWindow W x).count = rs.count + (decide (rs.count < W)).toNat ∧
      (rs.pushWindow W x).head = (rs.head + 1) &&& (W - 1) := by
  unfold pushWindow pushDelta advance pushExtremes pushSums
  dsimp only
  unfold write pushVwap pushVolumes
  dsimp only
  exact ⟨rfl, rfl⟩

/-- To the deques, on the buffers as written. -/
theorem pushWindow_deques (W : ℕ) (rs : RollingStats) (x : Sample) :
    (rs.pushWindow W x).minDq =
        rs.minDq.push W (rs.evicts W) rs.head (fun slot => ((rs.write x).priceBuf slot).greaterThan x.price) ∧
      (rs.pushWindow W x).maxDq =
        rs.maxDq.push W (rs.evicts W) rs.head (fun slot => ((rs.write x).priceBuf slot).lessThan x.price) ∧
      (rs.pushWindow W x).vmaxDq =
        rs.vmaxDq.push W (rs.evicts W) rs.head (fun slot => ((rs.write x).volumeBuf slot).lessThan x.volume) := by
  unfold pushWindow pushDelta advance pushExtremes pushSums
  dsimp only
  unfold write pushVwap pushVolumes evicts
  dsimp only
  exact ⟨rfl, rfl, rfl⟩

/-- To the buffers. -/
theorem pushWindow_buffered {ys : List Sample} (h : (rs.write x).Buffered W ys) :
    (rs.pushWindow W x).Buffered W ys := by
  unfold Buffered RollingStats.write at h
  unfold Buffered RollingStats.pushWindow pushDelta advance pushExtremes pushSums
  dsimp only at h ⊢
  unfold RollingStats.write pushVwap pushVolumes
  dsimp only
  exact h

/-- And to the extremes. -/
theorem pushWindow_fronts :
    (rs.pushWindow W x).priceMin = (rs.pushWindow W x).priceBuf (rs.pushWindow W x).minDq.front ∧
      (rs.pushWindow W x).priceMax = (rs.pushWindow W x).priceBuf (rs.pushWindow W x).maxDq.front ∧
      (rs.pushWindow W x).volumeMax = (rs.pushWindow W x).volumeBuf (rs.pushWindow W x).vmaxDq.front := by
  unfold pushWindow pushDelta advance pushExtremes
  dsimp only
  exact ⟨rfl, rfl, rfl⟩

/-- A push moves the window on. -/
theorem Tracks.pushWindow (hW : W.isPowerOfTwo) (h : rs.Tracks W xs) (hfits : rs.Unsaturated W x) :
    (rs.pushWindow W x).Tracks W (xs ++ [x]) := by
  have hpos : 0 < W := Nat.pos_of_isPowerOfTwo hW
  obtain ⟨gone, rest, hwindow, hmoves, hnext⟩ := h.moves hpos
  obtain ⟨hcount, hhead⟩ := pushWindow_place W rs x
  obtain ⟨hmin, hmax, hvmax⟩ := pushWindow_deques W rs x
  have hwritten : (rs.write x).Buffered W (xs ++ [x]) := h.buffered.write h.head
  have hheld : ∀ {k y}, xs.length + 1 - W ≤ k → xs[k]? = some y →
      (rs.write x).priceBuf (k % W) = y.price ∧ (rs.write x).volumeBuf (k % W) = y.volume := by
    intro k y hk hy
    have hlen : (xs ++ [x]).length - W = xs.length + 1 - W := by rw [List.length_append, List.length_singleton]
    have hmem : (xs ++ [x])[k]? = some y := by
      rw [List.getElem?_append_left (List.getElem?_eq_some_iff.1 hy).1, hy]
    obtain ⟨hprice, hvolume, -⟩ := hwritten k y (hlen ▸ hk) hmem
    exact ⟨hprice, hvolume⟩
  refine ⟨?_, ?_, pushWindow_buffered hwritten, ?_, ?_, ?_, ?_, fun _ => pushWindow_fronts⟩
  · rw [hcount, h.count, List.length_append, List.length_singleton]
    by_cases hfull : W ≤ xs.length
    · rw [Nat.min_eq_right hfull, Nat.min_eq_right (by omega), decide_eq_false (lt_irrefl W), Bool.toNat_false,
        Nat.add_zero]
    · have hlt := not_le.1 hfull
      rw [Nat.min_eq_left hlt.le, Nat.min_eq_left hlt, decide_eq_true hlt, Bool.toNat_true]
  · rw [hhead, h.head, and_mask_eq_mod hW, List.length_append, List.length_singleton, Nat.mod_add_mod]
  · rw [hnext]
    exact (hwindow ▸ h.sums).pushWindow hmoves hfits
  · rw [hmin, h.evicts_eq, h.head]
    refine holds_turn hW h.minDq _ fun k y hk hy => ?_
    rw [(hheld hk hy).1]
    rfl
  · rw [hmax, h.evicts_eq, h.head]
    refine holds_turn hW h.maxDq _ fun k y hk hy => ?_
    rw [(hheld hk hy).1]
    exact decide_eq_decide.2 neg_lt_neg_iff.symm
  · rw [hvmax, h.evicts_eq, h.head]
    refine holds_turn hW h.vmaxDq _ fun k y hk hy => ?_
    rw [(hheld hk hy).2]
    exact decide_eq_decide.2 neg_lt_neg_iff.symm

/-- The regression reads the window and leaves it. -/
theorem Tracks.regress (h : rs.Tracks W xs) : rs.regress.Tracks W xs := by
  obtain ⟨hcount, hhead, hbuffered, ⟨hp, hy2, hxy, hv, hvxy, hvol, hpv, hbuy, hsell⟩, hmin, hmax, hvmax, hfronts⟩ := h
  exact ⟨hcount, hhead, hbuffered, ⟨hp, hy2, hxy, hv, hvxy, hvol, hpv, hbuy, hsell⟩, hmin, hmax, hvmax, hfronts⟩

theorem Tracks.push (hW : W.isPowerOfTwo) (h : rs.Tracks W xs) (hfits : rs.Unsaturated W x) :
    (rs.push W x).Tracks W (xs ++ [x]) := by
  unfold RollingStats.push
  dsimp only
  split
  · exact h.pushWindow hW hfits
  · exact (h.pushWindow hW hfits).regress

end

theorem tracks_init (hpos : 0 < W) : init.Tracks W [] := by
  have hnil : window W ([] : List Sample) = [] := window_of_le (Nat.zero_le W)
  have hlo : ([] : List Sample).length - W = 0 := Nat.zero_sub W
  refine ⟨(Nat.zero_min W).symm, (Nat.zero_mod W).symm, fun k y _ hy => ?_, ?_, ?_, ?_, ?_, fun h => absurd rfl h⟩
  · rw [List.getElem?_nil] at hy
    exact nomatch hy
  · rw [hnil]
    exact ⟨rfl, rfl, rfl, rfl, rfl, rfl, rfl, rfl, rfl⟩
  · exact hlo.symm ▸ SlotDeque.holds_nil hpos ..
  · exact hlo.symm ▸ SlotDeque.holds_nil hpos ..
  · exact hlo.symm ▸ SlotDeque.holds_nil hpos ..

/-- After every run of pushes the statistics are those of the window. -/
theorem tracks_run (hW : W.isPowerOfTwo) (xs : List Sample) (hfits : Steps (push W) (Unsaturated W) init xs) :
    (run (push W) init xs).Tracks W xs :=
  run_history (fun rs ys => Tracks W rs ys) (fun _ _ _ h hok => h.push hW hok) [] xs
    (tracks_init (Nat.pos_of_isPowerOfTwo hW)) hfits

/-! ### What is published -/

/-- At most `W` slots, of positions of the window in the order of the stream. -/
def SlotsInOrder (W n : ℕ) (d : SlotDeque) : Prop :=
  d.size ≤ W ∧ ∃ q : List ℕ, d.slots W = q.map (· % W) ∧ q.Pairwise (· < ·) ∧ ∀ k ∈ q, n - W ≤ k ∧ k < n

/-- The values of a quantity over some samples. -/
def values (f : Sample → Fpn) (xs : List Sample) : Set ℤ := {v | ∃ x ∈ xs, (f x).v = v}

/-- The lowest and highest price and the highest volume, each at the front of its deque. -/
structure ExtremesOver (rs : RollingStats) (xs : List Sample) : Prop where
  priceMin : IsLeast (values (·.price) xs) rs.priceMin.v
  priceMax : IsGreatest (values (·.price) xs) rs.priceMax.v
  volumeMax : IsGreatest (values (·.volume) xs) rs.volumeMax.v
  minFront : 0 < rs.minDq.size ∧ rs.priceBuf rs.minDq.front = rs.priceMin
  maxFront : 0 < rs.maxDq.size ∧ rs.priceBuf rs.maxDq.front = rs.priceMax
  vmaxFront : 0 < rs.vmaxDq.size ∧ rs.volumeBuf rs.vmaxDq.front = rs.volumeMax

section
variable {rs : RollingStats} {xs : List Sample} {d : SlotDeque} {f : Sample → ℤ}

theorem slotsInOrder_of_holds {n : ℕ} {key : ℕ → ℤ} (h : d.Holds W key (n - W) n) : SlotsInOrder W n d := by
  obtain ⟨-, q, hq, hslots⟩ := h
  have hlen : d.size = q.length := by rw [← SlotDeque.length_slots (W := W), hslots, List.length_map]
  have hle := hq.length_le
  exact ⟨by omega, q, hslots, hq.inOrder, hq.within⟩

theorem size_pos_of_holds (h : d.Holds W (keyAt f xs) (xs.length - W) xs.length) (hW : 0 < W) (hne : xs ≠ []) :
    0 < d.size := by
  obtain ⟨-, q, hq, hslots⟩ := h
  have hpos := List.length_pos_of_ne_nil hne
  rw [← SlotDeque.length_slots (W := W), hslots, List.length_map]
  exact List.length_pos_of_ne_nil (hq.ne_nil (by omega))

/-- The sample at the front is a least of the window. -/
theorem front_of_holds (h : d.Holds W (keyAt f xs) (xs.length - W) xs.length) (hW : 0 < W) (hne : xs ≠ []) :
    ∃ k y, xs.length - W ≤ k ∧ xs[k]? = some y ∧ d.front = k % W ∧ ∀ z ∈ window W xs, f y ≤ f z := by
  have hpos := List.length_pos_of_ne_nil hne
  obtain ⟨k, hlo, hhi, hfront, hleast⟩ := h.front_least (by omega)
  have hk : xs[k]? = some xs[k] := List.getElem?_eq_getElem hhi
  refine ⟨k, xs[k], hlo, hk, hfront, fun z hz => ?_⟩
  obtain ⟨j, hj, hz⟩ := mem_window.1 hz
  have hle := hleast j hj (List.getElem?_eq_some_iff.1 hz).1
  rwa [keyAt, keyAt, hk, hz] at hle

theorem Tracks.extremes (hW : 0 < W) (h : rs.Tracks W xs) (hne : xs ≠ []) : rs.ExtremesOver (window W xs) := by
  obtain ⟨hmin, hmax, hvmax⟩ := h.fronts hne
  refine ⟨?_, ?_, ?_, ⟨size_pos_of_holds h.minDq hW hne, hmin.symm⟩, ⟨size_pos_of_holds h.maxDq hW hne, hmax.symm⟩,
    ⟨size_pos_of_holds h.vmaxDq hW hne, hvmax.symm⟩⟩
  · obtain ⟨k, y, hk, hy, hfront, hleast⟩ := front_of_holds h.minDq hW hne
    rw [hmin, hfront, (h.buffered k y hk hy).1]
    refine ⟨⟨y, mem_window.2 ⟨k, hk, hy⟩, rfl⟩, ?_⟩
    rintro v ⟨z, hz, rfl⟩
    exact hleast z hz
  · obtain ⟨k, y, hk, hy, hfront, hleast⟩ := front_of_holds h.maxDq hW hne
    rw [hmax, hfront, (h.buffered k y hk hy).1]
    refine ⟨⟨y, mem_window.2 ⟨k, hk, hy⟩, rfl⟩, ?_⟩
    rintro v ⟨z, hz, rfl⟩
    exact neg_le_neg_iff.1 (hleast z hz)
  · obtain ⟨k, y, hk, hy, hfront, hleast⟩ := front_of_holds h.vmaxDq hW hne
    rw [hvmax, hfront, (h.buffered k y hk hy).2.1]
    refine ⟨⟨y, mem_window.2 ⟨k, hk, hy⟩, rfl⟩, ?_⟩
    rintro v ⟨z, hz, rfl⟩
    exact neg_le_neg_iff.1 (hleast z hz)

end

/-- After every push, without saturation: the running sums are those recomputed over the last `W` samples, the
    extremes
    are those of the same samples, and the deques keep slots of them in order. -/
theorem push_run_window (hW : W.isPowerOfTwo) (xs : List Sample) (hfits : Steps (push W) (Unsaturated W) init xs) :
    (run (push W) init xs).SumsOver (window W xs) ∧
      (xs ≠ [] → (run (push W) init xs).ExtremesOver (window W xs)) ∧
      (run (push W) init xs).Buffered W xs ∧
      SlotsInOrder W xs.length (run (push W) init xs).minDq ∧ SlotsInOrder W xs.length (run (push W) init xs).maxDq ∧
      SlotsInOrder W xs.length (run (push W) init xs).vmaxDq := by
  have h := tracks_run hW xs hfits
  exact ⟨h.sums, h.extremes (Nat.pos_of_isPowerOfTwo hW), h.buffered, slotsInOrder_of_holds h.minDq,
    slotsInOrder_of_holds h.maxDq, slotsInOrder_of_holds h.vmaxDq⟩

/-- Five trades, more than the window holds. -/
def sampleTrades : List Sample :=
  [⟨.fromInt 100, .fromInt 2, false⟩, ⟨.fromInt 103, .fromInt 1, true⟩, ⟨.fromInt 101, .fromInt 4, true⟩,
    ⟨.fromInt 99, .fromInt 3, false⟩, ⟨.fromInt 102, .fromInt 1, true⟩]

theorem push_run_window_trades :
    (run (push 2) init sampleTrades).SumsOver (window 2 sampleTrades) ∧
      (sampleTrades ≠ [] → (run (push 2) init sampleTrades).ExtremesOver (window 2 sampleTrades)) ∧
      (run (push 2) init sampleTrades).Buffered 2 sampleTrades ∧
      SlotsInOrder 2 sampleTrades.length (run (push 2) init sampleTrades).minDq ∧
      SlotsInOrder 2 sampleTrades.length (run (push 2) init sampleTrades).maxDq ∧
      SlotsInOrder 2 sampleTrades.length (run (push 2) init sampleTrades).vmaxDq :=
  push_run_window (W := 2) ⟨1, rfl⟩ sampleTrades (by decide +kernel)

end RollingStats

end FoxTrader
