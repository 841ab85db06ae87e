import Mathlib.Data.Fintype.Basic
import Mathlib.Data.Int.ModEq
import Mathlib.Data.List.Infix
import FoxTrader.Lib.Fifo
import FoxTrader.Lib.Run

/-! # The single-producer single-consumer ring, load by load

    `SPSCRing` has the two operations with nothing in between. Here each load and store is a step
    of its own, the counters are the 64-bit words they are (and wrap around), and an item is copied
    word by word, in any order. Each side decides on its cached copy of the other's counter and
    looks at the real one only when the copy says full or empty.

    Two ghosts record what was published and what was released. The counters are their lengths
    modulo `2⁶⁴`, and the copies are lengths of earlier states, close enough for the comparisons to
    come out as they would without wrapping: the distance from the cached tail is at most the
    capacity and one, and the cached head is never behind the tail. So the ring is the bounded queue
    of what is published and not released (`refines_step`), under every interleaving. -/

namespace FoxTrader

open Lib Function

namespace SPSCRingSteps

/-- An item as the memory words it is copied by. -/
abbrev Item (ι : Type) := ι → BitVec 64

/-- `N`: a power of two that a counter can hold. -/
abbrev capacity (k : Fin 64) : Nat := 2 ^ k.val

/-- Where the producer is in `SPSCRing_TryPush`. -/
inductive Producer (ι : Type) where
  | idle
  | refreshing (item : Item ι)
  | writing (item : Item ι) (done : ι → Bool)

/-- Where the consumer is in `SPSCRing_TryPop`. -/
inductive Consumer (ι : Type) where
  | idle
  | refreshing
  | reading (out : Item ι) (done : ι → Bool)

/-- The slots the producer has found free and not yet published. -/
def Producer.claimed {ι : Type} : Producer ι → Nat
  | .writing .. => 1
  | _ => 0

/-- The items the consumer has found published and not yet released. -/
def Consumer.claimed {ι : Type} : Consumer ι → Nat
  | .reading .. => 1
  | _ => 0

/-- The ring, both parties, and three ghosts: the items published, the items popped, and what each
    finished push returned. -/
structure Sys (ι : Type) (k : Fin 64) where
  head : BitVec 64
  cachedTail : BitVec 64
  tail : BitVec 64
  cachedHead : BitVec 64
  slots : Fin (capacity k) → Item ι
  producer : Producer ι
  consumer : Consumer ι
  pushed : List (Item ι)
  popped : List (Item ι)
  returned : List Bool

inductive Act (ι : Type) where
  | push (item : Item ι)
  | loadTail
  | writeWord (i : ι)
  | publish
  | pop
  | loadHead
  | readWord (i : ι)
  | release

variable {ι : Type} {k : Fin 64}

/-- `index & MASK`. -/
def mask (k : Fin 64) (i : BitVec 64) : Fin (capacity k) := ⟨i.toNat % capacity k, Nat.mod_lt _ (Nat.two_pow_pos _)⟩

/-- `next_head - cached_tail > N`. -/
def looksFull (k : Fin 64) (head cachedTail : BitVec 64) : Bool := decide ((head + 1 - cachedTail).toNat > capacity k)

/-- `tail >= cached_head`. -/
def looksEmpty (tail cachedHead : BitVec 64) : Bool := decide (tail.toNat ≥ cachedHead.toNat)

/-- `SPSCRing_Init`; the slots are left as they are. -/
def init (slots : Fin (capacity k) → Item ι) : Sys ι k :=
  { head := 0, cachedTail := 0, tail := 0, cachedHead := 0, slots, producer := .idle, consumer := .idle
    pushed := [], popped := [], returned := [] }

/-- One load or store of one party; a party that is not there leaves the state alone. -/
def step [DecidableEq ι] [Fintype ι] (s : Sys ι k) : Act ι → Sys ι k
  | .push item =>
    match s.producer with
    | .idle =>
      { s with producer := if looksFull k s.head s.cachedTail then .refreshing item else .writing item fun _ => false }
    | _ => s
  | .loadTail =>
    match s.producer with
    | .refreshing item =>
      if looksFull k s.head s.tail then
        { s with cachedTail := s.tail, producer := .idle, returned := s.returned ++ [false] }
      else { s with cachedTail := s.tail, producer := .writing item fun _ => false }
    | _ => s
  | .writeWord i =>
    match s.producer with
    | .writing item done =>
      { s with
        slots := update s.slots (mask k s.head) (update (s.slots (mask k s.head)) i (item i))
        producer := .writing item (update done i true) }
    | _ => s
  | .publish =>
    match s.producer with
    | .writing item done =>
      if ∀ i, done i = true then
        { s with
          head := s.head + 1, producer := .idle, pushed := s.pushed ++ [item], returned := s.returned ++ [true] }
      else s
    | _ => s
  | .pop =>
    match s.consumer with
    | .idle =>
      { s with consumer := if looksEmpty s.tail s.cachedHead then .refreshing else .reading (fun _ => 0) fun _ => false }
    | _ => s
  | .loadHead =>
    match s.consumer with
    | .refreshing =>
      { s with
        cachedHead := s.head
        consumer := if looksEmpty s.tail s.head then .idle else .reading (fun _ => 0) fun _ => false }
    | _ => s
  | .readWord i =>
    match s.consumer with
    | .reading out done =>
      { s with consumer := .reading (update out i (s.slots (mask k s.tail) i)) (update done i true) }
    | _ => s
  | .release =>
    match s.consumer with
    | .reading out done =>
      if ∀ i, done i = true then
        { s with tail := s.tail + 1, consumer := .idle, popped := s.popped ++ [out] }
      else s
    | _ => s

/-- What is published and not popped, oldest first. -/
def Sys.unpopped (s : Sys ι k) : List (Item ι) := s.pushed.drop s.popped.length

/-- The step in which a push returns `false`. -/
def FailsPush [DecidableEq ι] [Fintype ι] (s : Sys ι k) (a : Act ι) : Prop :=
  (step s a).returned = s.returned ++ [false]

/-! ### Counters -/

/-- A counter after `n` increments. -/
abbrev count (n : Nat) : BitVec 64 := BitVec.ofNat 64 n

theorem count_succ (n : Nat) : count n + 1 = count (n + 1) := (BitVec.ofNat_add n 1).symm

theorem toNat_count_sub {a b : Nat} (hle : b ≤ a) (hlap : a - b < 2 ^ 64) : (count a - count b).toNat = a - b := by
  rw [BitVec.toNat_sub, BitVec.toNat_ofNat, BitVec.toNat_ofNat]
  omega

theorem capacity_le (k : Fin 64) : capacity k ≤ 2 ^ 63 := Nat.pow_le_pow_right (by decide) (Nat.le_of_lt_succ k.isLt)

theorem capacity_dvd (k : Fin 64) : capacity k ∣ 2 ^ 64 := Nat.pow_dvd_pow 2 k.isLt.le

/-- Within a lap the producer's comparison is the one on the unbounded counts. -/
theorem looksFull_count {a b : Nat} (hle : b ≤ a) (hroom : a ≤ b + capacity k) :
    looksFull k (count a) (count b) = decide (a = b + capacity k) := by
  have hcap := capacity_le k
  have hdist : (count a + 1 - count b).toNat = a + 1 - b := by
    rw [count_succ]
    exact toNat_count_sub (by omega) (by omega)
  rw [looksFull, hdist, decide_eq_decide]
  omega

/-- Equal counts look empty. -/
theorem looksEmpty_self (n : BitVec 64) : looksEmpty n n = true := decide_eq_true le_rfl

/-- The slot of a count does not notice the wrap. -/
theorem mask_count (n : Nat) : (mask k (count n)).val = n % capacity k := by
  show (BitVec.ofNat 64 n).toNat % capacity k = n % capacity k
  rw [BitVec.toNat_ofNat, Nat.mod_mod_of_dvd _ (capacity_dvd k)]

/-- Two counts less than a lap apart live in different slots. -/
theorem mask_count_ne {i j : Nat} (hij : i < j) (hlap : j < i + capacity k) :
    mask k (count i) ≠ mask k (count j) := by
  intro h
  have hmod : i % capacity k = j % capacity k := by
    rw [← mask_count, ← mask_count, h]
  have hdvd := (Nat.modEq_iff_dvd' hij.le).1 hmod
  have hle := Nat.le_of_dvd (by omega) hdvd
  omega

/-! ### The invariant -/

/-- What the producer has written of its item is in the slot of the next count. -/
def ProducerOk (s : Sys ι k) : Prop :=
  match s.producer with
  | .writing item done => ∀ i, done i = true → s.slots (mask k (count s.pushed.length)) i = item i
  | _ => True

/-- What the consumer has read is what is in the slot of the oldest count. -/
def ConsumerOk (s : Sys ι k) : Prop :=
  match s.consumer with
  | .reading out done => ∀ i, done i = true → out i = s.slots (mask k (count s.popped.length)) i
  | _ => True

structure Inv (s : Sys ι k) : Prop where
  head : s.head = count s.pushed.length
  tail : s.tail = count s.popped.length
  popped : s.popped <+: s.pushed
  cachedTail : ∃ n ≤ s.popped.length, s.cachedTail = count n ∧ s.pushed.length + s.producer.claimed ≤ n + capacity k
  cachedHead : ∃ n ≤ s.pushed.length, s.cachedHead = count n ∧ s.popped.length + s.consumer.claimed ≤ n
  live : ∀ i item, s.popped.length ≤ i → s.pushed[i]? = some item → s.slots (mask k (count i)) = item
  producer : ProducerOk s
  consumer : ConsumerOk s

namespace Inv

variable {s : Sys ι k}

theorem init (slots : Fin (capacity k) → Item ι) : Inv (SPSCRingSteps.init slots) :=
  ⟨rfl, rfl, List.prefix_rfl, ⟨0, le_rfl, rfl, Nat.zero_le _⟩, ⟨0, le_rfl, rfl, le_rfl⟩, fun _ _ _ h =>
    absurd h (by simp [SPSCRingSteps.init]),
    trivial, trivial⟩

theorem popped_le (h : Inv s) : s.popped.length ≤ s.pushed.length := h.popped.length_le

theorem pushed_le (h : Inv s) : s.pushed.length + s.producer.claimed ≤ s.popped.length + capacity k := by
  obtain ⟨n, hn, -, hroom⟩ := h.cachedTail
  omega

theorem unpopped_length (s : Sys ι k) : s.unpopped.length = s.pushed.length - s.popped.length := List.length_drop

/-- The producer's check is exact whichever copy of the tail it uses. -/
theorem looksFull_tail (h : Inv s) : looksFull k s.head s.tail = decide (s.unpopped.length = capacity k) := by
  have hle := h.popped_le
  have hroom := h.pushed_le
  rw [h.head, h.tail, looksFull_count hle (by omega), unpopped_length, decide_eq_decide]
  omega

/-- The producer moves on without touching what the consumer sees. -/
theorem of_claim {p : Producer ι} {tail : BitVec 64} (h : Inv s)
    (htail : ∃ n ≤ s.popped.length, tail = count n ∧ s.pushed.length + p.claimed ≤ n + capacity k)
    (hp : ProducerOk { s with cachedTail := tail, producer := p }) (returned : List Bool) :
    Inv { s with cachedTail := tail, producer := p, returned := returned } :=
  ⟨h.head, h.tail, h.popped, htail, h.cachedHead, h.live, hp, h.consumer⟩

/-- The slot being written holds nothing that is published. -/
theorem mask_ne_of_live (h : Inv s) (hclaimed : s.producer.claimed = 1) {i : Nat} (hi : s.popped.length ≤ i)
    (hlt : i < s.pushed.length) : mask k (count i) ≠ mask k (count s.pushed.length) := by
  have hroom := h.pushed_le
  exact mask_count_ne hlt (by omega)

/-- The consumer moves on without touching what the producer sees. -/
theorem of_read {c : Consumer ι} {head : BitVec 64} (h : Inv s)
    (hhead : ∃ n ≤ s.pushed.length, head = count n ∧ s.popped.length + c.claimed ≤ n)
    (hc : ConsumerOk { s with cachedHead := head, consumer := c }) :
    Inv { s with cachedHead := head, consumer := c } :=
  ⟨h.head, h.tail, h.popped, h.cachedTail, hhead, h.live, h.producer, hc⟩

/-- Whatever does not look empty is not: with nothing left the counters are equal. -/
theorem lt_of_not_looksEmpty {n : Nat} {head : BitVec 64} (h : Inv s) (hhead : head = count n)
    (hle : s.popped.length ≤ n)
    (hsome : ¬looksEmpty s.tail head = true) : s.popped.length < n := by
  refine lt_of_le_of_ne hle ?_
  rintro rfl
  rw [h.tail, hhead] at hsome
  exact hsome (looksEmpty_self _)

/-- A fully read item is the oldest one published. -/
theorem popped_snoc (h : Inv s) {out : Item ι} {done : ι → Bool} (hc : s.consumer = .reading out done)
    (hall : ∀ i, done i = true) : s.popped ++ [out] <+: s.pushed := by
  have hread := h.consumer
  simp only [ConsumerOk, hc] at hread
  obtain ⟨n, hn, -, hle⟩ := h.cachedHead
  simp only [hc, Consumer.claimed] at hle
  obtain ⟨rest, hrest⟩ := h.popped
  cases rest with
  | nil =>
    rw [← hrest, List.append_nil] at hn
    omega
  | cons item rest =>
    have hitem : s.pushed[s.popped.length]? = some item := by
      rw [← hrest]
      simp
    have hout : out = item := by
      rw [← h.live _ item le_rfl hitem]
      exact funext fun i => hread i (hall i)
    rw [hout]
    exact ⟨rest, by rw [List.append_assoc]; exact hrest⟩

/-! ### The producer's steps -/

variable [DecidableEq ι] [Fintype ι]

theorem push (h : Inv s) (item : Item ι) : Inv (step s (.push item)) := by
  cases hp : s.producer with
  | idle =>
    obtain ⟨n, hn, hcached, hroom⟩ := h.cachedTail
    have hle := h.popped_le
    simp only [hp, Producer.claimed, Nat.add_zero] at hroom
    have hfull : looksFull k s.head s.cachedTail = decide (s.pushed.length = n + capacity k) := by
      rw [h.head, hcached]
      exact looksFull_count (hn.trans hle) hroom
    simp only [step, hp, hfull]
    split
    next => exact h.of_claim (p := .refreshing item) ⟨n, hn, hcached, hroom⟩ trivial s.returned
    next hfree =>
      have hroom' : s.pushed.length + 1 ≤ n + capacity k := by
        have := of_decide_eq_false (eq_false_of_ne_true hfree)
        omega
      exact h.of_claim (p := .writing item _) ⟨n, hn, hcached, hroom'⟩
        (fun _ hdone => absurd hdone Bool.false_ne_true) s.returned
  | _ => simpa only [step, hp] using h

theorem loadTail (h : Inv s) : Inv (step s .loadTail) := by
  cases hp : s.producer with
  | refreshing item =>
    have hle := h.popped_le
    have hroom := h.pushed_le
    have hclaimed : s.producer.claimed = 0 := by rw [hp]; rfl
    simp only [step, hp]
    split
    next => exact h.of_claim (p := .idle) ⟨_, le_rfl, h.tail, by simp only [Producer.claimed]; omega⟩ trivial _
    next hfree =>
      have hne : ¬ s.unpopped.length = capacity k := by
        simpa [h.looksFull_tail] using hfree
      rw [unpopped_length] at hne
      refine h.of_claim (p := .writing item _) ⟨_, le_rfl, h.tail, ?_⟩
        (fun _ hdone => absurd hdone Bool.false_ne_true) s.returned
      simp only [Producer.claimed]
      omega
  | _ => simpa only [step, hp] using h

theorem writeWord (h : Inv s) (i : ι) : Inv (step s (.writeWord i)) := by
  cases hp : s.producer with
  | writing item done =>
    have hclaimed : s.producer.claimed = 1 := by rw [hp]; rfl
    have hwritten := h.producer
    simp only [ProducerOk, hp] at hwritten
    simp only [step, hp, h.head]
    refine ⟨rfl, h.tail, h.popped, ?_, h.cachedHead, ?_, ?_, ?_⟩
    · have := h.cachedTail
      rw [hclaimed] at this
      exact this
    · intro j x hj hx
      have hlt : j < s.pushed.length := (List.getElem?_eq_some_iff.1 hx).1
      exact (update_of_ne (h.mask_ne_of_live hclaimed hj hlt) ..).trans (h.live j x hj hx)
    · intro j hj
      show update s.slots _ _ (mask k (count s.pushed.length)) j = item j
      rw [update_self]
      by_cases hji : j = i
      · rw [hji, update_self]
      · rw [update_of_ne hji] at hj ⊢
        exact hwritten j hj
    · have hread := h.consumer
      unfold ConsumerOk at hread ⊢
      cases hc : s.consumer with
      | reading out d =>
        simp only [hc] at hread ⊢
        obtain ⟨n, hn, -, hclaimed'⟩ := h.cachedHead
        simp only [hc, Consumer.claimed] at hclaimed'
        intro j hj
        rw [hread j hj, update_of_ne (h.mask_ne_of_live hclaimed le_rfl (by omega))]
      | _ => trivial
  | _ => simpa only [step, hp] using h

theorem publish (h : Inv s) : Inv (step s .publish) := by
  cases hp : s.producer with
  | writing item done =>
    by_cases hall : ∀ i, done i = true
    · have hwritten := h.producer
      simp only [ProducerOk, hp] at hwritten
      obtain ⟨n, hn, hcached, hroom⟩ := h.cachedTail
      obtain ⟨m, hm, hcached', hread⟩ := h.cachedHead
      simp only [hp, Producer.claimed] at hroom
      simp only [step, hp, if_pos hall]
      have hlen : (s.pushed ++ [item]).length = s.pushed.length + 1 := List.length_append
      refine ⟨?_, h.tail, h.popped.trans (List.prefix_append ..), ⟨n, hn, hcached, ?_⟩,
        ⟨m, ?_, hcached', hread⟩, ?_, trivial,
        h.consumer⟩
      · rw [h.head, count_succ, hlen]
      · rw [hlen]
        exact hroom
      · rw [hlen]
        omega
      · intro i x hi hx
        rw [List.getElem?_append] at hx
        split at hx
        · exact h.live i x hi hx
        · -- the one item past the old ones is the item written
          have hlast : i = s.pushed.length := by
            have := (List.getElem?_eq_some_iff.1 hx).1
            simp only [List.length_singleton] at this
            omega
          obtain rfl := hlast
          rw [Nat.sub_self] at hx
          obtain rfl := Option.some_inj.1 hx
          exact funext fun j => hwritten j (hall j)
    · simpa only [step, hp, if_neg hall] using h
  | _ => simpa only [step, hp] using h

/-! ### The consumer's steps -/

theorem pop (h : Inv s) : Inv (step s .pop) := by
  cases hc : s.consumer with
  | idle =>
    obtain ⟨n, hn, hcached, hle⟩ := h.cachedHead
    simp only [hc, Consumer.claimed, Nat.add_zero] at hle
    simp only [step, hc]
    split
    next => exact h.of_read ⟨n, hn, hcached, hle⟩ trivial
    next hsome =>
      exact h.of_read ⟨n, hn, hcached, h.lt_of_not_looksEmpty hcached hle hsome⟩ fun _ hdone =>
        absurd hdone Bool.false_ne_true
  | _ => simpa only [step, hc] using h

theorem loadHead (h : Inv s) : Inv (step s .loadHead) := by
  cases hc : s.consumer with
  | refreshing =>
    have hle := h.popped_le
    simp only [step, hc]
    split
    next => exact h.of_read ⟨_, le_rfl, h.head, hle⟩ trivial
    next hsome =>
      exact h.of_read ⟨_, le_rfl, h.head, h.lt_of_not_looksEmpty h.head hle hsome⟩ fun _ hdone =>
        absurd hdone Bool.false_ne_true
  | _ => simpa only [step, hc] using h

theorem readWord (h : Inv s) (i : ι) : Inv (step s (.readWord i)) := by
  cases hc : s.consumer with
  | reading out done =>
    have hread := h.consumer
    simp only [ConsumerOk, hc] at hread
    have hhead := h.cachedHead
    rw [hc] at hhead
    simp only [step, hc, h.tail]
    refine ⟨h.head, rfl, h.popped, h.cachedTail, hhead, h.live, h.producer, ?_⟩
    intro j hj
    show update out i _ j = s.slots (mask k (count s.popped.length)) j
    by_cases hji : j = i
    · rw [hji, update_self]
    · rw [update_of_ne hji] at hj ⊢
      exact hread j hj
  | _ => simpa only [step, hc] using h

theorem release (h : Inv s) : Inv (step s .release) := by
  cases hc : s.consumer with
  | reading out done =>
    by_cases hall : ∀ i, done i = true
    · have hlen : (s.popped ++ [out]).length = s.popped.length + 1 := List.length_append
      obtain ⟨n, hn, hcached, hroom⟩ := h.cachedTail
      obtain ⟨m, hm, hcached', hle⟩ := h.cachedHead
      simp only [hc, Consumer.claimed] at hle
      simp only [step, hc, if_pos hall]
      refine ⟨h.head, ?_, h.popped_snoc hc hall, ⟨n, ?_, hcached, hroom⟩, ⟨m, hm, hcached', ?_⟩, ?_, h.producer,
        trivial⟩
      · rw [h.tail, count_succ, hlen]
      · rw [hlen]
        omega
      · rw [hlen]
        exact hle
      · intro i x hi hx
        rw [hlen] at hi
        exact h.live i x (by omega) hx
    · simpa only [step, hc, if_neg hall] using h
  | _ => simpa only [step, hc] using h

end Inv

variable [DecidableEq ι] [Fintype ι]

theorem inv_step (s : Sys ι k) (a : Act ι) (h : Inv s) : Inv (step s a) := by
  cases a with
  | push item => exact h.push item
  | loadTail => exact h.loadTail
  | writeWord i => exact h.writeWord i
  | publish => exact h.publish
  | pop => exact h.pop
  | loadHead => exact h.loadHead
  | readWord i => exact h.readWord i
  | release => exact h.release

theorem inv_run (slots : Fin (capacity k) → Item ι) (as : List (Act ι)) : Inv (run step (init slots) as) :=
  run_inv inv_step as (Inv.init slots)

/-! ### The bounded queue under the steps -/

/-- What a step does to the two histories: nothing, or it publishes a fully written item, or it
    releases a fully read one. -/
theorem step_histories (s : Sys ι k) (a : Act ι) :
    ((step s a).pushed = s.pushed ∧ (step s a).popped = s.popped) ∨
      (∃ item done, s.producer = .writing item done ∧ (step s a).pushed = s.pushed ++ [item] ∧
        (step s a).popped = s.popped) ∨
      ∃ out done, s.consumer = .reading out done ∧ (∀ i, done i = true) ∧ (step s a).pushed = s.pushed ∧
        (step s a).popped = s.popped ++ [out] := by
  cases a with
  | publish =>
    cases hp : s.producer with
    | writing item done =>
      by_cases hall : ∀ i, done i = true
      · exact .inr (.inl ⟨item, done, rfl, by simp only [step, hp, if_pos hall], by simp only [step, hp, if_pos hall]⟩)
      · simp only [step, hp, if_neg hall]
        exact .inl ⟨trivial, trivial⟩
    | _ =>
      simp only [step, hp]
      exact .inl ⟨trivial, trivial⟩
  | release =>
    cases hc : s.consumer with
    | reading out done =>
      by_cases hall : ∀ i, done i = true
      · exact .inr (.inr ⟨out, done, rfl, hall, by simp only [step, hc, if_pos hall], by simp only [step, hc, if_pos hall]⟩)
      · simp only [step, hc, if_neg hall]
        exact .inl ⟨trivial, trivial⟩
    | _ =>
      simp only [step, hc]
      exact .inl ⟨trivial, trivial⟩
  | loadTail =>
    refine .inl ?_
    simp only [step]
    split
    · split <;> exact ⟨rfl, rfl⟩
    · exact ⟨rfl, rfl⟩
  | _ =>
    refine .inl ?_
    simp only [step]
    split <;> exact ⟨rfl, rfl⟩

namespace Inv

variable {s : Sys ι k}

omit [DecidableEq ι] [Fintype ι] in
theorem unpopped_le (h : Inv s) : s.unpopped.length ≤ capacity k := by
  have hroom := h.pushed_le
  rw [unpopped_length]
  omega

omit [DecidableEq ι] [Fintype ι] in
theorem depth (h : Inv s) : (s.head - s.tail).toNat = s.unpopped.length := by
  have hcap := capacity_le k
  have hroom := h.pushed_le
  rw [h.head, h.tail, toNat_count_sub h.popped_le (by omega), unpopped_length]

/-- The queue of what is published and not popped. -/
def queue (h : Inv s) : Fifo (Item ι) (capacity k) := ⟨s.unpopped, h.unpopped_le⟩

/-- Every step leaves the queue alone, pushes onto it or pops it: a push takes effect where `head`
    is stored, a pop where `tail` is. -/
theorem refines_step (h : Inv s) (a : Act ι) :
    (inv_step s a h).queue = h.queue ∨
      (∃ item, (h.queue.tryPush item).1 = true ∧ (inv_step s a h).queue = (h.queue.tryPush item).2 ∧
        (step s a).pushed = s.pushed ++ [item]) ∨
      ∃ item, h.queue.tryPop.1 = some item ∧ (inv_step s a h).queue = h.queue.tryPop.2 ∧
        (step s a).popped = s.popped ++ [item] := by
  have hqueue : (inv_step s a h).queue.items = (step s a).unpopped := rfl
  rcases step_histories s a with ⟨hpushed, hpopped⟩ | ⟨item, done, hp, hpushed, hpopped⟩ |
    ⟨out, done, hc, hall, hpushed, hpopped⟩
  · refine .inl (Fifo.ext ?_)
    rw [hqueue, Sys.unpopped, hpushed, hpopped]
    rfl
  · have hroom : s.unpopped.length < capacity k := by
      have := h.pushed_le
      rw [hp, Producer.claimed] at this
      have := h.popped_le
      rw [unpopped_length]
      omega
    have hpush : h.queue.tryPush item = (true, ⟨s.unpopped ++ [item], _⟩) := dif_pos hroom
    refine .inr (.inl ⟨item, by rw [hpush], Fifo.ext ?_, hpushed⟩)
    rw [hqueue, hpush, Sys.unpopped, hpushed, hpopped, List.drop_append_of_le_length h.popped_le]
    rfl
  · have hpopped' := h.popped_snoc hc hall
    have hitems : h.queue.items = out :: (step s a).unpopped := by
      obtain ⟨rest, hrest⟩ := hpopped'
      have hdrop : (step s a).unpopped = rest := by
        rw [Sys.unpopped, hpushed, hpopped, ← hrest, List.drop_left]
      have hunpopped : s.unpopped = out :: rest := by
        rw [Sys.unpopped, ← hrest, List.append_assoc, List.drop_left]
        rfl
      rw [hdrop]
      exact hunpopped
    obtain ⟨item, hpop⟩ : ∃ item, h.queue.tryPop.1 = some item := by
      refine Option.ne_none_iff_exists'.1 fun hnone => ?_
      rw [Fifo.tryPop_eq_none, hitems] at hnone
      exact List.cons_ne_nil _ _ hnone
    have hsome := Fifo.tryPop_some hpop
    rw [hitems] at hsome
    obtain ⟨rfl, hrest⟩ := List.cons.inj hsome
    exact .inr (.inr ⟨out, hpop, Fifo.ext (hqueue.trans hrest), hpopped⟩)

/-- A push that fails has just loaded the tail of a full ring. -/
theorem full_of_failsPush (h : Inv s) {a : Act ι} (hfail : FailsPush s a) : s.unpopped.length = capacity k := by
  have hkept : ∀ {l : List Bool}, l ≠ l ++ [false] := fun hl => by simpa using congrArg List.length hl
  cases a with
  | loadTail =>
    simp only [FailsPush, step] at hfail
    split at hfail
    · split at hfail
      next hfull => simpa [h.looksFull_tail] using hfull
      next => exact absurd hfail hkept
    · exact absurd hfail hkept
  | publish =>
    simp only [FailsPush, step] at hfail
    split at hfail
    · split at hfail
      · exact absurd (List.append_cancel_left hfail) (by decide)
      · exact absurd hfail hkept
    · exact absurd hfail hkept
  | release =>
    simp only [FailsPush, step] at hfail
    split at hfail
    · split at hfail <;> exact absurd hfail hkept
    · exact absurd hfail hkept
  | _ =>
    simp only [FailsPush, step] at hfail
    split at hfail <;> exact absurd hfail hkept

end Inv

/-- Under every interleaving: what is popped is a prefix of what was pushed, the counters are never
    more than the capacity apart, and a push that fails finds the ring full of unpopped items. -/
theorem ring_fifo (slots : Fin (capacity k) → Item ι) (as : List (Act ι)) :
    let s := run step (init slots) as
    s.popped <+: s.pushed ∧ (s.head - s.tail).toNat ≤ capacity k ∧
      ∀ a, FailsPush s a → s.unpopped.length = capacity k := by
  intro s
  have h : Inv s := inv_run slots as
  refine ⟨h.popped, ?_, fun a hfail => h.full_of_failsPush hfail⟩
  rw [h.depth]
  exact h.unpopped_le

end SPSCRingSteps

end FoxTrader
