import FoxTrader.BanditLearning
import FoxTrader.Lib.QuotedText
import FoxTrader.ParseFast
import FoxTrader.StampText
import Mathlib.Data.List.FinRange
import Mathlib.Data.Fintype.Card

/-! # Loading the bandits

    `Bandit_LoadJSON` lays the learned fields of a state file over states that are initialised already. It
    is no parser: it checks a few keys, then searches one entry after another, each from where the last
    one ended, and the keys of an entry from its `regime_id` on.

    What refuses the file before the entries leaves the states alone, and a value that is not finite resets
    them all. But a search that finds no further entry returns at once, behind the entries that are laid
    over already: then the states are a mixture. Which files do so is decided by their text
    (`allOrNothing_iff`). -/

namespace FoxTrader

open Lib

/-! ### The learned fields -/

/-- The learned fields of a state of `n` arms. -/
structure Learned (n : ℕ) where
  weights : Fin n → Double
  cumReward : Fin n → Double
  pulls : Fin n → Int32
  totalSteps : Int32

/-- The learned fields as `Bandit_Init` leaves them. -/
def Learned.uniform {n : ℕ} : Learned n where
  weights := fun _ => .finite 1
  cumReward := fun _ => .finite 0
  pulls := fun _ => 0
  totalSteps := 0

namespace Double

def isFinite : Double → Bool
  | finite _ => true
  | _ => false

def ofExtended : Extended ℚ → Double
  | .finite q => finite q
  | .posInf => infinite false
  | .negInf => infinite true
  | .nan => nan

end Double

/-- What a file keeps of a state. -/
def BanditState.learned {n : ℕ} (b : BanditState ℚ n) : Learned n where
  weights := fun a => Double.ofExtended (b.weights a)
  cumReward := fun a => Double.ofExtended (b.cumReward a)
  pulls := fun a => Int32.ofInt (b.pulls a)
  totalSteps := Int32.ofInt b.totalSteps

theorem banditInit_learned (nArms : ℤ) (gamma etaMax blendRatio : Extended ℚ) (minSamples rampUp : ℤ) :
    (banditInit nArms gamma etaMax blendRatio minSamples rampUp).learned = Learned.uniform := rfl

/-! ### `tt::json_io` -/

/-- The C string that begins here. -/
def cString (p : List Char) : List Char := p.takeWhile (· ≠ '\x00')

/-- What is behind blanks and a sign. -/
def behindSign (p : List Char) : List Char :=
  match p.dropWhile isSpace with
  | '-' :: digits => digits
  | '+' :: digits => digits
  | digits => digits

/-- `strtol`: the number, narrowed to a `long`, and what is behind it; without digits nothing is read. -/
def strtol (p : List Char) : Option (ℤ × List Char) :=
  if (behindSign p).takeWhile Char.isDigit = [] then none else some (atoll p, (behindSign p).dropWhile Char.isDigit)

namespace JsonIo

def keyCap : ℕ := 96

def isKeyGap (ch : Char) : Bool := ch = ' ' || ch = ':' || ch = '\t'
def isArrayGap (ch : Char) : Bool := ch = ' ' || ch = '\n' || ch = '\t' || ch = '['
def isItemGap (ch : Char) : Bool := ch = ' ' || ch = ',' || ch = '\n' || ch = '\t'

/-- `find_key`: the text behind the first such key and its colon. -/
def findKey (p : List Char) (key : String) : Option (List Char) :=
  let needle := quoted '"' key.toList []
  if keyCap ≤ needle.length then none
  else (strstr needle (cString p)).map fun i => (p.drop (i + needle.length)).dropWhile isKeyGap

/-- The loop of both array parsers, with the number they read. -/
def readNumbers {α : Type} (read : List Char → Option (α × List Char)) : ℕ → List Char → List α
  | 0, _ => []
  | maxCount + 1, p =>
    if p.head? = some '\x00' ∨ p.head? = some ']' then []
    else
      match read p with
      | none => []
      | some (v, rest) => v :: readNumbers read maxCount (rest.dropWhile isItemGap)

/-- `parse_double_fast_advance`; a number that is out of range is not read over. -/
def parseDoubleFastAdvance (fmt : DoubleRounding) (p : List Char) : Option (Double × List Char) :=
  match ParseFast.fromChars fmt p with
  | .ok v rest => some (v, rest)
  | .invalidArgument => none
  | .resultOutOfRange => none

/-- `parse_double_array`. -/
def parseDoubleArray (fmt : DoubleRounding) (maxCount : ℕ) (p : List Char) : List Double :=
  readNumbers (parseDoubleFastAdvance fmt) maxCount (p.dropWhile isArrayGap)

/-- `parse_int_array`. -/
def parseIntArray (maxCount : ℕ) (p : List Char) : List Int32 :=
  (readNumbers strtol maxCount (p.dropWhile isArrayGap)).map Int32.ofInt

end JsonIo

open JsonIo

/-! ### `Bandit_LoadJSON` -/

def banditStateFormatVersion : Int32 := 1

/-- The size from which on a file is refused. -/
def banditBufCap : ℕ := 256 * 1024

/-- What is read of an entry; a key that is absent gives no values. -/
structure BanditEntry where
  totalSteps : Option Int32
  weights : List Double
  cumReward : List Double
  pulls : List Int32

/-- The values behind the keys that are next after a `regime_id`. -/
def readEntry (fmt : DoubleRounding) (rid : List Char) : BanditEntry where
  totalSteps := (findKey rid "total_steps").map atoi
  weights := (findKey rid "weights").elim [] (parseDoubleArray fmt banditMaxArms.toNat)
  cumReward := (findKey rid "cum_reward").elim [] (parseDoubleArray fmt banditMaxArms.toNat)
  pulls := (findKey rid "pulls").elim [] (parseIntArray banditMaxArms.toNat)

namespace BanditEntry

/-- A value that is not finite. -/
def nonfinite (e : BanditEntry) : Bool := !e.weights.all Double.isFinite || !e.cumReward.all Double.isFinite

/-- What is copied of an array: nothing if a value of it is not finite. -/
def copied (values : List Double) : List Double := if values.all Double.isFinite then values else []

/-- As many cells as there are values are written. -/
def overlayCells {α : Type} {n : ℕ} (values : List α) (cells : Fin n → α) : Fin n → α :=
  fun a => values[a.val]?.getD (cells a)

/-- An entry laid over a state. -/
def overlay {n : ℕ} (e : BanditEntry) (l : Learned n) : Learned n where
  weights := overlayCells (copied e.weights) l.weights
  cumReward := overlayCells (copied e.cumReward) l.cumReward
  pulls := overlayCells e.pulls l.pulls
  totalSteps := e.totalSteps.getD l.totalSteps

end BanditEntry

/-- The regime of an entry, if it is known. -/
def regimeOfEntry (m : ℕ) (rid : List Char) : Option (Fin m) :=
  if h : 0 ≤ (atoi rid).toInt ∧ (atoi rid).toInt.toNat < m then some ⟨(atoi rid).toInt.toNat, h.2⟩ else none

/-- Past the brace that closes the entry. -/
def pastBrace (rid : List Char) : List Char :=
  (strchr (cString rid) '\x7d').elim (rid.drop 1) fun i => rid.drop (i + 1)

/-- The learned fields of all regimes. -/
abbrev BanditStates {m : ℕ} (arms : Fin m → ℕ) : Type := (r : Fin m) → Learned (arms r)

/-- What a call returns, and the states behind it. -/
structure Loaded {m : ℕ} (arms : Fin m → ℕ) where
  ok : Bool
  states : BanditStates arms

section Load

variable (fmt : DoubleRounding) {m : ℕ} {arms : Fin m → ℕ}

/-- The turns that are left, from a place in the file on, and the reset behind them. -/
def overlayRegimes : ℕ → List Char → Bool → BanditStates arms → Loaded arms
  | 0, _, nonfinite, s => if nonfinite then ⟨false, fun _ => Learned.uniform⟩ else ⟨true, s⟩
  | turns + 1, p, nonfinite, s =>
    match findKey p "regime_id" with
    | none => ⟨false, s⟩
    | some rid =>
      match regimeOfEntry m rid with
      -- An unknown regime is passed, for files of a build with more of them.
      | none => overlayRegimes turns (rid.drop 4) nonfinite s
      | some r =>
        overlayRegimes turns (pastBrace rid) (nonfinite || (readEntry fmt rid).nonfinite)
          (Function.update s r ((readEntry fmt rid).overlay (s r)))

/-- The check of the bundle id: an id of zeros only is of a file from before there were ids. -/
def shaAccepted (buf expectedSha : List Char) : Bool :=
  match findKey buf "model_bundle_sha256" with
  | none => false
  | some p =>
    let opening := p.dropWhile fun ch => ch = ' ' || ch = '\t'
    if opening.head? ≠ some '"' then false
    else
      match strchr (cString opening.tail) '"' with
      | none => false
      | some len =>
        let saved := opening.tail.take len
        saved.all (· = '0') && decide (0 < len) || decide (saved = expectedSha)

/-- The checks of the header, and where the entries begin. -/
def regimesStart (m : ℕ) (expectedSha : List Char) (expectedArms : Int32) (buf : List Char) : Option (List Char) :=
  if (findKey buf "format_version").map atoi ≠ some banditStateFormatVersion then none
  else if (findKey buf "n_arms").map atoi ≠ some expectedArms then none
  else if (findKey buf "n_regimes").elim true fun p => decide ((atoi p).toInt < m) then none
  else if expectedSha ≠ [] ∧ shaAccepted buf expectedSha = false then none
  else (findKey buf "regimes").map (List.dropWhile isArrayGap)

/-- The buffer behind the read: the file, the terminator, and what an earlier read left. -/
def fileBuffer (file : Option (List Char)) (stale : List Char) : Option (List Char) :=
  match file with
  | none => none
  | some content => if content = [] ∨ banditBufCap ≤ content.length then none else some (content ++ '\x00' :: stale)

/-- `Bandit_LoadJSON`. -/
def banditLoadJSON (file : Option (List Char)) (stale expectedSha : List Char) (expectedArms : Int32)
    (s : BanditStates arms) : Loaded arms :=
  if m = 0 then ⟨false, s⟩
  else
    match (fileBuffer file stale).bind (regimesStart m expectedSha expectedArms) with
    | none => ⟨false, s⟩
    | some p => overlayRegimes fmt m p false s

end Load

/-! ### The entries of a file -/

section Entries

variable (fmt : DoubleRounding) {m : ℕ} {arms : Fin m → ℕ}

/-- The entries of known regimes that the turns find, and whether every turn finds one at all. -/
def scanEntries (m : ℕ) : ℕ → List Char → List (Fin m × BanditEntry) × Bool
  | 0, _ => ([], true)
  | turns + 1, p =>
    match findKey p "regime_id" with
    | none => ([], false)
    | some rid =>
      match regimeOfEntry m rid with
      | none => scanEntries m turns (rid.drop 4)
      | some r =>
        let later := scanEntries m turns (pastBrace rid)
        ((r, readEntry fmt rid) :: later.1, later.2)

/-- An entry laid over its regime. -/
def overlayAt (s : BanditStates arms) (e : Fin m × BanditEntry) : BanditStates arms :=
  Function.update s e.1 (e.2.overlay (s e.1))

/-- What a call comes to with the entries that are found, and whether every turn found one. -/
def laidOver (found : List (Fin m × BanditEntry) × Bool) (nonfinite : Bool) (s : BanditStates arms) : Loaded arms :=
  if found.2 = false then ⟨false, found.1.foldl overlayAt s⟩
  else if nonfinite || found.1.any (·.2.nonfinite) then ⟨false, fun _ => Learned.uniform⟩
  else ⟨true, found.1.foldl overlayAt s⟩

theorem laidOver_cons (r : Fin m) (e : BanditEntry) (found : List (Fin m × BanditEntry) × Bool) (nonfinite : Bool)
    (s : BanditStates arms) : laidOver ((r, e) :: found.1, found.2) nonfinite s =
      laidOver found (nonfinite || e.nonfinite) (Function.update s r (e.overlay (s r))) := by
  unfold laidOver
  rw [List.foldl_cons, List.any_cons, Bool.or_assoc]
  rfl

/-- The turns lay one entry after another over the states, and return at the first search that fails. -/
theorem overlayRegimes_eq (turns : ℕ) (p : List Char) (nonfinite : Bool) (s : BanditStates arms) :
    overlayRegimes fmt turns p nonfinite s = laidOver (scanEntries fmt m turns p) nonfinite s := by
  induction turns generalizing p nonfinite s with
  | zero => simp [overlayRegimes, scanEntries, laidOver]
  | succ turns ih =>
    rw [overlayRegimes, scanEntries]
    cases hfind : findKey p "regime_id" with
    | none => rfl
    | some rid =>
      dsimp only
      cases hid : regimeOfEntry m rid with
      | none => exact ih _ _ _
      | some r => exact (ih _ _ _).trans (laidOver_cons r _ _ _ _).symm

/-- Where a search fails, fewer entries than turns were found. -/
theorem scanEntries_length (turns : ℕ) (p : List Char) :
    (scanEntries fmt m turns p).1.length ≤ turns ∧
      ((scanEntries fmt m turns p).2 = false → (scanEntries fmt m turns p).1.length < turns) := by
  induction turns generalizing p with
  | zero => exact ⟨Nat.le_refl _, fun h => by cases h⟩
  | succ turns ih =>
    rw [scanEntries]
    cases hfind : findKey p "regime_id" with
    | none => exact ⟨Nat.zero_le _, fun _ => Nat.succ_pos _⟩
    | some rid =>
      dsimp only
      cases hid : regimeOfEntry m rid with
      | none =>
        obtain ⟨hle, hlt⟩ := ih (rid.drop 4)
        exact ⟨Nat.le_succ_of_le hle, fun h => Nat.lt_succ_of_lt (hlt h)⟩
      | some r =>
        obtain ⟨hle, hlt⟩ := ih (pastBrace rid)
        exact ⟨Nat.succ_le_succ hle, fun h => Nat.succ_lt_succ (hlt h)⟩

end Entries

/-! ### What entries write -/

namespace BanditEntry

/-- The entry writes a learned field of a state of `n` arms. -/
def Writes (n : ℕ) (e : BanditEntry) : Prop :=
  e.totalSteps ≠ none ∨ 0 < n ∧ (copied e.weights ≠ [] ∨ copied e.cumReward ≠ [] ∨ e.pulls ≠ [])

theorem overlayCells_of_not {α : Type} {n : ℕ} {values : List α} (h : n = 0 ∨ values = []) (cells : Fin n → α) :
    overlayCells values cells = cells := by
  funext a
  rcases h with rfl | rfl
  · exact a.elim0
  · rfl

theorem overlay_of_not_writes {n : ℕ} {e : BanditEntry} (h : ¬e.Writes n) (l : Learned n) : e.overlay l = l := by
  obtain ⟨hsteps, hcells⟩ := not_or.1 h
  have hnone : ∀ {α : Type} {values : List α}, (values ≠ [] → copied e.weights ≠ [] ∨ copied e.cumReward ≠ [] ∨
    e.pulls ≠ []) →
      n = 0 ∨ values = [] := by
    rintro α values himp
    by_contra hboth
    obtain ⟨hn, hvalues⟩ := not_or.1 hboth
    exact hcells ⟨Nat.pos_of_ne_zero hn, himp hvalues⟩
  have htotal : e.totalSteps = none := not_not.1 hsteps
  rw [overlay, overlayCells_of_not (hnone .inl), overlayCells_of_not (hnone fun h => .inr (.inl h)),
    overlayCells_of_not (hnone fun h => .inr (.inr h)), htotal]
  rfl

end BanditEntry

section Fold

variable {m : ℕ} {arms : Fin m → ℕ} {es : List (Fin m × BanditEntry)} {r : Fin m}

theorem overlayAt_self (s : BanditStates arms) (e : BanditEntry) : overlayAt s (r, e) r = e.overlay (s r) :=
  Function.update_self ..

theorem overlayAt_of_ne (s : BanditStates arms) {e : Fin m × BanditEntry} (h : e.1 ≠ r) : overlayAt s e r = s r :=
  Function.update_of_ne (Ne.symm h) ..

/-- A regime without an entry stays as it was. -/
theorem foldl_overlayAt_of_forall_ne (h : ∀ e ∈ es, e.1 ≠ r) (s : BanditStates arms) :
    es.foldl overlayAt s r = s r := by
  induction es generalizing s with
  | nil => rfl
  | cons e es ih =>
    rw [List.foldl_cons, ih fun e he => h e (List.mem_cons_of_mem _ he), overlayAt_of_ne s (h e List.mem_cons_self)]

/-- Entries that write nothing leave the states as they were. -/
theorem foldl_overlayAt_of_not_writes (h : ∀ e ∈ es, ¬e.2.Writes (arms e.1)) (s : BanditStates arms) :
    es.foldl overlayAt s = s := by
  induction es generalizing s with
  | nil => rfl
  | cons e es ih =>
    rw [List.foldl_cons, ih fun e he => h e (List.mem_cons_of_mem _ he), overlayAt,
      BanditEntry.overlay_of_not_writes (h e List.mem_cons_self), Function.update_eq_self]

/-- Where an entry writes a cell, what the cell holds at the end does not depend on what it held before. -/
theorem foldl_overlayAt_cell {α : Type} {cell : Learned (arms r) → α} {written : BanditEntry → Option α}
    (hcell : ∀ e l, cell (e.overlay l) = (written e).getD (cell l)) {e : BanditEntry} (he : (r, e) ∈ es)
    (hwritten : written e ≠ none) (s s' : BanditStates arms) :
    cell (es.foldl overlayAt s r) = cell (es.foldl overlayAt s' r) := by
  -- Either a later entry writes the cell, or what is in it now stays the same in both runs.
  have hsame : ∀ (es : List (Fin m × BanditEntry)) (s s' : BanditStates arms), cell (s r) = cell (s' r) →
      cell (es.foldl overlayAt s r) = cell (es.foldl overlayAt s' r) := by
    intro es
    induction es with
    | nil => exact fun _ _ h => h
    | cons e es ih =>
      intro s s' h
      refine ih _ _ ?_
      by_cases hr : e.1 = r
      · obtain ⟨r', e⟩ := e
        cases hr
        rw [overlayAt_self, overlayAt_self, hcell, hcell, h]
      · rw [overlayAt_of_ne s hr, overlayAt_of_ne s' hr, h]
  induction es generalizing s s' with
  | nil => cases he
  | cons first es ih =>
    rw [List.foldl_cons, List.foldl_cons]
    rcases List.mem_cons.1 he with rfl | he
    · refine hsame es _ _ ?_
      obtain ⟨v, hv⟩ := Option.ne_none_iff_exists'.1 hwritten
      rw [overlayAt_self, overlayAt_self, hcell, hcell, hv]
      rfl
    · exact ih he _ _

end Fold

/-! ### All or nothing -/

/-- Every field the same. -/
def Learned.filled {n : ℕ} (q : ℚ) (i : Int32) : Learned n where
  weights := fun _ => .finite q
  cumReward := fun _ => .finite q
  pulls := fun _ => i
  totalSteps := i

section AllOrNothing

variable (fmt : DoubleRounding) {m : ℕ} (arms : Fin m → ℕ) (file : Option (List Char)) (stale expectedSha : List Char)
  (expectedArms : Int32)

/-- A call that returns zero leaves the states alone or resets them all. -/
def AllOrNothing : Prop :=
  ∀ s : BanditStates arms, (banditLoadJSON fmt file stale expectedSha expectedArms s).ok = false →
    (banditLoadJSON fmt file stale expectedSha expectedArms s).states = s ∨
      (banditLoadJSON fmt file stale expectedSha expectedArms s).states = fun _ => Learned.uniform

/-- The header passes, one of the turns finds no further entry, and an entry before it writes a field. -/
def StopsHalfway : Prop :=
  ∃ p, (fileBuffer file stale).bind (regimesStart m expectedSha expectedArms) = some p ∧
    (scanEntries fmt m m p).2 = false ∧ ∃ e ∈ (scanEntries fmt m m p).1, e.2.Writes (arms e.1)

variable {fmt arms file stale expectedSha expectedArms} {es : List (Fin m × BanditEntry)}

theorem exists_not_mem_of_length_lt (h : es.length < m) : ∃ r : Fin m, ∀ e ∈ es, e.1 ≠ r := by
  by_contra hall
  push Not at hall
  have hsub : Finset.univ ⊆ (es.map (·.1)).toFinset := by
    intro r _
    obtain ⟨e, he, rfl⟩ := hall r
    exact List.mem_toFinset.2 (List.mem_map_of_mem he)
  have hcard := (Finset.card_le_card hsub).trans (List.toFinset_card_le _)
  rw [Finset.card_univ, Fintype.card_fin, List.length_map] at hcard
  omega

/-- No entry that writes a field gives two different states back as they were. -/
theorem exists_cell_changed {e : Fin m × BanditEntry} (he : e ∈ es) (hwrites : e.2.Writes (arms e.1)) :
    es.foldl overlayAt (fun r => (Learned.filled 1 1 : Learned (arms r))) ≠ (fun _ => Learned.filled 1 1) ∨
      es.foldl overlayAt (fun r => (Learned.filled 2 2 : Learned (arms r))) ≠ (fun _ => Learned.filled 2 2) := by
  by_contra hboth
  obtain ⟨hone, htwo⟩ := not_or.1 hboth
  have hone := congrFun (not_not.1 hone) e.1
  have htwo := congrFun (not_not.1 htwo) e.1
  -- The cell the entry writes ends up the same in both runs.
  have hcell : ∀ {α : Type} (cell : Learned (arms e.1) → α) (written : BanditEntry → Option α),
      (∀ e' l, cell (e'.overlay l) = (written e').getD (cell l)) → written e.2 ≠ none →
        cell (Learned.filled 1 1) = cell (Learned.filled 2 2) := by
    intro α cell written hspec hne
    have hsame := foldl_overlayAt_cell hspec he hne (fun _ => Learned.filled 1 1) fun _ => Learned.filled 2 2
    rwa [hone, htwo] at hsame
  have hfirst : ∀ {α : Type} {values : List α}, values ≠ [] → values[0]? ≠ none := by
    intro α values hne hnone
    exact hne (List.length_eq_zero_iff.1 (Nat.le_zero.1 (List.getElem?_eq_none_iff.1 hnone)))
  rcases hwrites with hsteps | ⟨hpos, hweights | hrewards | hpulls⟩
  · have h := hcell (·.totalSteps) (·.totalSteps) (fun _ _ => rfl) hsteps
    have hi : (1 : Int32) = 2 := h
    exact absurd hi (by decide)
  · have h := hcell (·.weights ⟨0, hpos⟩) (fun e => (BanditEntry.copied e.weights)[0]?) (fun _ _ => rfl)
      (hfirst hweights)
    have hq : (1 : ℚ) = 2 := Double.finite.inj h
    norm_num at hq
  · have h := hcell (·.cumReward ⟨0, hpos⟩) (fun e => (BanditEntry.copied e.cumReward)[0]?) (fun _ _ => rfl)
      (hfirst hrewards)
    have hq : (1 : ℚ) = 2 := Double.finite.inj h
    norm_num at hq
  · have h := hcell (·.pulls ⟨0, hpos⟩) (fun e => e.pulls[0]?) (fun _ _ => rfl) (hfirst hpulls)
    have hi : (1 : Int32) = 2 := h
    exact absurd hi (by decide)

/-- A file is all or nothing unless its entries end too early behind one that writes. -/
theorem allOrNothing_iff_not_stopsHalfway : AllOrNothing fmt arms file stale expectedSha expectedArms ↔
    ¬StopsHalfway fmt arms file stale expectedSha expectedArms := by
  unfold AllOrNothing StopsHalfway
  by_cases hm : m = 0
  · subst hm
    refine iff_of_true (fun s _ => .inl rfl) ?_
    rintro ⟨p, -, hstop, -⟩
    cases hstop
  cases hstart : (fileBuffer file stale).bind (regimesStart m expectedSha expectedArms) with
  | none =>
    refine iff_of_true (fun s _ => .inl ?_) (by rintro ⟨p, hp, -⟩; cases hp)
    rw [banditLoadJSON, if_neg hm, hstart]
  | some p =>
    have hload : ∀ s : BanditStates arms, banditLoadJSON fmt file stale expectedSha expectedArms s =
        overlayRegimes fmt m p false s := by
      intro s
      rw [banditLoadJSON, if_neg hm, hstart]
    simp only [hload, overlayRegimes_eq, laidOver, Bool.false_or]
    by_cases hstop : (scanEntries fmt m m p).2 = false
    · simp only [hstop, if_true]
      constructor
      · rintro hall ⟨p', hp, -, e, he, hwrites⟩
        cases hp
        obtain ⟨r, hr⟩ := exists_not_mem_of_length_lt ((scanEntries_length fmt m p).2 hstop)
        have hkept : ∀ i : Int32, i ≠ 0 → ∀ q : ℚ, (scanEntries fmt m m p).1.foldl overlayAt
            (fun r => (Learned.filled q i : Learned (arms r))) = fun _ => Learned.filled q i := by
          intro i hi q
          refine (hall _ trivial).resolve_right fun huniform => hi ?_
          have hsteps := congrArg Learned.totalSteps (congrFun huniform r)
          rwa [foldl_overlayAt_of_forall_ne hr] at hsteps
        rcases exists_cell_changed he hwrites with h | h
        · exact h (hkept 1 (by decide) 1)
        · exact h (hkept 2 (by decide) 2)
      · rintro hnot s -
        refine .inl (foldl_overlayAt_of_not_writes (fun e he hwrites => ?_) s)
        exact hnot ⟨p, rfl, hstop, e, he, hwrites⟩
    · refine iff_of_true (fun s => ?_) ?_
      · rw [if_neg hstop]
        split
        · exact fun _ => .inr rfl
        · exact fun h => by cases h
      · rintro ⟨p', hp, h, -⟩
        cases hp
        exact hstop h

end AllOrNothing

/-- A file whose header says two regimes and that has an entry for the first of them. -/
def cutFile : List Char :=
  "\x7b\"format_version\": 1, \"n_regimes\": 2, \"n_arms\": 2, \"regimes\": [".toList ++
    "\x7b\"regime_id\": 0, \"total_steps\": 5, \"weights\": [3, 1], ".toList ++
      "\"cum_reward\": [40, -2], \"pulls\": [4, 1]\x7d]\x7d".toList

/-- The first regime is loaded and the second is not, while the call returns zero. -/
theorem load_cutFile_mixed : ¬∀ file, AllOrNothing exactRounding (fun _ : Fin 2 => 2) file [] [] 2 := by
  intro h
  have hload : ∃ result, banditLoadJSON exactRounding (some cutFile) [] [] 2
      (fun _ => Learned.uniform : BanditStates fun _ : Fin 2 => 2) = result ∧ result.ok = false ∧
        (result.states 0).totalSteps = 5 :=
    ⟨_, rfl, by decide +kernel, by decide +kernel⟩
  obtain ⟨result, hresult, hok, hsteps⟩ := hload
  have hall := h (some cutFile) fun _ => Learned.uniform
  rw [hresult] at hall
  rcases hall hok with heq | heq
  · rw [heq] at hsteps
    exact absurd hsteps (by decide)
  · rw [heq] at hsteps
    exact absurd hsteps (by decide)

end FoxTrader
