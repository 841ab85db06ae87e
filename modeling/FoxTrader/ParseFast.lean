import FoxTrader.CfgFieldDispatch
import FoxTrader.Lib.Numeral

/-! # Texts of doubles in a config

    `parse_double_fast_checked` asks `std::from_chars` whether a text begins with a number. What is behind
    the number is not looked at, and the spellings of infinity and of no number are numbers to it. Its two
    users store what they get when it raises no flag: the raw override of a node, and the branches of
    `cfg_parse_field` for binary fixed point and for doubles. What a text is read as holds for all three
    (`stores_declared_iff`).

    A `double` is a rational, an infinity or no number. How a rational is rounded to one, and which are too
    large or too small for it, is a parameter. -/

namespace FoxTrader

open Lib

/-- A `double`. -/
inductive Double where
  | finite (q : ℚ)
  | infinite (neg : Bool)
  | nan

/-- The nearest double, and what has one. -/
structure DoubleRounding where
  round : ℚ → ℚ
  inRange : ℚ → Bool

namespace ParseFast

/-! ### `std::from_chars` -/

/-- The value and the rest, or the error. -/
inductive FromChars where
  | ok (value : Double) (rest : List Char)
  | invalidArgument
  | resultOutOfRange

/-- What is behind a word that a text begins with, in any case. -/
def behindWord (word cs : List Char) : Option (List Char) :=
  if (cs.take word.length).map Char.toLower = word then some (cs.drop word.length) else none

/-- The characters in brackets behind `nan`. -/
def isNanChar (c : Char) : Bool := c.isAlphanum || c = '_'

def behindNan (cs : List Char) : List Char :=
  if cs.head? = some '(' ∧ (cs.tail.dropWhile isNanChar).head? = some ')' then (cs.tail.dropWhile isNanChar).tail else cs

/-- `std::from_chars` on a `double`, in the general format. -/
def fromChars (fmt : DoubleRounding) (cs : List Char) : FromChars :=
  match scanNumeral cs with
  | some (q, rest) => if fmt.inRange q then .ok (.finite (fmt.round q)) rest else .resultOutOfRange
  | none =>
    match behindWord "infinity".toList (scanMinus cs).2, behindWord "inf".toList (scanMinus cs).2,
      behindWord "nan".toList (scanMinus cs).2 with
    | some rest, _, _ => .ok (.infinite (scanMinus cs).1) rest
    | none, some rest, _ => .ok (.infinite (scanMinus cs).1) rest
    | none, none, some rest => .ok .nan (behindNan rest)
    | none, none, none => .invalidArgument

/-- `parse_double_fast_checked`: the value and the flag. -/
def parseDoubleFastChecked (fmt : DoubleRounding) (cs : List Char) : Double × Bool :=
  if cs = [] then (.finite 0, false)
  else
    match fromChars fmt cs with
    | .ok value _ => (value, false)
    | .invalidArgument => (.finite 0, true)
    | .resultOutOfRange => (.finite 0, true)

end ParseFast

/-! ### What is stored -/

namespace Double

/-- `v /= 100.0`. -/
def hundredth (fmt : DoubleRounding) : Double → Double
  | finite q => finite (fmt.round (q / 100))
  | infinite neg => infinite neg
  | nan => nan

/-- `std::clamp`; no comparison holds of what is no number. -/
def clamp (range : DoubleRange) : Double → Double
  | finite q => finite (range.clamp q)
  | infinite neg => finite (if neg then range.clampMin else range.clampMax)
  | nan => nan

/-- `FPN_FromDouble`. -/
def toFpn : Double → Fpn
  | finite q => fp2FromDouble q
  | infinite neg => Fpn.ceiling neg
  | nan => Fpn.ceiling false

end Double

/-- A stored value and whether a malformed fault was raised. -/
structure Stored (α : Type) where
  value : α
  fault : Bool

/-- `cfg_capture_node_raw_override`. -/
def cfgCaptureNodeRawOverride (fmt : DoubleRounding) (val : List Char) : Stored Fpn where
  value := (ParseFast.parseDoubleFastChecked fmt val).1.toFpn
  fault := (ParseFast.parseDoubleFastChecked fmt val).2

/-- The call of `cfg_parse_field`: whether the text is a stamp's, and whether there is a place for faults. -/
structure ParseContext where
  wireContext : Bool
  faultOut : Bool

/-- The branches of `cfg_parse_field` for binary fixed point and for floating types, which differ in how
    they store the double. -/
def cfgParseFeature {α : Type} (fmt : DoubleRounding) (store : Double → α) (pct : Bool) (range : DoubleRange)
    (ctx : ParseContext) (val : List Char) : Stored α :=
  let v := ParseFast.parseDoubleFastChecked fmt val
  { value := store ((if !ctx.wireContext && pct then v.1.hundredth fmt else v.1).clamp range)
    fault := !ctx.wireContext && v.2 && decide (val ≠ []) && ctx.faultOut }

/-- The branch for binary fixed point. -/
def cfgParseFpBinary (fmt : DoubleRounding) (pct : Bool) (range : DoubleRange) (ctx : ParseContext)
    (val : List Char) : Stored Fpn := cfgParseFeature fmt Double.toFpn pct range ctx val

/-- The branch for floating types, with the cast to the field's. -/
def cfgParseFloating {α : Type} (fmt : DoubleRounding) (cast : Double → α) (pct : Bool) (range : DoubleRange)
    (ctx : ParseContext) (val : List Char) : Stored α := cfgParseFeature fmt cast pct range ctx val

/-! ### Whole numbers -/

/-- If no fault is raised, the text is a numeral as a whole, of a number that has a double, and what is
    stored is declared of it. -/
def StoresDeclared {α : Type} (fmt : DoubleRounding) (s : Stored α) (declared : ℚ → α) (val : List Char) : Prop :=
  s.fault = false → ∃ n : Numeral, n.text = val ∧ fmt.inRange n.value = true ∧ s.value = declared n.value

/-- The text is faulted, in a call that raises faults, or its longest numeral is the whole of it. -/
def WholeOrFaulted (fmt : DoubleRounding) (raises : Bool) (val : List Char) : Prop :=
  match ParseFast.fromChars fmt val with
  | .ok (.finite _) rest => rest = []
  | .ok _ _ => False
  | _ => raises = true ∧ val ≠ []

variable {fmt : DoubleRounding} {val rest : List Char}

namespace ParseFast

theorem fromChars_of_numeral (fmt : DoubleRounding) (n : Numeral) : fromChars fmt n.text =
    if fmt.inRange n.value then .ok (.finite (fmt.round n.value)) [] else .resultOutOfRange := by
  unfold fromChars
  rw [n.scanNumeral_text]

/-- A finite double comes from the longest numeral. -/
theorem scan_of_finite {d : ℚ} (h : fromChars fmt val = .ok (.finite d) rest) :
    ∃ q, scanNumeral val = some (q, rest) ∧ fmt.inRange q = true ∧ d = fmt.round q := by
  unfold fromChars at h
  split at h
  · rename_i q rest' hscan
    split at h
    · rename_i hrange
      injection h with hvalue hrest
      injection hvalue with hd
      exact ⟨q, hrest ▸ hscan, hrange, hd.symm⟩
    · cases h
  · split at h <;> cases h

theorem fromChars_nil : fromChars fmt [] = .invalidArgument := rfl

end ParseFast

open ParseFast

/-- Where no fault is raised the text must be taken whole, and what is taken whole is stored as declared. -/
theorem storesDeclared_iff {α : Type} {s : Stored α} {store : Double → α} {raises : Bool}
    (hvalue : s.value = store (ParseFast.parseDoubleFastChecked fmt val).1)
    (hfault : s.fault = (raises && (ParseFast.parseDoubleFastChecked fmt val).2)) :
    StoresDeclared fmt s (fun q => store (.finite (fmt.round q))) val ↔ WholeOrFaulted fmt raises val := by
  -- Nothing is declared unless the text is read to its end as a finite number.
  have hwhole : (∀ d, ParseFast.fromChars fmt val ≠ .ok (.finite d) []) →
      ¬∃ n : Numeral, n.text = val ∧ fmt.inRange n.value = true ∧ s.value = store (.finite (fmt.round n.value)) := by
    rintro hnot ⟨n, rfl, hrange, -⟩
    exact hnot _ ((fromChars_of_numeral fmt n).trans (if_pos hrange))
  -- An error is faulted by the calls that raise faults.
  have herror : val ≠ [] → s.fault = raises → (∀ d, ParseFast.fromChars fmt val ≠ .ok (.finite d) []) →
      (StoresDeclared fmt s (fun q => store (.finite (fmt.round q))) val ↔ raises = true ∧ val ≠ []) := by
    intro hnil hraised hnot
    refine ⟨fun h => ⟨?_, hnil⟩, fun h hclear => ?_⟩
    · by_contra hquiet
      exact hwhole hnot (h (hraised.trans (Bool.eq_false_of_not_eq_true hquiet)))
    · rw [hraised, h.1] at hclear
      cases hclear
  unfold ParseFast.parseDoubleFastChecked at hvalue hfault
  unfold WholeOrFaulted
  by_cases hnil : val = []
  · subst hnil
    rw [if_pos rfl, Bool.and_false] at hfault
    rw [fromChars_nil]
    refine iff_of_false (fun h => ?_) fun h => h.2 rfl
    obtain ⟨n, htext, -⟩ := h hfault
    exact n.text_ne_nil htext
  · rw [if_neg hnil] at hvalue hfault
    cases hread : ParseFast.fromChars fmt val with
    | ok value rest =>
      rw [hread] at hvalue hfault hwhole
      have hclear : s.fault = false := hfault.trans (Bool.and_false _)
      cases value with
      | finite d =>
        refine ⟨fun h => ?_, fun hrest _ => ?_⟩
        · by_contra hrest
          exact hwhole (fun _ heq => hrest (FromChars.ok.inj heq).2) (h hclear)
        · obtain ⟨q, hscan, hrange, rfl⟩ := scan_of_finite hread
          have hend : rest = [] := hrest
          obtain ⟨n, htext, rfl⟩ := exists_numeral (hend ▸ hscan)
          exact ⟨n, htext, hrange, hvalue⟩
      | infinite neg => exact iff_of_false (fun h => hwhole (by rintro _ ⟨⟩) (h hclear)) id
      | nan => exact iff_of_false (fun h => hwhole (by rintro _ ⟨⟩) (h hclear)) id
    | invalidArgument =>
      rw [hread] at hfault
      exact herror hnil (hfault.trans (Bool.and_true _)) (by rw [hread]; rintro _ ⟨⟩)
    | resultOutOfRange =>
      rw [hread] at hfault
      exact herror hnil (hfault.trans (Bool.and_true _)) (by rw [hread]; rintro _ ⟨⟩)

/-- The number as `cfg_parse_field` declares it: out of percent, but not in a stamp, and clamped. -/
def declaredFeature {α : Type} (fmt : DoubleRounding) (store : Double → α) (pct : Bool) (range : DoubleRange)
    (ctx : ParseContext) (q : ℚ) : α :=
  store (.finite (range.clamp (if !ctx.wireContext && pct then fmt.round (fmt.round q / 100) else fmt.round q)))

theorem storesDeclared_override : StoresDeclared fmt (cfgCaptureNodeRawOverride fmt val)
    (fun q => fp2FromDouble (fmt.round q)) val ↔ WholeOrFaulted fmt true val := by
  show StoresDeclared fmt _ (fun q => Double.toFpn (.finite (fmt.round q))) val ↔ _
  exact storesDeclared_iff rfl (Bool.true_and _).symm

theorem storesDeclared_feature {α : Type} (store : Double → α) (pct : Bool) (range : DoubleRange)
    (ctx : ParseContext) :
    StoresDeclared fmt (cfgParseFeature fmt store pct range ctx val) (declaredFeature fmt store pct range ctx) val ↔
      WholeOrFaulted fmt (!ctx.wireContext && ctx.faultOut) val := by
  let stored : Double → α := fun v =>
    store ((if !ctx.wireContext && pct then v.hundredth fmt else v).clamp range)
  have hdeclared : declaredFeature fmt store pct range ctx = fun q => stored (.finite (fmt.round q)) := by
    funext q
    show declaredFeature fmt store pct range ctx q =
      store ((if (!ctx.wireContext && pct) = true then (Double.finite (fmt.round q)).hundredth fmt
        else .finite (fmt.round q)).clamp range)
    unfold declaredFeature
    split <;> rfl
  rw [hdeclared]
  refine storesDeclared_iff rfl ?_
  -- Only a text that is not empty is malformed.
  have hempty : ((ParseFast.parseDoubleFastChecked fmt val).2 && decide (val ≠ [])) =
      (ParseFast.parseDoubleFastChecked fmt val).2 := by
    by_cases hnil : val = []
    · subst hnil
      rfl
    · rw [decide_eq_true hnil, Bool.and_true]
  show (!ctx.wireContext && (ParseFast.parseDoubleFastChecked fmt val).2 && decide (val ≠ []) && ctx.faultOut) = _
  rw [Bool.and_assoc !ctx.wireContext, hempty, Bool.and_assoc, Bool.and_comm _ ctx.faultOut, ← Bool.and_assoc]

/-- What a node's raw override and the two feature branches store without a fault is declared of the number that the
    whole text is, if and only if the text is faulted or its longest numeral is the whole of it. -/
theorem stores_declared_iff (fmt : DoubleRounding) (val : List Char) :
    (StoresDeclared fmt (cfgCaptureNodeRawOverride fmt val) (fun q => fp2FromDouble (fmt.round q)) val ↔
        WholeOrFaulted fmt true val) ∧
      (∀ pct range ctx, StoresDeclared fmt (cfgParseFpBinary fmt pct range ctx val)
          (declaredFeature fmt Double.toFpn pct range ctx) val ↔
        WholeOrFaulted fmt (!ctx.wireContext && ctx.faultOut) val) ∧
      ∀ (α : Type) (cast : Double → α) pct range ctx, StoresDeclared fmt (cfgParseFloating fmt cast pct range ctx val)
          (declaredFeature fmt cast pct range ctx) val ↔
        WholeOrFaulted fmt (!ctx.wireContext && ctx.faultOut) val :=
  ⟨storesDeclared_override, fun pct range ctx => storesDeclared_feature Double.toFpn pct range ctx,
    fun _ cast pct range ctx => storesDeclared_feature cast pct range ctx⟩

/-- Every rational its own double. -/
def exactRounding : DoubleRounding := ⟨id, fun _ => true⟩

/-- The percent sign of an override goes unseen. -/
theorem override_stores_prefix : ¬∀ fmt val, StoresDeclared fmt (cfgCaptureNodeRawOverride fmt val)
    (fun q => fp2FromDouble (fmt.round q)) val := by
  intro h
  obtain ⟨n, htext, -⟩ := h exactRounding "1.5%".toList rfl
  have hrest : (scanNumeral "1.5%".toList).map (·.2) = some ['%'] := by decide +kernel
  rw [← htext, n.scanNumeral_text, Option.map_some] at hrest
  exact List.cons_ne_nil _ _ (Option.some.inj hrest).symm

end FoxTrader
