import Mathlib.Data.List.Basic
import Mathlib.Data.List.Induction
import Mathlib.Data.List.TakeWhile

/-! # Fields of tag and value

    A field is a tag of digits, an equals sign, a value and a delimiter. A reader takes field after field
    and stops where no tag with an equals sign follows. It reads a sequence of fields to its end
    (`fields_render`). One changed character leaves a sequence of fields, or the reader comes to a stop
    before it has met a tag that was not there before (`reads_or_known`). -/

namespace Lib

namespace TagValue

variable (isDelim : Char → Bool)

/-- The field a text begins with: its tag, its value, and what is behind its delimiter. -/
def readField (cs : List Char) : Option (List Char × List Char × List Char) :=
  let behind := cs.dropWhile Char.isDigit
  if behind.head? = some '=' then
    some (cs.takeWhile Char.isDigit, behind.tail.takeWhile (fun c => !isDelim c),
      (behind.tail.dropWhile fun c => !isDelim c).tail)
  else none

/-- The fields up to the first stop, at most `n`. -/
def readFields : ℕ → List Char → List (List Char × List Char)
  | 0, _ => []
  | n + 1, cs =>
    if cs = [] then []
    else (readField isDelim cs).elim [] fun f => (f.1, f.2.1) :: readFields n f.2.2

/-- All fields up to the first stop. -/
def fields (cs : List Char) : List (List Char × List Char) := readFields isDelim cs.length cs

/-- A field and the delimiter it ends with. -/
structure Field where
  tag : List Char
  value : List Char
  delim : Char
  tag_digits : ∀ c ∈ tag, c.isDigit = true
  value_clean : ∀ c ∈ value, isDelim c = false
  delim_isDelim : isDelim delim = true

variable {isDelim}

def Field.render (f : Field isDelim) : List Char := f.tag ++ '=' :: (f.value ++ [f.delim])

/-- The text is a sequence of fields. -/
def ReadsThrough (isDelim : Char → Bool) (cs : List Char) : Prop :=
  ∃ fs : List (Field isDelim), fs.flatMap Field.render = cs

/-! ### Reading -/

variable {cs tag value rest : List Char} {c d : Char}

theorem readField_length {f : List Char × List Char × List Char} (h : readField isDelim cs = some f) :
    f.2.2.length < cs.length := by
  unfold readField at h
  dsimp only at h
  split at h
  · rename_i hhead
    obtain rfl := Option.some.inj h
    have hdrop := (List.dropWhile_sublist (l := cs) Char.isDigit).length_le
    have hne : cs.dropWhile Char.isDigit ≠ [] := by
      intro hnil
      rw [hnil] at hhead
      cases hhead
    have hpos := List.length_pos_of_ne_nil hne
    have hvalue := (List.dropWhile_sublist (l := (cs.dropWhile Char.isDigit).tail) fun c => !isDelim c).length_le
    simp only [List.length_tail] at hvalue ⊢
    omega
  · cases h

/-- More room than characters changes nothing. -/
theorem readFields_eq {n : ℕ} (h : cs.length ≤ n) : readFields isDelim n cs = fields isDelim cs := by
  unfold fields
  induction n using Nat.strong_induction_on generalizing cs with
  | _ n ih =>
    cases cs with
    | nil => cases n <;> rfl
    | cons c cs =>
      obtain ⟨m, rfl⟩ := Nat.exists_eq_add_of_le' (Nat.lt_of_lt_of_le (Nat.zero_lt_succ _) h)
      rw [List.length_cons, readFields, readFields, if_neg (List.cons_ne_nil _ _), if_neg (List.cons_ne_nil _ _)]
      cases hread : readField isDelim (c :: cs) with
      | none => rfl
      | some f =>
        have hshort := readField_length hread
        rw [List.length_cons] at h hshort
        dsimp only [Option.elim_some]
        rw [ih m (by omega) (by omega), ih cs.length (by omega) (by omega)]

theorem fields_nil : fields isDelim [] = [] := rfl

theorem fields_of_some {f : List Char × List Char × List Char} (h : readField isDelim cs = some f) :
    fields isDelim cs = (f.1, f.2.1) :: fields isDelim f.2.2 := by
  cases cs with
  | nil => cases h
  | cons c cs =>
    have hshort := readField_length h
    rw [List.length_cons] at hshort
    rw [fields, List.length_cons, readFields, if_neg (List.cons_ne_nil _ _), h]
    dsimp only [Option.elim_some]
    rw [readFields_eq (by omega)]

theorem fields_of_none (h : readField isDelim cs = none) : fields isDelim cs = [] := by
  cases cs with
  | nil => rfl
  | cons c cs =>
    rw [fields, List.length_cons, readFields, if_neg (List.cons_ne_nil _ _), h]
    rfl

/-- Digits and an equals sign are taken for a tag. -/
theorem readField_tag (htag : ∀ c ∈ tag, c.isDigit = true) (rest : List Char) :
    readField isDelim (tag ++ '=' :: rest) =
      some (tag, rest.takeWhile (fun c => !isDelim c), (rest.dropWhile fun c => !isDelim c).tail) := by
  have hsign : ¬ '='.isDigit = true := by decide
  unfold readField
  rw [List.takeWhile_append_of_pos htag, List.dropWhile_append_of_pos htag, List.takeWhile_cons_of_neg hsign,
    List.dropWhile_cons_of_neg hsign, List.append_nil]
  exact if_pos rfl

/-- After digits anything but an equals sign is no field. -/
theorem readField_none (htag : ∀ c ∈ tag, c.isDigit = true) (hdigit : c.isDigit = false) (hsign : c ≠ '=')
    (rest : List Char) : readField isDelim (tag ++ c :: rest) = none := by
  have hc : ¬c.isDigit = true := by rw [hdigit]; exact Bool.false_ne_true
  unfold readField
  rw [List.dropWhile_append_of_pos htag, List.dropWhile_cons_of_neg hc]
  exact if_neg fun h => hsign (Option.some.inj h)

/-- A value ends at the first delimiter. -/
theorem value_split (hclean : ∀ c ∈ value, isDelim c = false) (hd : isDelim d = true) (rest : List Char) :
    (value ++ d :: rest).takeWhile (fun c => !isDelim c) = value ∧
      (value ++ d :: rest).dropWhile (fun c => !isDelim c) = d :: rest := by
  have hkeep : ∀ c ∈ value, (fun c => !isDelim c) c = true := fun c hc => by dsimp only; rw [hclean c hc]; rfl
  have hstop : ¬(fun c => !isDelim c) d = true := by dsimp only; rw [hd]; exact Bool.false_ne_true
  rw [List.takeWhile_append_of_pos hkeep, List.dropWhile_append_of_pos hkeep,
    List.takeWhile_cons_of_neg (p := fun c => !isDelim c) hstop,
    List.dropWhile_cons_of_neg (p := fun c => !isDelim c) hstop, List.append_nil]
  exact ⟨rfl, rfl⟩

/-- A tag and a value up to a delimiter are read for a field. -/
theorem readField_value (htag : ∀ c ∈ tag, c.isDigit = true) (hclean : ∀ c ∈ value, isDelim c = false)
    (hd : isDelim d = true) (rest : List Char) :
    readField isDelim (tag ++ '=' :: (value ++ d :: rest)) = some (tag, value, rest) := by
  obtain ⟨htake, hdrop⟩ := value_split hclean hd rest
  rw [readField_tag htag, htake, hdrop, List.tail_cons]

theorem readField_render (f : Field isDelim) (rest : List Char) :
    readField isDelim (f.render ++ rest) = some (f.tag, f.value, rest) := by
  rw [Field.render, List.append_assoc, List.cons_append, List.append_assoc, List.singleton_append]
  exact readField_value f.tag_digits f.value_clean f.delim_isDelim rest

/-- A sequence of fields is read to its end. -/
theorem fields_render (fs : List (Field isDelim)) (rest : List Char) :
    fields isDelim (fs.flatMap Field.render ++ rest) = fs.map (fun f => (f.tag, f.value)) ++ fields isDelim rest := by
  induction fs with
  | nil => rfl
  | cons f fs ih =>
    rw [List.flatMap_cons, List.append_assoc, fields_of_some (readField_render f _), ih, List.map_cons,
      List.cons_append]

/-- A tag and a value that fit a field. -/
def IsPair (isDelim : Char → Bool) (p : List Char × List Char) : Prop :=
  (∀ c ∈ p.1, c.isDigit = true) ∧ ∀ c ∈ p.2, isDelim c = false

/-- Tags and values that fit are the fields of some sequence. -/
theorem exists_fields (hd : isDelim d = true) {pairs : List (List Char × List Char)}
    (h : ∀ p ∈ pairs, IsPair isDelim p) :
    ∃ fs : List (Field isDelim), fs.map (fun f => (f.tag, f.value)) = pairs ∧
      fs.flatMap Field.render = pairs.flatMap fun p => p.1 ++ '=' :: (p.2 ++ [d]) := by
  induction pairs with
  | nil => exact ⟨[], rfl, rfl⟩
  | cons p pairs ih =>
    obtain ⟨htag, hvalue⟩ := h p List.mem_cons_self
    obtain ⟨fs, hpairs, hrender⟩ := ih fun q hq => h q (List.mem_cons_of_mem _ hq)
    refine ⟨⟨p.1, p.2, d, htag, hvalue, hd⟩ :: fs, ?_, ?_⟩
    · rw [List.map_cons, hpairs]
    · rw [List.flatMap_cons, List.flatMap_cons, hrender]
      rfl

theorem ReadsThrough.append {l l' : List Char} (h : ReadsThrough isDelim l) (h' : ReadsThrough isDelim l') :
    ReadsThrough isDelim (l ++ l') := by
  obtain ⟨fs, rfl⟩ := h
  obtain ⟨fs', rfl⟩ := h'
  exact ⟨fs ++ fs', List.flatMap_append⟩

theorem readsThrough_render (f : Field isDelim) : ReadsThrough isDelim f.render :=
  ⟨[f], by rw [List.flatMap_cons, List.flatMap_nil, List.append_nil]⟩

theorem readsThrough_flatMap (fs : List (Field isDelim)) : ReadsThrough isDelim (fs.flatMap Field.render) := ⟨fs, rfl⟩

/-- The last character of a sequence of fields is a delimiter. -/
theorem ReadsThrough.ends (h : ReadsThrough isDelim cs) (hne : cs ≠ []) :
    ∃ l c, cs = l ++ [c] ∧ isDelim c = true := by
  obtain ⟨fs, rfl⟩ := h
  rcases List.eq_nil_or_concat fs with rfl | ⟨gs, g, rfl⟩
  · exact absurd rfl hne
  · refine ⟨gs.flatMap Field.render ++ (g.tag ++ '=' :: g.value), g.delim, ?_, g.delim_isDelim⟩
    simp [Field.render]

/-! ### One changed character -/

/-- Delimiters are neither digits nor the equals sign. -/
def Apart (isDelim : Char → Bool) : Prop := ∀ c, isDelim c = true → c.isDigit = false ∧ c ≠ '='

/-- Up to a delimiter a text is a field or stops the reader. -/
theorem field_or_stops (hapart : Apart isDelim) {w : List Char} (hclean : ∀ c ∈ w, isDelim c = false)
    (hd : isDelim d = true) :
    ReadsThrough isDelim (w ++ [d]) ∨ ∀ rest, readField isDelim (w ++ d :: rest) = none := by
  have hsplit : w.takeWhile Char.isDigit ++ w.dropWhile Char.isDigit = w := List.takeWhile_append_dropWhile
  have htag : ∀ c ∈ w.takeWhile Char.isDigit, c.isDigit = true := fun c hc => List.mem_takeWhile_imp hc
  cases hbehind : w.dropWhile Char.isDigit with
  | nil =>
    right
    intro rest
    rw [hbehind, List.append_nil] at hsplit
    rw [hsplit] at htag
    exact readField_none htag (hapart d hd).1 (hapart d hd).2 rest
  | cons c value =>
    rw [hbehind] at hsplit
    by_cases hsign : c = '='
    · subst hsign
      left
      have hvalue : ∀ c ∈ value, isDelim c = false := fun c hc =>
        hclean c (by rw [← hsplit]; exact List.mem_append_right _ (List.mem_cons_of_mem _ hc))
      have hrender := readsThrough_render ⟨_, value, d, htag, hvalue, hd⟩
      rw [Field.render] at hrender
      rwa [← hsplit, List.append_assoc, List.cons_append]
    · right
      intro rest
      have hdigit : c.isDigit = false := by
        have hhead : (w.dropWhile Char.isDigit).head? = some c := by rw [hbehind]; rfl
        have hnot := List.head?_dropWhile_not Char.isDigit w
        rw [hhead] at hnot
        exact hnot
      rw [← hsplit, List.append_assoc, List.cons_append]
      exact readField_none htag hdigit hsign _

/-- Before its delimiter a field has none. -/
theorem Field.clean (hapart : Apart isDelim) (f : Field isDelim) : ∀ c ∈ f.tag ++ '=' :: f.value, isDelim c = false := by
  intro c hc
  by_contra hdelim
  obtain ⟨hdigit, hsign⟩ := hapart c (by simpa using hdelim)
  rcases List.mem_append.1 hc with htag | hrest
  · rw [f.tag_digits c htag] at hdigit
    cases hdigit
  · rcases List.mem_cons.1 hrest with heq | hvalue
    · exact hsign heq
    · exact hdelim (f.value_clean c hvalue)

section Change

variable {x y : List Char} {b : Char} {f : Field isDelim} {fs : List (Field isDelim)} (last : Field isDelim)

/-- A delimiter lost: the field runs on into the next one. -/
theorem delim_changed (hapart : Apart isDelim) (hc : isDelim c = false) (f : Field isDelim)
    (fs : List (Field isDelim)) :
    ReadsThrough isDelim (f.tag ++ '=' :: (f.value ++ c :: fs.flatMap Field.render)) ∨
      ∀ p ∈ fields isDelim (f.tag ++ '=' :: (f.value ++ c :: (fs.flatMap Field.render ++ last.render))), p.1 = f.tag := by
  have hlonger : ∀ g : Field isDelim, ∀ d ∈ f.value ++ c :: (g.tag ++ '=' :: g.value), isDelim d = false := by
    intro g d hd
    rcases List.mem_append.1 hd with hvalue | hrest
    · exact f.value_clean d hvalue
    · rcases List.mem_cons.1 hrest with rfl | hg
      · exact hc
      · exact g.clean hapart d hg
  cases fs with
  | nil =>
    right
    intro p hp
    have hread := readField_value f.tag_digits (hlonger last) last.delim_isDelim []
    have htext : f.tag ++ '=' :: (f.value ++ c :: (([] : List (Field isDelim)).flatMap Field.render ++ last.render)) =
        f.tag ++ '=' :: (f.value ++ c :: (last.tag ++ '=' :: last.value) ++ last.delim :: []) := by
      simp [Field.render]
    rw [htext, fields_of_some hread, fields_nil] at hp
    rw [List.mem_singleton.1 hp]
  | cons g gs =>
    left
    refine ⟨⟨f.tag, f.value ++ c :: (g.tag ++ '=' :: g.value), g.delim, f.tag_digits, hlonger g, g.delim_isDelim⟩ :: gs, ?_⟩
    simp [Field.render]

/-- A delimiter put into a field: the tag is not reached, or the field ends early. -/
theorem delim_inserted (hapart : Apart isDelim) (hc : isDelim c = true) (hsplit : f.tag ++ '=' :: f.value = x ++ b :: y)
    (fs : List (Field isDelim)) :
    ReadsThrough isDelim (x ++ c :: (y ++ f.delim :: fs.flatMap Field.render)) ∨
      ∀ p ∈ fields isDelim (x ++ c :: (y ++ f.delim :: (fs.flatMap Field.render ++ last.render))), p.1 = f.tag := by
  have hdigits : (∀ d ∈ x, d.isDigit = true) → ∀ rest, fields isDelim (x ++ c :: rest) = [] := fun hx rest =>
    fields_of_none (readField_none hx (hapart c hc).1 (hapart c hc).2 rest)
  rcases List.append_eq_append_iff.1 hsplit with ⟨front, rfl, hvalue⟩ | ⟨front, htag, -⟩
  · rcases front with _ | ⟨sign, front⟩
    · right
      rw [hdigits fun d hd => f.tag_digits d (by rwa [List.append_nil] at hd)]
      exact fun p hp => absurd hp List.not_mem_nil
    · -- in the value
      obtain ⟨rfl, htail⟩ := List.cons.inj hvalue
      have hvalue : f.value = front ++ b :: y := htail
      have hfront : ∀ d ∈ front, isDelim d = false := fun d hd =>
        f.value_clean d (by rw [hvalue]; exact List.mem_append_left _ hd)
      have hy : ∀ d ∈ y, isDelim d = false := fun d hd =>
        f.value_clean d (by rw [hvalue]; exact List.mem_append_right _ (List.mem_cons_of_mem _ hd))
      rcases field_or_stops hapart hy f.delim_isDelim with hreads | hstops
      · left
        have hfirst := @readsThrough_render isDelim ⟨f.tag, front, c, f.tag_digits, hfront, hc⟩
        have hall := (hfirst.append hreads).append (readsThrough_flatMap fs)
        simpa [Field.render] using hall
      · right
        intro p hp
        rw [List.append_assoc, List.cons_append, fields_of_some (readField_value f.tag_digits hfront hc _),
          fields_of_none (hstops _)] at hp
        rw [List.mem_singleton.1 hp]
  · right
    rw [hdigits fun d hd => f.tag_digits d (by rw [htag]; exact List.mem_append_left _ hd)]
    exact fun p hp => absurd hp List.not_mem_nil

/-- One character of a field changed, with fields behind it. -/
theorem field_changed (hapart : Apart isDelim) (hsplit : f.render = x ++ b :: y) (fs : List (Field isDelim)) :
    ReadsThrough isDelim (x ++ c :: (y ++ fs.flatMap Field.render)) ∨
      ∀ p ∈ fields isDelim (x ++ c :: (y ++ (fs.flatMap Field.render ++ last.render))), p.1 = f.tag := by
  have hbody : (f.tag ++ '=' :: f.value) ++ [f.delim] = x ++ b :: y := by
    rw [← hsplit, Field.render, List.append_assoc, List.cons_append]
  have hdelim : x = f.tag ++ '=' :: f.value → y = [] →
      ReadsThrough isDelim (x ++ c :: (y ++ fs.flatMap Field.render)) ∨
        ∀ p ∈ fields isDelim (x ++ c :: (y ++ (fs.flatMap Field.render ++ last.render))), p.1 = f.tag := by
    rintro rfl rfl
    by_cases hc : isDelim c = true
    · left
      have hfirst := @readsThrough_render isDelim ⟨f.tag, f.value, c, f.tag_digits, f.value_clean, hc⟩
      simpa [Field.render] using hfirst.append (readsThrough_flatMap fs)
    · simpa using delim_changed last hapart (by simpa using hc) f fs
  rcases List.append_eq_append_iff.1 hbody with ⟨front, hx, hend⟩ | ⟨front, hfield, hend⟩
  · rcases front with _ | ⟨d, front⟩
    · exact hdelim (by rw [hx, List.append_nil]) (List.cons.inj hend).2.symm
    · exact absurd (congrArg List.length hend) (by simp)
  · rcases front with _ | ⟨d, front⟩
    · exact hdelim (by rw [hfield, List.append_nil]) (List.cons.inj hend).2
    · obtain ⟨rfl, htail⟩ := List.cons.inj hend
      obtain rfl : y = front ++ [f.delim] := htail
      rw [List.append_assoc, List.append_assoc, List.singleton_append, List.singleton_append]
      by_cases hc : isDelim c = true
      · exact delim_inserted last hapart hc hfield fs
      · have hclean : ∀ d ∈ x ++ c :: front, isDelim d = false := by
          intro d hd
          rcases List.mem_append.1 hd with hx | hrest
          · exact f.clean hapart d (by rw [hfield]; exact List.mem_append_left _ hx)
          · rcases List.mem_cons.1 hrest with rfl | hfront
            · simpa using hc
            · exact f.clean hapart d (by rw [hfield]; exact List.mem_append_right _ (List.mem_cons_of_mem _ hfront))
        rcases field_or_stops hapart hclean f.delim_isDelim with hreads | hstops
        · left
          simpa using hreads.append (readsThrough_flatMap fs)
        · right
          intro p hp
          have hnone := fields_of_none (hstops (fs.flatMap Field.render ++ last.render))
          rw [List.append_assoc, List.cons_append] at hnone
          rw [hnone] at hp
          exact absurd hp List.not_mem_nil

/-- One changed character leaves a sequence of fields, or every tag read before the stop was there before. -/
theorem reads_or_known (hapart : Apart isDelim) (hsplit : fs.flatMap Field.render = x ++ b :: y) :
    ReadsThrough isDelim (x ++ c :: y) ∨
      ∀ p ∈ fields isDelim (x ++ c :: y ++ last.render), p.1 ∈ fs.map (·.tag) := by
  induction fs generalizing x with
  | nil => exact absurd (congrArg List.length hsplit) (by simp)
  | cons f fs ih =>
    have hbehind : ∀ front, x = f.render ++ front → fs.flatMap Field.render = front ++ b :: y →
        ReadsThrough isDelim (x ++ c :: y) ∨
          ∀ p ∈ fields isDelim (x ++ c :: y ++ last.render), p.1 ∈ (f :: fs).map (·.tag) := by
      rintro front rfl hrest
      rcases ih hrest with hreads | hknown
      · left
        rw [List.append_assoc]
        exact (readsThrough_render f).append hreads
      · right
        intro p hp
        rw [List.append_assoc, List.append_assoc, fields_of_some (readField_render f _)] at hp
        rcases List.mem_cons.1 hp with rfl | hp
        · exact List.mem_cons_self
        · exact List.mem_cons_of_mem _ (hknown p (by rw [List.append_assoc]; exact hp))
    rw [List.flatMap_cons] at hsplit
    rcases List.append_eq_append_iff.1 hsplit with ⟨front, hx, hrest⟩ | ⟨front, hfield, hend⟩
    · exact hbehind front hx hrest
    · rcases front with _ | ⟨d, front⟩
      · exact hbehind [] (by rw [hfield, List.append_nil, List.append_nil]) hend.symm
      · obtain ⟨rfl, htail⟩ := List.cons.inj hend
        obtain rfl : y = front ++ fs.flatMap Field.render := htail
        refine (field_changed last hapart hfield fs).imp id fun hknown p hp => ?_
        rw [List.append_assoc, List.cons_append, List.append_assoc] at hp
        exact List.mem_cons.2 (Or.inl (hknown p hp))

end Change

end TagValue

end Lib
