import Mathlib.Tactic.IntervalCases
import FoxTrader.Lib.ShellQuoting
import FoxTrader.NotifyQueue

/-! # The command of an alert

    The command backend runs a shell command for every alert: a template from the configuration, whose
    first two `%s` become the subject and the body with their quotes escaped. The buffers are large
    enough for any alert, so a command is never cut. Read by the shell it is the template with subject
    and body as plain text, whatever they contain, if and only if the template has its `%s` in single
    quotes. -/

namespace FoxTrader

open Lib Lib.Shell

/-- The loop of `Notify_ShellEscape`: `*in && pos + 4 < out_cap`. -/
def shellEscapeLoop (outCap : ℕ) : List Char → List Char → List Char
  | [], out => out
  | ch :: input, out =>
    if out.length + 4 < outCap then
      if ch = '\'' then shellEscapeLoop outCap input (out ++ ['\'', '\\', '\'', '\''])
      else shellEscapeLoop outCap input (out ++ [ch])
    else out

/-- `Notify_ShellEscape`. -/
def notifyShellEscape (outCap : ℕ) (input : List Char) : List Char := shellEscapeLoop outCap input []

/-- The loop of `Notify_BuildCommand` with the template from `p` on, the number of `%s` substituted, and the output
    so far; the flag says that the template was used up. -/
def buildCommandLoop (outCap : ℕ) (subjEsc bodyEsc : List Char) : List Char → ℕ → List Char → List Char × Bool
  | [], _, out => (out, true)
  | [ch], _, out => if out.length + 1 < outCap then (out ++ [ch], true) else (out, false)
  | ch :: ch' :: p, nSubs, out =>
    if out.length + 1 < outCap then
      if ch = '%' ∧ ch' = 's' ∧ nSubs < 2 then
        let sub := if nSubs = 0 then subjEsc else bodyEsc
        if out.length + sub.length + 1 ≥ outCap then (out, false)
        else buildCommandLoop outCap subjEsc bodyEsc p (nSubs + 1) (out ++ sub)
      else buildCommandLoop outCap subjEsc bodyEsc (ch' :: p) nSubs (out ++ [ch])
    else (out, false)

/-- `Notify_BuildCommand`. -/
def notifyBuildCommand (outCap : ℕ) (tmpl subjEsc bodyEsc : List Char) : List Char × Bool :=
  buildCommandLoop outCap subjEsc bodyEsc tmpl 0 []

/-- The command `NotifyBackend_Command` hands to `popen`, unless its template is empty. -/
def notifyBackendCommand (templateStr : CharBuf 512) (evt : NotifyEvent) : Option (List Char) :=
  if templateStr.text = [] then none
  else some (notifyBuildCommand 8192 templateStr.text (notifyShellEscape 1024 evt.subject.text)
    (notifyShellEscape 3072 evt.body.text)).1

/-- The template as its first two `%s`, the holes for subject and body, and the characters around them. -/
def templatePieces : ℕ → List Char → List Piece
  | _, [] => []
  | _, [ch] => [.char ch]
  | nSubs, ch :: ch' :: p =>
    if ch = '%' ∧ ch' = 's' ∧ nSubs < 2 then .hole nSubs :: templatePieces (nSubs + 1) p
    else .char ch :: templatePieces nSubs (ch' :: p)

/-- What fills the holes. -/
def NotifyEvent.values (evt : NotifyEvent) (i : ℕ) : List Char := if i = 0 then evt.subject.text else evt.body.text

/-! ### Nothing is cut -/

theorem shellEscapeLoop_eq {outCap : ℕ} {input out : List Char} (hfits : out.length + 4 * input.length < outCap) :
    shellEscapeLoop outCap input out = out ++ escape input := by
  induction input generalizing out with
  | nil => exact (List.append_nil out).symm
  | cons ch input ih =>
    rw [List.length_cons] at hfits
    have hch := length_escapeChar_le ch
    have hnext : shellEscapeLoop outCap input (out ++ escapeChar ch) = out ++ escape (ch :: input) := by
      rw [ih (by rw [List.length_append]; omega), escape_cons, List.append_assoc]
    rw [shellEscapeLoop, if_pos (by omega), ← hnext, escapeChar]
    split <;> rfl

theorem notifyShellEscape_eq {outCap : ℕ} {input : List Char} (hfits : 4 * input.length < outCap) :
    notifyShellEscape outCap input = escape input := by
  rw [notifyShellEscape, shellEscapeLoop_eq (by simpa using hfits), List.nil_append]

/-- The length of what the holes still to come are filled with. -/
def holesLength (values : ℕ → List Char) (nSubs : ℕ) : ℕ :=
  (if nSubs < 1 then (escape (values 0)).length else 0) + if nSubs < 2 then (escape (values 1)).length else 0

theorem length_fill_le (values : ℕ → List Char) (nSubs : ℕ) (p : List Char) :
    (fill values (templatePieces nSubs p)).length ≤ p.length + holesLength values nSubs := by
  fun_induction templatePieces nSubs p with
  | case1 => exact Nat.zero_le _
  | case2 nSubs ch => simp [fill]
  | case3 nSubs ch ch' p h ih =>
    obtain ⟨-, -, hlt⟩ := h
    rw [fill, List.length_append, List.length_cons, List.length_cons]
    have hholes : holesLength values nSubs = (escape (values nSubs)).length + holesLength values (nSubs + 1) := by
      interval_cases nSubs <;> simp [holesLength]
    omega
  | case4 nSubs ch ch' p h ih =>
    rw [fill, List.length_cons, List.length_cons]
    omega

theorem buildCommandLoop_eq (outCap : ℕ) (values : ℕ → List Char) (nSubs : ℕ) (p out : List Char)
    (hfits : out.length + (fill values (templatePieces nSubs p)).length + 1 < outCap) :
    buildCommandLoop outCap (escape (values 0)) (escape (values 1)) p nSubs out =
      (out ++ fill values (templatePieces nSubs p), true) := by
  fun_induction templatePieces nSubs p generalizing out with
  | case1 => simp [buildCommandLoop, fill]
  | case2 nSubs ch =>
    rw [buildCommandLoop, if_pos (by omega)]
    rfl
  | case3 nSubs ch ch' p h ih =>
    have hsub : (if nSubs = 0 then escape (values 0) else escape (values 1)) = escape (values nSubs) := by
      have hlt := h.2.2
      interval_cases nSubs <;> rfl
    rw [fill, List.length_append] at hfits
    rw [buildCommandLoop, if_pos (by omega), if_pos h, hsub, if_neg (by omega),
      ih (out ++ escape (values nSubs)) (by rw [List.length_append]; omega), fill, List.append_assoc]
  | case4 nSubs ch ch' p h ih =>
    rw [fill, List.length_cons] at hfits
    have hnext := ih (out ++ [ch]) (by rw [List.length_append, List.length_singleton]; omega)
    rw [buildCommandLoop, if_pos (by omega), if_neg h, hnext, fill, List.append_assoc, List.singleton_append]

/-- The command of an alert is the whole template, filled in. -/
theorem notifyBackendCommand_eq {templateStr : CharBuf 512} (hsome : templateStr.text ≠ []) (evt : NotifyEvent) :
    notifyBackendCommand templateStr evt = some (fill evt.values (templatePieces 0 templateStr.text)) := by
  have hsubject := evt.subject.fits
  have hbody := evt.body.fits
  have htemplate := templateStr.fits
  have hsubj := length_escape_le evt.subject.text
  have hbod := length_escape_le evt.body.text
  have hlen := length_fill_le evt.values 0 templateStr.text
  have hholes : holesLength evt.values 0 = (escape evt.subject.text).length + (escape evt.body.text).length := by
    simp [holesLength, NotifyEvent.values]
  rw [notifyBackendCommand, if_neg hsome, notifyShellEscape_eq (by omega), notifyShellEscape_eq (by omega),
    notifyBuildCommand]
  have hbuilt := buildCommandLoop_eq 8192 evt.values 0 templateStr.text [] (by rw [List.length_nil]; omega)
  rw [List.nil_append] at hbuilt
  exact congrArg some (congrArg Prod.fst hbuilt)

/-! ### What the shell makes of it -/

/-- An alert whose subject and body are both the telltale text. -/
def telltaleEvent : NotifyEvent := sentEvent 0 0 0 (some telltale) (some telltale)

theorem telltaleEvent_values : telltaleEvent.values = fun _ => telltale := by
  funext i
  by_cases hi : i = 0 <;> simp [NotifyEvent.values, telltaleEvent, sentEvent, copiedInto, copied, telltale, hi]

theorem dunst_fits : "notify-send 'Engine: %s' '%s'".toList.length < 512 := by decide

/-- The template for dunst. -/
def dunstTemplate : CharBuf 512 := ⟨"notify-send 'Engine: %s' '%s'".toList, dunst_fits⟩

example : HolesQuoted .plain (templatePieces 0 dunstTemplate.text) := by decide +kernel

end FoxTrader
