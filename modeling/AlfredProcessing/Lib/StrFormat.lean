import Mathlib.Data.List.Infix

namespace AlfredProcessing.Lib.StrFormat

/-- The exceptions of `str.format` on a text with fields. -/
inductive FormatError where
  | valueError
  | indexError
  | keyError (name : List Char)
  | fieldError
  deriving DecidableEq

/-- A replacement field: its name with the accesses behind it, its conversion and its
specification. -/
structure Field where
  name : List Char
  conversion : Option Char
  spec : List Char
  deriving DecidableEq

/-- Where the scanner stands: in literal text, behind a brace, or in a part of a field. -/
inductive Mode where
  | text
  | opened
  | closed
  | name (read : List Char)
  | item (read : List Char)
  | conversion (name : List Char)
  | converted (name : List Char) (conversion : Char)
  | spec (name : List Char) (conversion : Option Char) (depth : Nat) (read : List Char)

inductive Effect where
  | nothing
  | emit (c : Char)
  | field (f : Field)

def nameStep (read : List Char) (c : Char) : Except FormatError (Mode × Effect) :=
  if c = '{' then .error .valueError
  else if c = '[' then .ok (.item (read ++ [c]), .nothing)
  else if c = '}' then .ok (.text, .field ⟨read, none, []⟩)
  else if c = ':' then .ok (.spec read none 1 [], .nothing)
  else if c = '!' then .ok (.conversion read, .nothing)
  else .ok (.name (read ++ [c]), .nothing)

def advance (mode : Mode) (c : Char) : Except FormatError (Mode × Effect) :=
  match mode with
  | .text =>
    if c = '{' then .ok (.opened, .nothing)
    else if c = '}' then .ok (.closed, .nothing)
    else .ok (.text, .emit c)
  | .opened => if c = '{' then .ok (.text, .emit c) else nameStep [] c
  | .closed => if c = '}' then .ok (.text, .emit c) else .error .valueError
  | .name read => nameStep read c
  | .item read =>
    .ok (if c = ']' then .name (read ++ [c]) else .item (read ++ [c]), .nothing)
  | .conversion name => .ok (.converted name c, .nothing)
  | .converted name conversion =>
    if c = '}' then .ok (.text, .field ⟨name, some conversion, []⟩)
    else if c = ':' then .ok (.spec name (some conversion) 1 [], .nothing)
    else .error .valueError
  | .spec name conversion depth read =>
    if c = '{' then .ok (.spec name conversion (depth + 1) (read ++ [c]), .nothing)
    else if c = '}' then
      if depth = 1 then .ok (.text, .field ⟨name, conversion, read⟩)
      else .ok (.spec name conversion (depth - 1) (read ++ [c]), .nothing)
    else .ok (.spec name conversion depth (read ++ [c]), .nothing)

variable (eval : Field → Except FormatError (List Char))

/-- One character, with the output backwards. -/
def step (s : Mode × List Char) (c : Char) : Except FormatError (Mode × List Char) :=
  match advance s.1 c with
  | .error e => .error e
  | .ok (mode, .nothing) => .ok (mode, s.2)
  | .ok (mode, .emit d) => .ok (mode, d :: s.2)
  | .ok (mode, .field f) =>
    match eval f with
    | .error e => .error e
    | .ok v => .ok (mode, v.reverse ++ s.2)

def scan : Mode × List Char → List Char → Except FormatError (Mode × List Char)
  | s, [] => .ok s
  | s, c :: cs =>
    match step eval s c with
    | .error e => .error e
    | .ok s => scan s cs

/-- `str.format`, where `eval` tells what a field stands for. -/
def format (cs : List Char) : Except FormatError (List Char) :=
  match scan eval (.text, []) cs with
  | .error e => .error e
  | .ok (.text, out) => .ok out.reverse
  | .ok _ => .error .valueError

/-- A text that ends in literal text, and all of whose fields are known. -/
def closed (known : Field → Bool) : Mode → List Char → Bool
  | .text, [] => true
  | _, [] => false
  | mode, c :: cs =>
    match advance mode c with
    | .error _ => false
    | .ok (mode, .field f) => known f && closed known mode cs
    | .ok (mode, _) => closed known mode cs

def noBrace (cs : List Char) : Bool := cs.all fun c => c ≠ '{' && c ≠ '}'

variable {eval} {known : Field → Bool} {cs ds out : List Char} {mode : Mode} {s : Mode × List Char}

theorem scan_append : scan eval s (cs ++ ds) =
    match scan eval s cs with
    | .error e => .error e
    | .ok s => scan eval s ds := by
  induction cs generalizing s with
  | nil => rfl
  | cons c cs ih =>
    rw [List.cons_append, scan, scan]
    cases step eval s c with
    | error e => rfl
    | ok s => exact ih

theorem scan_noBrace (h : noBrace cs) : scan eval (.text, out) cs = .ok (.text, cs.reverse ++ out) := by
  induction cs generalizing out with
  | nil => rfl
  | cons c cs ih =>
    simp only [noBrace, List.all_cons, Bool.and_eq_true, decide_eq_true_eq] at h
    obtain ⟨⟨hopen, hclose⟩, hcs⟩ := h
    have hstep : step eval (.text, out) c = .ok (.text, c :: out) := by
      simp [step, advance, hopen, hclose]
    rw [scan, hstep]
    dsimp only
    rw [ih (by simpa [noBrace] using hcs), List.reverse_cons, List.append_assoc]
    rfl

theorem scan_closed (h : closed known mode cs) (heval : ∀ f, known f → ∃ v, eval f = .ok v)
    (out : List Char) : ∃ new, scan eval (mode, out) cs = .ok (.text, new ++ out) := by
  induction cs generalizing mode out with
  | nil =>
    cases mode with
    | text => exact ⟨[], rfl⟩
    | _ => cases h
  | cons c cs ih =>
    rw [closed] at h
    cases hadv : advance mode c with
    | error e => simp [hadv] at h
    | ok p =>
      obtain ⟨mode', effect⟩ := p
      rw [hadv] at h
      cases effect with
      | nothing =>
        obtain ⟨new, hnew⟩ := ih h out
        exact ⟨new, by simp only [scan, step, hadv, hnew]⟩
      | emit d =>
        obtain ⟨new, hnew⟩ := ih h (d :: out)
        exact ⟨new ++ [d], by simp only [scan, step, hadv, hnew, List.append_assoc]; rfl⟩
      | field f =>
        obtain ⟨hknown, hclosed⟩ := Bool.and_eq_true_iff.mp h
        obtain ⟨v, hv⟩ := heval f hknown
        obtain ⟨new, hnew⟩ := ih hclosed (v.reverse ++ out)
        exact ⟨new ++ v.reverse, by simp only [scan, step, hadv, hv, hnew, List.append_assoc]⟩

/-- The exception of a scan does not depend on the output. -/
def raises (eval : Field → Except FormatError (List Char)) : Mode → List Char → Option FormatError
  | _, [] => none
  | mode, c :: cs =>
    match advance mode c with
    | .error e => some e
    | .ok (mode, .field f) =>
      match eval f with
      | .error e => some e
      | .ok _ => raises eval mode cs
    | .ok (mode, _) => raises eval mode cs

theorem scan_raises {e : FormatError} (h : raises eval mode cs = some e) (out : List Char) :
    scan eval (mode, out) cs = .error e := by
  induction cs generalizing mode out with
  | nil => cases h
  | cons c cs ih =>
    rw [raises] at h
    cases hadv : advance mode c with
    | error e' =>
      rw [hadv] at h
      cases h
      simp only [scan, step, hadv]
    | ok p =>
      obtain ⟨mode', effect⟩ := p
      rw [hadv] at h
      cases effect with
      | nothing => simpa only [scan, step, hadv] using ih h out
      | emit d => simpa only [scan, step, hadv] using ih h (d :: out)
      | field f =>
        dsimp only at h
        cases hv : eval f with
        | error e' =>
          rw [hv] at h
          cases h
          simp only [scan, step, hadv, hv]
        | ok v =>
          rw [hv] at h
          simpa only [scan, step, hadv, hv] using ih h (v.reverse ++ out)

theorem raises_append {e : FormatError} (h : raises eval mode cs = some e) :
    raises eval mode (cs ++ ds) = some e := by
  induction cs generalizing mode with
  | nil => cases h
  | cons c cs ih =>
    rw [List.cons_append, raises]
    rw [raises] at h
    cases hadv : advance mode c with
    | error e' => rwa [hadv] at h
    | ok p =>
      obtain ⟨mode', effect⟩ := p
      rw [hadv] at h
      cases effect with
      | nothing => exact ih h
      | emit d => exact ih h
      | field f =>
        dsimp only at h ⊢
        cases hv : eval f with
        | error e' => rwa [hv] at h
        | ok v =>
          rw [hv] at h
          exact ih h

theorem format_raises {e : FormatError} (hcs : closed known .text cs)
    (heval : ∀ f, known f → ∃ v, eval f = .ok v) (h : raises eval .text ds = some e) :
    format eval (cs ++ ds) = .error e := by
  obtain ⟨new, hnew⟩ := scan_closed hcs heval []
  rw [format, scan_append, hnew]
  dsimp only
  rw [scan_raises h]

theorem closed_append (h : closed known mode cs) (h' : closed known .text ds) :
    closed known mode (cs ++ ds) := by
  induction cs generalizing mode with
  | nil =>
    cases mode with
    | text => exact h'
    | _ => cases h
  | cons c cs ih =>
    rw [List.cons_append, closed]
    rw [closed] at h
    cases hadv : advance mode c with
    | error e => simp [hadv] at h
    | ok p =>
      obtain ⟨mode', effect⟩ := p
      rw [hadv] at h
      cases effect with
      | nothing => exact ih h
      | emit d => exact ih h
      | field f =>
        obtain ⟨hknown, hclosed⟩ := Bool.and_eq_true_iff.mp h
        exact Bool.and_eq_true_iff.mpr ⟨hknown, ih hclosed⟩

theorem closed_of_noBrace (h : noBrace cs) : closed known .text cs := by
  induction cs with
  | nil => rfl
  | cons c cs ih =>
    simp only [noBrace, List.all_cons, Bool.and_eq_true, decide_eq_true_eq] at h
    obtain ⟨⟨hopen, hclose⟩, hcs⟩ := h
    simpa [closed, advance, hopen, hclose] using ih (by simpa [noBrace] using hcs)

theorem closed_literal {s : List Char} (h : closed known .text s) :
    closed known .text (String.ofList s).toList := by
  rwa [String.toList_ofList]

theorem format_closed (h : closed known .text cs) (heval : ∀ f, known f → ∃ v, eval f = .ok v) :
    ∃ text, format eval cs = .ok text := by
  obtain ⟨new, hnew⟩ := scan_closed h heval []
  exact ⟨_, by rw [format, hnew]⟩

theorem format_infix {t text : List Char} (hcs : closed known .text cs) (ht : noBrace t)
    (hds : closed known .text ds) (heval : ∀ f, known f → ∃ v, eval f = .ok v)
    (h : format eval (cs ++ (t ++ ds)) = .ok text) : t <:+: text := by
  obtain ⟨before, hbefore⟩ := scan_closed hcs heval []
  obtain ⟨behind, hbehind⟩ := scan_closed hds heval (t.reverse ++ (before ++ []))
  rw [format, scan_append, hbefore] at h
  dsimp only at h
  rw [scan_append, scan_noBrace ht] at h
  dsimp only at h
  rw [hbehind] at h
  cases h
  exact ⟨before.reverse, behind.reverse, by simp⟩

end AlfredProcessing.Lib.StrFormat
