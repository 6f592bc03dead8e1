import AlfredProcessing.Lib.Nesting
import AlfredProcessing.Tools.CodeValidation

namespace AlfredProcessing.Tools.JsSyntax

open Lib.Nesting CodeValidation

section Model

inductive Bracket where
  | round
  | square
  | curly
  deriving DecidableEq

def Bracket.openChar : Bracket → Char
  | .round => '('
  | .square => '['
  | .curly => '{'

def Bracket.closeChar : Bracket → Char
  | .round => ')'
  | .square => ']'
  | .curly => '}'

def bracketOf (char : Char) : Option (Token Bracket) :=
  match [Bracket.round, .square, .curly].find? fun b => b.openChar = char with
  | some b => some (.opening b)
  | none => ([Bracket.round, .square, .curly].find? fun b => b.closeChar = char).map .closing

/-- `code[:i].count("\n") + 1`. -/
def lineAt (code : List Char) (i : Nat) : Nat := (code.take i).count '\n' + 1

structure Progress where
  stack : List (Bracket × Nat) := []
  errors : List Flaw := []

def unmatched (char : Char) : List Char := "Unmatched closing '".toList ++ char :: "'".toList

def mismatched (openChar char : Char) : List Char :=
  "Mismatched brackets: '".toList ++ openChar :: "' and '".toList ++ char :: "'".toList

def unclosed (openChar : Char) : List Char := "Unclosed '".toList ++ openChar :: "'".toList

variable (code : List Char)

/-- The body of the loop over the characters. -/
def visit (s : Progress) (e : Char × Nat) : Progress :=
  match bracketOf e.1 with
  | none => s
  | some (.opening b) => { s with stack := (b, e.2) :: s.stack }
  | some (.closing b) =>
    match s.stack with
    | [] => { s with errors := s.errors ++ [⟨"syntax_error", unmatched e.1, some (lineAt code e.2)⟩] }
    | (b', _) :: stack =>
      if b' = b then { s with stack := stack }
      else
        { stack := stack
          errors := s.errors ++ [⟨"syntax_error", mismatched b'.openChar e.1, some (lineAt code e.2)⟩] }

/-- `validate_js_syntax`: the errors that are found. The stack is read from its bottom. -/
def validateJsSyntax : List Flaw :=
  let s := code.zipIdx.foldl (visit code) {}
  s.errors ++ s.stack.reverse.map fun e => ⟨"syntax_error", unclosed e.1.openChar, some (lineAt code e.2)⟩

def brackets : List (Token Bracket) := code.filterMap bracketOf

end Model

section Acceptance

variable {code : List Char} {s : Progress}

theorem errors_visit (s : Progress) (e : Char × Nat) : s.errors <+: (visit code s e).errors := by
  unfold visit
  split
  · exact List.prefix_rfl
  · exact List.prefix_rfl
  · split
    · exact List.prefix_append _ _
    · split_ifs
      · exact List.prefix_rfl
      · exact List.prefix_append _ _

theorem errors_foldl (es : List (Char × Nat)) (s : Progress) : s.errors <+: (es.foldl (visit code) s).errors := by
  induction es generalizing s with
  | nil => exact List.prefix_rfl
  | cons e es ih => exact (errors_visit s e).trans (ih _)

theorem not_accepted (es : List (Char × Nat)) (h : s.errors ≠ []) :
    ¬((es.foldl (visit code) s).errors = [] ∧ (es.foldl (visit code) s).stack = []) := by
  rintro ⟨hnil, -⟩
  have hprefix : s.errors <+: (es.foldl (visit code) s).errors := errors_foldl es s
  rw [hnil] at hprefix
  exact h (List.prefix_nil.mp hprefix)

section Closing

variable {e : Char × Nat} {b : Bracket} {top : Bracket × Nat} {stack : List (Bracket × Nat)}

theorem visit_closing (hb : bracketOf e.1 = some (.closing b)) (hstack : s.stack = top :: stack) (hsame : top.1 = b) :
    visit code s e = { s with stack := stack } := by
  rw [visit, hb, hstack]
  exact if_pos hsame

theorem errors_unmatched (hb : bracketOf e.1 = some (.closing b)) (hstack : s.stack = []) :
    (visit code s e).errors ≠ [] := by
  rw [visit, hb, hstack]
  exact List.append_ne_nil_of_right_ne_nil _ (List.cons_ne_nil _ _)

theorem errors_mismatched (hb : bracketOf e.1 = some (.closing b)) (hstack : s.stack = top :: stack)
    (hother : top.1 ≠ b) : (visit code s e).errors ≠ [] := by
  rw [visit, hb, hstack]
  dsimp only
  rw [if_neg hother]
  exact List.append_ne_nil_of_right_ne_nil _ (List.cons_ne_nil _ _)

end Closing

theorem accepts_foldl (es : List (Char × Nat)) (hs : s.errors = []) :
    (es.foldl (visit code) s).errors = [] ∧ (es.foldl (visit code) s).stack = [] ↔
      accepts (s.stack.map Prod.fst) ((es.map Prod.fst).filterMap bracketOf) = true := by
  induction es generalizing s with
  | nil =>
    cases h : s.stack with
    | nil => simp [hs, h, accepts]
    | cons b stack => simp [h, accepts]
  | cons e es ih =>
    rw [List.foldl_cons, List.map_cons]
    cases hb : bracketOf e.1 with
    | none =>
      have hvisit : visit code s e = s := by rw [visit, hb]
      rw [hvisit, List.filterMap_cons_none hb]
      exact ih hs
    | some token =>
      rw [List.filterMap_cons_some hb]
      cases token with
      | opening b =>
        have hvisit : visit code s e = { s with stack := (b, e.2) :: s.stack } := by rw [visit, hb]
        rw [hvisit, accepts]
        exact ih hs
      | closing b =>
        cases hstack : s.stack with
        | nil =>
          rw [List.map_nil, accepts]
          exact iff_of_false (not_accepted es (errors_unmatched hb hstack)) Bool.false_ne_true
        | cons top stack =>
          rw [List.map_cons, accepts, Bool.and_eq_true, decide_eq_true_iff]
          by_cases hsame : top.1 = b
          · rw [visit_closing hb hstack hsame, and_iff_right hsame]
            exact ih hs
          · exact iff_of_false (not_accepted es (errors_mismatched hb hstack hsame)) fun h => hsame h.1

/-- A script is found valid just when its brackets, those in its strings and comments among them, are nested. -/
theorem validateJsSyntax_iff (code : List Char) : validateJsSyntax code = [] ↔ Nested (brackets code) := by
  unfold validateJsSyntax
  rw [List.append_eq_nil_iff, List.map_eq_nil_iff, List.reverse_eq_nil_iff, accepts_foldl _ rfl, List.zipIdx_map_fst]
  exact accepts_iff

end Acceptance

end AlfredProcessing.Tools.JsSyntax
