import Mathlib
import AlfredProcessing.Lib.Phrases
import AlfredProcessing.Pipeline.Terminal
import AlfredProcessing.Security.SqlSafety

namespace AlfredProcessing.Defense.Sanitizer

open Lib.Effects Lib.Phrases Lib.Regex Extract.Cleaning Security.SqlSafety
open Pipeline.Context Pipeline.Phases Pipeline.Runner Pipeline.Terminal
open Lib.Phrases.Pattern (gap anyGap border opt oneOf seqs)

section Model

structure Threat where
  pattern : String
  reason : String
  deriving DecidableEq

/-- A pattern as it is written and as it is read, with its reason. -/
structure Injection where
  threat : Threat
  expr : Lib.Phrases.Pattern

def word (s : String) : Lib.Phrases.Pattern := Pattern.word s.toList

def plural (s : String) : Lib.Phrases.Pattern := .seq (word s) (opt (word "s"))

def before (s : String) : Lib.Phrases.Pattern := .seq (word s) gap

def callOf (s : String) : Lib.Phrases.Pattern := seqs [word s, anyGap, word "("]

/-- `DEFAULT_INJECTION_PATTERNS`. -/
def defaultInjectionPatterns : List Injection :=
  [⟨⟨"ignore\\s+(all\\s+)?(previous|above|prior)\\s+instructions?", "Instruction override attempt"⟩,
      seqs [before "ignore", opt (before "all"), oneOf (word "previous") [word "above", word "prior"], gap,
        plural "instruction"]⟩,
    ⟨⟨"disregard\\s+(all\\s+)?(previous|above|prior)", "Instruction override attempt"⟩,
      seqs [before "disregard", opt (before "all"), oneOf (word "previous") [word "above", word "prior"]]⟩,
    ⟨⟨"forget\\s+(everything|all|your)\\s+(instructions?|rules?|guidelines?)", "Instruction override attempt"⟩,
      seqs [before "forget", oneOf (word "everything") [word "all", word "your"], gap,
        oneOf (plural "instruction") [plural "rule", plural "guideline"]]⟩,
    ⟨⟨"you\\s+are\\s+now\\s+(a|an)\\s+", "Role hijack attempt"⟩,
      seqs [before "you", before "are", before "now", oneOf (word "a") [word "an"], gap]⟩,
    ⟨⟨"act\\s+as\\s+(if\\s+)?(you\\s+are|a|an)\\s+", "Role hijack attempt"⟩,
      seqs [before "act", before "as", opt (before "if"),
        oneOf (.seq (before "you") (word "are")) [word "a", word "an"], gap]⟩,
    ⟨⟨"pretend\\s+(you\\s+are|to\\s+be)", "Role hijack attempt"⟩,
      seqs [before "pretend", oneOf (.seq (before "you") (word "are")) [.seq (before "to") (word "be")]]⟩,
    ⟨⟨"skip\\s+(all\\s+)?permission\\s+checks?", "Permission bypass attempt"⟩,
      seqs [before "skip", opt (before "all"), before "permission", plural "check"]⟩,
    ⟨⟨"ignore\\s+permissions?", "Permission bypass attempt"⟩, .seq (before "ignore") (plural "permission")⟩,
    ⟨⟨"bypass\\s+(security|permissions?|auth)", "Security bypass attempt"⟩,
      .seq (before "bypass") (oneOf (word "security") [plural "permission", word "auth"])⟩,
    ⟨⟨"execute\\s+(raw\\s+)?sql", "SQL injection attempt"⟩,
      seqs [before "execute", opt (before "raw"), word "sql"]⟩,
    ⟨⟨"frappe\\.db\\.sql\\s*\\(", "Direct SQL call attempt"⟩, callOf "frappe.db.sql"⟩,
    ⟨⟨"import\\s+os\\b", "System access attempt"⟩, seqs [before "import", word "os", border]⟩,
    ⟨⟨"import\\s+subprocess", "System access attempt"⟩, .seq (before "import") (word "subprocess")⟩,
    ⟨⟨"__import__\\s*\\(", "Dynamic import attempt"⟩, callOf "__import__"⟩,
    ⟨⟨"eval\\s*\\(", "Code execution attempt"⟩, callOf "eval"⟩,
    ⟨⟨"exec\\s*\\(", "Code execution attempt"⟩, callOf "exec"⟩,
    ⟨⟨"system\\s*\\(", "System command attempt"⟩, callOf "system"⟩,
    ⟨⟨"rm\\s+-rf", "Destructive command attempt"⟩, .seq (before "rm") (word "-rf")⟩,
    ⟨⟨"drop\\s+table", "Database destruction attempt"⟩, .seq (before "drop") (word "table")⟩,
    ⟨⟨"delete\\s+from\\s+tab", "Direct database manipulation attempt"⟩,
      seqs [before "delete", before "from", word "tab"]⟩]

theorem not_alpha_of_space {c : Char} (h : isSpace c = true) : c.isAlpha = false :=
  (Bool.or_eq_false_iff.mp (not_alphanum_of_space h)).1

theorem toLower_of_not_alpha {c : Char} (h : c.isAlpha = false) : c.toLower = c := by
  refine Char.toLower_eq_of_not_isUpper fun hupper => ?_
  rw [Char.isAlpha, hupper] at h
  cases h

theorem foldsTo_space (c k : Char) (hc : isSpace c = true) (hk : isSpace k = false) : foldsTo c k = false := by
  have hne : c ≠ k := by
    rintro rfl
    rw [hc] at hk
    cases hk
  rw [foldsTo, toLower_of_not_alpha (not_alpha_of_space hc), decide_eq_false hne]
  simp only [isSpace, spaceCode, Bool.or_eq_true, Bool.and_eq_true, decide_eq_true_eq] at hc
  have hnone : c.toNat ≠ 0x17F ∧ c.toNat ≠ 0x212A ∧ c.toNat ≠ 0x130 ∧ c.toNat ≠ 0x131 := by omega
  simp [hnone]

variable (p : Platform)

/-- How `re.search` reads characters under `re.IGNORECASE`. -/
def reading : Reading where
  stands := foldsTo
  space := isSpace
  word c := wordChar p c && !isSpace c
  clear := foldsTo_space
  apart c hc := by rw [hc, Bool.not_true, Bool.and_false]

/-- `sanitize_prompt` without patterns of one's own. -/
def sanitizePrompt (prompt : List Char) : List Threat :=
  (defaultInjectionPatterns.filter fun i => found (i.expr.expr (reading p)) prompt).map Injection.threat

def greetingWords : List String :=
  ["hi", "hello", "hey", "yo", "hiya", "howdy", "greetings", "good morning", "good afternoon", "good evening",
    "thanks", "thank you", "thx", "ty", "ok", "okay", "sure", "yes", "no", "cool", "bye", "goodbye", "cya", "later"]

/-- `classify_intent` of the sanitizer. -/
def classifyIntent (lower : List Char → List Char) (prompt : List Char) : String :=
  let promptLower := strip (lower prompt)
  let stripped := promptLower.rdropWhile fun c => ['!', '.', '?', ','].contains c
  let mentions (keywords : List String) : Bool := keywords.any fun kw => decide (kw.toList <:+: promptLower)
  if greetingWords.any fun g => stripped = g.toList || (g.toList ++ [' ']).isPrefixOf stripped then "general_question"
  else if mentions ["create a doctype", "new doctype", "make a doctype", "build a doctype"] then "create_doctype"
  else if mentions ["modify", "change", "update", "edit", "alter"] && mentions ["doctype"] then "modify_doctype"
  else if mentions ["workflow", "approval", "approve", "state machine"] then "create_workflow"
  else if mentions ["report", "dashboard", "chart", "analytics"] then "create_report"
  else if mentions ["script", "server script", "client script", "automation"] then "create_script"
  else if mentions ["notification", "alert", "email notification", "notify"] then "create_notification"
  else if mentions ["print format", "print", "pdf"] then "create_print_format"
  else if mentions ["custom field", "add field", "new field"] then "add_custom_field"
  else if mentions ["how", "what", "why", "explain", "help", "can you", "is it possible"] then "general_question"
  else if mentions ["doctype", "field", "form", "list", "permission", "role", "module"] then "create_doctype"
  else "unknown"

/-- The result of `check_prompt`. -/
structure Check where
  allowed : Bool
  threats : List Threat
  intent : String
  needsReview : Bool
  rejectionReason : Option String

def rejection (threats : List Threat) : String :=
  "Prompt blocked by security filter: " ++ String.intercalate ", " (threats.map Threat.reason)

def checkPrompt (lower : List Char → List Char) (prompt : List Char) : Check :=
  let threats := sanitizePrompt p prompt
  if threats.isEmpty then
    let intent := classifyIntent lower prompt
    ⟨true, threats, intent, intent = "unknown", none⟩
  else ⟨false, threats, "blocked", false, some (rejection threats)⟩

def Check.answer (c : Check) : PromptCheck := ⟨c.allowed, c.needsReview, c.rejectionReason.getD ""⟩

end Model

section Search

variable {p : Platform} {c d : Char}

variable {text shown pre post : List Char} {t : Threat}

end Search

section Runs

variable {p : Platform} {lower : List Char → List Char} {env : Env} {prompt : List Char}

def unstopped (c : Ctx) : Ctx := { c with shouldStop := false, stopSignal := none }

/-- The run adds to its log only what is so, and goes no further. -/
def Adds (P : Event → Prop) (w w' : World) : Prop :=
  unstopped w'.ctx = unstopped w.ctx ∧ ∀ e ∈ w'.log, e ∈ w.log ∨ P e

/-- All that a computation adds is so, however it ends. -/
def Only (P : Event → Prop) {α : Type} (x : Run α) : Prop := Yields (fun _ => Adds P) (Adds P) x

theorem Only.pure {α : Type} {P : Event → Prop} (a : α) : Only P (Pure.pure a) := Yields.pure (fun _ => ⟨rfl, fun _ => .inl⟩) a

theorem Only.throw {α : Type} {P : Event → Prop} (e : Exc) : Only P (MonadExcept.throw e : Run α) :=
  Yields.throw fun _ => ⟨rfl, fun _ => .inl⟩

theorem Only.bind {α β : Type} {P : Event → Prop} {x : Run α} {f : α → Run β} (hx : Only P x) (hf : ∀ a, Only P (f a)) :
    Only P (x >>= f) := by
  have htrans (s t u : World) (h : Adds P s t) (h' : Adds P t u) : Adds P s u :=
    ⟨h'.1.trans h.1, fun e he => (h'.2 e he).elim (h.2 e) .inr⟩
  exact Yields.bind hx hf (fun _ => htrans) htrans

end Runs

end AlfredProcessing.Defense.Sanitizer
