import AlfredProcessing.Lib.PyRepr
import AlfredProcessing.Lib.StrFormat

namespace AlfredProcessing.Agents.BuilderPrompt

open Lib.Json Lib.PyRepr Lib.StrFormat

section Description

/-- The lines of the description of the task `generate_changeset`. -/
def generateChangesetLines : List String :=
  [
    "OUTPUT FORMAT (STRICT): Your entire Final Answer MUST be a single JSON array.",
    "Start with `[` and end with `]`. Do NOT include any prose, explanation, markdown",
    "headers (###), bullet points, or commentary before or after the JSON. Do NOT",
    "describe the schema - produce the changeset. If you only explain what exists,",
    "the task has FAILED.",
    "",
    "THINK FIRST, ACT SECOND (reasoning discipline - not in Final Answer):",
    "Before calling any tool, your very first Thought MUST begin with:",
    "  Target DocType: <the EXACT DocType name the Architect's design names>",
    "  PLAN:",
    "  1. create <doctype> '<name>' - <why, 1 line>",
    "  2. create <doctype> '<name>' - <why, 1 line>",
    "  (one line per item, maximum 6 items, no sub-bullets)",
    "Every `<doctype>` in the PLAN must either be the Target DocType from the line",
    "above or a Frappe meta-doctype (Notification, Server Script, Custom Field,",
    "Workflow, Client Script, Report). It MUST NOT be a different domain DocType",
    "just because a tool docstring or pattern template used one as an example.",
    "Then, for each item in your plan, call `lookup_doctype(<Target DocType>, layer='framework')`",
    "once to get the authoritative field list, and `lookup_pattern(<pattern name>,",
    "kind='name')` if a matching curated template exists. Only after all lookups are",
    "done do you emit the Final Answer.",
    "The plan stays in Thought: - it never leaks into Final Answer. Final Answer is",
    "raw JSON only. The plan is discipline for you, not output for the parser.",
    "",
    "TASK: Generate production-ready Frappe document definitions that can be directly",
    "inserted via frappe.get_doc(data).insert().",
    "",
    "Technical design: \x7bdesign\x7d",
    "",
    "For each item, produce the COMPLETE document definition with ALL required fields.",
    "",
    "SHAPE OF EACH ITEM (placeholders in <angle brackets> - substitute them with values",
    "from the design, NOT from these examples):",
    "",
    "Notification:",
    "  \x7b\x7b\"op\": \"create\", \"doctype\": \"Notification\", \"data\": \x7b\x7b",
    "    \"doctype\": \"Notification\",",
    "    \"name\": \"<short descriptive name>\",",
    "    \"subject\": \"<subject line, may use \x7b\x7b\x7b\x7b doc.<field> \x7d\x7d\x7d\x7d Jinja>\",",
    "    \"document_type\": \"<exact DocType name from the design>\",",
    "    \"event\": \"<New | Save | Submit | Cancel | Value Change | Days Before | Days After>\",",
    "    \"channel\": \"Email\",",
    "    \"recipients\": [\x7b\x7b\"receiver_by_document_field\": \"<link field holding the user>\"\x7d\x7d],",
    "    \"message\": \"<HTML/Jinja body>\",",
    "    \"enabled\": 1",
    "  \x7d\x7d\x7d\x7d",
    "",
    "Server Script:",
    "  \x7b\x7b\"op\": \"create\", \"doctype\": \"Server Script\", \"data\": \x7b\x7b",
    "    \"doctype\": \"Server Script\",",
    "    \"name\": \"<short descriptive name>\",",
    "    \"script_type\": \"DocType Event\",",
    "    \"reference_doctype\": \"<exact DocType name>\",",
    "    \"doctype_event\": \"<Before Insert | After Insert | Before Save | After Save | ...>\",",
    "    \"script\": \"<python body following the FKB rules (pre-bound names, no imports)>\"",
    "  \x7d\x7d\x7d\x7d",
    "",
    "Custom Field:",
    "  \x7b\x7b\"op\": \"create\", \"doctype\": \"Custom Field\", \"data\": \x7b\x7b",
    "    \"doctype\": \"Custom Field\",",
    "    \"dt\": \"<target DocType>\",",
    "    \"fieldname\": \"<snake_case>\",",
    "    \"label\": \"<Human Label>\",",
    "    \"fieldtype\": \"<Data | Link | Select | Int | ...>\"",
    "  \x7d\x7d\x7d\x7d",
    "",
    "CRITICAL RULES:",
    "- Every 'data' object MUST include 'doctype' matching the outer doctype",
    "- Include ALL mandatory fields for the document type",
    "- Mandatory field lists come from `lookup_doctype(name, layer='framework')` - verify",
    "  against the live framework schema, do NOT recall from memory",
    "- Use `lookup_doctype` to verify field names against the live site before writing",
    "  the changeset, but DO NOT narrate what you found - use it internally",
    "- Use `lookup_pattern` to retrieve canonical templates for common customization",
    "  idioms (approval notification, validation script, audit log, etc.) - adapt the",
    "  template rather than reinventing the pattern from scratch. Pattern templates",
    "  carry their own event-selection and recipient rules; follow them.",
    "- For any field/perm-touching item, call `get_doctype_context(<target>)` once to",
    "  confirm fieldnames + source tags before writing, and `get_doctype_perms(<target>)`",
    "  for role/permlevel tasks. Use `find_field(<target>, <hint>)` when a fieldname",
    "  might be a typo or partial name.",
    "- BEFORE Final Answer, call `validate_changeset` on your assembled array. Fix any",
    "  `critical` issues and re-validate (one retry only). Do not emit a Final Answer",
    "  with known critical issues - the savepoint dry-run will reject them anyway.",
    "- STAY IN THE USER'S DOMAIN: use the DocType names and field names from the design.",
    "  Never substitute a different DocType even if it would be easier to describe.",
    "",
    "FINAL ANSWER FORMAT: Raw JSON array only. No backticks, no code fences, no prose.",
    "Start with `[\x7b\x7b` and end with `\x7d\x7d]`."]

/-- `TASK_DESCRIPTIONS["generate_changeset"]["description"]`. -/
def generateChangeset : List Char :=
  List.intercalate ['\n'] (generateChangesetLines.map String.toList)

def keyChar (c : Char) : Bool := c.isLower || c.isDigit || c = '_'

/-- A field of an intent's schema, as far as the checklist reads it. The schema of the
registry asks for such a key, and for a default where the field is not required. -/
structure RegistryField where
  key : List Char
  required : Bool := false
  default : Option Value := none
  keyed : key.all keyChar
  defaulted : required || default.isSome

inductive Builder where
  | doctype
  | report
  deriving DecidableEq

/-- `_CHECKLIST_MARKER`. -/
def Builder.checklistMarker : Builder → List Char
  | .doctype => "SHAPE-DEFINING FIELDS for create_doctype".toList
  | .report => "SHAPE-DEFINING FIELDS for create_report".toList

/-- The example at the end of the checklist, with the braces doubled for `str.format`. -/
def Builder.example : Builder → List Char
  | .doctype =>
    "  \"field_defaults_meta\": \x7b\x7b".toList ++
      "\"is_submittable\": \x7b\x7b\"source\": \"default\", \"rationale\": \"...\"\x7d\x7d, ".toList ++
      "\"module\": \x7b\x7b\"source\": \"user\"\x7d\x7d\x7d\x7d".toList
  | .report =>
    "  \"field_defaults_meta\": \x7b\x7b".toList ++
      "\"report_type\": \x7b\x7b\"source\": \"default\", \"rationale\": \"...\"\x7d\x7d, ".toList ++
      "\"ref_doctype\": \x7b\x7b\"source\": \"user\"\x7d\x7d\x7d\x7d".toList

def moduleContextMarker : List Char := "MODULE CONTEXT".toList

/-- `_wrap_module_context`. -/
def wrapModuleContext (snippet : List Char) : List Char :=
  moduleContextMarker ++ " (target-module conventions - respect these ".toList ++
    "alongside the shape-defining fields above):\n".toList ++ snippet

def additionally : List Char :=
  "Additionally, emit a parallel `field_defaults_meta` dict on the ".toList ++
    "changeset item. For each field above, record whether the value came ".toList ++
    "from the user or from the registry default, and include the registry ".toList ++
    "rationale when defaulted. Example (doubled braces because this prompt ".toList ++
    "is interpolated by str.format):".toList

variable (texts : Texts)

def checklistLine (field : RegistryField) : List Char :=
  "  - ".toList ++ field.key ++
    if h : field.required then
      " (required, user-provided; if missing, leave as empty string)".toList
    else
      " (default ".toList ++ repr texts (field.default.get (by simpa [h] using field.defaulted)) ++ [')']

/-- `render_registry_checklist`. -/
def renderRegistryChecklist (b : Builder) (fields : List RegistryField) : List Char :=
  List.intercalate ['\n']
    ((b.checklistMarker ++ " (you MUST include every one of these in `data`):".toList) ::
      fields.map (checklistLine texts) ++ [[], additionally, b.example])

/-- `needle in hay`. -/
def occursIn (needle hay : List Char) : Bool := hay.tails.any needle.isPrefixOf

def separator : List Char := ['\n', '\n']

/-- `enhance_generate_changeset_description`. -/
def enhance (b : Builder) (fields : List RegistryField) (base moduleContext : List Char) : List Char :=
  let out :=
    if occursIn b.checklistMarker base then base
    else base ++ separator ++ renderRegistryChecklist texts b fields
  if !moduleContext.isEmpty && !occursIn moduleContextMarker out then
    out ++ separator ++ wrapModuleContext moduleContext
  else out

end Description

section Formatting

/-- `format_vars`. -/
structure FormatVars where
  prompt : List Char
  userContext : List Char
  requirements : List Char
  assessment : List Char
  design : List Char
  changeset : List Char
  validation : List Char

def FormatVars.lookup (vars : FormatVars) (name : List Char) : Option (List Char) :=
  if name = "prompt".toList then some vars.prompt
  else if name = "user_context".toList then some vars.userContext
  else if name = "requirements".toList then some vars.requirements
  else if name = "assessment".toList then some vars.assessment
  else if name = "design".toList then some vars.design
  else if name = "changeset".toList then some vars.changeset
  else if name = "validation".toList then some vars.validation
  else none

/-- What a field stands for. `access` does what stands behind a variable: attributes,
indices, a conversion and a specification. -/
def evalField (access : List Char → Field → Except FormatError (List Char)) (vars : FormatVars)
    (f : Field) : Except FormatError (List Char) :=
  let first := f.name.takeWhile fun c => c ≠ '.' && c ≠ '['
  if first.all Char.isDigit then .error .indexError
  else
    match vars.lookup first with
    | none => .error (.keyError first)
    | some v =>
      if f = ⟨first, none, []⟩ then .ok v else access v f

/-- The description that `build_alfred_crew` gives to the builder's task. -/
def buildDescription (texts : Texts) (access : List Char → Field → Except FormatError (List Char))
    (vars : FormatVars) (b : Builder) (fields : List RegistryField) (moduleContext : List Char) :
    Except FormatError (List Char) :=
  format (evalField access vars) (enhance texts b fields generateChangeset moduleContext)

end Formatting

section Occurrences

variable {needle a b : List Char} {c : Char}

theorem occursIn_cons (c : Char) (cs : List Char) :
    occursIn needle (c :: cs) = (needle.isPrefixOf (c :: cs) || occursIn needle cs) := by
  simp [occursIn, List.tails]

theorem isPrefixOf_append_cons (hc : c ∉ needle) :
    needle.isPrefixOf (a ++ c :: b) = needle.isPrefixOf a := by
  induction needle generalizing a with
  | nil => simp
  | cons n needle ih =>
    obtain ⟨hne, hc⟩ := not_or.mp (List.mem_cons.not.mp hc)
    cases a with
    | nil => simp [List.isPrefixOf, Ne.symm hne]
    | cons d a => simp [List.isPrefixOf, ih hc]

theorem occursIn_append_cons (hc : c ∉ needle) :
    occursIn needle (a ++ c :: b) = (occursIn needle a || occursIn needle b) := by
  induction a with
  | nil =>
    have hhead := isPrefixOf_append_cons (a := []) (b := b) hc
    rw [List.nil_append] at hhead
    rw [List.nil_append, occursIn_cons, hhead]
    simp [occursIn]
  | cons d a ih =>
    have hhead := isPrefixOf_append_cons (a := d :: a) (b := b) hc
    rw [List.cons_append] at hhead
    rw [List.cons_append, occursIn_cons, hhead, ih, occursIn_cons, Bool.or_assoc]

theorem occursIn_append_of_head {n : Char} {ns : List Char} (h : n ∉ a) :
    occursIn (n :: ns) (a ++ b) = occursIn (n :: ns) b := by
  induction a with
  | nil => rfl
  | cons d a ih =>
    obtain ⟨hne, h⟩ := not_or.mp (List.mem_cons.not.mp h)
    rw [List.cons_append, occursIn_cons, ih h]
    simp [List.isPrefixOf, hne]

theorem occursIn_of_not_mem {n : Char} {ns : List Char} (h : n ∉ a) : occursIn (n :: ns) a = false := by
  have happend : occursIn (n :: ns) (a ++ []) = occursIn (n :: ns) [] := occursIn_append_of_head h
  rw [List.append_nil] at happend
  rw [happend]
  rfl

theorem occursIn_of_append {rest : List Char} (h : occursIn needle a = false) :
    occursIn (needle ++ rest) a = false := by
  rw [occursIn, List.any_eq_false] at h ⊢
  intro tail htail hrest
  rw [List.isPrefixOf_iff_prefix] at hrest
  exact h tail htail (List.isPrefixOf_iff_prefix.mpr ((List.prefix_append needle rest).trans hrest))

theorem occursIn_lines {n : Char} {ns : List Char} (hn : '\n' ∉ n :: ns) {lines : List (List Char)}
    (h : ∀ line ∈ lines, occursIn (n :: ns) line = false) :
    occursIn (n :: ns) (List.intercalate ['\n'] lines) = false := by
  induction lines with
  | nil => rfl
  | cons line lines ih =>
    obtain ⟨hline, hlines⟩ := List.forall_mem_cons.mp h
    cases lines with
    | nil => simpa [List.intercalate] using hline
    | cons next lines =>
      have htext : List.intercalate ['\n'] (line :: next :: lines) =
          line ++ '\n' :: List.intercalate ['\n'] (next :: lines) := by
        simp [List.intercalate]
      rw [htext, occursIn_append_cons hn, hline, ih hlines]
      rfl

theorem literal_append (s t : List Char) :
    (String.ofList (s ++ t)).toList = s ++ (String.ofList t).toList := by
  rw [String.toList_ofList, String.toList_ofList]

theorem not_mem_literal {s : List Char} (h : c ∉ s) : c ∉ (String.ofList s).toList := by
  rwa [String.toList_ofList]

theorem occursIn_literals {s t : List Char} (h : occursIn needle (s ++ t) = false) :
    occursIn needle ((String.ofList s).toList ++ (String.ofList t).toList) = false := by
  rwa [String.toList_ofList, String.toList_ofList]

theorem occursIn_literal {s : List Char} (h : occursIn needle s = false) :
    occursIn needle (String.ofList s).toList = false := by
  rwa [String.toList_ofList]

end Occurrences

section Template

def designField (f : Field) : Bool := f = ⟨"design".toList, none, []⟩

theorem closed_lines {known : Field → Bool} {lines : List (List Char)}
    (h : ∀ line ∈ lines, closed known .text line) :
    closed known .text (List.intercalate ['\n'] lines) := by
  induction lines with
  | nil => rfl
  | cons line lines ih =>
    obtain ⟨hline, hlines⟩ := List.forall_mem_cons.mp h
    cases lines with
    | nil => simpa [List.intercalate] using hline
    | cons next lines =>
      have htext : List.intercalate ['\n'] (line :: next :: lines) =
          line ++ '\n' :: List.intercalate ['\n'] (next :: lines) := by
        simp [List.intercalate]
      have hbreak : closed known .text ['\n'] := closed_of_noBrace rfl
      rw [htext]
      exact closed_append hline (closed_append hbreak (ih hlines))

theorem lines_closed : ∀ line ∈ generateChangesetLines.map String.toList,
    closed designField .text line := by
  simp only [generateChangesetLines, List.map_cons, List.map_nil, List.forall_mem_cons,
    List.not_mem_nil, false_imp_iff, implies_true, and_true]
  repeat' apply And.intro
  all_goals exact closed_literal rfl

theorem closed_lines_split {known : Field → Bool} {lines : List (List Char)} {line : List Char}
    (h : ∀ line ∈ lines, closed known .text line) (hline : line ∈ lines) :
    ∃ before behind, List.intercalate ['\n'] lines = before ++ (line ++ behind) ∧
      closed known .text before ∧ closed known .text behind := by
  have hbreak : closed known .text ['\n'] := closed_of_noBrace rfl
  induction lines with
  | nil => simp at hline
  | cons first lines ih =>
    obtain ⟨hfirst, hlines⟩ := List.forall_mem_cons.mp h
    cases lines with
    | nil =>
      rw [List.mem_singleton] at hline
      subst hline
      exact ⟨[], [], by simp [List.intercalate], rfl, rfl⟩
    | cons next lines =>
      have htext : List.intercalate ['\n'] (first :: next :: lines) =
          first ++ '\n' :: List.intercalate ['\n'] (next :: lines) := by
        simp [List.intercalate]
      rcases List.mem_cons.mp hline with rfl | hline
      · exact ⟨[], _, by rw [htext]; rfl, rfl, closed_append hbreak (closed_lines hlines)⟩
      · obtain ⟨before, behind, hsplit, hbefore, hbehind⟩ := ih hlines hline
        refine ⟨first ++ (['\n'] ++ before), behind, ?_,
          closed_append hfirst (closed_append hbreak hbefore), hbehind⟩
        rw [htext, hsplit]
        simp

theorem moduleContextMarker_eq : moduleContextMarker =
    ['M', 'O', 'D', 'U', 'L', 'E', ' ', 'C', 'O', 'N', 'T', 'E', 'X', 'T'] :=
  String.toList_ofList

theorem checklistMarker_eq (b : Builder) :
    ∃ rest, b.checklistMarker = ['S', 'H', 'A', 'P', 'E', '-'] ++ rest := by
  cases b with
  | doctype => exact ⟨_, literal_append ['S', 'H', 'A', 'P', 'E', '-'] _⟩
  | report => exact ⟨_, literal_append ['S', 'H', 'A', 'P', 'E', '-'] _⟩

theorem lines_occursIn : ∀ line ∈ generateChangesetLines.map String.toList,
    occursIn ['M', 'O', 'D', 'U', 'L', 'E', ' ', 'C', 'O', 'N', 'T', 'E', 'X', 'T'] line = false ∧
      occursIn ['S', 'H', 'A', 'P', 'E', '-'] line = false := by
  simp only [generateChangesetLines, List.map_cons, List.map_nil, List.forall_mem_cons,
    List.not_mem_nil, false_imp_iff, implies_true, and_true]
  repeat' apply And.intro
  all_goals exact occursIn_literal rfl

theorem template_closed : closed designField .text generateChangeset :=
  closed_lines lines_closed

theorem template_moduleContext : occursIn moduleContextMarker generateChangeset = false := by
  rw [moduleContextMarker_eq]
  exact occursIn_lines (by decide) fun line hline => (lines_occursIn line hline).1

theorem template_checklist (b : Builder) : occursIn b.checklistMarker generateChangeset = false := by
  obtain ⟨rest, hrest⟩ := checklistMarker_eq b
  have hhead : occursIn ['S', 'H', 'A', 'P', 'E', '-'] generateChangeset = false :=
    occursIn_lines (by decide) fun line hline => (lines_occursIn line hline).2
  rw [hrest]
  exact occursIn_of_append hhead

end Template

section Checklist

variable {texts : Texts} {b : Builder} {field : RegistryField} {fields : List RegistryField}
  {moduleContext : List Char}

theorem noBrace_append {cs ds : List Char} (h : noBrace cs) (h' : noBrace ds) : noBrace (cs ++ ds) := by
  simp only [noBrace, List.all_append, Bool.and_eq_true]
  exact ⟨h, h'⟩

theorem noBrace_key : noBrace field.key := by
  rw [noBrace, List.all_eq_true]
  intro c hc
  have hkey := List.all_eq_true.mp field.keyed c hc
  rw [Bool.and_eq_true, decide_eq_true_eq, decide_eq_true_eq]
  constructor
  · rintro rfl
    exact absurd hkey (by decide)
  · rintro rfl
    exact absurd hkey (by decide)

theorem key_capital : 'M' ∉ field.key := by
  intro hmem
  exact absurd (List.all_eq_true.mp field.keyed _ hmem) (by decide)

/-- The defaults are printed, and none has a brace or hides the module context. -/
def PrintsDefaults (texts : Texts) (fields : List RegistryField) (moduleContext : List Char) : Prop :=
  ∀ field ∈ fields, ∀ v, field.default = some v →
    field.required = false ∧ noBrace (repr texts v) ∧
      (moduleContext = [] ∨ occursIn moduleContextMarker (repr texts v) = false)

theorem checklistLine_required (h : field.required = true) : checklistLine texts field =
    "  - ".toList ++ field.key ++
      " (required, user-provided; if missing, leave as empty string)".toList :=
  congrArg ("  - ".toList ++ field.key ++ ·) (dif_pos h)

theorem checklistLine_default {v : Value} (h : field.required = false) (hv : field.default = some v) :
    checklistLine texts field =
      ("  - ".toList ++ field.key ++ " (default ".toList) ++ (repr texts v ++ [')']) := by
  have hnot : ¬field.required = true := Bool.eq_false_iff.mp h
  refine (congrArg ("  - ".toList ++ field.key ++ ·) (dif_neg hnot)).trans ?_
  simp only [hv, Option.get_some, List.append_assoc]

theorem default_of_not_required (h : field.required = false) : ∃ v, field.default = some v := by
  have hdefaulted := field.defaulted
  rw [h, Bool.false_or] at hdefaulted
  exact Option.isSome_iff_exists.mp hdefaulted

theorem noBrace_literal {s : List Char} (h : noBrace s) : noBrace (String.ofList s).toList := by
  rwa [String.toList_ofList]

theorem noBrace_label : noBrace ("  - ".toList ++ field.key ++ " (default ".toList) :=
  noBrace_append (noBrace_append (noBrace_literal rfl) noBrace_key)
    (noBrace_literal rfl)

theorem checklistLine_noBrace (h : PrintsDefaults texts fields moduleContext) (hmem : field ∈ fields) :
    noBrace (checklistLine texts field) := by
  cases hrequired : field.required with
  | true =>
    rw [checklistLine_required hrequired]
    exact noBrace_append (noBrace_append (noBrace_literal rfl) noBrace_key)
      (noBrace_literal rfl)
  | false =>
    obtain ⟨v, hv⟩ := default_of_not_required hrequired
    rw [checklistLine_default hrequired hv]
    exact noBrace_append noBrace_label (noBrace_append (h field hmem v hv).2.1 rfl)

def checklistLines (texts : Texts) (b : Builder) (fields : List RegistryField) : List (List Char) :=
  (b.checklistMarker ++ " (you MUST include every one of these in `data`):".toList) ::
    fields.map (checklistLine texts) ++ [[], additionally, b.example]

theorem header_closed : closed designField .text
    (b.checklistMarker ++ " (you MUST include every one of these in `data`):".toList) := by
  refine closed_append ?_ (closed_literal rfl)
  cases b with
  | doctype => exact closed_literal rfl
  | report => exact closed_literal rfl

theorem additionally_closed : closed designField .text additionally := by
  refine closed_append (closed_append (closed_append (closed_append ?_ ?_) ?_) ?_) ?_
  all_goals exact closed_literal rfl

theorem example_closed : closed designField .text b.example := by
  cases b with
  | doctype =>
    refine closed_append (closed_append ?_ ?_) ?_
    all_goals exact closed_literal rfl
  | report =>
    refine closed_append (closed_append ?_ ?_) ?_
    all_goals exact closed_literal rfl

theorem checklistLines_closed (h : PrintsDefaults texts fields moduleContext) :
    ∀ line ∈ checklistLines texts b fields, closed designField .text line := by
  intro line hline
  simp only [checklistLines, List.cons_append, List.mem_cons, List.mem_append, List.mem_map,
    List.not_mem_nil, or_false] at hline
  rcases hline with rfl | ⟨field, hmem, rfl⟩ | rfl | rfl | rfl
  · exact header_closed
  · exact closed_of_noBrace (checklistLine_noBrace h hmem)
  · rfl
  · exact additionally_closed
  · exact example_closed

theorem header_moduleContext : occursIn moduleContextMarker
    (b.checklistMarker ++ " (you MUST include every one of these in `data`):".toList) = false := by
  rw [moduleContextMarker_eq]
  cases b with
  | doctype => exact occursIn_literals rfl
  | report => exact occursIn_literals rfl

theorem additionally_capital : 'M' ∉ additionally := by
  refine List.not_mem_append (List.not_mem_append (List.not_mem_append (List.not_mem_append ?_ ?_) ?_) ?_) ?_
  all_goals exact not_mem_literal (by decide)

theorem example_capital : 'M' ∉ b.example := by
  cases b with
  | doctype =>
    refine List.not_mem_append (List.not_mem_append ?_ ?_) ?_
    all_goals exact not_mem_literal (by decide)
  | report =>
    refine List.not_mem_append (List.not_mem_append ?_ ?_) ?_
    all_goals exact not_mem_literal (by decide)

theorem checklistLine_moduleContext (h : PrintsDefaults texts fields moduleContext)
    (hcontext : moduleContext ≠ []) (hmem : field ∈ fields) :
    occursIn moduleContextMarker (checklistLine texts field) = false := by
  have hbullet : 'M' ∉ "  - ".toList ++ field.key :=
    List.not_mem_append (not_mem_literal (by decide)) key_capital
  rw [moduleContextMarker_eq]
  cases hrequired : field.required with
  | true =>
    rw [checklistLine_required hrequired]
    exact occursIn_of_not_mem (List.not_mem_append hbullet (not_mem_literal (by decide)))
  | false =>
    obtain ⟨v, hv⟩ := default_of_not_required hrequired
    obtain ⟨-, -, hhidden⟩ := h field hmem v hv
    have hrepr := hhidden.resolve_left hcontext
    rw [moduleContextMarker_eq] at hrepr
    rw [checklistLine_default hrequired hv,
      occursIn_append_of_head (List.not_mem_append hbullet (not_mem_literal (by decide))),
      occursIn_append_cons (by decide), hrepr]
    rfl

theorem checklistLines_moduleContext (h : PrintsDefaults texts fields moduleContext)
    (hcontext : moduleContext ≠ []) :
    ∀ line ∈ checklistLines texts b fields, occursIn moduleContextMarker line = false := by
  intro line hline
  simp only [checklistLines, List.cons_append, List.mem_cons, List.mem_append, List.mem_map,
    List.not_mem_nil, or_false] at hline
  rcases hline with rfl | ⟨field, hmem, rfl⟩ | rfl | rfl | rfl
  · exact header_moduleContext
  · exact checklistLine_moduleContext h hcontext hmem
  · rw [moduleContextMarker_eq]
    rfl
  · rw [moduleContextMarker_eq]
    exact occursIn_of_not_mem additionally_capital
  · rw [moduleContextMarker_eq]
    exact occursIn_of_not_mem example_capital

def withChecklist (texts : Texts) (b : Builder) (fields : List RegistryField) : List Char :=
  generateChangeset ++ separator ++ List.intercalate ['\n'] (checklistLines texts b fields)

theorem withChecklist_moduleContext (h : PrintsDefaults texts fields moduleContext)
    (hcontext : moduleContext ≠ []) :
    occursIn moduleContextMarker (withChecklist texts b fields) = false := by
  have htemplate := template_moduleContext
  have hlines := checklistLines_moduleContext (b := b) h hcontext
  rw [moduleContextMarker_eq] at htemplate hlines ⊢
  have htext : withChecklist texts b fields = generateChangeset ++
      '\n' :: ([] ++ '\n' :: List.intercalate ['\n'] (checklistLines texts b fields)) := by
    simp [withChecklist, separator]
  rw [htext, occursIn_append_cons (by decide), occursIn_append_cons (by decide), htemplate,
    occursIn_lines (by decide) hlines]
  rfl

theorem enhance_eq (h : PrintsDefaults texts fields moduleContext) :
    enhance texts b fields generateChangeset moduleContext = withChecklist texts b fields ++
      if moduleContext = [] then [] else separator ++ wrapModuleContext moduleContext := by
  have hchecklist : generateChangeset ++ separator ++ renderRegistryChecklist texts b fields =
      withChecklist texts b fields := rfl
  rw [enhance, template_checklist]
  simp only [Bool.false_eq_true, if_false, hchecklist]
  by_cases hcontext : moduleContext = []
  · simp [hcontext]
  · rw [withChecklist_moduleContext h hcontext, if_neg hcontext]
    simp [hcontext]

theorem enhance_prefixed : ∃ tail,
    enhance texts b fields generateChangeset moduleContext = withChecklist texts b fields ++ tail := by
  have hchecklist : generateChangeset ++ separator ++ renderRegistryChecklist texts b fields =
      withChecklist texts b fields := rfl
  rw [enhance, template_checklist]
  simp only [Bool.false_eq_true, if_false, hchecklist]
  split
  · exact ⟨separator ++ wrapModuleContext moduleContext, List.append_assoc ..⟩
  · exact ⟨[], (List.append_nil _).symm⟩

theorem lines_front (front : List (List Char)) (line : List Char) (back : List (List Char)) :
    ∃ behind, List.intercalate ['\n'] (front ++ line :: back) =
      List.intercalate ['\n'] (front ++ [[]]) ++ (line ++ behind) := by
  induction front with
  | nil =>
    cases back with
    | nil => exact ⟨[], by simp [List.intercalate]⟩
    | cons next back =>
      exact ⟨'\n' :: List.intercalate ['\n'] (next :: back), by simp [List.intercalate]⟩
  | cons first front ih =>
    obtain ⟨behind, hbehind⟩ := ih
    refine ⟨behind, ?_⟩
    have hbreak (lines : List (List Char)) (hlines : lines ≠ []) :
        List.intercalate ['\n'] (first :: lines) =
          first ++ '\n' :: List.intercalate ['\n'] lines := by
      cases lines with
      | nil => exact absurd rfl hlines
      | cons next lines => simp [List.intercalate]
    rw [List.cons_append, List.cons_append, hbreak _ (by simp), hbreak _ (by simp), hbehind]
    simp only [List.append_assoc, List.cons_append]

theorem withChecklist_split (h : PrintsDefaults texts fields moduleContext) (hmem : field ∈ fields)
    {v : Value} (hv : field.default = some v) :
    ∃ before behind, withChecklist texts b fields = before ++ (repr texts v ++ behind) ∧
      closed designField .text before ∧ closed designField .text behind := by
  obtain ⟨hrequired, -, -⟩ := h field hmem v hv
  have hline : checklistLine texts field ∈ checklistLines texts b fields := by
    simp only [checklistLines, List.cons_append, List.mem_cons, List.mem_append]
    exact Or.inr (Or.inl (List.mem_map_of_mem hmem))
  obtain ⟨before, behind, hsplit, hbefore, hbehind⟩ :=
    closed_lines_split (checklistLines_closed h) hline
  rw [checklistLine_default hrequired hv] at hsplit
  refine ⟨generateChangeset ++ separator ++
    (before ++ ("  - ".toList ++ field.key ++ " (default ".toList)), [')'] ++ behind, ?_, ?_, ?_⟩
  · rw [withChecklist, hsplit]
    simp only [List.append_assoc]
  · exact closed_append (closed_append template_closed (closed_of_noBrace rfl))
      (closed_append hbefore (closed_of_noBrace noBrace_label))
  · exact closed_append (closed_of_noBrace rfl) hbehind

theorem withChecklist_closed (h : PrintsDefaults texts fields moduleContext) :
    closed designField .text (withChecklist texts b fields) :=
  closed_append (closed_append template_closed (closed_of_noBrace rfl))
    (closed_lines (checklistLines_closed h))

theorem wrapModuleContext_eq (snippet : List Char) : wrapModuleContext snippet =
    wrapModuleContext [] ++ snippet := by
  rw [wrapModuleContext, wrapModuleContext, List.append_nil]

theorem wrapping_closed : closed designField .text (separator ++ wrapModuleContext []) := by
  refine closed_append (closed_of_noBrace rfl) (closed_append (closed_append (closed_append ?_ ?_) ?_) rfl)
  all_goals exact closed_literal rfl

theorem tail_closed (h : noBrace moduleContext) : closed designField .text
    (if moduleContext = [] then [] else separator ++ wrapModuleContext moduleContext) := by
  by_cases hcontext : moduleContext = []
  · rw [if_pos hcontext]
    rfl
  · rw [if_neg hcontext, wrapModuleContext_eq, ← List.append_assoc]
    exact closed_append wrapping_closed (closed_of_noBrace h)

end Checklist

section Builds

variable {texts : Texts} {access : List Char → Field → Except FormatError (List Char)}
  {vars : FormatVars} {b : Builder} {fields : List RegistryField} {moduleContext : List Char}

theorem lookup_design : vars.lookup "design".toList = some vars.design := by
  simp [FormatVars.lookup]

theorem evalField_design (f : Field) (h : designField f) : ∃ v, evalField access vars f = .ok v := by
  obtain rfl := of_decide_eq_true h
  have hname : "design".toList = ['d', 'e', 's', 'i', 'g', 'n'] := String.toList_ofList
  have hfirst : ("design".toList.takeWhile fun c => c ≠ '.' && c ≠ '[') = "design".toList := by
    rw [hname]
    rfl
  have hdigit : "design".toList.all Char.isDigit = false := by
    rw [hname]
    rfl
  refine ⟨vars.design, ?_⟩
  rw [evalField]
  simp only [hfirst, hdigit, lookup_design, Bool.false_eq_true, if_false, if_true]

/-- Without braces in the defaults and in the module context the description is built, and
it has the module context and every default in it. -/
theorem buildDescription_verbatim (access : List Char → Field → Except FormatError (List Char))
    (vars : FormatVars) (b : Builder) (hcontext : noBrace moduleContext)
    (h : PrintsDefaults texts fields moduleContext) :
    ∃ text, buildDescription texts access vars b fields moduleContext = .ok text ∧
      moduleContext <:+: text ∧
      ∀ field ∈ fields, ∀ v, field.default = some v → repr texts v <:+: text := by
  have heval : ∀ f, designField f → ∃ v, evalField access vars f = .ok v := evalField_design
  have hclosed := closed_append (withChecklist_closed (b := b) h) (tail_closed hcontext)
  rw [← enhance_eq h] at hclosed
  obtain ⟨text, htext⟩ := format_closed hclosed heval
  refine ⟨text, htext, ?_, ?_⟩
  · by_cases hempty : moduleContext = []
    · rw [hempty]
      exact List.nil_infix
    · have hsplit : enhance texts b fields generateChangeset moduleContext =
          (withChecklist texts b fields ++ (separator ++ wrapModuleContext [])) ++
            (moduleContext ++ []) := by
        rw [enhance_eq h, if_neg hempty, wrapModuleContext_eq]
        simp only [List.append_assoc, List.append_nil]
      rw [hsplit] at htext
      exact format_infix (closed_append (withChecklist_closed h) wrapping_closed) hcontext rfl heval htext
  · intro field hmem v hv
    obtain ⟨before, behind, hsplit, hbefore, hbehind⟩ := withChecklist_split (b := b) h hmem hv
    have hwhole : enhance texts b fields generateChangeset moduleContext =
        before ++ (repr texts v ++ (behind ++
          if moduleContext = [] then [] else separator ++ wrapModuleContext moduleContext)) := by
      rw [enhance_eq h, hsplit]
      simp only [List.append_assoc]
    rw [hwhole] at htext
    exact format_infix hbefore (h field hmem v hv).2.1
      (closed_append hbehind (tail_closed hcontext)) heval htext

theorem buildDescription_raises {front back : List RegistryField} {field : RegistryField} {v : Value}
    {e : FormatError} (hfront : PrintsDefaults texts front moduleContext)
    (hrequired : field.required = false) (hv : field.default = some v)
    (h : raises (evalField access vars) .text (repr texts v) = some e) :
    buildDescription texts access vars b (front ++ field :: back) moduleContext = .error e := by
  obtain ⟨tail, htail⟩ : ∃ tail,
      enhance texts b (front ++ field :: back) generateChangeset moduleContext = _ ++ tail :=
    enhance_prefixed
  have hlines : checklistLines texts b (front ++ field :: back) =
      ((b.checklistMarker ++ " (you MUST include every one of these in `data`):".toList) ::
          front.map (checklistLine texts)) ++ checklistLine texts field ::
        (back.map (checklistLine texts) ++ [[], additionally, b.example]) := by
    simp [checklistLines]
  obtain ⟨behind, hbehind⟩ := lines_front
    ((b.checklistMarker ++ " (you MUST include every one of these in `data`):".toList) ::
      front.map (checklistLine texts)) (checklistLine texts field)
    (back.map (checklistLine texts) ++ [[], additionally, b.example])
  have hbefore : closed designField .text (List.intercalate ['\n']
      (((b.checklistMarker ++ " (you MUST include every one of these in `data`):".toList) ::
        front.map (checklistLine texts)) ++ [[]])) := by
    refine closed_lines fun line hline => ?_
    simp only [List.cons_append, List.mem_cons, List.mem_append, List.mem_map,
      List.not_mem_nil, or_false] at hline
    rcases hline with rfl | ⟨field, hmem, rfl⟩ | rfl
    · exact header_closed
    · exact closed_of_noBrace (checklistLine_noBrace hfront hmem)
    · rfl
  have hwhole : enhance texts b (front ++ field :: back) generateChangeset moduleContext =
      ((generateChangeset ++ separator) ++ (List.intercalate ['\n']
        (((b.checklistMarker ++ " (you MUST include every one of these in `data`):".toList) ::
          front.map (checklistLine texts)) ++ [[]]) ++
        ("  - ".toList ++ field.key ++ " (default ".toList))) ++
        (repr texts v ++ ([')'] ++ behind ++ tail)) := by
    rw [htail, withChecklist, hlines, hbehind, checklistLine_default hrequired hv]
    simp only [List.append_assoc]
  rw [buildDescription, hwhole]
  exact format_raises
    (closed_append (closed_append template_closed (closed_of_noBrace rfl))
      (closed_append hbefore (closed_of_noBrace noBrace_label)))
    evalField_design (raises_append h)

end Builds

section Registry

theorem keyed_literal {s : List Char} (h : s.all keyChar) : (String.ofList s).toList.all keyChar := by
  rwa [String.toList_ofList]

/-- The fields of `create_report.json`. -/
def createReport : List RegistryField :=
  [
    { key := "ref_doctype".toList, required := true,
      keyed := keyed_literal rfl, defaulted := rfl },
    { key := "report_type".toList, default := some (.str (str "Report Builder")),
      keyed := keyed_literal rfl, defaulted := rfl },
    { key := "is_standard".toList, default := some (.int 0),
      keyed := keyed_literal rfl, defaulted := rfl },
    { key := "module".toList, required := true,
      keyed := keyed_literal rfl, defaulted := rfl }]

/-- The fields of `create_doctype.json` before the permissions. -/
def createDoctypeFront : List RegistryField :=
  [
    { key := "module".toList, required := true,
      keyed := keyed_literal rfl, defaulted := rfl },
    { key := "is_submittable".toList, default := some (.int 0),
      keyed := keyed_literal rfl, defaulted := rfl },
    { key := "autoname".toList, default := some (.str (str "autoincrement")),
      keyed := keyed_literal rfl, defaulted := rfl },
    { key := "istable".toList, default := some (.int 0),
      keyed := keyed_literal rfl, defaulted := rfl },
    { key := "issingle".toList, default := some (.int 0),
      keyed := keyed_literal rfl, defaulted := rfl }]

def permissionsDefault : Value :=
  .list
    [.dict
      [(str "role", .str (str "System Manager")), (str "read", .int 1), (str "write", .int 1),
        (str "create", .int 1), (str "delete", .int 1)] .none]

def permissionsField : RegistryField where
  key := "permissions".toList
  default := some permissionsDefault
  keyed := keyed_literal rfl
  defaulted := rfl

/-- The fields of `create_doctype.json`. -/
def createDoctype : List RegistryField := createDoctypeFront ++ [permissionsField]

def asciiTexts : Texts where
  printable _ := false
  float _ _ := []
  other _ _ := []

def firstRun (prompt : List Char) : FormatVars where
  prompt := prompt
  userContext := "\x7b\x7d".toList
  requirements := "Not yet gathered".toList
  assessment := "Not yet assessed".toList
  design := "Not yet designed".toList
  changeset := "Not yet generated".toList
  validation := "Not yet validated".toList

theorem createReport_prints :
    PrintsDefaults asciiTexts createReport "Selling: name invoices with a series.".toList := by
  intro field hmem v hv
  simp only [createReport, List.mem_cons, List.not_mem_nil, or_false] at hmem
  rcases hmem with rfl | rfl | rfl | rfl
  · cases hv
  · cases hv
    exact ⟨rfl, by decide, Or.inr (by decide)⟩
  · cases hv
    exact ⟨rfl, by decide, Or.inr (by decide)⟩
  · cases hv

theorem createDoctypeFront_prints : PrintsDefaults asciiTexts createDoctypeFront [] := by
  intro field hmem v hv
  simp only [createDoctypeFront, List.mem_cons, List.not_mem_nil, or_false] at hmem
  rcases hmem with rfl | rfl | rfl | rfl | rfl
  · cases hv
  all_goals
    cases hv
    exact ⟨rfl, by decide, Or.inl rfl⟩

theorem buildDescription_verbatim_report :
    ∃ text, buildDescription asciiTexts (fun _ _ => .error .fieldError)
        (firstRun "sales by month".toList) .report createReport
        "Selling: name invoices with a series.".toList = .ok text ∧
      "Selling: name invoices with a series.".toList <:+: text ∧
      ∀ field ∈ createReport, ∀ v, field.default = some v → repr asciiTexts v <:+: text :=
  buildDescription_verbatim _ _ _ (noBrace_literal rfl) createReport_prints

/-- Every new DocType has the rights of a role among its defaults, and `str.format` takes
them for a field. -/
theorem buildDescription_permissions :
    buildDescription asciiTexts (fun _ _ => .error .fieldError)
        (firstRun "create a DocType for tool loans".toList) .doctype createDoctype [] =
      .error (.keyError "'role'".toList) :=
  buildDescription_raises createDoctypeFront_prints rfl rfl (by decide)

end Registry

end AlfredProcessing.Agents.BuilderPrompt
