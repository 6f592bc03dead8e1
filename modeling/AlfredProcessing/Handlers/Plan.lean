import AlfredProcessing.Agents.Condenser
import AlfredProcessing.Agents.NoteMerging
import AlfredProcessing.Extract.RoundTrip
import AlfredProcessing.Pipeline.MarkerRoundTrip
import AlfredProcessing.State.ConversationMemory

namespace AlfredProcessing.Handlers.Plan

open Lib.Json Lib.JsonText Extract.Changes Extract.Cleaning
open Agents.NoteMerging (stripCodeFences)
open Agents.Condenser (strip_strip strip_eq_self loads_some)
open Orchestrator.Classify (splitlines fenceMark lineBreak)
open Pipeline.HandoffQuery (loads)
open Pipeline.MarkerRoundTrip (object_braces)

section Model

structure PlanStep where
  order : Int
  action : Str
  rationale : Str
  doctype : Option Str

structure PlanDoc where
  title : Str
  summary : Str
  steps : List PlanStep := []
  doctypesTouched : List Str := []
  risks : List Str := []
  openQuestions : List Str := []
  estimatedItems : Int := 0
  parseFailed : Bool := false
  parseFailureDetail : Option Str := none

def nullable : Option Str → Value
  | none => .null
  | some s => .str s

def strings (xs : List Str) : Value := .list (xs.map .str)

/-- `model_dump` of a step. -/
def PlanStep.modelDump (s : PlanStep) : Dict :=
  [(str "order", .int s.order), (str "action", .str s.action), (str "rationale", .str s.rationale),
    (str "doctype", nullable s.doctype)]

/-- `model_dump`. -/
def PlanDoc.modelDump (p : PlanDoc) : Dict :=
  [(str "title", .str p.title), (str "summary", .str p.summary),
    (str "steps", .list (p.steps.map fun s => .dict s.modelDump .none)),
    (str "doctypes_touched", strings p.doctypesTouched), (str "risks", strings p.risks),
    (str "open_questions", strings p.openQuestions), (str "estimated_items", .int p.estimatedItems),
    (str "parse_failed", .bool p.parseFailed), (str "parse_failure_detail", nullable p.parseFailureDetail)]

/-- What a plan is read with: the texts on which `json` meets its limit on digits or on depth, which
is no `JSONDecodeError`, `json.dumps`, which writes ASCII, what `pydantic` makes of the value of a field of each
type, and the text of its error. A value that has the type of its field is read as it is, but for a text that holds
a lone surrogate, of which nothing is said. -/
structure Reader where
  overruns : List Char → Bool
  dumps : Dict → Str
  string : Value → Option Str
  int : Value → Option Int
  bool : Value → Option Bool
  explain : Dict → Str
  dumps_ascii : ∀ o, ∀ c ∈ dumps o, c < 128
  string_eq : ∀ v s, string v = some s → v = .str s
  string_str : ∀ s, (∀ c ∈ s, c.isValidChar) → string (.str s) = some s
  int_int : ∀ n, int (.int n) = some n
  bool_bool : ∀ b, bool (.bool b) = some b

section Schema

variable {α : Type}

def required (read : Value → Option α) (key : String) (d : Dict) : Option α := (get (str key) d).bind read

def optional (read : Value → Option α) (default : α) (key : String) (d : Dict) : Option α :=
  match get (str key) d with
  | none => some default
  | some v => read v

def listOf (read : Value → Option α) : Value → Option (List α)
  | .list xs => xs.mapM read
  | _ => none

def orNone (read : Value → Option α) : Value → Option (Option α)
  | .null => some none
  | v => (read v).map some

end Schema

variable (r : Reader)

/-- `PlanStep.model_validate`. -/
def PlanStep.modelValidate (v : Value) : Option PlanStep := do
  let d ← asDict v
  let order ← required r.int "order" d
  let action ← required r.string "action" d
  let rationale ← optional r.string [] "rationale" d
  let doctype ← optional (orNone r.string) none "doctype" d
  return { order, action, rationale, doctype }

/-- `PlanDoc.model_validate`, none where it raises. -/
def PlanDoc.modelValidate (d : Dict) : Option PlanDoc := do
  let title ← required r.string "title" d
  let summary ← required r.string "summary" d
  let steps ← optional (listOf (PlanStep.modelValidate r)) [] "steps" d
  let doctypesTouched ← optional (listOf r.string) [] "doctypes_touched" d
  let risks ← optional (listOf r.string) [] "risks" d
  let openQuestions ← optional (listOf r.string) [] "open_questions" d
  let estimatedItems ← optional r.int 0 "estimated_items" d
  let parseFailed ← optional r.bool false "parse_failed" d
  let parseFailureDetail ← optional (orNone r.string) none "parse_failure_detail" d
  return {
    title, summary, steps, doctypesTouched, risks, openQuestions, estimatedItems, parseFailed, parseFailureDetail }

/-- `PlanDoc.stub`: the plan is built through the schema, none where that raises. -/
def PlanDoc.stub (title summary : Str) (parseFailed : Bool) (parseFailureDetail : Option Str) : Option PlanDoc :=
  PlanDoc.modelValidate r [
    (str "title", .str title),
    (str "summary", .str (if summary.isEmpty then str "No plan could be generated." else summary)),
    (str "parse_failed", .bool parseFailed),
    (str "parse_failure_detail", nullable parseFailureDetail)]

/-- What comes of looking for an object in a text. -/
inductive Parsed where
  | object (o : Dict)
  | unreadable
  | raised

def objectAt (cs : List Char) : Option Dict :=
  match rawDecode cs with
  | some (.dict o _, _) => some o
  | _ => none

def objectOf (cs : List Char) : Option Dict :=
  match loads cs with
  | some (.dict o _) => some o
  | _ => none

def scanForObject : List Char → Parsed
  | [] => .unreadable
  | c :: cs =>
    if c = '{' then
      if r.overruns (c :: cs) then .raised
      else
        match objectAt (c :: cs) with
        | some o => .object o
        | none => scanForObject cs
    else scanForObject cs

/-- `_parse_plan_doc_json`. -/
def parsePlanDocJson (raw : List Char) : Parsed :=
  if raw.isEmpty then .unreadable
  else
    let cleaned := stripCodeFences raw
    if r.overruns cleaned then .raised
    else
      match objectOf cleaned with
      | some o => .object o
      | none => scanForObject r cleaned

/-- The placeholder for an object that is no plan. Its questions are set behind the schema's check. -/
def invalid (o : Dict) : Option PlanDoc := do
  let preview := (r.dumps o).take 500
  let stub ← PlanDoc.stub r (str "Plan could not be parsed")
    (str ("The planning agent produced output but it didn't match the expected shape. Try rephrasing your request, " ++
      "or switch to Dev mode if you want to go straight to a build."))
    true
    (some (if preview.isEmpty then str "Schema validation failed: " ++ r.explain o
      else str "Schema validation failed: " ++ r.explain o ++ str ". Raw output (truncated): " ++ preview))
  return if preview.isEmpty then stub
    else { stub with openQuestions := [str "Raw agent output (truncated): " ++ preview] }

/-- The plan whose dump `_validate_as_plan_doc` returns, none where it raises. -/
def validateAsPlanDoc (o : Dict) : Option PlanDoc :=
  match PlanDoc.modelValidate r o with
  | some plan => some plan
  | none => invalid r o

/-- What comes of the planning crew: building it or running it raises, it ends without being completed, with
the text of an error if there is one, or with a result. Anything else leaves the handler as an exception. -/
inductive Planning where
  | unbuilt (e : Str)
  | broke (e : Str)
  | incomplete (err : Str)
  | completed (result : List Char)
  | raised

def unbuilt (e : Str) : Option PlanDoc :=
  PlanDoc.stub r (str "Plan unavailable") (str "I couldn't spin up the planning crew just now. Try again in a moment.")
    true (some (str "Crew build failed: " ++ e))

def broke (e : Str) : Option PlanDoc :=
  PlanDoc.stub r (str "Plan crew failed")
    (str "The planning agents hit an error partway through. Try again in a moment. Details: " ++ e)
    true (some (str "Plan crew raised: " ++ e))

def incomplete (err : Str) : Option PlanDoc :=
  PlanDoc.stub r (str "Plan incomplete")
    (str "The planning crew didn't produce a usable plan. " ++
      if err.isEmpty then str "Try rephrasing your request." else str "Details: " ++ err)
    true (some (str "Crew status was not 'completed': " ++ if err.isEmpty then str "unknown" else err))

def unreadable (raw : List Char) : Option PlanDoc :=
  PlanDoc.stub r (str "Plan output unreadable")
    (str "The planning agents produced output but I couldn't parse it as JSON. Try rephrasing your request.")
    true (some (str "JSON parse failed. Raw output (truncated): " ++ (raw.take 500).map Char.toNat))

/-- The plan whose dump `handle_plan` returns, none where an exception leaves it. -/
def handlePlan : Planning → Option PlanDoc
  | .unbuilt e => unbuilt r e
  | .broke e => broke r e
  | .incomplete err => incomplete r err
  | .completed result =>
    match parsePlanDocJson r (strip result) with
    | .object o => validateAsPlanDoc r o
    | .unreadable => unreadable r (strip result)
    | .raised => none
  | .raised => none

def crashed : Option PlanDoc :=
  PlanDoc.stub r (str "Plan unavailable") (str "I hit an error while putting together a plan. Try again in a moment.")
    false none

/-- The plan that `_run_plan_short_circuit` sends and records, none where building the one for an exception raises,
too. -/
def planDict (planning : Planning) : Option Dict := (handlePlan r planning <|> crashed r).map PlanDoc.modelDump

end Model

section Contract

variable (r : Reader)

def firstObject (cs : List Char) : Option Dict := cs.tails.findSome? objectAt

structure Placeholder (p : PlanDoc) : Prop where
  steps : p.steps = []
  doctypesTouched : p.doctypesTouched = []
  risks : p.risks = []
  estimatedItems : p.estimatedItems = 0

def shown : Planning → Option Dict
  | .completed result => firstObject (stripCodeFences (strip result))
  | _ => none

def failure : Planning → Option PlanDoc
  | .unbuilt e => unbuilt r e
  | .broke e => broke r e
  | .incomplete err => incomplete r err
  | .completed result =>
    match firstObject (stripCodeFences (strip result)) with
    | some o => invalid r o
    | none => unreadable r (strip result)
  | .raised => none

/-- A limit of `json` is met in the result of a crew. -/
def Overrun (planning : Planning) : Prop :=
  ∃ result t, planning = .completed result ∧ t <:+ stripCodeFences (strip result) ∧ r.overruns t

/-- The plans that come of a planning crew: what the schema reads in the object that its result shows first, the
placeholder for what went wrong if there is nothing of the kind, and the one for an exception where that is not to be
had, or a limit of `json` is met. -/
inductive Wrote : Planning → PlanDoc → Prop
  | crew (planning : Planning) (o : Dict) (p : PlanDoc) (hfirst : shown planning = some o)
      (hread : PlanDoc.modelValidate r o = some p) : Wrote planning p
  | failure (planning : Planning) (p : PlanDoc) (hnone : (shown planning).bind (PlanDoc.modelValidate r) = none)
      (hfailure : failure r planning = some p) (hplaceholder : Placeholder p) : Wrote planning p
  | crashed (planning : Planning) (p : PlanDoc) (hlost : failure r planning = none ∨ Overrun r planning)
      (hcrashed : crashed r = some p) (hplaceholder : Placeholder p) : Wrote planning p

/-- The ways in which a text comes in a reply: with prose around it, or between fences. -/
inductive Wrapped (body : List Char) : List Char → Prop
  | prose (before behind : List Char) (hbefore : '{' ∉ before)
      (hfence : ¬fenceMark <+: strip (before ++ body ++ behind)) : Wrapped body (before ++ body ++ behind)
  | fenced (tag : List Char) (htag : ∀ c ∈ tag, lineBreak c = false)
      (hbody : ∀ c ∈ body, lineBreak c → c = '\n') :
      Wrapped body (fenceMark ++ tag ++ '\n' :: (body ++ '\n' :: fenceMark))

end Contract

section Schema

variable {α : Type} {r : Reader} {read : Value → Option α} {dump : α → Value} {key : String} {d : Dict} {a : α}

def ReadsBack (read : Value → Option α) (dump : α → Value) : Prop := ∀ v a, read v = some a → read (dump a) = some a

theorem string_readsBack : ReadsBack r.string .str := by
  intro v s h
  rwa [r.string_eq v s h] at h

theorem int_readsBack : ReadsBack r.int .int := fun _ n _ => r.int_int n

theorem mapM_readsBack (h : ReadsBack read dump) {vs : List Value} {as : List α} (hread : vs.mapM read = some as) :
    (as.map dump).mapM read = some as := by
  induction vs generalizing as with
  | nil =>
    cases hread
    rfl
  | cons v vs ih =>
    rw [List.mapM_cons] at hread
    obtain ⟨a, ha, hread⟩ := Option.bind_eq_some_iff.mp hread
    obtain ⟨rest, hrest, hread⟩ := Option.bind_eq_some_iff.mp hread
    cases hread
    rw [List.map_cons, List.mapM_cons, h v a ha, ih hrest]
    rfl

theorem listOf_readsBack (h : ReadsBack read dump) : ReadsBack (listOf read) fun as => .list (as.map dump) := by
  intro v as hread
  cases v with
  | list vs => exact mapM_readsBack h hread
  | _ => cases hread

theorem orNone_readsBack : ReadsBack (orNone r.string) nullable := by
  intro v s hread
  cases s with
  | none => rfl
  | some s =>
    have hstring : r.string v = some s := by
      cases v with
      | null => cases hread
      | _ =>
        obtain ⟨t, ht, hts⟩ := Option.map_eq_some_iff.mp hread
        cases hts
        exact ht
    change (r.string (.str s)).map some = some (some s)
    rw [string_readsBack v s hstring]
    rfl

theorem required_back (h : ReadsBack read dump) (hread : required read key d = some a) : read (dump a) = some a := by
  obtain ⟨v, -, hv⟩ := Option.bind_eq_some_iff.mp hread
  exact h v a hv

theorem optional_back {default : α} (h : ReadsBack read dump) (hdefault : read (dump default) = some default)
    (hread : optional read default key d = some a) : read (dump a) = some a := by
  unfold optional at hread
  cases hd : get (str key) d with
  | none =>
    rw [hd] at hread
    cases hread
    exact hdefault
  | some v =>
    rw [hd] at hread
    exact h v a hread

theorem required_of_get {v : Value} (h : get (str key) d = some v) : required read key d = read v := by
  rw [required, h, Option.bind_some]

theorem optional_of_get {default : α} {v : Value} (h : get (str key) d = some v) :
    optional read default key d = read v := by
  rw [optional, h]

theorem string_nil : r.string (.str []) = some [] := r.string_str [] fun _ h => (List.not_mem_nil h).elim

theorem step_readsBack : ReadsBack (PlanStep.modelValidate r) fun s => .dict s.modelDump .none := by
  intro v s hread
  obtain ⟨d, -, hread⟩ := Option.bind_eq_some_iff.mp hread
  obtain ⟨order, horder, hread⟩ := Option.bind_eq_some_iff.mp hread
  obtain ⟨action, haction, hread⟩ := Option.bind_eq_some_iff.mp hread
  obtain ⟨rationale, hrationale, hread⟩ := Option.bind_eq_some_iff.mp hread
  obtain ⟨doctype, hdoctype, hread⟩ := Option.bind_eq_some_iff.mp hread
  cases hread
  unfold PlanStep.modelValidate PlanStep.modelDump
  dsimp only [asDict, Option.bind_eq_bind, Option.bind_some]
  rw [required_of_get rfl, required_back int_readsBack horder, Option.bind_some, required_of_get rfl,
    required_back string_readsBack haction, Option.bind_some, optional_of_get rfl,
    optional_back string_readsBack string_nil hrationale, Option.bind_some, optional_of_get rfl,
    optional_back orNone_readsBack rfl hdoctype]
  rfl

structure PlanDoc.Lawful (r : Reader) (p : PlanDoc) : Prop where
  title : r.string (.str p.title) = some p.title
  summary : r.string (.str p.summary) = some p.summary
  steps : listOf (PlanStep.modelValidate r) (.list (p.steps.map fun s => .dict s.modelDump .none)) = some p.steps
  doctypesTouched : listOf r.string (strings p.doctypesTouched) = some p.doctypesTouched
  risks : listOf r.string (strings p.risks) = some p.risks
  openQuestions : listOf r.string (strings p.openQuestions) = some p.openQuestions
  parseFailureDetail : orNone r.string (nullable p.parseFailureDetail) = some p.parseFailureDetail

theorem lawful_of_modelValidate {o : Dict} {p : PlanDoc} (h : PlanDoc.modelValidate r o = some p) : p.Lawful r := by
  obtain ⟨title, htitle, h⟩ := Option.bind_eq_some_iff.mp h
  obtain ⟨summary, hsummary, h⟩ := Option.bind_eq_some_iff.mp h
  obtain ⟨steps, hsteps, h⟩ := Option.bind_eq_some_iff.mp h
  obtain ⟨doctypes, hdoctypes, h⟩ := Option.bind_eq_some_iff.mp h
  obtain ⟨risks, hrisks, h⟩ := Option.bind_eq_some_iff.mp h
  obtain ⟨questions, hquestions, h⟩ := Option.bind_eq_some_iff.mp h
  obtain ⟨items, -, h⟩ := Option.bind_eq_some_iff.mp h
  obtain ⟨failed, -, h⟩ := Option.bind_eq_some_iff.mp h
  obtain ⟨detail, hdetail, h⟩ := Option.bind_eq_some_iff.mp h
  cases h
  have hstrings := listOf_readsBack (string_readsBack (r := r))
  exact {
    title := required_back string_readsBack htitle
    summary := required_back string_readsBack hsummary
    steps := optional_back (listOf_readsBack step_readsBack) rfl hsteps
    doctypesTouched := optional_back hstrings rfl hdoctypes
    risks := optional_back hstrings rfl hrisks
    openQuestions := optional_back hstrings rfl hquestions
    parseFailureDetail := optional_back orNone_readsBack rfl hdetail }

/-- The dump of a plan that the schema allows is read as the same plan, whatever status stands behind it. -/
theorem PlanDoc.Lawful.modelValidate {p : PlanDoc} (h : p.Lawful r) (status : Str) :
    PlanDoc.modelValidate r (State.ConversationMemory.withStatus p.modelDump status) = some p := by
  unfold PlanDoc.modelValidate
  dsimp only [Option.bind_eq_bind]
  rw [required_of_get rfl, h.title, Option.bind_some, required_of_get rfl, h.summary, Option.bind_some,
    optional_of_get rfl, h.steps, Option.bind_some, optional_of_get rfl, h.doctypesTouched, Option.bind_some,
    optional_of_get rfl, h.risks, Option.bind_some, optional_of_get rfl, h.openQuestions, Option.bind_some,
    optional_of_get rfl, r.int_int, Option.bind_some, optional_of_get rfl, r.bool_bool, Option.bind_some,
    optional_of_get rfl, h.parseFailureDetail]
  rfl

end Schema

section Parsing

variable {r : Reader} {c : Char} {cs raw before behind : List Char} {o : Dict}

theorem objectAt_iff : objectAt cs = some o ↔ ∃ strays rest, rawDecode cs = some (.dict o strays, rest) := by
  unfold objectAt
  constructor
  · intro h
    split at h
    · next strays rest hdecode =>
      cases h
      exact ⟨strays, rest, hdecode⟩
    · cases h
  · rintro ⟨strays, rest, hdecode⟩
    rw [hdecode]

theorem objectAt_brace (h : objectAt cs = some o) : ∃ t, cs = '{' :: t := by
  obtain ⟨strays, rest, hdecode⟩ := objectAt_iff.mp h
  exact scanOnce_dict hdecode

theorem firstObject_cons (c : Char) (cs : List Char) :
    firstObject (c :: cs) = (objectAt (c :: cs)).or (firstObject cs) := by
  rw [firstObject, List.tails_cons, List.findSome?_cons]
  cases objectAt (c :: cs) <;> rfl

theorem firstObject_of_objectAt (h : objectAt cs = some o) : firstObject cs = some o := by
  obtain ⟨t, rfl⟩ := objectAt_brace h
  rw [firstObject_cons, h]
  rfl

theorem firstObject_skip (h : c ≠ '{') (cs : List Char) : firstObject (c :: cs) = firstObject cs := by
  have hnone : objectAt (c :: cs) = none := by
    cases hat : objectAt (c :: cs) with
    | none => rfl
    | some o =>
      obtain ⟨t, ht⟩ := objectAt_brace hat
      exact absurd (List.cons.inj ht).1 h
  rw [firstObject_cons, hnone]
  rfl

theorem firstObject_append (h : '{' ∉ before) (cs : List Char) : firstObject (before ++ cs) = firstObject cs := by
  induction before with
  | nil => rfl
  | cons c before ih =>
    obtain ⟨hc, hrest⟩ := List.ne_and_not_mem_of_not_mem_cons h
    rw [List.cons_append, firstObject_skip (Ne.symm hc), ih hrest]

/-- The scan comes to the first object, unless the decoder meets a limit before it. -/
theorem scan_cases (r : Reader) (cs : List Char) :
    (scanForObject r cs = .raised ∧ ∃ t, t <:+ cs ∧ r.overruns t) ∨
      scanForObject r cs = (firstObject cs).elim .unreadable .object := by
  induction cs with
  | nil => exact .inr rfl
  | cons c cs ih =>
    have hrest : (scanForObject r cs = .raised ∧ ∃ t, t <:+ c :: cs ∧ r.overruns t) ∨
        scanForObject r cs = (firstObject cs).elim .unreadable .object :=
      ih.imp_left fun ⟨hraised, t, ht, hover⟩ => ⟨hraised, t, ht.trans (List.suffix_cons c cs), hover⟩
    by_cases hc : c = '{'
    · subst hc
      rw [scanForObject, if_pos rfl, firstObject_cons]
      by_cases hover : r.overruns ('{' :: cs)
      · exact .inl ⟨if_pos hover, _, List.suffix_rfl, hover⟩
      · rw [if_neg hover]
        cases objectAt ('{' :: cs) with
        | some o => exact .inr rfl
        | none => exact hrest
    · rw [scanForObject, if_neg hc, firstObject_skip hc]
      exact hrest

theorem strip_stripCodeFences (raw : List Char) : strip (stripCodeFences raw) = stripCodeFences raw := by
  unfold stripCodeFences
  dsimp only
  split_ifs <;> exact strip_strip _

theorem isSpace_of_isWs (h : isWs c) : isSpace c := by
  simp only [isWs, Bool.or_eq_true, decide_eq_true_eq] at h
  obtain ((rfl | rfl) | rfl) | rfl := h <;> decide

theorem ws_of_strip (h : strip (c :: cs) = c :: cs) : isWs c = false := by
  by_contra hws
  have hspace : isSpace c := isSpace_of_isWs (by simpa using hws)
  have hstrip : strip (c :: cs) = strip cs := by
    rw [strip, List.dropWhile_cons_of_pos hspace]
    rfl
  have hlength : (strip cs).length ≤ cs.length :=
    (List.rdropWhile_prefix isSpace _).length_le.trans (List.dropWhile_sublist isSpace).length_le
  rw [← hstrip, h, List.length_cons] at hlength
  omega

theorem firstObject_of_objectOf (hstrip : strip cs = cs) (h : objectOf cs = some o) : firstObject cs = some o := by
  have hws : skipWs cs = cs := by
    cases cs with
    | nil => rfl
    | cons c cs => exact List.dropWhile_cons_of_neg (by simp [ws_of_strip hstrip])
  unfold objectOf at h
  split at h
  · next strays hloads =>
    cases h
    obtain ⟨rest, hdecode, -⟩ := loads_some.mp hloads
    rw [hws] at hdecode
    exact firstObject_of_objectAt (objectAt_iff.mpr ⟨strays, rest, hdecode⟩)
  · cases h

theorem parse_cases (r : Reader) (raw : List Char) :
    (parsePlanDocJson r raw = .raised ∧ ∃ t, t <:+ stripCodeFences raw ∧ r.overruns t) ∨
      parsePlanDocJson r raw = (firstObject (stripCodeFences raw)).elim .unreadable .object := by
  unfold parsePlanDocJson
  dsimp only
  by_cases hempty : raw.isEmpty
  · rw [List.isEmpty_iff.mp hempty]
    exact .inr rfl
  rw [if_neg hempty]
  by_cases hover : r.overruns (stripCodeFences raw)
  · exact .inl ⟨if_pos hover, _, List.suffix_rfl, hover⟩
  rw [if_neg hover]
  cases hof : objectOf (stripCodeFences raw) with
  | some o =>
    rw [firstObject_of_objectOf (strip_stripCodeFences raw) hof]
    exact .inr rfl
  | none => exact scan_cases r _

end Parsing

section Placeholders

variable {r : Reader} {title summary : Str} {failed : Bool} {detail : Option Str} {o : Dict} {p : PlanDoc}
  {planning : Planning}

theorem string_text {s : Str} (h : ∀ c ∈ s, c < 128) : r.string (.str s) = some s :=
  r.string_str s fun c hc => .inl ((h c hc).trans (by decide))

theorem stub_placeholder (h : PlanDoc.stub r title summary failed detail = some p) : Placeholder p := by
  obtain ⟨_, -, h⟩ := Option.bind_eq_some_iff.mp h
  obtain ⟨_, -, h⟩ := Option.bind_eq_some_iff.mp h
  obtain ⟨steps, hsteps, h⟩ := Option.bind_eq_some_iff.mp h
  obtain ⟨doctypes, hdoctypes, h⟩ := Option.bind_eq_some_iff.mp h
  obtain ⟨risks, hrisks, h⟩ := Option.bind_eq_some_iff.mp h
  obtain ⟨questions, -, h⟩ := Option.bind_eq_some_iff.mp h
  obtain ⟨items, hitems, h⟩ := Option.bind_eq_some_iff.mp h
  obtain ⟨_, -, h⟩ := Option.bind_eq_some_iff.mp h
  obtain ⟨_, -, h⟩ := Option.bind_eq_some_iff.mp h
  -- what a stub leaves out has its default
  cases hsteps
  cases hdoctypes
  cases hrisks
  cases hitems
  cases h
  exact ⟨rfl, rfl, rfl, rfl⟩

/-- What a stub stands for: there is nothing to build in it, and the schema allows it. -/
theorem stub_sound (h : PlanDoc.stub r title summary failed detail = some p) : Placeholder p ∧ p.Lawful r :=
  ⟨stub_placeholder h, lawful_of_modelValidate h⟩

theorem invalid_sound (h : invalid r o = some p) : Placeholder p ∧ p.Lawful r := by
  obtain ⟨stub, hstub, h⟩ := Option.bind_eq_some_iff.mp h
  obtain ⟨hplaceholder, hlawful⟩ := stub_sound hstub
  split_ifs at h
  · cases h
    exact ⟨hplaceholder, hlawful⟩
  · cases h
    have hlead : ∀ c ∈ str "Raw agent output (truncated): ", c < 128 := by decide
    have hquestion : r.string (.str (str "Raw agent output (truncated): " ++ (r.dumps o).take 500)) =
        some (str "Raw agent output (truncated): " ++ (r.dumps o).take 500) := by
      refine string_text fun c hc => ?_
      obtain hc | hc := List.mem_append.mp hc
      · exact hlead c hc
      · exact r.dumps_ascii o c (List.mem_of_mem_take hc)
    refine ⟨⟨hplaceholder.steps, hplaceholder.doctypesTouched, hplaceholder.risks, hplaceholder.estimatedItems⟩,
      { hlawful with openQuestions := ?_ }⟩
    change List.mapM r.string [.str _] = some [_]
    rw [List.mapM_cons, hquestion]
    rfl

theorem failure_sound (h : failure r planning = some p) : Placeholder p ∧ p.Lawful r := by
  cases planning with
  | unbuilt e | broke e | incomplete err => exact stub_sound h
  | raised => cases h
  | completed result =>
    unfold failure at h
    dsimp only at h
    split at h
    · exact invalid_sound h
    · exact stub_sound h

theorem Wrote.lawful (h : Wrote r planning p) : p.Lawful r := by
  cases h with
  | crew o p hfirst hread => exact lawful_of_modelValidate hread
  | failure p hnone hfailure hplaceholder => exact (failure_sound hfailure).2
  | crashed p hlost hcrashed hplaceholder => exact (stub_sound hcrashed).2

theorem stub_some {s : Str} (htitle : ∀ c ∈ title, c < 128) (hsummary : ∀ c ∈ s, c < 128) (hthere : ¬s.isEmpty) :
    ∃ p, PlanDoc.stub r title s failed none = some p := by
  unfold PlanDoc.stub PlanDoc.modelValidate
  dsimp only [Option.bind_eq_bind]
  rw [if_neg hthere, required_of_get rfl, string_text htitle, Option.bind_some, required_of_get rfl,
    string_text hsummary, Option.bind_some]
  -- the other fields have their defaults, or what they are given
  have hfailed : optional r.bool false "parse_failed" [(str "title", .str title), (str "summary", .str s),
      (str "parse_failed", .bool failed), (str "parse_failure_detail", nullable none)] = some failed := by
    rw [optional_of_get rfl, r.bool_bool]
  rw [hfailed]
  exact ⟨_, rfl⟩

/-- The placeholder for an exception holds no texts but the code's own. -/
theorem crashed_some (r : Reader) : ∃ p, crashed r = some p := stub_some (by decide) (by decide) (by decide)

theorem planDict_wrote (r : Reader) (planning : Planning) :
    ∃ p, planDict r planning = some p.modelDump ∧ Wrote r planning p := by
  unfold planDict
  have hfailed (hnone : (shown planning).bind (PlanDoc.modelValidate r) = none)
      (hhandled : handlePlan r planning = failure r planning) :
      ∃ p, (handlePlan r planning <|> crashed r).map PlanDoc.modelDump = some p.modelDump ∧ Wrote r planning p := by
    rw [hhandled]
    cases hfailure : failure r planning with
    | some p => exact ⟨p, rfl, .failure _ _ hnone hfailure (failure_sound hfailure).1⟩
    | none =>
      obtain ⟨p, hp⟩ := crashed_some r
      exact ⟨p, by rw [hp]; rfl, .crashed _ _ (.inl hfailure) hp (stub_sound hp).1⟩
  cases planning with
  | unbuilt e | broke e | incomplete err | raised => exact hfailed rfl rfl
  | completed result =>
    obtain ⟨hraised, t, ht, hover⟩ | hparsed := parse_cases r (strip result)
    · obtain ⟨p, hp⟩ := crashed_some r
      refine ⟨p, ?_, .crashed _ _ (.inr ⟨result, t, rfl, ht, hover⟩) hp (stub_sound hp).1⟩
      unfold handlePlan
      dsimp only
      rw [hraised, hp]
      rfl
    · have hhandled : handlePlan r (.completed result) =
          (firstObject (stripCodeFences (strip result))).elim (unreadable r (strip result)) (validateAsPlanDoc r) := by
        unfold handlePlan
        dsimp only
        rw [hparsed]
        cases firstObject (stripCodeFences (strip result)) <;> rfl
      cases hfirst : firstObject (stripCodeFences (strip result)) with
      | none =>
        refine hfailed (by rw [shown, hfirst]; rfl) ?_
        rw [hhandled, failure, hfirst]
        rfl
      | some o =>
        cases hread : PlanDoc.modelValidate r o with
        | some p =>
          refine ⟨p, ?_, .crew _ o p hfirst hread⟩
          rw [hhandled, hfirst, Option.elim_some, validateAsPlanDoc, hread]
          rfl
        | none =>
          refine hfailed (by rw [shown, hfirst]; exact hread) ?_
          rw [hhandled, failure, hfirst, Option.elim_some, validateAsPlanDoc, hread]

end Placeholders

section Lines

variable {c : Char} {a b x y : List Char}

/-- A character that breaks no line stands at the head of the first one. -/
theorem splitlines_cons (h : lineBreak c = false) {cs l : List Char} {ls : List (List Char)}
    (hlines : splitlines cs = l :: ls) : splitlines (c :: cs) = (c :: l) :: ls := by
  have hr : ∀ cs', c = '\r' → cs = '\n' :: cs' → False := by
    rintro cs' rfl -
    cases h
  rw [splitlines, if_neg (by simp [h]), hlines]
  exact hr

theorem splitlines_ne_nil (cs : List Char) (h : cs ≠ []) : splitlines cs ≠ [] := by
  unfold splitlines
  split
  · exact absurd rfl h
  · exact List.cons_ne_nil _ _
  · split_ifs
    · exact List.cons_ne_nil _ _
    · split <;> exact List.cons_ne_nil _ _

theorem splitlines_newline (cs : List Char) : splitlines ('\n' :: cs) = [] :: splitlines cs := by
  rw [splitlines, if_pos (by decide)]
  intro cs' h
  cases h

theorem splitlines_line (h : ∀ c ∈ a, lineBreak c = false) (b : List Char) :
    splitlines (a ++ '\n' :: b) = a :: splitlines b := by
  induction a with
  | nil => exact splitlines_newline b
  | cons c a ih =>
    obtain ⟨hc, ha⟩ := List.forall_mem_cons.mp h
    exact splitlines_cons hc (ih ha)

theorem splitlines_append (h : ∀ c ∈ x, lineBreak c → c = '\n') (y : List Char) :
    splitlines (x ++ '\n' :: y) = splitlines (x ++ ['\n']) ++ splitlines y := by
  induction x with
  | nil => rw [List.nil_append, List.nil_append, splitlines_newline, splitlines_newline]; rfl
  | cons c x ih =>
    obtain ⟨hhead, hx⟩ := List.forall_mem_cons.mp h
    cases hc : lineBreak c with
    | true =>
      rw [hhead hc, List.cons_append, List.cons_append, splitlines_newline, splitlines_newline, ih hx]
      rfl
    | false =>
      obtain ⟨l, ls, hlines⟩ := List.exists_cons_of_ne_nil (splitlines_ne_nil (x ++ ['\n']) (by simp))
      have hboth : splitlines (x ++ '\n' :: y) = l :: (ls ++ splitlines y) := by
        rw [ih hx, hlines]
        rfl
      rw [List.cons_append, List.cons_append, splitlines_cons hc hlines, splitlines_cons hc hboth]
      rfl

/-- The lines of a text that breaks only where `'\n'.join` does make up the text. -/
theorem join_splitlines (h : ∀ c ∈ x, lineBreak c → c = '\n') :
    ((splitlines (x ++ ['\n'])).intersperse ['\n']).flatten = x := by
  induction x with
  | nil => rw [List.nil_append, splitlines_newline]; rfl
  | cons c x ih =>
    obtain ⟨hhead, hx⟩ := List.forall_mem_cons.mp h
    have hrest := ih hx
    obtain ⟨l, ls, hlines⟩ := List.exists_cons_of_ne_nil (splitlines_ne_nil (x ++ ['\n']) (by simp))
    rw [hlines] at hrest
    cases hc : lineBreak c with
    | true =>
      rw [hhead hc, List.cons_append, splitlines_newline, hlines, List.intersperse_cons_cons, List.flatten_cons,
        List.flatten_cons, hrest]
      rfl
    | false =>
      rw [List.cons_append, splitlines_cons hc hlines]
      cases ls with
      | nil => exact congrArg (List.cons c) hrest
      | cons l' ls =>
        rw [List.intersperse_cons_cons, List.flatten_cons] at hrest ⊢
        exact congrArg (List.cons c) hrest

end Lines

section Wrapping

variable {r : Reader} {d : Doc} {o : Dict} {strays : Strays} {text before behind body : List Char}

theorem strip_around (before behind body : List Char) : strip (before ++ '{' :: (body ++ ['}']) ++ behind) =
    before.dropWhile isSpace ++ ('{' :: (body ++ ['}']) ++ behind.rdropWhile isSpace) := by
  have hvisible : before ++ '{' :: (body ++ ['}']) ++ behind = before ++ '{' :: (body ++ '}' :: behind) := by simp
  have hends (pre : List Char) : pre ++ '{' :: (body ++ '}' :: behind) = (pre ++ '{' :: body) ++ '}' :: behind := by simp
  rw [strip, hvisible, Extract.RoundTrip.dropWhile_append_visible before (by decide), hends,
    rdropWhile_append_cons _ _ (by decide)]
  simp

theorem firstObject_render (hd : d.value = .dict o strays) (behind : List Char) :
    firstObject (d.render ++ behind) = some o := by
  have hdecode : rawDecode (d.render ++ behind) = some (d.value, behind) := by
    refine rawDecode_render d behind fun m hm => ?_
    rw [hm, Doc.value] at hd
    exact absurd hd (m.value_ne_dict _ _)
  rw [hd] at hdecode
  exact firstObject_of_objectAt (objectAt_iff.mpr ⟨strays, behind, hdecode⟩)

theorem stripCodeFences_of_not (h : ¬fenceMark <+: strip text) : stripCodeFences (strip text) = strip text := by
  unfold stripCodeFences
  dsimp only
  rw [strip_strip, if_neg (by simpa using h)]

theorem strip_fenced (inner : List Char) : strip (fenceMark ++ inner ++ fenceMark) = fenceMark ++ inner ++ fenceMark := by
  have hmark : fenceMark = ['\x60', '\x60', '\x60'] := by decide
  refine strip_eq_self (fun c hc => ?_) fun c hc => ?_
  · rw [hmark] at hc
    cases hc
    decide
  · rw [hmark, List.getLast?_append] at hc
    cases hc
    decide

theorem stripCodeFences_fenced {tag : List Char} (htag : ∀ c ∈ tag, lineBreak c = false)
    (hbody : ∀ c ∈ body, lineBreak c → c = '\n') :
    stripCodeFences (strip (fenceMark ++ tag ++ '\n' :: (body ++ '\n' :: fenceMark))) = strip body := by
  have htext : fenceMark ++ tag ++ '\n' :: (body ++ '\n' :: fenceMark) =
      fenceMark ++ (tag ++ '\n' :: (body ++ ['\n'])) ++ fenceMark := by simp
  have hfirst : ∀ c ∈ fenceMark ++ tag, lineBreak c = false := by
    intro c hc
    obtain hc | hc := List.mem_append.mp hc
    · have hmark : ∀ c ∈ fenceMark, lineBreak c = false := by decide
      exact hmark c hc
    · exact htag c hc
  have hlines : splitlines (fenceMark ++ tag ++ '\n' :: (body ++ '\n' :: fenceMark)) =
      (fenceMark ++ tag) :: (splitlines (body ++ ['\n']) ++ [fenceMark]) := by
    rw [splitlines_line hfirst, splitlines_append hbody]
    rfl
  have hprefix : fenceMark.isPrefixOf (fenceMark ++ tag ++ '\n' :: (body ++ '\n' :: fenceMark)) := by
    rw [List.isPrefixOf_iff_prefix, List.append_assoc]
    exact List.prefix_append _ _
  have hstrip : strip (fenceMark ++ tag ++ '\n' :: (body ++ '\n' :: fenceMark)) =
      fenceMark ++ tag ++ '\n' :: (body ++ '\n' :: fenceMark) := by
    rw [htext]
    exact strip_fenced _
  unfold stripCodeFences
  dsimp only
  rw [strip_strip, hstrip, if_pos hprefix, hlines, List.head?_cons, Option.getD_some,
    if_pos (List.isPrefixOf_iff_prefix.mpr (List.prefix_append _ _)), List.tail_cons, List.getLast?_concat,
    Option.getD_some, if_pos (List.isPrefixOf_iff_prefix.mpr List.prefix_rfl), List.dropLast_concat,
    join_splitlines hbody]

theorem firstObject_wrapped (hd : d.value = .dict o strays) (h : Wrapped d.render text) :
    firstObject (stripCodeFences (strip text)) = some o ∧ stripCodeFences (strip text) <:+: text := by
  obtain ⟨body, hbraces⟩ := object_braces hd
  cases h with
  | prose before behind hbefore hfence =>
    have hinfix : strip (before ++ d.render ++ behind) <:+: before ++ d.render ++ behind :=
      (List.rdropWhile_prefix isSpace _).isInfix.trans (List.dropWhile_suffix isSpace).isInfix
    rw [stripCodeFences_of_not hfence]
    refine ⟨?_, hinfix⟩
    rw [hbraces, strip_around, firstObject_append fun hmem => hbefore ((List.dropWhile_sublist _).mem hmem), ← hbraces]
    exact firstObject_render hd _
  | fenced tag htag hbody =>
    have hstrip : strip d.render = d.render := by
      have haround := strip_around [] [] body
      simpa [hbraces] using haround
    rw [stripCodeFences_fenced htag hbody, hstrip]
    refine ⟨?_, fenceMark ++ tag ++ ['\n'], '\n' :: fenceMark, by simp⟩
    have hfirst := firstObject_render hd []
    rwa [List.append_nil] at hfirst

end Wrapping

end AlfredProcessing.Handlers.Plan
