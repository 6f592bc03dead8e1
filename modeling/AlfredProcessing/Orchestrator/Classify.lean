import AlfredProcessing.Pipeline.HandoffQuery
import AlfredProcessing.Pipeline.PlanLifecycle

namespace AlfredProcessing.Orchestrator.Classify

open Lib.Json Extract.Changes Extract.Cleaning State.ConversationMemory State.MemoryRendering
  Pipeline.Context Pipeline.PlanLifecycle
open Pipeline.HandoffQuery (loads)

section Model

inductive Confidence where
  | high
  | medium
  | low
  deriving DecidableEq

inductive Source where
  | analyticsRedirect
  | analyticsGuardrail
  | override
  | fastPath
  | heuristic
  | classifier
  | fallback
  deriving DecidableEq

/-- `ModeDecision`. -/
structure ModeDecision where
  mode : Mode
  reason : Str
  confidence : Confidence
  source : Source

/-- `IntentDecision`. -/
structure IntentDecision where
  intent : Str
  reason : Str
  confidence : Confidence
  source : Source

/-- What the classifiers take from the language: `str` of other values, and `str.lower`, which
leaves nothing of nothing. -/
structure Texts where
  py : Python
  lower : Str → Str
  lower_nil : lower [] = []

/-- The replies of the model to the two classifiers, or the error that a call ends in. -/
structure Replies where
  mode : Str → Except Str (List Char)
  intent : Str → Except Str Str

/-- `_FAST_PATH_CHAT_EXACT`. -/
def fastPathChatExact : List String :=
  ["hi", "hello", "hey", "yo", "hiya", "howdy", "greetings", "thanks", "thank you", "thx", "ty", "ok", "okay",
    "cool", "sure", "bye", "goodbye", "cya", "later", "good morning", "good afternoon", "good evening",
    "what can you do", "what can you do?", "help", "help me"]

/-- `_FAST_PATH_DEV_PREFIXES`. -/
def fastPathDevPrefixes : List String :=
  ["add a ", "add the ", "add an ", "create a ", "create an ", "create the ", "build a ", "build an ",
    "build the ", "build me ", "make a ", "make an ", "make the "]

/-- `_FAST_PATH_INSIGHTS_PREFIXES`. -/
def fastPathInsightsPrefixes : List String :=
  ["what doctypes ", "which doctypes ", "what workflows ", "which workflows ", "what notifications ",
    "which notifications ", "what custom fields ", "which custom fields ", "what server scripts ",
    "which server scripts ", "what client scripts ", "which client scripts ", "what customizations ",
    "which customizations ", "what modules ", "which modules ", "list my ", "list all ", "show me my ",
    "show me the ", "show me all ", "do i have ", "does my site have ", "how many "]

/-- `_FAST_PATH_INSIGHTS_PATTERNS`. -/
def fastPathInsightsPatterns : List String :=
  [" do i have", " does the site have", " does my site have", " are on my site", " are active on",
    " are installed on"]

/-- `_FAST_PATH_INSIGHTS_ANALYTICS_PREFIXES`. -/
def fastPathInsightsAnalyticsPrefixes : List String :=
  ["show top ", "show the top ", "show me top ", "list the top ", "count of ", "summarize ", "summarise ",
    "summary of ", "report on ", "report me "]

/-- `_SUPPORTED_INTENTS`. -/
def supportedIntents : List String :=
  ["create_doctype", "create_custom_field", "create_role_with_permissions", "create_property_setter",
    "create_user_permission", "create_report", "create_dashboard", "create_dashboard_chart",
    "create_number_card", "create_auto_email_report", "create_server_script", "create_client_script",
    "create_notification", "create_workflow", "create_webhook", "create_auto_repeat", "create_assignment_rule",
    "create_print_format", "create_letter_head", "create_email_template", "create_web_form",
    "update_print_settings"]

/-- `_HEURISTIC_INTENT_PATTERNS`, in their order. -/
def heuristicIntentPatterns : List (String × List String) :=
  [("create_role_with_permissions", ["create a role", "create role", "new role", "add a role", "add role",
      "role with permission", "role with permissions", "grant permission", "grant permissions",
      "give permission", "give permissions"]),
    ("create_property_setter", ["make it required", "make it mandatory", "mark as required",
      "mark as mandatory", "make required on", "change the label", "rename the field", "hide the field",
      "show the field", "make read only on", "mark as read only on", "change the default of",
      "set the title field", "set title_field", "override the", "property setter"]),
    ("create_user_permission", ["restrict user", "restrict the user", "user can only see",
      "user should only see", "limit user to", "grant user access to", "give user access to",
      "only allow user", "user permission"]),
    ("create_custom_field", ["add a custom field", "add custom field", "new custom field",
      "create a custom field", "create custom field", "add a field to", "add a field on"]),
    ("create_doctype", ["create a doctype", "create doctype", "new doctype", "add a doctype", "add doctype",
      "build a doctype", "make a doctype"]),
    ("create_number_card", ["number card", "kpi card", "metric card", "count card"]),
    ("create_dashboard_chart", ["dashboard chart", "add a chart", "add chart", "create a chart", "new chart",
      "build a chart"]),
    ("create_dashboard", ["create a dashboard", "create dashboard", "new dashboard", "add a dashboard",
      "add dashboard", "build a dashboard"]),
    ("create_auto_email_report", ["auto email report", "email the report", "email this report",
      "schedule the report", "schedule this report", "send the report every", "send report every",
      "recurring report", "weekly report email", "daily report email", "monthly report email"]),
    ("create_report", ["save as report", "save this as a report", "create a report", "make a report",
      "build a report", "new report"]),
    ("create_workflow", ["create a workflow", "create workflow", "new workflow", "add a workflow",
      "add workflow", "build a workflow", "approval workflow", "approval flow", "review workflow"]),
    ("create_webhook", ["webhook", "post to url", "post to a url", "send data to url", "send data to external",
      "ping an external", "ping external", "http callback", "outbound http", "call external api when"]),
    ("create_auto_repeat", ["auto repeat", "auto-repeat", "recurring invoice", "recurring document",
      "recurring sales order", "repeat monthly", "repeat weekly", "repeat daily", "every month create",
      "every week create", "subscription"]),
    ("create_assignment_rule", ["assignment rule", "auto assign", "auto-assign", "round robin", "round-robin",
      "load balancing", "load-balancing", "distribute tickets", "distribute leads", "route to", "routing rule"]),
    ("create_notification", ["create a notification", "create notification", "new notification",
      "add a notification", "add notification", "send an email when", "send email when", "email the ",
      "notify the ", "alert the "]),
    ("create_server_script", ["server script", "before save", "after save", "before submit", "on submit",
      "validate the ", "block save", "block submit", "throw an error", "throw if"]),
    ("create_client_script", ["client script", "on form load", "on field change", "custom button on",
      "hide field", "show field"]),
    ("create_print_format", ["print format", "invoice template", "invoice layout", "quote template",
      "quote layout", "receipt template", "receipt layout", "document layout"]),
    ("create_letter_head", ["letter head", "letterhead", "company header", "company footer", "branded header",
      "branded footer"]),
    ("create_email_template", ["email template"]),
    ("create_web_form", ["web form", "public form", "portal form", "external form", "form on the website",
      "form on the portal"]),
    ("update_print_settings", ["print settings", "site print config", "site-wide print",
      "change pdf generator", "switch pdf generator", "enable print for draft", "allow print for draft",
      "allow print for cancelled", "allow print cancelled", "enable raw printing"])]

def startsWithAny (prefixes : List String) (s : Str) : Bool :=
  prefixes.any fun p => (str p).isPrefixOf s

def containsAny (patterns : List String) (s : Str) : Bool :=
  patterns.any fun p => occurs (str p) s

variable (texts : Texts)

/-- `prompt.strip().lower().rstrip("!.?,")`. -/
def normalized (prompt : Str) : Str :=
  (texts.lower (stripped prompt)).rdropWhile fun c => (str "!.?,").contains c

/-- `_fast_path`. -/
def fastPath (prompt : Str) : Option Mode :=
  if (stripped prompt).isEmpty then some .chat
  else
    let normalized := normalized texts prompt
    if fastPathChatExact.any fun t => str t = normalized then some .chat
    else if startsWithAny fastPathDevPrefixes normalized then some .dev
    else if startsWithAny fastPathInsightsPrefixes normalized then some .insights
    else if startsWithAny fastPathInsightsAnalyticsPrefixes normalized then some .insights
    else if containsAny fastPathInsightsPatterns normalized then some .insights
    else none

/-- `_looks_like_analytics_query`. -/
def looksLikeAnalyticsQuery (prompt : Str) : Bool :=
  let normalized := normalized texts prompt
  if normalized.isEmpty then false
  else
    startsWithAny fastPathInsightsAnalyticsPrefixes normalized ||
      startsWithAny fastPathInsightsPrefixes normalized || containsAny fastPathInsightsPatterns normalized

def Mode.text : Mode → String
  | .dev => "dev"
  | .plan => "plan"
  | .insights => "insights"
  | .chat => "chat"

/-- `_VALID_MODES`. -/
def validModes : List Mode := [.dev, .plan, .insights, .chat]

/-- `_VALID_OVERRIDES`, where none is the automatic choice. -/
def validOverrides : List Mode := [.dev, .plan, .insights]

def modeIn (modes : List Mode) (val : Str) : Option Mode :=
  modes.find? fun m => val = str (Mode.text m)

/-- `_normalize_override`, none for the automatic choice. -/
def normalizeOverride (override : Option Str) : Option Mode :=
  override.bind fun val => modeIn validOverrides (texts.lower (stripped val))

/-- `_normalize_mode`. -/
def normalizeMode (mode : Value) : Option Mode :=
  if mode.truthy then modeIn validModes (texts.lower (stripped (texts.py.toStr mode))) else none

/-- `_has_active_plan`. -/
def hasActivePlan (memory : Option Memory) : Bool :=
  (memory.bind Memory.activePlan).any fun plan => !plan.isEmpty

def lineBreak (c : Char) : Bool :=
  let n := c.toNat
  (10 ≤ n && n ≤ 13) || (28 ≤ n && n ≤ 30) || n = 0x85 || n = 0x2028 || n = 0x2029

/-- `str.splitlines`. -/
def splitlines : List Char → List (List Char)
  | [] => []
  | '\r' :: '\n' :: cs => [] :: splitlines cs
  | c :: cs =>
    if lineBreak c then [] :: splitlines cs
    else
      match splitlines cs with
      | [] => [[c]]
      | l :: ls => (c :: l) :: ls

def fenceMark : List Char := "```".toList

def unfenced (cleaned : List Char) : List Char :=
  if fenceMark.isPrefixOf cleaned then
    let lines := (splitlines cleaned).tail
    let lines := if (lines.getLast?.getD []).take 3 = fenceMark then lines.dropLast else lines
    strip (lines.intersperse ['\n']).flatten
  else cleaned

/-- `_JSON_OBJECT_RE` at a position. -/
def objectAt : List Char → Option (List Char)
  | '{' :: cs =>
    let inner := cs.takeWhile fun c => c ≠ '{' && c ≠ '}'
    match cs.drop inner.length with
    | '}' :: _ => some ('{' :: (inner ++ ['}']))
    | _ => none
  | _ => none

def searchObject : List Char → Option (List Char)
  | [] => none
  | c :: cs => (objectAt (c :: cs)).orElse fun _ => searchObject cs

def confidenceOf (raw : Str) : Confidence :=
  if raw = str "high" then .high else if raw = str "low" then .low else .medium

/-- `_parse_classifier_output`. -/
def parseClassifierOutput (text : List Char) : Option Mode × Str × Confidence :=
  let cleaned := unfenced (strip text)
  match (loads cleaned).orElse fun _ => (searchObject cleaned).bind loads with
  | some (.dict d _) =>
    (normalizeMode texts (pyGet d "mode"),
      stripped (texts.py.toStr (pyOr (pyGet d "reason") (.str []))),
      confidenceOf (texts.lower
        (stripped (texts.py.toStr (pyOr (pyGet d "confidence") (.str (str "medium")))))))
  | _ => (none, [], .low)

def memoryContextCharCap : Nat := 1000

/-- `_clip_memory_context`. -/
def clipMemoryContext (text : Str) : Str :=
  if text.length ≤ memoryContextCharCap then text
  else str "[... older context clipped ...]\n" ++ text.rtake memoryContextCharCap

/-- What the model is asked, next to the system prompt. -/
def classifierContent (prompt memoryContext : Str) : Str :=
  (if memoryContext.isEmpty then [] else clipMemoryContext memoryContext ++ str "\n\n") ++
    str "Prompt: " ++ prompt

variable (replies : Replies)

/-- `_classify_with_llm`. -/
def classifyWithLlm (prompt memoryContext : Str) : Option Mode × Str × Confidence :=
  match replies.mode (classifierContent prompt memoryContext) with
  | .ok raw => parseClassifierOutput texts raw
  | .error _ => (none, [], .low)

def redirected : ModeDecision where
  mode := .insights
  reason := str "Prompt looks like an analytics / Q&A request; routed to Insights even though Dev was selected. Click 'Run in Dev anyway' to override."
  confidence := .high
  source := .analyticsRedirect

/-- `classify_mode`. -/
def classifyMode (prompt : Str) (memory : Option Memory) (manualOverride : Option Str) (forceDevOverride : Bool) :
    ModeDecision :=
  let override := normalizeOverride texts manualOverride
  if override = some .dev && !forceDevOverride && looksLikeAnalyticsQuery texts prompt then redirected
  else
    match override, fastPath texts prompt with
    | some mode, _ =>
      ⟨mode, str "User forced mode=" ++ str (Mode.text mode) ++ str " via manual override", .high, .override⟩
    | none, some fast => ⟨fast, str "Fast-path match (" ++ str (Mode.text fast) ++ str ")", .high, .fastPath⟩
    | none, none =>
      let memoryContext := (memory.bind (renderForPrompt texts.py)).getD []
      match classifyWithLlm texts replies prompt memoryContext with
      | (some mode, reason, .high) =>
        ⟨mode, if reason.isEmpty then str "LLM classifier decision" else reason, .high, .classifier⟩
      | (some mode, reason, .medium) =>
        ⟨mode, if reason.isEmpty then str "LLM classifier decision" else reason, .medium, .classifier⟩
      | (mode, _, _) =>
        let fallbackMode := if hasActivePlan memory then Mode.dev else Mode.chat
        ⟨fallbackMode,
          str "Classifier " ++ str (if mode.isSome then "low-confidence" else "unavailable") ++
            str "; defaulted to " ++ str (Mode.text fallbackMode), .low, .fallback⟩

/-- `_match_intent_heuristic`. -/
def matchIntentHeuristic (prompt : Str) : Option String :=
  (heuristicIntentPatterns.find? fun family => containsAny family.2 (texts.lower prompt)).map Prod.fst

/-- `_classify_intent_llm`. -/
def classifyIntentLlm (prompt : Str) : Except Str String :=
  (replies.intent prompt).map fun reply =>
    let tag := texts.lower (stripped reply)
    ((supportedIntents ++ ["unknown"]).find? fun t => str t = tag).getD "unknown"

def guarded : IntentDecision where
  intent := str "unknown"
  reason := str "prompt is a read-side analytics / Q&A phrasing (dev-side Insights guardrail)"
  confidence := .high
  source := .analyticsGuardrail

/-- `classify_intent`. -/
def classifyIntent (prompt : Str) : IntentDecision :=
  if looksLikeAnalyticsQuery texts prompt then guarded
  else
    match matchIntentHeuristic texts prompt, classifyIntentLlm texts replies prompt with
    | some heur, _ => ⟨str heur, str "matched heuristic pattern for " ++ str heur, .high, .heuristic⟩
    | none, .ok tag =>
      ⟨str tag, str "LLM classifier returned " ++ str tag, if tag = "unknown" then .low else .medium, .classifier⟩
    | none, .error e => ⟨str "unknown", str "classifier error: " ++ e, .low, .fallback⟩

end Model

section Routing

variable {texts : Texts} {prompt s : Str} {ps qs : List String}

/-- What stands at the beginning of a text stays there when its end is cut back to a character
that is kept. -/
theorem prefix_rdropWhile {α : Type*} {f : α → Bool} {p l : List α} (hp : ∀ hne : p ≠ [], ¬f (p.getLast hne))
    (h : p <+: l) : p <+: l.rdropWhile f := by
  induction l using List.reverseRecOn with
  | nil => simpa using h
  | append_singleton l x ih =>
    by_cases hx : f x
    · rw [List.rdropWhile_concat_pos f l x hx]
      obtain rfl | hl := List.prefix_concat_iff.mp h
      · exact absurd hx (by simpa using hp (by simp))
      · exact ih hl
    · rwa [List.rdropWhile_concat_neg f l x hx]

theorem startsWithAny_iff : startsWithAny ps s = true ↔ ∃ p ∈ ps, str p <+: s := by
  simp only [startsWithAny, List.any_eq_true, List.isPrefixOf_iff_prefix]

theorem containsAny_eq_false_iff : containsAny ps s = false ↔ ∀ p ∈ ps, occurs (str p) s = false := by
  simp [containsAny]

theorem not_startsWithAny (hdis : ∀ p ∈ ps, ∀ q ∈ qs, ¬str p <+: str q ∧ ¬str q <+: str p)
    (h : startsWithAny ps s = true) : startsWithAny qs s = false := by
  obtain ⟨p, hp, hps⟩ := startsWithAny_iff.mp h
  by_contra hq
  rw [Bool.not_eq_false] at hq
  obtain ⟨q, hq, hqs⟩ := startsWithAny_iff.mp hq
  obtain hpq | hqp := List.prefix_or_prefix_of_prefix hps hqs
  · exact (hdis p hp q hq).1 hpq
  · exact (hdis p hp q hq).2 hqp

theorem dev_not_insights : ∀ p ∈ fastPathDevPrefixes, ∀ q ∈ fastPathInsightsPrefixes,
    ¬str p <+: str q ∧ ¬str q <+: str p := by decide

theorem dev_not_analytics : ∀ p ∈ fastPathDevPrefixes, ∀ q ∈ fastPathInsightsAnalyticsPrefixes,
    ¬str p <+: str q ∧ ¬str q <+: str p := by decide

theorem dev_not_chat : ∀ p ∈ fastPathDevPrefixes, ∀ t ∈ fastPathChatExact, ¬str p <+: str t := by decide

theorem dev_not_punctuation : ∀ p ∈ fastPathDevPrefixes,
    ∀ hne : str p ≠ [], ¬(str "!.?,").contains ((str p).getLast hne) := by decide

variable (texts prompt) in
/-- The prompt, trimmed and lower-cased, begins with a build verb. -/
def DevVerb : Prop := startsWithAny fastPathDevPrefixes (texts.lower (stripped prompt)) = true

theorem DevVerb.normalized (h : DevVerb texts prompt) :
    startsWithAny fastPathDevPrefixes (Classify.normalized texts prompt) = true := by
  obtain ⟨p, hp, hprefix⟩ := startsWithAny_iff.mp h
  exact startsWithAny_iff.mpr ⟨p, hp, prefix_rdropWhile (dev_not_punctuation p hp) hprefix⟩

theorem DevVerb.not_blank (h : DevVerb texts prompt) : (stripped prompt).isEmpty = false := by
  by_contra hblank
  rw [Bool.not_eq_false, List.isEmpty_iff] at hblank
  rw [DevVerb, hblank, texts.lower_nil] at h
  exact absurd h (by decide)

theorem DevVerb.fastPath (h : DevVerb texts prompt) : Classify.fastPath texts prompt = some .dev := by
  have hverb := h.normalized
  have hchat : (fastPathChatExact.any fun t => str t = Classify.normalized texts prompt) = false := by
    obtain ⟨p, hp, hprefix⟩ := startsWithAny_iff.mp hverb
    rw [List.any_eq_false]
    intro t ht heq
    have heq : str t = Classify.normalized texts prompt := by simpa using heq
    exact dev_not_chat p hp t ht (heq ▸ hprefix)
  simp [Classify.fastPath, h.not_blank, hchat, hverb]

/-- To the analytics detector a prompt with a build verb is a query just when one of the
patterns occurs in it. -/
theorem DevVerb.looksLike (h : DevVerb texts prompt) : looksLikeAnalyticsQuery texts prompt =
    containsAny fastPathInsightsPatterns (Classify.normalized texts prompt) := by
  have hverb := h.normalized
  have hne : (Classify.normalized texts prompt).isEmpty = false := by
    by_contra hnil
    rw [Bool.not_eq_false, List.isEmpty_iff] at hnil
    rw [hnil] at hverb
    exact absurd hverb (by decide)
  simp [looksLikeAnalyticsQuery, hne, not_startsWithAny dev_not_analytics hverb,
    not_startsWithAny dev_not_insights hverb]

end Routing

section Precedence

variable {texts : Texts} {prompt : Str} {replies : Replies} {memory : Option Memory} {override : Option Str}
  {force : Bool}

theorem DevVerb.auto (h : DevVerb texts prompt) (hover : normalizeOverride texts override = none) :
    (classifyMode texts replies prompt memory override force).mode = .dev := by
  simp [classifyMode, hover, h.fastPath]

theorem classifyMode_override (hover : normalizeOverride texts override = some .dev) :
    (classifyMode texts replies prompt memory override force).mode =
      if !force && looksLikeAnalyticsQuery texts prompt then .insights else .dev := by
  cases hasked : !force && looksLikeAnalyticsQuery texts prompt with
  | true => simp [classifyMode, hover, hasked, redirected]
  | false => simp [classifyMode, hover, hasked]

theorem classifyIntent_guarded : (classifyIntent texts replies prompt).source = .analyticsGuardrail ↔
    looksLikeAnalyticsQuery texts prompt = true := by
  rw [classifyIntent]
  cases looksLikeAnalyticsQuery texts prompt with
  | true => simp [guarded]
  | false => cases matchIntentHeuristic texts prompt <;> cases classifyIntentLlm texts replies prompt <;> simp

variable (texts prompt) in
/-- Dev comes first for a prompt: whatever the model replies, the mode is dev without an override
and under the dev override, and the intent classifier takes the prompt for no query. -/
def DevFirst : Prop :=
  ∀ replies : Replies,
    (∀ memory override force,
      normalizeOverride texts override = none ∨ normalizeOverride texts override = some .dev →
        (classifyMode texts replies prompt memory override force).mode = .dev) ∧
      (classifyIntent texts replies prompt).source ≠ .analyticsGuardrail

/-- Dev comes first for a prompt with a build verb just when none of the phrases of a question
occurs behind the verb. -/
theorem devFirst_iff (h : DevVerb texts prompt) : DevFirst texts prompt ↔
    ∀ pattern ∈ fastPathInsightsPatterns, occurs (str pattern) (normalized texts prompt) = false := by
  rw [← containsAny_eq_false_iff, ← h.looksLike]
  constructor
  · intro hfirst
    have hsource := (hfirst ⟨fun _ => .error [], fun _ => .error []⟩).2
    rwa [Ne, classifyIntent_guarded, Bool.not_eq_true] at hsource
  · intro hquery replies
    refine ⟨?_, ?_⟩
    · rintro memory override force (hauto | hdev)
      · exact h.auto hauto
      · rw [classifyMode_override hdev, hquery, Bool.and_false]
        rfl
    · rw [Ne, classifyIntent_guarded, hquery]
      exact Bool.false_ne_true

def asciiTexts : Texts where
  py := plainPython
  lower s := s.map fun n => if 65 ≤ n ∧ n ≤ 90 then n + 32 else n
  lower_nil := rfl

def fieldPrompt : Str := str "Add a field for the warehouses that are on my site"

theorem fieldPrompt_redirected :
    DevVerb asciiTexts fieldPrompt ∧ ¬DevFirst asciiTexts fieldPrompt ∧
      ∀ replies memory,
        (classifyMode asciiTexts replies fieldPrompt memory (some (str "dev")) false).mode = .insights ∧
          (classifyIntent asciiTexts replies fieldPrompt).source = .analyticsGuardrail := by
  have hquery : looksLikeAnalyticsQuery asciiTexts fieldPrompt = true := by decide
  have hdev : normalizeOverride asciiTexts (some (str "dev")) = some .dev := by decide
  refine ⟨by unfold DevVerb; decide, ?_, fun replies memory => ⟨?_, classifyIntent_guarded.mpr hquery⟩⟩
  · intro hfirst
    exact (hfirst ⟨fun _ => .error [], fun _ => .error []⟩).2 (classifyIntent_guarded.mpr hquery)
  · rw [classifyMode_override hdev, hquery]
    rfl

theorem devFirst_doctype : DevFirst asciiTexts (str "Create a DocType for tickets!") :=
  (devFirst_iff (by unfold DevVerb; decide)).mpr (by decide)

end Precedence

end AlfredProcessing.Orchestrator.Classify
