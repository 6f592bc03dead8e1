import AlfredProcessing.Lib.JsonDump

namespace AlfredProcessing.Tools.McpTools

open Lib Lib.JsonDump

theorem wellFormed_chars (cs : List Char) : wellFormed (cs.map Char.toNat) := by
  induction cs with
  | nil => rfl
  | cons c cs ih =>
    have hvalid : c.toNat < 0xD800 ∨ 0xDFFF < c.toNat ∧ c.toNat < 0x110000 := c.valid
    cases cs with
    | nil =>
      simp only [List.map_cons, List.map_nil, wellFormed, decide_eq_true_eq]
      omega
    | cons d cs =>
      simp only [List.map_cons, wellFormed, isHigh, isLow, Bool.and_eq_true, decide_eq_true_eq,
        Bool.not_eq_true', Bool.and_eq_false_iff, decide_eq_false_iff_not]
      exact ⟨⟨by omega, .inl (by omega)⟩, ih⟩

def text (cs : List Char) : JsonDump.Text := ⟨cs.map Char.toNat, wellFormed_chars cs⟩

abbrev ToolName := { name : List Char // ':' ∉ name }

/-- A JSON object with its keys in some order. -/
structure Arguments where
  entries : List (JsonDump.Text × Tree)
  distinct : Distinct (.dict entries)

def Arguments.empty : Arguments where
  entries := []
  distinct := ⟨List.nodup_nil, trivial⟩

/-- `mcp_client.run_state`. -/
structure RunState where
  conversationId : List Char
  callBudget : Nat
  callsMade : Nat
  callsByTool : List (List Char × Nat)
  failures : List (List Char × Tree)
  failureCount : Nat
  dedupCache : List (List Char × List Char)
  dedupHits : Nat
  lookupToolsCalled : List (List Char)

/-- What `call_sync` returns or raises. -/
inductive ClientReply where
  | result (v : Tree)
  | timeoutError
  | exception (e : List Char)

inductive Outcome where
  | overBudget
  | cached
  | result
  | raised
  deriving DecidableEq

/-- The string for the agent, with what became of the call. -/
structure Ran where
  json : List Char
  outcome : Outcome
  sent : Bool
  state : RunState

def toolsRequiringPriorLookup : List (List Char) := ["dry_run_changeset".toList]

def lookupTools : List (List Char) :=
  ["lookup_doctype".toList, "get_doctype_schema".toList, "get_doctypes".toList,
    "lookup_pattern".toList, "get_existing_customizations".toList, "get_doctype_context".toList,
    "get_doctype_perms".toList, "find_field".toList, "validate_changeset".toList]

/-- `_args_key`. -/
def argsKey (arguments : Arguments) : List Char := dump (sortKeys (.dict arguments.entries))

def dedupKey (toolName : List Char) (arguments : Arguments) : List Char :=
  toolName ++ ':' :: ':' :: argsKey arguments

def lookup (key : List Char) (cache : List (List Char × List Char)) : Option (List Char) :=
  (cache.find? fun e => e.1 = key).map Prod.snd

/-- `by_tool[tool_name] = by_tool.get(tool_name, 0) + 1`. -/
def bump (toolName : List Char) : List (List Char × Nat) → List (List Char × Nat)
  | [] => [(toolName, 1)]
  | (t, n) :: rest => if t = toolName then (t, n + 1) :: rest else (t, n) :: bump toolName rest

/-- `d.get("error")` of a dictionary, where it is one that counts. -/
def errorOf : Tree → Option Tree
  | .dict es =>
    match es.find? fun e => e.1 = text "error".toList with
    | some e => if e.2.truthy then some e.2 else none
    | none => none
  | _ => none

def setEntry (key : JsonDump.Text) (v : Tree) :
    List (JsonDump.Text × Tree) → List (JsonDump.Text × Tree)
  | [] => [(key, v)]
  | (k, u) :: es => if k = key then (k, v) :: es else (k, u) :: setEntry key v es

def errorJson (error message : List Char) : List Char :=
  dump (.dict [(text "error".toList, .str (text error)), (text "message".toList, .str (text message))])

def misuseWarning : List Char :=
  "WARNING: you called a validation tool before any schema lookup. You should call lookup_doctype (or get_doctype_schema) FIRST to verify the target DocType and field names before validating. The tool ran anyway, but consider this a signal to double-check.".toList

def budgetMessage (callsMade budget : Nat) : List Char :=
  "MCP call budget exceeded (".toList ++ intText callsMade ++ " >= ".toList ++ intText budget ++
    "). You have called too many tools in this pipeline run - either the previous responses already have the answer, or you're in a loop. Stop calling tools and finalize your output using what you already know.".toList

def timeoutMessage (toolName : List Char) : List Char :=
  "MCP tool '".toList ++ toolName ++ "' timed out. The client app may be unresponsive.".toList

section Calls

variable (str : Tree → List Char)

/-- `_format_failure_hint`. -/
def formatFailureHint (failures : List (List Char × Tree)) : List Char :=
  if failures.isEmpty then []
  else
    let recent := failures.drop (failures.length - 3)
    "Previous failures in this run: ".toList ++
      "; ".toList.intercalate (recent.map fun e => e.1 ++ ": ".toList ++ str e.2)

def RunState.recordResult (s : RunState) (toolName : List Char) (result : Tree) : RunState :=
  let s := { s with
    callsMade := s.callsMade + 1
    callsByTool := bump toolName s.callsByTool
    lookupToolsCalled :=
      if lookupTools.contains toolName && !s.lookupToolsCalled.contains toolName then
        s.lookupToolsCalled ++ [toolName]
      else s.lookupToolsCalled }
  match errorOf result with
  | some error =>
    { s with failures := s.failures ++ [(toolName, error)], failureCount := s.failureCount + 1 }
  | none => s

def RunState.recordFailure (s : RunState) (toolName error : List Char) : RunState :=
  { s with
    failures := s.failures ++ [(toolName, .str (text error))]
    failureCount := s.failureCount + 1
    callsMade := s.callsMade + 1 }

def misuseHint (s : RunState) (toolName : List Char) : List Char :=
  if toolsRequiringPriorLookup.contains toolName && s.lookupToolsCalled.isEmpty then misuseWarning
  else []

/-- The result with the notes for the agent, where there are any. -/
def payload (misuse : List Char) (failures : List (List Char × Tree)) (result : Tree) : Tree :=
  match result with
  | .dict es =>
    let hint := formatFailureHint str failures
    let notes := [misuse, hint].filter (!·.isEmpty)
    if notes.isEmpty then .dict es
    else
      .dict (setEntry (text "_alfred_notes".toList) (.list (notes.map fun n => .str (text n))) es)
  | v => v

/-- `_mcp_call` on a client with a run state. -/
def callTracked (s : RunState) (toolName : List Char) (arguments : Arguments)
    (reply : ClientReply) : Ran :=
  if s.callBudget ≤ s.callsMade then
    ⟨errorJson "budget_exceeded".toList (budgetMessage s.callsMade s.callBudget), .overBudget,
      false, s⟩
  else
    match lookup (dedupKey toolName arguments) s.dedupCache with
    | some json => ⟨json, .cached, false, { s with dedupHits := s.dedupHits + 1 }⟩
    | none =>
      match reply with
      | .result v =>
        let s' := s.recordResult toolName v
        let json := dumpIndented 0 (payload str (misuseHint s toolName) s'.failures v)
        ⟨json, .result, true,
          { s' with dedupCache := s'.dedupCache ++ [(dedupKey toolName arguments, json)] }⟩
      | .timeoutError =>
        ⟨errorJson "timeout".toList (timeoutMessage toolName), .raised, true,
          s.recordFailure toolName "timeout".toList⟩
      | .exception e =>
        ⟨errorJson "mcp_failure".toList e, .raised, true,
          s.recordFailure toolName "mcp_failure".toList⟩

/-- `_mcp_call` on a client without one. -/
def callBare (toolName : List Char) : ClientReply → List Char
  | .result v => dumpIndented 0 v
  | .timeoutError => errorJson "timeout".toList (timeoutMessage toolName)
  | .exception e => errorJson "mcp_failure".toList e

/-- `_mcp_call`. -/
def mcpCall (runState : Option RunState) (toolName : List Char) (arguments : Option Arguments)
    (reply : ClientReply) : List Char × Option RunState :=
  match runState with
  | none => (callBare toolName reply, none)
  | some s =>
    let ran := callTracked str s toolName (arguments.getD .empty) reply
    (ran.json, some ran.state)

/-- One call of an agent, with what the client would say to it. -/
structure Invocation where
  toolName : ToolName
  arguments : Option Arguments
  reply : ClientReply

def Invocation.args (i : Invocation) : Arguments := i.arguments.getD .empty

def Invocation.key (i : Invocation) : List Char := dedupKey i.toolName.1 i.args

def ran (s : RunState) (i : Invocation) : Ran := callTracked str s i.toolName.1 i.args i.reply

def after (s : RunState) (is : List Invocation) : RunState :=
  is.foldl (fun s i => (ran str s i).state) s

/-- How many of the calls end in a way that `p` picks. -/
def count (p : Ran → Bool) (s : RunState) : List Invocation → Nat
  | [] => 0
  | i :: is => (if p (ran str s i) then 1 else 0) + count p (ran str s i).state is

end Calls

section Keys

end Keys

section Runs

variable (str : Tree → List Char)

def total : List (List Char × Nat) → Nat
  | [] => 0
  | (_, n) :: rest => n + total rest

/-- All that a call can do to the books and to the cache. -/
inductive Step (s : RunState) (key : List Char) (r : Ran) : Prop
  | overBudget (h : s.callBudget ≤ s.callsMade) (outcome : r.outcome = .overBudget)
    (sent : r.sent = false) (state : r.state = s)
  | cached (h : s.callsMade < s.callBudget) (hit : lookup key s.dedupCache = some r.json)
    (outcome : r.outcome = .cached) (sent : r.sent = false)
    (state : r.state = { s with dedupHits := s.dedupHits + 1 })
  | result (h : s.callsMade < s.callBudget) (miss : lookup key s.dedupCache = none)
    (outcome : r.outcome = .result) (sent : r.sent = true)
    (budget : r.state.callBudget = s.callBudget) (made : r.state.callsMade = s.callsMade + 1)
    (byTool : total r.state.callsByTool = total s.callsByTool + 1)
    (cache : r.state.dedupCache = s.dedupCache ++ [(key, r.json)])
  | raised (h : s.callsMade < s.callBudget) (miss : lookup key s.dedupCache = none)
    (outcome : r.outcome = .raised) (sent : r.sent = true)
    (budget : r.state.callBudget = s.callBudget) (made : r.state.callsMade = s.callsMade + 1)
    (byTool : total r.state.callsByTool = total s.callsByTool)
    (cache : r.state.dedupCache = s.dedupCache)

/-- A call that returned a result, its own or one from the cache. -/
def Ran.returned (r : Ran) : Prop := r.outcome = .result ∨ r.outcome = .cached

end Runs

end AlfredProcessing.Tools.McpTools
