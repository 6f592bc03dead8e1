import AlfredProcessing.Agents.ModuleSpecialist
import AlfredProcessing.Lib.Effects
import AlfredProcessing.PostBuild.Reflection
import AlfredProcessing.PostBuild.ReportHandoff

namespace AlfredProcessing.Pipeline.Context

open Lib.Json Lib.Effects Extract.Parse Extract.Changes PostBuild.Backfill PostBuild.Reflection
  Agents.ModuleSpecialist

/-- The exceptions that a phase may raise, as far as the runner tells them
apart. A cancelled task sees the last one, which is no `Exception`. -/
inductive Exc where
  | timeout
  | other (message : String)
  | cancelled
  deriving DecidableEq

inductive Code where
  | promptBlocked
  | needsReview
  | ollamaUnhealthy
  | planExceeded
  | pipelineFailed
  | emptyChangeset
  | pipelineTimeout
  | pipelineError
  | userCancel
  deriving DecidableEq

structure StopSignal where
  error : String
  code : Code
  deriving DecidableEq

inductive Mode where
  | dev
  | plan
  | insights
  | chat
  deriving DecidableEq

inductive PipelineMode where
  | full
  | lite
  deriving DecidableEq

inductive CrewResult where
  | completed (result : List Char)
  | failed (error : String)

inductive DryRunStatus where
  | ok
  | invalid
  | infraError
  | skipped
  deriving DecidableEq

structure DryRun where
  status : DryRunStatus
  fields : Dict

/-- `dry_run.get("valid")`, as a condition. -/
def DryRun.valid (d : DryRun) : Bool := (pyGet d.fields "valid").truthy

/-- `PipelineContext`, as far as a phase reads it. -/
structure Ctx where
  mode : Mode := .dev
  hasStore : Bool := false
  hasMemory : Bool := false
  intent : Option String := none
  module : Option String := none
  secondaryModules : List String := []
  reportCandidate : Option Dict := none
  planPipelineMode : Option PipelineMode := none
  pipelineMode : PipelineMode := .full
  enhancedPrompt : String := ""
  crewResult : Option CrewResult := none
  resultText : List Char := []
  changes : List Change := []
  removedByReflection : List Removed := []
  moduleValidationNotes : List ValidationNote := []
  dryRunRetries : Nat := 0
  dryRunResult : Option DryRun := none
  shouldStop : Bool := false
  stopSignal : Option StopSignal := none

/-- The messages of a run. Those without a result only carry their type. -/
inductive Message where
  | agentStatus
  | modeSwitch (mode : Mode)
  | usage
  | info
  | chatReply
  | insightsReply
  | planDoc
  | changeset (changes : List Change) (resultText : List Char) (dryRun : DryRun)
    (moduleValidationNotes : List ValidationNote) (detectedModule : Option String)
    (detectedModuleSecondaries : List String)
  | error (error : String) (code : Code)
  | runCancelled (reason : String)

/-- What a run does that can be seen from outside, and the stops it is given. A
dry run is logged with its answer, none when the call raised. -/
inductive Event where
  | sent (m : Message)
  | stopped (s : StopSignal)
  | dryRan (changes : List Change) (answer : Option Value)
  | selfHealed

structure World where
  ctx : Ctx := {}
  log : List Event := []

/-- The calls of the phases that leave the module, each of which a run makes at
most once. A call stands for all the awaits that are made inside it. -/
inductive Point where
  | checkPrompt
  | loadMemory
  | resolveModels
  | probes
  | checkPlan
  | planWarning
  | classifyMode
  | modeSwitch
  | handleChat
  | chatReply
  | handleInsights
  | insightsReply
  | handlePlan
  | planDoc
  | saveMemory
  | memoryNotice
  | classifyIntent
  | detectModules
  | enhancing
  | enhancePrompt
  | clarify
  | searchKb
  | siteDetails
  | readMode
  | modeResolved
  | loadKbs
  | provideContext
  | deleteCrewState
  | buildCrew
  | runCrew
  | usage
  | crewFinished
  | rescue
  | validateModule
  | reflect
  | minimalityReview
  | dryRunRunning
  | preCheck
  | dryRun
  | dumpChanges
  | dryRunRetry
  | fixCrew
  | dryRunFixed
  | retryEmpty
  | retryFailed
  | preview
  | reportError
  deriving DecidableEq

structure PromptCheck where
  allowed : Bool
  needsReview : Bool
  rejectionReason : String

structure ProbeFailure where
  model : String
  baseUrl : String
  reason : String

structure PlanResult where
  allowed : Bool
  reason : Option String
  warning : Bool
  pipelineMode : Option PipelineMode

/-- Everything that a run meets: the settings, what the calls at each point
answer or raise, and at which of them a cancel frame is handled meanwhile.
`landed` tells whether a message got out when the task was cancelled while
sending it. `dumps` is `json.dumps`, `fold` lowers a string and collapses its
white space, and `intOfStr` is `int` on strings. -/
structure Env where
  frame : Point → Bool
  raised : Point → Option Exc
  landed : Point → Bool
  hasStore : Bool
  hasMcp : Bool
  hasPrompt : Bool
  perIntentBuilders : Bool
  moduleSpecialists : Bool
  multiModule : Bool
  reportHandoff : Bool
  orchestratorEnabled : Bool
  reflectionEnabled : Bool
  planConfigured : Bool
  promptCheck : PromptCheck
  probeFailures : Option (List ProbeFailure)
  planResult : PlanResult
  decision : Mode
  reportMarker : Option Dict
  intentDecision : String
  moduleDecision : Option String
  secondaryDecision : List String
  enhancedPrompt : String
  clarifiedPrompt : String
  injectedPrompt : String
  sitePipelineMode : PipelineMode
  crewResult : CrewResult
  tokensRecorded : Bool
  driftReason : Option String
  interpreter : Extract.Parse.Interpreter
  rescueText : List Char
  registry : IntentRegistry
  modules : ModuleRegistry
  dumps : Value → Str
  verdict : Option Verdict
  noteReply : String → NoteReply
  fold : Str → Str
  intOfStr : Str → Option Int
  preCheckAnswer : Value
  dryRunAnswer : Value
  retryText : List Char
  fixedAnswer : Value

/-- A dev run where every call returns, no setting is on and the crew writes
`text`. -/
def Env.smooth (text : List Char) : Env where
  frame _ := false
  raised _ := none
  landed _ := true
  hasStore := false
  hasMcp := false
  hasPrompt := true
  perIntentBuilders := false
  moduleSpecialists := false
  multiModule := false
  reportHandoff := false
  orchestratorEnabled := false
  reflectionEnabled := false
  planConfigured := false
  promptCheck := { allowed := true, needsReview := false, rejectionReason := "" }
  probeFailures := none
  planResult := { allowed := true, reason := none, warning := false, pipelineMode := none }
  decision := .dev
  reportMarker := none
  intentDecision := "unknown"
  moduleDecision := none
  secondaryDecision := []
  enhancedPrompt := "enhanced"
  clarifiedPrompt := "clarified"
  injectedPrompt := "injected"
  sitePipelineMode := .full
  crewResult := .completed text
  tokensRecorded := false
  driftReason := none
  interpreter := Extract.Parse.jsonOnly
  rescueText := []
  registry := []
  modules := []
  dumps _ := []
  verdict := none
  noteReply _ := .unreadable
  fold := id
  intOfStr _ := none
  preCheckAnswer := .dict [(str "valid", .bool true)] .none
  dryRunAnswer := .dict [(str "valid", .bool true)] .none
  retryText := []
  fixedAnswer := .dict [(str "valid", .bool true)] .none

abbrev Run := Program World Exc

def updateCtx (f : Ctx → Ctx) : Run PUnit := modify fun w => { w with ctx := f w.ctx }

def emit (e : Event) : Run PUnit := modify fun w => { w with log := w.log ++ [e] }

/-- `PipelineContext.stop`. -/
def stop (error : String) (code : Code) : Run PUnit :=
  modify fun w =>
    { ctx := { w.ctx with shouldStop := true, stopSignal := some { error := error, code := code } }
      log := w.log ++ [.stopped { error := error, code := code }] }

def cancelSignal : StopSignal := { error := "Cancelled by user", code := .userCancel }

variable (env : Env)

/-- While the run waits, the `cancel` branch of `_handle_custom_message` may run. -/
def handleFrames (p : Point) : Run PUnit :=
  if env.frame p then stop cancelSignal.error cancelSignal.code else pure ⟨⟩

def await (p : Point) : Run PUnit := do
  handleFrames env p
  match env.raised p with
  | some e => throw e
  | none => pure ⟨⟩

/-- An await that only ends early when the task is cancelled. -/
def pause (p : Point) : Run PUnit := do
  handleFrames env p
  if env.raised p = some .cancelled then throw .cancelled else pure ⟨⟩

def call (p : Point) : Run PUnit :=
  match env.raised p with
  | some .cancelled => pure ⟨⟩
  | some e => throw e
  | none => pure ⟨⟩

/-- `try: ... except Exception`. -/
def catching (x : Run α) (handler : Run α) : Run α :=
  tryCatch x fun e => if e = .cancelled then throw e else handler

/-- An await whose exceptions are caught on the spot; tells whether it returned. -/
def attempt (p : Point) : Run Bool :=
  catching (await env p >>= fun _ => pure true) (pure false)

/-- `conn.send` on a connection that takes the message. -/
def send (p : Point) (m : Message) : Run PUnit := do
  handleFrames env p
  if env.raised p = some .cancelled then
    if env.landed p then emit (.sent m)
    throw .cancelled
  else emit (.sent m)

end AlfredProcessing.Pipeline.Context
