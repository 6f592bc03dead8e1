import AlfredProcessing.Pipeline.DryRun

namespace AlfredProcessing.Pipeline.Phases

open Lib.Json Lib.Effects Extract.Changes PostBuild.Backfill PostBuild.Reflection
  PostBuild.ReportHandoff Agents.ModuleSpecialist Context DryRun

/-- `AgentPipeline.PHASES`. -/
inductive Phase where
  | sanitize
  | loadState
  | warmup
  | planCheck
  | orchestrate
  | classifyIntent
  | classifyModule
  | enhance
  | clarify
  | injectKb
  | resolveMode
  | provideModuleContext
  | buildCrew
  | runCrew
  | postCrew
  deriving DecidableEq

def phases : List Phase :=
  [.sanitize, .loadState, .warmup, .planCheck, .orchestrate, .classifyIntent, .classifyModule,
    .enhance, .clarify, .injectKb, .resolveMode, .provideModuleContext, .buildCrew, .runCrew,
    .postCrew]

variable (env : Env)

def sanitize : Run PUnit := do
  call env .checkPrompt
  if env.promptCheck.allowed then pure ⟨⟩
  else
    stop env.promptCheck.rejectionReason
      (if env.promptCheck.needsReview then .needsReview else .promptBlocked)

def loadState : Run PUnit := do
  updateCtx fun c => { c with hasStore := env.hasStore }
  await env .loadMemory
  updateCtx fun c => { c with hasMemory := true }

def failureList (failures : List ProbeFailure) : String :=
  String.intercalate ", " (failures.map fun f => f.model ++ " (" ++ f.reason ++ ")")

def unhealthyError (failures : List ProbeFailure) : String :=
  "Processing service is unavailable: Ollama did not respond after 2 probe attempts " ++
    "(3s apart). Failed model(s): " ++ failureList failures ++ ". Check that Ollama is " ++
    "running (`ollama ps`) and that all tier models are loaded. Contact your admin if the " ++
    "issue persists."

/-- There is nothing to probe when no model is Ollama's or all of them answered
a short while ago. -/
def warmup : Run PUnit := do
  call env .resolveModels
  match env.probeFailures with
  | none => pure ⟨⟩
  | some failures =>
    pause env .probes
    if failures.isEmpty then pure ⟨⟩ else stop (unhealthyError failures) .ollamaUnhealthy

def checkPlan : Run PUnit := do
  await env .checkPlan
  if env.planResult.allowed then
    if env.planResult.warning then send env .planWarning .agentStatus
    match env.planResult.pipelineMode with
    | some mode => updateCtx fun c => { c with planPipelineMode := some mode }
    | none => pure ⟨⟩
  else stop (env.planResult.reason.getD "Plan limit exceeded") .planExceeded

def planCheck : Run PUnit :=
  if env.planConfigured then catching (checkPlan env) (pure ⟨⟩) else pure ⟨⟩

/-- `_save_memory_with_feedback`. -/
def saveMemory : Run PUnit := do
  let w ← get
  if w.ctx.hasMemory && w.ctx.hasStore then
    let saved ← attempt env .saveMemory
    if saved then pure ⟨⟩ else send env .memoryNotice .info
  else pure ⟨⟩

/-- The three short circuits. A handler that raises is answered for with a
canned reply. -/
def shortCircuit (handler : Point) (reply : Point) (m : Message) : Run PUnit := do
  let _ ← attempt env handler
  send env reply m
  saveMemory env

def runChatShortCircuit : Run PUnit := shortCircuit env .handleChat .chatReply .chatReply

def runInsightsShortCircuit : Run PUnit :=
  shortCircuit env .handleInsights .insightsReply .insightsReply

def runPlanShortCircuit : Run PUnit := shortCircuit env .handlePlan .planDoc .planDoc

def orchestrate : Run PUnit :=
  if env.orchestratorEnabled then do
    await env .classifyMode
    updateCtx fun c => { c with mode := env.decision }
    send env .modeSwitch (.modeSwitch env.decision)
    match env.decision with
    | .chat =>
      runChatShortCircuit env
      updateCtx fun c => { c with shouldStop := true }
    | .insights =>
      runInsightsShortCircuit env
      updateCtx fun c => { c with shouldStop := true }
    | .plan =>
      runPlanShortCircuit env
      updateCtx fun c => { c with shouldStop := true }
    | .dev => pure ⟨⟩
  else updateCtx fun c => { c with mode := .dev }

/-- Every phase behind the orchestrator is for dev mode only. -/
def inDev (x : Run PUnit) : Run PUnit := do
  let w ← get
  if w.ctx.mode = .dev then x else pure ⟨⟩

def classifyIntent : Run PUnit := inDev <|
  if env.perIntentBuilders then
    match env.reportMarker.filter fun _ => env.reportHandoff with
    | some candidate =>
      updateCtx fun c =>
        { c with reportCandidate := some candidate, intent := some "create_report" }
    | none => do
      await env .classifyIntent
      updateCtx fun c => { c with intent := some env.intentDecision }
  else pure ⟨⟩

def classifyModule : Run PUnit := inDev <|
  if env.perIntentBuilders && env.moduleSpecialists then do
    await env .detectModules
    updateCtx fun c =>
      { c with
        module := env.moduleDecision
        secondaryModules := if env.multiModule then env.secondaryDecision else c.secondaryModules }
  else pure ⟨⟩

def enhance : Run PUnit := inDev <| do
  send env .enhancing .agentStatus
  await env .enhancePrompt
  updateCtx fun c => { c with enhancedPrompt := env.enhancedPrompt }

/-- `_clarify_requirements` catches every exception itself. -/
def clarify : Run PUnit := inDev <| do
  pause env .clarify
  updateCtx fun c => { c with enhancedPrompt := env.clarifiedPrompt }

/-- The searches fail open, so only the code around them may raise. -/
def injectKb : Run PUnit := inDev <| do
  let w ← get
  if w.ctx.shouldStop || w.ctx.enhancedPrompt.isEmpty then pure ⟨⟩
  else
    call env .searchKb
    if env.hasMcp then pause env .siteDetails
    updateCtx fun c => { c with enhancedPrompt := env.injectedPrompt }

def resolveMode : Run PUnit := inDev <| do
  let w ← get
  match w.ctx.planPipelineMode with
  | some mode => updateCtx fun c => { c with pipelineMode := mode }
  | none =>
    call env .readMode
    updateCtx fun c => { c with pipelineMode := env.sitePipelineMode }
  send env .modeResolved .agentStatus

def provideModuleContext : Run PUnit := inDev <| do
  let w ← get
  if env.perIntentBuilders && env.moduleSpecialists && w.ctx.module.any (!·.isEmpty) then
    call env .loadKbs
    pause env .provideContext
  else pure ⟨⟩

def buildCrew : Run PUnit := inDev <| do
  let w ← get
  if w.ctx.hasStore then await env .deleteCrewState
  call env .buildCrew
  updateCtx fun c => { c with dryRunRetries := 0 }

def runCrew : Run PUnit := inDev <| do
  await env .runCrew
  updateCtx fun c => { c with crewResult := some env.crewResult }
  catching (if env.tokensRecorded then send env .usage .usage else pure ⟨⟩) (pure ⟨⟩)

/-- `apply_rescue_if_empty`, with `_rescue_regenerate_changeset`. -/
def applyRescueIfEmpty (changes : List Change) : Run (List Change) :=
  if !changes.isEmpty then pure changes
  else do
    let w ← get
    if w.ctx.enhancedPrompt.isEmpty then pure []
    else
      let regenerated ← attempt env .rescue
      if regenerated then
        match extract env env.rescueText with
        | .ok changes => pure changes
        | .error _ => pure []
      else pure []

/-- What `apply_defaults_backfill` makes of the changes, unless it fails. -/
def backfilled (c : Ctx) (changes : List Change) : Except PyError (List Change) :=
  backfillDefaultsRaw env.registry env.modules c.intent
    (if env.moduleSpecialists then c.module else none)
    (if env.multiModule then c.secondaryModules else []) changes

/-- `apply_defaults_backfill`, which keeps the changes when it fails. -/
def applyDefaultsBackfill (c : Ctx) (changes : List Change) : List Change :=
  if changes.isEmpty || !env.perIntentBuilders then changes
  else
    match backfilled env c changes with
    | .ok changes => changes
    | .error _ => changes

/-- The notes of `apply_module_validation`; those of a secondary module that
raises are left out. -/
def moduleNotes (c : Ctx) (module : String) (changes : List Change) : List ValidationNote :=
  match validateOutput env.fold env.modules module changes (env.noteReply module) with
  | .error _ => []
  | .ok notes =>
    notes ++ (if env.multiModule then c.secondaryModules else []).flatMap fun m =>
      match validateOutput env.fold env.modules m changes (env.noteReply m) with
      | .ok notes => capSecondarySeverity notes
      | .error _ => []

/-- `apply_module_validation`. -/
def applyModuleValidation (changes : List Change) : Run PUnit := do
  let w ← get
  match w.ctx.module.filter (!·.isEmpty) with
  | some module =>
    if !changes.isEmpty && env.perIntentBuilders && env.moduleSpecialists then
      pause env .validateModule
      updateCtx fun c => { c with moduleValidationNotes := moduleNotes env c module changes }
    else pure ⟨⟩
  | none => pure ⟨⟩

def emptyError (drift : Option String) : String :=
  match drift with
  | some reason =>
    "Alfred's output was off-topic (" ++ reason ++ "). The rescue path also couldn't produce a " ++
      "valid changeset. Please rephrase with the exact DocType name and the exact rule, e.g. " ++
      "\"On Employee DocType, before insert, throw an error if age is less than 24.\""
  | none =>
    "Alfred couldn't turn this request into a deployable change. The agent produced text " ++
      "instead of a structured changeset, which usually means the customization type isn't " ++
      "supported yet or the request needs rephrasing. Try restating with the exact DocType " ++
      "name and action, or check the docs for supported capabilities."

def setChanges (changes : List Change) : Run PUnit := updateCtx fun c => { c with changes := changes }

/-- `reflect_minimality`, which keeps the changes when no verdict comes. -/
def reflectMinimality (changes : List Change) : Run (List Change × List Removed) :=
  if asksReviewer env.reflectionEnabled env.hasPrompt changes then do
    pause env .reflect
    pure (prune (env.verdict.filter fun _ => env.raised .reflect = none) changes)
  else pure (changes, [])

def shipChangeset (changes : List Change) : Run PUnit := do
  let (dryRun, changes) ← dryRunWithRetry env changes
  updateCtx fun c => { c with dryRunResult := some dryRun, changes := changes }
  saveMemory env
  let w ← get
  send env .preview
    (.changeset changes (w.ctx.resultText.take 4000) dryRun w.ctx.moduleValidationNotes w.ctx.module
      w.ctx.secondaryModules)

/-- The part of `_phase_post_crew` behind the safety nets. -/
def finishChangeset (changes : List Change) : Run PUnit := do
  let (changes, removed) ← reflectMinimality env changes
  updateCtx fun c => { c with changes := changes, removedByReflection := removed }
  if !removed.isEmpty then send env .minimalityReview .agentStatus
  shipChangeset env changes

def safetyNets (resultText : List Char) : Run (List Change) := do
  let extracted ← liftPy (if env.driftReason.isSome then .ok [] else extract env resultText)
  setChanges extracted
  let rescued ← applyRescueIfEmpty env extracted
  let w ← get
  let filled := applyDefaultsBackfill env w.ctx rescued
  let handed := applyReportHandoffSafetyNet env.dumps w.ctx.intent w.ctx.reportCandidate filled
  setChanges handed
  applyModuleValidation env handed
  pure handed

def postCrew : Run PUnit := inDev <| do
  let w ← get
  match w.ctx.crewResult with
  | some (.completed result) =>
    updateCtx fun c => { c with resultText := result }
    send env .crewFinished .agentStatus
    let changes ← safetyNets env result
    if changes.isEmpty then stop (emptyError env.driftReason) .emptyChangeset
    else finishChangeset env changes
  | some (.failed error) => stop error .pipelineFailed
  | none => stop "Pipeline failed" .pipelineFailed

def phase : Phase → Run PUnit
  | .sanitize => sanitize env
  | .loadState => loadState env
  | .warmup => warmup env
  | .planCheck => planCheck env
  | .orchestrate => orchestrate env
  | .classifyIntent => classifyIntent env
  | .classifyModule => classifyModule env
  | .enhance => enhance env
  | .clarify => clarify env
  | .injectKb => injectKb env
  | .resolveMode => resolveMode env
  | .provideModuleContext => provideModuleContext env
  | .buildCrew => buildCrew env
  | .runCrew => runCrew env
  | .postCrew => postCrew env

end AlfredProcessing.Pipeline.Phases
