import AlfredProcessing.Pipeline.Phases

namespace AlfredProcessing.Pipeline.Runner

open Lib.Effects Context Phases

variable (env : Env)

def runPhases : List Phase → Run PUnit
  | [] => pure ⟨⟩
  | p :: ps => do
    let w ← get
    if w.ctx.shouldStop then pure ⟨⟩
    else
      phase env p
      runPhases ps

/-- `_send_error`. -/
def sendError (error : String) (code : Code) : Run PUnit :=
  if code = .userCancel then send env .reportError (.runCancelled error)
  else send env .reportError (.error error code)

/-- The error of a stop signal, when the run was stopped by one. -/
def reportStop : Run PUnit := do
  let w ← get
  match w.ctx.stopSignal with
  | some s => if w.ctx.shouldStop then sendError env s.error s.code else pure ⟨⟩
  | none => pure ⟨⟩

def timeoutError : String :=
  "Pipeline timed out. The conversation has been saved - you can resume later."

/-- The two `except` clauses, behind which `run` returns. -/
def reportException : Exc → Run PUnit
  | .timeout => sendError env timeoutError .pipelineTimeout
  | .other message => sendError env message .pipelineError
  | .cancelled => throw .cancelled

/-- `AgentPipeline.run`. -/
def run : Run PUnit := do
  let finished ← tryCatch (do runPhases env phases; pure true) fun e => do
    reportException env e
    pure false
  if finished then reportStop env else pure ⟨⟩

/-- The states before and after each phase that a run enters. -/
def phaseSteps : List Phase → World → List (World × World)
  | [], _ => []
  | p :: ps, w =>
    if w.ctx.shouldStop then []
    else
      match exec (phase env p) w with
      | (.ok _, w') => (w, w') :: phaseSteps ps w'
      | (.error _, w') => [(w, w')]

end AlfredProcessing.Pipeline.Runner
