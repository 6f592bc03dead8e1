import AlfredProcessing.Pipeline.Context

namespace AlfredProcessing.Pipeline.DryRun

open Lib.Json Lib.Effects Extract.Changes PostBuild.Backfill Context

variable (env : Env)

def liftPy : Except PyError α → Run α
  | .ok a => pure a
  | .error .attributeError => throw (.other "AttributeError")
  | .error .typeError => throw (.other "TypeError")
  | .error .valueError => throw (.other "ValueError")

/-- `_extract_changes`, whose items carry no annotations yet. -/
def extract (text : List Char) : Except PyError (List Change) :=
  (extractChanges env.interpreter text).map fun items => items.map fun i => { i with }

def infraError : DryRun where
  status := .infraError
  fields := [(str "valid", .bool false), (str "validated", .int 0),
    (str "issues", .list [.dict [(str "severity", .str (str "warning"))] .none])]

/-- What `_run` makes of the tool's answer. -/
def readAnswer : Value → DryRun
  | .dict d _ =>
    if (pyGet d "error").truthy then infraError
    else { status := if (pyGet d "valid").truthy then .ok else .invalid, fields := d }
  | _ => infraError

/-- `_run` of the dry run. -/
def runDryRun (p : Point) (answer : Value) (changes : List Change) : Run DryRun := do
  let answered ← attempt env p
  emit (.dryRan changes (if answered then some answer else none))
  pure (if answered then readAnswer answer else infraError)

/-- `list(pre.get("issues") or [])`, empty where it raises. -/
def listIssues : Value → List Value
  | .list xs => xs
  | .str s => s.map fun c => .str [c]
  | .dict d _ => d.map fun e => .str e.1
  | _ => []

def preCheckIssues : Value → List Value
  | .dict d _ =>
    if (pyGet d "error").truthy || (pyGet d "valid").truthy then []
    else listIssues (pyGet d "issues")
  | _ => []

/-- An issue of the static check in the shape of the dry run's issues. -/
def normalizeIssue : Value → Except PyError Value
  | .dict d _ =>
    .ok (.dict [
      (str "severity", (get (str "severity") d).getD (.str (str "critical"))),
      (str "issue", pyOr (pyOr (pyGet d "message") (pyGet d "issue")) (.str [])),
      (str "code", pyGet d "code"),
      (str "item_index", pyGet d "item_index"),
      (str "doctype", pyGet d "doctype"),
      (str "fix_hint", pyGet d "fix_hint")] .none)
  | _ => .error .attributeError

/-- `int(pre.get("checked") or 0)`. -/
def readChecked : Value → Run Int
  | .dict d _ =>
    match pyOr (pyGet d "checked") (.int 0) with
    | .bool b => pure (if b then 1 else 0)
    | .int n => pure n
    | .float m e => pure (if 0 ≤ e then m * Int.pow 10 e.toNat else m.tdiv (Int.pow 10 (-e).toNat))
    | .nonFinite .nan => throw (.other "ValueError")
    | .nonFinite _ => throw (.other "OverflowError")
    | .str s =>
      match env.intOfStr s with
      | some n => pure n
      | none => throw (.other "ValueError")
    | _ => throw (.other "TypeError")
  | _ => pure 0

def firstDryRun (changes : List Change) : Run DryRun := do
  let answered ← attempt env .preCheck
  let issues := if answered then preCheckIssues env.preCheckAnswer else []
  if issues.isEmpty then runDryRun env .dryRun env.dryRunAnswer changes
  else
    let normalized ← liftPy (issues.mapM normalizeIssue)
    let checked ← readChecked env env.preCheckAnswer
    pure {
      status := .invalid
      fields := [(str "valid", .bool false), (str "issues", .list normalized),
        (str "validated", .int checked)] }

def fixedChanges : List Change :=
  match extract env env.retryText with
  | .ok changes => changes
  | .error _ => []

def iterable : Value → Bool
  | .str _ => true
  | .list _ => true
  | .dict .. => true
  | .other .. => true
  | _ => false

def selfHeal (changes : List Change) (verdict : DryRun) : Run (DryRun × List Change) :=
  catching (do
    emit .selfHealed
    await env .fixCrew
    let fixed ← liftPy (extract env env.retryText)
    if fixed.isEmpty then
      send env .retryEmpty .agentStatus
      pure (verdict, changes)
    else
      let again ← runDryRun env .dryRunFixed env.fixedAnswer fixed
      pure (again, fixed))
  (do
    send env .retryFailed .agentStatus
    pure (verdict, changes))

/-- The texts for the retry are made before it starts: the issues are looked
through, and all of it is dumped. -/
def describeRetry (verdict : DryRun) : Run PUnit := do
  call env .dumpChanges
  if iterable ((get (str "issues") verdict.fields).getD (.list [])) then pure ⟨⟩
  else throw (.other "TypeError")

/-- `_dry_run_with_retry`; the second component is `_final_changes`. -/
def dryRunWithRetry (changes : List Change) : Run (DryRun × List Change) :=
  if !env.hasMcp then
    pure ({
      status := .skipped
      fields := [(str "valid", .bool true), (str "issues", .list []), (str "validated", .int 0)] },
      changes)
  else do
    send env .dryRunRunning .agentStatus
    let verdict ← firstDryRun env changes
    let w ← get
    if verdict.valid || 1 ≤ w.ctx.dryRunRetries then pure (verdict, changes)
    else
      updateCtx fun c => { c with dryRunRetries := 1 }
      describeRetry env verdict
      send env .dryRunRetry .agentStatus
      selfHeal env changes verdict

end AlfredProcessing.Pipeline.DryRun
