import Mathlib.Data.List.Basic
import Mathlib.Logic.Function.Basic

namespace AlfredProcessing.Agents.RunCrew

inductive TaskName where
  | gatherRequirements
  | assessFeasibility
  | designSolution
  | generateChangeset
  | validateChangeset
  | deployChangeset
  deriving DecidableEq

/-- `task_names` of `run_crew`, which is also the order of `task_definitions`. -/
def taskNames : List TaskName :=
  [.gatherRequirements, .assessFeasibility, .designSolution, .generateChangeset,
    .validateChangeset, .deployChangeset]

structure Completion where
  output : String
  completedAt : Nat
  deriving DecidableEq

structure CrewState where
  completedTasks : TaskName → Option Completion := fun _ => none

def CrewState.markTaskComplete (s : CrewState) (t : TaskName) (output : String) (now : Nat) :
    CrewState :=
  { s with completedTasks := Function.update s.completedTasks t (some ⟨output, now⟩) }

/-- A crew with the state that its builder returns next to it: some of the
tasks, in order, none of them completed yet. -/
structure Crew where
  alfredTaskNames : List TaskName
  state : CrewState
  ordered : alfredTaskNames.Sublist taskNames
  fresh : ∀ t ∈ alfredTaskNames, state.completedTasks t = none

/-- The outputs of earlier tasks that the task descriptions are formatted with. -/
structure FormatVars where
  requirements : String
  assessment : String
  design : String
  changeset : String
  validation : String

def formatVars (s : CrewState) : FormatVars :=
  let get (t : TaskName) (fallback : String) := ((s.completedTasks t).map Completion.output).getD fallback
  { requirements := get .gatherRequirements "Not yet gathered"
    assessment := get .assessFeasibility "Not yet assessed"
    design := get .designSolution "Not yet designed"
    changeset := get .generateChangeset "Not yet generated"
    validation := get .validateChangeset "Not yet validated" }

/-- The placeholder that carries a task's output into later tasks; nothing
follows the deployment. -/
def FormatVars.of (v : FormatVars) : TaskName → Option String
  | .gatherRequirements => some v.requirements
  | .assessFeasibility => some v.assessment
  | .designSolution => some v.design
  | .generateChangeset => some v.changeset
  | .validateChangeset => some v.validation
  | .deployChangeset => none

/-- The completed tasks of a previous state are skipped. -/
def buildAlfredCrew (previous : Option CrewState) : Crew × FormatVars :=
  let s := previous.getD {}
  ({ alfredTaskNames := taskNames.filter fun t => (s.completedTasks t).isNone
     state := s
     ordered := List.filter_sublist
     fresh := fun t ht => by simpa using (List.mem_filter.mp ht).2 },
    formatVars s)

/-- The single-task crew; the pipeline passes it no previous state. -/
def buildLiteCrew : Crew where
  alfredTaskNames := [.generateChangeset]
  state := {}
  ordered := by decide
  fresh _ _ := rfl

/-- What `crew.kickoff` comes back with: the final result and what each task
put out, or an exception. -/
inductive Kickoff where
  | returned (result : String) (output : TaskName → Option String)
  | raised (error : String)

/-- The loop over `crew.tasks` in `run_crew`, from position `i` on. -/
def recordOutputs (active : List TaskName) (clock : Nat → Nat) :
    Nat → List (Option String) → CrewState × Option String → CrewState × Option String
  | _, [], acc => acc
  | i, out :: outs, (s, changeset) =>
    match taskNames[i]?, out with
    | some name, some raw =>
      recordOutputs active clock (i + 1) outs
        (s.markTaskComplete name raw (clock i),
          if active[i]?.getD name = .generateChangeset then some raw else changeset)
    | _, _ => recordOutputs active clock (i + 1) outs (s, changeset)

/-- `changeset_output or str(result)`. -/
def finalResult (changeset : Option String) (result : String) : String :=
  match changeset with
  | some raw => if raw = "" then result else raw
  | none => result

def runCrew (crew : Crew) (clock : Nat → Nat) : Kickoff → CrewState × Except String String
  | .returned result output =>
    let (s, changeset) := recordOutputs crew.alfredTaskNames clock 0
      (crew.alfredTaskNames.map output) (crew.state, none)
    (s, .ok (finalResult changeset result))
  | .raised error => (crew.state, .error error)

end AlfredProcessing.Agents.RunCrew
