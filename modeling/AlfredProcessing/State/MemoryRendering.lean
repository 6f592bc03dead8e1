import AlfredProcessing.State.ConversationMemory

namespace AlfredProcessing.State.MemoryRendering

open Lib.Json Extract.Changes Extract.Cleaning ConversationMemory

section Model

def maxPlanStepsRendered : Nat := 8

variable (py : Python)

def isStr (v : Value) (s : String) : Bool :=
  match v with
  | .str t => t = str s
  | _ => false

def snippet (n : Nat) (s : Str) : Str := if s.length ≤ n then s else s.take n ++ str "..."

def itemLine (it : Value) : Option Str := do
  let it ← asDict it
  let op := (get (str "op") it).getD (.str (str "create"))
  let doctype := (get (str "doctype") it).getD (.str (str "?"))
  let name := pyGet it "name"
  let on := pyGet it "on"
  return str "- " ++ py.toStr op ++ str " " ++ py.toStr doctype ++
    (if name.truthy then str " \"" ++ py.toStr name ++ str "\"" else []) ++
    (if on.truthy then str " on " ++ py.toStr on else [])

def pairLines (c : Value) : Option (List Str) := do
  let c ← asDict c
  let q ← get (str "q") c
  let a ← get (str "a") c
  return [str "- Q: " ++ py.toStr q, str "  A: " ++ py.toStr a]

def stepLine (step : Value) : Option Str := do
  let step ← asDict step
  let order := (get (str "order") step).getD (.str (str "?"))
  let action ← match (get (str "action") step).getD (.str []) with
    | .str s => some (stripped s)
    | _ => none
  let doctype := pyGet step "doctype"
  return str "    " ++ py.toStr order ++ str ". " ++ action ++
    (if doctype.truthy then str " [" ++ py.toStr doctype ++ str "]" else [])

def stepsLines (steps : Value) : Option (List Str) :=
  match steps with
  | .list xs => do
    let lines ← (xs.take maxPlanStepsRendered).mapM (stepLine py)
    let more := xs.length - maxPlanStepsRendered
    return str "  Approved plan steps (execute these verbatim):" :: lines ++
      (if maxPlanStepsRendered < xs.length then
        [str "    ... (" ++ str (toString more) ++ str " more steps)"] else [])
  | _ => none

def asStr : Value → Option Str
  | .str s => some s
  | _ => none

/-- `', '.join(xs)`. -/
def joined (xs : Value) : Option Str :=
  match xs with
  | .list xs => (xs.mapM asStr).map fun ss => (ss.intersperse (str ", ")).flatten
  | .str s => some ((s.map fun c => [c]).intersperse (str ", ")).flatten
  | _ => none

def summaryLines (summary : Value) : Option (List Str) :=
  if summary.truthy then
    (asStr summary).map fun s => [str "  Summary: " ++ snippet 300 s]
  else some []

def planStatus (plan : Dict) : Value := pyOr (pyGet plan "status") (.str (str "proposed"))

def approvedSteps (plan : Dict) : Option (List Str) :=
  let steps := pyOr (pyGet plan "steps") (.list [])
  if isStr (planStatus plan) "approved" && steps.truthy then stepsLines py steps else some []

def approvedDoctypes (plan : Dict) : Option (List Str) :=
  let doctypes := pyOr (pyGet plan "doctypes_touched") (.list [])
  if doctypes.truthy && isStr (planStatus plan) "approved" then
    (joined doctypes).map fun s => [str "  Doctypes the approved plan touches: " ++ s]
  else some []

def planLines (plan : Dict) : Option (List Str) := do
  let title := pyOr (pyGet plan "title") (.str (str "(untitled plan)"))
  let summary ← summaryLines (pyGet plan "summary")
  let steps ← approvedSteps py plan
  let doctypes ← approvedDoctypes plan
  return (str "Active plan (" ++ py.toStr (planStatus plan) ++ str "): " ++ py.toStr title) ::
    summary ++ steps ++ doctypes

def promptLine (p : Value) : Option Str := (asStr p).map fun s => str "- " ++ snippet 200 s

def headed (heading : String) (xs : List Value) (lines : Value → Option (List Str)) : Option (List Str) :=
  if xs.isEmpty then some [] else (xs.mapM lines).map fun ls => str heading :: ls.flatten

/-- `render_for_prompt`, none where it raises. A summary or a prompt that is no string is not
rendered here. -/
def renderForPrompt (m : Memory) : Option Str := do
  let plan := m.activePlan.filter (!·.isEmpty)
  if m.items.isEmpty && m.clarifications.isEmpty && m.recentPrompts.isEmpty && m.insightsQueries.isEmpty &&
      plan.isNone then
    return []
  let items ← headed "Already discussed / built:" (m.items.rtake maxItems) fun v => (itemLine py v).map ([·])
  let clarifications ← headed "User decisions:" (m.clarifications.rtake maxClarifications) (pairLines py)
  let insights ← headed "Recent Insights-mode questions (user asked about their site):"
    (m.insightsQueries.rtake maxInsightsQueries) (pairLines py)
  let plan ← match plan with
    | none => some []
    | some plan => planLines py plan
  let prompts ← headed "Recent prompts in this chat:" (m.recentPrompts.rtake maxPrompts)
    fun v => (promptLine v).map ([·])
  let lines := [str "=== CONVERSATION CONTEXT (earlier in this chat) ==="] ++ items ++ clarifications ++
    insights ++ plan ++ prompts ++ [str "=== END CONTEXT ==="]
  return (lines.intersperse (str "\n")).flatten

end Model

section Steps

variable {py : Python} {plan : Dict} {m : Memory}

def withSteps (steps : Value) (m : Memory) : Memory :=
  { m with activePlan := m.activePlan.map (insert (str "steps") steps) }

theorem pyGet_insert_of_ne {k : String} {key : Str} (h : key ≠ str k) (v : Value) (d : Dict) :
    pyGet (insert key v d) k = pyGet d k := by
  unfold pyGet
  rw [get_insert, if_neg h]

theorem isStr_pyOr {v : Value} {s t : String} (h : isStr v s = false) (ht : isStr (.str (str t)) s = false) :
    isStr (pyOr v (.str (str t))) s = false := by
  unfold pyOr
  split_ifs
  · exact h
  · exact ht

theorem planLines_withSteps (h : isStr (pyGet plan "status") "approved" = false) (steps : Value) :
    planLines py (insert (str "steps") steps plan) = planLines py plan := by
  have hother {k : String} (hk : str "steps" ≠ str k) : pyGet (insert (str "steps") steps plan) k = pyGet plan k :=
    pyGet_insert_of_ne hk steps plan
  have hstatus : planStatus (insert (str "steps") steps plan) = planStatus plan := by
    unfold planStatus
    rw [hother (by decide)]
  have happroved : isStr (planStatus plan) "approved" = false := isStr_pyOr h (by decide)
  have hsteps (q : Dict) (hq : planStatus q = planStatus plan) : approvedSteps py q = some [] := by
    unfold approvedSteps
    rw [hq, happroved]
    rfl
  have hdoctypes (q : Dict) (hq : planStatus q = planStatus plan) : approvedDoctypes q = some [] := by
    unfold approvedDoctypes
    dsimp only
    rw [hq, happroved, Bool.and_false]
    rfl
  unfold planLines
  rw [hsteps _ hstatus, hsteps _ rfl, hdoctypes _ hstatus, hdoctypes _ rfl, hstatus,
    hother (k := "summary") (by decide), hother (k := "title") (by decide)]

theorem render_withSteps (h : ∀ p, m.activePlan = some p → p ≠ [] ∧ isStr (pyGet p "status") "approved" = false)
    (steps : Value) : renderForPrompt py (withSteps steps m) = renderForPrompt py m := by
  cases hplan : m.activePlan with
  | none =>
    have hsame : withSteps steps m = m := by
      unfold withSteps
      rw [hplan]
      exact congrArg (fun p => { m with activePlan := p }) hplan.symm
    rw [hsame]
  | some p =>
    obtain ⟨hne, hstatus⟩ := h p hplan
    have hthere : (insert (str "steps") steps p).isEmpty = false := by
      cases p with
      | nil => exact absurd rfl hne
      | cons e p =>
        unfold Lib.Json.insert
        split_ifs <;> rfl
    have hfilter (q : Dict) (hq : q.isEmpty = false) : (some q).filter (fun d => !d.isEmpty) = some q := by
      simp [Option.filter, hq]
    have hlines : planLines py (insert (str "steps") steps p) = planLines py p := planLines_withSteps hstatus steps
    unfold renderForPrompt withSteps
    rw [hplan]
    dsimp only [Option.map_some]
    rw [hfilter _ hthere, hfilter p (by simpa using hne)]
    dsimp only
    rw [hlines]
    rfl

end Steps

end AlfredProcessing.State.MemoryRendering
