import AlfredProcessing.Extract.Changes
import AlfredProcessing.Lib.Fallible
import AlfredProcessing.Lib.Transition
import Mathlib.Data.List.DropRight

namespace AlfredProcessing.State.ConversationMemory

open Lib Lib.Json Lib.Fallible Extract.Changes Extract.Cleaning

section Model

def maxItems : Nat := 20
def maxClarifications : Nat := 10
def maxPrompts : Nat := 5
def maxInsightsQueries : Nat := 10
def insightsQuerySnippetLen : Nat := 300
def maxPlanDocuments : Nat := 5

abbrev Time := Int × Int

def timeValue (t : Time) : Value := .float t.1 t.2

/-- A reading of the clock, which is not zero. -/
abbrev Now := { t : Time // (timeValue t).truthy }

/-- `str` and `float` on values that are neither a string nor a float. -/
structure Python where
  str : Value → Str
  float : Value → Except PyError Time

def Python.toStr (py : Python) : Value → Str
  | .str s => s
  | v => py.str v

def Python.toFloat (py : Python) : Value → Except PyError Time
  | .float m e => .ok (m, e)
  | v => py.float v

/-- `ConversationMemory`. -/
structure Memory where
  conversationId : Str
  items : List Value
  clarifications : List Value
  recentPrompts : List Value
  insightsQueries : List Value
  planDocuments : List Value
  activePlan : Option Dict
  updatedAt : Time

def fresh (conversationId : Str) (now : Time) : Memory where
  conversationId := conversationId
  items := []
  clarifications := []
  recentPrompts := []
  insightsQueries := []
  planDocuments := []
  activePlan := none
  updatedAt := now

variable (py : Python)

/-- `add_prompt`. -/
def addPrompt (now : Time) (rawPrompt : Str) (m : Memory) : Memory :=
  if rawPrompt.isEmpty then m
  else
    { m with
      recentPrompts := (m.recentPrompts ++ [Value.str (stripped rawPrompt)]).rtake maxPrompts
      updatedAt := now }

def pair (q a : Str) : Value := .dict [(str "q", .str q), (str "a", .str a)] .none

/-- `add_clarifications`. -/
def addClarifications (now : Time) (qaPairs : List (Str × Str)) (m : Memory) : Memory :=
  if qaPairs.isEmpty then m
  else
    let new := (qaPairs.filter fun p => !p.1.isEmpty && !p.2.isEmpty).map fun p =>
      pair (stripped p.1) (stripped p.2)
    { m with clarifications := (m.clarifications ++ new).rtake maxClarifications, updatedAt := now }

def insightsSnippet (answer : Str) : Str :=
  let snippet := stripped answer
  if insightsQuerySnippetLen < snippet.length then
    (snippet.take insightsQuerySnippetLen).rdropWhile spaceCode ++ str "..."
  else snippet

/-- `add_insights_query`. -/
def addInsightsQuery (now : Time) (question answer : Str) (m : Memory) : Memory :=
  if question.isEmpty || answer.isEmpty then m
  else
    { m with
      insightsQueries :=
        (m.insightsQueries ++ [pair (stripped question) (insightsSnippet answer)]).rtake maxInsightsQueries
      updatedAt := now }

def withStatus (plan : Dict) (status : Str) : Dict := insert (str "status") (.str status) plan

/-- `add_plan_document`. -/
def addPlanDocument (now : Time) (plan : Dict) (status : Str) (m : Memory) : Memory :=
  if plan.isEmpty then m
  else
    { m with
      planDocuments := (m.planDocuments ++ [Value.dict (withStatus plan status) .none]).rtake maxPlanDocuments
      activePlan := some (withStatus plan status)
      updatedAt := now }

/-- `mark_active_plan_status`. -/
def markActivePlanStatus (now : Time) (status : Str) (m : Memory) : Memory :=
  match m.activePlan with
  | none => m
  | some plan =>
    { m with
      planDocuments :=
        if m.planDocuments.isEmpty then []
        else m.planDocuments.dropLast ++ [Value.dict (withStatus plan status) .none]
      activePlan := some (withStatus plan status)
      updatedAt := now }

/-- `v or {}`, of which only a dictionary has a `get`. -/
def orDict (v : Value) : Except PyError Dict :=
  if v.truthy then
    match v with
    | .dict d _ => .ok d
    | _ => .error .attributeError
  else .ok []

def onFields : List String := ["dt", "reference_doctype", "document_type"]

/-- The record of one entry of a changeset; an entry without a doctype has none. -/
def recordOf (entry : Dict) : Except PyError (Option Value) := do
  let data ← orDict (pyGet entry "data")
  let doctype := pyOr (pyGet entry "doctype") (pyGet data "doctype")
  let name := pyOr (pyOr (pyGet data "name") (pyGet data "fieldname")) (pyGet data "label")
  let op := pyOr (pyGet entry "op") (.str (str "create"))
  if doctype.truthy then
    return some (.dict
      ([(str "op", .str (py.toStr op)), (str "doctype", .str (py.toStr doctype)),
        (str "name", .str (if name.truthy then py.toStr name else []))] ++
        ((onFields.find? fun k => (pyGet data k).truthy).map fun k =>
          (str "on", Value.str (py.toStr (pyGet data k)))).toList) .none)
  else return none

/-- The records of a changeset up to the entry that raises, if one does. -/
def records : List Value → List Value × Option PyError
  | [] => ([], none)
  | entry :: entries =>
    match asDict entry with
    | none => records entries
    | some d =>
      match recordOf py d with
      | .error e => ([], some e)
      | .ok none => records entries
      | .ok (some r) => (r :: (records entries).1, (records entries).2)

/-- `add_changeset_items`: the memory that it leaves, and what it raises. -/
def addChangesetItems (now : Time) (changeset : List Value) (m : Memory) : Memory × Option PyError :=
  if changeset.isEmpty then (m, none)
  else
    let items := m.items ++ (records py changeset).1
    match (records py changeset).2 with
    | some e => ({ m with items := items }, some e)
    | none => ({ m with items := items.rtake maxItems, updatedAt := now }, none)

/-- `to_dict`. -/
def toDict (m : Memory) : Dict :=
  [(str "conversation_id", .str m.conversationId),
    (str "items", .list m.items),
    (str "clarifications", .list m.clarifications),
    (str "recent_prompts", .list m.recentPrompts),
    (str "insights_queries", .list m.insightsQueries),
    (str "plan_documents", .list m.planDocuments),
    (str "active_plan",
      match m.activePlan with
      | some plan => if plan.isEmpty then .null else .dict plan .none
      | none => .null),
    (str "updated_at", timeValue m.updatedAt)]

/-- `list(v or [])`. -/
def listOf (v : Value) : Except PyError (List Value) :=
  if v.truthy then
    match v with
    | .list xs => .ok xs
    | .str s => .ok (s.map fun c => .str [c])
    | .dict d _ => .ok (d.map fun e => .str e.1)
    | _ => .error .typeError
  else .ok []

/-- `from_dict`. -/
def fromDict (now : Time) (data : Dict) : Except PyError Memory := do
  return {
    conversationId := py.toStr ((get (str "conversation_id") data).getD (.str []))
    items := ← listOf (pyGet data "items")
    clarifications := ← listOf (pyGet data "clarifications")
    recentPrompts := ← listOf (pyGet data "recent_prompts")
    insightsQueries := ← listOf (pyGet data "insights_queries")
    planDocuments := ← listOf (pyGet data "plan_documents")
    activePlan := asDict (pyGet data "active_plan")
    updatedAt := ← py.toFloat (pyOr (pyGet data "updated_at") (timeValue now)) }

/-- The operations on a memory, and what a memory goes through between two turns. -/
inductive Op where
  | addPrompt (rawPrompt : Str)
  | addClarifications (qaPairs : List (Str × Str))
  | addInsightsQuery (question answer : Str)
  | addPlanDocument (plan : Dict) (status : Str)
  | markActivePlanStatus (status : Str)
  | addChangesetItems (changeset : List Value)
  | reload

/-- An operation at a time. Where it raises the memory is left as it is then. -/
def apply (m : Memory) (now : Time) : Op → Memory
  | .addPrompt rawPrompt => addPrompt now rawPrompt m
  | .addClarifications qaPairs => addClarifications now qaPairs m
  | .addInsightsQuery question answer => addInsightsQuery now question answer m
  | .addPlanDocument plan status => addPlanDocument now plan status m
  | .markActivePlanStatus status => markActivePlanStatus now status m
  | .addChangesetItems changeset => (addChangesetItems py now changeset m).1
  | .reload =>
    match fromDict py now (toDict m) with
    | .ok m' => m'
    | .error _ => m

def step (m : Memory) (op : Op × Now) : Option Memory := some (apply py m op.2 op.1)

end Model

section Invariant

variable (py : Python)

/-- The caps hold, the active plan is the last plan document, and the memory can be saved
and loaded. -/
structure Sound (m : Memory) : Prop where
  items : m.items.length ≤ maxItems
  clarifications : m.clarifications.length ≤ maxClarifications
  recentPrompts : m.recentPrompts.length ≤ maxPrompts
  insightsQueries : m.insightsQueries.length ≤ maxInsightsQueries
  planDocuments : m.planDocuments.length ≤ maxPlanDocuments
  plan : ∀ p, m.activePlan = some p → m.planDocuments.getLast? = some (.dict p .none)
  roundTrip : ∀ now : Now, fromDict py now (toDict m) = .ok m

/-- What every operation keeps but for the cap on the items. -/
structure Regular (m : Memory) : Prop where
  clarifications : m.clarifications.length ≤ maxClarifications
  recentPrompts : m.recentPrompts.length ≤ maxPrompts
  insightsQueries : m.insightsQueries.length ≤ maxInsightsQueries
  planDocuments : m.planDocuments.length ≤ maxPlanDocuments
  plan : ∀ p, m.activePlan = some p → m.planDocuments.getLast? = some (.dict p .none) ∧ p ≠ []
  updatedAt : (timeValue m.updatedAt).truthy

/-- A changeset on which the operation raises leaves no more items than there may be. -/
def Recordable (m : Memory) (op : Op × Now) : Prop :=
  match op.1 with
  | .addChangesetItems changeset =>
    (records py changeset).2.isSome → m.items.length + (records py changeset).1.length ≤ maxItems
  | _ => True

variable {py} {m : Memory} {now : Now}

theorem length_rtake_le {α : Type} (xs : List α) (n : Nat) : (xs.rtake n).length ≤ n := by
  rw [List.rtake, List.length_drop]
  omega

theorem listOf_list (xs : List Value) : listOf (.list xs) = .ok xs := by
  unfold listOf
  split_ifs with h
  · rfl
  · rw [show xs = [] by simpa [Value.truthy] using h]

theorem Regular.roundTrip (h : Regular m) (now : Now) : fromDict py now (toDict m) = .ok m := by
  have hplan : asDict (match m.activePlan with
      | some plan => if plan.isEmpty then .null else .dict plan .none
      | none => .null) = m.activePlan := by
    cases hp : m.activePlan with
    | none => rfl
    | some p =>
      dsimp only
      rw [if_neg (by simpa using (h.plan p hp).2)]
      rfl
  have htime : py.toFloat (pyOr (timeValue m.updatedAt) (timeValue now)) = .ok m.updatedAt := by
    rw [pyOr, if_pos h.updatedAt]
    rfl
  calc fromDict py now (toDict m)
      = (do
          return {
            conversationId := m.conversationId
            items := ← listOf (.list m.items)
            clarifications := ← listOf (.list m.clarifications)
            recentPrompts := ← listOf (.list m.recentPrompts)
            insightsQueries := ← listOf (.list m.insightsQueries)
            planDocuments := ← listOf (.list m.planDocuments)
            activePlan := asDict (match m.activePlan with
              | some plan => if plan.isEmpty then .null else .dict plan .none
              | none => .null)
            updatedAt := ← py.toFloat (pyOr (timeValue m.updatedAt) (timeValue now)) }) := rfl
    _ = .ok m := by
      simp only [listOf_list, hplan, htime]
      rfl

theorem regular_fresh (conversationId : Str) (now : Now) : Regular (fresh conversationId now) where
  clarifications := Nat.zero_le _
  recentPrompts := Nat.zero_le _
  insightsQueries := Nat.zero_le _
  planDocuments := Nat.zero_le _
  plan _ h := by cases h
  updatedAt := now.2

theorem withStatus_ne_nil (plan : Dict) (status : Str) : withStatus plan status ≠ [] := by
  unfold withStatus
  cases plan with
  | nil => exact List.cons_ne_nil _ _
  | cons e plan =>
    unfold Json.insert
    split
    · exact List.cons_ne_nil _ _
    · exact List.cons_ne_nil _ _

theorem Regular.addPlanDocument (h : Regular m) (plan : Dict) (status : Str) :
    Regular (addPlanDocument now plan status m) := by
  unfold ConversationMemory.addPlanDocument
  split_ifs
  · exact h
  · refine { h with planDocuments := length_rtake_le _ _, plan := fun p hp => ?_, updatedAt := now.2 }
    cases hp
    refine ⟨?_, withStatus_ne_nil plan status⟩
    rw [maxPlanDocuments, List.rtake_concat_succ, List.getLast?_concat]

theorem Regular.markActivePlanStatus (h : Regular m) (status : Str) :
    Regular (markActivePlanStatus now status m) := by
  unfold ConversationMemory.markActivePlanStatus
  cases hp : m.activePlan with
  | none => exact h
  | some plan =>
    obtain ⟨hlast, -⟩ := h.plan plan hp
    have hne : m.planDocuments ≠ [] := fun hnil => by
      rw [hnil] at hlast
      cases hlast
    have hlength : 0 < m.planDocuments.length := List.length_pos_iff.mpr hne
    dsimp only
    rw [if_neg (by simpa using hne)]
    refine { h with planDocuments := ?_, plan := fun p hp => ?_, updatedAt := now.2 }
    · have hle := h.planDocuments
      rw [List.length_append, List.length_dropLast, List.length_singleton]
      omega
    · cases hp
      exact ⟨List.getLast?_concat, withStatus_ne_nil plan status⟩

/-- Every operation keeps the caps but for that on the items, and the plan in agreement. -/
theorem Regular.apply (h : Regular m) (op : Op) : Regular (apply py m now op) := by
  cases op with
  | addPrompt rawPrompt =>
    simp only [ConversationMemory.apply, addPrompt]
    split_ifs
    · exact h
    · exact { h with recentPrompts := length_rtake_le _ _, updatedAt := now.2 }
  | addClarifications qaPairs =>
    simp only [ConversationMemory.apply, addClarifications]
    split_ifs
    · exact h
    · exact { h with clarifications := length_rtake_le _ _, updatedAt := now.2 }
  | addInsightsQuery question answer =>
    simp only [ConversationMemory.apply, addInsightsQuery]
    split_ifs
    · exact h
    · exact { h with insightsQueries := length_rtake_le _ _, updatedAt := now.2 }
  | addPlanDocument plan status => exact h.addPlanDocument plan status
  | markActivePlanStatus status => exact h.markActivePlanStatus status
  | addChangesetItems changeset =>
    simp only [ConversationMemory.apply, addChangesetItems]
    split_ifs
    · exact h
    · cases (records py changeset).2 with
      | none => exact { h with updatedAt := now.2 }
      | some _ => exact { h with }
  | reload =>
    simp only [ConversationMemory.apply, h.roundTrip]
    exact h

theorem Regular.items_apply (h : Regular m) (py : Python) (now : Now) (op : Op) : (ConversationMemory.apply py m now op).items = m.items ∨
    ∃ changeset, op = .addChangesetItems changeset := by
  cases op with
  | addPrompt rawPrompt =>
    left
    simp only [ConversationMemory.apply, addPrompt]
    split_ifs <;> rfl
  | addClarifications qaPairs =>
    left
    simp only [ConversationMemory.apply, addClarifications]
    split_ifs <;> rfl
  | addInsightsQuery question answer =>
    left
    simp only [ConversationMemory.apply, addInsightsQuery]
    split_ifs <;> rfl
  | addPlanDocument plan status =>
    left
    simp only [ConversationMemory.apply, ConversationMemory.addPlanDocument]
    split_ifs <;> rfl
  | markActivePlanStatus status =>
    left
    simp only [ConversationMemory.apply, ConversationMemory.markActivePlanStatus]
    cases m.activePlan <;> rfl
  | addChangesetItems changeset => exact .inr ⟨changeset, rfl⟩
  | reload =>
    left
    simp only [ConversationMemory.apply, h.roundTrip]

theorem length_addChangesetItems (now : Time) (changeset : List Value) (hm : m.items.length ≤ maxItems) :
    (addChangesetItems py now changeset m).1.items.length ≤ maxItems ↔
      ((records py changeset).2.isSome → m.items.length + (records py changeset).1.length ≤ maxItems) := by
  unfold addChangesetItems
  split_ifs with hempty
  · refine iff_of_true hm fun hsome => ?_
    rw [List.isEmpty_iff.mp hempty] at hsome
    cases hsome
  · dsimp only
    cases (records py changeset).2 with
    | none => exact iff_of_true (length_rtake_le _ _) (fun h => by cases h)
    | some e =>
      dsimp only
      rw [List.length_append]
      exact ⟨fun h _ => h, fun h => h rfl⟩

theorem items_apply_iff (h : Regular m) (hm : m.items.length ≤ maxItems) (op : Op × Now) :
    (apply py m op.2 op.1).items.length ≤ maxItems ↔ Recordable py m op := by
  obtain ⟨op, now⟩ := op
  obtain hsame | ⟨changeset, rfl⟩ := h.items_apply py now op
  · refine iff_of_true (hsame ▸ hm) ?_
    unfold Recordable
    split
    · next changeset hop =>
      cases hop
      rw [← length_addChangesetItems now changeset hm]
      exact hsame ▸ hm
    · trivial
  · exact length_addChangesetItems now changeset hm

/-- Along every run of operations and reloads the memory is sound just when every changeset
that the operation raises on can be recorded. -/
theorem sound_iff_recordable (py : Python) (conversationId : Str) (now : Now) (ops : List (Op × Now)) :
    Transition.Always (step py) (Sound py) (fresh conversationId now) ops ↔
      Transition.Meets (step py) (Recordable py) (fresh conversationId now) ops := by
  refine Transition.always_iff_meets (J := fun m => Regular m ∧ m.items.length ≤ maxItems) ?_ ?_ ?_
    ⟨regular_fresh conversationId now, Nat.zero_le _⟩ ops
  · rintro m ⟨h, hitems⟩
    exact
      { items := hitems
        clarifications := h.clarifications
        recentPrompts := h.recentPrompts
        insightsQueries := h.insightsQueries
        planDocuments := h.planDocuments
        plan := fun p hp => (h.plan p hp).1
        roundTrip := h.roundTrip }
  · rintro m op _ ⟨h, hitems⟩ hop ⟨⟩
    exact ⟨h.apply op.1, (items_apply_iff h hitems op).mpr hop⟩
  · rintro m op _ ⟨h, hitems⟩ ⟨⟩ hsound
    exact (items_apply_iff h hitems op).mp hsound.items

def manyNotes : List Value :=
  List.replicate 21 (.dict [(str "doctype", .str (str "Note"))] .none) ++
    [.dict [(str "doctype", .str (str "Note")), (str "data", .list [.null])] .none]

def plainPython : Python where
  str _ := []
  float _ := .error .typeError

theorem timeValue_truthy (n : Nat) : (timeValue (n + 2, 0)).truthy := by
  unfold timeValue Value.truthy floatIsZero
  have hpowers : ∀ k, 0 < Nat.pow 2 k := fun _ => Nat.pow_pos Nat.two_pos
  have hpow := hpowers 1075
  generalize Nat.pow 2 1075 = p at hpow ⊢
  have hmore : 1 * 1 < (n + 2) * p := Nat.mul_lt_mul_of_lt_of_le (by omega) hpow (by omega)
  have hle : ¬((n : Int) + 2).natAbs * p ≤ 1 := by
    rw [show ((n : Int) + 2).natAbs = n + 2 by omega]
    omega
  exact congrArg not (decide_eq_false hle)

def noon : Now := ⟨(12, 0), timeValue_truthy 10⟩

theorem many_notes_stay : ¬Transition.Always (step plainPython) (Sound plainPython) (fresh (str "c") noon)
    [(.addChangesetItems manyNotes, noon)] := by
  intro h
  have hitems := (h.2 _ rfl).items
  exact absurd hitems (by decide)

end Invariant

end AlfredProcessing.State.ConversationMemory
