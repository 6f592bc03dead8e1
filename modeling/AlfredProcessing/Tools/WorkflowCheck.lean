import AlfredProcessing.Lib.Reach
import AlfredProcessing.State.MemoryRendering
import AlfredProcessing.Tools.Objects

namespace AlfredProcessing.Tools.WorkflowCheck

open Lib.Json Lib.Fallible Lib.Reach Extract.Changes State.ConversationMemory Objects
open State.MemoryRendering (joined)

section Model

/-- The name of a state, and of the state that a transition starts from. -/
def stateOf (d : Dict) : Value := getOr d "state" (.str [])

def nextStateOf (t : Dict) : Value := getOr t "next_state" (.str [])

def isInitial (s : Dict) : Bool :=
  pyEq (pyGet s "doc_status") (.str (str "0")) || pyEq (pyGet s "state") (.str (str "Draft"))

def nameOf (s : Value) : Except PyError Value := do
  let d ← dictOf s
  asKey (stateOf d)

variable (texts : Texts)

def endFlaws (names : List Value) (i : Nat) (side : String) (v : Value) : Except PyError (List Flaw) :=
  if v.truthy then do
    let v ← asKey v
    if member v names then return []
    return [⟨"invalid_transition_" ++ side,
      str "Transition " ++ texts.py.toStr (.int i) ++ str (": " ++ side ++ " state '") ++ texts.py.toStr v ++
        str "' not in states list"⟩]
  else return []

def transitionFlaws (names : List Value) (t : Value × Nat) : Except PyError (List Flaw) := do
  let d ← dictOf t.1
  let source ← endFlaws texts names t.2 "source" (stateOf d)
  let target ← endFlaws texts names t.2 "target" (nextStateOf d)
  return source ++ target

def mentioned (t : Value) : Except PyError (List Value) := do
  let d ← dictOf t
  let source ← asKey (stateOf d)
  let target ← asKey (nextStateOf d)
  return [source, target]

def orphanFlaws (names reachable : List Value) : Except PyError (List Flaw) :=
  let orphans := (setOf names).filter fun v => !member v reachable
  if !orphans.isEmpty && 1 < (setOf names).length then
    match joined (.list (texts.setOrder orphans)) with
    | some s => .ok [⟨"orphan_states", str "States not reachable via transitions: " ++ s⟩]
    | none => .error .typeError
  else .ok []

def stateFlaws (states : Value) (hasInitial : Bool) : List Flaw :=
  (if states.truthy then [] else [⟨"no_states", str "Workflow must have at least one state"⟩]) ++
    if !hasInitial && states.truthy then
      [⟨"no_initial_state", str "Workflow should have an initial state (usually 'Draft' with doc_status=0)"⟩]
    else []

/-- `validate_workflow_definition`. -/
def validateWorkflowDefinition (workflowData : Dict) : Except PyError Report := do
  let states := getOr workflowData "states" (.list [])
  let transitions := getOr workflowData "transitions" (.list [])
  let stateList ← iterate states
  let names ← stateList.mapM nameOf
  let hasInitial := (stateList.filterMap asDict).any isInitial
  let transitionList ← iterate transitions
  let ends ← transitionList.zipIdx.mapM (transitionFlaws texts names)
  let reachable ← transitionList.mapM mentioned
  let orphans ← orphanFlaws texts names reachable.flatten
  return ⟨stateFlaws states hasInitial ++ ends.flatten ++ orphans⟩

end Model

section Graph

variable (workflowData : Dict)

def stateObjects : List Dict := objectsIn (getOr workflowData "states" (.list []))

def transitionObjects : List Dict := objectsIn (getOr workflowData "transitions" (.list []))

def declared : Set Key := { k | ∃ s ∈ stateObjects workflowData, keyOf (stateOf s) = k }

def initial : Set Key := { k | ∃ s ∈ stateObjects workflowData, isInitial s = true ∧ keyOf (stateOf s) = k }

/-- A transition leads from one declared state to the other. -/
def Leads (a b : Key) : Prop :=
  a ∈ declared workflowData ∧ b ∈ declared workflowData ∧
    ∃ t ∈ transitionObjects workflowData, keyOf (stateOf t) = a ∧ keyOf (nextStateOf t) = b

def Mentioned (a : Key) : Prop :=
  ∃ t ∈ transitionObjects workflowData, keyOf (stateOf t) = a ∨ keyOf (nextStateOf t) = a

def AllReached : Prop :=
  ∀ a ∈ declared workflowData, Reached (Leads workflowData) (initial workflowData) a

end Graph

section Checks

variable {texts : Texts} {workflowData : Dict} {v : Value} {xs : List Dict} {names reachable : List Value}

theorem mapM_asKey {g : Dict → Value} {ys : List Value} (h : xs.mapM (fun d => asKey (g d)) = .ok ys) :
    ys = xs.map g ∧ ∀ y ∈ ys, hashable y = true := by
  induction xs generalizing ys with
  | nil =>
    cases h
    exact ⟨rfl, fun y hy => nomatch hy⟩
  | cons x xs ih =>
    rw [List.mapM_cons] at h
    obtain ⟨y, hy, h⟩ := bind_eq_ok.mp h
    obtain ⟨ys, hys, h⟩ := bind_eq_ok.mp h
    cases h
    obtain ⟨hhash, rfl⟩ := asKey_eq_ok.mp hy
    obtain ⟨rfl, hall⟩ := ih hys
    exact ⟨rfl, List.forall_mem_cons.mpr ⟨hhash, hall⟩⟩

theorem mapM_ends {ys : List (List Value)} (h : xs.mapM (fun d => do
      let source ← asKey (stateOf d)
      let target ← asKey (nextStateOf d)
      return [source, target]) = .ok ys) :
    ys.flatten = xs.flatMap (fun t => [stateOf t, nextStateOf t]) ∧ ∀ y ∈ ys.flatten, hashable y = true := by
  induction xs generalizing ys with
  | nil =>
    cases h
    exact ⟨rfl, fun y hy => nomatch hy⟩
  | cons x xs ih =>
    rw [List.mapM_cons] at h
    obtain ⟨pair, hpair, h⟩ := bind_eq_ok.mp h
    obtain ⟨source, hsource, hpair⟩ := bind_eq_ok.mp hpair
    obtain ⟨target, htarget, hpair⟩ := bind_eq_ok.mp hpair
    obtain ⟨ys, hys, h⟩ := bind_eq_ok.mp h
    cases h
    cases hpair
    obtain ⟨hs, rfl⟩ := asKey_eq_ok.mp hsource
    obtain ⟨ht, rfl⟩ := asKey_eq_ok.mp htarget
    obtain ⟨hflat, hall⟩ := ih hys
    refine ⟨by rw [List.flatten_cons, hflat, List.flatMap_cons], ?_⟩
    intro y hy
    rw [List.flatten_cons, List.mem_append] at hy
    obtain hy | hy := hy
    · simp only [List.mem_cons, List.not_mem_nil, or_false] at hy
      obtain rfl | rfl := hy
      · exact hs
      · exact ht
    · exact hall y hy

theorem mentioned_of_orphanFlaws (hnames : ∀ v ∈ names, hashable v = true)
    (hreachable : ∀ v ∈ reachable, hashable v = true) (h : orphanFlaws texts names reachable = .ok [])
    {v w : Value} (hv : v ∈ names) (hw : w ∈ names) (hne : keyOf v ≠ keyOf w) :
    ∃ x ∈ reachable, keyOf x = keyOf v := by
  obtain ⟨v', hv', hkeyv⟩ := exists_mem_setOf hnames hv
  obtain ⟨w', hw', hkeyw⟩ := exists_mem_setOf hnames hw
  have hmany : 1 < (setOf names).length := by
    by_contra hfew
    refine hne ?_
    match hset : setOf names, hfew with
    | [], _ => simp [hset] at hv'
    | [x], _ =>
      rw [hset, List.mem_singleton] at hv' hw'
      rw [← hkeyv, ← hkeyw, hv', hw']
    | _ :: _ :: _, hfew => simp at hfew
  have hnone : (setOf names).filter (fun v => !member v reachable) = [] := by
    by_contra hsome
    have hreport : (!((setOf names).filter fun v => !member v reachable).isEmpty &&
        decide (1 < (setOf names).length)) = true := by
      simp only [Bool.and_eq_true, Bool.not_eq_true', List.isEmpty_eq_false_iff, decide_eq_true_eq]
      exact ⟨hsome, hmany⟩
    rw [orphanFlaws, if_pos hreport] at h
    split at h <;> simp at h
  have hmember : member v' reachable = true := by
    by_contra hout
    have hmem : v' ∈ (setOf names).filter (fun v => !member v reachable) := by
      rw [List.mem_filter]
      exact ⟨hv', by simpa using hout⟩
    rw [hnone] at hmem
    cases hmem
  obtain ⟨x, hx, hkey⟩ := (member_iff (hnames v' (mem_of_mem_setOf hv')) hreachable).mp hmember
  exact ⟨x, hx, hkey.trans hkeyv⟩

theorem hasInitial_of_stateFlaws {hasInitial : Bool} (h : stateFlaws v hasInitial = []) : hasInitial = true := by
  cases hasInitial with
  | true => rfl
  | false => cases htruthy : v.truthy <;> simp [stateFlaws, htruthy] at h

/-- What a workflow that passes is known to have: names and ends that can go into a set, an initial
state, and no orphans. -/
structure Checked (workflowData : Dict) : Prop where
  names : ∀ s ∈ stateObjects workflowData, hashable (stateOf s) = true
  ends : ∀ t ∈ transitionObjects workflowData, hashable (stateOf t) = true ∧ hashable (nextStateOf t) = true
  starts : ∃ s ∈ stateObjects workflowData, isInitial s = true
  mentioned : ∀ a ∈ declared workflowData, ∀ b ∈ declared workflowData, a ≠ b → Mentioned workflowData a

theorem checked_of_accepted (h : accepted (validateWorkflowDefinition texts workflowData) = true) :
    Checked workflowData := by
  obtain ⟨report, hreport, herrors⟩ := accepted_iff.mp h
  obtain ⟨stateList, hstates, hreport⟩ := bind_eq_ok.mp hreport
  obtain ⟨names, hnames, hreport⟩ := bind_eq_ok.mp hreport
  obtain ⟨transitionList, htransitions, hreport⟩ := bind_eq_ok.mp hreport
  obtain ⟨ends, -, hreport⟩ := bind_eq_ok.mp hreport
  obtain ⟨reachable, hreachable, hreport⟩ := bind_eq_ok.mp hreport
  obtain ⟨orphans, horphans, hreport⟩ := bind_eq_ok.mp hreport
  cases hreport
  obtain ⟨⟨hstateFlaws, -⟩, rfl⟩ : (_ = [] ∧ _ = []) ∧ orphans = [] := by
    simpa only [List.append_eq_nil_iff] using herrors
  have hobjects : stateList.filterMap asDict = stateObjects workflowData :=
    filterMap_of_iterate hstates (mapM_dicts (fun _ _ => dictOf_bind_eq_ok) hnames).2
  obtain ⟨rfl, hhash⟩ := mapM_asKey (mapM_objectsIn hstates (fun _ _ => dictOf_bind_eq_ok) hnames)
  obtain ⟨hflat, hends⟩ := mapM_ends (mapM_objectsIn htransitions (fun _ _ => dictOf_bind_eq_ok) hreachable)
  refine ⟨?_, ?_, ?_, ?_⟩
  · intro s hs
    exact hhash _ (List.mem_map_of_mem hs)
  · intro t ht
    have hmem : ∀ v, v = stateOf t ∨ v = nextStateOf t → v ∈ reachable.flatten := by
      intro v hv
      rw [hflat]
      exact List.mem_flatMap.mpr ⟨t, ht, by simpa using hv⟩
    exact ⟨hends _ (hmem _ (.inl rfl)), hends _ (hmem _ (.inr rfl))⟩
  · rw [hobjects] at hstateFlaws
    exact List.any_eq_true.mp (hasInitial_of_stateFlaws hstateFlaws)
  · rintro _ ⟨s, hs, rfl⟩ _ ⟨s', hs', rfl⟩ hne
    obtain ⟨x, hx, hkey⟩ := mentioned_of_orphanFlaws hhash hends horphans (List.mem_map_of_mem hs)
      (List.mem_map_of_mem hs') hne
    rw [hflat] at hx
    obtain ⟨t, ht, hx⟩ := List.mem_flatMap.mp hx
    simp only [List.mem_cons, List.not_mem_nil, or_false] at hx
    obtain rfl | rfl := hx
    · exact ⟨t, ht, .inl hkey⟩
    · exact ⟨t, ht, .inr hkey⟩

theorem leads_declared {a b : Key} (h : Leads workflowData a b) : a ∈ declared workflowData := h.1

theorem initial_subset : initial workflowData ⊆ declared workflowData := by
  rintro _ ⟨s, hs, -, rfl⟩
  exact ⟨s, hs, rfl⟩

theorem Checked.mentioned_of_apart (h : Checked workflowData) {a : Key} (ha : a ∈ declared workflowData)
    (hapart : a ∉ initial workflowData) : Mentioned workflowData a := by
  obtain ⟨s, hs, hinitial⟩ := h.starts
  have hstart : keyOf (stateOf s) ∈ initial workflowData := ⟨s, hs, hinitial, rfl⟩
  refine h.mentioned a ha _ (initial_subset hstart) ?_
  rintro rfl
  exact hapart hstart

variable (texts workflowData) in
/-- What is to hold of a workflow: if the validator accepts it and it has more than one state,
all its states are reached from the initial ones. -/
def Sound : Prop :=
  accepted (validateWorkflowDefinition texts workflowData) = true → 1 < (stateObjects workflowData).length →
    AllReached workflowData

/-- An accepted workflow has all its states reached just when no group of states apart from the
initial ones, each of them mentioned by some transition, has all the transitions into it come
from the group itself. -/
theorem sound_iff : Sound texts workflowData ↔
    (accepted (validateWorkflowDefinition texts workflowData) = true →
      1 < (stateObjects workflowData).length →
        ∀ group : Set Key, (∀ a ∈ group, Mentioned workflowData a) →
          ¬Detached (Leads workflowData) (initial workflowData) (declared workflowData) group) := by
  refine imp_congr_right fun haccepted => imp_congr_right fun _ => ?_
  rw [AllReached, all_reached_iff fun a b => leads_declared]
  refine forall_congr' fun group => ⟨fun h _ => h, fun h hdetached => h ?_ hdetached⟩
  intro a ha
  exact (checked_of_accepted haccepted).mentioned_of_apart (hdetached.declared ha) (hdetached.apart a ha)

end Checks

section Loop

def stateEntry (name docStatus : String) : Dict :=
  [(str "state", .str (str name)), (str "doc_status", .str (str docStatus))]

def transitionEntry (source target : String) : Dict :=
  [(str "state", .str (str source)), (str "next_state", .str (str target))]

def loopStates : List Dict :=
  [stateEntry "Draft" "0", stateEntry "Submitted" "1", stateEntry "Review" "1", stateEntry "Approved" "1"]

def loopTransitions : List Dict :=
  [transitionEntry "Draft" "Submitted", transitionEntry "Review" "Approved", transitionEntry "Approved" "Review"]

def entries (ds : List Dict) : Value := .list (ds.map fun d => .dict d .none)

/-- Two states that lead to each other, and to which nothing leads from the draft. -/
def loopWorkflow : Dict := [(str "states", entries loopStates), (str "transitions", entries loopTransitions)]

def loopGroup : Set Key := { k | k = .text (str "Review") ∨ k = .text (str "Approved") }

theorem not_mem_loopGroup {s : Str} (hreview : s ≠ str "Review") (happroved : s ≠ str "Approved") :
    Key.text s ∉ loopGroup := by
  rintro (h | h)
  · exact hreview (Key.text.inj h)
  · exact happroved (Key.text.inj h)

theorem loop_detached :
    Detached (Leads loopWorkflow) (initial loopWorkflow) (declared loopWorkflow) loopGroup := by
  refine ⟨⟨_, .inl rfl⟩, ?_, ?_, ?_⟩
  · rintro a (rfl | rfl)
    · exact ⟨_, .tail _ (.tail _ (.head _)), rfl⟩
    · exact ⟨_, .tail _ (.tail _ (.tail _ (.head _))), rfl⟩
  · rintro _ hgroup ⟨s, hs, hinitial, rfl⟩
    have hstates : s ∈ loopStates := hs
    simp only [loopStates, List.mem_cons, List.not_mem_nil, or_false] at hstates
    obtain rfl | rfl | rfl | rfl := hstates
    · exact not_mem_loopGroup (by decide) (by decide) hgroup
    all_goals exact absurd hinitial (by decide)
  · rintro _ _ ⟨-, -, t, ht, rfl, rfl⟩ hgroup
    have htransitions : t ∈ loopTransitions := ht
    simp only [loopTransitions, List.mem_cons, List.not_mem_nil, or_false] at htransitions
    obtain rfl | rfl | rfl := htransitions
    · exact absurd hgroup (not_mem_loopGroup (by decide) (by decide))
    · exact .inl rfl
    · exact .inr rfl

theorem loop_unsound : ¬Sound plainTexts loopWorkflow := by
  intro hsound
  have haccepted : accepted (validateWorkflowDefinition plainTexts loopWorkflow) = true := by decide
  have hall := hsound haccepted (by decide)
  exact loop_detached.not_reached (.inl rfl) (hall _ (loop_detached.declared (.inl rfl)))

end Loop

end AlfredProcessing.Tools.WorkflowCheck
