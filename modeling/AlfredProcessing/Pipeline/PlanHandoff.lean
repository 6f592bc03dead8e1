import AlfredProcessing.Handlers.Plan
import AlfredProcessing.Pipeline.PlanLifecycle

namespace AlfredProcessing.Pipeline.PlanHandoff

open Lib Lib.Json Lib.JsonText Extract.Changes Extract.Cleaning Handlers.Plan PlanLifecycle
open State.ConversationMemory (Python Memory Op Time withStatus Regular maxItems maxClarifications maxInsightsQueries maxPrompts)
open State.MemoryRendering
open Pipeline.MarkerRoundTrip (rawBody)
open State.ConversationMemory (noon)

section Model

/-- A turn with what comes of its planning crew, if it plans. -/
structure Task where
  turn : Turn
  planning : Planning

variable (r : Reader) (env : Setting)

/-- The turn of a task: its plan is what the plan short circuit makes of the crew, which is always some plan. -/
def Task.toTurn (k : Task) : Turn := { k.turn with plan := (planDict r k.planning).getD [] }

structure Chat where
  conversation : Conversation := {}
  tasks : List Task := []

def handle (c : Chat) (k : Task) : Option Chat :=
  (step env c.conversation (k.toTurn r)).map fun s => { conversation := s, tasks := c.tasks ++ [k] }

end Model

section Contract

variable (py : Python)

def stepShown (s : PlanStep) : Str :=
  str "    " ++ py.toStr (.int s.order) ++ str ". " ++ stripped s.action ++
    if (s.doctype.getD []).isEmpty then [] else str " [" ++ s.doctype.getD [] ++ str "]"

/-- The steps as the developer is told them, and how many more there are. -/
def stepsShown (steps : List PlanStep) : List Str :=
  if steps.isEmpty then []
  else
    str "  Approved plan steps (execute these verbatim):" ::
      ((steps.take maxPlanStepsRendered).map (stepShown py) ++
        if maxPlanStepsRendered < steps.length then
          [str "    ... (" ++ str (toString (steps.length - maxPlanStepsRendered)) ++ str " more steps)"]
        else [])

def doctypesShown (doctypes : List Str) : List Str :=
  if doctypes.isEmpty then []
  else [str "  Doctypes the approved plan touches: " ++ (doctypes.intersperse (str ", ")).flatten]

/-- The lines of a plan: its steps only when it is approved. -/
def planShown (status : String) (p : PlanDoc) : List Str :=
  (str "Active plan (" ++ str status ++ str "): " ++ if p.title.isEmpty then str "(untitled plan)" else p.title) ::
    ((if p.summary.isEmpty then [] else [str "  Summary: " ++ snippet 300 p.summary]) ++
      if status = "approved" then stepsShown py p.steps ++ doctypesShown p.doctypesTouched else [])

def statuses : List String := ["proposed", "approved", "built"]

variable (r : Reader) (env : Setting) (tasks : List Task)

/-- The dictionary is a plan that one of the tasks wrote, with its status, and the schema reads that plan in it. -/
def FromTask (plan : Dict) (status : String) (p : PlanDoc) : Prop :=
  plan = withStatus p.modelDump (str status) ∧ status ∈ statuses ∧
    (∃ k ∈ tasks, k.turn.mode = .plan ∧ Wrote r k.planning p) ∧ PlanDoc.modelValidate r plan = some p

def textOf (ls : List Str) : Str := (ls.intersperse (str "\n")).flatten

/-- What the model is told of a memory before and behind its plan, whatever plan that is and whatever its status. -/
def Around (m : Memory) (before behind : List Str) : Prop :=
  ∀ (p : PlanDoc), ∀ status ∈ statuses,
    renderForPrompt env.py { m with activePlan := some (withStatus p.modelDump (str status)) } =
      some (textOf (before ++ (planShown env.py status p ++ behind)))

/-- The memory is put before the model without an exception, and its plan, which is one that a task wrote, with
nothing but the lines that are for its status. -/
def Handed (m : Memory) : Prop :=
  (renderForPrompt env.py m).isSome ∧ ∃ before behind, Around env m before behind ∧
    ∀ plan, m.activePlan = some plan → ∃ p status, FromTask r tasks plan status p ∧
      renderForPrompt env.py m = some (textOf (before ++ (planShown env.py status p ++ behind)))

end Contract

section Rendering

variable {py : Python} {env : Setting} {m : Memory} {p : PlanDoc} {status : String}

theorem stepLine_dump (s : PlanStep) : stepLine py (.dict s.modelDump .none) = some (stepShown py s) := by
  obtain ⟨order, action, rationale, doctype⟩ := s
  cases doctype with
  | none => rfl
  | some doctype => cases doctype <;> rfl

theorem mapM_dumps {α β γ : Type} {f : β → Option γ} {dump : α → β} {g : α → γ} (h : ∀ a, f (dump a) = some (g a))
    (as : List α) : (as.map dump).mapM f = some (as.map g) := by
  rw [List.mapM_map, show f ∘ dump = fun a => pure (g a) from funext h]
  exact List.mapM_pure

theorem joined_strings (xs : List Str) : joined (strings xs) = some (xs.intersperse (str ", ")).flatten := by
  have hstr (s : Str) : asStr (.str s) = some (id s) := rfl
  unfold joined strings
  dsimp only
  rw [mapM_dumps hstr, List.map_id]
  rfl

theorem stepsLines_dump {steps : List PlanStep} (h : steps ≠ []) :
    stepsLines py (.list (steps.map fun s => .dict s.modelDump .none)) = some (stepsShown py steps) := by
  unfold stepsLines stepsShown
  dsimp only
  have hthere : ¬steps.isEmpty := by simpa using h
  rw [← List.map_take, mapM_dumps stepLine_dump, List.length_map, if_neg hthere]
  rfl

theorem planStatus_withStatus (h : status ∈ statuses) :
    planStatus (withStatus p.modelDump (str status)) = .str (str status) := by
  simp only [statuses, List.mem_cons, List.not_mem_nil, or_false] at h
  obtain rfl | rfl | rfl := h <;> rfl

theorem isStr_status (h : status ∈ statuses) :
    isStr (planStatus (withStatus p.modelDump (str status))) "approved" = decide (status = "approved") := by
  rw [planStatus_withStatus h]
  simp only [statuses, List.mem_cons, List.not_mem_nil, or_false] at h
  obtain rfl | rfl | rfl := h <;> decide

theorem approvedSteps_dump (h : status ∈ statuses) : approvedSteps py (withStatus p.modelDump (str status)) =
    some (if status = "approved" then stepsShown py p.steps else []) := by
  have hsteps : pyGet (withStatus p.modelDump (str status)) "steps" =
      .list (p.steps.map fun s => .dict s.modelDump .none) := rfl
  unfold approvedSteps
  dsimp only
  rw [isStr_status h, hsteps]
  cases hlist : p.steps with
  | nil =>
    rw [if_neg (by simp [pyOr, Value.truthy]), show stepsShown py [] = [] from rfl, ite_self]
  | cons s steps =>
    have htruthy : (Value.list ((s :: steps).map fun s => .dict s.modelDump .none)).truthy := rfl
    rw [pyOr, if_pos htruthy]
    by_cases happroved : status = "approved"
    · rw [if_pos (by rw [htruthy]; simpa using happroved), if_pos happroved, stepsLines_dump (List.cons_ne_nil _ _)]
    · rw [if_neg (by simp [happroved]), if_neg happroved]

theorem approvedDoctypes_dump (h : status ∈ statuses) : approvedDoctypes (withStatus p.modelDump (str status)) =
    some (if status = "approved" then doctypesShown p.doctypesTouched else []) := by
  have hdoctypes : pyGet (withStatus p.modelDump (str status)) "doctypes_touched" = strings p.doctypesTouched := rfl
  unfold approvedDoctypes
  dsimp only
  rw [isStr_status h, hdoctypes]
  cases hlist : p.doctypesTouched with
  | nil =>
    rw [if_neg (by simp [pyOr, strings, Value.truthy]), show doctypesShown [] = [] from rfl, ite_self]
  | cons d doctypes =>
    have htruthy : (strings (d :: doctypes)).truthy := rfl
    rw [pyOr, if_pos htruthy]
    by_cases happroved : status = "approved"
    · rw [if_pos (by rw [htruthy]; simpa using happroved), if_pos happroved, joined_strings]
      rfl
    · rw [if_neg (by simp [happroved]), if_neg happroved]

theorem planLines_dump (h : status ∈ statuses) :
    planLines py (withStatus p.modelDump (str status)) = some (planShown py status p) := by
  have htitle : pyOr (pyGet (withStatus p.modelDump (str status)) "title") (.str (str "(untitled plan)")) =
      .str (if p.title.isEmpty then str "(untitled plan)" else p.title) := by
    change pyOr (.str p.title) _ = _
    cases p.title <;> rfl
  have hsummary : summaryLines (pyGet (withStatus p.modelDump (str status)) "summary") =
      some (if p.summary.isEmpty then [] else [str "  Summary: " ++ snippet 300 p.summary]) := by
    change summaryLines (.str p.summary) = _
    cases p.summary <;> rfl
  unfold planLines planShown
  rw [htitle, hsummary, approvedSteps_dump h, approvedDoctypes_dump h, planStatus_withStatus h]
  by_cases happroved : status = "approved"
  · simp only [if_pos happroved, List.append_assoc]
    rfl
  · simp only [if_neg happroved, Option.bind_eq_bind, Option.bind_some, List.append_nil]
    rfl

/-- The parts of a memory are what can be put before the model. -/
structure Rendered (py : Python) (m : Memory) : Prop where
  items : ∀ v ∈ m.items, (itemLine py v).isSome
  clarifications : ∀ v ∈ m.clarifications, (pairLines py v).isSome
  insights : ∀ v ∈ m.insightsQueries, (pairLines py v).isSome
  prompts : ∀ v ∈ m.recentPrompts, (promptLine v).isSome

structure Sound (py : Python) (r : Reader) (tasks : List Task) (m : Memory) : Prop extends Rendered py m where
  plan : ∀ plan, m.activePlan = some plan → ∃ p status, FromTask r tasks plan status p

theorem mapM_isSome {α β : Type} {f : α → Option β} {xs : List α} (h : ∀ x ∈ xs, (f x).isSome) : ∃ ys, xs.mapM f = some ys := by
  induction xs with
  | nil => exact ⟨[], rfl⟩
  | cons x xs ih =>
    obtain ⟨hx, hxs⟩ := List.forall_mem_cons.mp h
    obtain ⟨y, hy⟩ := Option.isSome_iff_exists.mp hx
    obtain ⟨ys, hys⟩ := ih hxs
    refine ⟨y :: ys, ?_⟩
    rw [List.mapM_cons, hy, hys]
    rfl

theorem headed_isSome (heading : String) {xs : List Value} {lines : Value → Option (List Str)}
    (h : ∀ v ∈ xs, (lines v).isSome) : ∃ ls, headed heading xs lines = some ls := by
  unfold headed
  split_ifs
  · exact ⟨[], rfl⟩
  · obtain ⟨ls, hls⟩ := mapM_isSome h
    exact ⟨str heading :: ls.flatten, by rw [hls]; rfl⟩

theorem mem_of_mem_rtake {α : Type} {xs : List α} {n : Nat} {x : α} (h : x ∈ xs.rtake n) : x ∈ xs := by
  rw [List.rtake] at h
  exact List.mem_of_mem_drop h

theorem Rendered.parts (h : Rendered py m) :
    (∃ ls, headed "Already discussed / built:" (m.items.rtake maxItems) (fun v => (itemLine py v).map ([·])) = some ls) ∧
    (∃ ls, headed "User decisions:" (m.clarifications.rtake maxClarifications) (pairLines py) = some ls) ∧
    (∃ ls, headed "Recent Insights-mode questions (user asked about their site):"
      (m.insightsQueries.rtake maxInsightsQueries) (pairLines py) = some ls) ∧
    ∃ ls, headed "Recent prompts in this chat:" (m.recentPrompts.rtake maxPrompts)
      (fun v => (promptLine v).map ([·])) = some ls :=
  ⟨headed_isSome _ fun v hv => by simpa using h.items v (mem_of_mem_rtake hv),
    headed_isSome _ fun v hv => h.clarifications v (mem_of_mem_rtake hv),
    headed_isSome _ fun v hv => h.insights v (mem_of_mem_rtake hv),
    headed_isSome _ fun v hv => by simpa using h.prompts v (mem_of_mem_rtake hv)⟩

theorem Rendered.around (h : Rendered env.py m) : ∃ before behind, Around env m before behind := by
  obtain ⟨⟨items, hitems⟩, ⟨pairs, hpairs⟩, ⟨insights, hinsights⟩, prompts, hprompts⟩ := h.parts
  refine ⟨[str "=== CONVERSATION CONTEXT (earlier in this chat) ==="] ++ items ++ pairs ++ insights,
    prompts ++ [str "=== END CONTEXT ==="], fun p status hstatus => ?_⟩
  have hfilter : (some (withStatus p.modelDump (str status))).filter (fun d => !d.isEmpty) =
      some (withStatus p.modelDump (str status)) := rfl
  unfold renderForPrompt
  dsimp only
  rw [hitems, hpairs, hinsights, hprompts, hfilter]
  dsimp only [Option.isNone_some, Option.bind_eq_bind, Option.bind_some]
  rw [if_neg (by simp), planLines_dump hstatus, textOf, ← List.append_assoc, ← List.append_assoc]
  rfl

theorem Rendered.of_none (h : Rendered py m) (hplan : m.activePlan = none) : (renderForPrompt py m).isSome := by
  obtain ⟨⟨items, hitems⟩, ⟨pairs, hpairs⟩, ⟨insights, hinsights⟩, prompts, hprompts⟩ := h.parts
  unfold renderForPrompt
  rw [hitems, hpairs, hinsights, hprompts, hplan]
  dsimp only [Option.filter_none, Option.bind_eq_bind, Option.bind_some]
  split_ifs <;> rfl

theorem Sound.handed {r : Reader} {tasks : List Task} (h : Sound env.py r tasks m) : Handed r env tasks m := by
  obtain ⟨before, behind, haround⟩ := h.toRendered.around
  have hplan (plan : Dict) (hactive : m.activePlan = some plan) : ∃ p status, FromTask r tasks plan status p ∧
      renderForPrompt env.py m = some (textOf (before ++ (planShown env.py status p ++ behind))) := by
    obtain ⟨p, status, hfrom⟩ := h.plan plan hactive
    refine ⟨p, status, hfrom, ?_⟩
    have htext := haround p status hfrom.2.1
    rwa [← hfrom.1, ← hactive] at htext
  refine ⟨?_, before, behind, haround, hplan⟩
  cases hactive : m.activePlan with
  | none => exact h.toRendered.of_none hactive
  | some plan =>
    obtain ⟨p, status, -, htext⟩ := hplan plan hactive
    rw [htext]
    rfl

end Rendering

section Turns

variable {r : Reader} {env : Setting} {py : Python} {m : Memory} {tasks tasks' : List Task} {k : Task} {p : PlanDoc}
  {status : String} {a : Act} {as : List Act} {c c' : Chat}

theorem records_rendered (py : Python) (changeset : List Value) :
    ∀ v ∈ (State.ConversationMemory.records py changeset).1, (itemLine py v).isSome := by
  induction changeset with
  | nil => exact fun v hv => (List.not_mem_nil hv).elim
  | cons entry entries ih =>
    unfold State.ConversationMemory.records
    cases asDict entry with
    | none => exact ih
    | some d =>
      dsimp only
      cases hrecord : State.ConversationMemory.recordOf py d with
      | error e => exact fun v hv => (List.not_mem_nil hv).elim
      | ok record =>
        cases record with
        | none => exact ih
        | some v =>
          refine List.forall_mem_cons.mpr ⟨?_, ih⟩
          -- a record is a dictionary
          unfold State.ConversationMemory.recordOf at hrecord
          cases hdata : State.ConversationMemory.orDict (pyGet d "data") with
          | error e =>
            rw [hdata] at hrecord
            cases hrecord
          | ok data =>
            rw [hdata] at hrecord
            dsimp only [bind, Except.bind] at hrecord
            split_ifs at hrecord <;> cases hrecord <;> rfl

theorem forall_mem_rtake {α : Type} {P : α → Prop} {xs ys : List α} {n : Nat} (hxs : ∀ x ∈ xs, P x) (hys : ∀ y ∈ ys, P y) :
    ∀ x ∈ (xs ++ ys).rtake n, P x := fun x hx =>
  (List.mem_append.mp (mem_of_mem_rtake hx)).elim (hxs x) (hys x)

theorem Rendered.apply (h : Rendered py m) (now : Time) {op : Op} (hop : op ≠ .reload) :
    Rendered py (State.ConversationMemory.apply py m now op) := by
  cases op with
  | reload => exact absurd rfl hop
  | markActivePlanStatus status =>
    unfold State.ConversationMemory.apply State.ConversationMemory.markActivePlanStatus
    cases m.activePlan <;> exact ⟨h.items, h.clarifications, h.insights, h.prompts⟩
  | addPlanDocument plan status =>
    unfold State.ConversationMemory.apply State.ConversationMemory.addPlanDocument
    dsimp only
    split_ifs
    · exact h
    · exact ⟨h.items, h.clarifications, h.insights, h.prompts⟩
  | addPrompt rawPrompt =>
    unfold State.ConversationMemory.apply State.ConversationMemory.addPrompt
    dsimp only
    split_ifs
    · exact h
    · exact ⟨h.items, h.clarifications, h.insights,
        forall_mem_rtake h.prompts (List.forall_mem_singleton.mpr rfl)⟩
  | addClarifications qaPairs =>
    unfold State.ConversationMemory.apply State.ConversationMemory.addClarifications
    dsimp only
    split_ifs
    · exact h
    · refine ⟨h.items, forall_mem_rtake h.clarifications fun v hv => ?_, h.insights, h.prompts⟩
      obtain ⟨pair, -, rfl⟩ := List.mem_map.mp hv
      rfl
  | addInsightsQuery question answer =>
    unfold State.ConversationMemory.apply State.ConversationMemory.addInsightsQuery
    dsimp only
    split_ifs
    · exact h
    · exact ⟨h.items, h.clarifications, forall_mem_rtake h.insights (List.forall_mem_singleton.mpr rfl), h.prompts⟩
  | addChangesetItems changeset =>
    have hnew := records_rendered py changeset
    unfold State.ConversationMemory.apply State.ConversationMemory.addChangesetItems
    dsimp only
    split_ifs
    · exact h
    · cases (State.ConversationMemory.records py changeset).2 with
      | some e => exact ⟨List.forall_mem_append.mpr ⟨h.items, hnew⟩, h.clarifications, h.insights, h.prompts⟩
      | none => exact ⟨forall_mem_rtake h.items hnew, h.clarifications, h.insights, h.prompts⟩

theorem fromTask_of_wrote (hk : k ∈ tasks) (hmode : k.turn.mode = .plan) (hwrote : Wrote r k.planning p)
    (hstatus : status ∈ statuses) : FromTask r tasks (withStatus p.modelDump (str status)) status p :=
  ⟨rfl, hstatus, ⟨k, hk, hmode, hwrote⟩, hwrote.lawful.modelValidate _⟩

theorem FromTask.mark {plan : Dict} (h : FromTask r tasks plan status p) {status' : String} (hstatus : status' ∈ statuses) :
    FromTask r tasks (withStatus plan (str status')) status' p := by
  obtain ⟨rfl, -, ⟨k, hk, hmode, hwrote⟩, -⟩ := h
  have htwice : withStatus (withStatus p.modelDump (str status)) (str status') = withStatus p.modelDump (str status') :=
    insert_insert _ _ _ _
  rw [htwice]
  exact fromTask_of_wrote hk hmode hwrote hstatus

theorem FromTask.mono (hsub : tasks ⊆ tasks') {plan : Dict} (h : FromTask r tasks plan status p) :
    FromTask r tasks' plan status p := by
  obtain ⟨hplan, hstatus, ⟨k, hk, hrest⟩, hread⟩ := h
  exact ⟨hplan, hstatus, ⟨k, hsub hk, hrest⟩, hread⟩

theorem Sound.mono (hsub : tasks ⊆ tasks') (h : Sound py r tasks m) : Sound py r tasks' m where
  toRendered := h.toRendered
  plan plan hplan := by
    obtain ⟨p, status, hfrom⟩ := h.plan plan hplan
    exact ⟨p, status, hfrom.mono hsub⟩

theorem Handed.mono (hsub : tasks ⊆ tasks') (h : Handed r env tasks m) : Handed r env tasks' m := by
  obtain ⟨htext, before, behind, haround, hplan⟩ := h
  refine ⟨htext, before, behind, haround, fun plan hp => ?_⟩
  obtain ⟨p, status, hfrom, hshown⟩ := hplan plan hp
  exact ⟨p, status, hfrom.mono hsub, hshown⟩

theorem rendered_perform (h : Rendered env.py m) (t : Turn) (a : Act) : Rendered env.py (perform env t m a) := by
  unfold perform
  cases hop : operation env t m a with
  | none => exact h
  | some op =>
    refine h.apply _ ?_
    rintro rfl
    cases a with
    | approve => cases (maybeApprove_some hop).1
    | build => cases (markBuilt_some hop).1
    | _ => cases hop

theorem sound_perform (h : Sound env.py r tasks m) (hk : k ∈ tasks) (hmode : a = .propose → k.turn.mode = .plan) :
    Sound env.py r tasks (perform env (k.toTurn r) m a) where
  toRendered := rendered_perform h.toRendered _ a
  plan plan hplan := by
    rw [plan_perform] at hplan
    cases a with
    | propose =>
      simp only [moved] at hplan
      split_ifs at hplan
      · exact h.plan plan hplan
      · obtain ⟨p, hp, hwrote⟩ := planDict_wrote r k.planning
        cases hplan
        refine ⟨p, "proposed", ?_⟩
        change FromTask r tasks (withStatus ((planDict r k.planning).getD []) (str "proposed")) "proposed" p
        rw [hp, Option.getD_some]
        exact fromTask_of_wrote hk (hmode rfl) hwrote (by decide)
    | approve =>
      simp only [moved] at hplan
      split_ifs at hplan
      · obtain ⟨before, hbefore, rfl⟩ := Option.map_eq_some_iff.mp hplan
        obtain ⟨p, status, hfrom⟩ := h.plan before hbefore
        exact ⟨p, "approved", hfrom.mark (by decide)⟩
      · exact h.plan plan hplan
    | build =>
      simp only [moved] at hplan
      split_ifs at hplan
      · obtain ⟨before, hbefore, rfl⟩ := Option.map_eq_some_iff.mp hplan
        obtain ⟨p, status, hfrom⟩ := h.plan before hbefore
        exact ⟨p, "built", hfrom.mark (by decide)⟩
      · exact h.plan plan hplan
    | _ => exact h.plan plan hplan

theorem sound_foldl (h : Sound env.py r tasks m) (hk : k ∈ tasks) (hmode : .propose ∈ as → k.turn.mode = .plan) :
    Sound env.py r tasks (as.foldl (perform env (k.toTurn r)) m) := by
  induction as generalizing m with
  | nil => exact h
  | cons a as ih =>
    have hstep : Sound env.py r tasks (perform env (k.toTurn r) m a) :=
      sound_perform h hk fun ha => hmode (ha ▸ List.mem_cons_self)
    exact ih hstep fun hmem => hmode (List.mem_cons_of_mem a hmem)

theorem moments_handed (h : Sound env.py r tasks m) (hk : k ∈ tasks) (hmode : .propose ∈ as → k.turn.mode = .plan) :
    ∀ mo ∈ moments env (k.toTurn r) as m, Handed r env tasks mo.before ∧ Handed r env tasks mo.after := by
  induction as generalizing m with
  | nil => exact fun mo hmo => (List.not_mem_nil hmo).elim
  | cons a as ih =>
    have hstep : Sound env.py r tasks (perform env (k.toTurn r) m a) :=
      sound_perform h hk fun ha => hmode (ha ▸ List.mem_cons_self)
    exact List.forall_mem_cons.mpr
      ⟨⟨h.handed, hstep.handed⟩, ih hstep fun hmem => hmode (List.mem_cons_of_mem a hmem)⟩

theorem propose_mode {t : Turn} (h : .propose ∈ performed env t) : t.mode = .plan := by
  have hscript := mem_script h
  unfold script at hscript
  cases hmode : t.mode with
  | plan => rfl
  | dev =>
    rw [hmode] at hscript
    dsimp only at hscript
    split_ifs at hscript <;> simp at hscript
  | _ =>
    rw [hmode] at hscript
    simp at hscript

structure Kept (r : Reader) (env : Setting) (c : Chat) : Prop where
  regular : ∀ now, Regular (load env now c.conversation.stored)
  sound : ∀ now, Sound env.py r c.tasks (load env now c.conversation.stored)
  steps : ∀ mo ∈ c.conversation.steps, Handed r env c.tasks mo.before ∧ Handed r env c.tasks mo.after

theorem kept_start (r : Reader) (env : Setting) : Kept r env {} where
  regular := (between_start env).regular
  sound now :=
    { items := fun v hv => (List.not_mem_nil hv).elim
      clarifications := fun v hv => (List.not_mem_nil hv).elim
      insights := fun v hv => (List.not_mem_nil hv).elim
      prompts := fun v hv => (List.not_mem_nil hv).elim
      plan := fun plan hplan => by cases hplan }
  steps mo hmo := (List.not_mem_nil hmo).elim

theorem kept_step (h : Kept r env c) (hstep : handle r env c k = some c') : Kept r env c' := by
  cases hstep
  have hsub : c.tasks ⊆ c.tasks ++ [k] := List.subset_append_left _ _
  have hk : k ∈ c.tasks ++ [k] := List.mem_append_right _ (List.mem_singleton_self k)
  have hmode : .propose ∈ performed env (k.toTurn r) → k.turn.mode = .plan := propose_mode
  have hloaded := (h.sound (k.toTurn r).clock).mono hsub
  have hleaves : Sound env.py r (c.tasks ++ [k]) (leaves env (k.toTurn r) c.conversation.stored) :=
    sound_foldl hloaded hk hmode
  have hregular : Regular (leaves env (k.toTurn r) c.conversation.stored) :=
    regular_foldl (h.regular _) env _ _
  have hload := load_store (t := k.toTurn r) h.regular
  have hsound (now : State.ConversationMemory.Now) :
      Sound env.py r (c.tasks ++ [k]) (load env now (store env (k.toTurn r) c.conversation.stored)) := by
    rw [hload now]
    split_ifs
    · exact hleaves
    · exact (h.sound now).mono hsub
  refine ⟨fun now => ?_, hsound, fun mo hmo => ?_⟩
  · dsimp only
    rw [hload now]
    split_ifs
    · exact hregular
    · exact h.regular now
  · obtain hmo | hmo := List.mem_append.mp hmo
    · exact moments_handed hloaded hk hmode mo hmo
    · obtain rfl := List.mem_singleton.mp hmo
      exact ⟨hleaves.handed, (hsound _).handed⟩

/-- Along every conversation the memory can be put before the model, and its plan is one that a planning task
wrote: what the schema reads in the first object of that crew's result, or a placeholder without anything to build.
The schema allows both. The model is told that plan line by line, what to do of it only when it is approved, and
nothing that depends on the plan beyond these lines. -/
theorem plans_handed_over (r : Reader) (env : Setting) (tasks : List Task) :
    Transition.Always (handle r env)
      (fun c => ∀ mo ∈ c.conversation.steps, Handed r env c.tasks mo.before ∧ Handed r env c.tasks mo.after) {} tasks :=
  (Transition.always_of_step (fun _ _ _ => kept_step) (kept_start r env) tasks).mono fun _ h => h.steps

end Turns

section Delivery

variable {r : Reader} {env : Setting} {m : Memory} {k : Task} {p : PlanDoc} {c : Chat} {d : Doc} {o : Dict}
  {text : List Char}

theorem planDict_wrapped (hd : d.value = .dict o .none) (hread : PlanDoc.modelValidate r o = some p)
    (hwrapped : Wrapped d.render text) (hlimits : ∀ t, t <:+: text → r.overruns t = false) :
    planDict r (.completed text) = some p.modelDump := by
  obtain ⟨hfirst, hinfix⟩ := firstObject_wrapped hd hwrapped
  have hparsed : parsePlanDocJson r (strip text) = .object o := by
    obtain ⟨-, t, ht, hover⟩ | hparsed := parse_cases r (strip text)
    · rw [hlimits t (ht.isInfix.trans hinfix)] at hover
      cases hover
    · rw [hparsed, hfirst]
      rfl
  unfold planDict handlePlan
  dsimp only
  rw [hparsed]
  unfold validateAsPlanDoc
  dsimp only
  rw [hread]
  rfl

theorem leaves_planned (env : Setting) (t : Turn) (hmode : t.mode = .plan) (hends : t.brokeOff = none) (hplan : t.plan ≠ [])
    (stored : Option Dict) :
    saves env t ∧ (leaves env t stored).activePlan = some (withStatus t.plan (str "proposed")) := by
  have hscript : script env t = ([.prompt, .propose], true) := by
    unfold script
    rw [hmode]
  have hperformed : performed env t = [.prompt, .propose] := by
    unfold performed
    rw [hends, hscript]
  refine ⟨by rw [saves, hends, hscript]; rfl, ?_⟩
  unfold leaves
  rw [hperformed]
  generalize load env t.clock stored = m
  refine (plan_perform env t (perform env t m .prompt) .propose).trans ?_
  exact if_neg (by simpa using hplan)

theorem approve_perform {t : Turn} (hplan : m.activePlan = some (withStatus p.modelDump (str "proposed")))
    (hsignals : signalsApproval env t.prompt) :
    (perform env t m .approve).activePlan = some (withStatus p.modelDump (str "approved")) := by
  have hproposed : ((withStatus p.modelDump (str "proposed")).isEmpty || isStr (.str (str "proposed")) "built" ||
      isStr (.str (str "proposed")) "rejected" || isStr (.str (str "proposed")) "approved") = false := by
    rw [show (withStatus p.modelDump (str "proposed")).isEmpty = false from rfl]
    decide
  have happroves : maybeApproveActivePlan env t.prompt m = some (.markActivePlanStatus (str "approved")) := by
    unfold maybeApproveActivePlan
    rw [hplan]
    dsimp only
    rw [planStatus_withStatus (by decide), hproposed, if_neg Bool.false_ne_true, if_pos hsignals]
  rw [plan_perform]
  simp only [moved, happroves, Option.isSome_some, if_true, hplan, Option.map_some]
  exact congrArg some (insert_insert _ _ _ _)

theorem run_exists (r : Reader) (env : Setting) (ks : List Task) (c : Chat) :
    ∃ c', Transition.run (handle r env) c ks = some c' := by
  induction ks generalizing c with
  | nil => exact ⟨c, rfl⟩
  | cons k ks ih => exact ih _

/-- The plan that a crew writes into its reply, with prose around it or between fences, is put before the developer
who is told to build it: every conversation that goes on with the planning turn, and then with a prompt that
approves, comes to a memory that says the plan as it was written, as far as the lines of a plan go. -/
theorem plans_delivered (r : Reader) (env : Setting) (tasks : List Task) (planner developer : Task) (d : Doc)
    (o : Dict) (p : PlanDoc) (text : List Char) (hd : d.value = .dict o .none)
    (hread : PlanDoc.modelValidate r o = some p) (hwrapped : Wrapped d.render text)
    (hlimits : ∀ t, t <:+: text → r.overruns t = false) (hplans : planner.turn.mode = .plan)
    (hends : planner.turn.brokeOff = none) (hresult : planner.planning = .completed text)
    (hsignals : signalsApproval env developer.turn.prompt) (hreaches : .approve ∈ performed env developer.turn) :
    ∃ c, Transition.run (handle r env) {} (tasks ++ [planner, developer]) = some c ∧
      ∃ mo ∈ c.conversation.steps, mo.act = some .approve ∧ ∃ before behind,
        renderForPrompt env.py mo.after = some (textOf (before ++ (planShown env.py "approved" p ++ behind))) := by
  obtain ⟨c, hrun⟩ := run_exists r env tasks {}
  have hkept : Kept r env c := Transition.run_of_step (fun _ _ _ => kept_step) (kept_start r env) hrun
  have hplan : (planner.toTurn r).plan = p.modelDump := by
    change (planDict r planner.planning).getD [] = _
    rw [hresult, planDict_wrapped hd hread hwrapped hlimits, Option.getD_some]
  have hthere : (planner.toTurn r).plan ≠ [] := hplan ▸ List.cons_ne_nil _ _
  obtain ⟨hsaves, hleaves⟩ := leaves_planned env (planner.toTurn r) hplans hends hthere
    c.conversation.stored
  -- the developer's turn loads the plan, and its second operation approves it
  let stored := store env (planner.toTurn r) c.conversation.stored
  let loaded := load env (developer.toTurn r).clock stored
  let prompted := perform env (developer.toTurn r) loaded .prompt
  have hloaded : loaded.activePlan = some (withStatus p.modelDump (str "proposed")) := by
    have hload := load_store (t := planner.toTurn r) hkept.regular (developer.toTurn r).clock
    rw [if_pos hsaves] at hload
    rw [show loaded = _ from hload, hleaves, hplan]
  have hprompted : prompted.activePlan = some (withStatus p.modelDump (str "proposed")) :=
    (plan_perform env (developer.toTurn r) loaded .prompt).trans hloaded
  have happroved : (perform env (developer.toTurn r) prompted .approve).activePlan =
      some (withStatus p.modelDump (str "approved")) := approve_perform hprompted hsignals
  obtain ⟨-, rest, hperformed, -, -⟩ := approve_performed (t := developer.toTurn r) hreaches
  have hplanner : Kept r env _ := kept_step (k := planner) hkept rfl
  have hrendered : Rendered env.py (perform env (developer.toTurn r) prompted .approve) :=
    rendered_perform (rendered_perform (hplanner.sound _).toRendered _ _) _ _
  obtain ⟨before, behind, haround⟩ := hrendered.around
  have htold := haround p "approved" (by decide)
  rw [← happroved] at htold
  refine ⟨_, by rw [Transition.run_append, hrun]; rfl, ⟨developer.toTurn r, some .approve, prompted, _⟩, ?_, rfl, before,
    behind, htold⟩
  change _ ∈ turnMoments env (developer.toTurn r) stored
  unfold turnMoments
  rw [hperformed]
  exact List.mem_append_left _ (List.mem_cons_of_mem _ List.mem_cons_self)

/-- Readers that take nothing but what has the type that is asked for. -/
def plainReader : Reader where
  overruns _ := false
  dumps _ := str "\x7b\x7d"
  string v :=
    match v with
    | .str s => some s
    | _ => none
  int v :=
    match v with
    | .int n => some n
    | _ => none
  bool v :=
    match v with
    | .bool b => some b
    | _ => none
  explain _ := str "validation error"
  dumps_ascii _ := by decide
  string_eq v s h := by
    cases v with
    | str t =>
      cases h
      rfl
    | _ => cases h
  string_str _ _ := rfl
  int_int _ := rfl
  bool_bool _ := rfl

def stepDoc : Doc :=
  .object [] (.cons (rawBody "order".toList) [] [] (.number ⟨false, .digits ⟨'1', by decide⟩ [], none, none⟩) [] []
    (.cons (rawBody "action".toList) [] [] (.string (rawBody "Add a field".toList)) [] [⟨' ', rfl⟩]
      (.last (rawBody "doctype".toList) [] [] (.string (rawBody "Lead".toList)) [])))

def planDoc : Doc :=
  .object [] (.cons (rawBody "title".toList) [] [⟨' ', rfl⟩] (.string (rawBody ['P'])) [] [⟨'\n', rfl⟩]
    (.cons (rawBody "summary".toList) [] [] (.string (rawBody ['S'])) [] []
      (.cons (rawBody "steps".toList) [] [] (.array [] (.last stepDoc [])) [] []
        (.last (rawBody "doctypes_touched".toList) [] [] (.array [] (.last (.string (rawBody "Lead".toList)) [])) []))))

def planEntries : Dict :=
  [(str "title", .str (str "P")), (str "summary", .str (str "S")),
    (str "steps", .list [.dict [(str "order", .int 1), (str "action", .str (str "Add a field")),
      (str "doctype", .str (str "Lead"))] .none]),
    (str "doctypes_touched", .list [.str (str "Lead")])]

def shownPlan : PlanDoc where
  title := str "P"
  summary := str "S"
  steps := [{ order := 1, action := str "Add a field", rationale := [], doctype := some (str "Lead") }]
  doctypesTouched := [str "Lead"]

def planReply : List Char := "Here is the plan: ".toList ++ planDoc.render ++ ['.']

def early : Task where
  turn := { mode := .plan, prompt := str "a field", clock := noon }
  planning := .unbuilt (str "no model")

def planner : Task where
  turn := { mode := .plan, prompt := str "how", clock := noon }
  planning := .completed planReply

def developer : Task where
  turn := { mode := .dev, prompt := str "yes, build it!", clock := noon }
  planning := .raised

theorem step_plan_delivered :
    ∃ c, Transition.run (handle plainReader plainSetting) {} ([early] ++ [planner, developer]) = some c ∧
      ∃ mo ∈ c.conversation.steps, mo.act = some .approve ∧ ∃ before behind,
        renderForPrompt plainSetting.py mo.after =
          some (textOf (before ++ (planShown plainSetting.py "approved" shownPlan ++ behind))) := by
  have hvalue : planDoc.value = .dict planEntries .none := rfl
  have hread : PlanDoc.modelValidate plainReader planEntries = some shownPlan := rfl
  have hwrapped : Wrapped planDoc.render planReply := .prose "Here is the plan: ".toList ['.'] (by decide) (by decide)
  exact plans_delivered plainReader plainSetting [early] planner developer planDoc planEntries shownPlan planReply hvalue
    hread hwrapped (fun _ _ => rfl) rfl rfl rfl (by decide) (by decide)

end Delivery

end AlfredProcessing.Pipeline.PlanHandoff
