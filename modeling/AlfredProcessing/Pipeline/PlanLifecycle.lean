import AlfredProcessing.Pipeline.Context
import AlfredProcessing.PostBuild.BackfillTyped
import AlfredProcessing.State.MemoryRendering
import Mathlib.Data.List.Perm.Subperm

namespace AlfredProcessing.Pipeline.PlanLifecycle

open Lib Lib.Json Extract.Changes Extract.Cleaning PostBuild.Backfill PostBuild.Reflection
  State.ConversationMemory State.MemoryRendering Context

section Model

/-- What the turns of a conversation share. `lower` is `str.lower`, and `wordChar` tells the
characters of words. -/
structure Setting where
  py : Python
  lower : Str → Str
  wordChar : Nat → Bool
  conversationId : Str

/-- One turn: its mode and its prompt, what the handlers, the clarifier and the crew come up with,
and after how many operations on the memory the run breaks off, if it does. The changes are those
that the safety nets leave, the verdict is that of the reflection, and `fixed` is what the second
attempt behind a dry run yields. -/
structure Turn where
  mode : Mode
  prompt : Str
  insightsReply : Str := []
  plan : Dict := []
  qaPairs : List (Str × Str) := []
  changes : List Change := []
  verdict : Option Verdict := none
  fixed : List Change := []
  brokeOff : Option Nat := none
  clock : Now

/-- The places where a turn works on the memory. -/
inductive Act where
  | prompt
  | insights
  | propose
  | approve
  | clarify
  | items
  | build
  deriving DecidableEq

def planApprovalPatterns : List String :=
  ["approve and build the plan", "approve the plan", "build the plan", "build it", "go ahead with the plan",
    "yes, build it", "yes build it", "let's build it", "lets build it", "proceed with the plan"]

/-- `pat in s`. -/
def occurs (pat : Str) : Str → Bool
  | [] => pat.isEmpty
  | c :: cs => pat.isPrefixOf (c :: cs) || occurs pat cs

variable (env : Setting)

def signalsApproval (prompt : Str) : Bool :=
  planApprovalPatterns.any fun pat => occurs (str pat) (env.lower (stripped prompt))

/-- `_maybe_approve_active_plan`. -/
def maybeApproveActivePlan (prompt : Str) (m : Memory) : Option Op :=
  match m.activePlan with
  | none => none
  | some plan =>
    let status := planStatus plan
    if plan.isEmpty || isStr status "built" || isStr status "rejected" || isStr status "approved" then none
    else if signalsApproval env prompt then some (.markActivePlanStatus (str "approved"))
    else none

/-- `_mark_active_plan_built_if_any`. -/
def markActivePlanBuiltIfAny (m : Memory) : Option Op :=
  match m.activePlan with
  | none => none
  | some plan =>
    if plan.isEmpty || !isStr (pyGet plan "status") "approved" then none
    else some (.markActivePlanStatus (str "built"))

variable (t : Turn)

/-- The changes behind the reflection and the dry run, which keeps them where its second attempt
yields nothing. -/
def Turn.finalChanges : List Change :=
  if t.fixed.isEmpty then (prune t.verdict t.changes).1 else t.fixed

def Turn.changeset : List Value := t.finalChanges.map fun c => .dict (PostBuild.BackfillTyped.toObject c) .none

/-- Whether `add_changeset_items` returns. -/
def recorded : Bool := (records env.py t.changeset).2.isNone

/-- The operations of a turn that does not break off, and whether it comes to its save. A dev run
without changes ends with an error. -/
def script : List Act × Bool :=
  match t.mode with
  | .chat => ([.prompt], true)
  | .insights => ([.prompt, .insights], true)
  | .plan => ([.prompt, .propose], true)
  | .dev =>
    if t.changes.isEmpty then ([.prompt, .approve, .clarify], false)
    else if recorded env t then ([.prompt, .approve, .clarify, .items, .build], true)
    else ([.prompt, .approve, .clarify, .items], false)

def performed : List Act :=
  match t.brokeOff with
  | none => (script env t).1
  | some n => (script env t).1.take n

def saves : Bool := t.brokeOff.isNone && (script env t).2

def operation (m : Memory) : Act → Option Op
  | .prompt => some (.addPrompt t.prompt)
  | .insights => some (.addInsightsQuery t.prompt t.insightsReply)
  | .propose => some (.addPlanDocument t.plan (str "proposed"))
  | .approve => maybeApproveActivePlan env t.prompt m
  | .clarify => some (.addClarifications t.qaPairs)
  | .items => some (.addChangesetItems t.changeset)
  | .build => markActivePlanBuiltIfAny m

def perform (m : Memory) (a : Act) : Memory :=
  match operation env t m a with
  | none => m
  | some op => apply env.py m t.clock op

/-- `load_conversation_memory`, of a store that answers. -/
def load (now : Now) : Option Dict → Memory
  | none => fresh env.conversationId now
  | some data =>
    match fromDict env.py now data with
    | .ok m => m
    | .error _ => fresh env.conversationId now

/-- A step of a turn: an operation, or what becomes of the memory behind it. -/
structure Moment where
  turn : Turn
  act : Option Act
  before : Memory
  after : Memory

def moments : List Act → Memory → List Moment
  | [], _ => []
  | a :: as, m => { turn := t, act := some a, before := m, after := perform env t m a } :: moments as (perform env t m a)

def leaves (stored : Option Dict) : Memory := (performed env t).foldl (perform env t) (load env t.clock stored)

def store (stored : Option Dict) : Option Dict :=
  if saves env t then some (toDict (leaves env t stored)) else stored

/-- The steps of a turn. The last one leaves the memory behind, and has what the next turn loads. -/
def turnMoments (stored : Option Dict) : List Moment :=
  moments env t (performed env t) (load env t.clock stored) ++
    [{ turn := t, act := none, before := leaves env t stored, after := load env t.clock (store env t stored) }]

structure Conversation where
  stored : Option Dict := none
  steps : List Moment := []

def step (s : Conversation) (t : Turn) : Option Conversation :=
  some { stored := store env t s.stored, steps := turnMoments env t s.stored }

end Model

section Contract

variable (env : Setting)

/-- A phrase in a text with no character of a word right before or behind it. -/
def StandsAlone (pat text : Str) : Prop :=
  ∃ before after, text = before ++ pat ++ after ∧ (∀ c ∈ before.getLast?, ¬env.wordChar c) ∧
    ∀ c ∈ after.head?, ¬env.wordChar c

def SaysApproval (prompt : Str) : Prop :=
  ∃ pat ∈ planApprovalPatterns, StandsAlone env (str pat) (env.lower (stripped prompt))

def standsAloneAt (pat text : Str) (i : Nat) : Bool :=
  pat.isPrefixOf (text.drop i) && !(text.take i).getLast?.any env.wordChar &&
    !(text.drop (i + pat.length)).head?.any env.wordChar

variable {env} in
theorem standsAlone_iff {pat text : Str} :
    StandsAlone env pat text ↔ ∃ i < text.length + 1, standsAloneAt env pat text i := by
  have hbounds (o : Option Nat) : (∀ c ∈ o, ¬env.wordChar c) ↔ o.any env.wordChar = false := by
    cases o <;> simp
  constructor
  · rintro ⟨before, after, rfl, hbefore, hafter⟩
    refine ⟨before.length, by simp only [List.length_append]; omega, ?_⟩
    unfold standsAloneAt
    rw [List.append_assoc, List.drop_left, List.take_left, (hbounds _).mp hbefore, ← List.append_assoc,
      ← List.length_append, List.drop_left, (hbounds _).mp hafter]
    simp
  · rintro ⟨i, -, hi⟩
    unfold standsAloneAt at hi
    simp only [Bool.and_eq_true, Bool.not_eq_true', List.isPrefixOf_iff_prefix] at hi
    obtain ⟨⟨⟨after, hafter⟩, hbefore⟩, hbehind⟩ := hi
    refine ⟨text.take i, after, ?_, (hbounds _).mpr hbefore, (hbounds _).mpr ?_⟩
    · rw [List.append_assoc, hafter, List.take_append_drop]
    · rw [← List.drop_drop, ← hafter, List.drop_left] at hbehind
      exact hbehind

instance decidableSaysApproval (prompt : Str) : Decidable (SaysApproval env prompt) :=
  decidable_of_iff (∃ pat ∈ planApprovalPatterns, ∃ i < (env.lower (stripped prompt)).length + 1,
      standsAloneAt env (str pat) (env.lower (stripped prompt)) i)
    (exists_congr fun _ => and_congr_right fun _ => standsAlone_iff.symm)

def HasStatus (m : Memory) (status : String) : Prop :=
  ∃ p, m.activePlan = some p ∧ pyGet p "status" = .str (str status)

def Moves (mo : Moment) : Prop :=
  mo.after.activePlan = mo.before.activePlan ∨
    (∃ p, mo.before.activePlan = some p ∧ pyGet p "status" = .str (str "proposed") ∧
      mo.after.activePlan = some (withStatus p (str "approved"))) ∨
    (∃ p, mo.before.activePlan = some p ∧ pyGet p "status" = .str (str "approved") ∧
      mo.after.activePlan = some (withStatus p (str "built"))) ∨
    (mo.act = some .propose ∧ HasStatus mo.after "proposed")

structure Lawful (mo : Moment) : Prop where
  moves : Moves mo
  approved : ¬HasStatus mo.before "approved" → HasStatus mo.after "approved" →
    mo.turn.mode = .dev ∧ SaysApproval env mo.turn.prompt
  built : ¬HasStatus mo.before "built" → HasStatus mo.after "built" →
    mo.turn.mode = .dev ∧ mo.act = some .build ∧ mo.turn.finalChanges ≠ []
  steps : ¬HasStatus mo.after "approved" →
    ∀ steps, renderForPrompt env.py (withSteps steps mo.after) = renderForPrompt env.py mo.after

/-- Every step of the last turn is one that may be. -/
def Orderly (s : Conversation) : Prop := ∀ mo ∈ s.steps, Lawful env mo

def Approves (s : Conversation) (t : Turn) : Prop :=
  .approve ∈ performed env t ∧ (maybeApproveActivePlan env t.prompt (load env t.clock s.stored)).isSome

def Proposes (s : Conversation) (t : Turn) : Prop :=
  .propose ∈ performed env t ∧ t.plan ≠ [] ∧
    (load env t.clock s.stored).activePlan ≠ some (withStatus t.plan (str "proposed"))

/-- A turn approves a plan on a phrase that stands alone, and saves what it makes of the plan. -/
def Heeded (s : Conversation) (t : Turn) : Prop :=
  (Approves env s t → SaysApproval env t.prompt) ∧ (Approves env s t ∨ Proposes env s t → saves env t)

end Contract

section Operations

variable {env : Setting} {t : Turn} {m m' : Memory} {a : Act} {as : List Act} {op : Op} {prompt : Str}
  {p : Dict} {status : String}

def Known (m : Memory) : Prop :=
  ∀ p, m.activePlan = some p → pyGet p "status" = .str (str "proposed") ∨
    pyGet p "status" = .str (str "approved") ∨ pyGet p "status" = .str (str "built")

def Settled (m : Memory) : Prop :=
  ∀ p, m.activePlan = some p → pyGet p "status" = .str (str "proposed") ∨ pyGet p "status" = .str (str "built")

theorem Settled.known (h : Settled m) : Known m := fun p hp => (h p hp).imp id .inr

theorem status_withStatus (p : Dict) (s : Str) : pyGet (withStatus p s) "status" = .str s := by
  unfold withStatus pyGet
  rw [get_insert, if_pos rfl]
  rfl

theorem planStatus_of_str (h : pyGet p "status" = .str (str status)) (hne : (str status).isEmpty = false) :
    planStatus p = .str (str status) := by
  unfold planStatus
  rw [h, pyOr, if_pos (by simpa [Value.truthy] using hne)]

theorem Known.congr (h : Known m) (hplan : m'.activePlan = m.activePlan) : Known m' := fun p hp =>
  h p (hplan ▸ hp)

theorem HasStatus.congr (h : HasStatus m status) (hplan : m.activePlan = m'.activePlan) : HasStatus m' status := by
  obtain ⟨p, hp, hstatus⟩ := h
  exact ⟨p, hplan ▸ hp, hstatus⟩

theorem maybeApprove_some (h : maybeApproveActivePlan env prompt m = some op) :
    op = .markActivePlanStatus (str "approved") ∧ ∃ p, m.activePlan = some p ∧ p ≠ [] ∧
      isStr (planStatus p) "built" = false ∧ isStr (planStatus p) "approved" = false := by
  unfold maybeApproveActivePlan at h
  cases hplan : m.activePlan with
  | none =>
    rw [hplan] at h
    cases h
  | some p =>
    rw [hplan] at h
    dsimp only at h
    split_ifs at h with hover hsignal
    · cases h
      simp only [Bool.or_eq_true, not_or, Bool.not_eq_true] at hover
      obtain ⟨⟨⟨hempty, hbuilt⟩, -⟩, happroved⟩ := hover
      exact ⟨rfl, p, rfl, by simpa using hempty, hbuilt, happroved⟩

theorem proposed_of_maybeApprove (hknown : Known m) (h : (maybeApproveActivePlan env prompt m).isSome) :
    ∃ p, m.activePlan = some p ∧ pyGet p "status" = .str (str "proposed") := by
  obtain ⟨op, hop⟩ := Option.isSome_iff_exists.mp h
  obtain ⟨-, p, hp, -, hbuilt, happroved⟩ := maybeApprove_some hop
  obtain hstatus | hstatus | hstatus := hknown p hp
  · exact ⟨p, hp, hstatus⟩
  · rw [planStatus_of_str hstatus (by decide)] at happroved
    cases happroved
  · rw [planStatus_of_str hstatus (by decide)] at hbuilt
    cases hbuilt

theorem markBuilt_some (h : markActivePlanBuiltIfAny m = some op) :
    op = .markActivePlanStatus (str "built") ∧ HasStatus m "approved" := by
  unfold markActivePlanBuiltIfAny at h
  cases hplan : m.activePlan with
  | none =>
    rw [hplan] at h
    cases h
  | some p =>
    rw [hplan] at h
    dsimp only at h
    split_ifs at h with hnot
    · cases h
      refine ⟨rfl, p, hplan, ?_⟩
      simp only [Bool.or_eq_true, not_or, Bool.not_eq_true, Bool.not_eq_false'] at hnot
      cases hvalue : pyGet p "status" with
      | str s =>
        have hs : s = str "approved" := by simpa [isStr, hvalue] using hnot.2
        rw [hs]
      | _ => simp [isStr, hvalue] at hnot

theorem markBuilt_isSome (h : HasStatus m "approved") : (markActivePlanBuiltIfAny m).isSome := by
  obtain ⟨p, hp, hstatus⟩ := h
  have hne : p.isEmpty = false := by
    cases p with
    | nil => cases hstatus
    | cons e p => rfl
  unfold markActivePlanBuiltIfAny
  rw [hp]
  dsimp only
  rw [hne, hstatus]
  rfl

/-- What an operation makes of the active plan. -/
def moved (env : Setting) (t : Turn) (m : Memory) : Act → Option Dict
  | .propose => if t.plan.isEmpty then m.activePlan else some (withStatus t.plan (str "proposed"))
  | .approve =>
    if (maybeApproveActivePlan env t.prompt m).isSome then m.activePlan.map (withStatus · (str "approved"))
    else m.activePlan
  | .build =>
    if (markActivePlanBuiltIfAny m).isSome then m.activePlan.map (withStatus · (str "built")) else m.activePlan
  | _ => m.activePlan

theorem plan_marked (py : Python) (m : Memory) (now : Now) (s : Str) :
    (apply py m now (.markActivePlanStatus s)).activePlan = m.activePlan.map (withStatus · s) := by
  simp only [apply, markActivePlanStatus]
  cases hplan : m.activePlan with
  | none => exact hplan
  | some p => rfl

theorem plan_perform (env : Setting) (t : Turn) (m : Memory) (a : Act) :
    (perform env t m a).activePlan = moved env t m a := by
  cases a with
  | prompt =>
    simp only [perform, operation, apply, addPrompt, moved]
    split_ifs <;> rfl
  | insights =>
    simp only [perform, operation, apply, addInsightsQuery, moved]
    split_ifs <;> rfl
  | propose =>
    simp only [perform, operation, apply, addPlanDocument, moved]
    split_ifs <;> rfl
  | approve =>
    simp only [perform, operation, moved]
    cases hop : maybeApproveActivePlan env t.prompt m with
    | none => rfl
    | some op =>
      obtain ⟨rfl, -⟩ := maybeApprove_some hop
      exact plan_marked env.py m t.clock _
  | clarify =>
    simp only [perform, operation, apply, addClarifications, moved]
    split_ifs <;> rfl
  | items =>
    simp only [perform, operation, apply, addChangesetItems, moved]
    split_ifs
    · rfl
    · cases (records env.py t.changeset).2 <;> rfl
  | build =>
    simp only [perform, operation, moved]
    cases hop : markActivePlanBuiltIfAny m with
    | none => rfl
    | some op =>
      obtain ⟨rfl, -⟩ := markBuilt_some hop
      exact plan_marked env.py m t.clock _

theorem regular_perform (h : Regular m) (env : Setting) (t : Turn) (a : Act) : Regular (perform env t m a) := by
  unfold perform
  cases operation env t m a with
  | none => exact h
  | some op => exact h.apply op

theorem regular_foldl (h : Regular m) (env : Setting) (t : Turn) (as : List Act) :
    Regular (as.foldl (perform env t) m) := by
  induction as generalizing m with
  | nil => exact h
  | cons a as ih => exact ih (regular_perform h env t a)

end Operations

section Steps

variable {env : Setting} {t : Turn} {m m₀ : Memory} {a : Act} {as : List Act} {mo : Moment}

theorem steps_hidden (hknown : Known m) (h : ¬HasStatus m "approved") (steps : Value) :
    renderForPrompt env.py (withSteps steps m) = renderForPrompt env.py m := by
  refine render_withSteps (fun p hp => ⟨fun hnil => ?_, ?_⟩) steps
  · subst hnil
    obtain hstatus | hstatus | hstatus := hknown [] hp <;> cases hstatus
  · obtain hstatus | hstatus | hstatus := hknown p hp
    · rw [hstatus]
      decide
    · exact absurd ⟨p, hp, hstatus⟩ h
    · rw [hstatus]
      decide

theorem lawful_same (h : mo.after.activePlan = mo.before.activePlan) (hknown : Known mo.after) : Lawful env mo where
  moves := .inl h
  approved hbefore hafter := absurd (hafter.congr h) hbefore
  built hbefore hafter := absurd (hafter.congr h) hbefore
  steps := steps_hidden hknown

theorem hasStatus_unique {s s' : String} (h : HasStatus m s) (h' : HasStatus m s') : str s = str s' := by
  obtain ⟨p, hp, hs⟩ := h
  obtain ⟨q, hq, hs'⟩ := h'
  rw [hp] at hq
  cases hq
  rw [hs] at hs'
  exact Value.str.inj hs'

theorem not_hasStatus {s s' : String} (h : HasStatus m s) (hne : str s ≠ str s') : ¬HasStatus m s' := fun h' =>
  hne (hasStatus_unique h h')

theorem known_of_hasStatus {s : String} (h : HasStatus m s) (hs : s = "proposed" ∨ s = "approved" ∨ s = "built") :
    Known m := by
  obtain ⟨p, hp, hstatus⟩ := h
  intro q hq
  rw [hp] at hq
  cases hq
  obtain rfl | rfl | rfl := hs
  · exact .inl hstatus
  · exact .inr (.inl hstatus)
  · exact .inr (.inr hstatus)

theorem hasStatus_marked {p : Dict} {s : String} (h : m.activePlan = some (withStatus p (str s))) : HasStatus m s :=
  ⟨_, h, status_withStatus p (str s)⟩

theorem lawful_marked {p : Dict} {status : String} (hafter : mo.after.activePlan = some (withStatus p (str status)))
    (hstatus : status = "proposed" ∨ status = "approved" ∨ status = "built") (hmoves : Moves mo)
    (happroved : status = "approved" → mo.turn.mode = .dev ∧ SaysApproval env mo.turn.prompt)
    (hbuilt : status = "built" → mo.turn.mode = .dev ∧ mo.act = some .build ∧ mo.turn.finalChanges ≠ []) :
    Lawful env mo ∧ Known mo.after := by
  have hmarked := hasStatus_marked hafter
  have hknown := known_of_hasStatus hmarked hstatus
  have hother {s : String} (hne : str status ≠ str s) : ¬HasStatus mo.after s := not_hasStatus hmarked hne
  obtain rfl | rfl | rfl := hstatus
  · exact ⟨⟨hmoves, fun _ h => absurd h (hother (by decide)), fun _ h => absurd h (hother (by decide)),
      steps_hidden hknown⟩, hknown⟩
  · exact ⟨⟨hmoves, fun _ _ => happroved rfl, fun _ h => absurd h (hother (by decide)), steps_hidden hknown⟩, hknown⟩
  · exact ⟨⟨hmoves, fun _ h => absurd h (hother (by decide)), fun _ _ => hbuilt rfl, steps_hidden hknown⟩, hknown⟩

/-- What an operation does to the plan is one of the moves, where an approval is asked for and a
dev run has changes. -/
theorem lawful_perform (env : Setting) (t : Turn) (hknown : Known m)
    (hphrase : a = .approve → (maybeApproveActivePlan env t.prompt m).isSome → t.mode = .dev ∧ SaysApproval env t.prompt)
    (hchanges : a = .build → t.mode = .dev ∧ t.finalChanges ≠ []) :
    Lawful env { turn := t, act := some a, before := m, after := perform env t m a } ∧ Known (perform env t m a) := by
  have hplan := plan_perform env t m a
  have hsame (h : moved env t m a = m.activePlan) :
      Lawful env { turn := t, act := some a, before := m, after := perform env t m a } ∧ Known (perform env t m a) :=
    have hafter := hplan.trans h
    ⟨lawful_same hafter (hknown.congr hafter), hknown.congr hafter⟩
  cases a with
  | prompt | insights | clarify | items => exact hsame rfl
  | propose =>
    by_cases hempty : t.plan.isEmpty
    · exact hsame (if_pos hempty)
    · have hafter := hplan.trans (if_neg hempty)
      exact lawful_marked hafter (.inl rfl) (.inr (.inr (.inr ⟨rfl, hasStatus_marked hafter⟩)))
        (fun h => absurd h (by decide)) (fun h => absurd h (by decide))
  | approve =>
    by_cases hsome : (maybeApproveActivePlan env t.prompt m).isSome
    · have hafter := hplan.trans (if_pos hsome)
      obtain ⟨p, hp, hproposed⟩ := proposed_of_maybeApprove hknown hsome
      rw [hp] at hafter
      exact lawful_marked hafter (.inr (.inl rfl)) (.inr (.inl ⟨p, hp, hproposed, hafter⟩))
        (fun _ => hphrase rfl hsome) (fun h => absurd h (by decide))
    · exact hsame (if_neg hsome)
  | build =>
    by_cases hsome : (markActivePlanBuiltIfAny m).isSome
    · have hafter := hplan.trans (if_pos hsome)
      obtain ⟨op, hop⟩ := Option.isSome_iff_exists.mp hsome
      obtain ⟨-, p, hp, happroved⟩ := markBuilt_some hop
      rw [hp] at hafter
      obtain ⟨hmode, hne⟩ := hchanges rfl
      exact lawful_marked hafter (.inr (.inr rfl)) (.inr (.inr (.inl ⟨p, hp, happroved, hafter⟩)))
        (fun h => absurd h (by decide)) (fun _ => ⟨hmode, rfl, hne⟩)
    · exact hsame (if_neg hsome)

theorem moments_lawful (env : Setting) (t : Turn) (hknown : Known m) (happrove : .approve ∉ as)
    (hchanges : .build ∈ as → t.mode = .dev ∧ t.finalChanges ≠ []) :
    (∀ mo ∈ moments env t as m, Lawful env mo) ∧ Known (as.foldl (perform env t) m) := by
  induction as generalizing m with
  | nil => exact ⟨fun _ hmo => (List.not_mem_nil hmo).elim, hknown⟩
  | cons a as ih =>
    obtain ⟨hfirst, hknown'⟩ := lawful_perform (a := a) env t hknown
      (fun ha => absurd (ha ▸ List.mem_cons_self) happrove) fun ha => hchanges (ha ▸ List.mem_cons_self)
    obtain ⟨hrest, hknown''⟩ := ih hknown' (fun h => happrove (List.mem_cons_of_mem _ h))
      fun h => hchanges (List.mem_cons_of_mem _ h)
    refine ⟨fun mo hmo => ?_, hknown''⟩
    obtain rfl | hmo := List.mem_cons.mp hmo
    · exact hfirst
    · exact hrest mo hmo

end Steps

section Turns

variable {env : Setting} {t : Turn} {m m₀ : Memory} {a : Act} {as : List Act} {now : Now} {stored : Option Dict}
  {s s' : Conversation}

theorem kept_ne_nil {idx : List Nat} {changes : List Change} (h : idx.length < changes.length) :
    kept idx changes ≠ [] := by
  intro hnil
  have hall : ∀ k < changes.length, k ∈ idx := by
    intro k hk
    by_contra hnot
    have hmem : (changes[k], k) ∈ changes.zipIdx.filter fun p => decide (p.2 ∉ idx) :=
      List.mem_filter.mpr ⟨List.mem_zipIdx_iff_getElem?.mpr (List.getElem?_eq_getElem hk), decide_eq_true hnot⟩
    rw [List.map_eq_nil_iff.mp hnil] at hmem
    cases hmem
  have hsubset : List.range changes.length ⊆ idx := fun k hk => hall k (List.mem_range.mp hk)
  have hle := (List.subperm_of_subset List.nodup_range hsubset).length_le
  rw [List.length_range] at hle
  omega

theorem finalChanges_ne_nil (h : t.changes.isEmpty = false) : t.finalChanges ≠ [] := by
  have hchanges : t.changes ≠ [] := by simpa using h
  unfold Turn.finalChanges
  split_ifs with hfixed
  · unfold prune
    cases t.verdict with
    | none => exact hchanges
    | some v =>
      dsimp only
      split_ifs with hidx
      · exact hchanges
      · refine kept_ne_nil ?_
        simp only [Bool.or_eq_true, decide_eq_true_eq, not_or] at hidx
        exact Nat.lt_of_not_le hidx.2
  · simpa using hfixed

theorem performed_eq_take (env : Setting) (t : Turn) : ∃ n, performed env t = (script env t).1.take n := by
  unfold performed
  cases t.brokeOff with
  | none => exact ⟨_, List.take_length.symm⟩
  | some n => exact ⟨n, rfl⟩

theorem mem_script (h : a ∈ performed env t) : a ∈ (script env t).1 := by
  obtain ⟨n, hn⟩ := performed_eq_take env t
  exact List.mem_of_mem_take (hn ▸ h)

theorem build_performed (h : .build ∈ performed env t) : t.mode = .dev ∧ t.finalChanges ≠ [] := by
  have hscript := mem_script h
  unfold script at hscript
  cases hmode : t.mode with
  | dev =>
    rw [hmode] at hscript
    dsimp only at hscript
    split_ifs at hscript with hempty hrecorded
    · simp at hscript
    · exact ⟨rfl, finalChanges_ne_nil (by simpa using hempty)⟩
    · simp at hscript
  | _ =>
    rw [hmode] at hscript
    simp at hscript

theorem approve_performed (h : .approve ∈ performed env t) : t.mode = .dev ∧ ∃ rest,
    performed env t = .prompt :: .approve :: rest ∧ .approve ∉ rest ∧ .propose ∉ rest := by
  have hscript := mem_script h
  obtain ⟨n, hn⟩ := performed_eq_take env t
  have htail : t.mode = .dev ∧ ∃ tail, (script env t).1 = .prompt :: .approve :: tail ∧
      .approve ∉ tail ∧ .propose ∉ tail := by
    unfold script at hscript ⊢
    cases hmode : t.mode with
    | dev =>
      refine ⟨rfl, ?_⟩
      dsimp only
      split_ifs <;> exact ⟨_, rfl, by decide, by decide⟩
    | _ =>
      rw [hmode] at hscript
      simp at hscript
  obtain ⟨hmode, tail, htail, happrove, hpropose⟩ := htail
  refine ⟨hmode, tail.take (n - 2), ?_, fun hmem => happrove (List.mem_of_mem_take hmem),
    fun hmem => hpropose (List.mem_of_mem_take hmem)⟩
  rw [htail] at hn
  rw [hn] at h ⊢
  match n with
  | 0 => cases h
  | 1 => simp at h
  | n + 2 => rfl

theorem propose_performed (h : .propose ∈ performed env t) : performed env t = [.prompt, .propose] := by
  have hscript := mem_script h
  obtain ⟨n, hn⟩ := performed_eq_take env t
  have hall : (script env t).1 = [.prompt, .propose] := by
    unfold script at hscript ⊢
    cases hmode : t.mode with
    | plan => rfl
    | dev =>
      rw [hmode] at hscript
      dsimp only at hscript
      split_ifs at hscript <;> simp at hscript
    | _ =>
      rw [hmode] at hscript
      simp at hscript
  rw [hall] at hn
  rw [hn] at h ⊢
  match n with
  | 0 => cases h
  | 1 => simp at h
  | n + 2 => rw [List.take_of_length_le (by simp)]

theorem maybeApprove_congr (h : m.activePlan = m₀.activePlan) (prompt : Str) :
    maybeApproveActivePlan env prompt m = maybeApproveActivePlan env prompt m₀ := by
  unfold maybeApproveActivePlan
  rw [h]

theorem performed_lawful (hknown : Known (load env t.clock s.stored))
    (hphrase : Approves env s t → SaysApproval env t.prompt) :
    (∀ mo ∈ moments env t (performed env t) (load env t.clock s.stored), Lawful env mo) ∧
      Known (leaves env t s.stored) := by
  by_cases happrove : .approve ∈ performed env t
  · obtain ⟨hmode, rest, hrest, hnot, -⟩ := approve_performed happrove
    have hbuild : .build ∈ rest → t.mode = .dev ∧ t.finalChanges ≠ [] := by
      intro h
      have hmem : .build ∈ performed env t := hrest ▸ List.mem_cons_of_mem _ (List.mem_cons_of_mem _ h)
      exact build_performed hmem
    unfold leaves
    generalize hm : load env t.clock s.stored = m at hknown
    have hplan : (perform env t m .prompt).activePlan = m.activePlan := plan_perform env t m .prompt
    obtain ⟨hfirst, hknown₁⟩ := lawful_perform (a := .prompt) env t hknown
      (fun h => by cases h) (fun h => by cases h)
    obtain ⟨hsecond, hknown₂⟩ := lawful_perform (a := .approve) env t hknown₁
      (fun _ hsome => ⟨hmode, hphrase ⟨happrove, by rwa [hm, ← maybeApprove_congr hplan]⟩⟩) (fun h => by cases h)
    obtain ⟨hothers, hknown₃⟩ := moments_lawful env t hknown₂ hnot hbuild
    rw [hrest]
    refine ⟨fun mo hmo => ?_, hknown₃⟩
    obtain rfl | hmo := List.mem_cons.mp hmo
    · exact hfirst
    · obtain rfl | hmo := List.mem_cons.mp hmo
      · exact hsecond
      · exact hothers mo hmo
  · exact moments_lawful env t hknown happrove build_performed

theorem foldl_plan (h : ∀ a ∈ as, ∀ m, m.activePlan = m₀.activePlan → (perform env t m a).activePlan = m₀.activePlan)
    (hm : m.activePlan = m₀.activePlan) : (as.foldl (perform env t) m).activePlan = m₀.activePlan := by
  induction as generalizing m with
  | nil => exact hm
  | cons a as ih =>
    exact ih (fun b hb => h b (List.mem_cons_of_mem _ hb)) (h a List.mem_cons_self m hm)

theorem not_approved_settled (h : Settled m) : ¬HasStatus m "approved" := by
  rintro ⟨p, hp, happroved⟩
  obtain hstatus | hstatus := h p hp
  all_goals
    rw [hstatus] at happroved
    exact absurd (Value.str.inj happroved) (by decide)

theorem leaves_plan (hsettled : Settled (load env t.clock s.stored)) (happroves : ¬Approves env s t)
    (hproposes : ¬Proposes env s t) :
    (leaves env t s.stored).activePlan = (load env t.clock s.stored).activePlan := by
  unfold leaves
  refine foldl_plan (fun a ha m hm => ?_) rfl
  rw [plan_perform]
  cases a with
  | prompt | insights | clarify | items => exact hm
  | propose =>
    dsimp only [moved]
    split_ifs with hempty
    · exact hm
    · by_contra hne
      exact hproposes ⟨ha, by simpa using hempty, Ne.symm hne⟩
  | approve =>
    dsimp only [moved]
    rw [maybeApprove_congr hm, if_neg fun hsome => happroves ⟨ha, hsome⟩]
    exact hm
  | build =>
    dsimp only [moved]
    rw [if_neg, hm]
    intro hsome
    obtain ⟨op, hop⟩ := Option.isSome_iff_exists.mp hsome
    exact not_approved_settled hsettled ((markBuilt_some hop).2.congr hm)

/-- No operation but an approval leaves an approved plan behind, and the last one of a dev run
leaves none. -/
theorem not_approved_perform (h : ¬HasStatus m "approved") (ha : a ≠ .approve) :
    ¬HasStatus (perform env t m a) "approved" := by
  have hplan := plan_perform env t m a
  have hsame (hmoved : moved env t m a = m.activePlan) : ¬HasStatus (perform env t m a) "approved" := fun hafter =>
    h (hafter.congr (hplan.trans hmoved))
  cases a with
  | prompt | insights | clarify | items => exact hsame rfl
  | approve => exact absurd rfl ha
  | propose =>
    by_cases hempty : t.plan.isEmpty
    · exact hsame (if_pos hempty)
    · exact not_hasStatus (hasStatus_marked (hplan.trans (if_neg hempty))) (by decide)
  | build =>
    refine hsame (if_neg fun hsome => ?_)
    obtain ⟨op, hop⟩ := Option.isSome_iff_exists.mp hsome
    exact h (markBuilt_some hop).2

theorem not_approved_build (m : Memory) : ¬HasStatus (perform env t m .build) "approved" := by
  by_cases happroved : HasStatus m "approved"
  · have hafter := (plan_perform env t m .build).trans (if_pos (markBuilt_isSome happroved))
    obtain ⟨p, hp, -⟩ := happroved
    rw [hp] at hafter
    exact not_hasStatus (hasStatus_marked hafter) (by decide)
  · exact not_approved_perform happroved (by decide)

theorem not_approved_foldl (h : ¬HasStatus m "approved") (has : .approve ∉ as) :
    ¬HasStatus (as.foldl (perform env t) m) "approved" := by
  induction as generalizing m with
  | nil => exact h
  | cons a as ih =>
    refine ih (not_approved_perform h fun ha => has (ha ▸ List.mem_cons_self)) fun hmem => ?_
    exact has (List.mem_cons_of_mem _ hmem)

/-- What a turn saves is not approved: it has been built by then. -/
theorem leaves_settled (hsettled : Settled (load env t.clock s.stored)) (hknown : Known (leaves env t s.stored))
    (hsaves : saves env t) : Settled (leaves env t s.stored) := by
  obtain ⟨hnone, hscript⟩ : t.brokeOff = none ∧ (script env t).2 = true := by
    simpa [saves] using hsaves
  have hperformed : performed env t = (script env t).1 := by
    unfold performed
    rw [hnone]
  have hnot : ¬HasStatus (leaves env t s.stored) "approved" := by
    unfold leaves
    rw [hperformed]
    have hloaded := not_approved_settled hsettled
    unfold script at hscript ⊢
    cases hmode : t.mode with
    | dev =>
      rw [hmode] at hscript
      dsimp only at hscript ⊢
      split_ifs at hscript ⊢
      exact not_approved_build _
    | _ =>
      dsimp only
      exact not_approved_foldl hloaded (by decide)
  intro p hp
  obtain hstatus | hstatus | hstatus := hknown p hp
  · exact .inl hstatus
  · exact absurd ⟨p, hp, hstatus⟩ hnot
  · exact .inr hstatus

theorem load_store (hregular : ∀ now, Regular (load env now s.stored)) (now : Now) :
    load env now (store env t s.stored) = if saves env t then leaves env t s.stored else load env now s.stored := by
  have hleaves : Regular (leaves env t s.stored) := regular_foldl (hregular t.clock) env t _
  unfold store
  split_ifs
  · simp only [load, hleaves.roundTrip now]
  · rfl

structure Between (env : Setting) (s : Conversation) : Prop where
  orderly : Orderly env s
  regular : ∀ now, Regular (load env now s.stored)
  settled : ∀ now, Settled (load env now s.stored)

theorem between_start (env : Setting) : Between env {} where
  orderly _ hmo := (List.not_mem_nil hmo).elim
  regular now := regular_fresh env.conversationId now
  settled _ _ hp := by cases hp

theorem between_step (h : Between env s) (hheeded : Heeded env s t) (hstep : step env s t = some s') :
    Between env s' := by
  cases hstep
  obtain ⟨hphrase, hkept⟩ := hheeded
  obtain ⟨hmoments, hknown⟩ := performed_lawful (h.settled t.clock).known hphrase
  have hload := load_store (t := t) h.regular
  refine ⟨fun mo hmo => ?_, fun now => ?_, fun now => ?_⟩
  · obtain hmo | hmo := List.mem_append.mp hmo
    · exact hmoments mo hmo
    · obtain rfl := List.mem_singleton.mp hmo
      have hplan : (load env t.clock (store env t s.stored)).activePlan = (leaves env t s.stored).activePlan := by
        rw [hload t.clock]
        split_ifs with hsaves
        · rfl
        · refine (leaves_plan (h.settled t.clock) ?_ ?_).symm
          · exact fun happroves => hsaves (hkept (.inl happroves))
          · exact fun hproposes => hsaves (hkept (.inr hproposes))
      exact lawful_same hplan (hknown.congr hplan)
  · dsimp only
    rw [hload now]
    split_ifs
    · exact regular_foldl (h.regular t.clock) env t _
    · exact h.regular now
  · dsimp only
    rw [hload now]
    split_ifs with hsaves
    · exact leaves_settled (h.settled t.clock) hknown hsaves
    · exact h.settled now

/-- A plan that has been approved stays so until it is built. -/
theorem approved_or_built (h : HasStatus m "approved" ∨ HasStatus m "built") (hpropose : .propose ∉ as) :
    HasStatus (as.foldl (perform env t) m) "approved" ∨ HasStatus (as.foldl (perform env t) m) "built" := by
  induction as generalizing m with
  | nil => exact h
  | cons a as ih =>
    refine ih ?_ fun hmem => hpropose (List.mem_cons_of_mem _ hmem)
    have hplan := plan_perform env t m a
    have hsame (hmoved : moved env t m a = m.activePlan) :
        HasStatus (perform env t m a) "approved" ∨ HasStatus (perform env t m a) "built" :=
      have hback := (hplan.trans hmoved).symm
      h.imp (·.congr hback) (·.congr hback)
    obtain ⟨p, hp⟩ : ∃ p, m.activePlan = some p := h.elim (fun ⟨p, hp, _⟩ => ⟨p, hp⟩) fun ⟨p, hp, _⟩ => ⟨p, hp⟩
    cases a with
    | prompt | insights | clarify | items => exact hsame rfl
    | propose => exact absurd List.mem_cons_self hpropose
    | approve =>
      by_cases hsome : (maybeApproveActivePlan env t.prompt m).isSome
      · exact .inl (hasStatus_marked ((hplan.trans (if_pos hsome)).trans (by rw [hp]; rfl)))
      · exact hsame (if_neg hsome)
    | build =>
      by_cases hsome : (markActivePlanBuiltIfAny m).isSome
      · exact .inr (hasStatus_marked ((hplan.trans (if_pos hsome)).trans (by rw [hp]; rfl)))
      · exact hsame (if_neg hsome)

theorem moves_back (h : Between env s) (hsteps : ∀ mo ∈ turnMoments env t s.stored, Lawful env mo)
    (hsaves : ¬saves env t) : Moves
      { turn := t, act := none, before := leaves env t s.stored, after := load env t.clock s.stored } := by
  have hload := load_store (t := t) h.regular t.clock
  rw [if_neg hsaves] at hload
  have hlast := (hsteps _ (List.mem_append_right _ List.mem_cons_self)).moves
  rwa [hload] at hlast

theorem heeded_of_orderly (h : Between env s) (hsteps : ∀ mo ∈ turnMoments env t s.stored, Lawful env mo) :
    Heeded env s t := by
  have hloaded := not_approved_settled (h.settled t.clock)
  constructor
  · rintro ⟨happrove, hsome⟩
    obtain ⟨-, rest, hrest, -, -⟩ := approve_performed happrove
    generalize hm : load env t.clock s.stored = m at hloaded hsome
    have hplan : (perform env t m .prompt).activePlan = m.activePlan := plan_perform env t m .prompt
    have hlawful : Lawful env
        { turn := t, act := some .approve, before := perform env t m .prompt
          after := perform env t (perform env t m .prompt) .approve } := by
      refine hsteps _ (List.mem_append_left _ ?_)
      rw [hrest, hm]
      exact List.mem_cons_of_mem _ List.mem_cons_self
    refine (hlawful.approved (fun hbefore => hloaded (hbefore.congr hplan)) ?_).2
    obtain ⟨op, hop⟩ := Option.isSome_iff_exists.mp hsome
    obtain ⟨-, p, hp, -⟩ := maybeApprove_some hop
    have hafter := (plan_perform env t (perform env t m .prompt) .approve).trans
      (if_pos (by rwa [maybeApprove_congr hplan]))
    rw [hplan, hp] at hafter
    exact hasStatus_marked hafter
  · intro hchange
    by_contra hsaves
    have hmoves := moves_back h hsteps hsaves
    obtain ⟨happrove, hsome⟩ | ⟨hpropose, hne, hnew⟩ := hchange
    · obtain ⟨-, rest, hrest, -, hnot⟩ := approve_performed happrove
      obtain ⟨p, hp, hproposed⟩ := proposed_of_maybeApprove (h.settled t.clock).known hsome
      have hafter : HasStatus (load env t.clock s.stored) "proposed" := ⟨p, hp, hproposed⟩
      have hbefore : HasStatus (leaves env t s.stored) "approved" ∨ HasStatus (leaves env t s.stored) "built" := by
        unfold leaves
        rw [hrest]
        generalize load env t.clock s.stored = m at hsome hp
        have hplan : (perform env t m .prompt).activePlan = m.activePlan := plan_perform env t m .prompt
        rw [List.foldl_cons, List.foldl_cons]
        refine approved_or_built (.inl ?_) hnot
        have happroved := (plan_perform env t (perform env t m .prompt) .approve).trans
          (if_pos (by rwa [maybeApprove_congr hplan]))
        rw [hplan, hp] at happroved
        exact hasStatus_marked happroved
      have hnever {m : Memory} (hm : HasStatus m "approved" ∨ HasStatus m "built") : ¬HasStatus m "proposed" :=
        hm.elim (not_hasStatus · (by decide)) (not_hasStatus · (by decide))
      obtain hsame | ⟨q, hq, hstatus, -⟩ | ⟨q, -, -, hbuilt⟩ | ⟨hact, -⟩ := hmoves
      · exact hnever hbefore (hafter.congr hsame)
      · exact hnever hbefore ⟨q, hq, hstatus⟩
      · exact hnever (.inr (hasStatus_marked hbuilt)) hafter
      · cases hact
    · have hbefore : (leaves env t s.stored).activePlan = some (withStatus t.plan (str "proposed")) := by
        unfold leaves
        rw [propose_performed hpropose]
        generalize load env t.clock s.stored = m
        exact (plan_perform env t (perform env t m .prompt) .propose).trans (if_neg (by simpa using hne))
      have hproposed : HasStatus (leaves env t s.stored) "proposed" := hasStatus_marked hbefore
      obtain hsame | ⟨q, -, -, happroved⟩ | ⟨q, hq, hstatus, -⟩ | ⟨hact, -⟩ := hmoves
      · exact hnew (hsame.trans hbefore)
      · exact hloaded (hasStatus_marked happroved)
      · exact not_hasStatus hproposed (by decide) ⟨q, hq, hstatus⟩
      · cases hact

/-- Along every conversation the plan moves as it may, is approved where the prompt says so, is built
by a run with changes, and shows its steps only when approved, just when every turn approves it on a
phrase that stands alone and saves what it makes of it. -/
theorem orderly_iff_heeded (env : Setting) (turns : List Turn) :
    Transition.Always (step env) (Orderly env) {} turns ↔ Transition.Meets (step env) (Heeded env) {} turns := by
  refine Transition.always_iff_meets (J := Between env) (fun _ h => h.orderly) (fun _ _ _ => between_step) ?_
    (between_start env) turns
  intro s t s' h hstep hafter
  cases hstep
  exact heeded_of_orderly h hafter

def plainSetting : Setting where
  py := plainPython
  lower := id
  wordChar n := 97 ≤ n && n ≤ 122
  conversationId := str "c"

def planTurn : Turn := { mode := .plan, prompt := str "how", plan := [(str "title", .str (str "P"))], clock := noon }

/-- A prompt in which two words have a phrase across them. -/
def rebuildTurn : Turn :=
  { mode := .dev, prompt := str "rebuild items", changes := [PostBuild.BackfillStable.bareItem], clock := noon }

theorem rebuild_approves :
    ¬Transition.Always (step plainSetting) (Orderly plainSetting) {} [planTurn, rebuildTurn] := by
  intro h
  have hplanned : Heeded plainSetting {} planTurn :=
    ⟨fun happroves => absurd happroves.1 (by decide), fun _ => by decide⟩
  have hbetween := between_step (between_start plainSetting) hplanned rfl
  have hlast := ((h.2 _ rfl).2 _ rfl).head
  have hheeded := heeded_of_orderly hbetween hlast
  have happroves : Approves plainSetting
      { stored := store plainSetting planTurn none, steps := turnMoments plainSetting planTurn none } rebuildTurn := by
    refine ⟨by decide, ?_⟩
    dsimp only
    have hload := load_store (t := planTurn) (between_start plainSetting).regular noon
    rw [show rebuildTurn.clock = noon from rfl, hload]
    decide
  exact absurd (hheeded.1 happroves) (by decide)

end Turns

end AlfredProcessing.Pipeline.PlanLifecycle
