import AlfredProcessing.Pipeline.Guarantees

namespace AlfredProcessing.Pipeline.NoteIndices

open Lib.Json Lib.JsonText Lib.Effects Extract.Truncation PostBuild.Backfill PostBuild.Reflection
  Agents.ModuleSpecialist Context DryRun Phases Runner DryRunVerdict Terminal Shipped Entry

def removedIndices (env : Env) (changes : List Change) : List Nat :=
  if asksReviewer env.reflectionEnabled env.hasPrompt changes then
    pruneIndices (env.verdict.filter fun _ => env.raised .reflect = none) changes
  else []

/-- Behind the rules, position `k` keeps its item: the self-heal has the same one
there, or reflection removes none up to there, or only to move the same one up. -/
def Stands (env : Env) (changes : List Change) (k : Nat) : Prop :=
  if Replaces env then (fixedChanges env)[k]? = changes[k]?
  else ∃ j, (survivors (removedIndices env changes) changes.length)[k]? = some j ∧
    changes[j]? = changes[k]?

variable {env : Env} {c : Ctx} {changes : List Change} {resultText : List Char} {k : Nat}

theorem pruned_eq_kept (env : Env) (changes : List Change) :
    pruned env changes = kept (removedIndices env changes) changes := by
  unfold pruned removedIndices
  split
  · exact prune_eq_kept _ _
  · exact (kept_nil changes).symm

theorem stands_iff {item : Change} (hk : changes[k]? = some item) :
    (finalList env (pruned env changes))[k]? = some item ↔ Stands env changes k := by
  unfold finalList Stands
  split
  · rw [hk]
  · rw [pruned_eq_kept, kept_getElem?, Option.bind_eq_some_iff, hk]

theorem stands_of_removed_behind (hkept : ¬Replaces env) (hk : k < changes.length)
    (h : ∀ i ∈ removedIndices env changes, k < i) : Stands env changes k := by
  rw [Stands, if_neg hkept]
  exact ⟨k, survivors_getElem? hk h, rfl⟩

theorem moduleNotes_indexed (module : String) :
    ∀ n ∈ moduleNotes env c module changes, Indexed env.modules changes n := by
  unfold moduleNotes
  split
  · exact nofun
  · next notes hnotes =>
    intro n hn
    rcases List.mem_append.mp hn with hn | hn
    · exact validateOutput_indexed hnotes n hn
    · obtain ⟨secondary, -, hn⟩ := List.mem_flatMap.mp hn
      split at hn
      · next notes hnotes => exact capSecondarySeverity_indexed (validateOutput_indexed hnotes) n hn
      · exact nomatch hn

theorem notesOn_indexed (hc : c.moduleValidationNotes = []) :
    ∀ n ∈ notesOn env c changes, Indexed env.modules changes n := by
  unfold notesOn
  rw [hc]
  split
  · split
    · exact moduleNotes_indexed _
    · exact nofun
  · exact nofun

/-- The notes of a message with an index come from rules that applied to the items
there, and point at these in the message exactly when they stand. -/
def PointWhenStanding (env : Env) (p : Preview) : Prop :=
  ∃ resultText, (entry env).ctx.crewResult = some (.completed resultText) ∧
    ∀ n ∈ p.notes, ∀ k, n.changesetIndex = some k →
      ∃ item, (netted env (entry env).ctx resultText)[k]? = some item ∧
        RuleApplied env.modules n item ∧
        (p.changes[k]? = some item ↔ Stands env (netted env (entry env).ctx resultText) k)

theorem notes_point_when_standing (env : Env) {p : Preview}
    (hp : p ∈ previews (exec (run env) {}).2.log) : PointWhenStanding env p := by
  obtain ⟨resultText, hfrom⟩ := run_previews env p hp
  obtain ⟨hnotes, -⟩ := Prod.mk.inj (fresh_entry env)
  refine ⟨resultText, hfrom.result, fun n hn k hk => ?_⟩
  rw [hfrom.shown] at hn ⊢
  obtain ⟨item, hitem, happlied⟩ := notesOn_indexed hnotes n hn k hk
  exact ⟨item, hitem, happlied, stands_iff hitem⟩

def typeAndNote : List Char :=
  (Doc.array [] (.cons (bareItem "create" "DocType") [] []
    (.last (bareItem "create" "Note") []))).render

def bareNote : Change where
  op := .str (str "create")
  doctype := .str (str "Note")
  data := []

theorem extract_typeAndNote (env : Env) (h : env.interpreter = env.interpreter.unlimited) :
    extract env typeAndNote = .ok [Guarantees.bareDocType, bareNote] := by
  unfold typeAndNote extract
  rw [h, extractChanges_array]
  rfl

def noteRule : ValidationRule where
  id := str "note"
  severity := .advisory
  conditions := [(str "doctype", .str (str "Note"))]
  message := str "Notes need a title."

/-- A rule speaks about the second item, and reflection removes the first. -/
def prunedRun : Env :=
  { Env.smooth typeAndNote with
    perIntentBuilders := true
    moduleSpecialists := true
    reflectionEnabled := true
    moduleDecision := some "crm"
    modules := [("crm", { displayName := str "CRM", validationRules := [noteRule] })]
    verdict := some { remove := [0], reasons := [] } }

theorem prunedRun_entry : exec (runPhases prunedRun phases.dropLast) {} = (.ok ⟨⟩, entry prunedRun) :=
  Prod.ext (show (exec (runPhases prunedRun phases.dropLast) {}).1 = .ok ⟨⟩ from rfl) rfl

theorem noteRule_applies {d : Str} {c : Change} (h : Lib.Json.get (str "doctype") (itemDict c) = some (.str d)) :
    ruleApplies noteRule.conditions (itemDict c) = pyEq (.str d) (.str (str "Note")) := by
  have hpath : pathOf (str "doctype") = [str "doctype"] := rfl
  simp only [ruleApplies, noteRule, List.all_cons, List.all_nil, hpath, lookupPath, h, Option.getD_some, Bool.and_true]

theorem prunedRun_notes (c : Ctx) :
    moduleNotes prunedRun c "crm" [Guarantees.bareDocType, bareNote] = [ruleNote noteRule 1] := by
  have hdocType : ruleApplies noteRule.conditions (itemDict Guarantees.bareDocType) = false :=
    (noteRule_applies rfl).trans rfl
  have hnote : ruleApplies noteRule.conditions (itemDict bareNote) = true :=
    (noteRule_applies rfl).trans rfl
  have hmodule : prunedRun.modules.get "crm" =
      some { displayName := str "CRM", validationRules := [noteRule] } := rfl
  have hrules : runRuleValidation prunedRun.modules "crm" [Guarantees.bareDocType, bareNote] =
      [ruleNote noteRule 1] := by
    simp [runRuleValidation, hmodule, hdocType, hnote]
  rw [moduleNotes, validateOutput, hrules]
  rfl

theorem prunedRun_previews :
    previews (exec (run prunedRun) {}).2.log = [⟨[bareNote], [ruleNote noteRule 1]⟩] := by
  have hmode : (entry prunedRun).ctx.mode = .dev := rfl
  have hmodule : (entry prunedRun).ctx.module = some "crm" := rfl
  have hresult : (entry prunedRun).ctx.crewResult = some (.completed typeAndNote) := rfl
  have hsend : ∀ p m, send prunedRun p m = emit (.sent m) := fun _ _ => rfl
  have hone : (previews (exec (run prunedRun) {}).2.log).length = 1 := by
    rw [run_previews_eq, exec_phases, exec_bind, prunedRun_entry]
    dsimp only
    rw [exec_lastPhase rfl]
    simp only [postCrew, inDev, exec_bind, exec_get, hmode, if_true, hresult, updateCtx,
      exec_modify, hsend, emit, safetyNets, extract_typeAndNote prunedRun rfl, liftPy]
    rfl
  obtain ⟨p, hp⟩ := List.length_eq_one_iff.mp hone
  obtain ⟨resultText, hfrom⟩ := run_previews prunedRun p (hp ▸ List.mem_singleton_self p)
  obtain rfl : typeAndNote = resultText :=
    CrewResult.completed.inj (Option.some.inj (hresult.symm.trans hfrom.result))
  have hnetted : netted prunedRun (entry prunedRun).ctx typeAndNote = [Guarantees.bareDocType, bareNote] := by
    rw [netted, collected, extract_typeAndNote prunedRun rfl]
    rfl
  have hnotes : notesOn prunedRun (entry prunedRun).ctx [Guarantees.bareDocType, bareNote] = [ruleNote noteRule 1] := by
    rw [notesOn, hmodule]
    exact prunedRun_notes _
  rw [hp, hfrom.shown, preview, hnetted, hnotes]
  rfl

theorem prunedRun_notes_point_when_standing :
    PointWhenStanding prunedRun ⟨[bareNote], [ruleNote noteRule 1]⟩ :=
  notes_point_when_standing prunedRun (by simp [prunedRun_previews])

/-- The note is about the second item, but only one is left. -/
theorem prunedRun_note_points_nowhere : ∃ p ∈ previews (exec (run prunedRun) {}).2.log,
    ∃ n ∈ p.notes, n.changesetIndex = some 1 ∧ p.changes[1]? = none :=
  ⟨_, by rw [prunedRun_previews]; exact List.mem_singleton_self _, _, List.mem_singleton_self _, rfl, rfl⟩

end AlfredProcessing.Pipeline.NoteIndices
