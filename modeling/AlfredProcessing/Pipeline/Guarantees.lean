import AlfredProcessing.Extract.Truncation
import AlfredProcessing.Pipeline.Entry

namespace AlfredProcessing.Pipeline.Guarantees

open Lib.Fallible Lib.Json Lib.JsonText Lib.Effects Extract.Truncation PostBuild.Backfill
  PostBuild.Reflection Context DryRun Phases Runner DryRunVerdict Outcomes Terminal Shipped Entry
open PostBuild.ReportHandoff hiding Same

/-- What the safety nets promise about a list of changes. -/
structure NetsHold (env : Env) (c : Ctx) (changes : List Change) : Prop where
  defaults : ∀ schema, targetSchema env.registry c.intent = some schema → ∀ i ∈ changes,
    i.doctype = .str schema.doctype → HasDefaults schema i.data
  reports : ∀ candidate, c.reportCandidate = some candidate → isAggregation candidate →
    ∀ i ∈ changes, isReport i.doctype → RunsQuery candidate i.data

def NetsReturn (env : Env) : Prop :=
  ∀ resultText, (entry env).ctx.crewResult = some (.completed resultText) →
    ∃ filled, backfilled env (entry env).ctx (collected env (entry env).ctx resultText) = .ok filled

variable {env : Env} {c : Ctx} {changes changes' : List Change} {resultText : List Char}

theorem NetsHold.sublist (h : NetsHold env c changes') (hs : changes.Sublist changes') :
    NetsHold env c changes :=
  ⟨fun schema hschema i hi => h.defaults schema hschema i (hs.mem hi),
    fun candidate hcandidate ha i hi => h.reports candidate hcandidate ha i (hs.mem hi)⟩

/-- A net that goes over the list extends its items, which keep their defaults. -/
theorem defaults_of_forall₂ {schema : Schema}
    (h : ∀ i ∈ changes, i.doctype = .str schema.doctype → HasDefaults schema i.data)
    (hext : ∀ i' ∈ changes', ∃ i ∈ changes, Extends i i') :
    ∀ i ∈ changes', i.doctype = .str schema.doctype → HasDefaults schema i.data := by
  intro i' hi' hdoctype
  obtain ⟨i, hi, he⟩ := hext i' hi'
  exact (h i hi (he.doctype.symm.trans hdoctype)).extends he

theorem backfilled_defaults (h : backfilled env c changes = .ok changes') {schema : Schema}
    (hschema : targetSchema env.registry c.intent = some schema) :
    ∀ i ∈ changes', i.doctype = .str schema.doctype → HasDefaults schema i.data := by
  intro i' hi' hdoctype
  obtain ⟨i, -, hfilled⟩ := exists_of_mapM_eq_ok h hi'
  have hext : Extends i i' := backfillChange_extends hfilled
  refine backfillChange_defaults hfilled ?_
  rw [← hext.doctype, hdoctype]
  exact schemaFor_target hschema

theorem netted_holds (hbuilders : env.perIntentBuilders = true) (haimed : Aimed env c)
    (hnets : ∃ filled, backfilled env c (collected env c resultText) = .ok filled) :
    NetsHold env c (netted env c resultText) := by
  obtain ⟨filled, hfilled⟩ := hnets
  have hbackfill : applyDefaultsBackfill env c (collected env c resultText) = filled := by
    unfold applyDefaultsBackfill
    cases hc : collected env c resultText with
    | nil =>
      rw [hc] at hfilled
      exact Except.ok.inj hfilled
    | cons i is =>
      rw [hc] at hfilled
      simp [hfilled, hbuilders]
  unfold netted
  rw [hbackfill]
  refine ⟨fun schema hschema => ?_, fun candidate hcandidate ha => ?_⟩
  · refine defaults_of_forall₂ (backfilled_defaults hfilled hschema) fun i' hi' => ?_
    unfold applyReportHandoffSafetyNet at hi'
    split at hi'
    · split at hi'
      · obtain ⟨i, hi, rfl⟩ := List.mem_map.mp hi'
        exact ⟨i, hi, handoffItem_extends i⟩
      · exact ⟨i', hi', .refl i'⟩
    · exact ⟨i', hi', .refl i'⟩
  · have hintent : c.intent = some "create_report" := (haimed candidate hcandidate).2
    simp only [applyReportHandoffSafetyNet, hcandidate, hintent, if_true]
    intro i' hi' hr
    obtain ⟨i, hi, rfl⟩ := List.mem_map.mp hi'
    have hdoctype : (handoffItem env.dumps candidate i).doctype = i.doctype :=
      (handoffItem_extends i).doctype
    exact handoffItem_runsQuery (hdoctype ▸ hr) ha

theorem pruned_sublist (env : Env) (changes : List Change) :
    (pruned env changes).Sublist changes := by
  unfold pruned
  split
  · exact prune_sublist _ _
  · exact .refl _

/-- What is sent has what the safety nets promise, unless a self-heal replaced
it by a list without that. -/
theorem netsHold_iff (env : Env) (hbuilders : env.perIntentBuilders = true)
    (hnets : NetsReturn env) : ∀ p ∈ previews (exec (run env) {}).2.log,
      (NetsHold env (entry env).ctx p.changes ↔
        (Replaces env → NetsHold env (entry env).ctx (fixedChanges env))) := by
  intro p hp
  obtain ⟨resultText, hfrom⟩ := run_previews env p hp
  have hnetted : NetsHold env (entry env).ctx (netted env (entry env).ctx resultText) :=
    netted_holds hbuilders hfrom.aimed (hnets resultText hfrom.result)
  rw [hfrom.shown, preview, finalList]
  split
  · next hreplaces => simp only [hreplaces, true_implies]
  · next hkept =>
    simp only [hkept, false_implies, iff_true]
    exact hnetted.sublist (pruned_sublist env _)

theorem docType_named : str "DocType" ≠ [] := by decide

/-- Two fields of `create_doctype`. -/
def docTypeSchema : Schema where
  doctype := str "DocType"
  named := docType_named
  fields := [{ key := str "module" }, { key := str "is_submittable", default := some (.int 0) }]

def newDocType : List Char := (Doc.array [] (.last (bareItem "create" "DocType") [])).render

def bareDocType : Change where
  op := .str (str "create")
  doctype := .str (str "DocType")
  data := []

theorem extract_newDocType (env : Env) (h : env.interpreter = env.interpreter.unlimited) :
    extract env newDocType = .ok [bareDocType] := by
  unfold newDocType extract
  rw [h, extractChanges_array]
  rfl

/-- The dry run turns the crew's list down, and the second attempt is the same
text again. -/
def healedRun : Env :=
  { Env.smooth newDocType with
    hasMcp := true
    perIntentBuilders := true
    intentDecision := "create_doctype"
    registry := [("create_doctype", docTypeSchema)]
    dryRunAnswer := .dict [(str "valid", .bool false)] .none
    retryText := newDocType }

theorem healedRun_entry : exec (runPhases healedRun phases.dropLast) {} = (.ok ⟨⟩, entry healedRun) :=
  Prod.ext (show (exec (runPhases healedRun phases.dropLast) {}).1 = .ok ⟨⟩ from rfl) rfl

theorem healedRun_result : (entry healedRun).ctx.crewResult = some (.completed newDocType) := rfl

theorem healedRun_netsReturn : NetsReturn healedRun := by
  intro resultText hresult
  obtain rfl : newDocType = resultText := by
    simpa only [Option.some.injEq, CrewResult.completed.injEq] using
      healedRun_result.symm.trans hresult
  have hcollected : collected healedRun (entry healedRun).ctx newDocType = [bareDocType] := by
    simp only [collected, extract_newDocType healedRun rfl]
    rfl
  rw [hcollected]
  exact ⟨_, rfl⟩

theorem healedRun_previews :
    previews (exec (run healedRun) {}).2.log = [⟨[bareDocType], []⟩] := by
  have hmode : (entry healedRun).ctx.mode = .dev := rfl
  have hretry : healedRun.retryText = newDocType := rfl
  have hsend : ∀ p m, send healedRun p m = emit (.sent m) := fun _ _ => rfl
  rw [run_previews_eq, exec_phases, exec_bind, healedRun_entry]
  dsimp only
  rw [exec_lastPhase rfl]
  simp only [postCrew, inDev, exec_bind, exec_get, hmode, if_true, healedRun_result, updateCtx,
    exec_modify, hsend, emit, safetyNets, extract_newDocType healedRun rfl, finishChangeset, shipChangeset,
    dryRunWithRetry, selfHeal, catching, liftPy, hretry]
  rfl

theorem netsHold_iff_healedRun : NetsHold healedRun (entry healedRun).ctx [bareDocType] ↔
    (Replaces healedRun → NetsHold healedRun (entry healedRun).ctx (fixedChanges healedRun)) :=
  netsHold_iff healedRun rfl healedRun_netsReturn ⟨[bareDocType], []⟩ (by simp [healedRun_previews])

/-- The defaults of the target doctype are gone after a self-heal. -/
theorem healedRun_loses_the_defaults : healedRun.perIntentBuilders = true ∧ NetsReturn healedRun ∧
    ∃ p ∈ previews (exec (run healedRun) {}).2.log,
      ¬NetsHold healedRun (entry healedRun).ctx p.changes := by
  refine ⟨rfl, healedRun_netsReturn, ⟨[bareDocType], []⟩, by simp [healedRun_previews], fun h => ?_⟩
  have hdefaults := h.defaults docTypeSchema rfl bareDocType List.mem_cons_self rfl
  exact absurd (hdefaults _ (List.mem_cons_of_mem _ List.mem_cons_self) rfl) (by decide)

end AlfredProcessing.Pipeline.Guarantees
