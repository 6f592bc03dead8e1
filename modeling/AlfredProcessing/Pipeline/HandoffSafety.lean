import AlfredProcessing.Defense.Sanitizer
import AlfredProcessing.Pipeline.Entry
import AlfredProcessing.Pipeline.HandoffQuery

namespace AlfredProcessing.Pipeline.HandoffSafety

open Lib.Json Lib.Effects Extract.Cleaning Extract.Changes Security.SqlSafety PostBuild.Backfill
  PostBuild.ReportHandoff Context Phases Runner Frames Terminal Entry HandoffQuery
open Defense.Sanitizer (checkPrompt sanitizePrompt)

section Model

variable (p : Platform)

/-- Whether the safety net writes the candidate's query into an item. -/
def writesQuery (candidate : Dict) (item : Change) : Bool :=
  isReport item.doctype && isAggregation candidate &&
    differs (forceReportType (fillReportName candidate
      (item.data, item.fieldDefaultsMeta.getD []))).1 "query" (pyGet candidate "query")

/-- The query that `apply_report_handoff_safety_net` writes into an item. -/
def writtenQuery (intent : Option String) (candidate : Option Dict) (item : Change) :
    Option Value :=
  match candidate with
  | some candidate =>
    if intent = some "create_report" && writesQuery candidate item then
      some (pyGet candidate "query")
    else none
  | none => none

variable (lower : List Char → List Char)

/-- What surrounds a run, with what the sanitizer and the marker's parser make of its prompt. -/
def surroundings (env : Env) (prompt : List Char) : Env :=
  { env with
    promptCheck := (checkPrompt p lower prompt).answer
    reportMarker := parseReportCandidateMarker prompt }

/-- The phases in front of `_phase_classify_intent`. -/
def setup : List Phase := [.sanitize, .loadState, .warmup, .planCheck, .orchestrate]

/-- The run comes to `_phase_classify_intent` in dev mode. -/
def Arrives (env : Env) (prompt : List Char) : Prop :=
  ∃ w, exec (runPhases (surroundings p lower env prompt) setup) {} = (.ok ⟨⟩, w) ∧
    w.ctx.shouldStop = false ∧ w.ctx.mode = .dev

end Model

section Writing

variable {changes : List Change} {candidate : Dict} {item : Change} {dumps : Value → Str}

theorem setField_value (when : Bool) (key : String) (v : Value) (r : Str) (m : Dict × Meta) :
    pyGet (setField when key v r m).1 key = if when then v else pyGet m.1 key := by
  unfold setField
  split
  · simp [pyGet, get_insert]
  · rfl

theorem handoffItem_query : pyGet (handoffItem dumps candidate item).data "query" =
    if writesQuery candidate item then pyGet candidate "query" else pyGet item.data "query" := by
  have hname : pyGet (fillReportName candidate (item.data, item.fieldDefaultsMeta.getD [])).1
      "query" = pyGet item.data "query" := setField_other _ (by decide) _ _ _
  cases hr : isReport item.doctype with
  | false => simp [handoffItem, writesQuery, hr]
  | true =>
    cases ha : isAggregation candidate with
    | false => simpa [handoffItem, writesQuery, hr, ha] using hname
    | true =>
      simp only [handoffItem, writesQuery, hr, ha, if_true, Bool.true_and, fillFilters, fillIsStandard,
        forceRefDoctype]
      rw [setField_other _ (by decide), setField_other _ (by decide), setField_other _ (by decide),
        forceQuery, setField_value, forceReportType, setField_other _ (by decide), hname]

theorem applied_queries (intent : Option String) (candidate : Option Dict) :
    (applyReportHandoffSafetyNet dumps intent candidate changes).map (pyGet ·.data "query") =
      changes.map fun item =>
        (writtenQuery intent candidate item).getD (pyGet item.data "query") := by
  cases candidate with
  | none => rfl
  | some candidate =>
    by_cases hintent : intent = some "create_report"
    · rw [applyReportHandoffSafetyNet, if_pos hintent, List.map_map]
      refine List.map_congr_left fun item _ => ?_
      have hquery : pyGet (handoffItem dumps candidate item).data "query" = _ := handoffItem_query
      simp only [Function.comp, hquery, writtenQuery, hintent, decide_true, Bool.true_and]
      split <;> rfl
    · rw [applyReportHandoffSafetyNet, if_neg hintent]
      simp [writtenQuery, hintent]

end Writing

section Arrival

variable {p : Platform} {lower : List Char → List Char} {env : Env} {prompt : List Char} {candidate : Dict}
  {w : World}

theorem Arrives.clean (h : Arrives p lower env prompt) : sanitizePrompt p prompt = [] := by
  obtain ⟨w, hrun, hgo, -⟩ := h
  by_contra hne
  have hblocked : (surroundings p lower env prompt).promptCheck.allowed = false := by
    show (checkPrompt p lower prompt).allowed = false
    rw [checkPrompt]
    dsimp only
    rw [if_neg (mt List.isEmpty_iff.mp hne)]
  have hends : Ends (runPhases (surroundings p lower env prompt) setup) {} fun r w =>
      r = .ok ⟨⟩ → w.ctx.shouldStop = true := by
    rcases hr : exec (phase (surroundings p lower env prompt) .sanitize) {} with ⟨e | _, t⟩
    · rw [Ends, setup, exec_runPhases_error rfl hr]
      intro hok
      cases hok
    · have hstop : t.ctx.shouldStop = true := by
        rw [phase, sanitize, exec_bind] at hr
        split at hr
        · rw [if_neg (by simp [hblocked])] at hr
          cases hr
          rfl
        · cases hr
      rw [Ends, setup, exec_runPhases_ok rfl hr, exec_runPhases_stopped hstop]
      exact fun _ => hstop
  have hstop := hends.of_exec hrun rfl
  rw [hgo] at hstop
  cases hstop

end Arrival

section Safety

variable {env : Env} {prompt : List Char} {changes : List Change}

end Safety

end AlfredProcessing.Pipeline.HandoffSafety
