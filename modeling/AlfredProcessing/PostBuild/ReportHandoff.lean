import AlfredProcessing.PostBuild.Backfill

namespace AlfredProcessing.PostBuild.ReportHandoff

open Lib.Json Extract.Changes Backfill

def reportNameRationale : Str :=
  str ("Filled from the Insights-to-Report handoff's suggested_name because the specialist's " ++
    "output omitted it. Edit before deploy if you want a different report title.")

def reportTypeRationale : Str :=
  str ("Aggregation prompt (top N by <metric>) requires Query Report; Report Builder cannot " ++
    "express GROUP BY + SUM. Forced by handoff safety net.")

def queryRationale : Str :=
  str ("Copied verbatim from the Insights-to-Report handoff's pre-rendered aggregation SQL " ++
    "(authoritative - specialist-emitted SQL for GROUP BY aggregations has proven unreliable). " ++
    "Edit before deploy if the date range or metric needs adjusting.")

def refDoctypeRationale : Str :=
  str ("Set to the metric's source DocType (e.g. Sales Invoice for revenue) since the " ++
    "aggregation lives on that table, not on the group-by entity.")

def isStandardRationale : Str :=
  str ("Handoff-generated reports default to site-local (is_standard=No) so they don't need " ++
    "developer_mode + Administrator at save time.")

def filtersRationale : Str :=
  str ("Filters for the %(from_date)s / %(to_date)s placeholders in the SQL. Defaults came from " ++
    "the Insights prompt's time range; user can change at runtime to re-run for a different window.")

def setField (when : Bool) (key : String) (value : Value) (rationale : Str) (p : Dict × Meta) :
    Dict × Meta :=
  if when then
    (insert (str key) value p.1,
      metaSet (str key) { source := .default, rationale := some rationale } p.2)
  else p

/-- `data.get(key) != value`. -/
def differs (data : Dict) (key : String) (value : Value) : Bool := !pyEq (pyGet data key) value

def fillReportName (candidate : Dict) (p : Dict × Meta) : Dict × Meta :=
  let suggested := pyGet candidate "suggested_name"
  setField (suggested.truthy && !(pyGet p.1 "report_name").truthy) "report_name" suggested
    reportNameRationale p

def queryReport : Value := .str (str "Query Report")

def forceReportType (p : Dict × Meta) : Dict × Meta :=
  setField (differs p.1 "report_type" queryReport) "report_type" queryReport reportTypeRationale p

def forceQuery (candidate : Dict) (p : Dict × Meta) : Dict × Meta :=
  let query := pyGet candidate "query"
  setField (differs p.1 "query" query) "query" query queryRationale p

def forceRefDoctype (candidate : Dict) (p : Dict × Meta) : Dict × Meta :=
  let target := pyGet candidate "target_doctype"
  setField (target.truthy && differs p.1 "ref_doctype" target) "ref_doctype" target
    refDoctypeRationale p

def fillIsStandard (p : Dict × Meta) : Dict × Meta :=
  setField (!(pyGet p.1 "is_standard").truthy) "is_standard" (.str (str "No")) isStandardRationale p

/-- `dumps` is `json.dumps`. -/
def fillFilters (dumps : Value → Str) (candidate : Dict) (p : Dict × Meta) : Dict × Meta :=
  let filters := pyGet candidate "filters"
  setField (filters.truthy && !(pyGet p.1 "filters_json").truthy) "filters_json"
    (.str (dumps filters)) filtersRationale p

def isAggregation (candidate : Dict) : Bool :=
  (pyGet candidate "aggregation").truthy && (pyGet candidate "query").truthy

def isReport (doctype : Value) : Bool := pyEq doctype (.str (str "Report"))

/-- The loop body of `apply_report_handoff_safety_net`. -/
def handoffItem (dumps : Value → Str) (candidate : Dict) (item : Change) : Change :=
  if isReport item.doctype then
    let named := fillReportName candidate (item.data, item.fieldDefaultsMeta.getD [])
    let (data, m) :=
      if isAggregation candidate then
        fillFilters dumps candidate (fillIsStandard (forceRefDoctype candidate
          (forceQuery candidate (forceReportType named))))
      else named
    { item with data := data, fieldDefaultsMeta := some m }
  else item

/-- `apply_report_handoff_safety_net`. -/
def applyReportHandoffSafetyNet (dumps : Value → Str) (intent : Option String)
    (candidate : Option Dict) (changes : List Change) : List Change :=
  match candidate with
  | some candidate =>
    if intent = some "create_report" then changes.map (handoffItem dumps candidate) else changes
  | none => changes

def Same (v w : Value) : Prop := v = w ∨ pyEq v w

def RunsQuery (candidate data : Dict) : Prop :=
  Same (pyGet data "query") (pyGet candidate "query") ∧ pyGet data "report_type" = queryReport

variable {dumps : Value → Str} {candidate : Dict} {p : Dict × Meta} {c : Change}

theorem setField_keys (when : Bool) (key : String) (v : Value) (r : Str) (p : Dict × Meta) {k : Str}
    (h : (Lib.Json.get k p.1).isSome) : (Lib.Json.get k (setField when key v r p).1).isSome := by
  unfold setField
  split
  · exact get_insert_isSome _ _ h
  · exact h

theorem setField_other (when : Bool) {key k : String} (hk : str key ≠ str k) (v : Value) (r : Str)
    (p : Dict × Meta) : pyGet (setField when key v r p).1 k = pyGet p.1 k := by
  unfold setField
  split
  · simp [pyGet, get_insert, hk]
  · rfl

theorem setField_same (key : String) (v : Value) (r : Str) (p : Dict × Meta) :
    Same (pyGet (setField (differs p.1 key v) key v r p).1 key) v := by
  unfold setField
  split
  · simp [Same, pyGet, get_insert]
  · next h => simpa [Same, differs] using Or.inr (by simpa [differs] using h)

theorem same_str {v : Value} {s : Str} (h : Same v (.str s)) : v = .str s := by
  rcases h with rfl | h
  · rfl
  · cases v <;> simp_all [pyEq, number]

theorem handoffItem_extends (c : Change) : Extends c (handoffItem dumps candidate c) := by
  unfold handoffItem
  split
  · refine ⟨rfl, fun k hk => ?_⟩
    have hnamed : (Lib.Json.get k
        (fillReportName candidate (c.data, c.fieldDefaultsMeta.getD [])).1).isSome :=
      setField_keys _ _ _ _ _ hk
    dsimp only
    split
    · exact setField_keys _ _ _ _ _ (setField_keys _ _ _ _ _ (setField_keys _ _ _ _ _
        (setField_keys _ _ _ _ _ (setField_keys _ _ _ _ _ hnamed))))
    · exact hnamed
  · exact .refl c

theorem handoffItem_runsQuery (hr : isReport c.doctype) (ha : isAggregation candidate) :
    RunsQuery candidate (handoffItem dumps candidate c).data := by
  have htype (p : Dict × Meta) : pyGet (forceReportType p).1 "report_type" = queryReport :=
    same_str (setField_same "report_type" queryReport reportTypeRationale p)
  simp only [handoffItem, hr, ha, if_true]
  refine ⟨?_, ?_⟩
  · simp only [fillFilters, fillIsStandard, forceRefDoctype]
    rw [setField_other _ (by decide), setField_other _ (by decide), setField_other _ (by decide)]
    exact setField_same _ _ _ _
  · simp only [fillFilters, fillIsStandard, forceRefDoctype, forceQuery]
    rw [setField_other _ (by decide), setField_other _ (by decide), setField_other _ (by decide),
      setField_other _ (by decide)]
    exact htype _

end AlfredProcessing.PostBuild.ReportHandoff
