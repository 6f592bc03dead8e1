import AlfredProcessing.Handlers.PresetRange
import AlfredProcessing.Lib.Fill
import AlfredProcessing.Lib.Occurrence
import AlfredProcessing.Lib.Regex
import AlfredProcessing.Orchestrator.Classify
import AlfredProcessing.Security.SqlSafety

namespace AlfredProcessing.Handlers.InsightsCandidate

open Lib.Fill (join)
open Lib.Occurrence (occurs)
open Orchestrator.Classify (splitlines)
open Lib.Calendar (Date)
open Lib.Regex Extract.Cleaning Security.SqlSafety PresetRange

/-- What the extractor is given: the characters of Python, the doctypes that the modules of the registry
name, and the day. The numeric values are of digits beyond ASCII. -/
structure Setting where
  sql : Platform
  lower : List Char → List Char
  digitValue : Char → Option Nat
  doctypes : List (List Char)
  today : Date

inductive Error where
  | tooManyDigits
  | date (e : DateError)
  | unsafeSql (e : UnsafeSqlError)

structure Metric where
  sourceDoctype : String
  metricField : String
  metricFn : String
  metricLabel : String

structure GroupBy where
  groupByField : String
  groupByLabel : String
  deriving DecidableEq

structure Filter where
  fieldname : String
  label : String
  fieldtype : String
  default : List Char

structure TimeRange where
  field : String
  preset : String

structure ReportCandidate where
  targetDoctype : List Char
  reportType : String
  filters : List Filter
  limit : Option Nat
  timeRange : Option TimeRange
  suggestedName : List Char
  query : Option (List Char)
  aggregation : Option (Metric × GroupBy)

section Tables

/-- `_METRIC_PHRASES`. -/
def metricPhrases : List (String × Metric) :=
  [("billed amount", ⟨"Sales Invoice", "grand_total", "SUM", "Billed Amount"⟩),
    ("purchase amount", ⟨"Purchase Invoice", "grand_total", "SUM", "Purchase Amount"⟩),
    ("purchase value", ⟨"Purchase Invoice", "grand_total", "SUM", "Purchase Value"⟩),
    ("sales value", ⟨"Sales Invoice", "grand_total", "SUM", "Sales Value"⟩),
    ("revenue", ⟨"Sales Invoice", "grand_total", "SUM", "Revenue"⟩),
    ("billing", ⟨"Sales Invoice", "grand_total", "SUM", "Billing"⟩),
    ("sales", ⟨"Sales Invoice", "grand_total", "SUM", "Sales"⟩),
    ("purchases", ⟨"Purchase Invoice", "grand_total", "SUM", "Purchases"⟩),
    ("spend", ⟨"Purchase Invoice", "grand_total", "SUM", "Spend"⟩)]

/-- `_GROUP_BY_PHRASES`. -/
def groupByPhrases : List (String × GroupBy) :=
  [("sales persons", ⟨"sales_person", "Sales Person"⟩), ("sales people", ⟨"sales_person", "Sales Person"⟩),
    ("sales person", ⟨"sales_person", "Sales Person"⟩), ("salespersons", ⟨"sales_person", "Sales Person"⟩),
    ("salesperson", ⟨"sales_person", "Sales Person"⟩), ("territories", ⟨"territory", "Territory"⟩),
    ("territory", ⟨"territory", "Territory"⟩), ("customer groups", ⟨"customer_group", "Customer Group"⟩),
    ("customer group", ⟨"customer_group", "Customer Group"⟩), ("customers", ⟨"customer", "Customer"⟩),
    ("customer", ⟨"customer", "Customer"⟩), ("suppliers", ⟨"supplier", "Supplier"⟩),
    ("supplier", ⟨"supplier", "Supplier"⟩), ("items", ⟨"item_code", "Item"⟩), ("item", ⟨"item_code", "Item"⟩),
    ("products", ⟨"item_code", "Item"⟩), ("product", ⟨"item_code", "Item"⟩), ("projects", ⟨"project", "Project"⟩),
    ("project", ⟨"project", "Project"⟩)]

/-- `_TIME_RANGE_PRESETS`. -/
def timeRangePresets : List (String × String) :=
  [("today", "today"), ("this week", "this_week"), ("last week", "last_week"), ("this month", "this_month"),
    ("last month", "last_month"), ("this quarter", "this_quarter"), ("last quarter", "last_quarter"),
    ("this year", "this_year"), ("last year", "last_year"), ("year to date", "year_to_date"),
    ("ytd", "year_to_date")]

/-- `_ERROR_REPLY_MARKERS`. -/
def errorReplyMarkers : List String :=
  ["i don't know", "i do not know", "no data", "no matching", "couldn't find", "could not find", "not found",
    "no records"]

/-- `_SCHEMA_REPLY_MARKERS`. -/
def schemaReplyMarkers : List String :=
  ["defines the structure", "doctype represents", "doctype is organized", "permission grid", "permission rules",
    "the permissions define", "read-only fields", "field definitions", "83 fields"]

end Tables

section Model

/-- `needle in text`. -/
def within (needle text : List Char) : Bool := occurs (fun c d => decide (c = d)) needle text

variable (g : Setting)

/-- The value of a character that `\d` matches. -/
def digitValue (c : Char) : Option Nat :=
  if c.isDigit then some (c.toNat - '0'.toNat) else if 128 ≤ c.toNat then g.digitValue c else none

def digit : Expr := .char fun c => (digitValue g c).isSome

def bound : Expr := .look fun prev cs => border g.sql prev cs.head?

def space : Expr := .char isSpace

def oneChar (cs : String) : Expr := .char fun c => cs.toList.contains c

def anyCase (s : String) : Expr := s.toList.foldr (fun k r => .seq (.char fun c => foldsTo c k) r) .empty

def whole (cs : List Char) : Expr := .seqs [bound g, .text cs, bound g]

def lineStart : Expr := .look fun prev _ => prev = none || prev = some '\n'

def textEnd : Expr := .look fun _ cs => cs = [] || cs = ['\n']

/-- The digits behind `top`, by `_TOP_N_RE`. -/
def topDigits (low : List Char) : Option (List Char) :=
  search (.seqs [bound g, anyCase "top", .plus space]) (.plus (digit g)) (bound g) low

/-- The most digits that `int` takes. -/
def maxStrDigits : Nat := 4300

def number (ds : List Char) : Nat := ds.foldl (fun n c => 10 * n + (digitValue g c).getD 0) 0

/-- `int` of digits. -/
def toInt (ds : List Char) : Except Error Nat :=
  if maxStrDigits < ds.length then .error .tooManyDigits else .ok (number g ds)

/-- `_detect_metric`. -/
def detectMetric (low : List Char) : Option Metric :=
  (metricPhrases.find? fun e => found (whole g e.1.toList) low).map Prod.snd

/-- What stands behind `by`, up to the end of a word. -/
def byEntity (low : List Char) : Option (List Char) :=
  search (.seqs [bound g, .text "by".toList, .plus space])
    (.seq (.char Char.isLower) (.fewUpTo (.char fun c => c.isLower || " _-".toList.contains c) 30))
    (.seq (bound g) (.look fun _ cs => cs.head?.all fun c => isSpace c || ",.;!?".toList.contains c)) low

/-- `_detect_group_by`. -/
def detectGroupBy (low : List Char) : Option GroupBy :=
  let named := (byEntity g low).bind fun t =>
    groupByPhrases.find? fun e => within e.1.toList (strip t) || within (strip t) e.1.toList
  (named.orElse fun _ => groupByPhrases.find? fun e => found (whole g e.1.toList) low).map Prod.snd

/-- A limit that is no zero: what `if limit` asks for. -/
def given (limit : Option Nat) : Option Nat := limit.filter (· ≠ 0)

def labelAlias (m : Metric) : List Char := m.metricLabel.toList.filter (· ≠ '`')

def groupColumn (b : GroupBy) : List Char :=
  "    `".toList ++ b.groupByField.toList ++ "` AS `".toList ++ b.groupByLabel.toList.filter (· ≠ '`') ++ "`,".toList

def metricColumn (m : Metric) : List Char :=
  "    ".toList ++ m.metricFn.toList ++ "(`".toList ++ m.metricField.toList ++ "`) AS `".toList ++ labelAlias m ++
    "`".toList

def fromLine (m : Metric) : List Char := "FROM `tab".toList ++ m.sourceDoctype.toList ++ "`".toList

def dateLine : List Char := "  AND `posting_date` BETWEEN %(from_date)s AND %(to_date)s".toList

def groupFilter (b : GroupBy) : List Char :=
  "  AND `".toList ++ b.groupByField.toList ++ "` IS NOT NULL AND `".toList ++ b.groupByField.toList ++ "` != ''".toList

def groupLine (b : GroupBy) : List Char := "GROUP BY `".toList ++ b.groupByField.toList ++ "`".toList

def orderLine (m : Metric) : List Char := "ORDER BY `".toList ++ labelAlias m ++ "` DESC".toList

def limitLine (n : Nat) : List Char := "LIMIT ".toList ++ Nat.toDigits 10 n

def aggregationParts (m : Metric) (b : GroupBy) (limit : Option Nat) (dateRange : Option (Date × Date)) :
    List (List Char) :=
  ["SELECT".toList, groupColumn b, metricColumn m, fromLine m, "WHERE `docstatus` = 1".toList] ++
    (if dateRange.isSome then [dateLine] else []) ++
    [groupFilter b, groupLine b, orderLine m] ++ (given limit).toList.map limitLine

/-- `_build_aggregation_sql`. -/
def buildAggregationSql (m : Metric) (b : GroupBy) (limit : Option Nat) (dateRange : Option (Date × Date)) :
    Except Error (List Char) :=
  let sql := join ['\n'] (aggregationParts m b limit dateRange)
  match validateSafeSelect g.sql sql with
  | .ok () => .ok sql
  | .error e => .error (.unsafeSql e)

/-- `date.isoformat`. -/
def isoformat (d : Date) : List Char :=
  (Nat.toDigits 10 d.year).leftpad 4 '0' ++ '-' :: ((Nat.toDigits 10 d.month).leftpad 2 '0' ++
    '-' :: (Nat.toDigits 10 d.day).leftpad 2 '0')

/-- `_build_aggregation_filters`. -/
def buildAggregationFilters : Option (Date × Date) → List Filter
  | none => []
  | some r =>
    [⟨"from_date", "From Date", "Date", isoformat r.1⟩, ⟨"to_date", "To Date", "Date", isoformat r.2⟩]

/-- `_MD_TABLE_SEP_RE`. -/
def tableSeparator : Expr :=
  .seqs [.many space, oneChar "|", .plus (.char fun c => isSpace c || "-:|".toList.contains c), oneChar "|",
    .many space, textEnd]

/-- `_MD_TABLE_ROW_RE`. -/
def tableRow : Expr :=
  .seqs [.many space, oneChar "|", .plus (.char (· ≠ '\n')), oneChar "|", .many space, textEnd]

/-- `_NUMBERED_LIST_RE`. -/
def numberedList : Expr :=
  .seqs [lineStart, .many space, .plus (digit g), oneChar ".)", .plus space, .char fun c => !isSpace c]

/-- `_BULLET_LIST_RE`. -/
def bulletList : Expr :=
  .seqs [lineStart, .many space, oneChar "-*", .plus space, .char fun c => !isSpace c]

def noun (stem ending : String) : Expr := .seq (anyCase stem) (.opt (anyCase ending))

def counted : Expr :=
  .oneOf [noun "record" "s", noun "row" "s", noun "entrie" "s", noun "result" "s", noun "item" "s",
    noun "product" "s", noun "customer" "s", noun "invoice" "s", noun "order" "s", noun "project" "s",
    noun "lead" "s", noun "user" "s", noun "employee" "s", noun "document" "s", noun "supplier" "s",
    .seq (anyCase "territor") (.alt (anyCase "y") (anyCase "ies")),
    .seqs [anyCase "sales", .plus space, noun "person" "s"], noun "salesperson" "s"]

/-- `_COUNT_RE`. -/
def countPhrase : Expr :=
  .seqs [bound g, .plus (digit g), .plus space,
    .opt (.seqs [.plus (.char fun c => wordChar g.sql c), .plus space]), counted, bound g]

/-- One line of a reply, on the rows of tables so far and whether a table is open. -/
def tableStep (s : Nat × Bool) (line : List Char) : Nat × Bool :=
  if matched tableSeparator line then (s.1, true)
  else if s.2 && matched tableRow line then (s.1 + 1, s.2)
  else if s.2 && (strip line).isEmpty then (s.1, false)
  else s

/-- `_reply_looks_like_data`. -/
def replyLooksLikeData (reply : List Char) : Bool :=
  if reply.isEmpty then false
  else if schemaReplyMarkers.any fun m => within m.toList (g.lower reply) then false
  else
    decide (2 ≤ ((splitlines reply).foldl tableStep (0, false)).1) || decide (3 ≤ count (numberedList g) reply) ||
      decide (3 ≤ count bulletList reply) || found (countPhrase g) reply

/-- `_detect_target_doctype`. -/
def detectTargetDoctype (low : List Char) : Option (List Char) :=
  (g.doctypes.find? fun dt => found (whole g (g.lower dt)) low).orElse fun _ =>
    g.doctypes.find? fun dt => found (whole g (g.lower dt ++ ['s'])) low

/-- `str.title`. -/
def titled : Bool → List Char → List Char
  | _, [] => []
  | inWord, c :: cs => (if inWord then c.toLower else c.toUpper) :: titled c.isAlpha cs

def suggestedName (limit : Option Nat) (subject : List (List Char)) (timeRange : Option TimeRange) : List Char :=
  join [' '] ((given limit).toList.map (fun n => "Top ".toList ++ Nat.toDigits 10 n) ++ subject ++
    timeRange.toList.map fun t =>
      "- ".toList ++ titled false (t.preset.toList.map fun c => if c = '_' then ' ' else c))

def presetIn (low : List Char) : Option String :=
  (timeRangePresets.find? fun e => within e.1.toList low).map Prod.snd

def topLimit (low : List Char) : Except Error (Option Nat) :=
  match topDigits g low with
  | some ds => (toInt g ds).map some
  | none => .ok none

def dateRange (low : List Char) : Except Error (Option (Date × Date)) :=
  match presetIn low with
  | some preset => (resolvePresetRange preset g.today).mapError .date
  | none => .ok none

def gated (reply : List Char) : Bool :=
  (errorReplyMarkers.any fun m => within m.toList (g.lower reply)) || !replyLooksLikeData g reply

/-- The candidate of a prompt, with its limit and its dates: a query report or a list. -/
def shapeCandidate (low : List Char) (limit : Option Nat) (dateRange : Option (Date × Date)) :
    Except Error (Option ReportCandidate) :=
  let timeRange := (presetIn low).map fun preset => TimeRange.mk "posting_date" preset
  match detectMetric g low, detectGroupBy g low with
  | some metric, some groupBy => do
    let query ← buildAggregationSql g metric groupBy limit dateRange
    let group := groupBy.groupByLabel.toList
    let plural := if group.getLast? = some 's' then group else group ++ ['s']
    return some {
      targetDoctype := metric.sourceDoctype.toList
      reportType := "Query Report"
      filters := buildAggregationFilters dateRange
      limit := limit
      timeRange := timeRange
      suggestedName := suggestedName limit [plural, "by ".toList ++ metric.metricLabel.toList] timeRange
      query := some query
      aggregation := some (metric, groupBy) }
  | _, _ =>
    match detectTargetDoctype g low with
    | none => return none
    | some target =>
      if limit = none ∧ timeRange.isNone then return none
      else
        return some {
          targetDoctype := target
          reportType := "Report Builder"
          filters := []
          limit := limit
          timeRange := timeRange
          suggestedName := suggestedName limit [target ++ ['s']] timeRange
          query := none
          aggregation := none }

/-- `extract_report_candidate`. -/
def extractReportCandidate (prompt reply : List Char) : Except Error (Option ReportCandidate) :=
  if prompt.isEmpty then .ok none
  else if gated g reply then .ok none
  else do
    let low := g.lower prompt
    let limit ← topLimit g low
    let dateRange ← dateRange g low
    shapeCandidate g low limit dateRange

end Model

end AlfredProcessing.Handlers.InsightsCandidate
