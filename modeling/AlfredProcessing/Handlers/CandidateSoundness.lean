import AlfredProcessing.Handlers.InsightsCandidate
import AlfredProcessing.Lib.JsonDump
import AlfredProcessing.Security.SqlAcceptance
import Mathlib.Tactic.IntervalCases

namespace AlfredProcessing.Handlers.CandidateSoundness

open Lib.Fill (join join_append join_concat)
open Lib.Occurrence (occurs occurs_of_first occurs_of_infix)
open Lib.JsonDump (digits_toDigits toDigits_inj)
open Lib.Calendar (Date)
open Lib.Fallible Security.SqlSafety Security.SqlAcceptance PresetRange InsightsCandidate

section Statement

variable (g : Setting)

/-- The candidate carries a time range and the filters for its two dates. -/
def Dated (c : ReportCandidate) : Prop :=
  ∃ t r, c.timeRange = some t ∧ resolvePresetRange t.preset g.today = .ok (some r) ∧
    c.filters = buildAggregationFilters (some r)

/-- The last line of the query limits it to so many rows. -/
def LimitClause (query : List Char) (n : Nat) : Prop := '\n' :: limitLine n <:+ query

structure QueryAgrees (c : ReportCandidate) (query : List Char) : Prop where
  safe : validateSafeSelect g.sql query = .ok ()
  fromDate : "%(from_date)s".toList <:+: query ↔ Dated g c
  toDate : "%(to_date)s".toList <:+: query ↔ Dated g c
  dated : Dated g c ∨ c.filters = [] ∧ c.timeRange.isNone
  clause : ∀ n, LimitClause query n ↔ c.limit = some n
  limited : "LIMIT".toList <:+: query ↔ c.limit.isSome

/-- The extraction raises nothing, and a query agrees with its candidate. -/
def Sound (prompt reply : List Char) : Prop :=
  ∃ r, extractReportCandidate g prompt reply = .ok r ∧
    ∀ c ∈ r, ∀ query ∈ c.query, QueryAgrees g c query

def Aggregates (low : List Char) : Prop := (detectMetric g low).isSome ∧ (detectGroupBy g low).isSome

/-- The number behind `top` is one that `int` takes, and no zero for a sum per group; the period that is
named has its first and last day. -/
structure Regular (low : List Char) : Prop where
  digits : ∀ ds ∈ topDigits g low, ds.length ≤ maxStrDigits ∧ (Aggregates g low → number g ds ≠ 0)
  period : ∀ preset ∈ presetIn low, ∃ r, resolvePresetRange preset g.today = .ok r

end Statement

section Lines

variable {m : Metric} {b : GroupBy} {c : Char} {n : Nat}

/-- What a query has in no line but those for the dates and the limit. -/
def keptOut : List (List Char) := ['%'] :: "limit".toList :: dangerousKeywords

def filterFields (b : GroupBy) : List Char :=
  "  AND `".toList ++ b.groupByField.toList ++ "` IS NOT NULL AND `".toList ++ b.groupByField.toList

def filterStart (b : GroupBy) : List Char := filterFields b ++ "` != ".toList

theorem groupFilter_eq (b : GroupBy) : groupFilter b = filterStart b ++ ['\'', '\''] := by
  have hend : "` != ''".toList = "` != ".toList ++ ['\'', '\''] := by simp
  calc groupFilter b = filterFields b ++ "` != ''".toList := rfl
    _ = filterFields b ++ ("` != ".toList ++ ['\'', '\'']) := congrArg (filterFields b ++ ·) hend
    _ = filterStart b ++ ['\'', '\''] := (List.append_assoc ..).symm

/-- What the tables put between backticks or in front of a bracket. -/
def names : List String :=
  ["SUM", "grand_total", "Billed Amount", "Purchase Amount", "Purchase Value", "Sales Value", "Revenue", "Billing",
    "Sales", "Purchases", "Spend", "sales_person", "Sales Person", "territory", "Territory", "customer_group",
    "Customer Group", "customer", "Customer", "supplier", "Supplier", "item_code", "Item", "project", "Project"]

def openings : List String := ["    `", "    ", "  AND `", "GROUP BY `", "ORDER BY `"]

def separators : List String := ["` AS `", "(`", "`) AS `", "` IS NOT NULL AND `"]

def closings : List String := ["`,", "`", "` != ", "` DESC"]

structure FixedTexts : Prop where
  name : ∀ s ∈ names, Harmless keptOut s.toList ∧ '`' ∉ s.toList
  metric : ∀ e ∈ metricPhrases, e.2.metricFn ∈ names ∧ e.2.metricField ∈ names ∧ e.2.metricLabel ∈ names ∧
    e.2.sourceDoctype ∈ ["Sales Invoice", "Purchase Invoice"]
  group : ∀ e ∈ groupByPhrases, e.2.groupByField ∈ names ∧ e.2.groupByLabel ∈ names
  source : ∀ s ∈ ["Sales Invoice", "Purchase Invoice"],
    Harmless keptOut ("FROM `tab".toList ++ s.toList ++ "`".toList)
  select : Harmless keptOut "SELECT".toList
  status : Harmless keptOut "WHERE `docstatus` = 1".toList
  dates : Harmless keptOut.tail dateLine
  limit : Harmless (['%'] :: dangerousKeywords) "LIMIT".toList
  opening : ∀ t ∈ openings, Harmless keptOut t.toList ∧ t.toList.getLast?.any (Separates keptOut ·)
  separator : ∀ t ∈ separators, Harmless keptOut t.toList ∧ t.toList.head?.any (Separates keptOut ·) ∧
    t.toList.getLast?.any (Separates keptOut ·)
  closing : ∀ t ∈ closings, Harmless keptOut t.toList ∧ t.toList.head?.any (Separates keptOut ·)
  newline : Separates keptOut '\n'
  blank : Separates keptOut ' '
  quote : Separates keptOut '\''
  word : ∀ w ∈ keptOut, w ≠ []
  percent : Harmless [['%']] "LIMIT".toList
  lower : Harmless ["limit".toList] dateLine
  fromDate : "%(from_date)s".toList <:+: dateLine
  toDate : "%(to_date)s".toList <:+: dateLine

theorem fixed_texts : FixedTexts := by
  constructor <;> decide +kernel

theorem name_harmless {s : String} (hs : s ∈ names) : Harmless keptOut s.toList := (fixed_texts.name s hs).1

theorem alias_eq {s : String} (hs : s ∈ names) : s.toList.filter (· ≠ '`') = s.toList :=
  List.filter_eq_self.mpr fun _ hc => decide_eq_true fun h => (fixed_texts.name s hs).2 (h ▸ hc)

variable {t : String} {x y : List Char}

theorem edge_separates {o : Option Char} (h : o.any (Separates keptOut ·)) : ∃ c ∈ o, Separates keptOut c := by
  obtain ⟨c, hc, hseparates⟩ := (Option.any_eq_true _ _).mp h
  exact ⟨c, hc, of_decide_eq_true hseparates⟩

theorem opened (ht : t ∈ openings) (hx : Harmless keptOut x) : Harmless keptOut (t.toList ++ x) :=
  (fixed_texts.opening t ht).1.behind (edge_separates (fixed_texts.opening t ht).2) hx

theorem separated (ht : t ∈ separators) (hx : Harmless keptOut x) (hy : Harmless keptOut y) :
    Harmless keptOut (x ++ t.toList ++ y) :=
  have hopens := (fixed_texts.separator t ht).2
  (fixed_texts.separator t ht).1.between (edge_separates hopens.1) (edge_separates hopens.2) hx hy

theorem closed (ht : t ∈ closings) (hx : Harmless keptOut x) : Harmless keptOut (x ++ t.toList) :=
  (fixed_texts.closing t ht).1.before (edge_separates (fixed_texts.closing t ht).2) hx

theorem group_harmless (hb : b.groupByField ∈ names ∧ b.groupByLabel ∈ names) :
    Harmless keptOut (groupColumn b) ∧ Harmless keptOut (filterStart b) ∧ Harmless keptOut (groupLine b) := by
  have hfield := name_harmless hb.1
  have hlabel := name_harmless hb.2
  have hcolumn := separated (t := "` AS `") (by simp [separators])
    (opened (t := "    `") (by simp [openings]) hfield) hlabel
  have hfilter := separated (t := "` IS NOT NULL AND `") (by simp [separators])
    (opened (t := "  AND `") (by simp [openings]) hfield) hfield
  have hgroup := opened (t := "GROUP BY `") (by simp [openings]) hfield
  refine ⟨?_, ?_, ?_⟩
  · have hline := closed (t := "`,") (by simp [closings]) hcolumn
    delta groupColumn
    rw [alias_eq hb.2]
    exact hline
  · have hline := closed (t := "` != ") (by simp [closings]) hfilter
    exact hline
  · have hline := closed (t := "`") (by simp [closings]) hgroup
    exact hline

theorem metric_harmless (hm : m.metricFn ∈ names ∧ m.metricField ∈ names ∧ m.metricLabel ∈ names) :
    Harmless keptOut (metricColumn m) ∧ Harmless keptOut (orderLine m) := by
  obtain ⟨hfn, hfield, hlabel⟩ := hm
  have hname := name_harmless hlabel
  have hcall := separated (t := "(`") (by simp [separators])
    (opened (t := "    ") (by simp [openings]) (name_harmless hfn)) (name_harmless hfield)
  have hsum := separated (t := "`) AS `") (by simp [separators]) hcall hname
  have horder := opened (t := "ORDER BY `") (by simp [openings]) hname
  refine ⟨?_, ?_⟩
  · have hline := closed (t := "`") (by simp [closings]) hsum
    delta metricColumn labelAlias
    rw [alias_eq hlabel]
    exact hline
  · have hline := closed (t := "` DESC") (by simp [closings]) horder
    delta orderLine labelAlias
    rw [alias_eq hlabel]
    exact hline

theorem digit_calm {c : Char} (hc : c.isDigit) : calm c = true ∧
    (∀ w ∈ keptOut, (w.head?.any (foldsTo c)) = false) ∧ c ≠ '\n' := by
  have hrange := hc
  simp only [Char.isDigit, Bool.and_eq_true, decide_eq_true_eq, UInt32.le_iff_toNat_le] at hrange
  change 48 ≤ c.toNat ∧ c.toNat ≤ 57 at hrange
  obtain ⟨hlow, hhigh⟩ := hrange
  rw [← Char.ofNat_toNat c]
  generalize c.toNat = n at hlow hhigh
  interval_cases n <;> decide

theorem digits_harmless (n : Nat) : Harmless keptOut (Nat.toDigits 10 n) := by
  refine ⟨fun c hc => (digit_calm (digits_toDigits n c hc)).1, fun w hw => ?_⟩
  obtain ⟨x, xs, rfl⟩ := List.exists_cons_of_ne_nil (fixed_texts.word w hw)
  exact occurs_of_first fun c hc => (digit_calm (digits_toDigits n c hc)).2.1 _ hw

end Lines

section Query

variable {m : Metric} {b : GroupBy} {limit : Option Nat} {r : Option (Date × Date)} {ws : List (List Char)}

def front (m : Metric) (b : GroupBy) (r : Option (Date × Date)) : List (List Char) :=
  ["SELECT".toList, groupColumn b, metricColumn m, fromLine m, "WHERE `docstatus` = 1".toList] ++
    (if r.isSome then [dateLine] else []) ++ [filterStart b]

def back (m : Metric) (b : GroupBy) (limit : Option Nat) : List (List Char) :=
  [groupLine b, orderLine m] ++ (given limit).toList.map limitLine

theorem join_parts (m : Metric) (b : GroupBy) (limit : Option Nat) (r : Option (Date × Date)) :
    join ['\n'] (aggregationParts m b limit r) =
      join ['\n'] (front m b r) ++ '\'' :: '\'' :: '\n' :: join ['\n'] (back m b limit) := by
  obtain ⟨us, hparts, hfront⟩ : ∃ us, aggregationParts m b limit r = "SELECT".toList :: us ++ [groupFilter b] ++
      back m b limit ∧ front m b r = "SELECT".toList :: us ++ [filterStart b] := by
    refine ⟨[groupColumn b, metricColumn m, fromLine m, "WHERE `docstatus` = 1".toList] ++
      (if r.isSome then [dateLine] else []), ?_, rfl⟩
    simp only [aggregationParts, back, List.append_assoc, List.cons_append, List.nil_append]
  rw [hparts, hfront, join_append ['\n'] (by simp) (by simp [back]), join_concat ['\n'] (by simp),
    join_concat ['\n'] (by simp), groupFilter_eq]
  simp only [List.append_assoc, List.cons_append, List.nil_append]

/-- Which of the words that are kept out can stand in a query: those of its line for the dates, and of its limit. -/
structure Allows (ws : List (List Char)) (limit : Option Nat) (r : Option (Date × Date)) : Prop where
  kept : ws ⊆ keptOut
  dates : r.isSome → Harmless ws dateLine
  limit : (given limit).isSome → Harmless ws "LIMIT".toList

structure Listed (m : Metric) (b : GroupBy) : Prop where
  metric : ∃ e ∈ metricPhrases, e.2 = m
  group : ∃ e ∈ groupByPhrases, e.2 = b

theorem front_harmless (h : Listed m b) (hws : Allows ws limit r) : Harmless ws (join ['\n'] (front m b r)) := by
  obtain ⟨⟨e, he, rfl⟩, f, hf, rfl⟩ := h
  obtain ⟨hfn, hfield, hlabel, hdoctype⟩ := fixed_texts.metric e he
  have hgroup := group_harmless (fixed_texts.group f hf)
  have hmetric := metric_harmless ⟨hfn, hfield, hlabel⟩
  refine harmless_join (by decide) (fixed_texts.newline.mono hws.kept) fun t ht => ?_
  simp only [front, List.mem_append, List.mem_cons, List.not_mem_nil, or_false] at ht
  obtain (((rfl | rfl | rfl | rfl | rfl) | hdate) | rfl) := ht
  · exact fixed_texts.select.mono hws.kept
  · exact hgroup.1.mono hws.kept
  · exact hmetric.1.mono hws.kept
  · exact (fixed_texts.source _ hdoctype).mono hws.kept
  · exact fixed_texts.status.mono hws.kept
  · split at hdate
    · next hr =>
      rw [List.mem_singleton.mp hdate]
      exact hws.dates hr
    · cases hdate
  · exact hgroup.2.1.mono hws.kept

theorem limitLine_eq (n : Nat) : limitLine n = "LIMIT".toList ++ ' ' :: Nat.toDigits 10 n := by
  have hword : "LIMIT ".toList = "LIMIT".toList ++ [' '] := by simp
  delta limitLine
  rw [hword, List.append_assoc]
  rfl

theorem limitLine_harmless (hws : ws ⊆ keptOut) (hlimit : Harmless ws "LIMIT".toList) (n : Nat) :
    Harmless ws (limitLine n) := by
  rw [limitLine_eq]
  exact hlimit.append (by decide) (fixed_texts.blank.mono hws) ((digits_harmless n).mono hws)

theorem back_harmless (h : Listed m b) (hws : Allows ws limit r) : Harmless ws (join ['\n'] (back m b limit)) := by
  obtain ⟨⟨e, he, rfl⟩, f, hf, rfl⟩ := h
  obtain ⟨hfn, hfield, hlabel, -⟩ := fixed_texts.metric e he
  refine harmless_join (by decide) (fixed_texts.newline.mono hws.kept) fun t ht => ?_
  simp only [back, List.mem_append, List.mem_cons, List.not_mem_nil, or_false, List.mem_map, Option.mem_toList] at ht
  obtain (rfl | rfl) | ⟨n, hn, rfl⟩ := ht
  · exact (group_harmless (fixed_texts.group f hf)).2.2.mono hws.kept
  · exact (metric_harmless ⟨hfn, hfield, hlabel⟩).2.mono hws.kept
  · exact limitLine_harmless hws.kept (hws.limit (Option.isSome_iff_exists.mpr ⟨n, hn⟩)) n

def queryText (m : Metric) (b : GroupBy) (limit : Option Nat) (r : Option (Date × Date)) : List Char :=
  join ['\n'] (aggregationParts m b limit r)

theorem front_select (m : Metric) (b : GroupBy) (r : Option (Date × Date)) :
    ∃ t, join ['\n'] (front m b r) = "SELECT".toList ++ '\n' :: t := by
  obtain ⟨us, hus, hfront⟩ : ∃ us, us ≠ [] ∧ front m b r = ["SELECT".toList] ++ us :=
    ⟨[groupColumn b, metricColumn m, fromLine m, "WHERE `docstatus` = 1".toList] ++
      ((if r.isSome then [dateLine] else []) ++ [filterStart b]), by simp, by simp [front]⟩
  refine ⟨join ['\n'] us, ?_⟩
  rw [hfront, join_append ['\n'] (by simp) hus, List.append_assoc]
  rfl

theorem query_accepted (p : Platform) (h : Listed m b) (limit : Option Nat) (r : Option (Date × Date)) :
    validateSafeSelect p (queryText m b limit r) = .ok () := by
  have hws : Allows dangerousKeywords limit r :=
    ⟨fun k hk => List.mem_cons_of_mem _ (List.mem_cons_of_mem _ hk),
      fun _ => fixed_texts.dates.mono fun k hk => List.mem_cons_of_mem _ hk,
      fun _ => fixed_texts.limit.mono fun k hk => List.mem_cons_of_mem _ hk⟩
  have hnewline := fixed_texts.newline.mono hws.kept
  have hnil : Harmless dangerousKeywords [] := ⟨by simp, by decide⟩
  have hback := hnil.append (by decide) hnewline (back_harmless h hws)
  obtain ⟨t, ht⟩ := front_select m b r
  rw [queryText, join_parts]
  exact validateSafeSelect_accepts p (front_harmless h hws) hback ht

theorem query_without (h : Listed m b) (hws : Allows ws limit r) {w : List Char} (hw : w ∈ ws) :
    occurs foldsTo w (queryText m b limit r) = false := by
  have hseparates := fixed_texts.quote.mono hws.kept
  have hnewline := fixed_texts.newline.mono hws.kept
  have hempty : occurs foldsTo w [] = false := by
    obtain ⟨x, xs, rfl⟩ := List.exists_cons_of_ne_nil (hnewline w hw).1
    rfl
  rw [queryText, join_parts]
  refine occurs_append_separator hseparates hw ((front_harmless h hws).words w hw) ?_
  refine occurs_append_separator (a := []) hseparates hw hempty ?_
  exact occurs_append_separator (a := []) hnewline hw hempty ((back_harmless h hws).words w hw)

theorem mem_parts_inside {t : List Char} (ht : t ∈ aggregationParts m b limit r) : t <:+: queryText m b limit r := by
  obtain ⟨us, vs, hsplit⟩ := List.append_of_mem ht
  rw [queryText, hsplit]
  cases us with
  | nil =>
    cases vs with
    | nil => simp [join]
    | cons v vs => exact ⟨[], '\n' :: join ['\n'] (v :: vs), by simp [join]⟩
  | cons u us =>
    rw [join_append ['\n'] (by simp) (by simp)]
    refine List.IsInfix.trans ?_ (List.suffix_append _ _).isInfix
    cases vs with
    | nil => simp [join]
    | cons v vs => exact ⟨[], '\n' :: join ['\n'] (v :: vs), by simp [join]⟩

theorem placeholder_iff (h : Listed m b) {w : List Char} (hmem : '%' ∈ w) (hline : w <:+: dateLine) :
    w <:+: queryText m b limit r ↔ r.isSome := by
  constructor
  · intro hinfix
    by_contra hnone
    have hws : Allows [['%']] limit r :=
      ⟨by simp [keptOut], fun hr => absurd hr hnone, fun _ => fixed_texts.percent⟩
    have hpercent : ['%'] <:+: queryText m b limit r := by
      obtain ⟨us, vs, rfl⟩ := List.append_of_mem hmem
      exact List.IsInfix.trans ⟨us, vs, by simp⟩ hinfix
    have hoccurs := occurs_of_infix (r := foldsTo) (w := ['%']) (.cons (by decide) .nil) hpercent
    rw [query_without h hws (List.mem_singleton.mpr rfl)] at hoccurs
    cases hoccurs
  · intro hr
    refine hline.trans (mem_parts_inside ?_)
    rw [aggregationParts, if_pos hr]
    simp

theorem limited_iff (h : Listed m b) : "LIMIT".toList <:+: queryText m b limit r ↔ (given limit).isSome := by
  constructor
  · intro hinfix
    by_contra hnone
    have hws : Allows ["limit".toList] limit r :=
      ⟨by simp [keptOut], fun _ => fixed_texts.lower, fun hlimit => absurd hlimit hnone⟩
    have hfolds : List.Forall₂ (fun c x => foldsTo c x = true) "LIMIT".toList "limit".toList := by
      simp [foldsTo]
    have hoccurs := occurs_of_infix hfolds hinfix
    rw [query_without h hws (List.mem_singleton.mpr rfl)] at hoccurs
    cases hoccurs
  · intro hlimit
    obtain ⟨n, hn⟩ := Option.isSome_iff_exists.mp hlimit
    refine List.IsInfix.trans ?_ (mem_parts_inside (t := limitLine n) ?_)
    · rw [limitLine_eq]
      exact (List.prefix_append _ _).isInfix
    · simp [aggregationParts, hn]

theorem limitLine_inj {n k : Nat} (h : limitLine n = limitLine k) : n = k := toDigits_inj (List.append_cancel_left h)

theorem newline_not_mem (n : Nat) : '\n' ∉ limitLine n := by
  rw [limitLine_eq]
  intro h
  obtain h | h := List.mem_append.mp h
  · simp at h
  · obtain h | h := List.mem_cons.mp h
    · exact absurd h (by decide)
    · exact (digit_calm (digits_toDigits n _ h)).2.2 rfl

theorem last_line_unique {text u v : List Char} (hu : '\n' ∉ u) (hv : '\n' ∉ v) (htext : '\n' :: u <:+ text)
    (htext' : '\n' :: v <:+ text) : u = v := by
  have hshort {u v : List Char} (hv : '\n' ∉ v) (h : '\n' :: u <:+ '\n' :: v) : u = v := by
    obtain h | h := List.suffix_cons_iff.mp h
    · exact (List.cons.inj h).2
    · exact absurd (h.subset List.mem_cons_self) hv
  obtain h | h := List.suffix_or_suffix_of_suffix htext htext'
  · exact hshort hv h
  · exact (hshort hu h).symm

theorem clause_iff (h : Listed m b) (n : Nat) : LimitClause (queryText m b limit r) n ↔ given limit = some n := by
  have hlast {k : Nat} (hk : given limit = some k) : LimitClause (queryText m b limit r) k := by
    have hparts : aggregationParts m b limit r = ["SELECT".toList, groupColumn b, metricColumn m, fromLine m,
        "WHERE `docstatus` = 1".toList] ++ (if r.isSome then [dateLine] else []) ++
        [groupFilter b, groupLine b, orderLine m] ++ [limitLine k] := by
      rw [aggregationParts, hk]
      rfl
    rw [LimitClause, queryText, hparts, join_concat ['\n'] (by simp), List.append_assoc]
    exact List.suffix_append _ _
  refine ⟨fun hclause => ?_, hlast⟩
  have hinfix : "LIMIT".toList <:+: queryText m b limit r := by
    refine List.IsInfix.trans ?_ hclause.isInfix
    rw [limitLine_eq]
    exact ⟨['\n'], ' ' :: Nat.toDigits 10 n, by simp⟩
  obtain ⟨k, hk⟩ := Option.isSome_iff_exists.mp ((limited_iff h).mp hinfix)
  rw [hk, limitLine_inj (last_line_unique (newline_not_mem k) (newline_not_mem n) (hlast hk) hclause)]

end Query

section Extraction

variable {g : Setting} {prompt reply low : List Char} {c : ReportCandidate}

theorem presetIn_known {preset : String} (h : presetIn low = some preset) : (presets.lookup preset).isSome := by
  have hall : ∀ e ∈ timeRangePresets, (presets.lookup e.2).isSome := by decide
  obtain ⟨e, he, rfl⟩ := Option.map_eq_some_iff.mp h
  exact hall e (List.mem_of_find?_eq_some he)

theorem mapError_eq_ok {ε ε' α : Type} {f : ε → ε'} {x : Except ε α} {a : α} : x.mapError f = .ok a ↔ x = .ok a := by
  cases x <;> simp [Except.mapError]

theorem resolve_known {preset : String} {d : Date} {r : Option (Date × Date)} (hknown : (presets.lookup preset).isSome)
    (h : resolvePresetRange preset d = .ok r) : r.isSome := by
  obtain ⟨q, hq⟩ := Option.isSome_iff_exists.mp hknown
  rw [resolvePresetRange, hq] at h
  dsimp only at h
  cases hrange : presetRange d q with
  | error e =>
    rw [hrange] at h
    cases h
  | ok range =>
    rw [hrange] at h
    cases h
    rfl

theorem dateRange_eq_ok {r : Option (Date × Date)} : dateRange g low = .ok r ↔
    (presetIn low = none ∧ r = none) ∨
      ∃ preset range, presetIn low = some preset ∧ resolvePresetRange preset g.today = .ok (some range) ∧
        r = some range := by
  rw [dateRange]
  cases hpreset : presetIn low with
  | none => simp [eq_comm]
  | some preset =>
    dsimp only
    rw [mapError_eq_ok]
    constructor
    · intro h
      obtain ⟨range, rfl⟩ := Option.isSome_iff_exists.mp (resolve_known (presetIn_known hpreset) h)
      exact .inr ⟨preset, range, rfl, h, rfl⟩
    · rintro (⟨hnone, -⟩ | ⟨_, range, hsome, h, rfl⟩)
      · cases hnone
      · cases hsome
        exact h

theorem mem_of_detectMetric {m : Metric} (h : detectMetric g low = some m) : ∃ e ∈ metricPhrases, e.2 = m := by
  obtain ⟨e, he, rfl⟩ := Option.map_eq_some_iff.mp h
  exact ⟨e, List.mem_of_find?_eq_some he, rfl⟩

theorem mem_of_detectGroupBy {b : GroupBy} (h : detectGroupBy g low = some b) : ∃ e ∈ groupByPhrases, e.2 = b := by
  obtain ⟨e, he, rfl⟩ := Option.map_eq_some_iff.mp h
  refine ⟨e, ?_, rfl⟩
  obtain he | ⟨-, he⟩ := Option.or_eq_some_iff.mp (Option.orElse_eq_or.symm.trans he)
  · obtain ⟨t, -, he⟩ := Option.bind_eq_some_iff.mp he
    exact List.mem_of_find?_eq_some he
  · exact List.mem_of_find?_eq_some he

theorem buildAggregationSql_ok {m : Metric} {b : GroupBy} (h : Listed m b) (limit : Option Nat)
    (r : Option (Date × Date)) : buildAggregationSql g m b limit r = .ok (queryText m b limit r) := by
  have haccepted := query_accepted g.sql h limit r
  rw [queryText] at haccepted
  rw [buildAggregationSql, haccepted]
  rfl

theorem query_agrees {m : Metric} {b : GroupBy} {limit : Option Nat} {r : Option (Date × Date)} (h : Listed m b)
    (hr : dateRange g low = .ok r) (hlimit : limit ≠ some 0) (hfilters : c.filters = buildAggregationFilters r)
    (htime : c.timeRange = (presetIn low).map fun preset => TimeRange.mk "posting_date" preset)
    (hc : c.limit = limit) : QueryAgrees g c (queryText m b limit r) := by
  have hgiven : given limit = c.limit := by
    rw [hc, given]
    cases limit with
    | none => rfl
    | some n => exact Option.filter_eq_some_iff.mpr ⟨rfl, decide_eq_true fun hn => hlimit (hn ▸ rfl)⟩
  have hdated : Dated g c ↔ r.isSome := by
    obtain ⟨hnone, rfl⟩ | ⟨preset, range, hpreset, hrange, rfl⟩ := dateRange_eq_ok.mp hr
    · refine ⟨fun ⟨t, _, ht, _⟩ => ?_, fun hr => nomatch hr⟩
      rw [htime, hnone] at ht
      cases ht
    · exact iff_of_true ⟨⟨"posting_date", preset⟩, range, by rw [htime, hpreset]; rfl, hrange, hfilters⟩ rfl
  refine ⟨query_accepted g.sql h limit r, ?_, ?_, ?_, fun n => ?_, ?_⟩
  · rw [hdated]
    exact placeholder_iff h (by simp) fixed_texts.fromDate
  · rw [hdated]
    exact placeholder_iff h (by simp) fixed_texts.toDate
  · obtain ⟨hnone, rfl⟩ | ⟨preset, range, hpreset, hrange, rfl⟩ := dateRange_eq_ok.mp hr
    · exact .inr ⟨hfilters, by rw [htime, hnone]; rfl⟩
    · exact .inl (hdated.mpr rfl)
  · rw [clause_iff h, hgiven]
  · rw [limited_iff h, hgiven]

end Extraction

section Soundness

variable {g : Setting} {prompt reply : List Char}

theorem topLimit_eq_ok {low : List Char} {limit : Option Nat} : topLimit g low = .ok limit ↔
    limit = (topDigits g low).map (number g) ∧ ∀ ds ∈ topDigits g low, ds.length ≤ maxStrDigits := by
  rw [topLimit]
  cases topDigits g low with
  | none => simp [eq_comm]
  | some ds =>
    dsimp only
    rw [toInt]
    split
    · next hlong =>
      constructor
      · intro h
        cases h
      · rintro ⟨-, h⟩
        exact absurd (h ds rfl) (Nat.not_le_of_lt hlong)
    · next hshort =>
      constructor
      · intro h
        cases h
        exact ⟨rfl, fun es hes => by rw [← Option.some.inj hes]; exact Nat.le_of_not_lt hshort⟩
      · rintro ⟨rfl, -⟩
        rfl

theorem extract_eq (hprompt : prompt ≠ []) (hreply : gated g reply = false) :
    extractReportCandidate g prompt reply = topLimit g (g.lower prompt) >>= fun limit =>
      dateRange g (g.lower prompt) >>= fun r => shapeCandidate g (g.lower prompt) limit r := by
  have hempty : prompt.isEmpty = false := by simpa using hprompt
  rw [extractReportCandidate, hempty, hreply]
  rfl

theorem shape_aggregation {low : List Char} {m : Metric} {b : GroupBy} (hm : detectMetric g low = some m)
    (hb : detectGroupBy g low = some b) (limit : Option Nat) (r : Option (Date × Date)) :
    ∃ c, shapeCandidate g low limit r = .ok (some c) ∧ c.query = some (queryText m b limit r) ∧ c.limit = limit ∧
      c.filters = buildAggregationFilters r ∧
      c.timeRange = (presetIn low).map fun preset => TimeRange.mk "posting_date" preset := by
  have hsql := buildAggregationSql_ok (g := g) ⟨mem_of_detectMetric hm, mem_of_detectGroupBy hb⟩ limit r
  rw [shapeCandidate]
  dsimp only
  rw [hm, hb]
  dsimp only
  rw [hsql]
  exact ⟨_, rfl, rfl, rfl, rfl, rfl⟩

theorem shape_list {low : List Char} (h : ¬Aggregates g low) (limit : Option Nat) (r : Option (Date × Date)) :
    ∃ c, shapeCandidate g low limit r = .ok c ∧ ∀ d ∈ c, d.query = none := by
  rw [shapeCandidate]
  dsimp only
  split
  · next hm hb => exact absurd ⟨by rw [hm]; rfl, by rw [hb]; rfl⟩ h
  · split
    · exact ⟨none, rfl, by simp⟩
    · split
      · exact ⟨none, rfl, by simp⟩
      · exact ⟨_, rfl, by simp⟩

theorem regular_of_sound (h : Sound g prompt reply) (hprompt : prompt ≠ []) (hreply : gated g reply = false) :
    Regular g (g.lower prompt) := by
  obtain ⟨out, hextract, hall⟩ := h
  rw [extract_eq hprompt hreply] at hextract
  obtain ⟨limit, hlimit, hextract⟩ := bind_eq_ok.mp hextract
  obtain ⟨r, hr, hshape⟩ := bind_eq_ok.mp hextract
  obtain ⟨hvalue, hlength⟩ := topLimit_eq_ok.mp hlimit
  refine ⟨fun ds hds => ⟨hlength ds hds, fun hagg hzero => ?_⟩, fun preset hpreset => ?_⟩
  · obtain ⟨m, hm⟩ := Option.isSome_iff_exists.mp hagg.1
    obtain ⟨b, hb⟩ := Option.isSome_iff_exists.mp hagg.2
    obtain ⟨c, hc, hquery, hclimit, -⟩ := shape_aggregation hm hb limit r
    have hout : out = some c := Except.ok.inj (hshape.symm.trans hc)
    have hagrees := hall c hout (queryText m b limit r) hquery
    have hnone : c.limit = some 0 := by
      rw [hclimit, hvalue, hds, Option.map_some, hzero]
    have hclause := (hagrees.clause 0).mpr hnone
    have hgiven := (clause_iff ⟨mem_of_detectMetric hm, mem_of_detectGroupBy hb⟩ 0).mp hclause
    obtain ⟨-, hne⟩ := Option.filter_eq_some_iff.mp hgiven
    exact absurd rfl (of_decide_eq_true hne)
  · obtain ⟨hnone, -⟩ | ⟨preset', range, hsome, hrange, -⟩ := dateRange_eq_ok.mp hr
    · rw [hnone] at hpreset
      cases hpreset
    · rw [hsome] at hpreset
      cases hpreset
      exact ⟨_, hrange⟩

theorem sound_of_regular (h : prompt ≠ [] → gated g reply = false → Regular g (g.lower prompt)) :
    Sound g prompt reply := by
  by_cases hprompt : prompt = []
  · exact ⟨none, by rw [extractReportCandidate, hprompt]; rfl, by simp⟩
  cases hreply : gated g reply with
  | true =>
    have hempty : prompt.isEmpty = false := by simpa using hprompt
    exact ⟨none, by rw [extractReportCandidate, hempty, hreply]; rfl, by simp⟩
  | false =>
    obtain ⟨hdigits, hperiod⟩ := h hprompt hreply
    have hlimit := topLimit_eq_ok.mpr ⟨rfl, fun ds hds => (hdigits ds hds).1⟩
    obtain ⟨r, hr⟩ : ∃ r, dateRange g (g.lower prompt) = .ok r := by
      rw [dateRange]
      split
      · next preset hpreset =>
        obtain ⟨r, hr⟩ := hperiod preset hpreset
        exact ⟨r, mapError_eq_ok.mpr hr⟩
      · exact ⟨none, rfl⟩
    rw [Sound, extract_eq hprompt hreply, hlimit, hr]
    by_cases hagg : Aggregates g (g.lower prompt)
    · obtain ⟨m, hm⟩ := Option.isSome_iff_exists.mp hagg.1
      obtain ⟨b, hb⟩ := Option.isSome_iff_exists.mp hagg.2
      obtain ⟨c, hc, hquery, hclimit, hfilters, htime⟩ :=
        shape_aggregation hm hb ((topDigits g (g.lower prompt)).map (number g)) r
      refine ⟨some c, hc, fun d hd query hq => ?_⟩
      cases hd
      rw [hquery] at hq
      cases hq
      refine query_agrees ⟨mem_of_detectMetric hm, mem_of_detectGroupBy hb⟩ hr (fun hzero => ?_) hfilters htime hclimit
      obtain ⟨ds, hds, hvalue⟩ := Option.map_eq_some_iff.mp hzero
      exact (hdigits ds hds).2 hagg hvalue
    · obtain ⟨c, hc, hnone⟩ := shape_list hagg ((topDigits g (g.lower prompt)).map (number g)) r
      refine ⟨c, hc, fun d hd query hq => ?_⟩
      rw [hnone d hd] at hq
      cases hq

/-- Just where the number can be used and the period has its dates is the candidate sound. -/
theorem candidate_sound_iff (g : Setting) (prompt reply : List Char) :
    Sound g prompt reply ↔ (prompt ≠ [] → gated g reply = false → Regular g (g.lower prompt)) :=
  ⟨regular_of_sound, sound_of_regular⟩

section Counterexample

def spring : Setting :=
  ⟨asciiPlatform, List.map Char.toLower, fun _ => none, ["Customer".toList],
    ⟨2026, 4, 24, by decide, by decide, by decide⟩⟩

/-- The candidate has the limit zero, and its query has none. -/
theorem zero_limit_unclaused : ¬Sound spring "Top 0 customers by revenue".toList "Here are 3 customers".toList := by
  intro h
  have hregular := regular_of_sound h (by decide +kernel) (by decide +kernel)
  have hdigits : topDigits spring (spring.lower "Top 0 customers by revenue".toList) = some ['0'] := by decide +kernel
  exact (hregular.digits ['0'] hdigits).2 ⟨by decide +kernel, by decide +kernel⟩ (by decide +kernel)

end Counterexample

end Soundness

end AlfredProcessing.Handlers.CandidateSoundness
