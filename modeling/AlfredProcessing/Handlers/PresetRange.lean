import AlfredProcessing.Lib.Calendar
import AlfredProcessing.Lib.Fallible

namespace AlfredProcessing.Handlers.PresetRange

open Lib.Calendar Lib.Fallible

section Model

/-- The exceptions of `datetime`. -/
inductive DateError where
  | valueError
  | overflowError
  deriving DecidableEq

/-- `date(year, month, day)`. -/
def date (year month day : Nat) : Except DateError Date :=
  match make year month day with
  | some d => .ok d
  | none => .error .valueError

/-- `t.replace(day=day)`. -/
def replaceDay (t : Date) (day : Nat) : Except DateError Date := date t.year t.month day

/-- `t + timedelta(days=days)`. -/
def addDays (t : Date) (days : Int) : Except DateError Date :=
  match t.addDays days with
  | some d => .ok d
  | none => .error .overflowError

/-- Monday is 0. -/
def weekday (t : Date) : Nat := (t.ordinal + 6) % 7

inductive Period where
  | week
  | month
  | quarter
  | year
  deriving DecidableEq

inductive Preset where
  | today
  | this (p : Period)
  | last (p : Period)
  | yearToDate
  deriving DecidableEq

def thisWeek (t : Date) : Except DateError (Date × Date) := do
  let start ← addDays t (-(weekday t : Int))
  let stop ← addDays start 6
  return (start, stop)

def lastWeek (t : Date) : Except DateError (Date × Date) := do
  let thisStart ← addDays t (-(weekday t : Int))
  let stop ← addDays thisStart (-1)
  let start ← addDays stop (-6)
  return (start, stop)

def thisMonth (t : Date) : Except DateError (Date × Date) := do
  let start ← replaceDay t 1
  let late ← replaceDay start 28
  let behind ← addDays late 4
  let nm ← replaceDay behind 1
  let stop ← addDays nm (-1)
  return (start, stop)

def lastMonth (t : Date) : Except DateError (Date × Date) := do
  let firstThis ← replaceDay t 1
  let stop ← addDays firstThis (-1)
  let start ← replaceDay stop 1
  return (start, stop)

def quarterOf (t : Date) : Nat := (t.month - 1) / 3 + 1

def thisQuarter (t : Date) : Except DateError (Date × Date) := do
  let q := quarterOf t
  let start ← date t.year (3 * (q - 1) + 1) 1
  if q = 4 then
    let stop ← date t.year 12 31
    return (start, stop)
  else
    let nqFirst ← date t.year (3 * q + 1) 1
    let stop ← addDays nqFirst (-1)
    return (start, stop)

def lastQuarter (t : Date) : Except DateError (Date × Date) := do
  let q := quarterOf t
  if q = 1 then
    let start ← date (t.year - 1) 10 1
    let stop ← date (t.year - 1) 12 31
    return (start, stop)
  else
    let start ← date t.year (3 * (q - 2) + 1) 1
    let first ← date t.year (3 * (q - 1) + 1) 1
    let stop ← addDays first (-1)
    return (start, stop)

def thisYear (t : Date) : Except DateError (Date × Date) := do
  let start ← date t.year 1 1
  let stop ← date t.year 12 31
  return (start, stop)

def lastYear (t : Date) : Except DateError (Date × Date) := do
  let start ← date (t.year - 1) 1 1
  let stop ← date (t.year - 1) 12 31
  return (start, stop)

def presetRange (t : Date) : Preset → Except DateError (Date × Date)
  | .today => return (t, t)
  | .this .week => thisWeek t
  | .last .week => lastWeek t
  | .this .month => thisMonth t
  | .last .month => lastMonth t
  | .this .quarter => thisQuarter t
  | .last .quarter => lastQuarter t
  | .this .year => thisYear t
  | .last .year => lastYear t
  | .yearToDate => do
    let start ← date t.year 1 1
    return (start, t)

def presets : List (String × Preset) :=
  [("today", .today), ("this_week", .this .week), ("last_week", .last .week), ("this_month", .this .month),
    ("last_month", .last .month), ("this_quarter", .this .quarter), ("last_quarter", .last .quarter),
    ("this_year", .this .year), ("last_year", .last .year), ("year_to_date", .yearToDate)]

/-- `_resolve_preset_range`. -/
def resolvePresetRange (preset : String) (t : Date) : Except DateError (Option (Date × Date)) :=
  match presets.lookup preset with
  | some p => (presetRange t p).map some
  | none => return none

end Model

section Steps

variable {t d : Date} {k n : Nat}

theorem date_month (hk : k ≤ Lib.Calendar.lastMonth) (hn : 1 ≤ n ∧ n ≤ monthLength k) {y m : Nat}
    (hy : y = k / 12 + 1) (hm : m = k % 12 + 1) : ∃ d, date y m n = .ok d ∧ d.ordinal + 1 = monthStart k + n := by
  subst hy hm
  obtain ⟨d, hd, hordinal⟩ := make_month hk hn
  exact ⟨d, by rw [date, hd], hordinal⟩

theorem date_first (hk : k ≤ Lib.Calendar.lastMonth) {y m : Nat} (hy : y = k / 12 + 1) (hm : m = k % 12 + 1) :
    ∃ d, date y m 1 = .ok d ∧ d.ordinal = monthStart k := by
  have hlength := monthLength_bounds k
  obtain ⟨d, hd, hordinal⟩ := date_month hk (show 1 ≤ 1 ∧ 1 ≤ monthLength k by omega) hy hm
  exact ⟨d, hd, by omega⟩

theorem date_december (hk : k ≤ Lib.Calendar.lastMonth) {y : Nat} (hy : y = k / 12 + 1) (hm : k % 12 = 11) :
    ∃ d, date y 12 31 = .ok d ∧ d.ordinal + 1 = monthStart (k + 1) := by
  have hlength : monthLength k = 31 := by rw [monthLength, hm]; rfl
  obtain ⟨d, hd, hordinal⟩ := date_month hk (show 1 ≤ 31 ∧ 31 ≤ monthLength k by omega) hy (show 12 = k % 12 + 1 by omega)
  rw [monthStart_succ]
  exact ⟨d, hd, by omega⟩

theorem replaceDay_first (t : Date) : ∃ d, replaceDay t 1 = .ok d ∧ d.ordinal = monthStart t.monthIndex :=
  date_first t.monthIndex_le t.monthIndex_div.symm t.monthIndex_mod.symm

theorem addDays_eq_ok {days : Int} (hn : (t.ordinal : Int) + days = n) (hpos : 1 ≤ n)
    (hlast : n < monthStart (Lib.Calendar.lastMonth + 1)) : ∃ d, addDays t days = .ok d ∧ d.ordinal = n := by
  obtain ⟨d, hd, hordinal⟩ := ofOrdinal_eq_some hpos hlast
  exact ⟨d, by rw [addDays, Date.addDays, hn, hd], hordinal⟩

theorem addDays_back {m : Nat} (h : m < t.ordinal) : ∃ d, addDays t (-(m : Int)) = .ok d ∧ d.ordinal + m = t.ordinal := by
  have hlast : t.ordinal - m < monthStart (Lib.Calendar.lastMonth + 1) := (Nat.sub_le _ m).trans_lt t.ordinal_lt
  obtain ⟨d, hd, hordinal⟩ := @addDays_eq_ok t (t.ordinal - m) (-(m : Int)) (by omega) (by omega) hlast
  exact ⟨d, hd, by omega⟩

theorem addDays_on {m : Nat} (hm : m ≤ 28) (h : t.monthIndex < Lib.Calendar.lastMonth) :
    ∃ d, addDays t m = .ok d ∧ d.ordinal = t.ordinal + m := by
  refine addDays_eq_ok rfl (Nat.le_add_right_of_le t.ordinal_pos) ?_
  have hmonth := t.in_month.2
  have hlength := (monthLength_bounds (t.monthIndex + 1)).1
  have hlast : monthStart (t.monthIndex + 1 + 1) ≤ monthStart (Lib.Calendar.lastMonth + 1) :=
    monthStart_strictMono.monotone (by omega)
  rw [monthStart_succ] at hlast
  omega

theorem weekStart_eq (t : Date) : weekStart t.weekIndex + weekday t = t.ordinal := by
  have hpos := t.ordinal_pos
  rw [weekStart, weekday, Date.weekIndex]
  omega

end Steps

section Ranges

variable {t : Date}

theorem thisWeek_covers (h : t.monthIndex < Lib.Calendar.lastMonth) :
    ∃ r, thisWeek t = .ok r ∧ Covers weekStart t.weekIndex r := by
  have hweek := weekStart_eq t
  have hfirst : 1 ≤ weekStart t.weekIndex := Nat.le_add_left _ _
  obtain ⟨start, hstart, hs⟩ := @addDays_back t (weekday t) (by omega)
  have hmonth : start.monthIndex ≤ t.monthIndex := monthIndex_mono (le_iff_ordinal.mpr (by omega))
  obtain ⟨stop, hstop, he⟩ := @addDays_on start 6 (by decide) (by omega)
  refine ⟨(start, stop), ?_, ?_, ?_⟩
  · rw [thisWeek, hstart]
    exact bind_eq_ok.mpr ⟨start, rfl, bind_eq_ok.mpr ⟨stop, hstop, rfl⟩⟩
  · dsimp only
    omega
  · dsimp only
    rw [weekStart] at hweek ⊢
    omega

theorem lastWeek_covers (h : 0 < t.weekIndex) : ∃ r, lastWeek t = .ok r ∧ Covers weekStart (t.weekIndex - 1) r := by
  have hweek := weekStart_eq t
  have hstarts : weekStart (t.weekIndex - 1) + 7 = weekStart t.weekIndex := by
    rw [weekStart, weekStart]
    omega
  have hfirst : 1 ≤ weekStart (t.weekIndex - 1) := Nat.le_add_left _ _
  obtain ⟨thisStart, hthis, ht⟩ := @addDays_back t (weekday t) (by omega)
  obtain ⟨stop, hstop, he⟩ := @addDays_back thisStart 1 (by omega)
  obtain ⟨start, hstart, hs⟩ := @addDays_back stop 6 (by omega)
  refine ⟨(start, stop), ?_, ?_, ?_⟩
  · exact bind_eq_ok.mpr ⟨thisStart, hthis, bind_eq_ok.mpr ⟨stop, hstop, bind_eq_ok.mpr ⟨start, hstart, rfl⟩⟩⟩
  · dsimp only
    omega
  · dsimp only
    rw [Nat.sub_add_cancel h]
    omega

/-- The first day of the next month is found by way of the 28th. -/
theorem thisMonth_covers (h : t.monthIndex < Lib.Calendar.lastMonth) :
    ∃ r, thisMonth t = .ok r ∧ Covers monthStart t.monthIndex r := by
  have hlength := monthLength_bounds t.monthIndex
  have hnext := monthLength_bounds (t.monthIndex + 1)
  have hsucc := monthStart_succ t.monthIndex
  have hsucc' := monthStart_succ (t.monthIndex + 1)
  obtain ⟨start, hstart, hs⟩ := replaceDay_first t
  have hmonth : start.monthIndex = t.monthIndex := start.monthIndex_eq (by omega)
  obtain ⟨late, hlate, hl⟩ := date_month start.monthIndex_le
    (show 1 ≤ 28 ∧ 28 ≤ monthLength start.monthIndex by rw [hmonth]; omega)
    start.monthIndex_div.symm start.monthIndex_mod.symm
  rw [hmonth] at hl
  have hlateMonth : late.monthIndex = t.monthIndex := late.monthIndex_eq (by omega)
  obtain ⟨behind, hbehind, hb⟩ := @addDays_on late 4 (by decide) (by omega)
  have hbehindMonth : behind.monthIndex = t.monthIndex + 1 := behind.monthIndex_eq (by omega)
  obtain ⟨nm, hnm, hn⟩ := replaceDay_first behind
  rw [hbehindMonth] at hn
  obtain ⟨stop, hstop, he⟩ := @addDays_back nm 1 (by have := start.ordinal_pos; omega)
  refine ⟨(start, stop), ?_, hs, ?_⟩
  · exact bind_eq_ok.mpr ⟨start, hstart, bind_eq_ok.mpr ⟨late, hlate, bind_eq_ok.mpr ⟨behind, hbehind,
      bind_eq_ok.mpr ⟨nm, hnm, bind_eq_ok.mpr ⟨stop, hstop, rfl⟩⟩⟩⟩⟩
  · dsimp only
    omega

theorem lastMonth_covers (h : 0 < t.monthIndex) :
    ∃ r, lastMonth t = .ok r ∧ Covers monthStart (t.monthIndex - 1) r := by
  obtain ⟨k, hk⟩ : ∃ k, t.monthIndex = k + 1 := ⟨t.monthIndex - 1, by omega⟩
  have hlength := monthLength_bounds k
  have hsucc := monthStart_succ k
  obtain ⟨firstThis, hfirst, hf⟩ := replaceDay_first t
  rw [hk] at hf
  obtain ⟨stop, hstop, he⟩ := @addDays_back firstThis 1 (by omega)
  have hmonth : stop.monthIndex = k := stop.monthIndex_eq (by omega)
  obtain ⟨start, hstart, hs⟩ := replaceDay_first stop
  rw [hmonth] at hs
  rw [hk, Nat.add_sub_cancel]
  refine ⟨(start, stop), ?_, hs, ?_⟩
  · exact bind_eq_ok.mpr ⟨firstThis, hfirst, bind_eq_ok.mpr ⟨stop, hstop, bind_eq_ok.mpr ⟨start, hstart, rfl⟩⟩⟩
  · dsimp only
    omega

def quarterIndex (t : Date) : Nat := t.monthIndex / 3

def yearIndex (t : Date) : Nat := t.monthIndex / 12

theorem quarter_parts (t : Date) : t.year - 1 = quarterIndex t / 4 ∧ quarterOf t = quarterIndex t % 4 + 1 := by
  have hyear := t.year_bounds
  have hmonth := t.month_bounds
  rw [quarterIndex, quarterOf, Date.monthIndex]
  omega

theorem thisQuarter_covers (t : Date) : ∃ r, thisQuarter t = .ok r ∧ Covers quarterStart (quarterIndex t) r := by
  have hyear := t.year_bounds
  obtain ⟨hy, hq⟩ := quarter_parts t
  have hle := t.monthIndex_le
  have hindex : quarterIndex t = t.monthIndex / 3 := rfl
  obtain ⟨start, hstart, hs⟩ := @date_first (3 * quarterIndex t) (by omega) t.year (3 * (quarterOf t - 1) + 1)
    (by omega) (by omega)
  by_cases hlast : quarterOf t = 4
  · obtain ⟨stop, hstop, he⟩ := @date_december (3 * quarterIndex t + 2) (by rw [Lib.Calendar.lastMonth] at hle ⊢; omega)
      t.year (by omega) (by omega)
    refine ⟨(start, stop), ?_, hs, he⟩
    rw [thisQuarter]
    refine bind_eq_ok.mpr ⟨start, hstart, ?_⟩
    rw [if_pos hlast]
    exact bind_eq_ok.mpr ⟨stop, hstop, rfl⟩
  · obtain ⟨nqFirst, hnq, hn⟩ := @date_first (3 * quarterIndex t + 3) (by rw [Lib.Calendar.lastMonth] at hle ⊢; omega)
      t.year (3 * quarterOf t + 1) (by omega) (by omega)
    have hpos := start.ordinal_pos
    have hlt : monthStart (3 * quarterIndex t) < monthStart (3 * quarterIndex t + 3) :=
      monthStart_strictMono (by omega)
    obtain ⟨stop, hstop, he⟩ := @addDays_back nqFirst 1 (by omega)
    refine ⟨(start, stop), ?_, hs, ?_⟩
    · rw [thisQuarter]
      refine bind_eq_ok.mpr ⟨start, hstart, ?_⟩
      rw [if_neg hlast]
      exact bind_eq_ok.mpr ⟨nqFirst, hnq, bind_eq_ok.mpr ⟨stop, hstop, rfl⟩⟩
    · exact he.trans hn

theorem lastQuarter_covers (h : 0 < quarterIndex t) :
    ∃ r, lastQuarter t = .ok r ∧ Covers quarterStart (quarterIndex t - 1) r := by
  have hyear := t.year_bounds
  obtain ⟨hy, hq⟩ := quarter_parts t
  have hle := t.monthIndex_le
  have hindex : quarterIndex t = t.monthIndex / 3 := rfl
  obtain ⟨k, hk⟩ : ∃ k, quarterIndex t = k + 1 := ⟨quarterIndex t - 1, by omega⟩
  rw [hk, Nat.add_sub_cancel]
  by_cases hfirst : quarterOf t = 1
  · obtain ⟨start, hstart, hs⟩ := @date_first (3 * k) (by omega) (t.year - 1) 10 (by omega) (by omega)
    obtain ⟨stop, hstop, he⟩ := @date_december (3 * k + 2) (by omega) (t.year - 1) (by omega) (by omega)
    refine ⟨(start, stop), ?_, hs, he⟩
    rw [lastQuarter, if_pos hfirst]
    exact bind_eq_ok.mpr ⟨start, hstart, bind_eq_ok.mpr ⟨stop, hstop, rfl⟩⟩
  · obtain ⟨start, hstart, hs⟩ := @date_first (3 * k) (by omega) t.year (3 * (quarterOf t - 2) + 1)
      (by omega) (by omega)
    obtain ⟨first, hf, hn⟩ := @date_first (3 * k + 3) (by omega) t.year (3 * (quarterOf t - 1) + 1)
      (by omega) (by omega)
    have hpos := start.ordinal_pos
    have hlt : monthStart (3 * k) < monthStart (3 * k + 3) := monthStart_strictMono (by omega)
    obtain ⟨stop, hstop, he⟩ := @addDays_back first 1 (by omega)
    refine ⟨(start, stop), ?_, hs, he.trans hn⟩
    rw [lastQuarter, if_neg hfirst]
    exact bind_eq_ok.mpr ⟨start, hstart, bind_eq_ok.mpr ⟨first, hf, bind_eq_ok.mpr ⟨stop, hstop, rfl⟩⟩⟩

theorem thisYear_covers (t : Date) : ∃ r, thisYear t = .ok r ∧ Covers yearStart (yearIndex t) r := by
  have hyear := t.monthIndex_div
  have hle := t.monthIndex_le
  have hindex : yearIndex t = t.monthIndex / 12 := rfl
  rw [Lib.Calendar.lastMonth] at hle
  obtain ⟨start, hstart, hs⟩ := @date_first (12 * yearIndex t) (by rw [Lib.Calendar.lastMonth]; omega) t.year 1
    (by omega) (by omega)
  obtain ⟨stop, hstop, he⟩ := @date_december (12 * yearIndex t + 11) (by rw [Lib.Calendar.lastMonth]; omega) t.year
    (by omega) (by omega)
  exact ⟨(start, stop), bind_eq_ok.mpr ⟨start, hstart, bind_eq_ok.mpr ⟨stop, hstop, rfl⟩⟩, hs, he⟩

theorem lastYear_covers (h : 0 < yearIndex t) : ∃ r, lastYear t = .ok r ∧ Covers yearStart (yearIndex t - 1) r := by
  have hyear := t.monthIndex_div
  have hle := t.monthIndex_le
  have hindex : yearIndex t = t.monthIndex / 12 := rfl
  obtain ⟨k, hk⟩ : ∃ k, yearIndex t = k + 1 := ⟨yearIndex t - 1, by omega⟩
  rw [hk, Nat.add_sub_cancel]
  obtain ⟨start, hstart, hs⟩ := @date_first (12 * k) (by omega) (t.year - 1) 1 (by omega) (by omega)
  obtain ⟨stop, hstop, he⟩ := @date_december (12 * k + 11) (by omega) (t.year - 1) (by omega) (by omega)
  exact ⟨(start, stop), bind_eq_ok.mpr ⟨start, hstart, bind_eq_ok.mpr ⟨stop, hstop, rfl⟩⟩, hs, he⟩

end Ranges

section Laws

variable {t d : Date} {p : Period}

/-- The days on which the periods of a kind begin. -/
def Period.starts : Period → Nat → Nat
  | .week => weekStart
  | .month => monthStart
  | .quarter => quarterStart
  | .year => yearStart

def Period.index : Period → Date → Nat
  | .week => Date.weekIndex
  | .month => Date.monthIndex
  | .quarter => quarterIndex
  | .year => yearIndex

theorem starts_strictMono (p : Period) : StrictMono p.starts := by
  cases p with
  | week => exact weekStart_strictMono
  | month => exact monthStart_strictMono
  | quarter => exact quarterStart_strictMono
  | year => exact yearStart_strictMono

theorem in_period (p : Period) (t : Date) : p.starts (p.index t) ≤ t.ordinal ∧ t.ordinal < p.starts (p.index t + 1) := by
  cases p with
  | week => exact t.in_week
  | month => exact t.in_month
  | quarter => exact Date.in_months (by decide) t
  | year => exact Date.in_months (by decide) t

theorem this_covers (p : Period) (h : t.monthIndex < Lib.Calendar.lastMonth) :
    ∃ r, presetRange t (.this p) = .ok r ∧ Covers p.starts (p.index t) r := by
  cases p with
  | week => exact thisWeek_covers h
  | month => exact thisMonth_covers h
  | quarter => exact thisQuarter_covers t
  | year => exact thisYear_covers t

theorem index_pos (p : Period) (h : 12 ≤ t.monthIndex) : 0 < p.index t := by
  cases p with
  | week =>
    have hstart : monthStart 12 = 366 := by decide
    have hmono : monthStart 12 ≤ monthStart t.monthIndex := monthStart_strictMono.monotone h
    have hmonth := t.in_month.1
    show 0 < (t.ordinal - 1) / 7
    omega
  | month => exact (by decide : 0 < 12).trans_le h
  | quarter =>
    show 0 < t.monthIndex / 3
    omega
  | year =>
    show 0 < t.monthIndex / 12
    omega

theorem last_covers (p : Period) (h : 12 ≤ t.monthIndex) :
    ∃ r, presetRange t (.last p) = .ok r ∧ Covers p.starts (p.index t - 1) r := by
  cases p with
  | week => exact lastWeek_covers (index_pos .week h)
  | month => exact lastMonth_covers (index_pos .month h)
  | quarter => exact lastQuarter_covers (index_pos .quarter h)
  | year => exact lastYear_covers (index_pos .year h)

def Preset.name : Preset → String
  | .today => "today"
  | .this .week => "this_week"
  | .last .week => "last_week"
  | .this .month => "this_month"
  | .last .month => "last_month"
  | .this .quarter => "this_quarter"
  | .last .quarter => "last_quarter"
  | .this .year => "this_year"
  | .last .year => "last_year"
  | .yearToDate => "year_to_date"

theorem resolve_name (t : Date) (q : Preset) : resolvePresetRange q.name t = (presetRange t q).map some := by
  have hlookup : presets.lookup q.name = some q := by
    cases q with
    | this p => cases p <;> decide
    | last p => cases p <;> decide
    | _ => decide
  rw [resolvePresetRange, hlookup]

theorem resolve_eq_ok {q : Preset} {r : Date × Date} (h : presetRange t q = .ok r) :
    resolvePresetRange q.name t = .ok (some r) := by
  rw [resolve_name, h]
  rfl

/-- What the ranges of a date have to do with it and with each other. -/
structure Laws (d : Date) : Prop where
  ordered : ∀ q : Preset, ∃ r, resolvePresetRange q.name d = .ok (some r) ∧ r.1 ≤ r.2
  contains : ∀ p : Period, ∃ r, resolvePresetRange (Preset.this p).name d = .ok (some r) ∧ r.1 ≤ d ∧ d ≤ r.2
  consecutive : ∀ p : Period, ∃ last this next,
    resolvePresetRange (Preset.last p).name d = .ok (some last) ∧
      resolvePresetRange (Preset.this p).name d = .ok (some this) ∧ addDays last.2 1 = .ok this.1 ∧
        addDays this.2 1 = .ok next ∧ resolvePresetRange (Preset.last p).name next = .ok (some this)
  upToDate : ∃ year, resolvePresetRange (Preset.this .year).name d = .ok (some year) ∧ d ≤ year.2 ∧
    resolvePresetRange Preset.yearToDate.name d = .ok (some (year.1, d))

def firstDay : Date := ⟨2, 1, 1, by decide, by decide, by decide⟩

def lastDay : Date := ⟨9998, 11, 30, by decide, by decide, by decide⟩

theorem index_of_first {k : Nat} (h : d.ordinal = p.starts k) : p.index d = k :=
  part_unique (starts_strictMono p) (in_period p d) ⟨h.ge, h ▸ starts_strictMono p (Nat.lt_succ_self k)⟩

theorem next_start (p : Period) (h : d.monthIndex ≤ lastDay.monthIndex) :
    p.starts (p.index d + 1) < monthStart (Lib.Calendar.lastMonth + 1) := by
  have hlast : d.monthIndex ≤ 119974 := h
  have hmonths : ∀ {k}, k ≤ 119987 → monthStart k < monthStart (Lib.Calendar.lastMonth + 1) :=
    fun hk => monthStart_strictMono (Nat.lt_succ_of_le hk)
  cases p with
  | week =>
    have hday := (in_period .week d).1
    have hnext : Period.week.starts (Period.week.index d + 1) = Period.week.starts (Period.week.index d) + 7 := by
      show 7 * (d.weekIndex + 1) + 1 = 7 * d.weekIndex + 1 + 7
      omega
    have hmonth := d.in_month.2
    have hlength := (monthLength_bounds (d.monthIndex + 1)).1
    have hsucc := monthStart_succ (d.monthIndex + 1)
    have hbound := hmonths (show d.monthIndex + 1 + 1 ≤ 119987 by omega)
    omega
  | month => exact hmonths (show d.monthIndex + 1 ≤ 119987 by omega)
  | quarter => exact hmonths (show 3 * (d.monthIndex / 3 + 1) ≤ 119987 by omega)
  | year => exact hmonths (show 12 * (d.monthIndex / 12 + 1) ≤ 119987 by omega)

theorem yearToDate_range {year : Date × Date} (h : Covers yearStart (yearIndex d) year) :
    presetRange d .yearToDate = .ok (year.1, d) := by
  have hle := d.monthIndex_le
  have hdiv := d.monthIndex_div
  have hindex : yearIndex d = d.monthIndex / 12 := rfl
  obtain ⟨start, hstart, hs⟩ := @date_first (12 * yearIndex d) (by omega) d.year 1 (by omega) (by omega)
  have hsame : start = year.1 := ordinal_injective (hs.trans h.1.symm)
  exact bind_eq_ok.mpr ⟨start, hstart, by rw [hsame]; rfl⟩

theorem consecutive_ranges (p : Period) (hlow : 12 ≤ d.monthIndex) (hhigh : d.monthIndex ≤ lastDay.monthIndex) :
    ∃ last this next, presetRange d (.last p) = .ok last ∧ presetRange d (.this p) = .ok this ∧
      addDays last.2 1 = .ok this.1 ∧ addDays this.2 1 = .ok next ∧ presetRange next (.last p) = .ok this := by
  obtain ⟨last, hlast, hlastRange⟩ := last_covers p hlow
  obtain ⟨this, hthis, hthisRange⟩ := this_covers p (hhigh.trans_lt (by decide))
  have hindex : p.index d - 1 + 1 = p.index d := Nat.sub_add_cancel (index_pos p hlow)
  have hend : this.2.ordinal + 1 = p.starts (p.index d + 1) := hthisRange.2
  obtain ⟨next, hnext, hordinal⟩ := @addDays_eq_ok this.2 (p.starts (p.index d + 1)) 1 (by omega) (by omega)
    (next_start p hhigh)
  have hlater : d ≤ next := le_iff_ordinal.mpr (hordinal ▸ (in_period p d).2.le)
  obtain ⟨again, hagain, hagainRange⟩ := last_covers (t := next) p (hlow.trans (monthIndex_mono hlater))
  rw [index_of_first hordinal, Nat.add_sub_cancel] at hagainRange
  refine ⟨last, this, next, hlast, hthis, ?_, hnext, hagainRange.unique hthisRange ▸ hagain⟩
  rw [addDays, hlastRange.next (hindex.symm ▸ hthisRange)]

/-- What the presets promise, for every date from the second year on up to a month before the last. -/
theorem presets_lawful (d : Date) (hfirst : firstDay ≤ d) (hlast : d ≤ lastDay) : Laws d := by
  have hlow : 12 ≤ d.monthIndex := monthIndex_mono hfirst
  have hhigh : d.monthIndex ≤ lastDay.monthIndex := monthIndex_mono hlast
  have hnotLast : d.monthIndex < Lib.Calendar.lastMonth := hhigh.trans_lt (by decide)
  obtain ⟨year, hyear, hcovers⟩ := this_covers .year hnotLast
  have hinYear := hcovers.contains (in_period .year d)
  have hyearToDate := yearToDate_range hcovers
  refine ⟨?_, ?_, ?_, ?_⟩
  · intro q
    cases q with
    | today => exact ⟨_, resolve_eq_ok rfl, le_iff_ordinal.mpr le_rfl⟩
    | this p =>
      obtain ⟨r, hr, hrange⟩ := this_covers p hnotLast
      exact ⟨r, resolve_eq_ok hr, hrange.le (starts_strictMono p)⟩
    | last p =>
      obtain ⟨r, hr, hrange⟩ := last_covers p hlow
      exact ⟨r, resolve_eq_ok hr, hrange.le (starts_strictMono p)⟩
    | yearToDate => exact ⟨_, resolve_eq_ok hyearToDate, hinYear.1⟩
  · intro p
    obtain ⟨r, hr, hrange⟩ := this_covers p hnotLast
    exact ⟨r, resolve_eq_ok hr, hrange.contains (in_period p d)⟩
  · intro p
    obtain ⟨last, this, next, hlast, hthis, hbehind, hnext, hagain⟩ := consecutive_ranges p hlow hhigh
    exact ⟨last, this, next, resolve_eq_ok hlast, resolve_eq_ok hthis, hbehind, hnext, resolve_eq_ok hagain⟩
  · exact ⟨year, resolve_eq_ok hyear, hinYear.2, resolve_eq_ok hyearToDate⟩

theorem leapDay_lawful : Laws ⟨2024, 2, 29, by decide, by decide, by decide⟩ :=
  presets_lawful _ (by decide) (by decide)

end Laws

end AlfredProcessing.Handlers.PresetRange
