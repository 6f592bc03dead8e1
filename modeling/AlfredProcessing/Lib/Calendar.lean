import Mathlib.Data.Nat.Find
import Mathlib.Order.Monotone.Basic

namespace AlfredProcessing.Lib.Calendar

section Days

/-- The leap years of the Gregorian calendar, continued to the past. -/
def IsLeap (y : Nat) : Prop := y % 4 = 0 ∧ (y % 100 ≠ 0 ∨ y % 400 = 0)

instance : DecidablePred IsLeap := fun y => inferInstanceAs (Decidable (y % 4 = 0 ∧ (y % 100 ≠ 0 ∨ y % 400 = 0)))

def daysInMonth (y m : Nat) : Nat :=
  if m = 2 then if IsLeap y then 29 else 28
  else if m = 4 ∨ m = 6 ∨ m = 9 ∨ m = 11 then 30
  else 31

def daysBeforeYear (y : Nat) : Nat := 365 * (y - 1) + (y - 1) / 4 - (y - 1) / 100 + (y - 1) / 400

def daysBeforeMonth (y : Nat) : Nat → Nat
  | 0 => 0
  | 1 => 0
  | m + 2 => daysBeforeMonth y (m + 1) + daysInMonth y (m + 1)

theorem daysInMonth_bounds (y m : Nat) : 28 ≤ daysInMonth y m ∧ daysInMonth y m ≤ 31 := by
  unfold daysInMonth
  split_ifs <;> omega

theorem daysBeforeYear_succ (y : Nat) :
    daysBeforeYear (y + 2) = daysBeforeYear (y + 1) + daysBeforeMonth (y + 1) 13 := by
  have hyear : daysBeforeMonth (y + 1) 13 = if IsLeap (y + 1) then 366 else 365 := by
    by_cases hleap : IsLeap (y + 1) <;> simp [daysBeforeMonth, daysInMonth, hleap]
  have hfour : 100 ∣ y + 1 → 4 ∣ y + 1 := Nat.dvd_trans (by decide)
  have hhundred : 400 ∣ y + 1 → 100 ∣ y + 1 := Nat.dvd_trans (by decide)
  have hless : y / 100 ≤ y / 4 := Nat.div_le_div_left (by decide) (by decide)
  simp only [hyear, daysBeforeYear, IsLeap, ← Nat.dvd_iff_mod_eq_zero, Nat.add_sub_cancel,
    show y + 2 - 1 = y + 1 from rfl, Nat.succ_div, Ne]
  by_cases h4 : 4 ∣ y + 1
  · by_cases h100 : 100 ∣ y + 1
    · by_cases h400 : 400 ∣ y + 1
      · simp only [h4, h100, h400, if_true, or_true, and_true]
        omega
      · simp only [h4, h100, h400, if_true, if_false, not_true, or_false, and_false]
        omega
    · have h400 : ¬400 ∣ y + 1 := mt hhundred h100
      simp only [h4, h100, h400, if_true, if_false, not_false_eq_true, true_or, and_true]
      omega
  · have h100 : ¬100 ∣ y + 1 := mt hfour h4
    have h400 : ¬400 ∣ y + 1 := mt hhundred h100
    simp only [h4, h100, h400, if_false, false_and]
    omega

/-- The day on which a month begins, counted from the first of January of the year 1, which is 1.
Months are counted from that January on. -/
def monthStart (k : Nat) : Nat := daysBeforeYear (k / 12 + 1) + daysBeforeMonth (k / 12 + 1) (k % 12 + 1) + 1

def monthLength (k : Nat) : Nat := daysInMonth (k / 12 + 1) (k % 12 + 1)

theorem monthStart_succ (k : Nat) : monthStart (k + 1) = monthStart k + monthLength k := by
  obtain hsame | hnext : (k + 1) / 12 = k / 12 ∧ (k + 1) % 12 = k % 12 + 1 ∨
      (k + 1) / 12 = k / 12 + 1 ∧ (k + 1) % 12 = 0 ∧ k % 12 = 11 := by omega
  · rw [monthStart, hsame.1, hsame.2, daysBeforeMonth, monthStart, monthLength]
    omega
  · have hjanuary : daysBeforeMonth (k / 12 + 1 + 1) (0 + 1) = 0 := rfl
    have hyear : daysBeforeMonth (k / 12 + 1) 13 =
        daysBeforeMonth (k / 12 + 1) (11 + 1) + daysInMonth (k / 12 + 1) (11 + 1) := rfl
    rw [monthStart, hnext.1, hnext.2.1, daysBeforeYear_succ, monthStart, monthLength, hnext.2.2, hjanuary, hyear]
    omega

theorem monthLength_bounds (k : Nat) : 28 ≤ monthLength k ∧ monthLength k ≤ 31 := daysInMonth_bounds _ _

theorem monthStart_strictMono : StrictMono monthStart := by
  refine strictMono_nat_of_lt_succ fun k => ?_
  have hlength := monthLength_bounds k
  rw [monthStart_succ]
  omega

end Days

section Dates

/-- A date of the years 1 to 9999. -/
structure Date where
  year : Nat
  month : Nat
  day : Nat
  year_bounds : 1 ≤ year ∧ year ≤ 9999
  month_bounds : 1 ≤ month ∧ month ≤ 12
  day_bounds : 1 ≤ day ∧ day ≤ daysInMonth year month
  deriving DecidableEq

variable {d d' : Date} {k n : Nat}

def Date.ordinal (d : Date) : Nat := daysBeforeYear d.year + daysBeforeMonth d.year d.month + d.day

def Date.monthIndex (d : Date) : Nat := 12 * (d.year - 1) + (d.month - 1)

theorem Date.monthIndex_div (d : Date) : d.monthIndex / 12 + 1 = d.year := by
  have hyear := d.year_bounds
  have hmonth := d.month_bounds
  rw [monthIndex]
  omega

theorem Date.monthIndex_mod (d : Date) : d.monthIndex % 12 + 1 = d.month := by
  have hmonth := d.month_bounds
  rw [monthIndex]
  omega

theorem Date.ordinal_add_one (d : Date) : d.ordinal + 1 = monthStart d.monthIndex + d.day := by
  rw [monthStart, d.monthIndex_div, d.monthIndex_mod, ordinal]
  omega

theorem Date.day_le (d : Date) : d.day ≤ monthLength d.monthIndex := by
  rw [monthLength, d.monthIndex_div, d.monthIndex_mod]
  exact d.day_bounds.2

theorem Date.in_month (d : Date) : monthStart d.monthIndex ≤ d.ordinal ∧ d.ordinal < monthStart (d.monthIndex + 1) := by
  have hordinal := d.ordinal_add_one
  have hday := d.day_bounds.1
  have hle := d.day_le
  rw [monthStart_succ]
  omega

theorem part_unique {b : Nat → Nat} (hb : StrictMono b) {k k' n : Nat} (h : b k ≤ n ∧ n < b (k + 1))
    (h' : b k' ≤ n ∧ n < b (k' + 1)) : k = k' := by
  have hlt : k < k' + 1 := hb.lt_iff_lt.mp (h.1.trans_lt h'.2)
  have hlt' : k' < k + 1 := hb.lt_iff_lt.mp (h'.1.trans_lt h.2)
  omega

theorem Date.monthIndex_eq (h : monthStart k ≤ d.ordinal ∧ d.ordinal < monthStart (k + 1)) : d.monthIndex = k :=
  part_unique monthStart_strictMono d.in_month h

theorem ordinal_injective : Function.Injective Date.ordinal := by
  intro d d' h
  have hindex : d.monthIndex = d'.monthIndex := d.monthIndex_eq (h ▸ d'.in_month)
  have hyear : d.year = d'.year := by rw [← d.monthIndex_div, hindex, d'.monthIndex_div]
  have hmonth : d.month = d'.month := by rw [← d.monthIndex_mod, hindex, d'.monthIndex_mod]
  have hday : d.day = d'.day := by
    have hleft := d.ordinal_add_one
    have hright := d'.ordinal_add_one
    rw [h, hindex] at hleft
    omega
  cases d
  cases d'
  congr

/-- Dates are ordered by the days that they are. -/
instance : LE Date := ⟨fun d d' => d.ordinal ≤ d'.ordinal⟩

instance (d d' : Date) : Decidable (d ≤ d') := inferInstanceAs (Decidable (d.ordinal ≤ d'.ordinal))

theorem le_iff_ordinal : d ≤ d' ↔ d.ordinal ≤ d'.ordinal := Iff.rfl

/-- The date with a year, a month and a day, if there is one. -/
def make (y m d : Nat) : Option Date :=
  if hyear : 1 ≤ y ∧ y ≤ 9999 then
    if hmonth : 1 ≤ m ∧ m ≤ 12 then
      if hday : 1 ≤ d ∧ d ≤ daysInMonth y m then some ⟨y, m, d, hyear, hmonth, hday⟩ else none
    else none
  else none

def lastMonth : Nat := 119987

/-- The date of a day, if it is one of those that dates have. -/
def ofOrdinal (n : Int) : Option Date :=
  if 1 ≤ n then
    let k := Nat.findGreatest (fun k => monthStart k ≤ n.toNat) lastMonth
    make (k / 12 + 1) (k % 12 + 1) (n.toNat - monthStart k + 1)
  else none

def Date.addDays (d : Date) (days : Int) : Option Date := ofOrdinal (d.ordinal + days)

def Date.replaceDay (d : Date) (day : Nat) : Option Date := make d.year d.month day

theorem make_eq_some {y m day : Nat} (hyear : 1 ≤ y ∧ y ≤ 9999) (hmonth : 1 ≤ m ∧ m ≤ 12)
    (hday : 1 ≤ day ∧ day ≤ daysInMonth y m) : make y m day = some ⟨y, m, day, hyear, hmonth, hday⟩ := by
  rw [make, dif_pos hyear, dif_pos hmonth, dif_pos hday]

theorem make_month (hk : k ≤ lastMonth) (hn : 1 ≤ n ∧ n ≤ monthLength k) :
    ∃ d, make (k / 12 + 1) (k % 12 + 1) n = some d ∧ d.ordinal + 1 = monthStart k + n := by
  rw [lastMonth] at hk
  refine ⟨_, make_eq_some (by omega) (by omega) hn, ?_⟩
  rw [Date.ordinal_add_one]
  have hindex : 12 * (k / 12 + 1 - 1) + (k % 12 + 1 - 1) = k := by omega
  rw [Date.monthIndex, hindex]

theorem ofOrdinal_eq_some (hpos : 1 ≤ n) (hlast : n < monthStart (lastMonth + 1)) :
    ∃ d, ofOrdinal n = some d ∧ d.ordinal = n := by
  have hzero : monthStart 0 = 1 := by decide
  have hspec := Nat.findGreatest_spec (P := fun k => monthStart k ≤ n) (Nat.zero_le lastMonth) (hzero.le.trans hpos)
  have hle := Nat.findGreatest_le (P := fun k => monthStart k ≤ n) lastMonth
  have hnext : n < monthStart (Nat.findGreatest (fun k => monthStart k ≤ n) lastMonth + 1) := by
    by_contra hge
    obtain heq | hlt := hle.eq_or_lt
    · rw [heq] at hge
      exact hge hlast
    · exact Nat.findGreatest_is_greatest (Nat.lt_succ_self _) hlt (not_lt.mp hge)
  rw [ofOrdinal, if_pos (by omega)]
  dsimp only
  rw [Int.toNat_natCast]
  generalize Nat.findGreatest (fun k => monthStart k ≤ n) lastMonth = k at hspec hle hnext ⊢
  rw [monthStart_succ] at hnext
  obtain ⟨d, hd, hordinal⟩ := make_month hle (show 1 ≤ n - monthStart k + 1 ∧ n - monthStart k + 1 ≤ monthLength k by omega)
  exact ⟨d, hd, by omega⟩

end Dates

section Periods

variable {b : Nat → Nat} {d : Date} {r r' : Date × Date} {k : Nat}

theorem Date.monthIndex_le (d : Date) : d.monthIndex ≤ lastMonth := by
  have hyear := d.year_bounds
  have hmonth := d.month_bounds
  rw [monthIndex, lastMonth]
  omega

theorem Date.ordinal_pos (d : Date) : 1 ≤ d.ordinal := by
  rw [ordinal]
  have hday := d.day_bounds.1
  omega

theorem Date.ordinal_lt (d : Date) : d.ordinal < monthStart (lastMonth + 1) :=
  d.in_month.2.trans_le (monthStart_strictMono.monotone (Nat.succ_le_succ d.monthIndex_le))

theorem ofOrdinal_ordinal (d : Date) : ofOrdinal d.ordinal = some d := by
  obtain ⟨d', hd', hordinal⟩ := ofOrdinal_eq_some d.ordinal_pos d.ordinal_lt
  rw [hd', ordinal_injective hordinal]

theorem monthIndex_mono {d' : Date} (h : d ≤ d') : d.monthIndex ≤ d'.monthIndex := by
  have hlt : monthStart d.monthIndex < monthStart (d'.monthIndex + 1) :=
    d.in_month.1.trans_lt ((le_iff_ordinal.mp h).trans_lt d'.in_month.2)
  exact Nat.lt_succ_iff.mp (monthStart_strictMono.lt_iff_lt.mp hlt)

/-- The days from the first to the second are those of part `k`. -/
def Covers (b : Nat → Nat) (k : Nat) (r : Date × Date) : Prop := r.1.ordinal = b k ∧ r.2.ordinal + 1 = b (k + 1)

theorem Covers.le (hb : StrictMono b) (h : Covers b k r) : r.1 ≤ r.2 := by
  have hlt : b k < b (k + 1) := hb (Nat.lt_succ_self k)
  rw [le_iff_ordinal, h.1]
  have hend := h.2
  omega

theorem Covers.contains (h : Covers b k r) (hd : b k ≤ d.ordinal ∧ d.ordinal < b (k + 1)) : r.1 ≤ d ∧ d ≤ r.2 := by
  have hend := h.2
  rw [le_iff_ordinal, le_iff_ordinal, h.1]
  omega

theorem Covers.unique (h : Covers b k r) (h' : Covers b k r') : r = r' := by
  have hend : r.2.ordinal = r'.2.ordinal := by
    have hleft := h.2
    have hright := h'.2
    omega
  exact Prod.ext (ordinal_injective (h.1.trans h'.1.symm)) (ordinal_injective hend)

theorem Covers.next (h : Covers b k r) (h' : Covers b (k + 1) r') : r.2.addDays 1 = some r'.1 := by
  have hnext : (r.2.ordinal : Int) + 1 = r'.1.ordinal := by
    rw [h'.1, ← h.2]
    rfl
  rw [Date.addDays, hnext, ofOrdinal_ordinal]

def weekStart (k : Nat) : Nat := 7 * k + 1

def quarterStart (k : Nat) : Nat := monthStart (3 * k)

def yearStart (k : Nat) : Nat := monthStart (12 * k)

theorem weekStart_strictMono : StrictMono weekStart := by
  intro k k' hk
  rw [weekStart, weekStart]
  omega

theorem quarterStart_strictMono : StrictMono quarterStart := fun k k' hk => monthStart_strictMono (by omega)

theorem yearStart_strictMono : StrictMono yearStart := fun k k' hk => monthStart_strictMono (by omega)

def Date.weekIndex (d : Date) : Nat := (d.ordinal - 1) / 7

theorem Date.in_week (d : Date) : weekStart d.weekIndex ≤ d.ordinal ∧ d.ordinal < weekStart (d.weekIndex + 1) := by
  have hpos := d.ordinal_pos
  rw [weekStart, weekStart, weekIndex]
  omega

theorem Date.in_months {m : Nat} (hm : 0 < m) (d : Date) : monthStart (m * (d.monthIndex / m)) ≤ d.ordinal ∧
    d.ordinal < monthStart (m * (d.monthIndex / m + 1)) := by
  have hdiv := Nat.div_add_mod d.monthIndex m
  have hmod := Nat.mod_lt d.monthIndex hm
  have hfirst : m * (d.monthIndex / m) ≤ d.monthIndex := by omega
  have hnext : d.monthIndex + 1 ≤ m * (d.monthIndex / m + 1) := by
    rw [Nat.mul_add, Nat.mul_one]
    omega
  exact ⟨(monthStart_strictMono.monotone hfirst).trans d.in_month.1,
    d.in_month.2.trans_le (monthStart_strictMono.monotone hnext)⟩

end Periods

end AlfredProcessing.Lib.Calendar
