import AlfredProcessing.Extract.Changes
import AlfredProcessing.Lib.Fallible
import AlfredProcessing.State.ConversationMemory
import Mathlib.Algebra.Field.Rat
import Mathlib.Algebra.Order.Field.Rat
import Mathlib.Tactic.Linarith
import Mathlib.Tactic.Positivity

namespace AlfredProcessing.Tools.Objects

open Lib.Json Lib.Fallible Extract.Changes State.ConversationMemory

/-- `d.get(key, default)`. -/
def getOr (d : Dict) (key : String) (default : Value) : Value := (get (str key) d).getD default

/-- What a loop over a value goes through. What is no JSON is taken for something without
elements to show. -/
def iterate : Value → Except PyError (List Value)
  | .list xs => .ok xs
  | .str s => .ok (s.map fun c => .str [c])
  | .dict entries _ => .ok (entries.map fun e => .str e.1)
  | _ => .error .typeError

/-- The dictionary that a `get` is called on. -/
def dictOf : Value → Except PyError Dict
  | .dict d _ => .ok d
  | _ => .error .attributeError

def objectsIn : Value → List Dict
  | .list xs => xs.filterMap asDict
  | _ => []

/-- Whether two keys are one to a set. A key is itself there, also where it does not equal itself. -/
def sameKey : Value → Value → Bool
  | .nonFinite x, .nonFinite y => x = y
  | v, w => pyEq v w

def member (v : Value) (xs : List Value) : Bool := xs.any fun x => sameKey x v

def addKey (seen : List Value) (x : Value) : List Value := if member x seen then seen else seen ++ [x]

def setOf (xs : List Value) : List Value := xs.foldl addKey []

/-- What goes into a set or a dictionary as a key. -/
def asKey (v : Value) : Except PyError Value := if hashable v then .ok v else .error .typeError

/-- `f"..."` and the order in which a set is gone through. -/
structure Texts where
  py : Python
  setOrder : List Value → List Value
  setOrder_perm : ∀ xs, (setOrder xs).Perm xs

def plainTexts : Texts where
  py := plainPython
  setOrder := id
  setOrder_perm xs := .refl xs

structure Flaw where
  type : String
  message : Str

/-- What a validator returns. It holds when there is no error. -/
structure Report where
  errors : List Flaw
  deriving Inhabited

def Report.valid (r : Report) : Bool := r.errors.isEmpty

/-- The validator returned and found nothing. -/
def accepted {ε : Type} (r : Except ε Report) : Bool :=
  match r with
  | .ok r => r.valid
  | .error _ => false

theorem accepted_iff {ε : Type} {r : Except ε Report} : accepted r = true ↔ ∃ q, r = .ok q ∧ q.errors = [] := by
  cases r with
  | error e => simp [accepted]
  | ok q => simp [accepted, Report.valid]

inductive Key where
  | null
  | text (s : Str)
  | number (q : ℚ)
  | nonFinite (x : NonFinite)
  | other (truthy hashable : Bool)
  | none
  deriving DecidableEq

def keyOf : Value → Key
  | .null => .null
  | .str s => .text s
  | .nonFinite x => .nonFinite x
  | .other t h => .other t h
  | v =>
    match number v with
    | some (m, e) => .number (m * (10 : ℚ) ^ e)
    | none => .none

theorem decimal_eq_iff (m m' e e' : Int) :
    m * Int.pow 10 (e - min e e').toNat = m' * Int.pow 10 (e' - min e e').toNat ↔
      (m : ℚ) * (10 : ℚ) ^ e = m' * (10 : ℚ) ^ e' := by
  have hshift : ∀ k : Int, min e e' ≤ k →
      (10 : ℚ) ^ k = ((Int.pow 10 (k - min e e').toNat : Int) : ℚ) * (10 : ℚ) ^ min e e' := by
    intro k hk
    have hpow : (((Int.pow 10 (k - min e e').toNat : Int)) : ℚ) = (10 : ℚ) ^ (k - min e e') := by
      rw [← Int.toNat_of_nonneg (sub_nonneg.mpr hk), zpow_natCast, Int.toNat_natCast]
      exact_mod_cast rfl
    rw [hpow, ← zpow_add₀ (by norm_num), sub_add_cancel]
  rw [hshift e (min_le_left e e'), hshift e' (min_le_right e e'), ← mul_assoc, ← mul_assoc]
  have hne : (10 : ℚ) ^ min e e' ≠ 0 := zpow_ne_zero _ (by norm_num)
  rw [mul_left_inj' hne]
  norm_cast

theorem sameKey_numbers {v w : Value} {m m' e e' : Int} (hv : number v = some (m, e)) (hw : number w = some (m', e')) :
    sameKey v w = decide (m * Int.pow 10 (e - min e e').toNat = m' * Int.pow 10 (e' - min e e').toNat) := by
  cases v <;> cases hv <;> cases w <;> cases hw <;> simp only [sameKey, pyEq, number]

theorem keyOf_number {v : Value} {m e : Int} (hv : number v = some (m, e)) :
    keyOf v = .number (m * (10 : ℚ) ^ e) := by
  cases v <;> cases hv <;> simp only [keyOf, number]

theorem sameKey_of_not_number {v w : Value} (hv : hashable v = true) (hw : hashable w = true)
    (hnum : number v = none ∨ number w = none) : sameKey v w = true ↔ keyOf v = keyOf w := by
  cases v <;> cases w <;> simp_all [sameKey, pyEq, keyOf, number, hashable]

theorem sameKey_iff {v w : Value} (hv : hashable v = true) (hw : hashable w = true) :
    sameKey v w = true ↔ keyOf v = keyOf w := by
  cases hnv : number v with
  | none => exact sameKey_of_not_number hv hw (.inl hnv)
  | some p =>
    cases hnw : number w with
    | none => exact sameKey_of_not_number hv hw (.inr hnw)
    | some q =>
      rw [sameKey_numbers hnv hnw, keyOf_number hnv, keyOf_number hnw, decide_eq_true_iff, Key.number.injEq]
      exact decimal_eq_iff p.1 q.1 p.2 q.2

theorem floatIsZero_iff (m e : Int) :
    floatIsZero m e = true ↔ |(m : ℚ) * (10 : ℚ) ^ e| * ((Nat.pow 2 1075 : Nat) : ℚ) ≤ 1 := by
  have hpowers : ∀ k, k ≠ 0 → 1 < Nat.pow 2 k := fun k => Nat.one_lt_two_pow
  have hpow := hpowers 1075 (by decide)
  rw [floatIsZero, decide_eq_true_iff]
  generalize Nat.pow 2 1075 = p at hpow ⊢
  have hp : (1 : ℚ) < p := by exact_mod_cast hpow
  rw [abs_mul, abs_of_pos (zpow_pos (by norm_num : (0 : ℚ) < 10) e)]
  obtain he | he := le_or_gt 0 e
  · have hone : (1 : ℚ) ≤ (10 : ℚ) ^ e := one_le_zpow₀ (by norm_num) he
    have hzero : (-e).toNat = 0 := Int.toNat_of_nonpos (by omega)
    rw [hzero]
    by_cases hm : m = 0
    · simp [hm]
    · have hnat : 1 ≤ m.natAbs := Int.natAbs_pos.mpr hm
      have habs : (1 : ℚ) ≤ |(m : ℚ)| := by exact_mod_cast Int.one_le_abs hm
      refine iff_of_false ?_ ?_
      · have : 1 < m.natAbs * p := lt_of_lt_of_le hpow (Nat.le_mul_of_pos_left p hnat)
        exact not_le.mpr this
      · have hscaled : (1 : ℚ) ≤ |(m : ℚ)| * (10 : ℚ) ^ e := one_le_mul_of_one_le_of_one_le habs hone
        have hlarge : (p : ℚ) ≤ |(m : ℚ)| * (10 : ℚ) ^ e * p := le_mul_of_one_le_left (by linarith) hscaled
        linarith
  · obtain ⟨k, hk⟩ : ∃ k : Nat, e = -(k : Int) := ⟨(-e).toNat, by omega⟩
    have hzero : (-e).toNat = k := by omega
    rw [hzero, hk, zpow_neg, zpow_natCast, mul_assoc, mul_comm _ (p : ℚ), ← mul_assoc, ← div_eq_mul_inv,
      div_le_one (by positivity)]
    have hcast : |(m : ℚ)| = ((m.natAbs : Nat) : ℚ) := by rw [Nat.cast_natAbs, Int.cast_abs]
    rw [hcast]
    exact_mod_cast Iff.rfl

theorem floatIsZero_int (n : Int) : floatIsZero n 0 = true ↔ n = 0 := by
  have hpowers : ∀ k, k ≠ 0 → 1 < Nat.pow 2 k := fun k => Nat.one_lt_two_pow
  have hpow := hpowers 1075 (by decide)
  rw [floatIsZero, decide_eq_true_iff]
  generalize Nat.pow 2 1075 = p at hpow ⊢
  rw [neg_zero, Int.toNat_zero]
  constructor
  · intro h
    by_contra hn
    have hpos : 1 ≤ n.natAbs := Int.natAbs_pos.mpr hn
    have hlarge : p ≤ n.natAbs * p := Nat.le_mul_of_pos_left p hpos
    exact absurd (hlarge.trans h) (by simpa using hpow)
  · rintro rfl
    simp

theorem truthy_number {v : Value} {m e : Int} (hv : number v = some (m, e)) :
    v.truthy = false ↔ floatIsZero m e = true := by
  cases v with
  | float =>
    cases hv
    simp [Value.truthy]
  | bool b =>
    cases hv
    rw [floatIsZero_int]
    cases b <;> simp [Value.truthy]
  | int n =>
    cases hv
    rw [floatIsZero_int]
    simp [Value.truthy]
  | _ => cases hv

theorem truthy_of_keyOf {v w : Value} (hv : hashable v = true) (hw : hashable w = true) (h : keyOf v = keyOf w) :
    v.truthy = w.truthy := by
  cases hnv : number v with
  | some p =>
    cases hnw : number w with
    | some q =>
      rw [keyOf_number hnv, keyOf_number hnw, Key.number.injEq] at h
      have hiff : v.truthy = false ↔ w.truthy = false := by
        rw [truthy_number hnv, truthy_number hnw, floatIsZero_iff, floatIsZero_iff, h]
      cases hvt : v.truthy <;> cases hwt : w.truthy <;> simp_all
    | none => cases v <;> cases w <;> simp_all [number, keyOf, hashable]
  | none => cases v <;> cases w <;> simp_all [number, keyOf, hashable, Value.truthy]

theorem hashable_of_keyOf {v w : Value} (hw : hashable w = true) (h : keyOf v = keyOf w) : hashable v = true := by
  cases v <;> cases w <;> simp_all [keyOf, number, hashable]

variable {v : Value} {xs seen : List Value}

theorem member_iff (hv : hashable v = true) (hxs : ∀ x ∈ xs, hashable x = true) :
    member v xs = true ↔ ∃ x ∈ xs, keyOf x = keyOf v := by
  rw [member, List.any_eq_true]
  constructor
  · rintro ⟨x, hx, hsame⟩
    exact ⟨x, hx, (sameKey_iff (hxs x hx) hv).mp hsame⟩
  · rintro ⟨x, hx, hkey⟩
    exact ⟨x, hx, (sameKey_iff (hxs x hx) hv).mpr hkey⟩

theorem subset_addKey : seen ⊆ addKey seen v := by
  rw [addKey]
  split
  · exact List.Subset.refl seen
  · exact List.subset_append_left seen [v]

theorem mem_addKey {x : Value} (h : x ∈ addKey seen v) : x ∈ seen ∨ x = v := by
  rw [addKey] at h
  split at h
  · exact .inl h
  · simpa using h

theorem subset_foldl_addKey : seen ⊆ xs.foldl addKey seen := by
  induction xs generalizing seen with
  | nil => exact List.Subset.refl seen
  | cons x xs ih => exact List.Subset.trans subset_addKey ih

theorem mem_foldl_addKey (h : v ∈ xs.foldl addKey seen) : v ∈ seen ∨ v ∈ xs := by
  induction xs generalizing seen with
  | nil => exact .inl h
  | cons x xs ih =>
    obtain hadd | hxs := ih h
    · obtain hseen | rfl := mem_addKey hadd
      · exact .inl hseen
      · exact .inr List.mem_cons_self
    · exact .inr (List.mem_cons_of_mem x hxs)

theorem exists_mem_foldl_addKey (hseen : ∀ x ∈ seen, hashable x = true) (hxs : ∀ x ∈ xs, hashable x = true)
    (hv : v ∈ xs) : ∃ y ∈ xs.foldl addKey seen, keyOf y = keyOf v := by
  induction xs generalizing seen with
  | nil => cases hv
  | cons x xs ih =>
    have hx : hashable x = true := hxs x List.mem_cons_self
    obtain rfl | hmem := List.mem_cons.mp hv
    · by_cases hmember : member v seen = true
      · obtain ⟨y, hy, hkey⟩ := (member_iff hx hseen).mp hmember
        exact ⟨y, subset_foldl_addKey hy, hkey⟩
      · have hin : v ∈ addKey seen v := by simp [addKey, hmember]
        have hkept : v ∈ xs.foldl addKey (addKey seen v) := subset_foldl_addKey hin
        exact ⟨v, hkept, rfl⟩
    · refine ih (fun y hy => ?_) (fun y hy => hxs y (List.mem_cons_of_mem x hy)) hmem
      obtain hold | rfl := mem_addKey hy
      · exact hseen y hold
      · exact hx

theorem exists_mem_setOf (hxs : ∀ x ∈ xs, hashable x = true) (hv : v ∈ xs) : ∃ y ∈ setOf xs, keyOf y = keyOf v :=
  exists_mem_foldl_addKey (by simp) hxs hv

theorem mem_of_mem_setOf (h : v ∈ setOf xs) : v ∈ xs := by
  simpa using mem_foldl_addKey h

theorem asKey_eq_ok {w : Value} : asKey v = .ok w ↔ hashable v = true ∧ v = w := by
  rw [asKey]
  split
  · next h => simp [h]
  · next h => simp [h]

section Loops

variable {ε β : Type} {g : Value → Except ε β} {f : Dict → Except ε β} {ys : List β}

theorem dictOf_eq_ok {d : Dict} : dictOf v = .ok d ↔ asDict v = some d := by
  cases v <;> simp [dictOf, asDict]

theorem isDict_of_asDict {d : Dict} (h : asDict v = some d) : isDict v = true := by
  cases v <;> simp_all [asDict, isDict]

/-- A loop whose body begins with a `get` goes through dictionaries. -/
theorem mapM_dicts (hg : ∀ x y, g x = .ok y → ∃ d, asDict x = some d ∧ f d = .ok y) (h : xs.mapM g = .ok ys) :
    (xs.filterMap asDict).mapM f = .ok ys ∧ ∀ x ∈ xs, isDict x = true := by
  induction xs generalizing ys with
  | nil => exact ⟨h, fun x hx => nomatch hx⟩
  | cons x xs ih =>
    rw [List.mapM_cons] at h
    obtain ⟨y, hy, h⟩ := bind_eq_ok.mp h
    obtain ⟨ys, hys, h⟩ := bind_eq_ok.mp h
    cases h
    obtain ⟨d, hdict, hy⟩ := hg x y hy
    obtain ⟨hall, hdicts⟩ := ih hys
    refine ⟨?_, List.forall_mem_cons.mpr ⟨isDict_of_asDict hdict, hdicts⟩⟩
    rw [List.filterMap_cons_some hdict, List.mapM_cons, hy, hall]
    rfl

theorem foldlM_dicts {g : β → Value → Except ε β} {f : β → Dict → Except ε β} {a b : β}
    (hg : ∀ a x b, g a x = .ok b → ∃ d, asDict x = some d ∧ f a d = .ok b) (h : xs.foldlM g a = .ok b) :
    (xs.filterMap asDict).foldlM f a = .ok b ∧ ∀ x ∈ xs, isDict x = true := by
  induction xs generalizing a with
  | nil => exact ⟨h, fun x hx => nomatch hx⟩
  | cons x xs ih =>
    rw [List.foldlM_cons] at h
    obtain ⟨c, hc, h⟩ := bind_eq_ok.mp h
    obtain ⟨d, hdict, hc⟩ := hg a x c hc
    obtain ⟨hall, hdicts⟩ := ih h
    refine ⟨?_, List.forall_mem_cons.mpr ⟨isDict_of_asDict hdict, hdicts⟩⟩
    rw [List.filterMap_cons_some hdict, List.foldlM_cons, hc]
    exact hall

/-- The loop over a value that holds no list has nothing to go through. -/
theorem filterMap_of_iterate (hiter : iterate v = .ok xs) (hdicts : ∀ x ∈ xs, isDict x = true) :
    xs.filterMap asDict = objectsIn v := by
  have hempty : (∀ x ∈ xs, isDict x = false) → xs.filterMap asDict = [] := by
    intro hno
    cases xs with
    | nil => rfl
    | cons x xs => simp [hdicts x List.mem_cons_self] at hno
  cases v with
  | list zs =>
    cases hiter
    rfl
  | str s =>
    cases hiter
    refine hempty fun x hx => ?_
    obtain ⟨c, -, rfl⟩ := List.mem_map.mp hx
    rfl
  | dict d strays =>
    cases hiter
    refine hempty fun x hx => ?_
    obtain ⟨e, -, rfl⟩ := List.mem_map.mp hx
    rfl
  | _ => cases hiter

theorem mapM_objectsIn (hiter : iterate v = .ok xs)
    (hg : ∀ x y, g x = .ok y → ∃ d, asDict x = some d ∧ f d = .ok y) (h : xs.mapM g = .ok ys) :
    (objectsIn v).mapM f = .ok ys := by
  obtain ⟨hall, hdicts⟩ := mapM_dicts hg h
  rwa [← filterMap_of_iterate hiter hdicts]

theorem foldlM_objectsIn {g : β → Value → Except ε β} {f : β → Dict → Except ε β} {a b : β}
    (hiter : iterate v = .ok xs) (hg : ∀ a x b, g a x = .ok b → ∃ d, asDict x = some d ∧ f a d = .ok b)
    (h : xs.foldlM g a = .ok b) : (objectsIn v).foldlM f a = .ok b := by
  obtain ⟨hall, hdicts⟩ := foldlM_dicts hg h
  rwa [← filterMap_of_iterate hiter hdicts]

theorem dictOf_bind_eq_ok {α : Type} {f : Dict → Except PyError α} {a : α} (h : (dictOf v >>= f) = .ok a) :
    ∃ d, asDict v = some d ∧ f d = .ok a := by
  obtain ⟨d, hd, h⟩ := bind_eq_ok.mp h
  exact ⟨d, dictOf_eq_ok.mp hd, h⟩

end Loops

end AlfredProcessing.Tools.Objects
