import Mathlib.Data.List.Nodup

namespace AlfredProcessing.Lib.Keyed

variable {K A : Type*} [DecidableEq K]

/-- Insertion-ordered dictionaries, as lists of entries that carry their own key. -/
def lookup (key : A → K) (k : K) (xs : List A) : Option A :=
  xs.find? fun x => decide (key x = k)

def modify (key : A → K) (k : K) (f : A → A) (xs : List A) : List A :=
  xs.map fun x => if key x = k then f x else x

def erase (key : A → K) (k : K) (xs : List A) : List A :=
  xs.filter fun x => decide (key x ≠ k)

variable {key : A → K} {k : K} {f : A → A} {xs : List A}

theorem lookup_some {x : A} (h : lookup key k xs = some x) : x ∈ xs ∧ key x = k :=
  ⟨List.mem_of_find?_eq_some h, by simpa using List.find?_some h⟩

theorem lookup_none : lookup key k xs = none ↔ ∀ x ∈ xs, key x ≠ k := by
  simp [lookup]

theorem mem_modify {y : A} :
    y ∈ modify key k f xs ↔ (∃ x ∈ xs, key x = k ∧ f x = y) ∨ (y ∈ xs ∧ key y ≠ k) := by
  simp only [modify, List.mem_map]
  constructor
  · rintro ⟨x, hx, he⟩
    by_cases hk : key x = k
    · exact .inl ⟨x, hx, hk, by simpa [hk] using he⟩
    · have hy : x = y := by simpa [hk] using he
      exact .inr ⟨hy ▸ hx, hy ▸ hk⟩
  · rintro (⟨x, hx, hk, he⟩ | ⟨hy, hk⟩)
    · exact ⟨x, hx, by simp [hk, he]⟩
    · exact ⟨y, hy, by simp [hk]⟩

theorem mem_erase {y : A} : y ∈ erase key k xs ↔ y ∈ xs ∧ key y ≠ k := by
  simp [erase]

theorem keys_modify (hf : ∀ x, key (f x) = key x) (xs : List A) :
    (modify key k f xs).map key = xs.map key := by
  simp only [modify, List.map_map]
  refine List.map_congr_left fun x _ => ?_
  by_cases hk : key x = k <;> simp [hk, hf]

theorem erase_of_notMem (h : ∀ x ∈ xs, key x ≠ k) : erase key k xs = xs := by
  simpa [erase] using h

theorem modify_of_notMem (h : ∀ x ∈ xs, key x ≠ k) : modify key k f xs = xs := by
  induction xs with
  | nil => rfl
  | cons x xs ih =>
    obtain ⟨hx, hxs⟩ := List.forall_mem_cons.mp h
    have ht := ih hxs
    simp only [modify] at ht
    simp [modify, hx, ht]

theorem lookup_mem (hn : (xs.map key).Nodup) {x : A} (hx : x ∈ xs) :
    lookup key (key x) xs = some x := by
  induction xs with
  | nil => simp at hx
  | cons y xs ih =>
    obtain ⟨hy, hn⟩ := List.nodup_cons.mp hn
    rcases List.mem_cons.mp hx with rfl | hx
    · simp [lookup]
    · have hne : key y ≠ key x := fun h => hy (h ▸ List.mem_map_of_mem hx)
      have ht := ih hn hx
      simp only [lookup] at ht
      simp [lookup, hne, ht]

theorem countP_concat {B : Type*} (p : B → Bool) (xs : List B) (x : B) :
    (xs ++ [x]).countP p = xs.countP p + (p x).toNat := by
  cases hp : p x <;> simp [List.countP_append, hp]

theorem countP_modify (p : A → Bool) (hn : (xs.map key).Nodup) {x : A} (hx : x ∈ xs) :
    (modify key (key x) f xs).countP p + (p x).toNat = xs.countP p + (p (f x)).toNat := by
  induction xs with
  | nil => simp at hx
  | cons y xs ih =>
    obtain ⟨hy, hn⟩ := List.nodup_cons.mp hn
    rcases List.mem_cons.mp hx with rfl | hx
    · have hrest : ∀ z ∈ xs, key z ≠ key x := fun z hz h => hy (h ▸ List.mem_map_of_mem hz)
      have ht := modify_of_notMem (f := f) hrest
      simp only [modify] at ht
      simp only [modify, List.map_cons, if_true, ht, List.countP_cons]
      cases p x <;> cases p (f x) <;> simp
    · have hne : key y ≠ key x := fun h => hy (h ▸ List.mem_map_of_mem hx)
      have ht := ih hn hx
      simp only [modify] at ht
      simp only [modify, List.map_cons, if_neg hne, List.countP_cons]
      omega

theorem countP_erase (p : A → Bool) (hn : (xs.map key).Nodup) {x : A} (hx : x ∈ xs) :
    (erase key (key x) xs).countP p + (p x).toNat = xs.countP p := by
  induction xs with
  | nil => simp at hx
  | cons y xs ih =>
    obtain ⟨hy, hn⟩ := List.nodup_cons.mp hn
    rcases List.mem_cons.mp hx with rfl | hx
    · have hrest : ∀ z ∈ xs, key z ≠ key x := fun z hz h => hy (h ▸ List.mem_map_of_mem hz)
      have ht := erase_of_notMem hrest
      simp only [erase] at ht
      simp only [erase, ne_eq, not_true_eq_false, decide_false, Bool.false_eq_true,
        not_false_eq_true, List.filter_cons_of_neg, List.countP_cons]
      rw [ht]
      cases p x <;> simp
    · have hne : key y ≠ key x := fun h => hy (h ▸ List.mem_map_of_mem hx)
      have ht := ih hn hx
      simp only [erase, ne_eq] at ht
      simp only [erase, ne_eq, hne, not_false_eq_true, decide_true, List.filter_cons_of_pos,
        List.countP_cons]
      omega

end AlfredProcessing.Lib.Keyed
