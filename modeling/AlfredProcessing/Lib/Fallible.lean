import Mathlib.Data.List.Forall2

namespace AlfredProcessing.Lib.Fallible

variable {ε α β σ : Type} {e : ε}

theorem bind_eq_ok {x : Except ε α} {f : α → Except ε β} {b : β} :
    x >>= f = .ok b ↔ ∃ a, x = .ok a ∧ f a = .ok b := by
  cases x <;> simp [bind, Except.bind]

theorem exists_map_eq_ok {x : Except ε α} {f : α → β} : (∃ b, x.map f = .ok b) ↔ ∃ a, x = .ok a := by
  cases x <;> simp [Except.map]

/-- A mapping that succeeds does so element by element. -/
theorem forall₂_of_mapM_eq_ok {f : α → Except ε β} {xs : List α} {ys : List β}
    (h : xs.mapM f = .ok ys) : List.Forall₂ (fun x y => f x = .ok y) xs ys := by
  induction xs generalizing ys with
  | nil =>
    cases h
    exact .nil
  | cons x xs ih =>
    rw [List.mapM_cons] at h
    obtain ⟨y, hy, h⟩ := bind_eq_ok.mp h
    obtain ⟨ys, hys, h⟩ := bind_eq_ok.mp h
    cases h
    exact .cons hy (ih hys)

theorem exists_of_mapM_eq_ok {f : α → Except ε β} {xs : List α} {ys : List β} {y : β}
    (h : xs.mapM f = .ok ys) (hy : y ∈ ys) : ∃ x ∈ xs, f x = .ok y := by
  have hall := forall₂_of_mapM_eq_ok h
  clear h
  induction hall with
  | nil => exact nomatch hy
  | cons hx _ ih =>
    obtain rfl | hy := List.mem_cons.mp hy
    · exact ⟨_, List.mem_cons_self, hx⟩
    · obtain ⟨x, hmem, hfx⟩ := ih hy
      exact ⟨x, List.mem_cons_of_mem _ hmem, hfx⟩

theorem exists_mapM_eq_ok {f : α → Except ε β} {xs : List α} :
    (∃ ys, xs.mapM f = .ok ys) ↔ ∀ x ∈ xs, ∃ y, f x = .ok y := by
  induction xs with
  | nil => exact iff_of_true ⟨[], rfl⟩ (fun x hx => by cases hx)
  | cons x xs ih =>
    rw [List.forall_mem_cons, ← ih]
    constructor
    · rintro ⟨ys, hys⟩
      rw [List.mapM_cons] at hys
      obtain ⟨y, hy, hys⟩ := bind_eq_ok.mp hys
      obtain ⟨ys, hxs, -⟩ := bind_eq_ok.mp hys
      exact ⟨⟨y, hy⟩, ys, hxs⟩
    · rintro ⟨⟨y, hy⟩, ys, hxs⟩
      refine ⟨y :: ys, ?_⟩
      rw [List.mapM_cons, hy, hxs]
      rfl

theorem mem_of_mapM_eq_ok {f : α → Except ε β} {xs : List α} {ys : List β} {x : α}
    (h : xs.mapM f = .ok ys) (hx : x ∈ xs) : ∃ y ∈ ys, f x = .ok y := by
  have hall := forall₂_of_mapM_eq_ok h
  clear h
  induction hall with
  | nil => cases hx
  | cons hy _ ih =>
    obtain rfl | hx := List.mem_cons.mp hx
    · exact ⟨_, List.mem_cons_self, hy⟩
    · obtain ⟨y, hmem, hfy⟩ := ih hx
      exact ⟨y, List.mem_cons_of_mem _ hmem, hfy⟩

theorem foldlM_keeps {f : σ → α → Except ε σ} {R : σ → σ → Prop} (hrefl : ∀ s, R s s)
    (htrans : ∀ {s s' s''}, R s s' → R s' s'' → R s s'')
    (hstep : ∀ {s a s'}, f s a = .ok s' → R s s') {xs : List α} {s s' : σ}
    (h : xs.foldlM f s = .ok s') : R s s' := by
  induction xs generalizing s with
  | nil =>
    cases h
    exact hrefl _
  | cons x xs ih =>
    rw [List.foldlM_cons] at h
    obtain ⟨t, ht, h⟩ := bind_eq_ok.mp h
    exact htrans (hstep ht) (ih h)

theorem mapM_eq_ok_map {f : α → Except ε β} {g : α → β} {xs : List α} (h : ∀ x ∈ xs, f x = .ok (g x)) :
    xs.mapM f = .ok (xs.map g) := by
  induction xs with
  | nil => rfl
  | cons x xs ih =>
    obtain ⟨hx, hrest⟩ := List.forall_mem_cons.mp h
    rw [List.mapM_cons, hx, ih hrest]
    rfl

/-- A fold whose steps all leave the state as it is. -/
theorem foldlM_eq_ok_self {f : σ → α → Except ε σ} {s : σ} {xs : List α} (h : ∀ x ∈ xs, f s x = .ok s) :
    xs.foldlM f s = .ok s := by
  induction xs with
  | nil => rfl
  | cons x xs ih =>
    obtain ⟨hx, hrest⟩ := List.forall_mem_cons.mp h
    rw [List.foldlM_cons, hx]
    exact ih hrest

end AlfredProcessing.Lib.Fallible
