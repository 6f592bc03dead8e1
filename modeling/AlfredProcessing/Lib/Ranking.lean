import Mathlib.Data.List.Sort

namespace AlfredProcessing.Lib.Ranking

variable {α β : Type}

section Best

variable (r : α → α → Prop)

/-- The first places of a ranking: in order, all of them from what was ranked, as many as there
are, and nothing that was left out comes before any of them. -/
structure Best (xs : List α) (k : Nat) (ys : List α) : Prop where
  ordered : ys.Pairwise r
  among : ys.Subperm xs
  count : ys.length = min k xs.length
  first : ∀ x ∈ xs, x ∉ ys → ∀ y ∈ ys, r y x

variable [DecidableRel r]

def best (k : Nat) (xs : List α) : List α := (xs.insertionSort r).take k

theorem best_best [Std.Total r] [IsTrans α r] (xs : List α) (k : Nat) : Best r xs k (best r k xs) := by
  have hsorted : (xs.insertionSort r).Pairwise r := List.pairwise_insertionSort r xs
  have hperm : (xs.insertionSort r).Perm xs := List.perm_insertionSort r xs
  constructor
  · exact hsorted.sublist (List.take_sublist _ _)
  · exact (List.take_sublist _ _).subperm.trans hperm.subperm
  · rw [best, List.length_take, hperm.length_eq]
  · intro x hx hout y hy
    rw [← List.take_append_drop k (xs.insertionSort r)] at hsorted hperm
    have hrest : x ∈ (xs.insertionSort r).drop k :=
      (List.mem_append.mp (hperm.symm.subset hx)).resolve_left hout
    exact (List.pairwise_append.mp hsorted).2.2 y hy x hrest

end Best

/-- Pairs ranked by the first component, the higher the better, and then by the second. -/
def higher {γ : Type} [LinearOrder γ] (le : β → β → Bool) (a b : γ × β) : Prop :=
  b.1 < a.1 ∨ a.1 = b.1 ∧ le a.2 b.2 = true

section Higher

variable {γ : Type} [LinearOrder γ] {le : β → β → Bool}

instance : DecidableRel (higher (γ := γ) le) := fun a b =>
  inferInstanceAs (Decidable (b.1 < a.1 ∨ a.1 = b.1 ∧ le a.2 b.2 = true))

theorem higher_total (hle : ∀ b b', le b b' = true ∨ le b' b = true) (a b : γ × β) : higher le a b ∨ higher le b a := by
  obtain h | h | h := lt_trichotomy a.1 b.1
  · exact .inr (.inl h)
  · exact (hle a.2 b.2).imp (fun hab => .inr ⟨h, hab⟩) fun hba => .inr ⟨h.symm, hba⟩
  · exact .inl (.inl h)

theorem higher_trans (hle : ∀ b b' b'', le b b' = true → le b' b'' = true → le b b'' = true) {a b c : γ × β}
    (hab : higher le a b) (hbc : higher le b c) : higher le a c := by
  obtain hab | ⟨hab, hab'⟩ := hab
  · obtain hbc | ⟨hbc, -⟩ := hbc
    · exact .inl (hbc.trans hab)
    · exact .inl (hbc ▸ hab)
  · obtain hbc | ⟨hbc, hbc'⟩ := hbc
    · exact .inl (hab.symm ▸ hbc)
    · exact .inr ⟨hab.trans hbc, hle _ _ _ hab' hbc'⟩

end Higher

end AlfredProcessing.Lib.Ranking
