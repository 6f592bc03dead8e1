import Mathlib.Data.List.Basic

namespace AlfredProcessing.Lib.Joined

variable {α : Type*} {m n x y x' y' : List α}

/-- `x` and `y` around `m` are also `x'` and `y'` around it, where `x'` reaches further: past
the whole of `m`, or into it where `m` overlaps itself. -/
def Reaches (m x y x' y' : List α) : Prop :=
  (∃ q, x' = x ++ m ++ q ∧ y = q ++ m ++ y') ∨
    ∃ p r q, p ≠ [] ∧ r ≠ [] ∧ m = p ++ r ∧ m = r ++ q ∧ x' = x ++ p ∧ y = q ++ y'

theorem reaches_of_append {p : List α} (hp : p ≠ []) (h : m ++ y = p ++ (m ++ y')) :
    Reaches m x y (x ++ p) y' := by
  obtain ⟨q, rfl, rfl⟩ | ⟨r, rfl, hr⟩ := List.append_eq_append_iff.mp h
  · exact .inl ⟨q, by simp, by simp⟩
  · by_cases hne : r = []
    · subst hne
      rw [List.append_nil] at hr ⊢
      exact .inl ⟨[], by simp, by simpa using hr.symm⟩
    · obtain ⟨s, hs, -⟩ | ⟨q, hq, rfl⟩ := List.append_eq_append_iff.mp hr
      · have hlen := congrArg List.length hs
        have hpos := List.length_pos_of_ne_nil hp
        simp only [List.length_append] at hlen
        omega
      · exact .inr ⟨p, r, q, hp, hne, rfl, hq, rfl, rfl⟩

theorem Reaches.append_eq (h : Reaches m x y x' y') : x ++ m ++ y = x' ++ m ++ y' := by
  obtain ⟨q, rfl, rfl⟩ | ⟨p, r, q, -, -, hpr, hrq, rfl, rfl⟩ := h
  · simp only [List.append_assoc]
  · have hleft : x ++ m ++ (q ++ y') = x ++ p ++ (r ++ q) ++ y' := by
      rw [hpr]
      simp only [List.append_assoc]
    rw [hleft, ← hrq]

theorem joined_eq_iff : x ++ m ++ y = x' ++ m ++ y' ↔
    (x = x' ∧ y = y') ∨ Reaches m x y x' y' ∨ Reaches m x' y' x y := by
  constructor
  · intro h
    rw [List.append_assoc, List.append_assoc] at h
    obtain ⟨p, rfl, hp⟩ | ⟨p, rfl, hp⟩ := List.append_eq_append_iff.mp h
    · by_cases hne : p = []
      · subst hne
        exact .inl ⟨by simp, List.append_cancel_left hp⟩
      · exact .inr (.inl (reaches_of_append hne hp))
    · by_cases hne : p = []
      · subst hne
        exact .inl ⟨by simp, (List.append_cancel_left hp).symm⟩
      · exact .inr (.inr (reaches_of_append hne hp))
  · rintro (⟨rfl, rfl⟩ | h | h)
    · rfl
    · exact h.append_eq
    · exact h.append_eq.symm

theorem joined_eq_append_iff : x ++ m ++ y = x' ++ n ↔
    (∃ q, x' = x ++ m ++ q ∧ y = q ++ n) ∨
      (∃ p r, r ≠ [] ∧ m = p ++ r ∧ n = r ++ y ∧ x' = x ++ p) ∨
      ∃ q, q ≠ [] ∧ x = x' ++ q ∧ n = q ++ m ++ y := by
  constructor
  · intro h
    rw [List.append_assoc] at h
    obtain ⟨p, rfl, hp⟩ | ⟨q, rfl, hq⟩ := List.append_eq_append_iff.mp h
    · obtain ⟨q, rfl, rfl⟩ | ⟨r, rfl, rfl⟩ := List.append_eq_append_iff.mp hp
      · exact .inl ⟨q, by simp, rfl⟩
      · by_cases hne : r = []
        · subst hne
          exact .inl ⟨[], by simp, by simp⟩
        · exact .inr (.inl ⟨p, r, hne, rfl, rfl, rfl⟩)
    · by_cases hne : q = []
      · subst hne
        by_cases hm : m = []
        · subst hm
          exact .inl ⟨[], by simp, by simpa using hq.symm⟩
        · exact .inr (.inl ⟨[], m, hm, rfl, by simpa using hq, by simp⟩)
      · exact .inr (.inr ⟨q, hne, rfl, by simpa using hq⟩)
  · rintro (⟨q, rfl, rfl⟩ | ⟨p, r, -, rfl, rfl, rfl⟩ | ⟨q, -, rfl, rfl⟩)
    · simp only [List.append_assoc]
    · simp only [List.append_assoc]
    · simp only [List.append_assoc]

theorem border_eq {k : Nat} {p r q : List α} (hk : ∀ i < m.length, 0 < i → m.drop i = m.take (m.length - i) → i = k)
    (hp : p ≠ []) (hr : r ≠ []) (hpr : m = p ++ r) (hrq : m = r ++ q) :
    p = m.take k ∧ r = m.drop k ∧ q = m.drop (m.length - k) := by
  have hlen : p.length + r.length = m.length := by rw [hpr, List.length_append]
  have hppos := List.length_pos_of_ne_nil hp
  have hrpos := List.length_pos_of_ne_nil hr
  have htake : m.take p.length = p := by rw [hpr, List.take_left]
  have hdrop : m.drop p.length = r := by rw [hpr, List.drop_left]
  have hrlen : m.length - p.length = r.length := by omega
  have hback : m.take (m.length - p.length) = r := by
    rw [hrlen]
    nth_rewrite 1 [hrq]
    exact List.take_left
  have hkp : p.length = k := hk _ (by omega) hppos (hdrop.trans hback.symm)
  refine ⟨?_, ?_, ?_⟩
  · rw [← hkp, htake]
  · rw [← hkp, hdrop]
  · rw [← hkp, hrlen]
    nth_rewrite 1 [hrq]
    exact (List.drop_left).symm

end AlfredProcessing.Lib.Joined
