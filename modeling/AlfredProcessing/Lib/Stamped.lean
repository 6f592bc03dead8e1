import AlfredProcessing.Lib.Fallible

namespace AlfredProcessing.Lib.Stamped

variable {W S V ε : Type}

/-- What was read of a world, and the stamp that the world had then. -/
structure Kept (S V : Type) where
  stamp : S
  value : V

section Fetch

variable (stamp : W → S) (read : W → Except ε V) (usable : V → Bool)

/-- A usable value is kept for as long as the stamp stays; otherwise it is read again. A reading
that fails leaves what was kept. -/
def fetch [DecidableEq S] (kept : Kept S V) (w : W) : Except ε V × Kept S V :=
  if stamp w = kept.stamp ∧ usable kept.value then (.ok kept.value, kept)
  else
    match read w with
    | .ok v => (.ok v, ⟨stamp w, v⟩)
    | .error e => (.error e, kept)

/-- The usable value was read of one of the worlds. -/
def Vouched (seen : List W) (kept : Kept S V) : Prop :=
  usable kept.value → ∃ w ∈ seen, stamp w = kept.stamp ∧ read w = .ok kept.value

end Fetch

variable {stamp : W → S} {read : W → Except ε V} {usable : V → Bool} {seen : List W} {kept : Kept S V} {w : W}

theorem Vouched.mono {seen' : List W} (h : Vouched stamp read usable seen kept) (hsub : seen ⊆ seen') :
    Vouched stamp read usable seen' kept := by
  intro husable
  obtain ⟨w, hw, hstamp, hread⟩ := h husable
  exact ⟨w, hsub hw, hstamp, hread⟩

variable [DecidableEq S]

theorem fetch_cases (stamp : W → S) (read : W → Except ε V) (usable : V → Bool) (kept : Kept S V) (w : W) :
    (stamp w = kept.stamp ∧ usable kept.value ∧ fetch stamp read usable kept w = (.ok kept.value, kept)) ∨
      (∃ v, read w = .ok v ∧ fetch stamp read usable kept w = (.ok v, ⟨stamp w, v⟩)) ∨
      ∃ e, read w = .error e ∧ fetch stamp read usable kept w = (.error e, kept) := by
  unfold fetch
  by_cases hkept : stamp w = kept.stamp ∧ usable kept.value
  · exact .inl ⟨hkept.1, hkept.2, if_pos hkept⟩
  · rw [if_neg hkept]
    cases h : read w with
    | ok v => exact .inr (.inl ⟨v, rfl, rfl⟩)
    | error e => exact .inr (.inr ⟨e, rfl, rfl⟩)

theorem Vouched.fetch (h : Vouched stamp read usable seen kept) (hw : w ∈ seen) :
    Vouched stamp read usable seen (fetch stamp read usable kept w).2 := by
  obtain ⟨-, -, heq⟩ | ⟨v, hv, heq⟩ | ⟨e, -, heq⟩ := fetch_cases stamp read usable kept w
  · rw [heq]
    exact h
  · rw [heq]
    exact fun _ => ⟨w, hw, rfl, hv⟩
  · rw [heq]
    exact h

theorem Vouched.exists_read (h : Vouched stamp read usable seen kept) (hw : w ∈ seen) :
    ∃ w' ∈ seen, stamp w' = stamp w ∧ read w' = (Stamped.fetch stamp read usable kept w).1 := by
  obtain ⟨hstamp, husable, heq⟩ | ⟨v, hv, heq⟩ | ⟨e, he, heq⟩ := fetch_cases stamp read usable kept w
  · obtain ⟨w', hw', hstamp', hread⟩ := h husable
    rw [heq]
    exact ⟨w', hw', hstamp'.trans hstamp.symm, hread⟩
  · rw [heq]
    exact ⟨w, hw, rfl, hv⟩
  · rw [heq]
    exact ⟨w, hw, rfl, he⟩

theorem fetch_again {v : V} {kept' : Kept S V} (h : fetch stamp read usable kept w = (.ok v, kept')) :
    fetch stamp read usable kept' w = (.ok v, kept') := by
  obtain ⟨hstamp, husable, heq⟩ | ⟨v', hv', heq⟩ | ⟨e, -, heq⟩ := fetch_cases stamp read usable kept w
  · cases heq.symm.trans h
    exact heq
  · cases heq.symm.trans h
    unfold fetch
    split
    · rfl
    · rw [hv']
  · cases heq.symm.trans h

end AlfredProcessing.Lib.Stamped
