import Mathlib.Data.Option.Basic

namespace AlfredProcessing.Lib.Expiring

structure Entry (α : Type) where
  expiresAt : Nat
  value : α

variable {α β : Type}

def purge (now : Nat) (x : Option (Entry α)) : Option (Entry α) := x.filter (now ≤ ·.expiresAt)

def read (now : Nat) (x : Option (Entry α)) : Option α := (purge now x).map Entry.value

def Entry.map (f : α → β) (e : Entry α) : Entry β := ⟨e.expiresAt, f e.value⟩

theorem purge_map (f : α → β) (now : Nat) (x : Option (Entry α)) :
    purge now (x.map (Entry.map f)) = (purge now x).map (Entry.map f) := Option.filter_map

theorem read_map (f : α → β) (now : Nat) (x : Option (Entry α)) :
    read now (x.map (Entry.map f)) = (read now x).map f := by
  rw [read, read, purge_map, Option.map_map, Option.map_map]
  rfl

theorem purge_eq_some {now : Nat} {x : Option (Entry α)} {e : Entry α} :
    purge now x = some e ↔ x = some e ∧ now ≤ e.expiresAt := by
  rw [purge, Option.filter_eq_some_iff]
  simp

/-- A cell that others share, and the same cell without their writing, as far as one of
those who write there, with the values of `mine`, can tell them apart. -/
structure Agrees (mine : α → Prop) (now : Nat) (shared own : Option (Entry α)) : Prop where
  kept : ∀ e, shared = some e → mine e.value → own = some e
  /-- What is missing in the shared cell has run out, or lies under what lives longer. -/
  known : ∀ e, own = some e → shared = some e ∨ e.expiresAt < now ∨
    ∃ e', shared = some e' ∧ ¬mine e'.value ∧ e.expiresAt ≤ e'.expiresAt

namespace Agrees

variable {mine : α → Prop} {now : Nat} {shared own : Option (Entry α)} {e : Entry α}

theorem rfl : Agrees mine now own own := ⟨fun _ h _ => h, fun _ h => .inl h⟩

theorem later (h : Agrees mine now shared own) {later : Nat} (hle : now ≤ later) :
    Agrees mine later shared own where
  kept := h.kept
  known e he := by
    obtain h | h | h := h.known e he
    · exact .inl h
    · exact .inr (.inl (by omega))
    · exact .inr (.inr h)

/-- Who finds nothing of others in the shared cell finds what there is without them. -/
theorem read_eq (h : Agrees mine now shared own) (hmine : ∀ v, read now shared = some v → mine v) :
    read now shared = read now own := by
  have hread {e : Entry α} (hs : shared = some e) (hlive : now ≤ e.expiresAt) : mine e.value :=
    hmine _ (by rw [read, purge_eq_some.mpr ⟨hs, hlive⟩, Option.map_some])
  have hpurge : purge now shared = purge now own := by
    ext e
    rw [purge_eq_some, purge_eq_some]
    constructor
    · rintro ⟨hs, hlive⟩
      exact ⟨h.kept e hs (hread hs hlive), hlive⟩
    · rintro ⟨ho, hlive⟩
      obtain hs | hdead | ⟨e', hs, hother, hle⟩ := h.known e ho
      · exact ⟨hs, hlive⟩
      · omega
      · exact absurd (hread hs (by omega)) hother
  rw [read, hpurge, read]

theorem purge_shared (h : Agrees mine now shared own) : Agrees mine now (purge now shared) own where
  kept e he := h.kept e (purge_eq_some.mp he).1
  known e he := by
    by_cases hlive : now ≤ e.expiresAt
    · obtain hs | hdead | ⟨e', hs, hother, hle⟩ := h.known e he
      · exact .inl (purge_eq_some.mpr ⟨hs, hlive⟩)
      · exact .inr (.inl hdead)
      · exact .inr (.inr ⟨e', purge_eq_some.mpr ⟨hs, by omega⟩, hother, hle⟩)
    · exact .inr (.inl (by omega))

theorem purge_both (h : Agrees mine now shared own) :
    Agrees mine now (purge now shared) (purge now own) where
  kept e he hm := by
    obtain ⟨hs, hlive⟩ := purge_eq_some.mp he
    exact purge_eq_some.mpr ⟨h.kept e hs hm, hlive⟩
  known e he := h.purge_shared.known e (purge_eq_some.mp he).1

/-- Others may write over what does not live longer. -/
theorem put_other (he : ¬mine e.value) (hle : ∀ e', own = some e' → e'.expiresAt ≤ e.expiresAt) :
    Agrees mine now (some e) own where
  kept e' heq hm := by
    cases heq
    exact absurd hm he
  known e' ho := .inr (.inr ⟨e, Eq.refl _, he, hle e' ho⟩)

end Agrees

end AlfredProcessing.Lib.Expiring
