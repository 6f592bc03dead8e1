import Mathlib.Data.Finset.Card
import Mathlib.Data.List.Nodup

namespace AlfredProcessing.Lib.Placing

variable {α β : Type*} [DecidableEq β] (key : α → Option β)

/-- An item is placed behind the others when it has a key that none of them has. -/
def place (out : List α) (x : α) : List α :=
  match key x with
  | some b => if b ∈ out.filterMap key then out else out ++ [x]
  | none => out

def placeAll (out xs : List α) : List α := xs.foldl (place key) out

/-- One of each in turn, and the rest of the longer list. -/
def interleave : List α → List α → List α
  | [], ys => ys
  | xs, [] => xs
  | x :: xs, y :: ys => x :: y :: interleave xs ys

variable {key} {out xs ys : List α} {x : α} {b : β} {k : Nat}

theorem interleave_eq (xs ys : List α) :
    interleave xs ys = xs.head?.toList ++ ys.head?.toList ++ interleave xs.tail ys.tail := by
  cases xs with
  | nil => cases ys <;> rfl
  | cons x xs =>
    cases ys with
    | nil => cases xs <;> rfl
    | cons y ys => rfl

theorem interleave_perm (xs ys : List α) : (interleave xs ys).Perm (xs ++ ys) := by
  induction xs generalizing ys with
  | nil => exact .refl ys
  | cons x xs ih =>
    cases ys with
    | nil => exact .of_eq (List.append_nil _).symm
    | cons y ys =>
      refine .cons x (((ih ys).cons y).trans ?_)
      exact List.perm_middle.symm

theorem placeAll_append (out xs ys : List α) : placeAll key out (xs ++ ys) = placeAll key (placeAll key out xs) ys :=
  List.foldl_append

theorem prefix_place : out <+: place key out x := by
  unfold place
  split
  · split_ifs
    · exact List.prefix_rfl
    · exact List.prefix_append _ _
  · exact List.prefix_rfl

theorem prefix_placeAll (key : α → Option β) (out xs : List α) : out <+: placeAll key out xs := by
  induction xs generalizing out with
  | nil => exact List.prefix_rfl
  | cons x xs ih => exact prefix_place.trans (ih _)

theorem take_placeAll (h : k ≤ out.length) : (placeAll key out xs).take k = out.take k := by
  obtain ⟨rest, hrest⟩ := prefix_placeAll key out xs
  rw [← hrest, List.take_append_of_le_length h]

theorem length_placeAll_le (key : α → Option β) (out xs : List α) : (placeAll key out xs).length ≤ out.length + xs.length := by
  induction xs generalizing out with
  | nil => exact le_rfl
  | cons x xs ih =>
    have hplace : (place key out x).length ≤ out.length + 1 := by
      unfold place
      split
      · split_ifs
        · omega
        · simp
      · omega
    have hrest := ih (place key out x)
    rw [List.length_cons]
    change (placeAll key (place key out x) xs).length ≤ _
    omega

theorem mem_place : b ∈ (place key out x).filterMap key ↔ b ∈ out.filterMap key ∨ key x = some b := by
  unfold place
  cases hx : key x with
  | none => simp
  | some c =>
    dsimp only
    split_ifs with hc
    · constructor
      · exact .inl
      · rintro (h | h)
        · exact h
        · rwa [← Option.some.inj h]
    · rw [List.filterMap_append, List.mem_append, List.filterMap_cons_some hx, List.filterMap_nil, List.mem_singleton,
        Option.some.injEq, eq_comm (a := b)]

theorem mem_placeAll : b ∈ (placeAll key out xs).filterMap key ↔ b ∈ out.filterMap key ∨ b ∈ xs.filterMap key := by
  induction xs generalizing out with
  | nil => simp [placeAll]
  | cons x xs ih =>
    change b ∈ (placeAll key (place key out x) xs).filterMap key ↔ _
    rw [ih, mem_place, or_assoc]
    cases hx : key x with
    | none => simp [hx]
    | some c => simp [hx, eq_comm]

theorem nodup_place (h : (out.filterMap key).Nodup) : ((place key out x).filterMap key).Nodup := by
  unfold place
  cases hx : key x with
  | none => exact h
  | some c =>
    dsimp only
    split_ifs with hc
    · exact h
    · rw [List.filterMap_append, List.filterMap_cons_some hx, List.filterMap_nil]
      exact List.nodup_append.mpr ⟨h, List.nodup_singleton _, fun a ha b hb hab =>
        hc (List.mem_singleton.mp hb ▸ hab ▸ ha)⟩

theorem nodup_placeAll (h : (out.filterMap key).Nodup) : ((placeAll key out xs).filterMap key).Nodup := by
  induction xs generalizing out with
  | nil => exact h
  | cons x xs ih => exact ih (nodup_place h)

theorem mem_of_mem_place {y : α} (h : y ∈ place key out x) : y ∈ out ∨ y = x := by
  unfold place at h
  split at h
  · split_ifs at h
    · exact .inl h
    · obtain h | h := List.mem_append.mp h
      · exact .inl h
      · exact .inr (List.mem_singleton.mp h)
  · exact .inl h

theorem mem_of_mem_placeAll_from {y : α} (h : y ∈ placeAll key out xs) : y ∈ out ∨ y ∈ xs := by
  induction xs generalizing out with
  | nil => exact .inl h
  | cons x xs ih =>
    obtain h | h := ih h
    · obtain h | rfl := mem_of_mem_place h
      · exact .inl h
      · exact .inr List.mem_cons_self
    · exact .inr (List.mem_cons_of_mem _ h)

theorem mem_of_mem_placeAll {y : α} (h : y ∈ placeAll key [] xs) : y ∈ xs :=
  (mem_of_mem_placeAll_from h).resolve_left List.not_mem_nil

theorem key_place (h : ∀ y ∈ out, (key y).isSome) : ∀ y ∈ place key out x, (key y).isSome := by
  unfold place
  cases hx : key x with
  | none => exact h
  | some c =>
    dsimp only
    split_ifs
    · exact h
    · intro y hy
      obtain hy | hy := List.mem_append.mp hy
      · exact h y hy
      · rw [List.mem_singleton.mp hy, hx]
        rfl

theorem key_placeAll (h : ∀ y ∈ out, (key y).isSome) : ∀ y ∈ placeAll key out xs, (key y).isSome := by
  induction xs generalizing out with
  | nil => exact h
  | cons x xs ih => exact ih (key_place h)

omit [DecidableEq β] in
theorem length_filterMap_of_isSome (h : ∀ y ∈ out, (key y).isSome) : (out.filterMap key).length = out.length := by
  induction out with
  | nil => rfl
  | cons y out ih =>
    obtain ⟨hy, hout⟩ := List.forall_mem_cons.mp h
    obtain ⟨b, hb⟩ := Option.isSome_iff_exists.mp hy
    rw [List.filterMap_cons_some hb, List.length_cons, List.length_cons, ih hout]

theorem length_placeAll_nil (xs : List α) : (placeAll key [] xs).length = (xs.filterMap key).toFinset.card := by
  have hnodup : ((placeAll key [] xs).filterMap key).Nodup := by
    apply nodup_placeAll
    exact List.nodup_nil
  have hsame : ((placeAll key [] xs).filterMap key).toFinset = (xs.filterMap key).toFinset := by
    ext b
    rw [List.mem_toFinset, List.mem_toFinset, mem_placeAll]
    exact or_iff_right List.not_mem_nil
  rw [← hsame, List.toFinset_card_of_nodup hnodup,
    length_filterMap_of_isSome (key_placeAll (List.forall_mem_nil _))]

theorem mem_take_placeAll (h : ys.length < k) (hx : key x = some b) (xs : List α) :
    b ∈ ((placeAll key [] (ys ++ x :: xs)).take k).filterMap key := by
  have hsplit : ys ++ x :: xs = ys ++ [x] ++ xs := by rw [List.append_assoc, List.singleton_append]
  have hlength := length_placeAll_le key [] (ys ++ [x])
  rw [List.length_append, List.length_singleton, List.length_nil] at hlength
  obtain ⟨rest, hrest⟩ := prefix_placeAll key (placeAll key [] (ys ++ [x])) xs
  rw [hsplit, placeAll_append, ← hrest, List.take_append, List.take_of_length_le (by omega), List.filterMap_append]
  refine List.mem_append_left _ (mem_placeAll.mpr (.inr ?_))
  rw [List.filterMap_append, List.filterMap_cons_some hx]
  exact List.mem_append_right _ List.mem_cons_self

end AlfredProcessing.Lib.Placing
