import Mathlib.Data.List.Basic
import Mathlib.Tactic.Common

namespace AlfredProcessing.Lib.Fill

variable {α : Type}

/-- Texts that were put into some room: those that fit, the room that is left, and the number
of texts from the first one on that did not fit. -/
structure Placed (α : Type) where
  texts : List (List α)
  room : Int
  left : Nat

/-- Every text takes its length and one more. -/
def place : List (List α) → Int → Placed α
  | [], room => ⟨[], room, 0⟩
  | t :: ts, room =>
    if room < t.length + 1 then ⟨[], room, ts.length + 1⟩
    else
      let rest := place ts (room - (t.length + 1))
      { rest with texts := t :: rest.texts }

def placeAll : List (List (List α)) → Int → List (Placed α)
  | [], _ => []
  | g :: gs, room => place g room :: placeAll gs (place g room).room

def unspent : List (List (List α)) → Int → Int
  | [], room => room
  | g :: gs, room => unspent gs (place g room).room

def placed (gs : List (List (List α))) (room : Int) : List (List α) :=
  (placeAll gs room).flatMap Placed.texts

def cost (ts : List (List α)) : Nat := ts.flatten.length + ts.length

variable {t : List α} {ts : List (List α)} {gs : List (List (List α))} {room : Int}

@[simp] theorem cost_nil : cost ([] : List (List α)) = 0 := rfl

@[simp] theorem cost_cons : cost (t :: ts) = t.length + 1 + cost ts := by
  simp only [cost, List.flatten_cons, List.length_append, List.length_cons]
  omega

@[simp] theorem cost_append (ts us : List (List α)) : cost (ts ++ us) = cost ts + cost us := by
  simp only [cost, List.flatten_append, List.length_append]
  omega

theorem place_cons_of_lt (h : room < t.length + 1) : place (t :: ts) room = ⟨[], room, ts.length + 1⟩ := by
  rw [place, if_pos h]

theorem place_cons_of_le (h : (t.length : Int) + 1 ≤ room) : place (t :: ts) room =
    { place ts (room - (t.length + 1)) with texts := t :: (place ts (room - (t.length + 1))).texts } := by
  rw [place, if_neg (by omega)]

theorem place_room (ts : List (List α)) (room : Int) :
    (cost (place ts room).texts : Int) + (place ts room).room = room := by
  induction ts generalizing room with
  | nil => simp [place]
  | cons t ts ih =>
    by_cases h : room < t.length + 1
    · simp [place_cons_of_lt h]
    · rw [place_cons_of_le (by omega)]
      have := ih (room - (t.length + 1))
      simp only [cost_cons]
      push_cast
      omega

theorem place_left (ts : List (List α)) (room : Int) :
    (place ts room).texts.length + (place ts room).left = ts.length := by
  induction ts generalizing room with
  | nil => rfl
  | cons t ts ih =>
    by_cases h : room < t.length + 1
    · simp [place_cons_of_lt h]
    · rw [place_cons_of_le (by omega)]
      have := ih (room - (t.length + 1))
      simp only [List.length_cons]
      omega

theorem place_room_nonneg (h : 0 ≤ room ∨ (place ts room).texts ≠ []) : 0 ≤ (place ts room).room := by
  induction ts generalizing room with
  | nil =>
    obtain h | h := h
    · exact h
    · exact absurd rfl h
  | cons t ts ih =>
    by_cases hlt : room < t.length + 1
    · rw [place_cons_of_lt hlt] at h ⊢
      obtain h | h := h
      · exact h
      · exact absurd rfl h
    · rw [place_cons_of_le (by omega)]
      exact ih (.inl (by omega))

theorem place_left_le_one : (place ts room).left ≤ 1 ↔ ts.length ≤ 1 ∨ (cost ts.dropLast : Int) ≤ room := by
  induction ts generalizing room with
  | nil => simp [place]
  | cons t ts ih =>
    by_cases h : room < t.length + 1
    · rw [place_cons_of_lt h]
      cases ts with
      | nil => simp
      | cons u us =>
        simp only [List.length_cons, List.dropLast_cons_cons, cost_cons]
        omega
    · rw [place_cons_of_le (by omega)]
      simp only [ih]
      cases ts with
      | nil => simp
      | cons u us =>
        simp only [List.dropLast_cons_cons, cost_cons]
        cases us with
        | nil =>
          simp
          omega
        | cons w us =>
          simp only [List.length_cons]
          omega

theorem placed_cons (g : List (List α)) (gs : List (List (List α))) (room : Int) :
    placed (g :: gs) room = (place g room).texts ++ placed gs (place g room).room := rfl

theorem placed_room (gs : List (List (List α))) (room : Int) :
    (cost (placed gs room) : Int) + unspent gs room = room := by
  induction gs generalizing room with
  | nil => simp [placed, placeAll, unspent]
  | cons g gs ih =>
    have hg := place_room g room
    have hgs := ih (place g room).room
    rw [placed_cons, cost_append, unspent]
    push_cast
    omega

theorem unspent_nonneg (h : 0 ≤ room ∨ placed gs room ≠ []) : 0 ≤ unspent gs room := by
  induction gs generalizing room with
  | nil =>
    obtain h | h := h
    · exact h
    · exact absurd rfl h
  | cons g gs ih =>
    rw [placed_cons] at h
    rw [unspent]
    by_cases hg : (place g room).texts = []
    · rw [hg, List.nil_append] at h
      obtain h | h := h
      · exact ih (.inl (place_room_nonneg (.inl h)))
      · exact ih (.inr h)
    · exact ih (.inl (place_room_nonneg (.inr hg)))

def join (sep : List α) (ts : List (List α)) : List α := (ts.intersperse sep).flatten

theorem length_join (sep : List α) (ts : List (List α)) :
    (join sep ts).length = ts.flatten.length + (ts.length - 1) * sep.length := by
  induction ts with
  | nil => simp [join]
  | cons t ts ih =>
    cases ts with
    | nil => simp [join]
    | cons u us =>
      simp only [join, List.intersperse_cons_cons, List.flatten_cons, List.length_append] at ih ⊢
      rw [ih]
      simp only [List.length_cons, Nat.add_sub_cancel]
      rw [Nat.add_mul]
      omega

theorem join_append (sep : List α) {ts us : List (List α)} (hts : ts ≠ []) (hus : us ≠ []) :
    join sep (ts ++ us) = join sep ts ++ sep ++ join sep us := by
  induction ts with
  | nil => exact absurd rfl hts
  | cons t ts ih =>
    cases ts with
    | nil =>
      obtain ⟨u, us, rfl⟩ := List.exists_cons_of_ne_nil hus
      simp [join]
    | cons w ts =>
      have htail := ih (by simp)
      simp only [join, List.cons_append, List.intersperse_cons_cons, List.flatten_cons] at htail ⊢
      rw [htail]
      simp only [List.append_assoc]

theorem join_concat (sep : List α) (hne : ts ≠ []) (t : List α) : join sep (ts ++ [t]) = join sep ts ++ sep ++ t := by
  rw [join_append sep hne (List.cons_ne_nil t []), show join sep [t] = t by simp [join]]

theorem length_join_placed {sep : List α} {n : Nat} (hlen : (placed gs room).length = n + 1) :
    ((join sep (placed gs room)).length : Int) ≤ room ↔ ((n * sep.length : Nat) : Int) ≤ unspent gs room + (n + 1) := by
  have hroom := placed_room gs room
  rw [cost, hlen] at hroom
  rw [length_join, hlen, Nat.add_sub_cancel]
  omega

end AlfredProcessing.Lib.Fill
