import Mathlib.Data.List.Basic
import Mathlib.Data.List.DropRight

namespace AlfredProcessing.Lib.Substitute

/-- A pattern: the length of its match at a position, given the character
before the position and the text behind it. -/
abbrev Pattern := Option Char → List Char → Option Nat

/-- `re.sub` from a position on, for a pattern that matches no empty text. The
first `skip` characters belong to the match before the position. -/
def subFrom (p : Pattern) (repl : List Char) : Option Char → Nat → List Char → List Char
  | _, _, [] => []
  | _, skip + 1, c :: cs => subFrom p repl (some c) skip cs
  | prev, 0, c :: cs =>
    match p prev (c :: cs) with
    | some (n + 1) => repl ++ subFrom p repl (some c) n cs
    | _ => c :: subFrom p repl (some c) 0 cs

def sub (p : Pattern) (repl cs : List Char) : List Char := subFrom p repl none 0 cs

def Forward (p : Pattern) : Prop := ∀ prev prev' cs, p prev cs = p prev' cs

variable {p : Pattern} {repl cs ds : List Char} {c : Char} {prev prev' : Option Char} {n : Nat}

@[simp] theorem subFrom_nil (n : Nat) : subFrom p repl prev n [] = [] := by
  cases n <;> rfl

@[simp] theorem subFrom_skip :
    subFrom p repl prev (n + 1) (c :: cs) = subFrom p repl (some c) n cs := rfl

theorem subFrom_keep (h : p prev (c :: cs) = none) :
    subFrom p repl prev 0 (c :: cs) = c :: subFrom p repl (some c) 0 cs := by
  simp [subFrom, h]

theorem subFrom_match (h : p prev (c :: cs) = some (n + 1)) :
    subFrom p repl prev 0 (c :: cs) = repl ++ subFrom p repl (some c) n cs := by
  simp [subFrom, h]

theorem Forward.subFrom (hp : Forward p) :
    Substitute.subFrom p repl prev n cs = Substitute.subFrom p repl prev' n cs := by
  cases cs with
  | nil => simp
  | cons c cs =>
    cases n with
    | zero => simp only [Substitute.subFrom, hp prev prev']
    | succ n => rfl

theorem Forward.subFrom_append (hp : Forward p) (ds : List Char) :
    Substitute.subFrom p repl prev ds.length (ds ++ cs) = Substitute.subFrom p repl prev' 0 cs := by
  induction ds generalizing prev with
  | nil => exact hp.subFrom
  | cons d ds ih => simpa using ih

/-- No match of the pattern goes over the character. -/
def Avoids (p : Pattern) (c : Char) : Prop :=
  ∀ prev cs n, p prev cs = some n → c ∉ cs.take n

/-- What stands before a character that no match goes over is substituted on its own. -/
theorem Avoids.subFrom_append (hp : Avoids p c) (h : c ∉ (ds ++ c :: cs).take n) :
    ∃ ds' prev', Substitute.subFrom p [] prev n (ds ++ c :: cs) =
      ds' ++ Substitute.subFrom p [] prev' 0 (c :: cs) ∧ ds' ⊆ ds := by
  induction ds generalizing prev n with
  | nil =>
    cases n with
    | zero => exact ⟨[], prev, rfl, List.Subset.refl []⟩
    | succ n => exact absurd (List.mem_cons_self) h
  | cons d ds ih =>
    have hcons {es : List Char} (hes : es ⊆ ds) : es ⊆ d :: ds := List.Subset.trans hes (List.subset_cons_self d ds)
    cases n with
    | succ n =>
      obtain ⟨ds', prev', hrun, hsub⟩ := ih (fun hmem => h (List.mem_cons_of_mem d hmem))
      exact ⟨ds', prev', hrun, hcons hsub⟩
    | zero =>
      cases hm : p prev (d :: ds ++ c :: cs) with
      | none =>
        obtain ⟨ds', prev', hrun, hsub⟩ := @ih (some d) 0 (by simp)
        refine ⟨d :: ds', prev', ?_, List.cons_subset_cons d hsub⟩
        rw [List.cons_append] at hm ⊢
        rw [subFrom_keep hm, hrun, List.cons_append]
      | some m =>
        have hfree := hp prev _ m hm
        cases m with
        | zero =>
          obtain ⟨ds', prev', hrun, hsub⟩ := @ih (some d) 0 (by simp)
          refine ⟨d :: ds', prev', ?_, List.cons_subset_cons d hsub⟩
          rw [List.cons_append] at hm ⊢
          rw [Substitute.subFrom, hm]
          exact congrArg (List.cons d) hrun
        | succ m =>
          obtain ⟨ds', prev', hrun, hsub⟩ := @ih (some d) m (fun hmem => hfree (List.mem_cons_of_mem d hmem))
          refine ⟨ds', prev', ?_, hcons hsub⟩
          rw [List.cons_append] at hm ⊢
          rw [subFrom_match hm, List.nil_append, hrun]

/-- The pattern matches at no position of `ds` in front of `cs`. -/
def quiet (p : Pattern) (cs : List Char) : List Char → Bool
  | [] => true
  | d :: ds => (p none (d :: ds ++ cs)).isNone && quiet p cs ds

/-- A match is a whole segment, and a segment without a match has none inside. -/
def Cuts {α : Type} (p : Pattern) (view : α → List Char) (hit : α → Bool) : List α → Prop
  | [] => True
  | x :: xs =>
    (if hit x then view x ≠ [] ∧ p none (view x ++ xs.flatMap view) = some (view x).length
      else quiet p (xs.flatMap view) (view x)) ∧ Cuts p view hit xs

theorem Forward.subFrom_quiet (hp : Forward p) (h : quiet p cs ds) :
    Substitute.subFrom p repl prev 0 (ds ++ cs) = ds ++ Substitute.subFrom p repl none 0 cs := by
  induction ds generalizing prev with
  | nil => exact hp.subFrom
  | cons d ds ih =>
    rw [quiet, Bool.and_eq_true, Option.isNone_iff_eq_none] at h
    have hmiss : p prev (d :: (ds ++ cs)) = none := by
      rw [hp prev none]
      exact h.1
    rw [List.cons_append, subFrom_keep hmiss, ih h.2, List.cons_append]

theorem Forward.sub_flatMap {α : Type} (hp : Forward p) {view : α → List Char} {hit : α → Bool}
    {xs : List α} (h : Cuts p view hit xs) :
    sub p repl (xs.flatMap view) = xs.flatMap fun x => if hit x then repl else view x := by
  induction xs with
  | nil => rfl
  | cons x xs ih =>
    obtain ⟨hx, hxs⟩ := h
    have hrest : Substitute.subFrom p repl none 0 (xs.flatMap view) = _ := ih hxs
    rw [sub, List.flatMap_cons, List.flatMap_cons]
    cases hhit : hit x with
    | true =>
      rw [hhit, if_pos rfl] at hx
      obtain ⟨hne, hmatch⟩ := hx
      obtain ⟨d, ds, hd⟩ := List.exists_cons_of_ne_nil hne
      rw [hd, List.cons_append] at hmatch ⊢
      have hskip : Substitute.subFrom p repl (some d) ds.length (ds ++ xs.flatMap view) =
          Substitute.subFrom p repl none 0 (xs.flatMap view) := hp.subFrom_append ds
      rw [subFrom_match hmatch, hskip, hrest, if_pos rfl]
    | false =>
      rw [hhit, if_neg Bool.false_ne_true] at hx
      rw [hp.subFrom_quiet hx, hrest, if_neg Bool.false_ne_true]

/-- `re.search` from a position on: the text of the first match. -/
def searchFrom (p : Pattern) : Option Char → List Char → Option (List Char)
  | _, [] => none
  | prev, c :: cs =>
    match p prev (c :: cs) with
    | some n => some ((c :: cs).take n)
    | none => searchFrom p (some c) cs

def search (p : Pattern) (cs : List Char) : Option (List Char) := searchFrom p none cs

theorem searchFrom_isSome (h : (p (ds.getLast?.or prev) (c :: cs)).isSome) :
    (searchFrom p prev (ds ++ c :: cs)).isSome := by
  induction ds generalizing prev with
  | nil =>
    obtain ⟨n, hn⟩ := Option.isSome_iff_exists.mp h
    have hn : p prev (c :: cs) = some n := hn
    simp [searchFrom, hn]
  | cons d ds ih =>
    have hlast : (d :: ds).getLast?.or prev = ds.getLast?.or (some d) := by
      cases hds : ds.getLast? <;> simp [List.getLast?_cons, hds]
    rw [hlast] at h
    rw [List.cons_append, searchFrom]
    cases p prev (d :: (ds ++ c :: cs)) with
    | some n => rfl
    | none => exact ih h

end AlfredProcessing.Lib.Substitute
