import Mathlib.Data.List.Induction
import Mathlib.Logic.Function.Basic

namespace AlfredProcessing.Lib.Cells

/-- A store that keeps entries under keys. Every operation belongs to a slot and,
unless it is rejected, works on the entry under the key of its slot. -/
structure Layout (S K E O A : Type) where
  key : S → Option K
  key_inj : ∀ {p q : S} {k : K}, key p = some k → key q = some k → p = q
  slot : O → S
  target : O → Option K
  target_key : ∀ {o : O} {k : K}, target o = some k → key (slot o) = some k
  reject : O → A
  act : O → Option E → A × Option E

/-- What was written last, where `w` tells what an operation writes, if it does. -/
def lastWrite {O X : Type} (w : O → Option (Option X)) (os : List O) : Option X :=
  os.foldl (fun last o => (w o).getD last) none

theorem lastWrite_concat {O X : Type} (w : O → Option (Option X)) (os : List O) (o : O) :
    lastWrite w (os ++ [o]) = (w o).getD (lastWrite w os) := by
  rw [lastWrite, List.foldl_append]
  rfl

theorem exists_of_lastWrite {O X : Type} {w : O → Option (Option X)} {os : List O} {x : X}
    (h : lastWrite w os = some x) : ∃ o ∈ os, w o = some (some x) := by
  induction os using List.reverseRecOn with
  | nil => cases h
  | append_singleton os o ih =>
    rw [lastWrite_concat] at h
    cases ho : w o with
    | none =>
      obtain ⟨o', ho', hx⟩ := ih (by rwa [ho] at h)
      exact ⟨o', List.mem_append_left _ ho', hx⟩
    | some y =>
      rw [ho] at h
      exact ⟨o, List.mem_append_right _ (List.mem_singleton_self o), by rw [ho, ← h, Option.getD_some]⟩

namespace Layout

variable {S K E O A : Type} (l : Layout S K E O A)

section Slots

variable [DecidableEq S]

/-- What an operation makes of the entry of a slot. -/
def write (p : S) (e : Option E) (o : O) : Option E :=
  if l.slot o = p ∧ (l.target o).isSome then (l.act o e).2 else e

/-- The entry of a slot, which only the slot's own operations work on. -/
def content (p : S) (os : List O) : Option E := os.foldl (l.write p) none

theorem content_concat (p : S) (os : List O) (o : O) :
    l.content p (os ++ [o]) = l.write p (l.content p os) o := by
  rw [content, List.foldl_append]
  rfl

variable {l} in
theorem write_of_other {p : S} {o : O} (h : l.slot o ≠ p) (e : Option E) : l.write p e o = e :=
  if_neg fun hw => h hw.1

variable {l} in
theorem write_of_unchanged {p : S} {o : O} {e : Option E} (h : (l.act o e).2 = e) :
    l.write p e o = e := by
  unfold write
  split
  · exact h
  · rfl

variable {l} in
theorem content_lastWrite {X : Type} {p : S} {R : Option X → Option E → Prop}
    {w : O → Option (Option X)} (hnone : R none none)
    (hwrite : ∀ o x e, w o = some x → R x (l.write p e o))
    (hkeep : ∀ o e, w o = none → l.write p e o = e) (os : List O) :
    R (lastWrite w os) (l.content p os) := by
  refine List.foldl_rel hnone fun o _ last e h => ?_
  cases ho : w o with
  | none => rwa [hkeep o e ho]
  | some x => exact hwrite o x e ho

end Slots

section Keys

variable [DecidableEq K]

def step (m : K → Option E) (o : O) : A × (K → Option E) :=
  match l.target o with
  | none => (l.reject o, m)
  | some k => ((l.act o (m k)).1, Function.update m k (l.act o (m k)).2)

def run (os : List O) : K → Option E := os.foldl (fun m o => (l.step m o).2) fun _ => none

def reply (os : List O) (o : O) : A := (l.step (l.run os) o).1

theorem run_concat (os : List O) (o : O) : l.run (os ++ [o]) = (l.step (l.run os) o).2 := by
  rw [run, List.foldl_append]
  rfl

variable {l} in
theorem reply_of_rejected {o : O} (h : l.target o = none) (os : List O) :
    l.reply os o = l.reject o := by
  rw [reply, step, h]

end Keys

variable {l} [DecidableEq S] [DecidableEq K] {p : S} {k : K} {o o' : O}

theorem step_key (hp : l.key p = some k) (m : K → Option E) (o : O) :
    (l.step m o).2 k = l.write p (m k) o := by
  unfold step write
  cases ht : l.target o with
  | none => simp
  | some k' =>
    have hk' := l.target_key ht
    by_cases hk : k = k'
    · subst hk
      have hslot : l.slot o = p := l.key_inj hk' hp
      simp [hslot]
    · have hslot : l.slot o ≠ p := by
        rintro rfl
        exact hk (Option.some.inj (hp.symm.trans hk'))
      simp [hk, hslot]

theorem run_key (hp : l.key p = some k) (os : List O) : l.run os k = l.content p os := by
  induction os using List.reverseRecOn with
  | nil => rfl
  | append_singleton os o ih => rw [run_concat, content_concat, step_key hp, ih]

theorem reply_of_target (h : l.target o = some k) (os : List O) :
    l.reply os o = (l.act o (l.content (l.slot o) os)).1 := by
  rw [reply, step, h, ← run_key (l.target_key h) os]

theorem reply_of_other (h : l.slot o ≠ l.slot o') (os : List O) :
    l.reply (os ++ [o]) o' = l.reply os o' := by
  cases ht : l.target o' with
  | none => rw [reply_of_rejected ht, reply_of_rejected ht]
  | some k => rw [reply_of_target ht, reply_of_target ht, content_concat, write_of_other h]

end Layout

end AlfredProcessing.Lib.Cells
