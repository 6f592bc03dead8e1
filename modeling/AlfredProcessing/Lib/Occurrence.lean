import Mathlib.Data.List.Forall2
import Mathlib.Data.List.Infix

namespace AlfredProcessing.Lib.Occurrence

variable {α β : Type} {r : α → β → Bool} {w : List β} {a b cs : List α} {c : α}

/-- The text begins with characters that stand for those of the word. -/
def begins (r : α → β → Bool) : List β → List α → Bool
  | [], _ => true
  | _ :: _, [] => false
  | x :: xs, c :: cs => r c x && begins r xs cs

def occurs (r : α → β → Bool) (w : List β) : List α → Bool
  | [] => w.isEmpty
  | c :: cs => begins r w (c :: cs) || occurs r w cs

theorem begins_append_cons (hc : ∀ x ∈ w, r c x = false) : begins r w (a ++ c :: b) = begins r w a := by
  induction w generalizing a with
  | nil =>
    rw [begins.eq_def]
    rfl
  | cons x xs ih =>
    obtain ⟨hx, hxs⟩ := List.forall_mem_cons.mp hc
    cases a with
    | nil =>
      show (r c x && begins r xs b) = false
      rw [hx, Bool.false_and]
    | cons d a =>
      rw [List.cons_append, begins, begins, ih hxs]

/-- What stands at no place of the word stands between its occurrences. -/
theorem occurs_append_cons (hne : w ≠ []) (hc : ∀ x ∈ w, r c x = false) :
    occurs r w (a ++ c :: b) = (occurs r w a || occurs r w b) := by
  induction a with
  | nil =>
    obtain ⟨x, xs, rfl⟩ := List.exists_cons_of_ne_nil hne
    show (r c x && begins r xs b || occurs r (x :: xs) b) = (false || occurs r (x :: xs) b)
    rw [hc x List.mem_cons_self, Bool.false_and]
  | cons d a ih =>
    have hbegins : begins r w (d :: (a ++ c :: b)) = begins r w (d :: a) := begins_append_cons (a := d :: a) hc
    rw [List.cons_append, occurs, occurs, ih, hbegins, Bool.or_assoc]

theorem occurs_of_first {x : β} {xs : List β} (h : ∀ c ∈ cs, r c x = false) : occurs r (x :: xs) cs = false := by
  induction cs with
  | nil => rfl
  | cons c cs ih =>
    obtain ⟨hc, hcs⟩ := List.forall_mem_cons.mp h
    rw [occurs, begins, hc, ih hcs]
    rfl

theorem begins_of_leading {u : List α} (hu : List.Forall₂ (fun c x => r c x = true) u w) (h : u <+: cs) :
    begins r w cs = true := by
  induction hu generalizing cs with
  | nil =>
    rw [begins.eq_def]
  | @cons c x u w hcx _ ih =>
    obtain ⟨t, rfl⟩ := h
    rw [List.cons_append, begins, hcx, ih (List.prefix_append u t)]
    rfl

theorem occurs_of_infix {u : List α} (hu : List.Forall₂ (fun c x => r c x = true) u w) (h : u <:+: cs) :
    occurs r w cs = true := by
  induction cs with
  | nil =>
    obtain rfl := List.infix_nil.mp h
    cases hu
    rfl
  | cons c cs ih =>
    rw [occurs, Bool.or_eq_true]
    exact (List.infix_cons_iff.mp h).imp (begins_of_leading hu) ih

end AlfredProcessing.Lib.Occurrence
