import Mathlib.Data.List.Basic
import Mathlib.Data.List.Pairwise
import Mathlib.Order.Basic

namespace AlfredProcessing.Lib.Cursor

variable {ι α : Type} {lt : ι → ι → Bool} {log : List (ι × α)} {e : ι × α} {m : Nat}

/-- A log that is written at its end, under growing ids. -/
def Growing (lt : ι → ι → Bool) (log : List (ι × α)) : Prop := log.Pairwise fun e e' => lt e.1 e'.1 = true

theorem Growing.concat (h : Growing lt log) (hlast : ∀ x ∈ log, lt x.1 e.1 = true) : Growing lt (log ++ [e]) := by
  refine List.pairwise_append.mpr ⟨h, List.pairwise_singleton _ _, fun x hx y hy => ?_⟩
  obtain rfl := List.mem_singleton.mp hy
  exact hlast x hx

theorem Growing.parts (h : Growing lt log) (hasymm : ∀ a b, lt a b = true → lt b a = false)
    (hcursor : log[m]? = some e) :
    (∀ x ∈ log.take (m + 1), lt e.1 x.1 = false) ∧ ∀ x ∈ log.drop (m + 1), lt e.1 x.1 = true := by
  obtain ⟨hm, rfl⟩ := List.getElem?_eq_some_iff.mp hcursor
  have hsplit : log.take m ++ log[m] :: log.drop (m + 1) = log := by
    rw [List.getElem_cons_drop, List.take_append_drop]
  rw [← hsplit] at h
  obtain ⟨-, hrest, hbefore⟩ := List.pairwise_append.mp h
  constructor
  · intro x hx
    rw [List.take_succ_eq_append_getElem hm] at hx
    obtain hx | hx := List.mem_append.mp hx
    · exact hasymm _ _ (hbefore x hx _ List.mem_cons_self)
    · rw [List.mem_singleton.mp hx]
      by_contra hlt
      rw [Bool.not_eq_false] at hlt
      exact Bool.false_ne_true ((hasymm _ _ hlt).symm.trans hlt)
  · exact fun x hx => List.rel_of_pairwise_cons hrest hx

/-- Of a log whose first entries are gone, behind the cursor is what is neither read nor gone. -/
theorem Growing.filter_drop (h : Growing lt log) (hasymm : ∀ a b, lt a b = true → lt b a = false)
    (hcursor : log[m]? = some e) (n : Nat) :
    (log.drop n).filter (fun x => lt e.1 x.1) = log.drop (max (m + 1) n) := by
  obtain ⟨hread, hrest⟩ := h.parts hasymm hcursor
  obtain hn | hn := Nat.le_total n (m + 1)
  · have hsplit : log.drop n = (log.take (m + 1)).drop n ++ log.drop (m + 1) := by
      obtain ⟨hm, -⟩ := List.getElem?_eq_some_iff.mp hcursor
      have hlen : (log.take (m + 1)).length = m + 1 := by
        rw [List.length_take]
        omega
      rw [← List.drop_append_of_le_length (by omega), List.take_append_drop]
    have hnone : ((log.take (m + 1)).drop n).filter (fun x => lt e.1 x.1) = [] :=
      List.filter_eq_nil_iff.mpr fun x hx => by
        rw [hread x (List.mem_of_mem_drop hx)]
        exact Bool.false_ne_true
    rw [Nat.max_eq_left hn, hsplit, List.filter_append, hnone, List.nil_append, List.filter_eq_self.mpr hrest]
  · rw [Nat.max_eq_right hn]
    refine List.filter_eq_self.mpr fun x hx => hrest x ?_
    obtain ⟨d, rfl⟩ := Nat.exists_eq_add_of_le hn
    rw [← List.drop_drop] at hx
    exact List.mem_of_mem_drop hx

end AlfredProcessing.Lib.Cursor
