import Mathlib.Data.List.Basic

namespace AlfredProcessing.Lib.Nesting

variable {K : Type}

inductive Token (K : Type) where
  | opening (k : K)
  | closing (k : K)

/-- Every bracket that opens is closed by one of its kind, around what is nested itself. -/
inductive Nested : List (Token K) → Prop where
  | nil : Nested []
  | pair {k : K} {xs ys : List (Token K)} : Nested xs → Nested ys → Nested (.opening k :: xs ++ .closing k :: ys)

inductive Closes : List K → List (Token K) → Prop where
  | nil {xs : List (Token K)} : Nested xs → Closes [] xs
  | close {k : K} {stack : List K} {xs ys : List (Token K)} : Nested xs → Closes stack ys →
      Closes (k :: stack) (xs ++ .closing k :: ys)

variable {stack : List K} {xs : List (Token K)} {k : K}

theorem Closes.opening (h : Closes (k :: stack) xs) : Closes stack (.opening k :: xs) := by
  cases h with
  | @close _ _ xs ys hxs hys =>
    cases hys with
    | nil hys => exact .nil (.pair hxs hys)
    | @close k' _ ys zs hys hzs =>
      have hpair : Closes (k' :: _) ((.opening k :: xs ++ .closing k :: ys) ++ .closing k' :: zs) :=
        .close (.pair hxs hys) hzs
      rwa [List.append_assoc] at hpair

section Acceptance

variable [DecidableEq K]

/-- The brackets are closed with the stack of those that are open. -/
def accepts : List K → List (Token K) → Bool
  | [], [] => true
  | _ :: _, [] => false
  | stack, .opening k :: xs => accepts (k :: stack) xs
  | [], .closing _ :: _ => false
  | k :: stack, .closing k' :: xs => k = k' && accepts stack xs

theorem closes_of_accepts (h : accepts stack xs = true) : Closes stack xs := by
  induction xs generalizing stack with
  | nil =>
    cases stack with
    | nil => exact .nil .nil
    | cons k stack => cases h
  | cons x xs ih =>
    cases x with
    | opening k =>
      rw [accepts] at h
      exact (ih h).opening
    | closing k =>
      cases stack with
      | nil => cases h
      | cons k' stack =>
        rw [accepts, Bool.and_eq_true] at h
        obtain rfl := of_decide_eq_true h.1
        exact .close .nil (ih h.2)

theorem accepts_append (h : Nested xs) (stack : List K) (ys : List (Token K)) :
    accepts stack (xs ++ ys) = accepts stack ys := by
  induction h generalizing stack ys with
  | nil => rfl
  | @pair k xs zs _ _ ihx ihz =>
    rw [List.append_assoc, List.cons_append, List.cons_append, accepts, ihx, accepts, ihz, decide_eq_true rfl,
      Bool.true_and]

theorem accepts_iff : accepts [] xs = true ↔ Nested xs := by
  constructor
  · intro h
    cases closes_of_accepts h with
    | nil h => exact h
  · intro h
    rw [← List.append_nil xs, accepts_append h]
    rfl

end Acceptance

end AlfredProcessing.Lib.Nesting
