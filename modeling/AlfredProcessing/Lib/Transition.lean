import Mathlib.Data.List.Basic
import Mathlib.Order.Basic

namespace AlfredProcessing.Lib.Transition

variable {σ α τ : Type*}

/-- Run a partial step function over a schedule. An action that is not
enabled ends the run without a state. -/
def run (step : σ → α → Option σ) : σ → List α → Option σ
  | s, [] => some s
  | s, a :: as => (step s a).bind fun t => run step t as

/-- `P` holds in every state that the schedule passes through. -/
def Always (step : σ → α → Option σ) (P : σ → Prop) : σ → List α → Prop
  | s, [] => P s
  | s, a :: as => P s ∧ ∀ t, step s a = some t → Always step P t as

/-- Every action that the schedule takes meets `C` in the state it is taken in. -/
def Meets (step : σ → α → Option σ) (C : σ → α → Prop) : σ → List α → Prop
  | _, [] => True
  | s, a :: as => ∀ t, step s a = some t → C s a ∧ Meets step C t as

variable {step : σ → α → Option σ} {P J : σ → Prop} {C : σ → α → Prop}

instance decidableMeets [∀ s a, Decidable (C s a)] :
    ∀ (s : σ) (as : List α), Decidable (Meets step C s as)
  | _, [] => isTrue trivial
  | s, a :: as =>
    match h : step s a with
    | none => isTrue fun t ht => by rw [h] at ht; cases ht
    | some t =>
      have := decidableMeets t as
      decidable_of_iff (C s a ∧ Meets step C t as) <| by
        simp only [Meets, h, Option.some.injEq, forall_eq']

theorem run_append (s : σ) (as bs : List α) :
    run step s (as ++ bs) = (run step s as).bind fun t => run step t bs := by
  induction as generalizing s with
  | nil => rfl
  | cons a as ih =>
    simp only [List.cons_append, run, Option.bind_assoc]
    exact congrArg _ (funext ih)

theorem Always.head {s : σ} {as : List α} (h : Always step P s as) : P s := by
  cases as with
  | nil => exact h
  | cons a as => exact h.1

theorem Always.mono {Q : σ → Prop} (hPQ : ∀ s, P s → Q s) {s : σ} {as : List α}
    (h : Always step P s as) : Always step Q s as := by
  induction as generalizing s with
  | nil => exact hPQ s h
  | cons a as ih => exact ⟨hPQ s h.1, fun t ht => ih (h.2 t ht)⟩

theorem Always.last {s t : σ} {as : List α} (h : Always step P s as)
    (hr : run step s as = some t) : P t := by
  induction as generalizing s with
  | nil =>
    cases hr
    exact h
  | cons a as ih =>
    obtain ⟨u, hu, hr⟩ := Option.bind_eq_some_iff.mp hr
    exact ih (h.2 u hu) hr

theorem always_iff_take (s : σ) (as : List α) :
    Always step P s as ↔ ∀ bs t, bs <+: as → run step s bs = some t → P t := by
  induction as generalizing s with
  | nil =>
    constructor
    · intro h bs t hbs hr
      rw [List.prefix_nil.mp hbs] at hr
      cases hr
      exact h
    · intro h
      exact h [] s (List.nil_prefix) rfl
  | cons a as ih =>
    constructor
    · intro h bs t hbs hr
      cases bs with
      | nil =>
        cases hr
        exact h.1
      | cons b bs =>
        obtain ⟨rfl, hp⟩ := List.cons_prefix_cons.mp hbs
        obtain ⟨u, hu, hr⟩ := Option.bind_eq_some_iff.mp hr
        exact (ih u).mp (h.2 u hu) bs t hp hr
    · intro h
      refine ⟨h [] s List.nil_prefix rfl, fun t ht => (ih t).mpr ?_⟩
      intro bs u hbs hr
      exact h (a :: bs) u (List.cons_prefix_cons.mpr ⟨rfl, hbs⟩) (by simp [run, ht, hr])

/-- An invariant kept by the steps that meet `C` holds along every schedule
that meets `C`. -/
theorem meets_of_forall {C : α → Prop} {s : σ} {as : List α} (h : ∀ a ∈ as, C a) : Meets step (fun _ a => C a) s as := by
  induction as generalizing s with
  | nil => trivial
  | cons a as ih => exact fun t _ => ⟨h a List.mem_cons_self, ih fun b hb => h b (List.mem_cons_of_mem _ hb)⟩

theorem always_of_meets (hkeep : ∀ s a t, J s → C s a → step s a = some t → J t)
    {s : σ} {as : List α} (hs : J s) (h : Meets step C s as) : Always step J s as := by
  induction as generalizing s with
  | nil => exact hs
  | cons a as ih =>
    refine ⟨hs, fun t ht => ?_⟩
    obtain ⟨hc, hrest⟩ := h t ht
    exact ih (hkeep s a t hs hc ht) hrest

theorem Meets.imp {C' : σ → α → Prop} (hkeep : ∀ s a t, J s → step s a = some t → J t)
    (himp : ∀ s a, J s → C s a → C' s a) {s : σ} {as : List α} (hs : J s)
    (h : Meets step C s as) : Meets step C' s as := by
  induction as generalizing s with
  | nil => trivial
  | cons a as ih =>
    intro t ht
    obtain ⟨hc, hrest⟩ := h t ht
    exact ⟨himp s a hs hc, ih (hkeep s a t hs ht) hrest⟩

/-- A property is kept exactly by the schedules that meet `C`, where an
inductive strengthening `J` is kept by `C`-steps and a step that does not
meet `C` leaves the property false. -/
theorem always_iff_meets (hJP : ∀ s, J s → P s)
    (hkeep : ∀ s a t, J s → C s a → step s a = some t → J t)
    (hbreak : ∀ s a t, J s → step s a = some t → P t → C s a)
    {s : σ} (hs : J s) (as : List α) : Always step P s as ↔ Meets step C s as := by
  refine ⟨fun h => ?_, fun h => (always_of_meets hkeep hs h).mono hJP⟩
  induction as generalizing s with
  | nil => trivial
  | cons a as ih =>
    intro t ht
    have hc := hbreak s a t hs ht (h.2 t ht).head
    exact ⟨hc, ih (hkeep s a t hs hc ht) (h.2 t ht)⟩

/-- A measure that no step raises, and that the actions of `p` lower, bounds how many of them a
schedule takes. -/
theorem countP_add_le {p : α → Bool} {m : σ → Nat}
    (hlower : ∀ s a t, step s a = some t → m t + (p a).toNat ≤ m s) {s t : σ} {as : List α}
    (hr : run step s as = some t) : as.countP p + m t ≤ m s := by
  induction as generalizing s with
  | nil =>
    cases hr
    exact Nat.le_of_eq (Nat.zero_add _)
  | cons a as ih =>
    obtain ⟨u, hu, hr⟩ := Option.bind_eq_some_iff.mp hr
    have hrest := ih hr
    have hfirst := hlower s a u hu
    have hcount : (a :: as).countP p = as.countP p + (p a).toNat := by
      cases hp : p a <;> simp [hp]
    omega

theorem always_of_step (hkeep : ∀ s a t, J s → step s a = some t → J t)
    {s : σ} (hs : J s) (as : List α) : Always step J s as := by
  induction as generalizing s with
  | nil => exact hs
  | cons a as ih => exact ⟨hs, fun t ht => ih (hkeep s a t hs ht)⟩

theorem run_of_step (hkeep : ∀ s a t, J s → step s a = some t → J t)
    {s t : σ} {as : List α} (hs : J s) (hr : run step s as = some t) : J t :=
  (always_of_step hkeep hs as).last hr

end AlfredProcessing.Lib.Transition
