import AlfredProcessing.Lib.Transition
import Mathlib.Data.List.Basic

namespace AlfredProcessing.Lib.Shadow

open Transition

variable {σ α : Type*}

/-- Run a system beside a shadow of it that never takes the hidden actions.
The shadow is none once it cannot take an action that the system takes. -/
def shadowStep (step : σ → α → Option σ) (hidden : α → Bool) :
    σ × Option σ → α → Option (σ × Option σ)
  | (s, t), a => (step s a).map fun s' => (s', if hidden a then t else t.bind fun u => step u a)

/-- In every state of a schedule, `V` holds between that state and the one
reached without the hidden actions. -/
def Unaffected (step : σ → α → Option σ) (hidden : α → Bool) (V : σ → σ → Prop) (s : σ)
    (as : List α) : Prop :=
  ∀ bs s', bs <+: as → run step s bs = some s' →
    ∃ t', run step s (bs.filter fun a => !hidden a) = some t' ∧ V s' t'

variable {step : σ → α → Option σ} {hidden : α → Bool} {V J : σ → σ → Prop} {C : σ → α → Prop}

theorem run_shadowStep (s : σ) (t : Option σ) (as : List α) :
    run (shadowStep step hidden) (s, t) as = (run step s as).map fun s' =>
      (s', t.bind fun u => run step u (as.filter fun a => !hidden a)) := by
  induction as generalizing s t with
  | nil => cases t <;> rfl
  | cons a as ih =>
    simp only [run, shadowStep]
    cases step s a with
    | none => rfl
    | some s' =>
      simp only [Option.map_some, Option.bind_some, ih]
      cases hh : hidden a <;> simp [hh, run, Option.bind_assoc]

theorem unaffected_iff_always (s : σ) (as : List α) :
    Unaffected step hidden V s as ↔
      Always (shadowStep step hidden) (fun p => ∃ t, p.2 = some t ∧ V p.1 t) (s, some s) as := by
  rw [always_iff_take]
  constructor
  · rintro h bs ⟨s', t'⟩ hbs hr
    rw [run_shadowStep, Option.map_eq_some_iff] at hr
    obtain ⟨u, hu, he⟩ := hr
    obtain ⟨t, ht, hv⟩ := h bs u hbs hu
    cases he
    exact ⟨t, by simpa using ht, hv⟩
  · intro h bs s' hbs hr
    obtain ⟨t, ht, hv⟩ := h bs (s', run step s (bs.filter fun a => !hidden a)) hbs
      (by simp [run_shadowStep, hr])
    exact ⟨t, ht, hv⟩

theorem meets_shadowStep (p : σ × Option σ) (as : List α) :
    Meets (shadowStep step hidden) (fun p => C p.1) p as ↔ Meets step C p.1 as := by
  induction as generalizing p with
  | nil => exact Iff.rfl
  | cons a as ih =>
    simp only [Meets, shadowStep, Option.map_eq_some_iff]
    constructor
    · intro h s' hs'
      obtain ⟨hc, hrest⟩ := h _ ⟨s', hs', rfl⟩
      exact ⟨hc, (ih _).mp hrest⟩
    · rintro h q ⟨s', hs', rfl⟩
      obtain ⟨hc, hrest⟩ := h s' hs'
      exact ⟨hc, (ih _).mpr hrest⟩

theorem shadowStep_keeps (hhid : ∀ s t a s', J s t → C s a → hidden a = true → step s a = some s' → J s' t)
    (hvis : ∀ s t a s', J s t → C s a → hidden a = false → step s a = some s' →
      ∃ t', step t a = some t' ∧ J s' t') (p : σ × Option σ) (a : α) (q : σ × Option σ)
    (hp : ∃ t, p.2 = some t ∧ J p.1 t) (hc : C p.1 a) (hq : shadowStep step hidden p a = some q) :
    ∃ t, q.2 = some t ∧ J q.1 t := by
  obtain ⟨s, _⟩ := p
  obtain ⟨t, rfl, hj⟩ := hp
  obtain ⟨s', hs', rfl⟩ := Option.map_eq_some_iff.mp hq
  cases hh : hidden a with
  | true => exact ⟨t, by simp, hhid s t a s' hj hc hh hs'⟩
  | false =>
    obtain ⟨t', ht', hj'⟩ := hvis s t a s' hj hc hh hs'
    exact ⟨t', by simp [ht'], hj'⟩

/-- Hidden actions do not show along the schedules that meet `C`, where `J` strengthens the view to a simulation that
`C`-steps keep. -/
theorem unaffected_of_meets (hJV : ∀ s t, J s t → V s t)
    (hhid : ∀ s t a s', J s t → C s a → hidden a = true → step s a = some s' → J s' t)
    (hvis : ∀ s t a s', J s t → C s a → hidden a = false → step s a = some s' →
      ∃ t', step t a = some t' ∧ J s' t')
    {s : σ} (hs : J s s) {as : List α} (h : Meets step C s as) : Unaffected step hidden V s as := by
  rw [unaffected_iff_always]
  have hkept := always_of_meets (J := fun p => ∃ t, p.2 = some t ∧ J p.1 t) (shadowStep_keeps hhid hvis) ⟨s, rfl, hs⟩
    ((meets_shadowStep (s, some s) as).mpr h)
  exact hkept.mono fun p ⟨t, ht, hj⟩ => ⟨t, ht, hJV _ _ hj⟩

end AlfredProcessing.Lib.Shadow
