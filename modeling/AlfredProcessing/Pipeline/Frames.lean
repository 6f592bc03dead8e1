import AlfredProcessing.Pipeline.DryRun

namespace AlfredProcessing.Pipeline.Frames

open Lib.Json Lib.Effects Extract.Changes PostBuild.Backfill Context DryRun

def isChangeset : Message → Bool
  | .changeset .. => true
  | _ => false

/-- A view of the run that its other messages and a cancel leave as it is. -/
class Stable {τ : Type} (view : World → τ) : Prop where
  sent : ∀ w m, isChangeset m = false → view { w with log := w.log ++ [.sent m] } = view w
  cancelled : ∀ w : World, view {
    ctx := { w.ctx with shouldStop := true, stopSignal := some cancelSignal }
    log := w.log ++ [.stopped cancelSignal] } = view w

def Same {τ : Type} (view : World → τ) (w w' : World) : Prop := view w' = view w

/-- However it ends, the call leaves the view as it is. -/
abbrev Fixes {τ : Type} (view : World → τ) {α : Type} (x : Run α) : Prop :=
  Yields (fun _ => Same view) (Same view) x

variable {τ α β : Type} {view : World → τ} {env : Env} {p : Point} {w w' w'' : World}

theorem Same.refl (w : World) : Same view w w := rfl

theorem Same.trans (h : Same view w w') (h' : Same view w' w'') : Same view w w'' := Eq.trans h' h

theorem Fixes.bind {x : Run α} {f : α → Run β} (hx : Fixes view x) (hf : ∀ a, Fixes view (f a)) :
    Fixes view (x >>= f) :=
  Yields.bind hx hf (fun _ _ _ _ => Same.trans) fun _ _ _ => Same.trans

theorem fixes_pure (a : α) : Fixes view (pure a : Run α) := Yields.pure Same.refl a

theorem fixes_throw (e : Exc) : Fixes view (throw e : Run α) := Yields.throw Same.refl

theorem fixes_get : Fixes view (get : Run World) := Yields.get Same.refl

theorem fixes_updateCtx {f : Ctx → Ctx}
    (h : ∀ w, view { w with ctx := f w.ctx } = view w) :
    Fixes view (updateCtx f) := Yields.modify h

theorem fixes_liftPy (x : Except PyError α) : Fixes view (liftPy x) := by
  rcases x with (_ | _ | _) | _
  · exact fixes_throw _
  · exact fixes_throw _
  · exact fixes_throw _
  · exact fixes_pure _

theorem fixes_readChecked (answer : Value) : Fixes view (readChecked env answer) := by
  unfold readChecked
  split
  · split
    case h_6 => split <;> first | exact fixes_pure _ | exact fixes_throw _
    all_goals first | exact fixes_pure _ | exact fixes_throw _
  · exact fixes_pure _

theorem fixes_call : Fixes view (call env p) := by
  unfold call
  split
  · exact fixes_pure _
  · exact fixes_throw _
  · exact fixes_pure _

theorem fixes_describeRetry (verdict : DryRun) : Fixes view (describeRetry env verdict) :=
  fixes_call.bind fun _ => Yields.ite (fun _ => fixes_pure _) fun _ => fixes_throw _

theorem fixes_catching {x handler : Run α} (hx : Fixes view x) (hh : Fixes view handler) :
    Fixes view (catching x handler) := by
  refine hx.tryCatch fun e w t ht => ?_
  split
  · exact ht
  · refine (hh t).mono fun r u hr => ?_
    cases r with
    | error e => exact ht.trans hr
    | ok a => exact ht.trans hr

variable [Stable view]

theorem fixes_handleFrames : Fixes view (handleFrames env p) :=
  Yields.ite (fun _ => Yields.modify Stable.cancelled) fun _ => fixes_pure _

theorem fixes_await : Fixes view (await env p) := by
  refine fixes_handleFrames.bind fun _ => ?_
  split
  · exact fixes_throw _
  · exact fixes_pure _

theorem fixes_pause : Fixes view (pause env p) :=
  fixes_handleFrames.bind fun _ => Yields.ite (fun _ => fixes_throw _) fun _ => fixes_pure _

theorem fixes_attempt : Fixes view (attempt env p) :=
  fixes_catching (fixes_await.bind fun _ => fixes_pure _) (fixes_pure _)

theorem fixes_send {m : Message} (hm : isChangeset m = false) : Fixes view (send env p m) := by
  have hemit : Fixes view (emit (.sent m)) := Yields.modify fun w => Stable.sent w m hm
  refine fixes_handleFrames.bind fun _ => Yields.ite (fun _ => ?_) fun _ => hemit
  exact Yields.ite (fun _ => hemit.bind fun _ => fixes_throw _) fun _ => fixes_throw _

theorem exec_handleFrames (env : Env) (p : Point) (w : World) :
    (exec (handleFrames env p) w).1 = .ok ⟨⟩ := by
  unfold handleFrames
  split <;> rfl

theorem attempt_value (env : Env) (p : Point) (w : World) : Ends (attempt env p) w fun r _ =>
    r = .error .cancelled ∨ r = .ok (decide (env.raised p = none)) := by
  have hframes := exec_handleFrames env p w
  unfold attempt catching await Ends
  rcases hf : exec (handleFrames env p) w with ⟨r, t⟩
  obtain rfl : r = .ok ⟨⟩ := by rw [hf] at hframes; exact hframes
  rcases hr : env.raised p with _ | e
  · simp [-bind_pure_comp, exec_tryCatch, exec_bind, hf]
  · by_cases he : e = .cancelled
    · simp [exec_tryCatch, exec_bind, hf, he]
    · simp [exec_tryCatch, exec_bind, hf, he]

theorem send_value (env : Env) (p : Point) (m : Message) (w : World) :
    Ends (send env p m) w fun r _ => r = .error .cancelled ∨ r = .ok ⟨⟩ := by
  have hframes := exec_handleFrames env p w
  unfold send Ends
  rcases hf : exec (handleFrames env p) w with ⟨r, t⟩
  obtain rfl : r = .ok ⟨⟩ := by rw [hf] at hframes; exact hframes
  by_cases hr : env.raised p = some .cancelled
  · by_cases hl : env.landed p = true
    · simp [exec_bind, hf, hr, hl, emit]
    · simp [exec_bind, hf, hr, hl]
  · simp [exec_bind, hf, hr, emit]

theorem await_value (env : Env) (p : Point) (w : World) : Ends (await env p) w fun r _ =>
    r = match env.raised p with
      | some e => .error e
      | none => .ok ⟨⟩ := by
  have hframes := exec_handleFrames env p w
  unfold await Ends
  rcases hf : exec (handleFrames env p) w with ⟨r, t⟩
  obtain rfl : r = .ok ⟨⟩ := by rw [hf] at hframes; exact hframes
  rcases hr : env.raised p with _ | e
  · simp [hf]
  · simp [exec_bind, hf]

end AlfredProcessing.Pipeline.Frames
