import AlfredProcessing.Pipeline.Shipped

namespace AlfredProcessing.Pipeline.Entry

open Lib.Json Lib.Effects Extract.Changes PostBuild.Backfill Agents.ModuleSpecialist Context Phases Runner Frames
  Outcomes Terminal Shipped

def entry (env : Env) : World := (exec (runPhases env phases.dropLast) {}).2

def fresh (w : World) : List ValidationNote × Nat × List Preview :=
  (w.ctx.moduleValidationNotes, w.ctx.dryRunRetries, previews w.log)

instance : Stable fresh where
  sent w m hm := by simp [fresh, previews_of_other hm]
  cancelled w := by simp [fresh, previews]

/-- What the phases in front of the classification leave alone. -/
def early (w : World) : (List ValidationNote × Nat × List Preview) × Option Dict × Option String :=
  (fresh w, w.ctx.reportCandidate, w.ctx.intent)

instance : Stable early where
  sent w m hm := by simp [early, fresh, previews_of_other hm]
  cancelled w := by simp [early, fresh, previews]

/-- The notes and messages stay, and no retry is spent. -/
def Unspent (w w' : World) : Prop := fresh w = ([], 0, []) → fresh w' = ([], 0, [])

abbrev Spares (x : Run α) : Prop := Yields (fun _ => Unspent) Unspent x

variable {α β : Type} {env : Env} {w : World}

theorem fixes_fresh {x : Run α} (h : Fixes early x) : Fixes fresh x :=
  h.mono (fun _ _ _ hsame => congrArg Prod.fst hsame) fun _ _ hsame => congrArg Prod.fst hsame

theorem fixes_stop (error : String) (code : Code) : Fixes early (stop error code) :=
  Yields.modify fun w => by simp [Same, early, fresh, previews]

theorem fixes_inDev {x : Run PUnit} (hx : Fixes fresh x) : Fixes fresh (inDev x) :=
  fixes_get.bind fun _ => Yields.ite (fun _ => hx) fun _ => fixes_pure _

theorem fixes_sanitize : Fixes early (sanitize env) :=
  fixes_call.bind fun _ => Yields.ite (fun _ => fixes_pure _) fun _ => fixes_stop _ _

theorem fixes_loadState : Fixes early (loadState env) :=
  Fixes.bind (fixes_updateCtx fun _ => rfl) fun _ => fixes_await.bind fun _ => fixes_updateCtx fun _ => rfl

theorem fixes_warmup : Fixes early (warmup env) := by
  refine fixes_call.bind fun _ => ?_
  split
  · exact fixes_pure _
  · exact fixes_pause.bind fun _ => Yields.ite (fun _ => fixes_pure _) fun _ => fixes_stop _ _

theorem fixes_planCheck : Fixes early (planCheck env) := by
  refine Yields.ite (fun _ => fixes_catching ?_ (fixes_pure _)) fun _ => fixes_pure _
  refine fixes_await.bind fun _ => Yields.ite (fun _ => ?_) fun _ => fixes_stop _ _
  refine Yields.ite (fun _ => (fixes_send rfl).bind fun _ => ?_) fun _ => ?_
  all_goals
    split
    · exact fixes_updateCtx fun _ => rfl
    · exact fixes_pure _

theorem fixes_shortCircuit {handler reply : Point} {m : Message} (hm : isChangeset m = false) :
    Fixes early (shortCircuit env handler reply m) := by
  have hsend : Fixes early (send env .memoryNotice .info) := fixes_send rfl
  refine fixes_attempt.bind fun _ => (fixes_send hm).bind fun _ => fixes_get.bind fun _ => ?_
  refine Yields.ite (fun _ => fixes_attempt.bind fun _ => ?_) fun _ => fixes_pure _
  exact Yields.ite (fun _ => fixes_pure _) fun _ => hsend

theorem fixes_orchestrate : Fixes early (orchestrate env) := by
  refine Yields.ite (fun _ => ?_) fun _ => fixes_updateCtx fun _ => rfl
  refine fixes_await.bind fun _ => Fixes.bind (fixes_updateCtx fun _ => rfl) fun _ => (fixes_send rfl).bind fun _ => ?_
  split
  · exact (fixes_shortCircuit rfl).bind fun _ => fixes_updateCtx fun _ => rfl
  · exact (fixes_shortCircuit rfl).bind fun _ => fixes_updateCtx fun _ => rfl
  · exact (fixes_shortCircuit rfl).bind fun _ => fixes_updateCtx fun _ => rfl
  · exact fixes_pure _

theorem fixes_classifyIntent : Fixes fresh (classifyIntent env) := by
  refine fixes_inDev (Yields.ite (fun _ => ?_) fun _ => fixes_pure _)
  split
  · exact fixes_updateCtx fun _ => rfl
  · exact fixes_await.bind fun _ => fixes_updateCtx fun _ => rfl

theorem fixes_classifyModule : Fixes fresh (classifyModule env) :=
  fixes_inDev
    (Yields.ite (fun _ => fixes_await.bind fun _ => fixes_updateCtx fun _ => rfl) fun _ => fixes_pure _)

theorem fixes_enhance : Fixes fresh (enhance env) :=
  fixes_inDev ((fixes_send rfl).bind fun _ => fixes_await.bind fun _ => fixes_updateCtx fun _ => rfl)

theorem fixes_clarify : Fixes fresh (clarify env) :=
  fixes_inDev (fixes_pause.bind fun _ => fixes_updateCtx fun _ => rfl)

theorem fixes_injectKb : Fixes fresh (injectKb env) := by
  refine fixes_inDev (fixes_get.bind fun _ => Yields.ite (fun _ => fixes_pure _) fun _ => ?_)
  exact fixes_call.bind fun _ =>
    Yields.ite (fun _ => fixes_pause.bind fun _ => fixes_updateCtx fun _ => rfl) fun _ => fixes_updateCtx fun _ => rfl

theorem fixes_resolveMode : Fixes fresh (resolveMode env) := by
  refine fixes_inDev (fixes_get.bind fun _ => ?_)
  split
  · exact Fixes.bind (fixes_updateCtx fun _ => rfl) fun _ => fixes_send rfl
  · exact fixes_call.bind fun _ => Fixes.bind (fixes_updateCtx fun _ => rfl) fun _ => fixes_send rfl

theorem fixes_provideModuleContext : Fixes fresh (provideModuleContext env) := by
  refine fixes_inDev (fixes_get.bind fun _ => Yields.ite (fun _ => ?_) fun _ => fixes_pure _)
  exact fixes_call.bind fun _ => fixes_pause

theorem fixes_runCrew : Fixes fresh (runCrew env) := by
  refine fixes_inDev (fixes_await.bind fun _ => Fixes.bind (fixes_updateCtx fun _ => rfl) fun _ => ?_)
  exact fixes_catching (Yields.ite (fun _ => fixes_send rfl) fun _ => fixes_pure _) (fixes_pure _)

theorem Spares.bind {x : Run α} {f : α → Run β} (hx : Spares x) (hf : ∀ a, Spares (f a)) :
    Spares (x >>= f) :=
  Yields.bind hx hf (fun _ _ _ _ ht hu hw => hu (ht hw)) fun _ _ _ ht hu hw => hu (ht hw)

theorem spares_of_fixes {x : Run α} (h : Fixes fresh x) : Spares x :=
  h.mono (fun _ _ _ ht hw => Eq.trans ht hw) fun _ _ ht hw => Eq.trans ht hw

/-- The crew state is built anew, with no retry spent on it. -/
theorem spares_buildCrew : Spares (buildCrew env) := by
  have hrenew : Spares (updateCtx fun c => { c with dryRunRetries := 0 }) := by
    refine Yields.modify fun w hw => ?_
    simp only [fresh, Prod.mk.injEq] at hw ⊢
    exact ⟨hw.1, trivial, hw.2.2⟩
  have hcall : Fixes fresh (call env .buildCrew) := fixes_call
  have hbuild := (spares_of_fixes hcall).bind fun _ => hrenew
  refine (spares_of_fixes fixes_get).bind fun _ => Yields.ite (fun _ => ?_) fun _ =>
    spares_of_fixes (fixes_pure _)
  refine (spares_of_fixes fixes_get).bind fun _ => Yields.ite (fun _ => ?_) fun _ => hbuild
  exact (spares_of_fixes fixes_await).bind fun _ => hbuild

theorem spares_phase {q : Phase} (hq : q ≠ .postCrew) : Spares (phase env q) := by
  cases q with
  | sanitize => exact spares_of_fixes (fixes_fresh fixes_sanitize)
  | loadState => exact spares_of_fixes (fixes_fresh fixes_loadState)
  | warmup => exact spares_of_fixes (fixes_fresh fixes_warmup)
  | planCheck => exact spares_of_fixes (fixes_fresh fixes_planCheck)
  | orchestrate => exact spares_of_fixes (fixes_fresh fixes_orchestrate)
  | classifyIntent => exact spares_of_fixes fixes_classifyIntent
  | classifyModule => exact spares_of_fixes fixes_classifyModule
  | enhance => exact spares_of_fixes fixes_enhance
  | clarify => exact spares_of_fixes fixes_clarify
  | injectKb => exact spares_of_fixes fixes_injectKb
  | resolveMode => exact spares_of_fixes fixes_resolveMode
  | provideModuleContext => exact spares_of_fixes fixes_provideModuleContext
  | buildCrew => exact spares_buildCrew
  | runCrew => exact spares_of_fixes fixes_runCrew
  | postCrew => exact absurd rfl hq

theorem spares_runPhases (ps : List Phase) (hps : .postCrew ∉ ps) : Spares (runPhases env ps) := by
  induction ps with
  | nil => exact spares_of_fixes (fixes_pure _)
  | cons q qs ih =>
    obtain ⟨hq, hqs⟩ := List.ne_and_not_mem_of_not_mem_cons hps
    refine (spares_of_fixes fixes_get).bind fun _ => Yields.ite (fun _ => ?_) fun _ => ?_
    · exact spares_of_fixes (fixes_pure _)
    · exact (spares_phase hq.symm).bind fun _ => ih hqs

theorem fresh_entry (env : Env) : fresh (entry env) = ([], 0, []) := by
  have h : Ends (runPhases env phases.dropLast) {} (Post (fun _ => Unspent) Unspent {}) :=
    spares_runPhases phases.dropLast (by decide) {}
  rcases hr : exec (runPhases env phases.dropLast) {} with ⟨r, w⟩
  have hw := h.of_exec hr
  rw [entry, hr]
  cases r with
  | error e => exact hw rfl
  | ok a => exact hw rfl

theorem exec_runPhases_append (ps qs : List Phase) (w : World) :
    exec (runPhases env (ps ++ qs)) w = exec (runPhases env ps >>= fun _ => runPhases env qs) w := by
  induction ps generalizing w with
  | nil => rfl
  | cons p ps ih =>
    cases hstop : w.ctx.shouldStop with
    | true =>
      rw [List.cons_append, exec_bind, exec_runPhases_stopped hstop, exec_runPhases_stopped hstop]
      exact (exec_runPhases_stopped hstop).symm
    | false =>
      rcases hp : exec (phase env p) w with ⟨e | _, t⟩
      · rw [List.cons_append, exec_bind, exec_runPhases_error hstop hp,
          exec_runPhases_error hstop hp]
      · rw [List.cons_append, exec_bind, exec_runPhases_ok hstop hp, exec_runPhases_ok hstop hp, ih,
          exec_bind]

theorem exec_phases (env : Env) : exec (runPhases env phases) {} =
    exec (runPhases env phases.dropLast >>= fun _ => runPhases env [.postCrew]) {} :=
  exec_runPhases_append phases.dropLast [.postCrew] {}

theorem exec_lastPhase (hstop : w.ctx.shouldStop = false) :
    (exec (runPhases env [.postCrew]) w).2 = (exec (postCrew env) w).2 := by
  rcases hr : exec (phase env .postCrew) w with ⟨e | _, t⟩
  · rw [exec_runPhases_error hstop hr]
    exact (congrArg Prod.snd hr).symm
  · rw [exec_runPhases_ok hstop hr]
    exact (congrArg Prod.snd hr).symm

theorem fixes_sendError (error : String) (code : Code) : Fixes scene (sendError env error code) :=
  Yields.ite (fun _ => fixes_send rfl) fun _ => fixes_send rfl

theorem fixes_reportStop : Fixes scene (reportStop env) := by
  refine fixes_get.bind fun _ => ?_
  split
  · exact Yields.ite (fun _ => fixes_sendError _ _) fun _ => fixes_pure _
  · exact fixes_pure _

theorem fixes_reportException (e : Exc) : Fixes scene (reportException env e) := by
  cases e with
  | timeout => exact fixes_sendError _ _
  | other message => exact fixes_sendError _ _
  | cancelled => exact fixes_throw _

/-- What is left of the run behind its phases sends no changeset. -/
theorem run_previews_eq (env : Env) :
    previews (exec (run env) {}).2.log = previews (exec (runPhases env phases) {}).2.log := by
  have hpost {x : Run PUnit} (hx : Fixes scene x) (w : World) :
      previews (exec x w).2.log = previews w.log := by
    have h : Ends x w (Post (fun _ => Same scene) (Same scene) w) := hx w
    rcases hr : exec x w with ⟨_ | _, t⟩
    · exact same_previews (h.of_exec hr)
    · exact same_previews (h.of_exec hr)
  rcases hr : exec (runPhases env phases) {} with ⟨e | _, w⟩
  · rw [exec_run_error hr]
    exact hpost (fixes_reportException e) w
  · rw [exec_run_ok hr]
    exact hpost fixes_reportStop w

/-- A changeset message shows what the last phase made of its crew's result,
which it started on with the run's aim intact. -/
structure FromCrew (env : Env) (resultText : List Char) (p : Preview) : Prop where
  result : (entry env).ctx.crewResult = some (.completed resultText)
  aimed : Aimed env (entry env).ctx
  shown : p = preview env (entry env).ctx resultText

theorem run_previews (env : Env) :
    ∀ p ∈ previews (exec (run env) {}).2.log, ∃ resultText, FromCrew env resultText p := by
  rw [run_previews_eq]
  intro p hp
  obtain ⟨-, hretries, hnone⟩ := by simpa only [fresh, Prod.mk.injEq] using fresh_entry env
  have hcalm : Ends (runPhases env phases.dropLast) {} fun r w => r = .ok ⟨⟩ →
      w.ctx.shouldStop = false → Calm env {} w := runPhases_calm phases.dropLast {} (by decide)
  rw [exec_phases, exec_bind] at hp
  rcases hr : exec (runPhases env phases.dropLast) {} with ⟨e | _, w⟩
  · obtain rfl : entry env = w := by rw [entry, hr]
    rw [hr] at hp
    simp [hnone] at hp
  · have hw : entry env = w := by rw [entry, hr]
    have hcalm := hcalm.of_exec hr rfl
    rw [hr] at hp
    rw [hw] at hretries hnone
    cases hstop : w.ctx.shouldStop with
    | true =>
      simp [exec_runPhases_stopped hstop, hnone] at hp
    | false =>
      simp only [exec_lastPhase hstop] at hp
      have hend : ∀ p ∈ previews (exec (postCrew env) w).2.log, _ := postCrew_previews hretries
      obtain h | ⟨resultText, hresult, hshown⟩ := hend p hp
      · simp [hnone] at h
      · exact ⟨resultText, hw ▸ hresult, hw ▸ (hcalm hstop).aim nofun, hw ▸ hshown⟩

end AlfredProcessing.Pipeline.Entry
