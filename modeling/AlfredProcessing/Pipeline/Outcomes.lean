import AlfredProcessing.Pipeline.Runner

namespace AlfredProcessing.Pipeline.Outcomes

open Lib.Json Lib.Effects Extract.Changes PostBuild.Backfill PostBuild.Reflection Context DryRun
  Phases

def isCancel : Event → Bool
  | .stopped s => s.code = .userCancel
  | _ => false

def isErrorStop : Event → Bool
  | .stopped s => s.code ≠ .userCancel
  | _ => false

def isResult : Event → Bool
  | .sent .chatReply => true
  | .sent .insightsReply => true
  | .sent .planDoc => true
  | .sent (.changeset ..) => true
  | _ => false

def isFailure : Event → Bool
  | .sent (.error ..) => true
  | .sent (.runCancelled _) => true
  | _ => false

def isTerminal (e : Event) : Bool := isResult e || isFailure e

def quiet (e : Event) : Bool := !isFailure e && !isErrorStop e

def flags (c : Ctx) : Bool × Option StopSignal := (c.shouldStop, c.stopSignal)

def bearings (c : Ctx) : Mode × (Bool × Option StopSignal) × Option Dict × Option String :=
  (c.mode, flags c, c.reportCandidate, c.intent)

/-- The task of the run is never cancelled, which on a connection means that
its client stays. -/
def Live (env : Env) : Prop := ∀ p, env.raised p ≠ some .cancelled

section Relations

variable (env : Env)

/-- From `w` to `w'` the run sent `n` results and did not fail; only a cancel
may have stopped it. -/
def Delivers (n : Nat) (w w' : World) : Prop :=
  ∃ new, w'.log = w.log ++ new ∧ (∀ e ∈ new, quiet e) ∧ new.countP isResult = n ∧
    (new.any isCancel → ∃ p, env.frame p) ∧
    flags w'.ctx = if new.any isCancel then (true, some cancelSignal) else flags w.ctx

/-- A report candidate comes from the prompt's marker and sets the intent. -/
def Aimed (c : Ctx) : Prop := ∀ candidate, c.reportCandidate = some candidate →
  (env.reportMarker.filter fun _ => env.reportHandoff) = some candidate ∧
    c.intent = some "create_report"

/-- Nothing was delivered, and the run keeps to its mode and its aim. -/
structure Calm (w w' : World) : Prop where
  delivers : Delivers env 0 w w'
  mode : w.ctx.mode = .dev → w'.ctx.mode = .dev
  aim : Aimed env w.ctx → Aimed env w'.ctx

def Failed (w w' : World) : Prop :=
  ∃ mid s, Calm env w mid ∧ s.code ≠ .userCancel ∧ w'.log = mid.log ++ [.stopped s] ∧
    flags w'.ctx = (true, some s)

/-- A short circuit replied, after which the run ends. -/
def Answered (w w' : World) : Prop :=
  ∃ mid, Delivers env 1 w mid ∧ w'.log = mid.log ∧ flags w'.ctx = (true, mid.ctx.stopSignal)

def Outcome (w w' : World) : Prop := Calm env w w' ∨ Failed env w w' ∨ Answered env w w'

def Finished (w w' : World) : Prop := Delivers env 1 w w' ∨ Failed env w w'

def Lost (e : Exc) (_ _ : World) : Prop := e = .cancelled ∧ ¬Live env

/-- What an exception says of the run: nothing more, unless the task was
cancelled, was delivered before. -/
def Raised (e : Exc) (w w' : World) : Prop := Lost env e w w' ∨ e ≠ .cancelled ∧ Calm env w w'

end Relations

/-- What holds of a step still holds when the run went on calmly before it. -/
class Absorbs (env : outParam Env) (S : World → World → Prop) : Prop where
  after : ∀ {w t u}, Calm env w t → S t u → S w u

/-- A way to raise that cancelled tasks take. -/
class Passes (env : outParam Env) (X : Exc → World → World → Prop) : Prop where
  lost : ∀ {e w w'}, Lost env e w w' → X e w w'
  absorbs : ∀ e, Absorbs env (X e)

variable {env : Env} {w w' w'' : World} {m n : Nat}

theorem Delivers.refl (w : World) : Delivers env 0 w w := ⟨[], by simp⟩

theorem Delivers.trans (h : Delivers env m w w') (h' : Delivers env n w' w'') :
    Delivers env (m + n) w w'' := by
  obtain ⟨new, hlog, hquiet, hcount, hframe, hflags⟩ := h
  obtain ⟨new', hlog', hquiet', hcount', hframe', hflags'⟩ := h'
  refine ⟨new ++ new', by rw [hlog', hlog, List.append_assoc], ?_, ?_, ?_, ?_⟩
  · intro e he
    exact (List.mem_append.mp he).elim (hquiet e) (hquiet' e)
  · rw [List.countP_append, hcount, hcount']
  · rw [List.any_append, Bool.or_eq_true]
    exact fun h => h.elim hframe hframe'
  · rw [hflags', hflags, List.any_append]
    cases new.any isCancel <;> cases new'.any isCancel <;> rfl

theorem Calm.refl (w : World) : Calm env w w := ⟨.refl w, id, id⟩

theorem Calm.trans (h : Calm env w w') (h' : Calm env w' w'') : Calm env w w'' :=
  ⟨h.delivers.trans h'.delivers, h'.mode ∘ h.mode, h'.aim ∘ h.aim⟩

instance : Absorbs env (Calm env) := ⟨Calm.trans⟩

instance : Absorbs env (Delivers env n) where
  after h h' := by simpa only [Nat.zero_add] using h.delivers.trans h'

instance : Absorbs env (Failed env) where
  after := by
    rintro _ _ _ h ⟨mid, s, hmid, hrest⟩
    exact ⟨mid, s, h.trans hmid, hrest⟩

theorem Answered.after (h : Delivers env 0 w w') (h' : Answered env w' w'') :
    Answered env w w'' := by
  obtain ⟨mid, hmid, hrest⟩ := h'
  exact ⟨mid, by simpa only [Nat.zero_add] using h.trans hmid, hrest⟩

instance : Absorbs env (Answered env) := ⟨fun h => Answered.after h.delivers⟩

instance {S T : World → World → Prop} [Absorbs env S] [Absorbs env T] :
    Absorbs env fun w w' => S w w' ∨ T w w' where
  after h h' := h'.imp (Absorbs.after h) (Absorbs.after h)

instance : Absorbs env (Outcome env) :=
  inferInstanceAs (Absorbs env fun w w' => Calm env w w' ∨ Failed env w w' ∨ Answered env w w')

instance : Absorbs env (Finished env) :=
  inferInstanceAs (Absorbs env fun w w' => Delivers env 1 w w' ∨ Failed env w w')

instance : Passes env (Lost env) := ⟨id, fun _ => ⟨fun _ h => h⟩⟩

instance : Passes env (Raised env) where
  lost := .inl
  absorbs _ := ⟨fun h h' => h'.imp id fun h' => ⟨h'.1, h.trans h'.2⟩⟩

section Calls

variable {X : Exc → World → World → Prop} {S : World → World → Prop} {p : Point} {m : Message}
  {α β : Type}

theorem calm_pure (a : α) : Yields X (Calm env) (pure a) := .pure .refl a

theorem calm_get : Yields X (Calm env) get := .get .refl

theorem andThen [Passes env X] [Absorbs env S] {x : Run α} {f : α → Run β}
    (hx : Yields X (Calm env) x) (hf : ∀ a, Yields X S (f a)) : Yields X S (x >>= f) :=
  hx.bind hf (fun e _ _ _ => (Passes.absorbs e).after) fun _ _ _ => Absorbs.after

theorem calm_updateCtx {f : Ctx → Ctx} (hmode : ∀ c, c.mode = .dev → (f c).mode = .dev)
    (hflags : ∀ c, flags (f c) = flags c) (haim : ∀ c, Aimed env c → Aimed env (f c)) :
    Yields X (Calm env) (updateCtx f) :=
  Yields.modify fun w => ⟨⟨[], by simp [hflags]⟩, hmode w.ctx, haim w.ctx⟩

theorem calm_record {f : Ctx → Ctx} (h : ∀ c, bearings (f c) = bearings c) :
    Yields X (Calm env) (updateCtx f) := by
  have hmode (c : Ctx) : (f c).mode = c.mode := congrArg Prod.fst (h c)
  have hflags (c : Ctx) : flags (f c) = flags c := congrArg (fun b => b.2.1) (h c)
  have hcandidate (c : Ctx) : (f c).reportCandidate = c.reportCandidate :=
    congrArg (fun b => b.2.2.1) (h c)
  have hintent (c : Ctx) : (f c).intent = c.intent := congrArg (fun b => b.2.2.2) (h c)
  refine calm_updateCtx (fun c hc => (hmode c).trans hc) hflags fun c haim candidate hc => ?_
  rw [hintent]
  exact haim candidate ((hcandidate c).symm.trans hc)

theorem calm_handleFrames : Yields X (Calm env) (handleFrames env p) := by
  refine Yields.ite (fun hp => ?_) fun _ => calm_pure _
  exact Yields.modify fun w =>
    ⟨⟨[.stopped cancelSignal], rfl, by decide, rfl, fun _ => ⟨p, hp⟩, rfl⟩, id, id⟩

theorem calm_emit {e : Event} (hq : quiet e) (hr : isResult e = false) (hc : isCancel e = false) :
    Yields X (Calm env) (emit e) :=
  Yields.modify fun w => ⟨⟨[e], by simp [hq, hr, hc]⟩, id, id⟩

theorem raised_throw {e : Exc} (he : env.raised p = some e) (w : World) : Raised env e w w := by
  by_cases hc : e = .cancelled
  · exact .inl ⟨hc, fun hlive => hlive p (hc ▸ he)⟩
  · exact .inr ⟨hc, .refl w⟩

theorem calm_await : Yields (Raised env) (Calm env) (await env p) := by
  refine andThen calm_handleFrames fun _ => ?_
  split
  · next e he => exact Yields.throw (raised_throw he)
  · exact calm_pure _

theorem calm_call : Yields (Raised env) (Calm env) (call env p) := by
  unfold call
  split
  · exact calm_pure _
  · next e hne he => exact Yields.throw (raised_throw he)
  · exact calm_pure _

variable [Passes env X]

theorem calm_pause : Yields X (Calm env) (pause env p) := by
  refine andThen calm_handleFrames fun _ => Yields.ite (fun hp => ?_) fun _ => calm_pure _
  exact Yields.throw fun w => Passes.lost (w := w) ⟨rfl, fun hlive => hlive p hp⟩

theorem calm_catching [Absorbs env S] {x handler : Run α} (hx : Yields (Raised env) S x)
    (hh : Yields X S handler) : Yields X S (catching x handler) := by
  refine hx.tryCatch fun e w t ht => ?_
  rcases ht with ht | ⟨he, hcalm⟩
  · rw [if_pos ht.1]
    exact Passes.lost (w := w) ht
  · rw [if_neg he]
    refine (hh t).mono fun r u hr => ?_
    cases r with
    | error e => exact (Passes.absorbs e).after hcalm hr
    | ok a => exact Absorbs.after hcalm hr

theorem calm_attempt : Yields X (Calm env) (attempt env p) :=
  calm_catching (andThen calm_await fun _ => calm_pure _) (calm_pure _)

theorem send_yields [Absorbs env S] (h : ∀ w : World, S w { w with log := w.log ++ [.sent m] }) :
    Yields X S (send env p m) := by
  refine andThen calm_handleFrames fun _ => Yields.ite (fun hp => ?_) fun _ => Yields.modify h
  intro w
  have hlost : Lost env .cancelled w w := ⟨rfl, fun hlive => hlive p hp⟩
  split
  · exact Passes.lost (w := w) hlost
  · exact Passes.lost (w := w) hlost

theorem calm_send (hm : isTerminal (.sent m) = false) : Yields X (Calm env) (send env p m) := by
  have hboth := Bool.or_eq_false_iff.mp hm
  refine send_yields fun w => ⟨⟨[.sent m], rfl, ?_⟩, id, id⟩
  simp [quiet, hboth, isErrorStop, isCancel]

theorem send_delivers (hm : isResult (.sent m)) :
    Yields X (Delivers env 1) (send env p m) := by
  refine send_yields fun w => ⟨[.sent m], rfl, ?_⟩
  cases m <;> simp_all [quiet, isResult, isFailure, isErrorStop, isCancel]

theorem calm_inDev {x : Run PUnit} (hx : Yields X (Calm env) x) : Yields X (Calm env) (inDev x) :=
  andThen calm_get fun _ => Yields.ite (fun _ => hx) fun _ => calm_pure _

theorem ends_inDev {x : Run PUnit} {w : World} {Q : Except Exc PUnit → World → Prop}
    (hdev : w.ctx.mode = .dev) (hx : Ends x w Q) : Ends (inDev x) w Q := by
  unfold Ends at hx ⊢
  simpa only [inDev, exec_bind, exec_get, if_pos hdev] using hx

theorem calm_throw {message : String} :
    Yields (Raised env) (Calm env) (throw (.other message) : Run α) :=
  Yields.throw fun w => .inr ⟨Exc.noConfusion, .refl w⟩

theorem calm_liftPy (x : Except PyError α) : Yields (Raised env) (Calm env) (liftPy x) := by
  rcases x with (_ | _ | _) | _
  · exact calm_throw
  · exact calm_throw
  · exact calm_throw
  · exact calm_pure _

end Calls

section Phases

variable {X : Exc → World → World → Prop}

theorem calm_devMode : Yields X (Calm env) (updateCtx fun c => { c with mode := .dev }) :=
  calm_updateCtx (fun _ _ => rfl) (fun _ => rfl) fun _ h => h

theorem stop_fails {error : String} {code : Code} (hcode : code ≠ .userCancel) :
    Yields X (Failed env) (stop error code) :=
  Yields.modify fun w => ⟨w, ⟨error, code⟩, .refl w, hcode, rfl, rfl⟩

theorem stop_outcome {error : String} {code : Code} (hcode : code ≠ .userCancel) :
    Yields X (Outcome env) (stop error code) :=
  (stop_fails hcode).mono (fun _ _ _ h => h) fun _ _ h => .inr (.inl h)

theorem calm_outcome {α : Type} {x : Run α} (hx : Yields X (Calm env) x) :
    Yields X (Outcome env) x :=
  hx.mono (fun _ _ _ h => h) fun _ _ h => .inl h

variable [Passes env X]

theorem sanitize_outcome : Yields (Raised env) (Outcome env) (sanitize env) := by
  refine andThen calm_call fun _ => Yields.ite (fun _ => calm_outcome (calm_pure _)) fun _ => ?_
  exact stop_outcome (by split <;> exact Code.noConfusion)

theorem calm_loadState : Yields (Raised env) (Calm env) (loadState env) :=
  andThen (calm_record fun _ => rfl) fun _ => andThen calm_await fun _ => calm_record fun _ => rfl

theorem warmup_outcome : Yields (Raised env) (Outcome env) (warmup env) := by
  refine andThen calm_call fun _ => ?_
  split
  · exact calm_outcome (calm_pure _)
  · exact andThen calm_pause fun _ =>
      Yields.ite (fun _ => calm_outcome (calm_pure _)) fun _ => stop_outcome Code.noConfusion

theorem checkPlan_outcome : Yields (Raised env) (Outcome env) (checkPlan env) := by
  refine andThen calm_await fun _ => Yields.ite (fun _ => ?_) fun _ => stop_outcome Code.noConfusion
  refine calm_outcome (Yields.ite (fun _ => andThen (calm_send rfl) fun _ => ?_) fun _ => ?_)
  all_goals
    split
    · exact calm_record fun _ => rfl
    · exact calm_pure _

theorem planCheck_outcome : Yields (Raised env) (Outcome env) (planCheck env) :=
  Yields.ite (fun _ => calm_catching checkPlan_outcome (calm_outcome (calm_pure _)))
    fun _ => calm_outcome (calm_pure _)

theorem calm_saveMemory : Yields X (Calm env) (saveMemory env) := by
  refine andThen calm_get fun _ => Yields.ite (fun _ => ?_) fun _ => calm_pure _
  exact andThen calm_attempt fun _ => Yields.ite (fun _ => calm_pure _) fun _ => calm_send rfl

theorem shortCircuit_delivers {handler reply : Point} {m : Message} (hm : isResult (.sent m)) :
    Yields (Lost env) (Delivers env 1) (shortCircuit env handler reply m) := by
  have hsave : Yields (Lost env) (Calm env) (saveMemory env) := calm_saveMemory
  have hreply : Yields (Lost env) (Delivers env 1) (send env reply m) := send_delivers hm
  exact andThen calm_attempt fun _ =>
    hreply.bind (fun _ => hsave) (fun _ _ _ _ _ h => h) fun _ _ _ h h' => h.trans h'.delivers

theorem reply_answers {x : Run PUnit} (hx : Yields (Lost env) (Delivers env 1) x) :
    Yields (Lost env) (Answered env)
      (x >>= fun _ => updateCtx fun c => { c with shouldStop := true }) := by
  have hstop : Yields (Lost env)
      (fun w w' => w'.log = w.log ∧ flags w'.ctx = (true, w.ctx.stopSignal))
      (updateCtx fun c => { c with shouldStop := true }) := Yields.modify fun _ => ⟨rfl, rfl⟩
  exact hx.bind (fun _ => hstop) (fun _ _ _ _ _ h => h) fun w mid _ h h' => ⟨mid, h, h'⟩

theorem switch_answers {mode : Mode} {x : Run PUnit} (hx : Yields (Lost env) (Answered env) x) :
    Yields (Raised env) (Outcome env) (do
      updateCtx fun c => { c with mode := mode }
      send env .modeSwitch (.modeSwitch mode)
      x) := by
  have hmode : Yields (Lost env) (Delivers env 0) (updateCtx fun c => { c with mode := mode }) :=
    Yields.modify fun w => ⟨[], by simp [flags]⟩
  have hrest : Yields (Lost env) (Answered env)
      (send env .modeSwitch (.modeSwitch mode) >>= fun _ => x) :=
    andThen (calm_send rfl) fun _ => hx
  refine (hmode.bind (fun _ => hrest) (fun _ _ _ _ _ h => h) fun _ _ _ => Answered.after).mono
    (fun _ _ _ h => .inl h) fun _ _ h => .inr (.inr h)

theorem orchestrate_outcome : Yields (Raised env) (Outcome env) (orchestrate env) := by
  refine Yields.ite (fun _ => ?_) fun _ => calm_outcome calm_devMode
  refine andThen calm_await fun _ => ?_
  cases env.decision with
  | chat => exact switch_answers (reply_answers (shortCircuit_delivers rfl))
  | insights => exact switch_answers (reply_answers (shortCircuit_delivers rfl))
  | plan => exact switch_answers (reply_answers (shortCircuit_delivers rfl))
  | dev =>
    exact calm_outcome (andThen calm_devMode fun _ =>
      andThen (calm_send rfl) fun _ => calm_pure _)

theorem calm_classifyIntent : Yields (Raised env) (Calm env) (classifyIntent env) := by
  refine calm_inDev (Yields.ite (fun _ => ?_) fun _ => calm_pure _)
  split
  · next candidate hmarker =>
    refine calm_updateCtx (fun _ h => h) (fun _ => rfl) fun c _ candidate' hc => ?_
    exact ⟨hmarker.trans hc, rfl⟩
  · next hmarker =>
    refine andThen calm_await fun _ =>
      calm_updateCtx (fun _ h => h) (fun _ => rfl) fun c haim candidate hc => ?_
    exact absurd ((haim candidate hc).1.symm.trans hmarker) nofun

theorem calm_classifyModule : Yields (Raised env) (Calm env) (classifyModule env) :=
  calm_inDev
    (Yields.ite (fun _ => andThen calm_await fun _ => calm_record fun _ => rfl) fun _ => calm_pure _)

theorem calm_enhance : Yields (Raised env) (Calm env) (enhance env) :=
  calm_inDev (andThen (calm_send rfl) fun _ => andThen calm_await fun _ => calm_record fun _ => rfl)

theorem calm_clarify : Yields X (Calm env) (clarify env) :=
  calm_inDev (andThen calm_pause fun _ => calm_record fun _ => rfl)

theorem calm_injectKb : Yields (Raised env) (Calm env) (injectKb env) := by
  refine calm_inDev (andThen calm_get fun _ => Yields.ite (fun _ => calm_pure _) fun _ => ?_)
  exact andThen calm_call fun _ =>
    Yields.ite (fun _ => andThen calm_pause fun _ => calm_record fun _ => rfl)
      fun _ => calm_record fun _ => rfl

theorem calm_resolveMode : Yields (Raised env) (Calm env) (resolveMode env) := by
  refine calm_inDev (andThen calm_get fun _ => ?_)
  split
  · exact andThen (calm_record fun _ => rfl) fun _ => calm_send rfl
  · exact andThen calm_call fun _ => andThen (calm_record fun _ => rfl) fun _ => calm_send rfl

theorem calm_provideModuleContext :
    Yields (Raised env) (Calm env) (provideModuleContext env) := by
  refine calm_inDev (andThen calm_get fun _ => Yields.ite (fun _ => ?_) fun _ => calm_pure _)
  exact andThen calm_call fun _ => calm_pause

theorem calm_buildCrew : Yields (Raised env) (Calm env) (buildCrew env) := by
  have hbuild : Yields (Raised env) (Calm env) (call env .buildCrew >>= fun _ =>
      updateCtx fun c => { c with dryRunRetries := 0 }) :=
    andThen calm_call fun _ => calm_record fun _ => rfl
  exact calm_inDev (andThen calm_get fun _ =>
    Yields.ite (fun _ => andThen calm_await fun _ => hbuild) fun _ => hbuild)

theorem calm_runCrew : Yields (Raised env) (Calm env) (runCrew env) := by
  refine calm_inDev (andThen calm_await fun _ => andThen (calm_record fun _ => rfl) fun _ => ?_)
  exact calm_catching (Yields.ite (fun _ => calm_send rfl) fun _ => calm_pure _) (calm_pure _)

theorem calm_applyRescueIfEmpty (changes : List Change) :
    Yields X (Calm env) (applyRescueIfEmpty env changes) := by
  refine Yields.ite (fun _ => calm_pure _) fun _ => andThen calm_get fun _ => ?_
  refine Yields.ite (fun _ => calm_pure _) fun _ => andThen calm_attempt fun _ => ?_
  refine Yields.ite (fun _ => ?_) fun _ => calm_pure _
  split
  · exact calm_pure _
  · exact calm_pure _

theorem calm_applyModuleValidation (changes : List Change) :
    Yields X (Calm env) (applyModuleValidation env changes) := by
  refine andThen calm_get fun _ => ?_
  split
  · exact Yields.ite (fun _ => andThen calm_pause fun _ => calm_record fun _ => rfl)
      fun _ => calm_pure _
  · exact calm_pure _

theorem calm_safetyNets (resultText : List Char) :
    Yields (Raised env) (Calm env) (safetyNets env resultText) :=
  andThen (calm_liftPy _) fun _ => andThen (calm_record fun _ => rfl) fun _ =>
    andThen (calm_applyRescueIfEmpty _) fun _ => andThen calm_get fun _ =>
    andThen (calm_record fun _ => rfl) fun _ =>
    andThen (calm_applyModuleValidation _) fun _ => calm_pure _

theorem calm_runDryRun {p : Point} (answer : Value) (changes : List Change) :
    Yields X (Calm env) (runDryRun env p answer changes) :=
  andThen calm_attempt fun _ => andThen (calm_emit rfl rfl rfl) fun _ => calm_pure _

theorem calm_readChecked (answer : Value) :
    Yields (Raised env) (Calm env) (readChecked env answer) := by
  unfold readChecked
  split
  · split
    case h_6 => split <;> first | exact calm_pure _ | exact calm_throw
    all_goals first | exact calm_pure _ | exact calm_throw
  · exact calm_pure _

theorem calm_firstDryRun (changes : List Change) :
    Yields (Raised env) (Calm env) (firstDryRun env changes) :=
  andThen calm_attempt fun _ => Yields.ite (fun _ => calm_runDryRun _ _) fun _ =>
    andThen (calm_liftPy _) fun _ => andThen (calm_readChecked _) fun _ => calm_pure _

theorem calm_selfHeal (changes : List Change) (verdict : DryRun) :
    Yields X (Calm env) (selfHeal env changes verdict) := by
  refine calm_catching (andThen (calm_emit rfl rfl rfl) fun _ => andThen calm_await fun _ =>
    andThen (calm_liftPy _) fun _ => ?_) (andThen (calm_send rfl) fun _ => calm_pure _)
  exact Yields.ite (fun _ => andThen (calm_send rfl) fun _ => calm_pure _) fun _ =>
    andThen (calm_runDryRun _ _) fun _ => calm_pure _

theorem calm_describeRetry (verdict : DryRun) :
    Yields (Raised env) (Calm env) (describeRetry env verdict) :=
  andThen calm_call fun _ => Yields.ite (fun _ => calm_pure _) fun _ => calm_throw

theorem calm_dryRunWithRetry (changes : List Change) :
    Yields (Raised env) (Calm env) (dryRunWithRetry env changes) := by
  refine Yields.ite (fun _ => calm_pure _) fun _ => andThen (calm_send rfl) fun _ => ?_
  refine andThen (calm_firstDryRun _) fun _ => andThen calm_get fun _ => ?_
  refine Yields.ite (fun _ => calm_pure _) fun _ => andThen (calm_record fun _ => rfl) fun _ => ?_
  exact andThen (calm_describeRetry _) fun _ => andThen (calm_send rfl) fun _ => calm_selfHeal _ _

theorem calm_reflectMinimality (changes : List Change) :
    Yields X (Calm env) (reflectMinimality env changes) :=
  Yields.ite (fun _ => andThen calm_pause fun _ => calm_pure _) fun _ => calm_pure _

theorem shipChangeset_finishes (changes : List Change) :
    Yields (Raised env) (Finished env) (shipChangeset env changes) := by
  refine andThen (calm_dryRunWithRetry _) fun _ => andThen (calm_record fun _ => rfl) fun _ => ?_
  refine andThen calm_saveMemory fun _ => andThen calm_get fun _ => ?_
  exact (send_delivers rfl).mono (fun _ _ _ h => h) fun _ _ h => .inl h

theorem finishChangeset_finishes (changes : List Change) :
    Yields (Raised env) (Finished env) (finishChangeset env changes) := by
  refine andThen (calm_reflectMinimality _) fun _ => andThen (calm_record fun _ => rfl) fun _ => ?_
  exact Yields.ite (fun _ => andThen (calm_send rfl) fun _ => shipChangeset_finishes _)
    fun _ => shipChangeset_finishes _

theorem postCrew_finishes (hdev : w.ctx.mode = .dev) :
    Ends (postCrew env) w (Post (Raised env) (Finished env) w) := by
  have hfail : ∀ error code, code ≠ .userCancel →
      Yields (Raised env) (Finished env) (stop error code) := fun _ _ hcode =>
    (stop_fails hcode).mono (fun _ _ _ h => h) fun _ _ h => .inr h
  refine ends_inDev hdev (andThen calm_get (fun w => ?_) w)
  split
  · refine andThen (calm_record fun _ => rfl) fun _ => andThen (calm_send rfl) fun _ => ?_
    refine andThen (calm_safetyNets _) fun _ => ?_
    exact Yields.ite (fun _ => hfail _ _ Code.noConfusion) fun _ =>
      finishChangeset_finishes _
  · exact hfail _ _ Code.noConfusion
  · exact hfail _ _ Code.noConfusion

theorem phase_outcome {p : Phase} (hp : p ≠ .postCrew) :
    Yields (Raised env) (Outcome env) (phase env p) := by
  cases p with
  | sanitize => exact sanitize_outcome
  | loadState => exact calm_outcome calm_loadState
  | warmup => exact warmup_outcome
  | planCheck => exact planCheck_outcome
  | orchestrate => exact orchestrate_outcome
  | classifyIntent => exact calm_outcome calm_classifyIntent
  | classifyModule => exact calm_outcome calm_classifyModule
  | enhance => exact calm_outcome calm_enhance
  | clarify => exact calm_outcome calm_clarify
  | injectKb => exact calm_outcome calm_injectKb
  | resolveMode => exact calm_outcome calm_resolveMode
  | provideModuleContext => exact calm_outcome calm_provideModuleContext
  | buildCrew => exact calm_outcome calm_buildCrew
  | runCrew => exact calm_outcome calm_runCrew
  | postCrew => exact absurd rfl hp

end Phases

end AlfredProcessing.Pipeline.Outcomes
