import AlfredProcessing.Pipeline.DryRunVerdict

namespace AlfredProcessing.Pipeline.DryRunTotality

open Lib.Fallible Lib.Json Lib.Effects Extract.Changes PostBuild.Backfill Context DryRun Frames DryRunVerdict

section Model

variable (env : Env)

/-- `await event_callback(...)`, whatever the callback raises. -/
def notify (p : Point) : Run PUnit := do
  await env p
  emit (.sent .agentStatus)

/-- The second attempt of `_dry_run_with_retry`, with a callback that may raise. -/
def selfHealNotifying (changes : List Change) (verdict : DryRun) : Run (DryRun × List Change) :=
  catching (do
    emit .selfHealed
    await env .fixCrew
    let fixed ← liftPy (extract env env.retryText)
    if fixed.isEmpty then
      notify env .retryEmpty
      pure (verdict, changes)
    else
      let again ← runDryRun env .dryRunFixed env.fixedAnswer fixed
      pure (again, fixed))
  (do
    notify env .retryFailed
    pure (verdict, changes))

/-- `_dry_run_with_retry` with a callback that may raise. -/
def dryRunNotifying (changes : List Change) : Run (DryRun × List Change) :=
  if !env.hasMcp then
    pure ({
      status := .skipped
      fields := [(str "valid", .bool true), (str "issues", .list []), (str "validated", .int 0)] },
      changes)
  else do
    notify env .dryRunRunning
    let verdict ← firstDryRun env changes
    let w ← get
    if verdict.valid || 1 ≤ w.ctx.dryRunRetries then pure (verdict, changes)
    else
      updateCtx fun c => { c with dryRunRetries := 1 }
      describeRetry env verdict
      notify env .dryRunRetry
      selfHealNotifying env changes verdict

def Throws (p : Point) : Prop := ∃ e, env.raised p = some e ∧ e ≠ .cancelled

/-- The issues of the static check that stand in for a dry run. -/
def preIssues : List Value :=
  if env.raised .preCheck = none then preCheckIssues env.preCheckAnswer else []

/-- `int` takes the count of the static check. -/
def countable : Value → Bool
  | .dict d _ =>
    match pyOr (pyGet d "checked") (.int 0) with
    | .bool _ => true
    | .int _ => true
    | .float .. => true
    | .str s => (env.intOfStr s).isSome
    | _ => false
  | _ => true

/-- The verdict of the first dry run, where no static check stands in for it. -/
def dryRunVerdict : DryRun := if env.raised .dryRun = none then readAnswer env.dryRunAnswer else infraError

def HealFails : Prop :=
  Throws env .fixCrew ∨ env.raised .fixCrew = none ∧
    match extract env env.retryText with
    | .error _ => True
    | .ok fixed => fixed.isEmpty ∧ Throws env .retryEmpty

def RetrySurvives (issues : Value) : Prop :=
  ¬Throws env .dumpChanges ∧ iterable issues ∧ ¬Throws env .dryRunRetry ∧
    (env.raised .dryRunRetry = none → HealFails env → ¬Throws env .retryFailed)

/-- No exception but a cancellation comes out, if none of the points before has been cancelled. -/
def Survives (retries : Nat) : Prop :=
  env.hasMcp →
    ¬Throws env .dryRunRunning ∧
    (env.raised .dryRunRunning = none → env.raised .preCheck ≠ some .cancelled →
      if (preIssues env).isEmpty then
        env.raised .dryRun ≠ some .cancelled → (dryRunVerdict env).valid = false → retries = 0 →
          RetrySurvives env ((get (str "issues") (dryRunVerdict env).fields).getD (.list []))
      else
        (∀ i ∈ preIssues env, isDict i) ∧ countable env env.preCheckAnswer ∧
          (retries = 0 → RetrySurvives env (.list [])))

end Model

section Outcomes

variable {α β : Type} {env : Env} {p : Point} {w : World} {x : Run α} {f : α → Run β}

def outcome (x : Run α) (w : World) : Except Exc α := (exec x w).1

def reach (env : Env) (p : Point) : Except Exc PUnit :=
  match env.raised p with
  | some e => .error e
  | none => .ok ⟨⟩

abbrev retries (w : World) : Nat := w.ctx.dryRunRetries

instance : Stable retries where
  sent _ _ _ := rfl
  cancelled _ := rfl

theorem outcome_seq (x : Run α) (f : α → Run β) (w : World) :
    outcome (x >>= f) w = outcome x w >>= fun a => outcome (f a) (exec x w).2 := by
  unfold outcome
  rw [exec_bind]
  cases exec x w with
  | mk r t => cases r <;> rfl

theorem retries_of_ok {a : α} (hx : Fixes retries x) (ha : outcome x w = .ok a) :
    retries (exec x w).2 = retries w := by
  have hkeep := hx w
  unfold Ends at hkeep
  rw [show (exec x w).1 = .ok a from ha] at hkeep
  exact hkeep

theorem outcome_bind {g : α → Except Exc β} (hx : Fixes retries x)
    (hf : ∀ a t, retries t = retries w → outcome (f a) t = g a) :
    outcome (x >>= f) w = outcome x w >>= g := by
  rw [outcome_seq]
  cases ha : outcome x w with
  | error e => rfl
  | ok a => exact hf a _ (retries_of_ok hx ha)

theorem outcome_await (env : Env) (p : Point) (w : World) : outcome (await env p) w = reach env p :=
  await_value env p w

theorem fixes_emit (e : Event) : Fixes retries (emit e) := Yields.modify fun _ => rfl

theorem fixes_notify : Fixes retries (notify env p) := fixes_await.bind fun _ => fixes_emit _

theorem outcome_notify (env : Env) (p : Point) (w : World) : outcome (notify env p) w = reach env p := by
  have hbind : outcome (notify env p) w = outcome (await env p) w >>= fun _ => .ok ⟨⟩ :=
    outcome_bind fixes_await fun _ _ _ => rfl
  rw [hbind, outcome_await]
  unfold reach
  cases env.raised p <;> rfl

theorem outcome_catching {handler : Run α} {r : Except Exc α} (h : ∀ t, outcome handler t = r) :
    outcome (catching x handler) w =
      match outcome x w with
      | .ok a => .ok a
      | .error e => if e = .cancelled then .error e else r := by
  unfold outcome catching
  rw [exec_tryCatch]
  cases hr : exec x w with
  | mk s t =>
    cases s with
    | ok a => rfl
    | error e =>
      dsimp only
      split_ifs with he
      · rfl
      · exact h t

theorem outcome_attempt (env : Env) (p : Point) (w : World) : outcome (attempt env p) w =
    if env.raised p = some .cancelled then .error .cancelled else .ok (decide (env.raised p = none)) := by
  have hbind : outcome (await env p >>= fun _ => pure true) w = outcome (await env p) w >>= fun _ => .ok true :=
    outcome_bind fixes_await fun _ _ _ => rfl
  rw [attempt, outcome_catching (r := .ok false) (fun _ => rfl), hbind, outcome_await]
  unfold reach
  cases hr : env.raised p with
  | none => rfl
  | some e =>
    by_cases he : e = .cancelled
    · subst he
      rfl
    · simp [he, bind, Except.bind]

theorem fixes_runDryRun (answer : Value) (changes : List Change) : Fixes retries (runDryRun env p answer changes) :=
  fixes_attempt.bind fun _ => (fixes_emit _).bind fun _ => fixes_pure _

theorem outcome_runDryRun (env : Env) (p : Point) (answer : Value) (changes : List Change) (w : World) :
    outcome (runDryRun env p answer changes) w =
      if env.raised p = some .cancelled then .error .cancelled
      else .ok (if env.raised p = none then readAnswer answer else infraError) := by
  have hbind : outcome (runDryRun env p answer changes) w = outcome (attempt env p) w >>= fun answered =>
      .ok (if answered then readAnswer answer else infraError) :=
    outcome_bind fixes_attempt fun _ _ _ => rfl
  rw [hbind, outcome_attempt]
  split_ifs with hcancelled hnone
  · rfl
  · rw [decide_eq_true hnone]
    rfl
  · rw [decide_eq_false hnone]
    rfl

end Outcomes

section Totality

variable {α β : Type} {env : Env} {p : Point} {r : Except Exc α} {g : α → Except Exc β}

def Quiet (r : Except Exc α) : Prop := ∀ e, r = .error e → e = .cancelled

theorem quiet_ok (a : α) : Quiet (.ok a : Except Exc α) := fun _ h => by cases h

theorem quiet_cancelled : Quiet (.error .cancelled : Except Exc α) := fun _ h => by
  cases h
  rfl

theorem not_quiet {e : Exc} (he : e ≠ .cancelled) : ¬Quiet (.error e : Except Exc α) := fun h => he (h e rfl)

theorem quiet_bind : Quiet (r >>= g) ↔ Quiet r ∧ ∀ a, r = .ok a → Quiet (g a) := by
  cases r with
  | error e =>
    constructor
    · exact fun h => ⟨fun e' he' => h e' (by cases he'; rfl), fun a ha => by cases ha⟩
    · rintro ⟨h, -⟩ e' he'
      cases he'
      exact h e rfl
  | ok a =>
    constructor
    · exact fun h => ⟨quiet_ok a, fun b hb => by cases hb; exact h⟩
    · exact fun ⟨_, h⟩ => h a rfl

theorem quiet_reach (env : Env) (p : Point) : Quiet (reach env p) ↔ ¬Throws env p := by
  unfold Throws reach
  cases hr : env.raised p with
  | none => exact iff_of_true (quiet_ok _) fun ⟨_, h, _⟩ => by cases h
  | some e =>
    constructor
    · rintro h ⟨e', he', hne⟩
      cases he'
      exact hne (h e rfl)
    · intro h e' he'
      cases he'
      by_contra hne
      exact h ⟨e, rfl, hne⟩

theorem reach_eq_ok {a : PUnit} : reach env p = .ok a ↔ env.raised p = none := by
  unfold reach
  cases env.raised p with
  | none => exact iff_of_true rfl rfl
  | some e => exact iff_of_false (fun h => by cases h) (fun h => by cases h)

theorem quiet_reach_bind (p : Point) {f : PUnit → Except Exc β} :
    Quiet (reach env p >>= f) ↔ ¬Throws env p ∧ (env.raised p = none → Quiet (f ⟨⟩)) := by
  rw [quiet_bind, quiet_reach]
  exact and_congr_right fun _ => ⟨fun h hp => h ⟨⟩ (reach_eq_ok.mpr hp), fun h _ hp => h (reach_eq_ok.mp hp)⟩

/-- What `except Exception` makes of a computation: its handler runs unless that is quiet. -/
theorem quiet_catching {x handler : Run α} {w : World} (h : ∀ t, outcome handler t = r) :
    Quiet (outcome (catching x handler) w) ↔ (¬Quiet (outcome x w) → Quiet r) := by
  rw [outcome_catching h]
  cases outcome x w with
  | ok a => exact iff_of_true (quiet_ok a) fun hx => absurd (quiet_ok a) hx
  | error e =>
    dsimp only
    split_ifs with he
    · subst he
      exact iff_of_true quiet_cancelled fun hx => absurd quiet_cancelled hx
    · exact ⟨fun hr _ => hr, fun hr => hr (not_quiet he)⟩

theorem outcome_liftPy (x : Except PyError α) (w : World) : (∃ a, x = .ok a ∧ outcome (liftPy x) w = .ok a) ∨
    (∃ err, x = .error err) ∧ ∃ e, e ≠ .cancelled ∧ outcome (liftPy x) w = .error e := by
  cases x with
  | ok a => exact .inl ⟨a, rfl, rfl⟩
  | error err =>
    right
    cases err with
    | attributeError => exact ⟨⟨_, rfl⟩, .other "AttributeError", by simp, rfl⟩
    | typeError => exact ⟨⟨_, rfl⟩, .other "TypeError", by simp, rfl⟩
    | valueError => exact ⟨⟨_, rfl⟩, .other "ValueError", by simp, rfl⟩

theorem outcome_liftPy_world (x : Except PyError α) (t w : World) : outcome (liftPy x) t = outcome (liftPy x) w := by
  rcases x with (_ | _) | _ <;> rfl

theorem outcome_emit_bind (e : Event) (f : PUnit → Run α) (w : World) :
    outcome (emit e >>= f) w = outcome (f ⟨⟩) { w with log := w.log ++ [e] } := by
  unfold outcome emit
  rw [exec_bind, exec_modify]

variable {changes : List Change} {verdict : DryRun} {w : World}

/-- The end of the second attempt, where a list of items has been extracted. -/
def afterExtract (env : Env) (changes : List Change) (verdict : DryRun) (fixed : List Change) :
    Except Exc (DryRun × List Change) :=
  if fixed.isEmpty then reach env .retryEmpty >>= fun _ => .ok (verdict, changes)
  else
    (if env.raised .dryRunFixed = some .cancelled then .error .cancelled
      else .ok (if env.raised .dryRunFixed = none then readAnswer env.fixedAnswer else infraError)) >>=
    fun again => .ok (again, fixed)

theorem quiet_afterExtract (fixed : List Change) :
    Quiet (afterExtract env changes verdict fixed) ↔ ¬(fixed.isEmpty ∧ Throws env .retryEmpty) := by
  unfold afterExtract
  by_cases hempty : fixed.isEmpty = true
  · rw [if_pos hempty, quiet_reach_bind]
    simp [hempty, quiet_ok]
  · rw [if_neg hempty]
    refine iff_of_true ?_ fun h => hempty h.1
    by_cases hcancelled : env.raised .dryRunFixed = some .cancelled
    · rw [if_pos hcancelled]
      exact quiet_cancelled
    · rw [if_neg hcancelled]
      exact quiet_ok _

theorem quiet_selfHeal (env : Env) (changes : List Change) (verdict : DryRun) (w : World) :
    Quiet (outcome (selfHealNotifying env changes verdict) w) ↔ (HealFails env → ¬Throws env .retryFailed) := by
  have hhandler : ∀ t, outcome (do
      notify env .retryFailed
      pure (verdict, changes)) t = reach env .retryFailed >>= fun _ => .ok (verdict, changes) := fun t =>
    (outcome_bind fixes_notify fun _ _ _ => rfl).trans (by rw [outcome_notify])
  have hafter (fixed : List Change) (t : World) : outcome (if fixed.isEmpty then do
        notify env .retryEmpty
        pure (verdict, changes)
      else do
        let again ← runDryRun env .dryRunFixed env.fixedAnswer fixed
        pure (again, fixed)) t = afterExtract env changes verdict fixed := by
    unfold afterExtract
    by_cases hempty : fixed.isEmpty = true
    · rw [if_pos hempty, if_pos hempty, ← outcome_notify env .retryEmpty t]
      exact outcome_bind fixes_notify fun _ _ _ => rfl
    · rw [if_neg hempty, if_neg hempty, ← outcome_runDryRun env .dryRunFixed env.fixedAnswer fixed t]
      exact outcome_bind (fixes_runDryRun _ _) fun _ _ _ => rfl
  unfold selfHealNotifying
  rw [quiet_catching hhandler, quiet_reach_bind]
  have hbody : Quiet (outcome (do
        emit .selfHealed
        await env .fixCrew
        let fixed ← liftPy (extract env env.retryText)
        if fixed.isEmpty then
          notify env .retryEmpty
          pure (verdict, changes)
        else
          let again ← runDryRun env .dryRunFixed env.fixedAnswer fixed
          pure (again, fixed)) w) ↔ ¬HealFails env := by
    have hrest (t : World) : outcome (do
          let fixed ← liftPy (extract env env.retryText)
          if fixed.isEmpty then
            notify env .retryEmpty
            pure (verdict, changes)
          else
            let again ← runDryRun env .dryRunFixed env.fixedAnswer fixed
            pure (again, fixed)) t =
        outcome (liftPy (extract env env.retryText)) w >>= afterExtract env changes verdict := by
      rw [← outcome_liftPy_world (extract env env.retryText) t w]
      exact outcome_bind (fixes_liftPy _) fun fixed u _ => hafter fixed u
    rw [outcome_emit_bind, outcome_bind fixes_await fun _ t _ => hrest t, outcome_await, quiet_reach_bind,
      quiet_bind]
    unfold HealFails
    rw [not_or, not_and]
    refine and_congr_right fun _ => imp_congr_right fun _ => ?_
    obtain ⟨fixed, hfixed, hok⟩ | ⟨⟨err, herr⟩, e, he, hraise⟩ := outcome_liftPy (extract env env.retryText) w
    · rw [hfixed] at hok ⊢
      rw [hok]
      refine ⟨fun h => ?_, fun h => ⟨quiet_ok _, fun a ha => ?_⟩⟩
      · exact (quiet_afterExtract fixed).mp (h.2 fixed rfl)
      · cases ha
        exact (quiet_afterExtract fixed).mpr h
    · rw [herr] at hraise ⊢
      rw [hraise]
      exact iff_of_false (fun h => not_quiet he h.1) (fun h => h trivial)
  rw [hbody, not_not]
  refine imp_congr_right fun _ => ?_
  exact ⟨fun h => h.1, fun h => ⟨h, fun _ => quiet_ok _⟩⟩

theorem describeRetry_done (env : Env) (verdict : DryRun) (w : World) :
    outcome (describeRetry env verdict) w = .ok ⟨⟩ ∧ ¬Throws env .dumpChanges ∧
        iterable ((get (str "issues") verdict.fields).getD (.list [])) ∨
      ¬Quiet (outcome (describeRetry env verdict) w) ∧ ¬(¬Throws env .dumpChanges ∧
        iterable ((get (str "issues") verdict.fields).getD (.list []))) := by
  have hbind : outcome (describeRetry env verdict) w = outcome (call env .dumpChanges) w >>= fun _ =>
      if iterable ((get (str "issues") verdict.fields).getD (.list [])) then .ok ⟨⟩
      else .error (.other "TypeError") := by
    refine outcome_bind fixes_call fun _ t _ => ?_
    split_ifs <;> rfl
  have hcall : outcome (call env .dumpChanges) w = .ok ⟨⟩ ∧ ¬Throws env .dumpChanges ∨
      ∃ e, e ≠ .cancelled ∧ outcome (call env .dumpChanges) w = .error e ∧ Throws env .dumpChanges := by
    unfold call Throws
    cases hr : env.raised .dumpChanges with
    | none => exact .inl ⟨rfl, fun ⟨_, h, _⟩ => by cases h⟩
    | some e =>
      by_cases he : e = .cancelled
      · subst he
        exact .inl ⟨rfl, fun ⟨_, h, hne⟩ => by cases h; exact hne rfl⟩
      · refine .inr ⟨e, he, ?_, e, rfl, he⟩
        cases e <;> first | rfl | exact absurd rfl he
  rw [hbind]
  obtain ⟨hok, hnot⟩ | ⟨e, he, herr, hthrows⟩ := hcall
  · rw [hok]
    by_cases hiter : iterable ((get (str "issues") verdict.fields).getD (.list [])) = true
    · exact .inl ⟨by simp [hiter, bind, Except.bind], hnot, hiter⟩
    · refine .inr ⟨?_, fun h => hiter h.2⟩
      rw [if_neg hiter]
      exact not_quiet (by simp)
  · rw [herr]
    exact .inr ⟨not_quiet he, fun h => h.1 hthrows⟩

theorem quiet_seq {x : Run α} {f : α → Run β} {Q : α → Prop} (hx : Fixes retries x)
    (hf : ∀ a t, retries t = retries w → (Quiet (outcome (f a) t) ↔ Q a)) :
    Quiet (outcome (x >>= f) w) ↔ Quiet (outcome x w) ∧ ∀ a, outcome x w = .ok a → Q a := by
  rw [outcome_seq, quiet_bind]
  exact and_congr_right fun _ => forall_congr' fun a =>
    imp_congr_right fun ha => hf a _ (retries_of_ok hx ha)

theorem quiet_notify_bind {f : PUnit → Run β} {Q : Prop}
    (hf : ∀ t, retries t = retries w → (Quiet (outcome (f ⟨⟩) t) ↔ Q)) :
    Quiet (outcome (notify env p >>= f) w) ↔ ¬Throws env p ∧ (env.raised p = none → Q) := by
  rw [quiet_seq fixes_notify fun _ => hf, outcome_notify, quiet_reach]
  exact and_congr_right fun _ => ⟨fun h hp => h ⟨⟩ (reach_eq_ok.mpr hp), fun h _ hp => h (reach_eq_ok.mp hp)⟩

/-- The way from a bad first verdict on raises nothing just where it is said not to. -/
theorem quiet_retry (env : Env) (changes : List Change) (verdict : DryRun) (w : World) :
    Quiet (outcome (do
      describeRetry env verdict
      notify env .dryRunRetry
      selfHealNotifying env changes verdict) w) ↔
      RetrySurvives env ((get (str "issues") verdict.fields).getD (.list [])) := by
  have hhealed (t : World) : Quiet (outcome (do
      notify env .dryRunRetry
      selfHealNotifying env changes verdict) t) ↔ ¬Throws env .dryRunRetry ∧
        (env.raised .dryRunRetry = none → HealFails env → ¬Throws env .retryFailed) :=
    quiet_notify_bind fun u _ => quiet_selfHeal env changes verdict u
  rw [quiet_seq (fixes_describeRetry verdict) fun _ t _ => hhealed t]
  unfold RetrySurvives
  obtain ⟨hok, hnot, hiter⟩ | ⟨hraises, hnot⟩ := describeRetry_done env verdict w
  · rw [hok]
    exact ⟨fun h => ⟨hnot, hiter, h.2 ⟨⟩ rfl⟩, fun h => ⟨quiet_ok _, fun _ _ => h.2.2⟩⟩
  · exact iff_of_false (fun h => hraises h.1) fun h => hnot ⟨h.1, h.2.1⟩

theorem outcome_readChecked_world (answer : Value) (t w : World) :
    outcome (readChecked env answer) t = outcome (readChecked env answer) w := by
  unfold readChecked
  split
  · split
    case h_6 => split <;> rfl
    all_goals rfl
  · rfl

def preVerdict (normalized : List Value) (checked : Int) : DryRun where
  status := .invalid
  fields := [(str "valid", .bool false), (str "issues", .list normalized), (str "validated", .int checked)]

theorem fixes_firstDryRun (env : Env) (changes : List Change) : Fixes retries (firstDryRun env changes) :=
  fixes_attempt.bind fun _ => Yields.ite (fun _ => fixes_runDryRun _ _) fun _ =>
    (fixes_liftPy _).bind fun _ => (fixes_readChecked _).bind fun _ => fixes_pure _

theorem outcome_firstDryRun (env : Env) (changes : List Change) (w : World) :
    outcome (firstDryRun env changes) w =
      if env.raised .preCheck = some .cancelled then .error .cancelled
      else if (preIssues env).isEmpty then
        if env.raised .dryRun = some .cancelled then .error .cancelled else .ok (dryRunVerdict env)
      else outcome (liftPy ((preIssues env).mapM normalizeIssue)) w >>= fun normalized =>
        outcome (readChecked env env.preCheckAnswer) w >>= fun checked => .ok (preVerdict normalized checked) := by
  have hissues : (if decide (env.raised .preCheck = none) then preCheckIssues env.preCheckAnswer else []) =
      preIssues env := by
    unfold preIssues
    by_cases h : env.raised .preCheck = none
    · rw [if_pos h, decide_eq_true h, if_pos rfl]
    · rw [if_neg h, decide_eq_false h]
      rfl
  have hshown (t : World) : outcome (do
      let normalized ← liftPy ((preIssues env).mapM normalizeIssue)
      let checked ← readChecked env env.preCheckAnswer
      pure (preVerdict normalized checked)) t =
      outcome (liftPy ((preIssues env).mapM normalizeIssue)) w >>= fun normalized =>
        outcome (readChecked env env.preCheckAnswer) w >>= fun checked =>
          .ok (preVerdict normalized checked) := by
    rw [← outcome_liftPy_world _ t w]
    refine outcome_bind (fixes_liftPy _) fun normalized u _ => ?_
    rw [← outcome_readChecked_world _ u w]
    exact outcome_bind (fixes_readChecked _) fun _ _ _ => rfl
  unfold firstDryRun
  rw [outcome_seq, outcome_attempt]
  by_cases hcancelled : env.raised .preCheck = some .cancelled
  · rw [if_pos hcancelled, if_pos hcancelled]
    rfl
  · rw [if_neg hcancelled, if_neg hcancelled]
    simp only [bind, Except.bind]
    rw [hissues]
    by_cases hempty : (preIssues env).isEmpty = true
    · rw [if_pos hempty, if_pos hempty, outcome_runDryRun]
      rfl
    · rw [if_neg hempty, if_neg hempty]
      exact hshown _

theorem normalize_done (issues : List Value) (w : World) :
    (∀ i ∈ issues, isDict i) ∧ (∃ xs, outcome (liftPy (issues.mapM normalizeIssue)) w = .ok xs) ∨
      ¬(∀ i ∈ issues, isDict i) ∧ ¬Quiet (outcome (liftPy (issues.mapM normalizeIssue)) w) := by
  have hdict (i : Value) : (∃ v, normalizeIssue i = .ok v) ↔ isDict i := by
    cases i <;> simp [normalizeIssue, isDict]
  have hall : (∃ xs, issues.mapM normalizeIssue = .ok xs) ↔ ∀ i ∈ issues, isDict i :=
    exists_mapM_eq_ok.trans (forall₂_congr fun i _ => hdict i)
  obtain ⟨xs, hxs, hok⟩ | ⟨⟨err, herr⟩, e, he, hraise⟩ :=
    outcome_liftPy (issues.mapM normalizeIssue) w
  · exact .inl ⟨hall.mp ⟨xs, hxs⟩, xs, hok⟩
  · refine .inr ⟨fun h => ?_, hraise ▸ not_quiet he⟩
    obtain ⟨xs, hxs⟩ := hall.mpr h
    rw [hxs] at herr
    cases herr

theorem readChecked_done (env : Env) (answer : Value) (w : World) :
    countable env answer ∧ (∃ n, outcome (readChecked env answer) w = .ok n) ∨
      ¬countable env answer ∧ ¬Quiet (outcome (readChecked env answer) w) := by
  have hraise (s : String) : ¬Quiet (outcome (throw (.other s) : Run Int) w) := not_quiet (by simp)
  cases answer with
  | dict d strays =>
    unfold countable readChecked
    dsimp only
    cases pyOr (pyGet d "checked") (.int 0) with
    | bool b => exact .inl ⟨rfl, _, rfl⟩
    | int n => exact .inl ⟨rfl, _, rfl⟩
    | float m e => exact .inl ⟨rfl, _, rfl⟩
    | str s =>
      dsimp only
      cases env.intOfStr s with
      | some n => exact .inl ⟨rfl, _, rfl⟩
      | none => exact .inr ⟨nofun, hraise _⟩
    | nonFinite f => cases f <;> exact .inr ⟨nofun, hraise _⟩
    | _ => exact .inr ⟨nofun, hraise _⟩
  | _ => exact .inl ⟨rfl, _, rfl⟩

theorem quiet_verdict (env : Env) (changes : List Change) (verdict : DryRun) (w : World) :
    Quiet (outcome (do
      let w ← get
      if verdict.valid || 1 ≤ w.ctx.dryRunRetries then pure (verdict, changes)
      else
        updateCtx fun c => { c with dryRunRetries := 1 }
        describeRetry env verdict
        notify env .dryRunRetry
        selfHealNotifying env changes verdict) w) ↔
      (verdict.valid = false → retries w = 0 →
        RetrySurvives env ((get (str "issues") verdict.fields).getD (.list []))) := by
  rw [outcome_seq]
  simp only [outcome, exec_get, bind, Except.bind]
  by_cases hstop : (verdict.valid || decide (1 ≤ w.ctx.dryRunRetries)) = true
  · rw [if_pos hstop]
    refine iff_of_true (quiet_ok _) fun hvalid hretries => ?_
    rw [hvalid, Bool.false_or, decide_eq_true_eq] at hstop
    have hzero : w.ctx.dryRunRetries = 0 := hretries
    omega
  · rw [if_neg hstop]
    rw [Bool.or_eq_true, not_or, Bool.not_eq_true, decide_eq_true_eq] at hstop
    have hzero : retries w = 0 := Nat.eq_zero_of_not_pos hstop.2
    refine (quiet_retry env changes verdict { w with ctx := { w.ctx with dryRunRetries := 1 } }).trans ?_
    exact ⟨fun h _ _ => h, fun h => h hstop.1 hzero⟩

theorem quiet_firstDryRun (env : Env) (changes : List Change) (w : World) :
    (Quiet (outcome (firstDryRun env changes) w) ∧ ∀ verdict, outcome (firstDryRun env changes) w = .ok verdict →
      verdict.valid = false → retries w = 0 →
        RetrySurvives env ((get (str "issues") verdict.fields).getD (.list []))) ↔
      (env.raised .preCheck ≠ some .cancelled →
        if (preIssues env).isEmpty then
          env.raised .dryRun ≠ some .cancelled → (dryRunVerdict env).valid = false → retries w = 0 →
            RetrySurvives env ((get (str "issues") (dryRunVerdict env).fields).getD (.list []))
        else
          (∀ i ∈ preIssues env, isDict i) ∧ countable env env.preCheckAnswer ∧
            (retries w = 0 → RetrySurvives env (.list []))) := by
  rw [outcome_firstDryRun]
  by_cases hcancelled : env.raised .preCheck = some .cancelled
  · rw [if_pos hcancelled]
    exact iff_of_true ⟨quiet_cancelled, fun _ h => by cases h⟩ fun h => absurd hcancelled h
  rw [if_neg hcancelled]
  simp only [ne_eq, hcancelled, not_false_eq_true, true_imp_iff]
  by_cases hempty : (preIssues env).isEmpty = true
  · rw [if_pos hempty, if_pos hempty]
    by_cases hrun : env.raised .dryRun = some .cancelled
    · rw [if_pos hrun]
      exact iff_of_true ⟨quiet_cancelled, fun _ h => by cases h⟩ fun h => absurd hrun h
    · rw [if_neg hrun]
      constructor
      · exact fun h _ => h.2 _ rfl
      · intro h
        refine ⟨quiet_ok _, fun verdict hv => ?_⟩
        cases hv
        exact h hrun
  · rw [if_neg hempty, if_neg hempty]
    obtain ⟨hdicts, xs, hxs⟩ | ⟨hdicts, hraises⟩ := normalize_done (preIssues env) w
    · rw [hxs]
      obtain ⟨hcount, n, hn⟩ | ⟨hcount, hraises⟩ := readChecked_done env env.preCheckAnswer w
      · rw [hn]
        constructor
        · exact fun h => ⟨hdicts, hcount, fun hretries => h.2 (preVerdict xs n) rfl rfl hretries⟩
        · rintro ⟨-, -, h⟩
          refine ⟨quiet_ok _, fun verdict hv _ hretries => ?_⟩
          cases hv
          exact h hretries
      · refine iff_of_false (fun h => hraises ?_) fun h => hcount h.2.1
        exact (quiet_bind.mp ((quiet_bind.mp h.1).2 xs rfl)).1
    · exact iff_of_false (fun h => hraises (quiet_bind.mp h.1).1) fun h => hdicts h.1

/-- What the function promises of itself, that it never raises, holds just as far as `Survives`
says. -/
theorem never_raises_iff (env : Env) (changes : List Change) (w : World) :
    (∀ e, outcome (dryRunNotifying env changes) w = .error e → e = .cancelled) ↔
      Survives env w.ctx.dryRunRetries := by
  change Quiet _ ↔ _
  unfold dryRunNotifying Survives
  cases hmcp : env.hasMcp with
  | false => exact iff_of_true (quiet_ok _) nofun
  | true =>
    simp only [Bool.not_true, Bool.false_eq_true, if_false, true_imp_iff]
    refine quiet_notify_bind fun t ht => ?_
    rw [quiet_seq (fixes_firstDryRun env changes) fun verdict u hu =>
      (quiet_verdict env changes verdict u).trans (by rw [hu]), quiet_firstDryRun]
    rw [ht]

def strayIssue : Env :=
  { Env.smooth [] with
    hasMcp := true
    preCheckAnswer := .dict [(str "issues", .list [.str (str "no such field")])] .none }

theorem stray_issue_raises : ¬∀ env changes w e,
    outcome (dryRunNotifying env changes) w = .error e → e = .cancelled := fun h =>
  Exc.noConfusion (h strayIssue [] {} (.other "AttributeError") rfl)

theorem dryRunNotifying_eq (env : Env) (changes : List Change)
    (h : ∀ p ∈ [Point.dryRunRunning, .dryRunRetry, .retryEmpty, .retryFailed], env.raised p = none) :
    dryRunNotifying env changes = dryRunWithRetry env changes := by
  have hnotify (p : Point) (hp : env.raised p = none) : notify env p = send env p .agentStatus := by
    unfold notify await send
    rw [hp]
    simp
  unfold dryRunNotifying dryRunWithRetry selfHealNotifying selfHeal
  simp only [List.forall_mem_cons] at h
  rw [hnotify _ h.1, hnotify _ h.2.1, hnotify _ h.2.2.1, hnotify _ h.2.2.2.1]

end Totality

end AlfredProcessing.Pipeline.DryRunTotality
