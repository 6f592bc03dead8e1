import AlfredProcessing.Pipeline.Frames

namespace AlfredProcessing.Pipeline.DryRunVerdict

open Lib.Json Lib.Effects Extract.Changes PostBuild.Backfill Context DryRun Frames

def dryRuns (log : List Event) : List (List Change × Option Value) :=
  log.filterMap fun
    | .dryRan changes answer => some (changes, answer)
    | _ => none

def isSelfHeal : Event → Bool
  | .selfHealed => true
  | _ => false

def selfHeals (log : List Event) : Nat := log.countP isSelfHeal

/-- What the dry run leaves behind: its calls, and the retries of the crew
state. -/
def trace (w : World) : List (List Change × Option Value) × Nat × Nat :=
  (dryRuns w.log, selfHeals w.log, w.ctx.dryRunRetries)

abbrev Silent : World → World → Prop := Same trace

instance : Stable trace where
  sent w m _ := by simp [trace, dryRuns, selfHeals, isSelfHeal]
  cancelled w := by simp [trace, dryRuns, selfHeals, isSelfHeal]

variable {env : Env} {p : Point} {w w' : World}

theorem status_silent : Fixes trace (send env p .agentStatus) := fixes_send rfl

/-- A verdict that the last dry run of `runs` bears out. -/
structure BorneOut (final : List Change) (runs : List (List Change × Option Value))
    (verdict : DryRun) : Prop where
  ok : verdict.status = .ok → ∃ d strays, runs.getLast? = some (final, some (.dict d strays)) ∧
    (pyGet d "valid").truthy
  valid : verdict.status = .ok → verdict.valid
  run : verdict.status ≠ .skipped

theorem infraError_borneOut (final : List Change) (runs : List (List Change × Option Value)) :
    BorneOut final runs infraError := ⟨nofun, nofun, nofun⟩

theorem readAnswer_borneOut (final : List Change) (runs : List (List Change × Option Value))
    (answer : Value) : BorneOut final (runs ++ [(final, some answer)]) (readAnswer answer) := by
  cases answer with
  | dict d strays =>
    by_cases he : (pyGet d "error").truthy = true
    · simpa only [readAnswer, he, if_true] using infraError_borneOut _ _
    · by_cases hv : (pyGet d "valid").truthy = true
      · simp only [readAnswer, he, hv, if_true]
        exact ⟨fun _ => ⟨d, strays, List.getLast?_concat, hv⟩, fun _ => hv, nofun⟩
      · simp only [readAnswer, he, hv]
        exact ⟨nofun, nofun, nofun⟩
  | _ => exact infraError_borneOut _ _

/-- One dry run: its log grows by this run, which bears the verdict out. -/
structure RanOnce (changes : List Change) (w w' : World) (verdict : DryRun) : Prop where
  runs : ∃ a, dryRuns w'.log = dryRuns w.log ++ [(changes, a)]
  borneOut : BorneOut changes (dryRuns w'.log) verdict
  rest : (trace w').2 = (trace w).2

theorem ranOnce_of_silent {t : World} {changes : List Change} {a : Option Value} {verdict : DryRun}
    (ht : Silent w t) (hb : BorneOut changes (dryRuns w.log ++ [(changes, a)]) verdict) :
    RanOnce changes w { t with log := t.log ++ [.dryRan changes a] } verdict := by
  obtain ⟨hruns, hrest⟩ := Prod.ext_iff.mp ht
  have hlog : dryRuns (t.log ++ [.dryRan changes a]) = dryRuns w.log ++ [(changes, a)] := by
    rw [dryRuns, List.filterMap_append]
    exact congrArg (· ++ _) hruns
  have hheals : selfHeals (t.log ++ [.dryRan changes a]) = selfHeals t.log := by
    simp [selfHeals, isSelfHeal]
  refine ⟨⟨a, hlog⟩, hlog ▸ hb, ?_⟩
  rw [← hrest]
  exact Prod.ext hheals rfl

theorem runDryRun_ends (env : Env) (p : Point) (answer : Value) (changes : List Change) (w : World) :
    Ends (runDryRun env p answer changes) w fun r w' =>
      match r with
      | .ok verdict => RanOnce changes w w' verdict
      | .error _ => Silent w w' := by
  refine (fixes_attempt w).bind (fun answered t ht => ?_) fun _ _ ht => ht
  cases answered with
  | true => exact ranOnce_of_silent ht (readAnswer_borneOut _ _ _)
  | false => exact ranOnce_of_silent ht (infraError_borneOut _ _)

theorem firstDryRun_ends (env : Env) (changes : List Change) (w : World) :
    Ends (firstDryRun env changes) w fun r w' =>
      match r with
      | .ok verdict => BorneOut changes (dryRuns w'.log) verdict ∧ (trace w').2 = (trace w).2
      | .error _ => Silent w w' := by
  refine (fixes_attempt w).bind (fun answered t ht => ?_) fun _ _ ht => ht
  have hrest : (trace t).2 = (trace w).2 := congrArg Prod.snd ht
  generalize (if answered then preCheckIssues env.preCheckAnswer else []) = issues
  dsimp only
  split
  · refine (runDryRun_ends env _ _ changes t).mono fun r u hr => ?_
    cases r with
    | ok verdict => exact ⟨hr.borneOut, hr.rest.trans hrest⟩
    | error e => exact ht.trans hr
  · refine (fixes_liftPy _ t).bind (fun normalized u hu => ?_) fun _ _ hu => ht.trans hu
    refine (fixes_readChecked _ u).bind (fun checked v hv => ?_) fun _ _ hv => (ht.trans hu).trans hv
    exact ⟨⟨nofun, nofun, nofun⟩, congrArg Prod.snd ((ht.trans hu).trans hv)⟩

/-- What `_dry_run_with_retry` returns. -/
structure Sound (env : Env) (changes : List Change) (w' : World) (verdict : DryRun)
    (final : List Change) : Prop where
  ok : verdict.status = .ok → ∃ d strays,
    (dryRuns w'.log).getLast? = some (final, some (.dict d strays)) ∧ (pyGet d "valid").truthy
  skipped : verdict.status = .skipped → env.hasMcp = false
  final : final = changes ∨ final = fixedChanges env ∧ final ≠ []

/-- The self-heals of a call come out of the retries of its crew state. -/
def Spends (w w' : World) : Prop :=
  selfHeals w'.log = selfHeals w.log ∧ w.ctx.dryRunRetries ≤ w'.ctx.dryRunRetries ∨
    w.ctx.dryRunRetries = 0 ∧ selfHeals w'.log = selfHeals w.log + 1 ∧ w'.ctx.dryRunRetries = 1

/-- How a self-heal goes on once it is counted. -/
structure Healed (env : Env) (changes : List Change) (w : World)
    (r : Except Exc (DryRun × List Change)) (w' : World) : Prop where
  sound : ∀ v final, r = .ok (v, final) → Sound env changes w' v final
  spent : (trace w').2 = (selfHeals w.log + 1, w.ctx.dryRunRetries)

theorem Healed.error {changes : List Change} {e : Exc}
    (h : (trace w').2 = (selfHeals w.log + 1, w.ctx.dryRunRetries)) :
    Healed env changes w (.error e) w' := ⟨nofun, h⟩

theorem Healed.kept {changes : List Change} {verdict : DryRun} (hok : verdict.status ≠ .ok)
    (hrun : verdict.status ≠ .skipped)
    (h : (trace w').2 = (selfHeals w.log + 1, w.ctx.dryRunRetries)) :
    Healed env changes w (.ok (verdict, changes)) w' := by
  refine ⟨?_, h⟩
  rintro v final ⟨⟩
  exact ⟨fun h => absurd h hok, fun h => absurd h hrun, .inl rfl⟩

theorem Healed.fixed {changes fixed : List Change} {verdict : DryRun} {t : World}
    (hfixed : extract env env.retryText = .ok fixed) (hne : fixed ≠ [])
    (ht : (trace t).2 = (selfHeals w.log + 1, w.ctx.dryRunRetries))
    (h : RanOnce fixed t w' verdict) : Healed env changes w (.ok (verdict, fixed)) w' := by
  refine ⟨?_, h.rest.trans ht⟩
  rintro v final ⟨⟩
  refine ⟨h.borneOut.ok, fun hs => absurd hs h.borneOut.run, .inr ⟨?_, hne⟩⟩
  simp only [fixedChanges, hfixed]

theorem selfHeal_ends (env : Env) (changes : List Change) (verdict : DryRun) (w : World)
    (hok : verdict.status ≠ .ok) (hrun : verdict.status ≠ .skipped) :
    Ends (selfHeal env changes verdict) w (Healed env changes w) := by
  have hkeep : ∀ p t, (trace t).2 = (selfHeals w.log + 1, w.ctx.dryRunRetries) →
      Ends (send env p .agentStatus >>= fun _ => pure (verdict, changes)) t
        (Healed env changes w) := fun p t ht =>
    (status_silent t).bind
      (fun _ u hu => Healed.kept hok hrun ((congrArg Prod.snd hu).trans ht))
      fun _ u hu => Healed.error ((congrArg Prod.snd hu).trans ht)
  refine Ends.tryCatch (P := Healed env changes w) ?_ (fun _ _ h => h) fun e t ht => ?_
  · refine Ends.modify_bind ?_
    have ht : (trace { w with log := w.log ++ [.selfHealed] }).2 =
        (selfHeals w.log + 1, w.ctx.dryRunRetries) := by
      simp [trace, selfHeals, isSelfHeal]
    refine (fixes_await _).bind (fun _ u hu => ?_) fun _ _ hu =>
      Healed.error ((congrArg Prod.snd hu).trans ht)
    have hu' := (congrArg Prod.snd hu).trans ht
    cases hfixed : extract env env.retryText with
    | error e =>
      cases e with
      | attributeError => exact Healed.error hu'
      | typeError => exact Healed.error hu'
      | valueError => exact Healed.error hu'
    | ok fixed =>
      change Ends (if fixed.isEmpty = true then _ else _) u (Healed env changes w)
      split
      · exact hkeep _ u hu'
      · next hne =>
        refine (runDryRun_ends env .dryRunFixed env.fixedAnswer fixed u).bind (fun again v hv => ?_)
          fun _ v hv => Healed.error ((congrArg Prod.snd hv).trans hu')
        exact Healed.fixed hfixed (fun h => hne (by rw [h]; rfl)) hu' hv
  · split
    · exact Healed.error ht.spent
    · exact hkeep _ t ht.spent

/-- Whether a self-heal yields a list that replaces the one it is given. -/
def heals (env : Env) : Bool := decide (env.raised .fixCrew = none) && !(fixedChanges env).isEmpty

theorem runDryRun_value (env : Env) (p : Point) (answer : Value) (changes : List Change) (w : World) :
    Ends (runDryRun env p answer changes) w fun r _ => ∀ e, r = .error e → e = .cancelled := by
  refine (attempt_value env p w).bind (fun _ _ _ => nofun) fun e _ h e' he => ?_
  cases he
  exact Except.error.inj (h.resolve_right nofun)

/-- What a self-heal returns, or why it raises. -/
def HealValue (env : Env) (changes : List Change) : Except Exc (DryRun × List Change) → Prop
  | .error e => e = .cancelled ∨ heals env = false
  | .ok (_, final) => final = if heals env then fixedChanges env else changes

theorem selfHeal_value (env : Env) (changes : List Change) (verdict : DryRun) (w : World) :
    Ends (selfHeal env changes verdict) w fun r _ => HealValue env changes r := by
  have hkeep : ∀ p t, heals env = false →
      Ends (send env p .agentStatus >>= fun _ => pure (verdict, changes)) t
        fun r _ => HealValue env changes r := by
    intro p t hnot
    refine (send_value env p .agentStatus t).bind (fun _ _ _ => ?_) fun _ _ h => ?_
    · simp [HealValue, hnot, Ends]
    · exact .inl (Except.error.inj (h.resolve_right (by simp)))
  refine Ends.tryCatch (P := fun r _ => HealValue env changes r) ?_ (fun _ _ h => h) ?_
  · refine Ends.modify_bind ((await_value env .fixCrew _).bind (fun _ t ht => ?_) fun e t ht => ?_)
    · have hraised : env.raised .fixCrew = none := by
        rcases hr : env.raised .fixCrew with _ | e
        · rfl
        · rw [hr] at ht
          cases ht
      cases hfixed : extract env env.retryText with
      | error e =>
        have hnot : heals env = false := by simp [heals, fixedChanges, hfixed]
        cases e with
        | attributeError => exact .inr hnot
        | typeError => exact .inr hnot
        | valueError => exact .inr hnot
      | ok fixed =>
        have hchanges : fixedChanges env = fixed := by simp only [fixedChanges, hfixed]
        change Ends (if fixed.isEmpty = true then _ else _) t _
        split
        · next he => exact hkeep _ t (by simp [heals, hchanges, he])
        · next he =>
          have hheals : heals env = true := by simp [heals, hchanges, he, hraised]
          refine (runDryRun_value env .dryRunFixed env.fixedAnswer fixed t).bind (fun again u _ => ?_)
            fun e u h => .inl (h e rfl)
          simp [Ends, HealValue, hheals, hchanges]
    · have hraised : env.raised .fixCrew ≠ none := by
        intro hr
        rw [hr] at ht
        cases ht
      exact .inr (by simp [heals, hraised])
  · intro e t h
    split
    · next he => exact .inl he
    · next he => exact hkeep _ t (h.resolve_left he)

def passes (env : Env) : Bool :=
  (if env.raised .preCheck = none then preCheckIssues env.preCheckAnswer else []).isEmpty &&
    (if env.raised .dryRun = none then readAnswer env.dryRunAnswer else infraError).valid

theorem runDryRun_verdict (env : Env) (p : Point) (answer : Value) (changes : List Change) (w : World) :
    Ends (runDryRun env p answer changes) w fun r _ => ∀ v, r = .ok v →
      v = if env.raised p = none then readAnswer answer else infraError := by
  refine (attempt_value env p w).bind (fun b t ht => ?_) fun _ _ _ => nofun
  obtain rfl := Except.ok.inj (ht.resolve_left nofun)
  rintro v ⟨⟩
  simp only [decide_eq_true_eq]

theorem firstDryRun_verdict (env : Env) (changes : List Change) (w : World) :
    Ends (firstDryRun env changes) w fun r _ => ∀ v, r = .ok v → v.valid = passes env := by
  refine (attempt_value env .preCheck w).bind (fun b t ht => ?_) fun _ _ _ => nofun
  obtain rfl := Except.ok.inj (ht.resolve_left nofun)
  unfold passes
  simp only [decide_eq_true_eq]
  generalize (if env.raised .preCheck = none then preCheckIssues env.preCheckAnswer else []) = issues
  by_cases hissues : issues.isEmpty = true
  · rw [if_pos hissues]
    refine (runDryRun_verdict env .dryRun env.dryRunAnswer changes t).mono fun r _ h v hv => ?_
    rw [h v hv, hissues, Bool.true_and]
  · rw [if_neg hissues]
    refine Ends.bind (P := fun _ _ => True) trivial (fun _ u _ => ?_) fun _ _ _ => nofun
    refine Ends.bind (P := fun _ _ => True) trivial (fun _ v _ => ?_) fun _ _ _ => nofun
    rintro v ⟨⟩
    rw [Bool.eq_false_iff.mpr hissues, Bool.false_and]
    rfl

def Replaces (env : Env) : Prop := env.hasMcp = true ∧ passes env = false ∧ heals env = true

instance (env : Env) : Decidable (Replaces env) := by unfold Replaces; infer_instance

theorem dryRunWithRetry_list (env : Env) (changes : List Change) {w : World}
    (hfresh : w.ctx.dryRunRetries = 0) :
    Ends (dryRunWithRetry env changes) w fun r _ => ∀ v final, r = .ok (v, final) →
      final = if Replaces env then fixedChanges env else changes := by
  unfold dryRunWithRetry
  split
  · next hmcp =>
    rintro v final ⟨⟩
    rw [if_neg fun h => by simp [h.1] at hmcp]
  next hmcp =>
  simp only [Bool.not_eq_true, Bool.not_eq_false'] at hmcp
  refine (status_silent w).bind (fun _ t ht => ?_) fun _ _ _ => nofun
  refine ((firstDryRun_ends env changes t).and (firstDryRun_verdict env changes t)).bind
    (fun verdict u hu => ?_) fun _ _ _ => nofun
  have hpasses : verdict.valid = passes env := hu.2 verdict rfl
  have hzero : u.ctx.dryRunRetries = 0 :=
    (congrArg Prod.snd hu.1.2).trans ((congrArg (fun s => s.2.2) ht).trans hfresh)
  refine Ends.get_bind ?_
  rw [hpasses, hzero]
  split
  · next hpass =>
    rintro v final ⟨⟩
    rw [if_neg fun h => by simp [h.2.1] at hpass]
  next hpass =>
  have hreplaces : Replaces env ↔ heals env = true := by
    have hnot : passes env = false := by simpa using hpass
    simp only [Replaces, hmcp, hnot, true_and]
  simp only [hreplaces]
  refine Ends.modify_bind (Ends.bind (P := fun _ _ => True) trivial (fun _ v _ => ?_)
    fun _ _ _ => nofun)
  refine Ends.bind (P := fun _ _ => True) trivial (fun _ x _ => ?_) fun _ _ _ => nofun
  refine (selfHeal_value env changes verdict x).mono fun r _ h v final hr => ?_
  subst hr
  exact h

/-- A call of `_dry_run_with_retry`. -/
structure Judged (env : Env) (changes : List Change) (w : World)
    (r : Except Exc (DryRun × List Change)) (w' : World) : Prop where
  sound : ∀ v final, r = .ok (v, final) → Sound env changes w' v final
  spends : Spends w w'

theorem Judged.error {changes : List Change} {e : Exc} (h : (trace w').2 = (trace w).2) :
    Judged env changes w (.error e) w' :=
  ⟨nofun, .inl ⟨congrArg Prod.fst h, (congrArg Prod.snd h).ge⟩⟩

theorem judged_of_borneOut {changes : List Change} {verdict : DryRun}
    (hb : BorneOut changes (dryRuns w'.log) verdict) (h : (trace w').2 = (trace w).2) :
    Judged env changes w (.ok (verdict, changes)) w' := by
  refine ⟨?_, .inl ⟨congrArg Prod.fst h, (congrArg Prod.snd h).ge⟩⟩
  rintro v final ⟨⟩
  exact ⟨hb.ok, fun hs => absurd hs hb.run, .inl rfl⟩

theorem dryRunWithRetry_ends (env : Env) (changes : List Change) (w : World) :
    Ends (dryRunWithRetry env changes) w (Judged env changes w) := by
  unfold dryRunWithRetry
  split
  · next hmcp =>
    refine ⟨?_, .inl ⟨rfl, le_rfl⟩⟩
    rintro v final ⟨⟩
    exact ⟨nofun, fun _ => by simpa using hmcp, .inl rfl⟩
  refine (status_silent w).bind (fun _ t ht => ?_) fun _ _ ht => .error (congrArg Prod.snd ht)
  refine (firstDryRun_ends env changes t).bind (fun verdict u hu => ?_) fun _ _ hu =>
    .error (congrArg Prod.snd (ht.trans hu))
  have hwu : (trace u).2 = (trace w).2 := hu.2.trans (congrArg Prod.snd ht)
  refine Ends.get_bind ?_
  split
  · exact judged_of_borneOut hu.1 hwu
  · next hretry =>
    simp only [Bool.or_eq_true, decide_eq_true_eq, not_or, Nat.not_le, Nat.lt_one_iff] at hretry
    have hzero : w.ctx.dryRunRetries = 0 := (congrArg Prod.snd hwu).symm.trans hretry.2
    have hspent : ∀ {v}, (trace v).2 = (selfHeals w.log, 1) → Spends w v := fun h =>
      .inl ⟨congrArg Prod.fst h, hzero ▸ Nat.zero_le _⟩
    refine Ends.modify_bind ?_
    have hone : (trace { u with ctx := { u.ctx with dryRunRetries := 1 } }).2 =
        (selfHeals w.log, 1) :=
      have hsame : selfHeals u.log = selfHeals w.log := congrArg Prod.fst hwu
      Prod.ext hsame rfl
    refine (fixes_describeRetry verdict _).bind (fun _ v hv => ?_) fun _ _ hv =>
      ⟨nofun, hspent ((congrArg Prod.snd hv).trans hone)⟩
    refine (status_silent v).bind (fun _ x hx => ?_) fun _ _ hx =>
      ⟨nofun, hspent ((congrArg Prod.snd (hv.trans hx)).trans hone)⟩
    have hxone := (congrArg Prod.snd (hv.trans hx)).trans hone
    have hheals : selfHeals x.log = selfHeals w.log := congrArg Prod.fst hxone
    have hretries : x.ctx.dryRunRetries = 1 := congrArg Prod.snd hxone
    refine (selfHeal_ends env changes verdict x (fun h => hretry.1 (hu.1.valid h)) hu.1.run).mono
      fun r y hy => ⟨hy.sound, .inr ⟨hzero, ?_, ?_⟩⟩
    · exact (congrArg Prod.fst hy.spent).trans (congrArg (· + 1) hheals)
    · exact (congrArg Prod.snd hy.spent).trans hretries

/-- The calls made with one crew state, each in the state that the one before
it left. -/
def callSteps : List (Env × List Change) → World →
    List ((Env × List Change) × World × Except Exc (DryRun × List Change) × World)
  | [], _ => []
  | c :: cs, w =>
    let e := exec (dryRunWithRetry c.1 c.2) w
    (c, w, e) :: callSteps cs e.2

def afterCalls (cs : List (Env × List Change)) (w : World) : World :=
  cs.foldl (fun w c => (exec (dryRunWithRetry c.1 c.2) w).2) w

theorem callSteps_judged (cs : List (Env × List Change)) (w : World) :
    ∀ s ∈ callSteps cs w, Judged s.1.1 s.1.2 s.2.1 s.2.2.1 s.2.2.2 := by
  induction cs generalizing w with
  | nil => simp [callSteps]
  | cons c cs ih =>
    intro s hs
    rcases List.mem_cons.mp hs with rfl | hs
    · exact dryRunWithRetry_ends c.1 c.2 w
    · exact ih _ s hs

theorem selfHeals_afterCalls (cs : List (Env × List Change)) (w : World) :
    selfHeals (afterCalls cs w).log + min w.ctx.dryRunRetries 1 ≤ selfHeals w.log + 1 := by
  induction cs generalizing w with
  | nil =>
    simp only [afterCalls, List.foldl_nil]
    omega
  | cons c cs ih =>
    have hrest := ih (exec (dryRunWithRetry c.1 c.2) w).2
    have hspends : Spends w (exec (dryRunWithRetry c.1 c.2) w).2 :=
      Judged.spends (dryRunWithRetry_ends c.1 c.2 w)
    simp only [afterCalls, List.foldl_cons] at hrest ⊢
    rcases hspends with h | h
    · omega
    · omega

/-- Every call on a crew state returns a sound verdict, and all of them together
heal at most once. -/
theorem dryRunWithRetry_sound (cs : List (Env × List Change)) (w : World) :
    (∀ s ∈ callSteps cs w, ∀ verdict final, s.2.2.1 = .ok (verdict, final) →
      Sound s.1.1 s.1.2 s.2.2.2 verdict final) ∧
    selfHeals (afterCalls cs { w with ctx := { w.ctx with dryRunRetries := 0 } }).log ≤
      selfHeals w.log + 1 := by
  refine ⟨fun s hs verdict final hr => (callSteps_judged cs w s hs).sound verdict final hr, ?_⟩
  have h := selfHeals_afterCalls cs { w with ctx := { w.ctx with dryRunRetries := 0 } }
  exact (Nat.le_add_right _ _).trans h

end AlfredProcessing.Pipeline.DryRunVerdict
