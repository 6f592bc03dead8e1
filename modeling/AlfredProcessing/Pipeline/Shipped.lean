import AlfredProcessing.Pipeline.DryRunVerdict
import AlfredProcessing.Pipeline.Terminal

namespace AlfredProcessing.Pipeline.Shipped

open Lib.Json Lib.Effects Extract.Changes PostBuild.Backfill PostBuild.Reflection
  Agents.ModuleSpecialist Context DryRun Phases Runner Frames DryRunVerdict Outcomes Terminal
open PostBuild.ReportHandoff hiding Same

/-- What a changeset message shows: the items, and the notes on them. -/
structure Preview where
  changes : List Change
  notes : List ValidationNote

def previews (log : List Event) : List Preview :=
  log.filterMap fun
    | .sent (.changeset changes _ _ notes _ _) => some ⟨changes, notes⟩
    | _ => none

section Stages

variable (env : Env)

def rescued (c : Ctx) (extracted : List Change) : List Change :=
  if !extracted.isEmpty then extracted
  else if c.enhancedPrompt.isEmpty || env.raised .rescue ≠ none then []
  else
    match extract env env.rescueText with
    | .ok changes => changes
    | .error _ => []

def collected (c : Ctx) (resultText : List Char) : List Change :=
  match if env.driftReason.isSome then .ok [] else extract env resultText with
  | .ok extracted => rescued env c extracted
  | .error _ => []

def netted (c : Ctx) (resultText : List Char) : List Change :=
  applyReportHandoffSafetyNet env.dumps c.intent c.reportCandidate
    (applyDefaultsBackfill env c (collected env c resultText))

def notesOn (c : Ctx) (changes : List Change) : List ValidationNote :=
  match c.module.filter (!·.isEmpty) with
  | some module =>
    if !changes.isEmpty && env.perIntentBuilders && env.moduleSpecialists then
      moduleNotes env c module changes
    else c.moduleValidationNotes
  | none => c.moduleValidationNotes

def pruned (changes : List Change) : List Change :=
  if asksReviewer env.reflectionEnabled env.hasPrompt changes then
    (prune (env.verdict.filter fun _ => env.raised .reflect = none) changes).1
  else changes

end Stages

/-- What the phases before the last one found out. -/
def aim (c : Ctx) :
    Option String × Option Dict × Option String × List String × String :=
  (c.intent, c.reportCandidate, c.module, c.secondaryModules, c.enhancedPrompt)

/-- What the message will be made of, and the messages so far. -/
def scene (w : World) :=
  (aim w.ctx, w.ctx.moduleValidationNotes, previews w.log)

/-- The same before the dry run, whose retries are not spent yet. -/
def stage (w : World) := (scene w, w.ctx.dryRunRetries)

theorem previews_of_other {m : Message} (hm : isChangeset m = false) (log : List Event) :
    previews (log ++ [.sent m]) = previews log := by
  cases m <;> simp_all [previews, isChangeset]

instance : Stable scene where
  sent w m hm := by simp [scene, previews_of_other hm]
  cancelled w := by simp [scene, aim, previews]

instance : Stable stage where
  sent w m hm := by simp [stage, scene, previews_of_other hm]
  cancelled w := by simp [stage, scene, aim, previews]

variable {env : Env} {p : Point} {w w' : World}

theorem same_scene (h : Same stage w w') : Same scene w w' := congrArg Prod.fst h

theorem same_aim (h : Same scene w w') : aim w'.ctx = aim w.ctx := congrArg Prod.fst h

theorem same_notes (h : Same scene w w') :
    w'.ctx.moduleValidationNotes = w.ctx.moduleValidationNotes := congrArg (fun s => s.2.1) h

theorem same_previews (h : Same scene w w') : previews w'.log = previews w.log :=
  congrArg (fun s => s.2.2) h

theorem same_retries (h : Same stage w w') : w'.ctx.dryRunRetries = w.ctx.dryRunRetries :=
  congrArg Prod.snd h

theorem fixes_runDryRun (answer : Value) (changes : List Change) :
    Fixes scene (runDryRun env p answer changes) :=
  fixes_attempt.bind fun _ =>
    Fixes.bind (Yields.modify fun w => by simp [Same, scene, previews]) fun _ => fixes_pure _

theorem fixes_dryRunWithRetry (changes : List Change) :
    Fixes scene (dryRunWithRetry env changes) := by
  have hsend : ∀ p, Fixes scene (send env p .agentStatus) := fun p => fixes_send rfl
  refine Yields.ite (fun _ => fixes_pure _) fun _ => (hsend _).bind fun _ => ?_
  refine Fixes.bind (fixes_attempt.bind fun _ => Yields.ite (fun _ => fixes_runDryRun _ _) fun _ =>
    (fixes_liftPy _).bind fun _ => (fixes_readChecked _).bind fun _ => fixes_pure _) fun verdict => ?_
  refine fixes_get.bind fun _ => Yields.ite (fun _ => fixes_pure _) fun _ => ?_
  refine Fixes.bind (fixes_updateCtx fun _ => rfl) fun _ => (fixes_describeRetry _).bind fun _ =>
    (hsend _).bind fun _ => ?_
  refine fixes_catching ?_ ((hsend _).bind fun _ => fixes_pure _)
  refine Fixes.bind (Yields.modify fun w => by simp [Same, scene, previews]) fun _ => ?_
  refine fixes_await.bind fun _ => (fixes_liftPy _).bind fun _ => ?_
  exact Yields.ite (fun _ => (hsend _).bind fun _ => fixes_pure _) fun _ =>
    (fixes_runDryRun _ _).bind fun _ => fixes_pure _

theorem fixes_saveMemory : Fixes scene (saveMemory env) := by
  have hsend : Fixes scene (send env .memoryNotice .info) := fixes_send rfl
  refine fixes_get.bind fun _ => Yields.ite (fun _ => ?_) fun _ => fixes_pure _
  exact fixes_attempt.bind fun _ => Yields.ite (fun _ => fixes_pure _) fun _ => hsend

/-- At most one message goes out, with these items and notes. -/
def Ships (changes : List Change) (notes : List ValidationNote) (w w' : World) : Prop :=
  previews w'.log = previews w.log ∨ previews w'.log = previews w.log ++ [⟨changes, notes⟩]

theorem Ships.silent {changes : List Change} {notes : List ValidationNote} (h : Same scene w w') :
    Ships changes notes w w' := .inl (same_previews h)

theorem Ships.after {changes : List Change} {notes : List ValidationNote} {t : World}
    (h : previews t.log = previews w.log) (h' : Ships changes notes t w') :
    Ships changes notes w w' := by
  unfold Ships at h' ⊢
  rwa [h] at h'

theorem preview_sent (changes : List Change) (resultText : List Char) (dryRun : DryRun)
    (notes : List ValidationNote) (module : Option String) (secondaries : List String) (w : World) :
    Ends (send env p (.changeset changes resultText dryRun notes module secondaries)) w fun _ u =>
      Ships changes notes w u := by
  have hframes : Fixes scene (handleFrames env p) := fixes_handleFrames
  have hemit {t : World} (ht : Same scene w t) : Ships changes notes w
      { t with log := t.log ++ [.sent (.changeset changes resultText dryRun notes module secondaries)] } := by
    refine .inr ?_
    rw [← same_previews ht]
    simp [previews]
  refine (hframes w).bind (fun _ t ht => ?_) fun _ _ ht => .silent ht
  split
  · split
    · exact hemit ht
    · exact .silent ht
  · exact hemit ht

def finalList (env : Env) (changes : List Change) : List Change :=
  if Replaces env then fixedChanges env else changes

theorem shipChangeset_ends (changes : List Change) (hfresh : w.ctx.dryRunRetries = 0) :
    Ends (shipChangeset env changes) w fun _ w' =>
      Ships (finalList env changes) w.ctx.moduleValidationNotes w w' := by
  refine ((fixes_dryRunWithRetry changes w).and (dryRunWithRetry_list env changes hfresh)).bind
    (fun r t ht => ?_) fun _ _ ht => .silent ht.1
  obtain ⟨dryRun, final⟩ := r
  obtain ⟨ht, hlist⟩ := ht
  have hfinal : final = finalList env changes := hlist dryRun final rfl
  refine Ends.modify_bind ((fixes_saveMemory _).bind (fun _ u hu => ?_) fun _ u hu =>
    .silent (ht.trans hu))
  have hwu : Same scene w u := ht.trans hu
  refine Ends.get_bind ((preview_sent _ _ _ _ _ _ u).mono fun _ v hv => ?_)
  rw [hfinal, same_notes hwu] at hv
  exact .after (same_previews hwu) hv

theorem reflectMinimality_ends (changes : List Change) (w : World) :
    Ends (reflectMinimality env changes) w fun r w' => Same stage w w' ∧
      ∀ kept removed, r = .ok (kept, removed) → kept = pruned env changes := by
  unfold reflectMinimality pruned
  split
  · have hpause : Fixes stage (pause env .reflect) := fixes_pause
    refine (hpause w).bind (fun _ t ht => ⟨ht, ?_⟩) fun _ t ht => ⟨ht, nofun⟩
    intro kept removed h
    exact (congrArg Prod.fst (Except.ok.inj h)).symm
  · refine ⟨rfl, fun kept removed h => ?_⟩
    exact (congrArg Prod.fst (Except.ok.inj h)).symm

theorem finishChangeset_ends (changes : List Change) (hfresh : w.ctx.dryRunRetries = 0) :
    Ends (finishChangeset env changes) w fun _ w' =>
      Ships (finalList env (pruned env changes)) w.ctx.moduleValidationNotes w w' := by
  have hsend : Fixes stage (send env .minimalityReview .agentStatus) := fixes_send rfl
  have hship {t : World} (ht : Same stage w t) :
      Ends (shipChangeset env (pruned env changes)) t fun _ w' =>
        Ships (finalList env (pruned env changes)) w.ctx.moduleValidationNotes w w' := by
    refine (shipChangeset_ends _ ((same_retries ht).trans hfresh)).mono fun _ u hu => ?_
    rw [same_notes (same_scene ht)] at hu
    exact .after (same_previews (same_scene ht)) hu
  refine (reflectMinimality_ends changes w).bind (fun r t ht => ?_) fun _ _ ht =>
    .silent (same_scene ht.1)
  obtain ⟨kept, removed⟩ := r
  obtain ⟨ht, hkept⟩ := ht
  obtain rfl := hkept kept removed rfl
  refine Ends.modify_bind ?_
  split
  · exact (hsend _).bind (fun _ u hu => hship (Same.trans ht hu)) fun _ _ hu =>
      .silent (same_scene (Same.trans ht hu))
  · exact hship ht

theorem applyRescueIfEmpty_ends (extracted : List Change) (w : World) :
    Ends (applyRescueIfEmpty env extracted) w fun r t => Same stage w t ∧
      ∀ changes, r = .ok changes → changes = rescued env w.ctx extracted := by
  unfold applyRescueIfEmpty rescued
  split
  · exact ⟨rfl, fun _ h => (Except.ok.inj h).symm⟩
  refine Ends.get_bind ?_
  split
  · next hprompt =>
    exact ⟨rfl, fun _ h => by simp [← Except.ok.inj h, hprompt]⟩
  next hprompt =>
  have hattempt : Fixes stage (attempt env .rescue) := fixes_attempt
  refine ((hattempt w).and (attempt_value env .rescue w)).bind (fun b t ht => ?_)
    fun _ _ ht => ⟨ht.1, nofun⟩
  obtain rfl := Except.ok.inj (ht.2.resolve_left nofun)
  by_cases hr : env.raised .rescue = none
  · simp only [hr, decide_true, if_true, hprompt, ne_eq, not_true_eq_false, decide_false, Bool.or_false]
    cases extract env env.rescueText with
    | error e => exact ⟨ht.1, fun _ h => (Except.ok.inj h).symm⟩
    | ok regenerated => exact ⟨ht.1, fun _ h => (Except.ok.inj h).symm⟩
  · simp only [hr, decide_false, Bool.false_eq_true, if_false, ne_eq, not_false_eq_true, decide_true,
      Bool.or_true, if_true]
    exact ⟨ht.1, fun _ h => (Except.ok.inj h).symm⟩

theorem collected_congr {c c' : Ctx} (h : aim c' = aim c) (resultText : List Char) :
    collected env c' resultText = collected env c resultText := by
  cases c
  cases c'
  simp only [aim, Prod.mk.injEq] at h
  obtain ⟨rfl, rfl, rfl, rfl, rfl⟩ := h
  rfl

theorem netted_congr {c c' : Ctx} (h : aim c' = aim c) (resultText : List Char) :
    netted env c' resultText = netted env c resultText := by
  cases c
  cases c'
  simp only [aim, Prod.mk.injEq] at h
  obtain ⟨rfl, rfl, rfl, rfl, rfl⟩ := h
  rfl

theorem notesOn_congr {c c' : Ctx} (h : aim c' = aim c)
    (hnotes : c'.moduleValidationNotes = c.moduleValidationNotes) (changes : List Change) :
    notesOn env c' changes = notesOn env c changes := by
  cases c
  cases c'
  simp only [aim, Prod.mk.injEq] at h
  obtain ⟨rfl, rfl, rfl, rfl, rfl⟩ := h
  obtain rfl := hnotes
  rfl

/-- What is left alone by the safety nets, and what they return. -/
structure Netted (env : Env) (resultText : List Char) (w : World) (r : Except Exc (List Change))
    (w' : World) : Prop where
  previews : previews w'.log = previews w.log
  retries : w'.ctx.dryRunRetries = w.ctx.dryRunRetries
  changes : ∀ changes, r = .ok changes → changes = netted env w.ctx resultText
  notes : ∀ changes, r = .ok changes → w'.ctx.moduleValidationNotes = notesOn env w.ctx changes

theorem Netted.error {resultText : List Char} {e : Exc} (h : Same stage w w') :
    Netted env resultText w (.error e) w' :=
  ⟨same_previews (same_scene h), same_retries h, nofun, nofun⟩

theorem applyModuleValidation_ends (changes : List Change) (w : World) :
    Ends (applyModuleValidation env changes) w fun r t =>
      previews t.log = previews w.log ∧ t.ctx.dryRunRetries = w.ctx.dryRunRetries ∧
        (r = .ok ⟨⟩ → t.ctx.moduleValidationNotes = notesOn env w.ctx changes) := by
  have hpause : Fixes stage (pause env .validateModule) := fixes_pause
  refine Ends.get_bind ?_
  unfold notesOn
  generalize Option.filter (fun m : String => !m.isEmpty) w.ctx.module = found
  rcases found with _ | module
  · exact ⟨rfl, rfl, fun _ => rfl⟩
  dsimp only
  split
  · refine (hpause w).bind (fun _ t ht => ?_) fun _ t ht =>
      ⟨same_previews (same_scene ht), same_retries ht, nofun⟩
    have hpreviews : previews t.log = previews w.log := same_previews (same_scene ht)
    have hretries : t.ctx.dryRunRetries = w.ctx.dryRunRetries := same_retries ht
    refine ⟨hpreviews, hretries, fun _ => ?_⟩
    have hsecs : t.ctx.secondaryModules = w.ctx.secondaryModules :=
      congrArg (fun s => s.1.1.2.2.2.1) ht
    change moduleNotes env t.ctx module changes = _
    simp only [moduleNotes, hsecs]
  · exact ⟨rfl, rfl, fun _ => rfl⟩

theorem lastNets_end {resultText : List Char} {t : World} (ht : Same stage w t) :
    Ends (do
      setChanges (netted env w.ctx resultText)
      applyModuleValidation env (netted env w.ctx resultText)
      pure (netted env w.ctx resultText)) t (Netted env resultText w) := by
  have hscene := same_scene ht
  refine Ends.modify_bind ((applyModuleValidation_ends _ _).bind (fun _ u hu => ?_) fun _ u hu => ?_)
  · refine ⟨hu.1.trans (same_previews hscene), hu.2.1.trans (same_retries ht),
      fun _ h => (Except.ok.inj h).symm, ?_⟩
    intro changes h
    obtain rfl := Except.ok.inj h
    exact (hu.2.2 rfl).trans (notesOn_congr (same_aim hscene) (same_notes hscene) _)
  · exact ⟨hu.1.trans (same_previews hscene), hu.2.1.trans (same_retries ht), nofun, nofun⟩

theorem safetyNets_ends (resultText : List Char) (w : World) :
    Ends (safetyNets env resultText) w (Netted env resultText w) := by
  unfold safetyNets
  rcases hex : (if env.driftReason.isSome then .ok [] else extract env resultText : Except PyError _) with
    e | extracted
  · cases e with
    | attributeError => exact .error rfl
    | typeError => exact .error rfl
    | valueError => exact .error rfl
  refine Ends.bind_of_ok rfl (Ends.modify_bind ?_)
  refine (applyRescueIfEmpty_ends extracted _).bind (fun changes t ht => ?_) fun _ _ ht => .error ht.1
  obtain ⟨ht, hchanges⟩ := ht
  have hcollected : changes = collected env w.ctx resultText := by
    rw [hchanges changes rfl, collected, hex]
    rfl
  have haim : aim t.ctx = aim w.ctx := same_aim (same_scene ht)
  refine Ends.get_bind ?_
  have hnetted : applyReportHandoffSafetyNet env.dumps t.ctx.intent t.ctx.reportCandidate
      (applyDefaultsBackfill env t.ctx changes) = netted env w.ctx resultText := by
    rw [← netted_congr haim, netted, collected_congr haim, hcollected]
  dsimp only
  rw [hnetted]
  exact lastNets_end ht

/-- The message that a crew's work may end in. -/
def preview (env : Env) (c : Ctx) (resultText : List Char) : Preview where
  changes := finalList env (pruned env (netted env c resultText))
  notes := notesOn env c (netted env c resultText)

theorem stop_previews (error : String) (code : Code) (w : World) :
    Ends (stop error code) w fun _ w' => previews w'.log = previews w.log := by
  have hlog : previews (w.log ++ [.stopped { error := error, code := code }]) = previews w.log := by
    simp [previews]
  exact hlog

theorem postCrew_previews (hfresh : w.ctx.dryRunRetries = 0) :
    Ends (postCrew env) w fun _ w' => ∀ p ∈ previews w'.log, p ∈ previews w.log ∨
      ∃ resultText, w.ctx.crewResult = some (.completed resultText) ∧
        p = preview env w.ctx resultText := by
  have hstop : ∀ error code, Ends (stop error code) w fun _ w' => ∀ p ∈ previews w'.log,
      p ∈ previews w.log ∨ ∃ resultText, w.ctx.crewResult = some (.completed resultText) ∧
        p = preview env w.ctx resultText := fun error code =>
    (stop_previews error code w).mono fun _ _ h p hp => .inl (h ▸ hp)
  have hsend : Fixes stage (send env .crewFinished .agentStatus) := fixes_send rfl
  refine Ends.get_bind ?_
  split
  swap
  · exact fun _ hp => .inl hp
  refine Ends.get_bind ?_
  split
  · next resultText hresult =>
    refine Ends.modify_bind ((hsend _).bind (fun _ t ht => ?_) fun _ t ht p hp =>
      .inl (same_previews (same_scene ht) ▸ hp))
    have hscene : Same scene w t := same_scene ht
    have haim : aim t.ctx = aim w.ctx := same_aim hscene
    refine (safetyNets_ends resultText t).bind (fun changes u hu => ?_) fun _ u hu p hp =>
      .inl (hu.previews.trans (same_previews hscene) ▸ hp)
    have hchanges : changes = netted env w.ctx resultText :=
      (hu.changes changes rfl).trans (netted_congr haim resultText)
    have hnotes : u.ctx.moduleValidationNotes = notesOn env w.ctx changes :=
      (hu.notes changes rfl).trans (notesOn_congr haim (same_notes hscene) changes)
    have hlog : previews u.log = previews w.log := hu.previews.trans (same_previews hscene)
    split
    · exact (stop_previews _ _ u).mono fun _ _ h p hp => .inl (hlog ▸ h ▸ hp)
    · have hretries : u.ctx.dryRunRetries = 0 :=
        hu.retries.trans ((same_retries ht).trans hfresh)
      refine (finishChangeset_ends changes hretries).mono fun _ v hv p hp => ?_
      rw [hnotes, hchanges] at hv
      rcases hv with hv | hv
      · exact .inl (hlog ▸ hv ▸ hp)
      · rw [hv, hlog, List.mem_append, List.mem_singleton] at hp
        exact hp.imp_right fun hp => ⟨resultText, hresult, hp⟩
  · exact hstop _ _
  · exact hstop _ _

end AlfredProcessing.Pipeline.Shipped
