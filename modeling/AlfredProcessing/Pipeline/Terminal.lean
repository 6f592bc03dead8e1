import AlfredProcessing.Pipeline.Outcomes

namespace AlfredProcessing.Pipeline.Terminal

open Lib.Effects Context Phases Runner Outcomes

def since (w w' : World) : List Event := w'.log.drop w.log.length

/-- In one phase a result went out and a cancel was handled. -/
def Clash (st : World × World) : Prop :=
  (since st.1 st.2).any isCancel ∧ (since st.1 st.2).any isResult

/-- The client got one terminal message, and the error that a phase stopped the
run with is the one it got. -/
structure Settled (log : List Event) : Prop where
  one : log.countP isTerminal = 1
  kept : ∀ s, .stopped s ∈ log → s.code ≠ .userCancel → .sent (.error s.error s.code) ∈ log

/-- A run between two phases that nothing stopped yet. -/
structure Running (w : World) : Prop where
  mode : w.ctx.mode = .dev
  flags : flags w.ctx = (false, none)

inductive LoopEnd (env : Env) (clash : Prop) (w : World) : Except Exc PUnit → World → Prop
  | raised {e : Exc} {w' : World} (he : e ≠ .cancelled) (hcalm : Calm env w w')
    (hclash : ¬clash) : LoopEnd env clash w (.error e) w'
  | lost {w' : World} (hlive : ¬Live env) : LoopEnd env clash w (.error .cancelled) w'
  | failed {w' : World} (hfailed : Failed env w w') (hclash : ¬clash) :
    LoopEnd env clash w (.ok ⟨⟩) w'
  | cancelled {w' : World} (hcalm : Calm env w w')
    (hflags : flags w'.ctx = (true, some cancelSignal)) (hclash : ¬clash) :
    LoopEnd env clash w (.ok ⟨⟩) w'
  | delivered {mid w' : World} (hmid : Delivers env 1 w mid) (hlog : w'.log = mid.log)
    (hsignal : w'.ctx.stopSignal = mid.ctx.stopSignal)
    (hclash : clash ∧ flags w'.ctx = (true, some cancelSignal) ∨
      ¬clash ∧ w'.ctx.stopSignal = none) : LoopEnd env clash w (.ok ⟨⟩) w'

variable {env : Env} {w w' : World} {n : Nat} {clash : Prop}

theorem LoopEnd.after {t : World} {r : Except Exc PUnit} (h : Calm env w t)
    (h' : LoopEnd env clash t r w') : LoopEnd env clash w r w' := by
  cases h' with
  | raised he hcalm hclash => exact .raised he (h.trans hcalm) hclash
  | lost hlive => exact .lost hlive
  | failed hfailed hclash => exact .failed (Absorbs.after h hfailed) hclash
  | cancelled hcalm hflags hclash => exact .cancelled (h.trans hcalm) hflags hclash
  | delivered hmid hlog hsignal hclash =>
    exact .delivered (Absorbs.after h hmid) hlog hsignal hclash

theorem clash_iff (hw : Running w) (h : Delivers env n w w') :
    Clash (w, w') ↔ 0 < n ∧ flags w'.ctx = (true, some cancelSignal) := by
  obtain ⟨new, hlog, -, hcount, -, hflags⟩ := h
  have hnew : since w w' = new := by rw [since, hlog, List.drop_left]
  have hpos : 0 < n ↔ new.any isResult = true := by
    rw [← hcount, List.countP_pos_iff, List.any_eq_true]
  rw [Clash, hnew, hpos, hflags, hw.flags, and_comm]
  cases new.any isCancel <;> simp

theorem flags_of_delivers (hw : Running w) (h : Delivers env n w w') :
    flags w'.ctx = (true, some cancelSignal) ∨ flags w'.ctx = (false, none) := by
  obtain ⟨new, -, -, -, -, hflags⟩ := h
  rw [hflags, hw.flags]
  cases new.any isCancel
  · exact .inr rfl
  · exact .inl rfl

theorem not_clash_of_failed (h : Failed env w w') : ¬Clash (w, w') := by
  obtain ⟨mid, s, hmid, hs, hlog, -⟩ := h
  obtain ⟨new, hnew, -, hcount, -⟩ := hmid.delivers
  rintro ⟨-, hresult⟩
  have hsince : since w w' = new ++ [.stopped s] := by
    rw [since, hlog, hnew, List.append_assoc, List.drop_left]
  rw [hsince, List.any_append, Bool.or_eq_true] at hresult
  rcases hresult with hresult | hresult
  · rw [List.countP_eq_zero] at hcount
    obtain ⟨e, he, hr⟩ := List.any_eq_true.mp hresult
    exact hcount e he hr
  · exact Bool.noConfusion hresult

theorem exec_runPhases_stopped {ps : List Phase} (h : w.ctx.shouldStop = true) :
    exec (runPhases env ps) w = (.ok ⟨⟩, w) := by
  cases ps with
  | nil => rfl
  | cons p ps => simp only [runPhases, exec_bind, exec_get, h, if_true, exec_pure]

theorem phaseSteps_stopped {ps : List Phase} (h : w.ctx.shouldStop = true) :
    phaseSteps env ps w = [] := by
  cases ps with
  | nil => rfl
  | cons p ps => simp only [phaseSteps, h, if_true]

theorem exec_runPhases_ok {p : Phase} {ps : List Phase} {t : World}
    (h : w.ctx.shouldStop = false) (hp : exec (phase env p) w = (.ok ⟨⟩, t)) :
    exec (runPhases env (p :: ps)) w = exec (runPhases env ps) t := by
  simp only [runPhases, exec_bind, exec_get, h, hp, Bool.false_eq_true, if_false]

theorem exec_runPhases_error {p : Phase} {ps : List Phase} {t : World} {e : Exc}
    (h : w.ctx.shouldStop = false) (hp : exec (phase env p) w = (.error e, t)) :
    exec (runPhases env (p :: ps)) w = (.error e, t) := by
  simp only [runPhases, exec_bind, exec_get, h, hp, Bool.false_eq_true, if_false]

theorem phaseSteps_ok {p : Phase} {ps : List Phase} {t : World}
    (h : w.ctx.shouldStop = false) (hp : exec (phase env p) w = (.ok ⟨⟩, t)) :
    phaseSteps env (p :: ps) w = (w, t) :: phaseSteps env ps t := by
  simp only [phaseSteps, h, hp, Bool.false_eq_true, if_false]

theorem phaseSteps_error {p : Phase} {ps : List Phase} {t : World} {e : Exc}
    (h : w.ctx.shouldStop = false) (hp : exec (phase env p) w = (.error e, t)) :
    phaseSteps env (p :: ps) w = [(w, t)] := by
  simp only [phaseSteps, h, hp, Bool.false_eq_true, if_false]

theorem delivered_ends (hw : Running w) (h : Delivers env 1 w w') :
    LoopEnd env (Clash (w, w')) w (.ok ⟨⟩) w' := by
  refine .delivered h rfl rfl ?_
  rw [clash_iff hw h]
  rcases flags_of_delivers hw h with hf | hf
  · exact .inl ⟨⟨Nat.one_pos, hf⟩, hf⟩
  · exact .inr ⟨fun hc => absurd (hf.symm.trans hc.2) (by decide), congrArg Prod.snd hf⟩

theorem raised_ends {e : Exc} (hw : Running w) (h : Raised env e w w') :
    LoopEnd env (Clash (w, w')) w (.error e) w' := by
  obtain ⟨rfl, hlive⟩ | ⟨he, hcalm⟩ := h
  · exact .lost hlive
  · exact .raised he hcalm fun hc =>
      absurd ((clash_iff hw hcalm.delivers).mp hc).1 (Nat.lt_irrefl 0)

theorem answered_ends (hw : Running w) (h : Answered env w w') :
    LoopEnd env (Clash (w, w')) w (.ok ⟨⟩) w' := by
  obtain ⟨mid, hmid, hlog, hflags⟩ := h
  have hsignal : w'.ctx.stopSignal = mid.ctx.stopSignal := congrArg Prod.snd hflags
  refine .delivered hmid hlog hsignal ?_
  have hsince : Clash (w, w') ↔ Clash (w, mid) := by simp only [Clash, since, hlog]
  rw [hsince, clash_iff hw hmid]
  rcases flags_of_delivers hw hmid with hf | hf
  · exact .inl ⟨⟨Nat.one_pos, hf⟩, hflags.trans (congrArg _ (congrArg Prod.snd hf))⟩
  · exact .inr ⟨fun hc => absurd (hf.symm.trans hc.2) (by decide),
      hsignal.trans (congrArg Prod.snd hf)⟩

theorem finished_ends (hw : Running w) (h : Finished env w w') :
    LoopEnd env (Clash (w, w')) w (.ok ⟨⟩) w' := by
  rcases h with h | h
  · exact delivered_ends hw h
  · exact .failed h (not_clash_of_failed h)

/-- What a phase does to a run that nothing stopped yet: the run goes on, or it
ends here. -/
inductive PhaseEnd (env : Env) (p : Phase) (w : World) : Except Exc PUnit → World → Prop
  | goesOn {t : World} (hp : p ≠ .postCrew) (hcalm : Calm env w t) (ht : Running t) :
    PhaseEnd env p w (.ok ⟨⟩) t
  | ends {r : Except Exc PUnit} {t : World} (h : LoopEnd env (Clash (w, t)) w r t)
    (hstop : r = .ok ⟨⟩ → p = .postCrew ∨ t.ctx.shouldStop = true) : PhaseEnd env p w r t

theorem phaseEnd_of_outcome {p : Phase} {t : World} (hw : Running w) (hp : p ≠ .postCrew)
    (h : Outcome env w t) : PhaseEnd env p w (.ok ⟨⟩) t := by
  obtain h | h | h := h
  · have hclash : ¬Clash (w, t) := fun hc =>
      absurd ((clash_iff hw h.delivers).mp hc).1 (Nat.lt_irrefl 0)
    rcases flags_of_delivers hw h.delivers with hf | hf
    · exact .ends (.cancelled h hf hclash) fun _ => .inr (congrArg Prod.fst hf)
    · exact .goesOn hp h ⟨h.mode hw.mode, hf⟩
  · obtain ⟨_, _, _, _, _, hflags⟩ := id h
    exact .ends (.failed h (not_clash_of_failed h)) fun _ => .inr (congrArg Prod.fst hflags)
  · obtain ⟨_, _, _, hflags⟩ := id h
    exact .ends (answered_ends hw h) fun _ => .inr (congrArg Prod.fst hflags)

theorem phase_ends (hw : Running w) (p : Phase) :
    Ends (phase env p) w (PhaseEnd env p w) := by
  by_cases hp : p = .postCrew
  · subst hp
    refine (postCrew_finishes hw.mode).mono fun r t hr => ?_
    cases r with
    | error e => exact .ends (raised_ends hw hr) nofun
    | ok u => exact .ends (finished_ends hw hr) fun _ => .inl rfl
  · refine (phase_outcome hp w).mono fun r t hr => ?_
    cases r with
    | error e => exact .ends (raised_ends hw hr) nofun
    | ok u => exact phaseEnd_of_outcome hw hp hr

theorem runPhases_ends (env : Env) (ps : List Phase) :
    ∀ w, Running w → (∃ qs, ps = qs ++ [.postCrew] ∧ .postCrew ∉ qs) →
      Ends (runPhases env ps) w
        (LoopEnd env (∃ st ∈ phaseSteps env ps w, Clash st) w) := by
  induction ps with
  | nil => simp
  | cons p ps ih =>
    rintro w hw ⟨qs, hqs, hnot⟩
    have hgo : w.ctx.shouldStop = false := congrArg Prod.fst hw.flags
    rcases hr : exec (phase env p) w with ⟨r, t⟩
    cases (phase_ends hw p).of_exec hr with
    | goesOn hp hcalm ht =>
      have hps : ∃ qs', ps = qs' ++ [.postCrew] ∧ .postCrew ∉ qs' := by
        cases qs with
        | nil => exact absurd (List.cons.inj hqs).1 hp
        | cons q qs => exact ⟨qs, (List.cons.inj hqs).2, List.not_mem_of_not_mem_cons hnot⟩
      have hclash : ¬Clash (w, t) := fun hc =>
        absurd ((clash_iff hw hcalm.delivers).mp hc).1 (Nat.lt_irrefl 0)
      rw [Ends, exec_runPhases_ok hgo hr, phaseSteps_ok hgo hr]
      simp only [List.mem_cons, exists_eq_or_imp, hclash, false_or]
      exact (ih t ht hps).after hcalm
    | ends h hstop =>
      rcases r with e | u
      · rw [Ends, exec_runPhases_error hgo hr, phaseSteps_error hgo hr]
        simpa only [List.mem_singleton, exists_eq_left] using h
      · have hend : exec (runPhases env ps) t = (.ok ⟨⟩, t) ∧
            phaseSteps env ps t = [] := by
          obtain rfl | hstop := hstop rfl
          · cases qs with
            | nil =>
              obtain rfl := (List.cons.inj hqs).2
              exact ⟨rfl, rfl⟩
            | cons q qs => exact absurd ((List.cons.inj hqs).1 ▸ List.mem_cons_self) hnot
          · exact ⟨exec_runPhases_stopped hstop, phaseSteps_stopped hstop⟩
        rw [Ends, exec_runPhases_ok hgo hr, phaseSteps_ok hgo hr, hend.1, hend.2]
        simpa only [List.mem_singleton, exists_eq_left] using h

/-- The message of `_send_error`. -/
def failureMessage (error : String) (code : Code) : Message :=
  if code = .userCancel then .runCancelled error else .error error code

theorem sendError_sends (hsend : env.raised .reportError ≠ some .cancelled) (error : String)
    (code : Code) (w : World) :
    Ends (sendError env error code) w fun r w' =>
      r = .ok ⟨⟩ ∧ ∃ frames, (∀ e ∈ frames, e = .stopped cancelSignal) ∧
        w'.log = w.log ++ frames ++ [.sent (failureMessage error code)] := by
  have hone : ∀ m, Ends (send env .reportError m) w fun r w' =>
      r = .ok ⟨⟩ ∧ ∃ frames, (∀ e ∈ frames, e = .stopped cancelSignal) ∧
        w'.log = w.log ++ frames ++ [.sent m] := by
    intro m
    unfold send handleFrames
    rw [if_neg hsend]
    split
    · exact ⟨rfl, [.stopped cancelSignal], by simp, rfl⟩
    · exact ⟨rfl, [], by simp, by simp [emit]⟩
  unfold sendError failureMessage
  split
  · exact hone _
  · exact hone _

/-- What a run logged before it reported: `n` results and nothing else final. -/
def Logged (n : Nat) (log : List Event) : Prop :=
  (∀ e ∈ log, quiet e) ∧ log.countP isResult = n

theorem logged_of_delivers (h : Delivers env n {} w') : Logged n w'.log := by
  obtain ⟨new, hlog, hquiet, hcount, -⟩ := h
  rw [hlog, List.nil_append]
  exact ⟨hquiet, hcount⟩

theorem Logged.terminals {log : List Event} (h : Logged n log) : log.countP isTerminal = n := by
  rw [← h.2]
  refine List.countP_congr fun e he => ?_
  have hq := h.1 e he
  simp only [quiet, Bool.and_eq_true, Bool.not_eq_true'] at hq
  simp only [isTerminal, hq.1, Bool.or_false]

theorem Logged.kept {log : List Event} (h : Logged n log) {s : StopSignal}
    (hs : .stopped s ∈ log) : s.code = .userCancel := by
  have hq := h.1 _ hs
  simpa [quiet, isErrorStop, isFailure] using hq

theorem Logged.settled {log : List Event} (h : Logged n log) : Settled log ↔ n = 1 := by
  refine ⟨fun hs => h.terminals.symm.trans hs.one, fun hn => ⟨h.terminals.trans hn, ?_⟩⟩
  intro s hs hcode
  exact absurd (h.kept hs) hcode

theorem isTerminal_failureMessage (error : String) (code : Code) :
    isTerminal (Event.sent (failureMessage error code)) := by
  unfold failureMessage
  split <;> rfl

theorem terminals_of_reported {log frames : List Event}
    (hf : ∀ e ∈ frames, e = .stopped cancelSignal) (error : String) (code : Code) :
    (log ++ frames ++ [Event.sent (failureMessage error code)]).countP isTerminal =
      log.countP isTerminal + 1 := by
  have hframes : frames.countP isTerminal = 0 := List.countP_eq_zero.mpr fun e he => by
    rw [hf e he]
    decide
  rw [List.countP_append, List.countP_append, hframes, Nat.add_zero, List.countP_singleton,
    if_pos (isTerminal_failureMessage error code)]

theorem mem_of_reported {log frames : List Event} {m : Message} {s : StopSignal}
    (hf : ∀ e ∈ frames, e = .stopped cancelSignal)
    (hs : .stopped s ∈ log ++ frames ++ [.sent m]) (hcode : s.code ≠ .userCancel) :
    .stopped s ∈ log := by
  simp only [List.mem_append, List.mem_singleton, reduceCtorEq, or_false] at hs
  refine hs.resolve_right fun hs => hcode ?_
  rw [(Event.stopped.inj (hf _ hs))]
  rfl

/-- A report behind `n` results. -/
theorem Logged.reported {log frames : List Event} (h : Logged n log)
    (hf : ∀ e ∈ frames, e = .stopped cancelSignal) (error : String) (code : Code) :
    Settled (log ++ frames ++ [.sent (failureMessage error code)]) ↔ n = 0 := by
  have hcount : (log ++ frames ++ [Event.sent (failureMessage error code)]).countP isTerminal =
      log.countP isTerminal + 1 := terminals_of_reported hf error code
  rw [h.terminals] at hcount
  refine ⟨fun hs => ?_, fun hn => ⟨by rw [hcount, hn], fun s hs hcode => ?_⟩⟩
  · have := hs.one
    omega
  · exact absurd (h.kept (mem_of_reported hf hs hcode)) hcode

theorem settled_of_failed (h : Failed env {} w') :
    ∃ s, flags w'.ctx = (true, some s) ∧ ∀ frames, (∀ e ∈ frames, e = .stopped cancelSignal) →
      Settled (w'.log ++ frames ++ [.sent (failureMessage s.error s.code)]) := by
  obtain ⟨mid, s, hmid, hs, hlog, hflags⟩ := h
  have hlogged := logged_of_delivers hmid.delivers
  refine ⟨s, hflags, fun frames hf => ⟨?_, fun s' hs' hcode => ?_⟩⟩
  · rw [terminals_of_reported hf, hlog, List.countP_append, hlogged.terminals]
    rfl
  · have hmem := mem_of_reported hf hs' hcode
    rw [hlog, List.mem_append, List.mem_singleton, Event.stopped.injEq] at hmem
    obtain rfl := hmem.resolve_left fun h => hcode (hlogged.kept h)
    simp [failureMessage, hs]

theorem reportStop_ends (hsend : env.raised .reportError ≠ some .cancelled) {s : StopSignal}
    (h : flags w.ctx = (true, some s)) :
    Ends (reportStop env) w fun _ w' => ∃ frames, (∀ e ∈ frames, e = .stopped cancelSignal) ∧
      w'.log = w.log ++ frames ++ [.sent (failureMessage s.error s.code)] := by
  obtain ⟨hstop, hsignal⟩ := Prod.mk.inj h
  have hsent := (sendError_sends hsend s.error s.code w).mono fun _ _ h => h.2
  simpa only [Ends, reportStop, exec_bind, exec_get, hsignal, hstop, if_true] using hsent

theorem reportException_ends (hsend : env.raised .reportError ≠ some .cancelled) {e : Exc}
    (he : e ≠ .cancelled) (w : World) :
    Ends (reportException env e) w fun r w' => r = .ok ⟨⟩ ∧
      ∃ error code frames, (∀ e ∈ frames, e = .stopped cancelSignal) ∧
        w'.log = w.log ++ frames ++ [.sent (failureMessage error code)] := by
  cases e with
  | timeout => exact (sendError_sends hsend _ _ w).mono fun _ _ h => ⟨h.1, _, _, h.2⟩
  | other message => exact (sendError_sends hsend _ _ w).mono fun _ _ h => ⟨h.1, _, _, h.2⟩
  | cancelled => exact absurd rfl he

theorem exec_run_ok {t : World} (h : exec (runPhases env phases) {} = (.ok ⟨⟩, t)) :
    exec (run env) {} = exec (reportStop env) t := by
  simp only [run, exec_bind, exec_tryCatch, h, exec_pure, if_true]

theorem exec_run_error {e : Exc} {t : World}
    (h : exec (runPhases env phases) {} = (.error e, t)) :
    exec (run env) {} = exec (reportException env e) t := by
  rcases hr : exec (reportException env e) t with ⟨_ | _, w⟩
  · simp only [run, exec_bind, exec_tryCatch, h, hr]
  · simp only [run, exec_bind, exec_tryCatch, h, hr, exec_pure, Bool.false_eq_true, if_false]

theorem runPhases_calm (ps : List Phase) :
    ∀ w, .postCrew ∉ ps → Ends (runPhases env ps) w fun r w' =>
      r = .ok ⟨⟩ → w'.ctx.shouldStop = false → Calm env w w' := by
  induction ps with
  | nil => exact fun w _ _ _ => .refl w
  | cons p ps ih =>
    intro w hnot
    obtain ⟨hp, hps⟩ := List.ne_and_not_mem_of_not_mem_cons hnot
    refine Ends.get_bind ?_
    split
    · exact fun _ _ => .refl w
    · refine (phase_outcome hp.symm w).bind (fun _ t ht => ?_) fun _ _ _ h => by cases h
      cases hstop : t.ctx.shouldStop with
      | true =>
        rw [Ends, exec_runPhases_stopped hstop]
        exact fun _ hgo => Bool.noConfusion (hstop.symm.trans hgo)
      | false =>
        have hcalm : Calm env w t := by
          obtain h | ⟨_, _, _, _, _, hflags⟩ | ⟨_, _, _, hflags⟩ := ht
          · exact h
          · exact Bool.noConfusion (hstop.symm.trans (congrArg Prod.fst hflags))
          · exact Bool.noConfusion (hstop.symm.trans (congrArg Prod.fst hflags))
        exact (ih t hps).mono fun r u hu hr hgo => hcalm.trans (hu hr hgo)

theorem phases_end :
    Ends (runPhases env phases) {} (LoopEnd env (∃ st ∈ phaseSteps env phases {}, Clash st) {}) :=
  runPhases_ends env phases {} ⟨rfl, rfl⟩ ⟨phases.dropLast, rfl, by decide⟩

theorem run_ends (hlive : Live env) : Ends (run env) {} fun _ w' =>
    Settled w'.log ↔ ¬∃ st ∈ phaseSteps env phases {}, Clash st := by
  rcases hr : exec (runPhases env phases) {} with ⟨r, t⟩
  cases phases_end.of_exec hr with
  | raised he hcalm hclash =>
    obtain ⟨-, error, code, frames, hf, hlog⟩ := reportException_ends (hlive _) he t
    rw [Ends, exec_run_error hr, hlog, (logged_of_delivers hcalm.delivers).reported hf]
    simp only [hclash, not_false_eq_true]
  | lost hnot => exact absurd hlive hnot
  | failed hfailed hclash =>
    obtain ⟨s, hflags, hsettled⟩ := settled_of_failed hfailed
    obtain ⟨frames, hf, hlog⟩ := reportStop_ends (hlive _) hflags
    rw [Ends, exec_run_ok hr, hlog]
    simp only [hsettled frames hf, hclash, not_false_eq_true]
  | cancelled hcalm hflags hclash =>
    obtain ⟨frames, hf, hlog⟩ := reportStop_ends (hlive _) hflags
    rw [Ends, exec_run_ok hr, hlog, (logged_of_delivers hcalm.delivers).reported hf]
    simp only [hclash, not_false_eq_true]
  | delivered hmid hlog hsignal hclash =>
    have hlogged := hlog ▸ logged_of_delivers hmid
    obtain ⟨hclash, hflags⟩ | ⟨hclash, hnone⟩ := hclash
    · obtain ⟨frames, hf, hlog⟩ := reportStop_ends (hlive _) hflags
      rw [Ends, exec_run_ok hr, hlog, hlogged.reported hf]
      simp only [hclash, not_true_eq_false, Nat.one_ne_zero]
    · have hquiet : exec (reportStop env) t = (.ok ⟨⟩, t) := by
        simp only [reportStop, exec_bind, exec_get, hnone, exec_pure]
      rw [Ends, exec_run_ok hr, hquiet, hlogged.settled]
      simp only [hclash, not_false_eq_true]

/-- The run of a client that stays connected. -/
structure Connected extends Env where
  live : Live toEnv

/-- The client gets one terminal message, and no error is lost, exactly when no
cancel is handled in the phase that sends the result. -/
theorem settled_iff_no_clash (env : Connected) :
    Settled (exec (run env.toEnv) {}).2.log ↔ ∀ st ∈ phaseSteps env.toEnv phases {}, ¬Clash st := by
  have h : Settled (exec (run env.toEnv) {}).2.log ↔ _ := run_ends env.live
  rw [h]
  push Not
  rfl

/-- A chat run whose user cancels while the reply is being written. -/
def cancelledChat : Connected where
  toEnv := { Env.smooth [] with
    orchestratorEnabled := true
    decision := .chat
    frame := fun p => p = .handleChat }
  live _ := nofun

theorem cancelledChat_gets_two_outcomes : ¬Settled (exec (run cancelledChat.toEnv) {}).2.log := by
  intro h
  exact absurd h.one (by decide)

end AlfredProcessing.Pipeline.Terminal
