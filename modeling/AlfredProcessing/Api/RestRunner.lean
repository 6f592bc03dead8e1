import AlfredProcessing.Pipeline.Terminal

namespace AlfredProcessing.Api.RestRunner

open Lib.Effects PostBuild.Backfill Pipeline.Context Pipeline.Phases Pipeline.Runner
  Pipeline.Outcomes Pipeline.Terminal

inductive Status where
  | queued
  | running
  | completed
  | failed
  deriving DecidableEq

/-- A row of the task store, as far as the runner writes to it. -/
structure TaskState where
  status : Status
  error : Option String := none
  changes : List Change := []
  mode : Option Mode := none

inductive StoreCall where
  | readState
  | setRunning
  | readFinal
  | setFinal
  deriving DecidableEq

/-- A submitted task: what its run meets, whether its row was still there at the
start, and at which store calls it was cancelled. A cancelled write may have
taken effect. -/
structure Task where
  env : Env
  present : Bool
  cancelled : StoreCall → Bool
  landed : StoreCall → Bool

/-- The row of the task, its pipeline, and the entry of its user in
`_concurrent_tasks`. -/
structure RestWorld where
  row : Option TaskState
  pipeline : World := {}
  slots : Option Nat := none

abbrev RestRun := Program RestWorld Exc

/-- What `_RestConn` leaves of the environment: no MCP client, and nobody who
sends cancel frames. -/
def restEnv (env : Env) : Env := { env with frame := fun _ => false, hasMcp := false }

variable (task : Task)

def getTaskState (call : StoreCall) : RestRun (Option TaskState) := do
  if task.cancelled call then throw .cancelled
  else
    let s ← get
    pure s.row

def setTaskState (call : StoreCall) (row : TaskState) : RestRun PUnit := do
  if task.cancelled call then
    modify fun s => if task.landed call then { s with row := some row } else s
    throw .cancelled
  else modify fun s => { s with row := some row }

def runPipeline : RestRun PUnit :=
  within RestWorld.pipeline (fun w s => { s with pipeline := w }) (run (restEnv task.env))

/-- `str(e)`; a timeout has no text. -/
def Exc.text : Exc → String
  | .other message => message
  | _ => ""

/-- The final status and error of a run that returned. -/
def verdict (c : Ctx) : Status × Option String :=
  match c.stopSignal with
  | some signal => if c.shouldStop then (.failed, some signal.error) else (.completed, none)
  | none => (.completed, none)

def drivePipeline : RestRun (Status × Option String) :=
  tryCatch (do
    runPipeline task
    let s ← get
    pure (verdict s.pipeline.ctx))
  fun e => if e = .cancelled then throw e else pure (.failed, some ("Pipeline crashed: " ++ Exc.text e))

def finalState (stored : TaskState) (status : Status) (error : Option String) (c : Ctx) : TaskState :=
  { status := status
    error := (error.filter (!·.isEmpty)).or stored.error
    changes := if c.changes.isEmpty then stored.changes else c.changes
    mode := some c.mode }

def releaseSlot (s : RestWorld) : RestWorld :=
  { s with slots := if s.slots.getD 1 ≤ 1 then none else s.slots.map (· - 1) }

/-- `_run_rest_task`. -/
def runRestTask : RestRun PUnit :=
  ensuring (do
    let state ← getTaskState task .readState
    match state with
    | none => pure ⟨⟩
    | some state =>
      setTaskState task .setRunning { state with status := .running }
      let (status, error) ← drivePipeline task
      let stored ← getTaskState task .readFinal
      let s ← get
      setTaskState task .setFinal
        (finalState (stored.getD { state with status := .running }) status error s.pipeline.ctx))
    releaseSlot

/-- What `create_task` stored, unless the row is gone. -/
def start : RestWorld :=
  { row := if task.present then some { status := .queued } else none, slots := some 1 }

def taskEnd : Except Exc PUnit × RestWorld := exec (runRestTask task) (start task)

def runEnd : Except Exc PUnit × World := exec (run (restEnv task.env)) {}

def phasesEnd : Except Exc PUnit × World := exec (runPhases (restEnv task.env) phases) {}

def reachesPipeline : Prop :=
  task.present ∧ ¬task.cancelled .readState ∧ ¬task.cancelled .setRunning

/-- The stored status tells how the run went. -/
structure Agrees : Prop where
  completed : ∀ row, (taskEnd task).2.row = some row → (row.status = .completed ↔
    reachesPipeline task ∧ (runEnd task).1 = .ok ⟨⟩ ∧ ∀ e ∈ (runEnd task).2.log, isFailure e = false)
  failed : ∀ row, (taskEnd task).2.row = some row →
    (reachesPipeline task ∧ (phasesEnd task).1 ≠ .ok ⟨⟩ ∨ (taskEnd task).1 = .error .cancelled) →
    row.status = .failed
  settled : ∀ row, (taskEnd task).2.row = some row →
    row.status ≠ .queued ∧ row.status ≠ .running

def stopped (w : World) : Prop := w.ctx.shouldStop = true ∧ w.ctx.stopSignal.isSome

/-- No phase raises and the task is not cancelled, except when its last write
landed and says that a phase stopped the run. -/
structure Undisturbed : Prop where
  reaches : ¬task.cancelled .readState ∧ ¬task.cancelled .setRunning
  phases : (phasesEnd task).1 = .ok ⟨⟩
  report : stopped (phasesEnd task).2 → task.env.raised .reportError ≠ some .cancelled
  readFinal : ¬task.cancelled .readFinal
  setFinal : task.cancelled .setFinal → task.landed .setFinal ∧ stopped (phasesEnd task).2

/-- How `AgentPipeline.run` ends for a REST task. -/
inductive RunEnd : Except Exc PUnit → World → Prop
  | cancelled {w : World} (h : (phasesEnd task).1 ≠ .ok ⟨⟩ ∨
      stopped (phasesEnd task).2 ∧ task.env.raised .reportError = some .cancelled) :
    RunEnd (.error .cancelled) w
  | swallowed {w : World} (h : (phasesEnd task).1 ≠ .ok ⟨⟩) (hflags : flags w.ctx = (false, none)) :
    RunEnd (.ok ⟨⟩) w
  | stopped {w : World} (h : (phasesEnd task).1 = .ok ⟨⟩) (hstop : stopped (phasesEnd task).2)
    (hsent : task.env.raised .reportError ≠ some .cancelled) (hw : stopped w)
    (hlog : ∃ e ∈ w.log, isFailure e) : RunEnd (.ok ⟨⟩) w
  | finished {w : World} (h : (phasesEnd task).1 = .ok ⟨⟩) (hstop : ¬stopped (phasesEnd task).2)
    (hw : ¬stopped w) (hlog : ∀ e ∈ w.log, isFailure e = false) : RunEnd (.ok ⟨⟩) w

variable {task : Task}

theorem exec_send {p : Point} {m : Message} {w : World} :
    exec (send (restEnv task.env) p m) w =
      if task.env.raised p = some .cancelled then
        (.error .cancelled, if task.env.landed p then { w with log := w.log ++ [.sent m] } else w)
      else (.ok ⟨⟩, { w with log := w.log ++ [.sent m] }) := by
  unfold send handleFrames
  by_cases hc : task.env.raised p = some .cancelled
  · by_cases hl : task.env.landed p = true
    · simp [restEnv, exec_bind, hc, hl, emit]
    · simp [restEnv, hc, hl]
  · simp [restEnv, hc, emit]

theorem exec_sendError (error : String) (code : Code) (w : World) :
    exec (sendError (restEnv task.env) error code) w =
      if task.env.raised .reportError = some .cancelled then
        (.error .cancelled, if task.env.landed .reportError then
          { w with log := w.log ++ [.sent (failureMessage error code)] } else w)
      else (.ok ⟨⟩, { w with log := w.log ++ [.sent (failureMessage error code)] }) := by
  unfold sendError failureMessage
  split <;> exact exec_send

theorem isFailure_failureMessage (error : String) (code : Code) :
    isFailure (.sent (failureMessage error code)) := by
  unfold failureMessage
  split <;> rfl

theorem flags_of_calm {w : World} (h : Calm (restEnv task.env) {} w) :
    flags w.ctx = (false, none) := by
  obtain ⟨new, -, -, -, hframe, hflags⟩ := h.delivers
  rw [hflags]
  split
  · next hc =>
    obtain ⟨p, hp⟩ := hframe hc
    exact Bool.noConfusion hp
  · rfl

theorem no_failure_of_delivers {n : Nat} {env : Env} {w : World} (h : Delivers env n {} w) :
    ∀ e ∈ w.log, isFailure e = false := by
  intro e he
  have hq := (logged_of_delivers h).1 e he
  simp only [quiet, Bool.and_eq_true, Bool.not_eq_true'] at hq
  exact hq.1

theorem phases_no_failure {t : World} (h : phasesEnd task = (.ok ⟨⟩, t)) :
    ∀ e ∈ t.log, isFailure e = false := by
  cases phases_end.of_exec h with
  | failed hfailed hclash =>
    obtain ⟨mid, s, hmid, -, hlog, -⟩ := hfailed
    intro e he
    rw [hlog, List.mem_append, List.mem_singleton] at he
    rcases he with he | rfl
    · exact no_failure_of_delivers hmid.delivers e he
    · rfl
  | cancelled hcalm hflags hclash => exact no_failure_of_delivers hcalm.delivers
  | delivered hmid hlog hsignal hclash => exact hlog ▸ no_failure_of_delivers hmid

theorem reportStop_end {t : World} (h : phasesEnd task = (.ok ⟨⟩, t)) :
    RunEnd task (exec (reportStop (restEnv task.env)) t).1
      (exec (reportStop (restEnv task.env)) t).2 := by
  have hok : (phasesEnd task).1 = .ok ⟨⟩ := by rw [h]
  have ht : (phasesEnd task).2 = t := by rw [h]
  by_cases hstop : stopped t
  · obtain ⟨hs, s, hsignal⟩ := And.imp_right Option.isSome_iff_exists.mp hstop
    have hreport : exec (reportStop (restEnv task.env)) t =
        exec (sendError (restEnv task.env) s.error s.code) t := by
      simp only [reportStop, exec_bind, exec_get, hsignal, hs, if_true]
    rw [hreport, exec_sendError]
    split
    · next hc => exact .cancelled (.inr ⟨ht ▸ hstop, hc⟩)
    · next hc =>
      exact .stopped hok (ht ▸ hstop) hc hstop
        ⟨_, List.mem_append_right _ (List.mem_singleton_self _), isFailure_failureMessage _ _⟩
  · have hreport : exec (reportStop (restEnv task.env)) t = (.ok ⟨⟩, t) := by
      unfold reportStop
      rw [exec_bind, exec_get]
      dsimp only
      split
      · next s hs =>
        rw [if_neg fun hstop' => hstop ⟨hstop', by rw [hs]; rfl⟩]
        rfl
      · rfl
    rw [hreport]
    exact .finished hok (ht ▸ hstop) hstop (phases_no_failure h)

theorem run_ends : RunEnd task (runEnd task).1 (runEnd task).2 := by
  unfold runEnd
  rcases h : phasesEnd task with ⟨e | u, t⟩
  · have hne : (phasesEnd task).1 ≠ .ok ⟨⟩ := by
      rw [h]
      exact nofun
    rw [exec_run_error h]
    cases phases_end.of_exec h with
    | raised he hcalm hclash =>
      have hflags : flags t.ctx = (false, none) := flags_of_calm hcalm
      have hsend : ∀ error code, RunEnd task
          (exec (sendError (restEnv task.env) error code) t).1
          (exec (sendError (restEnv task.env) error code) t).2 := by
        intro error code
        rw [exec_sendError]
        split
        · exact .cancelled (.inl hne)
        · exact .swallowed hne hflags
      cases e with
      | timeout => exact hsend _ _
      | other message => exact hsend _ _
      | cancelled => exact absurd rfl he
    | lost hlive => exact .cancelled (.inl hne)
  · rw [exec_run_ok h]
    exact reportStop_end h

theorem verdict_of_stopped {w : World} (h : stopped w) : (verdict w.ctx).1 = .failed := by
  obtain ⟨hs, s, hsignal⟩ := And.imp_right Option.isSome_iff_exists.mp h
  simp only [verdict, hsignal, hs, if_true]

theorem verdict_of_not_stopped {w : World} (h : ¬stopped w) : (verdict w.ctx).1 = .completed := by
  unfold verdict
  split
  · next s hs =>
    rw [if_neg fun hstop => h ⟨hstop, by rw [hs]; rfl⟩]
  · rfl

theorem exec_getTaskState (call : StoreCall) (s : RestWorld) :
    exec (getTaskState task call) s =
      if task.cancelled call then (.error .cancelled, s) else (.ok s.row, s) := by
  unfold getTaskState
  split <;> rfl

theorem exec_setTaskState (call : StoreCall) (row : TaskState) (s : RestWorld) :
    exec (setTaskState task call row) s =
      if task.cancelled call then
        (.error .cancelled, if task.landed call then { s with row := some row } else s)
      else (.ok ⟨⟩, { s with row := some row }) := by
  unfold setTaskState
  split <;> rfl

theorem taskEnd_of_not_reached (hp : task.present) (h : ¬reachesPipeline task) :
    (taskEnd task).1 = .error .cancelled ∧ ∃ row, (taskEnd task).2.row = some row ∧
      (row.status = .queued ∨ row.status = .running) := by
  unfold taskEnd runRestTask start
  rw [exec_ensuring, exec_bind, exec_getTaskState]
  by_cases hread : task.cancelled .readState = true
  · simp [hread, hp, releaseSlot]
  · have hset : task.cancelled .setRunning = true := by
      by_contra hset
      exact h ⟨hp, hread, hset⟩
    by_cases hl : task.landed .setRunning = true
    · simp [hread, hp, exec_bind, exec_setTaskState, hset, hl, releaseSlot]
    · simp [hread, hp, exec_bind, exec_setTaskState, hset, hl, releaseSlot]

theorem taskEnd_of_cancelled (h : reachesPipeline task) (hrun : (runEnd task).1 = .error .cancelled) :
    (taskEnd task).1 = .error .cancelled ∧ ∃ row, (taskEnd task).2.row = some row ∧
      row.status = .running := by
  obtain ⟨hp, hread, hset⟩ := h
  unfold runEnd at hrun
  unfold taskEnd runRestTask start
  simp [exec_bind, exec_getTaskState, exec_setTaskState, hp, hread, hset, drivePipeline,
    exec_tryCatch, runPipeline, hrun, releaseSlot]

theorem taskEnd_of_ok (h : reachesPipeline task) (hrun : (runEnd task).1 = .ok ⟨⟩) :
    ∃ row, (taskEnd task).2.row = some row ∧
      if task.cancelled .readFinal then
        (taskEnd task).1 = .error .cancelled ∧ row.status = .running
      else if task.cancelled .setFinal then
        (taskEnd task).1 = .error .cancelled ∧
          row.status = if task.landed .setFinal then (verdict (runEnd task).2.ctx).1 else .running
      else (taskEnd task).1 = .ok ⟨⟩ ∧ row.status = (verdict (runEnd task).2.ctx).1 := by
  obtain ⟨hp, hread, hset⟩ := h
  have hdrive : ∀ s : RestWorld, s.pipeline = {} → exec (drivePipeline task) s =
      (.ok (verdict (runEnd task).2.ctx), { s with pipeline := (runEnd task).2 }) := by
    intro s hs
    unfold runEnd at hrun ⊢
    simp [-bind_pure_comp, drivePipeline, exec_tryCatch, exec_bind, runPipeline, hs, hrun]
  unfold taskEnd runRestTask start
  by_cases hr : task.cancelled .readFinal = true
  · simp [exec_bind, exec_getTaskState, exec_setTaskState, hp, hread, hset, hdrive, hr, releaseSlot]
  by_cases hf : task.cancelled .setFinal = true
  · by_cases hl : task.landed .setFinal = true
    · simp [exec_bind, exec_getTaskState, exec_setTaskState, hp, hread, hset, hdrive, hr, hf, hl,
        releaseSlot, finalState]
    · simp [exec_bind, exec_getTaskState, exec_setTaskState, hp, hread, hset, hdrive, hr, hf, hl,
        releaseSlot]
  · simp [exec_bind, exec_getTaskState, exec_setTaskState, hp, hread, hset, hdrive, hr, hf,
      releaseSlot, finalState]

theorem agrees_of_row {row : TaskState} (hrow : (taskEnd task).2.row = some row)
    (hcompleted : row.status = .completed ↔ reachesPipeline task ∧ (runEnd task).1 = .ok ⟨⟩ ∧
      ∀ e ∈ (runEnd task).2.log, isFailure e = false)
    (hfailed : reachesPipeline task ∧ (phasesEnd task).1 ≠ .ok ⟨⟩ ∨
      (taskEnd task).1 = .error .cancelled → row.status = .failed)
    (hsettled : row.status ≠ .queued ∧ row.status ≠ .running) : Agrees task where
  completed row' hrow' := by
    obtain rfl := Option.some.inj (hrow.symm.trans hrow')
    exact hcompleted
  failed row' hrow' := by
    obtain rfl := Option.some.inj (hrow.symm.trans hrow')
    exact hfailed
  settled row' hrow' := by
    obtain rfl := Option.some.inj (hrow.symm.trans hrow')
    exact hsettled

theorem not_agrees_of_cancelled {row : TaskState} (hrow : (taskEnd task).2.row = some row)
    (hend : (taskEnd task).1 = .error .cancelled) (hstatus : row.status ≠ .failed) : ¬Agrees task :=
  fun h => hstatus (h.failed row hrow (.inr hend))

/-- A run that ended with `failed` because a phase stopped it. -/
theorem agrees_of_stopped {row : TaskState} (hrow : (taskEnd task).2.row = some row)
    (hstatus : row.status = .failed) (hlog : ∃ e ∈ (runEnd task).2.log, isFailure e) :
    Agrees task := by
  obtain ⟨e, he, hfail⟩ := hlog
  refine agrees_of_row hrow ⟨fun hc => ?_, fun h => ?_⟩ (fun _ => hstatus) ?_
  · exact absurd (hstatus.symm.trans hc) nofun
  · exact absurd (hfail.symm.trans (h.2.2 e he)) nofun
  · rw [hstatus]
    exact ⟨nofun, nofun⟩

theorem agrees_iff_of_stopped (hreach : reachesPipeline task) (hrun : (runEnd task).1 = .ok ⟨⟩)
    (hphases : (phasesEnd task).1 = .ok ⟨⟩) (hstop : stopped (phasesEnd task).2)
    (hsent : task.env.raised .reportError ≠ some .cancelled) (hw : stopped (runEnd task).2)
    (hlog : ∃ e ∈ (runEnd task).2.log, isFailure e) : Agrees task ↔ Undisturbed task := by
  obtain ⟨row, hrow, hend⟩ := taskEnd_of_ok hreach hrun
  rw [verdict_of_stopped hw] at hend
  split at hend
  · next hread =>
    refine iff_of_false (not_agrees_of_cancelled hrow hend.1 ?_) fun h => absurd hread h.readFinal
    rw [hend.2]
    exact nofun
  · next hread =>
    split at hend
    · next hset =>
      split at hend
      · next hland =>
        exact ⟨fun _ => ⟨hreach.2, hphases, fun _ => hsent, hread, fun _ => ⟨hland, hstop⟩⟩,
          fun _ => agrees_of_stopped hrow hend.2 hlog⟩
      · next hland =>
        refine iff_of_false (not_agrees_of_cancelled hrow hend.1 ?_) fun h => hland (h.setFinal hset).1
        rw [hend.2]
        exact nofun
    · next hset =>
      exact ⟨fun _ => ⟨hreach.2, hphases, fun _ => hsent, hread, fun h => absurd h hset⟩,
        fun _ => agrees_of_stopped hrow hend.2 hlog⟩

theorem agrees_iff_of_finished (hreach : reachesPipeline task) (hrun : (runEnd task).1 = .ok ⟨⟩)
    (hphases : (phasesEnd task).1 = .ok ⟨⟩) (hstop : ¬stopped (phasesEnd task).2)
    (hw : ¬stopped (runEnd task).2) (hlog : ∀ e ∈ (runEnd task).2.log, isFailure e = false) :
    Agrees task ↔ Undisturbed task := by
  obtain ⟨row, hrow, hend⟩ := taskEnd_of_ok hreach hrun
  rw [verdict_of_not_stopped hw] at hend
  split at hend
  · next hread =>
    refine iff_of_false (not_agrees_of_cancelled hrow hend.1 ?_) fun h => absurd hread h.readFinal
    rw [hend.2]
    exact nofun
  · next hread =>
    split at hend
    · next hset =>
      refine iff_of_false (not_agrees_of_cancelled hrow hend.1 ?_) fun h => hstop (h.setFinal hset).2
      rw [hend.2]
      split <;> exact nofun
    · next hset =>
      have hagrees : Agrees task := by
        refine agrees_of_row hrow ⟨fun _ => ⟨hreach, hrun, hlog⟩, fun _ => hend.2⟩ ?_ ?_
        · rintro (h | h)
          · exact absurd hphases h.2
          · exact nomatch hend.1.symm.trans h
        · rw [hend.2]
          exact ⟨nofun, nofun⟩
      exact ⟨fun _ => ⟨hreach.2, hphases, fun h => absurd h hstop, hread, fun h => absurd h hset⟩,
        fun _ => hagrees⟩

theorem not_agrees_of_swallowed (hreach : reachesPipeline task) (hrun : (runEnd task).1 = .ok ⟨⟩)
    (hphases : (phasesEnd task).1 ≠ .ok ⟨⟩) (hflags : flags (runEnd task).2.ctx = (false, none)) :
    ¬Agrees task := by
  intro h
  obtain ⟨row, hrow, hend⟩ := taskEnd_of_ok hreach hrun
  have hw : ¬stopped (runEnd task).2 := fun hs => nomatch (congrArg Prod.fst hflags).symm.trans hs.1
  rw [verdict_of_not_stopped hw, h.failed row hrow (.inl ⟨hreach, hphases⟩)] at hend
  split at hend
  · exact nomatch hend.2
  · split at hend
    · have := hend.2
      split at this <;> exact nomatch this
    · exact nomatch hend.2

/-- What is stored when a task ends agrees with how its run went exactly when
nothing disturbed the run. -/
theorem agrees_iff_undisturbed (task : Task) :
    Agrees task ↔ (task.present → Undisturbed task) := by
  by_cases hp : task.present = true
  · rw [forall_prop_of_true hp]
    by_cases hreach : reachesPipeline task
    · have hend : RunEnd task (runEnd task).1 (runEnd task).2 := run_ends
      rcases hrun : runEnd task with ⟨r, w⟩
      rw [hrun] at hend
      cases hend with
      | cancelled h =>
        obtain ⟨hcancelled, row, hrow, hstatus⟩ := taskEnd_of_cancelled hreach (by rw [hrun])
        refine iff_of_false (not_agrees_of_cancelled hrow hcancelled ?_) fun hu => ?_
        · rw [hstatus]
          exact nofun
        · exact h.elim (fun h => absurd hu.phases h) fun h => absurd h.2 (hu.report h.1)
      | swallowed h hflags =>
        have hnot := not_agrees_of_swallowed hreach (by rw [hrun]) h (by rw [hrun]; exact hflags)
        exact ⟨fun hagrees => absurd hagrees hnot, fun hu => absurd hu.phases h⟩
      | stopped h hstop hsent hw hlog =>
        exact agrees_iff_of_stopped hreach (by rw [hrun]) h hstop hsent (by rw [hrun]; exact hw)
          (by rw [hrun]; exact hlog)
      | finished h hstop hw hlog =>
        exact agrees_iff_of_finished hreach (by rw [hrun]) h hstop (by rw [hrun]; exact hw)
          (by rw [hrun]; exact hlog)
    · obtain ⟨hend, row, hrow, hstatus⟩ := taskEnd_of_not_reached hp hreach
      refine iff_of_false (not_agrees_of_cancelled hrow hend ?_) fun h => hreach ⟨hp, h.reaches⟩
      intro hfailed
      rw [hfailed] at hstatus
      exact absurd hstatus (by decide)
  · have hnone : (taskEnd task).2.row = none := by
      unfold taskEnd runRestTask start
      rw [exec_ensuring, exec_bind, exec_getTaskState]
      by_cases hread : task.cancelled .readState = true
      · simp [hread, hp, releaseSlot]
      · simp [hread, hp, releaseSlot]
    exact ⟨fun _ h => absurd h hp, fun _ => ⟨by simp [hnone], by simp [hnone], by simp [hnone]⟩⟩

def timedOut : Task where
  env := { Env.smooth [] with raised := fun p => if p = .runCrew then some .timeout else none }
  present := true
  cancelled _ := false
  landed _ := false

theorem timedOut_is_stored_as_completed : ¬Agrees timedOut := by
  intro h
  obtain ⟨row, hrow, hstatus⟩ : ∃ row, (taskEnd timedOut).2.row = some row ∧
      row.status = .completed := ⟨_, rfl, rfl⟩
  have hraised : (phasesEnd timedOut).1 ≠ .ok ⟨⟩ := nofun
  have hreach : reachesPipeline timedOut := ⟨rfl, nofun, nofun⟩
  exact nomatch hstatus.symm.trans (h.failed row hrow (.inl ⟨hreach, hraised⟩))

end AlfredProcessing.Api.RestRunner
