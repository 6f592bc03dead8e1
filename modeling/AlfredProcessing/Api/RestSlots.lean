import AlfredProcessing.Api.RestRunner
import AlfredProcessing.Lib.Keyed
import AlfredProcessing.Lib.Transition

namespace AlfredProcessing.Api.RestSlots

open Lib Lib.Effects Lib.Transition Pipeline.Context RestRunner

section Table

variable {K : Type}

/-- What of a submitted body the runner's key is made of. -/
structure Body (K : Type) where
  siteId : Option K
  user : Option K

/-- `_concurrency_key` of a body; `unknown` is the default of both. -/
def concurrencyKey (unknown : K) (body : Body K) : K × K :=
  (body.siteId.getD unknown, body.user.getD unknown)

/-- The awaits of `_run_rest_task`. -/
inductive Await where
  | readState
  | setRunning
  | pipeline
  | readFinal
  | setFinal
  deriving DecidableEq

inductive Exit where
  | returned
  | raised
  | cancelled
  deriving DecidableEq

/-- The task may go on from one await to another. -/
def follows : Await → Await → Bool
  | .readState, .setRunning => true
  | .setRunning, .pipeline => true
  | .pipeline, .pipeline => true
  | .pipeline, .readFinal => true
  | .readFinal, .setFinal => true
  | _, _ => false

/-- The task may end at an await: its row is gone, all is written, a store call raises or
the task is cancelled. What the pipeline raises is caught. -/
def ends : Await → Exit → Bool
  | .readState, .returned => true
  | .setFinal, .returned => true
  | _, .returned => false
  | .pipeline, .raised => false
  | _, .raised => true
  | _, .cancelled => true

inductive Phase (K : Type) where
  | spawned
  | suspended (key : K × K) (await : Await)
  | ended (exit : Exit)

structure Task (K : Type) where
  taskId : Nat
  body : Body K
  phase : Phase K

/-- `_concurrent_tasks`, and the tasks that were admitted. -/
structure State (K : Type) where
  concurrentTasks : K × K → Option Nat
  tasks : List (Task K)

inductive Action (K : Type) where
  | schedule (taskId : Nat) (body : Body K)
  | start (taskId : Nat)
  | advance (taskId : Nat) (next : Await)
  | finish (taskId : Nat) (exit : Exit)

def init (K : Type) : State K where
  concurrentTasks _ := none
  tasks := []

def Task.live (t : Task K) : Bool :=
  match t.phase with
  | .ended _ => false
  | _ => true

def Task.move (phase : Phase K) (t : Task K) : Task K := { t with phase := phase }

def released (entry : Option Nat) : Option Nat :=
  let newVal := entry.getD 1 - 1
  if newVal = 0 then none else some newVal

def State.move (s : State K) (taskId : Nat) (phase : Phase K) : State K :=
  { s with tasks := Keyed.modify Task.taskId taskId (Task.move phase) s.tasks }

variable [DecidableEq K]

/-- `schedule_rest_task`. -/
def scheduleRestTask (unknown : K) (cap : Int) (taskId : Nat) (body : Body K) (s : State K) : State K :=
  let key := concurrencyKey unknown body
  let current := (s.concurrentTasks key).getD 0
  if 0 < cap ∧ cap ≤ current then s
  else
    { concurrentTasks := Function.update s.concurrentTasks key (some (current + 1))
      tasks := s.tasks ++ [⟨taskId, body, .spawned⟩] }

/-- The `finally` clause of `_run_rest_task`. -/
def State.finish (s : State K) (taskId : Nat) (key : K × K) (exit : Exit) : State K :=
  { s.move taskId (.ended exit) with
    concurrentTasks := Function.update s.concurrentTasks key (released (s.concurrentTasks key)) }

/-- One stretch of the request's handler or of a task, from one await to the next. -/
def step (unknown : K) (cap : Int) (s : State K) : Action K → Option (State K)
  | .schedule taskId body =>
    if (Keyed.lookup Task.taskId taskId s.tasks).isNone then
      some (scheduleRestTask unknown cap taskId body s)
    else none
  | .start taskId =>
    match Keyed.lookup Task.taskId taskId s.tasks with
    | some ⟨_, body, .spawned⟩ =>
      some (s.move taskId (.suspended (concurrencyKey unknown body) .readState))
    | _ => none
  | .advance taskId next =>
    match Keyed.lookup Task.taskId taskId s.tasks with
    | some ⟨_, _, .suspended key await⟩ =>
      if follows await next then some (s.move taskId (.suspended key next)) else none
    | _ => none
  | .finish taskId exit =>
    match Keyed.lookup Task.taskId taskId s.tasks with
    | some ⟨_, _, .suspended key await⟩ =>
      if ends await exit then some (s.finish taskId key exit) else none
    | _ => none

/-- The tasks of a key that were admitted and have not ended. -/
def running (unknown : K) (s : State K) (key : K × K) : Nat :=
  s.tasks.countP fun t => decide (concurrencyKey unknown t.body = key) && t.live

/-- The table counts the tasks of every key, within the cap, and has no dead keys. -/
structure Counted (unknown : K) (cap : Int) (s : State K) : Prop where
  counter : ∀ key, (s.concurrentTasks key).getD 0 = running unknown s key
  capped : 0 < cap → ∀ key, (running unknown s key : Int) ≤ cap
  absent : ∀ key, s.concurrentTasks key = none ↔ running unknown s key = 0

end Table

section Runner

/-- A call leaves the slot of its user alone. -/
def Keeps (s t : RestWorld) : Prop := t.slots = s.slots

abbrev KeepsSlots {α : Type} (x : RestRun α) : Prop := Yields (fun _ => Keeps) Keeps x

variable {task : RestRunner.Task}

theorem Keeps.refl (s : RestWorld) : Keeps s s := rfl

theorem Keeps.trans {s t u : RestWorld} (h : Keeps s t) (h' : Keeps t u) : Keeps s u := Eq.trans h' h

theorem KeepsSlots.bind {α β : Type} {x : RestRun α} {f : α → RestRun β} (hx : KeepsSlots x)
    (hf : ∀ a, KeepsSlots (f a)) : KeepsSlots (x >>= f) :=
  Yields.bind hx hf (fun _ _ _ _ => Keeps.trans) fun _ _ _ => Keeps.trans

theorem keepsSlots_pure {α : Type} (a : α) : KeepsSlots (pure a : RestRun α) := Yields.pure Keeps.refl a

theorem keepsSlots_getTaskState (call : StoreCall) : KeepsSlots (getTaskState task call) :=
  Yields.ite (fun _ => Yields.throw Keeps.refl) fun _ =>
    KeepsSlots.bind (Yields.get Keeps.refl) fun _ => keepsSlots_pure _

theorem keepsSlots_setTaskState (call : StoreCall) (row : TaskState) :
    KeepsSlots (setTaskState task call row) := by
  refine Yields.ite (fun _ => KeepsSlots.bind (Yields.modify fun s => ?_) fun _ => Yields.throw Keeps.refl)
    fun _ => Yields.modify fun _ => rfl
  split <;> rfl

theorem keepsSlots_runPipeline : KeepsSlots (runPipeline task) := by
  intro s
  unfold runPipeline Ends
  rw [exec_within]
  cases (exec (Pipeline.Runner.run (restEnv task.env)) s.pipeline).1 <;> rfl

theorem keepsSlots_drivePipeline : KeepsSlots (drivePipeline task) := by
  have hrun : KeepsSlots (runPipeline task >>= fun _ => (do
      let s ← get
      pure (verdict s.pipeline.ctx) : RestRun (Status × Option String))) :=
    keepsSlots_runPipeline.bind fun _ =>
      KeepsSlots.bind (Yields.get Keeps.refl) fun _ => keepsSlots_pure _
  refine hrun.tryCatch fun e s t ht => ?_
  split
  · exact ht
  · exact ht

theorem released_eq (entry : Option Nat) :
    released entry = if entry.getD 1 ≤ 1 then none else entry.map (· - 1) := by
  cases entry with
  | none => rfl
  | some n =>
    by_cases hn : n ≤ 1
    · have hzero : n - 1 = 0 := by omega
      simp [released, hn, hzero]
    · have hpos : n - 1 ≠ 0 := by omega
      simp [released, hn, hpos]

theorem slots_ensuring {x : RestRun PUnit} (hx : KeepsSlots x) (s : RestWorld) :
    (exec (ensuring x releaseSlot) s).2.slots = released s.slots := by
  have hpost := hx s
  unfold Ends at hpost
  have hsame : (exec x s).2.slots = s.slots := by
    cases hr : (exec x s).1 with
    | ok a =>
      rw [hr] at hpost
      exact hpost
    | error e =>
      rw [hr] at hpost
      exact hpost
  rw [exec_ensuring, released_eq, ← hsame]
  rfl

/-- However a task ends, it has given one slot of its user back, and has not touched it
before. -/
theorem runRestTask_slots (s : RestWorld) :
    (exec (runRestTask task) s).2.slots = released s.slots := by
  refine slots_ensuring ((keepsSlots_getTaskState _).bind fun state => ?_) s
  cases state with
  | none => exact keepsSlots_pure _
  | some state =>
    refine (keepsSlots_setTaskState _ _).bind fun _ => keepsSlots_drivePipeline.bind fun p => ?_
    refine (keepsSlots_getTaskState _).bind fun _ => ?_
    exact KeepsSlots.bind (Yields.get Keeps.refl) fun _ => keepsSlots_setTaskState _ _

end Runner

section Invariant

variable {K : Type} [DecidableEq K] {unknown : K} {cap : Int} {s t : State K} {taskId : Nat}
  {key : K × K} {x : Task K} {phase : Phase K}

/-- The inductive strengthening of `Counted`: the tasks have ids of their own, and a task
that runs holds the key it was admitted under. -/
structure Inv (unknown : K) (cap : Int) (s : State K) : Prop where
  nodup : (s.tasks.map Task.taskId).Nodup
  counts : ∀ key, s.concurrentTasks key =
    if running unknown s key = 0 then none else some (running unknown s key)
  capped : 0 < cap → ∀ key, (running unknown s key : Int) ≤ cap
  keyed : ∀ x ∈ s.tasks, ∀ key await, x.phase = .suspended key await →
    key = concurrencyKey unknown x.body

theorem Inv.counted (h : Inv unknown cap s) : Counted unknown cap s where
  counter key := by
    rw [h.counts key]
    split
    · next hzero => exact hzero.symm
    · rfl
  capped := h.capped
  absent key := by
    rw [h.counts key]
    split
    · next hzero => exact iff_of_true rfl hzero
    · next hpos => exact iff_of_false nofun hpos

theorem inv_init : Inv unknown cap (init K) where
  nodup := List.nodup_nil
  counts key := rfl
  capped hcap key := by
    have hzero : running unknown (init K) key = 0 := rfl
    omega
  keyed x hx := nomatch hx

theorem running_move (h : (s.tasks.map Task.taskId).Nodup) (hx : x ∈ s.tasks) (key : K × K) :
    running unknown (s.move x.taskId phase) key +
        (decide (concurrencyKey unknown x.body = key) && x.live).toNat =
      running unknown s key +
        (decide (concurrencyKey unknown x.body = key) && (x.move phase).live).toNat :=
  Keyed.countP_modify (f := Task.move phase)
    (fun t : Task K => decide (concurrencyKey unknown t.body = key) && t.live) h hx

omit [DecidableEq K] in
theorem nodup_move (h : (s.tasks.map Task.taskId).Nodup) :
    ((s.move taskId phase).tasks.map Task.taskId).Nodup := by
  have hkeys : (s.move taskId phase).tasks.map Task.taskId = s.tasks.map Task.taskId :=
    Keyed.keys_modify (f := Task.move phase) (fun _ => rfl) s.tasks
  rwa [hkeys]

omit [DecidableEq K] in
theorem eq_of_taskId (h : (s.tasks.map Task.taskId).Nodup) (hx : x ∈ s.tasks) {y : Task K}
    (hy : y ∈ s.tasks) (hid : y.taskId = x.taskId) : y = x := by
  have hfound := Keyed.lookup_mem h hy
  rw [hid] at hfound
  exact Option.some.inj (hfound.symm.trans (Keyed.lookup_mem h hx))

theorem keyed_move (h : Inv unknown cap s) (hx : x ∈ s.tasks)
    (hkey : ∀ key await, phase = .suspended key await → key = concurrencyKey unknown x.body) :
    ∀ y ∈ (s.move x.taskId phase).tasks, ∀ key await, y.phase = .suspended key await →
      key = concurrencyKey unknown y.body := by
  intro y hy key await hsuspended
  obtain ⟨z, hz, hid, rfl⟩ | ⟨hy, -⟩ := Keyed.mem_modify.mp hy
  · obtain rfl := eq_of_taskId h.nodup hx hz hid
    exact hkey key await hsuspended
  · exact h.keyed y hy key await hsuspended

theorem Inv.move (h : Inv unknown cap s) (hx : x ∈ s.tasks) (hlive : x.live = true)
    (hphase : (x.move phase).live = true)
    (hkey : ∀ key await, phase = .suspended key await → key = concurrencyKey unknown x.body) :
    Inv unknown cap (s.move x.taskId phase) := by
  have hsame : ∀ key, running unknown (s.move x.taskId phase) key = running unknown s key := by
    intro key
    have hmove : running unknown (s.move x.taskId phase) key + _ = _ := running_move h.nodup hx key
    rw [hlive, hphase] at hmove
    omega
  refine ⟨nodup_move h.nodup, fun key => ?_, fun hcap key => ?_, keyed_move h hx hkey⟩
  · rw [hsame key]
    exact h.counts key
  · rw [hsame key]
    exact h.capped hcap key

theorem Inv.finish (h : Inv unknown cap s) (hx : x ∈ s.tasks) {await : Await} (exit : Exit)
    (hphase : x.phase = .suspended key await) : Inv unknown cap (s.finish x.taskId key exit) := by
  have hkey : key = concurrencyKey unknown x.body := h.keyed x hx key await hphase
  have hlive : x.live = true := by rw [Task.live, hphase]
  have hrunning : ∀ k, running unknown (s.finish x.taskId key exit) k + (decide (key = k)).toNat =
      running unknown s k := by
    intro k
    have hmove : running unknown (s.move x.taskId (.ended exit)) k + _ = _ :=
      running_move h.nodup hx k
    have hended : (x.move (.ended exit)).live = false := rfl
    rw [hlive, hended, ← hkey] at hmove
    have hfinish : running unknown (s.finish x.taskId key exit) k =
        running unknown (s.move x.taskId (.ended exit)) k := rfl
    rw [hfinish]
    simpa using hmove
  refine ⟨nodup_move h.nodup, fun k => ?_, fun hcap k => ?_, keyed_move h hx nofun⟩
  · change Function.update s.concurrentTasks key (released (s.concurrentTasks key)) k = _
    have hk := hrunning k
    by_cases hsame : k = key
    · subst hsame
      have hpos : running unknown s k ≠ 0 := by
        rw [decide_eq_true rfl] at hk
        simp only [Bool.toNat_true] at hk
        omega
      have hless : running unknown (s.finish x.taskId k exit) k = running unknown s k - 1 := by
        rw [decide_eq_true rfl] at hk
        simp only [Bool.toNat_true] at hk
        omega
      rw [Function.update_self, h.counts k, if_neg hpos, hless]
      rfl
    · rw [decide_eq_false fun heq => hsame heq.symm] at hk
      rw [Function.update_of_ne hsame, h.counts k, ← hk]
      rfl
  · have hk := hrunning k
    have hcapped := h.capped hcap k
    omega

theorem Inv.schedule (h : Inv unknown cap s) (hnew : ∀ x ∈ s.tasks, x.taskId ≠ taskId) (body : Body K) :
    Inv unknown cap (scheduleRestTask unknown cap taskId body s) := by
  unfold scheduleRestTask
  dsimp only
  split
  · exact h
  · next hroom =>
    have hcurrent := h.counted.counter (concurrencyKey unknown body)
    rw [hcurrent] at hroom ⊢
    have hrunning : ∀ k, running unknown
        { concurrentTasks := Function.update s.concurrentTasks (concurrencyKey unknown body)
            (some (running unknown s (concurrencyKey unknown body) + 1))
          tasks := s.tasks ++ [⟨taskId, body, .spawned⟩] } k =
        running unknown s k + (decide (concurrencyKey unknown body = k)).toNat := by
      intro k
      have hcount := Keyed.countP_concat
        (fun t : Task K => decide (concurrencyKey unknown t.body = k) && t.live) s.tasks
        ⟨taskId, body, .spawned⟩
      have hlive : (⟨taskId, body, .spawned⟩ : Task K).live = true := rfl
      rw [hlive, Bool.and_true] at hcount
      exact hcount
    refine ⟨?_, fun k => ?_, fun hcap k => ?_, ?_⟩
    · rw [List.map_append, List.map_singleton]
      refine h.nodup.append (List.nodup_singleton taskId) fun i hi hi' => ?_
      obtain ⟨x, hx, rfl⟩ := List.mem_map.mp hi
      exact hnew x hx (List.mem_singleton.mp hi')
    · rw [hrunning k]
      by_cases hsame : concurrencyKey unknown body = k
      · subst hsame
        simp
      · simp [Function.update_of_ne (Ne.symm hsame), hsame, h.counts k]
    · rw [hrunning k]
      have hcapped := h.capped hcap k
      by_cases hsame : concurrencyKey unknown body = k
      · subst hsame
        simp only [decide_true, Bool.toNat_true]
        omega
      · simpa [hsame] using hcapped
    · intro x hx key await hphase
      obtain hx | hx := List.mem_append.mp hx
      · exact h.keyed x hx key await hphase
      · rw [List.mem_singleton.mp hx] at hphase
        cases hphase

theorem Inv.step (s : State K) (a : Action K) (t : State K) (h : Inv unknown cap s)
    (hstep : RestSlots.step unknown cap s a = some t) : Inv unknown cap t := by
  cases a with
  | schedule taskId body =>
    rw [RestSlots.step, Option.ite_none_right_eq_some, Option.isNone_iff_eq_none] at hstep
    obtain ⟨hnew, hstep⟩ := hstep
    cases hstep
    exact h.schedule (Keyed.lookup_none.mp hnew) body
  | start taskId =>
    rw [RestSlots.step] at hstep
    split at hstep
    · next body hlookup =>
      obtain ⟨hx, rfl⟩ := Keyed.lookup_some hlookup
      cases hstep
      refine h.move hx rfl rfl fun key await hphase => ?_
      cases hphase
      rfl
    · cases hstep
  | advance taskId next =>
    rw [RestSlots.step] at hstep
    split at hstep
    · next body key await hlookup =>
      obtain ⟨hx, rfl⟩ := Keyed.lookup_some hlookup
      rw [Option.ite_none_right_eq_some] at hstep
      obtain ⟨-, hstep⟩ := hstep
      cases hstep
      refine h.move hx rfl rfl fun key' await' hphase => ?_
      cases hphase
      exact h.keyed _ hx _ _ rfl
    · cases hstep
  | finish taskId exit =>
    rw [RestSlots.step] at hstep
    split at hstep
    · next body key await hlookup =>
      obtain ⟨hx, rfl⟩ := Keyed.lookup_some hlookup
      rw [Option.ite_none_right_eq_some] at hstep
      obtain ⟨-, hstep⟩ := hstep
      cases hstep
      exact h.finish hx exit rfl
    · cases hstep

end Invariant

/-- Along every interleaving of requests and tasks, the table counts the running tasks of
every key. -/
theorem concurrentTasks_counted {K : Type} [DecidableEq K] (unknown : K) (cap : Int)
    (es : List (Action K)) : Always (step unknown cap) (Counted unknown cap) (init K) es :=
  (always_of_step Inv.step inv_init es).mono fun _ => Inv.counted

end AlfredProcessing.Api.RestSlots
