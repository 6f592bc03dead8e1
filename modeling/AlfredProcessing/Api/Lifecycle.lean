import AlfredProcessing.Lib.Transition
import Mathlib.Data.Finset.Card

namespace AlfredProcessing.Api.Lifecycle

open Lib.Transition

section Model

inductive Caller where
  | socket (conn : Nat)
  | rest (task : Nat)
  deriving DecidableEq

def Caller.isSocket : Caller → Bool
  | .socket _ => true
  | .rest _ => false

/-- The objects that stand for `app.state`: the application's own, and the namespace that
`_RestConn` makes for its task. -/
inductive AppState where
  | app
  | shim (task : Nat)
  deriving DecidableEq

/-- `conn.websocket.app.state` of the caller's connection. -/
def Caller.appState : Caller → AppState
  | .socket _ => .app
  | .rest task => .shim task

/-- The lifespan handler: it waits in steps of half a second, and closes the Redis client
because it has read zero or because its time is up. -/
inductive Lifespan where
  | serving
  | draining (waited : Nat)
  | drained
  | cutOff
  deriving DecidableEq

/-- The callers that have passed `is_shutting_down` and wait for their rate limit, those
whose task is created, and those whose pipeline runs. -/
structure State where
  shuttingDown : Bool
  activePipelines : AppState → Option Nat
  lifespan : Lifespan
  checking : Finset Caller
  spawned : Finset Caller
  running : Finset Caller

/-- The state once the lifespan handler has started the application. -/
def init : State where
  shuttingDown := false
  activePipelines := fun
    | .app => some 0
    | .shim _ => none
  lifespan := .serving
  checking := ∅
  spawned := ∅
  running := ∅

inductive Action where
  | arrive (caller : Caller)
  | answer (caller : Caller) (allowed : Bool)
  | begin (caller : Caller)
  | abandon (caller : Caller)
  | finish (caller : Caller)
  | shutdown
  | poll
  deriving DecidableEq

/-- `track_pipeline` before the `yield`. -/
def enter (count : Option Nat) : Option Nat := some (count.getD 0 + 1)

/-- `track_pipeline` after the `yield`. -/
def leave (count : Option Nat) : Option Nat := some (count.getD 1 - 1)

def State.track (s : State) (caller : Caller) (f : Option Nat → Option Nat) : AppState → Option Nat :=
  Function.update s.activePipelines caller.appState (f (s.activePipelines caller.appState))

/-- One stretch of a handler, of a pipeline's task or of the lifespan handler, from one
await to the next. `deadline` is `GRACEFUL_SHUTDOWN_TIMEOUT`. -/
def step (deadline : Nat) (s : State) : Action → Option State
  | .arrive caller =>
    -- a connection handles one frame at a time, and the id of a task is new
    if caller ∈ s.checking ∨ (caller.isSocket = false ∧ caller ∈ s.spawned ∪ s.running) then none
    else if s.shuttingDown then some s
    else some { s with checking := insert caller s.checking }
  | .answer caller allowed =>
    if caller ∈ s.checking then
      let s' := { s with checking := s.checking.erase caller }
      -- a connection whose pipeline is not done is told so
      if allowed = true ∧ caller ∉ s.spawned ∪ s.running then
        some { s' with spawned := insert caller s.spawned }
      else some s'
    else none
  | .begin caller =>
    if caller ∈ s.spawned then
      some
        { s with
          spawned := s.spawned.erase caller
          running := insert caller s.running
          activePipelines := s.track caller enter }
    else none
  | .abandon caller =>
    -- the task is cancelled first, or finds no row in the store
    if caller ∈ s.spawned then some { s with spawned := s.spawned.erase caller } else none
  | .finish caller =>
    if caller ∈ s.running then
      some { s with running := s.running.erase caller, activePipelines := s.track caller leave }
    else none
  | .shutdown =>
    if s.lifespan = .serving then some { s with shuttingDown := true, lifespan := .draining 0 } else none
  | .poll =>
    match s.lifespan with
    | .draining waited =>
      if (s.activePipelines .app).getD 0 = 0 then some { s with lifespan := .drained }
      else if waited < 2 * deadline then some { s with lifespan := .draining (waited + 1) }
      else some { s with lifespan := .cutOff }
    | _ => none

end Model

section Drain

variable {deadline : Nat} {s t : State} {caller : Caller}

/-- The lifespan handler counts the running pipelines, and once it has read zero and closed
the client, none runs in whatever happens next. -/
structure Drains (deadline : Nat) (s : State) : Prop where
  counter : s.activePipelines .app = some s.running.card
  closed : s.lifespan = .drained → ∀ as t, run (step deadline) s as = some t → t.running = ∅

/-- No pipeline of a REST task begins, and when zero is read nothing that has passed the
shutdown check is still to begin. -/
def Covered (s : State) : Action → Prop
  | .begin caller => caller.isSocket = true
  | .poll => (s.activePipelines .app).getD 0 = 0 → s.checking = ∅ ∧ s.spawned = ∅
  | _ => True

structure Inv (s : State) : Prop where
  counter : s.activePipelines .app = some s.running.card
  sockets : ∀ c ∈ s.running, c.isSocket = true
  apart : Disjoint s.spawned s.running
  refusing : s.lifespan ≠ .serving → s.shuttingDown = true
  quiet : s.lifespan = .drained → s.checking = ∅ ∧ s.spawned = ∅ ∧ s.running = ∅

structure Quiet (s : State) : Prop where
  refusing : s.shuttingDown = true
  closed : s.lifespan = .drained
  checking : s.checking = ∅
  spawned : s.spawned = ∅
  running : s.running = ∅

theorem inv_init : Inv init where
  counter := rfl
  sockets := by simp [init]
  apart := by simp [init]
  refusing := fun h => absurd rfl h
  quiet := fun h => by cases h

theorem Quiet.step {a : Action} (h : Quiet s) (hstep : step deadline s a = some t) : Quiet t := by
  cases a with
  | arrive caller =>
    rw [Lifecycle.step, h.refusing, Option.ite_none_left_eq_some, if_pos rfl] at hstep
    obtain ⟨-, hstep⟩ := hstep
    cases hstep
    exact h
  | answer caller allowed => simp [Lifecycle.step, h.checking] at hstep
  | begin caller => simp [Lifecycle.step, h.spawned] at hstep
  | abandon caller => simp [Lifecycle.step, h.spawned] at hstep
  | finish caller => simp [Lifecycle.step, h.running] at hstep
  | shutdown => simp [Lifecycle.step, h.closed] at hstep
  | poll => simp [Lifecycle.step, h.closed] at hstep

theorem Inv.drains (h : Inv s) : Drains deadline s where
  counter := h.counter
  closed hclosed as t hrun := by
    obtain ⟨hchecking, hspawned, hrunning⟩ := h.quiet hclosed
    have hrefusing : s.shuttingDown = true := h.refusing (by rw [hclosed]; decide)
    have hquiet : Quiet s := ⟨hrefusing, hclosed, hchecking, hspawned, hrunning⟩
    exact (run_of_step (fun _ _ _ hq ht => hq.step ht) hquiet hrun).running

theorem appState_of_socket (h : caller.isSocket = true) : caller.appState = .app := by
  cases caller with
  | socket conn => rfl
  | rest task => cases h

theorem track_app_of_socket (h : caller.isSocket = true) (f : Option Nat → Option Nat) :
    s.track caller f .app = f (s.activePipelines .app) := by
  simp [State.track, appState_of_socket h]

theorem track_app_of_rest (h : caller.isSocket = false) (f : Option Nat → Option Nat) :
    s.track caller f .app = s.activePipelines .app := by
  cases caller with
  | socket conn => cases h
  | rest task => simp [State.track, Caller.appState]

theorem isSocket_of_notMem (h : ∀ c ∈ s.running, c.isSocket = true) (hno : caller.isSocket = false) :
    caller ∉ s.running := fun hmem => by
  rw [h caller hmem] at hno
  cases hno

/-- The client is not closed while a caller is anywhere on its way. -/
theorem Inv.not_drained (h : Inv s) (hmem : caller ∈ s.checking ∨ caller ∈ s.spawned ∨ caller ∈ s.running) :
    s.lifespan ≠ .drained := by
  intro hclosed
  obtain ⟨hchecking, hspawned, hrunning⟩ := h.quiet hclosed
  simp [hchecking, hspawned, hrunning] at hmem

/-- A step of a covered run keeps the count and leaves nothing behind a closed client. -/
theorem Inv.step {a : Action} (h : Inv s) (hcovered : Covered s a) (hstep : step deadline s a = some t) :
    Inv t := by
  cases a with
  | arrive caller =>
    rw [Lifecycle.step, Option.ite_none_left_eq_some] at hstep
    obtain ⟨-, hstep⟩ := hstep
    split_ifs at hstep with hflag
    · cases hstep
      exact h
    · cases hstep
      refine ⟨h.counter, h.sockets, h.apart, h.refusing, fun hclosed => ?_⟩
      have hclosed' : s.lifespan = .drained := hclosed
      exact absurd (h.refusing (by rw [hclosed']; decide)) hflag
  | answer caller allowed =>
    rw [Lifecycle.step, Option.ite_none_right_eq_some] at hstep
    obtain ⟨hmem, hstep⟩ := hstep
    have hopen : s.lifespan ≠ .drained := h.not_drained (.inl hmem)
    split_ifs at hstep with hadmitted
    · cases hstep
      have hfree : caller ∉ s.running := fun hin =>
        hadmitted.2 (Finset.mem_union_right s.spawned hin)
      exact ⟨h.counter, h.sockets, Finset.disjoint_insert_left.mpr ⟨hfree, h.apart⟩, h.refusing,
        fun hclosed => absurd hclosed hopen⟩
    · cases hstep
      exact ⟨h.counter, h.sockets, h.apart, h.refusing, fun hclosed => absurd hclosed hopen⟩
  | begin caller =>
    rw [Lifecycle.step, Option.ite_none_right_eq_some] at hstep
    obtain ⟨hmem, hstep⟩ := hstep
    cases hstep
    have hfree : caller ∉ s.running := Finset.disjoint_left.mp h.apart hmem
    refine ⟨?_, ?_, ?_, h.refusing, fun hclosed => absurd hclosed (h.not_drained (.inr (.inl hmem)))⟩
    · change s.track caller enter .app = some (insert caller s.running).card
      rw [track_app_of_socket hcovered, h.counter, Finset.card_insert_of_notMem hfree]
      rfl
    · intro c hc
      obtain rfl | hc := Finset.mem_insert.mp hc
      · exact hcovered
      · exact h.sockets c hc
    · exact Finset.disjoint_insert_right.mpr ⟨Finset.notMem_erase caller _,
        h.apart.mono_left (Finset.erase_subset caller _)⟩
  | abandon caller =>
    rw [Lifecycle.step, Option.ite_none_right_eq_some] at hstep
    obtain ⟨hmem, hstep⟩ := hstep
    cases hstep
    exact ⟨h.counter, h.sockets, h.apart.mono_left (Finset.erase_subset caller _), h.refusing,
      fun hclosed => absurd hclosed (h.not_drained (.inr (.inl hmem)))⟩
  | finish caller =>
    rw [Lifecycle.step, Option.ite_none_right_eq_some] at hstep
    obtain ⟨hmem, hstep⟩ := hstep
    cases hstep
    refine ⟨?_, ?_, h.apart.mono_right (Finset.erase_subset caller _), h.refusing,
      fun hclosed => absurd hclosed (h.not_drained (.inr (.inr hmem)))⟩
    · change s.track caller leave .app = some (s.running.erase caller).card
      rw [track_app_of_socket (h.sockets caller hmem), h.counter, Finset.card_erase_of_mem hmem]
      rfl
    · exact fun c hc => h.sockets c (Finset.mem_of_mem_erase hc)
  | shutdown =>
    rw [Lifecycle.step, Option.ite_none_right_eq_some] at hstep
    obtain ⟨-, hstep⟩ := hstep
    cases hstep
    exact ⟨h.counter, h.sockets, h.apart, fun _ => rfl, fun hclosed => by cases hclosed⟩
  | poll =>
    rw [Lifecycle.step] at hstep
    split at hstep
    · next waited hlifespan =>
      have hflag : s.shuttingDown = true := h.refusing (by rw [hlifespan]; exact Lifespan.noConfusion)
      split_ifs at hstep with hzero hmore
      · cases hstep
        obtain ⟨hchecking, hspawned⟩ := hcovered hzero
        refine ⟨h.counter, h.sockets, h.apart, fun _ => hflag, fun _ => ⟨hchecking, hspawned, ?_⟩⟩
        rw [h.counter, Option.getD_some] at hzero
        exact Finset.card_eq_zero.mp hzero
      · cases hstep
        exact ⟨h.counter, h.sockets, h.apart, fun _ => hflag, fun hclosed => by cases hclosed⟩
      · cases hstep
        exact ⟨h.counter, h.sockets, h.apart, fun _ => hflag, fun hclosed => by cases hclosed⟩
    · cases hstep

/-- A step that is not covered leaves a pipeline uncounted, or one that can begin after the
client is closed. -/
theorem covered_of_drains {a : Action} (h : Inv s) (hstep : step deadline s a = some t)
    (hdrains : Drains deadline t) : Covered s a := by
  cases a with
  | begin caller =>
    rw [Lifecycle.step, Option.ite_none_right_eq_some] at hstep
    obtain ⟨hmem, hstep⟩ := hstep
    cases hstep
    by_contra hrest
    have hrest : caller.isSocket = false := Bool.eq_false_iff.mpr hrest
    have hcounter := hdrains.counter
    simp only [track_app_of_rest hrest, h.counter,
      Finset.card_insert_of_notMem (isSocket_of_notMem h.sockets hrest), Option.some.injEq] at hcounter
    omega
  | poll =>
    intro hzero
    rw [Lifecycle.step] at hstep
    split at hstep
    · rw [if_pos hzero] at hstep
      cases hstep
      have hnone : s.running = ∅ := by
        rw [h.counter, Option.getD_some] at hzero
        exact Finset.card_eq_zero.mp hzero
      have hspawned : s.spawned = ∅ := by
        refine Finset.eq_empty_of_forall_notMem fun caller hmem => ?_
        have hrun := hdrains.closed rfl [.begin caller] _ (by simp [run, Lifecycle.step, hmem]; rfl)
        exact Finset.insert_ne_empty caller _ hrun
      refine ⟨Finset.eq_empty_of_forall_notMem fun caller hmem => ?_, hspawned⟩
      have hrun := hdrains.closed rfl [.answer caller true, .begin caller] _
        (by simp [run, Lifecycle.step, hmem, hspawned, hnone]; rfl)
      exact Finset.singleton_ne_empty caller hrun
    · cases hstep
  | _ => trivial

/-- The drain works in exactly the runs whose steps are covered. -/
theorem drains_iff_covered (deadline : Nat) (as : List Action) :
    Always (step deadline) (Drains deadline) init as ↔ Meets (step deadline) Covered init as :=
  always_iff_meets (J := Inv) (fun _ h => h.drains) (fun _ _ _ h hc ht => h.step hc ht)
    (fun _ _ _ h ht hd => covered_of_drains h ht hd) inv_init as

def restRun : List Action :=
  [.arrive (.rest 0), .answer (.rest 0) true, .begin (.rest 0), .shutdown, .poll]

/-- A prompt waits for its rate limit while the lifespan handler reads zero. -/
def lateRun : List Action :=
  [.arrive (.socket 0), .shutdown, .poll, .answer (.socket 0) true, .begin (.socket 0)]

/-- The client is closed under a running task, and under a prompt's pipeline that begins
after it. -/
theorem closed_while_running :
    (∃ t, run (step 30) init restRun = some t ∧ t.lifespan = .drained ∧
        t.activePipelines .app = some 0 ∧ t.running = {.rest 0}) ∧
      ∃ t, run (step 30) init lateRun = some t ∧ t.lifespan = .drained ∧ t.running = {.socket 0} :=
  ⟨⟨_, rfl, rfl, rfl, rfl⟩, ⟨_, rfl, rfl, rfl⟩⟩

end Drain

end AlfredProcessing.Api.Lifecycle
