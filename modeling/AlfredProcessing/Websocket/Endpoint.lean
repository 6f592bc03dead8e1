import AlfredProcessing.State.Store
import AlfredProcessing.Websocket.Questions
import Mathlib.Logic.Function.Basic

namespace AlfredProcessing.Websocket.Endpoint

open State Questions

variable {C M : Type}

/-- What a handshake fixes for the life of a connection. -/
structure Client where
  siteId : String
  user : String
  conversationId : String
  hasStore : Bool
  shake : Handshake

/-- Where the `websocket_endpoint` coroutine of a connection is suspended. A
connection is stranded when its `auth_success` send raises, outside the `try`
block. -/
inductive Phase (C : Type) where
  | connecting
  | pushing (old : C)
  | closing (old : C)
  | greeting
  | serving
  | stopping
  | draining
  | ended
  | stranded
  | aborted
  deriving DecidableEq

/-- The pipelines of a connection start in its receive loop and may outlive it. -/
def Phase.reached : Phase C → Bool
  | .serving | .stopping | .draining | .ended => true
  | .connecting | .pushing _ | .closing _ | .greeting | .stranded | .aborted => false

inductive Event (M : Type) where
  | message (m : M)
  | runEvicted (conversationId evictedUser evictedSite : String)
  deriving DecidableEq

/-- `evicted` records that a later handshake took the entry of this
connection; no handler reads it. -/
structure Conn (C M : Type) where
  phase : Phase C := .connecting
  socketOpen : Bool := true
  session : Session M := {}
  pipelineCancelled : Bool := false
  evicted : Bool := false

/-- The process-wide state: `_connections`, every connection, and the event
streams in Redis. -/
structure Server (C M : Type) where
  connections : String → Option C := fun _ => none
  conns : C → Conn C M := fun _ => {}
  streams : String → List (Event M) := fun _ => []

/-- `trimmed` counts the entries that one `xadd` drops at the old end. -/
inductive Action (C M : Type) where
  | authenticated (c : C)
  | sentinelPushed (c : C) (delivered : Bool) (trimmed : Nat)
  | oldClosed (c : C)
  | greeted (c : C)
  | greetingFailed (c : C)
  | aborted (c : C)
  | session (c : C) (a : Questions.Action M)
  | pushed (c : C) (m : M) (trimmed : Nat)
  | pipelineUnwound (c : C)
  | loopEnded (c : C)
  | heartbeatStopped (c : C)
  | drained (c : C)

def Action.actor : Action C M → C
  | .authenticated c | .sentinelPushed c _ _ | .oldClosed c | .greeted c | .greetingFailed c
  | .aborted c | .session c _ | .pushed c _ _ | .pipelineUnwound c | .loopEnded c
  | .heartbeatStopped c | .drained c => c

/-- The actions that a frame causes; the others belong to the pipeline. -/
def isFrame : Questions.Action M → Bool
  | .userResponse _ _ | .prompt _ _ | .admission _ => true
  | _ => false

/-- `_connections.pop(conversation_id, None)`. -/
def Server.pop (s : Server C M) (k : String) : Server C M :=
  { s with connections := Function.update s.connections k none }

@[simp] theorem pop_connections (s : Server C M) (k : String) :
    (s.pop k).connections = Function.update s.connections k none := rfl

@[simp] theorem pop_conns (s : Server C M) (k : String) : (s.pop k).conns = s.conns := rfl

@[simp] theorem pop_streams (s : Server C M) (k : String) : (s.pop k).streams = s.streams := rfl

/-- `active_pipeline.cancel()` where a pipeline is running; the task ends at a
later `pipelineUnwound`. -/
def cancelPipeline (x : Conn C M) : Conn C M :=
  if x.session.activePipeline then { x with pipelineCancelled := true } else x

def unwindPipeline (x : Conn C M) : Conn C M :=
  { x with
    session := { x.session with pendingQuestions := [], activePipeline := false }
    pipelineCancelled := false }

def Server.update [DecidableEq C] (s : Server C M) (c : C) (f : Conn C M → Conn C M) : Server C M :=
  { s with conns := Function.update s.conns c (f (s.conns c)) }

def Server.enter [DecidableEq C] (s : Server C M) (c : C) (p : Phase C) : Server C M :=
  s.update c fun x => { x with phase := p }

section Fields

variable [DecidableEq C] (s : Server C M) (c : C) (f : Conn C M → Conn C M) (p : Phase C)

@[simp] theorem update_connections : (s.update c f).connections = s.connections := rfl

@[simp] theorem update_streams : (s.update c f).streams = s.streams := rfl

@[simp] theorem update_conns :
    (s.update c f).conns = Function.update s.conns c (f (s.conns c)) := rfl

@[simp] theorem enter_connections : (s.enter c p).connections = s.connections := rfl

@[simp] theorem enter_streams : (s.enter c p).streams = s.streams := rfl

@[simp] theorem enter_conns :
    (s.enter c p).conns = Function.update s.conns c { s.conns c with phase := p } := rfl

end Fields

variable (client : C → Client)

/-- `push_event` into the stream of a connection's conversation, which has no
effect where an identifier is invalid. -/
def pushEvent (c : C) (e : Event M) (trimmed : Nat) (s : Server C M) : Server C M :=
  match Store.eventsKey (client c).siteId (client c).conversationId with
  | some k => { s with streams := Function.update s.streams k ((s.streams k).drop trimmed ++ [e]) }
  | none => s

@[simp] theorem pushEvent_connections (c : C) (e : Event M) (n : Nat) (s : Server C M) :
    (pushEvent client c e n s).connections = s.connections := by
  unfold pushEvent
  split <;> rfl

@[simp] theorem pushEvent_conns (c : C) (e : Event M) (n : Nat) (s : Server C M) :
    (pushEvent client c e n s).conns = s.conns := by
  unfold pushEvent
  split <;> rfl

def recordsEvents (c : C) : Bool :=
  (client c).hasStore && (client c).conversationId ≠ ""

variable [DecidableEq C]

/-- `_connections[conversation_id] = conn`, up to the `auth_success` send. -/
def install (c : C) (s : Server C M) : Server C M :=
  { s with connections :=
      Function.update s.connections (client c).conversationId (some c) }.enter c .greeting

def closeOld (c old : C) (s : Server C M) : Server C M :=
  (s.update old cancelPipeline).enter c (.closing old)

/-- From the end of `_authenticate_handshake` to the next await. -/
def authenticated (c : C) (s : Server C M) : Server C M :=
  match s.connections (client c).conversationId with
  | none => install client c s
  | some old =>
    let s' := (s.pop (client c).conversationId).update old fun x => { x with evicted := true }
    if recordsEvents client old then s'.enter c (.pushing old) else closeOld c old s'

/-- One atomic stretch of one coroutine, from one await to the next. -/
def step [DecidableEq M] (s : Server C M) : Action C M → Option (Server C M)
  | .authenticated c =>
    match (s.conns c).phase with
    | .connecting => some (authenticated client c s)
    | _ => none
  | .sentinelPushed c delivered trimmed =>
    match (s.conns c).phase with
    | .pushing old =>
      let e := .runEvicted (client c).conversationId (client old).user (client old).siteId
      some (closeOld c old (if delivered then pushEvent client old e trimmed s else s))
    | _ => none
  | .oldClosed c =>
    match (s.conns c).phase with
    | .closing old => some (install client c (s.update old fun x => { x with socketOpen := false }))
    | _ => none
  | .greeted c =>
    match (s.conns c).phase with
    | .greeting => some (s.enter c .serving)
    | _ => none
  | .greetingFailed c =>
    match (s.conns c).phase with
    | .greeting => some (s.enter c .stranded)
    | _ => none
  | .aborted c =>
    match (s.conns c).phase with
    | .connecting | .pushing _ | .closing _ => some (s.enter c .aborted)
    | _ => none
  | .session c a =>
    if (if isFrame a then (s.conns c).phase = .serving else (s.conns c).phase.reached) then
      (Questions.step (client c).shake (s.conns c).session a).map fun q => s.update c fun x => { x with session := q }
    else none
  | .pushed c m trimmed =>
    if (s.conns c).phase.reached ∧ recordsEvents client c then
      some (pushEvent client c (.message m) trimmed s)
    else none
  | .pipelineUnwound c =>
    if (s.conns c).pipelineCancelled then some (s.update c unwindPipeline) else none
  | .loopEnded c =>
    match (s.conns c).phase with
    | .serving => some ((s.pop (client c).conversationId).enter c .stopping)
    | _ => none
  | .heartbeatStopped c =>
    match (s.conns c).phase with
    | .stopping => some ((s.update c cancelPipeline).enter c .draining)
    | _ => none
  | .drained c =>
    match (s.conns c).phase with
    | .draining =>
      if (s.conns c).session.activePipeline then none
      else some ((s.update c fun x => { x with socketOpen := false }).enter c .ended)
    | _ => none

variable [DecidableEq M] {s t : Server C M} {a : Action C M}

/-- The stretches case by case: what each finds and what it leaves. -/
inductive Stretch (s : Server C M) : Action C M → Server C M → Prop where
  | authenticated {c : C} (hphase : (s.conns c).phase = .connecting) :
      Stretch s (.authenticated c) (authenticated client c s)
  | sentinelPushed {c old : C} {delivered : Bool} {trimmed : Nat}
      (hphase : (s.conns c).phase = .pushing old) :
      Stretch s (.sentinelPushed c delivered trimmed) (closeOld c old (if delivered then
        pushEvent client old
          (.runEvicted (client c).conversationId (client old).user (client old).siteId) trimmed s
        else s))
  | oldClosed {c old : C} (hphase : (s.conns c).phase = .closing old) :
      Stretch s (.oldClosed c) (install client c (s.update old fun x => { x with socketOpen := false }))
  | greeted {c : C} (hphase : (s.conns c).phase = .greeting) : Stretch s (.greeted c) (s.enter c .serving)
  | greetingFailed {c : C} (hphase : (s.conns c).phase = .greeting) :
      Stretch s (.greetingFailed c) (s.enter c .stranded)
  | aborted {c : C} (hphase : (s.conns c).phase = .connecting ∨
      ∃ old, (s.conns c).phase = .pushing old ∨ (s.conns c).phase = .closing old) :
      Stretch s (.aborted c) (s.enter c .aborted)
  | session {c : C} {b : Questions.Action M} {q : Session M}
      (hreached : if isFrame b then (s.conns c).phase = .serving else (s.conns c).phase.reached)
      (hsession : Questions.step (client c).shake (s.conns c).session b = some q) :
      Stretch s (.session c b) (s.update c fun x => { x with session := q })
  | pushed {c : C} {m : M} {trimmed : Nat} (hreached : (s.conns c).phase.reached)
      (hrecords : recordsEvents client c) :
      Stretch s (.pushed c m trimmed) (pushEvent client c (.message m) trimmed s)
  | pipelineUnwound {c : C} (hcancelled : (s.conns c).pipelineCancelled) :
      Stretch s (.pipelineUnwound c) (s.update c unwindPipeline)
  | loopEnded {c : C} (hphase : (s.conns c).phase = .serving) :
      Stretch s (.loopEnded c) ((s.pop (client c).conversationId).enter c .stopping)
  | heartbeatStopped {c : C} (hphase : (s.conns c).phase = .stopping) :
      Stretch s (.heartbeatStopped c) ((s.update c cancelPipeline).enter c .draining)
  | drained {c : C} (hphase : (s.conns c).phase = .draining)
      (hidle : (s.conns c).session.activePipeline = false) :
      Stretch s (.drained c) ((s.update c fun x => { x with socketOpen := false }).enter c .ended)

theorem stretch_of_step (h : step client s a = some t) : Stretch client s a t := by
  cases a with
  | session c b =>
    simp only [step, Option.ite_none_right_eq_some, Option.map_eq_some_iff] at h
    obtain ⟨hreached, q, hsession, rfl⟩ := h
    exact .session hreached hsession
  | pushed c m trimmed =>
    simp only [step, Option.ite_none_right_eq_some, Option.some.injEq] at h
    obtain ⟨⟨hreached, hrecords⟩, rfl⟩ := h
    exact .pushed hreached hrecords
  | pipelineUnwound c =>
    simp only [step, Option.ite_none_right_eq_some, Option.some.injEq] at h
    obtain ⟨hcancelled, rfl⟩ := h
    exact .pipelineUnwound hcancelled
  | aborted c =>
    simp only [step] at h
    split at h
    · next hphase =>
      cases h
      exact .aborted (.inl hphase)
    · next old hphase =>
      cases h
      exact .aborted (.inr ⟨old, .inl hphase⟩)
    · next old hphase =>
      cases h
      exact .aborted (.inr ⟨old, .inr hphase⟩)
    · cases h
  | drained c =>
    simp only [step] at h
    split at h
    · next hphase =>
      simp only [Option.ite_none_left_eq_some, Option.some.injEq, Bool.not_eq_true] at h
      obtain ⟨hidle, rfl⟩ := h
      exact .drained hphase hidle
    · cases h
  | _ =>
    simp only [step] at h
    split at h
    · next hphase =>
      cases h
      constructor
      exact hphase
    · cases h

theorem step_of_stretch (h : Stretch client s a t) : step client s a = some t := by
  cases h with
  | aborted hphase => obtain hphase | ⟨old, hphase | hphase⟩ := hphase <;> simp only [step, hphase]
  | session hreached hsession => rw [step, if_pos hreached, hsession, Option.map_some]
  | pushed hreached hrecords => rw [step, if_pos ⟨hreached, hrecords⟩]
  | pipelineUnwound hcancelled => rw [step, if_pos hcancelled]
  | drained hphase hidle => simp only [step, hphase, hidle, Bool.false_eq_true, if_false]
  | authenticated hphase | sentinelPushed hphase | oldClosed hphase | greeted hphase
  | greetingFailed hphase | loopEnded hphase | heartbeatStopped hphase => simp only [step, hphase]

end AlfredProcessing.Websocket.Endpoint
