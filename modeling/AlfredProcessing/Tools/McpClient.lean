import AlfredProcessing.Lib.Json
import AlfredProcessing.Lib.Transition
import AlfredProcessing.Websocket.Questions
import Mathlib.Logic.Function.Basic

namespace AlfredProcessing.Tools.McpClient

open Lib.Json Lib.Transition Websocket.Questions

abbrev Message := List (Str × Value)

/-- A text that is no JSON, or one on which `json.loads` runs into a limit of the interpreter,
on the digits of a number or on the depth of a nest. -/
inductive LoadError where
  | decode
  | limit
  deriving DecidableEq

/-- How `json.loads` reads a text, how `str` shows an ID, and whether a value can be
formatted, which one that is nested too deep cannot. -/
structure Python where
  loads : Str → Except LoadError Value
  str : Value → Str
  formats : Value → Bool

/-- What a response makes of the future of its call. -/
inductive Reply where
  | result (v : Value)
  | mcpError (code message : Value)
  | malformed (message : Message)

/-- A reply with the number of the response that carried it. -/
structure Carried where
  response : Nat
  reply : Reply

section Responses

variable (py : Python)

/-- `json.loads` within its `try`, which lets all but decoding errors through. -/
def loadText (text : Str) : Except Raised Value :=
  match py.loads text with
  | .ok v => .ok v
  | .error .decode => .ok (.dict [(Lib.Json.str "raw", .str text)] .none)
  | .error .limit => .error .limit

def contentPayload (content : Value) : Except Raised (Option Value) :=
  match content with
  | .list (.dict first _ :: _) =>
    match (get (Lib.Json.str "text") first).getD (.str (Lib.Json.str "{}")) with
    | .str text => (loadText py text).map some
    | _ => .error .typeError
  | .list (_ :: _) => .error .attributeError
  | _ => .ok none

/-- What `handle_response` takes out of a message, with what it raises. -/
def readReply (message : Message) : Except Raised Reply :=
  match get (Lib.Json.str "error") message with
  | some (.dict error _) =>
    let code := (get (Lib.Json.str "code") error).getD .null
    let text := (get (Lib.Json.str "message") error).getD .null
    if py.formats code && py.formats text then .ok (.mcpError code text) else .error .limit
  | some _ => .error .attributeError
  | none =>
    match get (Lib.Json.str "result") message with
    | none => if py.formats (.dict message .none) then .ok (.malformed message) else .error .limit
    | some (.dict result strays) =>
      match get (Lib.Json.str "content") result with
      | none => .ok (.result (.dict result strays))
      | some content =>
        (contentPayload py content).map fun p => .result (p.getD (.dict result strays))
    | some v => .ok (.result v)

def requestId (message : Message) : Option Str :=
  match get (Lib.Json.str "id") message with
  | none => none
  | some .null => none
  | some v => some (py.str v)

end Responses

/-- `call_tool` or `list_tools`. -/
inductive Kind where
  | tool
  | list

def returned : Kind → Reply → Option Value
  | .tool, .result v => some v
  | .list, .result (.dict result _) => some ((get (Lib.Json.str "tools") result).getD (.list []))
  | _, _ => none

inductive Outcome where
  | settled (c : Carried)
  | timedOut
  | sendFailed
  | cancelled

/-- Where a call is suspended: in `on_call`, in `send`, in `wait_for`, whose timer may
have fired, or in the cancellation that `wait_for` waits out. -/
inductive Stage where
  | unborn
  | notifying
  | sending
  | waiting (fired : Bool)
  | cancelling (timedOut : Bool)
  | ended (o : Outcome)

structure Call where
  kind : Kind := .tool
  stage : Stage := .unborn
  future : Future Carried := .pending

/-- A callback on the main loop that settles a future. -/
structure Scheduled where
  requestId : Str
  carried : Carried

structure State where
  mainLoop : Bool
  pending : List Str
  calls : Str → Call
  ready : List Scheduled
  inbox : List Message

inductive Event where
  | callTool (id : Str)
  | listTools (id : Str)
  | notified (id : Str)
  | sent (id : Str)
  | sendFailed (id : Str)
  | fire (id : Str)
  | resume (id : Str)
  | cancel (id : Str)
  | handleResponse (message : Message)
  | runCallback

def init (mainLoop : Bool) : State where
  mainLoop := mainLoop
  pending := []
  calls _ := {}
  ready := []
  inbox := []

def State.setCall (s : State) (id : Str) (c : Call) : State :=
  { s with calls := Function.update s.calls id c }

/-- `self._pending.pop(request_id, None)` on the way out of a call. -/
def State.finish (s : State) (id : Str) (o : Outcome) : State :=
  { s.setCall id { s.calls id with stage := .ended o } with pending := s.pending.filter (· ≠ id) }

def State.moveTo (s : State) (id : Str) (stage : Stage) : State :=
  s.setCall id { s.calls id with stage := stage }

/-- `_safe_set_result` and `_safe_set_exception`. -/
def State.settle (s : State) (c : Scheduled) : State :=
  let call := s.calls c.requestId
  if call.future.done then s else s.setCall c.requestId { call with future := .result c.carried }

/-- A call registers its future and goes on to its first `await`. -/
def State.begin (s : State) (id : Str) (kind : Kind) (stage : Stage) : State :=
  { s.setCall id { kind := kind, stage := stage } with
    mainLoop := true, pending := s.pending ++ [id] }

/-- `wait_for` gives up: it cancels the future and waits until that is done. -/
def State.giveUp (s : State) (id : Str) (timedOut : Bool) : State :=
  s.setCall id { s.calls id with stage := .cancelling timedOut, future := .cancelled }

section Steps

variable (py : Python) (onCall : Bool)

/-- `handle_response`. -/
def State.handleResponse (s : State) (message : Message) : State :=
  let s' := { s with inbox := s.inbox ++ [message] }
  match requestId py message with
  | none => s'
  | some id =>
    if !s.pending.contains id || (s.calls id).future.done then s'
    else
      match readReply py message with
      | .error _ => s'
      | .ok reply =>
        let callback : Scheduled := ⟨id, ⟨s.inbox.length, reply⟩⟩
        if s.mainLoop then { s' with ready := s.ready ++ [callback] } else s'.settle callback

/-- The calls and the responses in any order. An ID is new to the client that makes
it up. -/
def step (s : State) : Event → Option State
  | .callTool id =>
    match (s.calls id).stage with
    | .unborn => some (s.begin id .tool (if onCall then .notifying else .sending))
    | _ => none
  | .listTools id =>
    match (s.calls id).stage with
    | .unborn => some (s.begin id .list .sending)
    | _ => none
  | .notified id =>
    match (s.calls id).stage with
    | .notifying => some (s.moveTo id .sending)
    | _ => none
  | .sent id =>
    match (s.calls id).stage with
    | .sending => some (s.moveTo id (.waiting false))
    | _ => none
  | .sendFailed id =>
    match (s.calls id).stage with
    | .sending => some (s.finish id .sendFailed)
    | _ => none
  | .fire id =>
    match (s.calls id).stage with
    | .waiting false => some (s.moveTo id (.waiting true))
    | _ => none
  | .resume id =>
    match (s.calls id).stage, (s.calls id).future with
    | .waiting _, .result c => some (s.finish id (.settled c))
    | .waiting true, .pending => some (s.giveUp id true)
    | .cancelling timedOut, _ => some (s.finish id (if timedOut then .timedOut else .cancelled))
    | _, _ => none
  | .cancel id =>
    match (s.calls id).stage, (s.calls id).future with
    | .notifying, _ => some (s.moveTo id (.ended .cancelled))
    | .sending, _ => some (s.finish id .cancelled)
    | .waiting _, .result c => some (s.finish id (.settled c))
    | .waiting _, .pending => some (s.giveUp id false)
    | .cancelling _, _ => some (s.finish id .cancelled)
    | _, _ => none
  | .handleResponse message => some (s.handleResponse py message)
  | .runCallback =>
    match s.ready with
    | [] => none
    | c :: ready => some ({ s with ready := ready }.settle c)

end Steps

/-- A call that has registered its future and not ended. -/
def Stage.alive : Stage → Prop
  | .unborn | .ended _ => False
  | _ => True

section Correlation

variable (py : Python)

/-- The response of that number has this call's ID and this reply. -/
def Carries (s : State) (id : Str) (c : Carried) : Prop :=
  ∃ message, s.inbox[c.response]? = some message ∧ requestId py message = some id ∧
    readReply py message = .ok c.reply

structure Correlated (s : State) : Prop where
  own : ∀ id c v, (s.calls id).stage = .ended (.settled c) →
    returned (s.calls id).kind c.reply = some v → Carries py s id c
  once : ∀ id id' c c', (s.calls id).future = .result c → (s.calls id').future = .result c' →
    c.response = c'.response → id = id'
  removed : ∀ id o, (s.calls id).stage = .ended o → id ∉ s.pending

/-- The pending map has the calls that are under way, and whatever settles a call is
its own. -/
structure Inv (s : State) : Prop where
  pending : ∀ id, id ∈ s.pending ↔ (s.calls id).stage.alive
  future : ∀ id c, (s.calls id).future = .result c → Carries py s id c
  outcome : ∀ id c, (s.calls id).stage = .ended (.settled c) → Carries py s id c
  ready : ∀ c ∈ s.ready, Carries py s c.requestId c.carried

/-- No call is cancelled while it waits for `on_call`. -/
def Unhindered (s : State) : Event → Prop
  | .cancel id => (s.calls id).stage ≠ .notifying
  | _ => True

variable {py} {s t : State} {id : Str} {onCall : Bool}

theorem inv_init (mainLoop : Bool) : Inv py (init mainLoop) := by
  constructor <;> simp [init, Stage.alive]

theorem Inv.correlated (h : Inv py s) : Correlated py s where
  own id c _ hc _ := h.outcome id c hc
  once id id' c c' hc hc' hn := by
    obtain ⟨m, hm, hid, -⟩ := h.future id c hc
    obtain ⟨m', hm', hid', -⟩ := h.future id' c' hc'
    rw [← hn, hm] at hm'
    obtain rfl := Option.some.inj hm'
    rw [hid] at hid'
    exact Option.some.inj hid'
  removed id o ho hin := by
    have halive := (h.pending id).mp hin
    rw [ho] at halive
    exact halive

theorem Inv.update (h : Inv py s) {c : Call} (hcalls : t.calls = Function.update s.calls id c)
    (hinbox : t.inbox = s.inbox) (hready : t.ready ⊆ s.ready)
    (hself : id ∈ t.pending ↔ c.stage.alive)
    (hother : ∀ j, j ≠ id → (j ∈ t.pending ↔ j ∈ s.pending))
    (hfuture : ∀ x, c.future = .result x → Carries py s id x)
    (houtcome : ∀ x, c.stage = .ended (.settled x) → Carries py s id x) : Inv py t := by
  have hcarries : ∀ j x, Carries py s j x → Carries py t j x := by
    intro j x hx
    rwa [Carries, hinbox]
  have hat : ∀ j, j ≠ id → t.calls j = s.calls j := by
    intro j hj
    rw [hcalls, Function.update_of_ne hj]
  have hhere : t.calls id = c := by rw [hcalls, Function.update_self]
  refine ⟨fun j => ?_, fun j x hx => ?_, fun j x hx => ?_, fun x hx => ?_⟩
  · by_cases hj : j = id
    · subst hj
      rw [hhere]
      exact hself
    · rw [hat j hj, hother j hj]
      exact h.pending j
  · by_cases hj : j = id
    · subst hj
      rw [hhere] at hx
      exact hcarries j x (hfuture x hx)
    · rw [hat j hj] at hx
      exact hcarries j x (h.future j x hx)
  · by_cases hj : j = id
    · subst hj
      rw [hhere] at hx
      exact hcarries j x (houtcome x hx)
    · rw [hat j hj] at hx
      exact hcarries j x (h.outcome j x hx)
  · exact hcarries _ _ (h.ready x (hready hx))

theorem Inv.finish (h : Inv py s) {o : Outcome} (ho : ∀ x, o = .settled x → Carries py s id x) :
    Inv py (s.finish id o) := by
  refine h.update rfl rfl (List.Subset.refl _) ?_ (fun j hj => ?_) (h.future id) fun x hx => ?_
  · simp [State.finish, Stage.alive]
  · simp [State.finish, hj]
  · exact ho x (Stage.ended.inj hx)

theorem Inv.moveTo (h : Inv py s) {stage : Stage} (hold : (s.calls id).stage.alive)
    (hnew : stage.alive) : Inv py (s.moveTo id stage) := by
  refine h.update rfl rfl (List.Subset.refl _) ?_ (fun _ _ => Iff.rfl) (h.future id) fun x hx => ?_
  · exact iff_of_true ((h.pending id).mpr hold) hnew
  · rw [show stage = _ from hx] at hnew
    exact hnew.elim

theorem Inv.giveUp (h : Inv py s) {timedOut : Bool} (hold : (s.calls id).stage.alive) :
    Inv py (s.giveUp id timedOut) := by
  refine h.update rfl rfl (List.Subset.refl _) ?_ (fun _ _ => Iff.rfl) (fun x hx => ?_) fun x hx => ?_
  · exact iff_of_true ((h.pending id).mpr hold) trivial
  · cases hx
  · cases hx

theorem Inv.begin (h : Inv py s) {kind : Kind} {stage : Stage} (hnew : stage.alive) :
    Inv py (s.begin id kind stage) := by
  refine h.update rfl rfl (List.Subset.refl _) ?_ (fun j hj => ?_) (fun x hx => ?_) fun x hx => ?_
  · exact iff_of_true (by simp [State.begin]) hnew
  · simp [State.begin, hj]
  · cases hx
  · rw [show stage = _ from hx] at hnew
    exact hnew.elim

theorem Inv.settle (h : Inv py s) {c : Scheduled} (hc : Carries py s c.requestId c.carried) :
    Inv py (s.settle c) := by
  unfold State.settle
  dsimp only
  split
  · exact h
  · refine h.update rfl rfl (List.Subset.refl _) (h.pending _) (fun _ _ => Iff.rfl)
      (fun x hx => ?_) (h.outcome _)
    cases hx
    exact hc

theorem Inv.receive (h : Inv py s) (message : Message) :
    Inv py { s with inbox := s.inbox ++ [message] } := by
  have hcarries : ∀ j x, Carries py s j x →
      Carries py { s with inbox := s.inbox ++ [message] } j x := by
    rintro j x ⟨m, hm, hid, hr⟩
    have hlt : x.response < s.inbox.length := (List.getElem?_eq_some_iff.mp hm).1
    exact ⟨m, by rw [List.getElem?_append_left hlt, hm], hid, hr⟩
  exact ⟨h.pending, fun j x hx => hcarries j x (h.future j x hx),
    fun j x hx => hcarries j x (h.outcome j x hx), fun x hx => hcarries _ _ (h.ready x hx)⟩

theorem Inv.handleResponse (h : Inv py s) (message : Message) :
    Inv py (s.handleResponse py message) := by
  have hreceived := h.receive message
  unfold State.handleResponse
  dsimp only
  cases hid : requestId py message with
  | none => exact hreceived
  | some id =>
    dsimp only
    split
    · exact hreceived
    · cases hr : readReply py message with
      | error e => exact hreceived
      | ok reply =>
        have hc : Carries py { s with inbox := s.inbox ++ [message] } id ⟨s.inbox.length, reply⟩ :=
          ⟨message, by simp, hid, hr⟩
        dsimp only
        split
        · refine ⟨hreceived.pending, hreceived.future, hreceived.outcome, fun x hx => ?_⟩
          obtain hx | hx := List.mem_append.mp hx
          · exact hreceived.ready x hx
          · rw [List.mem_singleton.mp hx]
            exact hc
        · exact hreceived.settle hc

theorem Inv.step (s : State) (e : Event) (t : State) (h : Inv py s) (hc : Unhindered s e)
    (hstep : McpClient.step py onCall s e = some t) : Inv py t := by
  cases e with
  | callTool id =>
    rw [McpClient.step] at hstep
    split at hstep
    · obtain rfl := Option.some.inj hstep
      exact h.begin (by cases onCall <;> trivial)
    · cases hstep
  | listTools id =>
    rw [McpClient.step] at hstep
    split at hstep
    · obtain rfl := Option.some.inj hstep
      exact h.begin trivial
    · cases hstep
  | notified id | sent id | fire id =>
    rw [McpClient.step] at hstep
    split at hstep
    · next hstage =>
      obtain rfl := Option.some.inj hstep
      exact h.moveTo (by rw [hstage]; trivial) trivial
    · cases hstep
  | sendFailed id =>
    rw [McpClient.step] at hstep
    split at hstep
    · obtain rfl := Option.some.inj hstep
      exact h.finish fun x hx => by cases hx
    · cases hstep
  | resume id =>
    rw [McpClient.step] at hstep
    split at hstep
    · next c _ hf =>
      obtain rfl := Option.some.inj hstep
      refine h.finish fun x hx => ?_
      cases hx
      exact h.future id _ hf
    · next hstage _ =>
      obtain rfl := Option.some.inj hstep
      exact h.giveUp (by rw [hstage]; trivial)
    · next timedOut _ _ =>
      obtain rfl := Option.some.inj hstep
      refine h.finish fun x hx => ?_
      split at hx <;> cases hx
    · cases hstep
  | cancel id =>
    rw [McpClient.step] at hstep
    split at hstep
    · next hstage => exact absurd hstage hc
    · obtain rfl := Option.some.inj hstep
      exact h.finish fun x hx => by cases hx
    · next c _ hf =>
      obtain rfl := Option.some.inj hstep
      refine h.finish fun x hx => ?_
      cases hx
      exact h.future id _ hf
    · next hstage _ =>
      obtain rfl := Option.some.inj hstep
      exact h.giveUp (by rw [hstage]; trivial)
    · obtain rfl := Option.some.inj hstep
      exact h.finish fun x hx => by cases hx
    · cases hstep
  | handleResponse message =>
    obtain rfl := Option.some.inj hstep
    exact h.handleResponse message
  | runCallback =>
    rw [McpClient.step] at hstep
    split at hstep
    · cases hstep
    · next c ready hready =>
      obtain rfl := Option.some.inj hstep
      have hrest : Inv py { s with ready := ready } :=
        ⟨h.pending, h.future, h.outcome, fun x hx => h.ready x (hready ▸ List.mem_cons_of_mem c hx)⟩
      exact hrest.settle (h.ready c (hready ▸ List.mem_cons_self))

/-- A call that is cancelled in `on_call` leaves its entry behind. -/
theorem unhindered_of_correlated (s : State) (e : Event) (t : State) (h : Inv py s)
    (hstep : McpClient.step py onCall s e = some t) (ht : Correlated py t) : Unhindered s e := by
  cases e with
  | cancel id =>
    intro hstage
    have hleft : McpClient.step py onCall s (.cancel id) = some (s.moveTo id (.ended .cancelled)) := by
      simp only [McpClient.step, hstage]
    rw [hleft] at hstep
    obtain rfl := Option.some.inj hstep
    have hin : id ∈ s.pending := (h.pending id).mpr (by rw [hstage]; trivial)
    exact ht.removed id .cancelled (by simp [State.moveTo, State.setCall]) hin
  | _ => trivial

end Correlation

/-- Responses and calls correlate in every state of a run exactly when no call of it
is cancelled while it waits for `on_call`. -/
theorem correlated_iff_unhindered (py : Python) (onCall mainLoop : Bool) (es : List Event) :
    Always (step py onCall) (Correlated py) (init mainLoop) es ↔
      Meets (step py onCall) Unhindered (init mainLoop) es :=
  always_iff_meets (fun _ h => h.correlated) Inv.step unhindered_of_correlated (inv_init mainLoop) es

/-- Reads and shows nothing, for runs without responses. -/
def unread : Python where
  loads _ := .error .decode
  str _ := []
  formats _ := true

/-- A call that is cancelled in `on_call` has ended, and its entry stays. -/
theorem cancelledInOnCall_stays_pending :
    ((run (step unread true) (init true) [.callTool (str "7c9e"), .cancel (str "7c9e")]).map
        fun s => s.pending) = some [str "7c9e"] ∧
      ¬ Always (step unread true) (Correlated unread) (init true)
        [.callTool (str "7c9e"), .cancel (str "7c9e")] := by
  refine ⟨rfl, fun h => ?_⟩
  have hlast := ((h.2 _ rfl).2 _ rfl).removed (str "7c9e") .cancelled rfl
  exact hlast (List.mem_singleton.mpr rfl)

end AlfredProcessing.Tools.McpClient
