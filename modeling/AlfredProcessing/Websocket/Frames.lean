import AlfredProcessing.Extract.Changes
import AlfredProcessing.Lib.Fallible
import AlfredProcessing.Tools.McpTotality
import Mathlib.Algebra.Group.Int.Defs
import Mathlib.Data.List.Infix

namespace AlfredProcessing.Websocket.Frames

open Lib Lib.Json Lib.Transition Extract.Changes Tools.McpClient Questions

section Model

inductive Outgoing where
  | invalidJson
  | shuttingDown
  | rateLimit (limit : Int)
  | pipelineBusy
  | lateInfo (question : Str)
  | replayed (event : Dict)
  | echo (receivedType receivedMsgId : Value)

/-- What the handlers of a connection read and change. The keys of the questions are ids
that the server has made up. -/
structure Conn where
  lastAckedMsgId : Value
  mcp : Tools.McpClient.State
  pendingQuestions : List (Str × Future Value)
  expiredQuestions : List Str
  activePipeline : Bool
  hasContext : Bool
  stopped : Bool
  started : List (Value × Str)
  sent : List Outgoing

/-- What surrounds a frame: texts and numbers of the language, the service, the handshake's
configuration, and what a handler finds after its awaits. -/
structure Env where
  py : Python
  strip : Str → Str
  lower : Str → Str
  int : Str → Option Int
  shuttingDown : Bool
  siteConfig : Dict
  events : Option (List Dict)
  allowed : Bool
  meanwhile : Conn → Conn

def Conn.send (c : Conn) (m : Outgoing) : Conn := { c with sent := c.sent ++ [m] }

/-- `v == name`. -/
def named (v : Value) (name : String) : Bool :=
  match v with
  | .str s => s = str name
  | _ => false

/-- `name in v`. -/
def contains (name : String) : Value → Except Raised Bool
  | .dict d _ => .ok (has d name)
  | .list xs => .ok (xs.any (named · name))
  | .str s => .ok (decide (str name <:+: s))
  | _ => .error .typeError

/-- `v.get(key, default)`. -/
def getAttr (v : Value) (key : String) (default : Value) : Except Raised Value :=
  match v with
  | .dict d _ => .ok ((get (str key) d).getD default)
  | _ => .error .attributeError

variable (env : Env)

/-- The message is for a call that is still waiting. -/
def awaited (message : Message) (c : Conn) : Bool :=
  match requestId env.py message with
  | none => false
  | some id => c.mcp.pending.contains id && !(c.mcp.calls id).future.done

/-- `handle_response`, with what it raises. -/
def handleResponse (message : Message) (c : Conn) : Except Raised Conn :=
  (c.mcp.respond env.py message).map fun mcp => { c with mcp := mcp }

/-- `_handle_mcp_message`; a connection has its client from the handshake on. -/
def handleMcpMessage (data : Value) (c : Conn) : Except Raised Conn := do
  let result ← contains "result" data
  let error ← contains "error" data
  if result || error then
    match data with
    | .dict message _ => handleResponse env message c
    | _ => .error .attributeError
  else
    let _ ← getAttr data "method" .null
    return c

/-- The end of `resolve_question`. -/
def resolveLate (q : Str) (c : Conn) : Conn :=
  if c.expiredQuestions.contains q then
    { c with expiredQuestions := c.expiredQuestions.erase q }.send (.lateInfo q)
  else c

def resolveId (q : Str) (answer : Value) (c : Conn) : Conn :=
  match Keyed.lookup Prod.fst q c.pendingQuestions with
  | some x =>
    if x.2.done then resolveLate q c
    else { c with pendingQuestions := Keyed.modify Prod.fst q (fun x => (x.1, .result answer)) c.pendingQuestions }
  | none => resolveLate q c

/-- `resolve_question`, where no key is equal to a value that is no string. -/
def resolveQuestion (id answer : Value) (c : Conn) : Except Raised Conn :=
  if hashable id then
    match id with
    | .str q => .ok (resolveId q answer c)
    | _ => .ok c
  else .error .typeError

def payload (data : Dict) : Value := (get (str "data") data).getD (.dict [] .none)

def msgId (data : Dict) : Value := (get (str "msg_id") data).getD (.str [])

def handleAck (data : Dict) (c : Conn) : Except Raised Conn := do
  let acked ← getAttr (payload data) "msg_id" (msgId data)
  return { c with lastAckedMsgId := acked }

/-- The events behind the one that the client saw last, or all of them. -/
def toReplay (last : Value) (events : List Dict) : List Dict :=
  match events.findIdx? fun e => pyEq (pyGet e "msg_id") last with
  | some i => events.drop (i + 1)
  | none => events

def handleResume (data : Dict) (c : Conn) : Except Raised Conn := do
  let last ← getAttr (pyOr (pyGet data "data") (.dict [] .none)) "last_msg_id" .null
  if last.truthy then
    return { c with sent := c.sent ++ (toReplay last (env.events.getD [])).map .replayed }
  else return c

def handleUserResponse (data : Dict) (c : Conn) : Except Raised Conn := do
  let responseTo ← getAttr (payload data) "response_to" (msgId data)
  let answer ← getAttr (payload data) "text" (.str [])
  resolveQuestion responseTo answer c

def handleCancel (c : Conn) : Conn :=
  if c.hasContext && c.activePipeline then { c with stopped := true } else c

/-- The mode that the client has chosen, `auto` if it is none of the four. -/
def manualMode (v : Value) : Except Raised Str := do
  let text ← modeText v
  let mode := env.lower (env.strip text)
  return if (["auto", "dev", "plan", "insights"].map str).contains mode then mode else str "auto"

/-- The end of the `prompt` branch, from the rate limit on. -/
def startPipeline (text : Value) (mode : Str) (c : Conn) : Except Raised Conn := do
  let limit ← toInt env.int (maxPerHour env.siteConfig)
  let c := env.meanwhile c
  if env.allowed = false then return c.send (.rateLimit limit)
  else if c.activePipeline then return c.send .pipelineBusy
  else return { c with activePipeline := true, started := c.started ++ [(text, mode)] }

/-- The `prompt` branch, once its fields are read. -/
def takePrompt (text : Value) (mode : Str) (c : Conn) : Except Raised Conn :=
  if text.truthy = false then .ok c
  else if env.shuttingDown then .ok (c.send .shuttingDown)
  else
    match c.pendingQuestions with
    | (oldest, _) :: _ => .ok (resolveId oldest text c)
    | [] => startPipeline env text mode c

def handlePrompt (data : Dict) (c : Conn) : Except Raised Conn := do
  let text ← getAttr (payload data) "text" (.str [])
  let mode ← getAttr (payload data) "mode" .null
  let mode ← manualMode env mode
  takePrompt env text mode c

inductive Kind where
  | ack
  | resume
  | userResponse
  | cancel
  | prompt
  | unknown

def kind (data : Dict) : Kind :=
  let msgType := (get (str "type") data).getD (.str (str "unknown"))
  if named msgType "ack" then .ack
  else if named msgType "resume" then .resume
  else if named msgType "user_response" then .userResponse
  else if named msgType "cancel" then .cancel
  else if named msgType "prompt" then .prompt
  else .unknown

/-- `_handle_custom_message`. -/
def handleCustomMessage (data : Value) (c : Conn) : Except Raised Conn :=
  match data with
  | .dict data _ =>
    match kind data with
    | .ack => handleAck data c
    | .resume => handleResume env data c
    | .userResponse => handleUserResponse data c
    | .cancel => .ok (handleCancel c)
    | .prompt => handlePrompt env data c
    | .unknown => .ok (c.send (.echo ((get (str "type") data).getD (.str (str "unknown"))) (msgId data)))
  | _ => .error .attributeError

def handleText (raw : Str) (c : Conn) : Except Raised Conn :=
  match env.py.loads raw with
  | .error .limit => .error .limit
  | .error .decode => .ok (c.send .invalidJson)
  | .ok data => do
    if ← contains "jsonrpc" data then handleMcpMessage env data c
    else handleCustomMessage env data c

end Model

section Fits

variable (env : Env)

/-- A response can be read, or no call waits for it. -/
def mcpFits (data : Dict) (c : Conn) : Prop :=
  has data "result" = true ∨ has data "error" = true → awaited env data c = true → Legible env.py data

def mode (data : Dict) : Value :=
  match payload data with
  | .dict d _ => pyGet d "mode"
  | _ => .null

def text (data : Dict) : Value :=
  match payload data with
  | .dict d _ => (get (str "text") d).getD (.str [])
  | _ => .null

def responseTo (data : Dict) : Value :=
  match payload data with
  | .dict d _ => (get (str "response_to") d).getD (msgId data)
  | _ => .null

/-- The field `data`, if any, is an object, and what its handler reads of it is of a type
that the handler can use. -/
def customFits (data : Dict) (c : Conn) : Prop :=
  match kind data with
  | .ack => isDict (payload data) = true
  | .resume => (pyGet data "data").truthy = true → isDict (pyGet data "data") = true
  | .userResponse => isDict (payload data) = true ∧ hashable (responseTo data) = true
  | .prompt =>
    isDict (payload data) = true ∧ ((mode data).truthy = true → isStr (mode data) = true) ∧
      ((text data).truthy = true → env.shuttingDown = false → c.pendingQuestions = [] →
        countable env.int (maxPerHour env.siteConfig) = true)
  | .cancel | .unknown => True

/-- The frames that a connection gets through. -/
def Fits (c : Conn) : Value → Prop
  | .dict data _ =>
    if has data "jsonrpc" = true then mcpFits env data c else customFits env data c
  | _ => False

def Returns (x : Except Raised Conn) : Prop := ∃ c, x = .ok c

variable {env}

@[simp] theorem returns_ok (c : Conn) : Returns (.ok c) := ⟨c, rfl⟩

@[simp] theorem not_returns_error (e : Raised) : ¬Returns (.error e) := fun ⟨_, h⟩ => by cases h

theorem returns_bind {α : Type} {x : Except Raised α} {f : α → Except Raised Conn} :
    Returns (x >>= f) ↔ ∃ a, x = .ok a ∧ Returns (f a) := by
  constructor
  · rintro ⟨c, h⟩
    obtain ⟨a, hx, hf⟩ := Fallible.bind_eq_ok.mp h
    exact ⟨a, hx, c, hf⟩
  · rintro ⟨a, hx, c, hf⟩
    exact ⟨c, Fallible.bind_eq_ok.mpr ⟨a, hx, hf⟩⟩

theorem returns_getAttr {v default : Value} {key : String} {f : Value → Except Raised Conn}
    (hf : ∀ w, Returns (f w)) : Returns (getAttr v key default >>= f) ↔ isDict v = true := by
  cases v with
  | dict d s => exact iff_of_true (hf _) rfl
  | _ => exact iff_of_false (fun ⟨c, h⟩ => by cases h) (fun h => by cases h)

theorem manualMode_isOk (v : Value) : (∃ m, manualMode env v = .ok m) ↔ (v.truthy = true → isStr v = true) := by
  rw [← modeText_isOk, manualMode]
  constructor
  · rintro ⟨m, h⟩
    obtain ⟨s, hs, -⟩ := Fallible.bind_eq_ok.mp h
    exact ⟨s, hs⟩
  · rintro ⟨s, hs⟩
    exact ⟨_, Fallible.bind_eq_ok.mpr ⟨s, hs, rfl⟩⟩

theorem returns_startPipeline (t : Value) (m : Str) (c : Conn) :
    Returns (startPipeline env t m c) ↔ countable env.int (maxPerHour env.siteConfig) = true := by
  rw [← toInt_isOk, startPipeline, returns_bind]
  refine exists_congr fun n => and_iff_left ?_
  dsimp only
  split_ifs <;> exact ⟨_, rfl⟩

theorem returns_takePrompt (t : Value) (m : Str) (c : Conn) : Returns (takePrompt env t m c) ↔
    (t.truthy = true → env.shuttingDown = false → c.pendingQuestions = [] →
      countable env.int (maxPerHour env.siteConfig) = true) := by
  unfold takePrompt
  split_ifs with htext hflag
  · simp [htext]
  · simp [hflag]
  · rw [Bool.not_eq_false] at htext
    rw [Bool.not_eq_true] at hflag
    cases hpending : c.pendingQuestions with
    | nil => simp [returns_startPipeline, htext, hflag]
    | cons q qs => simp

theorem returns_handlePrompt (data : Dict) (c : Conn) : Returns (handlePrompt env data c) ↔
    isDict (payload data) = true ∧ ((mode data).truthy = true → isStr (mode data) = true) ∧
      ((text data).truthy = true → env.shuttingDown = false → c.pendingQuestions = [] →
        countable env.int (maxPerHour env.siteConfig) = true) := by
  rw [handlePrompt, mode, text]
  cases payload data with
  | dict d s =>
    change Returns (manualMode env (pyGet d "mode") >>= fun m =>
      takePrompt env ((get (str "text") d).getD (.str [])) m c) ↔ _
    simp only [returns_bind, returns_takePrompt, exists_and_right, manualMode_isOk, isDict, true_and]
  | _ => simp [getAttr, isDict, returns_bind]

theorem returns_resolveQuestion (id answer : Value) (c : Conn) :
    Returns (resolveQuestion id answer c) ↔ hashable id = true := by
  unfold resolveQuestion
  split_ifs with h
  · simp only [h, iff_true]
    split <;> exact ⟨_, rfl⟩
  · simp [h]

theorem returns_handleUserResponse (data : Dict) (c : Conn) : Returns (handleUserResponse data c) ↔
    isDict (payload data) = true ∧ hashable (responseTo data) = true := by
  rw [handleUserResponse, responseTo]
  cases payload data with
  | dict d s =>
    change Returns (resolveQuestion _ _ c) ↔ _
    simp [returns_resolveQuestion, isDict]
  | _ => simp [getAttr, isDict, returns_bind]

theorem returns_handleAck (data : Dict) (c : Conn) :
    Returns (handleAck data c) ↔ isDict (payload data) = true :=
  returns_getAttr fun _ => ⟨_, rfl⟩

theorem returns_handleResume (data : Dict) (c : Conn) : Returns (handleResume env data c) ↔
    ((pyGet data "data").truthy = true → isDict (pyGet data "data") = true) := by
  have hread : Returns (handleResume env data c) ↔ isDict (pyOr (pyGet data "data") (.dict [] .none)) = true :=
    returns_getAttr fun w => by split_ifs <;> exact ⟨_, rfl⟩
  rw [hread, pyOr]
  split_ifs with htruthy
  · simp [htruthy]
  · simp [htruthy, isDict]

theorem returns_handleCustomMessage (data : Dict) (strays : Strays) (c : Conn) :
    Returns (handleCustomMessage env (.dict data strays) c) ↔ customFits env data c := by
  rw [handleCustomMessage, customFits]
  cases kind data with
  | ack => exact returns_handleAck data c
  | resume => exact returns_handleResume data c
  | userResponse => exact returns_handleUserResponse data c
  | cancel => exact iff_of_true ⟨_, rfl⟩ trivial
  | prompt => exact returns_handlePrompt data c
  | unknown => exact iff_of_true ⟨_, rfl⟩ trivial

theorem returns_handleResponse (message : Message) (c : Conn) : Returns (handleResponse env message c) ↔
    (awaited env message c = true → Legible env.py message) := by
  rw [Returns, handleResponse, Fallible.exists_map_eq_ok, State.respond, awaited]
  cases requestId env.py message with
  | none => simp
  | some id =>
    have hwaits : (c.mcp.pending.contains id && !(c.mcp.calls id).future.done) =
        !(!c.mcp.pending.contains id || (c.mcp.calls id).future.done) := by
      rw [Bool.not_or, Bool.not_not]
    dsimp only
    rw [hwaits]
    cases !c.mcp.pending.contains id || (c.mcp.calls id).future.done with
    | true => simp
    | false => simp [Fallible.exists_map_eq_ok, readReply_isOk]

theorem returns_handleMcpMessage (data : Dict) (strays : Strays) (c : Conn) :
    Returns (handleMcpMessage env (.dict data strays) c) ↔ mcpFits env data c := by
  have hread : handleMcpMessage env (.dict data strays) c =
      if has data "result" || has data "error" then handleResponse env data c else .ok c := rfl
  rw [hread, mcpFits]
  split_ifs with h
  · rw [returns_handleResponse]
    rw [Bool.or_eq_true] at h
    simp [h]
  · rw [Bool.or_eq_true] at h
    simp [h]

theorem not_returns_mcp {data : Value} (h : isDict data = false) (c : Conn) :
    ¬Returns (handleMcpMessage env data c) := by
  rintro ⟨c', hrun⟩
  obtain ⟨result, -, hrun⟩ := Fallible.bind_eq_ok.mp hrun
  obtain ⟨error, -, hrun⟩ := Fallible.bind_eq_ok.mp hrun
  split_ifs at hrun
  · cases data with
    | dict d s => cases h
    | _ => cases hrun
  · obtain ⟨w, hw, -⟩ := Fallible.bind_eq_ok.mp hrun
    cases data with
    | dict d s => cases h
    | _ => cases hw

theorem returns_handleText (raw : Str) (c : Conn) : Returns (handleText env raw c) ↔
    env.py.loads raw ≠ .error .limit ∧ ∀ data, env.py.loads raw = .ok data → Fits env c data := by
  unfold handleText
  cases hloads : env.py.loads raw with
  | error e => cases e <;> simp
  | ok data =>
    simp only [ne_eq, reduceCtorEq, not_false_eq_true, true_and, Except.ok.injEq, forall_eq']
    cases data with
    | dict d strays =>
      change Returns (if has d "jsonrpc" = true then handleMcpMessage env (.dict d strays) c
        else handleCustomMessage env (.dict d strays) c) ↔ _
      rw [Fits]
      split_ifs
      · exact returns_handleMcpMessage d strays c
      · exact returns_handleCustomMessage d strays c
    | _ =>
      refine iff_of_false (fun hreturns => ?_) id
      obtain ⟨b, -, hrun⟩ := returns_bind.mp hreturns
      split_ifs at hrun
      · exact not_returns_mcp rfl c hrun
      · exact not_returns_error _ hrun

end Fits

section Loop

/-- A connection after its handshake: its receive loop, the entry of its conversation, and
whether its pipeline was cancelled. -/
structure Serving where
  conn : Conn
  looping : Bool
  registered : Bool
  cancelled : Bool

def start (c : Conn) : Serving := ⟨c, true, true, false⟩

/-- The body of the loop, and the `finally` clause where it raises. -/
def receive (env : Env) (raw : Str) (s : Serving) : Serving :=
  match handleText env raw s.conn with
  | .ok c => { s with conn := c }
  | .error _ =>
    { s with looping := false, registered := false, cancelled := s.cancelled || s.conn.activePipeline }

/-- A frame arrives, or the pipeline and the tool calls of the connection go on. -/
inductive Action where
  | frame (env : Env) (raw : Str)
  | other (f : Conn → Conn)

def step (s : Serving) : Action → Option Serving
  | .frame env raw => if s.looping then some (receive env raw s) else none
  | .other f => some { s with conn := f s.conn }

structure Alive (s : Serving) : Prop where
  looping : s.looping = true
  registered : s.registered = true
  kept : s.cancelled = false

/-- The text is no JSON, or a value that fits. -/
def Accepted (s : Serving) : Action → Prop
  | .frame env raw =>
    env.py.loads raw ≠ .error .limit ∧ ∀ data, env.py.loads raw = .ok data → Fits env s.conn data
  | .other _ => True

theorem alive_receive_iff {s : Serving} (h : Alive s) (env : Env) (raw : Str) :
    Alive (receive env raw s) ↔ Returns (handleText env raw s.conn) := by
  unfold receive
  cases hrun : handleText env raw s.conn with
  | ok c => exact iff_of_true ⟨h.looping, h.registered, h.kept⟩ ⟨c, rfl⟩
  | error e => exact iff_of_false (fun hdead => Bool.noConfusion hdead.looping) (not_returns_error e)

/-- A connection stays alive in exactly the runs whose frames fit. -/
theorem alive_iff_accepted (c : Conn) (as : List Action) :
    Always step Alive (start c) as ↔ Meets step Accepted (start c) as := by
  refine always_iff_meets (J := Alive) (fun _ h => h) (fun s a t h haccepted hstep => ?_)
    (fun s a t h hstep halive => ?_) ⟨rfl, rfl, rfl⟩ as
  · cases a with
    | frame env raw =>
      rw [step, if_pos h.looping] at hstep
      cases hstep
      exact (alive_receive_iff h env raw).mpr ((returns_handleText raw s.conn).mpr haccepted)
    | other f =>
      cases hstep
      exact ⟨h.looping, h.registered, h.kept⟩
  · cases a with
    | frame env raw =>
      rw [step, if_pos h.looping] at hstep
      cases hstep
      exact (returns_handleText raw s.conn).mp ((alive_receive_iff h env raw).mp halive)
    | other f => trivial

def busy : Conn where
  lastAckedMsgId := .null
  mcp := Tools.McpClient.init true
  pendingQuestions := []
  expiredQuestions := []
  activePipeline := true
  hasContext := true
  stopped := false
  started := []
  sent := []

/-- A surrounding in which `json.loads` reads that text as that value. -/
def reading (raw : Str) (data : Value) : Env where
  py := ⟨fun s => if s = raw then .ok data else .error .decode, fun _ => [], fun _ => true⟩
  strip s := s
  lower s := s
  int _ := none
  shuttingDown := false
  siteConfig := []
  events := none
  allowed := true
  meanwhile c := c

def modeFive : Value :=
  .dict
    [(str "type", .str (str "prompt")),
      (str "data", .dict [(str "text", .str (str "hi")), (str "mode", .int 5)] .none)] .none

theorem frame_ends {raw : Str} {data : Value} {error : Raised}
    (h : (contains "jsonrpc" data >>= fun b =>
      if b then handleMcpMessage (reading raw data) data busy
      else handleCustomMessage (reading raw data) data busy) = .error error) :
    ∃ t, run step (start busy) [.frame (reading raw data) raw] = some t ∧
      t.looping = false ∧ t.registered = false ∧ t.cancelled = true := by
  have htext : handleText (reading raw data) raw busy = .error error := by
    rw [← h]
    simp [handleText, reading]
  refine ⟨receive (reading raw data) raw (start busy), rfl, ?_⟩
  have hconn : (start busy).conn = busy := rfl
  rw [receive, hconn, htext]
  exact ⟨rfl, rfl, rfl⟩

/-- A number, and a prompt whose mode is one, are such frames. -/
theorem numbers_end :
    (∃ t, run step (start busy) [.frame (reading (str "5") (.int 5)) (str "5")] = some t ∧
        t.looping = false ∧ t.registered = false ∧ t.cancelled = true) ∧
      ∃ t, run step (start busy) [.frame
            (reading (str "\x7b\"type\":\"prompt\",\"data\":\x7b\"text\":\"hi\",\"mode\":5\x7d\x7d") modeFive)
            (str "\x7b\"type\":\"prompt\",\"data\":\x7b\"text\":\"hi\",\"mode\":5\x7d\x7d")] = some t ∧
          t.looping = false ∧ t.registered = false ∧ t.cancelled = true :=
  ⟨frame_ends rfl, frame_ends rfl⟩

end Loop

end AlfredProcessing.Websocket.Frames
