import AlfredProcessing.Extract.Changes
import AlfredProcessing.Lib.Keyed
import AlfredProcessing.Lib.Transition

namespace AlfredProcessing.Websocket.Questions

open Lib Lib.Json Lib.Transition Extract.Changes

section Fields

/-- The exceptions that leave a handler. The last one is a limit of the interpreter that
`json.loads` runs into, which is no decoding error. -/
inductive Raised where
  | attributeError
  | typeError
  | valueError
  | overflowError
  | limit
  deriving DecidableEq

/-- `int(v)`, with `int` of a text as a parameter. -/
def toInt (int : Str → Option Int) : Value → Except Raised Int
  | .bool b => .ok (if b then 1 else 0)
  | .int n => .ok n
  | .float m e => .ok (if 0 ≤ e then m * Int.pow 10 e.toNat else m.tdiv (Int.pow 10 (-e).toNat))
  | .nonFinite .nan => .error .valueError
  | .nonFinite _ => .error .overflowError
  | .str s =>
    match int s with
    | some n => .ok n
    | none => .error .valueError
  | _ => .error .typeError

/-- The text that is stripped in `(mode or "auto").strip()`. -/
def modeText (mode : Value) : Except Raised Str :=
  match pyOr mode (.str (str "auto")) with
  | .str s => .ok s
  | _ => .error .attributeError

def maxPerHour (siteConfig : Dict) : Value :=
  pyOr (pyGet siteConfig "max_tasks_per_user_per_hour") (.int 20)

def isStr : Value → Bool
  | .str _ => true
  | _ => false

/-- The value is a number, or a text that `int` reads. -/
def countable (int : Str → Option Int) : Value → Bool
  | .bool _ | .int _ | .float _ _ => true
  | .str s => (int s).isSome
  | _ => false

theorem toInt_isOk (int : Str → Option Int) (v : Value) :
    (∃ n, toInt int v = .ok n) ↔ countable int v = true := by
  cases v with
  | str s => cases h : int s <;> simp [toInt, countable, h]
  | nonFinite x => cases x <;> simp [toInt, countable]
  | _ => simp [toInt, countable]

theorem modeText_isOk (v : Value) : (∃ s, modeText v = .ok s) ↔ (v.truthy = true → isStr v = true) := by
  unfold modeText pyOr
  by_cases h : v.truthy = true
  · rw [if_pos h]
    cases v <;> simp_all [isStr]
  · simp [h]

/-- What the handshake of a connection has brought, and `int` of a text. -/
structure Handshake where
  siteConfig : Dict
  int : Str → Option Int

def plainSite : Handshake := ⟨[], fun _ => none⟩

end Fields

/-- The future on which the answer to one question arrives. -/
inductive Future (A : Type) where
  | pending
  | result (a : A)
  | cancelled
  deriving DecidableEq

def Future.done {A : Type} : Future A → Bool
  | .pending => false
  | .result _ | .cancelled => true

/-- Where an `ask_human` call is suspended: in `send`, in `wait_for`, or in
the cancellation that `wait_for` waits out once its timer has fired. -/
inductive AskPhase where
  | sending
  | waiting
  | cancelling
  deriving DecidableEq

/-- The text of an answer, with the number of the frame that carried it. -/
structure Answer where
  frame : Nat
  text : String
  deriving DecidableEq

structure Question (M : Type) where
  msgId : M
  future : Future Answer
  phase : AskPhase
  deriving DecidableEq

inductive ErrorCode where
  | shuttingDown
  | rateLimit
  | pipelineBusy
  deriving DecidableEq

/-- What the connection has done so far, as the client and the pipeline see it. -/
inductive Effect (M : Type) where
  | settled (q : M)
  | returned (q : M) (a : Answer)
  | timedOut (q : M)
  | started (a : Answer)
  | error (frame : Nat) (code : ErrorCode)
  | lateInfo (frame : Nat) (q : M)
  | raised (frame : Nat) (e : Raised)
  deriving DecidableEq

/-- The part of `ConnectionState` that questions and prompts go through. The
last four fields record history and are read by no handler. -/
structure Session (M : Type) where
  pendingQuestions : List (Question M) := []
  expiredQuestions : List (M × Nat) := []
  activePipeline : Bool := false
  shuttingDown : Bool := false
  /-- The prompt suspended in `check_rate_limit`; the receive loop takes no
  further frame meanwhile. -/
  admitting : Option Answer := none
  /-- The receive loop has not been left by an exception. -/
  receiving : Bool := true
  asked : List M := []
  frames : Nat := 0
  prompts : List Nat := []
  log : List (Effect M) := []
  deriving DecidableEq

inductive Action (M : Type) where
  | ask (q : M)
  | sent (q : M)
  | resume (q : M)
  | timeout (q : M)
  | expire (q : M) (now : Nat)
  | userResponse (responseTo : M) (text : String)
  | prompt (text : String) (mode : Value)
  | admission (allowed : Bool)
  | pipelineDone
  | shutdown

variable {M : Type} [DecidableEq M]

def expiredQTtlSeconds : Nat := 3600

def gcExpiredQuestions (now : Nat) (expired : List (M × Nat)) : List (M × Nat) :=
  expired.filter fun e => decide (now ≤ e.2 + expiredQTtlSeconds)

def getQuestion (q : M) (s : Session M) : Option (Question M) :=
  Keyed.lookup Question.msgId q s.pendingQuestions

def updateQuestion (q : M) (f : Question M → Question M) (s : Session M) : Session M :=
  { s with pendingQuestions := Keyed.modify Question.msgId q f s.pendingQuestions }

def popQuestion (q : M) (s : Session M) : Session M :=
  { s with pendingQuestions := Keyed.erase Question.msgId q s.pendingQuestions }

def Session.record (s : Session M) (e : Effect M) : Session M :=
  { s with log := s.log ++ [e] }

/-- The two fall-through cases of `resolve_question`: a recently expired
question is acknowledged once, anything else is dropped without a word. -/
def resolveLate (q : M) (a : Answer) (s : Session M) : Session M :=
  if q ∈ s.expiredQuestions.map Prod.fst then
    { s with expiredQuestions := Keyed.erase Prod.fst q s.expiredQuestions }.record
      (.lateInfo a.frame q)
  else s

def resolveQuestion (q : M) (a : Answer) (s : Session M) : Session M :=
  match getQuestion q s with
  | some x =>
    if x.future.done then resolveLate q a s
    else (updateQuestion q (fun x => { x with future := .result a }) s).record (.settled q)
  | none => resolveLate q a s

def Session.nextFrame (s : Session M) : Session M :=
  { s with frames := s.frames + 1 }

def Session.nextPrompt (s : Session M) : Session M :=
  { s.nextFrame with prompts := s.frames :: s.prompts }

/-- An exception leaves the handler of a frame, and with it the receive loop. -/
def Session.raise (s : Session M) (frame : Nat) (e : Raised) : Session M :=
  { s with receiving := false }.record (.raised frame e)

variable (shake : Handshake)

/-- The `prompt` branch with a text, up to its only await that other frames cannot
overtake, the rate-limit check. -/
def takePrompt (a : Answer) (s : Session M) : Session M :=
  if s.shuttingDown then s.record (.error a.frame .shuttingDown)
  else
    match s.pendingQuestions with
    | oldest :: _ => resolveQuestion oldest.msgId a s
    | [] =>
      match toInt shake.int (maxPerHour shake.siteConfig) with
      | .error e => s.raise a.frame e
      | .ok _ => { s with admitting := some a }

/-- The `prompt` branch of `_handle_custom_message`, whose first statement reads the mode. -/
def handlePrompt (text : String) (mode : Value) (s : Session M) : Session M :=
  let s' := if text = "" then s.nextFrame else s.nextPrompt
  match modeText mode with
  | .error e => s'.raise s.frames e
  | .ok _ => if text = "" then s' else takePrompt shake ⟨s.frames, text⟩ s'

/-- The rest of the `prompt` branch, once the rate-limit check has answered. -/
def admitPrompt (a : Answer) (allowed : Bool) (s : Session M) : Session M :=
  let s' := { s with admitting := none }
  if allowed = false then s'.record (.error a.frame .rateLimit)
  else if s.activePipeline then s'.record (.error a.frame .pipelineBusy)
  else { s' with activePipeline := true }.record (.started a)

def Session.reads (s : Session M) : Bool := s.receiving && s.admitting.isNone

/-- One atomic stretch of one coroutine of the connection, from one await to
the next. -/
def step (s : Session M) : Action M → Option (Session M)
  | .ask q =>
    if q ∈ s.asked then none
    else some { s with
      pendingQuestions := s.pendingQuestions ++ [⟨q, .pending, .sending⟩]
      asked := q :: s.asked }
  | .sent q =>
    match getQuestion q s with
    | some ⟨_, _, .sending⟩ => some (updateQuestion q (fun x => { x with phase := .waiting }) s)
    | _ => none
  | .resume q =>
    match getQuestion q s with
    | some ⟨_, .result a, .waiting⟩ => some ((popQuestion q s).record (.returned q a))
    | _ => none
  | .timeout q =>
    match getQuestion q s with
    | some ⟨_, .pending, .waiting⟩ =>
      some ((updateQuestion q (fun x => { x with future := .cancelled, phase := .cancelling }) s).record
        (.settled q))
    | _ => none
  | .expire q now =>
    match getQuestion q s with
    | some ⟨_, _, .cancelling⟩ =>
      some ({ popQuestion q s with
        expiredQuestions := gcExpiredQuestions now (s.expiredQuestions ++ [(q, now)]) }.record
          (.timedOut q))
    | _ => none
  | .userResponse r text =>
    if s.reads then some (resolveQuestion r ⟨s.frames, text⟩ s.nextFrame) else none
  | .prompt text mode => if s.reads then some (handlePrompt shake text mode s) else none
  | .admission allowed =>
    s.admitting.map fun a => admitPrompt a allowed s
  | .pipelineDone => some { s with activePipeline := false }
  | .shutdown => some { s with shuttingDown := true }

end AlfredProcessing.Websocket.Questions
