import AlfredProcessing.Lib.PyRepr
import AlfredProcessing.Pipeline.HandoffQuery
import AlfredProcessing.Security.UrlAllowlist

namespace AlfredProcessing.Llm.Client

open Lib.Json Extract.Changes Extract.Cleaning Security.UrlAllowlist
open Pipeline.HandoffQuery (loads toChars)

section Model

abbrev Bytes := List UInt8

/-- What goes wrong with a connection: a timeout, another `OSError`, or what is no HTTP, such as a status line
that cannot be read or a body that is cut off. -/
inductive Fault where
  | timeout
  | os
  | http
  deriving DecidableEq

/-- The exceptions on the way. The last ones are told apart by their class only. -/
inductive Raised where
  | ollamaError (message : Str)
  | httpError (code : Nat) (body : Except Fault Bytes)
  | urlError (reason : Str)
  | timeoutError
  | osError
  | httpException
  | valueError
  | typeError
  | attributeError
  | overflowError
  | recursionError

/-- What becomes of a request, redirections followed. No request can be made of the URL, there is an `OSError`
while connecting or sending, there is a fault in place of a reply, or a reply whose body is yet to be read. -/
inductive Exchange where
  | unformed (invalidUrl : Bool)
  | unsent (reason : Str)
  | unanswered (fault : Fault)
  | answered (status : Nat) (body : Except Fault Bytes)

structure Request where
  url : Str
  payload : Value
  timeout : Int

/-- What the client is given: the environment, the numbers that texts and floats stand for, how bytes are
decoded, the bodies on which `json.loads` meets the depth of the stack that is left, or the limit on the digits of an
integer, and the network. -/
structure World where
  platform : Platform
  getaddrinfo : Text → Resolution
  texts : Lib.PyRepr.Texts
  environ : String → Option Str
  intOfStr : Str → Option Int
  intOfFloat : Int → Int → Option Int
  decode : Bytes → Option (List Char)
  decodeReplace : Bytes → Str
  deep : Bytes → Bool
  overlong : Bytes → Bool
  exchange : Request → Exchange

structure Call where
  messages : Value
  siteConfig : Dict
  maxTokens : Int := 256
  temperature : Value := .float 1 (-1)
  numCtxOverride : Option Int := none
  timeout : Int := 60
  tier : Option Str := none

def points (cs : List Char) : Str := cs.map Char.toNat

def field (d : Dict) (key : Str) : Value := (get key d).getD .null

/-- `v.strip()`. -/
def stripText : Value → Except Raised Str
  | .str s => .ok (stripped s)
  | _ => .error .attributeError

def ollamaPrefix : Str := str "ollama/"

/-- `model.removeprefix("ollama/")`. -/
def removePrefix : Value → Except Raised Str
  | .str s => .ok (if ollamaPrefix.isPrefixOf s then s.drop ollamaPrefix.length else s)
  | _ => .error .attributeError

/-- `base_url.rstrip('/')`. -/
def rstripSlash : Value → Except Raised Str
  | .str s => .ok (s.rdropWhile (· = '/'.toNat))
  | _ => .error .attributeError

def reasonText : Reason → Str
  | .badScheme => str "bad_scheme"
  | .noHost => str "no_host"
  | .dnsFail => str "dns_fail"
  | .privateIp => str "private_ip"

/-- `type(v).__name__`. -/
def typeName : Value → Str
  | .null => str "NoneType"
  | .bool _ => str "bool"
  | .int _ => str "int"
  | .float .. => str "float"
  | .nonFinite _ => str "float"
  | .str _ => str "str"
  | .list _ => str "list"
  | .dict .. => str "dict"
  | .other .. => str "object"

/-- The `repr` of bytes. -/
def bytesText (texts : Lib.PyRepr.Texts) (bs : Bytes) : List Char :=
  let quote := if bs.contains 39 && !bs.contains 34 then 34 else 39
  let byteText (n : Nat) : List Char :=
    if n < 128 then Lib.PyRepr.charText texts quote n else '\\' :: 'x' :: Lib.PyRepr.hexText 2 n
  'b' :: Char.ofNat quote :: (bs.flatMap (fun b => byteText b.toNat) ++ [Char.ofNat quote])

def orRaise {α : Type} (e : Raised) : Option α → Except Raised α
  | some a => .ok a
  | none => .error e

def decimal (n : Int) : Str := points (Lib.PyRepr.intText n)

def Fault.raised : Fault → Raised
  | .timeout => .timeoutError
  | .os => .osError
  | .http => .httpException

/-- `urlopen`. An `OSError` is a `URLError` where it comes before there could be a reply. -/
def urlopen : Exchange → Except Raised (Except Fault Bytes)
  | .unformed invalidUrl => .error (if invalidUrl then .httpException else .valueError)
  | .unsent reason => .error (.urlError reason)
  | .unanswered fault => .error fault.raised
  | .answered status body => if 200 ≤ status ∧ status < 300 then .ok body else .error (.httpError status body)

/-- `resp.read()`. -/
def readBody : Except Fault Bytes → Except Raised Bytes := Except.mapError Fault.raised

variable (w : World)

/-- `int(v)`. -/
def World.int : Value → Except Raised Int
  | .bool b => .ok (if b then 1 else 0)
  | .int n => .ok n
  | .float m e => orRaise .overflowError (w.intOfFloat m e)
  | .nonFinite .nan => .error .valueError
  | .nonFinite _ => .error .overflowError
  | .str s => orRaise .valueError (w.intOfStr s)
  | _ => .error .typeError

/-- `site_config.get(key) or os.environ.get(fallback) or default`. -/
def World.setting (cfg : Dict) (key fallback default : String) : Value :=
  pyOr (pyGet cfg key) (.str (((w.environ fallback).filter (· ≠ [])).getD (str default)))

def World.tierConfig (cfg : Dict) : Option Str → Except Raised (Str × Int)
  | none => .ok ([], 0)
  | some [] => .ok ([], 0)
  | some tier => do
    let model ← stripText (pyOr (field cfg (str "llm_model_" ++ tier)) (.str []))
    let numCtx ← w.int (pyOr (field cfg (str "llm_model_" ++ tier ++ str "_num_ctx")) (.int 0))
    return (model, numCtx)

/-- `_resolve_ollama_config_for_tier`. -/
def resolveOllamaConfigForTier (cfg : Dict) (tier : Option Str) : Except Raised (Value × Value × Int) := do
  let baseUrl := w.setting cfg "llm_base_url" "FALLBACK_LLM_BASE_URL" "http://localhost:11434"
  let (model, numCtx) ← w.tierConfig cfg tier
  if model = [] then
    let numCtx ← w.int (pyOr (pyGet cfg "llm_num_ctx") (.int 0))
    return (w.setting cfg "llm_model" "FALLBACK_LLM_MODEL" "ollama/llama3.1", baseUrl, numCtx)
  else return (.str model, baseUrl, numCtx)

/-- `validate_llm_url`, for anything that a configuration has as the URL. -/
def World.validate : Value → Except Rejection Unit
  | .str url => validateLlmUrl w.platform w.getaddrinfo (toChars url)
  | v => .error (.ssrfPolicy ("URL is empty or not a string: ".toList ++ Lib.PyRepr.repr w.texts v) .badScheme)

def World.approve (url : Value) : Except Raised Unit :=
  match w.validate url with
  | .ok () => .ok ()
  | .error (.ssrfPolicy message reason) =>
    .error (.ollamaError (str "LLM URL rejected by SSRF policy (" ++ reasonText reason ++ str "): " ++ points message))
  | .error .valueError => .error .valueError

def contextSize (call : Call) (model : Value) (numCtx : Int) : Int :=
  match call.numCtxOverride with
  | some n => n
  | none =>
    match model with
    | .str s => if numCtx ≤ 0 ∧ ollamaPrefix.isPrefixOf s then 4096 else numCtx
    | _ => numCtx

def payload (call : Call) (ollamaModel : Str) (numCtx : Int) : Value :=
  .dict [(str "model", .str ollamaModel), (str "messages", call.messages), (str "stream", .bool false),
    (str "options", .dict ([(str "temperature", call.temperature), (str "num_predict", .int call.maxTokens)] ++
      if 0 < numCtx then [(str "num_ctx", .int numCtx)] else []) .none)] .none

/-- The request for a call, and the model that the errors name. -/
def World.chatRequest (call : Call) : Except Raised (Request × Str) := do
  let (model, baseUrl, numCtx) ← resolveOllamaConfigForTier w call.siteConfig call.tier
  let ollamaModel ← removePrefix model
  w.approve baseUrl
  let base ← rstripSlash baseUrl
  return (⟨base ++ str "/api/chat", payload call ollamaModel (contextSize call model numCtx), call.timeout⟩, ollamaModel)

def place (request : Request) (model : Str) : Str := request.url ++ str " (model=" ++ model ++ str ")"

def World.shownBody : Except Fault Bytes → Except Raised Str
  | .ok body => .ok ((w.decodeReplace body).take 500)
  | .error .timeout => .ok []
  | .error .os => .ok []
  | .error .http => .error .httpException

/-- The handlers around `urlopen` and the reading of the reply. -/
def World.wrapped (request : Request) (model : Str) : Raised → Except Raised Bytes
  | .httpError code body => do
    let shown ← w.shownBody body
    throw (.ollamaError (str "Ollama HTTP " ++ decimal code ++ str " from " ++ place request model ++ str ": " ++ shown))
  | .urlError reason =>
    throw (.ollamaError (str "Ollama network error from " ++ place request model ++ str ": " ++ reason))
  | .timeoutError =>
    throw (.ollamaError (str "Ollama timeout after " ++ decimal request.timeout ++ str "s from " ++ place request model))
  | e => throw e

def World.fetch (request : Request) (model : Str) : Except Raised Bytes :=
  match urlopen (w.exchange request) >>= readBody with
  | .ok raw => .ok raw
  | .error e => w.wrapped request model e

/-- `json.loads` of a body that is not too deep; an integer that is too long is a `ValueError` like any other. -/
def World.loaded (raw : Bytes) : Option Value := if w.overlong raw then none else (w.decode raw).bind loads

def World.readReply (request : Request) (model : Str) (raw : Bytes) : Except Raised Str :=
  if w.deep raw then .error .recursionError
  else
    match w.loaded raw with
    | none =>
      .error (.ollamaError (str "Ollama returned non-JSON response from " ++ place request model ++ str ": " ++
        points (bytesText w.texts (raw.take 200))))
    | some (.dict data strays) =>
      match pyGet data "message" with
      | .dict message _ => stripText (pyOr (pyGet message "content") (.str []))
      | _ =>
        .error (.ollamaError (str "Ollama response missing 'message' object from " ++ place request model ++ str ": " ++
          points (Lib.PyRepr.repr w.texts (.dict data strays))))
    | some v =>
      .error (.ollamaError (str "Ollama returned unexpected payload type " ++ typeName v ++
        str " (expected object) from " ++ place request model))

/-- `ollama_chat_sync`. -/
def ollamaChatSync (call : Call) : Except Raised Str := do
  let (request, model) ← w.chatRequest call
  let raw ← w.fetch request model
  w.readReply request model raw

/-- Nothing is raised but an `OllamaError`. -/
def Contained {α : Type} (x : Except Raised α) : Prop := ∀ e, x = .error e → ∃ message, e = .ollamaError message

def Textual (v : Value) : Prop := v.truthy → ∃ s, v = .str s

/-- Empty, or what `int` takes. -/
def Numeral (v : Value) : Prop := v.truthy →
  match v with
  | .bool _ => True
  | .int _ => True
  | .float m e => (w.intOfFloat m e).isSome
  | .str s => (w.intOfStr s).isSome
  | _ => False

def textOf : Value → Str
  | .str s => stripped s
  | _ => []

def tierModel (cfg : Dict) : Option Str → Str
  | none => []
  | some [] => []
  | some tier => textOf (field cfg (str "llm_model_" ++ tier))

/-- The body is not too deep to be read, and if it has a message its content is empty or a text. -/
def Legible (raw : Bytes) : Prop :=
  w.deep raw = false ∧ ∀ data strays message strays', w.loaded raw = some (.dict data strays) →
    pyGet data "message" = .dict message strays' → Textual (pyGet message "content")

/-- A failure is a timeout or comes before anything could be read, or, with an error for a status, the body is
read in whole or given up with an `OSError`. -/
def Calm : Exchange → Prop
  | .unformed _ => False
  | .unsent _ => True
  | .unanswered fault => fault = .timeout
  | .answered status body =>
    if 200 ≤ status ∧ status < 300 then
      match body with
      | .ok raw => Legible w raw
      | .error fault => fault = .timeout
    else body ≠ .error .http

/-- The configuration has texts for models and numbers for sizes wherever they are looked at, its URL does not
make the check of URLs fail with another error than its own, and the exchange is a calm one. -/
structure Benign (call : Call) : Prop where
  tier : ∀ t, call.tier = some t → t ≠ [] → Textual (field call.siteConfig (str "llm_model_" ++ t)) ∧
    Numeral w (field call.siteConfig (str "llm_model_" ++ t ++ str "_num_ctx"))
  fallback : tierModel call.siteConfig call.tier = [] →
    Textual (pyGet call.siteConfig "llm_model") ∧ Numeral w (pyGet call.siteConfig "llm_num_ctx")
  url : w.validate (w.setting call.siteConfig "llm_base_url" "FALLBACK_LLM_BASE_URL" "http://localhost:11434") ≠
    .error .valueError
  exchange : ∀ request model, w.chatRequest call = .ok (request, model) → Calm w (w.exchange request)

end Model

section Containment

variable {α β : Type} {x : Except Raised α} {f : α → Except Raised β} {w : World} {v : Value} {cfg : Dict}
  {tier : Option Str} {request : Request} {model : Str}

theorem contained_ok (a : α) : Contained (.ok a) := fun _ h => by cases h

theorem contained_error {e : Raised} : Contained (.error e : Except Raised α) ↔ ∃ message, e = .ollamaError message := by
  constructor
  · exact fun h => h e rfl
  · rintro ⟨message, rfl⟩ e h
    cases h
    exact ⟨message, rfl⟩

/-- A failure that is no `OllamaError`. -/
theorem not_contained {e : Raised} (h : ∀ message, e ≠ .ollamaError message) : ¬Contained (.error e : Except Raised α) :=
  fun hc => (contained_error.mp hc).elim h

theorem contained_bind : Contained (x >>= f) ↔ Contained x ∧ ∀ a, x = .ok a → Contained (f a) := by
  cases x with
  | ok a =>
    constructor
    · intro h
      refine ⟨contained_ok a, fun b hb => ?_⟩
      obtain rfl := Except.ok.inj hb
      exact h
    · exact fun h => h.2 a rfl
  | error e =>
    constructor
    · exact fun h => ⟨contained_error.mpr (contained_error.mp h), fun a ha => by cases ha⟩
    · exact fun h => contained_error.mpr (contained_error.mp h.1)

/-- With nothing that can be raised behind it a step decides. -/
theorem contained_map {g : α → β} : Contained (x >>= fun a => pure (g a)) ↔ Contained x := by
  rw [contained_bind]
  exact and_iff_left fun a _ => contained_ok (g a)

/-- A step that raises no `OllamaError` of its own. -/
def Plain (x : Except Raised α) : Prop := ∀ message, x ≠ .error (.ollamaError message)

theorem plain_ok (a : α) : Plain (.ok a) := fun _ h => by cases h

theorem plain_bind (hx : Plain x) (hf : ∀ a, Plain (f a)) : Plain (x >>= f) := by
  cases x with
  | ok a => exact hf a
  | error e => exact fun message h => hx message (congrArg _ (Except.error.inj h))

theorem ok_of_contained (hplain : Plain x) (h : Contained x) : ∃ a, x = .ok a := by
  cases x with
  | ok a => exact ⟨a, rfl⟩
  | error e =>
    obtain ⟨message, rfl⟩ := contained_error.mp h
    exact absurd rfl (hplain message)

theorem plain_stripText (v : Value) : Plain (stripText v) := by
  cases v <;> exact fun _ h => by cases h

theorem plain_removePrefix (v : Value) : Plain (removePrefix v) := by
  cases v <;> exact fun _ h => by cases h

theorem plain_orRaise {e : Raised} (he : ∀ message, e ≠ .ollamaError message) (o : Option α) : Plain (orRaise e o) := by
  cases o with
  | some a => exact plain_ok a
  | none => exact fun message h => he message (Except.error.inj h)

theorem plain_int (v : Value) : Plain (w.int v) := by
  cases v with
  | float m e => exact plain_orRaise (fun _ h => by cases h) _
  | str s => exact plain_orRaise (fun _ h => by cases h) _
  | nonFinite x => cases x <;> exact fun _ h => by cases h
  | _ => exact fun _ h => by cases h

theorem contained_stripText : Contained (stripText v) ↔ ∃ s, v = .str s := by
  cases v with
  | str s => exact iff_of_true (contained_ok _) ⟨s, rfl⟩
  | _ =>
    refine iff_of_false (not_contained fun _ h => by cases h) ?_
    rintro ⟨s, h⟩
    cases h

theorem contained_removePrefix : Contained (removePrefix v) ↔ ∃ s, v = .str s := by
  cases v with
  | str s => exact iff_of_true (contained_ok _) ⟨s, rfl⟩
  | _ =>
    refine iff_of_false (not_contained fun _ h => by cases h) ?_
    rintro ⟨s, h⟩
    cases h

theorem pyOr_textual (s : Str) : (∃ t, pyOr v (.str s) = .str t) ↔ Textual v := by
  unfold pyOr Textual
  by_cases hv : v.truthy = true
  · rw [if_pos hv]
    exact ⟨fun h _ => h, fun h => h hv⟩
  · rw [if_neg hv]
    exact iff_of_true ⟨s, rfl⟩ fun h => absurd h hv

theorem contained_orRaise {e : Raised} (he : ∀ message, e ≠ .ollamaError message) {o : Option α} :
    Contained (orRaise e o) ↔ o.isSome := by
  cases o with
  | some a => exact iff_of_true (contained_ok a) rfl
  | none => exact iff_of_false (not_contained he) Bool.false_ne_true

theorem contained_int : Contained (w.int (pyOr v (.int 0))) ↔ Numeral w v := by
  unfold pyOr Numeral
  by_cases hv : v.truthy = true
  · rw [if_pos hv]
    simp only [hv, forall_const]
    cases v with
    | bool b => exact iff_of_true (contained_ok _) trivial
    | int n => exact iff_of_true (contained_ok _) trivial
    | float m e => exact contained_orRaise fun _ h => by cases h
    | str s => exact contained_orRaise fun _ h => by cases h
    | nonFinite x =>
      cases x <;> exact iff_of_false (not_contained fun _ h => by cases h) id
    | _ => exact iff_of_false (not_contained fun _ h => by cases h) id
  · rw [if_neg hv]
    exact iff_of_true (contained_ok _) fun h => absurd h hv

theorem contained_tierConfig : Contained (w.tierConfig cfg tier) ↔
    ∀ t, tier = some t → t ≠ [] → Textual (field cfg (str "llm_model_" ++ t)) ∧
      Numeral w (field cfg (str "llm_model_" ++ t ++ str "_num_ctx")) := by
  cases tier with
  | none => exact iff_of_true (contained_ok _) fun t ht => by cases ht
  | some t =>
    cases t with
    | nil =>
      refine iff_of_true (contained_ok _) fun t ht hne => ?_
      obtain rfl := Option.some_inj.mp ht
      exact absurd rfl hne
    | cons c cs =>
      unfold World.tierConfig
      rw [contained_bind, contained_stripText, pyOr_textual]
      constructor
      · rintro ⟨htext, hnum⟩ t ht -
        obtain rfl := Option.some_inj.mp ht
        obtain ⟨s, hs⟩ := (pyOr_textual []).mpr htext
        exact ⟨htext, contained_int.mp (contained_map.mp (hnum _ (congrArg stripText hs)))⟩
      · intro h
        obtain ⟨htext, hnum⟩ := h _ rfl (List.cons_ne_nil _ _)
        exact ⟨htext, fun _ _ => contained_map.mpr (contained_int.mpr hnum)⟩

theorem stripText_pyOr {model : Str} (h : stripText (pyOr v (.str [])) = .ok model) :
    model = textOf v := by
  unfold pyOr at h
  by_cases hv : v.truthy = true
  · rw [if_pos hv] at h
    cases v with
    | str s => exact (Except.ok.inj h).symm
    | _ => cases h
  · rw [if_neg hv] at h
    obtain rfl := Except.ok.inj h
    cases v with
    | str s =>
      have hs : s = [] := by simpa [Value.truthy] using hv
      rw [hs]
      rfl
    | _ => rfl

theorem tierConfig_model {p : Str × Int} (h : w.tierConfig cfg tier = .ok p) : p.1 = tierModel cfg tier := by
  match tier, h with
  | none, h =>
    obtain rfl := Except.ok.inj h
    rfl
  | some [], h =>
    obtain rfl := Except.ok.inj h
    rfl
  | some (c :: cs), h =>
    obtain ⟨model, hmodel, h⟩ := Lib.Fallible.bind_eq_ok.mp h
    obtain ⟨n, -, h⟩ := Lib.Fallible.bind_eq_ok.mp h
    obtain rfl := Except.ok.inj h
    exact stripText_pyOr hmodel

theorem resolve_eq {r : Value × Value × Int} (h : resolveOllamaConfigForTier w cfg tier = .ok r) :
    r.1 = (if tierModel cfg tier = [] then w.setting cfg "llm_model" "FALLBACK_LLM_MODEL" "ollama/llama3.1"
      else .str (tierModel cfg tier)) ∧
      r.2.1 = w.setting cfg "llm_base_url" "FALLBACK_LLM_BASE_URL" "http://localhost:11434" := by
  obtain ⟨p, hp, h⟩ := Lib.Fallible.bind_eq_ok.mp h
  rw [← tierConfig_model hp]
  dsimp only at h
  split_ifs at h with hmodel
  · obtain ⟨n, -, h⟩ := Lib.Fallible.bind_eq_ok.mp h
    obtain rfl := Except.ok.inj h
    exact ⟨(if_pos hmodel).symm, rfl⟩
  · obtain rfl := Except.ok.inj h
    exact ⟨(if_neg hmodel).symm, rfl⟩

theorem contained_resolve : Contained (resolveOllamaConfigForTier w cfg tier) ↔
    Contained (w.tierConfig cfg tier) ∧
      ∀ p, w.tierConfig cfg tier = .ok p → tierModel cfg tier = [] → Numeral w (pyGet cfg "llm_num_ctx") := by
  unfold resolveOllamaConfigForTier
  rw [contained_bind]
  refine and_congr_right fun _ => forall₂_congr fun p hp => ?_
  rw [← tierConfig_model hp]
  dsimp only
  split_ifs with hmodel
  · rw [contained_map, contained_int]
    exact ⟨fun h _ => h, fun h => h hmodel⟩
  · exact iff_of_true (contained_ok _) fun h => absurd h hmodel

theorem plain_tierConfig : Plain (w.tierConfig cfg tier) := by
  match tier with
  | none => exact plain_ok _
  | some [] => exact plain_ok _
  | some (c :: cs) =>
    exact plain_bind (plain_stripText _) fun _ => plain_bind (plain_int _) fun _ => plain_ok _

theorem plain_resolve : Plain (resolveOllamaConfigForTier w cfg tier) := by
  refine plain_bind plain_tierConfig fun p => ?_
  dsimp only
  split_ifs
  · exact plain_bind (plain_int _) fun _ => plain_ok _
  · exact plain_ok _

theorem contained_approve : Contained (w.approve v) ↔ w.validate v ≠ .error .valueError := by
  unfold World.approve
  cases w.validate v with
  | ok u => exact iff_of_true (contained_ok _) fun h => by cases h
  | error e =>
    cases e with
    | ssrfPolicy message reason => exact iff_of_true (contained_error.mpr ⟨_, rfl⟩) fun h => by cases h
    | valueError => exact iff_of_false (not_contained fun _ h => by cases h) fun h => h rfl

theorem approve_text (h : w.approve v = .ok ()) : ∃ s, v = .str s := by
  cases v with
  | str s => exact ⟨s, rfl⟩
  | _ => cases h

theorem contained_chatRequest {call : Call} : Contained (w.chatRequest call) ↔
    Contained (w.tierConfig call.siteConfig call.tier) ∧
      (tierModel call.siteConfig call.tier = [] →
        Textual (pyGet call.siteConfig "llm_model") ∧ Numeral w (pyGet call.siteConfig "llm_num_ctx")) ∧
      w.validate (w.setting call.siteConfig "llm_base_url" "FALLBACK_LLM_BASE_URL" "http://localhost:11434") ≠
        .error .valueError := by
  have hmodel {r : Value × Value × Int} (hr : resolveOllamaConfigForTier w call.siteConfig call.tier = .ok r) :
      Contained (removePrefix r.1) ↔
        (tierModel call.siteConfig call.tier = [] → Textual (pyGet call.siteConfig "llm_model")) := by
    rw [contained_removePrefix, (resolve_eq hr).1]
    split_ifs with hempty
    · rw [World.setting, pyOr_textual]
      exact ⟨fun h _ => h, fun h => h hempty⟩
    · exact iff_of_true ⟨_, rfl⟩ fun h => absurd h hempty
  have hurl {r : Value × Value × Int} (hr : resolveOllamaConfigForTier w call.siteConfig call.tier = .ok r) (m : Str) :
      Contained (do
        w.approve r.2.1
        let base ← rstripSlash r.2.1
        return ((⟨base ++ str "/api/chat", payload call m (contextSize call r.1 r.2.2), call.timeout⟩, m) : Request × Str)) ↔
      w.validate (w.setting call.siteConfig "llm_base_url" "FALLBACK_LLM_BASE_URL" "http://localhost:11434") ≠
        .error .valueError := by
    rw [contained_bind, contained_approve, (resolve_eq hr).2]
    refine and_iff_left fun u hu => ?_
    obtain ⟨s, hs⟩ := approve_text hu
    rw [contained_map, hs]
    exact contained_ok _
  unfold World.chatRequest
  rw [contained_bind]
  constructor
  · rintro ⟨hresolve, hrest⟩
    obtain ⟨r, hr⟩ := ok_of_contained plain_resolve hresolve
    obtain ⟨htier, hnumeral⟩ := contained_resolve.mp hresolve
    obtain ⟨p, hp⟩ := ok_of_contained plain_tierConfig htier
    obtain ⟨hremove, hrest⟩ := contained_bind.mp (hrest r hr)
    obtain ⟨m, hm⟩ := ok_of_contained (plain_removePrefix _) hremove
    exact ⟨htier, fun hempty => ⟨(hmodel hr).mp hremove hempty, hnumeral p hp hempty⟩, (hurl hr m).mp (hrest m hm)⟩
  · rintro ⟨htier, hfallback, hvalid⟩
    refine ⟨contained_resolve.mpr ⟨htier, fun _ _ hempty => (hfallback hempty).2⟩, fun r hr => ?_⟩
    refine contained_bind.mpr ⟨(hmodel hr).mpr fun hempty => (hfallback hempty).1, fun m _ => (hurl hr m).mpr hvalid⟩

theorem contained_readReply {raw : Bytes} : Contained (w.readReply request model raw) ↔ Legible w raw := by
  unfold World.readReply Legible
  by_cases hdeep : w.deep raw = true
  · rw [if_pos hdeep]
    refine iff_of_false (not_contained fun _ h => by cases h) fun h => ?_
    rw [hdeep] at h
    cases h.1
  · rw [if_neg hdeep]
    rw [Bool.not_eq_true] at hdeep
    cases hloads : w.loaded raw with
    | none => exact iff_of_true (contained_error.mpr ⟨_, rfl⟩) ⟨hdeep, fun _ _ _ _ h => by cases h⟩
    | some v =>
      cases v with
      | dict data strays =>
        cases hmessage : pyGet data "message" with
        | dict message strays' =>
          simp only [hmessage]
          rw [contained_stripText, pyOr_textual]
          constructor
          · intro htext
            refine ⟨hdeep, fun data' _ message' _ hdata hmessage' => ?_⟩
            cases hdata
            rw [hmessage] at hmessage'
            cases hmessage'
            exact htext
          · exact fun h => h.2 _ _ _ _ rfl hmessage
        | _ =>
          simp only [hmessage]
          refine iff_of_true (contained_error.mpr ⟨_, rfl⟩) ⟨hdeep, fun data' _ message' _ hdata hmessage' => ?_⟩
          cases hdata
          rw [hmessage] at hmessage'
          cases hmessage'
      | _ => exact iff_of_true (contained_error.mpr ⟨_, rfl⟩) ⟨hdeep, fun _ _ _ _ h => by cases h⟩

theorem contained_exchange :
    Contained (w.fetch request model >>= w.readReply request model) ↔ Calm w (w.exchange request) := by
  have hfails {e : Raised} (h : w.fetch request model = .error e) :
      Contained (w.fetch request model >>= w.readReply request model) ↔ ∃ message, e = .ollamaError message := by
    rw [h]
    exact contained_error
  have hfaults {fault : Fault} (h : urlopen (w.exchange request) >>= readBody = .error fault.raised) :
      Contained (w.fetch request model >>= w.readReply request model) ↔ fault = .timeout := by
    have hfetch : w.fetch request model = w.wrapped request model fault.raised := by
      unfold World.fetch
      rw [h]
    cases fault with
    | timeout => exact (hfails hfetch).trans (iff_of_true ⟨_, rfl⟩ rfl)
    | os => exact (hfails hfetch).trans (iff_of_false (fun h => by cases h.choose_spec) fun h => by cases h)
    | http => exact (hfails hfetch).trans (iff_of_false (fun h => by cases h.choose_spec) fun h => by cases h)
  cases hexchange : w.exchange request with
  | unformed invalidUrl =>
    have hfetch : w.fetch request model = .error (if invalidUrl then .httpException else .valueError) := by
      unfold World.fetch
      rw [hexchange]
      cases invalidUrl <;> rfl
    rw [hfails hfetch]
    refine iff_of_false ?_ id
    rintro ⟨message, h⟩
    cases invalidUrl <;> cases h
  | unsent reason =>
    have hfetch : w.fetch request model = w.wrapped request model (.urlError reason) := by
      unfold World.fetch
      rw [hexchange]
      rfl
    exact (hfails hfetch).trans (iff_of_true ⟨_, rfl⟩ trivial)
  | unanswered fault =>
    refine hfaults ?_
    rw [hexchange]
    rfl
  | answered status body =>
    unfold Calm
    dsimp only
    split_ifs with hstatus
    · cases body with
      | ok raw =>
        have hfetch : w.fetch request model = .ok raw := by
          unfold World.fetch urlopen
          rw [hexchange]
          simp only [if_pos hstatus]
          rfl
        rw [hfetch]
        exact contained_readReply
      | error fault =>
        refine hfaults ?_
        rw [hexchange, urlopen, if_pos hstatus]
        rfl
    · have hfetch : w.fetch request model = w.wrapped request model (.httpError status body) := by
        unfold World.fetch urlopen
        rw [hexchange]
        simp only [if_neg hstatus]
        rfl
      cases body with
      | ok raw => exact (hfails hfetch).trans (iff_of_true ⟨_, rfl⟩ fun h => by cases h)
      | error fault =>
        cases fault with
        | http => exact (hfails hfetch).trans (iff_of_false (fun h => by cases h.choose_spec) fun h => h rfl)
        | timeout => exact (hfails hfetch).trans (iff_of_true ⟨_, rfl⟩ fun h => by cases h)
        | os => exact (hfails hfetch).trans (iff_of_true ⟨_, rfl⟩ fun h => by cases h)

end Containment

/-- Nothing but an `OllamaError` leaves the client exactly where the configuration is one that it can read and the
exchange a calm one. -/
theorem chat_contained_iff (w : World) (call : Call) : Contained (ollamaChatSync w call) ↔ Benign w call := by
  unfold ollamaChatSync
  rw [contained_bind, contained_chatRequest, contained_tierConfig]
  constructor
  · rintro ⟨⟨htier, hfallback, hurl⟩, hrest⟩
    exact ⟨htier, hfallback, hurl, fun request model h => contained_exchange.mp (hrest _ h)⟩
  · rintro ⟨htier, hfallback, hurl, hexchange⟩
    exact ⟨⟨htier, hfallback, hurl⟩, fun p h => contained_exchange.mpr (hexchange _ _ h)⟩

/-- A server at a public address that breaks the connection off in the body of its reply. -/
def breaking : World where
  platform := bare
  getaddrinfo _ := .found ["93.184.216.34".toList]
  texts := ⟨fun _ => true, fun _ _ => [], fun _ _ => []⟩
  environ _ := none
  intOfStr _ := none
  intOfFloat m _ := some m
  decode bytes := some (bytes.map fun b => Char.ofNat b.toNat)
  decodeReplace bytes := bytes.map UInt8.toNat
  deep _ := false
  overlong _ := false
  exchange _ := .answered 200 (.error .os)

def endpoint : Value := .str (str "https://llm.example.com/v1")

def greeting : Call where
  messages := .list [.dict [(str "role", .str (str "user")), (str "content", .str (str "hello"))] .none]
  siteConfig := [(str "llm_base_url", endpoint)]

theorem breaking_validate : breaking.validate endpoint = .ok () := by
  have hchars : toChars (str "https://llm.example.com/v1") = "https://llm.example.com/v1".toList := by decide
  rw [endpoint, World.validate, hchars]
  refine (validateLlmUrl_ok (p := bare) rfl rfl (List.cons_ne_nil _ _) fun _ _ => rfl).mpr ⟨⟨_, hostOf_bare.2⟩, ?_⟩
  exact fun hfirst => absurd (hfirst _ rfl (.v4 0x5db8d822) rfl) (by decide)

theorem breaking_approve : breaking.approve endpoint = .ok () := by
  rw [World.approve, breaking_validate]

theorem breaking_resolve : resolveOllamaConfigForTier breaking greeting.siteConfig none =
    .ok (.str (str "ollama/llama3.1"), endpoint, 0) := by
  have hne : str "llm_base_url" ≠ str "llm_model" ∧ str "llm_base_url" ≠ str "llm_num_ctx" := by decide
  have hbase : pyGet greeting.siteConfig "llm_base_url" = endpoint := by
    rw [pyGet, greeting, get_cons, if_pos rfl]
    rfl
  have hmodel : pyGet greeting.siteConfig "llm_model" = .null := by
    rw [pyGet, greeting, get_cons, if_neg hne.1]
    rfl
  have hnumCtx : pyGet greeting.siteConfig "llm_num_ctx" = .null := by
    rw [pyGet, greeting, get_cons, if_neg hne.2]
    rfl
  have hnonempty : endpoint.truthy = true := by decide
  unfold resolveOllamaConfigForTier World.setting
  rw [hbase, hmodel, hnumCtx, pyOr, if_pos hnonempty]
  rfl

/-- The reset of a connection in the body of a reply is no `OllamaError`. -/
theorem breaking_escapes : ¬Contained (ollamaChatSync breaking greeting) := by
  intro h
  have hrequest : ∃ p, breaking.chatRequest greeting = .ok p := by
    unfold World.chatRequest
    rw [show greeting.tier = none from rfl, breaking_resolve]
    dsimp only [Bind.bind, Except.bind, removePrefix]
    rw [breaking_approve]
    exact ⟨_, rfl⟩
  obtain ⟨p, hp⟩ := hrequest
  have hcalm := contained_exchange.mp ((contained_bind.mp h).2 p hp)
  cases hcalm

end AlfredProcessing.Llm.Client
