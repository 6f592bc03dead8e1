import AlfredProcessing.Lib.Shadow
import AlfredProcessing.Middleware.RateLimit
import AlfredProcessing.Middleware.TenantKeys
import AlfredProcessing.Pipeline.HandoffQuery
import AlfredProcessing.State.Isolation

namespace AlfredProcessing.Api.Routes

open Lib.Json Lib.Transition Lib.Shadow Extract.Changes State.Isolation Middleware.TenantKeys
open Lib.Cells (Layout)
open Pipeline.HandoffQuery (toChars)
open Middleware.RateLimit (serverDefaultRateLimit)
open State.Store (validId)

section Model

structure Settings where
  apiSecretKey : Str
  jwtSigningKey : Str
  jwtIssuer : Str
  jwtAudience : Str
  maxConcurrentRestTasksPerUser : Int

/-- `TaskCreateRequest`. -/
structure TaskCreateRequest where
  prompt : Str
  userContext : Dict
  siteConfig : Dict

inductive Route where
  | createTask (body : TaskCreateRequest)
  | getTaskStatus (taskId : String)
  | getTaskMessages (taskId sinceId : String)

/-- A request: the credentials of its two headers, and what it asks for. -/
structure Request where
  credentials : Option Str
  jwt : Option Str
  route : Route

/-- What a request meets: whether the service shuts down and has a store, the time at the rate limiter and which of its
calls Redis answers, and the id that is drawn. -/
structure Conditions where
  shuttingDown : Bool
  hasRedis : Bool
  now : ℚ
  chargeAnswered : Bool
  zrangeAnswered : Bool
  zremAnswered : Bool
  taskId : String

/-- What comes back. An exception that is no HTTPException is an internal error. -/
inductive Response where
  | error (status : Nat) (code : String) (message : Str)
  | created (taskId : String)
  | status (taskId : String) (status currentAgent data : Value)
  | messages (events : List (StreamId × EventData Value))
  | internal

/-- What a handler waits for: the store, the sorted set of the rate limiter, or a slot for a task of a user. -/
inductive Operation where
  | store (op : Op Value)
  | charge (claims : Claims) (now : ℚ)
  | zrange (claims : Claims) (now : ℚ)
  | zrem (claims : Claims) (now : ℚ)
  | schedule (siteId : String) (user : Value)
  | release (siteId : String) (user : Value)

inductive Answer where
  | reply (r : Reply Value)
  | currentCount (n : Nat)
  | retryAfter (seconds : Int)
  | scheduled (b : Bool)
  | done

/-- A handler between two awaits: it has answered, or waits for an operation. -/
inductive Handler (O A : Type) where
  | respond (r : Response)
  | call (op : O) (next : A → Handler O A)

def Handler.lift : Handler (Op Value) (Reply Value) → Handler Operation Answer
  | .respond r => .respond r
  | .call op next => .call (.store op) fun
    | .reply r => (next r).lift
    | _ => .respond .internal

/-- `jwt.decode` with a secret, an issuer and an audience, and the text of its error; what values are shown as. -/
structure Platform where
  decode : Str → Str → Option Str → Option Str → Except Str Dict
  texts : Lib.PyRepr.Texts

def Platform.repr (p : Platform) (v : Value) : Str := (Lib.PyRepr.repr p.texts v).map Char.toNat

variable (settings : Settings) (p : Platform)

/-- `verify_api_key`. -/
def verifyApiKey : Option Str → Except Response Unit
  | none => .error (.error 401 "AUTH_MISSING" (str "Missing Authorization header. Expected: Bearer <api_key>"))
  | some apiKey =>
    if apiKey = settings.apiSecretKey then .ok () else .error (.error 401 "AUTH_INVALID" (str "Invalid API key"))

/-- `resolve_jwt_signing_key`. -/
def resolveJwtSigningKey : Str :=
  if settings.jwtSigningKey.isEmpty then settings.apiSecretKey else settings.jwtSigningKey

/-- `value or None`. -/
def configured (value : Str) : Option Str := if value.isEmpty then none else some value

def claimErrorText : ClaimError → Str
  | .missing claims => str "JWT missing required claims: " ++ str (", ".intercalate claims)
  | .emptySiteId => str "JWT site_id claim cannot be empty"

/-- `verify_jwt_token`, with the text of the error it raises. -/
def verifyJwtToken (token : Str) : Except Str Claims :=
  if token.isEmpty then .error (str "JWT token is empty")
  else
    (p.decode token (resolveJwtSigningKey settings) (configured settings.jwtIssuer)
      (configured settings.jwtAudience)).bind fun payload => (verifyClaims payload).mapError claimErrorText

/-- `verify_rest_jwt`. -/
def verifyRestJwt (jwt : Option Str) : Except Response Claims :=
  match jwt.filter fun token => !token.isEmpty with
  | none =>
    .error (.error 401 "JWT_MISSING" (str "Missing X-Alfred-JWT header. REST endpoints require a per-user JWT in addition to the service Bearer token."))
  | some token => (verifyJwtToken settings p token).mapError (.error 401 "JWT_INVALID")

/-- The two dependencies of every route but the health check. -/
def authenticate (request : Request) : Except Response Claims :=
  (verifyApiKey settings request.credentials).bind fun _ => verifyRestJwt settings p request.jwt

/-- The site of a token, where it is a text. No other passes `_validate_id`. -/
def siteText (claims : Claims) : Option String :=
  match claims.siteId with
  | .str s => some (String.ofList (toChars s))
  | _ => none

def redisUnavailable : Response :=
  .error 503 "REDIS_UNAVAILABLE" (str "Service unavailable: Redis not connected")

def siteMismatch (claims : Claims) (body : TaskCreateRequest) : Bool :=
  (pyGet body.siteConfig "site_id").truthy && !pyEq (pyGet body.siteConfig "site_id") claims.siteId

def mismatchText (claims : Claims) (body : TaskCreateRequest) : Str :=
  str "site_id in request body (" ++ p.repr (pyGet body.siteConfig "site_id") ++ str ") does not match the JWT-bound tenant (" ++
    p.repr claims.siteId ++ str "). The request was rejected to prevent cross-tenant data leakage."

def bound (claims : Claims) (body : TaskCreateRequest) : TaskCreateRequest :=
  let userContext := insert (str "user") claims.user body.userContext
  { body with
    siteConfig := insert (str "site_id") claims.siteId body.siteConfig
    userContext := if has userContext "roles" then userContext else insert (str "roles") claims.roles userContext }

def taskState (c : Conditions) (claims : Claims) (body : TaskCreateRequest) : Value :=
  .dict
    [(str "task_id", .str (str c.taskId)), (str "status", .str (str "queued")), (str "prompt", .str body.prompt),
      (str "user", claims.user), (str "site_id", claims.siteId), (str "current_agent", .null),
      (str "site_config", .dict (bound claims body).siteConfig .none),
      (str "user_context", .dict (bound claims body).userContext .none)] .none

def concurrentText : Str :=
  str "You already have the maximum allowed concurrent tasks running (" ++
    str (toString settings.maxConcurrentRestTasksPerUser) ++
    str "). Wait for one to finish before submitting another."

def rateLimitText (retryAfter : Int) : Str :=
  str "Rate limit exceeded. Retry after " ++ str (toString retryAfter) ++ str " seconds."

/-- `check_rate_limit` with the default of the server: what is left to wait where the request is denied. Where Redis does
not answer, the request is let through. -/
def checkRateLimit (c : Conditions) (claims : Claims) (next : Option Int → Handler Operation Answer) :
    Handler Operation Answer :=
  if !c.chargeAnswered then next none
  else
    .call (.charge claims c.now) fun
      | .currentCount n =>
        if n < serverDefaultRateLimit then next none
        else if !c.zrangeAnswered then next (some 60)
        else
          .call (.zrange claims c.now) fun
            | .retryAfter seconds =>
              if !c.zremAnswered then next (some 60) else .call (.zrem claims c.now) fun _ => next (some seconds)
            | _ => .respond .internal
      | _ => .respond .internal

/-- `create_task` from `schedule_rest_task` on, where the user is a part of a key. The row of a task that is not
scheduled is deleted as well as may be. -/
def dispatch (c : Conditions) (siteId : String) (user : Value) : Handler Operation Answer :=
  if !hashable user then .respond .internal
  else
    .call (.schedule siteId user) fun
      | .scheduled true => .respond (.created c.taskId)
      | .scheduled false =>
        .call (.store (.deleteTaskState siteId c.taskId)) fun _ =>
          .respond (.error 429 "CONCURRENT_LIMIT" (concurrentText settings))
      | _ => .respond .internal

/-- `create_task` from the row of the task on. -/
def submit (c : Conditions) (claims : Claims) (body : TaskCreateRequest) : Handler Operation Answer :=
  match siteText claims with
  | none => .respond .internal
  | some siteId =>
    .call (.store (.setTaskState siteId c.taskId (taskState c claims body) none)) fun
      | .reply .done => dispatch settings c siteId claims.user
      | _ => .respond .internal

/-- `create_task` behind its dependencies. -/
def createTask (c : Conditions) (claims : Claims) (body : TaskCreateRequest) : Handler Operation Answer :=
  if c.shuttingDown then
    .respond (.error 503 "SHUTTING_DOWN" (str "Service is shutting down for an update. Retry in a moment."))
  else if !c.hasRedis then .respond redisUnavailable
  else if siteMismatch claims body then .respond (.error 403 "SITE_MISMATCH" (mismatchText p claims body))
  else
    checkRateLimit c claims fun
      | some retryAfter => .respond (.error 429 "RATE_LIMIT" (rateLimitText retryAfter))
      | none => submit settings c claims body

def isText : Value → Bool
  | .str _ => true
  | _ => false

def isNull : Value → Bool
  | .null => true
  | _ => false

/-- `get_task_status` once it has the row. The model of the response takes no other status and agent. -/
def statusOf (taskId : String) (state : Dict) (liveAgent : Option String) : Response :=
  let status := (get (str "status") state).getD (.str (str "unknown"))
  let currentAgent := pyOr (.str (str (liveAgent.getD ""))) (pyGet state "current_agent")
  if isText status && (isText currentAgent || isNull currentAgent) then
    .status taskId status currentAgent (.dict state .none)
  else .internal

/-- An event that the model of the response takes. -/
def shown : EventData Value → Bool
  | .data v => isDict v
  | .raw _ => true

/-- `get_task_status` behind its dependencies. -/
def getTaskStatus (c : Conditions) (claims : Claims) (taskId : String) : Handler (Op Value) (Reply Value) :=
  if !c.hasRedis then .respond redisUnavailable
  else
    match siteText claims with
    | none => .respond .internal
    | some siteId =>
      .call (.getTaskState siteId taskId) fun
        | .state none =>
          .respond (.error 404 "TASK_NOT_FOUND" (str "Task " ++ str taskId ++ str " not found"))
        | .state (some (.dict state _)) =>
          .call (.getCurrentAgent siteId taskId) fun
            | .text liveAgent => .respond (statusOf taskId state liveAgent)
            | _ => .respond .internal
        | _ => .respond .internal

/-- `get_task_messages` behind its dependencies. -/
def getTaskMessages (c : Conditions) (claims : Claims) (taskId sinceId : String) : Handler (Op Value) (Reply Value) :=
  if !c.hasRedis then .respond redisUnavailable
  else
    match siteText claims with
    | none => .respond .internal
    | some siteId =>
      .call (.getEvents siteId taskId sinceId) fun
        | .events events => .respond (if events.all fun e => shown e.2 then .messages events else .internal)
        | _ => .respond .internal

def handle (c : Conditions) (request : Request) : Handler Operation Answer :=
  match authenticate settings p request with
  | .error r => .respond r
  | .ok claims =>
    match request.route with
    | .createTask body => createTask settings p c claims body
    | .getTaskStatus taskId => (getTaskStatus c claims taskId).lift
    | .getTaskMessages taskId sinceId => (getTaskMessages c claims taskId sinceId).lift

/-- The site that a request works for, if it is let in. -/
def tenant (request : Request) : Option String :=
  match authenticate settings p request with
  | .ok claims => siteText claims
  | .error _ => none

/-- The store, the sorted sets of the rate limiter by their keys, and `_concurrent_tasks`: for every site the users with
running tasks, each as often as it has any. -/
structure Service where
  store : String → Option Entry
  quotas : Str → Finset ℚ
  running : String → List Value

/-- The service, and the handlers of the requests that have arrived. -/
structure State where
  service : Service
  handlers : Nat → Option (Handler Operation Answer)

/-- A request arrives, a handler goes on, or anything else of the service works: connections charge for their prompts, and
tasks that end give their slots back. -/
inductive Action where
  | arrive (id : Nat)
  | advance (id : Nat)
  | work (op : Operation)

variable (l : Layout Slot String Entry (Op Value) (Reply Value)) (requests : Nat → Request × Conditions)

def Service.quota (v : Service) (claims : Claims) : Finset ℚ := v.quotas (rateLimitKey p.texts claims)

def Service.setQuota (v : Service) (claims : Claims) (times : Finset ℚ) : Service :=
  { v with quotas := Function.update v.quotas (rateLimitKey p.texts claims) times }

def Service.setRunning (v : Service) (siteId : String) (users : List Value) : Service :=
  { v with running := Function.update v.running siteId users }

/-- The times that the window of the limiter has at a moment. -/
def trimmed (times : Finset ℚ) (now : ℚ) : Finset ℚ := times.filter fun t => now - 3600 < t

def Service.step (v : Service) : Operation → Answer × Service
  | .store op => (.reply (l.step v.store op).1, { v with store := (l.step v.store op).2 })
  | .charge claims now =>
    (.currentCount (trimmed (v.quota p claims) now).card,
      v.setQuota p claims (insert now (trimmed (v.quota p claims) now)))
  | .zrange claims now => (.retryAfter (Middleware.RateLimit.retryAfter (v.quota p claims) now), v)
  | .zrem claims now => (.done, v.setQuota p claims ((v.quota p claims).erase now))
  | .schedule siteId user =>
    let current := ((v.running siteId).countP (pyEq user) : Int)
    if 0 < settings.maxConcurrentRestTasksPerUser ∧ settings.maxConcurrentRestTasksPerUser ≤ current then
      (.scheduled false, v)
    else (.scheduled true, v.setRunning siteId (user :: v.running siteId))
  | .release siteId user => (.done, v.setRunning siteId ((v.running siteId).eraseP (pyEq user)))

def step (s : State) : Action → Option State
  | .arrive id =>
    if (s.handlers id).isSome then none
    else
      some
        { s with handlers := Function.update s.handlers id (some (handle settings p (requests id).2 (requests id).1)) }
  | .advance id =>
    match s.handlers id with
    | some (.call op next) =>
      some
        { service := (s.service.step settings p l op).2
          handlers := Function.update s.handlers id (some (next (s.service.step settings p l op).1)) }
    | _ => none
  | .work op => some { s with service := (s.service.step settings p l op).2 }

def init : State := ⟨⟨fun _ => none, fun _ => ∅, fun _ => []⟩, fun _ => none⟩

def Operation.site : Operation → Option String
  | .store op => some op.slot.siteId
  | .charge claims _ => siteText claims
  | .zrange claims _ => siteText claims
  | .zrem claims _ => siteText claims
  | .schedule siteId _ => some siteId
  | .release siteId _ => some siteId

/-- The site of a token is a text without a colon, as all are that `_validate_id` takes. -/
def Colonless (claims : Claims) : Prop := ∃ site, claims.siteId = .str site ∧ 58 ∉ site

/-- The keys of the limiter are made for sites without a colon. -/
def Operation.Colonless : Operation → Prop
  | .charge claims _ => Routes.Colonless claims
  | .zrange claims _ => Routes.Colonless claims
  | .zrem claims _ => Routes.Colonless claims
  | _ => True

def Action.Colonless : Action → Prop
  | .work op => op.Colonless
  | _ => True

def foreign (site : String) : Action → Bool
  | .arrive id => tenant settings p (requests id).1 ≠ some site
  | .advance id => tenant settings p (requests id).1 ≠ some site
  | .work op => op.site ≠ some site

/-- What the service holds for a site: its rows, what its users are charged with, and their running tasks. -/
structure SameService (site : String) (v w : Service) : Prop where
  stored : ∀ slot : Slot, slot.siteId = site → ∀ k, slot.key = some k → v.store k = w.store k
  charged : ∀ claims, siteText claims = some site → Colonless claims → v.quota p claims = w.quota p claims
  running : v.running site = w.running site

/-- All that a site can see: how its requests are getting on and what they were answered, and what is held for it. -/
structure SameFor (site : String) (s t : State) : Prop where
  handlers : ∀ id, tenant settings p (requests id).1 = some site → s.handlers id = t.handlers id
  service : SameService p site s.service t.service

end Model

section Confinement

variable {settings : Settings} {p : Platform} {c : Conditions} {claims : Claims} {site : Option String}
  {O A : Type} {P : O → Prop}

/-- All operations that a handler may come to are of a kind. -/
def Calls (P : O → Prop) : Handler O A → Prop
  | .respond _ => True
  | .call op next => P op ∧ ∀ r, Calls P (next r)

theorem calls_ite {b : Prop} [Decidable b] {h h' : Handler O A} (hh : Calls P h) (hh' : Calls P h') :
    Calls P (if b then h else h') := by
  split_ifs
  · exact hh
  · exact hh'

theorem calls_lift {P : Operation → Prop} {h : Handler (Op Value) (Reply Value)} (hh : Calls (fun op => P (.store op)) h) :
    Calls P h.lift := by
  induction h with
  | respond r => trivial
  | call op next ih =>
    unfold Handler.lift Calls
    refine ⟨hh.1, fun r => ?_⟩
    cases r with
    | reply r => exact ih r (hh.2 r)
    | _ => trivial

/-- An operation on a site, with keys that are made for sites without a colon. -/
def Own (site : Option String) (op : Operation) : Prop := op.site = site ∧ op.Colonless

theorem own_dispatch (siteId : String) (user : Value) : Calls (Own (some siteId)) (dispatch settings c siteId user) := by
  unfold dispatch
  refine calls_ite trivial ⟨⟨rfl, trivial⟩, fun r => ?_⟩
  cases r with
  | scheduled b =>
    cases b with
    | true => trivial
    | false => exact ⟨⟨rfl, trivial⟩, fun _ => trivial⟩
  | _ => trivial

theorem own_submit (body : TaskCreateRequest) : Calls (Own (siteText claims)) (submit settings c claims body) := by
  unfold submit
  cases siteText claims with
  | none => trivial
  | some siteId =>
    refine ⟨⟨rfl, trivial⟩, fun r => ?_⟩
    cases r with
    | reply r =>
      cases r with
      | done => exact own_dispatch siteId claims.user
      | _ => trivial
    | _ => trivial

theorem own_checkRateLimit (hclaims : Colonless claims) {next : Option Int → Handler Operation Answer}
    (hnext : ∀ r, Calls (Own (siteText claims)) (next r)) :
    Calls (Own (siteText claims)) (checkRateLimit c claims next) := by
  unfold checkRateLimit
  refine calls_ite (hnext _) ⟨⟨rfl, hclaims⟩, fun r => ?_⟩
  cases r with
  | currentCount n =>
    refine calls_ite (hnext _) (calls_ite (hnext _) ⟨⟨rfl, hclaims⟩, fun r => ?_⟩)
    cases r with
    | retryAfter seconds => exact calls_ite (hnext _) ⟨⟨rfl, hclaims⟩, fun _ => hnext _⟩
    | _ => trivial
  | _ => trivial

theorem own_createTask (hclaims : Colonless claims) (body : TaskCreateRequest) :
    Calls (Own (siteText claims)) (createTask settings p c claims body) := by
  unfold createTask
  refine calls_ite trivial (calls_ite trivial (calls_ite trivial (own_checkRateLimit hclaims fun r => ?_)))
  cases r with
  | none => exact own_submit body
  | some retryAfter => trivial

theorem own_getTaskStatus (taskId : String) : Calls (Own (siteText claims)) (getTaskStatus c claims taskId).lift := by
  apply calls_lift
  unfold getTaskStatus
  refine calls_ite trivial ?_
  cases siteText claims with
  | none => trivial
  | some siteId =>
    refine ⟨⟨rfl, trivial⟩, fun r => ?_⟩
    cases r with
    | state v =>
      cases v with
      | none => trivial
      | some v =>
        cases v with
        | dict state strays =>
          refine ⟨⟨rfl, trivial⟩, fun r => ?_⟩
          cases r <;> trivial
        | _ => trivial
    | _ => trivial

theorem own_getTaskMessages (taskId sinceId : String) :
    Calls (Own (siteText claims)) (getTaskMessages c claims taskId sinceId).lift := by
  apply calls_lift
  unfold getTaskMessages
  refine calls_ite trivial ?_
  cases siteText claims with
  | none => trivial
  | some siteId =>
    refine ⟨⟨rfl, trivial⟩, fun r => ?_⟩
    cases r <;> trivial

theorem own_handle (c : Conditions) {request : Request}
    (hsite : ∀ claims, authenticate settings p request = .ok claims → Colonless claims) :
    Calls (Own (tenant settings p request)) (handle settings p c request) := by
  unfold tenant handle
  cases hclaims : authenticate settings p request with
  | error r => trivial
  | ok claims =>
    dsimp only
    cases request.route with
    | createTask body => exact own_createTask (hsite claims hclaims) body
    | getTaskStatus taskId => exact own_getTaskStatus taskId
    | getTaskMessages taskId sinceId => exact own_getTaskMessages taskId sinceId

end Confinement

section Keys

variable {p : Platform} {t t' : Claims}

theorem siteId_of_rateLimitKey (ht : Colonless t) (ht' : Colonless t')
    (h : rateLimitKey p.texts t = rateLimitKey p.texts t') : t.siteId = t'.siteId := by
  obtain ⟨site, hsite, hcolon⟩ := ht
  obtain ⟨site', hsite', hcolon'⟩ := ht'
  have hcases := rateLimitKey_eq_iff.mp h
  rw [hsite, hsite'] at hcases ⊢
  obtain ⟨hsame, -⟩ | hshifted | hshifted := hcases
  · rw [show site = site' from hsame]
  · exact absurd hshifted (not_shifted_of_colon hcolon')
  · exact absurd hshifted (not_shifted_of_colon hcolon)

theorem key_split {slot : Slot} {k : String} (hk : slot.key = some k) : validId slot.siteId ∧
    ∃ kind ∈ ["task", "events", "cache"], ∃ rest, k = "alfred" ++ ":" ++ slot.siteId ++ ":" ++ kind ++ ":" ++ rest := by
  obtain ⟨-, hsite, rfl⟩ := Slot.key_eq_some.mp hk
  refine ⟨hsite, ?_⟩
  obtain ⟨siteId, kind, id⟩ := slot
  cases kind with
  | task => exact ⟨"task", by decide, id, rfl⟩
  | agent =>
    refine ⟨"task", by decide, id ++ ":" ++ "current_agent", ?_⟩
    rw [← String.append_assoc, ← String.append_assoc]
    rfl
  | events => exact ⟨"events", by decide, id, rfl⟩
  | cache => exact ⟨"cache", by decide, id, rfl⟩

theorem rateLimitKey_ne_key (ht : Colonless t) {slot : Slot} {k : String} (hk : slot.key = some k) :
    rateLimitKey p.texts t ≠ str k := by
  intro h
  obtain ⟨hvalid, kind, hkind, rest, rfl⟩ := key_split hk
  obtain ⟨site, hsite, hcolon⟩ := ht
  have hcolon' : 58 ∉ str slot.siteId := by
    intro hmem
    obtain ⟨c, hc, hcode⟩ := List.mem_map.mp hmem
    obtain rfl : c = ':' := Char.toNat_inj.mp hcode
    exact State.Store.colon_notMem hvalid hc
  -- behind the colon that ends the site
  have hbehind {site rest : Str} (hsite : 58 ∉ site) : (site ++ 58 :: rest).dropWhile (· ≠ 58) = 58 :: rest := by
    rw [List.dropWhile_append_of_pos]
    · rfl
    · intro c hc
      refine decide_eq_true ?_
      rintro rfl
      exact hsite hc
  have hkeys : str "alfred:" ++ (site ++ 58 :: (str "ratelimit:" ++ pyStr p.texts t.user)) =
      str "alfred:" ++ (str slot.siteId ++ 58 :: (str kind ++ 58 :: str rest)) := by
    have hlimit : rateLimitKey p.texts t = str "alfred:" ++ (site ++ 58 :: (str "ratelimit:" ++ pyStr p.texts t.user)) := by
      rw [rateLimitKey, hsite, List.append_assoc, List.append_assoc]
      rfl
    rw [← hlimit, h]
    simp only [str, String.toList_append, List.map_append, List.append_assoc]
    rfl
  have hrests := congrArg (List.dropWhile (· ≠ 58)) (List.append_cancel_left hkeys)
  rw [hbehind hcolon, hbehind hcolon'] at hrests
  have hheads := congrArg (fun cs => (cs.drop 1).take 1) hrests
  have hne : ∀ kind ∈ ["task", "events", "cache"], (str kind).take 1 ≠ str "r" ∧ 1 ≤ (str kind).length := by decide
  obtain ⟨hfirst, hlength⟩ := hne kind hkind
  refine hfirst ?_
  have htake : (str kind ++ 58 :: str rest).take 1 = (str kind).take 1 := List.take_append_of_le_length hlength
  exact htake.symm.trans hheads.symm

end Keys

section Isolation

variable {settings : Settings} {p : Platform} {codec : Codec Value} {ttl : Int} {parseId : String → Option StreamId}
  {requests : Nat → Request × Conditions} {site : String} {s s' t : State} {op : Operation} {v w : Service}

theorem store_of_other {op : Op Value} {slot : Slot} {k : String} (hk : slot.key = some k)
    (hsite : op.slot.siteId ≠ slot.siteId) (m : String → Option Entry) :
    ((layout codec ttl parseId).step m op).2 k = m k := by
  rw [Layout.step_key (l := layout codec ttl parseId) hk, Layout.write_of_other]
  intro hslot
  have hsame : op.slot = slot := hslot
  exact hsite (congrArg Slot.siteId hsame)

theorem store_same (codec : Codec Value) (ttl : Int) (parseId : String → Option StreamId) {op : Op Value}
    {m m' : String → Option Entry} (hsame : ∀ k, op.slot.key = some k → m k = m' k) :
    ((layout codec ttl parseId).step m op).1 = ((layout codec ttl parseId).step m' op).1 ∧
      ∀ (slot : Slot) k, slot.key = some k → m k = m' k →
        ((layout codec ttl parseId).step m op).2 k = ((layout codec ttl parseId).step m' op).2 k := by
  constructor
  · unfold Layout.step
    cases htarget : (layout codec ttl parseId).target op with
    | none => rfl
    | some k =>
      have hk : op.slot.key = some k := (layout codec ttl parseId).target_key htarget
      dsimp only
      rw [hsame k hk]
  · intro slot k hk hmk
    rw [Layout.step_key (l := layout codec ttl parseId) hk, Layout.step_key (l := layout codec ttl parseId) hk, hmk]

theorem quota_setQuota (v : Service) (claims claims' : Claims) (times : Finset ℚ) :
    (v.setQuota p claims times).quota p claims' =
      if rateLimitKey p.texts claims' = rateLimitKey p.texts claims then times else v.quota p claims' := by
  unfold Service.quota Service.setQuota
  exact Function.update_apply _ _ _ _

theorem running_setRunning (v : Service) (siteId siteId' : String) (users : List Value) :
    (v.setRunning siteId users).running siteId' = if siteId' = siteId then users else v.running siteId' := by
  unfold Service.setRunning
  exact Function.update_apply _ _ _ _

theorem quota_of_other {claims claims' : Claims} (hclaims : Colonless claims) (hclaims' : Colonless claims')
    (hsite : siteText claims ≠ siteText claims') (v : Service) (times : Finset ℚ) :
    (v.setQuota p claims times).quota p claims' = v.quota p claims' := by
  rw [quota_setQuota, if_neg]
  intro hkey
  refine hsite ?_
  unfold siteText
  rw [siteId_of_rateLimitKey hclaims hclaims' hkey.symm]

theorem SameService.hidden (h : SameService p site v w) (hsite : op.site ≠ some site) (hop : op.Colonless) :
    SameService p site (v.step settings p (layout codec ttl parseId) op).2 w := by
  have hquota {claims : Claims} (hown : siteText claims ≠ some site) (hclaims : Colonless claims) (times : Finset ℚ) :
      SameService p site (v.setQuota p claims times) w := by
    refine ⟨h.stored, fun claims' hsite' hclaims' => ?_, h.running⟩
    rw [quota_of_other hclaims hclaims' (hsite'.symm ▸ hown) v times]
    exact h.charged claims' hsite' hclaims'
  have hrunning {siteId : String} (hown : some siteId ≠ some site) (users : List Value) :
      SameService p site (v.setRunning siteId users) w := by
    refine ⟨h.stored, h.charged, ?_⟩
    rw [running_setRunning, if_neg fun he => hown (congrArg some he.symm)]
    exact h.running
  cases op with
  | store op =>
    refine ⟨fun slot hslot k hk => ?_, h.charged, h.running⟩
    exact (store_of_other hk (fun he => hsite (congrArg some (he.trans hslot))) v.store).trans (h.stored slot hslot k hk)
  | charge claims now => exact hquota hsite hop _
  | zrange claims now => exact h
  | zrem claims now => exact hquota hsite hop _
  | schedule siteId user =>
    unfold Service.step
    dsimp only
    split_ifs
    · exact h
    · exact hrunning hsite _
  | release siteId user => exact hrunning hsite _

theorem SameService.visible (h : SameService p site v w) (hsite : op.site = some site) (hop : op.Colonless) :
    (v.step settings p (layout codec ttl parseId) op).1 = (w.step settings p (layout codec ttl parseId) op).1 ∧
      SameService p site (v.step settings p (layout codec ttl parseId) op).2
        (w.step settings p (layout codec ttl parseId) op).2 := by
  have hquota {claims : Claims} (times : Finset ℚ) :
      SameService p site (v.setQuota p claims times) (w.setQuota p claims times) := by
    refine ⟨h.stored, fun claims' hsite' hclaims' => ?_, h.running⟩
    rw [quota_setQuota, quota_setQuota, h.charged claims' hsite' hclaims']
  have hrunning (siteId : String) (users : List Value) :
      SameService p site (v.setRunning siteId users) (w.setRunning siteId users) := by
    refine ⟨h.stored, h.charged, ?_⟩
    rw [running_setRunning, running_setRunning, h.running]
  cases op with
  | store op =>
    have hslot : op.slot.siteId = site := Option.some.inj hsite
    obtain ⟨hreply, hstore⟩ := store_same codec ttl parseId (h.stored op.slot hslot)
    exact ⟨congrArg Answer.reply hreply,
      fun slot hslot k hk => hstore slot k hk (h.stored slot hslot k hk), h.charged, h.running⟩
  | charge claims now =>
    have hsame := h.charged claims hsite hop
    unfold Service.step
    dsimp only
    rw [hsame]
    exact ⟨rfl, hquota _⟩
  | zrange claims now =>
    have hsame := h.charged claims hsite hop
    unfold Service.step
    dsimp only
    rw [hsame]
    exact ⟨rfl, h⟩
  | zrem claims now =>
    have hsame := h.charged claims hsite hop
    unfold Service.step
    dsimp only
    rw [hsame]
    exact ⟨rfl, hquota _⟩
  | schedule siteId user =>
    obtain rfl : siteId = site := Option.some.inj hsite
    unfold Service.step
    dsimp only
    rw [h.running]
    split_ifs
    · exact ⟨rfl, h⟩
    · exact ⟨rfl, hrunning _ _⟩
  | release siteId user =>
    obtain rfl : siteId = site := Option.some.inj hsite
    unfold Service.step
    dsimp only
    rw [h.running]
    exact ⟨rfl, hrunning _ _⟩

/-- Beside the same view, every handler keeps to the site of its request. -/
structure Apart (settings : Settings) (p : Platform) (requests : Nat → Request × Conditions) (site : String)
    (s t : State) : Prop where
  same : SameFor settings p requests site s t
  own : ∀ id h, s.handlers id = some h → Calls (Own (tenant settings p (requests id).1)) h

theorem own_update (h : Apart settings p requests site s t) {id : Nat} {handler : Handler Operation Answer}
    (hhandler : Calls (Own (tenant settings p (requests id).1)) handler) :
    ∀ i h, Function.update s.handlers id (some handler) i = some h →
      Calls (Own (tenant settings p (requests i).1)) h := by
  intro i h' hi
  by_cases heq : i = id
  · subst heq
    rw [Function.update_self] at hi
    obtain rfl := Option.some.inj hi
    exact hhandler
  · rw [Function.update_of_ne heq] at hi
    exact h.own i h' hi

theorem update_congr {f g : Nat → Option (Handler Operation Answer)} {i id : Nat} (v : Option (Handler Operation Answer))
    (h : f i = g i) : Function.update f id v i = Function.update g id v i := by
  by_cases hi : i = id
  · rw [hi, Function.update_self, Function.update_self]
  · rw [Function.update_of_ne hi, Function.update_of_ne hi, h]

/-- The tokens of the requests are for sites without a colon. -/
def Plain (settings : Settings) (p : Platform) (requests : Nat → Request × Conditions) : Prop :=
  ∀ id claims, authenticate settings p (requests id).1 = .ok claims → Colonless claims

theorem Apart.hidden (hplain : Plain settings p requests) (h : Apart settings p requests site s t) {a : Action}
    (hcolonless : a.Colonless) (ha : foreign settings p requests site a = true)
    (hs : step settings p (layout codec ttl parseId) requests s a = some s') : Apart settings p requests site s' t := by
  cases a with
  | arrive id =>
    have hother : tenant settings p (requests id).1 ≠ some site := of_decide_eq_true ha
    simp only [step] at hs
    split_ifs at hs
    obtain rfl := Option.some.inj hs
    refine ⟨⟨fun i hi => ?_, h.same.service⟩, own_update h (own_handle _ (hplain id))⟩
    have hne : i ≠ id := by
      rintro rfl
      exact hother hi
    exact (Function.update_of_ne hne _ _).trans (h.same.handlers i hi)
  | advance id =>
    have hother : tenant settings p (requests id).1 ≠ some site := of_decide_eq_true ha
    simp only [step] at hs
    split at hs
    · next op next hid =>
      obtain rfl := Option.some.inj hs
      obtain ⟨⟨hsite, hop⟩, hnext⟩ := h.own id _ hid
      refine ⟨⟨fun i hi => ?_, h.same.service.hidden (hsite ▸ hother) hop⟩, own_update h (hnext _)⟩
      have hne : i ≠ id := by
        rintro rfl
        exact hother hi
      exact (Function.update_of_ne hne _ _).trans (h.same.handlers i hi)
    · cases hs
  | work op =>
    have hother : op.site ≠ some site := of_decide_eq_true ha
    obtain rfl := Option.some.inj hs
    exact ⟨⟨h.same.handlers, h.same.service.hidden hother hcolonless⟩, h.own⟩

theorem Apart.visible (hplain : Plain settings p requests) (h : Apart settings p requests site s t) {a : Action}
    (hcolonless : a.Colonless) (ha : foreign settings p requests site a = false)
    (hs : step settings p (layout codec ttl parseId) requests s a = some s') :
    ∃ t', step settings p (layout codec ttl parseId) requests t a = some t' ∧ Apart settings p requests site s' t' := by
  cases a with
  | arrive id =>
    have hown : tenant settings p (requests id).1 = some site := not_not.mp (of_decide_eq_false ha)
    simp only [step] at hs ⊢
    split_ifs at hs with hthere
    obtain rfl := Option.some.inj hs
    rw [h.same.handlers id hown] at hthere
    refine ⟨_, if_neg hthere, ⟨fun i hi => ?_, h.same.service⟩, own_update h (own_handle _ (hplain id))⟩
    exact update_congr _ (h.same.handlers i hi)
  | advance id =>
    have hown : tenant settings p (requests id).1 = some site := not_not.mp (of_decide_eq_false ha)
    simp only [step] at hs ⊢
    split at hs
    · next op next hid =>
      obtain rfl := Option.some.inj hs
      obtain ⟨⟨hsite, hop⟩, hnext⟩ := h.own id _ hid
      have hvisible : (s.service.step settings p (layout codec ttl parseId) op).1 =
          (t.service.step settings p (layout codec ttl parseId) op).1 ∧
          SameService p site (s.service.step settings p (layout codec ttl parseId) op).2
            (t.service.step settings p (layout codec ttl parseId) op).2 :=
        h.same.service.visible (hsite.trans hown) hop
      obtain ⟨hanswer, hservice⟩ := hvisible
      have hid' : t.handlers id = some (.call op next) := (h.same.handlers id hown).symm.trans hid
      refine ⟨{ service := (t.service.step settings p (layout codec ttl parseId) op).2
                handlers := Function.update t.handlers id
                  (some (next (t.service.step settings p (layout codec ttl parseId) op).1)) },
        ?_, ⟨fun i hi => ?_, hservice⟩, own_update h (hnext _)⟩
      · rw [hid']
      · rw [← hanswer]
        exact update_congr _ (h.same.handlers i hi)
    · cases hs
  | work op =>
    have hsite : op.site = some site := not_not.mp (of_decide_eq_false ha)
    obtain rfl := Option.some.inj hs
    exact ⟨_, rfl, ⟨h.same.handlers, (h.same.service.visible hsite hcolonless).2⟩, h.own⟩

theorem apart_init : Apart settings p requests site init init :=
  ⟨⟨fun _ _ => rfl, fun _ _ _ _ => rfl, fun _ _ _ => rfl, rfl⟩, fun _ _ hid => nomatch hid⟩

end Isolation

/-- However requests, handlers and the rest of the service follow each other, where the sites have no colon: for every
site, each of its requests gets on and is answered as if no other site, and nobody who is turned away, had ever been
there, and so is all that is held for it. -/
theorem tenants_unaffected (settings : Settings) (p : Platform) (codec : Codec Value) (ttl : Int)
    (parseId : String → Option StreamId) (requests : Nat → Request × Conditions) (hplain : Plain settings p requests)
    (site : String) (as : List Action) (has : ∀ a ∈ as, a.Colonless) :
    Unaffected (step settings p (layout codec ttl parseId) requests) (foreign settings p requests site)
      (SameFor settings p requests site) init as := by
  refine unaffected_of_meets (J := Apart settings p requests site) (C := fun _ a => a.Colonless) (fun _ _ h => h.same)
    (fun _ _ _ _ h hc ha hs => h.hidden hplain hc ha hs) (fun _ _ _ _ h hc ha hs => h.visible hplain hc ha hs)
    apart_init ?_
  exact meets_of_forall has

section Sites

def finished (b : Bool) : Dict := [(str "done", .bool b)]

def finishedText (b : Bool) : String := if b then "\x7b\"done\": true\x7d" else "\x7b\"done\": false\x7d"

def finishedCodec : Codec Value where
  dumps
    | .dict [(k, .bool b)] .none => if k = str "done" then some (finishedText b) else none
    | _ => none
  loads text :=
    if text = finishedText true then some (.dict (finished true) .none)
    else if text = finishedText false then some (.dict (finished false) .none)
    else none
  loads_dumps := by
    intro v text h
    split at h
    · next k b =>
      rw [Option.ite_none_right_eq_some] at h
      obtain ⟨rfl, h⟩ := h
      obtain rfl := Option.some.inj h
      cases b <;> rfl
    · cases h

def serviceSettings : Settings := ⟨str "secret", [], [], [], 5⟩

def payloadOf (siteId : String) : Dict :=
  [(str "user", .str (str "ann")), (str "roles", .list []), (str "site_id", .str (str siteId)), (str "exp", .int 0)]

def servicePlatform : Platform where
  decode token _ _ _ :=
    if token = str "token.one" then .ok (payloadOf "one.example.com")
    else if token = str "token.two" then .ok (payloadOf "two.example.com")
    else .error (str "Invalid JWT token: Not enough segments")
  texts := stringTexts

def smooth (taskId : String) : Conditions := ⟨false, true, 0, true, true, true, taskId⟩

def post (token : String) : Request := ⟨some (str "secret"), some (str token), .createTask ⟨str "Add a field", [], []⟩⟩

def twoSites : Nat → Request × Conditions
  | 0 => (post "token.one", smooth "t-1")
  | 1 => (post "token.two", smooth "t-2")
  | _ => (⟨none, none, .getTaskStatus "t-1"⟩, smooth "t-3")

theorem plain_twoSites : Plain serviceSettings servicePlatform twoSites := by
  intro id claims h
  obtain _ | _ | id := id
  · have hone : authenticate serviceSettings servicePlatform (post "token.one") =
        .ok (tokenFor "one.example.com" "ann" rfl) := rfl
    obtain rfl := Except.ok.inj (hone.symm.trans h)
    exact ⟨str "one.example.com", rfl, by decide⟩
  · have htwo : authenticate serviceSettings servicePlatform (post "token.two") =
        .ok (tokenFor "two.example.com" "ann" rfl) := rfl
    obtain rfl := Except.ok.inj (htwo.symm.trans h)
    exact ⟨str "two.example.com", rfl, by decide⟩
  · cases h

/-- A request of one site beside one of another, which also charges for a prompt. -/
theorem twoSites_unaffected : Unaffected (step serviceSettings servicePlatform (layout finishedCodec 604800 fun _ => none) twoSites)
    (foreign serviceSettings servicePlatform twoSites "one.example.com")
    (SameFor serviceSettings servicePlatform twoSites "one.example.com") init
    [.arrive 1, .arrive 0, .advance 1, .work (.charge (tokenFor "two.example.com" "ann" rfl) 1), .advance 0] := by
  refine tenants_unaffected serviceSettings servicePlatform finishedCodec 604800 _ twoSites plain_twoSites
    "one.example.com" _ ?_
  simp only [List.forall_mem_cons]
  exact ⟨trivial, trivial, trivial, ⟨str "two.example.com", rfl, by decide⟩, trivial, List.forall_mem_nil _⟩

end Sites

end AlfredProcessing.Api.Routes
