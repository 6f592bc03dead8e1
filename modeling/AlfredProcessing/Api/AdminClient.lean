import AlfredProcessing.Pipeline.Frames
import AlfredProcessing.Pipeline.HandoffQuery

namespace AlfredProcessing.Api.AdminClient

open Lib.Json Lib.Effects Extract.Changes Pipeline.Context Pipeline.Frames Pipeline.HandoffQuery
  Pipeline.Phases

section Client

/-- What a call raises, as far as the handlers tell it apart. The exceptions of the Redis
client are neither of the first two. -/
inductive Raised where
  | httpError
  | osError
  | other
  deriving DecidableEq

/-- What the commands of the shared Redis client answer or raise. -/
structure Redis where
  get : Str → Except Raised (Option (List Char))
  setex : Str → Nat → Str → Except Raised Unit

/-- `AdminClient`, with what a request to the portal answers: the JSON of the response to
a body, or what `post`, `raise_for_status` and `json` raise. -/
structure Client where
  adminUrl : Str
  post : Str → Dict → Except Raised Value
  redis : Option Redis

def planCacheKey (siteId : Str) : Str := str "alfred:" ++ siteId ++ str ":plan_cache"

/-- `PLAN_CACHE_TTL`. -/
def planCacheTtl : Nat := 3600

def checkPlanUrl (adminUrl : Str) : Str :=
  adminUrl.rdropWhile (· = 47) ++ str "/api/method/alfred_admin.api.usage.check_plan"

def offline : Value :=
  .dict
    [(str "allowed", .bool true), (str "tier", .str (str "offline")),
      (str "reason", .str (str "Admin Portal unreachable - allowing by default"))] .none

/-- `dumps` is `json.dumps`; `gaveUp` are the texts on which `json.loads` runs into a limit
of the interpreter, on nesting or on digits, which is no decoding error. -/
structure Codec where
  dumps : Value → Str
  gaveUp : List Char → Bool

variable (codec : Codec) (client : Client) (siteId : Str)

def cached : Except Raised (Option Value) :=
  match client.redis with
  | none => .ok none
  | some redis =>
    match redis.get (planCacheKey siteId) with
    | .error e => .error e
    | .ok none => .ok none
    | .ok (some text) =>
      if text.isEmpty then .ok none
      else if codec.gaveUp text then .error .other
      else .ok (loads text)

/-- `.get("message", {})`. -/
def message : Value → Except Raised Value
  | .dict body _ => .ok ((get (str "message") body).getD (.dict [] .none))
  | _ => .error .other

def ask : Except Raised Value :=
  match client.post (checkPlanUrl client.adminUrl) [(str "site_id", .str siteId)] with
  | .error e => .error e
  | .ok body =>
    match message body with
    | .error e => .error e
    | .ok result =>
      match client.redis with
      | none => .ok result
      | some redis =>
        match redis.setex (planCacheKey siteId) planCacheTtl (codec.dumps result) with
        | .error e => .error e
        | .ok _ => .ok result

/-- `check_plan`. -/
def checkPlan : Except Raised Value :=
  match cached codec client siteId with
  | .error e => .error e
  | .ok (some entry) => .ok entry
  | .ok none =>
    match ask codec client siteId with
    | .error .httpError => .ok offline
    | .error .osError => .ok offline
    | r => r

end Client

section Phase

def asciiLower (s : Str) : Str := s.map fun n => if 65 ≤ n ∧ n ≤ 90 then n + 32 else n

/-- `raw_mode`, where it is one of the two. No letter beyond ASCII is lowered into them, and
what is no string has no `lower`. -/
def pipelineMode (v : Value) : Option PipelineMode :=
  match v with
  | .str s =>
    if asciiLower s = str "full" then some .full
    else if asciiLower s = str "lite" then some .lite
    else none
  | _ => none

/-- `result.get("allowed", True)`, as a condition. -/
def allowed (result : Dict) : Bool := ((get (str "allowed") result).getD (.bool true)).truthy

/-- What the phase reads of an answer. `shown` is the reason as it is put into the stop. -/
def planResult (shown : Value → String) : Value → Option PlanResult
  | .dict result _ =>
    some
      { allowed := allowed result
        reason := (get (str "reason") result).map shown
        warning := (pyGet result "warning").truthy
        pipelineMode := pipelineMode (pyGet result "pipeline_mode") }
  | _ => none

structure Settings where
  adminPortalUrl : Str
  adminServiceKey : Str

def Settings.configured (settings : Settings) : Bool :=
  !settings.adminPortalUrl.isEmpty && !settings.adminServiceKey.isEmpty

/-- The run where the call of the plan check is the client's. -/
def asking (env : Env) (settings : Settings) (codec : Codec) (client : Client) (siteId : Str)
    (shown : Value → String) : Env :=
  let answer := (checkPlan codec client siteId).toOption.bind (planResult shown)
  { env with
    planConfigured := settings.configured
    planResult := answer.getD env.planResult
    raised := fun p =>
      if p = .checkPlan then if answer.isSome then none else some (.other "") else env.raised p }

end Phase

section Denials

def exceeds : Event → Bool
  | .stopped s => s.code = .planExceeded
  | _ => false

def denials (w : World) : List Event := w.log.filter exceeds

/-- Between the states a run was stopped for its plan, and that stop stands. -/
def Exceeded (w w' : World) : Prop :=
  ∃ error, w'.ctx.shouldStop = true ∧
    w'.ctx.stopSignal = some { error := error, code := .planExceeded } ∧
    denials w' = denials w ++ [.stopped { error := error, code := .planExceeded }]

variable {env : Env} {w w' : World}

instance : Stable denials where
  sent w m _ := by simp [denials, List.filter_append, exceeds]
  cancelled w := by simp [denials, List.filter_append, exceeds, cancelSignal]

theorem same_of_fixes {α : Type} {x : Run α} (hx : Fixes denials x) (w : World) :
    Same denials w (exec x w).2 := by
  have hpost := hx w
  unfold Ends at hpost
  cases hr : (exec x w).1 with
  | ok a =>
    rw [hr] at hpost
    exact hpost
  | error e =>
    rw [hr] at hpost
    exact hpost

theorem not_exceeded (h : Same denials w w') : ¬Exceeded w w' := by
  rintro ⟨error, -, -, hdenials⟩
  rw [h] at hdenials
  exact absurd (congrArg List.length hdenials) (by simp)

theorem planCheck_exceeded (hconfigured : env.planConfigured = true)
    (hraised : env.raised .checkPlan = none) (hallowed : env.planResult.allowed = false) :
    Exceeded w (exec (planCheck env) w).2 := by
  have hframes : Fixes denials (handleFrames env .checkPlan) := fixes_handleFrames
  have hreturn := exec_handleFrames env .checkPlan w
  rcases hexec : exec (handleFrames env .checkPlan) w with ⟨r, t⟩
  rw [hexec] at hreturn
  obtain rfl : r = .ok ⟨⟩ := hreturn
  have hlog : denials t = denials w := (hframes w).of_exec hexec
  have hawait : exec (await env .checkPlan) w = (.ok ⟨⟩, t) := by
    rw [await, exec_bind, hexec, hraised]
    rfl
  have hcheck : exec (Pipeline.Phases.checkPlan env) w =
      exec (stop (env.planResult.reason.getD "Plan limit exceeded") .planExceeded) t := by
    simp [Pipeline.Phases.checkPlan, exec_bind, hawait, hallowed]
  refine ⟨env.planResult.reason.getD "Plan limit exceeded", ?_⟩
  have hdenials : denials (exec (stop (env.planResult.reason.getD "Plan limit exceeded")
      .planExceeded) t).2 = denials t ++
        [.stopped { error := env.planResult.reason.getD "Plan limit exceeded", code := .planExceeded }] := by
    simp [stop, denials, List.filter_append, exceeds]
  rw [planCheck, if_pos hconfigured, catching, exec_tryCatch, hcheck]
  exact ⟨rfl, rfl, by rw [← hlog]; exact hdenials⟩

theorem await_raises {e : Exc} (h : env.raised .checkPlan = some e) :
    Yields (fun _ => Same denials) (fun _ _ => False) (await env .checkPlan) := by
  refine Yields.bind fixes_handleFrames (fun _ => ?_) (fun _ _ _ _ => Same.trans)
    fun _ _ _ _ => id
  rw [h]
  exact Yields.throw Same.refl

theorem planCheck_fixes (h : env.planConfigured = true → env.raised .checkPlan = none →
    env.planResult.allowed = true) : Fixes denials (planCheck env) := by
  refine Yields.ite (fun hconfigured => fixes_catching ?_ (fixes_pure _)) fun _ => fixes_pure _
  cases hraised : env.raised .checkPlan with
  | some e =>
    intro w
    exact (await_raises hraised w).bind (fun _ _ hno => hno.elim) fun _ _ hsame => hsame
  | none =>
    refine fixes_await.bind fun _ => Yields.ite (fun _ => ?_) fun hallowed =>
      absurd (h hconfigured hraised) hallowed
    refine Yields.ite (fun _ => (fixes_send rfl).bind fun _ => ?_) fun _ => ?_
    all_goals
      split
      · exact fixes_updateCtx fun _ => rfl
      · exact fixes_pure _

end Denials

section Enforced

variable {codec : Codec} {client : Client} {siteId : Str}

/-- An answer that `plan_result.get("allowed", True)` takes for a denial. -/
def denies : Value → Bool
  | .dict result _ => !allowed result
  | _ => false

/-- The portal answers `allowed=false` for the site. -/
def PortalDenies (client : Client) (siteId : Str) (result : Dict) (strays : Strays) : Prop :=
  get (str "allowed") result = some (.bool false) ∧ ∃ body strays',
    client.post (checkPlanUrl client.adminUrl) [(str "site_id", .str siteId)] =
      .ok (.dict body strays') ∧ get (str "message") body = some (.dict result strays)

/-- The cache raises nothing, and its entry is missing, is no JSON or denies the run itself. -/
def cacheServes (codec : Codec) (client : Client) (siteId : Str) (answer : Value) : Bool :=
  match client.redis with
  | none => true
  | some redis =>
    let written := (redis.setex (planCacheKey siteId) planCacheTtl (codec.dumps answer)).isOk
    match redis.get (planCacheKey siteId) with
    | .error _ => false
    | .ok none => written
    | .ok (some text) =>
      if text.isEmpty then written
      else if codec.gaveUp text then false
      else
        match loads text with
        | none => written
        | some entry => denies entry

theorem ask_denied {result : Dict} {strays : Strays} (h : PortalDenies client siteId result strays) :
    ask codec client siteId =
      match client.redis with
      | none => .ok (.dict result strays)
      | some redis =>
        match redis.setex (planCacheKey siteId) planCacheTtl (codec.dumps (.dict result strays)) with
        | .error e => .error e
        | .ok _ => .ok (.dict result strays) := by
  obtain ⟨-, body, strays', hpost, hmessage⟩ := h
  simp only [ask, hpost, message, hmessage, Option.getD_some]

theorem denies_offline : denies offline = false := by decide

theorem denies_denied {result : Dict} {strays : Strays} (h : get (str "allowed") result = some (.bool false)) :
    denies (.dict result strays) = true := by
  simp [denies, allowed, h, Value.truthy]

/-- Where the cache has nothing to say, the answer is kept when it is written. -/
theorem checkPlan_asked {redis : Redis} {result : Dict} {strays : Strays}
    (hportal : PortalDenies client siteId result strays) (hredis : client.redis = some redis)
    (hcached : cached codec client siteId = .ok none) :
    (∃ v, checkPlan codec client siteId = .ok v ∧ denies v = true) ↔
      (redis.setex (planCacheKey siteId) planCacheTtl (codec.dumps (.dict result strays))).isOk = true := by
  cases hwrite : redis.setex (planCacheKey siteId) planCacheTtl (codec.dumps (.dict result strays)) with
  | ok _ =>
    have hask : ask codec client siteId = .ok (.dict result strays) := by
      simp only [ask_denied hportal, hredis, hwrite]
    rw [checkPlan, hcached, hask]
    exact iff_of_true ⟨_, rfl, denies_denied hportal.1⟩ rfl
  | error e =>
    have hask : ask codec client siteId = .error e := by
      simp only [ask_denied hportal, hredis, hwrite]
    rw [checkPlan, hcached, hask]
    refine iff_of_false ?_ Bool.false_ne_true
    rintro ⟨v, hv, hdenies⟩
    cases e with
    | httpError =>
      cases hv
      exact absurd hdenies (Bool.eq_false_iff.mp denies_offline)
    | osError =>
      cases hv
      exact absurd hdenies (Bool.eq_false_iff.mp denies_offline)
    | other => cases hv

theorem checkPlan_denies_iff {result : Dict} {strays : Strays}
    (hportal : PortalDenies client siteId result strays) :
    (∃ v, checkPlan codec client siteId = .ok v ∧ denies v = true) ↔
      cacheServes codec client siteId (.dict result strays) = true := by
  cases hredis : client.redis with
  | none =>
    have hask : ask codec client siteId = .ok (.dict result strays) := by
      simp only [ask_denied hportal, hredis]
    have hanswer : checkPlan codec client siteId = .ok (.dict result strays) := by
      simp only [checkPlan, cached, hredis, hask]
    rw [hanswer, cacheServes, hredis]
    exact iff_of_true ⟨_, rfl, denies_denied hportal.1⟩ rfl
  | some redis =>
    have hasked (hcached : cached codec client siteId = .ok none) :=
      checkPlan_asked hportal hredis hcached
    simp only [cacheServes, hredis]
    cases hread : redis.get (planCacheKey siteId) with
    | error e =>
      have hanswer : checkPlan codec client siteId = .error e := by
        simp only [checkPlan, cached, hredis, hread]
      simp [hanswer]
    | ok entry =>
      cases entry with
      | none => exact hasked (by simp only [cached, hredis, hread])
      | some text =>
        by_cases hempty : text.isEmpty
        · simpa [hempty] using hasked (by simp [cached, hredis, hread, hempty])
        · by_cases hgave : codec.gaveUp text
          · have hanswer : checkPlan codec client siteId = .error .other := by
              simp [checkPlan, cached, hredis, hread, hempty, hgave]
            simp [hanswer, hempty, hgave]
          · cases hloads : loads text with
            | none =>
              simpa [hempty, hgave, hloads] using
                hasked (by simp [cached, hredis, hread, hempty, hgave, hloads])
            | some v =>
              have hanswer : checkPlan codec client siteId = .ok v := by
                simp [checkPlan, cached, hredis, hread, hempty, hgave, hloads]
              simp [hanswer, hempty, hgave, hloads]

variable {env : Env} {settings : Settings} {shown : Value → String} {w : World}

theorem asking_denied {v : Value} (h : checkPlan codec client siteId = .ok v) (hdenies : denies v = true) :
    (asking env settings codec client siteId shown).raised .checkPlan = none ∧
      (asking env settings codec client siteId shown).planResult.allowed = false := by
  cases v with
  | dict result strays =>
    have hallowed : allowed result = false := by simpa [denies] using hdenies
    simp [asking, h, Except.toOption, planResult, hallowed]
  | _ => cases hdenies

theorem denied_of_asking
    (hraised : (asking env settings codec client siteId shown).raised .checkPlan = none)
    (hallowed : (asking env settings codec client siteId shown).planResult.allowed = false) :
    ∃ v, checkPlan codec client siteId = .ok v ∧ denies v = true := by
  cases hanswer : checkPlan codec client siteId with
  | error e => simp [asking, hanswer, Except.toOption] at hraised
  | ok v =>
    cases v with
    | dict result strays =>
      refine ⟨_, rfl, ?_⟩
      simpa [asking, hanswer, Except.toOption, planResult, denies] using hallowed
    | _ => simp [asking, hanswer, Except.toOption, planResult] at hraised

/-- A denial of the portal stops the run just when the portal is configured and the cache
serves, whatever else the run meets. -/
theorem planCheck_exceeded_iff (env : Env) (settings : Settings) (shown : Value → String) (w : World)
    {result : Dict} {strays : Strays} (hportal : PortalDenies client siteId result strays) :
    Exceeded w (exec (planCheck (asking env settings codec client siteId shown)) w).2 ↔
      settings.configured = true ∧ cacheServes codec client siteId (.dict result strays) = true := by
  rw [← checkPlan_denies_iff hportal]
  constructor
  · intro hexceeded
    by_contra hno
    have hfixes : Fixes denials (planCheck (asking env settings codec client siteId shown)) := by
      refine planCheck_fixes fun hconfigured hraised => ?_
      by_contra hallowed
      exact hno ⟨hconfigured, denied_of_asking hraised (Bool.eq_false_iff.mpr hallowed)⟩
    exact not_exceeded (same_of_fixes hfixes w) hexceeded
  · rintro ⟨hconfigured, v, hv, hdenies⟩
    obtain ⟨hraised, hallowed⟩ :
        (asking env settings codec client siteId shown).raised .checkPlan = none ∧ _ :=
      asking_denied hv hdenies
    exact planCheck_exceeded hconfigured hraised hallowed

end Enforced

section Runs

def exceededBody : Value :=
  .dict
    [(str "message", .dict
      [(str "allowed", .bool false), (str "reason", .str (str "Monthly limit reached"))] .none)] .none

def deniedClient (redis : Redis) : Client where
  adminUrl := str "https://admin.example.com/"
  post _ _ := .ok exceededBody
  redis := some redis

theorem portalDenies_exceeded (redis : Redis) (siteId : Str) : PortalDenies (deniedClient redis) siteId
    [(str "allowed", .bool false), (str "reason", .str (str "Monthly limit reached"))] .none :=
  ⟨rfl, _, _, rfl, rfl⟩

def portalSettings : Settings where
  adminPortalUrl := str "https://admin.example.com/"
  adminServiceKey := str "svc-key"

/-- `json.dumps` on the one result of this portal. -/
def resultCodec : Codec where
  dumps _ := str "\x7b\"allowed\": false, \"reason\": \"Monthly limit reached\"\x7d"
  gaveUp _ := false

def shownText : Value → String
  | .str s => String.ofList (toChars s)
  | _ => ""

def emptyRedis : Redis where
  get _ := .ok none
  setex _ _ _ := .ok ()

def lostRedis : Redis where
  get _ := .ok none
  setex _ _ _ := .error .other

theorem planCheck_exceeded_iff_empty :
    Exceeded {} (exec (planCheck (asking (Env.smooth []) portalSettings resultCodec
      (deniedClient emptyRedis) (str "site-a") shownText)) {}).2 :=
  (planCheck_exceeded_iff _ _ _ _ (portalDenies_exceeded emptyRedis (str "site-a"))).mpr ⟨rfl, rfl⟩

/-- The portal denies the run, and what is lost is only the entry for the next one; yet
the run goes on. -/
theorem planCheck_lost : portalSettings.configured = true ∧
    cached resultCodec (deniedClient lostRedis) (str "site-a") = .ok none ∧
    PortalDenies (deniedClient lostRedis) (str "site-a")
      [(str "allowed", .bool false), (str "reason", .str (str "Monthly limit reached"))] .none ∧
    ¬Exceeded {} (exec (planCheck (asking (Env.smooth []) portalSettings resultCodec
      (deniedClient lostRedis) (str "site-a") shownText)) {}).2 := by
  refine ⟨rfl, rfl, portalDenies_exceeded _ _, not_exceeded (same_of_fixes ?_ _)⟩
  refine planCheck_fixes fun _ hraised => ?_
  have hlost : (asking (Env.smooth []) portalSettings resultCodec (deniedClient lostRedis)
      (str "site-a") shownText).raised .checkPlan = some (.other "") := rfl
  rw [hlost] at hraised
  cases hraised

end Runs

end AlfredProcessing.Api.AdminClient
