import AlfredProcessing.Middleware.RateLimit
import AlfredProcessing.State.Store
import AlfredProcessing.Websocket.Questions

namespace AlfredProcessing.Middleware.Charges

open Lib.Json Lib.Transition Extract.Changes
open RateLimit (serverDefaultRateLimit)

/-- Who calls `check_rate_limit`: a connection, whose receive loop handles one prompt at a
time, or a request of `create_task`. -/
inductive Caller where
  | socket (conn : Nat)
  | rest (request : Nat)
  deriving DecidableEq

def Caller.id : Caller → Nat
  | .socket c => 2 * c
  | .rest r => 2 * r + 1

/-- One user on one site: the handshakes of its connections, the site and the user that its
tokens name (the site where it is a text), whether `json.dumps` takes the row of a request,
and `MAX_CONCURRENT_REST_TASKS_PER_USER`. -/
structure Tenant where
  handshake : Nat → Websocket.Questions.Handshake
  siteId : Option String
  user : Value
  dumps : Nat → Bool
  cap : Int

/-- The limit that a caller gives to the check. A connection whose limit is no number makes
no call. -/
def Tenant.maxPerHour (c : Tenant) : Caller → Int
  | .socket conn =>
    match Websocket.Questions.toInt (c.handshake conn).int
        (Websocket.Questions.maxPerHour (c.handshake conn).siteConfig) with
    | .ok n => n
    | .error _ => serverDefaultRateLimit
  | .rest _ => serverDefaultRateLimit

structure Config extends Tenant where
  positive : ∀ c, 0 < toTenant.maxPerHour c

/-- Neither `set_task_state` raises for a request, whose site `_validate_id` refuses or whose
row is no JSON, nor `schedule_rest_task`, which takes the user as a key. -/
def Tenant.accepts (c : Tenant) (request : Nat) : Bool :=
  c.siteId.any State.Store.validId && c.dumps request && hashable c.user

inductive Submission where
  | new
  | checking
  | ended
  deriving DecidableEq

/-- The connections, the requests and the sorted set of one user on one site. The last
three fields are read by no handler: the entries that were added and not taken back, the
calls whose entry stands and whose caller has not gone on, and how many pipelines and
tasks were started. -/
structure State (M : Type) where
  sessions : Nat → Websocket.Questions.Session M
  requests : Nat → Submission
  limiter : RateLimit.State
  tasks : Nat
  shuttingDown : Bool
  charged : Finset ℚ
  holding : Finset Nat
  started : Nat

inductive Action (M : Type) where
  | socket (conn : Nat) (a : Websocket.Questions.Action M)
  | submit (request : Nat) (accepted : Bool)
  | execute (caller : Caller) (now : ℚ)
  | zrange (caller : Caller)
  | zrem (caller : Caller)
  | resume (conn : Nat)
  | schedule (request : Nat)
  | taskDone
  | shutdown

variable {M : Type}

def init (M : Type) (start : ℚ) : State M where
  sessions _ := {}
  requests _ := .new
  limiter := RateLimit.init start
  tasks := 0
  shuttingDown := false
  charged := ∅
  holding := ∅
  started := 0

/-- The caller is suspended in `check_rate_limit`. -/
def State.waits (s : State M) : Caller → Bool
  | .socket c => (s.sessions c).admitting.isSome
  | .rest r => s.requests r = .checking

def isStart : Websocket.Questions.Effect M → Bool
  | .started _ => true
  | _ => false

def starts (s : Websocket.Questions.Session M) : Nat := s.log.countP isStart

def State.execute (s : State M) (maxPerHour : Int) (caller : Caller) (now : ℚ) : State M :=
  let limiter := s.limiter.execute maxPerHour caller.id now
  { s with
    limiter := limiter
    charged := s.charged ∪ limiter.entries
    holding := insert caller.id s.holding }

def State.settle (s : State M) (caller : Caller) : State M :=
  { s with
    limiter := s.limiter.answer caller.id .idle
    holding := s.holding.erase caller.id }

/-- `create_task` up to the check: the service shuts down, has no store, or is asked for
another site than the token's. -/
def State.submit (s : State M) (request : Nat) (accepted : Bool) : State M :=
  { s with
    requests := Function.update s.requests request
      (if s.shuttingDown || !accepted then .ended else .checking) }

/-- The rest of the `prompt` branch. -/
def State.resume (s : State M) (conn : Nat) (session : Websocket.Questions.Session M) : State M :=
  { s.settle (.socket conn) with
    sessions := Function.update s.sessions conn session
    started := s.started + (starts session - starts (s.sessions conn)) }

/-- The task of a request is not started: an exception has left `create_task`, or the user has
no room for it. -/
def Tenant.turnsAway (c : Tenant) (tasks : Nat) (request : Nat) : Bool :=
  !c.accepts request || decide (0 < c.cap ∧ c.cap ≤ tasks)

/-- The rest of `create_task`, with `schedule_rest_task`. -/
def State.schedule (s : State M) (c : Tenant) (request : Nat) (allowed : Bool) : State M :=
  let s' := { s.settle (.rest request) with requests := Function.update s.requests request .ended }
  if allowed = false then s'
  else if c.turnsAway s.tasks request then s'
  else { s' with tasks := s.tasks + 1, started := s.started + 1 }

/-- One stretch of a handler or of a pipeline, from one await to the next. -/
def step [DecidableEq M] (config : Config) (s : State M) : Action M → Option (State M)
  | .socket _ (.admission _) => none
  | .socket _ .shutdown => none
  | .socket conn a =>
    (Websocket.Questions.step (config.handshake conn) (s.sessions conn) a).map fun session =>
      { s with sessions := Function.update s.sessions conn session }
  | .submit request accepted =>
    if s.requests request = .new then some (s.submit request accepted) else none
  | .execute caller now =>
    if s.waits caller ∧ s.limiter.calls caller.id = .idle then
      some (s.execute (config.maxPerHour caller) caller now)
    else none
  | .zrange caller =>
    (RateLimit.step (config.maxPerHour caller) s.limiter (.zrange caller.id)).map fun limiter =>
      { s with limiter := limiter }
  | .zrem caller =>
    match s.limiter.calls caller.id with
    | .timed now _ =>
      (RateLimit.step (config.maxPerHour caller) s.limiter (.zrem caller.id)).map fun limiter =>
        { s with
          limiter := limiter
          charged := s.charged.erase now
          holding := s.holding.erase caller.id }
    | _ => none
  | .resume conn =>
    match s.limiter.calls (Caller.socket conn).id with
    | .returned answer =>
      (Websocket.Questions.step (config.handshake conn) (s.sessions conn) (.admission answer.allowed)).map (s.resume conn)
    | _ => none
  | .schedule request =>
    match s.limiter.calls (Caller.rest request).id with
    | .returned answer =>
      if s.requests request = .checking then some (s.schedule config.toTenant request answer.allowed)
      else none
    | _ => none
  | .taskDone => if 0 < s.tasks then some { s with tasks := s.tasks - 1 } else none
  | .shutdown =>
    some
      { s with
        shuttingDown := true
        sessions := fun c => { s.sessions c with shuttingDown := true } }

/-- The entry that a call is about to add was not charged before. -/
def Distinct (s : State M) : Action M → Prop
  | .execute _ now => now ∉ s.charged
  | _ => True

/-- The entries charged beyond the work started and the calls under way. -/
def State.excess (s : State M) : Int := s.charged.card - s.started - s.holding.card

/-- The entry of the call stands and its caller has not gone on. -/
def holds : RateLimit.Call → Bool
  | .idle => false
  | .denied _ => true
  | .timed _ _ => true
  | .returned answer => answer.allowed

/-- Every entry of the set is charged, and every call on its way that will take its entry
back has one of its own. -/
structure Inv (s : State M) : Prop where
  entries : s.limiter.entries ⊆ s.charged
  held : ∀ i, i ∈ s.holding ↔ holds (s.limiter.calls i) = true
  pending : ∀ i x, (s.limiter.calls i).pending = some x → x ∈ s.charged
  alone : ∀ i j x, (s.limiter.calls i).pending = some x → (s.limiter.calls j).pending = some x → i = j

section Limiter

variable {limiter limiter' : RateLimit.State} {id : Nat} {now : ℚ} {maxPerHour : Int}
  {calls : Nat → RateLimit.Call} {call : RateLimit.Call} {holding : Finset Nat} {i : Nat} {x : ℚ}

theorem execute_spec (limiter : RateLimit.State) (id : Nat) (now : ℚ) (hmax : 0 < maxPerHour) : ∃ call,
    (limiter.execute maxPerHour id now).calls = Function.update limiter.calls id call ∧
      holds call = true ∧ (∀ x, call.pending = some x → x = now) ∧
      (limiter.execute maxPerHour id now).entries = insert now (limiter.trimmed now) := by
  rw [RateLimit.State.execute, if_neg (not_le.mpr hmax)]
  dsimp only
  split
  · exact ⟨.denied now, rfl, rfl, fun x hx => (Option.some.inj hx).symm, rfl⟩
  · exact ⟨.returned _, rfl, rfl, fun x hx => (by cases hx), rfl⟩

theorem zrange_spec (h : RateLimit.step maxPerHour limiter (.zrange id) = some limiter') :
    ∃ now retry, limiter.calls id = .denied now ∧
      limiter' = limiter.answer id (.timed now retry) := by
  rw [RateLimit.step] at h
  split at h
  · next now hcall => exact ⟨now, _, hcall, (Option.some.inj h).symm⟩
  · cases h

theorem zrem_spec {retry : Int} (hcall : limiter.calls id = .timed now retry) :
    RateLimit.step maxPerHour limiter (.zrem id) =
      some { limiter.answer id (.returned ⟨false, 0, retry⟩) with
        entries := limiter.entries.erase now } := by
  rw [RateLimit.step, hcall]

theorem held_insert (h : ∀ i, i ∈ holding ↔ holds (calls i) = true) (hcall : holds call = true) (i : Nat) :
    i ∈ insert id holding ↔ holds (Function.update calls id call i) = true := by
  by_cases hi : i = id
  · subst hi
    simp [hcall]
  · simp [hi, h]

theorem held_erase (h : ∀ i, i ∈ holding ↔ holds (calls i) = true) (hcall : holds call = false) (i : Nat) :
    i ∈ holding.erase id ↔ holds (Function.update calls id call i) = true := by
  by_cases hi : i = id
  · subst hi
    simp [hcall]
  · simp [hi, h]

theorem pending_update (h : (Function.update calls id call i).pending = some x) :
    (i = id ∧ call.pending = some x) ∨ (i ≠ id ∧ (calls i).pending = some x) := by
  by_cases hi : i = id
  · subst hi
    rw [Function.update_self] at h
    exact .inl ⟨rfl, h⟩
  · rw [Function.update_of_ne hi] at h
    exact .inr ⟨hi, h⟩

end Limiter

section Steps

variable {config : Config} {s t : State M} {caller : Caller} {now : ℚ} {maxPerHour : Int} {n : Nat}

/-- The stretches case by case: what each finds and what it leaves. -/
inductive Stretch [DecidableEq M] (config : Config) (s : State M) : Action M → State M → Prop where
  | socket {conn : Nat} {a : Websocket.Questions.Action M} {session : Websocket.Questions.Session M}
      (hsession : Websocket.Questions.step (config.handshake conn) (s.sessions conn) a = some session) :
      Stretch config s (.socket conn a) { s with sessions := Function.update s.sessions conn session }
  | submit {request : Nat} {accepted : Bool} (hnew : s.requests request = .new) :
      Stretch config s (.submit request accepted) (s.submit request accepted)
  | execute {caller : Caller} {now : ℚ} (hwaits : s.waits caller)
      (hidle : s.limiter.calls caller.id = .idle) :
      Stretch config s (.execute caller now) (s.execute (config.maxPerHour caller) caller now)
  | zrange {caller : Caller} {now : ℚ} {retry : Int} (hcall : s.limiter.calls caller.id = .denied now) :
      Stretch config s (.zrange caller) { s with limiter := s.limiter.answer caller.id (.timed now retry) }
  | zrem {caller : Caller} {now : ℚ} {retry : Int} (hcall : s.limiter.calls caller.id = .timed now retry) :
      Stretch config s (.zrem caller)
        { s with
          limiter := { s.limiter.answer caller.id (.returned ⟨false, 0, retry⟩) with
            entries := s.limiter.entries.erase now }
          charged := s.charged.erase now
          holding := s.holding.erase caller.id }
  | resume {conn : Nat} {answer : RateLimit.Answer} {session : Websocket.Questions.Session M}
      (hcall : s.limiter.calls (Caller.socket conn).id = .returned answer)
      (hsession : Websocket.Questions.step (config.handshake conn) (s.sessions conn) (.admission answer.allowed) =
        some session) :
      Stretch config s (.resume conn) (s.resume conn session)
  | schedule {request : Nat} {answer : RateLimit.Answer}
      (hcall : s.limiter.calls (Caller.rest request).id = .returned answer)
      (hchecking : s.requests request = .checking) :
      Stretch config s (.schedule request) (s.schedule config.toTenant request answer.allowed)
  | taskDone (htasks : 0 < s.tasks) : Stretch config s .taskDone { s with tasks := s.tasks - 1 }
  | shutdown : Stretch config s .shutdown
      { s with
        shuttingDown := true
        sessions := fun c => { s.sessions c with shuttingDown := true } }

theorem stretch_of_step [DecidableEq M] {a : Action M} (h : step config s a = some t) :
    Stretch config s a t := by
  cases a with
  | socket conn a =>
    cases a with
    | admission | shutdown => cases h
    | _ =>
      simp only [step, Option.map_eq_some_iff] at h
      obtain ⟨session, hsession, rfl⟩ := h
      exact .socket hsession
  | submit request accepted =>
    rw [step, Option.ite_none_right_eq_some] at h
    obtain ⟨hnew, h⟩ := h
    cases h
    exact .submit hnew
  | execute caller now =>
    rw [step, Option.ite_none_right_eq_some] at h
    obtain ⟨⟨hwaits, hidle⟩, h⟩ := h
    cases h
    exact .execute hwaits hidle
  | zrange caller =>
    obtain ⟨limiter, hlimiter, rfl⟩ := Option.map_eq_some_iff.mp h
    obtain ⟨now, retry, hcall, rfl⟩ := zrange_spec hlimiter
    exact .zrange hcall
  | zrem caller =>
    rw [step] at h
    split at h
    · next now retry hcall =>
      rw [zrem_spec hcall] at h
      cases h
      exact .zrem hcall
    · cases h
  | resume conn =>
    rw [step] at h
    split at h
    · next answer hcall =>
      obtain ⟨session, hsession, rfl⟩ := Option.map_eq_some_iff.mp h
      exact .resume hcall hsession
    · cases h
  | schedule request =>
    rw [step] at h
    split at h
    · next answer hcall =>
      rw [Option.ite_none_right_eq_some] at h
      obtain ⟨hchecking, h⟩ := h
      cases h
      exact .schedule hcall hchecking
    · cases h
  | taskDone =>
    rw [step, Option.ite_none_right_eq_some] at h
    obtain ⟨htasks, h⟩ := h
    cases h
    exact .taskDone htasks
  | shutdown =>
    cases h
    exact .shutdown

theorem inv_init (start : ℚ) : Inv (init M start) where
  entries := by simp [init, RateLimit.init]
  held := by simp [init, RateLimit.init, holds]
  pending := by simp [init, RateLimit.init, RateLimit.Call.pending]
  alone := by simp [init, RateLimit.init, RateLimit.Call.pending]

/-- A call that no longer waits for its second group of commands. -/
theorem Inv.settled (h : Inv s) {call : RateLimit.Call} {holding : Finset Nat}
    (hheld : ∀ i, i ∈ holding ↔ holds (Function.update s.limiter.calls caller.id call i) = true)
    (hcall : call.pending = none) :
    Inv { s with limiter := s.limiter.answer caller.id call, holding := holding } where
  entries := h.entries
  held := hheld
  pending i x hx := by
    obtain ⟨-, hx⟩ | ⟨-, hx⟩ := pending_update hx
    · rw [hcall] at hx
      cases hx
    · exact h.pending i x hx
  alone i j x hi hj := by
    obtain ⟨-, hi⟩ | ⟨-, hi⟩ := pending_update hi
    · rw [hcall] at hi
      cases hi
    · obtain ⟨-, hj⟩ | ⟨-, hj⟩ := pending_update hj
      · rw [hcall] at hj
        cases hj
      · exact h.alone i j x hi hj

theorem Inv.settle (h : Inv s) : Inv (s.settle caller) :=
  h.settled (held_erase h.held rfl) rfl

theorem trimmed_subset (h : s.limiter.entries ⊆ s.charged) (now : ℚ) :
    s.limiter.trimmed now ⊆ s.charged :=
  (Finset.filter_subset _ _).trans h

theorem charged_execute (h : s.limiter.entries ⊆ s.charged) (caller : Caller) (now : ℚ)
    (hmax : 0 < maxPerHour) : (s.execute maxPerHour caller now).charged = insert now s.charged := by
  obtain ⟨-, -, -, -, hentries⟩ := execute_spec s.limiter caller.id now hmax
  simp only [State.execute, hentries]
  rw [Finset.union_insert, Finset.union_eq_left.mpr (trimmed_subset h now)]

theorem Inv.execute (h : Inv s) (hmax : 0 < maxPerHour) (hidle : s.limiter.calls caller.id = .idle)
    (hfresh : now ∉ s.charged) :
    Inv (s.execute maxPerHour caller now) ∧ (s.execute maxPerHour caller now).excess = s.excess := by
  obtain ⟨call, hcalls, hholds, hpending, hentries⟩ :=
    execute_spec s.limiter caller.id now hmax
  have htrimmed := trimmed_subset h.entries now
  have hcharged := charged_execute h.entries caller now hmax
  have hout : caller.id ∉ s.holding := fun hin => by
    have hyes := (h.held caller.id).mp hin
    rw [hidle] at hyes
    cases hyes
  refine ⟨⟨?_, ?_, ?_, ?_⟩, ?_⟩
  · rw [hcharged]
    change (s.limiter.execute maxPerHour caller.id now).entries ⊆ _
    rw [hentries]
    exact Finset.insert_subset_insert now htrimmed
  · intro i
    change i ∈ insert caller.id s.holding ↔
      holds ((s.limiter.execute maxPerHour caller.id now).calls i) = true
    rw [hcalls]
    exact held_insert h.held hholds i
  · intro i x hx
    change ((s.limiter.execute maxPerHour caller.id now).calls i).pending = some x at hx
    rw [hcalls] at hx
    rw [hcharged]
    obtain ⟨-, hx⟩ | ⟨-, hx⟩ := pending_update hx
    · rw [hpending x hx]
      exact Finset.mem_insert_self now _
    · exact Finset.mem_insert_of_mem (h.pending i x hx)
  · intro i j x hi hj
    change ((s.limiter.execute maxPerHour caller.id now).calls i).pending = some x at hi
    change ((s.limiter.execute maxPerHour caller.id now).calls j).pending = some x at hj
    rw [hcalls] at hi hj
    obtain ⟨hid, hi'⟩ | ⟨-, hi'⟩ := pending_update hi
    · obtain ⟨hjd, -⟩ | ⟨-, hj'⟩ := pending_update hj
      · exact hid.trans hjd.symm
      · exact absurd (hpending x hi' ▸ h.pending j x hj') hfresh
    · obtain ⟨-, hj'⟩ | ⟨-, hj'⟩ := pending_update hj
      · exact absurd (hpending x hj' ▸ h.pending i x hi') hfresh
      · exact h.alone i j x hi' hj'
  · have hheld : (s.execute maxPerHour caller now).holding = insert caller.id s.holding := rfl
    have hstarted : (s.execute maxPerHour caller now).started = s.started := rfl
    rw [State.excess, hcharged, hheld, hstarted, Finset.card_insert_of_notMem hfresh,
      Finset.card_insert_of_notMem hout, State.excess]
    omega

theorem Inv.zrem (h : Inv s) {retry : Int} (hcall : s.limiter.calls caller.id = .timed now retry) :
    let t : State M :=
      { s with
        limiter := { s.limiter.answer caller.id (.returned ⟨false, 0, retry⟩) with
          entries := s.limiter.entries.erase now }
        charged := s.charged.erase now
        holding := s.holding.erase caller.id }
    Inv t ∧ t.excess = s.excess := by
  have hpending : (s.limiter.calls caller.id).pending = some now := by rw [hcall]; rfl
  have hin : caller.id ∈ s.holding := (h.held caller.id).mpr (by rw [hcall]; rfl)
  have hnow : now ∈ s.charged := h.pending _ _ hpending
  have hsettled : Inv { s with
      limiter := s.limiter.answer caller.id (.returned ⟨false, 0, retry⟩)
      holding := s.holding.erase caller.id } := h.settled (held_erase h.held rfl) rfl
  refine ⟨⟨?_, hsettled.held, ?_, hsettled.alone⟩, ?_⟩
  · exact Finset.erase_subset_erase now h.entries
  · intro i x hx
    refine Finset.mem_erase.mpr ⟨?_, hsettled.pending i x hx⟩
    rintro rfl
    obtain ⟨-, hx⟩ | ⟨hne, hx⟩ := pending_update hx
    · cases hx
    · exact hne (h.alone i caller.id x hx hpending)
  · have hcharged := Finset.card_erase_add_one hnow
    have hholding := Finset.card_erase_add_one hin
    simp only [State.excess]
    omega

theorem Inv.zrange (h : Inv s) {retry : Int} (hcall : s.limiter.calls caller.id = .denied now) :
    let t : State M := { s with limiter := s.limiter.answer caller.id (.timed now retry) }
    Inv t ∧ t.excess = s.excess := by
  have hpending : (s.limiter.calls caller.id).pending = some now := by rw [hcall]; rfl
  have hsame : ∀ i, ((s.limiter.answer caller.id (.timed now retry)).calls i).pending =
      (s.limiter.calls i).pending := by
    intro i
    by_cases hi : i = caller.id
    · subst hi
      rw [hpending]
      simp [RateLimit.State.answer, RateLimit.Call.pending]
    · simp [RateLimit.State.answer, hi]
  have hin : caller.id ∈ s.holding := (h.held caller.id).mpr (by rw [hcall]; rfl)
  refine ⟨⟨h.entries, ?_, ?_, ?_⟩, rfl⟩
  · intro i
    have hheld : i ∈ insert caller.id s.holding ↔
        holds (Function.update s.limiter.calls caller.id (.timed now retry) i) = true :=
      held_insert h.held rfl i
    rwa [Finset.insert_eq_self.mpr hin] at hheld
  · intro i x hx
    exact h.pending i x ((hsame i).symm.trans hx)
  · intro i j x hi hj
    exact h.alone i j x ((hsame i).symm.trans hi) ((hsame j).symm.trans hj)

theorem Inv.resume (h : Inv s) {conn : Nat} {session : Websocket.Questions.Session M} :
    Inv (s.resume conn session) where
  entries := h.entries
  held := h.settle.held
  pending := h.settle.pending
  alone := h.settle.alone

theorem Inv.schedule (h : Inv s) {c : Tenant} {request : Nat} {allowed : Bool} :
    Inv (s.schedule c request allowed) := by
  have hsettle : Inv (s.settle (.rest request)) := h.settle
  unfold State.schedule
  split_ifs <;> exact ⟨hsettle.entries, hsettle.held, hsettle.pending, hsettle.alone⟩

end Steps

section Balance

end Balance

end AlfredProcessing.Middleware.Charges
