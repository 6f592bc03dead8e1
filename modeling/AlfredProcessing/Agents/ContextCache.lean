import AlfredProcessing.Extract.Changes
import AlfredProcessing.Lib.Expiring
import Mathlib.Data.List.DropRight
import Mathlib.Logic.Function.Basic

namespace AlfredProcessing.Agents.ContextCache

open Lib.Json Lib.Expiring Extract.Changes Extract.Cleaning

section Model

/-- What a specialist is asked about: by `provide_context` or by `provide_family_context`. -/
inductive Subject where
  | module (module intent : Str) (targetDoctype : Option Str)
  | family (family intent : Str)

/-- What is read of the knowledge base of a family. -/
structure FamilyKb where
  backstory : Str
  crossModuleInvariants : List Str

/-- The backstories of the modules, and the families. -/
structure Registry where
  get : Str → Option Str
  getFamily : Str → Option FamilyKb

def Registry.knows (r : Registry) : Subject → Bool
  | .module module _ _ => (r.get module).isSome
  | .family family _ => (r.getFamily family).isSome

/-- One call, with the process that it runs in and whether Redis was handed to it. -/
structure Call (T : Type) where
  tenant : T
  subject : Subject
  siteConfig : Dict
  hasRedis : Bool
  worker : Nat

structure Request where
  system : Str
  user : Str
  siteConfig : Dict
  tier : Value
  maxTokens : Nat
  temperature : Value

inductive Reply where
  | raised
  | text (t : Option Str)

def lines (parts : List Str) : Str := (parts.intersperse (str "\n")).flatten

def contextPrompt (intent : Str) (targetDoctype : Option Str) : Str :=
  let target := targetDoctype.getD []
  lines ([str "Intent: " ++ intent] ++
    (if target.isEmpty then [] else [str "Target DocType: " ++ target]) ++
    [str "Summarise the subset of your module knowledge relevant to this intent + target. Output should be 3-6 sentences of concrete conventions, role names, and gotchas. No prose introduction, no JSON, no markdown headers."])

def familyPrompt (intent : Str) (invariants : List Str) : Str :=
  str "Intent: " ++ intent ++ str "\nFamily cross-module invariants:\n" ++
    lines (invariants.map (str "- " ++ ·)) ++
    str "\n\nSummarise the subset of these family-level invariants that matter for this intent. 3-5 sentences, concrete, no prose intro, no JSON, no markdown headers. These are cross-module rules shared by every member module of the family."

def tier (siteConfig : Dict) : Value := (get (str "llm_tier") siteConfig).getD (.str (str "triage"))

def temperature : Value := .float 2 (-1)

def Registry.request (r : Registry) (siteConfig : Dict) : Subject → Option Request
  | .module module intent targetDoctype => (r.get module).map fun backstory =>
    { system := backstory, user := contextPrompt intent targetDoctype, siteConfig, tier := tier siteConfig
      maxTokens := 400, temperature }
  | .family family intent => (r.getFamily family).map fun kb =>
    { system := kb.backstory, user := familyPrompt intent kb.crossModuleInvariants, siteConfig
      tier := tier siteConfig, maxTokens := 350, temperature }

/-- The text that is cached and returned. Nothing stands for the empty text, which is
returned but not cached, as it is where the model raises. -/
def Reply.result : Reply → Option Str
  | .raised => none
  | .text t =>
    let result := stripped (t.getD [])
    if result.isEmpty then none else some result

/-- The keys of `_context_cache` and of `_family_context_cache`. -/
inductive InmemKey where
  | context (module intent targetDoctype : Str)
  | family (family intent : Str)
  deriving DecidableEq

def Subject.inmemKey : Subject → InmemKey
  | .module m intent targetDoctype => .context m intent (targetDoctype.getD [])
  | .family f intent => .family f intent

/-- `_cache_key_str` and `_family_cache_key_str`. -/
def Subject.redisKey : Subject → Str
  | .module m intent targetDoctype =>
    str "alfred:module_ctx:" ++ m ++ str ":" ++ intent ++ str ":" ++ targetDoctype.getD []
  | .family f intent => str "alfred:family_ctx:" ++ f ++ str ":" ++ intent

/-- `_CONTEXT_CACHE_TTL_SECONDS` and `_FAMILY_CONTEXT_CACHE_TTL_SECONDS`. -/
def Subject.ttlSeconds : Subject → Nat
  | .module .. => 300
  | .family .. => 900

/-- How an access to Redis fails: with a `RedisError` or an `OSError`, or with anything else. -/
inductive Fault where
  | redisError
  | other

/-- Where the cache functions catch the failure: for a family they catch less. -/
def Fault.caught : Fault → Subject → Bool
  | .redisError, _ => true
  | .other, .module .. => true
  | .other, .family .. => false

/-- Where a call stands. Between the phases others may run. -/
inductive Phase (α : Type) where
  | begun
  | reading
  | missed (fault : Option Fault)
  | asking
  | writing (text : α)
  | written (text : α) (fault : Option Fault)
  | returned (text : Option α)
  | raised

/-- A call goes on: when it does, and how Redis answers if it is asked. A command may be
carried out although its answer is lost. -/
structure Event (ι : Type) where
  call : ι
  now : Nat
  fault : Option Fault
  applied : Bool

/-- The calls, whether they are about something known, and what their models make of it. -/
structure Callers (ι T α : Type) where
  call : ι → Call T
  known : ι → Bool
  result : ι → Option α

structure State (ι α : Type) where
  phase : ι → Phase α
  redis : Str → Option (Entry α)
  inmem : Nat × InmemKey → Option (Entry α)

def State.initial {ι α : Type} : State ι α := ⟨fun _ => .begun, fun _ => none, fun _ => none⟩

variable {ι T α : Type}

/-- The read of the process-local cache, and what the call does then. -/
def readInmem (now : Nat) (redis inmem : Option (Entry α)) :
    Phase α × Option (Entry α) × Option (Entry α) :=
  match read now inmem with
  | some v => (.returned (some v), redis, purge now inmem)
  | none => (.asking, redis, purge now inmem)

def writeInmem (now ttl : Nat) (text : α) (redis : Option (Entry α)) :
    Phase α × Option (Entry α) × Option (Entry α) :=
  (.returned (some text), redis, some ⟨now + ttl, text⟩)

/-- `provide_context` and `provide_family_context` up to where they wait next. A call
works on one key of each cache; these are its cells there. -/
def Callers.turn (w : Callers ι T α) (e : Event ι) (p : Phase α) (redis inmem : Option (Entry α)) :
    Phase α × Option (Entry α) × Option (Entry α) :=
  let c := w.call e.call
  let ttl := c.subject.ttlSeconds
  match p with
  | .begun =>
    if w.known e.call = false then (.returned none, redis, inmem)
    else if c.hasRedis then (.reading, redis, inmem)
    else readInmem e.now redis inmem
  | .reading =>
    match e.fault with
    | some f => (.missed (some f), redis, inmem)
    | none =>
      match read e.now redis with
      | some v => (.returned (some v), redis, inmem)
      | none => (.missed none, redis, inmem)
  | .missed none => readInmem e.now redis inmem
  | .missed (some f) => if f.caught c.subject then readInmem e.now redis inmem else (.raised, redis, inmem)
  | .asking =>
    match w.result e.call with
    | none => (.returned none, redis, inmem)
    | some text => if c.hasRedis then (.writing text, redis, inmem) else writeInmem e.now ttl text redis
  | .writing text =>
    (.written text e.fault, if e.applied then some ⟨e.now + ttl, text⟩ else redis, inmem)
  | .written text none => writeInmem e.now ttl text redis
  | .written text (some f) =>
    if f.caught c.subject then writeInmem e.now ttl text redis else (.returned none, redis, inmem)
  | .returned _ => (p, redis, inmem)
  | .raised => (p, redis, inmem)

variable [DecidableEq ι]

def Callers.redisKey (w : Callers ι T α) (c : ι) : Str := (w.call c).subject.redisKey

def Callers.inmemKey (w : Callers ι T α) (c : ι) : Nat × InmemKey :=
  ((w.call c).worker, (w.call c).subject.inmemKey)

def Callers.turnIn (w : Callers ι T α) (s : State ι α) (e : Event ι) :
    Phase α × Option (Entry α) × Option (Entry α) :=
  w.turn e (s.phase e.call) (s.redis (w.redisKey e.call)) (s.inmem (w.inmemKey e.call))

def Callers.advance (w : Callers ι T α) (s : State ι α) (e : Event ι) : State ι α where
  phase := Function.update s.phase e.call (w.turnIn s e).1
  redis := Function.update s.redis (w.redisKey e.call) (w.turnIn s e).2.1
  inmem := Function.update s.inmem (w.inmemKey e.call) (w.turnIn s e).2.2

def Callers.run (w : Callers ι T α) (s : State ι α) (es : List (Event ι)) : State ι α :=
  es.foldl w.advance s

/-- Calls of any number of tenants, with what their models reply, and the order in which
they go on. The clock does not go back. -/
structure World (ι T : Type) where
  registry : Registry
  call : ι → Call T
  reply : ι → Request → Reply
  schedule : List (Event ι)
  sorted : schedule.Pairwise fun e e' => e.now ≤ e'.now

variable [DecidableEq T]

def World.result (w : World ι T) (c : ι) : Option Str :=
  (w.registry.request (w.call c).siteConfig (w.call c).subject).bind fun q => (w.reply c q).result

def World.callers (w : World ι T) : Callers ι T Str where
  call := w.call
  known c := w.registry.knows (w.call c).subject
  result := w.result

def Phase.text : Phase Str → Option Str
  | .returned t => some (t.getD [])
  | _ => none

def World.text (w : World ι T) (c : ι) : Option Str :=
  ((w.callers.run .initial w.schedule).phase c).text

/-- The run without the calls of all other tenants. -/
def World.alone (w : World ι T) (b : T) : World ι T where
  registry := w.registry
  call := w.call
  reply := w.reply
  schedule := w.schedule.filter fun e => (w.call e.call).tenant = b
  sorted := w.sorted.filter _

/-- The others make no difference to the texts of a tenant. -/
def World.Undisturbed (w : World ι T) (b : T) : Prop :=
  ∀ c, (w.call c).tenant = b → w.text c = (w.alone b).text c

end Model

section Texts

variable {ι T α β : Type}

def Phase.map (f : α → β) : Phase α → Phase β
  | .begun => .begun
  | .reading => .reading
  | .missed fault => .missed fault
  | .asking => .asking
  | .writing text => .writing (f text)
  | .written text fault => .written (f text) fault
  | .returned text => .returned (text.map f)
  | .raised => .raised

def mapCells (f : α → β) (t : Phase α × Option (Entry α) × Option (Entry α)) :
    Phase β × Option (Entry β) × Option (Entry β) :=
  (t.1.map f, t.2.1.map (Entry.map f), t.2.2.map (Entry.map f))

def State.map (f : α → β) (s : State ι α) : State ι β where
  phase c := (s.phase c).map f
  redis k := (s.redis k).map (Entry.map f)
  inmem k := (s.inmem k).map (Entry.map f)

def Callers.map (f : α → β) (w : Callers ι T α) : Callers ι T β where
  call := w.call
  known := w.known
  result c := (w.result c).map f

variable {w : Callers ι T α} {f : α → β}

theorem readInmem_map (now : Nat) (r m : Option (Entry α)) :
    readInmem now (r.map (Entry.map f)) (m.map (Entry.map f)) = mapCells f (readInmem now r m) := by
  unfold readInmem
  rw [read_map, purge_map]
  cases read now m <;> rfl

theorem turn_map (e : Event ι) (p : Phase α) (r m : Option (Entry α)) :
    (w.map f).turn e (p.map f) (r.map (Entry.map f)) (m.map (Entry.map f)) = mapCells f (w.turn e p r m) := by
  cases p with
  | begun =>
    change (if w.known e.call = false then _ else if (w.call e.call).hasRedis then _ else _) =
      mapCells f (if w.known e.call = false then _ else if (w.call e.call).hasRedis then _ else _)
    split_ifs
    · rfl
    · rfl
    · exact readInmem_map ..
  | reading =>
    simp only [Phase.map, Callers.turn]
    cases e.fault with
    | some _ => rfl
    | none =>
      rw [read_map]
      cases read e.now r <;> rfl
  | missed fault =>
    cases fault with
    | none => exact readInmem_map ..
    | some d =>
      change (if d.caught (w.call e.call).subject then _ else _) =
        mapCells f (if d.caught (w.call e.call).subject then _ else _)
      split_ifs
      · exact readInmem_map ..
      · rfl
  | asking =>
    simp only [Phase.map, Callers.turn, Callers.map]
    cases w.result e.call with
    | none => rfl
    | some text =>
      change (if (w.call e.call).hasRedis then _ else _) = mapCells f (if (w.call e.call).hasRedis then _ else _)
      split_ifs <;> rfl
  | writing text =>
    simp only [Phase.map, Callers.turn, Callers.map, mapCells]
    split_ifs <;> rfl
  | written text fault =>
    cases fault with
    | none => rfl
    | some d =>
      change (if d.caught (w.call e.call).subject then _ else _) =
        mapCells f (if d.caught (w.call e.call).subject then _ else _)
      split_ifs <;> rfl
  | returned text => rfl
  | raised => rfl

variable [DecidableEq ι]

theorem advance_map (s : State ι α) (e : Event ι) :
    (w.map f).advance (s.map f) e = (w.advance s e).map f := by
  have hturn : (w.map f).turnIn (s.map f) e = mapCells f (w.turnIn s e) := turn_map ..
  unfold Callers.advance
  rw [hturn]
  refine congr (congr (congrArg State.mk ?_) ?_) ?_
  · exact (Function.comp_update (Phase.map f) s.phase e.call _).symm
  · exact (Function.comp_update (Option.map (Entry.map f)) s.redis (w.redisKey e.call) _).symm
  · exact (Function.comp_update (Option.map (Entry.map f)) s.inmem (w.inmemKey e.call) _).symm

theorem run_map (s : State ι α) (es : List (Event ι)) :
    (w.map f).run (s.map f) es = (w.run s es).map f := by
  induction es generalizing s with
  | nil => rfl
  | cons e es ih => exact (congrArg (fun t => (w.map f).run t es) (advance_map s e)).trans (ih _)

end Texts

section Moves

variable {ι T α : Type}

/-- What a turn does with the cells of its call. -/
inductive Move (α : Type) where
  | go (p : Phase α)
  | getRedis
  | getInmem
  | putRedis (text : α) (fault : Option Fault) (applied : Bool)
  | putInmem (text : α)

def Callers.move (w : Callers ι T α) (e : Event ι) (p : Phase α) : Move α :=
  let c := w.call e.call
  match p with
  | .begun =>
    if w.known e.call = false then .go (.returned none) else if c.hasRedis then .go .reading else .getInmem
  | .reading => if e.fault.isSome then .go (.missed e.fault) else .getRedis
  | .missed none => .getInmem
  | .missed (some f) => if f.caught c.subject then .getInmem else .go .raised
  | .asking =>
    match w.result e.call with
    | none => .go (.returned none)
    | some text => if c.hasRedis then .go (.writing text) else .putInmem text
  | .writing text => .putRedis text e.fault e.applied
  | .written text none => .putInmem text
  | .written text (some f) => if f.caught c.subject then .putInmem text else .go (.returned none)
  | .returned text => .go (.returned text)
  | .raised => .go .raised

def Move.apply (now ttl : Nat) (r m : Option (Entry α)) :
    Move α → Phase α × Option (Entry α) × Option (Entry α)
  | .go p => (p, r, m)
  | .getRedis =>
    match read now r with
    | some v => (.returned (some v), r, m)
    | none => (.missed none, r, m)
  | .getInmem => readInmem now r m
  | .putRedis text fault applied => (.written text fault, if applied then some ⟨now + ttl, text⟩ else r, m)
  | .putInmem text => writeInmem now ttl text r

def Move.found (now : Nat) (r m : Option (Entry α)) : Move α → Option α
  | .getRedis => read now r
  | .getInmem => read now m
  | _ => none

def Phase.pending : Phase α → Option α
  | .writing text => some text
  | .written text _ => some text
  | _ => none

def Move.text : Move α → Option α
  | .go p => p.pending
  | .putRedis text _ _ => some text
  | .putInmem text => some text
  | _ => none

variable {w : Callers ι T α} {e : Event ι} {p : Phase α} {r m y z : Option (Entry α)} {now ttl : Nat}
  {v : α} {mine : α → Prop}

theorem turn_eq_apply (w : Callers ι T α) (e : Event ι) (p : Phase α) (r m : Option (Entry α)) :
    w.turn e p r m = (w.move e p).apply e.now (w.call e.call).subject.ttlSeconds r m := by
  cases p with
  | begun =>
    simp only [Callers.turn, Callers.move]
    split_ifs <;> rfl
  | reading =>
    simp only [Callers.turn, Callers.move]
    cases e.fault <;> rfl
  | missed fault =>
    cases fault with
    | none => rfl
    | some f =>
      simp only [Callers.turn, Callers.move]
      split_ifs <;> rfl
  | asking =>
    simp only [Callers.turn, Callers.move]
    cases w.result e.call with
    | none => rfl
    | some text =>
      simp only
      split_ifs <;> rfl
  | written text fault =>
    cases fault with
    | none => rfl
    | some f =>
      simp only [Callers.turn, Callers.move]
      split_ifs <;> rfl
  | _ => rfl

/-- What a move can be: one without a text, a look into a cache, one with the text of the call's model,
or one with the text that the call already holds. -/
theorem move_cases (w : Callers ι T α) (e : Event ι) (p : Phase α) :
    (∃ q, w.move e p = .go q ∧ q.pending = none ∧ ∀ v, q = .returned (some v) → p = q) ∨
      w.move e p = .getRedis ∨ w.move e p = .getInmem ∨
      (∃ text, w.result e.call = some text ∧
        (w.move e p = .go (.writing text) ∨ w.move e p = .putInmem text)) ∨
      ∃ text, p.pending = some text ∧
        (w.move e p = .putRedis text e.fault e.applied ∨ w.move e p = .putInmem text) := by
  cases p with
  | begun =>
    simp only [Callers.move]
    split_ifs with hknown hredis
    · exact .inl ⟨_, rfl, rfl, fun v hv => by cases hv⟩
    · exact .inl ⟨_, rfl, rfl, fun v hv => by cases hv⟩
    · exact .inr (.inr (.inl rfl))
  | reading =>
    simp only [Callers.move]
    split_ifs with hfault
    · exact .inl ⟨_, rfl, rfl, fun v hv => by cases hv⟩
    · exact .inr (.inl rfl)
  | missed fault =>
    cases fault with
    | none => exact .inr (.inr (.inl rfl))
    | some f =>
      simp only [Callers.move]
      split_ifs with hcaught
      · exact .inr (.inr (.inl rfl))
      · exact .inl ⟨_, rfl, rfl, fun v hv => by cases hv⟩
  | asking =>
    cases hresult : w.result e.call with
    | none =>
      simp only [Callers.move, hresult]
      exact .inl ⟨_, rfl, rfl, fun v hv => by cases hv⟩
    | some text =>
      simp only [Callers.move, hresult]
      refine .inr (.inr (.inr (.inl ⟨text, rfl, ?_⟩)))
      split_ifs with hredis
      · exact .inl rfl
      · exact .inr rfl
  | writing text => exact .inr (.inr (.inr (.inr ⟨text, rfl, .inl rfl⟩)))
  | written text fault =>
    cases fault with
    | none => exact .inr (.inr (.inr (.inr ⟨text, rfl, .inr rfl⟩)))
    | some f =>
      simp only [Callers.move]
      split_ifs with hcaught
      · exact .inr (.inr (.inr (.inr ⟨text, rfl, .inr rfl⟩)))
      · exact .inl ⟨_, rfl, rfl, fun v hv => by cases hv⟩
  | returned text => exact .inl ⟨_, rfl, rfl, fun v _ => rfl⟩
  | raised => exact .inl ⟨_, rfl, rfl, fun v _ => rfl⟩

theorem move_text (h : (w.move e p).text = some v) : p.pending = some v ∨ w.result e.call = some v := by
  obtain ⟨q, hm, hq, -⟩ | hm | hm | ⟨text, hresult, hm | hm⟩ | ⟨text, hp, hm | hm⟩ := move_cases w e p <;>
    rw [hm] at h
  · exact absurd (hq.symm.trans h) nofun
  · cases h
  · cases h
  · exact .inr (hresult.trans h)
  · exact .inr (hresult.trans h)
  · exact .inl (hp.trans h)
  · exact .inl (hp.trans h)

/-- A call that had not returned a text does not do so without a look into a cache. -/
theorem move_returned (h : w.move e p = .go (.returned (some v))) : p = .returned (some v) := by
  obtain ⟨q, hm, -, hq⟩ | hm | hm | ⟨text, -, hm | hm⟩ | ⟨text, -, hm | hm⟩ := move_cases w e p <;>
    rw [hm] at h
  · obtain rfl : q = .returned (some v) := Move.go.inj h
    exact hq v rfl
  all_goals cases h

namespace Move

theorem apply_pending {mv : Move α} (h : (mv.apply now ttl r m).1.pending = some v) : mv.text = some v := by
  cases mv with
  | go p => exact h
  | getRedis =>
    simp only [apply] at h
    cases hread : read now r <;> rw [hread] at h <;> cases h
  | getInmem =>
    simp only [apply, readInmem] at h
    cases hread : read now m <;> rw [hread] at h <;> cases h
  | putRedis text fault applied => exact h
  | putInmem text => cases h

theorem apply_found (ttl : Nat) {mv : Move α} (h : mv.found now r m = some v) :
    (mv.apply now ttl r m).1 = .returned (some v) := by
  cases mv with
  | getRedis =>
    change read now r = some v at h
    simp only [apply, h]
  | getInmem =>
    change read now m = some v at h
    simp only [apply, readInmem, h]
  | _ => cases h

theorem readInmem_cells (now : Nat) (r m : Option (Entry α)) : (readInmem now r m).2 = (r, purge now m) := by
  unfold readInmem
  cases read now m <;> rfl

theorem getRedis_cells (now ttl : Nat) (r m : Option (Entry α)) : (getRedis.apply now ttl r m).2 = (r, m) := by
  simp only [apply]
  cases read now r <;> rfl

/-- A turn of one's own on the cells that are shared and on those that are not. -/
theorem apply_mine (ttl : Nat) (mv : Move α) (hr : Agrees mine now r y) (hm : Agrees mine now m z)
    (hfound : ∀ v, mv.found now r m = some v → mine v) :
    (mv.apply now ttl r m).1 = (mv.apply now ttl y z).1 ∧
      Agrees mine now (mv.apply now ttl r m).2.1 (mv.apply now ttl y z).2.1 ∧
      Agrees mine now (mv.apply now ttl r m).2.2 (mv.apply now ttl y z).2.2 := by
  cases mv with
  | go p => exact ⟨rfl, hr, hm⟩
  | getRedis =>
    rw [getRedis_cells, getRedis_cells]
    refine ⟨?_, hr, hm⟩
    simp only [apply, hr.read_eq hfound]
    cases read now y <;> rfl
  | getInmem =>
    simp only [apply]
    rw [readInmem_cells, readInmem_cells]
    refine ⟨?_, hr, hm.purge_both⟩
    simp only [readInmem, hm.read_eq hfound]
    cases read now z <;> rfl
  | putRedis text fault applied =>
    cases applied with
    | true => exact ⟨rfl, .rfl, hm⟩
    | false => exact ⟨rfl, hr, hm⟩
  | putInmem text => exact ⟨rfl, hr, .rfl⟩

theorem apply_other (mv : Move α) (hr : Agrees mine now r y) (hm : Agrees mine now m z)
    (htext : ∀ v, mv.text = some v → ¬mine v) (hy : ∀ e, y = some e → e.expiresAt ≤ now + ttl)
    (hz : ∀ e, z = some e → e.expiresAt ≤ now + ttl) :
    Agrees mine now (mv.apply now ttl r m).2.1 y ∧ Agrees mine now (mv.apply now ttl r m).2.2 z := by
  cases mv with
  | go p => exact ⟨hr, hm⟩
  | getRedis =>
    rw [getRedis_cells]
    exact ⟨hr, hm⟩
  | getInmem =>
    simp only [apply]
    rw [readInmem_cells]
    exact ⟨hr, hm.purge_shared⟩
  | putRedis text fault applied =>
    cases applied with
    | true => exact ⟨.put_other (htext text rfl) hy, hm⟩
    | false => exact ⟨hr, hm⟩
  | putInmem text => exact ⟨hr, .put_other (htext text rfl) hz⟩

theorem apply_bound (mv : Move α) (hy : ∀ e, y = some e → e.expiresAt ≤ now + ttl)
    (hz : ∀ e, z = some e → e.expiresAt ≤ now + ttl) :
    (∀ e, (mv.apply now ttl y z).2.1 = some e → e.expiresAt ≤ now + ttl) ∧
      ∀ e, (mv.apply now ttl y z).2.2 = some e → e.expiresAt ≤ now + ttl := by
  have hnew (text : α) : ∀ e, some (Entry.mk (now + ttl) text) = some e → e.expiresAt ≤ now + ttl := by
    intro e he
    cases he
    exact le_rfl
  cases mv with
  | go p => exact ⟨hy, hz⟩
  | getRedis =>
    rw [getRedis_cells]
    exact ⟨hy, hz⟩
  | getInmem =>
    simp only [apply]
    rw [readInmem_cells]
    exact ⟨hy, fun e he => hz e (purge_eq_some.mp he).1⟩
  | putRedis text fault applied =>
    cases applied with
    | true => exact ⟨hnew text, hz⟩
    | false => exact ⟨hy, hz⟩
  | putInmem text => exact ⟨hy, hnew text⟩

theorem apply_all {P : α → Prop} (now ttl : Nat) (mv : Move α) (hp : ∀ v, mv = .go (.returned (some v)) → P v)
    (htext : ∀ v, mv.text = some v → P v)
    (hr : ∀ e, r = some e → P e.value) (hm : ∀ e, m = some e → P e.value) :
    (∀ v, (mv.apply now ttl r m).1 = .returned (some v) → P v) ∧
      (∀ e, (mv.apply now ttl r m).2.1 = some e → P e.value) ∧
      ∀ e, (mv.apply now ttl r m).2.2 = some e → P e.value := by
  have hread {x : Option (Entry α)} (hx : ∀ e, x = some e → P e.value) {v : α} (h : read now x = some v) : P v := by
    obtain ⟨e, he, rfl⟩ := Option.map_eq_some_iff.mp h
    exact hx e (purge_eq_some.mp he).1
  cases mv with
  | go p => exact ⟨fun v hv => hp v (congrArg Move.go hv), hr, hm⟩
  | getRedis =>
    rw [getRedis_cells]
    refine ⟨fun v hv => hread hr (v := v) ?_, hr, hm⟩
    simp only [apply] at hv
    cases h : read now r <;> rw [h] at hv <;> cases hv
    rfl
  | getInmem =>
    simp only [apply] at *
    rw [readInmem_cells]
    refine ⟨fun v hv => hread hm (v := v) ?_, hr, fun e he => hm e (purge_eq_some.mp he).1⟩
    simp only [readInmem] at hv
    cases h : read now m <;> rw [h] at hv <;> cases hv
    rfl
  | putRedis text fault applied =>
    cases applied with
    | true =>
      refine ⟨fun v hv => (by cases hv), fun e he => ?_, hm⟩
      cases he
      exact htext text rfl
    | false => exact ⟨fun v hv => (by cases hv), hr, hm⟩
  | putInmem text =>
    refine ⟨fun v hv => ?_, hr, fun e he => ?_⟩
    · cases hv
      exact htext text rfl
    · cases he
      exact htext text rfl

end Move

end Moves

section TwoRuns

variable {ι T : Type} {w : Callers ι T ι} {b : T} {s t : State ι ι} {e : Event ι} {now : Nat}

def Callers.foundIn {α : Type} (w : Callers ι T α) (s : State ι α) (e : Event ι) : Option α :=
  (w.move e (s.phase e.call)).found e.now (s.redis (w.redisKey e.call)) (s.inmem (w.inmemKey e.call))

structure Follows (w : Callers ι T ι) (b : T) (now : Nat) (s t : State ι ι) : Prop where
  phase : ∀ c, (w.call c).tenant = b → s.phase c = t.phase c
  redis : ∀ k, Agrees (fun c => (w.call c).tenant = b) now (s.redis k) (t.redis k)
  inmem : ∀ k, Agrees (fun c => (w.call c).tenant = b) now (s.inmem k) (t.inmem k)
  pending : ∀ c v, (s.phase c).pending = some v → v = c
  redisBound : ∀ c e, t.redis (w.redisKey c) = some e → e.expiresAt ≤ now + (w.call c).subject.ttlSeconds
  inmemBound : ∀ c e, t.inmem (w.inmemKey c) = some e → e.expiresAt ≤ now + (w.call c).subject.ttlSeconds

theorem follows_initial (w : Callers ι T ι) (b : T) : Follows w b now .initial .initial where
  phase _ _ := rfl
  redis _ := .rfl
  inmem _ := .rfl
  pending _ _ h := by cases h
  redisBound _ _ h := by cases h
  inmemBound _ _ h := by cases h

theorem Follows.later (h : Follows w b now s t) {later : Nat} (hle : now ≤ later) : Follows w b later s t where
  phase := h.phase
  redis k := (h.redis k).later hle
  inmem k := (h.inmem k).later hle
  pending := h.pending
  redisBound c e he := (h.redisBound c e he).trans (Nat.add_le_add_right hle _)
  inmemBound c e he := (h.inmemBound c e he).trans (Nat.add_le_add_right hle _)

theorem ttl_of_redisKey {c d : Subject} (h : c.redisKey = d.redisKey) : c.ttlSeconds = d.ttlSeconds := by
  have hkind : c.redisKey[7]? = d.redisKey[7]? := congrArg (·[7]?) h
  cases c <;> cases d <;> simp [Subject.redisKey, Subject.ttlSeconds, str] at hkind ⊢

theorem ttl_of_inmemKey {c d : Subject} (h : c.inmemKey = d.inmemKey) : c.ttlSeconds = d.ttlSeconds := by
  cases c <;> cases d
  · rfl
  · cases h
  · cases h
  · rfl

theorem advance_eq {α : Type} (w : Callers ι T α) (s : State ι α) (e : Event ι) :
    w.turnIn s e = (w.move e (s.phase e.call)).apply e.now (w.call e.call).subject.ttlSeconds
      (s.redis (w.redisKey e.call)) (s.inmem (w.inmemKey e.call)) := turn_eq_apply ..

theorem move_text_eq (hresult : ∀ c v, w.result c = some v → v = c)
    (h : ∀ c v, (s.phase c).pending = some v → v = c) {v : ι}
    (hv : (w.move e (s.phase e.call)).text = some v) : v = e.call := by
  obtain hp | hr := move_text hv
  · exact h _ v hp
  · exact hresult _ v hr

variable [DecidableEq ι]

/-- No call of the tenant comes upon a live entry that is not the tenant's. Instead of the
texts it is followed here whose they are. -/
def Callers.Untouched (w : Callers ι T ι) (b : T) : State ι ι → List (Event ι) → Prop
  | _, [] => True
  | s, e :: es =>
    ((w.call e.call).tenant = b → ∀ c, w.foundIn s e = some c → (w.call c).tenant = b) ∧
      w.Untouched b (w.advance s e) es

theorem advance_pending (hresult : ∀ c v, w.result c = some v → v = c)
    (h : ∀ c v, (s.phase c).pending = some v → v = c) :
    ∀ c v, ((w.advance s e).phase c).pending = some v → v = c := by
  intro c v hv
  simp only [Callers.advance, Function.update_apply] at hv
  split_ifs at hv with hc
  · subst hc
    rw [advance_eq] at hv
    obtain hp | hr := move_text (Move.apply_pending hv)
    · exact h _ v hp
    · exact hresult _ v hr
  · exact h c v hv

theorem Follows.advance_other (h : Follows w b e.now s t) (hresult : ∀ c v, w.result c = some v → v = c)
    (hother : (w.call e.call).tenant ≠ b) : Follows w b e.now (w.advance s e) t := by
  have hcells := (w.move e (s.phase e.call)).apply_other (h.redis (w.redisKey e.call))
    (h.inmem (w.inmemKey e.call)) (fun v hv => by rwa [move_text_eq hresult h.pending hv])
    (h.redisBound e.call) (h.inmemBound e.call)
  rw [← advance_eq] at hcells
  refine ⟨fun c hc => ?_, fun k => ?_, fun k => ?_, advance_pending hresult h.pending, h.redisBound, h.inmemBound⟩
  · have hne : c ≠ e.call := fun heq => hother (heq ▸ hc)
    exact (Function.update_of_ne hne _ _).trans (h.phase c hc)
  · simp only [Callers.advance, Function.update_apply]
    split_ifs with hk
    · subst hk
      exact hcells.1
    · exact h.redis k
  · simp only [Callers.advance, Function.update_apply]
    split_ifs with hk
    · subst hk
      exact hcells.2
    · exact h.inmem k

theorem Follows.advance_mine (h : Follows w b e.now s t) (hresult : ∀ c v, w.result c = some v → v = c)
    (hmine : (w.call e.call).tenant = b) (hfound : ∀ c, w.foundIn s e = some c → (w.call c).tenant = b) :
    Follows w b e.now (w.advance s e) (w.advance t e) := by
  have hphase := h.phase e.call hmine
  have hcells := Move.apply_mine (w.call e.call).subject.ttlSeconds (w.move e (s.phase e.call))
    (h.redis (w.redisKey e.call)) (h.inmem (w.inmemKey e.call)) hfound
  have hbound := (w.move e (t.phase e.call)).apply_bound (h.redisBound e.call) (h.inmemBound e.call)
  rw [← advance_eq] at hcells hbound
  rw [hphase, ← advance_eq] at hcells
  refine ⟨fun c hc => ?_, fun k => ?_, fun k => ?_, advance_pending hresult h.pending, fun c x hx => ?_,
    fun c x hx => ?_⟩
  · simp only [Callers.advance, Function.update_apply]
    split_ifs with hk
    · exact hcells.1
    · exact h.phase c hc
  · simp only [Callers.advance, Function.update_apply]
    split_ifs with hk
    · subst hk
      exact hcells.2.1
    · exact h.redis k
  · simp only [Callers.advance, Function.update_apply]
    split_ifs with hk
    · subst hk
      exact hcells.2.2
    · exact h.inmem k
  · simp only [Callers.advance, Function.update_apply] at hx
    split_ifs at hx with hk
    · rw [ttl_of_redisKey hk]
      exact hbound.1 x hx
    · exact h.redisBound c x hx
  · simp only [Callers.advance, Function.update_apply] at hx
    split_ifs at hx with hk
    · rw [ttl_of_inmemKey (congrArg Prod.snd hk)]
      exact hbound.2 x hx
    · exact h.inmemBound c x hx

theorem Follows.run {es : List (Event ι)} (h : Follows w b now s t)
    (hresult : ∀ c v, w.result c = some v → v = c) (hsorted : (es.map Event.now).Pairwise (· ≤ ·))
    (hnow : ∀ e ∈ es, now ≤ e.now) (huntouched : w.Untouched b s es) [DecidableEq T] :
    ∃ later, Follows w b later (w.run s es) (w.run t (es.filter fun e => (w.call e.call).tenant = b)) := by
  induction es generalizing s t now with
  | nil => exact ⟨now, h⟩
  | cons e es ih =>
    obtain ⟨hfound, hrest⟩ := huntouched
    obtain ⟨hle, hsorted⟩ := List.pairwise_cons.mp hsorted
    have hlater : ∀ e' ∈ es, e.now ≤ e'.now := fun e' he' => hle _ (List.mem_map_of_mem he')
    have hhere := h.later (hnow e List.mem_cons_self)
    by_cases hmine : (w.call e.call).tenant = b
    · rw [List.filter_cons_of_pos (by simpa using hmine)]
      exact ih (hhere.advance_mine hresult hmine (hfound hmine)) hsorted hlater hrest
    · rw [List.filter_cons_of_neg (by simpa using hmine)]
      exact ih (hhere.advance_other hresult hmine) hsorted hlater hrest

theorem run_returned {α : Type} {w : Callers ι T α} {c : ι} {v : Option α} (es : List (Event ι))
    {s : State ι α} (h : s.phase c = .returned v) : (w.run s es).phase c = .returned v := by
  induction es generalizing s with
  | nil => exact h
  | cons e es ih =>
    refine ih ?_
    simp only [Callers.advance, Function.update_apply]
    split_ifs with hc
    · subst hc
      rw [advance_eq, h]
      rfl
    · exact h

theorem returned_of_touched {es : List (Event ι)} (h : ¬w.Untouched b s es) :
    ∃ c v, (w.call c).tenant = b ∧ (w.call v).tenant ≠ b ∧ (w.run s es).phase c = .returned (some v) := by
  induction es generalizing s with
  | nil => exact absurd trivial h
  | cons e es ih =>
    by_cases hrest : w.Untouched b (w.advance s e) es
    · have hfound : ¬((w.call e.call).tenant = b → ∀ c, w.foundIn s e = some c → (w.call c).tenant = b) :=
        fun hf => h ⟨hf, hrest⟩
      push Not at hfound
      obtain ⟨hmine, v, hv, hother⟩ := hfound
      refine ⟨e.call, v, hmine, hother, run_returned es ?_⟩
      have hreturned := Move.apply_found (w.call e.call).subject.ttlSeconds hv
      rw [← advance_eq] at hreturned
      simpa only [Callers.advance, Function.update_self] using hreturned
    · exact ih hrest

structure State.All {α : Type} (P : α → Prop) (s : State ι α) : Prop where
  pending : ∀ c v, (s.phase c).pending = some v → P v
  returned : ∀ c v, s.phase c = .returned (some v) → P v
  redis : ∀ k e, s.redis k = some e → P e.value
  inmem : ∀ k e, s.inmem k = some e → P e.value

theorem State.All.advance {α : Type} {w : Callers ι T α} {P : α → Prop} {s : State ι α} (h : s.All P)
    (he : ∀ v, w.result e.call = some v → P v) : (w.advance s e).All P := by
  have htext : ∀ v, (w.move e (s.phase e.call)).text = some v → P v := fun v hv =>
    (move_text hv).elim (h.pending _ v) (he v)
  obtain ⟨hreturned, hredis, hinmem⟩ := Move.apply_all e.now (w.call e.call).subject.ttlSeconds
    (w.move e (s.phase e.call)) (fun v hv => h.returned _ v (move_returned hv)) htext
    (h.redis (w.redisKey e.call)) (h.inmem (w.inmemKey e.call))
  have hpending : ∀ v, (w.turnIn s e).1.pending = some v → P v := fun v hv => by
    rw [advance_eq] at hv
    exact htext v (Move.apply_pending hv)
  rw [← advance_eq] at hreturned hredis hinmem
  constructor
  · intro c v hv
    simp only [Callers.advance, Function.update_apply] at hv
    split_ifs at hv
    · exact hpending v hv
    · exact h.pending c v hv
  · intro c v hv
    simp only [Callers.advance, Function.update_apply] at hv
    split_ifs at hv
    · exact hreturned v hv
    · exact h.returned c v hv
  · intro k x hx
    simp only [Callers.advance, Function.update_apply] at hx
    split_ifs at hx
    · exact hredis x hx
    · exact h.redis k x hx
  · intro k x hx
    simp only [Callers.advance, Function.update_apply] at hx
    split_ifs at hx
    · exact hinmem x hx
    · exact h.inmem k x hx

theorem run_all {α : Type} {w : Callers ι T α} {P : α → Prop} {es : List (Event ι)} {s : State ι α}
    (hs : s.All P) (h : ∀ e ∈ es, ∀ v, w.result e.call = some v → P v) : (w.run s es).All P := by
  induction es generalizing s with
  | nil => exact hs
  | cons e es ih =>
    obtain ⟨he, hes⟩ := List.forall_mem_cons.mp h
    exact ih (hs.advance he) hes

end TwoRuns

section Worlds

variable {ι T : Type}

/-- The callers of a world, with a text's call in the place of the text. -/
def World.origins (w : World ι T) : Callers ι T ι where
  call := w.call
  known c := w.registry.knows (w.call c).subject
  result c := (w.result c).map fun _ => c

def World.textOf (w : World ι T) (c : ι) : Str := (w.result c).getD []

theorem callers_eq_map (w : World ι T) : w.callers = w.origins.map w.textOf := by
  have hresult : w.result = fun c => ((w.result c).map fun _ => c).map w.textOf := by
    funext c
    cases h : w.result c with
    | none => rfl
    | some text => simp [World.textOf, h]
  exact congrArg (Callers.mk w.call _) hresult

/-- Other replies of the models of the others, which are of use for the same calls. -/
structure Retold (w : World ι T) (b : T) (reply : ι → Request → Reply) : Prop where
  mine : ∀ c, (w.call c).tenant = b → reply c = w.reply c
  others : ∀ c, ({ w with reply } : World ι T).origins.result c = w.origins.result c

theorem Retold.origins_eq {w : World ι T} {b : T} {reply : ι → Request → Reply} (h : Retold w b reply) :
    ({ w with reply } : World ι T).origins = w.origins :=
  congrArg (Callers.mk w.call _) (funext h.others)

/-- A text that no white space ends and that is longer than another. -/
def longer (s : Str) : Str := List.replicate (s.length + 1) 120

theorem longer_result (s : Str) : (Reply.text (some (longer s))).result = some (longer s) := by
  have hvisible : spaceCode 120 = false := by decide
  have hstripped : stripped (longer s) = longer s := by
    have hlast : (longer s).rdropWhile spaceCode = longer s := by
      rw [longer, List.replicate_succ', List.rdropWhile_concat_neg]
      rw [hvisible]
      exact Bool.false_ne_true
    have hfirst : (longer s).dropWhile spaceCode = longer s := by
      rw [longer, List.replicate_succ, List.dropWhile_cons_of_neg]
      rw [hvisible]
      exact Bool.false_ne_true
    rw [stripped, hfirst, hlast]
  simp only [Reply.result, Option.getD_some, hstripped]
  rfl

theorem result_of_reply {w : World ι T} {reply : ι → Request → Reply} {c : ι} (h : reply c = w.reply c) :
    ({ w with reply } : World ι T).result c = w.result c := by
  change ((w.registry.request _ _).bind fun q => (reply c q).result) = _
  rw [h]
  rfl

def World.places [DecidableEq ι] (w : World ι T) : State ι ι := w.origins.run .initial w.schedule

theorem text_eq [DecidableEq ι] (w : World ι T) (c : ι) : w.text c = ((w.places.phase c).map w.textOf).text := by
  have hrun : w.callers.run .initial w.schedule = w.places.map w.textOf := by
    rw [callers_eq_map]
    exact run_map State.initial w.schedule
  rw [World.text, hrun]
  rfl

theorem places_all [DecidableEq ι] {w : World ι T} {P : ι → Prop}
    (h : ∀ e ∈ w.schedule, ∀ text, w.result e.call = some text → P e.call) {c v : ι}
    (hc : w.places.phase c = .returned (some v)) : P v := by
  have hinitial : (State.initial : State ι ι).All P :=
    ⟨fun _ _ h => (by cases h), fun _ _ h => (by cases h), fun _ _ h => (by cases h), fun _ _ h => (by cases h)⟩
  have hall : w.places.All P := run_all hinitial fun e he v hv => by
    obtain ⟨text, htext, rfl⟩ := Option.map_eq_some_iff.mp hv
    exact h e he text htext
  exact hall.returned c v hc

variable [DecidableEq T]

/-- The others' models say something new wherever what they say is of use. -/
def World.reworded (w : World ι T) (b : T) (s : Str) (c : ι) (q : Request) : Reply :=
  if (w.call c).tenant ≠ b ∧ (w.result c).isSome then .text (some (longer s)) else w.reply c q

theorem reworded_result {w : World ι T} {b : T} (s : Str) {c : ι} (hc : (w.call c).tenant ≠ b)
    (hsome : (w.result c).isSome) :
    ({ w with reply := w.reworded b s } : World ι T).result c = some (longer s) := by
  obtain ⟨text, htext⟩ := Option.isSome_iff_exists.mp hsome
  obtain ⟨q, hq, -⟩ := Option.bind_eq_some_iff.mp htext
  refine Option.bind_eq_some_iff.mpr ⟨q, hq, ?_⟩
  change (w.reworded b s c q).result = _
  rw [World.reworded, if_pos ⟨hc, hsome⟩]
  exact longer_result s

theorem reworded_reply {w : World ι T} {b : T} (s : Str) {c : ι}
    (h : ¬((w.call c).tenant ≠ b ∧ (w.result c).isSome)) : w.reworded b s c = w.reply c :=
  funext fun _ => if_neg h

theorem retold_reworded (w : World ι T) (b : T) (s : Str) : Retold w b (w.reworded b s) where
  mine c hc := reworded_reply s fun h => h.1 hc
  others c := by
    by_cases h : (w.call c).tenant ≠ b ∧ (w.result c).isSome
    · obtain ⟨text, htext⟩ := Option.isSome_iff_exists.mp h.2
      change (({ w with reply := w.reworded b s } : World ι T).result c).map _ = (w.result c).map _
      rw [reworded_result s h.1 h.2, htext]
      rfl
    · change (({ w with reply := w.reworded b s } : World ι T).result c).map _ = (w.result c).map _
      rw [result_of_reply (reworded_reply s h)]

variable [DecidableEq ι]

def World.Untouched (w : World ι T) (b : T) : Prop := w.origins.Untouched b .initial w.schedule

theorem undisturbed_of_untouched {w : World ι T} {b : T} (h : w.Untouched b) : w.Undisturbed b := by
  have hresult : ∀ c v, w.origins.result c = some v → v = c := by
    intro c v hv
    obtain ⟨_, -, rfl⟩ := Option.map_eq_some_iff.mp hv
    rfl
  have hinitial : Follows w.origins b 0 .initial .initial := follows_initial w.origins b
  obtain ⟨_, hfollows⟩ : ∃ later, Follows w.origins b later w.places (w.alone b).places :=
    hinitial.run hresult (List.pairwise_map.mpr w.sorted)
      (fun e _ => Nat.zero_le e.now) h
  intro c hc
  rw [text_eq, text_eq, hfollows.phase c hc]
  rfl

/-- Alone a tenant's texts do not depend on what the others' models say. -/
theorem alone_text {w : World ι T} {b : T} {reply : ι → Request → Reply} (h : Retold w b reply) (c : ι) :
    (({ w with reply } : World ι T).alone b).text c = (w.alone b).text c := by
  have hplaces : (({ w with reply } : World ι T).alone b).places = (w.alone b).places :=
    congrArg (fun o : Callers ι T ι => o.run .initial (w.alone b).schedule) h.origins_eq
  rw [text_eq, text_eq, hplaces]
  cases hphase : (w.alone b).places.phase c with
  | returned text =>
    cases text with
    | none => rfl
    | some v =>
      have hmine : (w.call v).tenant = b := by
        refine places_all (w := w.alone b) (P := fun v => (w.call v).tenant = b) (fun e he _ _ => ?_) hphase
        simpa using (List.mem_filter.mp he).2
      have hresult : ({ w with reply } : World ι T).result v = w.result v := result_of_reply (h.mine v hmine)
      have htextOf : (({ w with reply } : World ι T).alone b).textOf v = (w.alone b).textOf v :=
        congrArg (Option.getD · []) hresult
      exact congrArg some htextOf
  | _ => rfl

/-- Whatever the others' models say, a tenant gets the same texts as alone just when none of
its calls comes upon a live entry that a call of someone else has written. -/
theorem undisturbed_iff_untouched (w : World ι T) (b : T) :
    (∀ reply, Retold w b reply → ({ w with reply } : World ι T).Undisturbed b) ↔ w.Untouched b := by
  constructor
  · intro h
    by_contra htouched
    obtain ⟨c, v, hc, hv, hphase⟩ := returned_of_touched htouched
    change w.places.phase c = .returned (some v) at hphase
    let s := ((w.alone b).text c).getD []
    have hsome : (w.result v).isSome :=
      places_all (P := fun v => (w.result v).isSome) (fun e _ text htext => htext ▸ rfl) hphase
    have hretold := retold_reworded w b s
    have htext : ({ w with reply := w.reworded b s } : World ι T).text c = some (longer s) := by
      have hplaces : ({ w with reply := w.reworded b s } : World ι T).places = w.places :=
        congrArg (fun o : Callers ι T ι => o.run .initial w.schedule) hretold.origins_eq
      rw [text_eq, hplaces, hphase]
      change some (Option.getD (World.result _ v) []) = _
      rw [reworded_result s hv hsome]
      rfl
    have hsame := h _ hretold c hc
    rw [htext, alone_text hretold] at hsame
    have hlength : (longer s).length = s.length := by
      change (longer s).length = (((w.alone b).text c).getD []).length
      rw [← hsame]
      rfl
    rw [longer, List.length_replicate] at hlength
    omega
  · intro h reply hretold
    refine undisturbed_of_untouched ?_
    change Callers.Untouched _ b .initial w.schedule
    rw [hretold.origins_eq]
    exact h

end Worlds

/-- Two tenants ask the same of one module in one process without Redis, first the one and
then the other. -/
def twoTenants : World Bool Bool where
  registry := { get := fun m => if m = str "accounts" then some (str "You know accounting.") else none
                getFamily := fun _ => none }
  call b := { tenant := b, subject := .module (str "accounts") (str "create_doctype") none, siteConfig := []
              hasRedis := false, worker := 0 }
  reply b _ := .text (some (if b then str "Use the role Accounts User." else str "Grant System Manager to all."))
  schedule := [⟨false, 0, none, true⟩, ⟨false, 1, none, true⟩, ⟨true, 2, none, true⟩, ⟨true, 3, none, true⟩]
  sorted := by decide

theorem first_tenant_writes_for_both : ¬twoTenants.Undisturbed true := fun h =>
  absurd (h true rfl) (by decide)

end AlfredProcessing.Agents.ContextCache
