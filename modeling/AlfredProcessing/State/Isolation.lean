import Mathlib.Data.List.Forall2
import AlfredProcessing.Lib.Cells
import AlfredProcessing.State.Store

namespace AlfredProcessing.State.Isolation

open Lib.Cells Store

/-- The JSON values of a program, with `json.dumps`, which refuses some objects,
and `json.loads`. -/
structure Codec (V : Type) where
  dumps : V → Option String
  loads : String → Option V
  loads_dumps : ∀ {v : V} {text : String}, dumps v = some text → loads text = some v

abbrev StreamId := Nat × Nat

inductive Entry where
  | text (s : String)
  | stream (entries : List (StreamId × String))

inductive Failure where
  | empty (name : String)
  | invalid (name value : String)
  | notPositive (ttlSeconds : Int)
  | notSerializable
  | notJson
  | wrongType

/-- The operations of the store. The ID of a pushed event and how many old events
are trimmed for it is up to Redis. -/
inductive Op (V : Type) where
  | setTaskState (siteId taskId : String) (state : V) (ttlSeconds : Option Int)
  | getTaskState (siteId taskId : String)
  | deleteTaskState (siteId taskId : String)
  | setCurrentAgent (siteId taskId agent : String) (ttlSeconds : Option Int)
  | getCurrentAgent (siteId taskId : String)
  | pushEvent (siteId conversationId : String) (event : V) (entryId : StreamId) (trimmed : Nat)
  | getEvents (siteId conversationId sinceId : String)
  | setWithTtl (siteId key value : String) (ttlSeconds : Int)
  | getCached (siteId key : String)

inductive EventData (V : Type) where
  | data (v : V)
  | raw (text : String)

inductive Reply (V : Type) where
  | done
  | state (v : Option V)
  | existed (b : Bool)
  | text (s : Option String)
  | pushed (entryId : StreamId)
  | events (es : List (StreamId × EventData V))
  | failed (e : Failure)

inductive Kind where
  | task
  | agent
  | events
  | cache
  deriving DecidableEq

structure Slot where
  siteId : String
  kind : Kind
  id : String
  deriving DecidableEq

def currentAgentKey (siteId taskId : String) : Option String :=
  if validId taskId then key siteId ["task", taskId, "current_agent"] else none

def cacheKey (siteId k : String) : Option String :=
  if validId k then key siteId ["cache", k] else none

def Slot.key (p : Slot) : Option String :=
  match p.kind with
  | .task => taskKey p.siteId p.id
  | .agent => currentAgentKey p.siteId p.id
  | .events => eventsKey p.siteId p.id
  | .cache => cacheKey p.siteId p.id

def Kind.idName : Kind → String
  | .task => "task_id"
  | .agent => "task_id"
  | .events => "conversation_id"
  | .cache => "cache key"

/-- What `_validate_id` says of the first of the slot's two IDs that is refused. -/
def Slot.failure (p : Slot) : Failure :=
  if p.id.isEmpty then .empty p.kind.idName
  else if !validId p.id then .invalid p.kind.idName p.id
  else if p.siteId.isEmpty then .empty "site_id"
  else .invalid "site_id" p.siteId

section Operations

variable {V : Type} (codec : Codec V) (taskStateTtl : Int) (parseId : String → Option StreamId)

def Op.slot : Op V → Slot
  | .setTaskState siteId taskId _ _ => ⟨siteId, .task, taskId⟩
  | .getTaskState siteId taskId => ⟨siteId, .task, taskId⟩
  | .deleteTaskState siteId taskId => ⟨siteId, .task, taskId⟩
  | .setCurrentAgent siteId taskId _ _ => ⟨siteId, .agent, taskId⟩
  | .getCurrentAgent siteId taskId => ⟨siteId, .agent, taskId⟩
  | .pushEvent siteId conversationId _ _ _ => ⟨siteId, .events, conversationId⟩
  | .getEvents siteId conversationId _ => ⟨siteId, .events, conversationId⟩
  | .setWithTtl siteId k _ _ => ⟨siteId, .cache, k⟩
  | .getCached siteId k => ⟨siteId, .cache, k⟩

/-- The key that an operation builds. Only `set_with_ttl` looks at something else
before. -/
def Op.target (o : Op V) : Option String :=
  match o with
  | .setWithTtl siteId k _ ttlSeconds => if ttlSeconds ≤ 0 then none else cacheKey siteId k
  | o => o.slot.key

def Op.reject (o : Op V) : Reply V :=
  match o with
  | .setWithTtl _ _ _ ttlSeconds =>
    if ttlSeconds ≤ 0 then .failed (.notPositive ttlSeconds) else .failed o.slot.failure
  | o => .failed o.slot.failure

/-- `SETEX`, behind the check of the time to live. -/
def setex (value : String) (ttlSeconds : Option Int) (e : Option Entry) : Reply V × Option Entry :=
  if ttlSeconds.getD taskStateTtl ≤ 0 then
    (.failed (.notPositive (ttlSeconds.getD taskStateTtl)), e)
  else (.done, some (.text value))

/-- `GET`. -/
def getText (f : Option String → Reply V) : Option Entry → Reply V
  | none => f none
  | some (.text s) => f (some s)
  | some (.stream _) => .failed .wrongType

def loadState : Option String → Reply V
  | none => .state none
  | some s =>
    match codec.loads s with
    | some v => .state (some v)
    | none => .failed .notJson

def after (a b : StreamId) : Bool := a.1 < b.1 || a.1 = b.1 && a.2 < b.2

/-- The entries behind `sinceId`; all of them for `"0"` and for what is no ID. -/
def entriesSince {α : Type} (sinceId : String) (es : List (StreamId × α)) : List (StreamId × α) :=
  if sinceId = "0" then es
  else
    match parseId sinceId with
    | some a => es.filter fun e => after a e.1
    | none => es

def readEvent (e : StreamId × String) : StreamId × EventData V :=
  match codec.loads e.2 with
  | some v => (e.1, .data v)
  | none => (e.1, .raw e.2)

def Op.act (o : Op V) (e : Option Entry) : Reply V × Option Entry :=
  match o with
  | .setTaskState _ _ state ttlSeconds =>
    match codec.dumps state with
    | none => (.failed .notSerializable, e)
    | some text => setex taskStateTtl text ttlSeconds e
  | .getTaskState .. => (getText (loadState codec) e, e)
  | .deleteTaskState .. => (.existed e.isSome, none)
  | .setCurrentAgent _ _ agent ttlSeconds => setex taskStateTtl agent ttlSeconds e
  | .getCurrentAgent .. => (getText .text e, e)
  | .pushEvent _ _ event entryId trimmed =>
    match codec.dumps event with
    | none => (.failed .notSerializable, e)
    | some text =>
      match e with
      | none => (.pushed entryId, some (.stream ([(entryId, text)].drop trimmed)))
      | some (.stream es) => (.pushed entryId, some (.stream ((es ++ [(entryId, text)]).drop trimmed)))
      | some (.text _) => (.failed .wrongType, e)
  | .getEvents _ _ sinceId =>
    match e with
    | none => (.events [], e)
    | some (.stream es) => (.events ((entriesSince parseId sinceId es).map (readEvent codec)), e)
    | some (.text _) => (.failed .wrongType, e)
  | .setWithTtl _ _ value ttlSeconds => setex taskStateTtl value (some ttlSeconds) e
  | .getCached .. => (getText .text e, e)

end Operations

def Slot.pieces (p : Slot) : List String :=
  "alfred" :: p.siteId ::
    match p.kind with
    | .task => ["task", p.id]
    | .agent => ["task", p.id, "current_agent"]
    | .events => ["events", p.id]
    | .cache => ["cache", p.id]

theorem Slot.key_eq_some {p : Slot} {k : String} :
    p.key = some k ↔ validId p.id ∧ validId p.siteId ∧ ":".intercalate p.pieces = k := by
  obtain ⟨siteId, kind, id⟩ := p
  cases kind <;>
    simp [Slot.key, Slot.pieces, taskKey, currentAgentKey, eventsKey, cacheKey, Store.key]

theorem Slot.colon_notMem_pieces {p : Slot} (hid : validId p.id) (hsite : validId p.siteId) :
    ∀ s ∈ p.pieces, ':' ∉ s.toList := by
  obtain ⟨siteId, kind, id⟩ := p
  have hid := colon_notMem hid
  have hsite := colon_notMem hsite
  cases kind <;> simp_all [Slot.pieces]

theorem Slot.pieces_inj {p q : Slot} (h : p.pieces = q.pieces) : p = q := by
  obtain ⟨siteId, kind, id⟩ := p
  obtain ⟨siteId', kind', id'⟩ := q
  cases kind <;> cases kind' <;> simp_all [Slot.pieces]

theorem Slot.key_inj {p q : Slot} {k : String} (hp : p.key = some k) (hq : q.key = some k) :
    p = q := by
  obtain ⟨hid, hsite, hk⟩ := key_eq_some.mp hp
  obtain ⟨hid', hsite', hk'⟩ := key_eq_some.mp hq
  refine pieces_inj (intercalate_colon_inj (colon_notMem_pieces hid hsite)
    (colon_notMem_pieces hid' hsite') ?_ ?_ (hk.trans hk'.symm))
  · exact List.cons_ne_nil _ _
  · exact List.cons_ne_nil _ _

section Runs

variable {V : Type} (codec : Codec V) (taskStateTtl : Int) (parseId : String → Option StreamId)

theorem Op.target_key {o : Op V} {k : String} (h : o.target = some k) : o.slot.key = some k := by
  cases o with
  | setWithTtl siteId k' value ttlSeconds =>
    simp only [Op.target, Option.ite_none_left_eq_some] at h
    exact h.2
  | _ => exact h

def layout : Layout Slot String Entry (Op V) (Reply V) where
  key := Slot.key
  key_inj := Slot.key_inj
  slot := Op.slot
  target := Op.target
  target_key := Op.target_key
  reject := Op.reject
  act := Op.act codec taskStateTtl parseId

/-- What an operation returns behind others, on a Redis that was empty. -/
abbrev reply (os : List (Op V)) (o : Op V) : Reply V :=
  (layout codec taskStateTtl parseId).reply os o

def stateWrite (siteId taskId : String) : Op V → Option (Option V)
  | .setTaskState s t v ttlSeconds =>
    if s = siteId ∧ t = taskId ∧ (codec.dumps v).isSome ∧ 0 < ttlSeconds.getD taskStateTtl then
      some (some v)
    else none
  | .deleteTaskState s t => if s = siteId ∧ t = taskId then some none else none
  | _ => none

def textWrite (p : Slot) : Op V → Option (Option String)
  | .setCurrentAgent s t agent ttlSeconds =>
    if ⟨s, .agent, t⟩ = p ∧ 0 < ttlSeconds.getD taskStateTtl then some (some agent) else none
  | .setWithTtl s k value ttlSeconds =>
    if ⟨s, .cache, k⟩ = p ∧ 0 < ttlSeconds then some (some value) else none
  | _ => none

def pushed (siteId conversationId : String) (os : List (Op V)) : List (StreamId × V) :=
  os.foldl (fun es o =>
    match o with
    | .pushEvent s c event entryId trimmed =>
      if s = siteId ∧ c = conversationId ∧ (codec.dumps event).isSome then
        (es ++ [(entryId, event)]).drop trimmed
      else es
    | _ => es) []

structure ReadsLastWrite (os : List (Op V)) : Prop where
  state : ∀ siteId taskId, validId siteId → validId taskId →
    reply codec taskStateTtl parseId os (.getTaskState siteId taskId) =
      .state (lastWrite (stateWrite codec taskStateTtl siteId taskId) os)
  agent : ∀ siteId taskId, validId siteId → validId taskId →
    reply codec taskStateTtl parseId os (.getCurrentAgent siteId taskId) =
      .text (lastWrite (textWrite taskStateTtl ⟨siteId, .agent, taskId⟩) os)
  cached : ∀ siteId k, validId siteId → validId k →
    reply codec taskStateTtl parseId os (.getCached siteId k) =
      .text (lastWrite (textWrite taskStateTtl ⟨siteId, .cache, k⟩) os)
  events : ∀ siteId conversationId sinceId, validId siteId → validId conversationId →
    reply codec taskStateTtl parseId os (.getEvents siteId conversationId sinceId) =
      .events ((entriesSince parseId sinceId (pushed codec siteId conversationId os)).map
        fun e => (e.1, .data e.2))

variable {codec taskStateTtl parseId} {siteId id : String}

theorem key_of_valid (kind : Kind) (hsite : validId siteId) (hid : validId id) :
    ∃ k, Slot.key ⟨siteId, kind, id⟩ = some k := by
  exact ⟨_, Slot.key_eq_some.mpr ⟨hid, hsite, rfl⟩⟩

def Encodes (codec : Codec V) : Option V → Option Entry → Prop
  | none, e => e = none
  | some v, e => ∃ text, codec.dumps v = some text ∧ e = some (.text text)

theorem setex_entry (value : String) (ttlSeconds : Option Int) (e : Option Entry) :
    (setex (V := V) taskStateTtl value ttlSeconds e).2 =
      if 0 < ttlSeconds.getD taskStateTtl then some (.text value) else e := by
  unfold setex
  split
  · next h => rw [if_neg (Int.not_lt.mpr h)]
  · next h => rw [if_pos (Int.not_le.mp h)]

theorem layout_write (p : Slot) (e : Option Entry) (o : Op V) :
    (layout codec taskStateTtl parseId).write p e o =
      if o.slot = p ∧ o.target.isSome then (o.act codec taskStateTtl parseId e).2 else e := rfl

theorem content_task (hsite : validId siteId) (hid : validId id) (os : List (Op V)) :
    Encodes codec (lastWrite (stateWrite codec taskStateTtl siteId id) os)
      ((layout codec taskStateTtl parseId).content ⟨siteId, .task, id⟩ os) := by
  obtain ⟨k, hk⟩ := key_of_valid .task hsite hid
  refine Layout.content_lastWrite (l := layout codec taskStateTtl parseId) (R := Encodes codec) rfl
    (fun o x e h => ?_) (fun o e h => ?_) os
  · rw [layout_write]
    cases o with
    | setTaskState s t v ttlSeconds =>
      simp only [stateWrite, Option.ite_none_right_eq_some, Option.some.injEq] at h
      obtain ⟨⟨rfl, rfl, hv, httl⟩, rfl⟩ := h
      obtain ⟨text, hv⟩ := Option.isSome_iff_exists.mp hv
      simp [Op.slot, Op.target, hk, Op.act, hv, setex_entry, httl, Encodes]
    | deleteTaskState s t =>
      simp only [stateWrite, Option.ite_none_right_eq_some, Option.some.injEq] at h
      obtain ⟨⟨rfl, rfl⟩, rfl⟩ := h
      simp [Op.slot, Op.target, hk, Op.act, Encodes]
    | _ => simp [stateWrite] at h
  · cases o with
    | setTaskState s t v ttlSeconds =>
      rw [layout_write]
      simp only [stateWrite, ite_eq_right_iff, reduceCtorEq, imp_false, not_and] at h
      split
      · next hslot =>
        obtain ⟨rfl, rfl⟩ : s = siteId ∧ t = id := by simpa [Op.slot] using hslot.1
        cases hv : codec.dumps v with
        | none => simp [Op.act, hv]
        | some text => simp [Op.act, hv, setex_entry, h rfl rfl (by simp [hv])]
      · rfl
    | deleteTaskState s t =>
      refine Layout.write_of_other (fun hslot => ?_) e
      simp_all [stateWrite, layout, Op.slot]
    | getTaskState s t => exact Layout.write_of_unchanged rfl
    | _ => exact Layout.write_of_other (by simp [layout, Op.slot]) e

theorem content_text {p : Slot} {k : String} (hk : p.key = some k) (htask : p.kind ≠ .task)
    (hevents : p.kind ≠ .events) (os : List (Op V)) :
    (layout codec taskStateTtl parseId).content p os =
      (lastWrite (textWrite taskStateTtl p) os).map .text := by
  refine Layout.content_lastWrite (l := layout codec taskStateTtl parseId)
    (R := fun x e => e = x.map .text) rfl (fun o x e h => ?_) (fun o e h => ?_) os
  · rw [layout_write]
    cases o with
    | setCurrentAgent s t agent ttlSeconds =>
      simp only [textWrite, Option.ite_none_right_eq_some, Option.some.injEq] at h
      obtain ⟨⟨rfl, httl⟩, rfl⟩ := h
      simp [Op.slot, Op.target, hk, Op.act, setex_entry, httl]
    | setWithTtl s k' value ttlSeconds =>
      simp only [textWrite, Option.ite_none_right_eq_some, Option.some.injEq] at h
      obtain ⟨⟨rfl, httl⟩, rfl⟩ := h
      change cacheKey s k' = some k at hk
      simp [Op.slot, Op.target, hk, Op.act, setex_entry, httl]
    | _ => simp [textWrite] at h
  · rw [layout_write]
    split
    · next hslot =>
      obtain ⟨rfl, -⟩ := hslot
      cases o with
      | setCurrentAgent s t agent ttlSeconds =>
        have httl : ¬0 < ttlSeconds.getD taskStateTtl := by simpa [textWrite, Op.slot] using h
        simp [Op.act, setex_entry, httl]
      | setWithTtl s k' value ttlSeconds =>
        have httl : ¬0 < ttlSeconds := by simpa [textWrite, Op.slot] using h
        simp [Op.act, setex_entry, httl]
      | getCurrentAgent s t => rfl
      | getCached s k' => rfl
      | pushEvent s c event entryId trimmed => exact absurd rfl hevents
      | getEvents s c sinceId => exact absurd rfl hevents
      | _ => exact absurd rfl htask
    · rfl

def EncodesAll (codec : Codec V) (es : List (StreamId × V)) : Option Entry → Prop
  | none => es = []
  | some (.stream entries) =>
    List.Forall₂ (fun e entry => entry.1 = e.1 ∧ codec.dumps e.2 = some entry.2) es entries
  | some (.text _) => False

theorem content_events (hsite : validId siteId) (hid : validId id) (os : List (Op V)) :
    EncodesAll codec (pushed codec siteId id os)
      ((layout codec taskStateTtl parseId).content ⟨siteId, .events, id⟩ os) := by
  obtain ⟨k, hk⟩ := key_of_valid .events hsite hid
  refine List.foldl_rel rfl fun o _ es e h => ?_
  cases o with
  | pushEvent s c event entryId trimmed =>
    rw [layout_write]
    by_cases hslot : s = siteId ∧ c = id
    · obtain ⟨rfl, rfl⟩ := hslot
      cases hv : codec.dumps event with
      | none => simpa [Op.slot, Op.act, hv] using h
      | some text =>
        have hone : ∀ entries, List.Forall₂ (fun e entry => entry.1 = e.1 ∧
            codec.dumps e.2 = some entry.2) es entries → EncodesAll codec
              ((es ++ [(entryId, event)]).drop trimmed)
              (some (.stream ((entries ++ [(entryId, text)]).drop trimmed))) := by
          intro entries hes
          exact List.forall₂_drop trimmed (List.rel_append hes (.cons ⟨rfl, hv⟩ .nil))
        simp only [Op.slot, Op.target, hk, Op.act, hv, and_self, Option.isSome_some, if_true]
        match e, h with
        | none, h =>
          obtain rfl : es = [] := h
          exact hone [] .nil
        | some (.stream entries), h => exact hone entries h
    · have hother : ¬(s = siteId ∧ c = id ∧ (codec.dumps event).isSome) := fun h => hslot ⟨h.1, h.2.1⟩
      simpa [Op.slot, hslot, hother] using h
  | getEvents s c sinceId =>
    have hread : (Op.act codec taskStateTtl parseId (.getEvents s c sinceId) e).2 = e := by
      match e with
      | none => rfl
      | some (.text _) => rfl
      | some (.stream _) => rfl
    rw [Layout.write_of_unchanged hread]
    exact h
  | _ =>
    rw [Layout.write_of_other (by simp [layout, Op.slot])]
    exact h

theorem reply_of_target {o : Op V} {k : String} (h : o.target = some k) (os : List (Op V)) :
    reply codec taskStateTtl parseId os o =
      (o.act codec taskStateTtl parseId
        ((layout codec taskStateTtl parseId).content o.slot os)).1 :=
  Layout.reply_of_target (l := layout codec taskStateTtl parseId) h os

theorem getText_map (f : Option String → Reply V) (x : Option String) :
    getText f (x.map .text) = f x := by
  cases x <;> rfl

theorem getText_loadState {x : Option V} {e : Option Entry} (h : Encodes codec x e) :
    getText (loadState codec) e = .state x := by
  cases x with
  | none =>
    obtain rfl : e = none := h
    rfl
  | some v =>
    obtain ⟨text, hv, rfl⟩ := h
    simp [getText, loadState, codec.loads_dumps hv]

theorem readEvent_map {es : List (StreamId × V)} {entries : List (StreamId × String)}
    (h : List.Forall₂ (fun e entry => entry.1 = e.1 ∧ codec.dumps e.2 = some entry.2) es entries)
    (q : StreamId → Bool) :
    (entries.filter fun e => q e.1).map (readEvent codec) =
      (es.filter fun e => q e.1).map fun e => (e.1, .data e.2) := by
  induction h with
  | nil => rfl
  | cons hhead _ ih =>
    obtain ⟨hid, hv⟩ := hhead
    simp only [List.filter_cons, hid]
    split
    · simp [ih, readEvent, hid, codec.loads_dumps hv]
    · exact ih

theorem getEvents_entries {es : List (StreamId × V)} {e : Option Entry}
    (h : EncodesAll codec es e) (siteId conversationId sinceId : String) :
    (Op.act codec taskStateTtl parseId (.getEvents siteId conversationId sinceId) e).1 =
      .events ((entriesSince parseId sinceId es).map fun e => (e.1, .data e.2)) := by
  match e, h with
  | none, h =>
    obtain rfl : es = [] := h
    unfold entriesSince
    split
    · rfl
    · split <;> rfl
  | some (.stream entries), h =>
    have hall := readEvent_map h fun _ => true
    simp only [List.filter_true] at hall
    unfold entriesSince
    simp only [Op.act, entriesSince]
    split
    · rw [hall]
    · split
      · rw [readEvent_map h]
      · rw [hall]

theorem readsLastWrite (os : List (Op V)) : ReadsLastWrite codec taskStateTtl parseId os := by
  refine ⟨fun siteId id hsite hid => ?_, fun siteId id hsite hid => ?_,
    fun siteId id hsite hid => ?_, fun siteId id sinceId hsite hid => ?_⟩
  · obtain ⟨k, hk⟩ := key_of_valid .task hsite hid
    rw [reply_of_target (o := .getTaskState siteId id) hk]
    exact getText_loadState (content_task hsite hid os)
  · obtain ⟨k, hk⟩ := key_of_valid .agent hsite hid
    rw [reply_of_target (o := .getCurrentAgent siteId id) hk, Op.slot, content_text hk Kind.noConfusion Kind.noConfusion]
    exact getText_map _ _
  · obtain ⟨k, hk⟩ := key_of_valid .cache hsite hid
    rw [reply_of_target (o := .getCached siteId id) hk, Op.slot, content_text hk Kind.noConfusion Kind.noConfusion]
    exact getText_map _ _
  · obtain ⟨k, hk⟩ := key_of_valid .events hsite hid
    rw [reply_of_target (o := .getEvents siteId id sinceId) hk]
    exact getEvents_entries (content_events hsite hid os) siteId id sinceId

end Runs

/-- The store keeps its slots apart: their keys differ, no operation is noticed at
another slot, and every read returns what was last written to its own. -/
theorem stateStore_isolated {V : Type} (codec : Codec V) (taskStateTtl : Int)
    (parseId : String → Option StreamId) :
    (∀ p q : Slot, ∀ k, p.key = some k → q.key = some k → p = q) ∧
      (∀ (os : List (Op V)) (o read : Op V), o.slot ≠ read.slot →
        reply codec taskStateTtl parseId (os ++ [o]) read = reply codec taskStateTtl parseId os read) ∧
      ∀ os : List (Op V), ReadsLastWrite codec taskStateTtl parseId os :=
  ⟨fun _ _ _ => Slot.key_inj,
    fun os _ _ h => Layout.reply_of_other (l := layout codec taskStateTtl parseId) h os,
    readsLastWrite⟩

def boolCodec : Codec Bool where
  dumps b := some (if b then "true" else "false")
  loads s := if s = "true" then some true else if s = "false" then some false else none
  loads_dumps := by decide

theorem stateStore_isolated_boolCodec :
    ReadsLastWrite boolCodec 604800 (fun _ => none)
      [.setTaskState "erp.example.com" "t-1" true none,
        .setCurrentAgent "erp.example.com" "t-1" "Architect" none,
        .setTaskState "other.example.com" "t-1" false (some 60)] :=
  (stateStore_isolated boolCodec 604800 fun _ => none).2.2 _

end AlfredProcessing.State.Isolation
