import AlfredProcessing.Api.Routes
import AlfredProcessing.Lib.Cursor
import AlfredProcessing.Lib.JsonCompact

namespace AlfredProcessing.Api.Polling

open Lib.Json Lib.Transition Lib.Cursor Extract.Changes State.Isolation Middleware.TenantKeys Routes
open Lib.Cells (Layout)
open State.Store (eventsKey)

section Model

/-- The texts of the ids that Redis gives out. None of them is the one that asks for all events. -/
structure Ids where
  parse : String → Option StreamId
  text : StreamId → String
  parse_text : ∀ id, parse (text id) = some id
  text_ne_zero : ∀ id, text id ≠ "0"

/-- A task whose events have a key, and the token of a client that polls them. -/
structure Stream where
  claims : Claims
  siteId : String
  taskId : String
  key : String
  site_eq : siteText claims = some siteId
  key_eq : eventsKey siteId taskId = some key

def Stream.slot (c : Stream) : Slot := ⟨c.siteId, .events, c.taskId⟩

/-- The store, and a client that polls with the id of the last event it was sent. Which events were pushed, how many of
them Redis has dropped and how many the client is past is read by none. -/
structure State where
  store : String → Option Entry
  sinceId : String
  got : List (StreamId × EventData Value)
  pushed : List (StreamId × Value)
  dropped : Nat
  read : Nat

/-- An event of the task is pushed, its stream expires, the store is used otherwise, or the client polls. -/
inductive Action where
  | push (event : Dict) (entryId : StreamId) (trimmed : Nat)
  | expire
  | work (op : Op Value)
  | poll (conditions : Conditions)

variable (codec : Codec Value) (ttl : Int) (ids : Ids) (c : Stream)

abbrev storeStep (m : String → Option Entry) (op : Op Value) : Reply Value × (String → Option Entry) :=
  (layout codec ttl ids.parse).step m op

def respond : Handler (Op Value) (Reply Value) → (String → Option Entry) → Response
  | .respond r, _ => r
  | .call op next, m => respond (next (storeStep codec ttl ids m op).1) (storeStep codec ttl ids m op).2

/-- What `get_task_messages` responds to the client. -/
def messages (s : State) (conditions : Conditions) : Response :=
  respond codec ttl ids (getTaskMessages conditions c.claims c.taskId s.sinceId) s.store

/-- The client goes on behind the last event it was sent. -/
def nextSince (sinceId : String) (events : List (StreamId × EventData Value)) : String :=
  match events.getLast? with
  | some e => ids.text e.1
  | none => sinceId

def takeResponse (s : State) : Response → State
  | .messages events =>
    { s with
      sinceId := nextSince ids s.sinceId events
      got := s.got ++ events
      read := if events.isEmpty then s.read else s.pushed.length }
  | _ => s

/-- Redis gives every event of a stream a greater id than those before. -/
def step (s : State) : Action → Option State
  | .push event entryId trimmed =>
    if s.pushed.all fun e => after e.1 entryId then
      let store := (storeStep codec ttl ids s.store (.pushEvent c.siteId c.taskId (.dict event .none) entryId trimmed)).2
      if (codec.dumps (.dict event .none)).isSome then
        some
          { s with
            store := store
            pushed := s.pushed ++ [(entryId, .dict event .none)]
            dropped := min (s.pushed.length + 1) (s.dropped + trimmed) }
      else some { s with store := store }
    else none
  | .expire => some { s with store := Function.update s.store c.key none, dropped := s.pushed.length }
  | .work op =>
    if op.slot = c.slot then none else some { s with store := (storeStep codec ttl ids s.store op).2 }
  | .poll conditions => some (takeResponse ids s (messages codec ttl ids c s conditions))

def init : State := ⟨fun _ => none, "0", [], [], 0, 0⟩

def sent (e : StreamId × Value) : StreamId × EventData Value := (e.1, .data e.2)

/-- The events that Redis has and the client has not. -/
def State.waiting (s : State) : List (StreamId × Value) := s.pushed.drop (max s.read s.dropped)

/-- What the client was sent are events that were pushed, with their data, each once and in order. Every event that was
pushed has been sent, waits for the next poll, or was dropped before; a poll that finds the store brings all that wait. -/
structure Delivered (s : State) : Prop where
  ordered : s.got.Pairwise fun e e' => after e.1 e'.1 = true
  genuine : ∀ e ∈ s.got, ∃ e' ∈ s.pushed, e = sent e'
  complete : ∀ e ∈ s.pushed, sent e ∈ s.got ∨ e ∈ s.waiting ∨ e ∈ s.pushed.take s.dropped
  next : ∀ conditions, conditions.hasRedis = true →
    messages codec ttl ids c s conditions = .messages (s.waiting.map sent)

end Model

section Steps

variable {codec : Codec Value} {ttl : Int} {ids : Ids} {c : Stream} {s s' : State}

theorem after_asymm (a b : StreamId) (h : after a b = true) : after b a = false := by
  unfold after at h ⊢
  grind

/-- What holds in between: Redis has what was pushed and not dropped, and the client has asked from the last event that
it read on. -/
structure Inv (codec : Codec Value) (ids : Ids) (c : Stream) (s : State) : Prop where
  growing : Growing after s.pushed
  dicts : ∀ e ∈ s.pushed, isDict e.2 = true
  bound : s.dropped ≤ s.pushed.length
  stored : EncodesAll codec (s.pushed.drop s.dropped) (s.store c.key)
  cursor : (s.read = 0 ∧ s.sinceId = "0") ∨ ∃ n e, s.read = n + 1 ∧ s.pushed[n]? = some e ∧ s.sinceId = ids.text e.1
  sublist : s.got.Sublist ((s.pushed.take s.read).map sent)
  complete : ∀ e ∈ s.pushed.take s.read, sent e ∈ s.got ∨ e ∈ s.pushed.take s.dropped

theorem Inv.entriesSince (h : Inv codec ids c s) :
    entriesSince ids.parse s.sinceId (s.pushed.drop s.dropped) = s.waiting := by
  unfold State.waiting State.Isolation.entriesSince
  obtain ⟨hread, hsince⟩ | ⟨n, e, hread, he, hsince⟩ := h.cursor
  · rw [if_pos hsince, hread, Nat.zero_max]
  · rw [if_neg (hsince ▸ ids.text_ne_zero e.1), hsince, ids.parse_text, hread]
    exact h.growing.filter_drop after_asymm he _

theorem Inv.reply (h : Inv codec ids c s) :
    (storeStep codec ttl ids s.store (.getEvents c.siteId c.taskId s.sinceId)).1 = .events (s.waiting.map sent) := by
  have htarget : (layout codec ttl ids.parse).target (.getEvents c.siteId c.taskId s.sinceId) = some c.key := c.key_eq
  rw [← h.entriesSince]
  unfold storeStep Layout.step
  rw [htarget]
  exact getEvents_entries h.stored c.siteId c.taskId s.sinceId

theorem Inv.messages (h : Inv codec ids c s) (conditions : Conditions) :
    messages codec ttl ids c s conditions =
      if conditions.hasRedis then .messages (s.waiting.map sent) else redisUnavailable := by
  unfold Polling.messages getTaskMessages
  cases conditions.hasRedis with
  | false => rfl
  | true =>
    have hshown : ((s.waiting.map sent).all fun e => shown e.2) = true := by
      rw [List.all_map, List.all_eq_true]
      exact fun e he => h.dicts e (List.mem_of_mem_drop he)
    rw [c.site_eq]
    simp only [Bool.not_true, Bool.false_eq_true, if_false, if_true, respond, h.reply, hshown]

theorem Inv.delivered (h : Inv codec ids c s) (ttl : Int) : Delivered codec ttl ids c s := by
  refine ⟨?_, ?_, ?_, ?_⟩
  · have hmap : ((s.pushed.take s.read).map sent).Pairwise fun e e' => after e.1 e'.1 = true :=
      List.pairwise_map.mpr (h.growing.sublist (List.take_sublist _ _))
    exact hmap.sublist h.sublist
  · intro e he
    obtain ⟨e', he', rfl⟩ := List.mem_map.mp (h.sublist.subset he)
    exact ⟨e', List.mem_of_mem_take he', rfl⟩
  · intro e he
    by_cases hread : e ∈ s.pushed.take s.read
    · exact (h.complete e hread).imp id .inr
    by_cases hdropped : e ∈ s.pushed.take s.dropped
    · exact .inr (.inr hdropped)
    · refine .inr (.inl ?_)
      obtain ⟨i, hi, rfl⟩ := List.mem_iff_getElem.mp he
      have hout : ∀ n, s.pushed[i] ∉ s.pushed.take n → n ≤ i := by
        intro n hn
        by_contra hlt
        exact hn (List.mem_take_iff_getElem.mpr ⟨i, by omega, rfl⟩)
      have hmax : max s.read s.dropped ≤ i := max_le (hout _ hread) (hout _ hdropped)
      exact List.mem_drop_iff_getElem.mpr ⟨i - max s.read s.dropped, by omega, by congr 1; omega⟩
  · intro conditions hredis
    rw [h.messages, if_pos hredis]

theorem Inv.read_le (h : Inv codec ids c s) : s.read ≤ s.pushed.length := by
  obtain ⟨hread, -⟩ | ⟨n, e, hread, he, -⟩ := h.cursor
  · omega
  · have hn := (List.getElem?_eq_some_iff.mp he).1
    omega

theorem mem_take_mono {α : Type} {xs ys : List α} {x : α} {m n : Nat} (hmn : m ≤ n) (h : x ∈ xs.take m) :
    x ∈ (xs ++ ys).take n := by
  obtain ⟨i, hi, rfl⟩ := List.mem_take_iff_getElem.mp h
  refine List.mem_take_iff_getElem.mpr ⟨i, ?_, List.getElem_append_left _⟩
  rw [List.length_append]
  omega

theorem encodesAll_push (ttl : Int) (ids : Ids) {es : List (StreamId × Value)} {entry : Option Entry} {event : Value} {text : String}
    (h : EncodesAll codec es entry) (htext : codec.dumps event = some text) (siteId taskId : String) (entryId : StreamId)
    (trimmed : Nat) : EncodesAll codec ((es ++ [(entryId, event)]).drop trimmed)
      (Op.act codec ttl ids.parse (.pushEvent siteId taskId event entryId trimmed) entry).2 := by
  have hone : ∀ entries, List.Forall₂ (fun e entry => entry.1 = e.1 ∧ codec.dumps e.2 = some entry.2) es entries →
      EncodesAll codec ((es ++ [(entryId, event)]).drop trimmed)
        (some (.stream ((entries ++ [(entryId, text)]).drop trimmed))) := by
    intro entries hes
    exact List.forall₂_drop trimmed (List.rel_append hes (.cons ⟨rfl, htext⟩ .nil))
  simp only [Op.act, htext]
  cases entry with
  | none =>
    obtain rfl : es = [] := h
    exact hone [] .nil
  | some entry =>
    cases entry with
    | text t => exact h.elim
    | stream entries => exact hone entries h

theorem drop_concat {α : Type} (xs : List α) (x : α) {n : Nat} (h : n ≤ xs.length) (m : Nat) :
    (xs ++ [x]).drop (min (xs.length + 1) (n + m)) = (xs.drop n ++ [x]).drop m := by
  rw [← List.drop_append_of_le_length h, List.drop_drop]
  obtain hle | hle := Nat.le_total (n + m) (xs.length + 1)
  · rw [Nat.min_eq_right hle]
  · rw [Nat.min_eq_left hle, List.drop_of_length_le (by simp), List.drop_of_length_le (by simpa using hle)]

theorem Inv.push (h : Inv codec ids c s) {event : Dict} {entryId : StreamId} (trimmed : Nat) {text : String}
    (hid : (s.pushed.all fun e => after e.1 entryId) = true) (htext : codec.dumps (.dict event .none) = some text) :
    Inv codec ids c
      { s with
        store := (storeStep codec ttl ids s.store (.pushEvent c.siteId c.taskId (.dict event .none) entryId trimmed)).2
        pushed := s.pushed ++ [(entryId, .dict event .none)]
        dropped := min (s.pushed.length + 1) (s.dropped + trimmed) } := by
  have hbound := h.bound
  have hread := h.read_le
  refine
    { growing := h.growing.concat (List.all_eq_true.mp hid)
      dicts := fun e he => ?_
      bound := ?_
      stored := ?_
      cursor := ?_
      sublist := ?_
      complete := fun e he => ?_ }
  · obtain he | he := List.mem_append.mp he
    · exact h.dicts e he
    · rw [List.mem_singleton.mp he]
      rfl
  · rw [List.length_append]
    exact Nat.min_le_left _ _
  · have htarget : (layout codec ttl ids.parse).target
        (.pushEvent c.siteId c.taskId (.dict event .none) entryId trimmed) = some c.key := c.key_eq
    rw [drop_concat s.pushed _ hbound]
    unfold storeStep Layout.step
    rw [htarget]
    dsimp only
    rw [Function.update_self]
    exact encodesAll_push ttl ids h.stored htext c.siteId c.taskId entryId trimmed
  · obtain hnone | ⟨n, e, hn, he, hsince⟩ := h.cursor
    · exact .inl hnone
    · refine .inr ⟨n, e, hn, ?_, hsince⟩
      rw [List.getElem?_append_left (List.getElem?_eq_some_iff.mp he).1, he]
  · rw [List.take_append_of_le_length hread]
    exact h.sublist
  · rw [List.take_append_of_le_length hread] at he
    have hmore : s.dropped ≤ min (s.pushed.length + 1) (s.dropped + trimmed) := by omega
    exact (h.complete e he).imp id (mem_take_mono hmore)

theorem Inv.store (h : Inv codec ids c s) {store : String → Option Entry}
    (hstored : EncodesAll codec (s.pushed.drop s.dropped) (store c.key)) : Inv codec ids c { s with store } :=
  ⟨h.growing, h.dicts, h.bound, hstored, h.cursor, h.sublist, h.complete⟩

theorem Inv.expire (h : Inv codec ids c s) :
    Inv codec ids c { s with store := Function.update s.store c.key none, dropped := s.pushed.length } := by
  refine ⟨h.growing, h.dicts, Nat.le_refl _, ?_, h.cursor, h.sublist, fun e he => ?_⟩
  · dsimp only
    rw [List.drop_length, Function.update_self]
    rfl
  · exact (h.complete e he).imp id fun hdropped => by
      rw [List.take_length]
      exact List.mem_of_mem_take hdropped

theorem takeResponse_waiting (ids : Ids) (hwaiting : s.waiting ≠ []) :
    ∃ hne : s.pushed ≠ [], takeResponse ids s (.messages (s.waiting.map sent)) =
      { s with
        sinceId := ids.text (s.pushed.getLast hne).1
        got := s.got ++ s.waiting.map sent
        read := s.pushed.length } := by
  have hne : s.pushed ≠ [] := by
    rintro hnil
    exact hwaiting (by rw [State.waiting, hnil, List.drop_nil])
  have hsome : (s.waiting.map sent).isEmpty = false := by
    rw [List.isEmpty_map]
    exact Bool.eq_false_iff.mpr (mt List.isEmpty_iff.mp hwaiting)
  have hlast : (s.waiting.map sent).getLast? = s.pushed.getLast?.map sent := by
    unfold State.waiting at hwaiting ⊢
    rw [List.getLast?_map, List.getLast?_drop, if_neg fun hle => hwaiting (List.drop_of_length_le hle)]
  refine ⟨hne, ?_⟩
  simp only [takeResponse, nextSince, hlast, List.getLast?_eq_some_getLast hne, Option.map_some, hsome]
  rfl

theorem Inv.poll (h : Inv codec ids c s) : Inv codec ids c (takeResponse ids s (.messages (s.waiting.map sent))) := by
  have hread := h.read_le
  by_cases hwaiting : s.waiting = []
  · have hsame : takeResponse ids s (.messages (s.waiting.map sent)) = s := by
      rw [hwaiting, List.map_nil]
      simp only [takeResponse, List.append_nil]
      rfl
    rw [hsame]
    exact h
  obtain ⟨hne, htake⟩ := takeResponse_waiting ids hwaiting
  rw [htake]
  refine ⟨h.growing, h.dicts, h.bound, h.stored, .inr ?_, ?_, fun e he => ?_⟩
  · have hpos := List.length_pos_of_ne_nil hne
    refine ⟨s.pushed.length - 1, s.pushed.getLast hne, (Nat.sub_add_cancel hpos).symm, ?_, rfl⟩
    rw [← List.getLast?_eq_getElem?, List.getLast?_eq_some_getLast hne]
  · dsimp only
    rw [List.take_length, ← List.take_append_drop s.read s.pushed, List.map_append]
    refine h.sublist.append (List.Sublist.map sent ?_)
    obtain ⟨d, hd⟩ := Nat.exists_eq_add_of_le (Nat.le_max_left s.read s.dropped)
    rw [State.waiting, hd, ← List.drop_drop]
    exact List.drop_sublist _ _
  · have he' : e ∈ s.pushed := List.mem_of_mem_take he
    obtain hgot | hwait | hdropped := (h.delivered 0).complete e he'
    · exact .inl (List.mem_append_left _ hgot)
    · exact .inl (List.mem_append_right _ (List.mem_map_of_mem hwait))
    · exact .inr hdropped

theorem Inv.step (h : Inv codec ids c s) {a : Action} (hs : step codec ttl ids c s a = some s') : Inv codec ids c s' := by
  cases a with
  | push event entryId trimmed =>
    simp only [Polling.step] at hs
    split_ifs at hs with hid hdumps
    · obtain rfl := Option.some.inj hs
      obtain ⟨text, htext⟩ := Option.isSome_iff_exists.mp hdumps
      exact h.push trimmed hid htext
    · obtain rfl := Option.some.inj hs
      refine h.store ?_
      have htarget : (layout codec ttl ids.parse).target
          (.pushEvent c.siteId c.taskId (.dict event .none) entryId trimmed) = some c.key := c.key_eq
      have hnone : codec.dumps (.dict event .none) = none := Option.not_isSome_iff_eq_none.mp hdumps
      unfold storeStep Layout.step
      rw [htarget]
      dsimp only
      rw [Function.update_self]
      show EncodesAll codec _ (Op.act codec ttl ids.parse _ _).2
      simp only [Op.act, hnone]
      exact h.stored
  | expire =>
    obtain rfl := Option.some.inj hs
    exact h.expire
  | work op =>
    simp only [Polling.step] at hs
    split_ifs at hs with hslot
    obtain rfl := Option.some.inj hs
    refine h.store ?_
    have hkey : (layout codec ttl ids.parse).key c.slot = some c.key := c.key_eq
    have hother : (layout codec ttl ids.parse).slot op ≠ c.slot := hslot
    rw [storeStep, Layout.step_key hkey, Layout.write_of_other hother]
    exact h.stored
  | poll conditions =>
    obtain rfl := Option.some.inj hs
    rw [h.messages]
    split_ifs
    · exact h.poll
    · exact h

theorem inv_init : Inv codec ids c init :=
  ⟨.nil, nofun, Nat.le_refl _, rfl, .inl ⟨rfl, rfl⟩, .slnil, nofun⟩

end Steps

/-- However events are pushed, trimmed and expire, and whatever else is stored, between the polls of a client. -/
theorem polls_delivered (codec : Codec Value) (ttl : Int) (ids : Ids) (c : Stream) (as : List Action) :
    Always (step codec ttl ids c) (Delivered codec ttl ids c) init as :=
  (always_of_step (fun _ _ _ h hs => Inv.step h hs) inv_init as).mono fun _ h => h.delivered ttl

section Watching

def idText (id : StreamId) : List Char := Nat.toDigits 10 id.1 ++ '-' :: Nat.toDigits 10 id.2

def parseIdText (cs : List Char) : Option StreamId :=
  let ms := cs.takeWhile Char.isDigit
  match cs.dropWhile Char.isDigit with
  | '-' :: number => if number.all Char.isDigit then some (natOf ms, natOf number) else none
  | _ => none

theorem parseIdText_idText (id : StreamId) : parseIdText (idText id) = some id := by
  have hdigits (n : Nat) : ∀ c ∈ Nat.toDigits 10 n, c.isDigit := Lib.JsonDump.digits_toDigits n
  have hback (n : Nat) : natOf (Nat.toDigits 10 n) = n := by
    rw [Lib.JsonCompact.natOf_eq, Nat.ofDigitChars_ten_toDigits]
  unfold parseIdText idText
  rw [List.takeWhile_append_of_pos (hdigits id.1), List.dropWhile_append_of_pos (hdigits id.1)]
  have hall : (Nat.toDigits 10 id.2).all Char.isDigit = true := List.all_eq_true.mpr (hdigits id.2)
  have hstop : ('-' :: Nat.toDigits 10 id.2).takeWhile Char.isDigit = [] := rfl
  have hrest : ('-' :: Nat.toDigits 10 id.2).dropWhile Char.isDigit = '-' :: Nat.toDigits 10 id.2 := rfl
  rw [hstop, hrest, List.append_nil]
  show (if (Nat.toDigits 10 id.2).all Char.isDigit then some (natOf (Nat.toDigits 10 id.1), natOf (Nat.toDigits 10 id.2))
    else none) = some id
  rw [if_pos hall, hback, hback]

def redisIds : Ids where
  parse text := parseIdText text.toList
  text id := String.ofList (idText id)
  parse_text id := by rw [String.toList_ofList, parseIdText_idText]
  text_ne_zero id h := by
    have hmem : '-' ∈ (String.ofList (idText id)).toList := by
      rw [String.toList_ofList, idText]
      exact List.mem_append_right _ List.mem_cons_self
    rw [h] at hmem
    exact absurd hmem (by decide)

def watched : Stream where
  claims := tokenFor "one.example.com" "ann" rfl
  siteId := "one.example.com"
  taskId := "t-1"
  key := "alfred:one.example.com:events:t-1"
  site_eq := rfl
  key_eq := rfl

/-- A second event takes the place of the first, and a third comes between two polls. -/
def watching : List Action :=
  [.push (finished false) (5, 0) 0, .push (finished true) (5, 1) 1, .poll (smooth "t-1"),
    .push (finished false) (7, 0) 0, .poll (smooth "t-1")]

theorem watching_delivered : ∃ s, run (step finishedCodec 604800 redisIds watched) init watching = some s ∧
    Delivered finishedCodec 604800 redisIds watched s ∧
    s.got = [((5, 1), .data (.dict (finished true) .none)), ((7, 0), .data (.dict (finished false) .none))] := by
  have hrun : ∃ s, run (step finishedCodec 604800 redisIds watched) init watching = some s ∧
      s.got = [((5, 1), .data (.dict (finished true) .none)), ((7, 0), .data (.dict (finished false) .none))] :=
    ⟨_, rfl, rfl⟩
  obtain ⟨s, hs, hgot⟩ := hrun
  exact ⟨s, hs, (polls_delivered finishedCodec 604800 redisIds watched watching).last hs, hgot⟩

end Watching

end AlfredProcessing.Api.Polling
