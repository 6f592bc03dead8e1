import AlfredProcessing.Lib.Transition
import Mathlib.Data.List.Nodup

namespace AlfredProcessing.Websocket.Replay

open Lib.Transition

/-- A server message, as far as `send` and `resume` look at it. -/
structure Message (M : Type) where
  msgId : M
  type : String
  deriving DecidableEq

def streamSkipTypes : List String := ["ack", "ping", "mcp_response", "echo"]

/-- One conversation: what the current socket was given to write, the sends
that wait for their push, and the event stream. `issued` records the ids in
use and is read by no handler. -/
structure Channel (M : Type) where
  wire : List (Message M) := []
  inflight : List (Message M) := []
  stream : List (Message M) := []
  issued : List M := []

/-- `written` is the first half of `ConnectionState.send` and `pushed` the
second; a raw `send_json` is only written, and the `run_evicted` sentinel of
another connection is only pushed. -/
inductive Action (M : Type) where
  | written (m : Message M)
  | pushed (m : Message M) (delivered : Bool) (trimmed : Nat)
  | raw (m : Message M)
  | sentinel (m : Message M) (trimmed : Nat)
  | reaped

variable {M : Type} [DecidableEq M]

/-- `send` persists a message unless its type is missing or a transport type. -/
def persists (m : Message M) : Bool :=
  m.type ≠ "" && !streamSkipTypes.contains m.type

def writeRaw (m : Message M) (s : Channel M) : Channel M :=
  { s with wire := s.wire ++ [m] }

/-- `xadd` with `maxlen`, which drops entries at the old end. -/
def pushEvent (m : Message M) (trimmed : Nat) (s : Channel M) : Channel M :=
  { s with stream := s.stream.drop trimmed ++ [m] }

def step (s : Channel M) : Action M → Option (Channel M)
  | .written m =>
    if m.msgId ∈ s.issued then none
    else some { writeRaw m s with
      inflight := if persists m then s.inflight ++ [m] else s.inflight
      issued := m.msgId :: s.issued }
  | .pushed m delivered trimmed =>
    if m ∈ s.inflight then
      let s' := { s with inflight := s.inflight.erase m }
      some (if delivered then pushEvent m trimmed s' else s')
    else none
  | .raw m =>
    if m.msgId ∈ s.issued then none
    else some { writeRaw m s with issued := m.msgId :: s.issued }
  | .sentinel m trimmed =>
    if m.msgId ∈ s.issued then none
    else some { pushEvent m trimmed s with issued := m.msgId :: s.issued }
  | .reaped => some { s with stream := [] }

def replayStart (lastMsgId : M) (events : List (Message M)) : Nat :=
  match events.findIdx? fun e => decide (e.msgId = lastMsgId) with
  | some i => i + 1
  | none => 0

/-- The `resume` branch of `_handle_custom_message`: the events after the last
one received are written to the socket one by one. -/
def resume (lastMsgId : Option M) (s : Channel M) : Channel M :=
  match lastMsgId with
  | none => s
  | some last => (s.stream.drop (replayStart last s.stream)).foldl (fun s e => writeRaw e s) s

omit [DecidableEq M] in
theorem foldl_writeRaw (es : List (Message M)) (s : Channel M) :
    es.foldl (fun s e => writeRaw e s) s = { s with wire := s.wire ++ es } := by
  induction es generalizing s with
  | nil => simp
  | cons e es ih =>
    rw [List.foldl_cons, ih]
    simp [writeRaw]

theorem resume_some (last : M) (s : Channel M) :
    resume (some last) s = { s with wire := s.wire ++ s.stream.drop (replayStart last s.stream) } :=
  foldl_writeRaw _ _

def reconnect (s : Channel M) : Channel M :=
  { s with wire := [] }

/-- Whatever prefix of the socket's messages reached the client, a resume from
the last of them replays every entry it lacks, in stream order, and leaves the
stream as it was. -/
structure ReplaysAll (s : Channel M) : Prop where
  complete : ∀ received m, received <+: s.wire → received.getLast? = some m →
    ∀ e ∈ s.stream, e ∉ received → e ∈ (resume (some m.msgId) (reconnect s)).wire
  ordered : ∀ id, (resume (some id) (reconnect s)).wire <:+ s.stream
  unchanged : ∀ id, (resume id (reconnect s)).stream = s.stream

def writtenBefore (wire : List (Message M)) (e m : Message M) : Prop :=
  ∃ before after, wire = before ++ m :: after ∧ e ∈ before

/-- A message enters the stream after every entry that its socket wrote
earlier, and no entry is left that its socket did not write earlier. -/
def pushedInOrder (s : Channel M) : Action M → Prop
  | .pushed m true trimmed => ∀ e ∈ s.stream.drop trimmed, writtenBefore s.wire e m
  | _ => True

/-- The inductive strengthening of `ReplaysAll`. -/
structure Inv (s : Channel M) : Prop where
  ids : ∀ e ∈ s.wire ++ s.stream, ∀ d ∈ s.wire ++ s.stream, e.msgId = d.msgId → e = d
  issued : ∀ e ∈ s.wire ++ s.stream, e.msgId ∈ s.issued
  wireNodup : s.wire.Nodup
  written : ∀ m ∈ s.inflight, m ∈ s.wire ∧ m ∉ s.stream
  inflightNodup : s.inflight.Nodup
  inOrder : s.stream.Pairwise fun e m => m ∈ s.wire → writtenBefore s.wire e m

variable {s t : Channel M}

omit [DecidableEq M] in
theorem writtenBefore_append {wire : List (Message M)} {e m : Message M}
    (h : writtenBefore wire e m) (rest : List (Message M)) : writtenBefore (wire ++ rest) e m := by
  obtain ⟨before, after, rfl, he⟩ := h
  exact ⟨before, after ++ rest, by simp, he⟩

theorem received_of_writtenBefore {wire received : List (Message M)} {e m : Message M}
    (hn : wire.Nodup) (hr : received <+: wire) (hm : received.getLast? = some m)
    (h : writtenBefore wire e m) : e ∈ received := by
  obtain ⟨before, after, rfl, he⟩ := h
  obtain ⟨init, rfl⟩ := List.getLast?_eq_some_iff.mp hm
  obtain ⟨rest, hrest⟩ := hr
  rw [List.append_assoc, List.singleton_append] at hrest
  have hfree (xs ys : List (Message M)) (hxs : (xs ++ m :: ys).Nodup) :
      (xs ++ m :: ys).idxOf m = xs.length := by
    have hnot : m ∉ xs := fun hx => (List.nodup_append.mp hxs).2.2 m hx m (by simp) rfl
    simp [List.idxOf_append_of_notMem hnot]
  have hlen : init.length = before.length := by
    rw [← hfree init rest (hrest ▸ hn), ← hfree before after hn, hrest]
  rw [(List.append_inj hrest hlen).1]
  exact List.mem_append_left _ he

theorem Inv.replaysAll (h : Inv s) : ReplaysAll s where
  complete received m hr hm e he hne := by
    rw [resume_some]
    simp only [reconnect, List.nil_append, replayStart]
    split
    · next i hi =>
      obtain ⟨hlt, hid, -⟩ := List.findIdx?_eq_some_iff_getElem.mp hi
      have hmr : m ∈ received := List.mem_of_getLast? hm
      have hmw : m ∈ s.wire := hr.subset hmr
      have hat : s.stream[i] = m := h.ids _ (List.mem_append_right _ (List.getElem_mem hlt)) m
        (List.mem_append_left _ hmw) (by simpa using hid)
      obtain ⟨j, hj, rfl⟩ := List.mem_iff_getElem.mp he
      have hij : i < j := by
        by_contra hji
        rcases Nat.lt_or_eq_of_le (Nat.le_of_not_lt hji) with hlt' | rfl
        · have hb := List.pairwise_iff_getElem.mp h.inOrder j i hj hlt hlt'
          rw [hat] at hb
          exact hne (received_of_writtenBefore h.wireNodup hr hm (hb hmw))
        · exact hne (hat ▸ hmr)
      exact List.mem_drop_iff_getElem.mpr ⟨j - (i + 1), by omega, by congr 1; omega⟩
    · exact he
  ordered id := by
    rw [resume_some]
    exact List.drop_suffix _ _
  unchanged id := by
    cases id with
    | none => rfl
    | some id => rw [resume_some]; rfl

omit [DecidableEq M] in
theorem inv_init : Inv ({} : Channel M) := by
  constructor <;> simp

omit [DecidableEq M] in
theorem Inv.write (h : Inv s) {m : Message M} (hm : m.msgId ∉ s.issued) :
    Inv { writeRaw m s with issued := m.msgId :: s.issued } := by
  have hold : ∀ e ∈ s.wire ++ s.stream, e ≠ m ∧ e.msgId ≠ m.msgId := by
    intro e he
    have hne : e.msgId ≠ m.msgId := fun hid => hm (hid ▸ h.issued e he)
    exact ⟨fun hem => hne (hem ▸ rfl), hne⟩
  have hcases : ∀ e ∈ (s.wire ++ [m]) ++ s.stream, e ∈ s.wire ++ s.stream ∨ e = m := by
    intro e he
    simp only [List.mem_append, List.mem_singleton] at he ⊢
    tauto
  refine ⟨fun e he d hd hed => ?_, fun e he => ?_, ?_, fun d hd => ?_, h.inflightNodup, ?_⟩
  · rcases hcases e he with he' | he' <;> rcases hcases d hd with hd' | hd'
    · exact h.ids e he' d hd' hed
    · exact absurd (hd' ▸ hed) (hold e he').2
    · exact absurd (he' ▸ hed).symm (hold d hd').2
    · exact he'.trans hd'.symm
  · rcases hcases e he with he' | rfl
    · exact List.mem_cons_of_mem _ (h.issued e he')
    · exact List.mem_cons_self
  · have hnot : m ∉ s.wire := fun hw => (hold m (List.mem_append_left _ hw)).1 rfl
    exact List.nodup_append.mpr ⟨h.wireNodup, List.nodup_singleton m, fun a ha b hb hab =>
      hnot (List.mem_singleton.mp hb ▸ hab ▸ ha)⟩
  · obtain ⟨hw, hs⟩ := h.written d hd
    exact ⟨List.mem_append_left _ hw, hs⟩
  · refine h.inOrder.imp_of_mem fun he hd hb hdw => ?_
    rcases List.mem_append.mp hdw with hdw | hdm
    · exact writtenBefore_append (hb hdw) _
    · exact absurd (List.mem_singleton.mp hdm) (hold _ (List.mem_append_right _ hd)).1

omit [DecidableEq M] in
/-- Appending an entry to the stream: one that the socket wrote after all
entries that are left, or that it never wrote. -/
theorem Inv.pushEvent (h : Inv s) {m : Message M} (trimmed : Nat)
    (hid : ∀ e ∈ s.wire ++ s.stream, e.msgId = m.msgId → e = m) (hiss : m.msgId ∈ s.issued)
    (hin : m ∉ s.inflight)
    (hbefore : m ∈ s.wire → ∀ e ∈ s.stream.drop trimmed, writtenBefore s.wire e m) :
    Inv (pushEvent m trimmed s) := by
  have hdrop {e : Message M} (he : e ∈ s.stream.drop trimmed) : e ∈ s.stream :=
    List.mem_of_mem_drop he
  have hcases : ∀ e ∈ s.wire ++ (s.stream.drop trimmed ++ [m]), e ∈ s.wire ++ s.stream ∨ e = m := by
    intro e he
    simp only [List.mem_append, List.mem_singleton] at he ⊢
    rcases he with he | he | he
    · exact .inl (.inl he)
    · exact .inl (.inr (hdrop he))
    · exact .inr he
  refine ⟨fun e he d hd hed => ?_, fun e he => ?_, h.wireNodup, fun d hd => ?_, h.inflightNodup, ?_⟩
  · rcases hcases e he with he' | he' <;> rcases hcases d hd with hd' | hd'
    · exact h.ids e he' d hd' hed
    · exact (hid e he' (hd' ▸ hed)).trans hd'.symm
    · exact he'.trans (hid d hd' (he' ▸ hed).symm).symm
    · exact he'.trans hd'.symm
  · rcases hcases e he with he' | rfl
    · exact h.issued e he'
    · exact hiss
  · obtain ⟨hw, hs⟩ := h.written d hd
    refine ⟨hw, fun hd' => ?_⟩
    rcases List.mem_append.mp hd' with hd' | hd'
    · exact hs (hdrop hd')
    · exact hin (List.mem_singleton.mp hd' ▸ hd)
  · refine List.pairwise_append.mpr ⟨h.inOrder.drop, List.pairwise_singleton _ _, ?_⟩
    intro e he d hd hdw
    obtain rfl := List.mem_singleton.mp hd
    exact hbefore hdw e he

theorem Inv.step (h : Inv s) {a : Action M} (hp : pushedInOrder s a) (ht : step s a = some t) :
    Inv t := by
  cases a with
  | written m =>
    simp only [Replay.step, Option.ite_none_left_eq_some, Option.some.injEq] at ht
    obtain ⟨hm, rfl⟩ := ht
    have hw := h.write hm
    have hnot : m ∉ s.wire ++ s.stream := fun he => hm (h.issued m he)
    have hmem : m ∈ (writeRaw m s).wire := List.mem_append_right _ (List.mem_singleton_self m)
    have hin : m ∉ s.inflight := fun he => hnot (List.mem_append_left _ (h.written m he).1)
    refine ⟨hw.ids, hw.issued, hw.wireNodup, fun d hd => ?_, ?_, hw.inOrder⟩
    · dsimp only at hd
      split at hd
      · rcases List.mem_append.mp hd with hd | hd
        · exact hw.written d hd
        · obtain rfl := List.mem_singleton.mp hd
          exact ⟨hmem, fun hs => hnot (List.mem_append_right _ hs)⟩
      · exact hw.written d hd
    · dsimp only
      split
      · exact List.nodup_append.mpr ⟨h.inflightNodup, List.nodup_singleton m, fun a ha b hb hab =>
          hin (List.mem_singleton.mp hb ▸ hab ▸ ha)⟩
      · exact h.inflightNodup
  | pushed m delivered trimmed =>
    simp only [Replay.step, Option.ite_none_right_eq_some, Option.some.injEq] at ht
    obtain ⟨hm, rfl⟩ := ht
    have herase : Inv { s with inflight := s.inflight.erase m } :=
      ⟨h.ids, h.issued, h.wireNodup, fun d hd => h.written d (List.mem_of_mem_erase hd),
        h.inflightNodup.erase m, h.inOrder⟩
    cases delivered with
    | false => exact herase
    | true =>
      have hw := (h.written m hm).1
      refine herase.pushEvent trimmed (fun e he hem => ?_) (h.issued m (List.mem_append_left _ hw))
        (fun hd => ?_) fun _ => hp
      · exact h.ids e he m (List.mem_append_left _ hw) hem
      · exact ((h.inflightNodup.mem_erase_iff).mp hd).1 rfl
  | raw m =>
    simp only [Replay.step, Option.ite_none_left_eq_some, Option.some.injEq] at ht
    obtain ⟨hm, rfl⟩ := ht
    exact h.write hm
  | sentinel m trimmed =>
    simp only [Replay.step, Option.ite_none_left_eq_some, Option.some.injEq] at ht
    obtain ⟨hm, rfl⟩ := ht
    have hnot : m ∉ s.wire := fun hw => hm (h.issued m (List.mem_append_left _ hw))
    have hiss : Inv { s with issued := m.msgId :: s.issued } :=
      ⟨h.ids, fun e he => List.mem_cons_of_mem _ (h.issued e he), h.wireNodup, h.written,
        h.inflightNodup, h.inOrder⟩
    refine hiss.pushEvent trimmed (fun e he hem => ?_) List.mem_cons_self (fun hd => ?_)
      fun hw => absurd hw hnot
    · exact absurd (hem ▸ h.issued e he) hm
    · exact hnot (h.written m hd).1
  | reaped =>
    cases ht
    refine ⟨fun e he d hd => h.ids e ?_ d ?_, fun e he => h.issued e ?_, h.wireNodup,
      fun d hd => ⟨(h.written d hd).1, by simp⟩, h.inflightNodup, List.Pairwise.nil⟩
    · exact List.mem_append_left _ (by simpa using he)
    · exact List.mem_append_left _ (by simpa using hd)
    · exact List.mem_append_left _ (by simpa using he)

theorem pushedInOrder_of_replaysAll (h : Inv s) {a : Action M} (ht : step s a = some t)
    (hr : ReplaysAll t) : pushedInOrder s a := by
  match a, ht with
  | .pushed m true trimmed, ht =>
    intro e he
    simp only [step, Option.ite_none_right_eq_some, Option.some.injEq] at ht
    obtain ⟨hm, rfl⟩ := ht
    obtain ⟨hw, hs⟩ := h.written m hm
    obtain ⟨before, after, hwire⟩ := List.append_of_mem hw
    refine ⟨before, after, hwire, ?_⟩
    by_contra hnot
    have hem : e ≠ m := fun hem => hs (hem ▸ List.mem_of_mem_drop he)
    have hid : ∀ d ∈ s.stream.drop trimmed, d.msgId ≠ m.msgId := fun d hd hdm =>
      hs (h.ids d (List.mem_append_right _ (List.mem_of_mem_drop hd)) m
        (List.mem_append_left _ hw) hdm ▸ List.mem_of_mem_drop hd)
    have hstart : replayStart m.msgId (s.stream.drop trimmed ++ [m]) =
        (s.stream.drop trimmed ++ [m]).length := by
      have hfind : (s.stream.drop trimmed ++ [m]).findIdx? (fun d => decide (d.msgId = m.msgId)) =
          some (s.stream.drop trimmed).length := by
        rw [List.findIdx?_append, List.findIdx?_eq_none_iff.mpr (by simpa using hid)]
        simp [List.findIdx?_cons]
      simp [replayStart, hfind]
    have hlost := hr.complete (before ++ [m]) m ⟨after, by simp [pushEvent, hwire]⟩ (by simp) e
      (List.mem_append_left _ he) (by simp [hnot, hem])
    rw [resume_some] at hlost
    simp only [reconnect, pushEvent, if_true, hstart, List.drop_length] at hlost
    simp at hlost
  | .pushed m false trimmed, _ => trivial
  | .written m, _ => trivial
  | .raw m, _ => trivial
  | .sentinel m trimmed, _ => trivial
  | .reaped, _ => trivial

/-- Resume replays completely along a schedule exactly when the pushes keep to
the order of the socket writes. -/
theorem replaysAll_iff_pushedInOrder (as : List (Action M)) :
    Always step ReplaysAll {} as ↔ Meets step pushedInOrder {} as :=
  always_iff_meets (J := Inv) (fun _ h => h.replaysAll) (fun _ _ _ h hp ht => h.step hp ht)
    (fun _ _ _ h ht hr => pushedInOrder_of_replaysAll h ht hr) inv_init as

/-- Two concurrent sends whose pushes land the other way round. -/
def overtaking : List (Action Nat) :=
  [.written ⟨0, "agent_status"⟩, .written ⟨1, "changeset"⟩, .pushed ⟨1, "changeset"⟩ true 0,
    .pushed ⟨0, "agent_status"⟩ true 0]

theorem overtaking_loses_the_changeset : ¬ Always step ReplaysAll {} overtaking := by
  intro h
  have hlast := h.last (t := (run step {} overtaking).get (by decide)) (by simp)
  have hlost := hlast.complete [⟨0, "agent_status"⟩] ⟨0, "agent_status"⟩ (by decide) rfl
    ⟨1, "changeset"⟩ (by decide) (by decide)
  exact absurd hlost (by decide)

end AlfredProcessing.Websocket.Replay
