import AlfredProcessing.Lib.Fallible
import AlfredProcessing.Tools.McpClient

namespace AlfredProcessing.Tools.McpClient

open Lib Lib.Json Websocket.Questions

section Totality

/-- `handle_response` with what it raises. -/
def State.respond (py : Python) (s : State) (message : Message) : Except Raised State :=
  let s' := { s with inbox := s.inbox ++ [message] }
  match requestId py message with
  | none => .ok s'
  | some id =>
    if !s.pending.contains id || (s.calls id).future.done then .ok s'
    else
      (readReply py message).map fun reply =>
        let callback : Scheduled := ⟨id, ⟨s.inbox.length, reply⟩⟩
        if s.mainLoop then { s' with ready := s'.ready ++ [callback] } else s'.settle callback

def State.runCallbacks (s : State) : State := s.ready.foldl State.settle { s with ready := [] }

/-- A response to a call that is under way and not settled. -/
structure Response (py : Python) where
  state : State
  message : Message
  id : Str
  names : requestId py message = some id
  pending : id ∈ state.pending
  unsettled : (state.calls id).future.done = false

/-- The response settles its call, once the queued callbacks have run, and nothing is raised. -/
def Response.Settles {py : Python} (r : Response py) : Prop :=
  ∃ t, r.state.respond py r.message = .ok t ∧ (t.runCallbacks.calls r.id).future.done = true

/-- A message that can be read. Its error, if there is one, is an object whose code and message
can be formatted. Otherwise the first part of its content, if it has one, is an object whose
text, if present, is a string that runs into no limit, and a message that has no result can be
formatted. -/
def Legible (py : Python) (message : Message) : Prop :=
  match get (Lib.Json.str "error") message with
  | some error =>
    ∃ d strays, error = .dict d strays ∧ py.formats ((get (Lib.Json.str "code") d).getD .null) = true ∧
      py.formats ((get (Lib.Json.str "message") d).getD .null) = true
  | none =>
    match get (Lib.Json.str "result") message with
    | some (.dict result _) =>
      ∀ part parts, get (Lib.Json.str "content") result = some (.list (part :: parts)) →
        ∃ d strays, part = .dict d strays ∧
          ∃ text, (get (Lib.Json.str "text") d).getD (.str (Lib.Json.str "\x7b\x7d")) = .str text ∧
            py.loads text ≠ .error .limit
    | some _ => True
    | none => py.formats (.dict message .none) = true

variable {py : Python} {s : State} {id : Str}

theorem handleResponse_eq_respond (py : Python) (s : State) (message : Message) :
    s.handleResponse py message =
      (s.respond py message).toOption.getD { s with inbox := s.inbox ++ [message] } := by
  unfold State.handleResponse State.respond
  cases requestId py message with
  | none => rfl
  | some id =>
    dsimp only
    split_ifs
    · rfl
    · cases readReply py message <;> rfl
    · cases readReply py message <;> rfl

theorem loadText_isOk (text : Str) : (∃ v, loadText py text = .ok v) ↔ py.loads text ≠ .error .limit := by
  unfold loadText
  cases py.loads text with
  | ok v => simp
  | error e => cases e <;> simp

theorem contentPayload_isOk (content : Value) : (∃ p, contentPayload py content = .ok p) ↔
    ∀ part parts, content = .list (part :: parts) → ∃ d strays, part = .dict d strays ∧
      ∃ text, (get (Lib.Json.str "text") d).getD (.str (Lib.Json.str "\x7b\x7d")) = .str text ∧
        py.loads text ≠ .error .limit := by
  cases content with
  | list xs =>
    cases xs with
    | nil => exact iff_of_true ⟨_, rfl⟩ (fun _ _ h => by cases h)
    | cons part parts =>
      cases part with
      | dict d strays =>
        have htext : (∃ p, contentPayload py (.list (.dict d strays :: parts)) = .ok p) ↔
            ∃ text, (get (Lib.Json.str "text") d).getD (.str (Lib.Json.str "\x7b\x7d")) = .str text ∧
              py.loads text ≠ .error .limit := by
          simp only [contentPayload]
          cases (get (Lib.Json.str "text") d).getD (.str (Lib.Json.str "\x7b\x7d")) with
          | str text =>
            simp only [Fallible.exists_map_eq_ok, Value.str.injEq, exists_eq_left', ← loadText_isOk]
          | _ => exact iff_of_false (fun ⟨_, h⟩ => by cases h) (fun ⟨_, h, _⟩ => by cases h)
        rw [htext]
        constructor
        · rintro h _ _ ⟨⟩
          exact ⟨d, strays, rfl, h⟩
        · intro h
          obtain ⟨_, _, ⟨⟩, h⟩ := h _ _ rfl
          exact h
      | _ =>
        refine iff_of_false (fun ⟨_, h⟩ => by cases h) fun h => ?_
        obtain ⟨_, _, h, -⟩ := h _ _ rfl
        cases h
  | _ => exact iff_of_true ⟨_, rfl⟩ (fun _ _ h => by cases h)

theorem readReply_isOk (message : Message) : (∃ r, readReply py message = .ok r) ↔ Legible py message := by
  unfold readReply Legible
  cases get (Lib.Json.str "error") message with
  | some error =>
    cases error with
    | dict d strays =>
      dsimp only
      split_ifs with hformats
      · exact iff_of_true ⟨_, rfl⟩ ⟨d, strays, rfl, Bool.and_eq_true_iff.mp hformats⟩
      · refine iff_of_false (fun ⟨_, h⟩ => by cases h) ?_
        rintro ⟨_, _, ⟨⟩, hcode, htext⟩
        exact hformats (Bool.and_eq_true_iff.mpr ⟨hcode, htext⟩)
    | _ => exact iff_of_false (fun ⟨_, h⟩ => by cases h) (fun ⟨_, _, h, _⟩ => by cases h)
  | none =>
    cases get (Lib.Json.str "result") message with
    | none =>
      dsimp only
      split_ifs with hformats
      · exact iff_of_true ⟨_, rfl⟩ hformats
      · exact iff_of_false (fun ⟨_, h⟩ => by cases h) hformats
    | some result =>
      cases result with
      | dict result strays =>
        dsimp only
        cases get (Lib.Json.str "content") result with
        | none => exact iff_of_true ⟨_, rfl⟩ (fun _ _ h => by cases h)
        | some content =>
          dsimp only
          rw [Fallible.exists_map_eq_ok, contentPayload_isOk]
          simp only [Option.some.injEq]
      | _ => exact iff_of_true ⟨_, rfl⟩ trivial

theorem settle_done (s : State) (c : Scheduled) : ((s.settle c).calls c.requestId).future.done = true := by
  unfold State.settle
  dsimp only
  split_ifs with hdone
  · exact hdone
  · simp [State.setCall, Future.done]

theorem settle_keeps (c : Scheduled) (h : (s.calls id).future.done = true) :
    ((s.settle c).calls id).future.done = true := by
  unfold State.settle
  dsimp only
  split_ifs with hdone
  · exact h
  · by_cases hid : id = c.requestId
    · subst hid
      exact absurd h hdone
    · simpa [State.setCall, Function.update_of_ne hid] using h

theorem foldl_settle_keeps (cs : List Scheduled) (h : (s.calls id).future.done = true) :
    ((cs.foldl State.settle s).calls id).future.done = true := by
  induction cs generalizing s with
  | nil => exact h
  | cons c cs ih => exact ih (settle_keeps c h)

theorem runCallbacks_of_ready {c : Scheduled} (h : c ∈ s.ready) :
    (s.runCallbacks.calls c.requestId).future.done = true := by
  obtain ⟨cs, ds, hready⟩ := List.append_of_mem h
  rw [State.runCallbacks, hready, List.foldl_append, List.foldl_cons]
  exact foldl_settle_keeps ds (settle_done _ c)

theorem runCallbacks_keeps (h : (s.calls id).future.done = true) :
    (s.runCallbacks.calls id).future.done = true := foldl_settle_keeps s.ready h

theorem respond_eq (r : Response py) : r.state.respond py r.message =
    (readReply py r.message).map fun reply =>
      let s' := { r.state with inbox := r.state.inbox ++ [r.message] }
      let callback : Scheduled := ⟨r.id, ⟨r.state.inbox.length, reply⟩⟩
      if r.state.mainLoop then { s' with ready := r.state.ready ++ [callback] } else s'.settle callback := by
  have hlive : (!r.state.pending.contains r.id || (r.state.calls r.id).future.done) = false := by
    rw [r.unsettled, Bool.or_false, Bool.not_eq_false']
    exact List.contains_iff_mem.mpr r.pending
  unfold State.respond
  rw [r.names]
  dsimp only
  rw [hlive]
  rfl

/-- A response settles its call just when it can be read. -/
theorem settles_iff_legible (py : Python) (r : Response py) : r.Settles ↔ Legible py r.message := by
  rw [← readReply_isOk, Response.Settles, respond_eq]
  cases readReply py r.message with
  | error e => exact iff_of_false (fun ⟨_, h, _⟩ => by cases h) (fun ⟨_, h⟩ => by cases h)
  | ok reply =>
    refine iff_of_true ⟨_, rfl, ?_⟩ ⟨_, rfl⟩
    dsimp only
    split_ifs
    · exact runCallbacks_of_ready (c := ⟨r.id, _⟩) (List.mem_append_right _ (List.mem_singleton.mpr rfl))
    · exact runCallbacks_keeps (settle_done _ ⟨r.id, _⟩)

/-- A client that shows every ID as the text that it is. -/
def plainPython : Python where
  loads _ := .error .decode
  str v := match v with
    | .str s => s
    | _ => []
  formats _ := true

/-- A response as some servers write it: with a result and an error that is null. -/
def nullError : Response plainPython where
  state := { init false with pending := [Lib.Json.str "a"] }
  message := [(Lib.Json.str "jsonrpc", .str (Lib.Json.str "2.0")), (Lib.Json.str "id", .str (Lib.Json.str "a")),
    (Lib.Json.str "result", .dict [] .none), (Lib.Json.str "error", .null)]
  id := Lib.Json.str "a"
  names := rfl
  pending := List.mem_singleton.mpr rfl
  unsettled := rfl

theorem null_error_raises : ¬nullError.Settles := by
  rintro ⟨t, ht, -⟩
  have hraised : nullError.state.respond plainPython nullError.message = .error .attributeError := by
    rw [respond_eq]
    rfl
  rw [hraised] at ht
  cases ht

end Totality

end AlfredProcessing.Tools.McpClient
