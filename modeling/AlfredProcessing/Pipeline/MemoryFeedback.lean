import AlfredProcessing.Pipeline.Frames
import AlfredProcessing.Pipeline.Phases

namespace AlfredProcessing.Pipeline.MemoryFeedback

open Lib.Json Lib.Effects PostBuild.Backfill Context DryRun Phases Frames

section Model

/-- The store when the memory is saved: the tenant it is saved for, and what `set_task_state`
raises, if it does. -/
structure Store where
  siteId : Str
  raised : Option Exc

def Store.asked (store : Store) : Bool := !store.siteId.isEmpty

def setTaskState (store : Store) : Run PUnit :=
  match store.raised with
  | some e => throw e
  | none => pure ⟨⟩

/-- `save_conversation_memory`. -/
def saveConversationMemory (store : Store) : Run PUnit :=
  if store.asked then catching (setTaskState store) (pure ⟨⟩) else pure ⟨⟩

/-- `_save_memory_with_feedback`, with the save that it calls. -/
def saveMemoryWithFeedback (env : Env) (store : Store) : Run PUnit := do
  let w ← get
  if w.ctx.hasMemory && w.ctx.hasStore then
    handleFrames env .saveMemory
    catching (saveConversationMemory store) (send env .memoryNotice .info)
  else pure ⟨⟩

/-- A phase that saves the memory at the end of a turn: what it does before, and behind it with
what it holds. -/
structure Turn where
  {Held : Type}
  before : Run Held
  after : Held → Run PUnit

def shortTurn (env : Env) (handler reply : Point) (m : Message) : Turn where
  before := do
    let _ ← attempt env handler
    send env reply m
  after _ := updateCtx fun c => { c with shouldStop := true }

def devTurn (env : Env) (changes : List Change) : Turn where
  before := do
    let (dryRun, changes) ← dryRunWithRetry env changes
    updateCtx fun c => { c with dryRunResult := some dryRun, changes := changes }
    pure (dryRun, changes)
  after held := do
    let w ← get
    send env .preview
      (.changeset held.2 (w.ctx.resultText.take 4000) held.1 w.ctx.moduleValidationNotes w.ctx.module
        w.ctx.secondaryModules)

inductive Kind where
  | chat
  | insights
  | plan
  | dev (changes : List Change)

def Kind.turn (env : Env) : Kind → Turn
  | .chat => shortTurn env .handleChat .chatReply .chatReply
  | .insights => shortTurn env .handleInsights .insightsReply .insightsReply
  | .plan => shortTurn env .handlePlan .planDoc .planDoc
  | .dev changes => devTurn env changes

def Turn.run (env : Env) (store : Store) (turn : Turn) : Run PUnit := do
  let held ← turn.before
  saveMemoryWithFeedback env store
  turn.after held

end Model

section Phases

variable {env : Env} {store : Store} {kind : Kind} {w w' : World} {p : Point} {m : Message}

def Store.passed (store : Store) : Option Exc :=
  if store.asked && store.raised = some .cancelled then some .cancelled else none

theorem exec_saveConversationMemory : exec (saveConversationMemory store) w =
    (match store.passed with
      | some e => .error e
      | none => .ok ⟨⟩, w) := by
  obtain ⟨siteId, raised⟩ := store
  rw [saveConversationMemory, Store.passed, setTaskState]
  cases Store.asked ⟨siteId, raised⟩ with
  | false => simp
  | true =>
    cases raised with
    | none => simp [catching, exec_tryCatch]
    | some e => by_cases he : e = .cancelled <;> simp [catching, exec_tryCatch, he]

/-- The calls of a run in which the memory is saved to the store. -/
def storing (env : Env) (store : Store) : Env :=
  { env with raised := fun p => if p = .saveMemory then store.passed else env.raised p }

theorem exec_handleFrames_eq : exec (handleFrames env p) w = (.ok ⟨⟩, (exec (handleFrames env p) w).2) :=
  Prod.ext (exec_handleFrames env p w) rfl

theorem send_storing (hp : p ≠ .saveMemory) : send (storing env store) p m = send env p m := by
  have hraised : (storing env store).raised p = env.raised p := if_neg hp
  simp only [send, hraised]
  rfl

theorem passed_cases (store : Store) : store.passed = none ∨ store.passed = some .cancelled := by
  rw [Store.passed]
  split
  · exact .inr rfl
  · exact .inl rfl

/-- A call whose exceptions are caught on the spot returns, unless the task is cancelled. -/
theorem exec_attempt : exec (attempt env p) w =
    (if env.raised p = some .cancelled then .error .cancelled else .ok (decide (env.raised p = none)),
      (exec (handleFrames env p) w).2) := by
  rw [attempt, catching, exec_tryCatch, exec_bind, await, exec_bind, exec_handleFrames_eq]
  cases env.raised p with
  | none => simp
  | some e => by_cases he : e = .cancelled <;> simp [he]

/-- The handler with the notice is never run: what it could catch does not get to it. -/
theorem exec_saveMemoryWithFeedback (hsaves : (w.ctx.hasMemory && w.ctx.hasStore) = true) :
    exec (saveMemoryWithFeedback env store) w =
      (if store.passed = some .cancelled then .error .cancelled else .ok ⟨⟩,
        (exec (handleFrames env .saveMemory) w).2) := by
  rw [saveMemoryWithFeedback, exec_bind, exec_get]
  dsimp only
  rw [if_pos hsaves, exec_bind, exec_handleFrames_eq]
  dsimp only
  rw [catching, exec_tryCatch, exec_saveConversationMemory]
  obtain hpassed | hpassed := passed_cases store <;> simp [hpassed]

/-- The save of the phases is the save to the store, where the call raises what gets past the
handler of the save. -/
theorem saveMemory_storing :
    exec (saveMemory (storing env store)) w = exec (saveMemoryWithFeedback env store) w := by
  have hraised : (storing env store).raised .saveMemory = store.passed := by simp [storing]
  have hframes : exec (handleFrames (storing env store) .saveMemory) w = exec (handleFrames env .saveMemory) w := rfl
  by_cases hsaves : (w.ctx.hasMemory && w.ctx.hasStore) = true
  · rw [exec_saveMemoryWithFeedback hsaves, saveMemory, exec_bind, exec_get]
    dsimp only
    rw [if_pos hsaves, exec_bind, exec_attempt, hraised, hframes]
    obtain hpassed | hpassed := passed_cases store <;> simp [hpassed]
  · rw [saveMemory, saveMemoryWithFeedback, exec_bind, exec_bind, exec_get]
    simp [hsaves]

theorem exec_bind_congr {α β : Type} {x y : Run α} {f g : α → Run β} (hx : exec x w = exec y w)
    (hf : ∀ a t, exec (f a) t = exec (g a) t) : exec (x >>= f) w = exec (y >>= g) w := by
  rw [exec_bind, exec_bind, hx]
  rcases exec y w with ⟨r, t⟩
  cases r with
  | error e => rfl
  | ok a => exact hf a t

theorem attempt_storing (hp : p ≠ .saveMemory) : exec (attempt (storing env store) p) w = exec (attempt env p) w := by
  have hraised : (storing env store).raised p = env.raised p := if_neg hp
  rw [exec_attempt, exec_attempt, hraised]
  rfl

theorem shortTurn_run {handler reply : Point} (hhandler : handler ≠ .saveMemory) (hreply : reply ≠ .saveMemory) :
    exec ((shortTurn env handler reply m).run env store) w =
      exec (shortCircuit (storing env store) handler reply m >>= fun _ =>
        updateCtx fun c => { c with shouldStop := true }) w := by
  rw [Turn.run, shortTurn, shortCircuit, bind_assoc, bind_assoc]
  refine exec_bind_congr (attempt_storing hhandler).symm fun _ t => ?_
  rw [bind_assoc, send_storing hreply]
  exact exec_bind_congr rfl fun _ u => exec_bind_congr saveMemory_storing.symm fun _ _ => rfl

theorem dryRunWithRetry_storing (changes : List Change) :
    dryRunWithRetry (storing env store) changes = dryRunWithRetry env changes := rfl

theorem devTurn_run (changes : List Change) :
    exec ((devTurn env changes).run env store) w = exec (shipChangeset (storing env store) changes) w := by
  rw [Turn.run, devTurn, shipChangeset, dryRunWithRetry_storing, bind_assoc]
  refine exec_bind_congr rfl fun held t => ?_
  rw [bind_assoc]
  refine exec_bind_congr rfl fun _ u => ?_
  rw [pure_bind]
  exact exec_bind_congr saveMemory_storing.symm fun _ _ => rfl

end Phases

section Notices

def isNotice : Event → Bool
  | .sent .info => true
  | _ => false

/-- How often the user has been told that the memory was not saved. -/
def notices (w : World) : Nat := w.log.countP isNotice

variable {env : Env} {store : Store} {kind : Kind} {w t : World} {p : Point} {m : Message}

theorem notices_log {c : Ctx} {e : Event} (he : isNotice e = false) :
    notices { ctx := c, log := w.log ++ [e] } = notices w := by
  simp [notices, he]

theorem notices_handleFrames (env : Env) (p : Point) (w : World) :
    notices (exec (handleFrames env p) w).2 = notices w := by
  rw [handleFrames]
  split
  · exact notices_log rfl
  · rfl

theorem notices_send (hm : isNotice (.sent m) = false) : notices (exec (send env p m) w).2 = notices w := by
  rw [send, exec_bind, exec_handleFrames_eq]
  rw [← notices_handleFrames env p w]
  dsimp only
  generalize (exec (handleFrames env p) w).2 = t
  split
  · split
    · exact notices_log hm
    · rfl
  · exact notices_log hm

theorem notices_preview (changes : List Change) (held : DryRun × List Change) :
    notices (exec ((devTurn env changes).after held) w).2 = notices w := by
  simp only [devTurn]
  rw [exec_bind, exec_get]
  exact notices_send rfl

theorem notices_after (held : (kind.turn env).Held) :
    notices (exec ((kind.turn env).after held) w).2 = notices w := by
  cases kind with
  | dev changes => exact notices_preview changes held
  | _ => rfl

theorem notices_run {held : (kind.turn env).Held} (hreach : exec (kind.turn env).before w = (.ok held, t))
    (hsaves : (t.ctx.hasMemory && t.ctx.hasStore) = true) :
    notices (exec ((kind.turn env).run env store) w).2 = notices t := by
  rw [Turn.run, exec_bind, hreach]
  dsimp only
  rw [exec_bind, exec_saveMemoryWithFeedback hsaves]
  split
  · next hok =>
    split at hok
    · cases hok
    · cases hok
      exact (notices_after held).trans (notices_handleFrames env _ t)
  · next hraised =>
    split at hraised
    · cases hraised
      exact notices_handleFrames env _ t
    · cases hraised

variable (env store kind w t) in
/-- What the end of a turn owes the user when the save is reached in the state `t`: every
exception of the store is told and the phase completes all the same, and no save that succeeds
is told. -/
def Feedback : Prop :=
  (∀ e, store.asked = true → store.raised = some e →
    (exec ((kind.turn env).run env store) w).1 = .ok ⟨⟩ ∧
      notices t < notices (exec ((kind.turn env).run env store) w).2) ∧
    (store.raised = none → notices (exec ((kind.turn env).run env store) w).2 = notices t)

/-- On no kind of turn is the user told of an exception. -/
theorem feedback_iff {held : (kind.turn env).Held} (hreach : exec (kind.turn env).before w = (.ok held, t))
    (hsaves : (t.ctx.hasMemory && t.ctx.hasStore) = true) :
    Feedback env store kind w t ↔ (store.asked = true → store.raised = none) := by
  have hquiet : notices (exec ((kind.turn env).run env store) w).2 = notices t := notices_run hreach hsaves
  constructor
  · intro hfeedback hasked
    cases hraised : store.raised with
    | none => rfl
    | some e => exact absurd (hfeedback.1 e hasked hraised).2 (by omega)
  · intro hcalm
    refine ⟨fun e hasked hraised => ?_, fun _ => hquiet⟩
    rw [hcalm hasked] at hraised
    cases hraised

/-- The notice itself is right: an exception that got to the handler would be told. -/
theorem saveMemory_tells {e : Exc} (hsaves : (w.ctx.hasMemory && w.ctx.hasStore) = true)
    (hraised : env.raised .saveMemory = some e) (he : e ≠ .cancelled)
    (hsend : env.raised .memoryNotice ≠ some .cancelled) :
    (exec (saveMemory env) w).1 = .ok ⟨⟩ ∧ notices (exec (saveMemory env) w).2 = notices w + 1 := by
  have hsaved : exec (attempt env .saveMemory) w = (.ok false, (exec (handleFrames env .saveMemory) w).2) := by
    simp [exec_attempt, hraised, he]
  rw [saveMemory, exec_bind, exec_get]
  dsimp only
  rw [if_pos hsaves, exec_bind, hsaved]
  dsimp only
  rw [if_neg Bool.false_ne_true, send, exec_bind, exec_handleFrames_eq]
  dsimp only
  rw [if_neg hsend]
  refine ⟨rfl, ?_⟩
  have htold : ∀ u : World, notices { u with log := u.log ++ [.sent .info] } = notices u + 1 := by
    simp [notices, isNotice]
  rw [← notices_handleFrames env .saveMemory w, 
    ← notices_handleFrames env .memoryNotice (exec (handleFrames env .saveMemory) w).2]
  exact htold _

def downStore : Store := ⟨str "site", some (.other "ConnectionError")⟩

def remembering : World := { ctx := { hasStore := true, hasMemory := true } }

/-- The state of a calm chat turn when it comes to the save. -/
def answered : World := (exec (Kind.chat.turn (Env.smooth [])).before remembering).2

theorem downStore_untold : exec (Kind.chat.turn (Env.smooth [])).before remembering = (.ok ⟨⟩, answered) ∧
    (answered.ctx.hasMemory && answered.ctx.hasStore) = true ∧
    ¬Feedback (Env.smooth []) downStore .chat remembering answered := by
  refine ⟨rfl, rfl, fun hfeedback => ?_⟩
  have htold := (hfeedback.1 _ rfl rfl).2
  revert htold
  decide

theorem feedback_saved : Feedback (Env.smooth []) ⟨str "site", none⟩ .chat remembering answered :=
  (@feedback_iff (Env.smooth []) ⟨str "site", none⟩ .chat remembering answered PUnit.unit rfl rfl).mpr
    fun _ => rfl

end Notices

end AlfredProcessing.Pipeline.MemoryFeedback
