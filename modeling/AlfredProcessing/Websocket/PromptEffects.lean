import AlfredProcessing.Websocket.Questions
import Mathlib.Data.List.Count

namespace AlfredProcessing.Websocket.PromptEffects

open Lib Lib.Json Lib.Transition Questions

variable {M : Type} [DecidableEq M] {shake : Handshake}

/-- The effects that a prompt can have: it is returned by a waiting
`ask_human`, it starts a pipeline, or the client is told about it. -/
def isOutcome (n : Nat) : Effect M → Bool
  | .returned _ a | .started a => decide (a.frame = n)
  | .error m _ | .lateInfo m _ => decide (m = n)
  | .settled _ | .timedOut _ | .raised _ _ => false

def isAck (q : M) : Effect M → Bool
  | .lateInfo _ r => decide (r = q)
  | _ => false

def isSettled (q : M) : Effect M → Bool
  | .settled r => decide (r = q)
  | _ => false

/-- A resolved question holds the answer until its `ask_human` call resumes. -/
def holds (n : Nat) (x : Question M) : Bool :=
  match x.future with
  | .result a => decide (a.frame = n)
  | _ => false

def isOpen (q : M) (x : Question M) : Bool :=
  decide (x.msgId = q) && !x.future.done

/-- How often frame `n` has had an effect, is on its way to a waiter, or is
being admitted. -/
def outcomes (s : Session M) (n : Nat) : Nat :=
  s.log.countP (isOutcome n) + s.pendingQuestions.countP (holds n) +
    s.admitting.toList.countP fun a => decide (a.frame = n)

def unasked (s : Session M) (q : M) : Nat := if q ∈ s.asked then 0 else 1

/-- The stages of a question's life: not yet asked, pending, expired and
acknowledged. -/
def stages (s : Session M) (q : M) : Nat :=
  s.pendingQuestions.countP (fun x => decide (x.msgId = q)) +
    s.expiredQuestions.countP (fun e => decide (e.1 = q)) +
    s.log.countP (isAck q) + unasked s q

def settlements (s : Session M) (q : M) : Nat :=
  s.log.countP (isSettled q) + s.pendingQuestions.countP (isOpen q) + unasked s q

/-- Every question goes through its stages once. -/
structure Orderly (s : Session M) : Prop where
  single : ∀ q, stages s q ≤ 1
  settles : ∀ q, settlements s q ≤ 1
  phases : ∀ x ∈ s.pendingQuestions, x.phase = .cancelling ↔ x.future = .cancelled

/-- The inductive strengthening of `NothingLost`. -/
structure Inv (s : Session M) : Prop where
  orderly : Orderly s
  ledger : ∀ n ∈ s.prompts, n < s.frames ∧ outcomes s n = 1
  fresh : ∀ n, s.frames ≤ n → outcomes s n = 0

theorem Orderly.nodup {s : Session M} (h : Orderly s) :
    (s.pendingQuestions.map Question.msgId).Nodup := by
  rw [List.nodup_iff_count_le_one]
  intro q
  have hq := h.single q
  have hc : (s.pendingQuestions.map Question.msgId).count q =
      s.pendingQuestions.countP (fun x => decide (x.msgId = q)) := by
    rw [List.count, List.countP_map]
    rfl
  simp only [stages] at hq
  omega

theorem getQuestion_some {q : M} {s : Session M} {x : Question M} (h : getQuestion q s = some x) :
    x ∈ s.pendingQuestions ∧ x.msgId = q := Keyed.lookup_some h

theorem Orderly.getQuestion_mem {s : Session M} (h : Orderly s) {x : Question M}
    (hx : x ∈ s.pendingQuestions) : getQuestion x.msgId s = some x :=
  Keyed.lookup_mem h.nodup hx

section Counts

variable (s : Session M) (e : Effect M) (f : Question M → Question M) (n : Nat) (q r : M)

omit [DecidableEq M] in
@[simp] theorem outcomes_record : outcomes (s.record e) n = outcomes s n + (isOutcome n e).toNat := by
  have hc := Keyed.countP_concat (isOutcome n) s.log e
  simp only [outcomes]
  simp only [Session.record, hc]
  omega

@[simp] theorem stages_record : stages (s.record e) q = stages s q + (isAck q e).toNat := by
  have hu : unasked (s.record e) q = unasked s q := rfl
  have hc := Keyed.countP_concat (isAck q) s.log e
  simp only [stages, hu]
  simp only [Session.record, hc]
  omega

@[simp] theorem settlements_record :
    settlements (s.record e) q = settlements s q + (isSettled q e).toNat := by
  have hu : unasked (s.record e) q = unasked s q := rfl
  have hc := Keyed.countP_concat (isSettled q) s.log e
  simp only [settlements, hu]
  simp only [Session.record, hc]
  omega

theorem stages_update (hf : ∀ x, (f x).msgId = x.msgId) :
    stages (updateQuestion q f s) r = stages s r := by
  have hu : unasked (updateQuestion q f s) r = unasked s r := rfl
  have hk := congrArg (List.countP fun i => decide (i = r))
    (Keyed.keys_modify (k := q) hf (s.pendingQuestions))
  simp only [List.countP_map, Function.comp_def] at hk
  simp only [stages, hu]
  simp only [updateQuestion, hk]

variable {s} {x : Question M}

theorem outcomes_update (h : Orderly s) (hx : x ∈ s.pendingQuestions) :
    outcomes (updateQuestion x.msgId f s) n + (holds n x).toNat =
      outcomes s n + (holds n (f x)).toNat := by
  have hc := Keyed.countP_modify (f := f) (holds n) h.nodup hx
  simp only [outcomes, updateQuestion]
  omega

theorem outcomes_pop (h : Orderly s) (hx : x ∈ s.pendingQuestions) :
    outcomes (popQuestion x.msgId s) n + (holds n x).toNat = outcomes s n := by
  have hc := Keyed.countP_erase (holds n) h.nodup hx
  simp only [outcomes, popQuestion]
  omega

theorem stages_pop (h : Orderly s) (hx : x ∈ s.pendingQuestions) :
    stages (popQuestion x.msgId s) q + (decide (x.msgId = q)).toNat = stages s q := by
  have hc := Keyed.countP_erase (fun x => decide (x.msgId = q)) h.nodup hx
  have hu : unasked (popQuestion x.msgId s) q = unasked s q := rfl
  simp only [stages, hu]
  simp only [popQuestion]
  omega

theorem settlements_update (h : Orderly s) (hx : x ∈ s.pendingQuestions) :
    settlements (updateQuestion x.msgId f s) q + (isOpen q x).toNat =
      settlements s q + (isOpen q (f x)).toNat := by
  have hc := Keyed.countP_modify (f := f) (isOpen q) h.nodup hx
  have hu : unasked (updateQuestion x.msgId f s) q = unasked s q := rfl
  simp only [settlements, hu]
  simp only [updateQuestion]
  omega

theorem settlements_pop (h : Orderly s) (hx : x ∈ s.pendingQuestions) :
    settlements (popQuestion x.msgId s) q ≤ settlements s q := by
  have hc := Keyed.countP_erase (isOpen q) h.nodup hx
  have hu : unasked (popQuestion x.msgId s) q = unasked s q := rfl
  simp only [settlements, hu]
  simp only [popQuestion]
  omega

end Counts

theorem step_sent {s t : Session M} {q : M} (h : step shake s (.sent q) = some t) :
    ∃ x ∈ s.pendingQuestions, x.msgId = q ∧ x.phase = .sending ∧
      t = updateQuestion q (fun x => { x with phase := .waiting }) s := by
  simp only [step] at h
  split at h
  · next i f hq =>
    obtain ⟨hx, hk⟩ := getQuestion_some hq
    cases h
    exact ⟨_, hx, hk, rfl, rfl⟩
  · cases h

theorem step_resume {s t : Session M} {q : M} (h : step shake s (.resume q) = some t) :
    ∃ x ∈ s.pendingQuestions, ∃ a, x.msgId = q ∧ x.future = .result a ∧
      t = (popQuestion q s).record (.returned q a) := by
  simp only [step] at h
  split at h
  · next i a hq =>
    obtain ⟨hx, hk⟩ := getQuestion_some hq
    cases h
    exact ⟨_, hx, a, hk, rfl, rfl⟩
  · cases h

theorem step_timeout {s t : Session M} {q : M} (h : step shake s (.timeout q) = some t) :
    ∃ x ∈ s.pendingQuestions, x.msgId = q ∧ x.future = .pending ∧
      t = (updateQuestion q (fun x => { x with future := .cancelled, phase := .cancelling }) s).record
        (.settled q) := by
  simp only [step] at h
  split at h
  · next i hq =>
    obtain ⟨hx, hk⟩ := getQuestion_some hq
    cases h
    exact ⟨_, hx, hk, rfl, rfl⟩
  · cases h

theorem step_expire {s t : Session M} {q : M} {now : Nat} (h : step shake s (.expire q now) = some t) :
    ∃ x ∈ s.pendingQuestions, x.msgId = q ∧ x.phase = .cancelling ∧
      t = { popQuestion q s with
        expiredQuestions := gcExpiredQuestions now (s.expiredQuestions ++ [(q, now)]) }.record
          (.timedOut q) := by
  simp only [step] at h
  split at h
  · next i f hq =>
    obtain ⟨hx, hk⟩ := getQuestion_some hq
    cases h
    exact ⟨_, hx, hk, rfl, rfl⟩
  · cases h

/-- An answer settles an open question, is acknowledged for an expired one,
and leaves no trace otherwise. -/
theorem resolveQuestion_cases (q : M) (a : Answer) (s : Session M) :
    (∃ x ∈ s.pendingQuestions, x.msgId = q ∧ x.future = .pending ∧ resolveQuestion q a s =
      (updateQuestion q (fun x => { x with future := .result a }) s).record (.settled q)) ∨
    (q ∈ s.expiredQuestions.map Prod.fst ∧ resolveQuestion q a s =
      { s with expiredQuestions := Keyed.erase Prod.fst q s.expiredQuestions }.record
        (.lateInfo a.frame q)) ∨
    ((∀ x ∈ getQuestion q s, x.future.done) ∧ q ∉ s.expiredQuestions.map Prod.fst ∧
      resolveQuestion q a s = s) := by
  have hlate (h : ∀ x ∈ getQuestion q s, x.future.done) (he : resolveQuestion q a s = resolveLate q a s) :
      (q ∈ s.expiredQuestions.map Prod.fst ∧ resolveQuestion q a s =
        { s with expiredQuestions := Keyed.erase Prod.fst q s.expiredQuestions }.record
          (.lateInfo a.frame q)) ∨
      ((∀ x ∈ getQuestion q s, x.future.done) ∧ q ∉ s.expiredQuestions.map Prod.fst ∧
        resolveQuestion q a s = s) := by
    by_cases hq : q ∈ s.expiredQuestions.map Prod.fst
    · exact .inl ⟨hq, by rw [he, resolveLate, if_pos hq]⟩
    · exact .inr ⟨h, hq, by rw [he, resolveLate, if_neg hq]⟩
  cases hx : getQuestion q s with
  | none => exact .inr (hx ▸ hlate (by simp [hx]) (by simp [resolveQuestion, hx]))
  | some x =>
    obtain ⟨hm, hk⟩ := getQuestion_some hx
    cases hf : x.future with
    | pending => exact .inl ⟨x, hm, hk, hf, by simp [resolveQuestion, hx, hf, Future.done]⟩
    | result b => exact .inr (hx ▸ hlate (by simp [hx, hf, Future.done])
        (by simp [resolveQuestion, hx, hf, Future.done]))
    | cancelled => exact .inr (hx ▸ hlate (by simp [hx, hf, Future.done])
        (by simp [resolveQuestion, hx, hf, Future.done]))

theorem Orderly.ask {s : Session M} (h : Orderly s) {q : M} (hq : q ∉ s.asked) :
    Orderly { s with
      pendingQuestions := s.pendingQuestions ++ [⟨q, .pending, .sending⟩]
      asked := q :: s.asked } := by
  have hun (r : M) : (decide (q = r)).toNat + unasked { s with
      pendingQuestions := s.pendingQuestions ++ [⟨q, .pending, .sending⟩]
      asked := q :: s.asked } r = unasked s r := by
    by_cases hr : q = r
    · subst hr
      simp [unasked, hq]
    · simp [unasked, hr, Ne.symm hr]
  constructor
  · intro r
    have hs := h.single r
    have hu := hun r
    have hc := Keyed.countP_concat (fun x => decide (x.msgId = r)) s.pendingQuestions
      (⟨q, .pending, .sending⟩ : Question M)
    simp only [stages] at hs ⊢
    simp only [hc]
    omega
  · intro r
    have hs := h.settles r
    have hu := hun r
    have hc := Keyed.countP_concat (isOpen r) s.pendingQuestions
      (⟨q, .pending, .sending⟩ : Question M)
    have ho : isOpen r (⟨q, .pending, .sending⟩ : Question M) = decide (q = r) := by
      simp [isOpen, Future.done]
    simp only [settlements] at hs ⊢
    simp only [hc, ho]
    omega
  · intro x hx
    rcases List.mem_append.mp hx with hx | hx
    · exact h.phases x hx
    · rw [List.mem_singleton.mp hx]
      simp

theorem Orderly.settle {s : Session M} (h : Orderly s) {x : Question M} (hx : x ∈ s.pendingQuestions)
    (hp : x.future = .pending) (f : Question M → Question M) (hf : ∀ y, (f y).msgId = y.msgId)
    (hd : (f x).future.done) (hc : (f x).phase = .cancelling ↔ (f x).future = .cancelled) :
    Orderly ((updateQuestion x.msgId f s).record (.settled x.msgId)) := by
  constructor
  · intro r
    simpa [stages_update s f x.msgId r hf, isAck] using h.single r
  · intro r
    have hs := h.settles r
    have hu := settlements_update f r h hx
    have ho : isOpen r x = decide (x.msgId = r) := by simp [isOpen, hp, Future.done]
    have ho' : isOpen r (f x) = false := by simp [isOpen, hd]
    rw [ho, ho'] at hu
    simp only [settlements_record, isSettled]
    simp only [Bool.toNat_false] at hu
    omega
  · intro y hy
    rcases Keyed.mem_modify.mp hy with ⟨z, hz, hk, rfl⟩ | ⟨hy, -⟩
    · have hzx : z = x := Option.some.inj
        ((h.getQuestion_mem hz).symm.trans (hk ▸ h.getQuestion_mem hx))
      exact hzx ▸ hc
    · exact h.phases y hy

theorem Orderly.resume {s : Session M} (h : Orderly s) {x : Question M}
    (hx : x ∈ s.pendingQuestions) (a : Answer) :
    Orderly ((popQuestion x.msgId s).record (.returned x.msgId a)) := by
  constructor
  · intro r
    have hs := h.single r
    have hp := stages_pop r h hx
    simp only [stages_record, isAck, Bool.toNat_false]
    omega
  · intro r
    have hs := h.settles r
    have hp := settlements_pop r h hx
    simp only [settlements_record, isSettled, Bool.toNat_false]
    omega
  · intro y hy
    exact h.phases y (Keyed.mem_erase.mp hy).1

theorem Orderly.expire {s : Session M} (h : Orderly s) {x : Question M}
    (hx : x ∈ s.pendingQuestions) (now : Nat) :
    Orderly ({ popQuestion x.msgId s with
      expiredQuestions := gcExpiredQuestions now (s.expiredQuestions ++ [(x.msgId, now)]) }.record
        (.timedOut x.msgId)) := by
  constructor
  · intro r
    have hs := h.single r
    have hp := stages_pop r h hx
    have hg : (gcExpiredQuestions now (s.expiredQuestions ++ [(x.msgId, now)])).countP
        (fun e => decide (e.1 = r)) ≤ s.expiredQuestions.countP (fun e => decide (e.1 = r)) +
          (decide (x.msgId = r)).toNat :=
      le_of_le_of_eq List.filter_sublist.countP_le (Keyed.countP_concat _ _ _)
    simp only [stages_record, isAck, Bool.toNat_false]
    simp only [stages, popQuestion, unasked] at hs hp ⊢
    omega
  · intro r
    have hs := h.settles r
    have hp := settlements_pop r h hx
    simp only [settlements_record, isSettled, Bool.toNat_false]
    simp only [settlements, popQuestion, unasked] at hs hp ⊢
    omega
  · intro y hy
    exact h.phases y (Keyed.mem_erase.mp hy).1

theorem Orderly.sent {s : Session M} (h : Orderly s) {x : Question M} (hx : x ∈ s.pendingQuestions)
    (hp : x.phase = .sending) :
    Orderly (updateQuestion x.msgId (fun y => { y with phase := .waiting }) s) := by
  constructor
  · intro r
    rw [stages_update]
    · exact h.single r
    · exact fun _ => rfl
  · intro r
    have hu := settlements_update (fun y => { y with phase := .waiting }) r h hx
    have ho : isOpen r { x with phase := .waiting } = isOpen r x := rfl
    rw [ho] at hu
    exact le_of_eq_of_le (Nat.add_right_cancel hu) (h.settles r)
  · intro y hy
    rcases Keyed.mem_modify.mp hy with ⟨z, hz, hk, rfl⟩ | ⟨hy, -⟩
    · have hzx : z = x := Option.some.inj
        ((h.getQuestion_mem hz).symm.trans (hk ▸ h.getQuestion_mem hx))
      have hc := h.phases z hz
      rw [hzx, hp] at hc
      subst hzx
      simpa using hc
    · exact h.phases y hy

theorem Orderly.acknowledge {s : Session M} (h : Orderly s) {q : M}
    (hq : q ∈ s.expiredQuestions.map Prod.fst) (n : Nat) :
    Orderly ({ s with expiredQuestions := Keyed.erase Prod.fst q s.expiredQuestions }.record
      (.lateInfo n q)) := by
  obtain ⟨e, he, rfl⟩ := List.mem_map.mp hq
  constructor
  · intro r
    have hs := h.single r
    have hsub : (Keyed.erase Prod.fst e.1 s.expiredQuestions).countP (fun e => decide (e.1 = r)) +
        (decide (e.1 = r)).toNat ≤ s.expiredQuestions.countP (fun e => decide (e.1 = r)) := by
      by_cases hr : e.1 = r
      · subst hr
        have hz : (Keyed.erase Prod.fst e.1 s.expiredQuestions).countP
            (fun d => decide (d.1 = e.1)) = 0 :=
          List.countP_eq_zero.mpr fun d hd => by simpa using (Keyed.mem_erase.mp hd).2
        have hpos : 0 < s.expiredQuestions.countP (fun d => decide (d.1 = e.1)) :=
          List.countP_pos_iff.mpr ⟨e, he, by simp⟩
        simp only [hz, decide_true, Bool.toNat_true]
        omega
      · have hsub : (Keyed.erase Prod.fst e.1 s.expiredQuestions).Sublist s.expiredQuestions :=
          List.filter_sublist
        simpa [hr] using hsub.countP_le
    simp only [stages_record, isAck]
    simp only [stages, unasked] at hs ⊢
    omega
  · intro r
    simp only [settlements_record, isSettled, Bool.toNat_false]
    exact h.settles r
  · exact h.phases

theorem resolveQuestion_spec {s : Session M} (h : Orderly s) (q : M) (a : Answer) :
    Orderly (resolveQuestion q a s) ∧ (resolveQuestion q a s).frames = s.frames ∧
      (resolveQuestion q a s).prompts = s.prompts ∧
      ((∀ n, outcomes (resolveQuestion q a s) n = outcomes s n + (decide (a.frame = n)).toNat) ∨
        ((∀ x ∈ getQuestion q s, x.future.done) ∧ resolveQuestion q a s = s)) := by
  rcases resolveQuestion_cases q a s with ⟨x, hx, rfl, hp, he⟩ | ⟨hq, he⟩ | ⟨hd, -, he⟩
  · rw [he]
    have hph := h.phases x hx
    rw [hp] at hph
    refine ⟨h.settle hx hp _ (fun _ => rfl) rfl (by simpa using hph), rfl, rfl, .inl fun n => ?_⟩
    have ho := outcomes_update (fun x => { x with future := .result a }) n h hx
    have hn : holds n x = false := by simp [holds, hp]
    have hn' : holds n { x with future := .result a } = decide (a.frame = n) := rfl
    rw [hn, hn'] at ho
    simpa only [outcomes_record, isOutcome, Bool.toNat_false, Nat.add_zero] using ho
  · rw [he]
    exact ⟨h.acknowledge hq _, rfl, rfl, .inl fun n => outcomes_record _ _ _⟩
  · rw [he]
    exact ⟨h, rfl, rfl, .inr ⟨hd, rfl⟩⟩

/-- A step that reads no frame leaves every prompt's account as it is. -/
theorem Inv.quiet {s t : Session M} (h : Inv s) (ho : Orderly t) (hf : t.frames = s.frames)
    (hp : t.prompts = s.prompts) (hout : ∀ n, outcomes t n = outcomes s n) : Inv t := by
  refine ⟨ho, fun n hn => ?_, fun n hn => ?_⟩
  · rw [hf, hout]
    exact h.ledger n (hp ▸ hn)
  · rw [hout]
    exact h.fresh n (hf ▸ hn)

theorem Inv.frame {s t : Session M} (h : Inv s) (ho : Orderly t) (hf : t.frames = s.frames + 1)
    (hp : ∀ n ∈ t.prompts, n ∈ s.prompts ∨ n = s.frames ∧ outcomes t n = 1)
    (hout : ∀ n, n ≠ s.frames → outcomes t n = outcomes s n) : Inv t := by
  refine ⟨ho, fun n hn => ?_, fun n hn => ?_⟩
  · rcases hp n hn with hn | ⟨rfl, hn⟩
    · obtain ⟨hlt, hone⟩ := h.ledger n hn
      exact ⟨by omega, (hout n (by omega)).trans hone⟩
    · exact ⟨by omega, hn⟩
  · rw [hout n (by omega)]
    exact h.fresh n (by omega)

/-- No prompt meets an exception of its handler, from its mode or from the limit of the
configuration, and none is routed to a question whose waiter has been woken already. -/
def reachesWaiter (shake : Handshake) (s : Session M) : Action M → Prop
  | .prompt text mode => text ≠ "" →
    (mode.truthy = true → isStr mode = true) ∧
      (s.shuttingDown = false →
        (∀ x ∈ s.pendingQuestions.head?, x.future.done = false) ∧
          (s.pendingQuestions = [] → countable shake.int (maxPerHour shake.siteConfig) = true))
  | _ => True

theorem Inv.userResponse {s : Session M} (h : Inv s) (r : M) (text : String) :
    Inv (resolveQuestion r ⟨s.frames, text⟩ s.nextFrame) := by
  have ho : Orderly s.nextFrame := ⟨h.orderly.single, h.orderly.settles, h.orderly.phases⟩
  obtain ⟨ho, hf, hp, hout⟩ := resolveQuestion_spec ho r ⟨s.frames, text⟩
  refine h.frame ho hf (fun n hn => .inl (hp ▸ hn)) fun n hn => ?_
  rcases hout with hout | ⟨-, he⟩
  · rw [hout n]
    simp [Ne.symm hn, Session.nextFrame, outcomes]
  · rw [he]
    rfl

/-- The loss of a frame's handler changes no account. -/
theorem Inv.raise {s : Session M} (h : Inv s) (n : Nat) (e : Raised) : Inv (s.raise n e) := by
  have ho : Orderly (s.raise n e) := by
    refine ⟨fun q => ?_, fun q => ?_, h.orderly.phases⟩
    · simp only [Session.raise, stages_record, isAck]
      exact h.orderly.single q
    · simp only [Session.raise, settlements_record, isSettled]
      exact h.orderly.settles q
  refine h.quiet ho rfl rfl fun n => ?_
  simp only [Session.raise, outcomes_record, isOutcome]
  rfl

theorem takePrompt_spec {s : Session M} (ho : Orderly s) (hadm : s.admitting = none) (a : Answer)
    (hw : s.shuttingDown = false →
      (∀ x ∈ s.pendingQuestions.head?, x.future.done = false) ∧
        (s.pendingQuestions = [] → countable shake.int (maxPerHour shake.siteConfig) = true)) :
    Orderly (takePrompt shake a s) ∧ (takePrompt shake a s).frames = s.frames ∧
      (takePrompt shake a s).prompts = s.prompts ∧
      ∀ n, outcomes (takePrompt shake a s) n = outcomes s n + (decide (a.frame = n)).toNat := by
  unfold takePrompt
  split
  · refine ⟨?_, rfl, rfl, fun n => outcomes_record _ _ _⟩
    exact ⟨fun q => by simpa [isAck] using ho.single q,
      fun q => by simpa [isSettled] using ho.settles q, ho.phases⟩
  next hdown =>
  obtain ⟨hwaiter, hlimit⟩ := hw (by simpa using hdown)
  split
  · next x xs hpend =>
    obtain ⟨hr, hf, hp, hout⟩ := resolveQuestion_spec ho x.msgId a
    have hx : x ∈ s.pendingQuestions := by
      rw [hpend]
      exact List.mem_cons_self
    have hopen : x.future.done = false := hwaiter x (by simp [hpend])
    refine ⟨hr, hf, hp, ?_⟩
    rcases hout with hout | ⟨hd, -⟩
    · exact hout
    · have hc := hd x (ho.getQuestion_mem hx)
      rw [hopen] at hc
      cases hc
  · next hpend =>
    obtain ⟨limit, hint⟩ := (toInt_isOk shake.int _).mpr (hlimit hpend)
    rw [hint]
    refine ⟨⟨ho.single, ho.settles, ho.phases⟩, rfl, rfl, fun n => ?_⟩
    by_cases hn : a.frame = n <;> simp [outcomes, hadm, hn]

theorem Inv.prompt {s : Session M} (h : Inv s) (hadm : s.admitting = none) {text : String} {mode : Value}
    (hw : reachesWaiter shake s (.prompt text mode)) : Inv (handlePrompt shake text mode s) := by
  have ho : Orderly s.nextFrame := ⟨h.orderly.single, h.orderly.settles, h.orderly.phases⟩
  have hnew : outcomes s s.frames = 0 := h.fresh _ (Nat.le_refl _)
  by_cases htext : text = ""
  · have hframe : Inv s.nextFrame := h.frame ho rfl (fun n hn => .inl hn) fun n _ => rfl
    unfold handlePrompt
    simp only [htext, if_true]
    split
    · exact hframe.raise _ _
    · exact hframe
  · obtain ⟨hmode, hw⟩ := hw htext
    obtain ⟨m, hm⟩ := (modeText_isOk mode).mpr hmode
    have ho' : Orderly s.nextPrompt := ⟨h.orderly.single, h.orderly.settles, h.orderly.phases⟩
    obtain ⟨ht, hf, hp, hout⟩ := takePrompt_spec ho' hadm ⟨s.frames, text⟩ hw
    have htaken : handlePrompt shake text mode s = takePrompt shake ⟨s.frames, text⟩ s.nextPrompt := by
      simp only [handlePrompt, hm, htext, if_false]
    rw [htaken]
    -- the prompt's one outcome is that of the new frame
    have hsame (n : Nat) : outcomes s.nextPrompt n = outcomes s n := rfl
    refine h.frame ht hf (fun n hn => ?_) fun n hn => ?_
    · rw [hp] at hn
      rcases List.mem_cons.mp hn with rfl | hn
      · refine .inr ⟨rfl, ?_⟩
        rw [hout, hsame, hnew]
        simp
      · exact .inl hn
    · rw [hout, hsame]
      simp [Ne.symm hn]

theorem Inv.admission {s : Session M} (h : Inv s) {a : Answer} (ha : s.admitting = some a)
    (allowed : Bool) : Inv (admitPrompt a allowed s) := by
  have hrec (e : Effect M) (hack : ∀ q, isAck q e = false) (hset : ∀ q, isSettled q e = false)
      (ho : ∀ n, isOutcome n e = decide (a.frame = n)) (b : Bool) :
      Inv ({ s with admitting := none, activePipeline := b }.record e) := by
    refine h.quiet ⟨fun q => ?_, fun q => ?_, h.orderly.phases⟩ rfl rfl fun n => ?_
    · simp only [stages_record, hack]
      exact h.orderly.single q
    · simp only [settlements_record, hset]
      exact h.orderly.settles q
    · rw [outcomes_record, ho]
      by_cases hn : a.frame = n <;> simp [outcomes, ha, hn]
  unfold admitPrompt
  split
  · exact hrec _ (fun _ => rfl) (fun _ => rfl) (fun _ => rfl) _
  · split
    · exact hrec _ (fun _ => rfl) (fun _ => rfl) (fun _ => rfl) _
    · exact hrec _ (fun _ => rfl) (fun _ => rfl) (fun _ => rfl) _

omit [DecidableEq M] in
theorem Session.reads_iff (s : Session M) : s.reads = true ↔ s.receiving = true ∧ s.admitting = none := by
  simp [Session.reads]

theorem Inv.step {s t : Session M} (h : Inv s) {a : Action M} (hw : reachesWaiter shake s a)
    (ht : step shake s a = some t) : Inv t := by
  cases a with
  | ask q =>
    simp only [Questions.step, Option.ite_none_left_eq_some, Option.some.injEq] at ht
    obtain ⟨hq, rfl⟩ := ht
    refine h.quiet (h.orderly.ask hq) rfl rfl fun n => ?_
    have hc := Keyed.countP_concat (holds n) s.pendingQuestions
      (⟨q, .pending, .sending⟩ : Question M)
    simp [outcomes, holds]
  | sent q =>
    obtain ⟨x, hx, rfl, hp, rfl⟩ := step_sent ht
    refine h.quiet (h.orderly.sent hx hp) rfl rfl fun n => ?_
    exact Nat.add_right_cancel
      (outcomes_update (fun y => { y with phase := .waiting }) n h.orderly hx)
  | resume q =>
    obtain ⟨x, hx, a, rfl, hf, rfl⟩ := step_resume ht
    refine h.quiet (h.orderly.resume hx a) rfl rfl fun n => ?_
    have ho := outcomes_pop n h.orderly hx
    have hn : holds n x = decide (a.frame = n) := by simp [holds, hf]
    simp only [outcomes_record, isOutcome, ← hn, ho]
  | timeout q =>
    obtain ⟨x, hx, rfl, hf, rfl⟩ := step_timeout ht
    refine h.quiet (h.orderly.settle hx hf _ (fun _ => rfl) rfl (by simp)) rfl rfl fun n => ?_
    have ho := outcomes_update
      (fun x => { x with future := .cancelled, phase := .cancelling }) n h.orderly hx
    have hn : holds n x = false := by simp [holds, hf]
    rw [hn] at ho
    rw [outcomes_record]
    exact ho
  | expire q now =>
    obtain ⟨x, hx, rfl, hp, rfl⟩ := step_expire ht
    refine h.quiet (h.orderly.expire hx now) rfl rfl fun n => ?_
    have ho := outcomes_pop n h.orderly hx
    have hn : holds n x = false := by simp [holds, (h.orderly.phases x hx).mp hp]
    rw [hn] at ho
    rw [outcomes_record]
    exact ho
  | userResponse r text =>
    simp only [Questions.step, Option.ite_none_right_eq_some, Option.some.injEq] at ht
    obtain ⟨-, rfl⟩ := ht
    exact h.userResponse r text
  | prompt text mode =>
    simp only [Questions.step, Option.ite_none_right_eq_some, Option.some.injEq] at ht
    obtain ⟨hreads, rfl⟩ := ht
    exact h.prompt ((Session.reads_iff s).mp hreads).2 hw
  | admission allowed =>
    obtain ⟨a, ha, rfl⟩ := Option.map_eq_some_iff.mp ht
    exact h.admission ha allowed
  | pipelineDone =>
    cases ht
    exact h.quiet ⟨h.orderly.single, h.orderly.settles, h.orderly.phases⟩ rfl rfl fun _ => rfl
  | shutdown =>
    cases ht
    exact h.quiet ⟨h.orderly.single, h.orderly.settles, h.orderly.phases⟩ rfl rfl fun _ => rfl

theorem inv_init : Inv ({} : Session M) where
  orderly := ⟨fun q => by simp [stages, unasked], fun q => by simp [settlements, unasked], by simp⟩
  ledger := by simp
  fresh := by simp [outcomes]

end AlfredProcessing.Websocket.PromptEffects
