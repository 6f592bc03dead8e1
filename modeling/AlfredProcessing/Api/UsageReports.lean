import AlfredProcessing.Lib.Transition
import Mathlib.Algebra.BigOperators.Group.Finset.Basic
import Mathlib.Data.Fintype.Card
import Mathlib.Tactic.Abel

namespace AlfredProcessing.Api.UsageReports

open Lib Lib.Transition

section Model

inductive Call where
  | reportUsage
  | flushUsageQueue
  deriving DecidableEq

/-- The exceptions that the two handlers tell apart; a cancellation is none of them. -/
inductive Failure where
  | httpError
  | osError
  | jsonDecodeError
  | keyError
  | other
  deriving DecidableEq

def Call.catches : Call → Failure → Bool
  | .reportUsage, x => x = .httpError || x = .osError
  | .flushUsageQueue, x => x = .httpError || x = .osError || x = .jsonDecodeError || x = .keyError

/-- An entry of the queue: the report of a call, or a text out of which no payload is read. -/
inductive Item (ι : Type) where
  | usage (report : ι)
  | malformed (x : Failure)
  deriving DecidableEq

/-- How the delivery of a report ends. The portal may have accepted it all the same. -/
inductive Delivery where
  | ok
  | failed (x : Failure) (accepted : Bool)
  | cancelled (accepted : Bool)
  deriving DecidableEq

/-- How the await of a queue command ends, which has been carried out or not when it is cancelled. -/
inductive Command where
  | done
  | cancelled (carried : Bool)
  deriving DecidableEq

/-- Where a call is suspended, with the item it has in hand. -/
inductive Phase (ι : Type) where
  | idle
  | posting (report : ι)
  | popping
  | pushing (item : Item ι)
  | finished
  deriving DecidableEq

/-- The calls, the queue, and the reports that the portal has accepted. -/
structure State (ι : Type) where
  phase : ι → Phase ι
  queue : List (Item ι)
  accepted : List ι

structure Event (ι : Type) where
  task : ι
  post : Delivery
  command : Command

variable {ι : Type} (hasRedis : Bool) (call : ι → Call)

def initial (left : List Failure) : State ι where
  phase _ := .idle
  queue := left.map .malformed
  accepted := []

/-- What `flush_usage_queue` does with the item that it has popped. -/
def take : Item ι → Phase ι
  | .usage c => .posting c
  | .malformed x => if Call.flushUsageQueue.catches x then .pushing (.malformed x) else .finished

/-- Where a call goes on, with the queue and the accepted reports, once its await has ended so. -/
def turn (s : State ι) (e : Event ι) : Phase ι × List (Item ι) × List ι :=
  match s.phase e.task with
  | .idle =>
    match call e.task with
    | .reportUsage => (.posting e.task, s.queue, s.accepted)
    | .flushUsageQueue => (if hasRedis then .popping else .finished, s.queue, s.accepted)
  | .posting c =>
    match e.post with
    | .ok =>
      match call e.task with
      | .reportUsage => (.finished, s.queue, c :: s.accepted)
      | .flushUsageQueue => (.popping, s.queue, c :: s.accepted)
    | .failed x accepted =>
      (if (call e.task).catches x && hasRedis then .pushing (.usage c) else .finished, s.queue,
        if accepted then c :: s.accepted else s.accepted)
    | .cancelled accepted => (.finished, s.queue, if accepted then c :: s.accepted else s.accepted)
  | .popping =>
    match s.queue, e.command with
    | [], _ => (.finished, [], s.accepted)
    | i :: q, .done => (take i, q, s.accepted)
    | i :: q, .cancelled carried => (.finished, if carried then q else i :: q, s.accepted)
  | .pushing i =>
    match e.command with
    | .done => (.finished, s.queue ++ [i], s.accepted)
    | .cancelled carried => (.finished, if carried then s.queue ++ [i] else s.queue, s.accepted)
  | .finished => (.finished, s.queue, s.accepted)

variable [DecidableEq ι]

def step (s : State ι) (e : Event ι) : Option (State ι) :=
  if s.phase e.task = .finished then none
  else some {
    phase := Function.update s.phase e.task (turn hasRedis call s e).1
    queue := (turn hasRedis call s e).2.1
    accepted := (turn hasRedis call s e).2.2 }

def Phase.held : Phase ι → Multiset (Item ι)
  | .posting c => {.usage c}
  | .pushing i => {i}
  | _ => 0

/-- Every report submitted has been accepted, is in the queue, or is in the hands of a call. -/
def Conserved (s : State ι) : Prop :=
  ∀ c, call c = .reportUsage → s.phase c ≠ .idle →
    c ∈ s.accepted ∨ .usage c ∈ s.queue ∨ ∃ t, .usage c ∈ (s.phase t).held

/-- A report not accepted yet leaves the hands of a call: its delivery fails in a way that is not
handled, or a queue command is cancelled on the wrong side of its execution. -/
def Loses (s : State ι) (e : Event ι) : Prop :=
  match s.phase e.task with
  | .posting c => c ∉ s.accepted ∧
      (e.post = .cancelled false ∨ ∃ x, e.post = .failed x false ∧ ((call e.task).catches x && hasRedis) = false)
  | .popping => e.command = .cancelled true ∧ ∃ c q, s.queue = .usage c :: q ∧ c ∉ s.accepted
  | .pushing i => e.command = .cancelled false ∧ ∃ c, i = .usage c ∧ c ∉ s.accepted
  | _ => False

end Model

section Conservation

variable {ι : Type} {hasRedis : Bool} {call : ι → Call} {s t : State ι} {e : Event ι}

/-- What changes hands in a turn: `gained` is what the call has in hand for the first time, `gone`
is what is neither in hand nor in the queue any more. -/
structure Moves (hasRedis : Bool) (call : ι → Call) (s : State ι) (e : Event ι)
    (gained gone : Multiset (Item ι)) : Prop where
  balance : (s.phase e.task).held + s.queue + gained =
    (turn hasRedis call s e).1.held + (turn hasRedis call s e).2.1 + gone
  accepts : ∀ c ∈ s.accepted, c ∈ (turn hasRedis call s e).2.2
  left : ∀ c, .usage c ∈ gone → c ∈ (turn hasRedis call s e).2.2 ∨ Loses hasRedis call s e
  lost : Loses hasRedis call s e → ∃ c, .usage c ∈ gone ∧ c ∉ (turn hasRedis call s e).2.2

section Turn

variable {p : Phase ι} {q : List (Item ι)} {accepted : List ι}

theorem Moves.kept (hturn : turn hasRedis call s e = (p, q, accepted))
    (hbalance : (s.phase e.task).held + s.queue = p.held + q) (haccepts : ∀ c ∈ s.accepted, c ∈ accepted)
    (hloses : ¬Loses hasRedis call s e) : Moves hasRedis call s e 0 0 where
  balance := by
    rw [hturn, hbalance]
  accepts := by
    rw [hturn]
    exact haccepts
  left _ h := (Multiset.notMem_zero _ h).elim
  lost h := absurd h hloses

theorem Moves.dropped {i : Item ι} (hturn : turn hasRedis call s e = (p, q, accepted))
    (hbalance : (s.phase e.task).held + s.queue = p.held + q + {i}) (haccepts : ∀ c ∈ s.accepted, c ∈ accepted)
    (hloses : Loses hasRedis call s e ↔ ∃ c, i = .usage c ∧ c ∉ accepted) : Moves hasRedis call s e 0 {i} where
  balance := by
    rw [hturn, hbalance, add_zero]
  accepts := by
    rw [hturn]
    exact haccepts
  left c h := by
    rw [hturn]
    by_cases hc : c ∈ accepted
    · exact .inl hc
    · exact .inr (hloses.mpr ⟨c, (Multiset.mem_singleton.mp h).symm, hc⟩)
  lost h := by
    rw [hturn]
    obtain ⟨c, hi, hc⟩ := hloses.mp h
    exact ⟨c, Multiset.mem_singleton.mpr hi.symm, hc⟩

theorem moves_posting {c : ι} (hphase : s.phase e.task = .posting c) :
    ∃ gone, Moves hasRedis call s e 0 gone := by
  have hloses : Loses hasRedis call s e ↔ c ∉ s.accepted ∧ (e.post = .cancelled false ∨
      ∃ x, e.post = .failed x false ∧ ((call e.task).catches x && hasRedis) = false) := by
    unfold Loses
    rw [hphase]
  have hheld : (s.phase e.task).held = {.usage c} := by
    rw [hphase]
    rfl
  have hgiven : (s.phase e.task).held + s.queue = (0 : Multiset (Item ι)) + s.queue + {.usage c} := by
    rw [hheld, zero_add, add_comm]
  have haccepts (b : Bool) : ∀ d ∈ s.accepted, d ∈ (if b then c :: s.accepted else s.accepted) := by
    intro d hd
    cases b with
    | true => exact List.mem_cons_of_mem _ hd
    | false => exact hd
  have hout (b : Bool) : (∃ d, Item.usage c = .usage d ∧ d ∉ (if b then c :: s.accepted else s.accepted)) ↔
      c ∉ s.accepted ∧ b = false := by
    cases b <;> simp
  cases hpost : e.post with
  | ok =>
    have hturn : ∃ p, p.held = 0 ∧ turn hasRedis call s e = (p, s.queue, c :: s.accepted) := by
      unfold turn
      rw [hphase, hpost]
      cases call e.task
      · exact ⟨.finished, rfl, rfl⟩
      · exact ⟨.popping, rfl, rfl⟩
    obtain ⟨p, hp, hturn⟩ := hturn
    refine ⟨{.usage c}, .dropped hturn (hp ▸ hgiven) (haccepts true) ?_⟩
    rw [hloses, hpost]
    exact Iff.trans (by simp) (hout true).symm
  | failed x accepted =>
    have hturn : turn hasRedis call s e =
        (if (call e.task).catches x && hasRedis then .pushing (.usage c) else .finished, s.queue,
          if accepted then c :: s.accepted else s.accepted) := by
      unfold turn
      rw [hphase, hpost]
    have hfailed : Loses hasRedis call s e ↔
        c ∉ s.accepted ∧ accepted = false ∧ ((call e.task).catches x && hasRedis) = false := by
      rw [hloses, hpost, or_iff_right Delivery.noConfusion]
      refine and_congr_right fun _ => ⟨?_, fun h => ⟨x, congrArg _ h.1, h.2⟩⟩
      rintro ⟨y, h, hy⟩
      cases h
      exact ⟨rfl, hy⟩
    cases hcatches : (call e.task).catches x && hasRedis with
    | true =>
      rw [hcatches, if_pos rfl] at hturn
      refine ⟨0, .kept hturn (congrArg (· + _) hheld) (haccepts accepted) ?_⟩
      rw [hfailed, hcatches]
      exact fun h => Bool.noConfusion h.2.2
    | false =>
      rw [hcatches, if_neg Bool.false_ne_true] at hturn
      refine ⟨{.usage c}, .dropped hturn hgiven (haccepts accepted) ?_⟩
      rw [hfailed, hout, hcatches]
      exact and_congr_right fun _ => and_iff_left rfl
  | cancelled accepted =>
    have hturn : turn hasRedis call s e =
        (.finished, s.queue, if accepted then c :: s.accepted else s.accepted) := by
      unfold turn
      rw [hphase, hpost]
    refine ⟨{.usage c}, .dropped hturn hgiven (haccepts accepted) ?_⟩
    rw [hloses, hpost, hout]
    simp

theorem moves_popping (hphase : s.phase e.task = .popping) : ∃ gone, Moves hasRedis call s e 0 gone := by
  have hloses : Loses hasRedis call s e ↔
      e.command = .cancelled true ∧ ∃ c q, s.queue = .usage c :: q ∧ c ∉ s.accepted := by
    unfold Loses
    rw [hphase]
  have hheld : (s.phase e.task).held = 0 := by
    rw [hphase]
    rfl
  cases hqueue : s.queue with
  | nil =>
    have hturn : turn hasRedis call s e = (.finished, [], s.accepted) := by
      unfold turn
      rw [hphase, hqueue]
    refine ⟨0, .kept hturn (by rw [hheld, hqueue]; rfl) (fun _ h => h) ?_⟩
    rw [hloses, hqueue]
    rintro ⟨-, c, q, h, -⟩
    cases h
  | cons i q =>
    have hcons : (s.phase e.task).held + s.queue = (0 : Multiset (Item ι)) + q + {i} := by
      rw [hheld, hqueue, ← Multiset.cons_coe, ← Multiset.singleton_add, zero_add, zero_add, add_comm]
    cases hcommand : e.command with
    | done =>
      have hturn : turn hasRedis call s e = (take i, q, s.accepted) := by
        unfold turn
        rw [hphase, hqueue, hcommand]
      have hnot : ¬Loses hasRedis call s e := by
        rw [hloses, hcommand]
        exact fun h => by cases h.1
      by_cases htaken : (take i).held = {i}
      · refine ⟨0, .kept hturn ?_ (fun _ h => h) hnot⟩
        rw [hcons, htaken, zero_add, add_comm]
      · have hmalformed : (take i).held = 0 ∧ ∀ c, i ≠ .usage c := by
          cases i with
          | usage c => exact absurd rfl htaken
          | malformed x =>
            refine ⟨?_, fun c h => by cases h⟩
            simp only [take] at htaken ⊢
            split_ifs at htaken ⊢
            · exact absurd rfl htaken
            · rfl
        refine ⟨{i}, .dropped hturn (hmalformed.1 ▸ hcons) (fun _ h => h) ?_⟩
        exact iff_of_false hnot fun ⟨c, h, _⟩ => hmalformed.2 c h
    | cancelled carried =>
      have hturn : turn hasRedis call s e = (.finished, if carried then q else i :: q, s.accepted) := by
        unfold turn
        rw [hphase, hqueue, hcommand]
      cases carried with
      | true =>
        refine ⟨{i}, .dropped hturn hcons (fun _ h => h) ?_⟩
        rw [hloses, hcommand, hqueue]
        simp
      | false =>
        refine ⟨0, .kept hturn (by rw [hheld, hqueue]; rfl) (fun _ h => h) ?_⟩
        rw [hloses, hcommand]
        exact fun h => by cases h.1

theorem moves_pushing {i : Item ι} (hphase : s.phase e.task = .pushing i) :
    ∃ gone, Moves hasRedis call s e 0 gone := by
  have hloses : Loses hasRedis call s e ↔ e.command = .cancelled false ∧ ∃ c, i = .usage c ∧ c ∉ s.accepted := by
    unfold Loses
    rw [hphase]
  have hheld : (s.phase e.task).held = {i} := by
    rw [hphase]
    rfl
  have hpushed : (s.phase e.task).held + s.queue = (0 : Multiset (Item ι)) + ↑(s.queue ++ [i]) := by
    rw [hheld, zero_add, ← Multiset.coe_add, add_comm]
    rfl
  cases hcommand : e.command with
  | done =>
    have hturn : turn hasRedis call s e = (.finished, s.queue ++ [i], s.accepted) := by
      unfold turn
      rw [hphase, hcommand]
    refine ⟨0, .kept hturn hpushed (fun _ h => h) ?_⟩
    rw [hloses, hcommand]
    exact fun h => by cases h.1
  | cancelled carried =>
    have hturn : turn hasRedis call s e =
        (.finished, if carried then s.queue ++ [i] else s.queue, s.accepted) := by
      unfold turn
      rw [hphase, hcommand]
    cases carried with
    | true =>
      refine ⟨0, .kept hturn hpushed (fun _ h => h) ?_⟩
      rw [hloses, hcommand]
      exact fun h => by cases h.1
    | false =>
      refine ⟨{i}, .dropped hturn ?_ (fun _ h => h) ?_⟩
      · rw [hheld, add_comm, if_neg Bool.false_ne_true]
        exact congrArg (· + _) (zero_add (s.queue : Multiset (Item ι))).symm
      · rw [hloses, hcommand]
        simp

theorem turn_ne_idle (hasRedis : Bool) (call : ι → Call) (s : State ι) (e : Event ι) :
    (turn hasRedis call s e).1 ≠ .idle := by
  have htake (i : Item ι) : take i ≠ .idle := by
    cases i with
    | usage c => simp [take]
    | malformed x =>
      simp only [take]
      split_ifs <;> simp
  unfold turn
  split
  · cases call e.task <;> cases hasRedis <;> simp
  · split
    · cases call e.task <;> simp
    · dsimp only
      split_ifs <;> simp
    · simp
  · split
    · simp
    · exact htake _
    · simp
  · split <;> simp
  · simp

variable [DecidableEq ι]

/-- What a call takes in hand when it begins. -/
def gained (call : ι → Call) (s : State ι) (e : Event ι) : Multiset (Item ι) :=
  if s.phase e.task = .idle ∧ call e.task = .reportUsage then {.usage e.task} else 0

theorem moves_idle (hphase : s.phase e.task = .idle) : Moves hasRedis call s e (gained call s e) 0 := by
  have hnot : ¬Loses hasRedis call s e := by
    unfold Loses
    rw [hphase]
    exact id
  have hheld : (s.phase e.task).held = 0 := by
    rw [hphase]
    rfl
  unfold gained
  cases hcall : call e.task with
  | reportUsage =>
    have hturn : turn hasRedis call s e = (.posting e.task, s.queue, s.accepted) := by
      unfold turn
      rw [hphase, hcall]
    rw [if_pos ⟨hphase, rfl⟩]
    constructor
    · rw [hturn, hheld, zero_add, add_zero, add_comm]
      rfl
    · rw [hturn]
      exact fun _ h => h
    · exact fun _ h => (Multiset.notMem_zero _ h).elim
    · exact fun h => absurd h hnot
  | flushUsageQueue =>
    have hturn : turn hasRedis call s e = (if hasRedis then .popping else .finished, s.queue, s.accepted) := by
      unfold turn
      rw [hphase, hcall]
    rw [if_neg fun h => Call.noConfusion h.2]
    refine .kept hturn ?_ (fun _ h => h) hnot
    rw [hheld]
    cases hasRedis <;> rfl

theorem exists_moves (h : s.phase e.task ≠ .finished) :
    ∃ gone, Moves hasRedis call s e (gained call s e) gone := by
  have hgained (hidle : s.phase e.task ≠ .idle) : gained call s e = 0 := if_neg fun h => hidle h.1
  cases hphase : s.phase e.task with
  | idle => exact ⟨0, moves_idle hphase⟩
  | posting c => exact hgained (by simp [hphase]) ▸ moves_posting hphase
  | popping => exact hgained (by simp [hphase]) ▸ moves_popping hphase
  | pushing i => exact hgained (by simp [hphase]) ▸ moves_pushing hphase
  | finished => exact absurd hphase h

theorem turn_of_step (h : step hasRedis call s e = some t) : s.phase e.task ≠ .finished ∧
    t = ⟨Function.update s.phase e.task (turn hasRedis call s e).1, (turn hasRedis call s e).2.1,
      (turn hasRedis call s e).2.2⟩ := by
  unfold step at h
  split_ifs at h with hfinished
  exact ⟨hfinished, (Option.some.inj h).symm⟩

theorem phase_step (h : step hasRedis call s e = some t) (c : ι) (hc : c = e.task ∨ s.phase c ≠ .idle) :
    t.phase c ≠ .idle := by
  obtain ⟨-, rfl⟩ := turn_of_step h
  by_cases heq : c = e.task
  · subst heq
    simpa using turn_ne_idle hasRedis call s e
  · dsimp only
    rw [Function.update_of_ne heq]
    exact hc.resolve_left heq

theorem accepted_step (h : step hasRedis call s e = some t) : t.accepted = (turn hasRedis call s e).2.2 := by
  rw [(turn_of_step h).2]

theorem phase_of_ne (h : step hasRedis call s e = some t) {c : ι} (hc : c ≠ e.task) : t.phase c = s.phase c := by
  rw [(turn_of_step h).2]
  exact Function.update_of_ne hc _ _

end Turn

section Run

variable [DecidableEq ι] [Fintype ι]

theorem sum_update {α M : Type} [AddCommMonoid M] (g : α → M) (f : ι → α) (i : ι) (a : α) :
    g (f i) + ∑ c, g (Function.update f i a c) = g a + ∑ c, g (f c) := by
  have hothers : ∑ c ∈ Finset.univ.erase i, g (Function.update f i a c) = ∑ c ∈ Finset.univ.erase i, g (f c) :=
    Finset.sum_congr rfl fun c hc => by rw [Function.update_of_ne (Finset.ne_of_mem_erase hc)]
  rw [← Finset.add_sum_erase _ _ (Finset.mem_univ i), Function.update_self, hothers, add_left_comm,
    Finset.add_sum_erase _ (fun c => g (f c)) (Finset.mem_univ i)]

/-- All that is in the queue or in the hands of a call. -/
def State.custody (s : State ι) : Multiset (Item ι) := s.queue + ∑ c, (s.phase c).held

omit [DecidableEq ι] in
theorem mem_custody {i : Item ι} : i ∈ s.custody ↔ i ∈ s.queue ∨ ∃ c, i ∈ (s.phase c).held := by
  simp [State.custody, Multiset.mem_sum]

theorem custody_step (h : step hasRedis call s e = some t) :
    ∃ gone, s.custody + gained call s e = t.custody + gone ∧ Moves hasRedis call s e (gained call s e) gone := by
  obtain ⟨hfinished, rfl⟩ := turn_of_step h
  obtain ⟨gone, hmoves⟩ : ∃ gone, Moves hasRedis call s e (gained call s e) gone := exists_moves hfinished
  refine ⟨gone, ?_, hmoves⟩
  have hbalance := hmoves.balance
  generalize (turn hasRedis call s e).1 = p at hbalance ⊢
  have hsum := sum_update Phase.held s.phase e.task p
  refine add_left_cancel (a := (s.phase e.task).held) ?_
  unfold State.custody
  calc (s.phase e.task).held + (s.queue + ∑ c, (s.phase c).held + gained call s e)
      = (s.phase e.task).held + s.queue + gained call s e + ∑ c, (s.phase c).held := by abel
    _ = (turn hasRedis call s e).2.1 + gone + (p.held + ∑ c, (s.phase c).held) := by
      rw [hbalance]
      abel
    _ = (s.phase e.task).held + ((turn hasRedis call s e).2.1 +
          ∑ c, (Function.update s.phase e.task p c).held + gone) := by
      rw [← hsum]
      abel

/-- A report is in one place at most, and has been submitted if it is in one. -/
structure Inv (call : ι → Call) (s : State ι) : Prop where
  once : ∀ c, s.custody.count (.usage c) ≤ 1
  submitted : ∀ c, .usage c ∈ s.custody → call c = .reportUsage ∧ s.phase c ≠ .idle

theorem Inv.moved (h : Inv call s) {c : ι} (hc : .usage c ∈ s.custody + gained call s e) :
    call c = .reportUsage ∧ (c = e.task ∨ s.phase c ≠ .idle) := by
  obtain hc | hc := Multiset.mem_add.mp hc
  · exact (h.submitted c hc).imp_right .inr
  · unfold gained at hc
    split_ifs at hc with hidle
    · cases Multiset.mem_singleton.mp hc
      exact ⟨hidle.2, .inl rfl⟩
    · exact (Multiset.notMem_zero _ hc).elim

theorem Inv.count (h : Inv call s) (c : ι) : (s.custody + gained call s e).count (.usage c) ≤ 1 := by
  rw [Multiset.count_add]
  unfold gained
  split_ifs with hidle
  · by_cases hc : c = e.task
    · subst hc
      have hout : Item.usage e.task ∉ s.custody := fun hin => (h.submitted _ hin).2 hidle.1
      rw [Multiset.count_eq_zero.mpr hout, Multiset.count_singleton_self]
    · have hne : Item.usage c ≠ .usage e.task := fun heq => hc (by cases heq; rfl)
      rw [Multiset.count_singleton, if_neg hne]
      exact h.once c
  · rw [Multiset.count_zero]
    exact h.once c

theorem inv_initial (call : ι → Call) (left : List Failure) : Inv call (initial left) := by
  have hout (c : ι) : Item.usage c ∉ (initial left : State ι).custody := by
    rw [mem_custody]
    rintro (h | ⟨d, h⟩)
    · obtain ⟨x, -, hx⟩ := List.mem_map.mp h
      cases hx
    · exact (Multiset.notMem_zero _ h).elim
  exact ⟨fun c => (Multiset.count_eq_zero.mpr (hout c)).le.trans zero_le_one, fun c hc => absurd hc (hout c)⟩

theorem Inv.step (h : Inv call s) (hstep : step hasRedis call s e = some t) : Inv call t := by
  obtain ⟨gone, hbalance, -⟩ := custody_step hstep
  constructor
  · intro c
    have hcount : (s.custody + gained call s e).count (.usage c) ≤ 1 := h.count c
    rw [hbalance, Multiset.count_add] at hcount
    exact (Nat.le_add_right _ _).trans hcount
  · intro c hc
    obtain ⟨hreport, hphase⟩ := h.moved (hbalance ▸ Multiset.mem_add.mpr (.inl hc))
    exact ⟨hreport, phase_step hstep c hphase⟩

omit [DecidableEq ι] in
theorem conserved_iff : Conserved call s ↔
    ∀ c, call c = .reportUsage → s.phase c ≠ .idle → c ∈ s.accepted ∨ .usage c ∈ s.custody := by
  simp only [Conserved, mem_custody]

theorem conserved_step (h : Conserved call s) (hloses : ¬Loses hasRedis call s e)
    (hstep : step hasRedis call s e = some t) : Conserved call t := by
  obtain ⟨gone, hbalance, hmoves⟩ := custody_step hstep
  rw [conserved_iff] at h ⊢
  intro c hreport hphase
  rw [accepted_step hstep]
  have hbefore : c ∈ s.accepted ∨ .usage c ∈ s.custody + gained call s e := by
    by_cases hidle : s.phase c = .idle
    · have hc : c = e.task := by
        by_contra hne
        exact hphase ((phase_of_ne hstep hne).trans hidle)
      subst hc
      right
      rw [gained, if_pos ⟨hidle, hreport⟩]
      exact Multiset.mem_add.mpr (.inr (Multiset.mem_singleton_self _))
    · exact (h c hreport hidle).imp_right fun hc => Multiset.mem_add.mpr (.inl hc)
  obtain hc | hc := hbefore
  · exact .inl (hmoves.accepts c hc)
  · rw [hbalance] at hc
    obtain hc | hc := Multiset.mem_add.mp hc
    · exact .inr hc
    · exact .inl ((hmoves.left c hc).resolve_right hloses)

theorem not_conserved_step (h : Inv call s) (hloses : Loses hasRedis call s e)
    (hstep : step hasRedis call s e = some t) : ¬Conserved call t := by
  obtain ⟨gone, hbalance, hmoves⟩ := custody_step hstep
  obtain ⟨c, hgone, hout⟩ := hmoves.lost hloses
  have hcount : (s.custody + gained call s e).count (.usage c) ≤ 1 := h.count c
  have hnot : Item.usage c ∉ t.custody := by
    intro hin
    rw [hbalance, Multiset.count_add] at hcount
    have hone := Multiset.count_pos.mpr hgone
    have hmore := Multiset.count_pos.mpr hin
    omega
  obtain ⟨hreport, hphase⟩ := h.moved (hbalance ▸ Multiset.mem_add.mpr (.inr hgone))
  intro hconserved
  rw [conserved_iff] at hconserved
  obtain hc | hc := hconserved c hreport (phase_step hstep c hphase)
  · rw [accepted_step hstep] at hc
    exact hout hc
  · exact hnot hc

def Phase.live : Phase ι → Nat
  | .idle => 1
  | .posting _ => 1
  | .popping => 1
  | .pushing _ => 1
  | .finished => 0

/-- How far a call is from its next item, or from its end. -/
def Phase.weight : Phase ι → Nat
  | .idle => 3
  | .posting _ => 2
  | .popping => 1
  | .pushing _ => 1
  | .finished => 0

/-- The entries that can still come to a call, and its own place. -/
def State.ahead (s : State ι) (c : ι) : Nat :=
  2 * (s.queue.length + ∑ d, (s.phase d).live) + (s.phase c).weight

omit [DecidableEq ι] [Fintype ι] in
/-- A turn makes no entries but out of calls that end, and brings its call forward. -/
theorem turn_lowers (hasRedis : Bool) (call : ι → Call) (h : s.phase e.task ≠ .finished) :
    (turn hasRedis call s e).2.1.length + (turn hasRedis call s e).1.live ≤
        s.queue.length + (s.phase e.task).live ∧
      2 * ((turn hasRedis call s e).2.1.length + (turn hasRedis call s e).1.live) +
          (turn hasRedis call s e).1.weight <
        2 * (s.queue.length + (s.phase e.task).live) + (s.phase e.task).weight := by
  have htake (i : Item ι) : (take i).live ≤ 1 ∧ (take i).weight ≤ 2 := by
    cases i with
    | usage c => exact ⟨le_rfl, le_rfl⟩
    | malformed x =>
      simp only [take]
      split_ifs <;> simp [Phase.live, Phase.weight]
  unfold turn
  cases hphase : s.phase e.task with
  | idle =>
    cases call e.task with
    | reportUsage => simp [Phase.live, Phase.weight]
    | flushUsageQueue =>
      cases hasRedis <;> simp only [Phase.live, Phase.weight, if_true, Bool.false_eq_true, if_false] <;> omega
  | posting c =>
    cases e.post with
    | ok =>
      cases call e.task <;> simp only [Phase.live, Phase.weight] <;> omega
    | failed x accepted =>
      dsimp only
      split_ifs <;> simp only [Phase.live, Phase.weight] <;> omega
    | cancelled accepted =>
      simp only [Phase.live, Phase.weight]
      omega
  | popping =>
    cases hqueue : s.queue with
    | nil => simp [Phase.live, Phase.weight]
    | cons i q =>
      obtain ⟨hlive, hweight⟩ := htake i
      cases e.command with
      | done =>
        change q.length + (take i).live ≤ q.length + 1 + 1 ∧
          2 * (q.length + (take i).live) + (take i).weight < 2 * (q.length + 1 + 1) + 1
        omega
      | cancelled carried =>
        cases carried <;> simp only [Phase.live, Phase.weight, List.length_cons, if_true, Bool.false_eq_true, if_false]
          <;> omega
  | pushing i =>
    cases e.command with
    | done => simp [Phase.live, Phase.weight]
    | cancelled carried =>
      cases carried <;>
        simp only [Phase.live, Phase.weight, List.length_append, List.length_singleton, if_true,
          Bool.false_eq_true, if_false] <;>
        omega
  | finished => exact absurd hphase h

/-- A step brings its call forward, and sets no other back. -/
theorem ahead_step (h : step hasRedis call s e = some t) (c : ι) :
    t.ahead c + (decide (e.task = c)).toNat ≤ s.ahead c := by
  obtain ⟨hfinished, rfl⟩ := turn_of_step h
  obtain ⟨hentries, hforward⟩ := turn_lowers hasRedis call hfinished
  have hsum := sum_update Phase.live s.phase e.task (turn hasRedis call s e).1
  unfold State.ahead
  by_cases hc : e.task = c
  · subst hc
    rw [decide_eq_true rfl]
    dsimp only [Bool.toNat_true]
    rw [Function.update_self]
    omega
  · rw [decide_eq_false hc]
    dsimp only [Bool.toNat_false]
    rw [Function.update_of_ne (Ne.symm hc)]
    omega

/-- A call takes so many steps at most, whatever the others do. -/
theorem steps_le (left : List Failure) {es : List (Event ι)}
    (h : run (step hasRedis call) (initial left) es = some t) (c : ι) :
    es.countP (fun e => e.task = c) ≤ 2 * (left.length + Fintype.card ι) + 3 := by
  have hcount := countP_add_le (fun _ _ _ hstep => ahead_step hstep c) h
  have hstart : (initial left : State ι).ahead c = 2 * (left.length + Fintype.card ι) + 3 := by
    simp [State.ahead, initial, Phase.live, Phase.weight]
  omega

end Run

/-- In every run of reports and flushes, every report is accepted, queued or in the hands of a call
all the time just when no step loses one. Every call ends: as long as it has not it can go on, and
it does so only a bounded number of times. -/
theorem conserved_iff_nothing_lost [DecidableEq ι] [Fintype ι] (hasRedis : Bool) (call : ι → Call)
    (left : List Failure) (es : List (Event ι)) :
    (Always (step hasRedis call) (Conserved call) (initial left) es ↔
      Meets (step hasRedis call) (fun s e => ¬Loses hasRedis call s e) (initial left) es) ∧
    ∀ t, run (step hasRedis call) (initial left) es = some t → ∀ c,
      es.countP (fun e => e.task = c) ≤ 2 * (left.length + Fintype.card ι) + 3 ∧
        (t.phase c ≠ .finished → ∀ e, e.task = c → (step hasRedis call t e).isSome) := by
  constructor
  · refine always_iff_meets (J := fun s => Inv call s ∧ Conserved call s) (fun s h => h.2) ?_ ?_ ?_ es
    · exact fun s e t h hloses hstep => ⟨h.1.step hstep, conserved_step h.2 hloses hstep⟩
    · exact fun s e t h hstep hconserved hloses => not_conserved_step h.1 hloses hstep hconserved
    · exact ⟨inv_initial call left, fun c _ hidle => absurd rfl hidle⟩
  · intro t hrun c
    refine ⟨steps_le left hrun c, fun hphase e he => ?_⟩
    subst he
    unfold step
    rw [if_neg hphase]
    rfl

def cancelledReport : List (Event Unit) :=
  [⟨(), .ok, .done⟩, ⟨(), .cancelled false, .done⟩]

theorem cancelledReport_lost :
    ¬Always (step true fun _ => .reportUsage) (Conserved fun _ => .reportUsage) (initial []) cancelledReport := by
  intro h
  have hlost := (h.2 _ rfl).2 _ rfl
  obtain hc | hc | ⟨t, hc⟩ := hlost () rfl (by decide)
  · cases hc
  · cases hc
  · exact (Multiset.notMem_zero _ hc).elim

end Conservation

end AlfredProcessing.Api.UsageReports
