import AlfredProcessing.Lib.Transition
import Mathlib.Algebra.Order.Field.Rat
import Mathlib.Data.Finset.Max
import Mathlib.Tactic.Linarith

namespace AlfredProcessing.Middleware.RateLimit

open Lib.Transition

/-- `SERVER_DEFAULT_RATE_LIMIT`. -/
def serverDefaultRateLimit : Int := 20

/-- What `check_rate_limit` returns. -/
structure Answer where
  allowed : Bool
  remaining : Int
  retryAfter : Int
  deriving DecidableEq

/-- Where a call is between its two groups of commands. -/
inductive Call where
  | idle
  | denied (now : ℚ)
  | timed (now : ℚ) (retryAfter : Int)
  | returned (answer : Answer)
  deriving DecidableEq

/-- The sorted set of one key with the calls on it. The text of a time, which is the
member of an entry, and its score tell the same, so an entry is its time. -/
structure State where
  entries : Finset ℚ
  clock : ℚ
  calls : Nat → Call
  admitted : List ℚ

/-- A call sends its transaction, asks for the oldest entry or takes its own back. -/
inductive Event where
  | execute (id : Nat) (now : ℚ)
  | zrange (id : Nat)
  | zrem (id : Nat)

def init (start : ℚ) : State where
  entries := ∅
  clock := start
  calls _ := .idle
  admitted := []

/-- `int` of a number cuts off its fraction. -/
def truncate (x : ℚ) : Int := if 0 ≤ x then x.floor else x.ceil

def State.answer (s : State) (id : Nat) (call : Call) : State :=
  { s with calls := Function.update s.calls id call }

/-- `zremrangebyscore`, `zcard` and `zadd`. -/
def State.trimmed (s : State) (now : ℚ) : Finset ℚ := s.entries.filter fun t => now - 3600 < t

/-- The transaction of a call and what the call makes of the count. -/
def State.execute (maxPerHour : Int) (s : State) (id : Nat) (now : ℚ) : State :=
  if maxPerHour ≤ 0 then
    { s.answer id (.returned ⟨true, -1, 0⟩) with clock := now, admitted := s.admitted ++ [now] }
  else
    let currentCount := (s.trimmed now).card
    let s' := { s with entries := insert now (s.trimmed now), clock := now }
    if maxPerHour ≤ currentCount then s'.answer id (.denied now)
    else
      { s'.answer id (.returned ⟨true, max 0 (maxPerHour - currentCount - 1), 0⟩) with
        admitted := s.admitted ++ [now] }

def retryAfter (entries : Finset ℚ) (now : ℚ) : Int :=
  match entries.min with
  | some oldest => truncate (oldest + 3600 - now) + 1
  | none => 60

def step (maxPerHour : Int) (s : State) : Event → Option State
  | .execute id now =>
    if s.calls id = .idle ∧ s.clock ≤ now then some (s.execute maxPerHour id now) else none
  | .zrange id =>
    match s.calls id with
    | .denied now => some (s.answer id (.timed now (retryAfter s.entries now)))
    | _ => none
  | .zrem id =>
    match s.calls id with
    | .timed now retry =>
      some { s.answer id (.returned ⟨false, 0, retry⟩) with entries := s.entries.erase now }
    | _ => none

/-- The time of a call that was denied and still has its entry to take back. -/
def Call.pending : Call → Option ℚ
  | .denied now => some now
  | .timed now _ => some now
  | _ => none

/-- The admitted calls from `a` to `b`. -/
def State.admittedIn (s : State) (a b : ℚ) : List ℚ := s.admitted.filter fun t => a ≤ t ∧ t ≤ b

/-- The entry that a call is about to add is not there yet. -/
def Fresh (s : State) : Event → Prop
  | .execute _ now => now ∉ s.entries
  | _ => True

instance decidableFresh (s : State) : ∀ e, Decidable (Fresh s e)
  | .execute _ now => inferInstanceAs (Decidable (now ∉ s.entries))
  | .zrange _ => isTrue trivial
  | .zrem _ => isTrue trivial

/-- Every call in the window has its entry, and no two calls share one. -/
structure Inv (maxPerHour : Int) (s : State) : Prop where
  past : ∀ t ∈ s.admitted, t ≤ s.clock
  recent : ∀ t ∈ s.entries, s.clock - 3600 < t
  recorded : ∀ t ∈ s.admitted, s.clock - 3600 < t → t ∈ s.entries
  distinct : (s.admitted.filter fun t => s.clock - 3600 < t).Nodup
  pending : ∀ id t, (s.calls id).pending = some t → s.clock - 3600 < t →
    t ∈ s.entries ∧ t ∉ s.admitted
  alone : ∀ id id' t, (s.calls id).pending = some t → (s.calls id').pending = some t →
    s.clock - 3600 < t → id = id'
  bound : ∀ a b, b - a < 3600 → (s.admittedIn a b).length ≤ maxPerHour

section Invariant

variable {maxPerHour : Int} {s t : State} {id : Nat} {now : ℚ}

theorem inv_init (hmax : 0 < maxPerHour) (start : ℚ) : Inv maxPerHour (init start) where
  past := by simp [init]
  recent := by simp [init]
  recorded := by simp [init]
  distinct := List.nodup_nil
  pending := by simp [init, Call.pending]
  alone := by simp [init, Call.pending]
  bound a b _ := by simpa [init, State.admittedIn] using hmax.le

theorem mem_trimmed {x : ℚ} : x ∈ s.trimmed now ↔ x ∈ s.entries ∧ now - 3600 < x :=
  Finset.mem_filter

theorem Inv.moved (h : Inv maxPerHour s) (hle : s.clock ≤ now) (hfresh : now ∉ s.entries) :
    Inv maxPerHour { s with entries := insert now (s.trimmed now), clock := now } where
  past x hx := (h.past x hx).trans hle
  recent x hx := by
    simp only [Finset.mem_insert, mem_trimmed] at hx
    obtain rfl | hx := hx
    · linarith
    · exact hx.2
  recorded x hx hlt := by
    have hold : s.clock - 3600 < x := lt_of_le_of_lt (by linarith) hlt
    exact Finset.mem_insert_of_mem (mem_trimmed.mpr ⟨h.recorded x hx hold, hlt⟩)
  distinct := by
    refine h.distinct.sublist (List.monotone_filter_right s.admitted fun x hx => ?_)
    simp only [decide_eq_true_eq] at hx ⊢
    linarith
  pending id x hx hlt := by
    have hold : s.clock - 3600 < x := lt_of_le_of_lt (by linarith) hlt
    obtain ⟨hin, hnot⟩ := h.pending id x hx hold
    exact ⟨Finset.mem_insert_of_mem (mem_trimmed.mpr ⟨hin, hlt⟩), hnot⟩
  alone id id' x hx hx' hlt := h.alone id id' x hx hx' (lt_of_le_of_lt (by linarith) hlt)
  bound := h.bound

theorem Inv.now_not_admitted (h : Inv maxPerHour s) (hle : s.clock ≤ now)
    (hfresh : now ∉ s.entries) : now ∉ s.admitted := fun hin =>
  hfresh (h.recorded now hin (by linarith))

theorem Inv.now_not_pending (h : Inv maxPerHour s) (hle : s.clock ≤ now)
    (hfresh : now ∉ s.entries) (id : Nat) : (s.calls id).pending ≠ some now := fun hp =>
  hfresh (h.pending id now hp (by linarith)).1

/-- The admitted calls of a window that reaches `now` are all counted. -/
theorem Inv.length_le_card (h : Inv maxPerHour s) {a b : ℚ} (hab : b - a < 3600)
    (hle : s.clock ≤ now) (hb : now ≤ b) : (s.admittedIn a b).length ≤ (s.trimmed now).card := by
  have hlow : ∀ x, a ≤ x → now - 3600 < x := fun x hx => by linarith
  have hnodup : (s.admittedIn a b).Nodup := by
    refine h.distinct.sublist (List.monotone_filter_right s.admitted fun x hx => ?_)
    simp only [decide_eq_true_eq] at hx ⊢
    have := hlow x hx.1
    linarith
  rw [← List.toFinset_card_of_nodup hnodup]
  refine Finset.card_le_card fun x hx => ?_
  simp only [State.admittedIn, List.mem_toFinset, List.mem_filter, decide_eq_true_eq] at hx
  have hx' := hlow x hx.2.1
  exact mem_trimmed.mpr ⟨h.recorded x hx.1 (by linarith), hx'⟩

theorem pending_answer {call : Call} {i : Nat} {x : ℚ}
    (hp : ((s.answer id call).calls i).pending = some x) :
    (i = id ∧ call.pending = some x) ∨ (i ≠ id ∧ (s.calls i).pending = some x) := by
  by_cases hi : i = id
  · subst hi
    simp only [State.answer, Function.update_self] at hp
    exact .inl ⟨rfl, hp⟩
  · simp only [State.answer, Function.update_of_ne hi] at hp
    exact .inr ⟨hi, hp⟩

/-- A call that no longer waits, or waits as before, keeps the invariant. -/
theorem Inv.answer (h : Inv maxPerHour s) {call : Call}
    (hcall : ∀ x, call.pending = some x → (s.calls id).pending = some x) :
    Inv maxPerHour (s.answer id call) := by
  have hold : ∀ i x, ((s.answer id call).calls i).pending = some x →
      (s.calls i).pending = some x := by
    intro i x hp
    obtain ⟨rfl, hx⟩ | ⟨-, hx⟩ := pending_answer hp
    · exact hcall x hx
    · exact hx
  exact ⟨h.past, h.recent, h.recorded, h.distinct, fun i x hp => h.pending i x (hold i x hp),
    fun i j x hi hj => h.alone i j x (hold i x hi) (hold j x hj), h.bound⟩

theorem Inv.deny (h : Inv maxPerHour s) (hin : now ∈ s.entries) (hnot : now ∉ s.admitted)
    (hpend : ∀ i, (s.calls i).pending ≠ some now) : Inv maxPerHour (s.answer id (.denied now)) where
  past := h.past
  recent := h.recent
  recorded := h.recorded
  distinct := h.distinct
  pending i x hp hlt := by
    obtain ⟨-, hx⟩ | ⟨-, hx⟩ := pending_answer hp
    · obtain rfl := Option.some.inj hx
      exact ⟨hin, hnot⟩
    · exact h.pending i x hx hlt
  alone i j x hi hj hlt := by
    obtain ⟨rfl, hx⟩ | ⟨-, hx⟩ := pending_answer hi <;>
      obtain ⟨rfl, hy⟩ | ⟨-, hy⟩ := pending_answer hj
    · rfl
    · obtain rfl := Option.some.inj hx
      exact absurd hy (hpend j)
    · obtain rfl := Option.some.inj hy
      exact absurd hx (hpend i)
    · exact h.alone i j x hx hy hlt
  bound := h.bound

theorem Inv.admits (h : Inv maxPerHour s) (hclock : s.clock = now) (hin : now ∈ s.entries)
    (hnot : now ∉ s.admitted) (hpend : ∀ i, (s.calls i).pending ≠ some now)
    (hroom : ∀ a b, b - a < 3600 → now ≤ b → (s.admittedIn a b).length < maxPerHour) :
    Inv maxPerHour { s with admitted := s.admitted ++ [now] } where
  past x hx := by
    obtain hx | hx := List.mem_append.mp hx
    · exact h.past x hx
    · rw [List.mem_singleton.mp hx, hclock]
  recent := h.recent
  recorded x hx hlt := by
    obtain hx | hx := List.mem_append.mp hx
    · exact h.recorded x hx hlt
    · rw [List.mem_singleton.mp hx]
      exact hin
  distinct := by
    rw [List.filter_append]
    refine h.distinct.append ((List.nodup_singleton now).filter _) fun x hx hx' => ?_
    rw [List.mem_singleton.mp (List.mem_of_mem_filter hx')] at hx
    exact hnot (List.mem_of_mem_filter hx)
  pending i x hp hlt := by
    obtain ⟨hx, hx'⟩ := h.pending i x hp hlt
    refine ⟨hx, fun hmem => ?_⟩
    obtain hmem | hmem := List.mem_append.mp hmem
    · exact hx' hmem
    · rw [List.mem_singleton.mp hmem] at hp
      exact hpend i hp
  alone := h.alone
  bound a b hab := by
    rw [State.admittedIn, List.filter_append, List.length_append]
    by_cases hb : now ≤ b
    · have hone : ([now].filter fun t => a ≤ t ∧ t ≤ b).length ≤ 1 := List.length_filter_le _ _
      have hlt := hroom a b hab hb
      rw [State.admittedIn] at hlt
      omega
    · have hnone : ([now].filter fun t => a ≤ t ∧ t ≤ b) = [] := by simp [hb]
      rw [hnone, List.length_nil, Nat.add_zero]
      exact h.bound a b hab

theorem Inv.execute (h : Inv maxPerHour s) (hmax : 0 < maxPerHour) (hle : s.clock ≤ now)
    (hfresh : now ∉ s.entries) : Inv maxPerHour (s.execute maxPerHour id now) := by
  have hmoved := h.moved hle hfresh
  have hnot := h.now_not_admitted hle hfresh
  have hpend := h.now_not_pending hle hfresh
  have hin : now ∈ insert now (s.trimmed now) := Finset.mem_insert_self _ _
  rw [State.execute, if_neg (not_le.mpr hmax)]
  dsimp only
  split
  · exact hmoved.deny hin hnot hpend
  · next hroom =>
    refine Inv.answer (Inv.admits hmoved rfl hin hnot hpend fun a b hab hb => ?_) ?_
    · have hcount := h.length_le_card hab hle hb
      change ((s.admittedIn a b).length : Int) < maxPerHour
      omega
    · exact fun x hx => by cases hx

theorem Inv.zrem (h : Inv maxPerHour s) {retry : Int} (hcall : s.calls id = .timed now retry) :
    Inv maxPerHour
      { s.answer id (.returned ⟨false, 0, retry⟩) with entries := s.entries.erase now } := by
  have hp : (s.calls id).pending = some now := by rw [hcall, Call.pending]
  have hansw : Inv maxPerHour (s.answer id (.returned ⟨false, 0, retry⟩)) :=
    h.answer fun x hx => by cases hx
  refine ⟨hansw.past, fun x hx => hansw.recent x (Finset.mem_of_mem_erase hx), ?_, hansw.distinct,
    ?_, hansw.alone, hansw.bound⟩
  · intro x hx hlt
    refine Finset.mem_erase.mpr ⟨?_, hansw.recorded x hx hlt⟩
    rintro rfl
    exact (h.pending id x hp hlt).2 hx
  · intro i x hi hlt
    obtain ⟨hx, hnot⟩ := hansw.pending i x hi hlt
    refine ⟨Finset.mem_erase.mpr ⟨?_, hx⟩, hnot⟩
    rintro rfl
    obtain ⟨-, hx⟩ | ⟨hne, hx⟩ := pending_answer hi
    · cases hx
    · exact hne (h.alone i id x hx hp hlt)

theorem Inv.step (hmax : 0 < maxPerHour) (s : State) (e : Event) (t : State)
    (h : Inv maxPerHour s) (hfresh : Fresh s e)
    (hstep : RateLimit.step maxPerHour s e = some t) : Inv maxPerHour t := by
  cases e with
  | execute id now =>
    simp only [RateLimit.step, Option.ite_none_right_eq_some, Option.some.injEq] at hstep
    obtain ⟨⟨-, hle⟩, rfl⟩ := hstep
    exact h.execute hmax hle hfresh
  | zrange id =>
    rw [RateLimit.step] at hstep
    split at hstep
    · next now hcall =>
      obtain rfl := Option.some.inj hstep
      exact h.answer fun x hx => by rw [hcall]; exact hx
    · cases hstep
  | zrem id =>
    rw [RateLimit.step] at hstep
    split at hstep
    · next now retry hcall =>
      obtain rfl := Option.some.inj hstep
      exact h.zrem hcall
    · cases hstep

theorem inv_run (hmax : 0 < maxPerHour) {start : ℚ} {es : List Event}
    (hfresh : Meets (RateLimit.step maxPerHour) Fresh (init start) es)
    (hrun : run (RateLimit.step maxPerHour) (init start) es = some s) : Inv maxPerHour s :=
  (always_of_meets (Inv.step hmax) (inv_init hmax start) hfresh).last hrun

/-- Taking a denied call's entry back removes no entry of an admitted call that is
in the denied call's window. -/
theorem Inv.keeps_admitted (h : Inv maxPerHour s)
    (hstep : RateLimit.step maxPerHour s (.zrem id) = some t) {x : ℚ} (hx : x ∈ s.admitted) (hin : x ∈ s.entries) :
    x ∈ t.entries := by
  rw [RateLimit.step] at hstep
  split at hstep
  · next now' retry hcall =>
    obtain rfl := Option.some.inj hstep
    refine Finset.mem_erase.mpr ⟨?_, hin⟩
    rintro rfl
    have hp' : (s.calls id).pending = some x := by rw [hcall, Call.pending]
    exact (h.pending id x hp' (h.recent x hin)).2 hx
  · cases hstep

end Invariant

/-- Where no call finds its own time in the set already, the admitted calls stay
within the limit in every window, and a denied call takes back nothing of theirs. -/
theorem checkRateLimit_sound (maxPerHour : Int) (hmax : 0 < maxPerHour) (start : ℚ)
    (es : List Event) (hfresh : Meets (step maxPerHour) Fresh (init start) es) (s : State)
    (hrun : run (step maxPerHour) (init start) es = some s) :
    (∀ a b, b - a < 3600 → (s.admittedIn a b).length ≤ maxPerHour) ∧
      ∀ id t, step maxPerHour s (.zrem id) = some t →
        ∀ x ∈ s.admitted, x ∈ s.entries → x ∈ t.entries := by
  have h := inv_run hmax hfresh hrun
  exact ⟨h.bound, fun id t hstep x hx hin => h.keeps_admitted hstep hx hin⟩

/-- The time of a call is later than that of every call before it. -/
def Later (s : State) : Event → Prop
  | .execute _ now => s.clock < now
  | _ => True

theorem entries_past {maxPerHour : Int} (s : State) (e : Event) (t : State)
    (h : ∀ x ∈ s.entries, x ≤ s.clock) (hstep : step maxPerHour s e = some t) :
    ∀ x ∈ t.entries, x ≤ t.clock := by
  cases e with
  | execute id now =>
    simp only [step, Option.ite_none_right_eq_some, Option.some.injEq] at hstep
    obtain ⟨⟨-, hle⟩, rfl⟩ := hstep
    have hadd : ∀ x ∈ insert now (s.trimmed now), x ≤ now := by
      intro x hx
      obtain rfl | hx := Finset.mem_insert.mp hx
      · exact le_rfl
      · exact (h x (mem_trimmed.mp hx).1).trans hle
    unfold State.execute
    split
    · exact fun x hx => (h x hx).trans hle
    · dsimp only
      split <;> exact hadd
  | zrange id =>
    rw [step] at hstep
    split at hstep
    · obtain rfl := Option.some.inj hstep
      exact h
    · cases hstep
  | zrem id =>
    rw [step] at hstep
    split at hstep
    · obtain rfl := Option.some.inj hstep
      exact fun x hx => h x (Finset.mem_of_mem_erase hx)
    · cases hstep

/-- A clock that moves on between any two calls never repeats an entry. -/
theorem fresh_of_later {maxPerHour : Int} {start : ℚ} {es : List Event}
    (h : Meets (step maxPerHour) Later (init start) es) :
    Meets (step maxPerHour) Fresh (init start) es := by
  refine h.imp (J := fun s => ∀ x ∈ s.entries, x ≤ s.clock) entries_past ?_ (by simp [init])
  intro s e hpast hlater
  cases e with
  | execute id now => exact fun hin => absurd (hpast now hin) (not_le.mpr hlater)
  | zrange id => trivial
  | zrem id => trivial

theorem checkRateLimit_sound_twoCalls :
    ∃ s, run (step 1) (init 0) [.execute 0 7200, .execute 1 7201, .zrange 1] = some s ∧
      (∀ a b, b - a < 3600 → ((s.admittedIn a b).length : Int) ≤ 1) ∧
      ∀ id t, step 1 s (.zrem id) = some t → ∀ x ∈ s.admitted, x ∈ s.entries → x ∈ t.entries := by
  obtain ⟨s, hs⟩ := Option.isSome_iff_exists.mp
    (show (run (step 1) (init 0) [.execute 0 7200, .execute 1 7201, .zrange 1]).isSome by
      decide +kernel)
  exact ⟨s, hs, checkRateLimit_sound 1 (by decide +kernel) 0 _ (by decide +kernel) s hs⟩

/-- Three calls at one time are all admitted under a limit of two, and under a limit
of one the second call takes back the entry of the first. -/
theorem checkRateLimit_unsound :
    ((run (step 2) (init 0) [.execute 0 7200, .execute 1 7200, .execute 2 7200]).map
        fun s => (s.admittedIn 7200 7200).length) = some 3 ∧
      ((run (step 1) (init 0) [.execute 0 7200, .execute 1 7200, .zrange 1]).bind fun s =>
        (step 1 s (.zrem 1)).map fun t => (s.admitted, s.entries, t.entries)) =
        some ([7200], {7200}, ∅) := by
  decide +kernel

end AlfredProcessing.Middleware.RateLimit
