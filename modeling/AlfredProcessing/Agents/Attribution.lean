import AlfredProcessing.Agents.RunCrew

namespace AlfredProcessing.Agents.Attribution

open RunCrew

/-- The position of a task in `taskNames`. -/
def place : TaskName → Nat
  | .gatherRequirements => 0
  | .assessFeasibility => 1
  | .designSolution => 2
  | .generateChangeset => 3
  | .validateChangeset => 4
  | .deployChangeset => 5

theorem getElem?_taskNames {i : Nat} {t : TaskName} : taskNames[i]? = some t ↔ i = place t := by
  constructor
  · intro h
    match i with
    | 0 | 1 | 2 | 3 | 4 | 5 =>
      cases h
      rfl
    | i + 6 => simp [taskNames] at h
  · rintro rfl
    cases t <;> rfl

theorem place_inj {t u : TaskName} (h : place t = place u) : t = u := by
  have ht := getElem?_taskNames.mpr (rfl : place t = place t)
  rw [h, getElem?_taskNames.mpr rfl] at ht
  exact (Option.some.inj ht).symm

/-- After the run every output of the crew stands under the task that made it,
no other entry has changed, and a resume skips the tasks that ran and is fed
what they put out. -/
structure Attributed (crew : Crew) (output : TaskName → Option String) (after : CrewState) : Prop where
  own : ∀ t ∈ crew.alfredTaskNames, ∀ raw, output t = some raw →
    (after.completedTasks t).map Completion.output = some raw
  silent : ∀ t ∈ crew.alfredTaskNames, output t = none → after.completedTasks t = none
  others : ∀ t, t ∉ crew.alfredTaskNames → after.completedTasks t = crew.state.completedTasks t
  resumed : ∀ t, t ∉ (buildAlfredCrew (some after)).1.alfredTaskNames ↔
    (t ∈ crew.alfredTaskNames ∧ (output t).isSome) ∨ (crew.state.completedTasks t).isSome
  fed : ∀ t ∈ crew.alfredTaskNames, ∀ raw, output t = some raw → t ≠ .deployChangeset →
    (buildAlfredCrew (some after)).2.of t = some raw

/-- Every task of the crew that puts something out stands where it stands in
the full list. -/
def aligned (crew : Crew) (output : TaskName → Option String) : Prop :=
  ∀ (i : Nat) (t : TaskName), crew.alfredTaskNames[i]? = some t → (output t).isSome → taskNames[i]? = some t

theorem recordOutputs_completed (active : List TaskName) (clock : Nat → Nat) (i : Nat)
    (outs : List (Option String)) (s : CrewState) (changeset : Option String) (t : TaskName) :
    ((recordOutputs active clock i outs (s, changeset)).1).completedTasks t =
      match (if i ≤ place t then outs[place t - i]? else none) with
      | some (some raw) => some ⟨raw, clock (place t)⟩
      | _ => s.completedTasks t := by
  induction outs generalizing i s changeset with
  | nil => simp [recordOutputs]
  | cons out outs ih =>
    -- one position: it is the task's own place, before it or behind it
    have htail (hne : i ≠ place t) : (if i + 1 ≤ place t then outs[place t - (i + 1)]? else none) =
        (if i ≤ place t then (out :: outs)[place t - i]? else none) := by
      by_cases hle : i + 1 ≤ place t
      · have hsub : place t - i = (place t - (i + 1)) + 1 := by omega
        rw [if_pos hle, if_pos (by omega), hsub, List.getElem?_cons_succ]
      · rw [if_neg hle, if_neg (by omega)]
    have hpast (h : i = place t) : ¬ i + 1 ≤ place t := by omega
    unfold recordOutputs
    split
    · next _ _ name raw hname =>
      rw [ih]
      by_cases hi : i = place t
      · have hnt : name = t := by
          rw [getElem?_taskNames.mpr hi] at hname
          exact (Option.some.inj hname).symm
        subst hnt
        rw [if_neg (hpast hi)]
        simp [hi, CrewState.markTaskComplete]
      · have hnt : name ≠ t := fun hnt => hi (hnt ▸ getElem?_taskNames.mp hname)
        rw [htail hi]
        simp [CrewState.markTaskComplete, Ne.symm hnt]
    · next out _ _ hnone =>
      rw [ih]
      by_cases hi : i = place t
      · have hout : out = none := by
          cases out with
          | none => rfl
          | some raw => exact (hnone t raw (getElem?_taskNames.mpr hi) rfl).elim
        rw [if_neg (hpast hi)]
        simp [hi, hout]
      · rw [htail hi]

theorem runCrew_completed (crew : Crew) (clock : Nat → Nat) (result : String)
    (output : TaskName → Option String) (t : TaskName) :
    (runCrew crew clock (.returned result output)).1.completedTasks t =
      match crew.alfredTaskNames[place t]?.bind output with
      | some raw => some ⟨raw, clock (place t)⟩
      | none => crew.state.completedTasks t := by
  have h := recordOutputs_completed crew.alfredTaskNames clock 0
    (crew.alfredTaskNames.map output) crew.state none t
  simp only [runCrew, h, Nat.zero_le, if_true, Nat.sub_zero, List.getElem?_map]
  cases crew.alfredTaskNames[place t]? with
  | none => rfl
  | some u => cases hu : output u <;> simp [hu]

theorem pairwise_place (crew : Crew) :
    crew.alfredTaskNames.Pairwise fun t u => place t < place u :=
  List.Pairwise.sublist crew.ordered (by decide)

theorem le_place (crew : Crew) {i : Nat} {t : TaskName} (h : crew.alfredTaskNames[i]? = some t) :
    i ≤ place t := by
  induction i generalizing t with
  | zero => exact Nat.zero_le _
  | succ i ih =>
    obtain ⟨hi, rfl⟩ := List.getElem?_eq_some_iff.mp h
    have hlt := List.pairwise_iff_getElem.mp (pairwise_place crew) i (i + 1) (by omega) hi (by omega)
    have hle := ih (List.getElem?_eq_getElem (by omega))
    omega

variable {crew : Crew} {output : TaskName → Option String}

theorem aligned.bind_place (h : aligned crew output) {t : TaskName} {raw : String}
    (hb : crew.alfredTaskNames[place t]?.bind output = some raw) :
    t ∈ crew.alfredTaskNames ∧ output t = some raw := by
  obtain ⟨u, hu, hraw⟩ := Option.bind_eq_some_iff.mp hb
  have hplace := getElem?_taskNames.mp (h _ u hu (by simp [hraw]))
  obtain rfl := place_inj hplace
  exact ⟨List.mem_of_getElem? hu, hraw⟩

theorem aligned.place_bind (h : aligned crew output) {t : TaskName} {raw : String}
    (ht : t ∈ crew.alfredTaskNames) (hraw : output t = some raw) :
    crew.alfredTaskNames[place t]?.bind output = some raw := by
  obtain ⟨i, hi, rfl⟩ := List.mem_iff_getElem.mp ht
  have hget := List.getElem?_eq_getElem hi
  have hplace := getElem?_taskNames.mp (h i _ hget (by simp [hraw]))
  rw [← hplace, hget]
  exact hraw

theorem formatVars_of {s : CrewState} {t : TaskName} {c : Completion}
    (h : s.completedTasks t = some c) (ht : t ≠ .deployChangeset) :
    (formatVars s).of t = some c.output := by
  cases t with
  | deployChangeset => exact absurd rfl ht
  | _ => simp [formatVars, FormatVars.of, h]

theorem aligned.attributed (h : aligned crew output) (clock : Nat → Nat) (result : String) :
    Attributed crew output (runCrew crew clock (.returned result output)).1 := by
  have hown (t : TaskName) (ht : t ∈ crew.alfredTaskNames) (raw : String)
      (hraw : output t = some raw) :
      (runCrew crew clock (.returned result output)).1.completedTasks t =
        some ⟨raw, clock (place t)⟩ := by
    rw [runCrew_completed, h.place_bind ht hraw]
  have hkeep (t : TaskName) (ht : ∀ raw, ¬ (t ∈ crew.alfredTaskNames ∧ output t = some raw)) :
      (runCrew crew clock (.returned result output)).1.completedTasks t =
        crew.state.completedTasks t := by
    rw [runCrew_completed]
    cases hb : crew.alfredTaskNames[place t]?.bind output with
    | none => rfl
    | some raw => exact absurd (h.bind_place hb) (ht raw)
  refine ⟨fun t ht raw hraw => by rw [hown t ht raw hraw]; rfl, fun t ht hnone => ?_, fun t ht => ?_,
    fun t => ?_, fun t ht raw hraw hd => ?_⟩
  · rw [hkeep t fun raw hc => by rw [hnone] at hc; cases hc.2]
    exact crew.fresh t ht
  · exact hkeep t fun raw hc => ht hc.1
  · have hall : t ∈ taskNames := by cases t <;> decide
    simp only [buildAlfredCrew, Option.getD_some, List.mem_filter, hall, true_and,
      Option.isNone_iff_eq_none, Option.ne_none_iff_isSome.symm]
    by_cases hran : ∃ raw, t ∈ crew.alfredTaskNames ∧ output t = some raw
    · obtain ⟨raw, ht, hraw⟩ := hran
      simp [hown t ht raw hraw, ht, hraw]
    · have hk := hkeep t (not_exists.mp hran)
      rw [hk]
      constructor
      · exact .inr
      · rintro (⟨ht, ho⟩ | hs)
        · obtain ⟨raw, hraw⟩ := Option.ne_none_iff_exists'.mp ho
          exact absurd ⟨raw, ht, hraw⟩ hran
        · exact hs
  · exact formatVars_of (hown t ht raw hraw) hd

/-- A misplaced output can only be found again under its task if a later
position holds a misplaced output too. -/
theorem aligned_of_own (clock : Nat → Nat) (result : String)
    (h : ∀ t ∈ crew.alfredTaskNames, ∀ raw, output t = some raw →
      ((runCrew crew clock (.returned result output)).1.completedTasks t).map Completion.output =
        some raw) : aligned crew output := by
  have hlater (n : Nat) : ∀ (i : Nat) (t : TaskName), 6 ≤ i + n →
      crew.alfredTaskNames[i]? = some t → (output t).isSome → i = place t := by
    induction n with
    | zero =>
      intro i t hi ht _
      have hle := le_place crew ht
      cases t <;> simp [place] at hle <;> omega
    | succ n ih =>
      intro i t hi ht hout
      by_contra hne
      have hlt : i < place t := Nat.lt_of_le_of_ne (le_place crew ht) hne
      obtain ⟨raw, hraw⟩ := Option.isSome_iff_exists.mp hout
      have htm := List.mem_of_getElem? ht
      have hown := h t htm raw hraw
      rw [runCrew_completed, crew.fresh t htm] at hown
      cases hb : crew.alfredTaskNames[place t]?.bind output with
      | none => simp [hb] at hown
      | some raw' =>
        obtain ⟨u, hu, hraw'⟩ := Option.bind_eq_some_iff.mp hb
        have hplace := ih (place t) u (by omega) hu (by simp [hraw'])
        obtain rfl := place_inj hplace
        obtain ⟨hi', rfl⟩ := List.getElem?_eq_some_iff.mp ht
        obtain ⟨hj, he⟩ := List.getElem?_eq_some_iff.mp hu
        have hp := List.pairwise_iff_getElem.mp (pairwise_place crew) i _ hi' hj hlt
        rw [he] at hp
        exact Nat.lt_irrefl _ hp
  exact fun i t ht hout => getElem?_taskNames.mpr (hlater 6 i t (by omega) ht hout)

/-- A completed run attributes its outputs rightly exactly when every task
with an output stands where it stands in the full list. -/
theorem attributed_iff_aligned (crew : Crew) (clock : Nat → Nat) (result : String)
    (output : TaskName → Option String) :
    Attributed crew output (runCrew crew clock (.returned result output)).1 ↔
      aligned crew output :=
  ⟨fun h => aligned_of_own clock result h.own, fun h => h.attributed clock result⟩

/-- The lite crew's changeset is filed under the first SDLC task. -/
theorem lite_changeset_is_misfiled :
    ¬ Attributed buildLiteCrew (fun _ => some "[]")
      (runCrew buildLiteCrew id (.returned "" fun _ => some "[]")).1 := by
  intro h
  exact absurd (h.own .generateChangeset (by decide) "[]" rfl) (by decide)

end AlfredProcessing.Agents.Attribution
