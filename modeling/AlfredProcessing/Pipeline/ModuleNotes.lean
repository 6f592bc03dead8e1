import AlfredProcessing.Pipeline.Shipped

namespace AlfredProcessing.Pipeline.ModuleNotes

open Lib.Json Lib.Effects Extract.Changes PostBuild.Backfill Agents.ModuleSpecialist Context Phases Shipped

section Gathering

variable {ε : Type}

/-- The loop over the secondary modules. One whose validation fails is passed over. -/
def secondaryNotes : List (Except ε (List ValidationNote)) → List ValidationNote
  | [] => []
  | .ok notes :: rest => capSecondarySeverity notes ++ secondaryNotes rest
  | .error _ :: rest => secondaryNotes rest

/-- What is gathered from the outcomes of the validations, of the primary module and of the
secondary ones. -/
def gathered (primary : Except ε (List ValidationNote))
    (secondary : List (Except ε (List ValidationNote))) : List ValidationNote :=
  match primary with
  | .ok notes => notes ++ secondaryNotes secondary
  | .error _ => []

/-- A blocker is lowered to a warning, and a note of another severity is left as it is. -/
def Lowered (note note' : ValidationNote) : Prop :=
  note' = if note.severity = .blocker then { note with severity := .warning } else note

/-- Only the primary module blocks, and the notes of all modules that were validated are there
in order, behind those of the primary module. -/
structure NeverGates (primary : Except ε (List ValidationNote))
    (secondary : List (Except ε (List ValidationNote))) (notes : List ValidationNote) : Prop where
  blockers : ∀ n ∈ notes, n.severity = .blocker → ∃ own, primary = .ok own ∧ n ∈ own
  merged : ∀ own, primary = .ok own → ∃ lowered,
    List.Forall₂ (List.Forall₂ Lowered) (secondary.filterMap Except.toOption) lowered ∧
      notes = own ++ lowered.flatten

variable {primary : Except ε (List ValidationNote)} {secondary : List (Except ε (List ValidationNote))}
  {notes : List ValidationNote}

theorem capSecondarySeverity_lowered (notes : List ValidationNote) :
    List.Forall₂ Lowered notes (capSecondarySeverity notes) := by
  induction notes with
  | nil => exact .nil
  | cons n notes ih => exact .cons rfl ih

theorem capSecondarySeverity_ne_blocker {n : ValidationNote} (h : n ∈ capSecondarySeverity notes) :
    n.severity ≠ .blocker := by
  obtain ⟨n', -, rfl⟩ := List.mem_map.mp h
  split_ifs with hblocker
  · exact Severity.noConfusion
  · exact hblocker

theorem secondaryNotes_ne_blocker {n : ValidationNote} (h : n ∈ secondaryNotes secondary) :
    n.severity ≠ .blocker := by
  induction secondary with
  | nil => cases h
  | cons outcome rest ih =>
    cases outcome with
    | error e => exact ih h
    | ok notes =>
      obtain h | h := List.mem_append.mp h
      · exact capSecondarySeverity_ne_blocker h
      · exact ih h

theorem secondaryNotes_lowered (secondary : List (Except ε (List ValidationNote))) : ∃ lowered,
    List.Forall₂ (List.Forall₂ Lowered) (secondary.filterMap Except.toOption) lowered ∧
      secondaryNotes secondary = lowered.flatten := by
  induction secondary with
  | nil => exact ⟨[], .nil, rfl⟩
  | cons outcome rest ih =>
    obtain ⟨lowered, hlowered, hrest⟩ := ih
    cases outcome with
    | error e => exact ⟨lowered, hlowered, hrest⟩
    | ok notes =>
      refine ⟨capSecondarySeverity notes :: lowered, .cons (capSecondarySeverity_lowered notes) hlowered, ?_⟩
      rw [secondaryNotes, hrest, List.flatten_cons]

theorem neverGates_gathered (primary : Except ε (List ValidationNote))
    (secondary : List (Except ε (List ValidationNote))) :
    NeverGates primary secondary (gathered primary secondary) := by
  cases primary with
  | error e => exact ⟨List.forall_mem_nil _, fun _ h => by cases h⟩
  | ok own =>
    refine ⟨fun n hn hblocker => ⟨own, rfl, ?_⟩, fun own' h => ?_⟩
    · obtain hn | hn := List.mem_append.mp hn
      · exact hn
      · exact absurd hblocker (secondaryNotes_ne_blocker hn)
    · cases h
      obtain ⟨lowered, hlowered, hall⟩ := secondaryNotes_lowered secondary
      exact ⟨lowered, hlowered, congrArg (own ++ ·) hall⟩

end Gathering

section Runs

variable (env : Env)

def outcome (changes : List Change) (module : String) : Except PyError (List ValidationNote) :=
  validateOutput env.fold env.modules module changes (env.noteReply module)

def secondaries (c : Ctx) : List String := if env.multiModule then c.secondaryModules else []

/-- The module whose validation runs, none where a flag is off or there is nothing to validate. -/
def validated (c : Ctx) (changes : List Change) : Option String :=
  if !changes.isEmpty && env.perIntentBuilders && env.moduleSpecialists then
    c.module.filter (!·.isEmpty)
  else none

variable {env}

theorem moduleNotes_eq_gathered (c : Ctx) (module : String) (changes : List Change) :
    moduleNotes env c module changes =
      gathered (outcome env changes module) ((secondaries env c).map (outcome env changes)) := by
  have hsecondary (ms : List String) (f : String → List ValidationNote)
      (hf : ∀ m, f m = secondaryNotes [outcome env changes m]) :
      ms.flatMap f = secondaryNotes (ms.map (outcome env changes)) := by
    induction ms with
    | nil => rfl
    | cons m ms ih =>
      rw [List.flatMap_cons, List.map_cons, ih, hf]
      cases outcome env changes m with
      | error e => rfl
      | ok notes => exact congrArg (· ++ _) (List.append_nil _)
  unfold moduleNotes gathered
  rw [outcome]
  cases validateOutput env.fold env.modules module changes (env.noteReply module) with
  | error e => rfl
  | ok own =>
    refine congrArg (own ++ ·) (hsecondary (secondaries env c) _ fun m => ?_)
    rw [outcome]
    cases validateOutput env.fold env.modules m changes (env.noteReply m) with
    | error e => rfl
    | ok notes => exact (List.append_nil _).symm

theorem notesOn_eq (c : Ctx) (changes : List Change) : notesOn env c changes =
    match validated env c changes with
    | some module => gathered (outcome env changes module) ((secondaries env c).map (outcome env changes))
    | none => c.moduleValidationNotes := by
  unfold notesOn validated
  cases c.module.filter (!·.isEmpty) with
  | none => split_ifs <;> rfl
  | some module =>
    dsimp only
    split_ifs
    · exact moduleNotes_eq_gathered c module changes
    · rfl

/-- Whatever comes of the validations, secondary modules do not gate and lose no notes; and
their notes are what a run of the safety net leaves. -/
theorem secondary_never_gates :
    (∀ (ε : Type) (primary : Except ε (List ValidationNote)) (secondary : List (Except ε (List ValidationNote))),
      NeverGates primary secondary (gathered primary secondary)) ∧
    ∀ (env : Env) (changes : List Change) (w : World), Ends (applyModuleValidation env changes) w fun r t =>
      r = .ok ⟨⟩ → t.ctx.moduleValidationNotes =
        match validated env w.ctx changes with
        | some module =>
          gathered (outcome env changes module) ((secondaries env w.ctx).map (outcome env changes))
        | none => w.ctx.moduleValidationNotes := by
  refine ⟨fun ε => neverGates_gathered, fun env changes w => ?_⟩
  refine (applyModuleValidation_ends changes w).mono fun r t ht hr => ?_
  rw [← notesOn_eq]
  exact ht.2.2 hr

end Runs

end AlfredProcessing.Pipeline.ModuleNotes
