import AlfredProcessing.Extract.Changes
import AlfredProcessing.Lib.Fallible

namespace AlfredProcessing.PostBuild.Backfill

open Lib.Fallible Lib.Json Extract.Cleaning Extract.Changes

inductive Source where
  | user
  | default
  deriving DecidableEq

/-- An entry of `field_defaults_meta`. -/
structure FieldMeta where
  source : Source
  rationale : Option Str := none

abbrev Meta := List (Str × FieldMeta)

structure Change extends ChangeItem where
  fieldDefaultsMeta : Option Meta := none

structure FieldSpec where
  key : Str
  default : Option Value := none
  rationale : Option Str := none

structure Schema where
  doctype : Str
  named : doctype ≠ []
  fields : List FieldSpec

abbrev IntentRegistry := List (String × Schema)

def IntentRegistry.get (r : IntentRegistry) (intent : String) : Option Schema :=
  (r.find? fun e => e.1 = intent).map Prod.snd

/-- `_by_doctype`, where a later schema replaces an earlier one. -/
def IntentRegistry.forDoctype (r : IntentRegistry) (doctype : Str) : Option Schema :=
  (r.reverse.find? fun e => e.2.doctype = doctype).map Prod.snd

inductive Severity where
  | advisory
  | warning
  | blocker
  deriving DecidableEq

/-- A rule of a module KB. It applies to an item that has the expected values
under the dotted paths of `conditions`, which the KB calls `when`. -/
structure ValidationRule where
  id : Str
  severity : Severity
  conditions : List (Str × Value)
  message : Str
  fix : Option Str := none

structure ModuleKb where
  displayName : Str
  permissionsAddRoles : List Dict := []
  namingPatterns : List Str := []
  validationRules : List ValidationRule := []

abbrev ModuleRegistry := List (String × ModuleKb)

def ModuleRegistry.get (r : ModuleRegistry) (module : String) : Option ModuleKb :=
  (r.find? fun e => e.1 = module).map Prod.snd

/-- `_schema_for`. A doctype that cannot be a key breaks the lookup by doctype. -/
def schemaFor (registry : IntentRegistry) (intent : Option String) (doctype : Value) :
    Except PyError (Option Schema) :=
  match intent.filter (!·.isEmpty) with
  | some intent =>
    match registry.get intent with
    | none => .ok none
    | some schema =>
      match doctype with
      | .str d => .ok (if !d.isEmpty && schema.doctype = d then some schema else none)
      | _ => .ok none
  | none =>
    if doctype.truthy then
      match doctype with
      | .str d => .ok (registry.forDoctype d)
      | d => if hashable d then .ok none else .error .typeError
    else .ok none

/-- `key in data and data[key] not in (None, "")`. -/
def present (key : Str) (data : Dict) : Bool :=
  match Lib.Json.get key data with
  | none => false
  | some .null => false
  | some (.str s) => !s.isEmpty
  | some _ => true

def metaGet (key : Str) (m : Meta) : Option FieldMeta := (m.find? fun e => e.1 = key).map Prod.snd

def metaSet (key : Str) (v : FieldMeta) : Meta → Meta
  | [] => [(key, v)]
  | (k, w) :: m => if k = key then (k, v) :: m else (k, w) :: metaSet key v m

/-- `if key not in meta: meta[key] = v`. -/
def metaDefault (key : Str) (v : FieldMeta) (m : Meta) : Meta :=
  if (metaGet key m).isSome then m else metaSet key v m

/-- One round of the loop of `_backfill_raw`. -/
def backfillField (p : Dict × Meta) (field : FieldSpec) : Dict × Meta :=
  if present field.key p.1 then (p.1, metaDefault field.key { source := .user } p.2)
  else
    match field.default with
    | none => (p.1, metaDefault field.key { source := .user } p.2)
    | some v =>
      (insert field.key v p.1,
        metaDefault field.key
          { source := .default, rationale := field.rationale.filter (!·.isEmpty) } p.2)

/-- `_backfill_raw`. -/
def backfillRaw (change : Change) (schema : Schema) : Change :=
  let (data, m) := schema.fields.foldl backfillField (change.data, change.fieldDefaultsMeta.getD [])
  { change with data := data, fieldDefaultsMeta := some m }

def joinComma (xs : List Str) : Str := (xs.intersperse (str ", ")).flatten

def stripStr (s : Str) : Str := (s.dropWhile spaceCode).rdropWhile spaceCode

def roleOf (row : Dict) : Option Str :=
  match pyGet row "role" with
  | .str s => if s.isEmpty then none else some s
  | _ => none

/-- The roles of the rows that are there, which are put in a set. -/
def existingRoles : Value → Except PyError (List Str)
  | .list rows =>
    if (rows.filterMap asDict).all fun row => hashable (pyGet row "role") then
      .ok ((rows.filterMap asDict).filterMap roleOf)
    else .error .typeError
  | .dict .. => .ok []
  | .str _ => .ok []
  | .other .. => .ok []
  | _ => .error .typeError

/-- The rows whose role is not there yet; a role is only added once. -/
def missingRows (existing : List Str) : List Dict → List (Str × Dict)
  | [] => []
  | row :: rows =>
    match roleOf row with
    | some role =>
      if role ∈ existing then missingRows existing rows
      else (role, row) :: missingRows (role :: existing) rows
    | none => missingRows existing rows

def appendRows (perms : Value) (missing : List (Str × Dict)) (because : Str) (data : Dict) (m : Meta) :
    Except PyError (Dict × Meta) :=
  if missing.isEmpty then .ok (data, m)
  else
    match perms with
    | .list xs =>
      let prev := ((metaGet (str "permissions") m).bind FieldMeta.rationale).getD []
      let added := str "Added " ++ joinComma (missing.map Prod.fst) ++ because
      let rationale := if prev.isEmpty then added else stripStr (prev ++ str " " ++ added)
      .ok (insert (str "permissions") (.list (xs ++ missing.map fun p => .dict p.2 .none)) data,
        metaSet (str "permissions") { source := .default, rationale := some rationale } m)
    | _ => .error .attributeError

/-- Both passes over `permissions_add_roles`. They differ in the sentence that
ends the rationale. -/
def addRoles (rows : List Dict) (because : Str) (data : Dict) (m : Meta) :
    Except PyError (Dict × Meta) := do
  let perms := pyOr (pyGet data "permissions") (.list [])
  let existing ← existingRoles perms
  appendRows perms (missingRows existing rows) because data m

/-- `_apply_secondary_module_defaults`. -/
def applySecondaryModuleDefaults (modules : ModuleRegistry) (module : String) (change : Change) :
    Except PyError Change := do
  match modules.get module with
  | none => return change
  | some kb =>
    let because := str " because request touches " ++ kb.displayName ++ str " as secondary context."
    let (data, m) ←
      addRoles kb.permissionsAddRoles because change.data (change.fieldDefaultsMeta.getD [])
    return { change with data := data, fieldDefaultsMeta := some m }

/-- A module's naming pattern replaces a name that was filled in by default. -/
def swapAutoname (kb : ModuleKb) (data : Dict) (m : Meta) : Dict × Meta :=
  match (metaGet (str "autoname") m).map FieldMeta.source, kb.namingPatterns with
  | some .default, pattern :: _ =>
    (insert (str "autoname") (.str pattern) data,
      metaSet (str "autoname")
        { source := .default
          rationale := some (str "Module " ++ kb.displayName ++ str " conventionally uses " ++
            pattern ++ str ".") } m)
  | _, _ => (data, m)

/-- `_apply_module_defaults`. -/
def applyModuleDefaults (modules : ModuleRegistry) (module : String) (change : Change) :
    Except PyError Change := do
  match modules.get module with
  | none => return change
  | some kb =>
    let because := str " because target module is " ++ kb.displayName ++ str "."
    let (data, m) ←
      addRoles kb.permissionsAddRoles because change.data (change.fieldDefaultsMeta.getD [])
    let (data, m) := swapAutoname kb data m
    return { change with data := data, fieldDefaultsMeta := some m }

/-- The loop body of `backfill_defaults_raw`. -/
def backfillChange (registry : IntentRegistry) (modules : ModuleRegistry) (intent module : Option String)
    (secondaryModules : List String) (change : Change) : Except PyError Change := do
  match ← schemaFor registry intent change.doctype with
  | none => return change
  | some schema =>
    match module.filter (!·.isEmpty) with
    | none => return backfillRaw change schema
    | some module =>
      let backfilled ← applyModuleDefaults modules module (backfillRaw change schema)
      secondaryModules.foldlM (fun c sec => applySecondaryModuleDefaults modules sec c) backfilled

/-- `backfill_defaults_raw`. -/
def backfillDefaultsRaw (registry : IntentRegistry) (modules : ModuleRegistry)
    (intent module : Option String) (secondaryModules : List String) (changes : List Change) :
    Except PyError (List Change) :=
  changes.mapM (backfillChange registry modules intent module secondaryModules)

def targetSchema (registry : IntentRegistry) (intent : Option String) : Option Schema :=
  (intent.filter (!·.isEmpty)).bind registry.get

def HasDefaults (schema : Schema) (data : Dict) : Prop :=
  ∀ f ∈ schema.fields, f.default.isSome → (Lib.Json.get f.key data).isSome

structure Extends (c c' : Change) : Prop where
  doctype : c'.doctype = c.doctype
  keys : ∀ k, (Lib.Json.get k c.data).isSome → (Lib.Json.get k c'.data).isSome

variable {registry : IntentRegistry} {modules : ModuleRegistry} {intent module : Option String}
  {secondaryModules : List String} {schema : Schema} {c c' c'' : Change} {data data' : Dict}
  {m m' : Meta}

theorem Extends.refl (c : Change) : Extends c c := ⟨rfl, fun _ h => h⟩

theorem Extends.trans (h : Extends c c') (h' : Extends c' c'') : Extends c c'' :=
  ⟨h'.doctype.trans h.doctype, fun k hk => h'.keys k (h.keys k hk)⟩

theorem HasDefaults.extends (h : HasDefaults schema c.data) (he : Extends c c') :
    HasDefaults schema c'.data := fun f hf hd => he.keys _ (h f hf hd)

theorem isSome_of_present {key : Str} (h : present key data) : (Lib.Json.get key data).isSome := by
  unfold present at h
  split at h <;> simp_all

theorem backfillField_keys (p : Dict × Meta) (field : FieldSpec) {k : Str}
    (h : (Lib.Json.get k p.1).isSome) : (Lib.Json.get k (backfillField p field).1).isSome := by
  unfold backfillField
  split
  · exact h
  · split
    · exact h
    · exact get_insert_isSome _ _ h

theorem backfillField_fills (p : Dict × Meta) (field : FieldSpec) (h : field.default.isSome) :
    (Lib.Json.get field.key (backfillField p field).1).isSome := by
  unfold backfillField
  split
  · next hp => exact isSome_of_present hp
  · split
    · next hd => simp [hd] at h
    · rw [get_insert]
      simp

theorem backfillFields (fields : List FieldSpec) (p : Dict × Meta) :
    (∀ k, (Lib.Json.get k p.1).isSome → (Lib.Json.get k (fields.foldl backfillField p).1).isSome) ∧
      ∀ f ∈ fields, f.default.isSome →
        (Lib.Json.get f.key (fields.foldl backfillField p).1).isSome := by
  induction fields generalizing p with
  | nil => simp
  | cons field fields ih =>
    obtain ⟨hkeys, hfills⟩ := ih (backfillField p field)
    rw [List.foldl_cons]
    refine ⟨fun k h => hkeys k (backfillField_keys p field h), fun f hf hd => ?_⟩
    rcases List.mem_cons.mp hf with rfl | hf
    · exact hkeys _ (backfillField_fills p f hd)
    · exact hfills f hf hd

theorem backfillRaw_extends (c : Change) (schema : Schema) : Extends c (backfillRaw c schema) :=
  ⟨rfl, (backfillFields schema.fields (c.data, c.fieldDefaultsMeta.getD [])).1⟩

theorem backfillRaw_defaults (c : Change) (schema : Schema) :
    HasDefaults schema (backfillRaw c schema).data :=
  (backfillFields schema.fields (c.data, c.fieldDefaultsMeta.getD [])).2

theorem addRoles_keys {rows : List Dict} {because : Str}
    (h : addRoles rows because data m = .ok (data', m')) (k : Str)
    (hk : (Lib.Json.get k data).isSome) : (Lib.Json.get k data').isSome := by
  obtain ⟨existing, -, h⟩ := bind_eq_ok.mp h
  unfold appendRows at h
  split at h
  · cases h
    exact hk
  · split at h
    · cases h
      exact get_insert_isSome _ _ hk
    · cases h

theorem swapAutoname_keys (kb : ModuleKb) (data : Dict) (m : Meta) (k : Str)
    (hk : (Lib.Json.get k data).isSome) : (Lib.Json.get k (swapAutoname kb data m).1).isSome := by
  unfold swapAutoname
  split
  · exact get_insert_isSome _ _ hk
  · exact hk

theorem applySecondary_extends {module : String}
    (h : applySecondaryModuleDefaults modules module c = .ok c') : Extends c c' := by
  unfold applySecondaryModuleDefaults at h
  split at h
  · cases h
    exact .refl _
  · obtain ⟨⟨data, m⟩, hroles, h⟩ := bind_eq_ok.mp h
    cases h
    exact ⟨rfl, fun k hk => addRoles_keys hroles k hk⟩

theorem applyModule_extends {module : String}
    (h : applyModuleDefaults modules module c = .ok c') : Extends c c' := by
  unfold applyModuleDefaults at h
  split at h
  · cases h
    exact .refl _
  · obtain ⟨⟨data, m⟩, hroles, h⟩ := bind_eq_ok.mp h
    cases h
    exact ⟨rfl, fun k hk => swapAutoname_keys _ _ _ k (addRoles_keys hroles k hk)⟩

theorem backfillChange_cases
    (h : backfillChange registry modules intent module secondaryModules c = .ok c') :
    (schemaFor registry intent c.doctype = .ok none ∧ c' = c) ∨
      ∃ schema, schemaFor registry intent c.doctype = .ok (some schema) ∧
        Extends (backfillRaw c schema) c' := by
  obtain ⟨found, hs, h⟩ := bind_eq_ok.mp h
  cases found with
  | none =>
    cases h
    exact .inl ⟨hs, rfl⟩
  | some schema =>
    refine .inr ⟨schema, hs, ?_⟩
    dsimp only at h
    split at h
    · cases h
      exact .refl _
    · obtain ⟨c₁, hm, h⟩ := bind_eq_ok.mp h
      exact (applyModule_extends hm).trans
        (foldlM_keeps Extends.refl Extends.trans (fun hs => applySecondary_extends hs) h)

theorem schemaFor_target (h : targetSchema registry intent = some schema) :
    schemaFor registry intent (.str schema.doctype) = .ok (some schema) := by
  obtain ⟨i, hi, hg⟩ := Option.bind_eq_some_iff.mp h
  simp [schemaFor, hi, hg, schema.named]

theorem backfillChange_extends
    (h : backfillChange registry modules intent module secondaryModules c = .ok c') :
    Extends c c' := by
  obtain ⟨-, rfl⟩ | ⟨schema, -, he⟩ := backfillChange_cases h
  · exact .refl _
  · exact (backfillRaw_extends c schema).trans he

theorem backfillChange_defaults
    (h : backfillChange registry modules intent module secondaryModules c = .ok c')
    (hs : schemaFor registry intent c.doctype = .ok (some schema)) :
    HasDefaults schema c'.data := by
  obtain ⟨hnone, -⟩ | ⟨found, hf, he⟩ := backfillChange_cases h
  · rw [hs] at hnone
    cases hnone
  · rw [hs] at hf
    cases hf
    exact (backfillRaw_defaults c schema).extends he

end AlfredProcessing.PostBuild.Backfill
