import AlfredProcessing.PostBuild.BackfillStable

namespace AlfredProcessing.PostBuild.BackfillLabels

open Lib.Fallible Lib.Json Extract.Cleaning Extract.Changes Backfill Provenance BackfillStable

section Contract

variable (registry : IntentRegistry) (modules : ModuleRegistry) (intent module : Option String)
  (secondaryModules : List String) (schema : Schema) (c c' : Change) (key : Str)

/-- A field without a value for which the registry has a default. -/
def FilledIn : Prop := present key c.data = false ∧ (registryDefault schema key).isSome

/-- The modules whose roles go into the permissions. -/
def consulted : List String :=
  match module.filter (!·.isEmpty) with
  | none => []
  | some name => name :: secondaryModules

def Missing (name : String) (d : Dict) : Prop :=
  ∃ kb, modules.get name = some kb ∧ ¬Covered kb.permissionsAddRoles d

/-- Permissions behind which a module puts rows, be they the item's own. -/
def GetsRows : Prop :=
  key = permissions ∧ ∃ name ∈ consulted module secondaryModules, Missing modules name (backfillRaw c schema).data

/-- The registry's fields are labelled a default where the pass has given them their value. -/
def Accurate : Prop :=
  ∀ schema, schemaFor registry intent c.doctype = .ok (some schema) → ∀ f ∈ schema.fields,
    (sourceOf c' f.key = some .default ↔ FilledIn schema c f.key) ∧
      (sourceOf c' f.key = some .default → (get f.key c'.data).isSome)

/-- The same, where rows that a module puts behind the permissions make them a default. -/
def AccurateButForRows : Prop :=
  ∀ schema, schemaFor registry intent c.doctype = .ok (some schema) → ∀ f ∈ schema.fields,
    (sourceOf c' f.key = some .default ↔
      FilledIn schema c f.key ∨ GetsRows modules module secondaryModules schema c f.key) ∧
      (sourceOf c' f.key = some .default → (get f.key c'.data).isSome)

end Contract

section Labels

variable {registry : IntentRegistry} {modules : ModuleRegistry} {intent module : Option String}
  {secondaryModules names : List String} {schema : Schema} {c c' c'' : Change} {f : FieldSpec} {k : Str}
  {name : String} {rows : List Dict} {m : Meta} {d' : Dict} {m' : Meta}

def DefaultsThere (d : Dict) (m : Meta) : Prop := ∀ k, sourceIn k m = some .default → (get k d).isSome

theorem find_of_mem {fields : List FieldSpec} (hf : f ∈ fields) :
    ∃ g ∈ fields, g.key = f.key ∧ (fields.find? fun g => g.key = f.key) = some g := by
  cases hfind : fields.find? fun g => g.key = f.key with
  | none => exact absurd (List.find?_eq_none.mp hfind f hf) (by simp)
  | some g => exact ⟨g, List.mem_of_find?_eq_some hfind, by simpa using List.find?_some hfind, rfl⟩

theorem sourceOf_backfillRaw (hmeta : c.fieldDefaultsMeta = none) (schema : Schema) (k : Str) :
    sourceOf (backfillRaw c schema) k = (schema.fields.find? fun f => f.key = k).map (roundSource c.data) := by
  have hsource : (metaGet k (schema.fields.foldl backfillField (c.data, [])).2).map FieldMeta.source = _ :=
    source_backfillFields
  unfold sourceOf backfillRaw
  rw [hmeta]
  exact hsource

theorem backfillRaw_label (hmeta : c.fieldDefaultsMeta = none) (hf : f ∈ schema.fields) :
    sourceOf (backfillRaw c schema) f.key = some .default ↔ FilledIn schema c f.key := by
  obtain ⟨g, -, hkey, hfind⟩ := find_of_mem hf
  unfold FilledIn registryDefault
  rw [sourceOf_backfillRaw hmeta, hfind, Option.map_some, Option.bind_some, roundSource, hkey]
  cases present f.key c.data <;> cases g.default <;> simp

theorem backfillRaw_there (hmeta : c.fieldDefaultsMeta = none) (schema : Schema) :
    DefaultsThere (backfillRaw c schema).data ((backfillRaw c schema).fieldDefaultsMeta.getD []) := by
  intro k hk
  rw [show sourceIn k _ = _ from sourceOf_backfillRaw hmeta schema k] at hk
  cases hfind : schema.fields.find? fun f => f.key = k with
  | none =>
    rw [hfind] at hk
    cases hk
  | some f =>
    have hkey : f.key = k := by simpa using List.find?_some hfind
    subst hkey
    refine backfillRaw_defaults c schema f (List.mem_of_find?_eq_some hfind) ?_
    rw [hfind, Option.map_some, roundSource] at hk
    cases hdefault : f.default with
    | none => simp [hdefault] at hk
    | some v => rfl

structure Relabelled (modules : ModuleRegistry) (names : List String) (c c' : Change) : Prop where
  others : ∀ k, k ≠ permissions → sourceOf c' k = sourceOf c k
  permissions : sourceOf c' permissions = some .default ↔
    sourceOf c permissions = some .default ∨ ∃ name ∈ names, Missing modules name c.data
  same : (∀ name ∈ names, ¬Missing modules name c.data) →
    get BackfillStable.permissions c'.data = get BackfillStable.permissions c.data
  there : DefaultsThere c.data (c.fieldDefaultsMeta.getD []) →
    DefaultsThere c'.data (c'.fieldDefaultsMeta.getD [])

theorem Missing.congr {d : Dict} (hget : get permissions d = get permissions d') :
    Missing modules name d ↔ Missing modules name d' :=
  exists_congr fun _ => and_congr_right fun _ =>
    not_congr ⟨fun h => h.congr hget, fun h => h.congr hget.symm⟩

theorem Relabelled.nil (c : Change) : Relabelled modules [] c c where
  others _ _ := rfl
  permissions := ⟨.inl, fun h => h.elim id fun ⟨_, hname, _⟩ => (List.not_mem_nil hname).elim⟩
  same _ := rfl
  there h := h

/-- Once a module has put rows behind the permissions, the label stays; before that they are as they
were. -/
theorem Relabelled.cons (h : Relabelled modules [name] c c') (h' : Relabelled modules names c' c'') :
    Relabelled modules (name :: names) c c'' where
  others k hk := (h'.others k hk).trans (h.others k hk)
  permissions := by
    have hfirst := h.permissions
    simp only [List.mem_singleton, exists_eq_left] at hfirst
    rw [h'.permissions, hfirst]
    by_cases hmissing : Missing modules name c.data
    · exact iff_of_true (.inl (.inr hmissing)) (.inr ⟨name, List.mem_cons_self, hmissing⟩)
    · have hsame := h.same fun other hother => List.mem_singleton.mp hother ▸ hmissing
      simp [hmissing, Missing.congr hsame]
  same hnone := by
    have hsame := h.same fun other hother => hnone other (List.mem_singleton.mp hother ▸ List.mem_cons_self)
    refine (h'.same fun other hother hmissing => ?_).trans hsame
    exact hnone other (List.mem_cons_of_mem _ hother) ((Missing.congr hsame).mp hmissing)
  there hthere := h'.there (h.there hthere)

theorem added_label {d : Dict} (h : Added rows d m d' m') :
    (sourceIn permissions m' = some .default ↔ sourceIn permissions m = some .default ∨ ¬Covered rows d) ∧
      (Covered rows d → get permissions d' = get permissions d) ∧ (DefaultsThere d m → DefaultsThere d' m') := by
  cases h with
  | nothing hcovered => exact ⟨⟨.inl, fun h => h.elim id (absurd hcovered)⟩, fun _ => rfl, id⟩
  | rows xs existing rationale hrows hexisting hne =>
    have hnot : ¬Covered rows d := by
      rintro ⟨before, hbefore, hmissing⟩
      rw [hrows, hexisting] at hbefore
      cases hbefore
      exact hne hmissing
    refine ⟨iff_of_true ?_ (.inr hnot), fun hcovered => absurd hcovered hnot, fun hthere k hk => ?_⟩
    · unfold sourceIn
      rw [metaGet_metaSet, if_pos rfl]
      rfl
    · rw [get_insert]
      split_ifs with hkey
      · rfl
      · unfold sourceIn at hk
        rw [metaGet_metaSet, if_neg hkey] at hk
        exact hthere k hk

theorem swapAutoname_source (kb : ModuleKb) (d : Dict) (m : Meta) (k : Str) :
    sourceIn k (swapAutoname kb d m).2 = sourceIn k m := by
  obtain hleave | ⟨hdefault, pattern, x, hsource, hset⟩ := swapAutoname_cases kb m
  · rw [hleave _ _ rfl]
  · rw [hset _ _ hdefault]
    by_cases hkey : autoname = k
    · subst hkey
      rw [hdefault, sourceIn, metaGet_metaSet, if_pos rfl, Option.map_some, hsource]
    · rw [sourceIn, metaGet_metaSet, if_neg hkey, sourceIn]

theorem relabelled_unknown (hget : modules.get name = none) (c : Change) : Relabelled modules [name] c c := by
  have hnone : ¬∃ other ∈ [name], Missing modules other c.data := by
    rintro ⟨other, hother, kb, hkb, -⟩
    rw [List.mem_singleton.mp hother, hget] at hkb
    cases hkb
  exact ⟨fun _ _ => rfl, ⟨.inl, fun h => h.elim id (absurd · hnone)⟩, fun _ => rfl, id⟩

theorem relabelled_known {kb : ModuleKb} {d'' : Dict} {m'' : Meta} (hget : modules.get name = some kb)
    (h : Added kb.permissionsAddRoles c.data (c.fieldDefaultsMeta.getD []) d' m')
    (hsource : ∀ k, sourceIn k m'' = sourceIn k m') (hdata : get permissions d'' = get permissions d')
    (hkeys : ∀ k, (get k d').isSome → (get k d'').isSome) :
    Relabelled modules [name] c { c with data := d'', fieldDefaultsMeta := some m'' } := by
  obtain ⟨hlabel, hsame, hthere⟩ := added_label h
  have hmissing : Missing modules name c.data ↔ ¬Covered kb.permissionsAddRoles c.data := by
    constructor
    · rintro ⟨kb', hkb, hnot⟩
      rw [hget] at hkb
      cases hkb
      exact hnot
    · exact fun hnot => ⟨kb, hget, hnot⟩
  constructor
  · intro k hk
    refine (hsource k).trans ?_
    rw [sourceIn, (h.get_of_ne hk).2]
    rfl
  · have hafter : sourceOf { c with data := d'', fieldDefaultsMeta := some m'' } permissions =
        sourceIn permissions m' := hsource permissions
    rw [hafter, hlabel]
    simp only [List.mem_singleton, exists_eq_left, hmissing]
    rfl
  · intro hnone
    have hcovered : Covered kb.permissionsAddRoles c.data := by
      by_contra hnot
      exact hnone name List.mem_cons_self (hmissing.mpr hnot)
    exact hdata.trans (hsame hcovered)
  · intro hbefore k hk
    exact hkeys k (hthere hbefore k ((hsource k).symm.trans hk))

theorem relabelled_module (h : applyModuleDefaults modules name c = .ok c') : Relabelled modules [name] c c' := by
  obtain ⟨hget, rfl⟩ | ⟨kb, d', m', hget, hadded, rfl⟩ := module_cases h
  · exact relabelled_unknown hget _
  · exact relabelled_known hget hadded (swapAutoname_source kb d' m')
      (swapAutoname_get (Ne.symm autoname_ne_permissions) kb d' m').1 fun k => (swapAutoname_isSome kb d' m').1

theorem relabelled_secondary (h : applySecondaryModuleDefaults modules name c = .ok c') :
    Relabelled modules [name] c c' := by
  obtain ⟨hget, rfl⟩ | ⟨kb, d', m', hget, hadded, rfl⟩ := secondary_cases h
  · exact relabelled_unknown hget _
  · exact relabelled_known hget hadded (fun _ => rfl) rfl fun _ => id

theorem relabelled_secondaries (h : names.foldlM
      (fun c sec => applySecondaryModuleDefaults modules sec c) c = .ok c') : Relabelled modules names c c' := by
  induction names generalizing c with
  | nil =>
    cases h
    exact .nil _
  | cons sec secs ih =>
    rw [List.foldlM_cons] at h
    obtain ⟨c₁, hfirst, h⟩ := bind_eq_ok.mp h
    exact (relabelled_secondary hfirst).cons (ih h)

theorem backfillChange_relabelled (hschema : schemaFor registry intent c.doctype = .ok (some schema))
    (h : backfillChange registry modules intent module secondaryModules c = .ok c') :
    Relabelled modules (consulted module secondaryModules) (backfillRaw c schema) c' := by
  obtain ⟨found, hfound, hrest⟩ := bind_eq_ok.mp h
  rw [hschema] at hfound
  cases hfound
  dsimp only at hrest
  unfold consulted
  cases hmodule : module.filter (!·.isEmpty) with
  | none =>
    rw [hmodule] at hrest
    cases hrest
    exact .nil _
  | some name =>
    rw [hmodule] at hrest
    obtain ⟨c₁, hprimary, hsecondaries⟩ := bind_eq_ok.mp hrest
    exact (relabelled_module hprimary).cons (relabelled_secondaries hsecondaries)

theorem backfillChange_accurate (hmeta : c.fieldDefaultsMeta = none)
    (h : backfillChange registry modules intent module secondaryModules c = .ok c') :
    AccurateButForRows registry modules intent module secondaryModules c c' := by
  intro schema hschema f hf
  have hmodules := backfillChange_relabelled hschema h
  refine ⟨?_, hmodules.there (backfillRaw_there hmeta schema) f.key⟩
  have hraw := backfillRaw_label hmeta hf
  unfold GetsRows
  by_cases hkey : f.key = permissions
  · rw [hkey] at hraw ⊢
    rw [hmodules.permissions, hraw]
    exact or_congr_right ⟨fun hmissing => ⟨rfl, hmissing⟩, And.right⟩
  · rw [hmodules.others f.key hkey, hraw]
    exact ⟨.inl, fun h => h.elim id fun hrows => absurd hrows.1 hkey⟩

/-- A field of an item without annotations is labelled a default where the registry has filled it
in, or where a module has put rows behind the permissions. -/
theorem labels_accurate (registry : IntentRegistry) (modules : ModuleRegistry) (intent module : Option String)
    (secondaryModules : List String) (changes out : List Change) (hmeta : ∀ c ∈ changes, c.fieldDefaultsMeta = none)
    (h : backfillDefaultsRaw registry modules intent module secondaryModules changes = .ok out) :
    List.Forall₂ (AccurateButForRows registry modules intent module secondaryModules) changes out := by
  have hchanges := forall₂_of_mapM_eq_ok h
  clear h
  induction hchanges with
  | nil => exact .nil
  | cons hc _ ih =>
    exact .cons (backfillChange_accurate (hmeta _ List.mem_cons_self) hc) (ih fun c hc => hmeta c (List.mem_cons_of_mem _ hc))

def rowsRegistry : IntentRegistry :=
  [("create_doctype",
    { doctype := str "DocType", named := docType_named
      fields := [{ key := permissions, default := some (.list []) }] })]

def ownRows : Change :=
  { op := .str (str "create"), doctype := .str (str "DocType")
    data := [(permissions, .list [.dict [(str "role", .str (str "My Custom Role"))] .none])] }

theorem ownRows_accurateButForRows : ∃ out,
    backfillDefaultsRaw rowsRegistry accountsModules (some "create_doctype") (some "accounts") [] [ownRows] = .ok out ∧
      List.Forall₂ (AccurateButForRows rowsRegistry accountsModules (some "create_doctype") (some "accounts") [])
        [ownRows] out :=
  ⟨_, rfl, labels_accurate _ _ _ _ _ _ _ (fun c hc => by rw [List.mem_singleton.mp hc]; rfl) rfl⟩

/-- The item's own row is labelled a default as soon as the module adds one. -/
theorem ownRows_labelled : ∃ out,
    backfillDefaultsRaw rowsRegistry accountsModules (some "create_doctype") (some "accounts") [] [ownRows] = .ok out ∧
      ¬List.Forall₂ (Accurate rowsRegistry (some "create_doctype")) [ownRows] out := by
  refine ⟨_, rfl, fun haccurate => ?_⟩
  cases haccurate with
  | cons hfirst _ =>
    obtain ⟨hlabel, -⟩ := hfirst _ rfl _ List.mem_cons_self
    have habsent : present permissions ownRows.data = false := (hlabel.mp rfl).1
    cases habsent

end Labels

end AlfredProcessing.PostBuild.BackfillLabels
