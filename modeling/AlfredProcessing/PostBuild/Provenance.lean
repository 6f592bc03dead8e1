import AlfredProcessing.PostBuild.Backfill

namespace AlfredProcessing.PostBuild.Provenance

open Lib.Fallible Lib.Json Extract.Cleaning Extract.Parse Extract.Changes Backfill

section Contract

def builderItems (py : Interpreter) (text : List Char) : List Dict :=
  if text.isEmpty then []
  else
    match parseFirstJsonValue py (clean text) with
    | .value v => ((itemsOf v).toOption.getD []).filterMap asDict
    | _ => []

/-- `item["field_defaults_meta"][key]["source"]`. -/
def recorded (item : Dict) (key : Str) : Option Source :=
  match get (str "field_defaults_meta") item with
  | some (.dict m _) =>
    match get key m with
    | some (.dict entry _) =>
      match get (str "source") entry with
      | some (.str s) =>
        if s = str "user" then some .user else if s = str "default" then some .default else none
      | _ => none
    | _ => none
  | _ => none

/-- Whether the builder gave a field a value, in the data or beside it. -/
def supplied (item : Dict) (key : Str) : Bool :=
  present key (itemData item) ||
    (key = str "name" && ((pyGet item "name").truthy || (pyGet item "description").truthy)) ||
    ((copiedFields.map str).contains key && (get key (itemData item)).isNone && present key item)

def registryDefault (schema : Schema) (key : Str) : Option Value :=
  (schema.fields.find? fun f => f.key = key).bind FieldSpec.default

def itemDoctype (item : Dict) : Value :=
  pyOr (pyOr (pyGet item "doctype") (pyGet item "type")) (.str (str "Other"))

def sourceOf (change : Change) (key : Str) : Option Source :=
  (metaGet key (change.fieldDefaultsMeta.getD [])).map FieldMeta.source

/-- The sources that the builder recorded are those that the client sees. -/
structure KeepsSources (schema : Schema) (item : Dict) (change : Change) : Prop where
  supplied : ∀ f ∈ schema.fields, supplied item f.key → ∀ s, recorded item f.key = some s →
    sourceOf change f.key = some s
  defaults : ∀ f ∈ schema.fields, recorded item f.key = some .default →
    sourceOf change f.key ≠ some .user

variable (py : Interpreter) (registry : IntentRegistry) (intent : Option String)
  (text : List Char)

/-- The changes of a text behind the backfill without a module. -/
def preview : Except PyError (List Change) := do
  let items ← extractChanges py text
  backfillDefaultsRaw registry [] intent none [] (items.map fun i => { i with })

/-- The changes have the sources that the builder recorded in the items of the text. -/
def KeepsProvenance (changes : List Change) : Prop :=
  List.Forall₂ (fun item change => ∀ schema, schemaFor registry intent (itemDoctype item) = .ok (some schema) →
    KeepsSources schema item change) (builderItems py text) changes

/-- What the builder marks as defaulted it leaves to the registry, which has a default. -/
def LeavesDefaults (item : Dict) : Prop :=
  ∀ schema, schemaFor registry intent (itemDoctype item) = .ok (some schema) →
    ∀ f ∈ schema.fields, recorded item f.key = some .default →
      supplied item f.key = false ∧ (registryDefault schema f.key).isSome

end Contract

section Normalizing

variable {item data data' : Dict} {key : Str} {i : ChangeItem} {name : Value}

theorem present_congr (h : get key data = get key data') : present key data = present key data' := by
  simp only [present, h]

theorem present_of_truthy {v : Value} (h : get key data = some v) (hv : v.truthy) :
    present key data := by
  cases v <;> simp_all [present, Value.truthy]

theorem get_copyField (field : String) (data : Dict) : get key (copyField item data field) =
    (get key data).or (if str field = key then get key item else none) := by
  unfold copyField has
  by_cases hk : str field = key
  · subst hk
    cases hitem : get (str field) item <;> cases hdata : get (str field) data <;>
      simp [hdata, get_insert]
  · cases hitem : get (str field) item with
    | none => simp [hk]
    | some v =>
      dsimp only
      split_ifs <;> simp [get_insert, hk]

theorem get_copyFields (fields : List String) (data : Dict) :
    get key (fields.foldl (copyField item) data) =
      (get key data).or (if (fields.map str).contains key then get key item else none) := by
  induction fields generalizing data with
  | nil => simp
  | cons f fields ih =>
    rw [List.foldl_cons, ih, get_copyField, Option.or_assoc]
    congr 1
    by_cases hk : str f = key
    · by_cases hmem : (fields.map str).contains key <;> cases get key item <;> simp_all
    · simp [hk, Ne.symm hk]

theorem get_nameData_of_ne (h : key ≠ str "name") :
    get key (nameData item data name) = get key data := by
  have hins (v : Value) (d : Dict) : get key (insert (str "name") v d) = get key d := by
    rw [get_insert, if_neg (Ne.symm h)]
  unfold nameData
  dsimp only
  split_ifs <;> simp only [hins]

theorem truthy_pyOr (a b : Value) : (pyOr a b).truthy = (a.truthy || b.truthy) := by
  unfold pyOr
  split_ifs with h <;> simp [h]

theorem itemName_truthy (h : itemName item = .ok name) :
    name.truthy = ((pyGet item "name").truthy || (pyGet (itemData item) "name").truthy) := by
  unfold itemName at h
  split_ifs at h with hname
  · cases h
    rw [hname, Bool.true_or]
  · have hself : (pyGet item "name").truthy = false := by simpa using hname
    have hor (d : Dict) : (pyOr (pyGet d "name") (.str [])).truthy = (pyGet d "name").truthy := by
      rw [truthy_pyOr]
      exact Bool.or_false _
    rw [hself, Bool.false_or, itemData]
    cases hdata : get (str "data") item with
    | none =>
      rw [hdata] at h
      cases h
      exact hor []
    | some v =>
      rw [hdata] at h
      cases v with
      | dict d strays =>
        cases h
        exact hor d
      | _ => cases h

theorem present_nameData (h : itemName item = .ok name) :
    present (str "name") (nameData item (itemData item) name) =
      (present (str "name") (itemData item) || (pyGet item "name").truthy ||
        (pyGet item "description").truthy) := by
  have hname := itemName_truthy h
  have hown (d : Dict) (ht : (pyGet d "name").truthy) : present (str "name") d := by
    cases hg : get (str "name") d with
    | none => simp [pyGet, hg, Value.truthy] at ht
    | some v => exact present_of_truthy hg (by simpa [pyGet, hg] using ht)
  have hins (v : Value) (d : Dict) : pyGet (insert (str "name") v d) "name" = v := by
    simp [pyGet, get_insert]
  cases hown' : (pyGet (itemData item) "name").truthy with
  | true => simp [nameData, hown', hown _ hown']
  | false =>
    cases hself : (pyGet item "name").truthy with
    | true =>
      have htruthy : name.truthy = true := by rw [hname, hself, Bool.true_or]
      have hpresent := hown (insert (str "name") name (itemData item)) (by rwa [hins])
      simp [nameData, hown', htruthy, hins, hpresent]
    | false =>
      have htruthy : name.truthy = false := by rw [hname, hself, hown', Bool.or_false]
      cases hdesc : (pyGet item "description").truthy with
      | true =>
        have hpresent := hown (insert (str "name") (pyGet item "description") (itemData item))
          (by rwa [hins])
        simp [nameData, hown', htruthy, hdesc, hpresent]
      | false => simp [nameData, htruthy, hdesc]

theorem present_normalize (h : normalize item = .ok i) : present key i.data = supplied item key := by
  obtain ⟨name, hname, hi⟩ := bind_eq_ok.mp h
  cases hi
  have hcopy : get key (copiedFields.foldl (copyField item) _) = _ :=
    get_copyFields copiedFields (nameData item (itemData item) name)
  by_cases hk : key = str "name"
  · have hno : (copiedFields.map str).contains key = false := by
      rw [hk]
      decide
    rw [hno, if_neg Bool.false_ne_true, Option.or_none] at hcopy
    rw [present_congr hcopy, supplied, hno, hk, present_nameData hname]
    simp [Bool.or_assoc]
  · rw [get_nameData_of_ne hk] at hcopy
    have hnone {d : Dict} (hd : get key d = none) : present key d = false := by simp [present, hd]
    cases hown : get key (itemData item) with
    | some v =>
      rw [hown, Option.some_or, ← hown] at hcopy
      rw [present_congr hcopy, supplied, hown]
      simp [hk]
    | none =>
      rw [hown, Option.none_or] at hcopy
      rw [supplied, hnone hown, hown]
      cases hcopied : (copiedFields.map str).contains key with
      | true =>
        rw [hcopied, if_pos rfl] at hcopy
        rw [present_congr hcopy]
        simp [hk]
      | false =>
        rw [hcopied, if_neg Bool.false_ne_true] at hcopy
        rw [hnone hcopy]
        simp [hk]

end Normalizing

section Merging

variable {fields : List FieldSpec} {key k : Str} {m : Meta} {v : FieldMeta} {p : Dict × Meta}
  {field : FieldSpec}

theorem metaGet_metaSet : metaGet k (metaSet key v m) = if key = k then some v else metaGet k m := by
  induction m with
  | nil => by_cases h : key = k <;> simp [metaSet, metaGet, h]
  | cons e m ih =>
    obtain ⟨k', w⟩ := e
    simp only [metaGet] at ih
    by_cases hk : k' = key
    · subst hk
      by_cases hkk : k' = k <;> simp [metaSet, metaGet, hkk]
    · by_cases hkk : k' = k
      · subst hkk
        simp [metaSet, metaGet, hk, Ne.symm hk]
      · simp [metaSet, metaGet, hk, hkk, ih]

theorem metaGet_metaDefault : metaGet k (metaDefault key v m) =
    (metaGet k m).or (if key = k then some v else none) := by
  unfold metaDefault
  by_cases hk : key = k
  · subst hk
    cases hm : metaGet key m <;> simp [hm, metaGet_metaSet]
  · split_ifs <;> simp [metaGet_metaSet, hk]

def roundSource (data : Dict) (field : FieldSpec) : Source :=
  if present field.key data || field.default.isNone then .user else .default

theorem source_backfillField : (metaGet k (backfillField p field).2).map FieldMeta.source =
    ((metaGet k p.2).map FieldMeta.source).or
      (if field.key = k then some (roundSource p.1 field) else none) := by
  have hmap (w : FieldMeta) : (metaGet k (metaDefault field.key w p.2)).map FieldMeta.source =
      ((metaGet k p.2).map FieldMeta.source).or
        (if field.key = k then some w.source else none) := by
    rw [metaGet_metaDefault]
    cases metaGet k p.2 <;> split_ifs <;> rfl
  unfold backfillField roundSource
  cases hpresent : present field.key p.1 with
  | true => simpa using hmap { source := .user }
  | false =>
    cases hdefault : field.default with
    | none => simpa using hmap { source := .user }
    | some v =>
      simpa using hmap { source := .default, rationale := field.rationale.filter (!·.isEmpty) }

theorem present_backfillField (h : field.key ≠ k) :
    present k (backfillField p field).1 = present k p.1 := by
  unfold backfillField
  split_ifs
  · rfl
  · split
    · rfl
    · exact present_congr (by rw [get_insert, if_neg h])

theorem source_backfillFields : (metaGet k (fields.foldl backfillField p).2).map FieldMeta.source =
    ((metaGet k p.2).map FieldMeta.source).or
      ((fields.find? fun f => f.key = k).map (roundSource p.1)) := by
  induction fields generalizing p with
  | nil => simp
  | cons field fields ih =>
    rw [List.foldl_cons, ih, source_backfillField, Option.or_assoc]
    congr 1
    by_cases hk : field.key = k
    · rw [if_pos hk, List.find?_cons_of_pos (by simpa using hk)]
      rfl
    · rw [if_neg hk, Option.none_or, List.find?_cons_of_neg (by simpa using hk)]
      refine Option.map_congr fun f hf => ?_
      have hkey : f.key = k := by simpa using List.find?_some hf
      rw [roundSource, roundSource, hkey, present_backfillField hk]

end Merging

section Previewing

variable {py : Interpreter} {registry : IntentRegistry} {intent : Option String}
  {text : List Char} {item : Dict} {i : ChangeItem} {change : Change} {schema : Schema}

theorem extract_items {items : List ChangeItem}
    (h : extractChanges py text = .ok items) :
    (builderItems py text).mapM normalize = .ok items := by
  unfold extractChanges at h
  unfold builderItems
  split_ifs at h ⊢ with hempty
  · exact h
  · split at h
    · next v hv =>
      obtain ⟨xs, hxs, h⟩ := bind_eq_ok.mp h
      obtain ⟨normalized, hnorm, h⟩ := bind_eq_ok.mp h
      obtain ⟨-, -, h⟩ := bind_eq_ok.mp h
      cases h
      rw [hv]
      dsimp only
      rw [hxs]
      exact hnorm
    · next hv =>
      rw [hv]
      exact h
    · next hv =>
      rw [hv]
      exact h

theorem sourceOf_change (hnorm : normalize item = .ok i)
    (hchange : backfillChange registry [] intent none [] { i with } = .ok change)
    (hschema : schemaFor registry intent (itemDoctype item) = .ok (some schema)) (key : Str) :
    sourceOf change key = (schema.fields.find? fun f => f.key = key).map fun f =>
      if supplied item f.key || f.default.isNone then .user else .default := by
  have hdoctype : i.doctype = itemDoctype item := by
    obtain ⟨name, -, hi⟩ := bind_eq_ok.mp hnorm
    cases hi
    rfl
  obtain ⟨found, hfound, hchange⟩ := bind_eq_ok.mp hchange
  rw [hdoctype, hschema] at hfound
  cases hfound
  cases hchange
  have hsource : (metaGet key (schema.fields.foldl backfillField (i.data, [])).2).map
      FieldMeta.source = _ := source_backfillFields
  refine hsource.trans (Option.map_congr fun f hf => ?_)
  have hkey : f.key = key := by simpa using List.find?_some hf
  rw [roundSource, hkey, present_normalize hnorm]

theorem keepsSources_iff (hsource : ∀ key, sourceOf change key =
      (schema.fields.find? fun f => f.key = key).map fun f =>
        if supplied item f.key || f.default.isNone then .user else .default) :
    KeepsSources schema item change ↔ ∀ f ∈ schema.fields, recorded item f.key = some .default →
      supplied item f.key = false ∧ (registryDefault schema f.key).isSome := by
  have hfirst (f : FieldSpec) (hf : f ∈ schema.fields) : ∃ v,
      registryDefault schema f.key = v ∧ sourceOf change f.key =
        some (if supplied item f.key || v.isNone then .user else .default) := by
    cases hfind : schema.fields.find? fun g => g.key = f.key with
    | none => exact absurd (List.find?_eq_none.mp hfind f hf) (by simp)
    | some g =>
      have hkey : g.key = f.key := by simpa using List.find?_some hfind
      exact ⟨g.default, by rw [registryDefault, hfind]; rfl, by rw [hsource, hfind, ← hkey]; rfl⟩
  constructor
  · intro h f hf hrec
    obtain ⟨v, hv, hs⟩ := hfirst f hf
    have hne := h.defaults f hf hrec
    rw [hs] at hne
    rw [hv]
    cases hsup : supplied item f.key <;> cases v <;> simp_all
  · intro h
    refine ⟨fun f hf hsup s hrec => ?_, fun f hf hrec => ?_⟩
    · obtain ⟨v, -, hs⟩ := hfirst f hf
      cases s with
      | user => rw [hs, hsup, Bool.true_or, if_pos rfl]
      | default =>
        rw [(h f hf hrec).1] at hsup
        cases hsup
    · obtain ⟨v, hv, hs⟩ := hfirst f hf
      obtain ⟨hsup, hdefault⟩ := h f hf hrec
      rw [hv] at hdefault
      rw [hs, hsup]
      cases v with
      | none => cases hdefault
      | some v => simp

theorem preview_items {changes : List Change}
    (h : preview py registry intent text = .ok changes) :
    List.Forall₂ (fun item change => ∃ i, normalize item = .ok i ∧
      backfillChange registry [] intent none [] { i with } = .ok change)
      (builderItems py text) changes := by
  obtain ⟨items, hitems, hfilled⟩ := bind_eq_ok.mp h
  have hnorm := forall₂_of_mapM_eq_ok (extract_items hitems)
  have hfill := List.forall₂_map_left_iff.mp (forall₂_of_mapM_eq_ok hfilled)
  clear h hitems hfilled
  generalize builderItems py text = raw at hnorm ⊢
  induction hnorm generalizing changes with
  | nil =>
    cases hfill
    exact .nil
  | cons hi _ ih =>
    cases hfill with
    | cons hc hfill => exact .cons ⟨_, hi, hc⟩ (ih hfill)

/-- The sources survive in a preview just where the builder leaves its defaults to the registry. -/
theorem keepsProvenance_iff (py : Interpreter) (registry : IntentRegistry) (intent : Option String)
    (text : List Char) (changes : List Change) (hpreview : preview py registry intent text = .ok changes) :
    KeepsProvenance py registry intent text changes ↔
      ∀ item ∈ builderItems py text, LeavesDefaults registry intent item := by
  have hitems := preview_items hpreview
  have hiff : ∀ {item : Dict} {change : Change}, (∃ i, normalize item = .ok i ∧
      backfillChange registry [] intent none [] { i with } = .ok change) →
      ((∀ schema, schemaFor registry intent (itemDoctype item) = .ok (some schema) →
        KeepsSources schema item change) ↔ LeavesDefaults registry intent item) := by
    rintro item change ⟨i, hnorm, hchange⟩
    exact forall_congr' fun schema => imp_congr_right fun hschema =>
      keepsSources_iff (sourceOf_change hnorm hchange hschema)
  unfold KeepsProvenance
  clear hpreview
  generalize builderItems py text = raw at hitems ⊢
  induction hitems with
  | nil => simp
  | cons hitem _ ih =>
    exact (List.forall₂_cons.trans (and_congr (hiff hitem) ih)).trans List.forall_mem_cons.symm

/-- A registry with one intent and one field, and an item that says that its value is the
registry's. -/
def moduleRegistry : IntentRegistry :=
  [("create_doctype",
    { doctype := str "DocType", named := by decide
      fields := [{ key := str "istable", default := some (.int 0) }] })]

def markedText : List Char :=
  ("[\x7b\"doctype\": \"DocType\", \"data\": \x7b\"istable\": 0\x7d, " ++
    "\"field_defaults_meta\": \x7b\"istable\": \x7b\"source\": \"default\"\x7d\x7d\x7d]").toList

theorem marked_preview : ∃ changes, preview jsonOnly moduleRegistry (some "create_doctype") markedText = .ok changes ∧
    changes.map (sourceOf · (str "istable")) = [some .user] := by
  have hchanges : (preview jsonOnly moduleRegistry (some "create_doctype")
      markedText).toOption.any fun changes =>
        changes.map (sourceOf · (str "istable")) = [some .user] := by decide +kernel
  cases hresult : preview jsonOnly moduleRegistry (some "create_doctype") markedText with
  | error e =>
    rw [hresult] at hchanges
    cases hchanges
  | ok changes =>
    rw [hresult] at hchanges
    exact ⟨changes, rfl, of_decide_eq_true hchanges⟩

theorem marked_keeps_iff : ∃ changes,
    preview jsonOnly moduleRegistry (some "create_doctype") markedText = .ok changes ∧
    (KeepsProvenance jsonOnly moduleRegistry (some "create_doctype") markedText changes ↔
      ∀ item ∈ builderItems jsonOnly markedText, LeavesDefaults moduleRegistry (some "create_doctype") item) := by
  obtain ⟨changes, hpreview, -⟩ := marked_preview
  exact ⟨changes, hpreview,
    keepsProvenance_iff jsonOnly moduleRegistry (some "create_doctype") markedText changes hpreview⟩

theorem marked_relabelled : ∃ changes,
    preview jsonOnly moduleRegistry (some "create_doctype") markedText = .ok changes ∧
    ¬KeepsProvenance jsonOnly moduleRegistry (some "create_doctype") markedText changes := by
  obtain ⟨changes, hpreview, hsources⟩ := marked_preview
  refine ⟨changes, hpreview, fun hkept => ?_⟩
  have hitems : (builderItems jsonOnly markedText).all fun item =>
      (schemaFor moduleRegistry (some "create_doctype") (itemDoctype item)).toOption.join.any
        fun schema => schema.fields.any fun f => recorded item f.key = some .default &&
          f.key = str "istable" := by decide +kernel
  unfold KeepsProvenance at hkept
  generalize builderItems jsonOnly markedText = raw at hitems hkept
  cases hkept with
  | nil => cases hsources
  | @cons item change _ _ hkeeps _ =>
    obtain ⟨schema, hschema, hfield⟩ :=
      Option.any_eq_true _ _ |>.mp (List.all_eq_true.mp hitems item List.mem_cons_self)
    obtain ⟨f, hf, hfield⟩ := List.any_eq_true.mp hfield
    obtain ⟨hrec, hkey⟩ : recorded item f.key = some .default ∧ f.key = str "istable" := by
      simpa using hfield
    have hfound : schemaFor moduleRegistry (some "create_doctype") (itemDoctype item) =
        .ok (some schema) := by
      cases hs : schemaFor moduleRegistry (some "create_doctype") (itemDoctype item) with
      | error e => simp [hs, Except.toOption] at hschema
      | ok o => simpa [hs, Except.toOption] using hschema
    refine (hkeeps schema hfound).defaults f hf hrec ?_
    rw [hkey]
    simp_all

end Previewing

end AlfredProcessing.PostBuild.Provenance
