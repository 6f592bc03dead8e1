import AlfredProcessing.PostBuild.BackfillStable

namespace AlfredProcessing.PostBuild.BackfillTyped

open Lib.Fallible Lib.Json Extract.Cleaning Extract.Changes Backfill

inductive ChangeOperation where
  | create
  | update
  | delete
  deriving DecidableEq

structure ChangesetItem where
  operation : ChangeOperation
  doctype : Str
  data : Dict
  fieldDefaultsMeta : Option Meta := none

structure Changeset where
  items : List ChangesetItem

/-- A registry as `_meta_schema.json` asks for it, where no rationale is empty. -/
structure CheckedRegistry where
  registry : IntentRegistry
  rationales : ∀ e ∈ registry, ∀ f ∈ e.2.fields, f.rationale ≠ some []

section Typed

/-- One round of the loop of `_backfill_item`. -/
def backfillItemField (p : Dict × Meta) (field : FieldSpec) : Dict × Meta :=
  if present field.key p.1 then (p.1, metaDefault field.key { source := .user } p.2)
  else
    match field.default with
    | none => (p.1, metaDefault field.key { source := .user } p.2)
    | some v =>
      (insert field.key v p.1, metaDefault field.key { source := .default, rationale := field.rationale } p.2)

/-- `_backfill_item`. -/
def backfillItem (item : ChangesetItem) (schema : Schema) : ChangesetItem :=
  let (data, m) := schema.fields.foldl backfillItemField (item.data, item.fieldDefaultsMeta.getD [])
  { operation := item.operation, doctype := item.doctype, data := data, fieldDefaultsMeta := some m }

/-- The loop body of `backfill_defaults`. -/
def backfillTypedItem (registry : IntentRegistry) (intent : Option String) (item : ChangesetItem) :
    Except PyError ChangesetItem := do
  match ← schemaFor registry intent (.str item.doctype) with
  | none => return item
  | some schema => return backfillItem item schema

/-- `backfill_defaults`. -/
def backfillDefaults (registry : IntentRegistry) (intent : Option String) (changeset : Changeset) :
    Except PyError Changeset := do
  let items ← changeset.items.mapM (backfillTypedItem registry intent)
  return { items := items }

end Typed

section Objects

def userEntry : Value := .dict [(str "source", .str (str "user"))] .none

def defaultEntry (rationale : Option Str) : Value :=
  let entry := [(str "source", .str (str "default"))]
  match rationale.filter (!·.isEmpty) with
  | none => .dict entry .none
  | some r => .dict (insert (str "rationale") (.str r) entry) .none

/-- `if key not in meta: meta[key] = v`. -/
def setDefault (key : Str) (v : Value) (m : Dict) : Dict := if (get key m).isSome then m else insert key v m

/-- One round of the loop of `_backfill_raw`, over objects. -/
def backfillObjectField (p : Dict × Dict) (field : FieldSpec) : Dict × Dict :=
  if present field.key p.1 then (p.1, setDefault field.key userEntry p.2)
  else
    match field.default with
    | none => (p.1, setDefault field.key userEntry p.2)
    | some v => (insert field.key v p.1, setDefault field.key (defaultEntry field.rationale) p.2)

/-- `change.get(key) or {}`. What is there and is no object is refused here, while the source only
breaks on it where it is written to. -/
def objectOf (change : Dict) (key : String) : Except PyError (Dict × Strays) :=
  match pyOr (pyGet change key) (.dict [] .none) with
  | .dict d strays => .ok (d, strays)
  | _ => .error .typeError

/-- `_backfill_raw`, over objects. -/
def backfillObject (change : Dict) (schema : Schema) : Except PyError Dict := do
  let (data, strays) ← objectOf change "data"
  let (m, mstrays) ← objectOf change "field_defaults_meta"
  let (data, m) := schema.fields.foldl backfillObjectField (data, m)
  return insert (str "field_defaults_meta") (.dict m mstrays) (insert (str "data") (.dict data strays) change)

/-- The loop body of `backfill_defaults_raw` over objects, without a module. -/
def backfillObjectChange (registry : IntentRegistry) (intent : Option String) (change : Dict) :
    Except PyError Dict := do
  match ← schemaFor registry intent (pyGet change "doctype") with
  | none => return change
  | some schema => backfillObject change schema

def backfillDefaultsObjects (registry : IntentRegistry) (intent : Option String) (changes : List Dict) :
    Except PyError (List Dict) := changes.mapM (backfillObjectChange registry intent)

end Objects

section Dumping

def ChangeOperation.text : ChangeOperation → Str
  | .create => str "create"
  | .update => str "update"
  | .delete => str "delete"

def sourceText : Source → Str
  | .user => str "user"
  | .default => str "default"

/-- `model_dump` of a `FieldMeta`, which has every key. -/
def dumpEntry (x : FieldMeta) : Value :=
  .dict [(str "source", .str (sourceText x.source)),
    (str "rationale", match x.rationale with
      | none => .null
      | some r => .str r)] .none

def entries (enc : FieldMeta → Value) (m : Meta) : Dict := m.map fun e => (e.1, enc e.2)

/-- `model_dump` of a `ChangesetItem`. -/
def dump (item : ChangesetItem) : Dict :=
  [(str "operation", .str item.operation.text), (str "doctype", .str item.doctype),
    (str "data", .dict item.data .none),
    (str "field_defaults_meta", match item.fieldDefaultsMeta with
      | none => .null
      | some m => .dict (entries dumpEntry m) .none)]

def dropNull : Value → Value
  | .dict d strays => .dict (d.filter fun e =>
      match e.2 with
      | .null => e.1 ≠ str "rationale"
      | _ => true) strays
  | v => v

def dropNulls (change : Dict) : Dict :=
  change.map fun e =>
    if e.1 = str "field_defaults_meta" then
      (e.1, match e.2 with
        | .dict m strays => .dict (mapValues dropNull m) strays
        | v => v)
    else e

def entry (x : FieldMeta) : Value :=
  .dict ((str "source", .str (sourceText x.source)) ::
    match x.rationale with
    | none => []
    | some r => [(str "rationale", .str r)]) .none

def toObject (c : Change) : Dict :=
  [(str "op", c.op), (str "doctype", c.doctype), (str "data", .dict c.data .none)] ++
    match c.fieldDefaultsMeta with
    | none => []
    | some m => [(str "field_defaults_meta", .dict (entries entry m) .none)]

end Dumping

section Agreement

variable {registry : IntentRegistry} {modules : ModuleRegistry} {intent : Option String} {schema : Schema}
  {enc : FieldMeta → Value} {f : Value → Value} {m : Meta} {M : Dict} {k : Str} {x : FieldMeta}
  {fields : List FieldSpec} {d : Dict} {item : ChangesetItem}

theorem get_entries (enc : FieldMeta → Value) (k : Str) (m : Meta) :
    get k (entries enc m) = (metaGet k m).map enc := by
  induction m with
  | nil => rfl
  | cons e m ih =>
    obtain ⟨k', y⟩ := e
    have hcons : entries enc ((k', y) :: m) = (k', enc y) :: entries enc m := rfl
    rw [hcons, get_cons, ih]
    by_cases hk : k' = k <;> simp [metaGet, hk]

theorem insert_entries (enc : FieldMeta → Value) (k : Str) (x : FieldMeta) (m : Meta) :
    insert k (enc x) (entries enc m) = entries enc (metaSet k x m) := by
  induction m with
  | nil => rfl
  | cons e m ih =>
    obtain ⟨k', y⟩ := e
    have hcons : entries enc ((k', y) :: m) = (k', enc y) :: entries enc m := rfl
    rw [hcons, Lib.Json.insert, metaSet]
    split_ifs
    · rfl
    · rw [ih]
      rfl

theorem setDefault_entries (h : mapValues f M = entries entry m) (hx : f (entry x) = entry x) (k : Str) :
    mapValues f (setDefault k (entry x) M) = entries entry (metaDefault k x m) := by
  have hthere : (get k M).isSome = (metaGet k m).isSome := by
    have hget := congrArg (get k) h
    rw [get_mapValues, get_entries] at hget
    rw [← Option.isSome_map (f := f), hget, Option.isSome_map]
  unfold setDefault metaDefault
  rw [hthere]
  split_ifs
  · exact h
  · rw [← insert_mapValues, hx, h, insert_entries]

theorem defaultEntry_eq (rationale : Option Str) :
    defaultEntry rationale = entry { source := .default, rationale := rationale.filter (!·.isEmpty) } := by
  unfold defaultEntry entry
  cases rationale.filter (!·.isEmpty) <;> rfl

theorem backfillObjectFields (h : mapValues f M = entries entry m) (hf : ∀ x, f (entry x) = entry x)
    (fields : List FieldSpec) (d : Dict) :
    (fields.foldl backfillObjectField (d, M)).1 = (fields.foldl backfillField (d, m)).1 ∧
      mapValues f (fields.foldl backfillObjectField (d, M)).2 =
        entries entry (fields.foldl backfillField (d, m)).2 := by
  induction fields generalizing d M m with
  | nil => exact ⟨rfl, h⟩
  | cons field fields ih =>
    have huser := setDefault_entries h (hf { source := .user }) field.key
    rw [List.foldl_cons, List.foldl_cons]
    unfold backfillObjectField backfillField
    dsimp only
    split_ifs
    · exact ih huser d
    · cases field.default with
      | none => exact ih huser d
      | some v =>
        rw [defaultEntry_eq]
        exact ih (setDefault_entries h (hf _) field.key) (insert field.key v d)

/-- Where no rationale is empty the typed pass is the raw one. -/
theorem backfillItemFields (h : ∀ field ∈ fields, field.rationale ≠ some []) (p : Dict × Meta) :
    fields.foldl backfillItemField p = fields.foldl backfillField p := by
  induction fields generalizing p with
  | nil => rfl
  | cons field fields ih =>
    have hrationale : field.rationale.filter (!·.isEmpty) = field.rationale := by
      have hfirst := h field List.mem_cons_self
      cases hvalue : field.rationale with
      | none => rfl
      | some r =>
        cases r with
        | nil => exact absurd hvalue hfirst
        | cons a r => rfl
    have hround : backfillItemField p field = backfillField p field := by
      unfold backfillItemField backfillField
      split_ifs
      · rfl
      · cases field.default with
        | none => rfl
        | some v =>
          dsimp only
          rw [hrationale]
    rw [List.foldl_cons, List.foldl_cons, hround, ih fun g hg => h g (List.mem_cons_of_mem _ hg)]

theorem dropNull_entry (x : FieldMeta) : dropNull (entry x) = entry x := by
  obtain ⟨source, rationale⟩ := x
  cases rationale <;> rfl

theorem dropNull_dumpEntry (x : FieldMeta) : dropNull (dumpEntry x) = entry x := by
  obtain ⟨source, rationale⟩ := x
  cases rationale <;> rfl

theorem dropNull_entries (m : Meta) : mapValues dropNull (entries dumpEntry m) = entries entry m := by
  induction m with
  | nil => rfl
  | cons e m ih =>
    have hcons : mapValues dropNull (entries dumpEntry (e :: m)) =
        (e.1, dropNull (dumpEntry e.2)) :: mapValues dropNull (entries dumpEntry m) := rfl
    rw [hcons, ih, dropNull_dumpEntry]
    rfl

theorem mem_of_schemaFor {doctype : Value} (h : schemaFor registry intent doctype = .ok (some schema)) :
    ∃ e ∈ registry, e.2 = schema := by
  have hget {i : String} (hi : registry.get i = some schema) : ∃ e ∈ registry, e.2 = schema := by
    obtain ⟨e, he, rfl⟩ := Option.map_eq_some_iff.mp hi
    exact ⟨e, List.mem_of_find?_eq_some he, rfl⟩
  have hdoctype {t : Str} (ht : registry.forDoctype t = some schema) : ∃ e ∈ registry, e.2 = schema := by
    obtain ⟨e, he, rfl⟩ := Option.map_eq_some_iff.mp ht
    exact ⟨e, List.mem_reverse.mp (List.mem_of_find?_eq_some he), rfl⟩
  unfold schemaFor at h
  cases hintent : intent.filter (!·.isEmpty) with
  | some i =>
    rw [hintent] at h
    dsimp only at h
    cases hschema : registry.get i with
    | none =>
      rw [hschema] at h
      cases h
    | some found =>
      rw [hschema] at h
      cases doctype with
      | str t =>
        dsimp only at h
        split_ifs at h
        · cases h
          exact hget hschema
        · cases h
      | _ => cases h
  | none =>
    rw [hintent] at h
    dsimp only at h
    split_ifs at h
    · cases doctype with
      | str t => exact hdoctype (Except.ok.inj h)
      | _ =>
        dsimp only at h
        split_ifs at h
        all_goals cases h
    · cases h

theorem schemaFor_str (registry : IntentRegistry) (intent : Option String) (t : Str) :
    ∃ found, schemaFor registry intent (.str t) = .ok found := by
  unfold schemaFor
  cases intent.filter (!·.isEmpty) with
  | some i =>
    dsimp only
    cases registry.get i with
    | none => exact ⟨_, rfl⟩
    | some found => exact ⟨_, rfl⟩
  | none =>
    dsimp only
    split_ifs
    · exact ⟨_, rfl⟩
    · exact ⟨_, rfl⟩

theorem objectOf_dict (change : Dict) (key : String) (d : Dict)
    (h : pyGet change key = .dict d .none) : objectOf change key = .ok (d, .none) := by
  unfold objectOf
  rw [h, pyOr]
  cases d with
  | nil => rfl
  | cons e d => rfl

theorem backfillObject_dump (h : ∀ field ∈ schema.fields, field.rationale ≠ some []) (item : ChangesetItem) :
    ∃ raw, backfillObject (dump item) schema = .ok raw ∧
      dropNulls raw = dropNulls (dump (backfillItem item schema)) := by
  have hstart : ∃ M, objectOf (dump item) "field_defaults_meta" = .ok (M, .none) ∧
      mapValues dropNull M = entries entry (item.fieldDefaultsMeta.getD []) := by
    cases hmeta : item.fieldDefaultsMeta with
    | none => exact ⟨[], by unfold objectOf dump; rw [hmeta]; rfl, rfl⟩
    | some m =>
      exact ⟨entries dumpEntry m, objectOf_dict _ _ _ (by unfold dump; rw [hmeta]; rfl), dropNull_entries m⟩
  obtain ⟨M, hM, hdrop⟩ := hstart
  obtain ⟨hdata, hentries⟩ := backfillObjectFields hdrop dropNull_entry schema.fields item.data
  refine ⟨_, bind_eq_ok.mpr ⟨_, objectOf_dict _ "data" item.data rfl, bind_eq_ok.mpr ⟨_, hM, rfl⟩⟩, ?_⟩
  -- A dump has both keys, so that writing them changes no order.
  have hwritten (d M : Dict) : dropNulls (insert (str "field_defaults_meta") (.dict M .none)
      (insert (str "data") (.dict d .none) (dump item))) =
      [(str "operation", .str item.operation.text), (str "doctype", .str item.doctype), (str "data", .dict d .none),
        (str "field_defaults_meta", .dict (mapValues dropNull M) .none)] := rfl
  have htyped (d : Dict) (m : Meta) :
      dropNulls (dump { item with data := d, fieldDefaultsMeta := some m }) =
      [(str "operation", .str item.operation.text), (str "doctype", .str item.doctype), (str "data", .dict d .none),
        (str "field_defaults_meta", .dict (mapValues dropNull (entries dumpEntry m)) .none)] := rfl
  have hitem : backfillItem item schema = { item with
      data := (schema.fields.foldl backfillField (item.data, item.fieldDefaultsMeta.getD [])).1
      fieldDefaultsMeta := some (schema.fields.foldl backfillField (item.data, item.fieldDefaultsMeta.getD [])).2 } := by
    unfold backfillItem
    rw [backfillItemFields h]
  rw [hitem, htyped, dropNull_entries, ← hentries, ← hdata]
  exact hwritten _ _

theorem typedItem_dump (registry : CheckedRegistry) (intent : Option String) (item : ChangesetItem) :
    ∃ typed raw, backfillTypedItem registry.registry intent item = .ok typed ∧
      backfillObjectChange registry.registry intent (dump item) = .ok raw ∧
      dropNulls raw = dropNulls (dump typed) := by
  obtain ⟨found, hfound⟩ := schemaFor_str registry.registry intent item.doctype
  cases found with
  | none =>
    exact ⟨item, dump item, bind_eq_ok.mpr ⟨none, hfound, rfl⟩, bind_eq_ok.mpr ⟨none, hfound, rfl⟩, rfl⟩
  | some schema =>
    obtain ⟨e, he, rfl⟩ := mem_of_schemaFor hfound
    obtain ⟨raw, hraw, hsame⟩ := backfillObject_dump (registry.rationales e he) item
    exact ⟨_, raw, bind_eq_ok.mpr ⟨some e.2, hfound, rfl⟩, bind_eq_ok.mpr ⟨some e.2, hfound, hraw⟩, hsame⟩

/-- Both passes do the same: over a changeset and over its dump, where a rationale that is null
may be missing. -/
theorem raw_agrees (registry : CheckedRegistry) (intent : Option String) (changeset : Changeset) :
    ∃ typed raw, backfillDefaults registry.registry intent changeset = .ok typed ∧
      backfillDefaultsObjects registry.registry intent (changeset.items.map dump) = .ok raw ∧
      raw.map dropNulls = (typed.items.map dump).map dropNulls := by
  obtain ⟨items⟩ := changeset
  have hitems : ∃ typed raw, items.mapM (backfillTypedItem registry.registry intent) = .ok typed ∧
      (items.map dump).mapM (backfillObjectChange registry.registry intent) = .ok raw ∧
      raw.map dropNulls = (typed.map dump).map dropNulls := by
    induction items with
    | nil => exact ⟨[], [], rfl, rfl, rfl⟩
    | cons item items ih =>
      obtain ⟨typed, raw, htyped, hraw, hrest⟩ := ih
      obtain ⟨item', object, hitem, hobject, hsame⟩ := typedItem_dump registry intent item
      refine ⟨item' :: typed, object :: raw, ?_, ?_, ?_⟩
      · rw [List.mapM_cons]
        exact bind_eq_ok.mpr ⟨item', hitem, bind_eq_ok.mpr ⟨typed, htyped, rfl⟩⟩
      · rw [List.map_cons, List.mapM_cons]
        exact bind_eq_ok.mpr ⟨object, hobject, bind_eq_ok.mpr ⟨raw, hraw, rfl⟩⟩
      · rw [List.map_cons, List.map_cons, List.map_cons, hsame, hrest]
  obtain ⟨typed, raw, htyped, hraw, hsame⟩ := hitems
  exact ⟨⟨typed⟩, raw, bind_eq_ok.mpr ⟨typed, htyped, rfl⟩, hraw, hsame⟩

/-- A registry with one intent and one field, which has that rationale. -/
def childTables (rationale : Str) : IntentRegistry :=
  [("create_doctype",
    { doctype := str "DocType", named := BackfillStable.docType_named
      fields := [{ key := str "istable", default := some (.int 0), rationale := some rationale }] })]

def checkedChildTables : CheckedRegistry where
  registry := childTables (str "Child tables only exist inside a parent DocType.")
  rationales := by decide

def newDocType : Changeset := ⟨[{ operation := .create, doctype := str "DocType", data := [] }]⟩

theorem newDocType_agrees : ∃ typed raw,
    backfillDefaults checkedChildTables.registry (some "create_doctype") newDocType = .ok typed ∧
      backfillDefaultsObjects checkedChildTables.registry (some "create_doctype")
        (newDocType.items.map dump) = .ok raw ∧
      raw.map dropNulls = (typed.items.map dump).map dropNulls :=
  raw_agrees checkedChildTables (some "create_doctype") newDocType

def entrySizes (change : Dict) : List Nat :=
  match pyGet change "field_defaults_meta" with
  | .dict m _ => m.map fun e =>
    match e.2 with
    | .dict d _ => d.length
    | _ => 0
  | _ => []

/-- An empty rationale is kept by the typed pass, and left out by the raw one. -/
theorem empty_rationale_differs : ¬∃ typed raw,
    backfillDefaults (childTables []) (some "create_doctype") newDocType = .ok typed ∧
      backfillDefaultsObjects (childTables []) (some "create_doctype") (newDocType.items.map dump) = .ok raw ∧
      raw.map dropNulls = (typed.items.map dump).map dropNulls := by
  rintro ⟨typed, raw, htyped, hraw, hsame⟩
  have hsizes := congrArg (List.map entrySizes) hsame
  cases htyped
  cases hraw
  exact absurd hsizes (by decide)

end Agreement

section Refinement

variable {registry : IntentRegistry} {modules : ModuleRegistry} {intent : Option String}
  {secondaryModules : List String}

theorem backfillObject_toObject (c : Change) (schema : Schema) :
    backfillObject (toObject c) schema = .ok (toObject (backfillRaw c schema)) := by
  have hstart : objectOf (toObject c) "field_defaults_meta" = .ok (entries entry (c.fieldDefaultsMeta.getD []), .none) := by
    cases hmeta : c.fieldDefaultsMeta with
    | none => unfold objectOf toObject; rw [hmeta]; rfl
    | some m => exact objectOf_dict _ _ _ (by unfold toObject; rw [hmeta]; rfl)
  obtain ⟨hdata, hentries⟩ := backfillObjectFields (mapValues_id (entries entry (c.fieldDefaultsMeta.getD [])))
    (fun _ => rfl) schema.fields c.data
  rw [mapValues_id] at hentries
  have hwritten (d M : Dict) : insert (str "field_defaults_meta") (.dict M .none)
      (insert (str "data") (.dict d .none) (toObject c)) =
      [(str "op", c.op), (str "doctype", c.doctype), (str "data", .dict d .none),
        (str "field_defaults_meta", .dict M .none)] := by
    unfold toObject
    cases c.fieldDefaultsMeta <;> rfl
  refine bind_eq_ok.mpr ⟨_, objectOf_dict _ "data" c.data rfl, bind_eq_ok.mpr ⟨_, hstart, ?_⟩⟩
  dsimp only
  rw [hdata, hentries]
  exact congrArg Except.ok (hwritten _ _)

theorem backfillObjectChange_toObject (c : Change) :
    backfillObjectChange registry intent (toObject c) =
      (backfillChange registry modules intent none secondaryModules c).map toObject := by
  unfold backfillObjectChange backfillChange
  rw [show pyGet (toObject c) "doctype" = c.doctype from rfl]
  cases schemaFor registry intent c.doctype with
  | error e => rfl
  | ok found =>
    cases found with
    | none => rfl
    | some schema => exact backfillObject_toObject c schema

theorem objects_refine (changes : List Change) :
    backfillDefaultsObjects registry intent (changes.map toObject) =
      (backfillDefaultsRaw registry modules intent none secondaryModules changes).map (List.map toObject) := by
  unfold backfillDefaultsObjects backfillDefaultsRaw
  induction changes with
  | nil => rfl
  | cons c changes ih =>
    rw [List.map_cons, List.mapM_cons, List.mapM_cons, ih, backfillObjectChange_toObject]
    cases backfillChange registry modules intent none secondaryModules c with
    | error e => rfl
    | ok c' =>
      cases changes.mapM (backfillChange registry modules intent none secondaryModules) with
      | error e => rfl
      | ok out => rfl

end Refinement

end AlfredProcessing.PostBuild.BackfillTyped
