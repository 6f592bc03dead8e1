import AlfredProcessing.Extract.Cleaning
import AlfredProcessing.Extract.Parse

namespace AlfredProcessing.Extract.Changes

open Lib.Json Cleaning Parse

/-- The exceptions that leave `_extract_changes`. -/
inductive PyError where
  | attributeError
  | typeError
  | valueError
  deriving DecidableEq

abbrev Dict := List (Str × Value)

/-- `d.get(key)`. -/
def pyGet (d : Dict) (key : String) : Value := (get (str key) d).getD .null

def has (d : Dict) (key : String) : Bool := (get (str key) d).isSome

/-- `a or b`. -/
def pyOr (a b : Value) : Value := if a.truthy then a else b

def isDict : Value → Bool
  | .dict .. => true
  | _ => false

/-- `_looks_like_changeset_item`. -/
def looksLikeChangesetItem : Value → Bool
  | .dict d _ =>
    has d "op" || has d "operation" || has d "type" || (has d "doctype" && isDict (pyGet d "data"))
  | _ => false

def listKeys : List String := ["plan", "items", "customizations_needed", "execution_log", "changes"]

/-- The list under a key, when it holds changeset items and nothing else. -/
def candidateList (d : Dict) (key : String) : Option (List Value) :=
  match get (str key) d with
  | some (.list xs) => if !xs.isEmpty && xs.all looksLikeChangesetItem then some xs else none
  | _ => none

/-- The items in a parsed value. The keys of a refused dictionary are sorted
for the log. -/
def itemsOf : Value → Except PyError (List Value)
  | .list xs => .ok xs
  | .dict d strays =>
    match listKeys.findSome? (candidateList d) with
    | some xs => .ok xs
    | none =>
      if looksLikeChangesetItem (.dict d strays) then .ok [.dict d strays]
      else if strays = .mixed then .error .typeError
      else .ok []
  | _ => .ok []

structure ChangeItem where
  op : Value
  doctype : Value
  data : Dict

/-- `item.get("name") or item.get("data", {}).get("name") or ""`. -/
def itemName (item : Dict) : Except PyError Value :=
  if (pyGet item "name").truthy then .ok (pyGet item "name")
  else
    match (get (str "data") item).getD (.dict [] .none) with
    | .dict d _ => .ok (pyOr (pyGet d "name") (.str []))
    | _ => .error .attributeError

def copiedFields : List String :=
  ["fields", "script", "permissions", "description", "event", "channel"]

def copyField (item data : Dict) (field : String) : Dict :=
  match get (str field) item with
  | some v => if has data field then data else insert (str field) v data
  | none => data

def itemData (item : Dict) : Dict :=
  match get (str "data") item with
  | some (.dict d _) => d
  | _ => []

def nameData (item data : Dict) (name : Value) : Dict :=
  let data :=
    if name.truthy && !(pyGet data "name").truthy then insert (str "name") name data else data
  if !(pyGet data "name").truthy && (pyGet item "description").truthy then
    insert (str "name") (pyGet item "description") data
  else data

def normalize (item : Dict) : Except PyError ChangeItem := do
  let name ← itemName item
  return {
    op := pyOr (pyOr (pyGet item "op") (pyGet item "operation")) (.str (str "create"))
    doctype := pyOr (pyOr (pyGet item "doctype") (pyGet item "type")) (.str (str "Other"))
    data := copiedFields.foldl (copyField item) (nameData item (itemData item) name) }

def hashable : Value → Bool
  | .list _ => false
  | .dict .. => false
  | .other _ h => h
  | _ => true

/-- What `_validate_changeset_shape` does besides logging: the operation is
looked up in a set. -/
def validateChangesetShape (items : List ChangeItem) : Except PyError Unit :=
  if items.all fun i => hashable i.op then .ok () else .error .typeError

def asDict : Value → Option Dict
  | .dict d _ => some d
  | _ => none

/-- The loop over the items, which passes over everything but dictionaries. -/
def normalizeItems (items : List Value) : Except PyError (List ChangeItem) := do
  let normalized ← (items.filterMap asDict).mapM normalize
  validateChangesetShape normalized
  return normalized

/-- `_extract_changes`. -/
def extractChanges (py : Interpreter) (resultText : List Char) :
    Except PyError (List ChangeItem) :=
  if resultText.isEmpty then .ok []
  else
    match parseFirstJsonValue py (clean resultText) with
    | .value v => itemsOf v >>= normalizeItems
    | .rejected => .ok []
    | .crashed => .ok []

/-- A value that `_extract_changes` takes no item from: a list without a
dictionary, a dictionary that neither looks like an item nor carries a list of
items, or no container at all. -/
def holdsNoItem : Value → Bool
  | .list xs => !xs.any isDict
  | .dict d strays =>
    (listKeys.findSome? (candidateList d)).isNone && !looksLikeChangesetItem (.dict d strays) &&
      strays ≠ .mixed
  | _ => true

variable {py : Interpreter} {v : Value} {xs : List Value}

theorem isDict_of_looksLike (h : looksLikeChangesetItem v) : isDict v := by
  cases v <;> simp_all [looksLikeChangesetItem, isDict]

theorem asDict_isSome (v : Value) : (asDict v).isSome = isDict v := by
  cases v <;> rfl

theorem filterMap_asDict_eq_nil : xs.filterMap asDict = [] ↔ xs.any isDict = false := by
  simp only [List.filterMap_eq_nil_iff, List.any_eq_false, ← asDict_isSome, Bool.not_eq_true,
    Option.isSome_eq_false_iff, Option.isNone_iff_eq_none]

/-- One dictionary among the items is enough for a result, unless an exception
leaves the loop. -/
theorem normalizeItems_eq_nil : normalizeItems xs = .ok [] ↔ xs.any isDict = false := by
  rw [← filterMap_asDict_eq_nil]
  unfold normalizeItems
  cases xs.filterMap asDict with
  | nil => simp [validateChangesetShape, bind, Except.bind, pure, Except.pure]
  | cons d ds =>
    simp only [List.mapM_cons, reduceCtorEq, iff_false]
    cases hd : normalize d with
    | error e => simp [bind, Except.bind]
    | ok i =>
      cases hds : ds.mapM normalize with
      | error e => simp [bind, Except.bind]
      | ok is =>
        cases hv : validateChangesetShape (i :: is) <;>
          simp [bind, Except.bind, pure, Except.pure, hv]

theorem normalize_value_eq_nil (v : Value) :
    itemsOf v >>= normalizeItems = .ok [] ↔ holdsNoItem v := by
  cases v with
  | list xs => simpa [itemsOf, holdsNoItem, bind, Except.bind] using normalizeItems_eq_nil
  | dict d strays =>
    cases hc : listKeys.findSome? (candidateList d) with
    | some xs =>
      obtain ⟨key, -, hkey⟩ := List.exists_of_findSome?_eq_some hc
      have hshape : xs ≠ [] ∧ ∀ x ∈ xs, isDict x := by
        unfold candidateList at hkey
        split at hkey
        · split at hkey
          · next hall =>
            cases hkey
            simp only [Bool.and_eq_true, Bool.not_eq_true', List.isEmpty_eq_false_iff,
              List.all_eq_true] at hall
            exact ⟨hall.1, fun x hx => isDict_of_looksLike (hall.2 x hx)⟩
          · cases hkey
        · cases hkey
      have hany : xs.any isDict = true := by
        obtain ⟨x, hx⟩ := List.exists_mem_of_ne_nil xs hshape.1
        exact List.any_eq_true.mpr ⟨x, hx, hshape.2 x hx⟩
      have hne := mt normalizeItems_eq_nil.mp (by rw [hany]; decide)
      simpa [itemsOf, holdsNoItem, hc, bind, Except.bind] using hne
    | none =>
      by_cases hl : looksLikeChangesetItem (.dict d strays)
      · have hne := mt normalizeItems_eq_nil.mp
          (show ([Value.dict d strays].any isDict) ≠ false by simp [isDict])
        simpa [itemsOf, holdsNoItem, hc, hl, bind, Except.bind] using hne
      · by_cases hs : strays = .mixed
        · subst hs
          simp [itemsOf, holdsNoItem, hc, hl, bind, Except.bind]
        · have hnil : normalizeItems [] = .ok [] := normalizeItems_eq_nil.mpr rfl
          simpa [itemsOf, holdsNoItem, hc, hl, hs, bind, Except.bind] using hnil
  | _ =>
    have hnil : normalizeItems [] = .ok [] := normalizeItems_eq_nil.mpr rfl
    simpa [itemsOf, holdsNoItem, bind, Except.bind] using hnil

theorem extractChanges_value {text : List Char}
    (h : parseFirstJsonValue py (clean text) = .value v) :
    extractChanges py text = itemsOf v >>= normalizeItems := by
  unfold extractChanges
  split
  · next he =>
    rw [List.isEmpty_iff.mp he] at h
    cases h
  · rw [h]

/-- The result is empty when nothing can be read, when reading dies, and when
the value that is read holds no item. -/
theorem extractChanges_eq_nil {text : List Char} :
    extractChanges py text = .ok [] ↔
      ∀ v, parseFirstJsonValue py (clean text) = .value v → holdsNoItem v := by
  have hempty (h : text = []) : parseFirstJsonValue py (clean text) = .rejected := by
    rw [h]
    rfl
  unfold extractChanges
  split
  · next he =>
    simp [hempty (List.isEmpty_iff.mp he)]
  · split <;> rename_i hp
    · simp [hp, normalize_value_eq_nil]
    · simp [hp]
    · simp [hp]

end AlfredProcessing.Extract.Changes
