import AlfredProcessing.Tools.Objects

namespace AlfredProcessing.Tools.ChangesetOrder

open Lib.Json Lib.Fallible Extract.Changes State.ConversationMemory Objects

section Model

inductive Raised where
  | py (e : PyError)
  | keyError
  deriving DecidableEq

def lift {α : Type} : Except PyError α → Except Raised α := Except.mapError .py

def creates (item : Dict) : Bool :=
  pyEq (pyGet item "doctype") (.str (str "DocType")) && pyEq (pyGet item "operation") (.str (str "create"))

def dataOf (item : Dict) : Value := getOr item "data" (.dict [] .none)

def nameIn (data : Dict) : Value := getOr data "name" (.str [])

def fieldsIn (data : Dict) : Value := getOr data "fields" (.list [])

def isLink (field : Dict) : Bool := pyEq (pyGet field "fieldtype") (.str (str "Link"))

def targetOf (field : Dict) : Value := getOr field "options" (.str [])

/-- `created_doctypes[name] = i`. -/
def setAt (name : Value) (i : Nat) : List (Value × Nat) → List (Value × Nat)
  | [] => [(name, i)]
  | (k, j) :: created => if sameKey k name then (k, i) :: created else (k, j) :: setAt name i created

def indexOf (target : Value) (created : List (Value × Nat)) : Option Nat :=
  (created.find? fun e => sameKey e.1 target).map Prod.snd

def collect (created : List (Value × Nat)) (item : Dict × Nat) : Except Raised (List (Value × Nat)) :=
  if creates item.1 then do
    let data ← lift (dictOf (dataOf item.1))
    if (nameIn data).truthy then return setAt (← lift (asKey (nameIn data))) item.2 created
    else return created
  else return created

variable (texts : Texts)

def orderFlaw (name target : Value) (i j : Nat) : Flaw :=
  ⟨"dependency_order", str "DocType '" ++ texts.py.toStr name ++ str "' (order " ++ texts.py.toStr (.int i) ++
    str ") has Link to '" ++ texts.py.toStr target ++ str "' (order " ++ texts.py.toStr (.int j) ++ str "), but '" ++
    texts.py.toStr target ++ str "' must be created first"⟩

/-- The check of one field of the DocType at `i`. -/
def linkFlaws (created : List (Value × Nat)) (data : Dict) (i : Nat) (field : Dict) :
    Except Raised (List Flaw) :=
  if isLink field then do
    let target ← lift (asKey (targetOf field))
    match indexOf target created with
    | some j =>
      if i < j then
        match get (str "name") data with
        | some name => return [orderFlaw texts name target i j]
        | none => throw .keyError
      else return []
    | none => return []
  else return []

def fieldFlaws (created : List (Value × Nat)) (data : Dict) (i : Nat) (field : Value) :
    Except Raised (List Flaw) := do
  let field ← lift (dictOf field)
  linkFlaws texts created data i field

def itemFlaws (created : List (Value × Nat)) (item : Dict × Nat) : Except Raised (List Flaw) :=
  if creates item.1 then do
    let data ← lift (dictOf (dataOf item.1))
    let fields ← lift (iterate (fieldsIn data))
    return (← fields.mapM (fieldFlaws texts created data item.2)).flatten
  else return []

abbrev Links := List (Value × List Value)

/-- `links.setdefault(name, set()).add(target)`. -/
def addLink (name target : Value) : Links → Links
  | [] => [(name, [target])]
  | (k, targets) :: links =>
    if sameKey k name then (k, addKey targets target) :: links else (k, targets) :: addLink name target links

def targetsOf (name : Value) (links : Links) : Option (List Value) :=
  (links.find? fun e => sameKey e.1 name).map Prod.snd

def collectLink (created : List (Value × Nat)) (name : Value) (links : Links) (field : Dict) :
    Except Raised Links :=
  if isLink field then do
    let target ← lift (asKey (pyGet field "options"))
    match indexOf target created with
    | some _ => return addLink (← lift (asKey name)) target links
    | none => return links
  else return links

def collectField (created : List (Value × Nat)) (name : Value) (links : Links) (field : Value) :
    Except Raised Links := do
  let field ← lift (dictOf field)
  collectLink created name links field

def collectLinks (created : List (Value × Nat)) (links : Links) (item : Dict) : Except Raised Links :=
  if creates item then do
    let data ← lift (dictOf (dataOf item))
    let fields ← lift (iterate (fieldsIn data))
    fields.foldlM (collectField created (nameIn data)) links
  else return links

def circularFlaw (a b : Value) : Flaw :=
  ⟨"circular_dependency", str "Circular dependency: '" ++ texts.py.toStr a ++ str "' links to '" ++
    texts.py.toStr b ++ str "' and '" ++ texts.py.toStr b ++ str "' links to '" ++ texts.py.toStr a ++ str "'"⟩

def circularFlaws (links : Links) : List Flaw :=
  links.flatMap fun e =>
    (texts.setOrder e.2).filterMap fun b =>
      if (targetsOf b links).any (member e.1) then some (circularFlaw texts e.1 b) else none

/-- `validate_changeset_order`. -/
def validateChangesetOrder (changeset : List Dict) : Except Raised Report := do
  let created ← changeset.zipIdx.foldlM collect []
  let order ← changeset.zipIdx.mapM (itemFlaws texts created)
  let links ← changeset.foldlM (collectLinks created) []
  return ⟨order.flatten ++ circularFlaws texts links⟩

end Model

section Order

/-- The items that create a DocType, where the operation stands under `opKey`. -/
def isCreate (opKey : String) (item : Dict) : Bool :=
  pyEq (pyGet item "doctype") (.str (str "DocType")) && pyEq (pyGet item opKey) (.str (str "create"))

def createdName (opKey : String) (item : Dict) : Option Value :=
  if isCreate opKey item then
    (asDict (dataOf item)).bind fun data =>
      if (nameIn data).truthy && hashable (nameIn data) then some (nameIn data) else none
  else none

def linkTargets (item : Dict) : List Value :=
  ((asDict (dataOf item)).toList.flatMap fun data => (objectsIn (fieldsIn data)).filter isLink).map targetOf

/-- The DocType that the item at `i` creates has a Link to the one that the item at `j` creates. -/
def LinksTo (opKey : String) (changeset : List Dict) (i j : Nat) : Prop :=
  ∃ item item' name, changeset[i]? = some item ∧ isCreate opKey item = true ∧ changeset[j]? = some item' ∧
    createdName opKey item' = some name ∧ ∃ target ∈ linkTargets item, keyOf target = keyOf name

/-- Every Link to another DocType of the changeset points to one that is created earlier. -/
def Ordered (opKey : String) (changeset : List Dict) : Prop :=
  ∀ i j, LinksTo opKey changeset i j → i ≠ j → j < i

end Order

section Created

variable {created : List (Value × Nat)} {item : Dict} {name target : Value} {i j : Nat} {k : Key}
  {xs : List (Dict × Nat)}

theorem lift_eq_ok {α : Type} {x : Except PyError α} {a : α} : lift x = .ok a ↔ x = .ok a := by
  cases x <;> simp [lift, Except.mapError]

def noted (created : List (Value × Nat)) (k : Key) : Option Nat :=
  (created.find? fun e => keyOf e.1 = k).map Prod.snd

def Hashed (created : List (Value × Nat)) : Prop := ∀ e ∈ created, hashable e.1 = true

theorem noted_cons (e : Value × Nat) :
    noted (e :: created) k = if keyOf e.1 = k then some e.2 else noted created k := by
  by_cases hk : keyOf e.1 = k <;> simp [noted, hk]

theorem indexOf_eq (hcreated : Hashed created) (htarget : hashable target = true) :
    indexOf target created = noted created (keyOf target) := by
  induction created with
  | nil => rfl
  | cons e created ih =>
    obtain ⟨he, hrest⟩ := List.forall_mem_cons.mp hcreated
    have hsame := sameKey_iff he htarget
    rw [noted_cons, ← ih hrest, indexOf, List.find?_cons]
    by_cases hk : keyOf e.1 = keyOf target
    · simp [hsame.mpr hk, hk]
    · simp [Bool.eq_false_iff.mpr (mt hsame.mp hk), hk, indexOf]

theorem hashed_setAt (hcreated : Hashed created) (hname : hashable name = true) :
    Hashed (setAt name i created) := by
  induction created with
  | nil => simpa [setAt, Hashed] using hname
  | cons e created ih =>
    obtain ⟨he, hrest⟩ := List.forall_mem_cons.mp hcreated
    rw [setAt]
    split
    · exact List.forall_mem_cons.mpr ⟨he, hrest⟩
    · exact List.forall_mem_cons.mpr ⟨he, ih hrest⟩

theorem noted_setAt (hcreated : Hashed created) (hname : hashable name = true) :
    noted (setAt name i created) = Function.update (noted created) (keyOf name) (some i) := by
  funext k
  rw [Function.update_apply]
  induction created with
  | nil =>
    rw [setAt, noted_cons]
    simp only [eq_comm]
  | cons e created ih =>
    obtain ⟨he, hrest⟩ := List.forall_mem_cons.mp hcreated
    have hsame := sameKey_iff he hname
    rw [setAt, noted_cons]
    by_cases hk : keyOf e.1 = keyOf name
    · rw [if_pos (hsame.mpr hk), noted_cons, hk]
      by_cases hname : keyOf name = k
      · simp [hname]
      · simp [hname, Ne.symm hname]
    · rw [if_neg (mt hsame.mp hk), noted_cons, ih hrest]
      by_cases hek : keyOf e.1 = k
      · have hne : k ≠ keyOf name := hek ▸ hk
        simp [hek, hne]
      · simp [hek]

theorem collect_eq_ok (hcreated : Hashed created) {c : List (Value × Nat)} {x : Dict × Nat}
    (h : collect created x = .ok c) :
    Hashed c ∧ noted c = match createdName "operation" x.1 with
      | some name => Function.update (noted created) (keyOf name) (some x.2)
      | none => noted created := by
  rw [collect] at h
  split at h
  · next hcreates =>
    obtain ⟨data, hdata, h⟩ := bind_eq_ok.mp h
    have hdict := dictOf_eq_ok.mp (lift_eq_ok.mp hdata)
    have hcreate : isCreate "operation" x.1 = true := hcreates
    split at h
    · next htruthy =>
      obtain ⟨key, hkey, h⟩ := bind_eq_ok.mp h
      obtain ⟨hhash, rfl⟩ := asKey_eq_ok.mp (lift_eq_ok.mp hkey)
      cases h
      have hname : createdName "operation" x.1 = some (nameIn data) := by
        simp [createdName, hcreate, hdict, htruthy, hhash]
      rw [hname]
      exact ⟨hashed_setAt hcreated hhash, noted_setAt hcreated hhash⟩
    · next hfalsy =>
      cases h
      have hname : createdName "operation" x.1 = none := by
        simp [createdName, hcreate, hdict, hfalsy]
      rw [hname]
      exact ⟨hcreated, rfl⟩
  · next hcreates =>
    cases h
    have hcreate : isCreate "operation" x.1 = false := Bool.eq_false_iff.mpr hcreates
    have hname : createdName "operation" x.1 = none := by simp [createdName, hcreate]
    rw [hname]
    exact ⟨hcreated, rfl⟩

def Distinct (opKey : String) (items : List Dict) : Prop :=
  ((items.filterMap (createdName opKey)).map keyOf).Nodup

theorem distinct_cons {x : Dict} {items : List Dict} {opKey : String} (h : Distinct opKey (x :: items)) :
    Distinct opKey items ∧ ∀ name, createdName opKey x = some name →
      ∀ y ∈ items, ∀ name', createdName opKey y = some name' → keyOf name' ≠ keyOf name := by
  cases hx : createdName opKey x with
  | none =>
    rw [Distinct, List.filterMap_cons_none hx] at h
    exact ⟨h, fun name hname => nomatch hname⟩
  | some name =>
    rw [Distinct, List.filterMap_cons_some hx, List.map_cons, List.nodup_cons] at h
    refine ⟨h.2, ?_⟩
    rintro _ ⟨⟩ y hy name' hname' hkey
    exact h.1 (hkey ▸ List.mem_map_of_mem (List.mem_filterMap.mpr ⟨y, hy, hname'⟩))

/-- The item at the end of a pair creates the DocType with the key. -/
def CreatesKey (x : Dict × Nat) (k : Key) : Prop :=
  ∃ name, createdName "operation" x.1 = some name ∧ keyOf name = k

theorem noted_foldlM (hcreated : Hashed created) {c : List (Value × Nat)} (h : xs.foldlM collect created = .ok c)
    (hdistinct : Distinct "operation" (xs.map Prod.fst))
    (hnew : ∀ x ∈ xs, ∀ k, CreatesKey x k → noted created k = none) :
    Hashed c ∧ ∀ k j, noted c k = some j ↔ noted created k = some j ∨ ∃ x ∈ xs, x.2 = j ∧ CreatesKey x k := by
  induction xs generalizing created with
  | nil =>
    cases h
    exact ⟨hcreated, by simp⟩
  | cons x xs ih =>
    rw [List.foldlM_cons] at h
    obtain ⟨c', hstep, h⟩ := bind_eq_ok.mp h
    obtain ⟨hhash, hnoted⟩ := collect_eq_ok hcreated hstep
    obtain ⟨hrest, hother⟩ := distinct_cons hdistinct
    cases hx : createdName "operation" x.1 with
    | none =>
      rw [hx] at hnoted
      dsimp only at hnoted
      obtain ⟨hc, hall⟩ := ih hhash h hrest fun y hy k hk => by
        rw [hnoted]
        exact hnew y (List.mem_cons_of_mem x hy) k hk
      refine ⟨hc, fun k j => ?_⟩
      rw [hall, hnoted]
      simp [CreatesKey, hx]
    | some name =>
      rw [hx] at hnoted
      dsimp only at hnoted
      have hfree : noted created (keyOf name) = none := hnew x List.mem_cons_self _ ⟨name, hx, rfl⟩
      obtain ⟨hc, hall⟩ := ih hhash h hrest fun y hy k hk => by
        obtain ⟨name', hname', rfl⟩ := hk
        have hne := hother name hx y.1 (List.mem_map_of_mem hy) name' hname'
        rw [hnoted, Function.update_of_ne hne]
        exact hnew y (List.mem_cons_of_mem x hy) _ ⟨name', hname', rfl⟩
      refine ⟨hc, fun k j => ?_⟩
      rw [hall, hnoted, Function.update_apply]
      by_cases hk : k = keyOf name
      · subst hk
        simp [CreatesKey, hx, hfree]
      · simp [CreatesKey, hx, hk, Ne.symm hk]

end Created

section Passes

variable {texts : Texts} {created : List (Value × Nat)} {data field item : Dict} {name : Value} {i : Nat}
  {flaws : List Flaw}

theorem liftDict_bind_eq_ok {α : Type} {v : Value} {f : Dict → Except Raised α} {a : α}
    (h : (lift (dictOf v) >>= f) = .ok a) : ∃ d, asDict v = some d ∧ f d = .ok a := by
  obtain ⟨d, hd, h⟩ := bind_eq_ok.mp h
  exact ⟨d, dictOf_eq_ok.mp (lift_eq_ok.mp hd), h⟩

theorem linkFlaws_eq_nil (hcreated : Hashed created) (h : linkFlaws texts created data i field = .ok flaws) :
    (isLink field = true → hashable (targetOf field) = true) ∧
      (flaws = [] ↔ (isLink field = true → ∀ j, noted created (keyOf (targetOf field)) = some j → ¬i < j)) := by
  rw [linkFlaws] at h
  split at h
  · next hlink =>
    obtain ⟨target, htarget, h⟩ := bind_eq_ok.mp h
    obtain ⟨hhash, rfl⟩ := asKey_eq_ok.mp (lift_eq_ok.mp htarget)
    refine ⟨fun _ => hhash, ?_⟩
    rw [indexOf_eq hcreated hhash] at h
    cases hnoted : noted created (keyOf (targetOf field)) with
    | none =>
      simp only [hnoted] at h
      cases h
      simp
    | some j =>
      simp only [hnoted] at h
      by_cases hij : i < j
      · rw [if_pos hij] at h
        split at h
        · cases h
          simp [hlink, hij]
        · cases h
      · rw [if_neg hij] at h
        cases h
        simpa using fun _ => Nat.le_of_not_lt hij
  · next hlink =>
    cases h
    simp [hlink]

theorem isCreate_data (hcreate : isCreate "operation" item = true)
    (h : itemFlaws texts created (item, i) = .ok flaws) : ∃ data, asDict (dataOf item) = some data := by
  rw [itemFlaws, if_pos (show creates item = true from hcreate)] at h
  obtain ⟨data, hdata, -⟩ := bind_eq_ok.mp h
  exact ⟨data, dictOf_eq_ok.mp (lift_eq_ok.mp hdata)⟩

theorem mem_linkTargets {target : Value} (hdata : asDict (dataOf item) = some data) :
    target ∈ linkTargets item ↔ ∃ field ∈ objectsIn (fieldsIn data), isLink field = true ∧ targetOf field = target := by
  simp [linkTargets, hdata, and_assoc]

theorem itemFlaws_eq_nil (hcreated : Hashed created) (h : itemFlaws texts created (item, i) = .ok flaws) :
    (isCreate "operation" item = true → ∀ target ∈ linkTargets item, hashable target = true) ∧
      (flaws = [] ↔ (isCreate "operation" item = true →
        ∀ target ∈ linkTargets item, ∀ j, noted created (keyOf target) = some j → ¬i < j)) := by
  by_cases hcreate : isCreate "operation" item = true
  · obtain ⟨data, hdata⟩ := isCreate_data hcreate h
    rw [itemFlaws, if_pos (show creates item = true from hcreate)] at h
    obtain ⟨data', hdata', h⟩ := bind_eq_ok.mp h
    obtain rfl : data = data' := Option.some.inj (hdata.symm.trans (dictOf_eq_ok.mp (lift_eq_ok.mp hdata')))
    obtain ⟨fields, hfields, h⟩ := bind_eq_ok.mp h
    obtain ⟨ys, hys, h⟩ := bind_eq_ok.mp h
    cases h
    have hall : (objectsIn (fieldsIn data)).mapM (linkFlaws texts created data i) = .ok ys :=
      mapM_objectsIn (lift_eq_ok.mp hfields) (fun _ _ => liftDict_bind_eq_ok) hys
    have heach : ∀ field ∈ objectsIn (fieldsIn data), ∃ y ∈ ys, linkFlaws texts created data i field = .ok y :=
      fun field hfield => mem_of_mapM_eq_ok hall hfield
    constructor
    · intro _ target htarget
      obtain ⟨field, hfield, hlink, rfl⟩ := (mem_linkTargets hdata).mp htarget
      obtain ⟨y, -, hy⟩ := heach field hfield
      exact (linkFlaws_eq_nil hcreated hy).1 hlink
    · rw [List.flatten_eq_nil_iff]
      constructor
      · intro hnil _ target htarget j hj
        obtain ⟨field, hfield, hlink, rfl⟩ := (mem_linkTargets hdata).mp htarget
        obtain ⟨y, hmem, hy⟩ := heach field hfield
        exact (linkFlaws_eq_nil hcreated hy).2.mp (hnil y hmem) hlink j hj
      · intro hahead y hmem
        obtain ⟨field, hfield, hy⟩ := exists_of_mapM_eq_ok hall hmem
        refine (linkFlaws_eq_nil hcreated hy).2.mpr fun hlink j hj => ?_
        exact hahead hcreate _ ((mem_linkTargets hdata).mpr ⟨field, hfield, hlink, rfl⟩) j hj
  · rw [itemFlaws, if_neg (show ¬creates item = true from hcreate)] at h
    cases h
    simp [hcreate]

end Passes

section Circles

variable {texts : Texts} {links : Links} {name target : Value} {a b : Key}

/-- The links lead from one key to the other. -/
def Linked (links : Links) (a b : Key) : Prop := ∃ e ∈ links, keyOf e.1 = a ∧ ∃ t ∈ e.2, keyOf t = b

structure Linking (links : Links) : Prop where
  hashed : ∀ e ∈ links, hashable e.1 = true ∧ ∀ t ∈ e.2, hashable t = true
  nodup : (links.map fun e => keyOf e.1).Nodup

theorem linking_cons {e : Value × List Value} : Linking (e :: links) ↔
    ((hashable e.1 = true ∧ ∀ t ∈ e.2, hashable t = true) ∧ keyOf e.1 ∉ links.map fun e => keyOf e.1) ∧
      Linking links := by
  constructor
  · intro h
    obtain ⟨he, hrest⟩ := List.forall_mem_cons.mp h.hashed
    obtain ⟨hnew, hnodup⟩ := List.nodup_cons.mp h.nodup
    exact ⟨⟨he, hnew⟩, ⟨hrest, hnodup⟩⟩
  · rintro ⟨⟨he, hnew⟩, h⟩
    exact ⟨List.forall_mem_cons.mpr ⟨he, h.hashed⟩, List.nodup_cons.mpr ⟨hnew, h.nodup⟩⟩

theorem linked_cons {e : Value × List Value} :
    Linked (e :: links) a b ↔ (keyOf e.1 = a ∧ ∃ t ∈ e.2, keyOf t = b) ∨ Linked links a b := by
  simp [Linked]

theorem keys_addKey {seen : List Value} (hseen : ∀ t ∈ seen, hashable t = true) (htarget : hashable target = true) :
    (∃ t ∈ addKey seen target, keyOf t = b) ↔ (∃ t ∈ seen, keyOf t = b) ∨ keyOf target = b := by
  constructor
  · rintro ⟨t, ht, rfl⟩
    obtain ht | rfl := mem_addKey ht
    · exact .inl ⟨t, ht, rfl⟩
    · exact .inr rfl
  · rintro (⟨t, ht, rfl⟩ | rfl)
    · exact ⟨t, subset_addKey ht, rfl⟩
    · by_cases hmember : member target seen = true
      · obtain ⟨t, ht, hkey⟩ := (member_iff htarget hseen).mp hmember
        exact ⟨t, subset_addKey ht, hkey⟩
      · exact ⟨target, by simp [addKey, hmember], rfl⟩

theorem keys_addLink {k : Key} (h : k ∈ (addLink name target links).map fun e => keyOf e.1) :
    (k ∈ links.map fun e => keyOf e.1) ∨ k = keyOf name := by
  induction links with
  | nil => simpa [addLink] using h
  | cons e links ih =>
    rw [addLink] at h
    split at h
    · exact .inl h
    · obtain rfl | h := List.mem_cons.mp h
      · exact .inl List.mem_cons_self
      · obtain h | h := ih h
        · exact .inl (List.mem_cons_of_mem _ h)
        · exact .inr h

theorem addLink_linked (h : Linking links) (hname : hashable name = true) (htarget : hashable target = true) :
    Linking (addLink name target links) ∧
      ∀ a b, Linked (addLink name target links) a b ↔ Linked links a b ∨ (keyOf name = a ∧ keyOf target = b) := by
  induction links with
  | nil =>
    rw [addLink]
    exact ⟨⟨by simp [hname, htarget], by simp⟩, by simp [Linked]⟩
  | cons e links ih =>
    obtain ⟨⟨⟨he, hset⟩, hnew⟩, hrest⟩ := linking_cons.mp h
    have hsame := sameKey_iff he hname
    rw [addLink]
    by_cases hk : keyOf e.1 = keyOf name
    · rw [if_pos (hsame.mpr hk)]
      refine ⟨linking_cons.mpr ⟨⟨⟨he, fun t ht => ?_⟩, hnew⟩, hrest⟩, fun a b => ?_⟩
      · obtain ht | rfl := mem_addKey ht
        · exact hset t ht
        · exact htarget
      · rw [linked_cons, linked_cons]
        dsimp only
        rw [keys_addKey hset htarget, hk, and_or_left, or_right_comm]
    · rw [if_neg (mt hsame.mp hk)]
      obtain ⟨hkept, hlinked⟩ := ih hrest
      refine ⟨linking_cons.mpr ⟨⟨⟨he, hset⟩, fun hmem => ?_⟩, hkept⟩, fun a b => ?_⟩
      · obtain hmem | hmem := keys_addLink hmem
        · exact hnew hmem
        · exact hk hmem
      · rw [linked_cons, linked_cons, hlinked, or_assoc]

theorem targetsOf_any (h : Linking links) (hname : hashable name = true) (htarget : hashable target = true) :
    (targetsOf name links).any (member target) = true ↔ Linked links (keyOf name) (keyOf target) := by
  induction links with
  | nil => simp [targetsOf, Linked]
  | cons e links ih =>
    obtain ⟨⟨⟨he, hset⟩, hnew⟩, hrest⟩ := linking_cons.mp h
    have hsame := sameKey_iff he hname
    rw [linked_cons, targetsOf, List.find?_cons]
    by_cases hk : keyOf e.1 = keyOf name
    · have hnone : ¬Linked links (keyOf name) (keyOf target) := by
        rintro ⟨e', he', hkey, -⟩
        exact hnew (List.mem_map.mpr ⟨e', he', hkey.trans hk.symm⟩)
      simp [hsame.mpr hk, hk, hnone, member_iff htarget hset]
    · rw [← ih hrest]
      simp [Bool.eq_false_iff.mpr (mt hsame.mp hk), hk, targetsOf]

theorem circularFlaws_eq_nil (h : Linking links) :
    circularFlaws texts links = [] ↔ ∀ a b, Linked links a b → ¬Linked links b a := by
  rw [circularFlaws, List.flatMap_eq_nil_iff]
  constructor
  · rintro hnil _ _ ⟨e, he, rfl, t, ht, rfl⟩ hback
    have hhash := h.hashed e he
    have hmem : t ∈ texts.setOrder e.2 := (texts.setOrder_perm e.2).mem_iff.mpr ht
    have hany := (targetsOf_any h (hhash.2 t ht) hhash.1).mpr hback
    have hnone := List.filterMap_eq_nil_iff.mp (hnil e he) t hmem
    simp [hany] at hnone
  · intro hnone e he
    rw [List.filterMap_eq_nil_iff]
    intro t ht
    have hmem : t ∈ e.2 := (texts.setOrder_perm e.2).mem_iff.mp ht
    have hhash := h.hashed e he
    have hback := hnone _ _ ⟨e, he, rfl, t, hmem, rfl⟩
    rw [← targetsOf_any h (hhash.2 t hmem) hhash.1] at hback
    simp [hback]

end Circles

section Validity

variable {texts : Texts} {created : List (Value × Nat)} {links links' : Links} {data field item : Dict} {name : Value}
  {changeset : List Dict} {a b : Key}

def Points (created : List (Value × Nat)) (field : Dict) (b : Key) : Prop :=
  isLink field = true ∧ keyOf (pyGet field "options") = b ∧ (noted created b).isSome

theorem collectLink_linked (hcreated : Hashed created) (hlinking : Linking links)
    (h : collectLink created name links field = .ok links') :
    Linking links' ∧ ∀ a b, Linked links' a b ↔ Linked links a b ∨ (keyOf name = a ∧ Points created field b) := by
  rw [collectLink] at h
  split at h
  · next hlink =>
    obtain ⟨target, htarget, h⟩ := bind_eq_ok.mp h
    obtain ⟨hhash, rfl⟩ := asKey_eq_ok.mp (lift_eq_ok.mp htarget)
    rw [indexOf_eq hcreated hhash] at h
    cases hnoted : noted created (keyOf (pyGet field "options")) with
    | none =>
      simp only [hnoted] at h
      cases h
      refine ⟨hlinking, fun a b => (or_iff_left ?_).symm⟩
      rintro ⟨-, -, rfl, hsome⟩
      simp [hnoted] at hsome
    | some j =>
      simp only [hnoted] at h
      obtain ⟨key, hkey, h⟩ := bind_eq_ok.mp h
      obtain ⟨hname, rfl⟩ := asKey_eq_ok.mp (lift_eq_ok.mp hkey)
      cases h
      obtain ⟨hkept, hlinked⟩ := addLink_linked hlinking hname hhash
      refine ⟨hkept, fun a b => ?_⟩
      rw [hlinked]
      refine or_congr_right (and_congr_right fun _ => ⟨fun hb => ?_, fun hpoints => hpoints.2.1⟩)
      exact ⟨hlink, hb, by simp [← hb, hnoted]⟩
  · next hlink =>
    cases h
    exact ⟨hlinking, fun a b => (or_iff_left fun hpoints => hlink hpoints.2.1).symm⟩

theorem collectFields_linked (hcreated : Hashed created) (hlinking : Linking links) {fields : List Dict}
    (h : fields.foldlM (collectLink created name) links = .ok links') :
    Linking links' ∧ ∀ a b, Linked links' a b ↔
      Linked links a b ∨ (keyOf name = a ∧ ∃ field ∈ fields, Points created field b) := by
  induction fields generalizing links with
  | nil =>
    cases h
    exact ⟨hlinking, by simp⟩
  | cons field fields ih =>
    rw [List.foldlM_cons] at h
    obtain ⟨mid, hmid, h⟩ := bind_eq_ok.mp h
    obtain ⟨hkept, hlinked⟩ := collectLink_linked hcreated hlinking hmid
    obtain ⟨hlast, hall⟩ := ih hkept h
    refine ⟨hlast, fun a b => ?_⟩
    rw [hall, hlinked, List.exists_mem_cons_iff, and_or_left, or_assoc]

/-- A DocType that an item creates under the name `a` has a Link to a DocType `b` that is noted. -/
def PointsFrom (created : List (Value × Nat)) (item : Dict) (a b : Key) : Prop :=
  isCreate "operation" item = true ∧ ∃ data, asDict (dataOf item) = some data ∧ keyOf (nameIn data) = a ∧
    ∃ field ∈ objectsIn (fieldsIn data), Points created field b

theorem collectLinks_linked (hcreated : Hashed created) (hlinking : Linking links)
    (h : collectLinks created links item = .ok links') :
    Linking links' ∧ ∀ a b, Linked links' a b ↔ Linked links a b ∨ PointsFrom created item a b := by
  rw [collectLinks] at h
  split at h
  · next hcreates =>
    obtain ⟨data, hdata, h⟩ := bind_eq_ok.mp h
    obtain ⟨fields, hfields, h⟩ := bind_eq_ok.mp h
    have hdict := dictOf_eq_ok.mp (lift_eq_ok.mp hdata)
    have hcreate : isCreate "operation" item = true := hcreates
    have hall := foldlM_objectsIn (lift_eq_ok.mp hfields) (fun _ _ _ => liftDict_bind_eq_ok) h
    obtain ⟨hkept, hlinked⟩ := collectFields_linked hcreated hlinking hall
    refine ⟨hkept, fun a b => ?_⟩
    rw [hlinked]
    simp [PointsFrom, hcreate, hdict]
  · next hcreates =>
    cases h
    exact ⟨hlinking, fun a b => (or_iff_left fun hpoints => hcreates hpoints.1).symm⟩

theorem foldlM_linked (hcreated : Hashed created) (hlinking : Linking links)
    (h : changeset.foldlM (collectLinks created) links = .ok links') :
    Linking links' ∧ ∀ a b, Linked links' a b ↔
      Linked links a b ∨ ∃ item ∈ changeset, PointsFrom created item a b := by
  induction changeset generalizing links with
  | nil =>
    cases h
    exact ⟨hlinking, by simp⟩
  | cons item changeset ih =>
    rw [List.foldlM_cons] at h
    obtain ⟨mid, hmid, h⟩ := bind_eq_ok.mp h
    obtain ⟨hkept, hlinked⟩ := collectLinks_linked hcreated hlinking hmid
    obtain ⟨hlast, hall⟩ := ih hkept h
    refine ⟨hlast, fun a b => ?_⟩
    rw [hall, hlinked, List.exists_mem_cons_iff, or_assoc]

theorem options_eq (h : (pyGet field "options").truthy = true ∨ (targetOf field).truthy = true) :
    pyGet field "options" = targetOf field := by
  cases hget : get (str "options") field with
  | some v => simp [pyGet, targetOf, getOr, hget]
  | none => simp [pyGet, targetOf, getOr, hget, Value.truthy] at h

theorem createdName_eq_some {opKey : String} : createdName opKey item = some name ↔
    isCreate opKey item = true ∧ ∃ data, asDict (dataOf item) = some data ∧ name = nameIn data ∧
      name.truthy = true ∧ hashable name = true := by
  rw [createdName]
  split
  · next hcreate =>
    simp only [hcreate, true_and, Option.bind_eq_some_iff]
    refine exists_congr fun data => and_congr_right fun _ => ?_
    constructor
    · intro h
      split at h
      · next hboth =>
        cases h
        simpa using hboth
      · cases h
    · rintro ⟨rfl, htruthy, hhash⟩
      simp [htruthy, hhash]
  · next hcreate => simp [hcreate]

/-- The state of the validator behind its first pass, where the names are distinct. -/
structure Noted (changeset : List Dict) (created : List (Value × Nat)) : Prop where
  hashed : Hashed created
  iff : ∀ k j, noted created k = some j ↔
    ∃ item name, changeset[j]? = some item ∧ createdName "operation" item = some name ∧ keyOf name = k

theorem noted_of_foldlM (h : changeset.zipIdx.foldlM collect [] = .ok created)
    (hdistinct : Distinct "operation" changeset) : Noted changeset created := by
  have hnames : Distinct "operation" (changeset.zipIdx.map Prod.fst) := by simpa using hdistinct
  obtain ⟨hhashed, hnoted⟩ := noted_foldlM (by simp [Hashed]) h hnames fun _ _ _ _ => rfl
  refine ⟨hhashed, fun k j => ?_⟩
  rw [hnoted]
  constructor
  · rintro (h | ⟨⟨item, _⟩, hmem, rfl, name, hname, hkey⟩)
    · cases h
    · exact ⟨item, name, List.mk_mem_zipIdx_iff_getElem?.mp hmem, hname, hkey⟩
  · rintro ⟨item, name, hitem, hname, hkey⟩
    exact .inr ⟨(item, j), List.mk_mem_zipIdx_iff_getElem?.mpr hitem, rfl, name, hname, hkey⟩

theorem linksTo_iff (hnoted : Noted changeset created) {i j : Nat} : LinksTo "operation" changeset i j ↔
    ∃ item, changeset[i]? = some item ∧ isCreate "operation" item = true ∧
      ∃ target ∈ linkTargets item, noted created (keyOf target) = some j := by
  constructor
  · rintro ⟨item, item', name, hitem, hcreate, hitem', hname, target, htarget, hkey⟩
    exact ⟨item, hitem, hcreate, target, htarget, (hnoted.iff _ _).mpr ⟨item', name, hitem', hname, hkey.symm⟩⟩
  · rintro ⟨item, hitem, hcreate, target, htarget, hj⟩
    obtain ⟨item', name, hitem', hname, hkey⟩ := (hnoted.iff _ _).mp hj
    exact ⟨item, item', name, hitem, hcreate, hitem', hname, target, htarget, hkey.symm⟩

theorem order_eq_nil (hnoted : Noted changeset created) {order : List (List Flaw)}
    (h : changeset.zipIdx.mapM (itemFlaws texts created) = .ok order) :
    order.flatten = [] ↔ ∀ i j, LinksTo "operation" changeset i j → ¬i < j := by
  rw [List.flatten_eq_nil_iff]
  constructor
  · intro hnil i j hlinks
    obtain ⟨item, hitem, hcreate, target, htarget, hj⟩ := (linksTo_iff hnoted).mp hlinks
    obtain ⟨y, hy, hflaws⟩ := mem_of_mapM_eq_ok h (List.mk_mem_zipIdx_iff_getElem?.mpr hitem)
    exact (itemFlaws_eq_nil hnoted.hashed hflaws).2.mp (hnil y hy) hcreate target htarget j hj
  · intro hahead y hy
    obtain ⟨⟨item, i⟩, hmem, hflaws⟩ := exists_of_mapM_eq_ok h hy
    refine (itemFlaws_eq_nil hnoted.hashed hflaws).2.mpr fun hcreate target htarget j hj => ?_
    have hitem := List.mk_mem_zipIdx_iff_getElem?.mp hmem
    exact hahead i j ((linksTo_iff hnoted).mpr ⟨item, hitem, hcreate, target, htarget, hj⟩)

theorem linksTo_of_pointsFrom (hnoted : Noted changeset created) (hitem : item ∈ changeset)
    (h : PointsFrom created item a b) (ha : (noted created a).isSome) :
    ∃ i j, noted created a = some i ∧ noted created b = some j ∧ LinksTo "operation" changeset i j := by
  obtain ⟨hcreate, data, hdata, rfl, field, hfield, hlink, rfl, hb⟩ := h
  obtain ⟨i', hi'⟩ := Option.isSome_iff_exists.mp ha
  obtain ⟨_, name, -, hname, hkey⟩ := (hnoted.iff _ _).mp hi'
  obtain ⟨-, -, -, -, htruthy, hhash⟩ := createdName_eq_some.mp hname
  obtain ⟨i, hi⟩ := List.mem_iff_getElem?.mp hitem
  obtain ⟨j, hj⟩ := Option.isSome_iff_exists.mp hb
  have hhashed := hashable_of_keyOf hhash hkey.symm
  have hown : createdName "operation" item = some (nameIn data) :=
    createdName_eq_some.mpr ⟨hcreate, data, hdata, rfl, (truthy_of_keyOf hhashed hhash hkey.symm).trans htruthy, hhashed⟩
  refine ⟨i, j, (hnoted.iff _ _).mpr ⟨item, _, hi, hown, rfl⟩, hj, ?_⟩
  obtain ⟨_, name', -, hname', hkey'⟩ := (hnoted.iff _ _).mp hj
  obtain ⟨-, -, -, -, htruthy', hhash'⟩ := createdName_eq_some.mp hname'
  have hoptions := hashable_of_keyOf hhash' hkey'.symm
  have heq := options_eq (.inl ((truthy_of_keyOf hoptions hhash' hkey'.symm).trans htruthy'))
  refine (linksTo_iff hnoted).mpr ⟨item, hi, hcreate, targetOf field, ?_, heq ▸ hj⟩
  exact (mem_linkTargets hdata).mpr ⟨field, hfield, hlink, rfl⟩

theorem pointsFrom_self (hnoted : Noted changeset created) {i : Nat} (h : LinksTo "operation" changeset i i)
    (hhashed : ∀ item, changeset[i]? = some item → isCreate "operation" item = true →
      ∀ target ∈ linkTargets item, hashable target = true) :
    ∃ item ∈ changeset, ∃ k, PointsFrom created item k k := by
  obtain ⟨item, item', name, hitem, hcreate, hitem', hname, target, htarget, hkey⟩ := h
  obtain rfl : item = item' := Option.some.inj (hitem.symm.trans hitem')
  obtain ⟨-, data, hdata, rfl, htruthy, hhash⟩ := createdName_eq_some.mp hname
  obtain ⟨field, hfield, hlink, rfl⟩ := (mem_linkTargets hdata).mp htarget
  have heq := options_eq (.inr ((truthy_of_keyOf (hhashed item hitem hcreate _ htarget) hhash hkey).trans htruthy))
  refine ⟨item, List.mem_of_getElem? hitem, _, hcreate, data, hdata, rfl, field, hfield, hlink, heq ▸ hkey, ?_⟩
  rw [(hnoted.iff _ _).mpr ⟨item, _, hitem, hname, rfl⟩]
  rfl

/-- On items that name their operation as the validator does, it holds those valid whose Links to
DocTypes of the changeset all point to earlier ones. A DocType with a Link to itself is refused. -/
theorem operation_valid_iff {report : Report} (h : validateChangesetOrder texts changeset = .ok report)
    (hdistinct : Distinct "operation" changeset) :
    report.valid = true ↔ ∀ i j, LinksTo "operation" changeset i j → j < i := by
  obtain ⟨created, hcreated, h⟩ := bind_eq_ok.mp h
  obtain ⟨order, horder, h⟩ := bind_eq_ok.mp h
  obtain ⟨links, hlinks, h⟩ := bind_eq_ok.mp h
  cases h
  have hnoted := noted_of_foldlM hcreated hdistinct
  have hempty : Linking [] := ⟨by simp, by simp⟩
  obtain ⟨hlinking, hlinked⟩ := foldlM_linked hnoted.hashed hempty hlinks
  have hpairs : ∀ a b, Linked links a b ↔ ∃ item ∈ changeset, PointsFrom created item a b := by
    intro a b
    rw [hlinked]
    exact or_iff_right (by simp [Linked])
  rw [Report.valid, List.isEmpty_iff, List.append_eq_nil_iff, order_eq_nil hnoted horder,
    circularFlaws_eq_nil hlinking]
  constructor
  · rintro ⟨hahead, hcircle⟩ i j hij
    refine lt_of_le_of_ne (Nat.le_of_not_lt (hahead i j hij)) ?_
    rintro rfl
    obtain ⟨item, hitem, k, hpoints⟩ := pointsFrom_self hnoted hij fun item hitem hcreate => by
      obtain ⟨y, -, hflaws⟩ := mem_of_mapM_eq_ok horder (List.mk_mem_zipIdx_iff_getElem?.mpr hitem)
      exact (itemFlaws_eq_nil hnoted.hashed hflaws).1 hcreate
    have hself := (hpairs k k).mpr ⟨item, hitem, hpoints⟩
    exact hcircle k k hself hself
  · intro hearlier
    refine ⟨fun i j hij => Nat.lt_asymm (hearlier i j hij), fun a b hab hba => ?_⟩
    obtain ⟨item, hitem, hpoints⟩ := (hpairs a b).mp hab
    obtain ⟨item', hitem', hpoints'⟩ := (hpairs b a).mp hba
    have hb : (noted created b).isSome := by
      obtain ⟨-, -, -, -, -, -, -, -, hb⟩ := hpoints
      exact hb
    have ha : (noted created a).isSome := by
      obtain ⟨-, -, -, -, -, -, -, -, ha⟩ := hpoints'
      exact ha
    obtain ⟨i, j, hi, hj, hij⟩ := linksTo_of_pointsFrom hnoted hitem hpoints ha
    obtain ⟨j', i', hj', hi', hji⟩ := linksTo_of_pointsFrom hnoted hitem' hpoints' hb
    obtain rfl : i = i' := Option.some.inj (hi.symm.trans hi')
    obtain rfl : j = j' := Option.some.inj (hj.symm.trans hj')
    exact Nat.lt_asymm (hearlier i j hij) (hearlier j i hji)

end Validity

section Normalised

variable {texts : Texts}

/-- An item of `_extract_changes` as the dictionary that it is. -/
def itemDict (item : ChangeItem) : Dict :=
  [(str "op", item.op), (str "doctype", item.doctype), (str "data", .dict item.data .none)]

/-- A normalised item has no operation under the name that the validator looks for. -/
theorem creates_itemDict (item : ChangeItem) : creates (itemDict item) = false := by
  have hoperation : pyGet (itemDict item) "operation" = .null := by
    simp only [pyGet, itemDict, get_cons, get_nil]
    rfl
  have hcompare : pyEq .null (.str (str "create")) = false := by decide
  rw [creates, hoperation, hcompare, Bool.and_false]

theorem validate_of_not_creates {changeset : List Dict} (h : ∀ item ∈ changeset, creates item = false) :
    validateChangesetOrder texts changeset = .ok ⟨[]⟩ := by
  have hpairs : ∀ x ∈ changeset.zipIdx, creates x.1 = false := by
    rintro ⟨item, i⟩ hmem
    exact h item (List.mem_of_getElem? (List.mk_mem_zipIdx_iff_getElem?.mp hmem))
  have hcollect : changeset.zipIdx.foldlM collect [] = .ok [] :=
    foldlM_eq_ok_self fun x hx => by rw [collect, hpairs x hx]; rfl
  have horder : changeset.zipIdx.mapM (itemFlaws texts []) = .ok (changeset.zipIdx.map fun _ => []) :=
    mapM_eq_ok_map fun x hx => by rw [itemFlaws, hpairs x hx]; rfl
  have hlinks : changeset.foldlM (collectLinks []) [] = .ok [] :=
    foldlM_eq_ok_self fun x hx => by rw [collectLinks, h x hx]; rfl
  have hnil : (changeset.zipIdx.map fun _ => ([] : List Flaw)).flatten = [] := by simp
  rw [validateChangesetOrder, hcollect]
  refine bind_eq_ok.mpr ⟨_, rfl, bind_eq_ok.mpr ⟨_, horder, bind_eq_ok.mpr ⟨_, hlinks, ?_⟩⟩⟩
  rw [hnil]
  rfl

/-- The validator calls a normalised changeset valid just when it is in order, exactly if no
DocType that it creates has a Link to one that it creates later: every normalised changeset is
valid to it. -/
theorem normalised_valid_iff (items : List ChangeItem) :
    (accepted (validateChangesetOrder texts (items.map itemDict)) = true ↔ Ordered "op" (items.map itemDict)) ↔
      ∀ i j, LinksTo "op" (items.map itemDict) i j → ¬i < j := by
  have hvalid : accepted (validateChangesetOrder texts (items.map itemDict)) = true := by
    rw [validate_of_not_creates fun item hitem => ?_]
    · rfl
    · obtain ⟨i, -, rfl⟩ := List.mem_map.mp hitem
      exact creates_itemDict i
  rw [iff_true_left hvalid, Ordered]
  refine forall₂_congr fun i j => forall_congr' fun _ => ?_
  omega

def docType (name : String) (fields : List Dict) : ChangeItem where
  op := .str (str "create")
  doctype := .str (str "DocType")
  data := [(str "name", .str (str name)), (str "fields", .list (fields.map fun f => .dict f .none))]

def linkField (target : String) : Dict :=
  [(str "fieldtype", .str (str "Link")), (str "options", .str (str target))]

/-- A book that has a Link to an author, who is created behind it. -/
def bookFirst : List ChangeItem := [docType "Book" [linkField "Author"], docType "Author" []]

theorem bookFirst_accepted : Distinct "op" (bookFirst.map itemDict) ∧
    ¬(accepted (validateChangesetOrder plainTexts (bookFirst.map itemDict)) = true ↔
      Ordered "op" (bookFirst.map itemDict)) := by
  refine ⟨by unfold Distinct; decide, fun hiff => ?_⟩
  have hvalid : accepted (validateChangesetOrder plainTexts (bookFirst.map itemDict)) = true := by decide
  have hlinks : LinksTo "op" (bookFirst.map itemDict) 0 1 :=
    ⟨_, _, .str (str "Author"), rfl, by decide, rfl, rfl, .str (str "Author"), .head _, rfl⟩
  exact absurd (hiff.mp hvalid 0 1 hlinks (by decide)) (by decide)

end Normalised

end AlfredProcessing.Tools.ChangesetOrder