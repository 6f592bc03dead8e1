import Mathlib.Data.List.Nodup
import Mathlib.Order.Interval.Set.Basic

namespace AlfredProcessing.Lib.Objects

/-- Values built from lists, tuples and dictionaries. -/
inductive Value (K A : Type*) where
  | leaf (a : A)
  | list (items : List (Value K A))
  | tuple (items : List (Value K A))
  | dict (entries : List (K × Value K A))

/-- What a variable holds: a leaf, or the address of a container. -/
inductive Ref (A : Type*) where
  | leaf (a : A)
  | object (address : Nat)

inductive Object (K A : Type*) where
  | list (items : List (Ref A))
  | tuple (items : List (Ref A))
  | dict (entries : List (K × Ref A))

/-- The containers made so far, each at its address. -/
abbrev Heap (K A : Type*) := List (Object K A)

variable {K A : Type*}

def alloc (heap : Heap K A) (object : Object K A) : Heap K A × Ref A :=
  (heap ++ [object], .object heap.length)

/-- `out[k] = v` on the entries of a dictionary. -/
def setEntry [DecidableEq K] (k : K) (v : Ref A) : List (K × Ref A) → List (K × Ref A)
  | [] => [(k, v)]
  | (k', v') :: entries => if k' = k then (k', v) :: entries else (k', v') :: setEntry k v entries

/-- `out[k] = v` for the dictionary at an address. -/
def setItem [DecidableEq K] (heap : Heap K A) (out : Nat) (k : K) (v : Ref A) : Heap K A :=
  heap.modify out fun
    | .dict entries => .dict (setEntry k v entries)
    | object => object

mutual

/-- The reference stands for the value, and its containers are at addresses in `S`. -/
inductive Reads (heap : Heap K A) (S : Set Nat) : Ref A → Value K A → Prop where
  | leaf (a : A) : Reads heap S (.leaf a) (.leaf a)
  | list {address : Nat} {rs : List (Ref A)} {vs : List (Value K A)} (hmem : address ∈ S)
      (hat : heap[address]? = some (.list rs)) (hitems : ReadsItems heap S rs vs) :
      Reads heap S (.object address) (.list vs)
  | tuple {address : Nat} {rs : List (Ref A)} {vs : List (Value K A)} (hmem : address ∈ S)
      (hat : heap[address]? = some (.tuple rs)) (hitems : ReadsItems heap S rs vs) :
      Reads heap S (.object address) (.tuple vs)
  | dict {address : Nat} {rs : List (K × Ref A)} {es : List (K × Value K A)} (hmem : address ∈ S)
      (hat : heap[address]? = some (.dict rs)) (hnodup : (rs.map Prod.fst).Nodup)
      (hentries : ReadsEntries heap S rs es) :
      Reads heap S (.object address) (.dict es)

inductive ReadsItems (heap : Heap K A) (S : Set Nat) : List (Ref A) → List (Value K A) → Prop where
  | nil : ReadsItems heap S [] []
  | cons {r : Ref A} {v : Value K A} {rs : List (Ref A)} {vs : List (Value K A)}
      (head : Reads heap S r v) (tail : ReadsItems heap S rs vs) :
      ReadsItems heap S (r :: rs) (v :: vs)

inductive ReadsEntries (heap : Heap K A) (S : Set Nat) :
    List (K × Ref A) → List (K × Value K A) → Prop where
  | nil : ReadsEntries heap S [] []
  | cons {k : K} {r : Ref A} {v : Value K A} {rs : List (K × Ref A)} {es : List (K × Value K A)}
      (head : Reads heap S r v) (tail : ReadsEntries heap S rs es) :
      ReadsEntries heap S ((k, r) :: rs) ((k, v) :: es)

end

section Frame

variable {heap heap' : Heap K A} {S S' : Set Nat}

mutual

theorem Reads.frame (hsub : S ⊆ S') (hsame : ∀ a ∈ S, heap'[a]? = heap[a]?) {r : Ref A} {v : Value K A} :
    Reads heap S r v → Reads heap' S' r v
  | .leaf a => .leaf a
  | .list hmem hat hitems => .list (hsub hmem) ((hsame _ hmem).trans hat) (hitems.frame hsub hsame)
  | .tuple hmem hat hitems => .tuple (hsub hmem) ((hsame _ hmem).trans hat) (hitems.frame hsub hsame)
  | .dict hmem hat hnodup hentries =>
    .dict (hsub hmem) ((hsame _ hmem).trans hat) hnodup (hentries.frame hsub hsame)

theorem ReadsItems.frame (hsub : S ⊆ S') (hsame : ∀ a ∈ S, heap'[a]? = heap[a]?)
    {rs : List (Ref A)} {vs : List (Value K A)} : ReadsItems heap S rs vs → ReadsItems heap' S' rs vs
  | .nil => .nil
  | .cons head tail => .cons (head.frame hsub hsame) (tail.frame hsub hsame)

theorem ReadsEntries.frame (hsub : S ⊆ S') (hsame : ∀ a ∈ S, heap'[a]? = heap[a]?)
    {rs : List (K × Ref A)} {es : List (K × Value K A)} :
    ReadsEntries heap S rs es → ReadsEntries heap' S' rs es
  | .nil => .nil
  | .cons head tail => .cons (head.frame hsub hsame) (tail.frame hsub hsame)

end

theorem ReadsItems.append {rs rs' : List (Ref A)} {vs vs' : List (Value K A)}
    (h : ReadsItems heap S rs vs) (h' : ReadsItems heap S rs' vs') :
    ReadsItems heap S (rs ++ rs') (vs ++ vs') := by
  induction rs generalizing vs with
  | nil =>
    cases h
    exact h'
  | cons r rs ih =>
    obtain _ | ⟨head, tail⟩ := h
    exact .cons head (ih tail)

theorem ReadsEntries.append {rs rs' : List (K × Ref A)} {es es' : List (K × Value K A)}
    (h : ReadsEntries heap S rs es) (h' : ReadsEntries heap S rs' es') :
    ReadsEntries heap S (rs ++ rs') (es ++ es') := by
  induction rs generalizing es with
  | nil =>
    cases h
    exact h'
  | cons r rs ih =>
    obtain _ | ⟨head, tail⟩ := h
    exact .cons head (ih tail)

end Frame

section Depth

mutual

def Value.depth : Value K A → Nat
  | .leaf _ => 0
  | .list vs => itemsDepth vs + 1
  | .tuple vs => itemsDepth vs + 1
  | .dict es => entriesDepth es + 1

def itemsDepth : List (Value K A) → Nat
  | [] => 0
  | v :: vs => max v.depth (itemsDepth vs)

def entriesDepth : List (K × Value K A) → Nat
  | [] => 0
  | (_, v) :: es => max v.depth (entriesDepth es)

end

end Depth

section Rebuild

variable {heap heap' : Heap K A} {S : Set Nat} {out : Nat}

/-- A step of a walk makes a new reference from an old one, or has no steps left. -/
abbrev Visit (K A : Type*) := Heap K A → Ref A → Option (Heap K A × Ref A)

/-- `[f(item) for item in items]`. -/
def mapItems (f : Visit K A) : Heap K A → List (Ref A) → Option (Heap K A × List (Ref A))
  | heap, [] => some (heap, [])
  | heap, r :: rs => do
    let (heap, r') ← f heap r
    let (heap, rs') ← mapItems f heap rs
    some (heap, r' :: rs')

/-- `[f(item) for item in items]` as a new container. -/
def rebuildItems (f : Visit K A) (wrap : List (Ref A) → Object K A) (heap : Heap K A) (rs : List (Ref A)) :
    Option (Heap K A × Ref A) :=
  (mapItems f heap rs).map fun (heap, rs') => alloc heap (wrap rs')

/-- On values less deep than `d` the walk leaves every container as it was, and makes the
image of the value under `g` out of new containers and parts of the old value. -/
def Rebuilds (f : Visit K A) (g : Value K A → Value K A) (d : Nat) : Prop :=
  ∀ (heap : Heap K A) (S : Set Nat) (r : Ref A) (v : Value K A), v.depth < d → Reads heap S r v →
    (∀ a ∈ S, a < heap.length) → ∃ heap' r', f heap r = some (heap', r') ∧ heap <+: heap' ∧
      Reads heap' (S ∪ Set.Ico heap.length heap'.length) r' (g v)

theorem getElem?_extended (h : heap <+: heap') {a : Nat} (ha : a < heap.length) : heap'[a]? = heap[a]? := by
  rw [List.prefix_iff_getElem?.mp h a ha, List.getElem?_eq_getElem ha]

theorem Reads.extend {r : Ref A} {v : Value K A} (h : Reads heap S r v) (hbound : ∀ a ∈ S, a < heap.length)
    (hext : heap <+: heap') {S' : Set Nat} (hsub : S ⊆ S') : Reads heap' S' r v :=
  h.frame hsub fun a ha => getElem?_extended hext (hbound a ha)

theorem ReadsItems.extend {rs : List (Ref A)} {vs : List (Value K A)} (h : ReadsItems heap S rs vs)
    (hbound : ∀ a ∈ S, a < heap.length) (hext : heap <+: heap') {S' : Set Nat} (hsub : S ⊆ S') :
    ReadsItems heap' S' rs vs :=
  h.frame hsub fun a ha => getElem?_extended hext (hbound a ha)

theorem Ico_subset {a b c d : Nat} (hac : c ≤ a) (hbd : b ≤ d) :
    S ∪ Set.Ico a b ⊆ S ∪ Set.Ico c d :=
  Set.union_subset_union_right S (Set.Ico_subset_Ico hac hbd)

theorem bound_union {n : Nat} (hbound : ∀ a ∈ S, a < heap.length) (hext : heap <+: heap') :
    ∀ a ∈ S ∪ Set.Ico n heap'.length, a < heap'.length := by
  rintro a (ha | ha)
  · exact (hbound a ha).trans_le hext.length_le
  · exact ha.2

theorem mapItems_rebuilds {f : Visit K A} {g : Value K A → Value K A} {d : Nat} (hf : Rebuilds f g d)
    {rs : List (Ref A)} {vs : List (Value K A)} (hdepth : itemsDepth vs < d)
    (hreads : ReadsItems heap S rs vs) (hbound : ∀ a ∈ S, a < heap.length) :
    ∃ heap' rs', mapItems f heap rs = some (heap', rs') ∧ heap <+: heap' ∧
      ReadsItems heap' (S ∪ Set.Ico heap.length heap'.length) rs' (vs.map g) := by
  induction rs generalizing heap vs with
  | nil =>
    cases hreads
    exact ⟨heap, [], rfl, List.prefix_rfl, .nil⟩
  | cons r rs ih =>
    obtain _ | ⟨head, tail⟩ := hreads
    rename_i v vs
    obtain ⟨hv, hvs⟩ := Nat.max_lt.mp hdepth
    obtain ⟨heap₁, r', hrun, hext, hread⟩ := hf heap S r v hv head hbound
    have htail : ReadsItems heap₁ S rs vs := tail.extend hbound hext subset_rfl
    have hbound₁ (a : Nat) (ha : a ∈ S) : a < heap₁.length := (hbound a ha).trans_le hext.length_le
    obtain ⟨heap₂, rs', hrun₂, hext₂, hreads₂⟩ := ih hvs htail hbound₁
    refine ⟨heap₂, r' :: rs', by simp [mapItems, hrun, hrun₂], hext.trans hext₂, .cons ?_ ?_⟩
    · exact hread.extend (bound_union hbound hext) hext₂ (Ico_subset le_rfl hext₂.length_le)
    · exact hreads₂.frame (Ico_subset hext.length_le le_rfl) fun _ _ => rfl

theorem rebuildItems_spec {f : Visit K A} {g : Value K A → Value K A} {d : Nat} (hf : Rebuilds f g d)
    (wrap : List (Ref A) → Object K A) {rs : List (Ref A)} {vs : List (Value K A)} (hdepth : itemsDepth vs < d)
    (hreads : ReadsItems heap S rs vs) (hbound : ∀ a ∈ S, a < heap.length) :
    ∃ heap' a rs', rebuildItems f wrap heap rs = some (heap', .object a) ∧ heap <+: heap' ∧
      a ∈ S ∪ Set.Ico heap.length heap'.length ∧ heap'[a]? = some (wrap rs') ∧
      ReadsItems heap' (S ∪ Set.Ico heap.length heap'.length) rs' (vs.map g) := by
  obtain ⟨heap₁, rs', hrun, hext, hreads'⟩ := mapItems_rebuilds hf hdepth hreads hbound
  have hwrap : heap₁ <+: heap₁ ++ [wrap rs'] := List.prefix_append heap₁ _
  refine ⟨heap₁ ++ [wrap rs'], heap₁.length, rs', by simp [rebuildItems, hrun, alloc], hext.trans hwrap, ?_,
    by simp, ?_⟩
  · exact .inr ⟨hext.length_le, by simp⟩
  · exact hreads'.extend (bound_union hbound hext) hwrap (Ico_subset le_rfl hwrap.length_le)

variable [DecidableEq K]

theorem setEntry_new {k : K} {v : Ref A} {entries : List (K × Ref A)} (h : k ∉ entries.map Prod.fst) :
    setEntry k v entries = entries ++ [(k, v)] := by
  induction entries with
  | nil => rfl
  | cons e entries ih =>
    obtain ⟨hne, hnot⟩ := not_or.mp (mt List.mem_cons.mpr h)
    simp [setEntry, Ne.symm hne, ih hnot]

@[simp] theorem length_setItem (heap : Heap K A) (out : Nat) (k : K) (v : Ref A) :
    (setItem heap out k v).length = heap.length := by
  simp [setItem]

theorem setItem_at {k : K} {v : Ref A} {entries : List (K × Ref A)} (h : heap[out]? = some (.dict entries)) :
    (setItem heap out k v)[out]? = some (.dict (setEntry k v entries)) := by
  simp [setItem, h]

theorem setItem_of_ne {k : K} {v : Ref A} {a : Nat} (h : a ≠ out) :
    (setItem heap out k v)[a]? = heap[a]? := by
  simp [setItem, Ne.symm h]

end Rebuild

end AlfredProcessing.Lib.Objects
