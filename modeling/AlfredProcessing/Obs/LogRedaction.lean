import AlfredProcessing.Lib.Objects

namespace AlfredProcessing.Obs.LogRedaction

open Lib.Objects

section Values

def sensitiveKeys : List String :=
  ["api_key", "api_secret_key", "llm_api_key", "llm_api_secret", "jwt_token", "token",
    "access_token", "refresh_token", "password", "passwd", "secret", "authorization", "bearer",
    "service_api_key", "admin_service_key"]

inductive Key (κ : Type*) where
  | str (s : String)
  | other (k : κ)
  deriving DecidableEq

inductive Scalar (α : Type*) where
  | none
  | str (s : String)
  | other (a : α)

variable {κ α : Type*}

/-- `_REDACTED`. -/
def redacted : Scalar α := .str "***REDACTED***"

/-- `v in ("", None)`. -/
def Scalar.blank : Scalar α → Bool
  | .none => true
  | .str s => s = ""
  | .other _ => false

def blank : Ref (Scalar α) → Bool
  | .leaf a => a.blank
  | .object _ => false

/-- What is stored in place of the value of a sensitive key. -/
def mask (r : Ref (Scalar α)) : Ref (Scalar α) := if blank r then r else .leaf redacted

variable (lower : String → String)

def sensitiveName (name : String) : Bool := sensitiveKeys.contains (lower name)

def sensitive : Key κ → Bool
  | .str s => sensitiveName lower s
  | .other _ => false

variable [DecidableEq κ]

/-- The loop of `_redact_dict`, which fills the new dictionary `out`. -/
def fillDict (f : Visit (Key κ) (Scalar α)) (out : Nat) : Heap (Key κ) (Scalar α) →
    List (Key κ × Ref (Scalar α)) → Option (Heap (Key κ) (Scalar α))
  | heap, [] => some heap
  | heap, (k, v) :: rest =>
    if sensitive lower k then fillDict f out (setItem heap out k (mask v)) rest
    else do
      let (heap, v') ← f heap v
      fillDict f out (setItem heap out k v') rest

/-- `_redact_dict`, where `f` is `_redact_value`. -/
def redactDict (f : Visit (Key κ) (Scalar α)) (heap : Heap (Key κ) (Scalar α))
    (d : List (Key κ × Ref (Scalar α))) : Option (Heap (Key κ) (Scalar α) × Ref (Scalar α)) := do
  let (heap, out) := (heap ++ [.dict []], heap.length)
  let heap ← fillDict lower f out heap d
  some (heap, .object out)

/-- `_redact_value`, down to a depth. -/
def redactValue : Nat → Visit (Key κ) (Scalar α)
  | 0, _, _ => none
  | _ + 1, heap, .leaf a => some (heap, .leaf a)
  | depth + 1, heap, .object address =>
    match heap[address]? with
    | some (.dict d) => redactDict lower (redactValue depth) heap d
    | some (.list items) => rebuildItems (redactValue depth) .list heap items
    | some (.tuple items) => rebuildItems (redactValue depth) .tuple heap items
    | none => none

end Values

section Meaning

variable {κ α : Type*} (lower : String → String)

def blankValue : Value (Key κ) (Scalar α) → Bool
  | .leaf a => a.blank
  | _ => false

def masked (v : Value (Key κ) (Scalar α)) : Value (Key κ) (Scalar α) :=
  if blankValue v then v else .leaf redacted

mutual

def redact : Value (Key κ) (Scalar α) → Value (Key κ) (Scalar α)
  | .leaf a => .leaf a
  | .list items => .list (redactItems items)
  | .tuple items => .tuple (redactItems items)
  | .dict d => .dict (redactEntries d)

def redactItems : List (Value (Key κ) (Scalar α)) → List (Value (Key κ) (Scalar α))
  | [] => []
  | v :: vs => redact v :: redactItems vs

def redactEntries : List (Key κ × Value (Key κ) (Scalar α)) → List (Key κ × Value (Key κ) (Scalar α))
  | [] => []
  | (k, v) :: d => (k, if sensitive lower k then masked v else redact v) :: redactEntries d

end

theorem redactItems_eq_map (vs : List (Value (Key κ) (Scalar α))) :
    redactItems lower vs = vs.map (redact lower) := by
  induction vs with
  | nil => rfl
  | cons v vs ih => rw [redactItems, List.map_cons, ih]

end Meaning

section Refinement

variable {κ α : Type*} {heap heap' start : Heap (Key κ) (Scalar α)} {S : Set Nat} {out : Nat}
  {r : Ref (Scalar α)} {v : Value (Key κ) (Scalar α)}

theorem blank_reads (h : Reads heap S r v) : blank r = blankValue v := by
  cases h <;> rfl

theorem mask_reads (h : Reads heap S r v) : Reads heap S (mask r) (masked v) := by
  rw [mask, masked, blank_reads h]
  split
  · exact h
  · exact .leaf redacted

/-- The dictionary under construction is at `out`, and no part of a value leads to it. -/
structure Filling (start heap : Heap (Key κ) (Scalar α)) (S : Set Nat) (out : Nat)
    (done : List (Key κ × Ref (Scalar α))) (es : List (Key κ × Value (Key κ) (Scalar α))) : Prop where
  below : ∀ a ∈ S, a < out
  length : out < heap.length
  before : ∀ a < out, heap[a]? = start[a]?
  here : heap[out]? = some (.dict done)
  reads : ReadsEntries heap (S ∪ Set.Ico (out + 1) heap.length) done es

variable {done : List (Key κ × Ref (Scalar α))} {es : List (Key κ × Value (Key κ) (Scalar α))}

theorem Filling.bound (h : Filling start heap S out done es) (a : Nat) (ha : a ∈ S) : a < heap.length :=
  (h.below a ha).trans h.length

theorem Filling.extend (h : Filling start heap S out done es) (hext : heap <+: heap') :
    Filling start heap' S out done es where
  below := h.below
  length := h.length.trans_le hext.length_le
  before a ha := (getElem?_extended hext (ha.trans h.length)).trans (h.before a ha)
  here := (getElem?_extended hext h.length).trans h.here
  reads := by
    refine h.reads.frame (Ico_subset le_rfl hext.length_le) fun a ha => ?_
    exact getElem?_extended hext (bound_union h.bound List.prefix_rfl a ha)

variable [DecidableEq κ]

theorem Filling.set {k : Key κ} (h : Filling start heap S out done es) (hk : k ∉ done.map Prod.fst)
    (hr : Reads heap (S ∪ Set.Ico (out + 1) heap.length) r v) :
    Filling start (setItem heap out k r) S out (done ++ [(k, r)]) (es ++ [(k, v)]) where
  below := h.below
  length := h.length.trans_eq (length_setItem heap out k r).symm
  before a ha := (setItem_of_ne (Nat.ne_of_lt ha)).trans (h.before a ha)
  here := by rw [setItem_at h.here, setEntry_new hk]
  reads := by
    rw [length_setItem]
    refine (h.reads.append (.cons hr .nil)).frame subset_rfl fun a ha => setItem_of_ne ?_
    obtain ha | ha := ha
    · exact Nat.ne_of_lt (h.below a ha)
    · exact Nat.ne_of_gt ha.1

variable (lower : String → String) {f : Visit (Key κ) (Scalar α)} {d : Nat}

theorem fillDict_spec (hf : Rebuilds f (redact lower) d) {rest : List (Key κ × Ref (Scalar α))}
    {left : List (Key κ × Value (Key κ) (Scalar α))} (hdepth : entriesDepth left < d)
    (hnodup : ((done ++ rest).map Prod.fst).Nodup) (hrest : ReadsEntries heap S rest left)
    (h : Filling start heap S out done es) :
    ∃ heap' rest', fillDict lower f out heap rest = some heap' ∧ rest'.map Prod.fst = rest.map Prod.fst ∧
      Filling start heap' S out (done ++ rest') (es ++ redactEntries lower left) := by
  induction rest generalizing heap done es left with
  | nil =>
    cases hrest
    exact ⟨heap, [], rfl, rfl, by simpa [redactEntries] using h⟩
  | cons entry rest ih =>
    obtain _ | ⟨head, tail⟩ := hrest
    rename_i k r v left
    obtain ⟨hv, hleft⟩ := Nat.max_lt.mp hdepth
    have hk : k ∉ done.map Prod.fst := fun hmem => by
      rw [List.map_append, List.map_cons, List.nodup_append] at hnodup
      exact hnodup.2.2 k hmem k List.mem_cons_self rfl
    have hnodup' (r' : Ref (Scalar α)) : (((done ++ [(k, r')]) ++ rest).map Prod.fst).Nodup := by
      simpa using hnodup
    by_cases hs : sensitive lower k = true
    · have hmask : Reads heap (S ∪ Set.Ico (out + 1) heap.length) (mask r) (masked v) :=
        (mask_reads head).frame Set.subset_union_left fun _ _ => rfl
      have hset := h.set hk hmask
      have htail : ReadsEntries (setItem heap out k (mask r)) S rest left :=
        tail.frame subset_rfl fun a ha => setItem_of_ne (Nat.ne_of_lt (h.below a ha))
      obtain ⟨heap', rest', hrun, hkeys, hfill⟩ := ih hleft (hnodup' (mask r)) htail hset
      refine ⟨heap', (k, mask r) :: rest', by simp [fillDict, hs, hrun], by simp [hkeys], ?_⟩
      simpa [redactEntries, hs] using hfill
    · obtain ⟨heap₁, r', hrun, hext, hread⟩ := hf heap S r v hv head h.bound
      have hvalue : Reads heap₁ (S ∪ Set.Ico (out + 1) heap₁.length) r' (redact lower v) :=
        hread.frame (Ico_subset h.length le_rfl) fun _ _ => rfl
      have hset := (h.extend hext).set hk hvalue
      have htail : ReadsEntries (setItem heap₁ out k r') S rest left :=
        tail.frame subset_rfl fun a ha => (setItem_of_ne (Nat.ne_of_lt (h.below a ha))).trans
          (getElem?_extended hext (h.bound a ha))
      obtain ⟨heap', rest', hrun', hkeys, hfill⟩ := ih hleft (hnodup' r') htail hset
      refine ⟨heap', (k, r') :: rest', by simp [fillDict, hs, hrun, hrun'], by simp [hkeys], ?_⟩
      simpa [redactEntries, hs] using hfill

theorem redactDict_spec (hf : Rebuilds f (redact lower) d) {rs : List (Key κ × Ref (Scalar α))}
    (hdepth : entriesDepth es < d) (hnodup : (rs.map Prod.fst).Nodup) (hreads : ReadsEntries heap S rs es)
    (hbound : ∀ a ∈ S, a < heap.length) :
    ∃ heap' r', redactDict lower f heap rs = some (heap', r') ∧ heap <+: heap' ∧
      Reads heap' (S ∪ Set.Ico heap.length heap'.length) r' (.dict (redactEntries lower es)) := by
  have hext : heap <+: heap ++ [.dict []] := List.prefix_append heap _
  have hfilling : Filling heap (heap ++ [.dict []]) S heap.length ([] : List (Key κ × Ref (Scalar α))) [] :=
    { below := hbound
      length := by simp
      before := fun a ha => getElem?_extended hext ha
      here := by simp
      reads := .nil }
  have hstart : ReadsEntries (heap ++ [.dict []]) S rs es :=
    hreads.frame subset_rfl fun a ha => getElem?_extended hext (hbound a ha)
  obtain ⟨heap', rs', hrun, hkeys, hfill⟩ := fillDict_spec lower hf hdepth (by simpa using hnodup) hstart hfilling
  refine ⟨heap', .object heap.length, by simp [redactDict, hrun], ?_, ?_⟩
  · exact List.prefix_iff_getElem?.mpr fun a ha =>
      (hfill.before a ha).trans (List.getElem?_eq_getElem ha)
  · refine .dict (.inr ⟨le_rfl, hfill.length⟩) hfill.here ?_ ?_
    · simpa [hkeys] using hnodup
    · exact hfill.reads.frame (Ico_subset (Nat.le_succ _) le_rfl) fun _ _ => rfl

/-- The walk ends, writes into no container that was there, and makes the value without
its secrets. -/
theorem redactValue_rebuilds (depth : Nat) :
    Rebuilds (redactValue lower depth : Visit (Key κ) (Scalar α)) (redact lower) depth := by
  induction depth with
  | zero => exact fun heap S r v hdepth => absurd hdepth (Nat.not_lt_zero _)
  | succ depth ih =>
    intro heap S r v hdepth hreads hbound
    cases hreads with
    | leaf a => exact ⟨heap, .leaf a, rfl, List.prefix_rfl, .leaf a⟩
    | dict hmem hat hnodup hentries =>
      have hless := Nat.lt_of_succ_lt_succ hdepth
      obtain ⟨heap', r', hrun, hspec⟩ := redactDict_spec lower ih hless hnodup hentries hbound
      exact ⟨heap', r', by simp [redactValue, hat, hrun], by simpa [redact] using hspec⟩
    | list hmem hat hitems =>
      have hless := Nat.lt_of_succ_lt_succ hdepth
      obtain ⟨heap', a, rs', hrun, hext, hmem', hat', hitems'⟩ := rebuildItems_spec ih .list hless hitems hbound
      refine ⟨heap', .object a, by simp [redactValue, hat, hrun], hext, ?_⟩
      rw [redact, redactItems_eq_map]
      exact .list hmem' hat' hitems'
    | tuple hmem hat hitems =>
      have hless := Nat.lt_of_succ_lt_succ hdepth
      obtain ⟨heap', a, rs', hrun, hext, hmem', hat', hitems'⟩ := rebuildItems_spec ih .tuple hless hitems hbound
      refine ⟨heap', .object a, by simp [redactValue, hat, hrun], hext, ?_⟩
      rw [redact, redactItems_eq_map]
      exact .tuple hmem' hat' hitems'

end Refinement

section Secrets

variable {κ α : Type*} (lower : String → String)

/-- Both values are hidden, or there is nothing to hide and they are the same. -/
def AlikeSecrets (v v' : Value (Key κ) (Scalar α)) : Prop :=
  v = v' ∨ (blankValue v = false ∧ blankValue v' = false)

mutual

def Alike : Value (Key κ) (Scalar α) → Value (Key κ) (Scalar α) → Prop
  | .leaf a, .leaf a' => a = a'
  | .list vs, .list vs' => AlikeItems vs vs'
  | .tuple vs, .tuple vs' => AlikeItems vs vs'
  | .dict d, .dict d' => AlikeEntries d d'
  | _, _ => False

def AlikeItems : List (Value (Key κ) (Scalar α)) → List (Value (Key κ) (Scalar α)) → Prop
  | [], [] => True
  | v :: vs, v' :: vs' => Alike v v' ∧ AlikeItems vs vs'
  | _, _ => False

def AlikeEntries : List (Key κ × Value (Key κ) (Scalar α)) → List (Key κ × Value (Key κ) (Scalar α)) → Prop
  | [], [] => True
  | (k, v) :: d, (k', v') :: d' =>
    k = k' ∧ (if sensitive lower k then AlikeSecrets v v' else Alike v v') ∧ AlikeEntries d d'
  | _, _ => False

end

theorem blankValue_redacted : blankValue (.leaf redacted : Value (Key κ) (Scalar α)) = false := by
  change decide ("***REDACTED***" = "") = false
  decide

theorem masked_eq_iff {v v' : Value (Key κ) (Scalar α)} : masked v = masked v' ↔ AlikeSecrets v v' := by
  have hne {w : Value (Key κ) (Scalar α)} (hw : blankValue w = true) : w ≠ .leaf redacted := fun h => by
    rw [h, blankValue_redacted] at hw
    cases hw
  unfold masked AlikeSecrets
  cases hv : blankValue v <;> cases hv' : blankValue v'
  · simp
  · simpa [(hne hv').symm] using fun h : v = v' => by simp [h, hv'] at hv
  · simpa [hne hv] using fun h : v = v' => by simp [h, hv'] at hv
  · simp

mutual

/-- Redaction keeps values apart that differ in more than secrets, and no others. -/
theorem redact_eq_iff : ∀ v v' : Value (Key κ) (Scalar α), redact lower v = redact lower v' ↔ Alike lower v v'
  | .leaf a, .leaf a' => by simp [redact, Alike]
  | .list vs, .list vs' => by simp [redact, Alike, redactItems_eq_iff vs vs']
  | .tuple vs, .tuple vs' => by simp [redact, Alike, redactItems_eq_iff vs vs']
  | .dict d, .dict d' => by simp [redact, Alike, redactEntries_eq_iff d d']
  | .leaf _, .list _ | .leaf _, .tuple _ | .leaf _, .dict _ | .list _, .leaf _ | .list _, .tuple _
  | .list _, .dict _ | .tuple _, .leaf _ | .tuple _, .list _ | .tuple _, .dict _ | .dict _, .leaf _
  | .dict _, .list _ | .dict _, .tuple _ => by simp [redact, Alike]

theorem redactItems_eq_iff : ∀ vs vs' : List (Value (Key κ) (Scalar α)),
    redactItems lower vs = redactItems lower vs' ↔ AlikeItems lower vs vs'
  | [], [] => by simp [redactItems, AlikeItems]
  | [], v' :: vs' => by simp [redactItems, AlikeItems]
  | v :: vs, [] => by simp [redactItems, AlikeItems]
  | v :: vs, v' :: vs' => by
    simp [redactItems, AlikeItems, redact_eq_iff v v', redactItems_eq_iff vs vs']

theorem redactEntries_eq_iff : ∀ d d' : List (Key κ × Value (Key κ) (Scalar α)),
    redactEntries lower d = redactEntries lower d' ↔ AlikeEntries lower d d'
  | [], [] => by simp [redactEntries, AlikeEntries]
  | [], e' :: d' => by simp [redactEntries, AlikeEntries]
  | e :: d, [] => by simp [redactEntries, AlikeEntries]
  | (k, v) :: d, (k', v') :: d' => by
    have hv := redact_eq_iff v v'
    have hd := redactEntries_eq_iff d d'
    simp only [redactEntries, AlikeEntries, List.cons.injEq, Prod.mk.injEq, hd, and_assoc]
    refine and_congr_right ?_
    rintro rfl
    refine and_congr_left' ?_
    by_cases hs : sensitive lower k = true
    · simp only [hs, if_true]
      exact masked_eq_iff
    · simp only [hs]
      exact hv

end

theorem masked_masked (v : Value (Key κ) (Scalar α)) : masked (masked v) = masked v := by
  refine masked_eq_iff.mpr ?_
  cases hv : blankValue v with
  | true => exact .inl (by rw [masked, if_pos hv])
  | false => exact .inr ⟨by simp [masked, hv, blankValue_redacted], hv⟩

mutual

theorem redact_redact : ∀ v : Value (Key κ) (Scalar α), redact lower (redact lower v) = redact lower v
  | .leaf _ => rfl
  | .list vs => congrArg Value.list (redactItems_redactItems vs)
  | .tuple vs => congrArg Value.tuple (redactItems_redactItems vs)
  | .dict d => congrArg Value.dict (redactEntries_redactEntries d)

theorem redactItems_redactItems : ∀ vs : List (Value (Key κ) (Scalar α)),
    redactItems lower (redactItems lower vs) = redactItems lower vs
  | [] => rfl
  | v :: vs => by rw [redactItems, redactItems, redact_redact v, redactItems_redactItems vs]

theorem redactEntries_redactEntries : ∀ d : List (Key κ × Value (Key κ) (Scalar α)),
    redactEntries lower (redactEntries lower d) = redactEntries lower d
  | [] => rfl
  | (k, v) :: d => by
    rw [redactEntries, redactEntries, redactEntries_redactEntries d]
    by_cases hs : sensitive lower k = true
    · simp only [hs, if_true, masked_masked]
    · rw [if_neg hs, if_neg hs, redact_redact v]

end

end Secrets

section Paths

variable {κ α : Type*}

theorem redact_eq_leaf_iff (lower : String → String) {v : Value (Key κ) (Scalar α)} {a : Scalar α} :
    redact lower v = .leaf a ↔ v = .leaf a := by
  cases v <;> simp [redact]

inductive Step (κ : Type*) where
  | item (i : Nat)
  | key (k : Key κ)

def Step.open (lower : String → String) : Step κ → Bool
  | .item _ => true
  | .key k => !sensitive lower k

variable [DecidableEq κ]

def getEntry (k : Key κ) : List (Key κ × Value (Key κ) (Scalar α)) → Option (Value (Key κ) (Scalar α))
  | [] => none
  | (k', v) :: d => if k' = k then some v else getEntry k d

def Step.child : Step κ → Value (Key κ) (Scalar α) → Option (Value (Key κ) (Scalar α))
  | .item i, .list vs => vs[i]?
  | .item i, .tuple vs => vs[i]?
  | .key k, .dict d => getEntry k d
  | _, _ => none

def follow : List (Step κ) → Value (Key κ) (Scalar α) → Option (Value (Key κ) (Scalar α))
  | [], v => some v
  | step :: path, v => (step.child v).bind (follow path)

variable (lower : String → String)

theorem getEntry_redactEntries {k : Key κ} (hk : sensitive lower k = false) (d : List (Key κ × Value (Key κ) (Scalar α))) :
    getEntry k (redactEntries lower d) = (getEntry k d).map (redact lower) := by
  induction d with
  | nil => rfl
  | cons e d ih =>
    obtain ⟨k', v⟩ := e
    by_cases h : k' = k
    · subst h
      simp [redactEntries, getEntry, hk]
    · simp [redactEntries, getEntry, h, ih]

theorem child_redact {step : Step κ} (h : step.open lower = true) (v : Value (Key κ) (Scalar α)) :
    step.child (redact lower v) = (step.child v).map (redact lower) := by
  cases step with
  | item i => cases v <;> simp [Step.child, redact, redactItems_eq_map]
  | key k =>
    rw [Step.open, Bool.not_eq_true'] at h
    cases v with
    | dict d => exact getEntry_redactEntries lower h d
    | _ => rfl

theorem follow_redact {path : List (Step κ)} (h : ∀ step ∈ path, step.open lower = true)
    (v : Value (Key κ) (Scalar α)) :
    follow path (redact lower v) = (follow path v).map (redact lower) := by
  induction path generalizing v with
  | nil => rfl
  | cons step path ih =>
    obtain ⟨hstep, hpath⟩ := List.forall_mem_cons.mp h
    rw [follow, follow, child_redact lower hstep]
    cases step.child v with
    | none => rfl
    | some w => exact ih hpath w

theorem follow_redact_leaf {path : List (Step κ)} (h : ∀ step ∈ path, step.open lower = true)
    (v : Value (Key κ) (Scalar α)) (a : Scalar α) :
    follow path (redact lower v) = some (.leaf a) ↔ follow path v = some (.leaf a) := by
  rw [follow_redact lower h, Option.map_eq_some_iff]
  simp [redact_eq_leaf_iff]

end Paths

section Records

variable {κ α : Type*}

/-- The attributes that `logging` sets itself. -/
def logRecordBuiltins : List String :=
  ["name", "msg", "args", "levelname", "levelno", "pathname", "filename", "module", "exc_info",
    "exc_text", "stack_info", "lineno", "funcName", "created", "msecs", "relativeCreated", "thread",
    "threadName", "processName", "process", "message", "asctime", "taskName"]

/-- A `LogRecord`, with the rest of its `__dict__`. -/
structure Record (α : Type*) where
  msg : Ref (Scalar α)
  args : Ref (Scalar α)
  attrs : List (String × Ref (Scalar α))

def skipped (key : String) : Bool :=
  logRecordBuiltins.contains key || key.toList.head? = some '_'

variable (lower : String → String) [DecidableEq κ] (depth : Nat)

/-- One turn of the loop of `_redact_record_extras`. -/
def redactExtra (key : String) : Visit (Key κ) (Scalar α)
  | heap, val =>
    if skipped key then some (heap, val)
    else if sensitiveName lower key then some (heap, mask val)
    else
      match val with
      | .leaf a => some (heap, .leaf a)
      | .object address => redactValue lower depth heap (.object address)

def redactRecordExtras : Heap (Key κ) (Scalar α) → List (String × Ref (Scalar α)) →
    Option (Heap (Key κ) (Scalar α) × List (String × Ref (Scalar α)))
  | heap, [] => some (heap, [])
  | heap, (key, val) :: rest => do
    let (heap, val') ← redactExtra lower depth key heap val
    let (heap, rest') ← redactRecordExtras heap rest
    some (heap, (key, val') :: rest')

def redactMsg : Visit (Key κ) (Scalar α)
  | heap, .leaf a => some (heap, .leaf a)
  | heap, .object address =>
    match heap[address]? with
    | some (.dict d) => redactDict lower (redactValue lower depth) heap d
    | _ => some (heap, .object address)

def redactArgs : Visit (Key κ) (Scalar α)
  | heap, .leaf a => some (heap, .leaf a)
  | heap, .object address =>
    match heap[address]? with
    | some (.dict d) =>
      if d.isEmpty then some (heap, .object address)
      else redactDict lower (redactValue lower depth) heap d
    | some (.tuple items) =>
      if items.isEmpty then some (heap, .object address)
      else rebuildItems (redactValue lower depth) .tuple heap items
    | _ => some (heap, .object address)

/-- The first two stages of `RedactingFormatter.format`, which replace attributes of the
record. -/
def format (heap : Heap (Key κ) (Scalar α)) (record : Record α) :
    Option (Heap (Key κ) (Scalar α) × Record α) := do
  let (heap, msg) ← redactMsg lower depth heap record.msg
  let (heap, args) ← redactArgs lower depth heap record.args
  let (heap, attrs) ← redactRecordExtras lower depth heap record.attrs
  some (heap, ⟨msg, args, attrs⟩)

structure RecordValue (κ α : Type*) where
  msg : Value (Key κ) (Scalar α)
  args : Value (Key κ) (Scalar α)
  attrs : List (String × Value (Key κ) (Scalar α))

structure RecordReads (heap : Heap (Key κ) (Scalar α)) (S : Set Nat) (record : Record α) (v : RecordValue κ α) :
    Prop where
  msg : Reads heap S record.msg v.msg
  args : Reads heap S record.args v.args
  attrs : List.Forall₂ (fun x y => x.1 = y.1 ∧ Reads heap S x.2 y.2) record.attrs v.attrs

def RecordValue.Fits (depth : Nat) (v : RecordValue κ α) : Prop :=
  v.msg.depth < depth ∧ v.args.depth < depth ∧ ∀ e ∈ v.attrs, e.2.depth < depth

def msgValue : Value (Key κ) (Scalar α) → Value (Key κ) (Scalar α)
  | .dict d => redact lower (.dict d)
  | v => v

def argsValue : Value (Key κ) (Scalar α) → Value (Key κ) (Scalar α)
  | .list items => .list items
  | v => redact lower v

def extraValue (key : String) (v : Value (Key κ) (Scalar α)) : Value (Key κ) (Scalar α) :=
  if skipped key then v
  else if sensitiveName lower key then masked v
  else redact lower v

def formatted (v : RecordValue κ α) : RecordValue κ α where
  msg := msgValue lower v.msg
  args := argsValue lower v.args
  attrs := v.attrs.map fun (key, val) => (key, extraValue lower key val)

end Records

section Format

variable {κ α : Type*} {heap : Heap (Key κ) (Scalar α)} {S : Set Nat}

theorem rebuilds_same (v : Value (Key κ) (Scalar α)) {r : Ref (Scalar α)} (h : Reads heap S r v) :
    ∃ heap' r', some (heap, r) = some (heap', r') ∧ heap <+: heap' ∧
      Reads heap' (S ∪ Set.Ico heap.length heap'.length) r' v :=
  ⟨heap, r, rfl, List.prefix_rfl, h.frame Set.subset_union_left fun _ _ => rfl⟩

variable [DecidableEq κ] (lower : String → String) {depth : Nat}

theorem redactMsg_rebuilds :
    Rebuilds (redactMsg lower depth : Visit (Key κ) (Scalar α)) (msgValue lower) depth := by
  intro heap S r v hdepth hreads hbound
  cases hreads with
  | leaf a => exact rebuilds_same _ (.leaf a)
  | dict hmem hat hnodup hentries =>
    have hless := Nat.lt_of_succ_lt hdepth
    obtain ⟨heap', r', hrun, hspec⟩ :=
      redactDict_spec lower (redactValue_rebuilds lower depth) hless hnodup hentries hbound
    exact ⟨heap', r', by simp [redactMsg, hat, hrun], by simpa [msgValue, redact] using hspec⟩
  | list hmem hat hitems =>
    rw [redactMsg, hat]
    exact rebuilds_same _ (.list hmem hat hitems)
  | tuple hmem hat hitems =>
    rw [redactMsg, hat]
    exact rebuilds_same _ (.tuple hmem hat hitems)

theorem redactArgs_rebuilds :
    Rebuilds (redactArgs lower depth : Visit (Key κ) (Scalar α)) (argsValue lower) depth := by
  intro heap S r v hdepth hreads hbound
  cases hreads with
  | leaf a => exact rebuilds_same _ (.leaf a)
  | @dict address rs es hmem hat hnodup hentries =>
    cases rs with
    | nil =>
      cases hentries
      rw [redactArgs, hat]
      exact rebuilds_same _ (.dict hmem hat hnodup .nil)
    | cons e rs =>
      have hless := Nat.lt_of_succ_lt hdepth
      obtain ⟨heap', r', hrun, hspec⟩ :=
        redactDict_spec lower (redactValue_rebuilds lower depth) hless hnodup hentries hbound
      exact ⟨heap', r', by simp [redactArgs, hat, hrun], by simpa [argsValue, redact] using hspec⟩
  | list hmem hat hitems =>
    rw [redactArgs, hat]
    exact rebuilds_same _ (.list hmem hat hitems)
  | @tuple address rs vs hmem hat hitems =>
    cases rs with
    | nil =>
      cases hitems
      rw [redactArgs, hat]
      exact rebuilds_same _ (.tuple hmem hat .nil)
    | cons r rs =>
      have hless := Nat.lt_of_succ_lt hdepth
      obtain ⟨heap', a, rs', hrun, hext, hmem', hat', hitems'⟩ :=
        rebuildItems_spec (redactValue_rebuilds lower depth) .tuple hless hitems hbound
      refine ⟨heap', .object a, by simp [redactArgs, hat, hrun], hext, ?_⟩
      rw [argsValue, redact, redactItems_eq_map]
      · exact .tuple hmem' hat' hitems'
      · exact fun items h => by cases h

theorem redactExtra_rebuilds (key : String) :
    Rebuilds (redactExtra lower depth key : Visit (Key κ) (Scalar α)) (extraValue lower key) depth := by
  intro heap S r v hdepth hreads hbound
  unfold redactExtra extraValue
  split_ifs with hskipped hsensitive
  · exact rebuilds_same v hreads
  · exact rebuilds_same (masked v) (mask_reads hreads)
  · cases r with
    | leaf a =>
      cases hreads
      exact rebuilds_same _ (.leaf a)
    | object address => exact redactValue_rebuilds lower depth heap S _ v hdepth hreads hbound

theorem redactRecordExtras_spec {attrs : List (String × Ref (Scalar α))}
    {vs : List (String × Value (Key κ) (Scalar α))} (hdepth : ∀ e ∈ vs, e.2.depth < depth)
    (hreads : List.Forall₂ (fun x y => x.1 = y.1 ∧ Reads heap S x.2 y.2) attrs vs)
    (hbound : ∀ a ∈ S, a < heap.length) :
    ∃ heap' attrs', redactRecordExtras lower depth heap attrs = some (heap', attrs') ∧ heap <+: heap' ∧
      List.Forall₂ (fun x y => x.1 = y.1 ∧ Reads heap' (S ∪ Set.Ico heap.length heap'.length) x.2 y.2) attrs'
        (vs.map fun (key, val) => (key, extraValue lower key val)) := by
  induction attrs generalizing heap vs with
  | nil =>
    cases hreads
    exact ⟨heap, [], rfl, List.prefix_rfl, .nil⟩
  | cons attr attrs ih =>
    obtain _ | ⟨head, tail⟩ := hreads
    rename_i value vs
    obtain ⟨key, r⟩ := attr
    obtain ⟨key', v⟩ := value
    obtain ⟨rfl, head⟩ : key = key' ∧ Reads heap S r v := head
    obtain ⟨hv, hvs⟩ := List.forall_mem_cons.mp hdepth
    obtain ⟨heap₁, r', hrun, hext, hread⟩ := redactExtra_rebuilds lower key heap S r v hv head hbound
    have htail : List.Forall₂ (fun x y => x.1 = y.1 ∧ Reads heap₁ S x.2 y.2) attrs vs :=
      tail.imp fun x y h => ⟨h.1, h.2.extend hbound hext subset_rfl⟩
    obtain ⟨heap₂, attrs', hrun₂, hext₂, hreads₂⟩ :=
      ih hvs htail fun a ha => (hbound a ha).trans_le hext.length_le
    refine ⟨heap₂, (key, r') :: attrs', by simp [redactRecordExtras, hrun, hrun₂], hext.trans hext₂, .cons ?_ ?_⟩
    · exact ⟨rfl, hread.extend (bound_union hbound hext) hext₂ (Ico_subset le_rfl hext₂.length_le)⟩
    · exact hreads₂.imp fun x y h =>
        ⟨h.1, h.2.frame (Ico_subset hext.length_le le_rfl) fun _ _ => rfl⟩

/-- Formatting a record ends, writes into no container that was there, and leaves the
attributes without their secrets. -/
theorem format_spec {record : Record α} {v : RecordValue κ α} (hfits : v.Fits depth)
    (hreads : RecordReads heap S record v) (hbound : ∀ a ∈ S, a < heap.length) :
    ∃ heap' record', format lower depth heap record = some (heap', record') ∧ heap <+: heap' ∧
      RecordReads heap' (S ∪ Set.Ico heap.length heap'.length) record' (formatted lower v) := by
  obtain ⟨hmsg, hargs, hattrs⟩ := hfits
  obtain ⟨heap₁, msg, hrun₁, hext₁, hread₁⟩ := redactMsg_rebuilds lower heap S _ _ hmsg hreads.msg hbound
  have hbound₁ (a : Nat) (ha : a ∈ S) : a < heap₁.length := (hbound a ha).trans_le hext₁.length_le
  obtain ⟨heap₂, args, hrun₂, hext₂, hread₂⟩ := redactArgs_rebuilds lower heap₁ S _ _ hargs
    (hreads.args.extend hbound hext₁ subset_rfl) hbound₁
  have hext := hext₁.trans hext₂
  have hbound₂ (a : Nat) (ha : a ∈ S) : a < heap₂.length := (hbound a ha).trans_le hext.length_le
  obtain ⟨heap₃, attrs, hrun₃, hext₃, hread₃⟩ := redactRecordExtras_spec lower hattrs
    (hreads.attrs.imp fun x y h => ⟨h.1, h.2.extend hbound hext subset_rfl⟩) hbound₂
  refine ⟨heap₃, ⟨msg, args, attrs⟩, by simp [format, hrun₁, hrun₂, hrun₃], hext.trans hext₃, ?_, ?_, ?_⟩
  · exact hread₁.extend (bound_union hbound hext₁) (hext₂.trans hext₃)
      (Ico_subset le_rfl (hext₂.trans hext₃).length_le)
  · exact hread₂.extend (bound_union hbound₁ hext₂) hext₃ (Ico_subset hext₁.length_le hext₃.length_le)
  · exact hread₃.imp fun x y h => ⟨h.1, h.2.frame (Ico_subset hext.length_le le_rfl) fun _ _ => rfl⟩

end Format

section Noninterference

variable {κ α : Type*} (lower : String → String)

def AlikeMsg (v v' : Value (Key κ) (Scalar α)) : Prop :=
  match v, v' with
  | .dict d, .dict d' => AlikeEntries lower d d'
  | v, v' => v = v'

def AlikeArgs (v v' : Value (Key κ) (Scalar α)) : Prop :=
  match v, v' with
  | .list items, .list items' => items = items'
  | v, v' => Alike lower v v'

def AlikeExtra (key : String) (v v' : Value (Key κ) (Scalar α)) : Prop :=
  if skipped key then v = v'
  else if sensitiveName lower key then AlikeSecrets v v'
  else Alike lower v v'

/-- The records differ in nothing but secrets, and not at all in what is passed by. -/
structure AlikeRecords (v v' : RecordValue κ α) : Prop where
  msg : AlikeMsg lower v.msg v'.msg
  args : AlikeArgs lower v.args v'.args
  attrs : List.Forall₂ (fun x y => x.1 = y.1 ∧ AlikeExtra lower x.1 x.2 y.2) v.attrs v'.attrs

theorem msgValue_eq_iff (v v' : Value (Key κ) (Scalar α)) :
    msgValue lower v = msgValue lower v' ↔ AlikeMsg lower v v' := by
  cases v <;> cases v' <;> simp [msgValue, AlikeMsg, redact, redactEntries_eq_iff]

theorem argsValue_eq_iff (v v' : Value (Key κ) (Scalar α)) :
    argsValue lower v = argsValue lower v' ↔ AlikeArgs lower v v' := by
  cases v <;> cases v' <;>
    simp [argsValue, AlikeArgs, Alike, redact, redactEntries_eq_iff, redactItems_eq_iff]

theorem extraValue_eq_iff (key : String) (v v' : Value (Key κ) (Scalar α)) :
    extraValue lower key v = extraValue lower key v' ↔ AlikeExtra lower key v v' := by
  unfold extraValue AlikeExtra
  split_ifs
  · exact Iff.rfl
  · exact masked_eq_iff
  · exact redact_eq_iff lower v v'

theorem formatted_eq_iff (v v' : RecordValue κ α) :
    formatted lower v = formatted lower v' ↔ AlikeRecords lower v v' := by
  have hattrs : v.attrs.map (fun e => (e.1, extraValue lower e.1 e.2)) =
        v'.attrs.map (fun e => (e.1, extraValue lower e.1 e.2)) ↔
      List.Forall₂ (fun x y => x.1 = y.1 ∧ AlikeExtra lower x.1 x.2 y.2) v.attrs v'.attrs := by
    rw [← List.forall₂_eq_eq_eq, List.forall₂_map_left_iff, List.forall₂_map_right_iff]
    refine Eq.to_iff (congrArg (List.Forall₂ · v.attrs v'.attrs) ?_)
    ext ⟨key, val⟩ ⟨key', val'⟩
    rw [Prod.mk.injEq]
    refine and_congr_right ?_
    rintro rfl
    exact extraValue_eq_iff lower key val val'
  constructor
  · intro h
    obtain ⟨hmsg, hargs, hmap⟩ := RecordValue.mk.inj h
    exact ⟨(msgValue_eq_iff lower _ _).mp hmsg, (argsValue_eq_iff lower _ _).mp hargs, hattrs.mp hmap⟩
  · intro h
    exact RecordValue.mk.injEq .. ▸ ⟨(msgValue_eq_iff lower _ _).mpr h.msg, (argsValue_eq_iff lower _ _).mpr h.args,
      hattrs.mpr h.attrs⟩

theorem argsValue_argsValue (v : Value (Key κ) (Scalar α)) :
    argsValue lower (argsValue lower v) = argsValue lower v := by
  cases v with
  | list items => rfl
  | leaf a => rfl
  | tuple items => exact redact_redact lower (.tuple items)
  | dict d => exact redact_redact lower (.dict d)

theorem msgValue_msgValue (v : Value (Key κ) (Scalar α)) :
    msgValue lower (msgValue lower v) = msgValue lower v := by
  cases v with
  | dict d => exact redact_redact lower (.dict d)
  | _ => rfl

theorem extraValue_extraValue (key : String) (v : Value (Key κ) (Scalar α)) :
    extraValue lower key (extraValue lower key v) = extraValue lower key v := by
  unfold extraValue
  split_ifs
  · rfl
  · exact masked_masked v
  · exact redact_redact lower v

theorem formatted_formatted (v : RecordValue κ α) :
    formatted lower (formatted lower v) = formatted lower v := by
  simp [formatted, Function.comp_def, msgValue_msgValue, argsValue_argsValue, extraValue_extraValue]

variable [DecidableEq κ]

theorem follow_argsValue_leaf {path : List (Step κ)} (h : ∀ step ∈ path, step.open lower = true)
    (v : Value (Key κ) (Scalar α)) (a : Scalar α) :
    follow path (argsValue lower v) = some (.leaf a) ↔ follow path v = some (.leaf a) := by
  cases v with
  | list items => exact Iff.rfl
  | leaf b => exact follow_redact_leaf lower h (.leaf b) a
  | tuple items => exact follow_redact_leaf lower h (.tuple items) a
  | dict d => exact follow_redact_leaf lower h (.dict d) a

theorem follow_extraValue_leaf {key : String} (hkey : sensitiveName lower key = false) {path : List (Step κ)}
    (h : ∀ step ∈ path, step.open lower = true) (v : Value (Key κ) (Scalar α)) (a : Scalar α) :
    follow path (extraValue lower key v) = some (.leaf a) ↔ follow path v = some (.leaf a) := by
  rw [extraValue]
  split_ifs with hskipped hsensitive
  · exact Iff.rfl
  · rw [hkey] at hsensitive
    cases hsensitive
  · exact follow_redact_leaf lower h v a

/-- What `_redact_value` does to a value, run on any heap that holds it. -/
structure ValuesRedacted (κ α : Type*) [DecidableEq κ] : Prop where
  ends : ∀ (heap : Heap (Key κ) (Scalar α)) (r : Ref (Scalar α)) (v : Value (Key κ) (Scalar α)) (depth : Nat),
    v.depth < depth → Reads heap (Set.Iio heap.length) r v →
      ∃ heap' r', redactValue lower depth heap r = some (heap', r') ∧ heap <+: heap' ∧
        Reads heap' (Set.Iio heap'.length) r' (redact lower v)
  secrets : ∀ v v' : Value (Key κ) (Scalar α), redact lower v = redact lower v' ↔ Alike lower v v'
  leaves : ∀ (path : List (Step κ)), (∀ step ∈ path, step.open lower = true) →
    ∀ (v : Value (Key κ) (Scalar α)) (a : Scalar α),
      follow path (redact lower v) = some (.leaf a) ↔ follow path v = some (.leaf a)
  twice : ∀ v : Value (Key κ) (Scalar α), redact lower (redact lower v) = redact lower v

/-- What `RedactingFormatter.format` does to the attributes of a record. -/
structure RecordsRedacted (κ α : Type*) [DecidableEq κ] : Prop where
  ends : ∀ (heap : Heap (Key κ) (Scalar α)) (record : Record α) (v : RecordValue κ α) (depth : Nat),
    v.Fits depth → RecordReads heap (Set.Iio heap.length) record v →
      ∃ heap' record', format lower depth heap record = some (heap', record') ∧ heap <+: heap' ∧
        RecordReads heap' (Set.Iio heap'.length) record' (formatted lower v)
  secrets : ∀ v v' : RecordValue κ α, formatted lower v = formatted lower v' ↔ AlikeRecords lower v v'
  args : ∀ (path : List (Step κ)), (∀ step ∈ path, step.open lower = true) →
    ∀ (v : RecordValue κ α) (a : Scalar α),
      follow path (formatted lower v).args = some (.leaf a) ↔ follow path v.args = some (.leaf a)
  extras : ∀ (path : List (Step κ)), (∀ step ∈ path, step.open lower = true) →
    ∀ (v : RecordValue κ α) (i : Nat) (key : String), sensitiveName lower key = false → ∀ a : Scalar α,
      (∃ val, (formatted lower v).attrs[i]? = some (key, val) ∧ follow path val = some (.leaf a)) ↔
        ∃ val, v.attrs[i]? = some (key, val) ∧ follow path val = some (.leaf a)
  twice : ∀ v : RecordValue κ α, formatted lower (formatted lower v) = formatted lower v

theorem union_Ico {m n : Nat} (h : m ≤ n) : Set.Iio m ∪ Set.Ico m n ⊆ Set.Iio n := by
  rintro a (ha | ha)
  · exact lt_of_lt_of_le ha h
  · exact ha.2

/-- Secrets do not reach the handlers, nothing else is lost, and the caller's containers
stay as they were. -/
theorem redaction_noninterference : ValuesRedacted lower κ α ∧ RecordsRedacted lower κ α := by
  constructor
  · refine ⟨fun heap r v depth hdepth hreads => ?_, redact_eq_iff lower, fun path h => ?_, redact_redact lower⟩
    · obtain ⟨heap', r', hrun, hext, hread⟩ :=
        redactValue_rebuilds lower depth heap _ r v hdepth hreads fun a ha => ha
      exact ⟨heap', r', hrun, hext, hread.frame (union_Ico hext.length_le) fun _ _ => rfl⟩
    · exact follow_redact_leaf lower h
  · refine ⟨fun heap record v depth hfits hreads => ?_, formatted_eq_iff lower, fun path h v a => ?_,
      fun path h v i key hkey a => ?_, formatted_formatted lower⟩
    · obtain ⟨heap', record', hrun, hext, hread⟩ := format_spec lower hfits hreads fun a ha => ha
      have hsub := union_Ico hext.length_le
      exact ⟨heap', record', hrun, hext, hread.msg.frame hsub fun _ _ => rfl, hread.args.frame hsub fun _ _ => rfl,
        hread.attrs.imp fun x y h => ⟨h.1, h.2.frame hsub fun _ _ => rfl⟩⟩
    · exact follow_argsValue_leaf lower h v.args a
    · have hleaf (val : Value (Key κ) (Scalar α)) := follow_extraValue_leaf lower hkey h val a
      simp only [formatted, List.getElem?_map, Option.map_eq_some_iff, Prod.mk.injEq, Prod.exists]
      constructor
      · rintro ⟨_, ⟨key', val, hat, rfl, rfl⟩, hval⟩
        exact ⟨val, hat, (hleaf val).mp hval⟩
      · rintro ⟨val, hat, hval⟩
        exact ⟨_, ⟨key, val, hat, rfl, rfl⟩, (hleaf val).mpr hval⟩

/-- `str.lower` on names in ASCII. -/
def asciiLower (s : String) : String := .ofList (s.toList.map Char.toLower)

/-- A caller's `extra={"_ctx": {"token": secret}}`. -/
def underscored (secret : String) : List (String × Value (Key Nat) (Scalar Nat)) :=
  [("_ctx", .dict [(.str "token", .leaf (.str secret))])]

def underscoredHeap (secret : String) : Heap (Key Nat) (Scalar Nat) :=
  [.dict [(.str "token", .leaf (.str secret))]]

def underscoredRecord : Record Nat where
  msg := .leaf (.str "hello")
  args := .leaf .none
  attrs := [("_ctx", .object 0)]

/-- The extras differ in a secret only, and both records come out as they went in. -/
theorem underscored_leaks :
    AlikeEntries asciiLower ((underscored "a").map fun e => (.str e.1, e.2))
        ((underscored "b").map fun e => (.str e.1, e.2)) ∧
      format asciiLower 3 (underscoredHeap "a") underscoredRecord = some (underscoredHeap "a", underscoredRecord) ∧
      format asciiLower 3 (underscoredHeap "b") underscoredRecord = some (underscoredHeap "b", underscoredRecord) ∧
      underscoredHeap "a" ≠ underscoredHeap "b" := by
  refine ⟨⟨rfl, ?_, trivial⟩, rfl, rfl, ?_⟩
  · exact ⟨rfl, .inr ⟨rfl, rfl⟩, trivial⟩
  · intro h
    have htext : "a" = "b" := by
      injection h with h
      injection h with h
      injection h with h
      injection h with _ h
      injection h with h
      injection h
    exact absurd htext (by decide)

end Noninterference

end AlfredProcessing.Obs.LogRedaction
