import AlfredProcessing.PostBuild.Backfill

namespace AlfredProcessing.PostBuild.Reflection

open Lib.Json Backfill

/-- The reviewer's answer: indices to remove and a reason for each, as far as
they can be read. -/
structure Verdict where
  remove : List Int
  reasons : List Str

structure Removed where
  index : Nat
  item : Change
  reason : Str

def indices (v : Verdict) (n : Nat) : List Nat :=
  ((v.remove.filter fun i : Int => decide (0 ≤ i ∧ i < (n : Int))).map Int.toNat).eraseDups

def defaultReason : Str := str "not strictly required by the user's request"

/-- The reasons, made as many as the indices. -/
def alignReasons (v : Verdict) (n : Nat) : List Str :=
  (v.reasons.filter (!·.isEmpty) ++ List.replicate n defaultReason).take n

def kept (idx : List Nat) (changes : List Change) : List Change :=
  (changes.zipIdx.filter fun p => decide (p.2 ∉ idx)).map Prod.fst

def removed (idx : List Nat) (reasons : List Str) (changes : List Change) : List Removed :=
  (changes.zipIdx.filter fun p => decide (p.2 ∈ idx)).map fun p =>
    { index := p.2
      item := p.1
      reason := (reasons[idx.idxOf p.2]?).getD (str "not strictly needed") }

/-- Whether `reflect_minimality` asks the reviewer. -/
def asksReviewer (enabled hasPrompt : Bool) (changes : List Change) : Bool :=
  enabled && hasPrompt && 2 ≤ changes.length

/-- What `reflect_minimality` does with the reviewer's answer; there is none
when the call fails. It never removes everything. -/
def prune (verdict : Option Verdict) (changes : List Change) : List Change × List Removed :=
  match verdict with
  | none => (changes, [])
  | some v =>
    let idx := indices v changes.length
    if idx.isEmpty || changes.length ≤ idx.length then (changes, [])
    else (kept idx changes, removed idx (alignReasons v idx.length) changes)

/-- The indices that `prune` removes. -/
def pruneIndices (verdict : Option Verdict) (changes : List Change) : List Nat :=
  match verdict with
  | none => []
  | some v =>
    let idx := indices v changes.length
    if idx.isEmpty || changes.length ≤ idx.length then [] else idx

def survivors (idx : List Nat) (n : Nat) : List Nat :=
  (List.range n).filter fun i => decide (i ∉ idx)

theorem kept_nil (changes : List Change) : kept [] changes = changes := by
  simp [kept]

theorem prune_eq_kept (verdict : Option Verdict) (changes : List Change) :
    (prune verdict changes).1 = kept (pruneIndices verdict changes) changes := by
  unfold prune pruneIndices
  split
  · exact (kept_nil changes).symm
  · dsimp only
    split
    · exact (kept_nil changes).symm
    · rfl

theorem kept_getElem? (idx : List Nat) (changes : List Change) (k : Nat) :
    (kept idx changes)[k]? = (survivors idx changes.length)[k]?.bind (changes[·]?) := by
  have hsurvivors : survivors idx changes.length =
      (changes.zipIdx.filter fun p => decide (p.2 ∉ idx)).map Prod.snd := by
    rw [survivors, List.range_eq_range', ← List.zipIdx_map_snd, List.filter_map]
    rfl
  rw [hsurvivors, kept, List.getElem?_map, List.getElem?_map]
  cases hk : (changes.zipIdx.filter fun p => decide (p.2 ∉ idx))[k]? with
  | none => rfl
  | some p =>
    have hp := List.mem_zipIdx_iff_getElem?.mp (List.mem_of_mem_filter (List.mem_of_getElem? hk))
    exact hp.symm

theorem survivors_getElem? {idx : List Nat} {n k : Nat} (hk : k < n) (h : ∀ i ∈ idx, k < i) :
    (survivors idx n)[k]? = some k := by
  obtain ⟨m, rfl⟩ : ∃ m, n = k + 1 + m := ⟨n - (k + 1), by omega⟩
  have hall : (List.range (k + 1)).filter (fun i => decide (i ∉ idx)) = List.range (k + 1) := by
    refine List.filter_eq_self.mpr fun i hi => decide_eq_true fun hmem => ?_
    have := h i hmem
    have := List.mem_range.mp hi
    omega
  rw [survivors, List.range_add, List.filter_append, hall,
    List.getElem?_append_left (by simp)]
  simp

theorem kept_sublist (idx : List Nat) (changes : List Change) :
    (kept idx changes).Sublist changes := by
  have h : ((changes.zipIdx.filter fun p => decide (p.2 ∉ idx)).map Prod.fst).Sublist
      (changes.zipIdx.map Prod.fst) := List.filter_sublist.map _
  simpa [kept] using h

theorem prune_sublist (verdict : Option Verdict) (changes : List Change) :
    (prune verdict changes).1.Sublist changes := by
  unfold prune
  split
  · exact .refl _
  · dsimp only
    split
    · exact .refl _
    · exact kept_sublist _ _

end AlfredProcessing.PostBuild.Reflection
