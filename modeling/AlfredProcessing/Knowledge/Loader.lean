import Mathlib.Algebra.GroupWithZero.Nat
import AlfredProcessing.Lib.Keyed
import AlfredProcessing.Lib.JsonDump
import AlfredProcessing.Lib.Ranking
import AlfredProcessing.Lib.Stamped
import AlfredProcessing.Knowledge.HybridSearch
import AlfredProcessing.Pipeline.PlanLifecycle
import AlfredProcessing.State.MemoryRendering

namespace AlfredProcessing.Knowledge.Loader

open Lib.Json Lib.Keyed Lib.Ranking Lib.JsonDump Extract.Changes Extract.Cleaning HybridSearch
open Pipeline.PlanLifecycle (occurs)
open State.MemoryRendering (isStr)

section Files

/-- `_KB_FILES`. -/
inductive KbFile where
  | rules
  | apis
  | idioms
  | style
  deriving DecidableEq

def kbFiles : List KbFile := [.rules, .apis, .idioms, .style]

/-- A file that exists, and what the parser makes of it: none where it cannot be read or parsed, which is caught, and
an exception where the value of a scalar cannot be built, such as the date of a day that is not there. -/
structure File where
  mtime : Nat
  parsed : Except PyError (Option Value)

abbrev Disk := KbFile → Option File

abbrev Entries := List (Str × Dict)

abbrev Mtimes := List (KbFile × Nat)

def validKinds : List String := ["rule", "api", "idiom", "style"]

def requiredFields : List String := ["kind", "title", "summary", "keywords", "body", "verified_on"]

def isList : Value → Bool
  | .list _ => true
  | _ => false

/-- `_is_valid_entry`. A kind that cannot be hashed is not looked for among the kinds. -/
def isValidEntry : Value → Except PyError Bool
  | .dict entry _ =>
    if requiredFields.any fun f => !has entry f then .ok false
    else if !hashable (pyGet entry "kind") then .error .typeError
    else .ok ((validKinds.any fun kind => isStr (pyGet entry "kind") kind) && isList (pyGet entry "keywords"))
  | _ => .ok false

/-- `merged[entry_id] = entry`. -/
def put (id : Str) (entry : Dict) (merged : Entries) : Entries :=
  if (lookup Prod.fst id merged).isSome then modify Prod.fst id (fun _ => (id, entry)) merged
  else merged ++ [(id, entry)]

def mergeEntry (merged : Entries) (row : Str × Value) : Except PyError Entries :=
  (isValidEntry row.2).map fun valid =>
    if valid then put row.1 (insert (str "id") (.str row.1) ((asDict row.2).getD [])) merged else merged

def mergeFile (disk : Disk) (merged : Entries) (filename : KbFile) : Except PyError Entries :=
  match (disk filename).map File.parsed with
  | some (.ok (some v)) =>
    match pyOr v (.dict [] .none) with
    | .dict rows _ => rows.foldlM mergeEntry merged
    | _ => .ok merged
  | some (.error e) => .error e
  | _ => .ok merged

/-- What `_load_entries` reads. -/
def readEntries (disk : Disk) : Except PyError Entries := kbFiles.foldlM (mergeFile disk) []

def newMtimes (disk : Disk) : Mtimes := kbFiles.filterMap fun f => (disk f).map fun file => (f, file.mtime)

def mtimeOf (mtimes : Mtimes) (filename : KbFile) : Option Nat := (lookup Prod.fst filename mtimes).map Prod.snd

def anyChange (mtimes : Mtimes) (disk : Disk) : Bool :=
  ((newMtimes disk).any fun e => mtimeOf mtimes e.1 ≠ some e.2) ||
    mtimes.any fun e => (mtimeOf (newMtimes disk) e.1).isNone

end Files

section Keyword

variable (lower : Str → Str)

/-- The words of a query that are long enough to be looked for. -/
def termsOf (query : Str) : List Str :=
  ((lower query).splitOnP spaceCode).filter fun t => 3 ≤ t.length

/-- `(text or "").lower()`. -/
def lowered : Value → Except PyError Str
  | .str s => .ok (lower s)
  | v => if v.truthy then .error .attributeError else .ok (lower [])

/-- `_field_score`. -/
def fieldScore (terms : List Str) (text : Value) (weight : Nat) : Except PyError Nat :=
  (lowered lower text).map fun text => ((terms.filter fun t => occurs t text).map fun _ => weight).sum

def textOf : Value → Except PyError Str
  | .str s => .ok s
  | _ => .error .typeError

/-- `" ".join(words)`. -/
def joinWords (words : List Value) : Except PyError Str := (words.mapM textOf).map (List.intercalate (str " "))

/-- A field that is passed over where it is no list. -/
def wordsOf (entry : Dict) (field : String) : Except PyError Str :=
  match pyGet entry field with
  | .list words => joinWords words
  | _ => .ok []

/-- `entry.get(field, "")`. -/
def fieldOf (entry : Dict) (field : String) : Value := (get (str field) entry).getD (.str [])

def scoreOf (terms : List Str) (entry : Dict) : Except PyError Nat := do
  let keywordsText ← wordsOf entry "keywords"
  let appliesText ← wordsOf entry "applies_to"
  let title ← fieldScore lower terms (fieldOf entry "title") 5
  let keywords ← fieldScore lower terms (.str keywordsText) 3
  let applies ← fieldScore lower terms (.str appliesText) 4
  let body ← fieldScore lower terms (fieldOf entry "body") 1
  let summary ← fieldScore lower terms (fieldOf entry "summary") 1
  return title + keywords + applies + body + summary

def otherKind (kind : Option Str) (entry : Dict) : Bool :=
  match kind with
  | some kind =>
    !kind.isEmpty && !(match pyGet entry "kind" with
      | .str k => k = kind
      | _ => false)
  | none => false

/-- The order of the hits: by falling score, and by id. -/
def better {γ : Type} [LinearOrder γ] (a b : γ × Str × Dict) : Prop :=
  higher (fun e e' : Str × Dict => codeLe e.1 e'.1) a b

instance {γ : Type} [LinearOrder γ] : DecidableRel (better (γ := γ)) := fun _ _ => instDecidableRelProdHigher _ _

def scoreEntry (terms : List Str) (kind : Option Str) (minScore : Nat) (e : Str × Dict) :
    Except PyError (Option (Nat × Str × Dict)) :=
  if otherKind kind e.2 then .ok none
  else (scoreOf lower terms e.2).map fun score => if score < minScore then none else some (score, e)

def hitOf (mode : Mode) (score : Value) (e : Str × Dict) : Hit :=
  ⟨e.1, mode, insert (str "_score") score (insert (str "id") (.str e.1) e.2)⟩

/-- What `search_keyword` finds among the entries. -/
def keywordHits (terms : List Str) (kind : Option Str) (k minScore : Nat) (entries : Entries) :
    Except PyError (List Hit) :=
  (entries.mapM (scoreEntry lower terms kind minScore)).map fun scored =>
    (best better k (scored.filterMap id)).map fun h => hitOf .keyword (.int h.1) h.2

end Keyword

section Stamps

variable {disk disk' : Disk} {filename : KbFile}

theorem mem_kbFiles (filename : KbFile) : filename ∈ kbFiles := by
  cases filename <;> decide

theorem mem_newMtimes {e : KbFile × Nat} : e ∈ newMtimes disk ↔ (disk e.1).map File.mtime = some e.2 := by
  unfold newMtimes
  rw [List.mem_filterMap]
  constructor
  · rintro ⟨f, -, h⟩
    obtain ⟨file, hfile, rfl⟩ := Option.map_eq_some_iff.mp h
    exact Option.map_eq_some_iff.mpr ⟨file, hfile, rfl⟩
  · intro h
    obtain ⟨file, hfile, hmtime⟩ := Option.map_eq_some_iff.mp h
    exact ⟨e.1, mem_kbFiles e.1, Option.map_eq_some_iff.mpr ⟨file, hfile, Prod.ext rfl hmtime⟩⟩

theorem mtimeOf_newMtimes (disk : Disk) (filename : KbFile) :
    mtimeOf (newMtimes disk) filename = (disk filename).map File.mtime := by
  unfold mtimeOf
  cases h : lookup Prod.fst filename (newMtimes disk) with
  | none =>
    have hnone := lookup_none.mp h
    cases hfile : disk filename with
    | none => rfl
    | some file => exact absurd rfl (hnone (filename, file.mtime) (mem_newMtimes.mpr (congrArg _ hfile)))
  | some e =>
    obtain ⟨hmem, rfl⟩ := lookup_some h
    exact (mem_newMtimes.mp hmem).symm

theorem anyChange_newMtimes (disk disk' : Disk) :
    anyChange (newMtimes disk') disk = false ↔ newMtimes disk = newMtimes disk' := by
  unfold anyChange
  rw [Bool.or_eq_false_iff, List.any_eq_false, List.any_eq_false]
  constructor
  · rintro ⟨hnew, hgone⟩
    refine List.filterMap_congr fun f _ => ?_
    cases hf : disk f with
    | some file =>
      have hsame := hnew (f, file.mtime) (mem_newMtimes.mpr (congrArg _ hf))
      rw [decide_eq_true_iff, not_not, mtimeOf_newMtimes] at hsame
      obtain ⟨file', hfile', hmtime⟩ := Option.map_eq_some_iff.mp hsame
      rw [hfile', Option.map_some, Option.map_some, hmtime]
    | none =>
      cases hf' : disk' f with
      | none => rfl
      | some file' =>
        have hgone := hgone (f, file'.mtime) (mem_newMtimes.mpr (congrArg _ hf'))
        rw [mtimeOf_newMtimes, hf] at hgone
        exact absurd rfl hgone
  · intro heq
    constructor
    · intro e he
      rw [heq] at he
      rw [decide_eq_true_iff, not_not, mtimeOf_newMtimes]
      exact mem_newMtimes.mp he
    · intro e he
      rw [← heq] at he
      rw [mtimeOf_newMtimes, mem_newMtimes.mp he]
      exact Bool.false_ne_true

end Stamps

section Merged

variable {merged merged' : Entries} {disk : Disk}

/-- What holds of the entries that were read: every id has one, that carries its id and is well formed. -/
structure WellFormed (entries : Entries) : Prop where
  distinct : (entries.map Prod.fst).Nodup
  named : ∀ e ∈ entries, get (str "id") e.2 = some (.str e.1)
  kinds : ∀ e ∈ entries, (validKinds.any fun kind => isStr (pyGet e.2 "kind") kind) = true

theorem mem_put {id : Str} {entry : Dict} {e : Str × Dict} (h : e ∈ put id entry merged) :
    e = (id, entry) ∨ e ∈ merged := by
  unfold put at h
  split_ifs at h
  · obtain ⟨x, -, -, rfl⟩ | ⟨hmem, -⟩ := mem_modify.mp h
    · exact .inl rfl
    · exact .inr hmem
  · obtain h | h := List.mem_append.mp h
    · exact .inr h
    · exact .inl (List.mem_singleton.mp h)

theorem nodup_put (id : Str) (entry : Dict) (h : (merged.map Prod.fst).Nodup) :
    ((put id entry merged).map Prod.fst).Nodup := by
  unfold put
  split_ifs with hold
  · have hkeys : (Lib.Keyed.modify Prod.fst id (fun _ => (id, entry)) merged).map Prod.fst = merged.map Prod.fst := by
      unfold Lib.Keyed.modify
      rw [List.map_map]
      refine List.map_congr_left fun e _ => ?_
      by_cases he : e.1 = id
      · simp [he]
      · simp [he]
    rw [hkeys]
    exact h
  · rw [List.map_append]
    refine h.append (List.nodup_singleton _) ?_
    intro k hk hk'
    obtain rfl := List.mem_singleton.mp hk'
    obtain ⟨e, he, rfl⟩ := List.mem_map.mp hk
    exact hold (by rw [lookup_mem h he]; rfl)

theorem kind_of_isValidEntry {v : Value} (h : isValidEntry v = .ok true) :
    ∃ entry strays, v = .dict entry strays ∧ (validKinds.any fun kind => isStr (pyGet entry "kind") kind) = true := by
  cases v with
  | dict entry strays =>
    rw [isValidEntry] at h
    split_ifs at h
    · cases h
    · exact ⟨entry, strays, rfl, (Bool.and_eq_true_iff.mp (Except.ok.inj h)).1⟩
  | _ => cases h

theorem wellFormed_mergeEntry {row : Str × Value} (hwell : WellFormed merged) (h : mergeEntry merged row = .ok merged') :
    WellFormed merged' := by
  unfold mergeEntry at h
  cases hrow : isValidEntry row.2 with
  | error e =>
    rw [hrow] at h
    cases h
  | ok valid =>
    rw [hrow] at h
    obtain rfl := Except.ok.inj h
    cases valid with
    | false => exact hwell
    | true =>
      obtain ⟨entry, strays, hentry, hkind⟩ := kind_of_isValidEntry hrow
      rw [hentry]
      constructor
      · exact nodup_put _ _ hwell.distinct
      · intro e he
        obtain rfl | he := mem_put he
        · exact (get_insert _ _ _ _).trans (if_pos rfl)
        · exact hwell.named e he
      · intro e he
        obtain rfl | he := mem_put he
        · have hother : str "id" ≠ str "kind" := by decide
          have hsame : pyGet (insert (str "id") (.str row.1) entry) "kind" = pyGet entry "kind" := by
            rw [pyGet, get_insert, if_neg hother, pyGet]
          exact hsame.symm ▸ hkind
        · exact hwell.kinds e he

theorem wellFormed_readEntries {entries : Entries} (h : readEntries disk = .ok entries) : WellFormed entries := by
  have hkeep : ∀ {merged f merged'}, mergeFile disk merged f = .ok merged' → WellFormed merged → WellFormed merged' := by
    intro merged f merged' h
    unfold mergeFile at h
    split at h
    · split at h
      · exact Lib.Fallible.foldlM_keeps (R := fun m m' => WellFormed m → WellFormed m') (fun _ hm => hm)
          (fun h₁ h₂ hm => h₂ (h₁ hm)) (fun h hm => wellFormed_mergeEntry hm h) h
      · cases h
        exact fun hm => hm
    · cases h
    · cases h
      exact fun hm => hm
  exact Lib.Fallible.foldlM_keeps (R := fun m m' => WellFormed m → WellFormed m') (fun _ hm => hm)
    (fun h₁ h₂ hm => h₂ (h₁ hm)) hkeep h ⟨List.nodup_nil, List.forall_mem_nil _, List.forall_mem_nil _⟩

end Merged

end AlfredProcessing.Knowledge.Loader
