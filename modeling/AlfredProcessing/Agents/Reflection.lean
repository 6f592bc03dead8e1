import AlfredProcessing.Pipeline.HandoffQuery
import AlfredProcessing.PostBuild.Reflection
import AlfredProcessing.State.MemoryRendering
import AlfredProcessing.Tools.Objects

namespace AlfredProcessing.Agents.Reflection

open Lib.Json Lib.Fallible Extract.Changes Extract.Cleaning Pipeline.HandoffQuery
  State.ConversationMemory State.MemoryRendering Tools.Objects

section Model

/-- What `reflect_minimality` catches. -/
inductive Caught where
  | python (e : PyError)
  | overflowError
  | decoderLimit
  | call

/-- `int` of a text and of a float, the texts on which `json.loads` gives up with another error
than its own, and the call of the model with its time limit. -/
structure Reviewer where
  py : Python
  intOfText : Str → Option Int
  intOfFloat : Int → Int → Option Int
  givesUp : List Char → Bool
  enabled : Bool
  chat : Str → Except Caught (List Char)

structure Removed where
  index : Nat
  item : Value
  reason : Str

structure Outcome where
  kept : List Value
  removed : List Removed

def untouched (items : List Value) : Outcome := ⟨items, []⟩

variable (r : Reviewer)

/-- `f"{v}"`. -/
def Reviewer.text (v : Value) : Str := r.py.toStr v

def question : Value := .str (str "?")

/-- The hint of `_describe_item`. -/
def hint (doctype : Value) (data : Dict) : Str :=
  let on (key : String) := str " on " ++ r.text (getOr data key question)
  if isStr doctype "Notification" then
    on "document_type" ++ str " / event=" ++ r.text (getOr data "event" question)
  else if isStr doctype "Custom Field" then
    on "dt" ++ str " / fieldtype=" ++ r.text (getOr data "fieldtype" question)
  else if isStr doctype "Server Script" then
    on "reference_doctype" ++ str " / event=" ++ r.text (getOr data "doctype_event" question)
  else if isStr doctype "Workflow" then on "document_type"
  else []

/-- `_describe_item`. -/
def describeItem : Value → Except PyError Str
  | .dict item _ => do
    let op := pyOr (pyGet item "op") (.str (str "create"))
    let doctype ←
      if (pyGet item "doctype").truthy then pure (pyGet item "doctype")
      else do
        let data ← orDict (pyGet item "data")
        pure (pyOr (pyGet data "doctype") question)
    let data ← orDict (pyGet item "data")
    let name := pyOr (pyOr (pyOr (pyGet data "name") (pyGet data "fieldname")) (pyGet data "label")) question
    return r.text op ++ str " " ++ r.text doctype ++ str " '" ++ r.text name ++ str "'" ++ hint r doctype data
  | v => .ok ((r.text v).take 80)

def natText (n : Nat) : Str := (Nat.toDigits 10 n).map Char.toNat

def itemLine (p : Value × Nat) : Except PyError Str := do
  let text ← describeItem r p.1
  return str "  [" ++ natText p.2 ++ str "] " ++ text

def userMessage (prompt : Str) (items : List Value) : Except PyError Str := do
  let lines ← items.zipIdx.mapM (itemLine r)
  return str "USER REQUEST:\n" ++ prompt.take 3000 ++ str "\n\nCHANGESET (" ++ natText items.length ++
    str " items):\n" ++ (lines.intersperse (str "\n")).flatten ++
    str "\n\nWhich items (if any) are NOT strictly needed? Return the JSON object."

def reply (prompt : Str) (items : List Value) : Except Caught (List Char) := do
  let message ← (userMessage r prompt items).mapError .python
  r.chat message

def dropOpeningFence : List Char → List Char
  | '`' :: '`' :: '`' :: cs =>
    (if "json".toList.isPrefixOf cs then cs.drop 4 else cs).dropWhile isSpace
  | cs => cs

def dropClosingFence (cs : List Char) : List Char :=
  if "```".toList.isSuffixOf cs then (cs.rdrop 3).rdropWhile isSpace else cs

def decode (cs : List Char) : Except Caught (Option Value) :=
  if r.givesUp cs then .error .decoderLimit else .ok (loads cs)

/-- The value in a reply: its whole text, or else the first `{...}` block. -/
def parsed (raw : List Char) : Except Caught (Option Value) := do
  let text := dropClosingFence (dropOpeningFence (strip raw))
  match ← decode r text with
  | some v => return some v
  | none =>
    match jsonBlock (text.dropWhile (· ≠ '{')) with
    | some block => decode r block
    | none => return none

/-- `int(v)`. There is no value where the entry is passed over. -/
def readIndex : Value → Except Caught (Option Int)
  | .bool b => .ok (some (if b then 1 else 0))
  | .int n => .ok (some n)
  | .float m e =>
    match r.intOfFloat m e with
    | some n => .ok (some n)
    | none => .error .overflowError
  | .nonFinite .nan => .ok none
  | .nonFinite _ => .error .overflowError
  | .str s => .ok (r.intOfText s)
  | _ => .ok none

def inRange (n : Nat) (i : Int) : Option Nat := if 0 ≤ i ∧ i < n then some i.toNat else none

def readIndices (n : Nat) (entries : List Value) : Except Caught (List Nat) := do
  let read ← entries.mapM (readIndex r)
  return ((read.filterMap id).filterMap (inRange n)).eraseDups

def stockReason : Str := str "not strictly required by the user's request"

def alignReasons (reasons : List Str) (n : Nat) : List Str :=
  (reasons ++ List.replicate (n - reasons.length) stockReason).take n

/-- `v or []`. -/
def orList (v : Value) : Value := pyOr v (.list [])

/-- `_parse_indices_strict`. -/
def parseIndicesStrict (raw : List Char) (n : Nat) : Except Caught (List Nat × List Str) :=
  if raw.isEmpty then .ok ([], [])
  else do
    match ← parsed r raw with
    | some (.dict d _) =>
      match orList (pyGet d "remove") with
      | .list entries =>
        let indices ← readIndices r n entries
        let reasons ← (iterate (orList (pyGet d "reasons"))).mapError .python
        return (indices, alignReasons ((reasons.filter Value.truthy).map r.text) indices.length)
      | _ => return ([], [])
    | _ => return ([], [])

def keptOf {α : Type} (indices : List Nat) (items : List α) : List α :=
  (items.zipIdx.filter fun p => decide (p.2 ∉ indices)).map Prod.fst

def removedOf (indices : List Nat) (reasons : List Str) (items : List Value) : List Removed :=
  (items.zipIdx.filter fun p => decide (p.2 ∈ indices)).map fun p =>
    { index := p.2
      item := p.1
      reason := (reasons[indices.idxOf p.2]?).getD (str "not strictly needed") }

def prune (items : List Value) (indices : List Nat) (reasons : List Str) : Outcome :=
  if indices.isEmpty then untouched items
  else if items.length ≤ indices.length then untouched items
  else ⟨keptOf indices items, removedOf indices reasons items⟩

def review (prompt : Str) (items : List Value) : Except Caught Outcome := do
  let raw ← reply r prompt items
  let (indices, reasons) ← parseIndicesStrict r raw items.length
  return prune items indices reasons

/-- The reviewer is there, and there is something to review. -/
def asks (prompt : Str) (items : List Value) : Bool :=
  r.enabled && !items.isEmpty && !prompt.isEmpty && 2 ≤ items.length

/-- `reflect_minimality`. -/
def reflectMinimality (prompt : Str) (items : List Value) : Outcome :=
  if asks r prompt items then
    match review r prompt items with
    | .ok outcome => outcome
    | .error _ => untouched items
  else untouched items

end Model

section Partition

variable {indices : List Nat} {items : List Value} {reasons : List Str} {n : Nat} {i : Int}

theorem inRange_lt {k : Nat} (h : inRange n i = some k) : k < n := by
  rw [inRange] at h
  split at h
  · cases h
    omega
  · cases h

/-- The items that stay and those that go: each that goes stands at its index, in the order of
the items, and the others stay in theirs. -/
structure Partition (items : List Value) (o : Outcome) : Prop where
  placed : ∀ x ∈ o.removed, items[x.index]? = some x.item
  ordered : (o.removed.map (·.index)).Pairwise (· < ·)
  kept : o.kept = keptOf (o.removed.map (·.index)) items
  nonempty : items ≠ [] → o.kept ≠ []

theorem keptOf_nil {α : Type} (items : List α) : keptOf [] items = items := by
  simp [keptOf]

theorem untouched_partition (items : List Value) : Partition items (untouched items) where
  placed _ hx := nomatch hx
  ordered := .nil
  kept := (keptOf_nil items).symm
  nonempty := id

theorem removed_index (indices : List Nat) (reasons : List Str) (items : List Value) :
    (removedOf indices reasons items).map (·.index) =
      (List.range items.length).filter fun i => decide (i ∈ indices) := by
  rw [removedOf, List.map_map, List.range_eq_range', ← List.zipIdx_map_snd, List.filter_map]
  rfl

theorem mem_removed_index (hlt : ∀ k ∈ indices, k < items.length) {k : Nat} :
    k ∈ (removedOf indices reasons items).map (·.index) ↔ k ∈ indices := by
  rw [removed_index, List.mem_filter, List.mem_range, decide_eq_true_iff]
  exact ⟨And.right, fun h => ⟨hlt k h, h⟩⟩

theorem removedOf_partition (reasons : List Str) (hlt : ∀ k ∈ indices, k < items.length)
    (hlen : indices.length < items.length) :
    Partition items ⟨keptOf indices items, removedOf indices reasons items⟩ where
  placed := by
    intro x hx
    obtain ⟨p, hp, rfl⟩ := List.mem_map.mp hx
    exact List.mem_zipIdx_iff_getElem?.mp (List.mem_of_mem_filter hp)
  ordered := by
    rw [removed_index]
    exact List.pairwise_lt_range.filter _
  kept := by
    simp only [keptOf, mem_removed_index hlt]
  nonempty := by
    -- An index below the length that is not among the fewer ones to remove.
    intro _ hempty
    obtain ⟨k, hk, hnot⟩ : ∃ k ∈ List.range items.length, k ∉ indices := by
      by_contra hall
      push Not at hall
      have hsub : (List.range items.length).Subperm indices :=
        List.subperm_of_subset List.nodup_range hall
      have := hsub.length_le
      rw [List.length_range] at this
      omega
    rw [List.mem_range] at hk
    have hmem : (items[k], k) ∈ items.zipIdx.filter fun p => decide (p.2 ∉ indices) :=
      List.mem_filter.mpr ⟨List.mem_zipIdx_iff_getElem?.mpr (List.getElem?_eq_getElem hk), decide_eq_true hnot⟩
    have : items[k] ∈ keptOf indices items := List.mem_map_of_mem hmem
    rw [show keptOf indices items = [] from hempty] at this
    cases this

end Partition

section Reasons

variable (r : Reviewer)

def verdict (raw : List Char) : Option (List Value × List Value) :=
  match parsed r raw with
  | .ok (some (.dict d _)) =>
    match orList (pyGet d "remove"), iterate (orList (pyGet d "reasons")) with
    | .list entries, .ok reasons => some (entries, reasons)
    | _, _ => none
  | _ => none

def target (n : Nat) (v : Value) : Option Nat :=
  match readIndex r v with
  | .ok (some i) => inRange n i
  | _ => none

/-- An entry counts when it stands for an index that none before it stands for. -/
def counts (n : Nat) (entries : List Value) (p : Nat) : Bool :=
  match entries[p]?.bind (target r n) with
  | some i => decide (i ∉ (entries.take p).filterMap (target r n))
  | none => false

def counted (n : Nat) (entries : List Value) : List Nat := (List.range entries.length).filter (counts r n entries)

def position (entries : List Value) (i : Nat) : Nat :=
  entries.findIdx fun v =>
    match readIndex r v with
    | .ok (some k) => decide (k = i)
    | _ => false

/-- The reason at a position of the list of the model, or the stock reason. -/
def reasonAt (reasons : List Value) (p : Nat) : Str :=
  match reasons[p]? with
  | some v => if v.truthy then r.text v else stockReason
  | none => stockReason

def readable (v : Value) : Bool :=
  match readIndex r v with
  | .ok _ => true
  | .error _ => false

variable {r : Reviewer} {n : Nat} {entries reasons : List Value} {v : Value}

theorem eraseDups_concat (xs : List Nat) (x : Nat) :
    (xs ++ [x]).eraseDups = xs.eraseDups ++ if x ∈ xs then [] else [x] := by
  rw [List.eraseDups_append, List.removeAll]
  by_cases h : x ∈ xs <;> simp [h, List.eraseDups_cons]

theorem eraseDups_nodup (xs : List Nat) : xs.eraseDups.Nodup := by
  induction xs using List.reverseRecOn with
  | nil => exact List.nodup_nil
  | append_singleton xs x ih =>
    rw [eraseDups_concat]
    split
    · simpa using ih
    · next hx => exact ih.append (List.nodup_singleton x) (by simpa using hx)

def First (r : Reviewer) (n : Nat) (entries : List Value) (i p : Nat) : Prop :=
  entries[p]?.bind (target r n) = some i ∧ i ∉ (entries.take p).filterMap (target r n)

theorem First.lt {i p : Nat} (h : First r n entries i p) : p < entries.length := by
  obtain ⟨v, hv, -⟩ := Option.bind_eq_some_iff.mp h.1
  exact (List.getElem?_eq_some_iff.mp hv).1

theorem First.concat {i p : Nat} (h : First r n entries i p) : First r n (entries ++ [v]) i p := by
  have hp := h.lt
  refine ⟨?_, ?_⟩
  · rw [List.getElem?_append_left hp]
    exact h.1
  · rw [List.take_append_of_le_length (by omega)]
    exact h.2

theorem counts_iff {p : Nat} : counts r n entries p = true ↔ ∃ i, First r n entries i p := by
  rw [counts]
  cases h : entries[p]?.bind (target r n) with
  | none => simp [First, h]
  | some i => simp [First, h]

theorem counts_concat {p : Nat} (hp : p < entries.length) :
    counts r n (entries ++ [v]) p = counts r n entries p := by
  rw [counts, counts, List.getElem?_append_left hp, List.take_append_of_le_length (by omega)]

theorem counted_concat : counted r n (entries ++ [v]) =
    counted r n entries ++ if counts r n (entries ++ [v]) entries.length then [entries.length] else [] := by
  rw [counted, List.length_append, List.length_singleton, List.range_succ, List.filter_append,
    List.filter_singleton, counted]
  congr 1
  · refine List.filter_congr fun p hp => ?_
    exact counts_concat (List.mem_range.mp hp)
  · cases counts r n (entries ++ [v]) entries.length <;> rfl

theorem counted_first : List.Forall₂ (First r n entries) (entries.filterMap (target r n)).eraseDups
    (counted r n entries) := by
  induction entries using List.reverseRecOn with
  | nil => exact .nil
  | append_singleton entries v ih =>
    have hold := ih.imp fun i p h => First.concat (v := v) h
    have hlast : (entries ++ [v])[entries.length]? = some v := by simp
    have htake : (entries ++ [v]).take entries.length = entries := by simp
    rw [counted_concat, List.filterMap_append]
    cases hv : target r n v with
    | none =>
      have hcounts : counts r n (entries ++ [v]) entries.length = false := by
        simp only [counts, hlast, Option.bind_some, hv]
      simpa [hv, hcounts] using hold
    | some i =>
      rw [List.filterMap_cons_some hv, List.filterMap_nil, eraseDups_concat]
      refine List.rel_append hold ?_
      by_cases hi : i ∈ entries.filterMap (target r n)
      · have hcounts : counts r n (entries ++ [v]) entries.length = false := by
          simp only [counts, hlast, Option.bind_some, hv, htake, decide_eq_false_iff_not, not_not]
          exact hi
        rw [if_pos hi, hcounts]
        exact .nil
      · have hfirst : First r n (entries ++ [v]) i entries.length := by
          refine ⟨?_, ?_⟩
          · rw [hlast]
            exact hv
          · rw [htake]
            exact hi
        rw [if_neg hi, if_pos (counts_iff.mpr ⟨i, hfirst⟩)]
        exact .cons hfirst .nil

theorem target_iff {i : Nat} (hi : i < n) : target r n v = some i ↔ readIndex r v = .ok (some (i : Int)) := by
  rw [target]
  split
  · next k hk =>
    rw [hk, inRange]
    constructor
    · intro h
      split at h
      · cases h
        congr 2
        omega
      · cases h
    · intro h
      cases h
      rw [if_pos (by omega), Int.toNat_natCast]
  · next hno =>
    refine iff_of_false (fun h => by cases h) fun h => hno _ h

theorem First.position {i p : Nat} (hi : i < n) (h : First r n entries i p) : position r entries i = p := by
  have hp := h.lt
  have hat : ∀ v, (match readIndex r v with | .ok (some k) => decide (k = (i : Int)) | _ => false) = true ↔
      target r n v = some i := by
    intro v
    rw [target_iff hi]
    split
    · next k hk => simp [hk]
    · next hno => exact iff_of_false (fun h => by cases h) fun h => hno _ h
  refine (List.findIdx_eq hp).mpr ⟨?_, fun j hj => ?_⟩
  · rw [hat]
    simpa [hp] using h.1
  · refine Bool.eq_false_iff.mpr fun htrue => h.2 ?_
    rw [hat] at htrue
    exact List.mem_filterMap.mpr ⟨entries[j], List.mem_take_iff_getElem.mpr ⟨j, by omega, rfl⟩, htrue⟩

theorem alignReasons_getElem? {texts : List Str} {q : Nat} (hq : q < n) :
    (alignReasons texts n)[q]? = some (texts[q]?.getD stockReason) := by
  rw [alignReasons, List.getElem?_take_of_lt hq]
  by_cases h : q < texts.length
  · simp [List.getElem?_append_left h, h]
  · rw [List.getElem?_append_right (by omega), List.getElem?_replicate, if_pos (by omega),
      List.getElem?_eq_none (by omega), Option.getD_none]

theorem reasonAt_filter (q : Nat) : reasonAt r (reasons.filter Value.truthy) q =
    ((reasons.filter Value.truthy).map r.text)[q]?.getD stockReason := by
  rw [reasonAt, List.getElem?_map]
  cases h : (reasons.filter Value.truthy)[q]? with
  | none => rfl
  | some v =>
    have hv : v.truthy = true := (List.mem_filter.mp (List.mem_of_getElem? h)).2
    simp [hv]

end Reasons

section Soundness

variable (r : Reviewer) (prompt : Str) (items : List Value)

/-- Something went wrong: there is no reply, none that can be read, or an index in it that
ends the reading. -/
def Failed : Prop :=
  ∀ raw, reply r prompt items = .ok raw → ∀ entries reasons, verdict r raw = some (entries, reasons) →
    ∃ v ∈ entries, readable r v = false

/-- The items are parted, nothing is removed on a failure, and each item that is removed comes
with the reason that stands where its index does. -/
structure Sound : Prop where
  partition : Partition items (reflectMinimality r prompt items)
  failed : Failed r prompt items → reflectMinimality r prompt items = untouched items
  reasons : ∀ raw, reply r prompt items = .ok raw →
    ∀ entries reasons, verdict r raw = some (entries, reasons) →
      ∀ x ∈ (reflectMinimality r prompt items).removed,
        x.reason = reasonAt r reasons (position r entries x.index)

/-- The lists of a reply that has items removed: some entries count, and fewer than there are items. -/
structure Removes (entries reasons : List Value) : Prop where
  asks : asks r prompt items = true
  verdict : ∃ raw, reply r prompt items = .ok raw ∧ verdict r raw = some (entries, reasons)
  readable : ∀ v ∈ entries, readable r v = true
  some : counted r items.length entries ≠ []
  fewer : (counted r items.length entries).length < items.length

/-- Where items are removed, the reasons that are not blank, in their order, say what stands
beside the entries that count, in theirs. -/
def Aligned : Prop :=
  ∀ entries reasons, Removes r prompt items entries reasons →
    ∀ q p, (counted r items.length entries)[q]? = some p →
      reasonAt r reasons p = reasonAt r (reasons.filter Value.truthy) q

variable {r prompt items} {n : Nat} {entries reasons : List Value} {raw : List Char}

theorem filterMap_read {read : List (Option Int)} (h : entries.mapM (readIndex r) = .ok read) :
    (read.filterMap id).filterMap (inRange n) = entries.filterMap (target r n) := by
  have hall := forall₂_of_mapM_eq_ok h
  clear h
  induction hall with
  | nil => rfl
  | @cons v o entries read hv _ ih =>
    have htarget : target r n v = o.bind (inRange n) := by
      rw [target, hv]
      cases o <;> rfl
    cases o with
    | none => rw [List.filterMap_cons_none rfl, List.filterMap_cons_none htarget, ih]
    | some i =>
      have hid : (some i :: read).filterMap id = i :: read.filterMap id := rfl
      rw [hid, List.filterMap_cons, List.filterMap_cons, htarget, ih]
      rfl

theorem readIndices_eq (h : ∀ v ∈ entries, readable r v = true) :
    readIndices r n entries = .ok (entries.filterMap (target r n)).eraseDups := by
  obtain ⟨read, hread⟩ : ∃ read, entries.mapM (readIndex r) = .ok read := by
    refine exists_mapM_eq_ok.mpr fun v hv => ?_
    have hv := h v hv
    rw [readable] at hv
    split at hv
    · next o ho => exact ⟨o, ho⟩
    · cases hv
  rw [readIndices, hread, ← filterMap_read hread]
  rfl

theorem readIndices_error (h : ¬∀ v ∈ entries, readable r v = true) (indices : List Nat) :
    readIndices r n entries ≠ .ok indices := by
  intro hok
  obtain ⟨read, hread, -⟩ := bind_eq_ok.mp hok
  refine h fun v hv => ?_
  obtain ⟨o, -, ho⟩ := mem_of_mapM_eq_ok hread hv
  rw [readable, ho]

theorem mapError_eq_ok {ε ε' α : Type} {f : ε → ε'} {x : Except ε α} {a : α} :
    x.mapError f = .ok a ↔ x = .ok a := by
  cases x <;> simp [Except.mapError]

theorem verdict_nil : verdict r [] = none := by
  have hparsed : ∀ v, parsed r [] ≠ .ok (some v) := by
    intro v h
    rw [parsed, decode] at h
    split at h
    · cases h
    · cases h
  rw [verdict]
  split
  · next h => exact absurd h (hparsed _)
  · rfl

theorem parse_of_verdict (h : verdict r raw = some (entries, reasons))
    (hread : ∀ v ∈ entries, readable r v = true) : parseIndicesStrict r raw n =
      .ok ((entries.filterMap (target r n)).eraseDups,
        alignReasons ((reasons.filter Value.truthy).map r.text)
          (entries.filterMap (target r n)).eraseDups.length) := by
  have hraw : raw.isEmpty = false := by
    cases raw with
    | nil =>
      rw [verdict_nil] at h
      cases h
    | cons => rfl
  rw [verdict] at h
  split at h
  · next d _ hparsed =>
    split at h
    · next hremove hreasons =>
      cases h
      rw [parseIndicesStrict, hraw, if_neg (by simp), hparsed]
      simp only [bind, Except.bind, hremove, readIndices_eq hread, hreasons, Except.mapError]
      rfl
    · cases h
  · cases h

theorem parse_of_failed (h : ∀ entries reasons, verdict r raw = some (entries, reasons) →
      ∃ v ∈ entries, readable r v = false) {indices : List Nat} {texts : List Str}
    (hok : parseIndicesStrict r raw n = .ok (indices, texts)) : indices = [] := by
  rw [parseIndicesStrict] at hok
  split at hok
  · cases hok
    rfl
  · obtain ⟨v, hparsed, hok⟩ := bind_eq_ok.mp hok
    split at hok
    · next d _ =>
      split at hok
      · next entries hremove =>
        obtain ⟨indices, hindices, hok⟩ := bind_eq_ok.mp hok
        obtain ⟨reasons, hreasons, hok⟩ := bind_eq_ok.mp hok
        have hverdict : verdict r raw = some (entries, reasons) := by
          simp only [verdict, hparsed, hremove, mapError_eq_ok.mp hreasons]
        obtain ⟨v, hv, hunreadable⟩ := h entries reasons hverdict
        refine absurd hindices (readIndices_error (fun hall => ?_) indices)
        rw [hall v hv] at hunreadable
        cases hunreadable
      · cases hok
        rfl
    · cases hok
      rfl

theorem reflect_of_failed (h : Failed r prompt items) : reflectMinimality r prompt items = untouched items := by
  rw [reflectMinimality]
  split
  · split
    · next outcome hreview =>
      obtain ⟨raw, hreply, hreview⟩ := bind_eq_ok.mp hreview
      obtain ⟨⟨indices, texts⟩, hparse, hreview⟩ := bind_eq_ok.mp hreview
      cases hreview
      have hnone : indices = [] := parse_of_failed (h raw hreply) hparse
      rw [hnone]
      rfl
    · rfl
  · rfl

theorem target_lt : ∀ k ∈ (entries.filterMap (target r n)).eraseDups, k < n := by
  intro k hk
  obtain ⟨v, -, hv⟩ := List.mem_filterMap.mp (List.mem_eraseDups.mp hk)
  rw [target] at hv
  split at hv
  · exact inRange_lt hv
  · cases hv

theorem reflect_eq (hasks : asks r prompt items = true) (hreply : reply r prompt items = .ok raw)
    (hverdict : verdict r raw = some (entries, reasons)) (hread : ∀ v ∈ entries, readable r v = true) :
    reflectMinimality r prompt items =
      prune items (entries.filterMap (target r items.length)).eraseDups
        (alignReasons ((reasons.filter Value.truthy).map r.text)
          (entries.filterMap (target r items.length)).eraseDups.length) := by
  simp only [reflectMinimality, if_pos hasks, review, bind, Except.bind, hreply,
    parse_of_verdict hverdict hread]
  rfl

theorem indices_length (r : Reviewer) (n : Nat) (entries : List Value) :
    (entries.filterMap (target r n)).eraseDups.length = (counted r n entries).length :=
  counted_first.length_eq

theorem reflect_cases (r : Reviewer) (prompt : Str) (items : List Value) :
    reflectMinimality r prompt items = untouched items ∨ ∃ entries reasons,
      Removes r prompt items entries reasons ∧
      (reflectMinimality r prompt items).kept =
        keptOf (entries.filterMap (target r items.length)).eraseDups items ∧
      (reflectMinimality r prompt items).removed =
        removedOf (entries.filterMap (target r items.length)).eraseDups
          (alignReasons ((reasons.filter Value.truthy).map r.text)
            (entries.filterMap (target r items.length)).eraseDups.length) items := by
  by_cases hasks : asks r prompt items = true
  · by_cases hfailed : Failed r prompt items
    · exact .inl (reflect_of_failed hfailed)
    · rw [Failed] at hfailed
      push Not at hfailed
      obtain ⟨raw, hreply, entries, reasons, hverdict, hread⟩ := hfailed
      replace hread : ∀ v ∈ entries, readable r v = true := fun v hv => by simpa using hread v hv
      rw [reflect_eq hasks hreply hverdict hread, prune]
      split
      · exact .inl rfl
      · next hsome =>
        split
        · exact .inl rfl
        · next hfewer =>
          rw [indices_length] at hfewer
          refine .inr ⟨entries, reasons, ⟨hasks, ⟨raw, hreply, hverdict⟩, hread, ?_, by omega⟩, rfl, rfl⟩
          intro hnone
          refine hsome (List.isEmpty_iff.mpr (List.eq_nil_of_length_eq_zero ?_))
          rw [indices_length, hnone, List.length_nil]
  · rw [reflectMinimality, if_neg hasks]
    exact .inl rfl

theorem reflect_partition (r : Reviewer) (prompt : Str) (items : List Value) :
    Partition items (reflectMinimality r prompt items) := by
  obtain huntouched | ⟨entries, reasons, hremoves, hkept, hremoved⟩ := reflect_cases r prompt items
  · rw [huntouched]
    exact untouched_partition items
  · have hparts := removedOf_partition (alignReasons ((reasons.filter Value.truthy).map r.text)
      (entries.filterMap (target r items.length)).eraseDups.length) target_lt
      (by rw [indices_length]; exact hremoves.fewer)
    rw [← hkept, ← hremoved] at hparts
    exact hparts

theorem Removes.removed (h : Removes r prompt items entries reasons) :
    (reflectMinimality r prompt items).removed =
      removedOf (entries.filterMap (target r items.length)).eraseDups
        (alignReasons ((reasons.filter Value.truthy).map r.text)
          (entries.filterMap (target r items.length)).eraseDups.length) items := by
  obtain ⟨raw, hreply, hverdict⟩ := h.verdict
  have hlength := indices_length r items.length entries
  have hsome : (entries.filterMap (target r items.length)).eraseDups.isEmpty = false := by
    rw [List.isEmpty_eq_false_iff, ← List.length_pos_iff, hlength, List.length_pos_iff]
    exact h.some
  have hfewer := h.fewer
  rw [reflect_eq h.asks hreply hverdict h.readable, prune, hsome, if_neg (by simp), if_neg (by omega)]

theorem reason_eq {i p q : Nat} {x : Removed} (hfirst : (counted r n entries)[q]? = some p)
    (hindex : (entries.filterMap (target r n)).eraseDups[q]? = some i)
    (hx : x ∈ removedOf (entries.filterMap (target r n)).eraseDups
      (alignReasons ((reasons.filter Value.truthy).map r.text)
        (entries.filterMap (target r n)).eraseDups.length) items) (hi : x.index = i) :
    position r entries i = p ∧ x.reason = reasonAt r (reasons.filter Value.truthy) q := by
  obtain ⟨hq, hget⟩ := List.getElem?_eq_some_iff.mp hindex
  obtain ⟨hq', hget'⟩ := List.getElem?_eq_some_iff.mp hfirst
  have hfirst : First r n entries i p := by
    have h := counted_first.get hq hq'
    rwa [List.get_eq_getElem, List.get_eq_getElem, hget, hget'] at h
  have hlt : i < n := target_lt i (List.mem_of_getElem? hindex)
  refine ⟨hfirst.position hlt, ?_⟩
  obtain ⟨y, hy, rfl⟩ := List.mem_map.mp hx
  have hidx : (entries.filterMap (target r n)).eraseDups.idxOf y.2 = q := by
    rw [show y.2 = i from hi, ← hget]
    exact (eraseDups_nodup _).idxOf_getElem q hq
  simp only [hidx, alignReasons_getElem? hq, Option.getD_some, reasonAt_filter]

/-- The reasons stand with their items just when blank reasons and entries that do not count
fall together. -/
theorem reflection_sound_iff (r : Reviewer) (prompt : Str) (items : List Value) :
    Sound r prompt items ↔ Aligned r prompt items := by
  constructor
  · intro hsound entries reasons h q p hp
    obtain ⟨raw, hreply, hverdict⟩ := h.verdict
    have hlength := indices_length r items.length entries
    obtain ⟨hq, -⟩ := List.getElem?_eq_some_iff.mp hp
    obtain ⟨i, hindex⟩ : ∃ i, (entries.filterMap (target r items.length)).eraseDups[q]? = some i :=
      ⟨_, List.getElem?_eq_getElem (hlength ▸ hq)⟩
    have hmem := List.mem_of_getElem? hindex
    have hremoved := h.removed
    obtain ⟨x, hx, hxi⟩ := List.mem_map.mp ((mem_removed_index target_lt).mpr hmem)
    obtain ⟨hposition, hreason⟩ := reason_eq hp hindex hx hxi
    rw [← hremoved] at hx
    rw [← hreason, hsound.reasons raw hreply entries reasons hverdict x hx, hxi, hposition]
  · intro haligned
    refine ⟨reflect_partition r prompt items, reflect_of_failed, ?_⟩
    intro raw hreply entries reasons hverdict x hx
    obtain huntouched | ⟨entries', reasons', h, -, hremoved⟩ := reflect_cases r prompt items
    · rw [huntouched] at hx
      cases hx
    · obtain ⟨raw', hreply', hverdict'⟩ := h.verdict
      rw [hreply] at hreply'
      cases hreply'
      rw [hverdict] at hverdict'
      cases hverdict'
      have hlength := indices_length r items.length entries
      rw [hremoved] at hx
      have hmem : x.index ∈ (entries.filterMap (target r items.length)).eraseDups :=
        (mem_removed_index target_lt).mp (List.mem_map_of_mem hx)
      obtain ⟨q, hindex⟩ := List.mem_iff_getElem?.mp hmem
      obtain ⟨hq, -⟩ := List.getElem?_eq_some_iff.mp hindex
      have hp := List.getElem?_eq_getElem (hlength ▸ hq)
      obtain ⟨hposition, hreason⟩ := reason_eq hp hindex hx rfl
      rw [hreason, hposition, haligned entries reasons h q _ hp]

def skippingReply : List Char :=
  "\x7b\"remove\": [99, 1], \"reasons\": [\"no such item\", \"extra field\"]\x7d".toList

/-- A reviewer whose `json.loads` and `int` meet no limit. -/
def skippingReviewer : Reviewer where
  py := plainPython
  intOfText _ := none
  intOfFloat m _ := some m
  givesUp _ := false
  enabled := true
  chat _ := .ok skippingReply

def notification : Value := .dict [(str "doctype", .str (str "Notification"))] .none

/-- The reason of an entry that is passed over goes to the next one. -/
theorem skipped_reason_moves : ¬Sound skippingReviewer (str "notify me") [notification, notification] := by
  intro h
  have hread : (verdict skippingReviewer skippingReply).isSome := by decide +kernel
  obtain ⟨⟨entries, reasons⟩, hverdict⟩ := Option.isSome_iff_exists.mp hread
  have hreasons := h.reasons skippingReply rfl entries reasons hverdict
  have hmoved : (verdict skippingReviewer skippingReply).all fun lists =>
      decide (¬∀ x ∈ (reflectMinimality skippingReviewer (str "notify me") [notification, notification]).removed,
        x.reason = reasonAt skippingReviewer lists.2 (position skippingReviewer lists.1 x.index)) := by
    decide +kernel
  rw [hverdict, Option.all_some, decide_eq_true_iff] at hmoved
  exact hmoved hreasons

theorem aligned_of_clean (h : ∀ entries reasons, Removes r prompt items entries reasons →
    (∀ p < entries.length, counts r items.length entries p = true) ∧ ∀ v ∈ reasons, v.truthy = true) :
    Aligned r prompt items := by
  intro entries reasons hremoves q p hp
  obtain ⟨hcounts, htruthy⟩ := h entries reasons hremoves
  have hcounted : counted r items.length entries = List.range entries.length :=
    List.filter_eq_self.mpr fun p hp => hcounts p (List.mem_range.mp hp)
  have hreasons : reasons.filter Value.truthy = reasons := List.filter_eq_self.mpr htruthy
  rw [hcounted] at hp
  obtain ⟨hq, hget⟩ := List.getElem?_eq_some_iff.mp hp
  rw [List.getElem_range] at hget
  rw [hreasons, hget]

theorem keptOf_map {α β : Type} (f : α → β) (indices : List Nat) (items : List α) :
    keptOf indices (items.map f) = (keptOf indices items).map f := by
  simp only [keptOf, List.zipIdx_map, List.filter_map, List.map_map]
  rfl

def readInt (r : Reviewer) (v : Value) : Option Int :=
  match readIndex r v with
  | .ok o => o
  | .error _ => none

/-- The reply as the phases behind the reviewer take it. -/
def readVerdict (r : Reviewer) (prompt : Str) (items : List Value) : Option PostBuild.Reflection.Verdict :=
  match reply r prompt items with
  | .ok raw =>
    match verdict r raw with
    | some (entries, reasons) =>
      if asks r prompt items && entries.all (readable r) then
        some ⟨entries.filterMap (readInt r), (reasons.filter Value.truthy).map r.text⟩
      else none
    | none => none
  | .error _ => none

theorem indices_readInt {texts : List Str} : PostBuild.Reflection.indices ⟨entries.filterMap (readInt r), texts⟩ n =
    (entries.filterMap (target r n)).eraseDups := by
  have hrange : ∀ read : List Int, (read.filter fun i => decide (0 ≤ i ∧ i < (n : Int))).map Int.toNat =
      read.filterMap (inRange n) := by
    intro read
    induction read with
    | nil => rfl
    | cons i read ih =>
      rw [List.filter_cons]
      by_cases hi : 0 ≤ i ∧ i < (n : Int)
      · rw [if_pos (decide_eq_true hi), List.map_cons, ih,
          List.filterMap_cons_some (show inRange n i = some i.toNat from if_pos hi)]
      · rw [if_neg (by simpa using hi), ih,
          List.filterMap_cons_none (show inRange n i = none from if_neg hi)]
  have htarget : ∀ v, (readInt r v).bind (inRange n) = target r n v := by
    intro v
    rw [readInt, target]
    cases readIndex r v with
    | error => rfl
    | ok o => cases o <;> rfl
  rw [PostBuild.Reflection.indices, hrange, List.filterMap_filterMap]
  simp only [htarget]

theorem readVerdict_of_failed (h : Failed r prompt items) : readVerdict r prompt items = none := by
  rw [readVerdict]
  split
  · next raw hreply =>
    split
    · next entries reasons hverdict =>
      obtain ⟨v, hv, hunreadable⟩ := h raw hreply entries reasons hverdict
      have hall : entries.all (readable r) = false := List.all_eq_false.mpr ⟨v, hv, by simp [hunreadable]⟩
      rw [hall, Bool.and_false, if_neg (by simp)]
    · rfl
  · rfl

theorem readVerdict_of_not_asked (h : asks r prompt items = false) : readVerdict r prompt items = none := by
  rw [readVerdict]
  split
  · split
    · rw [h, Bool.false_and, if_neg (by simp)]
    · rfl
  · rfl

/-- The items that stay are those which the pipeline's `prune` keeps, whatever it takes an item for. -/
theorem reflect_kept_eq_prune (change : Value → PostBuild.Backfill.Change) :
    (reflectMinimality r prompt items).kept.map change =
      (PostBuild.Reflection.prune (readVerdict r prompt items) (items.map change)).1 := by
  cases hasks : asks r prompt items with
  | false =>
    rw [readVerdict_of_not_asked hasks, reflectMinimality, hasks, if_neg (by simp)]
    rfl
  | true =>
    by_cases hfailed : Failed r prompt items
    · rw [readVerdict_of_failed hfailed, reflect_of_failed hfailed]
      rfl
    · rw [Failed] at hfailed
      push Not at hfailed
      obtain ⟨raw, hreply, entries, reasons, hverdict, hread⟩ := hfailed
      replace hread : ∀ v ∈ entries, readable r v = true := fun v hv => by simpa using hread v hv
      have hverdictRead : readVerdict r prompt items =
          some ⟨entries.filterMap (readInt r), (reasons.filter Value.truthy).map r.text⟩ := by
        simp only [readVerdict, hreply, hverdict, hasks, List.all_eq_true.mpr hread, Bool.and_self, if_true]
      rw [reflect_eq hasks hreply hverdict hread, hverdictRead, PostBuild.Reflection.prune, prune]
      simp only [List.length_map, indices_readInt]
      generalize (entries.filterMap (target r items.length)).eraseDups = indices
      cases hempty : indices.isEmpty with
      | true => rfl
      | false =>
        by_cases hall : items.length ≤ indices.length
        · simp only [hall, if_true, decide_true, Bool.or_true]
          rfl
        · simp only [hall, if_false, decide_false, Bool.or_false]
          exact (keptOf_map change indices items).symm

end Soundness

end AlfredProcessing.Agents.Reflection
