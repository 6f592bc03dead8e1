import Mathlib.Data.List.Basic

namespace AlfredProcessing.State.Store

def validIdChar (c : Char) : Bool :=
  c.isAlphanum || c = '.' || c = '_' || c = '-'

/-- `re.match` with `_VALID_ID`; its `$` also matches before a final newline. -/
def validId (value : String) : Bool :=
  let cs := value.toList
  let body := if cs.getLast? = some '\n' then cs.dropLast else cs
  !body.isEmpty && body.all validIdChar

/-- `StateStore._key`, none where `_validate_id` raises. -/
def key (siteId : String) (parts : List String) : Option String :=
  if validId siteId then some (":".intercalate ("alfred" :: siteId :: parts)) else none

def taskKey (siteId taskId : String) : Option String :=
  if validId taskId then key siteId ["task", taskId] else none

def eventsKey (siteId conversationId : String) : Option String :=
  if validId conversationId then key siteId ["events", conversationId] else none

theorem colon_notMem {value : String} (h : validId value) : ':' ∉ value.toList := by
  intro hc
  simp only [validId, Bool.and_eq_true] at h
  have hall := List.all_eq_true.mp h.2
  split at hall
  · next hl =>
    have hne : value.toList ≠ [] := List.ne_nil_of_mem hc
    rw [← List.dropLast_append_getLast hne, List.mem_append, List.mem_singleton] at hc
    rcases hc with hc | hc
    · exact absurd (hall _ hc) (by decide)
    · rw [List.getLast?_eq_some_getLast hne, ← hc] at hl
      exact absurd hl (by decide)
  · exact absurd (hall _ hc) (by decide)

theorem intercalate_colon_inj {xs ys : List String} (hx : ∀ s ∈ xs, ':' ∉ s.toList)
    (hy : ∀ s ∈ ys, ':' ∉ s.toList) (hxn : xs ≠ []) (hyn : ys ≠ [])
    (h : ":".intercalate xs = ":".intercalate ys) : xs = ys := by
  have hs (zs : List String) (hz : ∀ s ∈ zs, ':' ∉ s.toList) (hzn : zs ≠ []) :
      ((":".intercalate zs).toList).splitOn ':' = zs.map String.toList := by
    rw [String.toList_intercalate]
    exact List.splitOn_intercalate ':' (by simpa using hz) (by simpa using hzn)
  have hm : xs.map String.toList = ys.map String.toList := by
    rw [← hs xs hx hxn, ← hs ys hy hyn, h]
  exact List.map_injective_iff.mpr (fun a b hab => String.toList_inj.mp hab) hm

end AlfredProcessing.State.Store
