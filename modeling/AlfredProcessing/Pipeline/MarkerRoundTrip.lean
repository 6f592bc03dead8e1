import AlfredProcessing.Lib.JsonDecode
import AlfredProcessing.Pipeline.HandoffQuery
import AlfredProcessing.Security.SqlAcceptance

namespace AlfredProcessing.Pipeline.MarkerRoundTrip

open Lib.Json Lib.JsonText Lib.Occurrence Extract.Changes Extract.Cleaning
open Security.SqlSafety Security.SqlAcceptance HandoffQuery

section Decoding

theorem skipWs_render_head (d : Doc) : skipWs d.render = d.render := by
  obtain ⟨c, t, hrender, hopens⟩ := d.render_head
  rw [hrender]
  exact List.dropWhile_cons_of_neg (by simp [opens_ws hopens])

/-- `json.loads` of a JSON text. -/
theorem loads_render (d : Doc) : loads d.render = some d.value := by
  have hdecode : rawDecode d.render = some (d.value, []) := by
    have hstops : stops [] := fun c hc => by cases hc
    have hall := rawDecode_render d [] fun _ _ => hstops
    rwa [List.append_nil] at hall
  unfold loads
  rw [skipWs_render_head, hdecode]
  rfl

theorem object_braces {d : Doc} {entries : Dict} {strays : Strays} (h : d.value = .dict entries strays) :
    ∃ body, d.render = '{' :: (body ++ ['}']) := by
  cases d with
  | emptyObject w => exact ⟨w.render, rfl⟩
  | object w ms =>
    refine ⟨w.render ++ Lib.Brackets.membersInit ms, ?_⟩
    rw [Doc.render, Lib.Brackets.members_render, List.append_assoc]
  | number n => exact absurd h (n.value_ne_dict _ _)
  | _ => cases h

theorem jsonBlock_object (body : List Char) : jsonBlock ('{' :: (body ++ ['}'])) = some ('{' :: (body ++ ['}'])) := by
  have hlast : (body ++ ['}']).rdropWhile (· ≠ '}') = body ++ ['}'] := List.rdropWhile_concat_neg _ _ _ (by decide)
  rw [jsonBlock, hlast]
  exact if_neg (by simp)

end Decoding

section Searching

variable {text rest : List Char}

theorem begins_of_append {w cs ds : List Char} (h : w.length ≤ cs.length) :
    begins foldsTo w (cs ++ ds) = begins foldsTo w cs := by
  induction w generalizing cs with
  | nil => rw [begins, begins]
  | cons x xs ih =>
    cases cs with
    | nil => cases h
    | cons c cs =>
      rw [List.cons_append, begins, begins, ih (Nat.le_of_succ_le_succ h)]

theorem markerKey_eq : markerKey = ['_', '_', 'r', 'e', 'p', 'o', 'r', 't', '_', 'c', 'a', 'n', 'd', 'i', 'd', 'a', 't', 'e',
    '_', '_'] := by
  decide

theorem marker_chars : ∀ c ∈ markerKey, isSpace c = false ∧ c ≠ ':' := by
  rw [markerKey_eq]
  decide

/-- Where the marker would begin within the text and end within the true marker, no colon follows. -/
theorem markerAt_overlap (h : text ≠ []) (hnone : begins foldsTo markerKey text = false) :
    markerAt (text ++ markerKey ++ rest) = none := by
  unfold markerAt
  split_ifs with hbegins
  swap
  · rfl
  rw [foldsToPrefix_eq, List.append_assoc] at hbegins
  have hshort : text.length < markerKey.length := by
    by_contra hlong
    rw [begins_of_append (Nat.le_of_not_lt hlong), hnone] at hbegins
    cases hbegins
  have hpos : 0 < text.length := List.length_pos_iff.mpr h
  have hdrop : (text ++ markerKey ++ rest).drop markerKey.length =
      markerKey.drop (markerKey.length - text.length) ++ rest := by
    rw [List.append_assoc, List.drop_append, List.drop_of_length_le (Nat.le_of_lt hshort), List.nil_append,
      List.drop_append_of_le_length (Nat.sub_le _ _)]
  obtain ⟨c, cs, hc⟩ := List.exists_cons_of_ne_nil (l := markerKey.drop (markerKey.length - text.length)) (by
    intro hnil
    have hlength := congrArg List.length hnil
    rw [List.length_drop, List.length_nil] at hlength
    omega)
  have hmem : c ∈ markerKey := List.mem_of_mem_drop (hc ▸ List.mem_cons_self)
  obtain ⟨hspace, hcolon⟩ := marker_chars c hmem
  rw [hdrop, hc, List.cons_append, List.dropWhile_cons_of_neg (by simp [hspace])]
  split
  · next heq => exact absurd (List.cons.inj heq).1 hcolon
  · rfl

theorem searchMarker_append (h : occurs foldsTo markerKey text = false) :
    searchMarker (text ++ markerKey ++ rest) = searchMarker (markerKey ++ rest) := by
  induction text with
  | nil => rfl
  | cons c text ih =>
    obtain ⟨hbegins, hrest⟩ := Bool.or_eq_false_iff.mp h
    have hnone : markerAt (c :: text ++ markerKey ++ rest) = none :=
      markerAt_overlap (List.cons_ne_nil c text) hbegins
    rw [← ih hrest]
    change (markerAt (c :: text ++ markerKey ++ rest)).orElse _ = _
    rw [hnone]
    rfl

theorem searchMarker_of_markerAt {cs block : List Char} (h : markerAt cs = some block) : searchMarker cs = some block := by
  cases cs with
  | nil =>
    rw [markerAt, markerKey_eq] at h
    cases h
  | cons c cs => rw [searchMarker, h, Option.orElse_some]

theorem searchMarker_object (body : List Char) :
    searchMarker (markerKey ++ ':' :: ' ' :: '{' :: (body ++ ['}'])) = some ('{' :: (body ++ ['}'])) := by
  apply searchMarker_of_markerAt
  have hself : foldsToPrefix markerKey (markerKey ++ ':' :: ' ' :: '{' :: (body ++ ['}'])) := by
    rw [foldsToPrefix_eq, begins_of_append le_rfl, markerKey_eq]
    decide
  have hblock : (' ' :: '{' :: (body ++ ['}'])).dropWhile isSpace = '{' :: (body ++ ['}']) := rfl
  rw [markerAt, if_pos hself, List.drop_left, List.dropWhile_cons_of_neg (by decide)]
  exact (congrArg jsonBlock hblock).trans (jsonBlock_object body)

end Searching

/-- What is written behind the marker, in any JSON text, is read back, whatever the text before it ends in. -/
theorem parse_marker_append (text : List Char) (d : Doc) (entries : Dict)
    (hmarker : occurs foldsTo markerKey text = false) (hd : d.value = .dict entries .none) :
    parseReportCandidateMarker (text ++ "__report_candidate__: ".toList ++ d.render) = some entries := by
  obtain ⟨body, hbody⟩ := object_braces hd
  have hsplit : text ++ "__report_candidate__: ".toList ++ d.render =
      text ++ markerKey ++ ':' :: ' ' :: d.render := by
    have hkey : "__report_candidate__: ".toList = markerKey ++ [':', ' '] := by decide
    rw [hkey]
    simp only [List.append_assoc, List.cons_append, List.nil_append]
  unfold parseReportCandidateMarker
  rw [hsplit, searchMarker_append hmarker, hbody, searchMarker_object, ← hbody, Option.bind_some, loads_render, hd]

def rawBody (cs : List Char) : Body :=
  cs.filterMap fun c => if h : plain c then some (.raw ⟨c, h⟩) else none

/-- An object whose string holds a brace and a marker with a brace behind it. -/
def trickyObject : Doc :=
  .object [] (.last (rawBody ['q']) [] [] (.string (rawBody ('\x7d' :: (markerKey ++ [':', '\x7b'])))) [])

def trickyEntries : Dict := [(str "q", .str (('\x7d' :: (markerKey ++ [':', '\x7b'])).map Char.toNat))]

theorem parse_marker_tricky : occurs foldsTo markerKey "Save __report_candidate".toList = false ∧
    parseReportCandidateMarker ("Save __report_candidate".toList ++ "__report_candidate__: ".toList ++
      trickyObject.render) = some trickyEntries := by
  have hnone : occurs foldsTo markerKey "Save __report_candidate".toList = false := by decide
  have hvalue : trickyObject.value = .dict trickyEntries .none := by rfl
  exact ⟨hnone, parse_marker_append _ trickyObject trickyEntries hnone hvalue⟩

end AlfredProcessing.Pipeline.MarkerRoundTrip
