import AlfredProcessing.Pipeline.Phases
import AlfredProcessing.Security.SqlSafety

namespace AlfredProcessing.Pipeline.HandoffQuery

open Lib.Json Lib.Effects Extract.Cleaning Extract.Changes Security.SqlSafety
  PostBuild.Backfill PostBuild.ReportHandoff Context Phases

section Marker

/-- `json.loads`. -/
def loads (cs : List Char) : Option Value :=
  match rawDecode (skipWs cs) with
  | some (v, rest) => if (skipWs rest).isEmpty then some v else none
  | none => none

def jsonBlock : List Char → Option (List Char)
  | '{' :: cs =>
    if (cs.rdropWhile (· ≠ '}')).isEmpty then none else some ('{' :: cs.rdropWhile (· ≠ '}'))
  | _ => none

def markerKey : List Char := "__report_candidate__".toList

/-- `_REPORT_CANDIDATE_MARKER_RE` at a position, with the block that it captures. -/
def markerAt (cs : List Char) : Option (List Char) :=
  if foldsToPrefix markerKey cs then
    match (cs.drop markerKey.length).dropWhile isSpace with
    | ':' :: rest => jsonBlock (rest.dropWhile isSpace)
    | _ => none
  else none

def searchMarker : List Char → Option (List Char)
  | [] => none
  | c :: cs => (markerAt (c :: cs)).orElse fun _ => searchMarker cs

/-- `_parse_report_candidate_marker`. -/
def parseReportCandidateMarker (prompt : List Char) : Option Dict :=
  match (searchMarker prompt).bind loads with
  | some (.dict d _) => some d
  | _ => none

end Marker

/-- The characters of a query. A lone surrogate is no letter, no digit, no quote and no
white space, and neither is what stands for it here. -/
def toChars (s : Str) : List Char :=
  s.map fun n => if n.isValidChar then Char.ofNat n else Char.ofNat 0xFFFD

end AlfredProcessing.Pipeline.HandoffQuery
