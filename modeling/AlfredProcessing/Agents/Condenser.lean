import AlfredProcessing.Lib.JsonCompact
import AlfredProcessing.Lib.Regex
import AlfredProcessing.Pipeline.HandoffQuery

namespace AlfredProcessing.Agents.Condenser

open Lib.Json Lib.JsonText Lib.JsonCompact Lib.Regex Extract.Cleaning Pipeline.HandoffQuery

section Model

/-- A limit that `json.loads` runs into: on the digits of an integer, which is a `ValueError`, or on the depth. -/
inductive Limit where
  | none
  | digits
  | depth
  deriving DecidableEq

/-- `json`: its floats and its limits. The compact text of a value that was read is no longer in its integers
and no deeper than what was read. -/
structure Decoder where
  floats : Floats
  limit : List Char → Limit
  limit_compact : ∀ cs v, limit cs = .none → loads cs = some v → limit (compact floats (settle floats v)) = .none

inductive Reading where
  | value (v : Value)
  | nothing
  | crashed

variable (d : Decoder)

/-- `json.loads`. -/
def Decoder.read (cs : List Char) : Reading :=
  match d.limit cs with
  | .depth => .crashed
  | .digits => .nothing
  | .none =>
    match loads cs with
    | some v => .value (settle d.floats v)
    | none => .nothing

/-- `_try_parse_json`. What is `None` counts as nothing. -/
def tryParseJson (cs : List Char) : Reading :=
  match d.read cs with
  | .value .null => .nothing
  | r => r

/-- The place behind the bracket that closes the first one. -/
def closing (opens closes : Char) : Nat → Bool → Bool → List Char → Option Nat
  | _, _, _, [] => none
  | depth, inString, true, _ :: cs => (closing opens closes depth inString false cs).map (· + 1)
  | depth, inString, false, c :: cs =>
    if c = '\\' then (closing opens closes depth inString true cs).map (· + 1)
    else if c = '"' then (closing opens closes depth (!inString) false cs).map (· + 1)
    else if inString then (closing opens closes depth inString false cs).map (· + 1)
    else if c = opens then (closing opens closes (depth + 1) inString false cs).map (· + 1)
    else if c = closes then
      if depth = 1 then some 1 else (closing opens closes (depth - 1) inString false cs).map (· + 1)
    else (closing opens closes depth inString false cs).map (· + 1)

/-- `_find_outermost_json`. -/
def findOutermostJson (text : List Char) : Option (List Char) :=
  match text.dropWhile fun c => c ≠ '{' && c ≠ '[' with
  | [] => none
  | c :: cs => (closing c (if c = '{' then '}' else ']') 0 false false (c :: cs)).map fun n => (c :: cs).take n

/-- The group of `_FENCE_RE`. -/
def fenced (text : List Char) : Option (List Char) :=
  search (.seqs [.text "```".toList, .opt (.text "json".toList), .many (.char isSpace)]) (.few (.char fun _ => true))
    (.seq (.many (.char isSpace)) (.text "```".toList)) text

def maxFallbackChars : Nat := 1500

def fallback (text : List Char) : List Char :=
  if maxFallbackChars < text.length then "... (truncated) ...\n".toList ++ text.rtake maxFallbackChars else text

/-- The value of a text or else of the outermost brackets in it. -/
def found (text : List Char) : Reading :=
  match tryParseJson d text with
  | .nothing =>
    match findOutermostJson text with
    | some candidate => tryParseJson d candidate
    | none => .nothing
  | r => r

/-- The text that is searched for a value: the fenced one, where there is a fence. -/
def inner (text : List Char) : List Char :=
  match fenced text with
  | some group => strip group
  | none => text

/-- `condense_raw_output`, none where an exception leaves it. -/
def condenseRawOutput (raw : List Char) : Option (List Char) :=
  if (strip raw).isEmpty then some []
  else
    match found d (inner (strip raw)) with
    | .value w => some (compact d.floats w)
    | .nothing => some (fallback (inner (strip raw)))
    | .crashed => none

/-- `_SKIP_CONDENSE`. -/
def skipCondense : List String := ["generate_changeset", "validate_changeset", "deploy_changeset"]

/-- `_callback`. -/
def callback (raw : List Char) : List Char :=
  if raw.isEmpty then raw
  else
    match condenseRawOutput d raw with
    | some condensed => if raw.length ≤ condensed.length then raw else condensed
    | none => raw

/-- The output of a task after the callback that `make_condenser_callback` makes for it, if any. -/
def output (task : String) (raw : List Char) : List Char :=
  if skipCondense.contains task then raw else callback d raw

/-- What an output says: the value of its stripped text. -/
def Means (raw : List Char) (v : Value) : Prop := d.read (strip raw) = .value v

/-- The value of an output is kept, and no output becomes longer. -/
structure Keeps (task : String) (raw : List Char) : Prop where
  value : ∀ v, Means d raw v → v ≠ .null → Means d (output d task raw) v
  length : (output d task raw).length ≤ raw.length

/-- What is found behind a fence is the value itself, or it is not shorter than the output, or its reading crashes. -/
def FenceUnharmed (raw : List Char) (v : Value) (group : List Char) : Prop :=
  match found d (strip group) with
  | .value w => raw.length ≤ (compact d.floats w).length ∨ w = v
  | .nothing => raw.length ≤ (fallback (strip group)).length
  | .crashed => True

/-- No task output, or none with a value behind a fence that harms it. -/
def Unharmed (task : String) (raw : List Char) : Prop :=
  task ∈ skipCondense ∨ ∀ v, Means d raw v → v ≠ .null → ∀ group, fenced (strip raw) = some group →
    FenceUnharmed d raw v group

end Model

section Edges

variable {f : Floats} {v : Value} {cs t : List Char} {c : Char}

theorem strip_eq_self (hhead : ∀ c ∈ cs.head?, isSpace c = false) (hlast : ∀ c ∈ cs.getLast?, isSpace c = false) :
    strip cs = cs := by
  have hdrop : cs.dropWhile isSpace = cs := by
    cases cs with
    | nil => rfl
    | cons c cs => exact List.dropWhile_cons_of_neg (by simp [hhead c rfl])
  rw [strip, hdrop]
  obtain rfl | ⟨t, c, rfl⟩ := cs.eq_nil_or_concat'
  · rfl
  · have hc := hlast c (by simp)
    exact List.rdropWhile_concat_neg _ _ _ (by simp [hc])

theorem strip_cons (t : List Char) (hc : isSpace c = false) : ∃ u, strip (c :: t) = c :: u := by
  have hdrop : (c :: t).dropWhile isSpace = c :: t := List.dropWhile_cons_of_neg (by simp [hc])
  obtain ⟨u, hu⟩ := List.rdropWhile_prefix isSpace (c :: t)
  rw [strip, hdrop]
  cases hcs : List.rdropWhile isSpace (c :: t) with
  | nil =>
    have hspace := List.rdropWhile_eq_nil_iff.mp hcs c List.mem_cons_self
    rw [hc] at hspace
    cases hspace
  | cons b bs =>
    rw [hcs, List.cons_append] at hu
    exact ⟨bs, by rw [(List.cons.inj hu).1]⟩

theorem strip_of_all (cs : List Char) (h : ∀ c ∈ cs, isSpace c = false) : strip cs = cs :=
  strip_eq_self (fun c hc => h c (List.mem_of_mem_head? hc)) fun c hc => h c (List.mem_of_mem_getLast? hc)

theorem strip_strip (cs : List Char) : strip (strip cs) = strip cs := by
  refine strip_eq_self (fun c hc => ?_) fun c hc => ?_
  · obtain ⟨t, ht⟩ := List.rdropWhile_prefix isSpace (cs.dropWhile isSpace)
    have hhead : (cs.dropWhile isSpace).head? = some c := by
      rw [← ht, List.head?_append]
      exact Option.or_eq_some_iff.mpr (.inl hc)
    have hnot := List.head?_dropWhile_not isSpace cs
    rw [hhead] at hnot
    simpa using hnot
  · have hne : strip cs ≠ [] := by
      rintro h
      rw [h] at hc
      cases hc
    have hlast : ¬isSpace ((strip cs).getLast hne) := List.rdropWhile_last_not isSpace (cs.dropWhile isSpace) hne
    rw [List.getLast?_eq_getLast_of_ne_nil hne, Option.mem_some_iff] at hc
    rw [← hc]
    simpa using hlast

theorem not_space_of_number {n : Number} {c : Char} (hc : c ∈ n.render) : isSpace c = false := by
  have hchar := Lib.Brackets.Number.chars n c hc
  simp only [Lib.Brackets.numberChar, Bool.or_eq_true] at hchar
  rcases hchar with hdigit | hsign
  · have hrange := hdigit
    simp only [Char.isDigit, Bool.and_eq_true, decide_eq_true_eq, UInt32.le_iff_toNat_le] at hrange
    change 48 ≤ c.toNat ∧ c.toNat ≤ 57 at hrange
    simp only [isSpace, spaceCode, Bool.or_eq_false_iff, Bool.and_eq_false_iff, decide_eq_false_iff_not]
    omega
  · have hall : ∀ o ∈ "-+.eE".toList, isSpace o = false := by decide
    exact hall c (List.contains_iff_mem.mp hsign)

theorem compactItems_last (vs : List Value) : ∃ t, compactItems f vs = t ++ [']'] := by
  induction vs with
  | nil => exact ⟨[], rfl⟩
  | cons v vs ih =>
    obtain ⟨t, ht⟩ := ih
    exact ⟨',' :: (compact f v ++ t), by simp [compactItems, ht]⟩

theorem compactMembers_last (es : List (Str × Value)) : ∃ t, compactMembers f es = t ++ ['}'] := by
  induction es with
  | nil => exact ⟨[], rfl⟩
  | cons e es ih =>
    obtain ⟨t, ht⟩ := ih
    exact ⟨',' :: (Lib.JsonDump.quote e.1 ++ ':' :: (compact f e.2 ++ t)), by simp [compactMembers, ht]⟩

theorem strip_compact (hsettled : settle f v = v) (h : Decoded v) : strip (compact f v) = compact f v := by
  have hnumber : ∀ n : Number, n.render = compact f v → strip (compact f v) = compact f v := by
    intro n hn
    rw [← hn]
    exact strip_of_all n.render fun c hc => not_space_of_number hc
  have hbrackets : ∀ (a b : Char) (t : List Char), compact f v = a :: t ++ [b] → isSpace a = false →
      isSpace b = false → strip (compact f v) = compact f v := by
    intro a b t hcompact ha hb
    rw [hcompact]
    refine strip_eq_self (fun c hc => ?_) fun c hc => ?_
    · cases hc
      exact ha
    · rw [List.getLast?_append, List.getLast?_singleton, Option.some_or, Option.mem_some_iff] at hc
      exact hc ▸ hb
  cases v with
  | null => exact strip_of_all ['n', 'u', 'l', 'l'] (by decide)
  | bool b =>
    cases b with
    | false => exact strip_of_all ['f', 'a', 'l', 's', 'e'] (by decide)
    | true => exact strip_of_all ['t', 'r', 'u', 'e'] (by decide)
  | int n =>
    obtain ⟨m, hm, -⟩ := number_int n
    exact hnumber m hm
  | float m e =>
    obtain ⟨n, -, -, hn, -⟩ := f.text_number m e (settle_float hsettled)
    exact hnumber n hn
  | nonFinite x => exact strip_of_all (nonFiniteText x) (by cases x <;> decide)
  | str s => exact hbrackets '"' '"' _ rfl (by decide) (by decide)
  | list xs =>
    cases xs with
    | nil => exact strip_of_all ['[', ']'] (by decide)
    | cons x xs =>
      obtain ⟨t, ht⟩ := compactItems_last (f := f) xs
      exact hbrackets '[' ']' (compact f x ++ t) (by simp [compact, ht]) (by decide) (by decide)
  | dict es strays =>
    cases es with
    | nil => exact strip_of_all ['{', '}'] (by decide)
    | cons e es =>
      obtain ⟨t, ht⟩ := compactMembers_last (f := f) es
      exact hbrackets '{' '}' (Lib.JsonDump.quote e.1 ++ ':' :: (compact f e.2 ++ t)) (by simp [compact, ht]) (by decide)
        (by decide)
  | other => exact h.elim

end Edges

section Soundness

variable {d : Decoder} {task : String} {raw cs : List Char} {v w : Value}

theorem read_value : d.read cs = .value v ↔ d.limit cs = .none ∧ ∃ u, loads cs = some u ∧ settle d.floats u = v := by
  rw [Decoder.read]
  cases d.limit cs with
  | none => cases loads cs <;> simp
  | digits => simp
  | depth => simp

theorem loads_some : loads cs = some v ↔ ∃ rest, rawDecode (skipWs cs) = some (v, rest) ∧ skipWs rest = [] := by
  rw [loads]
  split
  · next u rest h =>
    rw [h]
    constructor
    · intro hv
      split at hv
      · next hrest =>
        cases hv
        exact ⟨rest, rfl, List.isEmpty_iff.mp hrest⟩
      · cases hv
    · rintro ⟨t, hu, ht⟩
      cases hu
      rw [ht]
      rfl
  · next h =>
    constructor
    · intro hv
      cases hv
    · rintro ⟨t, hu, -⟩
      rw [h] at hu
      cases hu

theorem read_compact (h : d.read cs = .value v) : Means d (compact d.floats v) v := by
  obtain ⟨hlimit, u, hu, rfl⟩ := read_value.mp h
  obtain ⟨rest, hdecode, -⟩ := loads_some.mp hu
  obtain ⟨hdecoded, hsettled⟩ := decoded_settle d.floats u (rawDecode_decoded hdecode)
  obtain ⟨u', hread, hu'⟩ := rawDecode_compact hsettled hdecoded
  obtain ⟨c, t, hc, hopens⟩ := compact_head hsettled hdecoded
  rw [Means, strip_compact hsettled hdecoded]
  refine read_value.mpr ⟨d.limit_compact cs u hlimit hu, u', loads_some.mpr ⟨[], ?_, rfl⟩, hu'⟩
  rw [hc, skipWs_opens hopens, ← hc]
  exact hread

theorem tryParseJson_value : tryParseJson d cs = .value v ↔ d.read cs = .value v ∧ v ≠ .null := by
  rw [tryParseJson.eq_def]
  split
  · next h =>
    rw [h]
    constructor
    · intro h
      cases h
    · rintro ⟨h, hne⟩
      cases h
      exact absurd rfl hne
  · next h =>
    refine ⟨fun hv => ⟨hv, ?_⟩, And.left⟩
    rintro rfl
    exact h hv

theorem found_value (h : found d cs = .value w) : ∃ u, d.read u = .value w := by
  rw [found.eq_def] at h
  split at h
  · split at h
    · next candidate _ => exact ⟨candidate, (tryParseJson_value.mp h).1⟩
    · cases h
  · exact ⟨cs, (tryParseJson_value.mp h).1⟩

theorem found_self (h : d.read cs = .value v) (hne : v ≠ .null) : found d cs = .value v := by
  rw [found, tryParseJson_value.mpr ⟨h, hne⟩]

theorem not_means_of_nothing (h : found d cs = .nothing) (hne : v ≠ .null) : d.read cs ≠ .value v := by
  intro hread
  rw [found_self hread hne] at h
  cases h

theorem loads_dot (t : List Char) : loads ('.' :: t) = none := by
  have hscan : ∀ n, scanOnce n ('.' :: t) = none := by
    rintro (_ | n)
    · rw [scanOnce]
    · rw [scanOnce]
      · rw [scanNumber, scanInt]
        · simp [List.span_eq_takeWhile_dropWhile]
        · intro _ h
          cases h
      all_goals
        intro _ h
        cases h
  rw [loads, skipWs, List.dropWhile_cons_of_neg (by decide), rawDecode, hscan]

theorem not_means_truncated (t : List Char) : ¬Means d ("... (truncated) ...\n".toList ++ t) v := by
  have hmark : "... (truncated) ...\n".toList = '.' :: ".. (truncated) ...\n".toList := by simp
  have hdot : isSpace '.' = false := by decide
  obtain ⟨u, hu⟩ := strip_cons (".. (truncated) ...\n".toList ++ t) hdot
  rw [Means, hmark, List.cons_append, hu]
  intro h
  obtain ⟨-, w, hw, -⟩ := read_value.mp h
  rw [loads_dot] at hw
  cases hw

theorem not_means_fallback (h : found d (strip cs) = .nothing) (hne : v ≠ .null) : ¬Means d (fallback (strip cs)) v := by
  rw [fallback]
  split
  · exact not_means_truncated _
  · rw [Means, strip_strip]
    exact not_means_of_nothing h hne

theorem callback_of_some {c : List Char} (hraw : raw ≠ []) (h : condenseRawOutput d raw = some c) :
    callback d raw = if raw.length ≤ c.length then raw else c := by
  have hempty : raw.isEmpty = false := by simpa using hraw
  rw [callback, hempty, h]
  rfl

theorem callback_length (d : Decoder) (raw : List Char) : (callback d raw).length ≤ raw.length := by
  rw [callback]
  split
  · exact le_rfl
  · split
    · split
      · exact le_rfl
      · omega
    · exact le_rfl

/-- One output: the value survives the callback exactly where the fence, if any, is harmless. -/
theorem means_callback_iff (hv : Means d raw v) (hne : v ≠ .null) :
    Means d (callback d raw) v ↔ ∀ group, fenced (strip raw) = some group → FenceUnharmed d raw v group := by
  have hstrip : strip raw ≠ [] := by
    intro h
    rw [Means, h] at hv
    obtain ⟨-, u, hu, -⟩ := read_value.mp hv
    cases hu
  have hraw : raw ≠ [] := by
    rintro rfl
    exact hstrip rfl
  have hempty : (strip raw).isEmpty = false := by simpa using hstrip
  cases hfence : fenced (strip raw) with
  | none =>
    have hcondensed : condenseRawOutput d raw = some (compact d.floats v) := by
      rw [condenseRawOutput, hempty, inner, hfence, found_self hv hne]
      rfl
    rw [callback_of_some hraw hcondensed]
    constructor
    · intro _ group hgroup
      cases hgroup
    · intro _
      split
      · exact hv
      · exact read_compact hv
  | some group =>
    have hinner : inner (strip raw) = strip group := by rw [inner, hfence]
    have hone : (∀ g, some group = some g → FenceUnharmed d raw v g) ↔ FenceUnharmed d raw v group :=
      ⟨fun h => h group rfl, fun h g hg => Option.some.inj hg ▸ h⟩
    rw [hone, FenceUnharmed]
    cases hfound : found d (strip group) with
    | value w =>
      have hcondensed : condenseRawOutput d raw = some (compact d.floats w) := by
        rw [condenseRawOutput, hempty, hinner, hfound]
        rfl
      obtain ⟨u, hu⟩ := found_value hfound
      rw [callback_of_some hraw hcondensed]
      split
      · next hle => exact ⟨fun _ => .inl hle, fun _ => hv⟩
      · next hlt =>
        constructor
        · intro h
          rw [Means, (read_compact hu : d.read _ = _)] at h
          cases h
          exact .inr rfl
        · rintro (hle | rfl)
          · exact absurd hle hlt
          · exact read_compact hu
    | nothing =>
      have hcondensed : condenseRawOutput d raw = some (fallback (strip group)) := by
        rw [condenseRawOutput, hempty, hinner, hfound]
        rfl
      rw [callback_of_some hraw hcondensed]
      split
      · next hle => exact ⟨fun _ => hle, fun _ => hv⟩
      · next hlt =>
        exact ⟨fun h => absurd h (not_means_fallback hfound hne), fun hle => absurd hle hlt⟩
    | crashed =>
      have hcondensed : condenseRawOutput d raw = none := by
        rw [condenseRawOutput, hempty, hinner, hfound]
        rfl
      rw [callback, hcondensed]
      split <;> exact ⟨fun _ => trivial, fun _ => hv⟩

theorem condenser_keeps_iff (d : Decoder) (task : String) (raw : List Char) :
    Keeps d task raw ↔ Unharmed d task raw := by
  by_cases hskip : task ∈ skipCondense
  · have houtput : output d task raw = raw := by rw [output, if_pos (List.contains_iff_mem.mpr hskip)]
    refine ⟨fun _ => .inl hskip, fun _ => ⟨fun v hv _ => ?_, ?_⟩⟩
    · rw [houtput]
      exact hv
    · rw [houtput]
  · have houtput : output d task raw = callback d raw := by
      rw [output, if_neg (by rwa [List.contains_iff_mem])]
    constructor
    · rintro ⟨hkeeps, -⟩
      refine .inr fun v hv hne => ?_
      have hmeans := hkeeps v hv hne
      rw [houtput] at hmeans
      exact (means_callback_iff hv hne).mp hmeans
    · rintro (hmem | hunharmed)
      · exact absurd hmem hskip
      · refine ⟨fun v hv hne => ?_, ?_⟩
        · rw [houtput]
          exact (means_callback_iff hv hne).mpr (hunharmed v hv hne)
        · rw [houtput]
          exact callback_length d raw

end Soundness

section Counterexample

def zeros : Decoder where
  floats := {
    read := fun _ _ => .float 0 0
    text := fun _ _ => ['0', '.', '0']
    read_cases := fun _ _ => .inl ⟨0, 0, rfl⟩
    read_read := fun _ _ _ _ h => h
    text_number := fun m e h =>
      ⟨{ negative := false, int := .zero, frac := some (⟨'0', by decide⟩, []), exp := none }, 0, -1, rfl, rfl, h⟩ }
  limit := fun _ => .none
  limit_compact := fun _ _ _ _ => rfl

def fencedString : List Char := "\x7b\"a\":\"```1```\"\x7d".toList

theorem means_of_loads (raw text : List Char)
    (h : (loads (strip raw)).map (fun u => compact zeros.floats (settle zeros.floats u)) = some text) :
    ∃ v, Means zeros raw v ∧ compact zeros.floats v = text := by
  obtain ⟨u, hu, htext⟩ := Option.map_eq_some_iff.mp h
  exact ⟨settle zeros.floats u, read_value.mpr ⟨rfl, u, hu, rfl⟩, htext⟩

/-- The number behind the fence takes the place of the object around it. -/
theorem fenced_string_replaces : ¬Keeps zeros "gather_requirements" fencedString := by
  intro h
  have houtput : output zeros "gather_requirements" fencedString = ['1'] := by decide +kernel
  obtain ⟨v, hmeans, hobject⟩ := means_of_loads fencedString fencedString (by decide +kernel)
  obtain ⟨w, hnumber, hone⟩ := means_of_loads ['1'] ['1'] (by decide +kernel)
  have hne : v ≠ .null := by
    rintro rfl
    exact absurd hobject (by decide +kernel)
  have hkept := h.value v hmeans hne
  rw [houtput, Means, (hnumber : zeros.read _ = _)] at hkept
  cases hkept
  exact absurd (hobject.symm.trans hone) (by decide +kernel)

end Counterexample

end AlfredProcessing.Agents.Condenser
