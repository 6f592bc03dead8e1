import AlfredProcessing.Agents.ModuleSpecialist
import AlfredProcessing.Orchestrator.Classify
import AlfredProcessing.Pipeline.HandoffQuery
import Mathlib.Data.List.Nodup

namespace AlfredProcessing.Agents.NoteMerging

open Lib.Json Extract.Changes Extract.Cleaning PostBuild.Backfill ModuleSpecialist
open Orchestrator.Classify (splitlines fenceMark)
open Pipeline.HandoffQuery (loads)

section Model

/-- What `json` raises on apart from text that is no JSON: a text in which the decoder runs into its
limit on the digits of an integer or on the depth, and changes that hold what JSON does not have. -/
structure Codec where
  overruns : List Char → Bool
  serialises : List Change → Bool

/-- What comes of the call of the model: an exception, or a text. -/
inductive Chat where
  | failed
  | replied (raw : List Char)

/-- `_strip_code_fences`. -/
def stripCodeFences (text : List Char) : List Char :=
  let cleaned := strip text
  if fenceMark.isPrefixOf cleaned then
    let lines := splitlines cleaned
    let lines := if fenceMark.isPrefixOf (lines.head?.getD []) then lines.tail else lines
    let lines := if fenceMark.isPrefixOf (lines.getLast?.getD []) then lines.dropLast else lines
    strip (lines.intersperse ['\n']).flatten
  else cleaned

def listAt (cs : List Char) : Option (List Value) :=
  match rawDecode cs with
  | some (.list xs, _) => some xs
  | _ => none

def listOf (cs : List Char) : Option (List Value) :=
  match loads cs with
  | some (.list xs) => some xs
  | _ => none

variable (c : Codec)

def scanForList : List Char → NoteReply
  | [] => .unreadable
  | '[' :: cs =>
    if c.overruns ('[' :: cs) then .raised
    else
      match listAt ('[' :: cs) with
      | some xs => .entries xs
      | none => scanForList cs
  | _ :: cs => scanForList cs

/-- `_parse_llm_note_list`. -/
def parseLlmNoteList (raw : List Char) : NoteReply :=
  if raw.isEmpty then .unreadable
  else
    let cleaned := stripCodeFences raw
    if c.overruns (skipWs cleaned) then .raised
    else
      match listOf cleaned with
      | some xs => .entries xs
      | none => scanForList c cleaned

def noteReply : Chat → NoteReply
  | .failed => .unreadable
  | .replied raw => parseLlmNoteList c raw

variable (fold : Str → Str) (modules : ModuleRegistry) (module : String) (changes : List Change) (chat : Chat)

/-- `validate_output`, with the call of the model. -/
def validate : Except PyError (List ValidationNote) :=
  if changes.isEmpty || (modules.get module).isNone then .ok []
  else if c.serialises changes then validateOutput fold modules module changes (noteReply c chat)
  else .error .typeError

/-- `_normalise_issue` of a text, or of what counts as none. -/
def normalised : Value → Str
  | .str s => if s.isEmpty then [] else fold s
  | _ => []

def issueOf (entry : Dict) : Value := (get (str "issue") entry).getD (.str [])

/-- The rule notes stand first, and behind them those of the model, none of which says what a note
before it says. -/
def Merged (r : Except PyError (List ValidationNote)) : Prop :=
  ∃ llm, r = .ok (runRuleValidation modules module changes ++ llm) ∧
    (∀ n ∈ llm, n.source = str "module_specialist:" ++ str module) ∧
    ∀ front n behind, llm = front ++ n :: behind →
      ∀ e ∈ runRuleValidation modules module changes ++ front,
        normalised fold (.str e.issue) ≠ normalised fold (.str n.issue)

def IssueText (entry : Value) : Prop :=
  ∀ d, asDict entry = some d → (issueOf d).truthy → ∃ s, issueOf d = .str s

def ruleIssues : List Str :=
  (runRuleValidation modules module changes).map fun n => if n.issue.isEmpty then [] else fold n.issue

/-- The note of an entry that repeats no issue of a rule. -/
def noteOf (issues : List Str) (entry : Value) : Option ValidationNote :=
  (asDict entry).bind fun d =>
    if issues.contains (normalised fold (issueOf d)) then none else entryNote module d

/-- At no bracket that the scan gets to, where no list opens before, the decoder meets a limit. -/
def ScanWithin (cs : List Char) : Prop :=
  ∀ before behind, cs = before ++ '[' :: behind →
    (∀ p q, before = p ++ '[' :: q → listAt ('[' :: (q ++ '[' :: behind)) = none) →
      c.overruns ('[' :: behind) = false

def WithinLimits (raw : List Char) : Prop :=
  raw = [] ∨ c.overruns (skipWs (stripCodeFences raw)) = false ∧
    (listOf (stripCodeFences raw) = none → ScanWithin c (stripCodeFences raw))

/-- The changes are JSON, the reply can be read or not, and its entries have issues that are texts, no
two of which are the same among those that make a note. -/
def Mergeable : Prop :=
  changes = [] ∨ modules.get module = none ∨ c.serialises changes = true ∧
    match chat with
    | .failed => True
    | .replied raw =>
      WithinLimits c raw ∧ ∀ xs, parseLlmNoteList c raw = .entries xs →
        (∀ entry ∈ xs, IssueText entry) ∧
          ((xs.filterMap (noteOf fold module (ruleIssues fold modules module changes))).map
            fun n => normalised fold (.str n.issue)).Nodup

end Model

section Reading

variable {c : Codec}

theorem scanWithin_nil : ScanWithin c [] := by
  intro before behind h
  exact absurd h.symm (List.append_ne_nil_of_right_ne_nil _ (List.cons_ne_nil _ _))

theorem scanWithin_cons {a : Char} {cs : List Char} (h : a = '[' → listAt (a :: cs) = none) :
    ScanWithin c (a :: cs) ↔ (a = '[' → c.overruns (a :: cs) = false) ∧ ScanWithin c cs := by
  constructor
  · intro hall
    refine ⟨fun ha => ?_, fun before behind heq hbefore => ?_⟩
    · subst ha
      exact hall [] cs rfl fun p q hp => absurd hp.symm (List.append_ne_nil_of_right_ne_nil _ (List.cons_ne_nil _ _))
    · refine hall (a :: before) behind (congrArg _ heq) fun p q hp => ?_
      obtain ⟨rfl, hq⟩ | ⟨p', rfl, hp'⟩ := List.cons_eq_append_iff.mp hp
      · obtain ⟨rfl, rfl⟩ := List.cons.inj hq
        rw [← heq]
        exact h rfl
      · exact hbefore p' q hp'
  · rintro ⟨hhead, hrest⟩ before behind heq hbefore
    obtain ⟨rfl, hq⟩ | ⟨before', rfl, heq'⟩ := List.cons_eq_append_iff.mp heq
    · obtain ⟨rfl, rfl⟩ := List.cons.inj hq
      exact hhead rfl
    · exact hrest before' behind heq' fun p q hp => hbefore (a :: p) q (congrArg _ hp)

theorem scanWithin_list {cs : List Char} {xs : List Value} (h : listAt ('[' :: cs) = some xs) :
    ScanWithin c ('[' :: cs) ↔ c.overruns ('[' :: cs) = false := by
  constructor
  · intro hall
    exact hall [] cs rfl fun p q hp => absurd hp.symm (List.append_ne_nil_of_right_ne_nil _ (List.cons_ne_nil _ _))
  · intro hhead before behind heq hbefore
    obtain ⟨rfl, hq⟩ | ⟨before', rfl, heq'⟩ := List.cons_eq_append_iff.mp heq
    · obtain ⟨-, rfl⟩ := List.cons.inj hq
      exact hhead
    · rw [heq', hbefore [] before' rfl] at h
      cases h

theorem scanForList_raised (cs : List Char) : scanForList c cs ≠ .raised ↔ ScanWithin c cs := by
  induction cs with
  | nil => exact iff_of_true NoteReply.noConfusion scanWithin_nil
  | cons a cs ih =>
    by_cases ha : a = '['
    · subst ha
      rw [scanForList]
      cases hlist : listAt ('[' :: cs) with
      | some xs =>
        rw [scanWithin_list hlist]
        split_ifs with hover <;> simp [hover]
      | none =>
        rw [scanWithin_cons fun _ => hlist]
        split_ifs with hover
        · simp [hover]
        · simpa [hover] using ih
    · have hskip : scanForList c (a :: cs) = scanForList c cs := by
        rw [scanForList]
        exact ha
      rw [hskip, ih, scanWithin_cons fun h => absurd h ha]
      exact ⟨fun h => ⟨fun h' => absurd h' ha, h⟩, And.right⟩

theorem parse_raised (raw : List Char) : parseLlmNoteList c raw ≠ .raised ↔ WithinLimits c raw := by
  unfold parseLlmNoteList WithinLimits
  by_cases hempty : raw = []
  · rw [hempty]
    exact iff_of_true NoteReply.noConfusion (.inl rfl)
  · rw [if_neg (by simpa using hempty)]
    dsimp only
    cases hover : c.overruns (skipWs (stripCodeFences raw)) with
    | true => simp [hempty]
    | false =>
      cases hlist : listOf (stripCodeFences raw) with
      | some xs => simp
      | none => simpa [hempty] using scanForList_raised (stripCodeFences raw)

end Reading

section Merging

variable {c : Codec} {fold : Str → Str} {modules : ModuleRegistry} {module : String} {changes : List Change}
  {chat : Chat} {issues : List Str} {notes : List ValidationNote} {entry : Value} {entries : List Value}

theorem normaliseIssue_ok {v : Value} (h : v.truthy → ∃ s, v = .str s) :
    normaliseIssue fold v = .ok (normalised fold v) := by
  by_cases htruthy : v.truthy
  · obtain ⟨s, rfl⟩ := h htruthy
    have hs : ¬s.isEmpty := by simpa [Value.truthy] using htruthy
    rw [normaliseIssue, if_pos htruthy, normalised, if_neg hs]
  · refine (if_neg htruthy).trans ?_
    cases v with
    | str s =>
      have hs : s.isEmpty := by simpa [Value.truthy] using htruthy
      rw [normalised, if_pos hs]
    | _ => rfl

theorem normaliseIssue_error {v : Value} (h : v.truthy) (hno : ¬∃ s, v = .str s) :
    normaliseIssue fold v = .error .attributeError := by
  cases v with
  | str s => exact absurd ⟨s, rfl⟩ hno
  | _ => exact if_pos h

theorem addEntry_dict (d : Dict) (strays : Strays) : addEntry fold module issues notes (.dict d strays) =
    (do
      let issue ← normaliseIssue fold (issueOf d)
      if issues.contains issue then return notes
      else return notes ++ (entryNote module d).toList) := rfl

theorem addEntry_ok (h : IssueText entry) : addEntry fold module issues notes entry =
    .ok (notes ++ (noteOf fold module issues entry).toList) := by
  cases entry with
  | dict d strays =>
    have hissue : normaliseIssue fold (issueOf d) = .ok (normalised fold (issueOf d)) :=
      normaliseIssue_ok (h d rfl)
    have hnote : noteOf fold module issues (.dict d strays) =
        if issues.contains (normalised fold (issueOf d)) then none else entryNote module d := rfl
    rw [addEntry_dict, hissue, hnote]
    by_cases hrepeats : issues.contains (normalised fold (issueOf d))
    · rw [if_pos hrepeats, Option.toList_none, List.append_nil]
      exact if_pos hrepeats
    · rw [if_neg hrepeats]
      exact if_neg hrepeats
  | _ => exact congrArg Except.ok (List.append_nil notes).symm

theorem addEntry_error (h : ¬IssueText entry) :
    addEntry fold module issues notes entry = .error .attributeError := by
  unfold IssueText at h
  push Not at h
  obtain ⟨d, hd, htruthy, hno⟩ := h
  cases entry with
  | dict d' strays =>
    cases hd
    rw [addEntry_dict, normaliseIssue_error htruthy fun ⟨s, hs⟩ => hno s hs]
    rfl
  | _ => cases hd

theorem addEntries_ok (h : ∀ entry ∈ entries, IssueText entry) : entries.foldlM (addEntry fold module issues) notes =
    .ok (notes ++ entries.filterMap (noteOf fold module issues)) := by
  induction entries generalizing notes with
  | nil => exact congrArg Except.ok (List.append_nil notes).symm
  | cons entry entries ih =>
    obtain ⟨hentry, hrest⟩ := List.forall_mem_cons.mp h
    rw [List.foldlM_cons, addEntry_ok hentry]
    refine (ih hrest).trans (congrArg Except.ok ?_)
    rw [List.append_assoc]
    cases hnote : noteOf fold module issues entry with
    | none => rw [List.filterMap_cons_none hnote]; rfl
    | some n => rw [List.filterMap_cons_some hnote]; rfl

theorem addEntries_error (h : ¬∀ entry ∈ entries, IssueText entry) :
    entries.foldlM (addEntry fold module issues) notes = .error .attributeError := by
  induction entries generalizing notes with
  | nil => exact absurd (List.forall_mem_nil _) h
  | cons entry entries ih =>
    rw [List.foldlM_cons]
    by_cases hentry : IssueText entry
    · rw [addEntry_ok hentry]
      exact ih fun hrest => h (List.forall_mem_cons.mpr ⟨hentry, hrest⟩)
    · rw [addEntry_error hentry]
      rfl

theorem entryNote_eq {d : Dict} {n : ValidationNote} (h : entryNote module d = some n) :
    issueOf d = .str n.issue ∧ n.source = str "module_specialist:" ++ str module := by
  obtain ⟨severity, -, h⟩ := Option.bind_eq_some_iff.mp h
  dsimp only at h
  split at h
  · next s hs =>
    obtain ⟨issue, hissue, h⟩ := Option.bind_eq_some_iff.mp h
    cases hissue
    obtain ⟨field, -, h⟩ := Option.bind_eq_some_iff.mp h
    obtain ⟨fix, -, h⟩ := Option.bind_eq_some_iff.mp h
    cases h
    exact ⟨hs, rfl⟩
  · cases h

theorem noteOf_eq {n : ValidationNote} (h : noteOf fold module issues entry = some n) :
    n.source = str "module_specialist:" ++ str module ∧ normalised fold (.str n.issue) ∉ issues := by
  obtain ⟨d, -, h⟩ := Option.bind_eq_some_iff.mp h
  split_ifs at h with hrepeats
  obtain ⟨hissue, hsource⟩ := entryNote_eq h
  rw [← hissue]
  exact ⟨hsource, by simpa using hrepeats⟩

theorem mem_ruleIssues {n : ValidationNote} (h : n ∈ runRuleValidation modules module changes) :
    normalised fold (.str n.issue) ∈ ruleIssues fold modules module changes := List.mem_map_of_mem h

theorem nodup_map_iff_split {α β : Type} {xs : List α} {f : α → β} :
    (xs.map f).Nodup ↔ ∀ front x behind, xs = front ++ x :: behind → ∀ e ∈ front, f e ≠ f x := by
  constructor
  · rintro h front x behind rfl e he heq
    rw [List.map_append, List.map_cons, List.nodup_append] at h
    exact h.2.2 (f e) (List.mem_map_of_mem he) (f x) List.mem_cons_self heq
  · intro h
    induction xs using List.reverseRecOn with
    | nil => exact List.nodup_nil
    | append_singleton xs x ih =>
      rw [List.map_append, List.nodup_append]
      refine ⟨ih fun front y behind hxs => h front y (behind ++ [x]) (by simp [hxs]), List.nodup_singleton _, ?_⟩
      intro a ha b hb
      obtain ⟨e, he, rfl⟩ := List.mem_map.mp ha
      obtain rfl := List.mem_singleton.mp hb
      exact h xs x [] rfl e he

theorem merged_notes {xs : List Value} : Merged fold modules module changes
      (.ok (runRuleValidation modules module changes ++
        xs.filterMap (noteOf fold module (ruleIssues fold modules module changes)))) ↔
    ((xs.filterMap (noteOf fold module (ruleIssues fold modules module changes))).map
      fun n => normalised fold (.str n.issue)).Nodup := by
  rw [nodup_map_iff_split]
  constructor
  · rintro ⟨llm, hr, -, hnew⟩ front n behind heq e he
    have hllm : xs.filterMap (noteOf fold module (ruleIssues fold modules module changes)) = llm :=
      List.append_cancel_left (Except.ok.inj hr)
    exact hnew front n behind (hllm.symm.trans heq) e (List.mem_append_right _ he)
  · intro hnodup
    refine ⟨_, rfl, fun n hn => ?_, fun front n behind heq e he => ?_⟩
    · obtain ⟨entry, -, hnote⟩ := List.mem_filterMap.mp hn
      exact (noteOf_eq hnote).1
    · obtain he | he := List.mem_append.mp he
      · have hn : n ∈ xs.filterMap (noteOf fold module (ruleIssues fold modules module changes)) := by
          rw [heq]
          exact List.mem_append_right _ List.mem_cons_self
        obtain ⟨entry, -, hnote⟩ := List.mem_filterMap.mp hn
        intro hsame
        exact (noteOf_eq hnote).2 (hsame ▸ mem_ruleIssues he)
      · exact hnodup front n behind heq e he

theorem merged_rules : Merged fold modules module changes (.ok (runRuleValidation modules module changes)) := by
  refine ⟨[], congrArg Except.ok (List.append_nil _).symm, List.forall_mem_nil _, fun front n behind h => ?_⟩
  exact absurd h.symm (List.append_ne_nil_of_right_ne_nil _ (List.cons_ne_nil _ _))

theorem runRuleValidation_nil (h : changes = [] ∨ modules.get module = none) :
    runRuleValidation modules module changes = [] := by
  unfold runRuleValidation
  obtain rfl | h := h
  · cases modules.get module <;> rfl
  · rw [h]

theorem not_merged_error {e : PyError} : ¬Merged fold modules module changes (.error e) := by
  rintro ⟨llm, h, -⟩
  cases h

/-- For every reply, the notes are merged just where the reply can be. -/
theorem validate_merges_iff (c : Codec) (fold : Str → Str) (modules : ModuleRegistry) (module : String)
    (changes : List Change) (chat : Chat) :
    Merged fold modules module changes (validate c fold modules module changes chat) ↔
      Mergeable c fold modules module changes chat := by
  by_cases hidle : changes = [] ∨ modules.get module = none
  · have hrun : validate c fold modules module changes chat = .ok (runRuleValidation modules module changes) := by
      rw [runRuleValidation_nil hidle]
      exact if_pos (by simpa using hidle)
    rw [hrun]
    exact iff_of_true merged_rules (or_assoc.mp (.inl hidle))
  have hbusy : ¬(changes.isEmpty || (modules.get module).isNone) := by simpa using hidle
  unfold Mergeable
  rw [← or_assoc, or_iff_right hidle]
  cases hserialises : c.serialises changes with
  | false =>
    have hrun : validate c fold modules module changes chat = .error .typeError := by
      unfold validate
      rw [if_neg hbusy, hserialises]
      rfl
    rw [hrun]
    exact iff_of_false not_merged_error fun h => by cases h.1
  | true =>
    have hrun : validate c fold modules module changes chat =
        validateOutput fold modules module changes (noteReply c chat) := by
      unfold validate
      rw [if_neg hbusy, hserialises]
      rfl
    rw [hrun]
    unfold validateOutput
    rw [if_neg hbusy]
    cases chat with
    | failed => exact iff_of_true merged_rules ⟨rfl, trivial⟩
    | replied raw =>
      dsimp only [noteReply]
      rw [← parse_raised]
      cases parseLlmNoteList c raw with
      | raised => exact iff_of_false not_merged_error fun h => h.2.1 rfl
      | unreadable => exact iff_of_true merged_rules ⟨rfl, by simp⟩
      | entries xs =>
        change Merged fold modules module changes
          (xs.foldlM (addEntry fold module (ruleIssues fold modules module changes))
            (runRuleValidation modules module changes)) ↔ _
        by_cases htexts : ∀ entry ∈ xs, IssueText entry
        · rw [addEntries_ok htexts, merged_notes]
          constructor
          · intro h
            exact ⟨rfl, NoteReply.noConfusion, fun ys hys => by cases hys; exact ⟨htexts, h⟩⟩
          · rintro ⟨-, -, h⟩
            exact (h xs rfl).2
        · rw [addEntries_error htexts]
          exact iff_of_false not_merged_error fun h => htexts (h.2.2 xs rfl).1

def plainCodec : Codec where
  overruns _ := false
  serialises _ := true

def plainModules : ModuleRegistry := [("hr", { displayName := str "HR" })]

def oneChange : Change := { op := .str (str "create"), doctype := .str (str "Notification"), data := [] }

/-- A reply with a note whose issue is a number. -/
theorem numbered_issue_raises : ¬Merged id plainModules "hr" [oneChange]
    (validate plainCodec id plainModules "hr" [oneChange]
      (.replied ['[', '\x7b', '"', 'i', 's', 's', 'u', 'e', '"', ':', '5', '\x7d', ']'])) := by
  rintro ⟨llm, h, -⟩
  cases h

end Merging

end AlfredProcessing.Agents.NoteMerging
