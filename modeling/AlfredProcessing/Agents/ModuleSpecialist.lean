import AlfredProcessing.PostBuild.Backfill

namespace AlfredProcessing.Agents.ModuleSpecialist

open Lib.Fallible Lib.Json Extract.Changes PostBuild.Backfill

structure ValidationNote where
  severity : Severity
  source : Str
  issue : Str
  field : Option Str := none
  fix : Option Str := none
  changesetIndex : Option Nat := none

def sourceValue : Source → Value
  | .user => .str (str "user")
  | .default => .str (str "default")

def metaValue (m : FieldMeta) : Value :=
  .dict ((str "source", sourceValue m.source) ::
    (m.rationale.map fun r => (str "rationale", Value.str r)).toList) .none

def itemDict (c : Change) : Dict :=
  [(str "op", c.op), (str "doctype", c.doctype), (str "data", .dict c.data .none)] ++
    (c.fieldDefaultsMeta.map fun m =>
      (str "field_defaults_meta", Value.dict (m.map fun e => (e.1, metaValue e.2)) .none)).toList

/-- The walk along a path; nothing is found where the path leaves the
dictionaries, and a missing key reads as `None`. -/
def lookupPath : List Str → Value → Option Value
  | [], v => some v
  | part :: parts, .dict d _ => lookupPath parts ((get part d).getD .null)
  | _ :: _, _ => none

/-- `key.split(".")`. -/
def pathOf (key : Str) : List Str := key.splitOn 46

/-- `_rule_applies`. -/
def ruleApplies (conditions : List (Str × Value)) (item : Dict) : Bool :=
  conditions.all fun c =>
    match lookupPath (pathOf c.1) (.dict item .none) with
    | some actual => pyEq actual c.2
    | none => false

def ruleNote (rule : ValidationRule) (index : Nat) : ValidationNote where
  severity := rule.severity
  source := str "module_rule:" ++ rule.id
  issue := rule.message
  fix := rule.fix
  changesetIndex := some index

/-- `run_rule_validation`. -/
def runRuleValidation (modules : ModuleRegistry) (module : String) (changes : List Change) :
    List ValidationNote :=
  match modules.get module with
  | none => []
  | some kb =>
    changes.zipIdx.flatMap fun p =>
      (kb.validationRules.filter fun rule => ruleApplies rule.conditions (itemDict p.1)).map
        fun rule => ruleNote rule p.2

/-- What comes of asking the module's model: an exception of the code around the
call, no list that can be read, or the entries of the list. -/
inductive NoteReply where
  | raised
  | unreadable
  | entries (xs : List Value)

/-- `_normalise_issue`; `fold` lowers a string and collapses its white space. -/
def normaliseIssue (fold : Str → Str) (v : Value) : Except PyError Str :=
  if v.truthy then
    match v with
    | .str s => .ok (fold s)
    | _ => .error .attributeError
  else .ok []

def readSeverity (v : Value) : Option Severity :=
  if pyEq v (.str (str "advisory")) then some .advisory
  else if pyEq v (.str (str "warning")) then some .warning
  else if pyEq v (.str (str "blocker")) then some .blocker
  else none

def readOptional : Value → Option (Option Str)
  | .null => some none
  | .str s => some (some s)
  | _ => none

def entryNote (module : String) (entry : Dict) : Option ValidationNote := do
  let severity ← readSeverity ((get (str "severity") entry).getD (.str (str "advisory")))
  let issue ← match (get (str "issue") entry).getD (.str []) with
    | .str s => some s
    | _ => none
  let field ← readOptional (pyGet entry "field")
  let fix ← readOptional (pyGet entry "fix")
  return { severity, source := str "module_specialist:" ++ str module, issue, field, fix }

def addEntry (fold : Str → Str) (module : String) (ruleIssues : List Str)
    (notes : List ValidationNote) (entry : Value) : Except PyError (List ValidationNote) :=
  match entry with
  | .dict d _ => do
    let issue ← normaliseIssue fold ((get (str "issue") d).getD (.str []))
    if ruleIssues.contains issue then return notes
    else return notes ++ (entryNote module d).toList
  | _ => return notes

/-- `validate_output`. -/
def validateOutput (fold : Str → Str) (modules : ModuleRegistry) (module : String)
    (changes : List Change) (reply : NoteReply) : Except PyError (List ValidationNote) :=
  if changes.isEmpty || (modules.get module).isNone then .ok []
  else
    let notes := runRuleValidation modules module changes
    match reply with
    | .raised => .error .typeError
    | .unreadable => .ok notes
    | .entries xs =>
      let ruleIssues := notes.map fun n => if n.issue.isEmpty then [] else fold n.issue
      xs.foldlM (addEntry fold module ruleIssues) notes

/-- `cap_secondary_severity`. -/
def capSecondarySeverity (notes : List ValidationNote) : List ValidationNote :=
  notes.map fun n => if n.severity = .blocker then { n with severity := .warning } else n

def RuleApplied (modules : ModuleRegistry) (note : ValidationNote) (item : Change) : Prop :=
  ∃ module kb rule, modules.get module = some kb ∧ rule ∈ kb.validationRules ∧
    ruleApplies rule.conditions (itemDict item) = true ∧ note.source = str "module_rule:" ++ rule.id

/-- A note with an index is about the item there. -/
def Indexed (modules : ModuleRegistry) (changes : List Change) (note : ValidationNote) : Prop :=
  ∀ k, note.changesetIndex = some k → ∃ item, changes[k]? = some item ∧
    RuleApplied modules note item

variable {fold : Str → Str} {modules : ModuleRegistry} {module : String} {changes : List Change}
  {notes notes' : List ValidationNote}

theorem runRuleValidation_indexed (modules : ModuleRegistry) (module : String)
    (changes : List Change) :
    ∀ n ∈ runRuleValidation modules module changes, Indexed modules changes n := by
  unfold runRuleValidation
  split
  · exact nofun
  · next kb hkb =>
    intro n hn k hk
    obtain ⟨p, hp, hn⟩ := List.mem_flatMap.mp hn
    obtain ⟨rule, hrule, rfl⟩ := List.mem_map.mp hn
    obtain ⟨hrule, happlies⟩ := List.mem_filter.mp hrule
    obtain rfl := Option.some.inj hk
    exact ⟨p.1, List.mem_zipIdx_iff_getElem?.mp hp, module, kb, rule, hkb, hrule, happlies, rfl⟩

theorem entryNote_index {entry : Dict} {n : ValidationNote} (h : entryNote module entry = some n) :
    n.changesetIndex = none := by
  obtain ⟨severity, -, h⟩ := Option.bind_eq_some_iff.mp h
  dsimp only at h
  split at h
  · obtain ⟨issue, -, h⟩ := Option.bind_eq_some_iff.mp h
    obtain ⟨field, -, h⟩ := Option.bind_eq_some_iff.mp h
    obtain ⟨fix, -, h⟩ := Option.bind_eq_some_iff.mp h
    obtain rfl := Option.some.inj h
    rfl
  · exact nomatch h

theorem addEntry_indexed {ruleIssues : List Str} {entry : Value}
    (h : addEntry fold module ruleIssues notes entry = .ok notes')
    (hnotes : ∀ n ∈ notes, Indexed modules changes n) :
    ∀ n ∈ notes', Indexed modules changes n := by
  unfold addEntry at h
  split at h
  · obtain ⟨issue, -, h⟩ := bind_eq_ok.mp h
    split at h
    · obtain rfl := Except.ok.inj h
      exact hnotes
    · obtain rfl := Except.ok.inj h
      intro n hn
      rcases List.mem_append.mp hn with hn | hn
      · exact hnotes n hn
      · intro k hk
        rw [entryNote_index (Option.mem_toList.mp hn)] at hk
        exact nomatch hk
  · obtain rfl := Except.ok.inj h
    exact hnotes

theorem validateOutput_indexed {reply : NoteReply}
    (h : validateOutput fold modules module changes reply = .ok notes) :
    ∀ n ∈ notes, Indexed modules changes n := by
  unfold validateOutput at h
  split at h
  · obtain rfl := Except.ok.inj h
    exact nofun
  · dsimp only at h
    split at h
    · exact nomatch h
    · obtain rfl := Except.ok.inj h
      exact runRuleValidation_indexed modules module changes
    · refine foldlM_keeps
        (R := fun s s' => (∀ n ∈ s, Indexed modules changes n) → ∀ n ∈ s', Indexed modules changes n)
        (fun _ h => h) (fun h h' hs => h' (h hs)) (fun hstep => addEntry_indexed hstep) h ?_
      exact runRuleValidation_indexed modules module changes

theorem capSecondarySeverity_indexed (h : ∀ n ∈ notes, Indexed modules changes n) :
    ∀ n ∈ capSecondarySeverity notes, Indexed modules changes n := by
  intro n hn
  obtain ⟨n', hn', rfl⟩ := List.mem_map.mp hn
  split
  · exact h n' hn'
  · exact h n' hn'

end AlfredProcessing.Agents.ModuleSpecialist
