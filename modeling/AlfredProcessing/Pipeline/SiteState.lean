import AlfredProcessing.Lib.Fill
import AlfredProcessing.Lib.PyRepr
import AlfredProcessing.State.MemoryRendering
import AlfredProcessing.Tools.Objects
import Mathlib.Data.List.Sort

namespace AlfredProcessing.Pipeline.SiteState

open Lib Lib.Json Lib.Fill Extract.Changes Extract.Cleaning State.MemoryRendering Tools.Objects

section Model

/-- `repr`, and `int` of what is neither an integer nor a boolean. -/
structure Python where
  repr : PyRepr.Texts
  int : Value → Option Int

variable (py : Python)

/-- `f"{v}"`. -/
def Python.text : Value → Str
  | .str s => s
  | v => (PyRepr.repr py.repr v).map Char.toNat

/-- `f"{v!r}"`. -/
def Python.quoted (v : Value) : Str := (PyRepr.repr py.repr v).map Char.toNat

def Python.toInt : Value → Option Int
  | .int n => some n
  | .bool b => some (if b then 1 else 0)
  | v => py.int v

/-- `f"{d.get(key)}"`. -/
def shown (d : Dict) (key : String) : Str := py.text (pyGet d key)

/-- `f"{d.get(key) or default}"`. -/
def shownOr (d : Dict) (key default : String) : Str := py.text (pyOr (pyGet d key) (.str (str default)))

/-- What a loop over `d.get(key) or []` goes through, none where there is no such loop. -/
def elements (d : Dict) (key : String) : Option (List Value) :=
  (iterate (pyOr (pyGet d key) (.list []))).toOption

def orText (s : Str) (default : String) : Str := if s.isEmpty then str default else s

def stateText (v : Value) : Option Str := do
  let s ← asDict v
  return shown py s "state" ++ str " [" ++ shownOr py s "allow_edit" "-" ++ str "]"

def transitionText (v : Value) : Option Str := do
  let t ← asDict v
  return shown py t "state" ++ str " --" ++ shown py t "action" ++ str "--> " ++ shown py t "next_state"

def natText (n : Nat) : Str := (PyRepr.intText n).map Char.toNat

def transitionSummary (transitions : List Value) : Option Str :=
  if transitions.isEmpty then some (str "no transitions")
  else do
    let texts ← (transitions.take 4).mapM (transitionText py)
    return join (str ", ") texts ++
      if 4 < transitions.length then str " (+" ++ natText (transitions.length - 4) ++ str " more)" else []

def workflowBlock (v : Value) : Option Str := do
  let wf ← asDict v
  let states ← elements wf "states"
  let transitions ← elements wf "transitions"
  let stateTexts ← states.mapM (stateText py)
  let summary ← transitionSummary py transitions
  return str "Workflow: " ++ shown py wf "name" ++
    str (if (pyGet wf "is_active").truthy then " (active, field: " else " (inactive, field: ") ++
    shownOr py wf "workflow_state_field" "-" ++ str ")\n  states: " ++
    orText (join (str " -> ") stateTexts) "-" ++ str "\n  transitions: " ++ summary

def lineBreak (n : Nat) : Bool :=
  (10 ≤ n && n ≤ 13) || (28 ≤ n && n ≤ 30) || n = 0x85 || n = 0x2028 || n = 0x2029

/-- `str.splitlines` on code points. -/
def splitlines : Str → List Str
  | [] => []
  | 13 :: 10 :: cs => [] :: splitlines cs
  | c :: cs =>
    if lineBreak c then [] :: splitlines cs
    else
      match splitlines cs with
      | [] => [[c]]
      | l :: ls => (c :: l) :: ls

/-- `(v or "")` where a method of a text is called on it. -/
def orEmptyText (v : Value) : Option Str :=
  if v.truthy then
    match v with
    | .str s => some s
    | _ => none
  else some []

def bodyPreview (script : Str) : Str :=
  orText (join (str "\n") (((splitlines (stripped script)).take 8).map fun l => str "    " ++ l)) "    (empty)"

def scriptBlock (v : Value) : Option Str := do
  let s ← asDict v
  let script ← orEmptyText (pyGet s "script")
  return str "Server Script: " ++ shown py s "name" ++ str " (" ++
    py.text (pyOr (pyOr (pyGet s "doctype_event") (pyGet s "script_type")) (.str (str "?"))) ++
    str (if (pyGet s "disabled").truthy then ", disabled)" else ", enabled)") ++
    str "\n  body preview:\n" ++ bodyPreview script

/-- `int(s.get("disabled") or 0)`. -/
def scriptKey (v : Value) : Option Int := do
  let s ← asDict v
  py.toInt (pyOr (pyGet s "disabled") (.int 0))

def sortScripts (scripts : List Value) : Option (List Value) := do
  let keys ← scripts.mapM (scriptKey py)
  return ((keys.zip scripts).insertionSort fun a b => a.1 ≤ b.1).map Prod.snd

def optionsText (f : Dict) : Option Str :=
  let options := pyGet f "options"
  let fieldtype := pyGet f "fieldtype"
  if options.truthy && (isStr fieldtype "Select" || isStr fieldtype "Link") then
    match options with
    | .str s => some (str " (options: " ++ s.map (fun c => if c = 10 then 44 else c) ++ str ")")
    | _ => none
  else some []

def fieldLine (v : Value) : Option Str := do
  let f ← asDict v
  let extra ← optionsText f
  return str "  - " ++ shown py f "fieldname" ++ str " (" ++ shown py f "fieldtype" ++
    str (if (pyGet f "reqd").truthy then ", required" else "") ++ str ") label=" ++
    py.quoted (pyGet f "label") ++ extra

def notificationLine (v : Value) : Option Str := do
  let n ← asDict v
  return str "  - " ++ shown py n "name" ++ str " (" ++ shown py n "event" ++ str ", " ++
    shown py n "channel" ++ str "): " ++ py.quoted (pyGet n "subject")

def clientLine (v : Value) : Option Str := do
  let c ← asDict v
  return str "  - " ++ shown py c "name" ++ str " (view: " ++ shown py c "view" ++
    str (if (pyGet c "enabled").truthy then ", enabled)" else ", disabled)")

/-- The artefacts of one kind: the blocks that were added, how many artefacts they show, and the
number in `truncated_kinds`, zero where the kind is not in it. -/
structure Section where
  kind : String
  blocks : List Str
  rendered : Nat
  omitted : Nat

/-- A loop that adds a block for each artefact, up to the first that `_try_add` refuses. -/
def addEach (block : Value → Option Str) : List Value → Int → Option (Placed Nat)
  | [], room => some ⟨[], room, 0⟩
  | v :: vs, room => do
    let text ← block v
    if room < text.length + 1 then return ⟨[], room, vs.length + 1⟩
    else
      let rest ← addEach block vs (room - (text.length + 1))
      return { rest with texts := text :: rest.texts }

def groupText (title : String) (lines : List Str) : Str := str title ++ join (str "\n") lines

def addGroup (title : String) (line : Value → Option Str) (vs : List Value) (room : Int) : Option (Placed Nat) :=
  if vs.isEmpty then some ⟨[], room, 0⟩
  else do
    let lines ← vs.mapM line
    let text := groupText title lines
    if room < text.length + 1 then return ⟨[], room, 1⟩
    else return ⟨[text], room - (text.length + 1), 0⟩

def workflowSection (p : Placed Nat) : Section := ⟨"workflow", p.texts, p.texts.length, if p.left = 0 then 0 else 1⟩

def scriptSection (p : Placed Nat) : Section := ⟨"server_script", p.texts, p.texts.length, p.left⟩

def groupSection (kind : String) (vs : List Value) (p : Placed Nat) : Section :=
  ⟨kind, p.texts, if p.left = 0 then vs.length else 0, if p.left = 0 then 0 else vs.length⟩

/-- The loops of `_render_site_state_block`. -/
def renderSections (detail : Dict) (budget : Int) : Option (List Section) := do
  let workflows ← elements detail "workflows"
  let ws ← addEach (workflowBlock py) workflows budget
  let scripts ← elements detail "server_scripts"
  let scripts ← sortScripts py scripts
  let ss ← addEach (scriptBlock py) scripts ws.room
  let fields ← elements detail "custom_fields"
  let fs ← addGroup "Custom Fields:\n" (fieldLine py) fields ss.room
  let notifs ← elements detail "notifications"
  let ns ← addGroup "Notifications:\n" (notificationLine py) notifs fs.room
  let clients ← elements detail "client_scripts"
  let cs ← addGroup "Client Scripts:\n" (clientLine py) clients ns.room
  return [workflowSection ws, scriptSection ss, groupSection "custom_field" fields fs,
    groupSection "notification" notifs ns, groupSection "client_script" clients cs]

def blocks (sections : List Section) : List Str := sections.flatMap Section.blocks

def footer (sections : List Section) : List Str :=
  let truncated := sections.filter fun s => s.omitted ≠ 0
  if truncated.isEmpty then []
  else
    [str "(more artefacts omitted for brevity: " ++
      join (str ", ") (truncated.map fun s => str s.kind ++ str ": " ++ natText s.omitted) ++ str ")"]

def noArtefacts : Str := str "(no major artefacts)"

def body (sections : List Section) : Str :=
  if (blocks sections ++ footer sections).isEmpty then noArtefacts
  else join (str "\n\n") (blocks sections ++ footer sections)

/-- `_render_site_state_block`. -/
def renderSiteStateBlock (doctype : Str) (detail : Dict) (budget : Int) : Option Str := do
  let sections ← renderSections py detail budget
  return str "=== SITE STATE FOR \"" ++ doctype ++ str "\" (already on this site) ===\n" ++
    str "DO NOT propose anything that conflicts with or duplicates these existing customizations. " ++
    str "Extend, replace, or build atop them as appropriate.\n\n" ++ body sections ++ str "\n" ++
    str "=========================================================="

def bodyWithoutFooter (sections : List Section) : Str :=
  if (blocks sections ++ footer sections).isEmpty then noArtefacts
  else join (str "\n\n") (blocks sections)

end Model

section Details

def arrayOf (p : Value → Bool) (v : Value) : Bool :=
  !v.truthy ||
    match v with
    | .list xs => xs.all p
    | _ => false

def textOrNone (v : Value) : Bool := (orEmptyText v).isSome

def check (v : Value) : Bool :=
  !v.truthy ||
    match v with
    | .int _ => true
    | .bool _ => true
    | _ => false

def isRecord (p : Dict → Bool) (v : Value) : Bool := (asDict v).any p

def workflowRecord (d : Dict) : Bool :=
  arrayOf (isRecord fun _ => true) (pyGet d "states") && arrayOf (isRecord fun _ => true) (pyGet d "transitions")

def scriptRecord (d : Dict) : Bool := textOrNone (pyGet d "script") && check (pyGet d "disabled")

def fieldRecord (d : Dict) : Bool := textOrNone (pyGet d "options")

/-- The answer of the site: lists of records, with a text and a number where the code needs one. -/
structure SiteDetail where
  entries : Dict
  workflows : arrayOf (isRecord workflowRecord) (pyGet entries "workflows") = true
  scripts : arrayOf (isRecord scriptRecord) (pyGet entries "server_scripts") = true
  fields : arrayOf (isRecord fieldRecord) (pyGet entries "custom_fields") = true
  notifications : arrayOf (isRecord fun _ => true) (pyGet entries "notifications") = true
  clients : arrayOf (isRecord fun _ => true) (pyGet entries "client_scripts") = true

variable {p : Value → Bool} {d : Dict} {key : String} {v : Value}

theorem elements_of_array (h : arrayOf p (pyGet d key) = true) :
    ∃ xs, elements d key = some xs ∧ ∀ x ∈ xs, p x = true := by
  rw [elements, pyOr]
  cases ht : (pyGet d key).truthy with
  | false => exact ⟨[], rfl, fun x hx => by cases hx⟩
  | true =>
    rw [arrayOf.eq_def, ht, Bool.not_true, Bool.false_or] at h
    split at h
    · next xs hxs =>
      rw [if_pos rfl, hxs]
      exact ⟨xs, rfl, List.all_eq_true.mp h⟩
    · cases h

theorem record_dict {q : Dict → Bool} (h : isRecord q v = true) : ∃ d, asDict v = some d ∧ q d = true := by
  rw [isRecord, Option.any_eq_true] at h
  obtain ⟨d, hd, hq⟩ := h
  exact ⟨d, hd, hq⟩

theorem mapM_some {α β : Type} {f : α → Option β} {xs : List α} (h : ∀ x ∈ xs, ∃ y, f x = some y) :
    ∃ ys, xs.mapM f = some ys := by
  induction xs with
  | nil => exact ⟨[], rfl⟩
  | cons x xs ih =>
    obtain ⟨hx, hrest⟩ := List.forall_mem_cons.mp h
    obtain ⟨y, hy⟩ := hx
    obtain ⟨ys, hys⟩ := ih hrest
    refine ⟨y :: ys, ?_⟩
    rw [List.mapM_cons, hy, hys]
    rfl

theorem length_of_mapM {α β : Type} {f : α → Option β} {xs : List α} {ys : List β} (h : xs.mapM f = some ys) :
    ys.length = xs.length := by
  induction xs generalizing ys with
  | nil =>
    cases h
    rfl
  | cons x xs ih =>
    rw [List.mapM_cons] at h
    obtain ⟨y, -, h⟩ := Option.bind_eq_some_iff.mp h
    obtain ⟨ys, hys, h⟩ := Option.bind_eq_some_iff.mp h
    cases h
    rw [List.length_cons, List.length_cons, ih hys]

variable (py : Python)

theorem workflowBlock_some (h : isRecord workflowRecord v = true) : ∃ s, workflowBlock py v = some s := by
  obtain ⟨d, hd, htyped⟩ := record_dict h
  rw [workflowRecord, Bool.and_eq_true] at htyped
  obtain ⟨states, hstates, hallStates⟩ := elements_of_array htyped.1
  obtain ⟨transitions, htransitions, hallTransitions⟩ := elements_of_array htyped.2
  obtain ⟨stateTexts, hstateTexts⟩ : ∃ texts, states.mapM (stateText py) = some texts := by
    refine mapM_some fun x hx => ?_
    obtain ⟨s, hs, -⟩ := record_dict (hallStates x hx)
    simp [stateText, hs]
  obtain ⟨summary, hsummary⟩ : ∃ s, transitionSummary py transitions = some s := by
    rw [transitionSummary]
    split
    · exact ⟨_, rfl⟩
    · obtain ⟨texts, htexts⟩ : ∃ texts, (transitions.take 4).mapM (transitionText py) = some texts := by
        refine mapM_some fun x hx => ?_
        obtain ⟨t, ht, -⟩ := record_dict (hallTransitions x (List.mem_of_mem_take hx))
        simp [transitionText, ht]
      rw [htexts]
      exact ⟨_, rfl⟩
  simp [workflowBlock, hd, hstates, htransitions, hstateTexts, hsummary]

theorem scriptBlock_some (h : isRecord scriptRecord v = true) : ∃ s, scriptBlock py v = some s := by
  obtain ⟨d, hd, htyped⟩ := record_dict h
  rw [scriptRecord, Bool.and_eq_true] at htyped
  obtain ⟨script, hscript⟩ := Option.isSome_iff_exists.mp htyped.1
  simp [scriptBlock, hd, hscript]

theorem scriptKey_some (h : isRecord scriptRecord v = true) : ∃ k, scriptKey py v = some k := by
  obtain ⟨d, hd, htyped⟩ := record_dict h
  rw [scriptRecord, Bool.and_eq_true, check.eq_def] at htyped
  rw [scriptKey, hd, Option.bind_eq_bind, Option.bind_some, pyOr]
  cases ht : (pyGet d "disabled").truthy with
  | false => exact ⟨0, rfl⟩
  | true =>
    have hcheck := htyped.2
    rw [ht, Bool.not_true, Bool.false_or] at hcheck
    rw [if_pos rfl]
    split at hcheck
    · next n hn => exact ⟨n, by rw [hn]; rfl⟩
    · next b hb => exact ⟨_, by rw [hb]; rfl⟩
    · cases hcheck

theorem fieldLine_some (h : isRecord fieldRecord v = true) : ∃ s, fieldLine py v = some s := by
  obtain ⟨d, hd, htyped⟩ := record_dict h
  obtain ⟨extra, hextra⟩ : ∃ extra, optionsText d = some extra := by
    rw [optionsText]
    split
    · next hcond =>
      rw [Bool.and_eq_true] at hcond
      rw [fieldRecord, textOrNone, orEmptyText.eq_def, if_pos hcond.1] at htyped
      split at htyped
      · exact ⟨_, rfl⟩
      · cases htyped
    · exact ⟨[], rfl⟩
  simp [fieldLine, hd, hextra]

theorem notificationLine_some (h : isRecord (fun _ => true) v = true) : ∃ s, notificationLine py v = some s := by
  obtain ⟨d, hd, -⟩ := record_dict h
  simp [notificationLine, hd]

theorem clientLine_some (h : isRecord (fun _ => true) v = true) : ∃ s, clientLine py v = some s := by
  obtain ⟨d, hd, -⟩ := record_dict h
  simp [clientLine, hd]

theorem sortScripts_some {scripts : List Value} (h : ∀ x ∈ scripts, isRecord scriptRecord x = true) :
    ∃ sorted, sortScripts py scripts = some sorted ∧ sorted.Perm scripts := by
  obtain ⟨keys, hkeys⟩ := mapM_some fun x hx => scriptKey_some py (h x hx)
  refine ⟨((keys.zip scripts).insertionSort fun a b => a.1 ≤ b.1).map Prod.snd, ?_, ?_⟩
  · rw [sortScripts, hkeys]
    rfl
  · have hperm := ((List.perm_insertionSort (fun a b : Int × Value => a.1 ≤ b.1) (keys.zip scripts)).map Prod.snd)
    rwa [List.map_snd_zip (by rw [length_of_mapM hkeys])] at hperm

end Details

section Budget

/-- The blocks that the artefacts of each kind have. -/
structure Pieces where
  workflows : List Str
  scripts : List Str
  fields : List Str
  notifications : List Str
  clients : List Str

def Pieces.groups (b : Pieces) : List (List Str) := [b.workflows, b.scripts, b.fields, b.notifications, b.clients]

def groupBlocks (title : String) (lines : List Str) : List Str := if lines.isEmpty then [] else [groupText title lines]

variable (py : Python)

def pieces (detail : Dict) : Option Pieces := do
  let workflows ← elements detail "workflows"
  let ws ← workflows.mapM (workflowBlock py)
  let scripts ← elements detail "server_scripts"
  let scripts ← sortScripts py scripts
  let ss ← scripts.mapM (scriptBlock py)
  let fields ← elements detail "custom_fields"
  let fs ← fields.mapM (fieldLine py)
  let notifs ← elements detail "notifications"
  let ns ← notifs.mapM (notificationLine py)
  let clients ← elements detail "client_scripts"
  let cs ← clients.mapM (clientLine py)
  return ⟨ws, ss, groupBlocks "Custom Fields:\n" fs, groupBlocks "Notifications:\n" ns,
    groupBlocks "Client Scripts:\n" cs⟩

def kinds : List String := ["workflows", "server_scripts", "custom_fields", "notifications", "client_scripts"]

/-- Of every kind, what is rendered and what is reported as omitted make up what there is. -/
def Counted (detail : Dict) (sections : List Section) : Prop :=
  List.Forall₂ (fun key s => (elements detail key).map List.length = some (s.rendered + s.omitted)) kinds sections

/-- There is a block, it keeps to the budget and it counts right. -/
def Sound (detail : SiteDetail) (budget : Int) : Prop :=
  ∃ sections, renderSections py detail.entries budget = some sections ∧
    ((bodyWithoutFooter sections).length : Int) ≤ budget ∧ Counted detail.entries sections

/-- All workflows but the last fit. There is room for the text that says that there is nothing, or
the blocks that fit leave as much as there are of them, less two. -/
def Fits (b : Pieces) (budget : Int) : Prop :=
  (b.workflows.length ≤ 1 ∨ (cost b.workflows.dropLast : Int) ≤ budget) ∧
    if b.groups.flatten = [] then (noArtefacts.length : Int) ≤ budget
    else 0 ≤ budget ∧ ((placed b.groups budget).length : Int) ≤ unspent b.groups budget + 2

variable {py} {block line : Value → Option Str} {vs : List Value} {texts lines : List Str} {room budget : Int}
  {title : String} {detail : Dict} {b : Pieces}

theorem addEach_eq (h : vs.mapM block = some texts) : addEach block vs room = some (place texts room) := by
  induction vs generalizing texts room with
  | nil =>
    cases h
    rfl
  | cons v vs ih =>
    rw [List.mapM_cons] at h
    obtain ⟨text, htext, h⟩ := Option.bind_eq_some_iff.mp h
    obtain ⟨rest, hrest, h⟩ := Option.bind_eq_some_iff.mp h
    cases h
    simp only [addEach, htext, Option.bind_eq_bind, Option.bind_some, place]
    split
    · rw [length_of_mapM hrest]
      rfl
    · rw [ih hrest]
      rfl

theorem addGroup_eq (h : vs.mapM line = some lines) :
    addGroup title line vs room = some (place (groupBlocks title lines) room) := by
  have hlength := length_of_mapM h
  cases vs with
  | nil =>
    cases h
    rfl
  | cons v vs =>
    have hlines : lines.isEmpty = false := by
      cases lines with
      | nil => cases hlength
      | cons => rfl
    simp only [addGroup, List.isEmpty_cons, Bool.false_eq_true, if_false, h, Option.bind_eq_bind,
      Option.bind_some, groupBlocks, hlines, place, List.length_nil]
    split <;> rfl

theorem pieces_some (py : Python) (detail : SiteDetail) : ∃ b, pieces py detail.entries = some b := by
  obtain ⟨workflows, hworkflows, hallWorkflows⟩ := elements_of_array detail.workflows
  obtain ⟨ws, hws⟩ := mapM_some fun x hx => workflowBlock_some py (hallWorkflows x hx)
  obtain ⟨scripts, hscripts, hallScripts⟩ := elements_of_array detail.scripts
  obtain ⟨sorted, hsorted, hperm⟩ := sortScripts_some py hallScripts
  obtain ⟨ss, hss⟩ := mapM_some fun x hx => scriptBlock_some py (hallScripts x (hperm.mem_iff.mp hx))
  obtain ⟨fields, hfields, hallFields⟩ := elements_of_array detail.fields
  obtain ⟨fs, hfs⟩ := mapM_some fun x hx => fieldLine_some py (hallFields x hx)
  obtain ⟨notifs, hnotifs, hallNotifs⟩ := elements_of_array detail.notifications
  obtain ⟨ns, hns⟩ := mapM_some fun x hx => notificationLine_some py (hallNotifs x hx)
  obtain ⟨clients, hclients, hallClients⟩ := elements_of_array detail.clients
  obtain ⟨cs, hcs⟩ := mapM_some fun x hx => clientLine_some py (hallClients x hx)
  simp [pieces, hworkflows, hws, hscripts, hsorted, hss, hfields, hfs, hnotifs, hns, hclients, hcs]

/-- The sections of blocks that are put down one kind behind the other. -/
def sectionsOf (b : Pieces) (fields notifs clients : List Value) (budget : Int) : List Section :=
  let ws := place b.workflows budget
  let ss := place b.scripts ws.room
  let fs := place b.fields ss.room
  let ns := place b.notifications fs.room
  let cs := place b.clients ns.room
  [workflowSection ws, scriptSection ss, groupSection "custom_field" fields fs,
    groupSection "notification" notifs ns, groupSection "client_script" clients cs]

theorem renderSections_eq (budget : Int) (h : pieces py detail = some b) : ∃ workflows scripts fields notifs clients,
    elements detail "workflows" = some workflows ∧ b.workflows.length = workflows.length ∧
    elements detail "server_scripts" = some scripts ∧ b.scripts.length = scripts.length ∧
    elements detail "custom_fields" = some fields ∧ (b.fields = [] ↔ fields = []) ∧
    elements detail "notifications" = some notifs ∧ (b.notifications = [] ↔ notifs = []) ∧
    elements detail "client_scripts" = some clients ∧ (b.clients = [] ↔ clients = []) ∧
    renderSections py detail budget = some (sectionsOf b fields notifs clients budget) := by
  obtain ⟨workflows, hworkflows, h⟩ := Option.bind_eq_some_iff.mp h
  obtain ⟨ws, hws, h⟩ := Option.bind_eq_some_iff.mp h
  obtain ⟨scripts, hscripts, h⟩ := Option.bind_eq_some_iff.mp h
  obtain ⟨sorted, hsorted, h⟩ := Option.bind_eq_some_iff.mp h
  obtain ⟨ss, hss, h⟩ := Option.bind_eq_some_iff.mp h
  obtain ⟨fields, hfields, h⟩ := Option.bind_eq_some_iff.mp h
  obtain ⟨fs, hfs, h⟩ := Option.bind_eq_some_iff.mp h
  obtain ⟨notifs, hnotifs, h⟩ := Option.bind_eq_some_iff.mp h
  obtain ⟨ns, hns, h⟩ := Option.bind_eq_some_iff.mp h
  obtain ⟨clients, hclients, h⟩ := Option.bind_eq_some_iff.mp h
  obtain ⟨cs, hcs, h⟩ := Option.bind_eq_some_iff.mp h
  cases h
  have hsort : ss.length = scripts.length := by
    obtain ⟨keys, hkeys, hsorted⟩ := Option.bind_eq_some_iff.mp hsorted
    cases hsorted
    rw [length_of_mapM hss, List.length_map, List.length_insertionSort, List.length_zip, length_of_mapM hkeys,
      Nat.min_self]
  have hgroup : ∀ {title : String} {vs : List Value} {lines : List Str}, lines.length = vs.length →
      (groupBlocks title lines = [] ↔ vs = []) := by
    intro title vs lines hlength
    rw [← List.length_eq_zero_iff (l := vs), ← hlength, groupBlocks]
    cases lines <;> simp
  refine ⟨workflows, scripts, fields, notifs, clients, hworkflows, length_of_mapM hws, hscripts, hsort,
    hfields, hgroup (length_of_mapM hfs), hnotifs, hgroup (length_of_mapM hns), hclients,
    hgroup (length_of_mapM hcs), ?_⟩
  simp only [renderSections, hworkflows, addEach_eq hws, hscripts, hsorted, addEach_eq hss, hfields, addGroup_eq hfs,
    hnotifs, addGroup_eq hns, hclients, addGroup_eq hcs, Option.bind_eq_bind, Option.bind_some]
  rfl

theorem length_bodyWithoutFooter {sections : List Section} {gs : List (List Str)}
    (hblocks : blocks sections = placed gs budget)
    (hempty : (blocks sections ++ footer sections).isEmpty = true ↔ gs.flatten = []) :
    ((bodyWithoutFooter sections).length : Int) ≤ budget ↔
      if gs.flatten = [] then (noArtefacts.length : Int) ≤ budget
      else 0 ≤ budget ∧ ((placed gs budget).length : Int) ≤ unspent gs budget + 2 := by
  rw [bodyWithoutFooter]
  by_cases hnone : gs.flatten = []
  · rw [if_pos (hempty.mpr hnone), if_pos hnone]
  · rw [if_neg (mt hempty.mp hnone), if_neg hnone, hblocks]
    have hroom := placed_room gs budget
    cases hcount : (placed gs budget).length with
    | zero =>
      rw [List.length_eq_zero_iff] at hcount
      rw [hcount] at hroom ⊢
      rw [cost_nil] at hroom
      have hjoin : (join (str "\n\n") ([] : List Str)).length = 0 := rfl
      rw [hjoin]
      omega
    | succ n =>
      have hne : placed gs budget ≠ [] := List.ne_nil_of_length_eq_add_one hcount
      have hspare : 0 ≤ unspent gs budget := unspent_nonneg (.inr hne)
      have hsep : (str "\n\n").length = 2 := rfl
      rw [length_join_placed hcount, hsep]
      omega

theorem footer_eq_nil {sections : List Section} : footer sections = [] ↔ ∀ s ∈ sections, s.omitted = 0 := by
  rw [footer]
  split
  · next h =>
    refine iff_of_true rfl fun s hs => ?_
    simpa using List.filter_eq_nil_iff.mp (List.isEmpty_iff.mp h) s hs
  · next h =>
    refine iff_of_false (by simp) fun hall => h (List.isEmpty_iff.mpr (List.filter_eq_nil_iff.mpr fun s hs => ?_))
    simpa using hall s hs

theorem place_all (ts : List Str) (room : Int) : ((place ts room).texts = [] ∧ (place ts room).left = 0) ↔ ts = [] := by
  have hleft := place_left ts room
  rw [← List.length_eq_zero_iff, ← List.length_eq_zero_iff (l := ts)]
  omega

theorem group_omitted {kind : String} {ts : List Str} (hvs : ts = [] ↔ vs = []) :
    (groupSection kind vs (place ts room)).omitted = 0 ↔ (place ts room).left = 0 := by
  rw [groupSection]
  dsimp only
  split
  · next h => simp [h]
  · next h =>
    have hlen := place_left ts room
    have hne : vs ≠ [] := by
      rw [ne_eq, ← hvs, ← List.length_eq_zero_iff]
      omega
    simp [hne, h]

theorem group_counted {kind : String} {p : Placed Nat} :
    (groupSection kind vs p).rendered + (groupSection kind vs p).omitted = vs.length := by
  rw [groupSection]
  dsimp only
  split <;> simp

variable {fields notifs clients : List Value}

theorem blocks_sectionsOf : blocks (sectionsOf b fields notifs clients budget) = placed b.groups budget := rfl

theorem workflow_omitted {p : Placed Nat} : (workflowSection p).omitted = 0 ↔ p.left = 0 := by
  rw [workflowSection]
  dsimp only
  split
  · next h => simp [h]
  · next h => simp [h]

theorem sectionsOf_empty (budget : Int) (hfields : b.fields = [] ↔ fields = []) (hnotifs : b.notifications = [] ↔ notifs = [])
    (hclients : b.clients = [] ↔ clients = []) :
    (blocks (sectionsOf b fields notifs clients budget) ++
      footer (sectionsOf b fields notifs clients budget)).isEmpty = true ↔ b.groups.flatten = [] := by
  rw [List.isEmpty_iff, List.append_eq_nil_iff, footer_eq_nil, blocks, List.flatMap_eq_nil_iff,
    List.flatten_eq_nil_iff, sectionsOf, Pieces.groups]
  simp only [List.forall_mem_cons, List.not_mem_nil, false_imp_iff, implies_true, and_true, workflow_omitted,
    group_omitted hfields, group_omitted hnotifs, group_omitted hclients]
  rw [← place_all b.workflows budget, ← place_all b.scripts, ← place_all b.fields, ← place_all b.notifications,
    ← place_all b.clients]
  simp only [workflowSection, scriptSection, groupSection]
  tauto

theorem sectionsOf_counted (budget : Int) {workflows scripts : List Value} (hworkflows : elements detail "workflows" = some workflows)
    (hwlen : b.workflows.length = workflows.length) (hscripts : elements detail "server_scripts" = some scripts)
    (hslen : b.scripts.length = scripts.length) (hfields : elements detail "custom_fields" = some fields)
    (hnotifs : elements detail "notifications" = some notifs)
    (hclients : elements detail "client_scripts" = some clients) :
    Counted detail (sectionsOf b fields notifs clients budget) ↔ (place b.workflows budget).left ≤ 1 := by
  have hw := place_left b.workflows budget
  have hs := place_left b.scripts (place b.workflows budget).room
  have hworkflow : (workflowSection (place b.workflows budget)).rendered +
      (workflowSection (place b.workflows budget)).omitted = workflows.length ↔
        (place b.workflows budget).left ≤ 1 := by
    rw [workflowSection, ← hwlen, ← hw]
    dsimp only
    split <;> omega
  have hscript : (scriptSection (place b.scripts (place b.workflows budget).room)).rendered +
      (scriptSection (place b.scripts (place b.workflows budget).room)).omitted = scripts.length := by
    rw [← hslen]
    exact hs
  rw [Counted, kinds, sectionsOf, List.forall₂_cons, List.forall₂_cons, List.forall₂_cons, List.forall₂_cons,
    List.forall₂_cons, hworkflows, hscripts, hfields, hnotifs, hclients, hscript, group_counted, group_counted,
    group_counted]
  simp only [Option.map_some, Option.some.injEq, List.forall₂_nil_left_iff, and_true]
  rw [eq_comm, hworkflow]

/-- The block is as long and counts as it should just where its blocks fit with room to spare. -/
theorem siteState_sound_iff (py : Python) (detail : SiteDetail) (budget : Int) :
    Sound py detail budget ↔ ∃ b, pieces py detail.entries = some b ∧ Fits b budget := by
  obtain ⟨b, hb⟩ := pieces_some py detail
  obtain ⟨workflows, scripts, fields, notifs, clients, hworkflows, hwlen, hscripts, hslen, hfields, hfnil, hnotifs,
    hnnil, hclients, hcnil, hrender⟩ := renderSections_eq budget hb
  have hlength := length_bodyWithoutFooter blocks_sectionsOf (sectionsOf_empty budget hfnil hnnil hcnil)
  have hcounted := sectionsOf_counted budget hworkflows hwlen hscripts hslen hfields hnotifs hclients
  rw [place_left_le_one] at hcounted
  constructor
  · rintro ⟨sections, hsections, hfits, hcounts⟩
    rw [hrender] at hsections
    cases hsections
    exact ⟨b, hb, hcounted.mp hcounts, hlength.mp hfits⟩
  · rintro ⟨b', hb', hworkflow, hspare⟩
    rw [hb] at hb'
    cases hb'
    exact ⟨_, hrender, hlength.mpr hspare, hcounted.mpr hworkflow⟩

theorem body_eq (sections : List Section) : body sections = bodyWithoutFooter sections ++
    (if blocks sections = [] ∨ footer sections = [] then [] else str "\n\n") ++ (footer sections).flatten := by
  rw [body, bodyWithoutFooter]
  obtain hfooter | ⟨text, hfooter⟩ : footer sections = [] ∨ ∃ text, footer sections = [text] := by
    rw [footer]
    split
    · exact .inl rfl
    · exact .inr ⟨_, rfl⟩
  · simp [hfooter]
  · by_cases hblocks : blocks sections = []
    · simp [hfooter, hblocks, join]
    · rw [hfooter, join_concat _ hblocks]
      simp [hblocks]

def plainTexts : Python where
  repr := { printable := fun _ => true, float := fun _ _ => [], other := fun _ _ => [] }
  int _ := none

def threeWorkflows : SiteDetail where
  entries := [(str "workflows", .list [.dict [] .none, .dict [] .none, .dict [] .none])]
  workflows := rfl
  scripts := rfl
  fields := rfl
  notifications := rfl
  clients := rfl

theorem workflow_uncounted : ¬Sound plainTexts threeWorkflows 100 := by
  rintro ⟨sections, hrender, -, hcounted⟩
  have hone : (renderSections plainTexts threeWorkflows.entries 100).all fun sections =>
      sections.head?.all fun s => s.rendered + s.omitted ≠ 3 := by
    decide
  rw [hrender, Option.all_some] at hone
  cases hcounted with
  | @cons _ s _ _ hworkflow _ =>
    have helements : elements threeWorkflows.entries "workflows" =
        some [.dict [] .none, .dict [] .none, .dict [] .none] := rfl
    rw [helements, Option.map_some, Option.some.injEq] at hworkflow
    simp [← hworkflow] at hone

end Budget

end AlfredProcessing.Pipeline.SiteState
