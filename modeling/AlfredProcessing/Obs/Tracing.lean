import AlfredProcessing.Extract.Changes
import Mathlib.Data.List.Forall2

namespace AlfredProcessing.Obs.Tracing

open Lib.Json Extract.Changes

section Model

inductive Status where
  | ok
  | error
  deriving DecidableEq

structure Span where
  name : Str
  traceId : Str
  spanId : Str
  parentId : Option Str := none
  startNs : Int
  endNs : Option Int := none
  durationS : Option Int := none
  attrs : Dict := []
  events : List Dict := []
  status : Status := .ok
  error : Option Str := none
  conversationId : Value := .null

def isNull : Value → Bool
  | .null => true
  | _ => false

/-- `Span.set`. -/
def Span.set (kwargs : Dict) (s : Span) : Span :=
  { s with attrs := (kwargs.filter fun e => !isNull e.2).foldl (fun d e => insert e.1 e.2 d) s.attrs }

/-- `Span.event`. -/
def Span.event (now : Int) (name : Str) (attrs : Dict) (s : Span) : Span :=
  { s with
    events := s.events ++
      [(attrs.filter fun e => !isNull e.2).foldl (fun d e => insert e.1 e.2 d)
        [(str "name", .str name), (str "t", .int (now - s.startNs))]] }

/-- `Span.finish`. -/
def Span.finish (now : Int) (status : Status) (error : Option Str) (s : Span) : Span :=
  if s.endNs.isSome then s
  else
    { s with
      endNs := some now
      durationS := some (now - s.startNs)
      status := status
      error := (error.filter (!·.isEmpty)).orElse fun _ => s.error }

/-- How the body of a span ends. An exception has the text that is made of it, none where making it
raises in turn. A cancelled task sees an exception that is no `Exception`. -/
inductive Exit where
  | returned
  | raised (text : Option Str)
  | cancelled

mutual

inductive Tree where
  | span (name : Str) (attrs : Dict) (body : Body) (exit : Exit)

inductive Body where
  | done
  | set (kwargs : Dict) (rest : Body)
  | event (name : Str) (attrs : Dict) (rest : Body)
  | nested (child : Tree) (rest : Body)

end

def Tree.name : Tree → Str
  | .span name _ _ _ => name

def Tree.exit : Tree → Exit
  | .span _ _ _ exit => exit

mutual

/-- The spans of a tree, each behind those that are nested in it. -/
def Tree.postorder : Tree → List Tree
  | .span name attrs body exit => body.postorder ++ [.span name attrs body exit]

def Body.postorder : Body → List Tree
  | .done => []
  | .set _ rest => rest.postorder
  | .event _ _ rest => rest.postorder
  | .nested child rest => child.postorder ++ rest.postorder

end

abbrev Exporter := Span → Option Str

/-- The tracer, with its sources of ids and of the time. -/
structure Tracer where
  enabled : Bool
  exporters : List Exporter
  newId : Nat → Str
  clock : Nat → Int

/-- The current span is kept as it was opened: its ids, which are all that is read of it, stay. Every
call of an exporter is logged with the exporter's place, and every failure with its text. -/
structure World where
  current : Option Span := none
  calls : List (Nat × Span) := []
  warnings : List Str := []
  ids : Nat := 0
  readings : Nat := 0

variable (tracer : Tracer)

def World.tick (w : World) : World := { w with readings := w.readings + 1 }

def World.now (w : World) : Int := tracer.clock w.readings

/-- `_export`. -/
def exportSpan (span : Span) (w : World) : World :=
  tracer.exporters.zipIdx.foldl (fun w fn =>
    { w with calls := w.calls ++ [(fn.2, span)], warnings := w.warnings ++ (fn.1 span).toList }) w

def opened (name : Str) (attrs : Dict) (w : World) : Span where
  name := name
  traceId := match w.current with
    | some parent => parent.traceId
    | none => tracer.newId w.ids
  spanId := tracer.newId (w.ids + 1)
  parentId := w.current.map Span.spanId
  startNs := w.now tracer
  attrs := attrs.filter fun e => e.1 ≠ str "conversation_id"
  conversationId := pyOr (pyGet attrs "conversation_id") ((w.current.map Span.conversationId).getD .null)

def entered (name : Str) (attrs : Dict) (w : World) : World :=
  { w.tick with current := some (opened tracer name attrs w), ids := w.ids + 2 }

def left (before w : World) : World := { w.tick with current := before.current }

/-- The span as it is closed by the way in which its body ended. -/
def closed (exit : Exit) (span : Span) (w : World) : Span :=
  match exit with
  | .returned => span.finish (w.now tracer) .ok none
  | .raised (some text) => span.finish (w.now tracer) .error (some text)
  | .raised none => span
  | .cancelled => span

def noop (name : Str) (w : World) : Span where
  name := name
  traceId := []
  spanId := []
  startNs := w.now tracer

mutual

/-- `Tracer.span` around a body. -/
def runSpan : Tree → World → World
  | .span name attrs body exit, w =>
    if tracer.enabled then
      let ended := runBody body (opened tracer name attrs w) (entered tracer name attrs w)
      exportSpan tracer (closed tracer exit ended.1 ended.2) (left w ended.2)
    else (runBody body (noop tracer name w) w.tick).2

def runBody : Body → Span → World → Span × World
  | .done, span, w => (span, w)
  | .set kwargs rest, span, w => runBody rest (span.set kwargs) w
  | .event name attrs rest, span, w => runBody rest (span.event (w.now tracer) name attrs) w.tick
  | .nested child rest, span, w => runBody rest span (runSpan child w)

end

def received (i : Nat) (w : World) : List Span := (w.calls.filter fun c => c.1 = i).map Prod.snd

/-- A span is exported with its end, and as an error just when its body did not return. -/
def Settled (node : Tree) (span : Span) : Prop :=
  span.name = node.name ∧ span.endNs.isSome ∧ (span.status = .error ↔ node.exit ≠ .returned)

/-- The current span is that from before, and every exporter gets every span once, behind its children. -/
structure Disciplined (t : Tree) (w : World) : Prop where
  current : (runSpan tracer t w).current = w.current
  exported : ∀ i < tracer.exporters.length, ∃ spans,
    received i (runSpan tracer t w) = received i w ++ spans ∧ List.Forall₂ Settled t.postorder spans

/-- The ways to end that the span is told of. -/
def Told : Exit → Prop
  | .returned => True
  | .raised text => text.isSome
  | .cancelled => False

/-- What is exported of a span, whatever the way its body ends. -/
def Recorded (node : Tree) (span : Span) : Prop :=
  span.name = node.name ∧
    match node.exit with
    | .returned => span.endNs.isSome ∧ span.status = .ok
    | .raised (some _) => span.endNs.isSome ∧ span.status = .error
    | .raised none => span.endNs = none ∧ span.status = .ok
    | .cancelled => span.endNs = none ∧ span.status = .ok

end Model

section Runs

variable {tracer : Tracer}

theorem recorded_settled {node : Tree} {span : Span} (h : Recorded node span) : Settled node span ↔ Told node.exit := by
  obtain ⟨hname, h⟩ := h
  unfold Settled Told
  cases hexit : node.exit with
  | returned =>
    rw [hexit] at h
    simp [hname, h]
  | raised text =>
    rw [hexit] at h
    cases text <;> simp [hname, h]
  | cancelled =>
    rw [hexit] at h
    simp [hname, h]

theorem exportSpan_current (span : Span) (w : World) : (exportSpan tracer span w).current = w.current := by
  unfold exportSpan
  generalize tracer.exporters.zipIdx = fns
  induction fns generalizing w with
  | nil => rfl
  | cons fn fns ih => exact ih _

theorem exportSpan_calls (span : Span) (w : World) :
    (exportSpan tracer span w).calls = w.calls ++ tracer.exporters.zipIdx.map fun fn => (fn.2, span) := by
  unfold exportSpan
  generalize tracer.exporters.zipIdx = fns
  induction fns generalizing w with
  | nil => exact (List.append_nil _).symm
  | cons fn fns ih =>
    rw [List.foldl_cons, ih, List.map_cons, List.append_assoc]
    rfl

/-- Every exporter is called once, whether or not those before it fail. -/
theorem received_exportSpan (span : Span) (w : World) {i : Nat} (hi : i < tracer.exporters.length) :
    received i (exportSpan tracer span w) = received i w ++ [span] := by
  have hone (fns : List Exporter) (k : Nat) (hk : k ≤ i) (hlt : i < k + fns.length) :
      (((fns.zipIdx k).map fun fn => (fn.2, span)).filter fun c => c.1 = i) = [(i, span)] := by
    induction fns generalizing k with
    | nil => exact absurd hlt (by simpa using hk)
    | cons fn fns ih =>
      rw [List.zipIdx_cons, List.map_cons, List.length_cons] at *
      by_cases heq : k = i
      · subst heq
        rw [List.filter_cons_of_pos (by simp), List.filter_eq_nil_iff.mpr]
        intro c hc
        obtain ⟨fn', hfn', rfl⟩ := List.mem_map.mp hc
        have hle := List.le_snd_of_mem_zipIdx hfn'
        simp only [decide_eq_true_eq]
        omega
      · rw [List.filter_cons_of_neg (by simpa using heq)]
        exact ih (k + 1) (by omega) (by omega)
  unfold received
  rw [exportSpan_calls, List.filter_append, List.map_append, hone _ 0 (Nat.zero_le i) (by simpa using hi)]
  rfl

theorem runBody_span (tracer : Tracer) : ∀ (body : Body) (span : Span) (w : World),
    (runBody tracer body span w).1.name = span.name ∧ (runBody tracer body span w).1.endNs = span.endNs ∧
      (runBody tracer body span w).1.status = span.status
  | .done, _, _ => ⟨rfl, rfl, rfl⟩
  | .set kwargs rest, span, w => runBody_span tracer rest (span.set kwargs) w
  | .event name attrs rest, span, w => runBody_span tracer rest (span.event (w.now tracer) name attrs) w.tick
  | .nested child rest, span, w => runBody_span tracer rest span (runSpan tracer child w)

theorem closed_recorded {name : Str} {attrs : Dict} {body : Body} {exit : Exit} {span : Span} (w : World)
    (hname : span.name = name) (hend : span.endNs = none) (hstatus : span.status = .ok) :
    Recorded (.span name attrs body exit) (closed tracer exit span w) := by
  have hopen : span.endNs.isSome = false := by rw [hend]; rfl
  cases exit with
  | returned =>
    exact ⟨by simp [closed, Span.finish, hopen, hname, Tree.name], by simp [closed, Span.finish, hopen, Tree.exit]⟩
  | raised text =>
    cases text with
    | none => exact ⟨hname, hend, hstatus⟩
    | some text =>
      exact ⟨by simp [closed, Span.finish, hopen, hname, Tree.name], by simp [closed, Span.finish, hopen, Tree.exit]⟩
  | cancelled => exact ⟨hname, hend, hstatus⟩

/-- From one world to another the current span is the same, and the spans of some nodes are exported. -/
structure Follows (tracer : Tracer) (nodes : List Tree) (w w' : World) : Prop where
  current : w'.current = w.current
  exported : ∀ i < tracer.exporters.length, ∃ spans,
    received i w' = received i w ++ spans ∧ List.Forall₂ Recorded nodes spans

theorem Follows.trans {nodes nodes' : List Tree} {w w' w'' : World} (h : Follows tracer nodes w w')
    (h' : Follows tracer nodes' w' w'') : Follows tracer (nodes ++ nodes') w w'' := by
  refine ⟨h'.current.trans h.current, fun i hi => ?_⟩
  obtain ⟨spans, hspans, hall⟩ := h.exported i hi
  obtain ⟨spans', hspans', hall'⟩ := h'.exported i hi
  refine ⟨spans ++ spans', ?_, List.rel_append hall hall'⟩
  rw [hspans', hspans, List.append_assoc]

theorem Follows.of_tick {nodes : List Tree} {w w' : World} (h : Follows tracer nodes w.tick w') :
    Follows tracer nodes w w' := ⟨h.current, h.exported⟩

theorem Follows.refl (w : World) : Follows tracer [] w w :=
  ⟨rfl, fun _ _ => ⟨[], (List.append_nil _).symm, .nil⟩⟩

mutual

theorem runSpan_follows (h : tracer.enabled = true) : ∀ (t : Tree) (w : World),
    Follows tracer t.postorder w (runSpan tracer t w)
  | .span name attrs body exit, w => by
    set ended := runBody tracer body (opened tracer name attrs w) (entered tracer name attrs w) with hended
    have hrun : runSpan tracer (.span name attrs body exit) w =
        exportSpan tracer (closed tracer exit ended.1 ended.2) (left w ended.2) := if_pos h
    have hbody := runBody_follows h body (opened tracer name attrs w) (entered tracer name attrs w)
    obtain ⟨hname, hend, hstatus⟩ := runBody_span tracer body (opened tracer name attrs w) (entered tracer name attrs w)
    have hclosed : Recorded (.span name attrs body exit) (closed tracer exit ended.1 ended.2) :=
      closed_recorded ended.2 hname hend hstatus
    rw [hrun]
    refine ⟨exportSpan_current _ _, fun i hi => ?_⟩
    obtain ⟨spans, hspans, hall⟩ := hbody.exported i hi
    refine ⟨spans ++ [closed tracer exit ended.1 ended.2], ?_, List.rel_append hall (.cons hclosed .nil)⟩
    rw [received_exportSpan _ _ hi, ← List.append_assoc]
    exact congrArg (· ++ _) hspans

theorem runBody_follows (h : tracer.enabled = true) : ∀ (body : Body) (span : Span) (w : World),
    Follows tracer body.postorder w (runBody tracer body span w).2
  | .done, _, w => Follows.refl w
  | .set kwargs rest, span, w => runBody_follows h rest (span.set kwargs) w
  | .event name attrs rest, span, w =>
    (runBody_follows h rest (span.event (w.now tracer) name attrs) w.tick).of_tick
  | .nested child rest, span, w =>
    (runSpan_follows h child w).trans (runBody_follows h rest span (runSpan tracer child w))

end

theorem settled_iff {nodes : List Tree} {spans : List Span} (h : List.Forall₂ Recorded nodes spans) :
    List.Forall₂ Settled nodes spans ↔ ∀ node ∈ nodes, Told node.exit := by
  induction h with
  | nil => exact iff_of_true .nil (List.forall_mem_nil _)
  | cons hnode _ ih => rw [List.forall₂_cons, recorded_settled hnode, ih, List.forall_mem_cons]

/-- The current span comes back and the exports are in order in every run; the ends and the status of
what is exported are right unless the body of some span is cancelled, which no handler sees. -/
theorem disciplined_iff (exporters : List Exporter) (newId : Nat → Str) (clock : Nat → Int) (t : Tree) (w : World) :
    Disciplined { enabled := true, exporters, newId, clock } t w ↔
      exporters = [] ∨ ∀ node ∈ t.postorder, Told node.exit := by
  set tracer : Tracer := { enabled := true, exporters, newId, clock }
  have hfollows : Follows tracer t.postorder w (runSpan tracer t w) := runSpan_follows rfl t w
  constructor
  · intro h
    by_cases hnone : exporters = []
    · exact .inl hnone
    right
    have hpos : 0 < tracer.exporters.length := List.length_pos_iff.mpr hnone
    obtain ⟨spans, hspans, hall⟩ := hfollows.exported 0 hpos
    obtain ⟨spans', hspans', hall'⟩ := h.exported 0 hpos
    obtain rfl : spans = spans' := List.append_cancel_left (hspans.symm.trans hspans')
    exact (settled_iff hall).mp hall'
  · intro h
    refine ⟨hfollows.current, fun i hi => ?_⟩
    obtain ⟨spans, hspans, hall⟩ := hfollows.exported i hi
    obtain rfl | h := h
    · exact absurd hi (Nat.not_lt_zero i)
    · exact ⟨spans, hspans, (settled_iff hall).mpr h⟩

def cancelledPhase : Tree := .span (str "pipeline.run_crew") [] .done .cancelled

def plainTracer : Tracer where
  enabled := true
  exporters := [fun _ => none]
  newId _ := []
  clock n := n

theorem cancelled_span_open : ¬Disciplined plainTracer cancelledPhase {} := by
  intro h
  obtain ⟨spans, hspans, hall⟩ := h.exported 0 Nat.zero_lt_one
  cases hspans
  cases hall with
  | cons hspan _ => cases hspan.2.1

end Runs

end AlfredProcessing.Obs.Tracing
