import AlfredProcessing.State.MemoryRendering
import Mathlib.Data.List.Nodup

namespace AlfredProcessing.State.Recording

open Lib Lib.Json Extract.Changes Extract.Cleaning ConversationMemory MemoryRendering

section Items

variable (py : Python)

/-- The doctype of an entry, its own or that of its object data. -/
def doctypeOf (entry : Dict) : Value :=
  pyOr (pyGet entry "doctype") (pyGet ((asDict (pyGet entry "data")).getD []) "doctype")

def qualifies (entry : Value) : Bool :=
  match asDict entry with
  | some d => (doctypeOf d).truthy
  | none => false

/-- A record carries the doctype of its entry as a text. -/
def RecordOf (entry record : Value) : Prop :=
  ∃ d r, asDict entry = some d ∧ record = .dict r .none ∧ pyGet r "doctype" = .str (py.toStr (doctypeOf d))

/-- Nothing is raised, every entry with a doctype has its record behind those that were there, in
order, and just the oldest records above the cap are gone. -/
structure Complete (now : Time) (changeset : List Value) (m : Memory) : Prop where
  silent : (addChangesetItems py now changeset m).2 = none
  recorded : ∃ new, (addChangesetItems py now changeset m).1.items = (m.items ++ new).rtake maxItems ∧
    List.Forall₂ (RecordOf py) (changeset.filter qualifies) new

def ObjectData (entry : Value) : Prop :=
  ∀ d, asDict entry = some d → (pyGet d "data").truthy → (asDict (pyGet d "data")).isSome

variable {py} {entry : Value} {d : Dict} {changeset : List Value} {now : Time} {m : Memory}

theorem asDict_eq_some {v : Value} : asDict v = some d → ∃ c, v = .dict d c := by
  intro h
  cases v with
  | dict d' c =>
    cases h
    exact ⟨c, rfl⟩
  | _ => cases h

theorem orDict_of_falsy {v : Value} (h : ¬v.truthy) : orDict v = .ok ((asDict v).getD []) := by
  have hd : (asDict v).getD [] = [] := by
    cases hv : asDict v with
    | none => rfl
    | some d =>
      obtain ⟨c, rfl⟩ := asDict_eq_some hv
      have hempty : d = [] ∧ c = .none := by simpa [Value.truthy] using h
      exact hempty.1
  exact (if_neg h).trans (congrArg Except.ok hd.symm)

theorem orDict_of_object {v : Value} (h : (asDict v).isSome) : orDict v = .ok ((asDict v).getD []) := by
  obtain ⟨d, hd⟩ := Option.isSome_iff_exists.mp h
  obtain ⟨c, rfl⟩ := asDict_eq_some hd
  by_cases htruthy : (Value.dict d c).truthy
  · exact if_pos htruthy
  · exact orDict_of_falsy htruthy

theorem orDict_of_other {v : Value} (h : v.truthy) (hnone : ¬(asDict v).isSome) :
    orDict v = .error .attributeError := by
  cases v with
  | dict d c => exact absurd rfl hnone
  | _ => exact if_pos h

theorem recordOf_error (h : asDict entry = some d) (hbad : ¬ObjectData entry) :
    recordOf py d = .error .attributeError := by
  have hdata : orDict (pyGet d "data") = .error .attributeError := by
    unfold ObjectData at hbad
    push Not at hbad
    obtain ⟨d', hd', htruthy, hnone⟩ := hbad
    cases h.symm.trans hd'
    exact orDict_of_other htruthy (by simpa using hnone)
  unfold recordOf
  rw [hdata]
  rfl

theorem recordOf_ok (py : Python) (h : asDict entry = some d) (hdata : ObjectData entry) :
    recordOf py d = .ok none ∧ qualifies entry = false ∨
      ∃ r, recordOf py d = .ok (some r) ∧ qualifies entry = true ∧ RecordOf py entry r := by
  have hobject : orDict (pyGet d "data") = .ok ((asDict (pyGet d "data")).getD []) := by
    by_cases htruthy : (pyGet d "data").truthy
    · exact orDict_of_object (hdata d h htruthy)
    · exact orDict_of_falsy htruthy
  have hqualifies : qualifies entry = (doctypeOf d).truthy := by
    unfold qualifies
    rw [h]
  unfold recordOf
  rw [hobject]
  by_cases hdoctype : (doctypeOf d).truthy
  · right
    exact ⟨_, if_pos hdoctype, hqualifies.trans hdoctype, d, _, h, rfl, rfl⟩
  · left
    exact ⟨if_neg hdoctype, hqualifies.trans (by simpa using hdoctype)⟩

theorem records_complete (py : Python) (h : ∀ entry ∈ changeset, ObjectData entry) :
    (records py changeset).2 = none ∧
      List.Forall₂ (RecordOf py) (changeset.filter qualifies) (records py changeset).1 := by
  induction changeset with
  | nil => exact ⟨rfl, .nil⟩
  | cons entry entries ih =>
    obtain ⟨hsilent, hall⟩ := ih fun e he => h e (List.mem_cons_of_mem _ he)
    unfold records
    cases hd : asDict entry with
    | none =>
      have hno : qualifies entry = false := by
        unfold qualifies
        rw [hd]
      rw [List.filter_cons_of_neg (by simp [hno])]
      exact ⟨hsilent, hall⟩
    | some d =>
      obtain ⟨hr, hno⟩ | ⟨r, hr, hyes, hrecord⟩ := recordOf_ok py hd (h entry List.mem_cons_self)
      · rw [List.filter_cons_of_neg (by simp [hno])]
        simp only [hr]
        exact ⟨hsilent, hall⟩
      · rw [List.filter_cons_of_pos hyes]
        simp only [hr]
        exact ⟨hsilent, .cons hrecord hall⟩

theorem records_raise (h : ¬∀ entry ∈ changeset, ObjectData entry) : (records py changeset).2 ≠ none := by
  induction changeset with
  | nil => exact absurd (List.forall_mem_nil _) h
  | cons entry entries ih =>
    unfold records
    by_cases hentry : ObjectData entry
    · have hrest : (records py entries).2 ≠ none := ih fun hall => h (List.forall_mem_cons.mpr ⟨hentry, hall⟩)
      cases hd : asDict entry with
      | none => exact hrest
      | some d =>
        obtain ⟨hr, -⟩ | ⟨r, hr, -⟩ := recordOf_ok py hd hentry
        all_goals
          simp only [hr]
          exact hrest
    · have hd : ∃ d, asDict entry = some d := by
        unfold ObjectData at hentry
        push Not at hentry
        obtain ⟨d, hd, -⟩ := hentry
        exact ⟨d, hd⟩
      obtain ⟨d, hd⟩ := hd
      simp only [hd, recordOf_error hd hentry]
      exact Option.some_ne_none _

/-- A memory that gets nothing to record has to keep to the cap by itself. -/
theorem complete_iff (py : Python) (now : Time) (changeset : List Value) (m : Memory) :
    Complete py now changeset m ↔
      (∀ entry ∈ changeset, ObjectData entry) ∧ (changeset = [] → m.items.length ≤ maxItems) := by
  by_cases hempty : changeset = []
  · subst hempty
    constructor
    · rintro ⟨-, new, hitems, hall⟩
      cases hall
      refine ⟨List.forall_mem_nil _, fun _ => ?_⟩
      have hkept : m.items = m.items.rtake maxItems := by
        rw [List.append_nil] at hitems
        exact hitems
      rw [hkept]
      exact length_rtake_le _ _
    · rintro ⟨-, hcap⟩
      refine ⟨rfl, [], ?_, .nil⟩
      have hnone : m.items.length - maxItems = 0 := Nat.sub_eq_zero_of_le (hcap rfl)
      rw [List.append_nil, List.rtake, hnone, List.drop_zero]
      rfl
  · have hbusy : ¬changeset.isEmpty := by simpa using hempty
    constructor
    · rintro ⟨hsilent, -⟩
      refine ⟨?_, fun h => absurd h hempty⟩
      by_contra hbad
      have hraises : (records py changeset).2 ≠ none := records_raise hbad
      obtain ⟨e, he⟩ := Option.ne_none_iff_exists'.mp hraises
      rw [addChangesetItems, if_neg hbusy, he] at hsilent
      cases hsilent
    · rintro ⟨hobjects, -⟩
      obtain ⟨hsilent, hall⟩ := records_complete py hobjects
      have hrun : addChangesetItems py now changeset m =
          ({ m with items := (m.items ++ (records py changeset).1).rtake maxItems, updatedAt := now }, none) := by
        rw [addChangesetItems, if_neg hbusy, hsilent]
      exact ⟨by rw [hrun], _, by rw [hrun], hall⟩

theorem listed_data_raises : ¬Complete plainPython noon
    [.dict [(str "doctype", .str (str "X")), (str "data", .list [.int 1])] .none] (fresh (str "c") noon) := by
  rintro ⟨hsilent, -⟩
  cases hsilent

end Items

section Clarifications

variable (py : Python)

def recordedPairs (qaPairs : List (Str × Str)) : List (Str × Str) :=
  (qaPairs.filter fun p => !p.1.isEmpty && !p.2.isEmpty).map fun p => (stripped p.1, stripped p.2)

def recorded (ops : List (Op × Now)) : List (Str × Str) :=
  ops.flatMap fun op =>
    match op.1 with
    | .addClarifications qaPairs => recordedPairs qaPairs
    | _ => []

def after (conversationId : Str) (now : Time) (ops : List (Op × Now)) : Memory :=
  ops.foldl (fun m op => apply py m op.2 op.1) (fresh conversationId now)

def questionOf (c : Value) : Value := pyGet ((asDict c).getD []) "q"

def latest (q : Str) (pairs : List (Str × Str)) : Option Str :=
  (pairs.reverse.find? fun p => p.1 = q).map Prod.snd

def unlines (lines : List Str) : Str := (lines.intersperse (str "\n")).flatten

def ShownOnce (m : Memory) : Prop :=
  ∀ text, renderForPrompt py m = some text → m.clarifications ≠ [] →
    ∃ before decisions behind, text = unlines (before ++ str "User decisions:" :: decisions.flatten ++ behind) ∧
      (m.clarifications.rtake maxClarifications).mapM (pairLines py) = some decisions ∧
      (decisions.map List.head?).Nodup

/-- A question has one entry, with the answer that was given last, and is shown once. -/
structure Merged (pairs : List (Str × Str)) (m : Memory) : Prop where
  once : (m.clarifications.map questionOf).Nodup
  latest : ∀ c ∈ m.clarifications, ∃ q a, c = pair q a ∧ latest q pairs = some a
  shown : ShownOnce py m

variable {py} {m : Memory}

theorem rtake_rtake_append {α : Type} (n : Nat) (xs ys : List α) :
    (xs.rtake n ++ ys).rtake n = (xs ++ ys).rtake n := by
  simp only [List.rtake_eq_reverse_take_reverse, List.reverse_append, List.reverse_reverse, List.take_append,
    List.take_take]
  rw [Nat.min_eq_left (Nat.sub_le _ _)]

theorem clarifications_apply (h : Regular m) (op : Op) (now : Now) :
    (apply py m now op).clarifications =
      (m.clarifications ++ (recorded [(op, now)]).map fun p => pair p.1 p.2).rtake maxClarifications := by
  have hsame : m.clarifications = (m.clarifications ++ []).rtake maxClarifications := by
    have hnone : m.clarifications.length - maxClarifications = 0 := Nat.sub_eq_zero_of_le h.clarifications
    rw [List.append_nil, List.rtake, hnone, List.drop_zero]
  cases op with
  | addClarifications qaPairs =>
    simp only [ConversationMemory.apply, addClarifications]
    split_ifs with hempty
    · rw [List.isEmpty_iff.mp hempty]
      exact hsame
    · simp only [recorded, List.flatMap_cons, List.flatMap_nil, List.append_nil, recordedPairs, List.map_map]
      rfl
  | addPrompt rawPrompt =>
    refine Eq.trans ?_ hsame
    simp only [ConversationMemory.apply, addPrompt]
    split_ifs <;> rfl
  | addInsightsQuery question answer =>
    refine Eq.trans ?_ hsame
    simp only [ConversationMemory.apply, addInsightsQuery]
    split_ifs <;> rfl
  | addPlanDocument plan status =>
    refine Eq.trans ?_ hsame
    simp only [ConversationMemory.apply, ConversationMemory.addPlanDocument]
    split_ifs <;> rfl
  | markActivePlanStatus status =>
    refine Eq.trans ?_ hsame
    simp only [ConversationMemory.apply, ConversationMemory.markActivePlanStatus]
    cases m.activePlan <;> rfl
  | addChangesetItems changeset =>
    refine Eq.trans ?_ hsame
    simp only [ConversationMemory.apply, addChangesetItems]
    split_ifs
    · rfl
    · cases (records py changeset).2 <;> rfl
  | reload =>
    refine Eq.trans ?_ hsame
    simp only [ConversationMemory.apply, h.roundTrip]

theorem clarifications_after (py : Python) (conversationId : Str) (now : Now) (ops : List (Op × Now)) :
    Regular (after py conversationId now ops) ∧ (after py conversationId now ops).clarifications =
      ((recorded ops).map fun p => pair p.1 p.2).rtake maxClarifications := by
  induction ops using List.reverseRecOn with
  | nil => exact ⟨regular_fresh conversationId now, rfl⟩
  | append_singleton ops op ih =>
    obtain ⟨hregular, hkept⟩ := ih
    have hstep : after py conversationId now (ops ++ [op]) =
        apply py (after py conversationId now ops) op.2 op.1 := List.foldl_concat ..
    rw [hstep]
    refine ⟨hregular.apply op.1, ?_⟩
    have hrecorded : recorded (ops ++ [op]) = recorded ops ++ recorded [op] := List.flatMap_append
    rw [clarifications_apply hregular, hkept, rtake_rtake_append, hrecorded, List.map_append]

theorem shown_decisions {text : Str} (h : renderForPrompt py m = some text) (hne : m.clarifications ≠ []) :
    ∃ before decisions behind, text = unlines (before ++ str "User decisions:" :: decisions.flatten ++ behind) ∧
      (m.clarifications.rtake maxClarifications).mapM (pairLines py) = some decisions := by
  have hkept : (m.clarifications.rtake maxClarifications).isEmpty = false := by
    rw [List.isEmpty_eq_false_iff]
    intro hnil
    have hlength := congrArg List.length hnil
    rw [List.rtake, List.length_drop, List.length_nil] at hlength
    have hpos := List.length_pos_iff.mpr hne
    unfold maxClarifications at hlength
    omega
  unfold renderForPrompt at h
  have hsome : (m.items.isEmpty && m.clarifications.isEmpty && m.recentPrompts.isEmpty && m.insightsQueries.isEmpty &&
      (m.activePlan.filter (!·.isEmpty)).isNone) = false := by
    rw [List.isEmpty_eq_false_iff.mpr hne, Bool.and_false, Bool.false_and, Bool.false_and, Bool.false_and]
  simp only [hsome, Bool.false_eq_true, if_false, Option.bind_eq_bind, Option.bind_eq_some_iff] at h
  obtain ⟨items, -, clarifications, hclarifications, insights, -, htail⟩ := h
  obtain ⟨plan, prompts, htext⟩ : ∃ plan prompts, some (unlines
      ([str "=== CONVERSATION CONTEXT (earlier in this chat) ==="] ++ items ++ clarifications ++ insights ++ plan ++
        prompts ++ [str "=== END CONTEXT ==="])) = some text := by
    split at htail
    all_goals
      simp only [Option.bind_eq_some_iff] at htail
      obtain ⟨plan, -, prompts, -, htext⟩ := htail
      exact ⟨plan, prompts, htext⟩
  obtain ⟨decisions, hdecisions, rfl⟩ : ∃ decisions, (m.clarifications.rtake maxClarifications).mapM (pairLines py) =
      some decisions ∧ str "User decisions:" :: decisions.flatten = clarifications := by
    unfold headed at hclarifications
    rw [hkept] at hclarifications
    exact Option.map_eq_some_iff.mp hclarifications
  cases htext
  refine ⟨[str "=== CONVERSATION CONTEXT (earlier in this chat) ==="] ++ items, decisions,
    insights ++ plan ++ prompts ++ [str "=== END CONTEXT ==="], ?_, hdecisions⟩
  simp only [List.append_assoc, List.cons_append]

theorem find_of_nodup {ps : List (Str × Str)} {p : Str × Str} (h : (ps.map Prod.fst).Nodup) (hp : p ∈ ps) :
    ps.find? (fun e => e.1 = p.1) = some p := by
  have hthere : (ps.find? fun e => e.1 = p.1).isSome := List.find?_isSome.mpr ⟨p, hp, decide_eq_true rfl⟩
  obtain ⟨e, he⟩ := Option.isSome_iff_exists.mp hthere
  have hsame := List.find?_some he
  rw [he, List.inj_on_of_nodup_map h (List.mem_of_find?_eq_some he) hp (of_decide_eq_true hsame)]

/-- Of the pairs at the end of a list, where no two have one question, each has the last answer. -/
theorem latest_of_nodup {front ps : List (Str × Str)} {p : Str × Str} (h : (ps.map Prod.fst).Nodup) (hp : p ∈ ps) :
    latest p.1 (front ++ ps) = some p.2 := by
  have hreverse : ((ps.reverse).map Prod.fst).Nodup := by
    rw [List.map_reverse]
    exact List.pairwise_reverse.mpr (h.imp Ne.symm)
  have hfind := find_of_nodup hreverse (List.mem_reverse.mpr hp)
  unfold latest
  rw [List.reverse_append, List.find?_append, hfind]
  rfl

theorem mapM_pairLines (ps : List (Str × Str)) :
    (ps.map fun p => pair p.1 p.2).mapM (pairLines py) =
      some (ps.map fun p => [str "- Q: " ++ p.1, str "  A: " ++ p.2]) := by
  induction ps with
  | nil => rfl
  | cons p ps ih =>
    rw [List.map_cons, List.mapM_cons, ih]
    rfl

theorem clarifications_eq (py : Python) (conversationId : Str) (now : Now) (ops : List (Op × Now)) :
    (after py conversationId now ops).clarifications =
      ((recorded ops).rtake maxClarifications).map fun p => pair p.1 p.2 := by
  rw [(clarifications_after py conversationId now ops).2, List.rtake, List.rtake, List.map_drop, List.length_map]

theorem once_iff (py : Python) (conversationId : Str) (now : Now) (ops : List (Op × Now)) :
    ((after py conversationId now ops).clarifications.map questionOf).Nodup ↔
      (((recorded ops).rtake maxClarifications).map Prod.fst).Nodup := by
  have hquestions : (after py conversationId now ops).clarifications.map questionOf =
      (((recorded ops).rtake maxClarifications).map Prod.fst).map Value.str := by
    rw [clarifications_eq, List.map_map, List.map_map]
    rfl
  rw [hquestions]
  exact List.nodup_map_iff fun s t h => Value.str.inj h

/-- A question that comes back gets another entry: each has one, with its last answer, just
where the last recorded pairs are of different questions. -/
theorem merged_iff (py : Python) (conversationId : Str) (now : Now) (ops : List (Op × Now)) :
    Merged py (recorded ops) (after py conversationId now ops) ↔
      (((recorded ops).rtake maxClarifications).map Prod.fst).Nodup := by
  have honce := once_iff py conversationId now ops
  have hentries := clarifications_eq py conversationId now ops
  have hregular := (clarifications_after py conversationId now ops).1
  set m := after py conversationId now ops
  set ps := (recorded ops).rtake maxClarifications with hps
  refine ⟨fun h => honce.mp h.once, fun h => ⟨honce.mpr h, ?_, ?_⟩⟩
  · intro c hc
    rw [hentries] at hc
    obtain ⟨p, hp, rfl⟩ := List.mem_map.mp hc
    refine ⟨p.1, p.2, rfl, ?_⟩
    rw [← List.take_append_drop ((recorded ops).length - maxClarifications) (recorded ops)]
    exact latest_of_nodup h hp
  · intro text htext hne
    obtain ⟨before, decisions, behind, hlines, hdecisions⟩ := shown_decisions htext hne
    refine ⟨before, decisions, behind, hlines, hdecisions, ?_⟩
    have hall : m.clarifications.rtake maxClarifications = ps.map fun p => pair p.1 p.2 := by
      have hnone : m.clarifications.length - maxClarifications = 0 := Nat.sub_eq_zero_of_le hregular.clarifications
      rw [List.rtake, hnone, List.drop_zero, hentries]
    rw [hall, mapM_pairLines] at hdecisions
    cases hdecisions
    have hheads : (ps.map fun p => [str "- Q: " ++ p.1, str "  A: " ++ p.2]).map List.head? =
        (ps.map Prod.fst).map fun q => some (str "- Q: " ++ q) := by
      rw [List.map_map, List.map_map]
      rfl
    rw [hheads]
    exact List.Nodup.map (fun s t hst => List.append_cancel_left (Option.some.inj hst)) h

def changedAnswer : List (Op × Now) :=
  [(.addClarifications [(str "Which role?", str "HR User")], noon),
    (.addClarifications [(str "Which role?", str "HR Manager")], noon)]

theorem stale_answer_stays :
    ¬Merged plainPython (recorded changedAnswer) (after plainPython (str "c") noon changedAnswer) := by
  intro h
  exact absurd ((once_iff plainPython (str "c") noon changedAnswer).mp h.once) (by decide)

end Clarifications

end AlfredProcessing.State.Recording
