import AlfredProcessing.Lib.JsonScan

namespace AlfredProcessing.Extract.Parse

open Lib.Json Lib.JsonText Lib.Brackets

/-- What comes of reading a text as a value. `ast.literal_eval` may die of
something else than the two exceptions that are caught. -/
inductive Reading where
  | value (v : Value)
  | rejected
  | crashed

def Reading.isRejected : Reading → Bool
  | .rejected => true
  | _ => false

def isBracket (c : Char) : Bool := c = '[' || c = '{'

/-- The loop of `_find_balanced_close` from position `i` on. -/
def closeLoop (openChar closeChar : Char) (depth : Int) (inString escape : Bool) (i : Nat) :
    List Char → Option Nat
  | [] => none
  | ch :: cs =>
    if escape then closeLoop openChar closeChar depth inString false (i + 1) cs
    else if ch = '\\' then closeLoop openChar closeChar depth inString true (i + 1) cs
    else if ch = '"' then closeLoop openChar closeChar depth (!inString) escape (i + 1) cs
    else if inString then closeLoop openChar closeChar depth inString escape (i + 1) cs
    else if ch = openChar then closeLoop openChar closeChar (depth + 1) inString escape (i + 1) cs
    else if ch = closeChar then
      if depth - 1 = 0 then some i
      else closeLoop openChar closeChar (depth - 1) inString escape (i + 1) cs
    else closeLoop openChar closeChar depth inString escape (i + 1) cs

/-- `_find_balanced_close` at the beginning of a text. -/
def findBalancedClose (cs : List Char) : Option Nat :=
  match cs with
  | '{' :: _ => closeLoop '{' '}' 0 false false 0 cs
  | '[' :: _ => closeLoop '[' ']' 0 false false 0 cs
  | _ => none

/-- The texts at whose start `json` meets its limit on the digits of an integer or on depth, which is no
`JSONDecodeError`, and `ast.literal_eval`. -/
structure Interpreter where
  overruns : List Char → Bool
  literalEval : List Char → Reading

/-- One round of `_parse_first_json_value`: JSON, or else a Python literal. -/
def readAt (py : Interpreter) (cs : List Char) : Reading :=
  if py.overruns cs then .crashed
  else
    match rawDecode cs with
    | some (v, _) => .value v
    | none =>
      match findBalancedClose cs with
      | some close => py.literalEval (cs.take (close + 1))
      | none => .rejected

/-- `_parse_first_json_value`. -/
def parseFirstJsonValue (py : Interpreter) : List Char → Reading
  | [] => .rejected
  | c :: cs =>
    if isBracket c then
      match readAt py (c :: cs) with
      | .rejected => parseFirstJsonValue py cs
      | r => r
    else parseFirstJsonValue py cs

def Interpreter.unlimited (py : Interpreter) : Interpreter := { py with overruns := fun _ => false }

/-- A limit is met at a bracket in front of which nothing can be read. -/
inductive MeetsLimit (py : Interpreter) : List Char → Prop
  | here (c : Char) (cs : List Char) (hc : isBracket c) (h : py.overruns (c :: cs)) : MeetsLimit py (c :: cs)
  | later (c : Char) (cs : List Char) (hskip : isBracket c → readAt py.unlimited (c :: cs) = .rejected)
      (h : MeetsLimit py cs) : MeetsLimit py (c :: cs)

def jsonOnly : Interpreter where
  overruns _ := false
  literalEval _ := .rejected

/-- The readings at the brackets of a text, from left to right. -/
def readings (py : Interpreter) (cs : List Char) : List Reading :=
  (cs.tails.filter fun t => t.head?.any isBracket).map (readAt py)

variable {py : Interpreter} {s : Scan} {cs ds : List Char} {c : Char}

theorem readAt_of_not (h : ¬py.overruns cs) : readAt py cs = readAt py.unlimited cs := by
  unfold readAt Interpreter.unlimited
  rw [if_neg h, if_neg Bool.false_ne_true]

theorem parse_of_limit (h : MeetsLimit py cs) : parseFirstJsonValue py cs = .crashed := by
  induction h with
  | here c cs hc hover =>
    have hread : readAt py (c :: cs) = .crashed := if_pos hover
    rw [parseFirstJsonValue, if_pos hc, hread]
  | later c cs hskip h ih =>
    rw [parseFirstJsonValue]
    split_ifs with hc
    · by_cases hover : py.overruns (c :: cs)
      · have hread : readAt py (c :: cs) = .crashed := if_pos hover
        rw [hread]
      · rw [readAt_of_not hover, hskip hc]
        exact ih
    · exact ih

/-- Where no limit is met the text is read as if there were none. -/
theorem parse_of_within (h : ¬MeetsLimit py cs) : parseFirstJsonValue py cs = parseFirstJsonValue py.unlimited cs := by
  induction cs with
  | nil => rfl
  | cons c cs ih =>
    rw [parseFirstJsonValue, parseFirstJsonValue]
    split_ifs with hc
    · rw [readAt_of_not fun hover => h (.here c cs hc hover)]
      cases hread : readAt py.unlimited (c :: cs) with
      | rejected => exact ih fun hmeets => h (.later c cs (fun _ => hread) hmeets)
      | value v => rfl
      | crashed => rfl
    · exact ih fun hmeets => h (.later c cs (fun hbracket => absurd hbracket hc) hmeets)

theorem not_meetsLimit (h : ∀ t, py.overruns t = false) : ¬MeetsLimit py cs := by
  intro hmeets
  induction hmeets with
  | here c cs hc hover => exact absurd hover (by simp [h])
  | later c cs hskip hlater ih => exact ih

theorem parseFirst_eq_find (cs : List Char) : parseFirstJsonValue py cs =
    ((readings py cs).find? fun r => !r.isRejected).getD .rejected := by
  induction cs with
  | nil => simp [parseFirstJsonValue, readings]
  | cons c cs ih =>
    rw [parseFirstJsonValue]
    split
    · next hc =>
      have hr : readings py (c :: cs) =
          readAt py (c :: cs) :: readings py cs := by
        simp [readings, hc]
      rw [hr]
      cases hread : readAt py (c :: cs) with
      | rejected => simpa [Reading.isRejected] using ih
      | value v => simp [Reading.isRejected]
      | crashed => simp [Reading.isRejected]
    · next hc =>
      have hr : readings py (c :: cs) = readings py cs := by
        simp [readings, hc]
      rw [hr, ih]

theorem parseFirst_append (h : ∀ c ∈ cs, isBracket c = false) (ds : List Char) :
    parseFirstJsonValue py (cs ++ ds) = parseFirstJsonValue py ds := by
  induction cs with
  | nil => rfl
  | cons c cs ih =>
    obtain ⟨hc, hcs⟩ := List.forall_mem_cons.mp h
    simp only [List.cons_append, parseFirstJsonValue, hc]
    exact ih hcs

theorem parseFirst_decoded {v : Value} (hc : isBracket c) (h : rawDecode (c :: cs) = some (v, ds)) :
    parseFirstJsonValue py.unlimited (c :: cs) = .value v := by
  have hread : readAt py.unlimited (c :: cs) = .value v := by
    rw [readAt, Interpreter.unlimited, if_neg Bool.false_ne_true, h]
  rw [parseFirstJsonValue, if_pos hc, hread]

/-- A count of open brackets that goes up and down with one pair of them. -/
structure Counts (count : Scan → Int) (openChar closeChar : Char) : Prop where
  still : ∀ s c, s.escape ∨ c = '\\' ∨ c = '"' ∨ s.inString → count (s.step c) = count s
  moves : ∀ s c, s.escape = false → c ≠ '\\' → c ≠ '"' → s.inString = false →
    count (s.step c) =
      if c = openChar then count s + 1 else if c = closeChar then count s - 1 else count s

/-- Where a character is no bracket of the text, the step changes no count. -/
theorem step_still (h : s.escape ∨ c = '\\' ∨ c = '"' ∨ s.inString) :
    ∃ inString escape, s.step c = { s with inString, escape } := by
  by_cases he : s.escape = true
  · exact ⟨s.inString, false, if_pos he⟩
  by_cases hb : c = '\\'
  · exact ⟨s.inString, true, by rw [Scan.step, if_neg he, if_pos hb]⟩
  by_cases hq : c = '"'
  · exact ⟨!s.inString, s.escape, by rw [Scan.step, if_neg he, if_neg hb, if_pos hq]⟩
  have hi : s.inString = true := ((h.resolve_left he).resolve_left hb).resolve_left hq
  exact ⟨s.inString, s.escape, by rw [Scan.step, if_neg he, if_neg hb, if_neg hq, if_pos hi]⟩

theorem step_moves (he : s.escape = false) (hb : c ≠ '\\') (hq : c ≠ '"') (hi : s.inString = false) :
    s.step c =
      if c = '[' then { s with square := s.square + 1 }
      else if c = ']' then { s with square := s.square - 1 }
      else if c = '{' then { s with curly := s.curly + 1 }
      else if c = '}' then { s with curly := s.curly - 1 }
      else s := by
  rw [Scan.step, he, hi, if_neg Bool.false_ne_true, if_neg hb, if_neg hq, if_neg Bool.false_ne_true]

theorem counts_square : Counts Scan.square '[' ']' := by
  constructor
  · intro s c h
    obtain ⟨inString, escape, hstep⟩ := step_still h
    rw [hstep]
  · intro s c he hb hq hi
    rw [step_moves he hb hq hi]
    split_ifs <;> rfl

theorem counts_curly : Counts Scan.curly '{' '}' := by
  constructor
  · intro s c h
    obtain ⟨inString, escape, hstep⟩ := step_still h
    rw [hstep]
  · intro s c he hb hq hi
    rw [step_moves he hb hq hi]
    by_cases hopen : c = '['
    · subst hopen
      rfl
    by_cases hclose : c = ']'
    · subst hclose
      rfl
    rw [if_neg hopen, if_neg hclose]
    split_ifs <;> rfl

/-- After every character more than `base` brackets are open. -/
def StaysAbove (count : Scan → Int) (base : Int) : Scan → List Char → Prop :=
  Along fun s c => base < count (s.step c)

theorem closeLoop_still (openChar closeChar : Char) (depth : Int) (i : Nat)
    (h : s.escape ∨ c = '\\' ∨ c = '"' ∨ s.inString) :
    closeLoop openChar closeChar depth s.inString s.escape i (c :: cs) =
      closeLoop openChar closeChar depth (s.step c).inString (s.step c).escape (i + 1) cs := by
  by_cases he : s.escape = true
  · rw [closeLoop, Scan.step, if_pos he, if_pos he]
  by_cases hb : c = '\\'
  · rw [closeLoop, Scan.step, if_neg he, if_neg he, if_pos hb, if_pos hb]
  by_cases hq : c = '"'
  · rw [closeLoop, Scan.step, if_neg he, if_neg he, if_neg hb, if_neg hb, if_pos hq, if_pos hq]
  have hi : s.inString = true := ((h.resolve_left he).resolve_left hb).resolve_left hq
  rw [closeLoop, Scan.step, if_neg he, if_neg he, if_neg hb, if_neg hb, if_neg hq, if_neg hq, if_pos hi, if_pos hi]

theorem closeLoop_append {count : Scan → Int} {openChar closeChar : Char} {base : Int}
    (hc : Counts count openChar closeChar) (h : StaysAbove count base s cs) (i : Nat) (ds : List Char) :
    closeLoop openChar closeChar (count s - base) s.inString s.escape i (cs ++ ds) =
      closeLoop openChar closeChar (count (s.run cs) - base) (s.run cs).inString (s.run cs).escape
        (i + cs.length) ds := by
  induction cs generalizing s i with
  | nil => rfl
  | cons c cs ih =>
    have hrest := ih h.2 (i + 1)
    rw [run_cons, List.length_cons, List.cons_append, ← Nat.add_assoc, Nat.add_right_comm, ← hrest]
    by_cases hstill : s.escape ∨ c = '\\' ∨ c = '"' ∨ s.inString
    · rw [hc.still s c hstill]
      exact closeLoop_still _ _ _ _ hstill
    · simp only [not_or, Bool.not_eq_true] at hstill
      obtain ⟨he, hb, hq, hi⟩ := hstill
      have hcode : (s.step c).inString = false ∧ (s.step c).escape = false := by
        rw [step_moves he hb hq hi]
        split_ifs <;> exact ⟨hi, he⟩
      have hpos : base < count (s.step c) := h.1
      rw [hc.moves s c he hb hq hi] at hpos
      rw [hcode.1, hcode.2, hc.moves s c he hb hq hi, closeLoop, he, hi, if_neg Bool.false_ne_true, if_neg hb, if_neg hq,
        if_neg Bool.false_ne_true]
      split_ifs at hpos ⊢ with ho hcl hzero
      · rw [show count s - base + 1 = count s + 1 - base by omega]
      · omega
      · rw [show count s - base - 1 = count s - 1 - base by omega]
      · rfl

theorem closeLoop_none {count : Scan → Int} {openChar closeChar : Char} {base : Int}
    (hc : Counts count openChar closeChar) (h : StaysAbove count base s cs) (i : Nat) :
    closeLoop openChar closeChar (count s - base) s.inString s.escape i cs = none := by
  have hall := closeLoop_append hc h i []
  rw [List.append_nil] at hall
  exact hall

theorem rawDecode_none {count : Scan → Int} (hs : s.code) (h : StaysAbove count (count s) s cs) :
    rawDecode cs = none := by
  cases hd : rawDecode cs with
  | none => rfl
  | some p =>
    obtain ⟨u, rfl, hne, hrun⟩ := scanOnce_unclosed hs hd
    obtain ⟨u, c, rfl⟩ := List.eq_nil_or_concat u |>.resolve_left hne
    rw [List.concat_eq_append] at *
    have hlast := (along_append.mp (along_append.mp h).1).2.1
    rw [run_append, run_cons, run_nil] at hrun
    rw [hrun] at hlast
    exact absurd hlast (Int.lt_irrefl _)

theorem readAt_unclosed {count : Scan → Int} {openChar closeChar : Char}
    (hc : Counts count openChar closeChar) (hzero : count {} = 0)
    (hfind : findBalancedClose cs = closeLoop openChar closeChar 0 false false 0 cs)
    (h : StaysAbove count 0 {} cs) : readAt py.unlimited cs = .rejected := by
  have hclose := closeLoop_none hc h 0
  rw [hzero, Int.sub_zero] at hclose
  have hdecode : rawDecode cs = none := by
    have habove : StaysAbove count (count {}) {} cs := by rwa [hzero]
    exact rawDecode_none ⟨rfl, rfl⟩ habove
  rw [readAt, Interpreter.unlimited, if_neg Bool.false_ne_true, hdecode, hfind.trans hclose]

theorem parseFirst_square (h : StaysAbove Scan.square 0 {} ('[' :: cs)) :
    parseFirstJsonValue py.unlimited ('[' :: cs) = parseFirstJsonValue py.unlimited cs := by
  simp [parseFirstJsonValue, isBracket, readAt_unclosed counts_square rfl rfl h]

theorem parseFirst_curly (h : StaysAbove Scan.curly 0 {} ('{' :: cs)) :
    parseFirstJsonValue py.unlimited ('{' :: cs) = parseFirstJsonValue py.unlimited cs := by
  simp [parseFirstJsonValue, isBracket, readAt_unclosed counts_curly rfl rfl h]

end AlfredProcessing.Extract.Parse
