import AlfredProcessing.Agents.Condenser
import AlfredProcessing.Extract.Parse

namespace AlfredProcessing.Extract.BalancedClose

open Lib.Json Lib.JsonText Lib.Brackets Extract.Parse Agents.Condenser

section Model

/-- `_find_balanced_close`. -/
def findBalancedCloseAt (text : List Char) (start : Nat) : Option Nat :=
  match text[start]? with
  | some '{' => closeLoop '{' '}' 0 false false start (text.drop start)
  | some '[' => closeLoop '[' ']' 0 false false start (text.drop start)
  | _ => none

def compound : Doc → Bool
  | .emptyArray _ => true
  | .array _ _ => true
  | .emptyObject _ => true
  | .object _ _ => true
  | _ => false

end Model

section Proof

variable {openChar closeChar : Char} {depth : Int} {inString escape : Bool} {i : Nat} {cs : List Char}

theorem closeLoop_shift (openChar closeChar : Char) (depth : Int) (inString escape : Bool) (i k : Nat) (cs : List Char) :
    closeLoop openChar closeChar depth inString escape (i + k) cs =
      (closeLoop openChar closeChar depth inString escape i cs).map (· + k) := by
  induction cs generalizing depth inString escape i with
  | nil => rfl
  | cons c cs ih =>
    have hnext (depth : Int) (inString escape : Bool) :
        closeLoop openChar closeChar depth inString escape (i + k + 1) cs =
          (closeLoop openChar closeChar depth inString escape (i + 1) cs).map (· + k) := by
      rw [Nat.add_right_comm]
      exact ih ..
    simp only [closeLoop, hnext, apply_ite (Option.map (· + k)), Option.map_some]

theorem findBalancedCloseAt_eq (text : List Char) (start : Nat) :
    findBalancedCloseAt text start = (findBalancedClose (text.drop start)).map (· + start) := by
  rw [findBalancedCloseAt, ← List.head?_drop]
  cases text.drop start with
  | nil => rfl
  | cons c cs =>
    rw [List.head?_cons]
    by_cases hcurly : c = '{'
    · subst hcurly
      have h := closeLoop_shift '{' '}' 0 false false 0 start ('{' :: cs)
      rwa [Nat.zero_add] at h
    · by_cases hsquare : c = '['
      · subst hsquare
        have h := closeLoop_shift '[' ']' 0 false false 0 start ('[' :: cs)
        rwa [Nat.zero_add] at h
      · simp [findBalancedClose, hcurly, hsquare]

theorem closing_eq_closeLoop {depth : Nat} (h : 0 < depth) :
    closing openChar closeChar depth inString escape cs =
      closeLoop openChar closeChar depth inString escape 1 cs := by
  induction cs generalizing depth inString escape with
  | nil =>
    rw [closing.eq_def]
    rfl
  | cons c cs ih =>
    have hnext (depth : Int) (inString escape : Bool) :
        closeLoop openChar closeChar depth inString escape (1 + 1) cs =
          (closeLoop openChar closeChar depth inString escape 1 cs).map (· + 1) := closeLoop_shift ..
    rw [closeLoop]
    simp only [hnext]
    cases escape with
    | true => rw [closing, ih h, if_pos rfl]
    | false =>
      rw [closing, if_neg Bool.false_ne_true]
      split_ifs with hslash hquote hin hopen hclose hone hone' hone'
      · rw [ih h]
      · rw [ih h]
      · rw [ih h]
      · rw [ih (Nat.succ_pos depth), Int.natCast_succ]
      · rfl
      · omega
      · omega
      · rw [ih (by omega), Int.natCast_sub h]
        rfl
      · rw [ih h]

/-- `_find_outermost_json` takes from the first bracket to where `_find_balanced_close` finds it closed. -/
theorem findOutermostJson_eq (text : List Char) : findOutermostJson text =
    (findBalancedClose (text.dropWhile fun c => !isBracket c)).map fun close =>
      (text.dropWhile fun c => !isBracket c).take (close + 1) := by
  have hbracket : (fun c : Char => c ≠ '{' && c ≠ '[') = fun c => !isBracket c := by
    funext c
    simp [isBracket, Bool.and_comm]
  have hcopy (o e : Char) (cs : List Char) (ho : o ≠ '\\' ∧ o ≠ '"') :
      closing o e 0 false false (o :: cs) = (closeLoop o e 0 false false 0 (o :: cs)).map (· + 1) := by
    rw [closing, if_neg ho.1, if_neg ho.2, if_neg Bool.false_ne_true, if_pos rfl, closing_eq_closeLoop Nat.one_pos,
      closeLoop, if_neg Bool.false_ne_true, if_neg ho.1, if_neg ho.2, if_neg Bool.false_ne_true, if_pos rfl]
    rfl
  rw [findOutermostJson, hbracket]
  cases hrest : text.dropWhile fun c => !isBracket c with
  | nil => rfl
  | cons c cs =>
    have hc : isBracket c = true := by
      have hhead := List.head?_dropWhile_not (fun c => !isBracket c) text
      rw [hrest] at hhead
      simpa using hhead
    obtain rfl | rfl : c = '[' ∨ c = '{' := by simpa [isBracket] using hc
    · dsimp only
      rw [if_neg (by decide), hcopy _ _ _ (by decide), Option.map_map]
      rfl
    · dsimp only
      rw [if_pos rfl, hcopy _ _ _ (by decide), Option.map_map]
      rfl

theorem closeLoop_level {count : Scan → Int} {init post : List Char} {s : Scan}
    (hc : Counts count openChar closeChar) (hzero : count {} = 0)
    (hrun : ({} : Scan).run (openChar :: init) = s) (hs : s.code) (hone : count s = 1)
    (habove : StaysAbove count 0 {} (openChar :: init))
    (hclose : closeChar ≠ '\\' ∧ closeChar ≠ '"' ∧ closeChar ≠ openChar) :
    closeLoop openChar closeChar 0 false false 0 (openChar :: (init ++ closeChar :: post)) =
      some (init.length + 1) := by
  have hscan := closeLoop_append hc habove 0 (closeChar :: post)
  rw [hrun, hzero, hone, hs.1, hs.2, List.cons_append, List.length_cons, Nat.zero_add] at hscan
  refine hscan.trans ?_
  rw [closeLoop, if_neg Bool.false_ne_true, if_neg hclose.1, if_neg hclose.2.1, if_neg Bool.false_ne_true,
    if_neg hclose.2.2, if_pos rfl, if_pos (by decide)]

theorem findBalancedClose_square {init : List Char} (h : Level init) (post : List Char) :
    findBalancedClose ('[' :: (init ++ ']' :: post)) = some (init.length + 1) := by
  obtain ⟨hrun, hinside⟩ := h.unclosed_square (s := {}) ⟨rfl, rfl⟩
  exact closeLoop_level counts_square rfl hrun ⟨rfl, rfl⟩ rfl (hinside.mono fun _ _ hc => hc.2.1) (by decide)

theorem findBalancedClose_curly {init : List Char} (h : Level init) (post : List Char) :
    findBalancedClose ('{' :: (init ++ '}' :: post)) = some (init.length + 1) := by
  obtain ⟨hrun, hinside⟩ := h.unclosed_curly (s := {}) ⟨rfl, rfl⟩
  exact closeLoop_level counts_curly rfl hrun ⟨rfl, rfl⟩ rfl (hinside.mono fun _ _ hc => hc.2.2) (by decide)

theorem compound_closes {d : Doc} (hd : compound d) : ∃ c cs, d.render = c :: cs ∧ isBracket c ∧
    ∀ post, findBalancedClose (d.render ++ post) = some (d.render.length - 1) := by
  cases d with
  | null => cases hd
  | bool b => cases hd
  | number n => cases hd
  | string b => cases hd
  | emptyArray w =>
    refine ⟨'[', w.render ++ [']'], rfl, rfl, fun post => ?_⟩
    have h := findBalancedClose_square (level_space w) post
    simpa [Doc.render] using h
  | array w xs =>
    refine ⟨'[', w.render ++ xs.render, rfl, rfl, fun post => ?_⟩
    have h := findBalancedClose_square ((level_space w).append (level_items xs)) post
    simpa [Doc.render, items_render, Nat.add_assoc] using h
  | emptyObject w =>
    refine ⟨'{', w.render ++ ['}'], rfl, rfl, fun post => ?_⟩
    have h := findBalancedClose_curly (level_space w) post
    simpa [Doc.render] using h
  | object w ms =>
    refine ⟨'{', w.render ++ ms.render, rfl, rfl, fun post => ?_⟩
    have h := findBalancedClose_curly ((level_space w).append (level_members ms)) post
    simpa [Doc.render, members_render, Nat.add_assoc] using h

theorem scans_close (d : Doc) (hd : compound d) (before after : List Char) :
    findBalancedCloseAt (before ++ (d.render ++ after)) before.length =
      some (before.length + (d.render.length - 1)) ∧
    ((∀ c ∈ before, isBracket c = false) →
      findOutermostJson (before ++ (d.render ++ after)) = some d.render) := by
  obtain ⟨c, cs, hrender, hc, hclose⟩ := compound_closes hd
  refine ⟨?_, fun hbefore => ?_⟩
  · rw [findBalancedCloseAt_eq, List.drop_left, hclose, Option.map_some, Nat.add_comm]
  · have hdrop : (before ++ (d.render ++ after)).dropWhile (fun c => !isBracket c) = d.render ++ after := by
      rw [List.dropWhile_append_of_pos fun c hc => by rw [hbefore c hc]; rfl, hrender, List.cons_append,
        List.dropWhile_cons_of_neg (by rw [hc]; decide)]
    have hlength : d.render.length - 1 + 1 = d.render.length := by
      rw [hrender, List.length_cons]
      rfl
    rw [findOutermostJson_eq, hdrop, hclose, Option.map_some, hlength, List.take_left]

/-- An array of one string, which holds a bracket and a quote. -/
def trickyArray : Doc :=
  .array [] (.last (.string [.raw ⟨']', by decide⟩, .escape ⟨'"', by decide⟩]) [])

theorem scans_close_tricky : findBalancedCloseAt "see [\"]\\\"\"] and ]".toList 4 = some 10 ∧
    findOutermostJson "see [\"]\\\"\"] and ]".toList = some "[\"]\\\"\"]".toList :=
  have h := scans_close trickyArray (by decide) "see ".toList " and ]".toList
  ⟨h.1, h.2 (by decide)⟩

end Proof

end AlfredProcessing.Extract.BalancedClose
