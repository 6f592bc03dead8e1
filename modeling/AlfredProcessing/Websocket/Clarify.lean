import AlfredProcessing.Pipeline.Context

namespace AlfredProcessing.Websocket.Clarify

open Lib.Json Lib.Effects Extract.Changes Extract.Cleaning Pipeline.Context

section Model

/-- How a call of `ask_human` ends. -/
inductive Reply where
  | answered (answer : Value)
  | timedOut
  | raised (e : Exc)

/-- What the clarification gate meets on its way: the texts and exceptions of its awaits,
`json.loads`, and `str` on values that are no strings. The events and replies of a question go
by its place. -/
structure Gate where
  checking : Option Exc
  chat : Except Exc (List Char)
  loads : List Char → Option Value
  str : Value → Str
  asking : Nat → Option Exc
  answer : Nat → Str → List Str → Reply
  done : Option Exc

/-- The answers that the user has given, with their questions. -/
abbrev Answers := List (Str × Value)

abbrev Asking := Program Answers Exc

variable (g : Gate)

def Gate.toStr : Value → Str
  | .str s => s
  | v => g.str v

/-- `try: ... except Exception`. -/
def orElse {α : Type} (x handler : Asking α) : Asking α :=
  tryCatch x fun e => if e = .cancelled then throw e else handler

def liftExcept {α : Type} : Except Exc α → Asking α
  | .ok a => pure a
  | .error e => throw e

/-- `await event_callback(...)`. -/
def event : Option Exc → Asking PUnit
  | some e => throw e
  | none => pure ⟨⟩

def timeoutText : Str := str "[TIMEOUT] User did not respond. Consider escalating to a human operator."

def noResponse : Str := str "[no response]"

def askHuman (place : Nat) (question : Str) (choices : List Str) : Asking Value :=
  match g.answer place question choices with
  | .answered answer => do
    modify (· ++ [(question, answer)])
    pure answer
  | .timedOut => pure (.str timeoutText)
  | .raised e => throw e

def dropOpening (cs : List Char) : List Char :=
  if "```".toList.isPrefixOf cs then
    let rest := cs.drop 3
    ((if "json".toList.isPrefixOf rest then rest.drop 4 else rest)).dropWhile isSpace
  else cs

def dropClosing (cs : List Char) : List Char :=
  if "```".toList.isSuffixOf cs then (cs.take (cs.length - 3)).rdropWhile isSpace else cs

/-- The text from the first opening bracket to the last closing one. -/
def bracketed (cs : List Char) : List Char := (cs.dropWhile (· ≠ '[')).rdropWhile (· ≠ ']')

def readQuestions (raw : List Char) : List Dict :=
  let found := bracketed (dropClosing (dropOpening (strip raw)))
  if found.isEmpty then []
  else
    match g.loads found with
    | some (.list xs) => (xs.filterMap asDict).filter fun q => (pyGet q "question").truthy
    | _ => []

def questionText (q : Dict) : Str := stripped (g.toStr (pyGet q "question"))

/-- What a loop over a value goes through, if it can. -/
def elements : Value → Option (List Value)
  | .list xs => some xs
  | .str s => some (s.map fun c => .str [c])
  | .dict d _ => some (d.map fun e => .str e.1)
  | _ => none

def choicesOf (q : Dict) : Option (List Str) :=
  (elements (pyOr (pyGet q "choices") (.list []))).map fun cs =>
    ((cs.map fun c => stripped (g.toStr c)).filter fun c => !c.isEmpty).take 4

/-- `answer or "[no response]"`. -/
def recorded (answer : Value) : Value := pyOr answer (.str noResponse)

/-- The loop over the questions, from a place on. -/
def askEach (place : Nat) (pairs : List (Str × Value)) : List Dict → Asking (List (Str × Value))
  | [] => pure pairs
  | q :: qs =>
    if (questionText g q).isEmpty then askEach (place + 1) pairs qs
    else
      match choicesOf g q with
      | none => throw (.other "TypeError")
      | some choices => do
        event (g.asking place)
        let answer ← orElse (askHuman g place (questionText g q) choices) (pure (.str noResponse))
        askEach (place + 1) (pairs ++ [(questionText g q, recorded answer)]) qs

def qaLine (pair : Str × Value) : Str := str "Q: " ++ pair.1 ++ str "\nA: " ++ g.toStr pair.2

def clarificationsBlock (pairs : List (Str × Value)) : Str :=
  str "\n\nUSER CLARIFICATIONS:\n" ++ ((pairs.map (qaLine g)).intersperse (str "\n")).flatten

def Gate.questions : List Dict :=
  match g.chat with
  | .ok raw => (readQuestions g raw).take 3
  | .error _ => []

/-- What `_clarify_requirements` tries. -/
def askUser (enhancedPrompt : Str) : Asking (Str × List (Str × Value)) := do
  event g.checking
  let raw ← liftExcept g.chat
  if (readQuestions g raw).isEmpty then pure (enhancedPrompt, [])
  else
    let pairs ← askEach g 0 [] ((readQuestions g raw).take 3)
    if pairs.isEmpty then pure (enhancedPrompt, [])
    else
      event g.done
      pure (enhancedPrompt ++ clarificationsBlock g pairs, pairs)

/-- `_clarify_requirements`. -/
def clarifyRequirements (enhancedPrompt : Str) : Asking (Str × List (Str × Value)) :=
  if enhancedPrompt.isEmpty then pure (enhancedPrompt, [])
  else orElse (askUser g enhancedPrompt) (pure (enhancedPrompt, []))

end Model

section Answers

variable {α β : Type} {g : Gate} {place : Nat} {pairs : List (Str × Value)}

/-- A question at a place at which nothing but `ask_human` raises. -/
def Smooth (g : Gate) (place : Nat) (q : Dict) : Prop :=
  questionText g q ≠ [] → (choicesOf g q).isSome ∧ ∀ e, g.asking place = some e → e = .cancelled

def SmoothFrom (g : Gate) (place : Nat) : List Dict → Prop
  | [] => True
  | q :: qs => Smooth g place q ∧ SmoothFrom g (place + 1) qs

/-- From the first question on, nothing but `ask_human` raises. -/
def Undisturbed (g : Gate) : Prop :=
  SmoothFrom g 0 g.questions ∧ ∀ e, g.done = some e → e = .cancelled

/-- Each answer stands in the pairs and in the prompt, as `text` reads it. -/
structure Kept (g : Gate) (text : Value → Value) (answers : Answers) (prompt : Str)
    (pairs : List (Str × Value)) : Prop where
  pairs : ∀ a ∈ answers, (a.1, text a.2) ∈ pairs
  prompt : ∀ a ∈ answers, qaLine g (a.1, text a.2) <:+: prompt

/-- The pairs so far hold every answer so far. -/
def Covers (answers : Answers) (pairs : List (Str × Value)) : Prop :=
  ∀ a ∈ answers, (a.1, recorded a.2) ∈ pairs

theorem Covers.snoc {answers : Answers} (h : Covers answers pairs) (pair : Str × Value) :
    Covers answers (pairs ++ [pair]) := fun a ha => List.mem_append_left _ (h a ha)

theorem Covers.answered {answers : Answers} (h : Covers answers pairs) (q : Str) (v : Value) :
    Covers (answers ++ [(q, v)]) (pairs ++ [(q, recorded v)]) := by
  intro a ha
  obtain ha | ha := List.mem_append.mp ha
  · exact List.mem_append_left _ (h a ha)
  · rw [List.mem_singleton.mp ha]
    exact List.mem_append_right _ (List.mem_singleton_self _)

theorem mem_of_intersperse {xs : List α} {sep x : α} (h : x ∈ xs) : x ∈ xs.intersperse sep := by
  obtain ⟨i, hi⟩ := List.mem_iff_getElem?.mp h
  exact List.mem_iff_getElem?.mpr ⟨2 * i, by rw [List.getElem?_intersperse_two_mul, hi]⟩

theorem qaLine_infix {pair : Str × Value} (h : pair ∈ pairs) (prompt : Str) :
    qaLine g pair <:+: prompt ++ clarificationsBlock g pairs := by
  have hlines : qaLine g pair <:+: ((pairs.map (qaLine g)).intersperse (str "\n")).flatten :=
    List.infix_of_mem_flatten (mem_of_intersperse (List.mem_map_of_mem h))
  have hblock : qaLine g pair <:+: clarificationsBlock g pairs :=
    hlines.trans (List.suffix_append _ _).isInfix
  exact hblock.trans (List.suffix_append _ _).isInfix

/-- One question: whatever comes of it, the answer the user gave is in the new pair. -/
theorem ask_ends (g : Gate) (place : Nat) (q : Str) (choices : List Str) {answers : Answers}
    (h : Covers answers pairs) :
    Ends (orElse (askHuman g place q choices) (pure (.str noResponse))) answers fun r answers' =>
      match r with
      | .ok v => Covers answers' (pairs ++ [(q, recorded v)])
      | .error e => e = .cancelled := by
  unfold orElse askHuman
  cases g.answer place q choices with
  | answered v => exact h.answered q v
  | timedOut => exact h.snoc _
  | raised e =>
    by_cases he : e = .cancelled
    · subst he
      exact rfl
    · unfold Ends
      rw [exec_tryCatch]
      simp only [exec_throw, if_neg he]
      exact h.snoc _

theorem event_ends (o : Option Exc) (answers : Answers) : Ends (event o) answers fun r answers' =>
    answers' = answers ∧ match r with
      | .ok _ => o = none
      | .error e => o = some e := by
  cases o <;> exact ⟨rfl, rfl⟩

/-- The loop keeps every answer, and ends early just when something but `ask_human` raises. -/
theorem askEach_ends (g : Gate) (place : Nat) (qs : List Dict) {answers : Answers} (h : Covers answers pairs) :
    Ends (askEach g place pairs qs) answers fun r answers' =>
      match r with
      | .ok pairs' => Covers answers' pairs' ∧ SmoothFrom g place qs
      | .error e => e = .cancelled ∨ ¬SmoothFrom g place qs := by
  induction qs generalizing place pairs answers with
  | nil => exact ⟨h, trivial⟩
  | cons q qs ih =>
    unfold askEach
    by_cases hempty : (questionText g q).isEmpty = true
    · rw [if_pos hempty]
      have hsmooth : Smooth g place q := fun hne => absurd (List.isEmpty_iff.mp hempty) hne
      refine (ih (place + 1) h).mono fun r answers' hr => ?_
      cases r with
      | ok pairs' => exact ⟨hr.1, hsmooth, hr.2⟩
      | error e => exact hr.imp_right fun hrest hfrom => hrest hfrom.2
    · rw [if_neg hempty]
      have hne : questionText g q ≠ [] := fun hnil => hempty (List.isEmpty_iff.mpr hnil)
      cases hchoices : choicesOf g q with
      | none =>
        refine .inr fun hfrom => ?_
        have hsome := (hfrom.1 hne).1
        rw [hchoices] at hsome
        cases hsome
      | some choices =>
        dsimp only
        refine (event_ends (g.asking place) answers).bind ?_ ?_
        · rintro _ answers' ⟨rfl, hasking⟩
          have hnone : g.asking place = none := hasking
          have hsmooth : Smooth g place q := fun _ =>
            ⟨by rw [hchoices]; rfl, fun e he => by rw [hnone] at he; cases he⟩
          refine (ask_ends g place (questionText g q) choices h).bind ?_ fun e _ he => .inl he
          intro v answers'' hcovers
          refine (ih (place + 1) hcovers).mono fun r answers' hr => ?_
          cases r with
          | ok pairs' => exact ⟨hr.1, hsmooth, hr.2⟩
          | error e => exact hr.imp_right fun hrest hfrom => hrest hfrom.2
        · rintro e answers' ⟨-, hasking⟩
          by_cases he : e = .cancelled
          · exact .inl he
          · exact .inr fun hfrom => he ((hfrom.1 hne).2 e hasking)

/-- What the gate may return once the user has given these answers. -/
structure Returned (g : Gate) (enhancedPrompt : Str) (answers : Answers) (prompt : Str)
    (pairs : List (Str × Value)) : Prop where
  added : enhancedPrompt <+: prompt
  kept : Undisturbed g → Kept g recorded answers prompt pairs
  disturbed : ¬Undisturbed g → prompt = enhancedPrompt ∧ pairs = []

/-- The prompt may come back as it was when there has been a disturbance, or no answer. -/
theorem returned_unchanged {answers : Answers} (enhancedPrompt : Str) (h : ¬Undisturbed g ∨ answers = []) :
    Returned g enhancedPrompt answers enhancedPrompt [] where
  added := List.prefix_refl _
  kept hundisturbed := by
    obtain hnot | rfl := h
    · exact absurd hundisturbed hnot
    · exact ⟨fun _ ha => (List.not_mem_nil ha).elim, fun _ ha => (List.not_mem_nil ha).elim⟩
  disturbed _ := ⟨rfl, rfl⟩

theorem returned_clarified {answers : Answers} (enhancedPrompt : Str) (hcovers : Covers answers pairs)
    (h : Undisturbed g) :
    Returned g enhancedPrompt answers (enhancedPrompt ++ clarificationsBlock g pairs) pairs where
  added := List.prefix_append _ _
  kept _ := ⟨hcovers, fun a ha => qaLine_infix (hcovers a ha) enhancedPrompt⟩
  disturbed hnot := absurd h hnot

/-- What is tried fails without a disturbance only as long as there is no answer. -/
theorem askUser_ends (g : Gate) (enhancedPrompt : Str) :
    Ends (askUser g enhancedPrompt) [] fun r answers =>
      match r with
      | .ok (prompt, pairs) => Returned g enhancedPrompt answers prompt pairs
      | .error e => e = .cancelled ∨ ¬Undisturbed g ∨ answers = [] := by
  unfold askUser
  refine (event_ends g.checking []).bind ?_ fun _ _ h => .inr (.inr h.1)
  rintro _ answers ⟨rfl, -⟩
  cases hchat : g.chat with
  | error e => exact .inr (.inr rfl)
  | ok raw =>
    refine Ends.bind_of_ok (a := raw) (t := []) rfl ?_
    by_cases hnone : (readQuestions g raw).isEmpty = true
    · rw [if_pos hnone]
      exact returned_unchanged _ (.inr rfl)
    rw [if_neg hnone]
    have hquestions : g.questions = (readQuestions g raw).take 3 := by
      unfold Gate.questions
      rw [hchat]
    have hstart : Covers [] [] := fun _ ha => (List.not_mem_nil ha).elim
    refine (askEach_ends g 0 ((readQuestions g raw).take 3) hstart).bind ?_ ?_
    · rintro pairs answers ⟨hcovers, hsmooth⟩
      rw [← hquestions] at hsmooth
      by_cases hempty : pairs.isEmpty = true
      · rw [if_pos hempty]
        refine returned_unchanged _ (.inr (List.eq_nil_iff_forall_not_mem.mpr fun a ha => ?_))
        have hmem := hcovers a ha
        rw [List.isEmpty_iff.mp hempty] at hmem
        cases hmem
      · rw [if_neg hempty]
        refine (event_ends g.done answers).bind ?_ ?_
        · rintro _ answers' ⟨rfl, hdone⟩
          have hsilent : g.done = none := hdone
          exact returned_clarified _ hcovers ⟨hsmooth, fun e he => by rw [hsilent] at he; cases he⟩
        · rintro e answers' ⟨-, hdone⟩
          by_cases he : e = .cancelled
          · exact .inl he
          · exact .inr (.inl fun h => he (h.2 e hdone))
    · rintro e answers (he | hdisturbed)
      · exact .inl he
      · exact .inr (.inl fun h => hdisturbed (hquestions ▸ h.1))

/-- The prompt is only added to. Every answer is kept when nothing but `ask_human` raises, an
empty one as no response, and the prompt comes back as it was, without pairs, when something does. -/
theorem clarify_ends (g : Gate) (enhancedPrompt : Str) :
    Ends (clarifyRequirements g enhancedPrompt) [] fun r answers =>
      match r with
      | .ok (prompt, pairs) => Returned g enhancedPrompt answers prompt pairs
      | .error e => e = .cancelled := by
  unfold clarifyRequirements
  by_cases hprompt : enhancedPrompt.isEmpty = true
  · rw [if_pos hprompt]
    exact returned_unchanged _ (.inr rfl)
  · rw [if_neg hprompt]
    refine (askUser_ends g enhancedPrompt).tryCatch (fun _ _ h => h) ?_
    rintro e answers (rfl | h)
    · exact rfl
    · by_cases he : e = .cancelled
      · rw [if_pos he]
        exact he
      · rw [if_neg he]
        exact returned_unchanged _ h

/-- No answer is lost or changed, and the prompt is only added to. -/
def Unlost (g : Gate) (enhancedPrompt : Str) : Prop :=
  Ends (clarifyRequirements g enhancedPrompt) [] fun r answers =>
    match r with
    | .ok (prompt, pairs) => enhancedPrompt <+: prompt ∧ Kept g id answers prompt pairs
    | .error e => e = .cancelled

/-- The user is asked these questions, and gives this answer to each. -/
def answering (questions : List Value) (answer : Str) : Gate where
  checking := none
  chat := .ok "[]".toList
  loads _ := some (.list questions)
  str _ := []
  asking _ := none
  answer _ _ _ := .answered (.str answer)
  done := none

def whoApproves : Value := .dict [(str "question", .str (str "Who approves?"))] .none

/-- Choices that are a number end the pass, after an answer. -/
def whenSent : Value := .dict [(str "question", .str (str "When is it sent?")), (str "choices", .int 2)] .none

theorem answers_lost : ¬Unlost (answering [whoApproves, whenSent] (str "Managers")) (str "Notify") ∧
    ¬Unlost (answering [whoApproves] []) (str "Notify") := by
  constructor
  · rintro ⟨-, hkept⟩
    exact absurd (hkept.pairs (str "Who approves?", .str (str "Managers")) (List.mem_singleton_self _))
      List.not_mem_nil
  · rintro ⟨-, hkept⟩
    have hpair := hkept.pairs (str "Who approves?", .str []) (List.mem_singleton_self _)
    cases List.mem_singleton.mp hpair

end Answers

end AlfredProcessing.Websocket.Clarify
