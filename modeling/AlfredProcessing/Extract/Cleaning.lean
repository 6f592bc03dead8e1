import AlfredProcessing.Lib.JsonScan
import AlfredProcessing.Lib.Substitute

namespace AlfredProcessing.Extract.Cleaning

open Lib.Json Lib.JsonText Lib.Brackets Lib.Substitute

/-- The code points of `str.isspace`, which is also what `\s` stands for. -/
def spaceCode (n : Nat) : Bool :=
  (9 ≤ n && n ≤ 13) || (28 ≤ n && n ≤ 32) || n = 0x85 || n = 0xA0 || n = 0x1680 ||
    (0x2000 ≤ n && n ≤ 0x200A) || n = 0x2028 || n = 0x2029 || n = 0x202F || n = 0x205F || n = 0x3000

def isSpace (c : Char) : Bool := spaceCode c.toNat

def leakageTokens : List (List Char) :=
  ["<|im_start|>".toList, "<|im_end|>".toList, "<|endoftext|>".toList,
    "<|start_header_id|>".toList, "<|end_header_id|>".toList, "<|eot_id|>".toList]

/-- `_CHAT_TEMPLATE_LEAKAGE`. -/
def chatTemplateLeakage : Pattern := fun _ cs =>
  (leakageTokens.find? fun t => t.isPrefixOf cs).map List.length

/-- `\s*$` of a multi-line pattern: white space up to the end of the text or
of its last full line. -/
def closeLine (cs : List Char) : Option Nat :=
  let blank := cs.takeWhile isSpace
  if blank.length = cs.length then some cs.length
  else if '\n' ∈ blank then some (blank.rdropWhile (· ≠ '\n')).dropLast.length
  else none

def fenceLanguages : List (List Char) :=
  ["json".toList, "python".toList, "javascript".toList, "js".toList, []]

/-- The fence behind the white space at the beginning of a line. -/
def fence : List Char → Option Nat
  | '`' :: '`' :: '`' :: cs =>
    fenceLanguages.findSome? fun l =>
      if l.isPrefixOf cs then (closeLine (cs.drop l.length)).map (3 + l.length + ·) else none
  | _ => none

/-- `_CODE_FENCE_LINE`. -/
def codeFenceLine : Pattern := fun prev cs =>
  if prev = none ∨ prev = some '\n' then
    (fence (cs.dropWhile isSpace)).map ((cs.takeWhile isSpace).length + ·)
  else none

/-- `str.strip`. -/
def strip (cs : List Char) : List Char := (cs.dropWhile isSpace).rdropWhile isSpace

/-- `str.strip` on code points. -/
def stripped (s : Str) : Str := (s.dropWhile spaceCode).rdropWhile spaceCode

/-- The text that `_extract_changes` parses. -/
def clean (cs : List Char) : List Char :=
  strip (sub codeFenceLine [] (sub chatTemplateLeakage [] cs))

variable {s : Scan} {cs ds : List Char} {c : Char} {prev : Option Char} {n : Nat} {a b : Int}

def tokenChar (c : Char) : Bool := plain c && neutral c && !isSpace c

theorem tokens_plain : ∀ t ∈ leakageTokens, t.head? = some '<' ∧ ∀ c ∈ t, tokenChar c := by decide

theorem leakage_forward : Forward chatTemplateLeakage := fun _ _ _ => rfl

theorem leakage_match (h : chatTemplateLeakage prev cs = some n) :
    ∃ t, t.head? = some '<' ∧ (∀ c ∈ t, tokenChar c) ∧ n = t.length ∧ t <+: cs := by
  obtain ⟨t, ht, rfl⟩ := Option.map_eq_some_iff.mp h
  obtain ⟨hhead, hchars⟩ := tokens_plain t (List.mem_of_find?_eq_some ht)
  exact ⟨t, hhead, hchars, rfl, List.isPrefixOf_iff_prefix.mp (by simpa using List.find?_some ht)⟩

/-- Only `<` begins a token. -/
theorem leakage_none (hc : c ≠ '<') : chatTemplateLeakage prev (c :: cs) = none := by
  cases h : chatTemplateLeakage prev (c :: cs) with
  | none => rfl
  | some n =>
    obtain ⟨t, hhead, -, -, d, hd⟩ := leakage_match h
    cases t with
    | nil => cases hhead
    | cons x t =>
      simp only [List.head?_cons, Option.some.injEq] at hhead
      exact absurd ((List.cons.inj hd).1.symm.trans hhead) hc

theorem along_leakage (h : Along (within a b) s cs) (hk : n ≠ 0 → s.escape = false)
    (hn : ∀ c ∈ cs.take n, neutral c) :
    Along (within a b) s (subFrom chatTemplateLeakage [] prev n cs) ∧
      s.run (subFrom chatTemplateLeakage [] prev n cs) = s.run cs := by
  induction cs generalizing s prev n with
  | nil => simp [Along]
  | cons c cs ih =>
    cases n with
    | succ n =>
      have hstep : s.step c = s := step_neutral (hk (by simp)) (hn c (by simp))
      rw [subFrom_skip, run_cons, hstep]
      refine ih (hstep ▸ h.2) (fun _ => hk (by simp)) fun d hd => hn d ?_
      rw [List.take_succ_cons]
      exact List.mem_cons_of_mem _ hd
    | zero =>
      cases hm : chatTemplateLeakage prev (c :: cs) with
      | none =>
        obtain ⟨ha, hr⟩ := @ih (s.step c) (some c) 0 h.2 (by simp) (by simp)
        rw [subFrom_keep hm]
        exact ⟨⟨h.1, ha⟩, hr⟩
      | some m =>
        obtain ⟨t, hhead, hchars, rfl, d, hd⟩ := leakage_match hm
        cases t with
        | nil => cases hhead
        | cons x t =>
          obtain ⟨rfl, rfl⟩ := List.cons.inj hd
          obtain rfl : x = '<' := by simpa using hhead
          have hesc : s.escape = false := by
            cases he : s.escape with
            | false => rfl
            | true => exact absurd (h.1.1.1 he) (by decide)
          have hstep : s.step '<' = s := step_neutral hesc (by decide)
          rw [subFrom_match hm, List.nil_append, run_cons, hstep]
          refine ih (hstep ▸ h.2) (fun _ => hesc) fun e he => ?_
          have hmem : e ∈ t := by simpa using he
          have := hchars e (List.mem_cons_of_mem _ hmem)
          simp only [tokenChar, Bool.and_eq_true] at this
          exact this.1.2

theorem not_alphanum_of_space {c : Char} (h : isSpace c) : c.isAlphanum = false := by
  rw [Bool.eq_false_iff]
  intro hword
  simp only [isSpace, spaceCode, Bool.or_eq_true, Bool.and_eq_true, decide_eq_true_eq] at h
  unfold Char.isAlphanum Char.isAlpha Char.isUpper Char.isLower Char.isDigit at hword
  simp only [Bool.or_eq_true, Bool.and_eq_true, decide_eq_true_eq, UInt32.le_iff_toNat_le, ge_iff_le] at hword
  change ((65 ≤ c.toNat ∧ c.toNat ≤ 90) ∨ 97 ≤ c.toNat ∧ c.toNat ≤ 122) ∨ 48 ≤ c.toNat ∧ c.toNat ≤ 57 at hword
  omega

theorem space_neutral (h : isSpace c) : neutral c := by
  simp only [neutral, Bool.and_eq_true, decide_eq_true_eq, ne_eq]
  refine ⟨⟨⟨⟨⟨?_, ?_⟩, ?_⟩, ?_⟩, ?_⟩, ?_⟩ <;> rintro rfl <;> exact absurd h (by decide)

/-- The first visible character of legal text outside strings is no backtick. -/
theorem visible_ne (hs : s.code) (h : Along (within a b) s cs) :
    ∀ c ∈ (cs.dropWhile isSpace).head?, c ≠ '`' := by
  have hsplit : cs.takeWhile isSpace ++ cs.dropWhile isSpace = cs :=
    List.takeWhile_append_dropWhile
  have hblank : s.run (cs.takeWhile isSpace) = s :=
    run_neutral hs.2 fun c hc => space_neutral (List.mem_takeWhile_imp hc)
  rw [← hsplit, along_append, hblank] at h
  cases hrest : cs.dropWhile isSpace with
  | nil => simp
  | cons d ds =>
    rw [hrest] at h
    rintro c hc rfl
    obtain rfl : d = '`' := by simpa using hc
    exact absurd (h.2.1.1.2.1 hs.1) (by decide)

theorem fence_none_of_head (h : ∀ c ∈ cs.head?, c ≠ '`') : fence cs = none := by
  unfold fence
  split
  · exact absurd rfl (h '`' rfl)
  · rfl

theorem fence_none (hs : s.code) (h : Along (within a b) s cs) :
    fence (cs.dropWhile isSpace) = none :=
  fence_none_of_head (visible_ne hs h)

/-- A line break ends no string, so the text after it begins outside strings. -/
theorem code_newline (h : within a b s '\n') : s.code := by
  refine ⟨?_, ?_⟩
  · cases hi : s.inString with
    | false => rfl
    | true => exact absurd (h.1.2.2 hi) (by decide)
  · cases he : s.escape with
    | false => rfl
    | true => exact absurd (h.1.1 he) (by decide)

theorem subFrom_fence (h : Along (within a b) s cs)
    (hp : prev = none ∨ prev = some '\n' → s.code) : subFrom codeFenceLine [] prev 0 cs = cs := by
  induction cs generalizing s prev with
  | nil => rfl
  | cons c cs ih =>
    have hnone : codeFenceLine prev (c :: cs) = none := by
      unfold codeFenceLine
      split
      · next hprev => rw [fence_none (hp hprev) h, Option.map_none]
      · rfl
    rw [subFrom_keep hnone, ih h.2]
    rintro (hc | hc)
    · cases hc
    · obtain rfl : c = '\n' := by simpa using hc
      have hs := code_newline h.1
      rw [step_neutral hs.2 (by decide)]
      exact hs

theorem clean_legal (hs : s.code) (h : Along (within a b) s cs) :
    clean cs = strip (sub chatTemplateLeakage [] cs) := by
  have ha : Along (within a b) s (sub chatTemplateLeakage [] cs) :=
    (along_leakage h (by simp) (by simp)).1
  exact congrArg strip (subFrom_fence ha fun _ => hs)

theorem rdropWhile_append_cons (cs ds : List Char) (hc : isSpace c = false) :
    (cs ++ c :: ds).rdropWhile isSpace = cs ++ c :: ds.rdropWhile isSpace := by
  induction ds using List.reverseRecOn with
  | nil => exact List.rdropWhile_concat_neg _ _ _ (by simp [hc])
  | append_singleton ds d ih =>
    rw [← List.cons_append, ← List.append_assoc, List.rdropWhile_concat, List.rdropWhile_concat]
    split
    · exact ih
    · simp

theorem strip_append_cons (cs : List Char) (hc : isSpace c = false) (hd : ∀ d ∈ cs.head?, isSpace d = false) :
    strip (cs ++ c :: ds) = cs ++ c :: ds.rdropWhile isSpace := by
  have hlead : (cs ++ c :: ds).dropWhile isSpace = cs ++ c :: ds := by
    cases cs with
    | nil => simp [hc]
    | cons d cs => simp [hd d rfl]
  rw [strip, hlead, rdropWhile_append_cons _ _ hc]

end AlfredProcessing.Extract.Cleaning
