import AlfredProcessing.Security.SqlPasses

namespace AlfredProcessing.Security.SqlSoundness

open Lib.Substitute Lib.SqlLexer Extract.Cleaning SqlSafety SqlPasses

section Safety

/-- MySQL reads one statement, which begins with SELECT or WITH, and none of the
dangerous keywords in its code. -/
def safeSelect (sql : List Char) : Bool :=
  match lex sql with
  | none => false
  | some xs =>
    (statements xs).length = 1 &&
      (statements xs).all (fun st =>
        (words st).head?.any fun w => selectTokens.contains (w.map Char.toUpper)) &&
      (words xs).all fun w => !dangerousKeywords.contains (w.map Char.toLower)

/-- The white space around the code is white space to MySQL too. -/
def blankEnds (cs : List Char) : Bool :=
  (cs.takeWhile isSpace).all isBlank && (cs.rtakeWhile isSpace).all isBlank

/-- The first word does not only begin with SELECT or WITH. -/
def unglued (xs : List Segment) : Bool :=
  (words xs).head?.all fun w =>
    w.all tokenStart || !selectTokens.contains ((w.takeWhile tokenStart).map Char.toUpper)

def readAlike (sql : List Char) : Bool :=
  match lex sql with
  | none => false
  | some xs => aligned xs && blankEnds (xs.flatMap rendered) && unglued xs

end Safety

section Edges

/-- What is one character, and what is in backticks. -/
structure Formed (x : Segment) : Prop where
  plain : x.kind ≠ .executable
  code : x.kind = .code → ∃ c, x.raw = [c]
  name : x.kind = .name → ∃ b, x.raw = '`' :: (b ++ ['`'])

theorem code_of_begins {raw rest : List Char} (h : Begins (raw ++ rest) .code raw.length) :
    ∃ c, raw = [c] ∧ c ∉ ['#', '\'', '"', '`'] ∧ (c = '/' → rest.head? ≠ some '*') := by
  generalize hk : Kind.code = k at h
  generalize hcs : raw ++ rest = cs at h
  generalize hn : raw.length = n at h
  cases h with
  | @code c ds hc hd =>
    obtain ⟨rfl, rfl⟩ := @List.append_inj Char raw [c] _ _ hcs hn
    exact ⟨c, rfl, hc, hd⟩
  | literal hq => obtain rfl | rfl := hq <;> cases hk
  | _ => cases hk

theorem name_of_begins {raw rest : List Char} (h : Begins (raw ++ rest) .name raw.length) :
    ∃ b, raw = '`' :: (b ++ ['`']) := by
  generalize hk : Kind.name = k at h
  generalize hcs : raw ++ rest = cs at h
  generalize hn : raw.length = n at h
  cases h with
  | name h =>
    obtain ⟨b, r, rfl, rfl⟩ := closeName_split h
    have htext : raw ++ rest = '`' :: (b ++ ['`']) ++ r := by simp [hcs]
    exact ⟨b, (List.append_inj htext (by simp [hn])).1⟩
  | literal hq => obtain rfl | rfl := hq <;> cases hk
  | _ => cases hk

theorem formed_of_lexed {xs : List Segment} (h : Lexed xs) (ha : aligned xs) :
    ∀ x ∈ xs, Formed x := by
  induction xs with
  | nil => simp
  | cons x xs ih =>
    obtain ⟨hseg, -, hxs⟩ := h
    simp only [aligned, Bool.and_eq_true, decide_eq_true_eq] at ha
    intro y hy
    obtain rfl | hy := List.mem_cons.mp hy
    · refine ⟨ha.1.1.1.1.1, fun hk => ?_, fun hk => ?_⟩
      · rw [hk] at hseg
        obtain ⟨c, hc, -⟩ := code_of_begins hseg
        exact ⟨c, hc⟩
      · rw [hk] at hseg
        exact name_of_begins hseg
    · exact ih hxs ha.2 y hy

theorem rendered_code {x : Segment} (hk : x.kind = .code) : rendered x = x.raw := by
  simp [rendered, afterSingles, afterLines, afterBlocks, hk]

/-- What the passes leave of a segment: white space for a comment, the quotes of a
literal, and everything of what is code. -/
theorem rendered_cases {x : Segment} (h : Formed x) :
    (x.kind = .line ∨ x.kind = .block) ∧ rendered x = [' '] ∨
      (∃ c, x.kind = .code ∧ x.raw = [c] ∧ rendered x = [c]) ∨
      (∃ b, x.kind = .name ∧ x.raw = '`' :: (b ++ ['`']) ∧ rendered x = '`' :: (b ++ ['`'])) ∨
      ∃ q, (q = '\'' ∨ q = '"') ∧ x.kind = literalKind q ∧ rendered x = [q, q] := by
  cases hk : x.kind with
  | code =>
    obtain ⟨c, hc⟩ := h.code hk
    exact .inr (.inl ⟨c, rfl, hc, by rw [rendered_code hk, hc]⟩)
  | name =>
    obtain ⟨b, hb⟩ := h.name hk
    refine .inr (.inr (.inl ⟨b, rfl, hb, ?_⟩))
    simp [rendered, afterSingles, afterLines, afterBlocks, hk, hb]
  | single =>
    refine .inr (.inr (.inr ⟨'\'', .inl rfl, rfl, ?_⟩))
    simp [rendered, afterSingles, hk]
  | double =>
    refine .inr (.inr (.inr ⟨'"', .inr rfl, rfl, ?_⟩))
    simp [rendered, hk]
  | line => exact .inl ⟨.inl rfl, by simp [rendered, afterSingles, afterLines, hk]⟩
  | block => exact .inl ⟨.inr rfl, by simp [rendered, afterSingles, afterLines, afterBlocks, hk]⟩
  | executable => exact absurd hk h.plain

theorem rendered_ne_nil {x : Segment} (h : Formed x) : rendered x ≠ [] := by
  obtain ⟨-, hr⟩ | ⟨c, -, -, hr⟩ | ⟨b, -, -, hr⟩ | ⟨q, -, -, hr⟩ := rendered_cases h <;>
    rw [hr] <;> exact List.cons_ne_nil _ _

theorem code_of_isIdent {x : Segment} (hx : x.isIdent) : x.kind = .code := by
  simp only [Segment.isIdent, Bool.and_eq_true, decide_eq_true_eq] at hx
  exact hx.1

/-- What is no part of a word has no character of one at its ends. -/
theorem edges {x : Segment} (h : Formed x) (hx : x.isIdent = false) {c : Char}
    (hc : (rendered x).head? = some c ∨ (rendered x).getLast? = some c) : isIdent c = false := by
  obtain ⟨-, hr⟩ | ⟨d, hk, hraw, hr⟩ | ⟨b, -, -, hr⟩ | ⟨q, hq, -, hr⟩ := rendered_cases h
  · rw [hr] at hc
    obtain hc | hc := hc <;> cases hc <;> decide
  · have hd : isIdent d = false := by simpa [Segment.isIdent, hk, hraw] using hx
    rw [hr] at hc
    obtain hc | hc := hc <;> cases hc <;> exact hd
  · rw [hr, ← List.cons_append, List.getLast?_concat] at hc
    obtain hc | hc := hc <;> cases hc <;> decide
  · rw [hr] at hc
    obtain rfl | rfl := hq <;> obtain hc | hc := hc <;> cases hc <;> decide

variable {xs : List Segment}

theorem head_rendered (hxs : ∀ x ∈ xs, Formed x) (hhead : ∀ x ∈ xs.head?, x.isIdent = false) :
    ∀ c ∈ (xs.flatMap rendered).head?, isIdent c = false := by
  cases xs with
  | nil => exact fun c hc => by cases hc
  | cons x xs =>
    have hx := hxs x List.mem_cons_self
    rw [head_flatMap (rendered_ne_nil hx)]
    exact fun c hc => edges hx (hhead x rfl) (.inl hc)

theorem last_rendered (hxs : ∀ x ∈ xs, Formed x) (hlast : ∀ x ∈ xs.getLast?, x.isIdent = false) :
    ∀ c ∈ (xs.flatMap rendered).getLast?, isIdent c = false := by
  obtain rfl | ⟨ys, x, rfl⟩ := List.eq_nil_or_concat' xs
  · exact fun c hc => by cases hc
  · have hx := hxs x (List.mem_append_right ys List.mem_cons_self)
    have hid := hlast x (by simp)
    intro c hc
    rw [List.flatMap_append, List.flatMap_singleton,
      List.getLast?_append_of_ne_nil _ (rendered_ne_nil hx)] at hc
    exact edges hx hid (.inr hc)

end Edges

section Keywords

variable (p : Platform) {xs : List Segment}

theorem isIdent_of_wordChar {c : Char} (h : wordChar p c) : isIdent c := by
  simp only [wordChar, Bool.or_eq_true, Bool.and_eq_true, decide_eq_true_eq] at h
  simp only [isIdent, Bool.or_eq_true, decide_eq_true_eq]
  tauto

theorem dangerous_small :
    ∀ k ∈ dangerousKeywords, k ≠ [] ∧ ∀ c ∈ k, c.isLower := by decide

theorem wordChar_of_small {c : Char} (h : c.toLower.isLower) : wordChar p c := by
  have halpha : c.isAlpha := by
    change (c.isUpper || c.isLower) = true
    by_cases hup : c.isUpper
    · rw [hup, Bool.true_or]
    · have hrange : ¬(c.val ≥ 'A'.val ∧ c.val ≤ 'Z'.val) := fun hr => hup (decide_eq_true hr)
      change (if h : _ then _ else c).isLower = true at h
      rw [dif_neg hrange] at h
      rw [h, Bool.or_true]
  simp [wordChar, Char.isAlphanum, halpha]

theorem foldsToPrefix_self (w r : List Char) : foldsToPrefix (w.map Char.toLower) (w ++ r) := by
  induction w with
  | nil => rfl
  | cons c w ih =>
    rw [List.map_cons, List.cons_append, foldsToPrefix, Bool.and_eq_true]
    exact ⟨by simp [foldsTo], ih⟩

theorem border_of {prev next : Option Char} (hprev : ∀ c ∈ prev, isIdent c = false)
    {c : Char} (hnext : next = some c) (hc : wordChar p c) : border p prev next := by
  subst hnext
  cases prev with
  | none => simp [border, hc]
  | some d =>
    have hd : wordChar p d = false := by
      rw [Bool.eq_false_iff]
      intro hw
      have := isIdent_of_wordChar p hw
      rw [hprev d rfl] at this
      cases this
    simp [border, hc, hd]

/-- The pattern finds a dangerous keyword that stands between characters of no word. -/
theorem dangerous_isSome {prev : Option Char} {w r : List Char}
    (hprev : ∀ c ∈ prev, isIdent c = false) (hnext : ∀ c ∈ r.head?, isIdent c = false)
    (hw : w.map Char.toLower ∈ dangerousKeywords) : (dangerous p prev (w ++ r)).isSome := by
  obtain ⟨hne, hlower⟩ := dangerous_small _ hw
  have hne : w ≠ [] := by simpa using hne
  have hword : ∀ c ∈ w, wordChar p c := fun c hc =>
    wordChar_of_small p (hlower _ (List.mem_map_of_mem hc))
  have hfirst : border p prev (w ++ r).head? := by
    obtain ⟨c, w', rfl⟩ := List.exists_cons_of_ne_nil hne
    exact border_of p hprev rfl (hword c List.mem_cons_self)
  have hlast : border p ((w ++ r)[w.length - 1]?) ((w ++ r)[w.length]?) := by
    have hpos := List.length_pos_of_ne_nil hne
    rw [List.getElem?_append_left (by omega), List.getElem?_append_right (le_refl _), Nat.sub_self,
      ← List.head?_eq_getElem?]
    have hborder := border_of p hnext (List.getElem?_eq_getElem (l := w) (i := w.length - 1) (by omega))
      (hword _ (List.getElem_mem _))
    rw [border, bne_comm] at hborder
    exact hborder
  rw [dangerous, if_pos hfirst, Option.isSome_map, List.find?_isSome]
  refine ⟨_, hw, ?_⟩
  rw [Bool.and_eq_true, List.length_map]
  exact ⟨foldsToPrefix_self w r, hlast⟩

theorem search_isSome (hxs : ∀ x ∈ xs, Formed x) {w : List Char} (hw : w ∈ words xs)
    (hbad : dangerousKeywords.contains (w.map Char.toLower)) :
    (search (dangerous p) (xs.flatMap rendered)).isSome := by
  obtain ⟨pre, run, post, rfl, rfl, hne, hrun, hpre, hpost⟩ := mem_words hw
  have hword : run.flatMap rendered = run.flatMap Segment.raw :=
    List.flatMap_congr fun y hy => rendered_code (code_of_isIdent (hrun y hy))
  have hlast := last_rendered (fun y hy => hxs y (List.mem_append_left _ hy)) hpre
  have hhead := head_rendered
    (fun y hy => hxs y (List.mem_append_right pre (List.mem_append_right run hy))) hpost
  have hfound : (dangerous p (pre.flatMap rendered).getLast?
      (run.flatMap Segment.raw ++ post.flatMap rendered)).isSome :=
    dangerous_isSome p hlast hhead (by simpa using hbad)
  have hne' : run.flatMap Segment.raw ≠ [] := by
    simpa using (dangerous_small _ (List.contains_iff_mem.mp hbad)).1
  obtain ⟨c, cs, hc⟩ := List.exists_cons_of_ne_nil hne'
  rw [List.flatMap_append, List.flatMap_append, hword]
  rw [hc, List.cons_append] at hfound ⊢
  exact searchFrom_isSome (by rwa [Option.or_none])

end Keywords

section Front

variable {xs : List Segment} {d : Char} {ds : List Char}

theorem first_code (hxs : ∀ x ∈ xs, Formed x) (h : (xs.flatMap rendered).dropWhile isSpace = d :: ds)
    (hd : d ∉ ['\'', '"', '`']) :
    ∃ pre y post, xs = pre ++ y :: post ∧ y.kind = .code ∧ y.raw = [d] ∧
      post.flatMap rendered = ds ∧ ∀ c ∈ pre.flatMap rendered, isSpace c := by
  induction xs with
  | nil => cases h
  | cons x xs ih =>
    have hskip (hspace : ∀ c ∈ rendered x, isSpace c) :
        ∃ pre y post, x :: xs = pre ++ y :: post ∧ y.kind = .code ∧ y.raw = [d] ∧
          post.flatMap rendered = ds ∧ ∀ c ∈ pre.flatMap rendered, isSpace c := by
      rw [List.flatMap_cons, List.dropWhile_append_of_pos hspace] at h
      obtain ⟨pre, y, post, rfl, hk, hraw, hpost, hpre⟩ :=
        ih (fun z hz => hxs z (List.mem_cons_of_mem x hz)) h
      refine ⟨x :: pre, y, post, rfl, hk, hraw, hpost, fun c hc => ?_⟩
      rw [List.flatMap_cons] at hc
      exact (List.mem_append.mp hc).elim (hspace c) (hpre c)
    obtain ⟨-, hr⟩ | ⟨c, hk, hraw, hr⟩ | ⟨b, -, -, hr⟩ | ⟨q, hq, -, hr⟩ :=
      rendered_cases (hxs x List.mem_cons_self)
    · exact hskip (by rw [hr]; decide)
    · by_cases hc : isSpace c
      · exact hskip (by simpa [hr] using hc)
      · rw [List.flatMap_cons, hr, List.singleton_append, List.dropWhile_cons_of_neg hc] at h
        obtain ⟨rfl, hds⟩ := List.cons.inj h
        exact ⟨[], x, xs, rfl, hk, hraw, hds, by simp⟩
    · rw [List.flatMap_cons, hr, List.cons_append, List.dropWhile_cons_of_neg (by decide)] at h
      simp [← (List.cons.inj h).1] at hd
    · obtain rfl | rfl := hq <;>
        rw [List.flatMap_cons, hr, List.cons_append, List.dropWhile_cons_of_neg (by decide)] at h <;>
        simp [← (List.cons.inj h).1] at hd

theorem head_view {v : Segment → List Char} (hv : ∀ x, x.kind = .code → v x = x.raw)
    (hxs : ∀ x ∈ xs, Formed x) (h : (xs.flatMap rendered).head? = some d)
    (hd : d ∉ [' ', '\'', '"', '`']) : (xs.flatMap v).head? = some d := by
  cases xs with
  | nil => cases h
  | cons x xs =>
    rw [List.flatMap_cons] at h
    obtain ⟨-, hr⟩ | ⟨c, hk, hraw, hr⟩ | ⟨b, -, -, hr⟩ | ⟨q, hq, -, hr⟩ :=
      rendered_cases (hxs x List.mem_cons_self)
    · rw [hr] at h
      simp [← Option.some.inj h] at hd
    · rw [hr] at h
      rw [List.flatMap_cons, hv x hk, hraw]
      exact h
    · rw [hr] at h
      simp [← Option.some.inj h] at hd
    · rw [hr] at h
      obtain rfl | rfl := hq <;> simp [← Option.some.inj h] at hd

theorem lexed_append {pre post : List Segment} (h : Lexed (pre ++ post)) : Lexed post := by
  induction pre with
  | nil => exact h
  | cons x pre ih => exact ih h.2.2

theorem aligned_append {pre post : List Segment} (h : aligned (pre ++ post)) : aligned post := by
  induction pre with
  | nil => exact h
  | cons x pre ih =>
    rw [List.cons_append, aligned, Bool.and_eq_true] at h
    exact ih h.2

theorem leadingComment_none (h : Lexed xs) (ha : aligned xs) :
    leadingComment (xs.flatMap rendered) = none := by
  have hxs := formed_of_lexed h ha
  unfold leadingComment
  split
  · next ds hdrop =>
    obtain ⟨pre, y, post, rfl, hk, hraw, hpost, -⟩ := first_code hxs hdrop (by decide)
    have hbegins := (lexed_append h).1
    rw [hk, hraw] at hbegins
    obtain ⟨c, hc, -, hslash⟩ := code_of_begins hbegins
    obtain rfl := (List.cons.inj hc).1
    refine absurd (head_view (fun _ _ => rfl) (fun z hz => hxs z ?_) (by rw [hpost]; rfl) (by decide))
      (hslash rfl)
    exact List.mem_append_right pre (List.mem_cons_of_mem y hz)
  · next ds hdrop =>
    obtain ⟨pre, y, post, rfl, hk, hraw, hpost, -⟩ := first_code hxs hdrop (by decide)
    have hquiet := aligned_append ha
    simp only [aligned, hk, hraw, Bool.and_eq_true] at hquiet
    have hdash : (post.flatMap afterBlocks).head? = some '-' :=
      head_view (fun x hx => afterBlocks_raw (by rw [hx]; decide))
        (fun z hz => hxs z (List.mem_append_right pre (List.mem_cons_of_mem y hz)))
        (by rw [hpost]; rfl) (by decide)
    obtain ⟨cs, hcs⟩ := List.head?_eq_some_iff.mp hdash
    have := hquiet.1.1.1.2
    rw [hcs] at this
    simp [quiet, lineComment] at this
  · next ds hdrop =>
    obtain ⟨pre, y, post, rfl, hk, hraw, hpost, -⟩ := first_code hxs hdrop (by decide)
    have hbegins := (lexed_append h).1
    rw [hk, hraw] at hbegins
    obtain ⟨c, hc, hno, -⟩ := code_of_begins hbegins
    obtain rfl := (List.cons.inj hc).1
    simp at hno
  · rfl

theorem firstToken_eq (h : Lexed xs) (ha : aligned xs) :
    firstToken (xs.flatMap rendered) =
      ((xs.flatMap rendered).dropWhile isSpace).takeWhile tokenStart := by
  have hstrip : stripLeadingComments (xs.flatMap rendered) =
      (xs.flatMap rendered).dropWhile isSpace := by
    rw [stripLeadingComments]
    cases (xs.flatMap rendered).length with
    | zero => rfl
    | succ n => rw [dropLeadingComments, leadingComment_none h ha]
  rw [firstToken, hstrip, List.dropWhile_idempotent]

end Front

section Accepted

variable {xs : List Segment} {cs : List Char}

theorem checks_of_ok {p : Platform} (h : validateSafeSelect p cs = .ok ()) :
    countStatements (sanitise cs) = 1 ∧ search (dangerous p) (sanitise cs) = none ∧
      selectTokens.contains ((firstToken (sanitise cs)).map Char.toUpper) := by
  simp only [validateSafeSelect] at h
  cases hsearch : search (dangerous p) (sanitise cs) with
  | some m =>
    rw [hsearch] at h
    split_ifs at h
  | none =>
    rw [hsearch] at h
    split_ifs at h with _ _ _ _ hselect
    exact ⟨by omega, rfl, hselect⟩

theorem mem_strip {c : Char} (hc : isSpace c = false) (h : c ∈ cs) : c ∈ strip cs := by
  rw [← List.takeWhile_append_dropWhile (p := isSpace) (l := cs)] at h
  obtain h | h := List.mem_append.mp h
  · rw [List.mem_takeWhile_imp h] at hc
    cases hc
  · rw [← List.rdropWhile_append_rtakeWhile (p := isSpace) (l := cs.dropWhile isSpace)] at h
    obtain h | h := List.mem_append.mp h
    · exact h
    · rw [List.mem_rtakeWhile_imp h] at hc
      cases hc

theorem tail_of_count (h : countStatements cs = 1) (hends : (cs.rtakeWhile isSpace).all isBlank) :
    ∃ body tail, cs = body ++ tail ∧ ';' ∉ body ∧ ∀ c ∈ tail, c = ';' ∨ isBlank c := by
  have hnone : ';' ∉ (cs.rdropWhile isSpace).rdropWhile (· = ';') := by
    rw [countStatements] at h
    split_ifs at h
    have hcount : ';' ∉ trimmed cs := List.count_eq_zero.mp (by omega)
    exact fun hmem => hcount (mem_strip (by decide) hmem)
  refine ⟨_, (cs.rdropWhile isSpace).rtakeWhile (· = ';') ++ cs.rtakeWhile isSpace, ?_, hnone, ?_⟩
  · rw [← List.append_assoc, List.rdropWhile_append_rtakeWhile, List.rdropWhile_append_rtakeWhile]
  · intro c hc
    obtain hc | hc := List.mem_append.mp hc
    · exact .inl (by simpa using List.mem_rtakeWhile_imp hc)
    · exact .inr (List.all_eq_true.mp hends c hc)

theorem tokens_behind {pre post : List Segment} (hxs : ∀ x ∈ pre ++ post, Formed x)
    (hsemi : ∀ x ∈ post.head?, x.isSemicolon) {body tail : List Char}
    (htext : (pre ++ post).flatMap rendered = body ++ tail) (hbody : ';' ∉ body)
    (htail : ∀ c ∈ tail, c = ';' ∨ isBlank c) : ∀ x ∈ post, x.isToken → x.isSemicolon := by
  have hbehind : ∀ c ∈ post.flatMap rendered, c = ';' ∨ isBlank c := by
    cases post with
    | nil => simp
    | cons y post =>
      obtain ⟨hk, hraw⟩ : y.kind = .code ∧ y.raw = [';'] := by
        simpa [Segment.isSemicolon] using hsemi y rfl
      have hy : rendered y = [';'] := by
        rw [rendered_code hk, hraw]
      rw [List.flatMap_append, List.flatMap_cons, hy] at htext
      obtain ⟨a, hbodyeq, htaileq⟩ | ⟨b, -, htaileq⟩ := List.append_eq_append_iff.mp htext
      · cases a with
        | nil =>
          rw [List.nil_append] at htaileq
          rw [List.flatMap_cons, hy, htaileq]
          exact htail
        | cons c a =>
          have : c = ';' := (List.cons.inj htaileq).1.symm
          simp [hbodyeq, this] at hbody
      · intro c hc
        rw [List.flatMap_cons, hy] at hc
        exact htail c (by rw [htaileq]; exact List.mem_append_right b hc)
  intro x hx htoken
  have hchars : ∀ c ∈ rendered x, c = ';' ∨ isBlank c := fun c hc =>
    hbehind c (List.mem_flatMap.mpr ⟨x, hx, hc⟩)
  obtain ⟨hk, -⟩ | ⟨c, hk, hraw, hr⟩ | ⟨b, hk, -, hr⟩ | ⟨q, hq, hk, hr⟩ :=
    rendered_cases (hxs x (List.mem_append_right pre hx))
  · obtain hk | hk := hk <;> simp [Segment.isToken, hk] at htoken
  · obtain rfl | hblank := hchars c (by simp [hr])
    · simp [Segment.isSemicolon, hk, hraw]
    · simp [Segment.isToken, hk, hraw, hblank] at htoken
  · exact absurd (hchars '`' (by simp [hr])) (by decide)
  · refine absurd (hchars q (by simp [hr])) ?_
    obtain rfl | rfl := hq <;> decide

theorem takeWhile_append_stop {q : Char → Bool} {a b : List Char} (h : ∀ c ∈ b.head?, q c = false) :
    (a ++ b).takeWhile q = a.takeWhile q := by
  have hb : b.takeWhile q = [] := by
    cases b with
    | nil => rfl
    | cons c b => exact List.takeWhile_cons_of_neg (by simp [h c rfl])
  rw [List.takeWhile_append, hb, List.append_nil]
  split_ifs with hlen
  · exact ((List.takeWhile_prefix q).eq_of_length hlen).symm
  · rfl

theorem isIdent_of_tokenStart {c : Char} (h : tokenStart c) : isIdent c := by
  simp only [tokenStart, Bool.or_eq_true, decide_eq_true_eq] at h
  simp only [isIdent, Char.isAlphanum, Bool.or_eq_true, decide_eq_true_eq]
  tauto

theorem not_isIdent_of_isBlank {c : Char} (h : isBlank c) : isIdent c = false := by
  have hcode : c.toNat ≤ 32 := by
    simp only [isBlank, Bool.or_eq_true, Bool.and_eq_true, decide_eq_true_eq] at h
    obtain h | rfl := h
    · omega
    · decide
  have hlow : ∀ n < 33, isIdent (Char.ofNat n) = false := by decide
  rw [← Char.ofNat_toNat c]
  exact hlow c.toNat (by omega)

theorem not_isSemicolon_of_isIdent {x : Segment} (h : x.isIdent) : x.isSemicolon = false := by
  rw [Bool.eq_false_iff]
  intro hsemi
  obtain ⟨hk, hc⟩ : x.kind = .code ∧ x.raw = [';'] := by simpa [Segment.isSemicolon] using hsemi
  have hno : isIdent ';' = false := by decide
  simp [Segment.isIdent, hk, hc, hno] at h

theorem not_isIdent_of_isSemicolon {x : Segment} (h : x.isSemicolon) : x.isIdent = false := by
  rw [Bool.eq_false_iff]
  intro hid
  rw [not_isSemicolon_of_isIdent hid] at h
  cases h

theorem kinds_of_aligned {ys : List Segment} (h : aligned ys) : ∀ x ∈ ys, x.kind ≠ .executable := by
  induction ys with
  | nil => simp
  | cons y ys ih =>
    simp only [aligned, Bool.and_eq_true, decide_eq_true_eq] at h
    intro x hx
    obtain rfl | hx := List.mem_cons.mp hx
    · exact h.1.1.1.1.1
    · exact ih h.2 x hx

theorem front_spec (h : Lexed xs) (ha : aligned xs)
    (hends : ((xs.flatMap rendered).takeWhile isSpace).all isBlank)
    (hfirst : firstToken (xs.flatMap rendered) ≠ []) :
    ∃ pre y post, xs = pre ++ y :: post ∧ y.isIdent ∧ y.isToken ∧
      (∀ z ∈ pre, z.isIdent = false ∧ z.isSemicolon = false) ∧
      firstToken (xs.flatMap rendered) = ((y :: post).flatMap rendered).takeWhile tokenStart := by
  have hxs := formed_of_lexed h ha
  rw [firstToken_eq h ha] at hfirst ⊢
  cases hdrop : (xs.flatMap rendered).dropWhile isSpace with
  | nil => simp [hdrop] at hfirst
  | cons d ds =>
    have hstart : tokenStart d := by
      rw [hdrop] at hfirst
      by_contra hd
      exact hfirst (List.takeWhile_cons_of_neg hd)
    have hquotes : ∀ q ∈ ['\'', '"', '`'], tokenStart q = false := by decide
    obtain ⟨pre, y, post, rfl, hk, hraw, hpost, hpre⟩ := first_code hxs hdrop fun hd => by
      rw [hquotes d hd] at hstart
      cases hstart
    have hblank : ∀ c ∈ pre.flatMap rendered, isBlank c := by
      intro c hc
      rw [List.flatMap_append, List.takeWhile_append_of_pos hpre] at hends
      exact List.all_eq_true.mp hends c (List.mem_append_left _ hc)
    refine ⟨pre, y, post, rfl, ?_, ?_, fun z hz => ?_, ?_⟩
    · simp [Segment.isIdent, hk, hraw, isIdent_of_tokenStart hstart]
    · have hvisible : isBlank d = false := by
        rw [Bool.eq_false_iff]
        intro hd
        have := not_isIdent_of_isBlank hd
        rw [isIdent_of_tokenStart hstart] at this
        cases this
      simp [Segment.isToken, hk, hraw, hvisible]
    · have hchars : ∀ c ∈ rendered z, isBlank c := fun c hc =>
        hblank c (List.mem_flatMap.mpr ⟨z, hz, hc⟩)
      constructor
      · rw [Bool.eq_false_iff]
        intro hid
        have hkz := code_of_isIdent hid
        obtain ⟨c, hc⟩ := (hxs z (List.mem_append_left _ hz)).code hkz
        have hb := not_isIdent_of_isBlank (hchars c (by simp [rendered_code hkz, hc]))
        simp [Segment.isIdent, hkz, hc, hb] at hid
      · rw [Bool.eq_false_iff]
        intro hsemi
        obtain ⟨hkz, hc⟩ : z.kind = .code ∧ z.raw = [';'] := by
          simpa [Segment.isSemicolon] using hsemi
        exact absurd (hchars ';' (by simp [rendered_code hkz, hc])) (by decide)
    · rw [List.flatMap_cons, rendered_code hk, hraw, hpost]
      rfl

theorem first_word {y : Segment} {group post : List Segment}
    (hxs : ∀ x ∈ (y :: group) ++ post, Formed x) (hy : y.isIdent)
    (hpost : ∀ x ∈ post.head?, x.isIdent = false) :
    ∃ w, (words (y :: group)).head? = some w ∧ (words ((y :: group) ++ post)).head? = some w ∧
      (((y :: group) ++ post).flatMap rendered).takeWhile tokenStart = w.takeWhile tokenStart := by
  let run := (y :: group).takeWhile Segment.isIdent
  let rest := (y :: group).dropWhile Segment.isIdent
  have hsplit : y :: group = run ++ rest := List.takeWhile_append_dropWhile.symm
  have hne : run ≠ [] := by
    simp only [run, List.takeWhile_cons_of_pos hy]
    exact List.cons_ne_nil _ _
  have hrun : ∀ x ∈ run, x.isIdent := fun x hx => List.mem_takeWhile_imp hx
  have hrest : ∀ x ∈ rest.head?, x.isIdent = false := fun x hx => by
    have := List.head?_dropWhile_not Segment.isIdent (y :: group)
    rw [Option.mem_def.mp hx] at this
    exact this
  have hrest' : ∀ x ∈ (rest ++ post).head?, x.isIdent = false := by
    rw [List.head?_append]
    cases hhead : rest.head? with
    | none => simpa using hpost
    | some x => simpa [hhead] using hrest x hhead
  refine ⟨run.flatMap Segment.raw, ?_, ?_, ?_⟩
  · rw [hsplit]
    exact head_words hne hrun hrest
  · rw [hsplit, List.append_assoc]
    exact head_words hne hrun hrest'
  · rw [hsplit, List.append_assoc] at hxs
    rw [hsplit, List.append_assoc, List.flatMap_append, takeWhile_append_stop]
    · rw [List.flatMap_congr fun x hx => rendered_code (code_of_isIdent (hrun x hx))]
    · intro c hc
      have := head_rendered (fun x hx => hxs x (List.mem_append_right run hx)) hrest' c hc
      rw [Bool.eq_false_iff]
      intro hstart
      rw [isIdent_of_tokenStart hstart] at this
      cases this

theorem one_statement (h : Lexed xs) (ha : aligned xs) (hends : blankEnds (xs.flatMap rendered))
    (hcount : countStatements (xs.flatMap rendered) = 1)
    (hfirst : firstToken (xs.flatMap rendered) ≠ []) :
    ∃ st w, statements xs = [st] ∧ (words st).head? = some w ∧ (words xs).head? = some w ∧
      firstToken (xs.flatMap rendered) = w.takeWhile tokenStart := by
  have hxs := formed_of_lexed h ha
  rw [blankEnds, Bool.and_eq_true] at hends
  obtain ⟨pre, y, post, rfl, hy, hytoken, hpre, htoken⟩ := front_spec h ha hends.1 hfirst
  obtain ⟨body, tail, htext, hbody, htail⟩ := tail_of_count hcount hends.2
  let group := post.takeWhile (!·.isSemicolon)
  let rest := post.dropWhile (!·.isSemicolon)
  have hsplit : pre ++ y :: post = (pre ++ y :: group) ++ rest := by
    rw [List.append_assoc, List.cons_append, List.takeWhile_append_dropWhile]
  have hrest : ∀ x ∈ rest.head?, x.isSemicolon := fun x hx => by
    have := List.head?_dropWhile_not (!·.isSemicolon) post
    rw [Option.mem_def.mp hx] at this
    simpa using this
  have hgroup : ∀ x ∈ pre ++ y :: group, x.isSemicolon = false := by
    intro x hx
    obtain hx | hx := List.mem_append.mp hx
    · exact (hpre x hx).2
    · obtain rfl | hx := List.mem_cons.mp hx
      · exact not_isSemicolon_of_isIdent hy
      · simpa using List.mem_takeWhile_imp hx
  rw [hsplit] at hxs htext
  have hformed : ∀ x ∈ (y :: group) ++ rest, Formed x := fun x hx => hxs x (by
    rw [List.append_assoc]
    exact List.mem_append_right pre hx)
  obtain ⟨w, hst, hwords, hw⟩ := first_word hformed hy
    fun x hx => not_isIdent_of_isSemicolon (hrest x hx)
  have hone := statements_single hgroup hrest
    (List.any_eq_true.mpr ⟨y, by simp, hytoken⟩)
    (tokens_behind hxs hrest htext hbody htail)
  have hpre' : ∀ z ∈ pre, z.isIdent = false := fun z hz => (hpre z hz).1
  refine ⟨pre ++ y :: group, w, by rw [hsplit, hone], ?_, ?_, ?_⟩
  · rw [words_of_not_ident hpre', hst]
  · rw [hsplit, List.append_assoc, words_of_not_ident hpre', hwords]
  · rw [htoken, ← hw, List.cons_append, List.takeWhile_append_dropWhile]

/-- What the checker accepts of a text that it reads like MySQL is a safe SELECT. -/
theorem validateSafeSelect_sound {p : Platform} {sql : List Char} (hread : readAlike sql)
    (h : validateSafeSelect p sql = .ok ()) : safeSelect sql := by
  rw [readAlike] at hread
  rw [safeSelect]
  cases hlex : lex sql with
  | none =>
    rw [hlex] at hread
    cases hread
  | some xs =>
    rw [hlex] at hread
    simp only [Bool.and_eq_true] at hread
    obtain ⟨⟨hal, hends⟩, hunglued⟩ := hread
    obtain ⟨hlexed, htext⟩ := lexed_of_lexFrom hlex (kinds_of_aligned hal)
    have hsan : sanitise sql = xs.flatMap rendered := by
      rw [← sanitise_eq hlexed hal, htext]
      rfl
    obtain ⟨hcount, hsearch, hselect⟩ := checks_of_ok h
    rw [hsan] at hcount hsearch hselect
    have hfirst : firstToken (xs.flatMap rendered) ≠ [] := by
      intro hnil
      rw [hnil] at hselect
      revert hselect
      decide
    obtain ⟨st, w, hst, hword, hwords, htoken⟩ := one_statement hlexed hal hends hcount hfirst
    rw [htoken] at hselect
    have hall : w.takeWhile tokenStart = w := by
      simp only [unglued, hwords, Option.all_some, hselect] at hunglued
      simpa using hunglued
    rw [hall] at hselect
    simp only [hst, Bool.and_eq_true, List.length_singleton, List.all_cons, List.all_nil, hword,
      Option.any_some, hselect, Bool.and_true, decide_true, true_and]
    rw [List.all_eq_true]
    intro v hv
    cases hbad : dangerousKeywords.contains (v.map Char.toLower) with
    | false => rfl
    | true =>
      have := search_isSome p (formed_of_lexed hlexed hal) hv hbad
      rw [hsearch] at this
      cases this

/-- Texts that are accepted although MySQL drops a table or runs another word: a comment
opener in a literal, two dashes without a blank, a comment that is executed, a quote in
a quoted identifier, a literal without an end, white space of Python only, and a longer
first word. -/
def misread : List (List Char) :=
  ["SELECT '/*' ; DROP TABLE x; -- */'".toList, "SELECT 1--1;DROP TABLE x".toList,
    "SELECT 1 /*! ; DROP TABLE x */".toList, "SELECT `'` ; DROP TABLE `'`".toList,
    "SELECT 'x".toList, "SELECT 1;\x1f".toList, "SELECT1".toList]

theorem validateSafeSelect_unsound :
    misread.all (fun sql => (validateSafeSelect asciiPlatform sql).isOk && !safeSelect sql) := by
  decide

theorem validateSafeSelect_sound_commented :
    safeSelect "/* a */ SELECT 'x; drop' FROM t;".toList :=
  validateSafeSelect_sound (p := asciiPlatform) (by decide) rfl

end Accepted

end AlfredProcessing.Security.SqlSoundness
