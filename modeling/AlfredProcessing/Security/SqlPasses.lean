import AlfredProcessing.Security.SqlSafety

namespace AlfredProcessing.Security.SqlPasses

open Lib.Substitute Lib.SqlLexer Extract.Cleaning SqlSafety

section Views

/-- What the first pass leaves of a segment that it reads like MySQL. -/
def afterBlocks (x : Segment) : List Char := if x.kind = .block then [' '] else x.raw

def afterLines (x : Segment) : List Char := if x.kind = .line then [' '] else afterBlocks x

def afterSingles (x : Segment) : List Char :=
  if x.kind = .single then ['\'', '\''] else afterLines x

def rendered (x : Segment) : List Char := if x.kind = .double then ['"', '"'] else afterSingles x

/-- No pass finds a comment or a literal where MySQL reads something else, and nothing
is executed out of a comment. -/
def aligned : List Segment → Bool
  | [] => true
  | x :: xs =>
    x.kind ≠ .executable &&
      (x.kind = .block || quiet blockComment (xs.flatMap Segment.raw) x.raw) &&
      ([Kind.block, .line].contains x.kind || quiet lineComment (xs.flatMap afterBlocks) x.raw) &&
      ([Kind.block, .line, .single].contains x.kind ||
        quiet (stringLiteral '\'') (xs.flatMap afterLines) x.raw) &&
      ([Kind.block, .line, .single, .double].contains x.kind ||
        quiet (stringLiteral '"') (xs.flatMap afterSingles) x.raw) &&
      aligned xs

end Views

section Lexing

/-- Every segment is what the lexer finds in front of the segments behind it. -/
def Lexed : List Segment → Prop
  | [] => True
  | x :: xs =>
    Begins (x.raw ++ xs.flatMap Segment.raw) x.kind x.raw.length ∧ x.raw ≠ [] ∧ Lexed xs

/-- A literal ends in front of what is no quote, and the regular expression ends it there
too, whatever else follows. -/
theorem closeLiteral_split {q : Char} {cs : List Char} {n : Nat} (h : closeLiteral q cs = some n) :
    ∃ b r, cs = b ++ r ∧ b.length = n ∧ r.head? ≠ some q ∧
      ∀ r' : List Char, r'.head? ≠ some q → closeQuoted q (b ++ r') = some n := by
  induction cs using closeLiteral.induct q generalizing n with
  | case1 => cases h
  | case2 =>
    simp only [closeLiteral, if_true, Option.some.injEq] at h
    subst h
    refine ⟨[q], [], rfl, rfl, by simp, fun r' hr => ?_⟩
    cases r' with
    | nil => simp [closeQuoted]
    | cons d r' =>
      have hd : d ≠ q := fun hd => hr (by simp [hd])
      simp [closeQuoted, hd]
  | case3 c hc => simp [closeLiteral, hc] at h
  | case4 cs ih =>
    simp only [closeLiteral, if_true, Option.map_eq_some_iff] at h
    obtain ⟨m, hm, rfl⟩ := h
    obtain ⟨b, r, rfl, rfl, hr, hb⟩ := ih hm
    refine ⟨q :: q :: b, r, rfl, rfl, hr, fun r' hr' => ?_⟩
    simp [closeQuoted, hb r' hr']
  | case5 d cs hd =>
    simp only [closeLiteral, if_true, if_neg hd, Option.some.injEq] at h
    subst h
    refine ⟨[q], d :: cs, rfl, rfl, by simpa using hd, fun r' hr => ?_⟩
    cases r' with
    | nil => simp [closeQuoted]
    | cons d r' =>
      have hd : d ≠ q := fun hd => hr (by simp [hd])
      simp [closeQuoted, hd]
  | case6 d cs hq ih =>
    simp only [closeLiteral, if_neg hq, if_true, Option.map_eq_some_iff] at h
    obtain ⟨m, hm, rfl⟩ := h
    obtain ⟨b, r, rfl, rfl, hr, hb⟩ := ih hm
    refine ⟨'\\' :: d :: b, r, rfl, rfl, hr, fun r' hr' => ?_⟩
    simp [closeQuoted, hq, hb r' hr']
  | case7 c d cs hc hs ih =>
    simp only [closeLiteral, if_neg hc, if_neg hs, Option.map_eq_some_iff] at h
    obtain ⟨m, hm, rfl⟩ := h
    obtain ⟨b, r, hbr, rfl, hr, hb⟩ := ih hm
    cases b with
    | nil =>
      have hnil := hb [] (by simp)
      cases hnil
    | cons e b =>
      obtain ⟨rfl, rfl⟩ := List.cons.inj hbr
      refine ⟨c :: d :: b, r, rfl, rfl, hr, fun r' hr' => ?_⟩
      have hgo := hb r' hr'
      rw [List.cons_append] at hgo
      simp [closeQuoted, hc, hs, hgo]

theorem begins_length {cs : List Char} {kind : Kind} {n : Nat} (h : Begins cs kind n) :
    1 ≤ n ∧ n ≤ cs.length := by
  cases h with
  | @executable ds =>
    have := (List.takeWhile_sublist (p := Char.isDigit) (l := ds)).length_le
    simp only [List.length_cons]
    omega
  | block h =>
    have := closeBlock_le h
    simp only [List.length_cons]
    omega
  | @hash ds =>
    have := lineLength_le ds
    simp only [List.length_cons]
    omega
  | @dashes ds h =>
    have := lineLength_le ds
    simp only [List.length_cons]
    omega
  | literal hq h =>
    obtain ⟨b, r, rfl, rfl, -⟩ := closeLiteral_split h
    simp
  | name h =>
    have := closeName_le h
    simp only [List.length_cons]
    omega
  | code hc h => simp

theorem lexed_of_lexFrom {cs : List Char} {skip : Nat} {xs : List Segment}
    (h : lexFrom false skip cs = some xs) (hplain : ∀ x ∈ xs, x.kind ≠ .executable) :
    Lexed xs ∧ xs.flatMap Segment.raw = cs.drop skip := by
  induction cs generalizing skip xs with
  | nil =>
    cases skip <;> cases h <;> exact ⟨trivial, rfl⟩
  | cons c cs ih =>
    cases skip with
    | succ skip => exact ih h hplain
    | zero =>
      rw [lexFrom] at h
      split at h
      · cases h
      · next kind n hseg =>
        obtain ⟨rest, hrest, rfl⟩ := Option.map_eq_some_iff.mp h
        have hkind : kind ≠ .executable := hplain _ List.mem_cons_self
        rw [if_neg hkind] at hrest
        obtain ⟨hlexed, hraw⟩ := ih hrest fun x hx => hplain x (List.mem_cons_of_mem _ hx)
        have hbegins := begins_of_segmentAt hseg
        obtain ⟨hpos, hle⟩ := begins_length hbegins
        have hdrop : cs.drop (n - 1) = (c :: cs).drop n := by
          obtain ⟨m, rfl⟩ : ∃ m, n = m + 1 := ⟨n - 1, by omega⟩
          rfl
        have htext : (c :: cs).take n ++ rest.flatMap Segment.raw = c :: cs := by
          rw [hraw, hdrop, List.take_append_drop]
        refine ⟨⟨?_, ?_, hlexed⟩, htext⟩
        · rw [htext, List.length_take, Nat.min_eq_left hle]
          exact hbegins
        · exact fun hnil => by
            have := congrArg List.length hnil
            rw [List.length_take, Nat.min_eq_left hle] at this
            simp only [List.length_nil] at this
            omega

end Lexing

section Hits

variable {cs raw rest : List Char} {n : Nat}

theorem forward_blockComment : Forward blockComment := fun _ _ _ => rfl

theorem forward_lineComment : Forward lineComment := fun _ _ _ => rfl

theorem forward_stringLiteral (q : Char) : Forward (stringLiteral q) := fun _ _ _ => rfl

theorem blockComment_of_begins (h : Begins cs .block n) : blockComment none cs = some n := by
  generalize hk : Kind.block = k at h
  cases h with
  | block h => simp [blockComment, h]
  | @literal q ds n hq h => obtain rfl | rfl := hq <;> cases hk
  | _ => cases hk

theorem line_split (ds : List Char) :
    ∃ b r, ds = b ++ r ∧ b.length = lineLength ds ∧ (∀ c ∈ r.head?, c = '\n') ∧
      ∀ r' : List Char, (∀ c ∈ r'.head?, c = '\n') → lineLength (b ++ r') = b.length := by
  refine ⟨ds.takeWhile (· ≠ '\n'), ds.dropWhile (· ≠ '\n'), List.takeWhile_append_dropWhile.symm,
    rfl, fun c hc => ?_, fun r' hr' => ?_⟩
  · have := List.head?_dropWhile_not (· ≠ '\n') ds
    rw [Option.mem_def.mp hc] at this
    simpa using this
  · rw [lineLength, List.takeWhile_append_of_pos fun c hc => by simpa using List.mem_takeWhile_imp hc]
    cases r' with
    | nil => simp
    | cons d r' =>
      have hd : d = '\n' := hr' d rfl
      simp [hd]

theorem line_of_begins (h : Begins (raw ++ rest) .line raw.length) :
    (∀ c ∈ rest.head?, c = '\n') ∧ ∀ r' : List Char, (∀ c ∈ r'.head?, c = '\n') →
      lineComment none (raw ++ r') = some raw.length := by
  generalize hk : Kind.line = k at h
  generalize hcs : raw ++ rest = cs at h
  generalize hn : raw.length = n at h
  cases h with
  | @hash ds =>
    obtain ⟨b, r, rfl, hb, hr, hline⟩ := line_split ds
    obtain ⟨rfl, rfl⟩ := @List.append_inj Char raw ('#' :: b) _ _ hcs
      (by rw [hn, List.length_cons, hb])
    refine ⟨hr, fun r' hr' => ?_⟩
    simp [lineComment, hline r' hr', hb]
  | @dashes ds h =>
    obtain ⟨b, r, rfl, hb, hr, hline⟩ := line_split ds
    obtain ⟨rfl, rfl⟩ := @List.append_inj Char raw ('-' :: '-' :: b) _ _ hcs
      (by rw [hn, List.length_cons, List.length_cons, hb])
    refine ⟨hr, fun r' hr' => ?_⟩
    simp [lineComment, hline r' hr', hb]
  | @literal q ds n hq h => obtain rfl | rfl := hq <;> cases hk
  | _ => cases hk

theorem literal_of_begins {q : Char} (hq : q = '\'' ∨ q = '"')
    (h : Begins (raw ++ rest) (literalKind q) raw.length) :
    rest.head? ≠ some q ∧ ∀ r' : List Char, r'.head? ≠ some q →
      stringLiteral q none (raw ++ r') = some raw.length := by
  generalize hk : literalKind q = k at h
  generalize hcs : raw ++ rest = cs at h
  generalize hn : raw.length = n at h
  cases h with
  | @literal q' ds m hq' h =>
    have hqq : q' = q := by
      obtain rfl | rfl := hq <;> obtain rfl | rfl := hq' <;> first | rfl | cases hk
    subst hqq
    obtain ⟨b, r, rfl, rfl, hr, hb⟩ := closeLiteral_split h
    obtain ⟨rfl, rfl⟩ := @List.append_inj Char raw (q' :: b) _ _ hcs hn
    refine ⟨hr, fun r' hr' => ?_⟩
    simp [stringLiteral, hb r' hr']
  | _ => obtain rfl | rfl := hq <;> cases hk

end Hits

section Passes

variable {x : Segment} {xs : List Segment} {v : Segment → List Char}

theorem head_flatMap {y : Segment} {ys : List Segment} (h : v y ≠ []) :
    ((y :: ys).flatMap v).head? = (v y).head? := by
  obtain ⟨c, cs, hc⟩ := List.exists_cons_of_ne_nil h
  rw [List.flatMap_cons, hc]
  rfl

theorem kind_of_newline {cs : List Char} {kind : Kind} {n : Nat} (h : Begins ('\n' :: cs) kind n) :
    kind = .code := by
  generalize htext : '\n' :: cs = text at h
  cases h with
  | literal hq => obtain rfl | rfl := hq <;> cases htext
  | code => rfl
  | _ => cases htext

theorem newline_head (hxs : Lexed xs) (hv : ∀ y, y.kind = .code → v y = y.raw)
    (h : ∀ c ∈ (xs.flatMap Segment.raw).head?, c = '\n') :
    ∀ c ∈ (xs.flatMap v).head?, c = '\n' := by
  cases xs with
  | nil => exact fun c hc => by cases hc
  | cons y ys =>
    obtain ⟨hseg, hne, -⟩ := hxs
    obtain ⟨c, cs, hc⟩ := List.exists_cons_of_ne_nil hne
    have hbreak : c = '\n' := h c (by rw [head_flatMap hne, hc]; rfl)
    rw [hc, hbreak, List.cons_append] at hseg
    have hcode : y.kind = .code := kind_of_newline hseg
    rw [head_flatMap (by rw [hv y hcode]; exact hne), hv y hcode, hc, hbreak]
    exact fun d hd => (Option.some.inj hd).symm

/-- What does not begin with a quote still does not after a pass. -/
theorem quote_head {q : Char} (hxs : Lexed xs) (hne : ∀ y, y.raw ≠ [] → v y ≠ [])
    (hv : ∀ y, y.raw.head? ≠ some q → (v y).head? ≠ some q)
    (h : (xs.flatMap Segment.raw).head? ≠ some q) : (xs.flatMap v).head? ≠ some q := by
  cases xs with
  | nil => exact h
  | cons y ys =>
    rw [head_flatMap hxs.2.1] at h
    rw [head_flatMap (hne y hxs.2.1)]
    exact hv y h

theorem afterBlocks_raw (h : x.kind ≠ .block) : afterBlocks x = x.raw := if_neg h

theorem afterLines_raw (h : x.kind ≠ .block) (h' : x.kind ≠ .line) : afterLines x = x.raw := by
  rw [afterLines, if_neg h', afterBlocks_raw h]

theorem afterSingles_raw (h : x.kind ≠ .block) (h' : x.kind ≠ .line) (h'' : x.kind ≠ .single) :
    afterSingles x = x.raw := by
  rw [afterSingles, if_neg h'', afterLines_raw h h']

theorem afterLines_cases (y : Segment) : afterLines y = [' '] ∨ afterLines y = y.raw := by
  unfold afterLines afterBlocks
  split_ifs
  · exact .inl rfl
  · exact .inl rfl
  · exact .inr rfl

theorem afterSingles_cases (y : Segment) :
    afterSingles y = [' '] ∨ afterSingles y = ['\'', '\''] ∨ afterSingles y = y.raw := by
  unfold afterSingles
  split_ifs
  · exact .inr (.inl rfl)
  · exact (afterLines_cases y).imp id .inr

theorem cuts_blocks (h : Lexed xs) (ha : aligned xs) :
    Cuts blockComment Segment.raw (fun x => x.kind = .block) xs := by
  induction xs with
  | nil => trivial
  | cons x xs ih =>
    obtain ⟨hseg, hne, hxs⟩ := h
    simp only [aligned, Bool.and_eq_true, Bool.or_eq_true, decide_eq_true_eq] at ha
    refine ⟨?_, ih hxs ha.2⟩
    by_cases hk : x.kind = .block
    · rw [if_pos (decide_eq_true hk)]
      rw [hk] at hseg
      exact ⟨hne, blockComment_of_begins hseg⟩
    · rw [if_neg (by simpa using hk)]
      exact ha.1.1.1.1.2.resolve_left hk

theorem cuts_lines (h : Lexed xs) (ha : aligned xs) :
    Cuts lineComment afterBlocks (fun x => x.kind = .line) xs := by
  induction xs with
  | nil => trivial
  | cons x xs ih =>
    obtain ⟨hseg, hne, hxs⟩ := h
    simp only [aligned, Bool.and_eq_true, Bool.or_eq_true, decide_eq_true_eq] at ha
    refine ⟨?_, ih hxs ha.2⟩
    by_cases hk : x.kind = .line
    · have hraw : afterBlocks x = x.raw := afterBlocks_raw (by rw [hk]; decide)
      rw [if_pos (decide_eq_true hk), hraw]
      rw [hk] at hseg
      obtain ⟨hrest, hline⟩ := line_of_begins hseg
      exact ⟨hne, hline _ (newline_head hxs (fun y hy => afterBlocks_raw (by rw [hy]; decide)) hrest)⟩
    · rw [if_neg (by simpa using hk)]
      by_cases hb : x.kind = .block
      · rw [afterBlocks, if_pos hb]
        rfl
      · rw [afterBlocks_raw hb]
        exact ha.1.1.1.2.resolve_left (by simp [hb, hk])

theorem cuts_singles (h : Lexed xs) (ha : aligned xs) :
    Cuts (stringLiteral '\'') afterLines (fun x => x.kind = .single) xs := by
  induction xs with
  | nil => trivial
  | cons x xs ih =>
    obtain ⟨hseg, hne, hxs⟩ := h
    simp only [aligned, Bool.and_eq_true, Bool.or_eq_true, decide_eq_true_eq] at ha
    refine ⟨?_, ih hxs ha.2⟩
    by_cases hk : x.kind = .single
    · have hraw : afterLines x = x.raw :=
        afterLines_raw (by rw [hk]; decide) (by rw [hk]; decide)
      rw [if_pos (decide_eq_true hk), hraw]
      rw [hk] at hseg
      obtain ⟨hrest, hlit⟩ := literal_of_begins (q := '\'') (.inl rfl) hseg
      refine ⟨hne, hlit _ (quote_head hxs (fun y hy => ?_) (fun y hy => ?_) hrest)⟩
      · obtain h | h := afterLines_cases y <;> rw [h]
        · exact List.cons_ne_nil _ _
        · exact hy
      · obtain h | h := afterLines_cases y <;> rw [h]
        · decide
        · exact hy
    · rw [if_neg (by simpa using hk)]
      by_cases hb : x.kind = .block
      · simp only [afterLines, afterBlocks, hb]
        rfl
      · by_cases hl : x.kind = .line
        · rw [afterLines, if_pos hl]
          rfl
        · rw [afterLines_raw hb hl]
          exact ha.1.1.2.resolve_left (by simp [hb, hl, hk])

theorem cuts_doubles (h : Lexed xs) (ha : aligned xs) :
    Cuts (stringLiteral '"') afterSingles (fun x => x.kind = .double) xs := by
  induction xs with
  | nil => trivial
  | cons x xs ih =>
    obtain ⟨hseg, hne, hxs⟩ := h
    simp only [aligned, Bool.and_eq_true, Bool.or_eq_true, decide_eq_true_eq] at ha
    refine ⟨?_, ih hxs ha.2⟩
    by_cases hk : x.kind = .double
    · have hraw : afterSingles x = x.raw :=
        afterSingles_raw (by rw [hk]; decide) (by rw [hk]; decide) (by rw [hk]; decide)
      rw [if_pos (decide_eq_true hk), hraw]
      rw [hk] at hseg
      obtain ⟨hrest, hlit⟩ := literal_of_begins (q := '"') (.inr rfl) hseg
      refine ⟨hne, hlit _ (quote_head hxs (fun y hy => ?_) (fun y hy => ?_) hrest)⟩
      · obtain h | h | h := afterSingles_cases y <;> rw [h]
        · exact List.cons_ne_nil _ _
        · exact List.cons_ne_nil _ _
        · exact hy
      · obtain h | h | h := afterSingles_cases y <;> rw [h]
        · decide
        · decide
        · exact hy
    · rw [if_neg (by simpa using hk)]
      by_cases hs : x.kind = .single
      · rw [afterSingles, if_pos hs]
        rfl
      · by_cases hl : x.kind = .line
        · rw [afterSingles, if_neg hs, afterLines, if_pos hl]
          rfl
        · by_cases hb : x.kind = .block
          · rw [afterSingles, if_neg hs, afterLines, if_neg hl, afterBlocks, if_pos hb]
            rfl
          · rw [afterSingles_raw hb hl hs]
            exact ha.1.2.resolve_left (by simp [hb, hl, hs, hk])

theorem sanitise_eq (h : Lexed xs) (ha : aligned xs) :
    sanitise (xs.flatMap Segment.raw) = xs.flatMap rendered := by
  have hblocks : sub _ [' '] _ = _ := forward_blockComment.sub_flatMap (cuts_blocks h ha)
  have hlines : sub _ [' '] _ = _ := forward_lineComment.sub_flatMap (cuts_lines h ha)
  have hsingles : sub _ ['\'', '\''] _ = _ :=
    (forward_stringLiteral '\'').sub_flatMap (cuts_singles h ha)
  have hdoubles : sub _ ['"', '"'] _ = _ := (forward_stringLiteral '"').sub_flatMap (cuts_doubles h ha)
  simp only [decide_eq_true_eq] at hblocks hlines hsingles hdoubles
  rw [sanitise, stripInlineComments, stripStringLiterals, hblocks]
  change sub _ _ (sub _ _ (sub _ _ (xs.flatMap afterBlocks))) = _
  rw [hlines]
  change sub _ _ (sub _ _ (xs.flatMap afterLines)) = _
  rw [hsingles]
  change sub _ _ (xs.flatMap afterSingles) = _
  rw [hdoubles]
  rfl

end Passes

end AlfredProcessing.Security.SqlPasses
