import AlfredProcessing.Handlers.InsightsCandidate

namespace AlfredProcessing.Handlers.GroupByResolution

open Lib.Regex Extract.Cleaning Security.SqlSafety InsightsCandidate

section Model

variable (g : Setting)

def closes (next : Option Char) : Bool := next.all fun c => isSpace c || ",.;!?".toList.contains c

def nameChar (c : Char) : Bool := c.isLower || " _-".toList.contains c

def nameStops (a : Place) : Bool := border g.sql a.1 a.2.head? && closes a.2.head?

def nameOf : List Char → Option (List Char)
  | c :: cs => if c.isLower then (shortest nameChar (nameStops g) 30 (some c, cs)).map (c :: ·) else none
  | [] => none

/-- The name behind a `by` that stands at a place. -/
def nameAt (a : Place) : Option (List Char) :=
  if border g.sql a.1 a.2.head? && ['b', 'y'].isPrefixOf a.2 && (a.2.drop 2).head?.any isSpace then
    nameOf g ((a.2.drop 2).dropWhile isSpace)
  else none

/-- The first name that stands behind a `by`. -/
def firstName (low : List Char) : Option (List Char) := scan (nameAt g) none low

/-- The word `by` stands at a place. -/
def byHere (a : Place) : Bool :=
  border g.sql a.1 a.2.head? && ['b', 'y'].isPrefixOf a.2 &&
    (a.2.drop 2).head?.all fun c => isSpace c || !wordChar g.sql c

/-- The word `by` stands in a text once, and white space between it and the rest of the text. -/
def Followed (low rest : List Char) : Prop :=
  ∃ pre blank, low = pre ++ 'b' :: 'y' :: (blank ++ rest) ∧
    (∀ pre' post', low = pre' ++ post' → (byHere g (pre'.getLast?, post') = true ↔ pre' = pre)) ∧
    blank ≠ [] ∧ ∀ c ∈ blank, isSpace c

/-- A text begins with a phrase of the table, up to the end of a word. -/
def Begins (e : String × GroupBy) (rest more : List Char) : Prop :=
  e ∈ groupByPhrases ∧ rest = e.1.toList ++ more ∧ border g.sql e.1.toList.getLast? more.head?

def Longest (e : String × GroupBy) (rest more : List Char) : Prop :=
  Begins g e rest more ∧ ∀ e' more', Begins g e' rest more' → e'.1.toList.length ≤ e.1.toList.length

def Absent (low : List Char) : Prop := ∀ e ∈ groupByPhrases, found (whole g e.1.toList) low = false

/-- The longest phrase behind the only `by` decides, and with no phrase in the text nothing is found. -/
def Resolves (low : List Char) : Prop :=
  (∀ e rest more, Followed g low rest → Longest g e rest more → detectGroupBy g low = some e.2) ∧
    (Absent g low → detectGroupBy g low = none)

def related (t : List Char) (e : String × GroupBy) : Bool := within e.1.toList (strip t) || within (strip t) e.1.toList

def wholeIn (low : List Char) (e : String × GroupBy) : Bool := found (whole g e.1.toList) low

/-- A phrase of more words decides always. One word does where the name ends behind it, if it is not `customer`.
Elsewhere the name goes on, and the first phrase that is related to it stands for the same, or there is no name, and
the first phrase that is in the text does. -/
def Decides (low : List Char) (e : String × GroupBy) (rest more : List Char) : Prop :=
  ' ' ∈ e.1.toList ∨
    if closes more.head? then e.1 ≠ "customer"
    else
      match nameOf g rest with
      | some t => (groupByPhrases.find? (related t)).map Prod.snd = some e.2
      | none => (groupByPhrases.find? (wholeIn g low)).map Prod.snd = some e.2

/-- Behind the only `by` there is a phrase that decides; and where no phrase is in the text the first name behind a
`by` is related to none. -/
structure Resolvable (low : List Char) : Prop where
  phrase : ∀ e rest more, Followed g low rest → Longest g e rest more → Decides g low e rest more
  name : Absent g low → ∀ t, firstName g low = some t → ∀ e ∈ groupByPhrases, related t e = false

end Model

section Names

variable {g : Setting} {low rest more : List Char} {e : String × GroupBy} {t : List Char}

theorem not_lower_of_space {c : Char} (h : isSpace c = true) : c.isLower = false := by
  have halpha := (Bool.or_eq_false_iff.mp (not_alphanum_of_space h)).1
  exact (Bool.or_eq_false_iff.mp halpha).2

def nameGroup : Expr :=
  .seq (.char Char.isLower) (.fewUpTo (.char nameChar) 30)

def nameBehind (g : Setting) : Expr := .seq (bound g) (.look fun _ cs => closes cs.head?)

theorem nameBehind_ends (a : Place) : (nameBehind g).ends a = if nameStops g a then [a] else [] := by
  unfold nameStops
  show ((if border g.sql a.1 a.2.head? then [a] else []).flatMap fun a => if closes a.2.head? then [a] else []) = _
  by_cases hborder : border g.sql a.1 a.2.head? = true
  · rw [if_pos hborder, List.flatMap_cons, List.flatMap_nil, List.append_nil, hborder, Bool.true_and]
  · rw [if_neg hborder, Bool.eq_false_iff.mpr hborder, Bool.false_and]
    rfl

def nameMatches (g : Setting) (cs : List Char) : List (List Char) :=
  (nameGroup.ends (none, cs)).flatMap fun c => ((nameBehind g).ends c).map fun _ => between (none, cs) c

theorem nameMatches_head (cs : List Char) : (nameMatches g cs).head? = nameOf g cs := by
  cases cs with
  | nil => rfl
  | cons c cs =>
    rw [nameMatches, nameOf]
    have hends : nameGroup.ends (none, c :: cs) =
        (if c.isLower then [(some c, cs)] else []).flatMap (Expr.fewUpTo (.char nameChar) 30).ends := rfl
    rw [hends]
    split_ifs
    · rw [List.flatMap_cons, List.flatMap_nil, List.append_nil]
      exact fewUpTo_head nameBehind_ends none [c] (some c, cs)
    · rfl

theorem nameMatches_space (c : Char) (cs : List Char) (h : isSpace c = true) : nameMatches g (c :: cs) = [] := by
  have hends : nameGroup.ends (none, c :: cs) =
      (if c.isLower then [(some c, cs)] else []).flatMap (Expr.fewUpTo (.char nameChar) 30).ends := rfl
  rw [nameMatches, hends, not_lower_of_space h]
  rfl

theorem capture_eq (a : Place) : capture (.seqs [bound g, .text "by".toList, .plus space]) nameGroup (nameBehind g) a =
    nameAt g a := by
  obtain ⟨prev, cs⟩ := a
  have hname (b : Place) : ((nameGroup.ends b).flatMap fun c => ((nameBehind g).ends c).map fun _ => between b c) =
      nameMatches g b.2 := by
    obtain ⟨prev, cs⟩ := b
    cases cs <;> rfl
  have hbefore : (Expr.seqs [bound g, .text "by".toList, .plus space]).ends (prev, cs) =
      (if border g.sql prev cs.head? then [(prev, cs)] else []).flatMap fun b =>
        ((Expr.text ['b', 'y']).ends b).flatMap (Expr.plus space).ends := by
    have hlast : (Expr.seq (.plus space) .empty).ends = (Expr.plus space).ends :=
      funext fun b => List.flatMap_singleton' ((Expr.plus space).ends b)
    rw [← hlast]
    rfl
  unfold capture nameAt
  simp only [hname]
  rw [hbefore]
  by_cases hborder : border g.sql prev cs.head? = true
  · rw [if_pos hborder, List.flatMap_cons, List.flatMap_nil, List.append_nil, ends_text, hborder, Bool.true_and]
    by_cases hby : ['b', 'y'].isPrefixOf cs = true
    · rw [if_pos hby, List.flatMap_cons, List.flatMap_nil, List.append_nil, hby, Bool.true_and]
      rw [space, plus_flatMap nameMatches_space]
      dsimp only [List.length_cons, List.length_nil]
      split_ifs
      · exact nameMatches_head _
      · rfl
    · rw [if_neg hby, Bool.eq_false_iff.mpr hby]
      rfl
  · rw [if_neg hborder, Bool.eq_false_iff.mpr hborder]
    rfl

/-- The expression of the source finds the first name behind a `by`. -/
theorem byEntity_eq (low : List Char) : byEntity g low = firstName g low := by
  unfold byEntity search firstName
  exact congrArg (fun f => scan f none low) (funext capture_eq)

theorem nameAt_none {a : Place} (h : byHere g a = false) : nameAt g a = none := by
  unfold nameAt
  rw [if_neg]
  intro hname
  rw [byHere, Bool.eq_false_iff] at h
  rw [Bool.and_eq_true] at hname
  refine h (Bool.and_eq_true _ _ |>.mpr ⟨hname.1, ?_⟩)
  cases hhead : (a.2.drop 2).head? with
  | none => rfl
  | some c =>
    rw [hhead] at hname
    rw [Option.all_some, show isSpace c = true from hname.2, Bool.true_or]

/-- The name behind the only `by` is the one that is found. -/
theorem firstName_followed (h : Followed g low rest) (hrest : ∀ c ∈ rest.head?, isSpace c = false) :
    firstName g low = nameOf g rest := by
  obtain ⟨pre, blank, rfl, honly, hne, hblank⟩ := h
  have hhere : nameAt g (pre.getLast?, 'b' :: 'y' :: (blank ++ rest)) = nameOf g rest := by
    have hby := (honly pre _ rfl).mpr rfl
    rw [byHere, Bool.and_eq_true] at hby
    have hspace : (blank ++ rest).head?.any isSpace = true := by
      obtain ⟨c, blank, rfl⟩ := List.exists_cons_of_ne_nil hne
      exact hblank c List.mem_cons_self
    have hdrop : (blank ++ rest).dropWhile isSpace = rest := by
      rw [List.dropWhile_append_of_pos hblank]
      cases rest with
      | nil => rfl
      | cons c cs => exact List.dropWhile_cons_of_neg (by rw [hrest c rfl]; decide)
    have hbehind : ('b' :: 'y' :: (blank ++ rest)).drop 2 = blank ++ rest := rfl
    unfold nameAt
    rw [hby.1, hbehind, hspace, hdrop]
    rfl
  rw [firstName, scan_single, Option.or_none, hhere]
  intro pre' post' hsplit hpre
  rw [Option.or_none]
  exact nameAt_none (Bool.eq_false_iff.mpr fun hby => hpre ((honly pre' post' hsplit).mp hby))

theorem wordChar_lower {c : Char} (h : c.isLower = true) : wordChar g.sql c = true := by
  unfold wordChar Char.isAlphanum Char.isAlpha
  rw [h, Bool.or_true, Bool.true_or, Bool.true_or, Bool.true_or]

theorem nameStops_letters {c d : Char} (hc : c.isLower = true) (hd : d.isLower = true) (cs : List Char) :
    nameStops g (some c, d :: cs) = false := by
  unfold nameStops border
  simp only [List.head?_cons, Option.map_some, Option.getD_some, wordChar_lower hc, wordChar_lower hd, bne_self_eq_false,
    Bool.false_and]

theorem word_leads {w : List Char} {n : Nat} {c : Char} (hc : c.isLower = true) (hw : ∀ d ∈ w, d.isLower = true)
    (h : shortest nameChar (nameStops g) n (some c, w ++ more) = some t) : w <+: t := by
  induction w generalizing n c t with
  | nil => exact List.nil_prefix
  | cons d w ih =>
    obtain ⟨hd, hw⟩ := List.forall_mem_cons.mp hw
    have hgo : nameStops g (some c, d :: (w ++ more)) = false := nameStops_letters hc hd _
    cases n with
    | zero =>
      rw [List.cons_append, shortest, hgo] at h
      cases h
    | succ n =>
      rw [List.cons_append, shortest, hgo] at h
      have hchar : nameChar d = true := by rw [nameChar, hd, Bool.true_or]
      simp only [Bool.false_eq_true, if_false, hchar, if_true] at h
      obtain ⟨t', ht', rfl⟩ := Option.map_eq_some_iff.mp h
      exact List.cons_prefix_cons.mpr ⟨rfl, ih hd hw ht'⟩

theorem shortest_word {w : List Char} {n : Nat} {c : Char} (hc : c.isLower = true) (hw : ∀ d ∈ w, d.isLower = true)
    (hn : w.length ≤ n) (hstop : nameStops g (w.getLast?.or (some c), more) = true) :
    shortest nameChar (nameStops g) n (some c, w ++ more) = some w := by
  induction w generalizing n c with
  | nil =>
    cases n with
    | zero => exact if_pos hstop
    | succ n => exact if_pos hstop
  | cons d w ih =>
    obtain ⟨hd, hw⟩ := List.forall_mem_cons.mp hw
    have hgo : nameStops g (some c, d :: (w ++ more)) = false := nameStops_letters hc hd _
    have hchar : nameChar d = true := by rw [nameChar, hd, Bool.true_or]
    obtain ⟨m, rfl⟩ : ∃ m, n = m + 1 := ⟨n - 1, by rw [List.length_cons] at hn; omega⟩
    rw [List.length_cons, Nat.add_le_add_iff_right] at hn
    rw [getLast?_cons_or] at hstop
    rw [List.cons_append, shortest, hgo]
    simp only [Bool.false_eq_true, if_false, hchar, if_true]
    rw [ih hd hw hn hstop]
    rfl

end Names

section Table

def word (e : String × GroupBy) : List Char := e.1.toList.takeWhile (· ≠ ' ')

theorem word_letters : ∀ e ∈ groupByPhrases, word e ≠ [] ∧ (∀ c ∈ word e, c.isLower = true) ∧ (word e).length ≤ 31 := by
  decide

/-- The first word of a phrase leads to what the phrase stands for, except for `customer`, which is in `customer
groups` as well. -/
theorem word_resolves : ∀ e ∈ groupByPhrases, (groupByPhrases.find? (related (word e))).isSome = true ∧
    ((groupByPhrases.find? (related (word e))).map Prod.snd = some e.2 ↔ e.1 ≠ "customer") := by
  decide

theorem customer_one_word : ∀ e ∈ groupByPhrases, ' ' ∈ e.1.toList → e.1 ≠ "customer" := by
  decide

theorem word_append (e : String × GroupBy) :
    (' ' ∉ e.1.toList ∧ e.1.toList = word e) ∨ ∃ behind, e.1.toList = word e ++ ' ' :: behind := by
  by_cases hone : ' ' ∈ e.1.toList
  · obtain ⟨front, behind, heq, hfront⟩ := List.eq_append_cons_of_mem hone
    have hall : ∀ c ∈ front, decide (c ≠ ' ') = true := fun c hc => decide_eq_true fun h => hfront (h ▸ hc)
    refine .inr ⟨behind, ?_⟩
    rw [word, heq, List.takeWhile_append_of_pos hall, List.takeWhile_cons_of_neg (by decide), List.append_nil]
  · have hall : ∀ c ∈ e.1.toList, decide (c ≠ ' ') = true := fun c hc => decide_eq_true fun h => hone (h ▸ hc)
    exact .inl ⟨hone, (List.takeWhile_eq_self_iff.mpr hall).symm⟩

end Table

section Resolution

variable {g : Setting} {low rest more : List Char} {e : String × GroupBy} {t : List Char}

theorem detectGroupBy_eq (low : List Char) : detectGroupBy g low =
    (((firstName g low).bind fun t => groupByPhrases.find? (related t)).orElse fun _ =>
      groupByPhrases.find? (wholeIn g low)).map Prod.snd := by
  unfold detectGroupBy
  rw [byEntity_eq]
  rfl

theorem begins_word (h : Begins g e rest more) : ∃ c w behind, word e = c :: w ∧ rest = c :: (w ++ behind) ∧
    c.isLower = true ∧ (∀ d ∈ w, d.isLower = true) ∧ w.length ≤ 30 ∧
      (' ' ∈ e.1.toList ∨ closes more.head? = true → nameStops g (w.getLast?.or (some c), behind) = true) := by
  obtain ⟨he, rfl, hborder⟩ := h
  obtain ⟨hne, hletters, hlength⟩ := word_letters e he
  obtain ⟨c, w, hword⟩ := List.exists_cons_of_ne_nil hne
  rw [hword] at hletters hlength
  obtain ⟨hc, hw⟩ := List.forall_mem_cons.mp hletters
  obtain ⟨d, hd, hlast⟩ : ∃ d, d.isLower = true ∧ w.getLast?.or (some c) = some d := by
    cases hlast : w.getLast? with
    | none => exact ⟨c, hc, rfl⟩
    | some d => exact ⟨d, hw d (List.mem_of_getLast? hlast), rfl⟩
  obtain ⟨hone, heq⟩ | ⟨behind, heq⟩ := word_append e
  · refine ⟨c, w, more, hword, by rw [heq, hword]; rfl, hc, hw, Nat.le_of_succ_le_succ hlength, ?_⟩
    rintro (hmany | hclosed)
    · exact absurd hmany hone
    · rw [heq, hword, ← Option.or_none (o := (c :: w).getLast?), getLast?_cons_or] at hborder
      rw [nameStops, hborder, hclosed]
      rfl
  · refine ⟨c, w, ' ' :: (behind ++ more), hword, ?_, hc, hw, Nat.le_of_succ_le_succ hlength, fun _ => ?_⟩
    · rw [heq, hword, List.append_assoc]
      rfl
    · rw [hlast]
      unfold nameStops border
      simp only [List.head?_cons, Option.map_some, Option.getD_some, wordChar_lower hd]
      rfl

theorem space_lower {c : Char} (h : c.isLower = true) : isSpace c = false := by
  rw [Bool.eq_false_iff]
  intro hspace
  rw [not_lower_of_space hspace] at h
  cases h

theorem related_of_prefix {c : Char} {w : List Char} (hword : word e = c :: w) (hone : ' ' ∉ e.1.toList)
    (hc : c.isLower = true) (hw : ∀ d ∈ w, d.isLower = true) (h : w <+: t) : related (c :: t) e = true := by
  obtain ⟨behind, rfl⟩ := h
  have hphrase : e.1.toList = c :: w := by
    obtain ⟨-, heq⟩ | ⟨b, heq⟩ := word_append e
    · rw [heq, hword]
    · exact absurd (heq ▸ List.mem_append_right _ List.mem_cons_self) hone
  obtain ⟨front, d, hfront⟩ : ∃ front d, c :: w = front ++ [d] := by
    obtain h | ⟨front, d, h⟩ := List.eq_nil_or_concat (c :: w)
    · cases h
    · exact ⟨front, d, h.trans List.concat_eq_append⟩
  have hspaces : ∀ x ∈ front ++ [d], isSpace x = false := by
    rw [← hfront]
    exact List.forall_mem_cons.mpr ⟨space_lower hc, fun x hx => space_lower (hw x hx)⟩
  have hstrip : strip (c :: (w ++ behind)) = (c :: w) ++ behind.rdropWhile isSpace := by
    rw [← List.cons_append, hfront, List.append_assoc, List.singleton_append,
      strip_append_cons front (hspaces d (List.mem_append_right _ List.mem_cons_self))
        fun x hx => hspaces x (List.mem_append_left _ (List.mem_of_mem_head? hx)),
      List.append_assoc, List.singleton_append]
  rw [related, hstrip, hphrase, Bool.or_eq_true]
  refine .inl (Lib.Occurrence.occurs_of_infix ?_ (List.prefix_append (c :: w) _).isInfix)
  exact List.forall₂_same.mpr fun x _ => decide_eq_true rfl

/-- The longest phrase behind the only `by` is what is found exactly where it decides. -/
theorem phrase_decides (hby : Followed g low rest) (hlong : Longest g e rest more) :
    detectGroupBy g low = some e.2 ↔ Decides g low e rest more := by
  obtain ⟨c, w, behind, hword, hrest, hc, hw, hlen, hstops⟩ := begins_word hlong.1
  have hname : firstName g low = nameOf g rest := firstName_followed hby fun d hd => by
    rw [hrest] at hd
    obtain rfl := Option.some_inj.mp hd
    exact space_lower hc
  have htable := word_resolves e hlong.1.1
  have hresolved (hclosed : ' ' ∈ e.1.toList ∨ closes more.head? = true) :
      detectGroupBy g low = some e.2 ↔ e.1 ≠ "customer" := by
    have hof : nameOf g rest = some (word e) := by
      rw [hrest, nameOf, if_pos hc, shortest_word hc hw hlen (hstops hclosed), hword]
      rfl
    rw [← htable.2, detectGroupBy_eq, hname, hof, Option.bind_some]
    obtain ⟨x, hx⟩ := Option.isSome_iff_exists.mp htable.1
    rw [hx]
    rfl
  unfold Decides
  by_cases hmany : ' ' ∈ e.1.toList
  · exact iff_of_true ((hresolved (.inl hmany)).mpr (customer_one_word e hlong.1.1 hmany)) (.inl hmany)
  rw [or_iff_right hmany]
  split_ifs with hclosed
  · exact hresolved (.inr hclosed)
  rw [detectGroupBy_eq, hname]
  cases hof : nameOf g rest with
  | none => rfl
  | some t =>
    -- the name begins with the phrase, so that some phrase is related to it
    have hrelated : related t e = true := by
      rw [hrest, nameOf, if_pos hc] at hof
      obtain ⟨t', ht', rfl⟩ := Option.map_eq_some_iff.mp hof
      exact related_of_prefix hword hmany hc hw (word_leads hc hw ht')
    obtain ⟨x, hx⟩ := Option.isSome_iff_exists.mp (List.find?_isSome.mpr ⟨e, hlong.1.1, hrelated⟩)
    rw [Option.bind_some]
    dsimp only
    rw [hx]
    rfl

/-- With no phrase in the text only the name behind a `by` is left to be related to one. -/
theorem absent_none (habsent : Absent g low) : detectGroupBy g low = none ↔
    ∀ t, firstName g low = some t → ∀ e ∈ groupByPhrases, related t e = false := by
  have hfallback : groupByPhrases.find? (wholeIn g low) = none := by
    refine List.find?_eq_none.mpr fun e he => ?_
    rw [wholeIn, habsent e he]
    exact Bool.false_ne_true
  rw [detectGroupBy_eq, hfallback]
  cases firstName g low with
  | none => exact iff_of_true rfl fun t ht => by cases ht
  | some t =>
    rw [Option.bind_some]
    cases hfind : groupByPhrases.find? (related t) with
    | none =>
      refine iff_of_true rfl fun t' ht e he => ?_
      obtain rfl := Option.some_inj.mp ht
      exact Bool.eq_false_iff.mpr (List.find?_eq_none.mp hfind e he)
    | some x =>
      refine iff_of_false (fun h => by cases h) fun h => ?_
      have hx := h t rfl x (List.mem_of_find?_eq_some hfind)
      rw [List.find?_some hfind] at hx
      cases hx

end Resolution

/-- The phrase behind `by` is what a prompt is grouped by exactly where it decides, and nothing is where no phrase is
there exactly where the name behind `by` is related to none. -/
theorem resolves_iff (g : Setting) (low : List Char) : Resolves g low ↔ Resolvable g low := by
  constructor
  · rintro ⟨hphrase, hnone⟩
    exact ⟨fun e rest more hby hlong => (phrase_decides hby hlong).mp (hphrase e rest more hby hlong),
      fun habsent => (absent_none habsent).mp (hnone habsent)⟩
  · rintro ⟨hphrase, hname⟩
    exact ⟨fun e rest more hby hlong => (phrase_decides hby hlong).mpr (hphrase e rest more hby hlong),
      fun habsent => (absent_none habsent).mpr (hname habsent)⟩

def ascii : Setting := ⟨asciiPlatform, id, fun _ => none, [], ⟨2025, 8, 17, by decide, by decide, by decide⟩⟩

/-- Sales by customer are grouped by customer group. -/
theorem customer_misread : ¬Resolves ascii "revenue by customer".toList := by
  rintro ⟨hphrase, -⟩
  have hby : Followed ascii "revenue by customer".toList "customer".toList := by
    have hsplits : ∀ n ≤ 19, byHere ascii (("revenue by customer".toList.take n).getLast?,
        "revenue by customer".toList.drop n) = true ↔ "revenue by customer".toList.take n = "revenue ".toList := by
      decide
    refine ⟨"revenue ".toList, [' '], by decide, fun pre' post' hsplit => ?_, by decide, by decide⟩
    have hlength : pre'.length ≤ 19 := by
      have hall : "revenue by customer".toList.length = 19 := by decide
      rw [hsplit, List.length_append] at hall
      omega
    have hat := hsplits pre'.length hlength
    rwa [hsplit, List.take_left, List.drop_left] at hat
  have hlong : Longest ascii ("customer", ⟨"customer", "Customer"⟩) "customer".toList [] := by
    refine ⟨⟨by decide, (List.append_nil _).symm, by decide +kernel⟩, fun e' more' h => ?_⟩
    rw [h.2.1, List.length_append]
    exact Nat.le_add_right _ _
  exact absurd (hphrase _ _ _ hby hlong) (by decide)

end AlfredProcessing.Handlers.GroupByResolution
