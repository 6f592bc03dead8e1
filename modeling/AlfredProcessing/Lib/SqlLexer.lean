import Mathlib.Data.List.Basic
import Mathlib.Data.List.SplitBy

namespace AlfredProcessing.Lib.SqlLexer

/-- What a stretch of a query is to MySQL: a character of its code, a quoted identifier,
a literal in one of the two quotes, a comment, or a mark around code in a comment that
MySQL executes. -/
inductive Kind where
  | code
  | name
  | single
  | double
  | line
  | block
  | executable
  deriving DecidableEq

structure Segment where
  kind : Kind
  raw : List Char
  deriving DecidableEq

def isBlank (c : Char) : Bool := (9 ≤ c.toNat && c.toNat ≤ 13) || c = ' '

def isControl (c : Char) : Bool := c.toNat < 32 || c.toNat = 127

def isIdent (c : Char) : Bool := c.isAlphanum || c = '_' || c = '$' || 128 ≤ c.toNat

/-- The length up to and with the end of a block comment. -/
def closeBlock : List Char → Option Nat
  | [] => none
  | '*' :: '/' :: _ => some 2
  | _ :: cs => (closeBlock cs).map (· + 1)

/-- The length up to and with the end of a literal, whose quote is escaped by a
backslash or by another one. -/
def closeLiteral (quote : Char) : List Char → Option Nat
  | [] => none
  | [c] => if c = quote then some 1 else none
  | c :: d :: cs =>
    if c = quote then if d = quote then (closeLiteral quote cs).map (· + 2) else some 1
    else if c = '\\' then (closeLiteral quote cs).map (· + 2)
    else (closeLiteral quote (d :: cs)).map (· + 1)

/-- The length up to and with the end of a quoted identifier. -/
def closeName : List Char → Option Nat
  | [] => none
  | [c] => if c = '`' then some 1 else none
  | c :: d :: cs =>
    if c = '`' then if d = '`' then (closeName cs).map (· + 2) else some 1
    else (closeName (d :: cs)).map (· + 1)

def lineLength (cs : List Char) : Nat := (cs.takeWhile (· ≠ '\n')).length

/-- Two dashes are a comment where a blank, a control character or nothing follows. -/
def dashComment (cs : List Char) : Bool :=
  match cs with
  | [] => true
  | c :: _ => isBlank c || isControl c

/-- The kind and the length of what begins here. Nothing is what has no end. -/
def segmentAt (executing : Bool) : List Char → Option (Kind × Nat)
  | '/' :: '*' :: '!' :: cs => some (.executable, 3 + (cs.takeWhile Char.isDigit).length)
  | '/' :: '*' :: cs => (closeBlock cs).map fun n => (.block, n + 2)
  | '*' :: '/' :: _ => if executing then some (.executable, 2) else some (.code, 1)
  | '#' :: cs => some (.line, lineLength cs + 1)
  | '-' :: '-' :: cs =>
    if dashComment cs then some (.line, lineLength cs + 2) else some (.code, 1)
  | '\'' :: cs => (closeLiteral '\'' cs).map fun n => (.single, n + 1)
  | '"' :: cs => (closeLiteral '"' cs).map fun n => (.double, n + 1)
  | '`' :: cs => (closeName cs).map fun n => (.name, n + 1)
  | _ => some (.code, 1)

/-- The segments from a position on, whose first characters belong to the segment
before it. A text that ends inside of something has none. -/
def lexFrom : Bool → Nat → List Char → Option (List Segment)
  | executing, _, [] => if executing then none else some []
  | executing, skip + 1, _ :: cs => lexFrom executing skip cs
  | executing, 0, c :: cs =>
    match segmentAt executing (c :: cs) with
    | none => none
    | some (kind, n) =>
      (lexFrom (if kind = .executable then c = '/' else executing) (n - 1) cs).map fun rest =>
        ⟨kind, (c :: cs).take n⟩ :: rest

/-- The lexer of MySQL, as far as it tells code from literals, quoted identifiers and
comments. -/
def lex (cs : List Char) : Option (List Segment) := lexFrom false 0 cs

def Segment.isIdent (s : Segment) : Bool := s.kind = .code && s.raw.all SqlLexer.isIdent

def words (segments : List Segment) : List (List Char) :=
  ((segments.splitOnP (!·.isIdent)).filter (!·.isEmpty)).map (·.flatMap Segment.raw)

/-- Whether a segment is a token: neither a comment nor a blank. -/
def Segment.isToken (s : Segment) : Bool :=
  match s.kind with
  | .code => !s.raw.all isBlank
  | .name | .single | .double => true
  | .line | .block | .executable => false

def Segment.isSemicolon (s : Segment) : Bool := s.kind = .code && s.raw = [';']

def statements (segments : List Segment) : List (List Segment) :=
  (segments.splitOnP Segment.isSemicolon).filter (·.any Segment.isToken)

section Beginnings

def literalKind (q : Char) : Kind := if q = '\'' then .single else .double

/-- What can begin in code, with its kind and its length. -/
inductive Begins : List Char → Kind → Nat → Prop where
  | executable {ds : List Char} :
      Begins ('/' :: '*' :: '!' :: ds) .executable (3 + (ds.takeWhile Char.isDigit).length)
  | block {ds : List Char} {n : Nat} (h : closeBlock ds = some n) :
      Begins ('/' :: '*' :: ds) .block (n + 2)
  | hash {ds : List Char} : Begins ('#' :: ds) .line (lineLength ds + 1)
  | dashes {ds : List Char} (h : dashComment ds) : Begins ('-' :: '-' :: ds) .line (lineLength ds + 2)
  | literal {q : Char} {ds : List Char} {n : Nat} (hq : q = '\'' ∨ q = '"')
      (h : closeLiteral q ds = some n) : Begins (q :: ds) (literalKind q) (n + 1)
  | name {ds : List Char} {n : Nat} (h : closeName ds = some n) : Begins ('`' :: ds) .name (n + 1)
  | code {c : Char} {ds : List Char} (hc : c ∉ ['#', '\'', '"', '`'])
      (h : c = '/' → ds.head? ≠ some '*') : Begins (c :: ds) .code 1

theorem closeBlock_le {cs : List Char} {n : Nat} (h : closeBlock cs = some n) : n ≤ cs.length := by
  induction cs using closeBlock.induct generalizing n with
  | case1 => cases h
  | case2 cs =>
    cases h
    simp
  | case3 c cs _ ih =>
    rw [closeBlock] at h
    · obtain ⟨m, hm, rfl⟩ := Option.map_eq_some_iff.mp h
      exact Nat.succ_le_succ (ih hm)
    · assumption

theorem closeName_split {cs : List Char} {n : Nat} (h : closeName cs = some n) :
    ∃ b r, cs = b ++ '`' :: r ∧ n = b.length + 1 := by
  induction cs using closeName.induct generalizing n with
  | case1 => cases h
  | case2 =>
    cases h
    exact ⟨[], [], rfl, rfl⟩
  | case3 c hc => simp [closeName, hc] at h
  | case4 cs ih =>
    simp only [closeName, if_true, Option.map_eq_some_iff] at h
    obtain ⟨m, hm, rfl⟩ := h
    obtain ⟨b, r, rfl, rfl⟩ := ih hm
    exact ⟨'`' :: '`' :: b, r, rfl, rfl⟩
  | case5 d cs hd =>
    simp only [closeName, if_true, if_neg hd, Option.some.injEq] at h
    exact ⟨[], d :: cs, rfl, h.symm⟩
  | case6 c d cs hc ih =>
    simp only [closeName, if_neg hc, Option.map_eq_some_iff] at h
    obtain ⟨m, hm, rfl⟩ := h
    obtain ⟨b, r, hb, rfl⟩ := ih hm
    exact ⟨c :: b, r, by rw [hb, List.cons_append], rfl⟩

theorem closeName_le {cs : List Char} {n : Nat} (h : closeName cs = some n) : n ≤ cs.length := by
  obtain ⟨b, r, rfl, rfl⟩ := closeName_split h
  rw [List.length_append, List.length_cons]
  omega

theorem lineLength_le (cs : List Char) : lineLength cs ≤ cs.length :=
  (List.takeWhile_sublist _).length_le

theorem begins_of_segmentAt {c : Char} {cs : List Char} {kind : Kind} {n : Nat}
    (h : segmentAt false (c :: cs) = some (kind, n)) : Begins (c :: cs) kind n := by
  unfold segmentAt at h
  split at h
  · next ds heq =>
    rw [heq]
    cases h
    exact .executable
  · next ds _ heq =>
    rw [heq]
    obtain ⟨m, hm, hk⟩ := Option.map_eq_some_iff.mp h
    cases hk
    exact .block hm
  · next ds heq =>
    rw [heq]
    cases h
    exact .code (by decide) fun hc => absurd hc (by decide)
  · next ds heq =>
    rw [heq]
    cases h
    exact .hash
  · next ds heq =>
    rw [heq]
    split at h
    · next hdash =>
      cases h
      exact .dashes hdash
    · cases h
      exact .code (by decide) fun hc => absurd hc (by decide)
  · next ds heq =>
    rw [heq]
    obtain ⟨m, hm, hk⟩ := Option.map_eq_some_iff.mp h
    cases hk
    exact .literal (.inl rfl) hm
  · next ds heq =>
    rw [heq]
    obtain ⟨m, hm, hk⟩ := Option.map_eq_some_iff.mp h
    cases hk
    exact .literal (.inr rfl) hm
  · next ds heq =>
    rw [heq]
    obtain ⟨m, hm, hk⟩ := Option.map_eq_some_iff.mp h
    cases hk
    exact .name hm
  · next hexec hblock hend hhash hdash hsingle hdouble hname =>
    cases h
    refine .code ?_ ?_
    · simp only [List.mem_cons, List.not_mem_nil, or_false, not_or]
      exact ⟨fun hc => hhash cs (by rw [hc]), fun hc => hsingle cs (by rw [hc]),
        fun hc => hdouble cs (by rw [hc]), fun hc => hname cs (by rw [hc])⟩
    · intro hc hhead
      obtain ⟨ds, rfl⟩ := List.head?_eq_some_iff.mp hhead
      exact hblock ds (by rw [hc])

end Beginnings

section Splitting

variable {α : Type} {p : α → Bool}

/-- The groups between the elements that are split at: the first one, and one behind
each of them. -/
theorem splitOnP_spec (xs : List α) :
    ∃ g gs, xs.splitOnP p = g :: gs ∧ (∀ y ∈ g, p y = false) ∧
      (∃ post, xs = g ++ post ∧ ∀ y ∈ post.head?, p y) ∧
      ∀ l ∈ gs, (∀ y ∈ l, p y = false) ∧
        ∃ pre y post, xs = pre ++ y :: (l ++ post) ∧ p y ∧ ∀ z ∈ post.head?, p z := by
  induction xs with
  | nil => exact ⟨[], [], rfl, by simp, ⟨[], rfl, by simp⟩, by simp⟩
  | cons x xs ih =>
    obtain ⟨g, gs, hsplit, hg, ⟨post, hxs, hpost⟩, hgs⟩ := ih
    have hlater : ∀ l ∈ gs, (∀ y ∈ l, p y = false) ∧
        ∃ pre y post, x :: xs = pre ++ y :: (l ++ post) ∧ p y ∧ ∀ z ∈ post.head?, p z := by
      intro l hl
      obtain ⟨hno, pre, y, post', hxs', hy, hpost'⟩ := hgs l hl
      exact ⟨hno, x :: pre, y, post', by rw [hxs', List.cons_append], hy, hpost'⟩
    cases hx : p x with
    | true =>
      refine ⟨[], g :: gs, by rw [List.splitOnP_cons_eq_if_modifyHead, hx, if_pos rfl, hsplit], by simp,
        ⟨x :: xs, rfl, fun y hy => by rwa [← Option.some.inj hy]⟩, ?_⟩
      intro l hl
      obtain rfl | hl := List.mem_cons.mp hl
      · exact ⟨hg, [], x, post, by rw [hxs, List.nil_append], hx, hpost⟩
      · exact hlater l hl
    | false =>
      refine ⟨x :: g, gs, by rw [List.splitOnP_cons_eq_if_modifyHead, hx, if_neg Bool.false_ne_true, hsplit]; rfl, ?_,
        ⟨post, by rw [hxs, List.cons_append], hpost⟩, hlater⟩
      intro y hy
      obtain rfl | hy := List.mem_cons.mp hy
      · exact hx
      · exact hg y hy

theorem mem_of_mem_splitOnP {xs l : List α} (h : l ∈ xs.splitOnP p) :
    ∀ y ∈ l, y ∈ xs ∧ p y = false := by
  obtain ⟨g, gs, hsplit, hg, ⟨post, hxs, -⟩, hgs⟩ := splitOnP_spec (p := p) xs
  rw [hsplit] at h
  intro y hy
  obtain rfl | hl := List.mem_cons.mp h
  · exact ⟨by rw [hxs]; exact List.mem_append_left post hy, hg y hy⟩
  · obtain ⟨hno, pre, z, post', hxs', -⟩ := hgs l hl
    refine ⟨?_, hno y hy⟩
    rw [hxs']
    exact List.mem_append_right pre (List.mem_cons_of_mem z (List.mem_append_left post' hy))

theorem head_splitOnP (run post : List α) (hrun : ∀ y ∈ run, p y = false)
    (hpost : ∀ y ∈ post.head?, p y) :
    (run ++ post).splitOnP p = run :: (post.drop 1).splitOnP p ∨
      post = [] ∧ (run ++ post).splitOnP p = [run] := by
  cases post with
  | nil =>
    rw [List.append_nil]
    exact .inr ⟨rfl, List.splitOnP_eq_singleton hrun⟩
  | cons y post => exact .inl (List.splitOnP_append_cons_of_forall_mem hrun y (hpost y rfl) post)

end Splitting

/-- Where nothing but semicolons and blanks follows the first semicolon, there is one
statement. -/
theorem statements_single {pre post : List Segment} (hpre : ∀ y ∈ pre, y.isSemicolon = false)
    (hpost : ∀ y ∈ post.head?, y.isSemicolon) (htoken : pre.any Segment.isToken)
    (hrest : ∀ y ∈ post, y.isToken → y.isSemicolon) : statements (pre ++ post) = [pre] := by
  obtain hsplit | ⟨-, hsplit⟩ := head_splitOnP pre post hpre hpost
  · have hnone : ((post.drop 1).splitOnP Segment.isSemicolon).filter (·.any Segment.isToken) = [] := by
      rw [List.filter_eq_nil_iff]
      intro l hl hany
      obtain ⟨y, hy, htok⟩ := List.any_eq_true.mp hany
      obtain ⟨hmem, hno⟩ := mem_of_mem_splitOnP hl y hy
      have hsemi := hrest y (List.mem_of_mem_drop hmem) htok
      rw [hno] at hsemi
      cases hsemi
    rw [statements, hsplit, List.filter_cons_of_pos (by exact htoken), hnone]
  · rw [statements, hsplit, List.filter_cons_of_pos (by exact htoken), List.filter_nil]

theorem words_cons_of_not_ident {x : Segment} (h : x.isIdent = false) (xs : List Segment) :
    words (x :: xs) = words xs := by
  rw [words, List.splitOnP_cons_eq_if_modifyHead, h, if_pos (by rfl)]
  rfl

theorem words_of_not_ident {pre : List Segment} (h : ∀ x ∈ pre, x.isIdent = false)
    (xs : List Segment) : words (pre ++ xs) = words xs := by
  induction pre with
  | nil => rfl
  | cons x pre ih =>
    rw [List.cons_append, words_cons_of_not_ident (h x List.mem_cons_self),
      ih fun y hy => h y (List.mem_cons_of_mem x hy)]

theorem head_words {run post : List Segment} (hne : run ≠ []) (hrun : ∀ y ∈ run, y.isIdent)
    (hpost : ∀ y ∈ post.head?, y.isIdent = false) :
    (words (run ++ post)).head? = some (run.flatMap Segment.raw) := by
  have hsplit := head_splitOnP (p := fun y : Segment => !y.isIdent) run post
    (fun y hy => by simp [hrun y hy]) fun y hy => by simp [hpost y hy]
  obtain hsplit | ⟨-, hsplit⟩ := hsplit <;>
    rw [words, hsplit, List.filter_cons_of_pos (by simp [hne])] <;> rfl

theorem mem_words {xs : List Segment} {w : List Char} (h : w ∈ words xs) :
    ∃ pre run post, xs = pre ++ (run ++ post) ∧ w = run.flatMap Segment.raw ∧ run ≠ [] ∧
      (∀ y ∈ run, y.isIdent) ∧ (∀ y ∈ pre.getLast?, y.isIdent = false) ∧
      ∀ y ∈ post.head?, y.isIdent = false := by
  obtain ⟨g, gs, hsplit, hg, ⟨post, hxs, hpost⟩, hgs⟩ :=
    splitOnP_spec (p := fun y : Segment => !y.isIdent) xs
  obtain ⟨run, hrun, rfl⟩ := List.mem_map.mp h
  obtain ⟨hmem, hne⟩ := List.mem_filter.mp hrun
  have hne' : run ≠ [] := by simpa using hne
  rw [hsplit] at hmem
  obtain rfl | hmem := List.mem_cons.mp hmem
  · exact ⟨[], run, post, hxs, rfl, hne', fun y hy => by simpa using hg y hy, by simp,
      fun y hy => by simpa using hpost y hy⟩
  · obtain ⟨hno, pre, y, post', hxs', hy, hpost'⟩ := hgs run hmem
    refine ⟨pre ++ [y], run, post', by rw [hxs', List.append_assoc]; rfl, rfl, hne',
      fun z hz => by simpa using hno z hz, fun z hz => ?_, fun z hz => by simpa using hpost' z hz⟩
    rw [List.getLast?_concat] at hz
    obtain rfl := Option.some.inj hz
    simpa using hy

end AlfredProcessing.Lib.SqlLexer
