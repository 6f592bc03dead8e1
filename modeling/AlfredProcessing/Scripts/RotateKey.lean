import AlfredProcessing.Extract.Cleaning
import AlfredProcessing.Lib.Lines
import AlfredProcessing.Orchestrator.Classify

namespace AlfredProcessing.Scripts.RotateKey

open Lib.Lines Extract.Cleaning
open Orchestrator.Classify (lineBreak)

section Model

def keyName : List Char := "API_SECRET_KEY".toList

/-- What `_replace_or_append` looks for, up to the value. -/
def assignment : List Char := keyName ++ ['=']

/-- A key as `secrets.token_urlsafe` makes them. -/
abbrev Key := { k : List Char // k ≠ [] ∧ ∀ c ∈ k, c.isAlphanum ∨ c = '-' ∨ c = '_' }

/-- `stripped.startswith(prefix)`. -/
def assignsHere (line : List Char) : Bool := assignment.isPrefixOf (line.dropWhile isSpace)

def newLine (value line : List Char) : List Char :=
  assignment ++ value ++ if line.getLast? = some '\n' then ['\n'] else []

/-- The lines with the first assignment replaced, none where there is no assignment. -/
def replaceFirst (value : List Char) : List (List Char) → Option (List (List Char))
  | [] => none
  | line :: lines =>
    if assignsHere line then some (newLine value line :: lines)
    else (replaceFirst value lines).map (line :: ·)

/-- `out[-1] += "\n"`, where that is missing. -/
def closeLast (out : List (List Char)) : List (List Char) :=
  match out.getLast? with
  | some last => if last.getLast? = some '\n' then out else out.dropLast ++ [last ++ ['\n']]
  | none => out

/-- `_replace_or_append`. -/
def replaceOrAppend (value : List Char) (lines : List (List Char)) : List (List Char) :=
  (replaceFirst value lines).getD (closeLast lines ++ [assignment ++ value ++ ['\n']])

/-- `_read_env`. -/
def readEnv (content : List Char) : List (List Char) := linesBy lineBreak (universal content)

structure Files where
  env : Option (List Char)
  backup : Option (List Char) := none

/-- `rotate`, none where the file is missing. -/
def rotate (newKey : Key) (dryRun : Bool) (files : Files) : Option Files :=
  match files.env with
  | none => none
  | some content =>
    some (if dryRun then files
      else { env := some (replaceOrAppend newKey.1 (readEnv content)).flatten, backup := some content })

/-- What a dotenv reader makes of the text behind an equals sign. A key stands for itself. -/
structure Values where
  value : List Char → List Char
  value_key : ∀ k : Key, value k.1 = k.1

/-- A line without `export` before it. -/
def afterExport (s : List Char) : List Char :=
  if "export".toList.isPrefixOf s && (s.drop 6).head?.any isSpace then (s.drop 6).dropWhile isSpace else s

def namesKey (left : List Char) : Bool := (afterExport (left.dropWhile isSpace)).rdropWhile isSpace = keyName

/-- What is assigned to the key on a line, as it stands there. -/
def behindKey (line : List Char) : Option (List Char) :=
  if '=' ∈ line ∧ namesKey (line.takeWhile (· ≠ '=')) then some (line.dropWhile (· ≠ '=')).tail else none

def assigns (line : List Char) : Bool := (behindKey (body line)).isSome

def assigned (r : Values) (line : List Char) : Option (List Char) := (behindKey (body line)).map r.value

def lastAssigned (r : Values) (content : List Char) : Option (List Char) :=
  ((linesBy fileEnd content).filterMap (assigned r)).getLast?

/-- A name without quotes, with `export` before it or not. -/
def plainName (left : List Char) : Bool :=
  let name := (afterExport left).rdropWhile isSpace
  !name.isEmpty && name.all fun c => !isSpace c && c ≠ '#' && c ≠ '\''

/-- A quote is closed with no backslash before that, and there is at most a comment behind it. -/
def closes (quote : Char) (cs : List Char) : Bool :=
  let behind := (cs.dropWhile (· ≠ quote)).tail.dropWhile isSpace
  cs.contains quote && !(cs.takeWhile (· ≠ quote)).contains '\\' && (behind.isEmpty || behind.head? = some '#')

def closedValue (text : List Char) : Bool :=
  match text.dropWhile isSpace with
  | [] => true
  | c :: cs => if c = '"' ∨ c = '\'' then closes c cs else true

/-- A line that is blank, a comment, or the assignment of a value that ends with it, and refers to
no variable where it assigns the key. -/
def plainLine (line : List Char) : Bool :=
  let s := (body line).dropWhile isSpace
  s.isEmpty || s.head? = some '#' ||
    (s.contains '=' && plainName (s.takeWhile (· ≠ '=')) && closedValue (s.dropWhile (· ≠ '=')).tail &&
      !(assigns line && s.contains '$'))

/-- A dotenv reader, with the value that it gives for the key. It reads a file of plain lines line by
line, and the last assignment wins. -/
structure Reader extends Values where
  effective : List Char → Option (List Char)
  effective_plain : ∀ content, (∀ l ∈ linesBy fileEnd content, plainLine l) →
    effective content = lastAssigned toValues content

def others (content : List Char) : List (List Char) := (linesBy fileEnd content).filter fun l => !assigns l

/-- A line is kept, where it was the open one at the end of the file it may have got its end. -/
def SameLine (l l' : List Char) : Prop := l' = l ∨ (∀ x ∈ l, fileEnd x = false) ∧ l' = l ++ ['\n']

/-- The new key is in effect, and every other line is as it was. -/
def Rotated (effective : List Char → Option (List Char)) (newKey : Key) (before after : List Char) : Prop :=
  effective after = some newKey.1 ∧ List.Forall₂ SameLine (others before) (others after)

def Rotates (effective : List Char → Option (List Char)) (content : List Char) : Prop :=
  ∀ newKey, ∃ after, (rotate newKey false { env := some content }).bind Files.env = some after ∧
    Rotated effective newKey content after

def around : List (List Char) → Option (List Char × List Char)
  | [] => none
  | piece :: pieces =>
    if assignsHere piece then some ([], pieces.flatten)
    else (around pieces).map fun a => (piece ++ a.1, a.2)

def pieces (line : List Char) : List (List Char) := linesBy lineBreak line

/-- Every line is plain, also with a key in place of a piece that is replaced. -/
structure Plain (content : List Char) : Prop where
  lines : ∀ l ∈ linesBy fileEnd content, plainLine l
  replaced : ∀ l ∈ linesBy fileEnd content, ∀ a, around (pieces (normal l)) = some a →
    ∀ k : Key, plainLine (a.1 ++ assignment ++ k.1 ++ a.2)

/-- Every line that is no assignment ends in a plain line feed, or in nothing; and where a line has a piece
that is replaced, it is an assignment to the key that stays one of just the new value, and no later line is
an assignment, in whatever form. -/
structure Rotatable (r : Values) (content : List Char) : Prop where
  feeds : ∀ l ∈ linesBy fileEnd content, ¬assigns l → '\r' ∉ l
  first : ∀ before l after a, linesBy fileEnd (universal content) = before ++ l :: after →
    (∀ m ∈ before, around (pieces m) = none) → around (pieces l) = some a →
      assigns l ∧ (∀ k : Key, assigned r (a.1 ++ assignment ++ k.1 ++ a.2) = some k.1) ∧ ∀ m ∈ after, ¬assigns m

end Model

section Lines

variable {r : Values} {l : List Char} {ls ms : List (List Char)} {k : List Char}

theorem keyName_eq : keyName = ['A', 'P', 'I', '_', 'S', 'E', 'C', 'R', 'E', 'T', '_', 'K', 'E', 'Y'] := by
  decide

theorem lineBreak_newline : lineBreak '\n' = true := by decide

theorem linesBy_lineBreak (h : Lined ls) : linesBy lineBreak ls.flatten = ls.flatMap pieces := by
  induction ls with
  | nil => rfl
  | cons l ls ih =>
    cases ls with
    | nil =>
      rw [List.flatten_cons, List.flatten_nil, List.append_nil, List.flatMap_cons, List.flatMap_nil, List.append_nil]
      rfl
    | cons l' ls =>
      obtain ⟨⟨b, hb, rfl⟩, hrest⟩ := h
      rw [List.flatten_cons, List.append_assoc, List.singleton_append,
        linesBy_append lineBreak_newline (by decide) (not_mem_of_fileEnd hb), ih hrest, List.flatMap_cons]
      rfl

theorem flatten_pieces (ls : List (List Char)) : (ls.flatMap pieces).flatten = ls.flatten := by
  induction ls with
  | nil => rfl
  | cons l ls ih => rw [List.flatMap_cons, List.flatten_append, ih, List.flatten_cons, pieces, flatten_linesBy]

theorem readEnv_eq (content : List Char) : readEnv content = (linesBy fileEnd (universal content)).flatMap pieces := by
  rw [← linesBy_lineBreak (lined_universal content), flatten_linesBy]
  rfl

theorem around_none : around ls = none ↔ replaceFirst k ls = none := by
  induction ls with
  | nil => exact iff_of_true rfl rfl
  | cons l ls ih =>
    unfold around replaceFirst
    split_ifs
    · exact Iff.rfl
    · rw [Option.map_eq_none_iff, Option.map_eq_none_iff, ih]

theorem replaceFirst_append_none (h : replaceFirst k ls = none) (ms : List (List Char)) :
    replaceFirst k (ls ++ ms) = (replaceFirst k ms).map (ls ++ ·) := by
  induction ls with
  | nil => exact Option.map_id'.symm
  | cons l ls ih =>
    rw [replaceFirst] at h
    rw [List.cons_append, replaceFirst]
    split_ifs at h ⊢
    rw [ih (Option.map_eq_none_iff.mp h), Option.map_map]
    rfl

theorem replaceFirst_append_some {out : List (List Char)} (h : replaceFirst k ls = some out) (ms : List (List Char)) :
    replaceFirst k (ls ++ ms) = some (out ++ ms) := by
  induction ls generalizing out with
  | nil => cases h
  | cons l ls ih =>
    rw [replaceFirst] at h
    rw [List.cons_append, replaceFirst]
    split_ifs at h ⊢
    · cases h
      rfl
    · obtain ⟨rest, hrest, rfl⟩ := Option.map_eq_some_iff.mp h
      rw [ih hrest]
      rfl

theorem replaceFirst_flatMap_none (h : ∀ m ∈ ls, around (pieces m) = none) : replaceFirst k (ls.flatMap pieces) = none := by
  induction ls with
  | nil => rfl
  | cons l ls ih =>
    obtain ⟨hl, hls⟩ := List.forall_mem_cons.mp h
    rw [List.flatMap_cons, replaceFirst_append_none (around_none.mp hl), ih hls]
    rfl

theorem around_some {a : List Char × List Char} (h : around ls = some a) : ∃ front piece behind,
    ls = front ++ piece :: behind ∧ a = (front.flatten, behind.flatten) ∧
      ∀ k, replaceFirst k ls = some (front ++ newLine k piece :: behind) := by
  induction ls generalizing a with
  | nil => cases h
  | cons l ls ih =>
    rw [around] at h
    split_ifs at h with hassigns
    · cases h
      refine ⟨[], l, ls, rfl, rfl, fun k => ?_⟩
      rw [replaceFirst, if_pos hassigns]
      rfl
    · obtain ⟨a', ha', rfl⟩ := Option.map_eq_some_iff.mp h
      obtain ⟨front, piece, behind, rfl, rfl, hreplace⟩ := ih ha'
      refine ⟨l :: front, piece, behind, rfl, rfl, fun k => ?_⟩
      rw [replaceFirst, if_neg hassigns, hreplace]
      rfl

theorem assignment_open : ∀ x ∈ assignment, fileEnd x = false := by
  rw [assignment, keyName_eq]
  decide

theorem key_open (k : Key) : ∀ x ∈ k.1, fileEnd x = false := by
  intro x hx
  unfold fileEnd
  rw [Bool.or_eq_false_iff, decide_eq_false_iff_not, decide_eq_false_iff_not]
  constructor
  · rintro rfl
    exact absurd (k.2.2 _ hx) (by decide)
  · rintro rfl
    exact absurd (k.2.2 _ hx) (by decide)

/-- A new line takes over the end of the line, which stands in the piece or behind it. -/
theorem newLine_split {b e u piece v : List Char} (hb : ∀ x ∈ b, fileEnd x = false) (he : e = [] ∨ e = ['\n'])
    (hne : piece ≠ []) (hflat : u ++ (piece ++ v) = b ++ e) (k : List Char) :
    ∃ v', (v = v' ∨ v = v' ++ e) ∧ newLine k piece ++ v = assignment ++ k ++ v' ++ e ∧
      (∀ x ∈ u, x ∈ b) ∧ ∀ x ∈ v', x ∈ b := by
  have hopen {p : List Char} (hp : ∀ x ∈ p, x ∈ b) : newLine k p = assignment ++ k := by
    rw [newLine, if_neg, List.append_nil]
    intro hlast
    have hmem := hb _ (hp _ (List.mem_of_getLast? hlast))
    cases hmem
  obtain rfl | rfl := he
  · rw [List.append_nil] at hflat
    have hin : ∀ x ∈ u ++ (piece ++ v), x ∈ b := fun x hx => hflat ▸ hx
    simp only [List.forall_mem_append] at hin
    obtain ⟨hu, hpiece, hv⟩ := hin
    exact ⟨v, .inl rfl, by rw [hopen hpiece, List.append_nil], hu, hv⟩
  · obtain rfl | ⟨rest, x, rfl⟩ := List.eq_nil_or_concat v
    · obtain rfl | ⟨p, x, rfl⟩ := List.eq_nil_or_concat piece
      · exact absurd rfl hne
      rw [List.append_nil, List.concat_eq_append, ← List.append_assoc] at hflat
      obtain ⟨hb', hx⟩ := List.append_inj' hflat rfl
      obtain rfl : x = '\n' := List.singleton_inj.mp hx
      refine ⟨[], .inl rfl, ?_, fun x hx => hb' ▸ List.mem_append_left _ hx, List.forall_mem_nil _⟩
      rw [newLine, List.concat_eq_append, List.getLast?_concat, if_pos rfl]
      simp only [List.append_nil]
    · rw [List.concat_eq_append, ← List.append_assoc, ← List.append_assoc] at hflat
      obtain ⟨hb', hx⟩ := List.append_inj' hflat rfl
      obtain rfl : x = '\n' := List.singleton_inj.mp hx
      have hin : ∀ x ∈ u ++ piece ++ rest, x ∈ b := fun x hx => hb' ▸ hx
      simp only [List.forall_mem_append] at hin
      obtain ⟨⟨hu, hpiece⟩, hrest⟩ := hin
      refine ⟨rest, .inr List.concat_eq_append, ?_, hu, hrest⟩
      rw [hopen hpiece, List.concat_eq_append]
      simp only [List.append_assoc]

theorem replaced_line {b e : List Char} {a : List Char × List Char} (hb : ∀ x ∈ b, fileEnd x = false)
    (he : e = [] ∨ e = ['\n']) (h : around (pieces (b ++ e)) = some a) (k : Key) :
    ∃ out b', replaceFirst k.1 (pieces (b ++ e)) = some out ∧ out.flatten = b' ++ e ∧
      (b' ≠ [] ∧ ∀ x ∈ b', fileEnd x = false) ∧ body (a.1 ++ assignment ++ k.1 ++ a.2) = b' := by
  obtain ⟨front, piece, behind, hpieces, rfl, hreplace⟩ := around_some h
  have hne : piece ≠ [] := linesBy_ne_nil (hpieces ▸ List.mem_append_right _ List.mem_cons_self)
  have hflat : front.flatten ++ (piece ++ behind.flatten) = b ++ e := by
    rw [← flatten_linesBy (b ++ e), ← pieces, hpieces, List.flatten_append, List.flatten_cons]
  obtain ⟨v', hv, hline, hfront, hv'⟩ := newLine_split hb he hne hflat k.1
  have hopen : ∀ x ∈ front.flatten ++ assignment ++ k.1 ++ v', fileEnd x = false := by
    simp only [List.forall_mem_append]
    exact ⟨⟨⟨fun x hx => hb x (hfront x hx), assignment_open⟩, key_open k⟩, fun x hx => hb x (hv' x hx)⟩
  have hend : ∀ x ∈ e, fileEnd x := by
    obtain rfl | rfl := he <;> decide
  refine ⟨_, front.flatten ++ assignment ++ k.1 ++ v', hreplace k.1, ?_, ⟨by simp [k.2.1], hopen⟩, ?_⟩
  · rw [List.flatten_append, List.flatten_cons, hline]
    simp only [List.append_assoc]
  · obtain hv | hv := hv
    · rw [hv]
      exact body_open hopen
    · rw [hv, ← List.append_assoc]
      exact body_append hopen hend

def closeText (t : List Char) : List Char := if t = [] ∨ t.getLast? = some '\n' then t else t ++ ['\n']

theorem flatten_closeLast (h : ∀ l ∈ ls, l ≠ []) : (closeLast ls).flatten = closeText ls.flatten := by
  obtain rfl | ⟨front, last, rfl⟩ := List.eq_nil_or_concat ls
  · rfl
  rw [List.concat_eq_append] at h ⊢
  have hlast : last ≠ [] := h last (List.mem_append_right _ List.mem_cons_self)
  have hsame : (front ++ [last]).flatten.getLast? = last.getLast? := by
    rw [List.flatten_append, List.flatten_cons, List.flatten_nil, List.append_nil, List.getLast?_append_of_ne_nil _ hlast]
  have hne : (front ++ [last]).flatten ≠ [] := by
    intro hnil
    rw [hnil] at hsame
    exact hlast (List.getLast?_eq_none_iff.mp hsame.symm)
  unfold closeLast closeText
  rw [List.getLast?_concat, hsame]
  dsimp only
  by_cases hended : last.getLast? = some '\n'
  · rw [if_pos hended, if_pos (.inr hended)]
  · rw [if_neg hended, if_neg (not_or.mpr ⟨hne, hended⟩), List.dropLast_concat]
    simp only [List.flatten_append, List.flatten_cons, List.flatten_nil, List.append_nil, List.append_assoc]

theorem closeLast_lined (h : Lined ls) : (∀ l ∈ closeLast ls, Ended l) ∧
    List.Forall₂ (fun l l' => l' = l ∨ Open l ∧ l' = l ++ ['\n']) ls (closeLast ls) := by
  have hrefl (xs : List (List Char)) :
      List.Forall₂ (fun l l' => l' = l ∨ Open l ∧ l' = l ++ ['\n']) xs xs :=
    List.forall₂_same.mpr fun _ _ => .inl rfl
  obtain rfl | ⟨front, last, rfl⟩ := List.eq_nil_or_concat ls
  · exact ⟨List.forall_mem_nil _, .nil⟩
  rw [List.concat_eq_append] at h ⊢
  obtain ⟨hfront, hlast⟩ := lined_concat.mp h
  unfold closeLast
  rw [List.getLast?_concat]
  dsimp only
  obtain hopen | hended := hlast
  · rw [if_neg hopen.getLast_ne, List.dropLast_concat]
    refine ⟨?_, List.rel_append (hrefl front) (.cons (.inr ⟨hopen, rfl⟩) .nil)⟩
    intro l hl
    obtain hl | hl := List.mem_append.mp hl
    · exact hfront l hl
    · rw [List.mem_singleton.mp hl]
      exact ⟨last, hopen.2, rfl⟩
  · rw [if_pos hended.getLast]
    refine ⟨?_, hrefl _⟩
    intro l hl
    obtain hl | hl := List.mem_append.mp hl
    · exact hfront l hl
    · rw [List.mem_singleton.mp hl]
      exact hended

theorem lined_of_ended (h : ∀ l ∈ ls, Ended l) : Lined ls := by
  obtain rfl | ⟨front, last, rfl⟩ := List.eq_nil_or_concat ls
  · trivial
  rw [List.concat_eq_append] at h ⊢
  exact lined_concat.mpr ⟨fun l hl => h l (List.mem_append_left _ hl),
    .inr (h last (List.mem_append_right _ List.mem_cons_self))⟩

def rotated (k : Key) (content : List Char) : List Char := (replaceOrAppend k.1 (readEnv content)).flatten

theorem rotated_append {content : List Char} (k : Key)
    (h : ∀ m ∈ linesBy fileEnd (universal content), around (pieces m) = none) :
    linesBy fileEnd (rotated k content) =
      closeLast (linesBy fileEnd (universal content)) ++ [assignment ++ k.1 ++ ['\n']] := by
  set ls := linesBy fileEnd (universal content) with hls
  have hlined : Lined ls := lined_universal content
  have hpieces : ∀ p ∈ ls.flatMap pieces, p ≠ [] := by
    intro p hp
    obtain ⟨l, -, hp⟩ := List.mem_flatMap.mp hp
    exact linesBy_ne_nil hp
  have hlines : ∀ l ∈ ls, l ≠ [] := fun l hl => linesBy_ne_nil hl
  have hrotated : rotated k content = (closeLast ls ++ [assignment ++ k.1 ++ ['\n']]).flatten := by
    unfold rotated replaceOrAppend
    rw [readEnv_eq, ← hls, replaceFirst_flatMap_none h, Option.getD_none, List.flatten_append, List.flatten_append,
      flatten_closeLast hpieces, flatten_closeLast hlines, flatten_pieces]
  rw [hrotated]
  apply linesBy_flatten
  apply lined_of_ended
  intro l hl
  obtain hl | hl := List.mem_append.mp hl
  · exact (closeLast_lined hlined).1 l hl
  · rw [List.mem_singleton.mp hl]
    refine ⟨assignment ++ k.1, fun x hx => ?_, rfl⟩
    obtain hx | hx := List.mem_append.mp hx
    · exact assignment_open x hx
    · exact key_open k x hx

theorem lined_split {before after : List (List Char)} (h : Lined (before ++ l :: after)) :
    ∃ b e, l = b ++ e ∧ (∀ x ∈ b, fileEnd x = false) ∧ (e = [] ∨ e = ['\n']) ∧
      ∀ b', (b' ≠ [] ∧ ∀ x ∈ b', fileEnd x = false) → Lined (before ++ (b' ++ e) :: after) := by
  obtain rfl | ⟨front, last, rfl⟩ := List.eq_nil_or_concat after
  · obtain ⟨hbefore, hlast⟩ := lined_concat.mp h
    obtain hopen | ⟨b, hb, rfl⟩ := hlast
    · refine ⟨l, [], (List.append_nil l).symm, hopen.2, .inl rfl, fun b' hb' => lined_concat.mpr ⟨hbefore, .inl ?_⟩⟩
      rw [List.append_nil]
      exact hb'
    · exact ⟨b, ['\n'], rfl, hb, .inr rfl, fun b' hb' => lined_concat.mpr ⟨hbefore, .inr ⟨b', hb'.2, rfl⟩⟩⟩
  · rw [List.concat_eq_append, ← List.cons_append, ← List.append_assoc] at h
    obtain ⟨hall, hlast⟩ := lined_concat.mp h
    obtain ⟨b, hb, rfl⟩ := hall l (List.mem_append_right _ List.mem_cons_self)
    refine ⟨b, ['\n'], rfl, hb, .inr rfl, fun b' hb' => ?_⟩
    rw [List.concat_eq_append, ← List.cons_append, ← List.append_assoc]
    refine lined_concat.mpr ⟨fun x hx => ?_, hlast⟩
    obtain hx | hx := List.mem_append.mp hx
    · exact hall x (List.mem_append_left _ hx)
    · obtain rfl | hx := List.mem_cons.mp hx
      · exact ⟨b', hb'.2, rfl⟩
      · exact hall x (List.mem_append_right _ (List.mem_cons_of_mem _ hx))

theorem rotated_replace {content : List Char} {before after : List (List Char)} {a : List Char × List Char} (k : Key)
    (hlines : linesBy fileEnd (universal content) = before ++ l :: after)
    (hbefore : ∀ m ∈ before, around (pieces m) = none) (ha : around (pieces l) = some a) :
    ∃ l', linesBy fileEnd (rotated k content) = before ++ l' :: after ∧
      body l' = body (a.1 ++ assignment ++ k.1 ++ a.2) := by
  have hlined : Lined (before ++ l :: after) := hlines ▸ lined_universal content
  obtain ⟨b, e, rfl, hb, he, hkeep⟩ := lined_split hlined
  obtain ⟨out, b', hout, hflat, hb', hbody⟩ := replaced_line hb he ha k
  have hends : ∀ x ∈ e, fileEnd x := by
    obtain rfl | rfl := he
    · exact List.forall_mem_nil _
    · decide
  refine ⟨b' ++ e, ?_, (body_append hb'.2 hends).trans hbody.symm⟩
  have hrotated : rotated k content = (before ++ (b' ++ e) :: after).flatten := by
    unfold rotated replaceOrAppend
    rw [readEnv_eq, hlines, List.flatMap_append, List.flatMap_cons,
      replaceFirst_append_none (replaceFirst_flatMap_none hbefore), replaceFirst_append_some hout, Option.map_some,
      Option.getD_some, List.flatten_append, List.flatten_append, hflat, flatten_pieces, flatten_pieces, List.flatten_append,
      List.flatten_cons]
  rw [hrotated]
  exact linesBy_flatten (hkeep b' hb')

end Lines

section Rotation

variable {r : Values} {content : List Char} {k : Key}

def keyA : Key := ⟨['a'], by decide⟩

def keyB : Key := ⟨['b'], by decide⟩

instance : Nonempty Key := ⟨keyA⟩

theorem keyA_ne : keyA.1 ≠ keyB.1 := by decide

theorem assigned_isSome (r : Values) (l : List Char) : (assigned r l).isSome = assigns l := Option.isSome_map

theorem assigned_congr {l l' : List Char} (h : body l = body l') : assigned r l = assigned r l' := by
  rw [assigned, h]
  rfl

theorem behindKey_isSome {u v w : List Char} (h : '=' ∈ u) : (behindKey (u ++ v)).isSome = (behindKey (u ++ w)).isSome := by
  have hleft (x : List Char) : (u ++ x).takeWhile (· ≠ '=') = u.takeWhile (· ≠ '=') := by
    obtain ⟨p, q, rfl, hp⟩ := List.eq_append_cons_of_mem h
    have hall : ∀ y ∈ p, decide (y ≠ '=') = true := fun y hy => decide_eq_true fun heq => hp (heq ▸ hy)
    rw [List.append_assoc, List.takeWhile_append_of_pos hall, List.takeWhile_append_of_pos hall, List.cons_append,
      List.takeWhile_cons_of_neg (by simp), List.takeWhile_cons_of_neg (by simp)]
  unfold behindKey
  rw [hleft v, hleft w]
  by_cases hnames : namesKey (u.takeWhile (· ≠ '=')) = true
  · rw [if_pos ⟨List.mem_append_left _ h, hnames⟩, if_pos ⟨List.mem_append_left _ h, hnames⟩]
    rfl
  · rw [if_neg fun hboth => hnames hboth.2, if_neg fun hboth => hnames hboth.2]

theorem body_new (k : Key) : body (assignment ++ k.1 ++ ['\n']) = assignment ++ k.1 := by
  refine body_append (fun x hx => ?_) (by decide)
  obtain hx | hx := List.mem_append.mp hx
  · exact assignment_open x hx
  · exact key_open k x hx

theorem assigned_new (r : Values) (k : Key) : assigned r (assignment ++ k.1 ++ ['\n']) = some k.1 := by
  have hbehind : behindKey (assignment ++ k.1) = some k.1 := by
    rw [assignment, keyName_eq]
    rfl
  rw [assigned, body_new, hbehind, Option.map_some, r.value_key]

/-- Two relations on the same pairs, of which one is a property of the first. -/
theorem forall₂_iff {α β : Type*} {R S : α → β → Prop} {P : α → Prop} {xs : List α} {ys : List β}
    (h : List.Forall₂ R xs ys) (hS : ∀ x ∈ xs, ∀ y, R x y → (S x y ↔ P x)) :
    List.Forall₂ S xs ys ↔ ∀ x ∈ xs, P x := by
  induction h with
  | nil => exact iff_of_true .nil (List.forall_mem_nil _)
  | cons hxy _ ih =>
    rw [List.forall₂_cons, List.forall_mem_cons, hS _ List.mem_cons_self _ hxy,
      ih fun x hx => hS x (List.mem_cons_of_mem _ hx)]

theorem forall₂_filter {α β : Type*} {R : α → β → Prop} {p : α → Bool} {q : β → Bool} {xs : List α} {ys : List β}
    (h : List.Forall₂ R xs ys) (hpq : ∀ x ∈ xs, ∀ y, R x y → p x = q y) :
    List.Forall₂ R (xs.filter p) (ys.filter q) := by
  induction h with
  | nil => exact .nil
  | @cons x y _ _ hxy _ ih =>
    have hhead := hpq x List.mem_cons_self y hxy
    have hrest := ih fun x hx => hpq x (List.mem_cons_of_mem _ hx)
    rw [List.filter_cons, List.filter_cons, ← hhead]
    split_ifs
    · exact .cons hxy hrest
    · exact hrest

theorem forall₂_mem_right {α β : Type*} {R : α → β → Prop} {xs : List α} {ys : List β} (h : List.Forall₂ R xs ys) :
    ∀ y ∈ ys, ∃ x ∈ xs, R x y := by
  induction h with
  | nil => exact List.forall_mem_nil _
  | cons hxy _ ih =>
    refine List.forall_mem_cons.mpr ⟨⟨_, List.mem_cons_self, hxy⟩, fun y hy => ?_⟩
    obtain ⟨x, hx, hR⟩ := ih y hy
    exact ⟨x, List.mem_cons_of_mem _ hx, hR⟩

/-- A line of the file and what is written in its place where it is kept. -/
def Kept (m l' : List Char) : Prop := l' = normal m ∨ Open (normal m) ∧ l' = normal m ++ ['\n']

theorem Kept.assigns {m l' : List Char} (h : Kept m l') (hm : m ∈ linesBy fileEnd content) : assigns m = assigns l' := by
  obtain ⟨hbody, -⟩ := normal_line hm
  obtain rfl | ⟨hopen, rfl⟩ := h
  · rw [RotateKey.assigns, RotateKey.assigns, hbody]
  · rw [RotateKey.assigns, RotateKey.assigns, body_append hopen.2 (by decide), ← hbody, body_open hopen.2]

/-- A line that is kept is as it was exactly where it had no carriage return. -/
theorem Kept.sameLine {m l' : List Char} (h : Kept m l') (hm : m ∈ linesBy fileEnd content) :
    SameLine m l' ↔ '\r' ∉ m := by
  obtain ⟨-, hcr, hnormal⟩ := normal_line hm
  constructor
  · rintro (rfl | ⟨hopen, -⟩)
    · obtain hl' | ⟨-, hl'⟩ := h
      · rwa [hl']
      · rw [hl']
        intro hmem
        obtain hmem | hmem := List.mem_append.mp hmem
        · exact hcr hmem
        · cases List.mem_singleton.mp hmem
    · exact not_mem_of_fileEnd hopen
  · intro hno
    rw [Kept, hnormal hno] at h
    exact h.imp_right fun ⟨hopen, hl'⟩ => ⟨hopen.2, hl'⟩

/-- Lines of the file that are kept are as they were exactly where those that assign nothing end in no carriage
return. -/
theorem sameLines_iff {ms ls : List (List Char)} (hms : ∀ m ∈ ms, m ∈ linesBy fileEnd content)
    (h : List.Forall₂ Kept ms ls) :
    List.Forall₂ SameLine (ms.filter fun l => !assigns l) (ls.filter fun l => !assigns l) ↔
      ∀ m ∈ ms, ¬assigns m → '\r' ∉ m := by
  have hfilter := forall₂_filter (p := fun l => !assigns l) (q := fun l => !assigns l) h
    fun m hm l' hl' => congrArg _ (hl'.assigns (hms m hm))
  rw [forall₂_iff hfilter fun m hm l' hl' => hl'.sameLine (hms m (List.mem_of_mem_filter hm))]
  simp [List.mem_filter]

theorem kept_normal (ms : List (List Char)) : List.Forall₂ Kept ms (ms.map normal) := by
  rw [List.forall₂_map_right_iff]
  exact List.forall₂_same.mpr fun _ _ => .inl rfl

theorem kept_closeLast (content : List Char) :
    List.Forall₂ Kept (linesBy fileEnd content) (closeLast (linesBy fileEnd (universal content))) := by
  have hclose := (closeLast_lined (lined_universal content)).2
  rw [linesBy_universal, List.forall₂_map_left_iff] at hclose
  rw [linesBy_universal]
  exact hclose

theorem rotates_def {effective : List Char → Option (List Char)} :
    Rotates effective content ↔ ∀ k, Rotated effective k content (rotated k content) := by
  unfold Rotates
  constructor
  · intro h k
    obtain ⟨after, hafter, hrotated⟩ := h k
    obtain rfl : rotated k content = after := Option.some_inj.mp hafter
    exact hrotated
  · exact fun h k => ⟨_, rfl, h k⟩

theorem rotates_append (h : ∀ m ∈ linesBy fileEnd (universal content), around (pieces m) = none) :
    Rotates (lastAssigned r) content ↔ ∀ m ∈ linesBy fileEnd content, ¬assigns m → '\r' ∉ m := by
  have hone (k : Key) : Rotated (lastAssigned r) k content (rotated k content) ↔
      ∀ m ∈ linesBy fileEnd content, ¬assigns m → '\r' ∉ m := by
    have hnew : assigns (assignment ++ k.1 ++ ['\n']) = true := by
      rw [← assigned_isSome r, assigned_new]
      rfl
    have heffective : lastAssigned r (rotated k content) = some k.1 := by
      rw [lastAssigned, rotated_append k h, List.filterMap_append, List.filterMap_cons_some (assigned_new r k),
        List.filterMap_nil, List.getLast?_concat]
    have hothers : others (rotated k content) =
        (closeLast (linesBy fileEnd (universal content))).filter fun l => !assigns l := by
      rw [others, rotated_append k h, List.filter_append, List.filter_cons_of_neg (by rw [hnew]; decide),
        List.filter_nil, List.append_nil]
    rw [Rotated, hothers, others, sameLines_iff (fun _ hm => hm) (kept_closeLast content)]
    exact and_iff_right heffective
  rw [rotates_def, forall_congr' hone]
  exact forall_const Key

/-- Whether a line assigns once a new key is in it does not turn on the key. -/
theorem assigned_uniform (a : List Char × List Char) (k k' : Key) :
    (assigned r (a.1 ++ assignment ++ k.1 ++ a.2)).isSome = (assigned r (a.1 ++ assignment ++ k'.1 ++ a.2)).isSome := by
  have hbody (k : Key) : body (a.1 ++ assignment ++ k.1 ++ a.2) = (a.1 ++ assignment) ++ (k.1 ++ body a.2) := by
    rw [List.append_assoc, body_keep]
    · rw [body_append_open (key_open k)]
    · rw [body_append_open (key_open k)]
      exact List.append_ne_nil_of_left_ne_nil k.2.1 _
  have hequals : '=' ∈ a.1 ++ assignment := List.mem_append_right _ (List.mem_append_right _ List.mem_cons_self)
  rw [assigned, assigned, Option.isSome_map, Option.isSome_map, hbody, hbody]
  exact behindKey_isSome hequals

/-- A value behind which nothing is assigned is the effective one whatever the key only where it is the key. -/
theorem effective_iff {before after : List (List Char)} {line : Key → List Char}
    (huniform : ∀ k k', (assigned r (line k)).isSome = (assigned r (line k')).isSome) :
    (∀ k, ((before ++ line k :: after).filterMap (assigned r)).getLast? = some k.1) ↔
      (∀ k, assigned r (line k) = some k.1) ∧ ∀ m ∈ after, ¬assigns m := by
  constructor
  · intro h
    have hafter : after.filterMap (assigned r) = [] := by
      by_contra hne
      have hlast (k : Key) : (after.filterMap (assigned r)).getLast? = some k.1 := by
        rw [← h k, List.filterMap_append, ← List.singleton_append, List.filterMap_append,
          List.getLast?_append_of_ne_nil _ (List.append_ne_nil_of_right_ne_nil _ hne),
          List.getLast?_append_of_ne_nil _ hne]
      exact keyA_ne (Option.some_inj.mp ((hlast keyA).symm.trans (hlast keyB)))
    have hassigns : ∀ m ∈ after, ¬assigns m := fun m hm => by
      rw [← assigned_isSome r, List.filterMap_eq_nil_iff.mp hafter m hm]
      exact Bool.false_ne_true
    refine ⟨fun k => ?_, hassigns⟩
    cases hk : assigned r (line k) with
    | none =>
      have hlast (k' : Key) : (before.filterMap (assigned r)).getLast? = some k'.1 := by
        have hk' : assigned r (line k') = none := by
          rw [← Option.not_isSome_iff_eq_none, huniform k' k, hk]
          exact Bool.false_ne_true
        rw [← h k', List.filterMap_append, List.filterMap_cons_none hk', hafter, List.append_nil]
      exact absurd (Option.some_inj.mp ((hlast keyA).symm.trans (hlast keyB))) keyA_ne
    | some v =>
      have hlast := h k
      rw [List.filterMap_append, List.filterMap_cons_some hk, hafter, List.getLast?_concat] at hlast
      exact hlast
  · rintro ⟨hline, hafter⟩ k
    have hnone : after.filterMap (assigned r) = [] := by
      refine List.filterMap_eq_nil_iff.mpr fun m hm => ?_
      rw [← Option.not_isSome_iff_eq_none, assigned_isSome]
      exact hafter m hm
    rw [List.filterMap_append, List.filterMap_cons_some (hline k), hnone, List.getLast?_concat]

theorem rotates_replace {l : List Char} {before after : List (List Char)} {a : List Char × List Char}
    (hlines : linesBy fileEnd (universal content) = before ++ l :: after)
    (hbefore : ∀ m ∈ before, around (pieces m) = none) (ha : around (pieces l) = some a) :
    Rotates (lastAssigned r) content ↔ (∀ m ∈ linesBy fileEnd content, ¬assigns m → '\r' ∉ m) ∧ assigns l ∧
      (∀ k : Key, assigned r (a.1 ++ assignment ++ k.1 ++ a.2) = some k.1) ∧ ∀ m ∈ after, ¬assigns m := by
  choose line hline hbody using fun k => rotated_replace k hlines hbefore ha
  have hassigned (k : Key) : assigned r (line k) = assigned r (a.1 ++ assignment ++ k.1 ++ a.2) := assigned_congr (hbody k)
  have heffective : (∀ k, lastAssigned r (rotated k content) = some k.1) ↔
      (∀ k : Key, assigned r (a.1 ++ assignment ++ k.1 ++ a.2) = some k.1) ∧ ∀ m ∈ after, ¬assigns m := by
    simp only [lastAssigned, hline, ← hassigned]
    refine effective_iff fun k k' => ?_
    rw [hassigned, hassigned]
    exact assigned_uniform a k k'
  rw [linesBy_universal] at hlines
  obtain ⟨msBefore, rest, hms, hmap, hrest⟩ := List.map_eq_append_iff.mp hlines
  obtain ⟨m, msAfter, rfl, hm, hmap'⟩ := List.map_eq_cons_iff.mp hrest
  subst hmap hmap' hm
  have hmem : m ∈ linesBy fileEnd content := hms ▸ List.mem_append_right _ List.mem_cons_self
  have hassigns : assigns (normal m) = assigns m := by rw [assigns, assigns, (normal_line hmem).1]
  have hkept := List.rel_append (kept_normal msBefore) (kept_normal msAfter)
  have hmems : ∀ x ∈ msBefore ++ msAfter, x ∈ linesBy fileEnd content := fun x hx => hms ▸ by
    obtain hx | hx := List.mem_append.mp hx
    · exact List.mem_append_left _ hx
    · exact List.mem_append_right _ (List.mem_cons_of_mem _ hx)
  have hsame := sameLines_iff hmems hkept
  have hfeeds (hm : assigns m) : (∀ x ∈ linesBy fileEnd content, ¬assigns x → '\r' ∉ x) ↔
      ∀ x ∈ msBefore ++ msAfter, ¬assigns x → '\r' ∉ x := by
    rw [hms]
    simp only [List.mem_append, List.mem_cons]
    constructor
    · exact fun h x hx => h x (hx.imp_right .inr)
    · rintro h x (hx | rfl | hx) hno
      · exact h x (.inl hx) hno
      · exact absurd hm hno
      · exact h x (.inr hx) hno
  have hothers (hm : assigns m) (k : Key) (hk : assigns (line k)) :
      List.Forall₂ SameLine (others content) (others (rotated k content)) ↔
        ∀ x ∈ linesBy fileEnd content, ¬assigns x → '\r' ∉ x := by
    rw [hfeeds hm, ← hsame, others, others, hline k, hms, List.filter_append, List.filter_append, List.filter_append,
      List.filter_append, List.filter_cons_of_neg (by rw [hm]; decide), List.filter_cons_of_neg (by rw [hk]; decide)]
  rw [rotates_def]
  constructor
  · intro h
    obtain ⟨hk, hafter⟩ := heffective.mp fun k => (h k).1
    have hline' : assigns (line keyA) = true := by
      rw [← assigned_isSome r, hassigned, hk]
      rfl
    have hm : assigns m = true := by
      by_contra hno
      -- the line with the new key is one of the others no more, so that there are too few of them
      have hfewer := (h keyA).2.length_eq
      have hsame := (forall₂_filter hkept fun x hx y hy => congrArg not (hy.assigns (hmems x hx))).length_eq
      rw [others, others, hline keyA, hms, List.filter_append, List.filter_append,
        List.filter_cons_of_pos (by rw [Bool.eq_false_iff.mpr hno]; decide),
        List.filter_cons_of_neg (by rw [hline']; decide), List.length_append, List.length_append, List.length_cons] at hfewer
      rw [List.filter_append, List.filter_append, List.length_append, List.length_append] at hsame
      omega
    exact ⟨(hothers hm keyA hline').mp (h keyA).2, hassigns ▸ hm, hk, hafter⟩
  · rintro ⟨hfeed, hl, hk, hafter⟩ k
    have hline' : assigns (line k) = true := by
      rw [← assigned_isSome r, hassigned, hk]
      rfl
    exact ⟨heffective.mpr ⟨hk, hafter⟩ k, (hothers (hassigns ▸ hl) k hline').mpr hfeed⟩

theorem first_around (ls : List (List Char)) : (∀ m ∈ ls, around (pieces m) = none) ∨
    ∃ before l after a, ls = before ++ l :: after ∧ (∀ m ∈ before, around (pieces m) = none) ∧
      around (pieces l) = some a := by
  induction ls with
  | nil => exact .inl (List.forall_mem_nil _)
  | cons l ls ih =>
    cases hl : around (pieces l) with
    | some a => exact .inr ⟨[], l, ls, a, rfl, List.forall_mem_nil _, hl⟩
    | none =>
      obtain h | ⟨before, l', after, a, rfl, hbefore, ha⟩ := ih
      · exact .inl (List.forall_mem_cons.mpr ⟨hl, h⟩)
      · exact .inr ⟨l :: before, l', after, a, rfl, List.forall_mem_cons.mpr ⟨hl, hbefore⟩, ha⟩

theorem rotates_lastAssigned_iff (r : Values) (content : List Char) :
    Rotates (lastAssigned r) content ↔ Rotatable r content := by
  obtain hnone | ⟨before, l, after, a, hlines, hbefore, ha⟩ := first_around (linesBy fileEnd (universal content))
  · rw [rotates_append hnone]
    refine ⟨fun h => ⟨h, fun before l after a hlines _ ha => ?_⟩, Rotatable.feeds⟩
    have hl := hnone l (hlines ▸ List.mem_append_right _ List.mem_cons_self)
    rw [hl] at ha
    cases ha
  · constructor
    · intro h
      refine ⟨((rotates_replace hlines hbefore ha).mp h).1, fun before' l' after' a' hlines' hbefore' ha' => ?_⟩
      exact ((rotates_replace hlines' hbefore' ha').mp h).2
    · intro h
      exact (rotates_replace hlines hbefore ha).mpr ⟨h.feeds, h.first _ _ _ _ hlines hbefore ha⟩

theorem plainLine_congr {l l' : List Char} (h : body l = body l') : plainLine l = plainLine l' := by
  rw [plainLine, plainLine, assigns, assigns, h]

theorem Kept.plainLine {m l' : List Char} (h : Kept m l') (hm : m ∈ linesBy fileEnd content) :
    RotateKey.plainLine m = RotateKey.plainLine l' := by
  obtain ⟨hbody, -⟩ := normal_line hm
  obtain rfl | ⟨hopen, rfl⟩ := h
  · exact plainLine_congr hbody.symm
  · exact plainLine_congr (by rw [body_append hopen.2 (by decide), ← hbody, body_open hopen.2])

theorem key_plain (k : Key) {c : Char} (hc : c ∈ k.1) : isSpace c = false ∧ c ≠ '"' ∧ c ≠ '\'' ∧ c ≠ '$' := by
  have hkey := k.2.2 c hc
  refine ⟨?_, ?_, ?_, ?_⟩
  · rw [Bool.eq_false_iff]
    intro hspace
    obtain halnum | rfl | rfl := hkey
    · rw [not_alphanum_of_space hspace] at halnum
      cases halnum
    · exact absurd hspace (by decide)
    · exact absurd hspace (by decide)
  all_goals
    rintro rfl
    exact absurd hkey (by decide)

theorem closedValue_key (k : Key) : closedValue k.1 = true := by
  obtain ⟨key, hne, hkey⟩ := k
  obtain ⟨c, cs, rfl⟩ := List.exists_cons_of_ne_nil hne
  obtain ⟨hspace, hdouble, hsingle, -⟩ := key_plain ⟨c :: cs, hne, hkey⟩ List.mem_cons_self
  unfold closedValue
  rw [List.dropWhile_cons_of_neg (by rw [hspace]; decide)]
  dsimp only
  rw [if_neg (not_or.mpr ⟨hdouble, hsingle⟩)]

theorem plainLine_new (k : Key) : plainLine (assignment ++ k.1 ++ ['\n']) = true := by
  have hstart : (assignment ++ k.1).dropWhile isSpace = assignment ++ k.1 := by
    rw [assignment, keyName_eq]
    rfl
  have hequals : (assignment ++ k.1).contains '=' = true := by
    rw [assignment, keyName_eq]
    rfl
  have hname : (assignment ++ k.1).takeWhile (· ≠ '=') = keyName := by
    rw [assignment, keyName_eq]
    rfl
  have hvalue : ((assignment ++ k.1).dropWhile (· ≠ '=')).tail = k.1 := by
    rw [assignment, keyName_eq]
    rfl
  have hdollar : (assignment ++ k.1).contains '$' = false := by
    rw [List.contains_eq_mem, decide_eq_false_iff_not]
    intro hmem
    obtain hmem | hmem := List.mem_append.mp hmem
    · rw [assignment, keyName_eq] at hmem
      exact absurd hmem (by decide)
    · exact (key_plain k hmem).2.2.2 rfl
  have hplain : plainName keyName = true := by
    rw [keyName_eq]
    decide
  unfold plainLine
  rw [body_new, hstart]
  dsimp only
  rw [hequals, hname, hplain, hvalue, closedValue_key, hdollar, Bool.and_false]
  exact Bool.or_true _

theorem Plain.rotated (h : Plain content) (k : Key) :
    ∀ l ∈ linesBy fileEnd (RotateKey.rotated k content), plainLine l = true := by
  obtain hnone | ⟨before, l, after, a, hlines, hbefore, ha⟩ := first_around (linesBy fileEnd (universal content))
  · rw [rotated_append k hnone]
    intro l' hl'
    obtain hl' | hl' := List.mem_append.mp hl'
    · obtain ⟨m, hm, hkept⟩ := forall₂_mem_right (kept_closeLast content) l' hl'
      rw [← hkept.plainLine hm]
      exact h.lines m hm
    · rw [List.mem_singleton.mp hl']
      exact plainLine_new k
  · obtain ⟨line, hline, hbody⟩ := rotated_replace k hlines hbefore ha
    have hread : before ++ l :: after = (linesBy fileEnd content).map normal := by rw [← hlines, linesBy_universal]
    have hkeep {m : List Char} (hm : m ∈ before ++ l :: after) : plainLine m = true := by
      rw [hread] at hm
      obtain ⟨m', hm', rfl⟩ := List.mem_map.mp hm
      rw [plainLine_congr (normal_line hm').1]
      exact h.lines m' hm'
    rw [hline]
    intro l' hl'
    obtain hl' | hl' := List.mem_append.mp hl'
    · exact hkeep (List.mem_append_left _ hl')
    · obtain rfl | hl' := List.mem_cons.mp hl'
      · have hl : l ∈ (linesBy fileEnd content).map normal :=
          hread ▸ List.mem_append_right _ List.mem_cons_self
        obtain ⟨m, hm, rfl⟩ := List.mem_map.mp hl
        rw [plainLine_congr hbody]
        exact h.replaced m hm a ha k
      · exact hkeep (List.mem_append_right _ (List.mem_cons_of_mem _ hl'))

/-- The rotation of a file of plain lines puts the new key in effect and keeps the other lines exactly
where it is rotatable. -/
theorem rotates_iff (r : Reader) (content : List Char) (h : Plain content) :
    Rotates r.effective content ↔ Rotatable r.toValues content := by
  rw [← rotates_lastAssigned_iff, rotates_def, rotates_def]
  refine forall_congr' fun k => ?_
  rw [Rotated, Rotated, r.effective_plain _ (h.rotated k)]

/-- A reader for which every value stands for itself. -/
def plainReader : Reader where
  value := id
  value_key _ := rfl
  effective := lastAssigned ⟨id, fun _ => rfl⟩
  effective_plain _ _ := rfl

def settingsFile : List Char := "# app\nAPI_SECRET_KEY=old\nNAME='alfred' # dev\n".toList

theorem lines_settingsFile : linesBy fileEnd settingsFile =
    ["# app\n".toList, "API_SECRET_KEY=old\n".toList, "NAME='alfred' # dev\n".toList] := by decide

theorem around_settingsFile : ∀ l ∈ linesBy fileEnd settingsFile,
    normal l = l ∧ (around (pieces l) = none ∨ l = "API_SECRET_KEY=old\n".toList ∧ around (pieces l) = some ([], [])) := by
  rw [lines_settingsFile]
  decide

theorem body_alone (k : Key) : body ([] ++ assignment ++ k.1 ++ []) = body (assignment ++ k.1 ++ ['\n']) := by
  rw [List.nil_append, List.append_nil, body_new]
  refine body_open fun x hx => ?_
  obtain hx | hx := List.mem_append.mp hx
  · exact assignment_open x hx
  · exact key_open k x hx

theorem plain_settingsFile : Plain settingsFile where
  lines := by
    rw [lines_settingsFile]
    decide
  replaced l hl a ha k := by
    obtain ⟨hnormal, hnone | ⟨-, hwhole⟩⟩ := around_settingsFile l hl
    · rw [hnormal, hnone] at ha
      cases ha
    · rw [hnormal, hwhole] at ha
      cases ha
      rw [plainLine_congr (body_alone k), plainLine_new]

theorem rotatable_settingsFile : Rotatable plainReader.toValues settingsFile where
  feeds := by
    rw [lines_settingsFile]
    decide
  first before l after a hlines hbefore ha := by
    have hread : universal settingsFile = settingsFile := by decide
    rw [hread, lines_settingsFile] at hlines
    obtain _ | ⟨b, _ | ⟨b', before⟩⟩ := before
    · obtain ⟨rfl, -⟩ := List.cons.inj hlines
      have hnone : around (pieces "# app\n".toList) = none := by decide
      rw [hnone] at ha
      cases ha
    · obtain ⟨-, htail⟩ := List.cons.inj hlines
      obtain ⟨rfl, rfl⟩ := List.cons.inj htail
      have hwhole : around (pieces "API_SECRET_KEY=old\n".toList) = some ([], []) := by decide
      obtain rfl := Option.some_inj.mp (hwhole.symm.trans ha)
      refine ⟨by decide, fun k => ?_, by decide⟩
      rw [assigned_congr (body_alone k), assigned_new]
    · obtain ⟨-, htail⟩ := List.cons.inj hlines
      obtain ⟨rfl, -⟩ := List.cons.inj htail
      exact absurd (hbefore _ (List.mem_cons_of_mem _ List.mem_cons_self)) (by decide)

/-- With a comment before the assignment and a quoted value behind it the new key is in effect. -/
theorem settings_rotate : Plain settingsFile ∧ Rotates plainReader.effective settingsFile :=
  ⟨plain_settingsFile, (rotates_iff plainReader settingsFile plain_settingsFile).mpr rotatable_settingsFile⟩

/-- A second assignment stays behind the first and keeps the old key in effect. -/
theorem duplicate_stays : ¬Rotates plainReader.effective "API_SECRET_KEY=old\nAPI_SECRET_KEY=older\n".toList := by
  intro h
  obtain ⟨after, hafter, heffective, -⟩ := h keyA
  obtain rfl : rotated keyA _ = after := Option.some_inj.mp hafter
  revert heffective
  decide

end Rotation

end AlfredProcessing.Scripts.RotateKey
