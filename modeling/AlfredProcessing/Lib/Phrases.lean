import AlfredProcessing.Lib.Regex

namespace AlfredProcessing.Lib.Phrases

open Lib.Regex

/-- Which characters stand for a letter of a pattern, which are white space and which make up words. White space
stands for white space only, and is in no word. -/
structure Reading where
  stands : Char → Char → Bool
  space : Char → Bool
  word : Char → Bool
  clear : ∀ c k, space c = true → space k = false → stands c k = false
  apart : ∀ c, space c = true → word c = false

/-- A letter, `\s+`, `\s*` or `\b`. -/
inductive Piece where
  | letter (k : Char)
  | gap
  | anyGap
  | border
  deriving DecidableEq

inductive Pattern where
  | empty
  | piece (x : Piece)
  | seq (r s : Pattern)
  | alt (r s : Pattern)

abbrev Phrase := List Piece

def opens : Phrase → Bool
  | .letter _ :: _ => true
  | _ => false

variable (R : Reading)

def Reading.between (prev next : Option Char) : Bool := prev.any R.word != next.any R.word

def Piece.expr : Piece → Expr
  | .letter k => .char fun c => R.stands c k
  | .gap => .plus (.char R.space)
  | .anyGap => .many (.char R.space)
  | .border => .look fun prev cs => R.between prev cs.head?

namespace Pattern

def word (cs : List Char) : Pattern := cs.foldr (fun k r => .seq (.piece (.letter k)) r) .empty

def gap : Pattern := .piece .gap

def anyGap : Pattern := .piece .anyGap

def border : Pattern := .piece .border

def opt (r : Pattern) : Pattern := .alt r .empty

def oneOf (r : Pattern) (rs : List Pattern) : Pattern := rs.foldl .alt r

def seqs (rs : List Pattern) : Pattern := rs.foldr .seq .empty

def expr : Pattern → Expr
  | .empty => .empty
  | .piece x => x.expr R
  | .seq r s => .seq r.expr s.expr
  | .alt r s => .alt r.expr s.expr

end Pattern

/-- The phrase is read from a place on, all the white space that there is for a gap. -/
def follows : Phrase → Option Char → List Char → Bool
  | [], _, _ => true
  | .letter _ :: _, _, [] => false
  | .letter k :: ps, _, c :: cs => R.stands c k && follows ps (some c) cs
  | .gap :: ps, _, cs => cs.head?.any R.space && follows ps none (cs.dropWhile R.space)
  | .anyGap :: ps, _, cs => follows ps none (cs.dropWhile R.space)
  | .border :: ps, prev, cs => R.between prev cs.head? && follows ps prev cs

structure Alike (c d : Char) : Prop where
  stands : ∀ k, R.stands c k = R.stands d k
  word : R.word c = R.word d

/-- The same words in another look: letters in the place of those that are like them, and as much white space as there
may be wherever there is some. -/
inductive Restyled : List Char → List Char → Prop where
  | nil : Restyled [] []
  | letter {c d : Char} {xs ys : List Char} : R.space c = false → R.space d = false → Alike R c d → Restyled xs ys →
      Restyled (c :: xs) (d :: ys)
  | gap {us vs xs ys : List Char} : us ≠ [] → vs ≠ [] → (∀ u ∈ us, R.space u = true) → (∀ v ∈ vs, R.space v = true) →
      Restyled xs ys → Restyled (us ++ xs) (vs ++ ys)

variable {R} {r : Pattern} {ps qs : Phrase} {prev prev' : Option Char} {cs xs ys post : List Char} {a b : Place} {c : Char}

section Matching

end Matching

section Restyling

theorem Restyled.refl (cs : List Char) : Restyled R cs cs := by
  induction cs with
  | nil => exact .nil
  | cons c cs ih =>
    cases hc : R.space c with
    | false => exact .letter hc hc ⟨fun _ => rfl, rfl⟩ ih
    | true =>
      have hall : ∀ u ∈ [c], R.space u = true := fun u hu => List.mem_singleton.mp hu ▸ hc
      exact .gap (List.cons_ne_nil _ _) (List.cons_ne_nil _ _) hall hall ih

theorem Restyled.cons (h : Restyled R (c :: xs) ys) (hc : R.space c = false) :
    ∃ d ys', ys = d :: ys' ∧ Alike R c d ∧ Restyled R xs ys' := by
  generalize hcs : c :: xs = cs at h
  cases h with
  | nil => cases hcs
  | @letter _ d _ ys' _ _ halike hrest =>
    obtain ⟨rfl, rfl⟩ := List.cons.inj hcs
    exact ⟨d, ys', rfl, halike, hrest⟩
  | gap hus _ hspace _ _ =>
    obtain ⟨u, us, rfl⟩ := List.exists_cons_of_ne_nil hus
    obtain ⟨rfl, -⟩ := List.cons.inj hcs
    rw [hspace c List.mem_cons_self] at hc
    cases hc

theorem Restyled.behind {zs : List Char} (h : Restyled R zs ys) (hzs : zs = xs ++ c :: cs) (hc : R.space c = false) :
    ∃ xs' ys', ys = xs' ++ ys' ∧ Restyled R (c :: cs) ys' := by
  induction h generalizing xs with
  | nil => exact absurd hzs.symm (List.append_ne_nil_of_right_ne_nil _ (List.cons_ne_nil _ _))
  | @letter e d zs ys he hd halike hrest ih =>
    cases xs with
    | nil =>
      obtain ⟨rfl, rfl⟩ := List.cons.inj hzs
      exact ⟨[], d :: ys, rfl, .letter he hd halike hrest⟩
    | cons x xs =>
      obtain ⟨-, hzs⟩ := List.cons.inj hzs
      obtain ⟨xs', ys', rfl, hsame⟩ := ih hzs
      exact ⟨d :: xs', ys', rfl, hsame⟩
  | @gap us vs zs ys _ _ hspace _ _ ih =>
    have hrest : ∃ xs', zs = xs' ++ c :: cs := by
      obtain ⟨xs', -, hzs⟩ | ⟨mid, hus, hmid⟩ := List.append_eq_append_iff.mp hzs
      · exact ⟨xs', hzs⟩
      · cases mid with
        | nil => exact ⟨[], hmid.symm⟩
        | cons m mid =>
          obtain ⟨rfl, -⟩ := List.cons.inj hmid
          rw [hspace c (hus ▸ List.mem_append_right _ List.mem_cons_self)] at hc
          cases hc
    obtain ⟨xs', hzs⟩ := hrest
    obtain ⟨xs', ys', rfl, hsame⟩ := ih hzs
    exact ⟨vs ++ xs', ys', (List.append_assoc _ _ _).symm, hsame⟩

theorem Restyled.dropWhile (h : Restyled R xs ys) : Restyled R (xs.dropWhile R.space) (ys.dropWhile R.space) := by
  induction h with
  | nil => exact .nil
  | letter hc hd halike hrest _ =>
    rw [List.dropWhile_cons_of_neg (by rw [hc]; exact Bool.false_ne_true),
      List.dropWhile_cons_of_neg (by rw [hd]; exact Bool.false_ne_true)]
    exact .letter hc hd halike hrest
  | gap _ _ hus hvs _ ih =>
    rw [List.dropWhile_append_of_pos hus, List.dropWhile_append_of_pos hvs]
    exact ih

theorem Restyled.head (h : Restyled R xs ys) :
    xs.head?.any R.space = ys.head?.any R.space ∧ xs.head?.any R.word = ys.head?.any R.word := by
  cases h with
  | nil => exact ⟨rfl, rfl⟩
  | letter hc hd halike _ => exact ⟨hc.trans hd.symm, halike.word⟩
  | gap hus hvs husspace hvsspace _ =>
    obtain ⟨u, us, rfl⟩ := List.exists_cons_of_ne_nil hus
    obtain ⟨v, vs, rfl⟩ := List.exists_cons_of_ne_nil hvs
    have hu := husspace u List.mem_cons_self
    have hv := hvsspace v List.mem_cons_self
    exact ⟨hu.trans hv.symm, (R.apart u hu).trans (R.apart v hv).symm⟩

end Restyling

end AlfredProcessing.Lib.Phrases
