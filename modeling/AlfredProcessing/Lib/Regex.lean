import Mathlib.Data.List.Basic

namespace AlfredProcessing.Lib.Regex

/-- A regular expression. A look takes no character and asks what stands before and behind. -/
inductive Expr where
  | char (p : Char → Bool)
  | look (p : Option Char → List Char → Bool)
  | empty
  | seq (r s : Expr)
  | alt (r s : Expr)
  | many (r : Expr)
  | few (r : Expr)

/-- A place in a text: the character before it and the text behind it. -/
abbrev Place := Option Char × List Char

/-- As often as possible first. Every turn takes a character at least. -/
def greedy (f : Place → List Place) : Nat → Place → List Place
  | 0, a => [a]
  | n + 1, a => ((f a).filter fun b => b.2.length < a.2.length).flatMap (greedy f n) ++ [a]

def reluctant (f : Place → List Place) : Nat → Place → List Place
  | 0, a => [a]
  | n + 1, a => a :: ((f a).filter fun b => b.2.length < a.2.length).flatMap (reluctant f n)

namespace Expr

/-- The places where a match may end, the preferred one first. -/
def ends : Expr → Place → List Place
  | .char p, a =>
    match a.2 with
    | c :: cs => if p c then [(some c, cs)] else []
    | [] => []
  | .look p, a => if p a.1 a.2 then [a] else []
  | .empty, a => [a]
  | .seq r s, a => (ends r a).flatMap (ends s)
  | .alt r s, a => ends r a ++ ends s a
  | .many r, a => greedy (ends r) a.2.length a
  | .few r, a => reluctant (ends r) a.2.length a

def text (cs : List Char) : Expr := cs.foldr (fun c r => .seq (.char (· = c)) r) .empty

def plus (r : Expr) : Expr := .seq r (.many r)

def opt (r : Expr) : Expr := .alt r .empty

/-- At most so often, as seldom as possible first. -/
def fewUpTo (r : Expr) : Nat → Expr
  | 0 => .empty
  | n + 1 => .alt .empty (.seq r (fewUpTo r n))

def oneOf (rs : List Expr) : Expr := rs.foldr .alt (.look fun _ _ => false)

def seqs (rs : List Expr) : Expr := rs.foldr .seq .empty

end Expr

/-- The first place, from one on, at which there is something. -/
def scan {α : Type} (f : Place → Option α) : Option Char → List Char → Option α
  | prev, [] => f (prev, [])
  | prev, c :: cs => (f (prev, c :: cs)).orElse fun _ => scan f (some c) cs

/-- `re.search`, as a condition. -/
def found (r : Expr) (cs : List Char) : Bool := (scan (fun a => (r.ends a).head?) none cs).isSome

/-- `re.match`, as a condition. -/
def matched (r : Expr) (cs : List Char) : Bool := !(r.ends (none, cs)).isEmpty

def between (a b : Place) : List Char := a.2.take (a.2.length - b.2.length)

/-- What the group of an expression holds after a match at a place. -/
def capture (before group behind : Expr) (a : Place) : Option (List Char) :=
  ((before.ends a).flatMap fun b => (group.ends b).flatMap fun c => (behind.ends c).map fun _ => between b c).head?

/-- The group of the first match, as `re.search` finds it. -/
def search (before group behind : Expr) (cs : List Char) : Option (List Char) :=
  scan (capture before group behind) none cs

/-- The number of matches that `re.findall` finds, of an expression that takes a character. -/
def countFrom (r : Expr) : Option Char → Nat → List Char → Nat
  | _, _, [] => 0
  | _, n + 1, c :: cs => countFrom r (some c) n cs
  | prev, 0, c :: cs =>
    match (r.ends (prev, c :: cs)).head? with
    | some b => countFrom r (some c) ((c :: cs).length - b.2.length - 1) cs + 1
    | none => countFrom r (some c) 0 cs

def count (r : Expr) (cs : List Char) : Nat := countFrom r none 0 cs

/-- The fewest characters of a kind, at most so many, behind which a text may stop. -/
def shortest (p : Char → Bool) (stop : Place → Bool) : Nat → Place → Option (List Char)
  | 0, a => if stop a then some [] else none
  | n + 1, a =>
    if stop a then some []
    else
      match a.2 with
      | c :: cs => if p c then (shortest p stop n (some c, cs)).map (c :: ·) else none
      | [] => none

variable {r : Expr} {a b : Place} {f : Place → List Place} {p : Char → Bool} {n : Nat} {cs : List Char}

theorem getLast?_cons_or (c : Char) (cs : List Char) (prev : Option Char) :
    (c :: cs).getLast?.or prev = cs.getLast?.or (some c) := by
  rw [List.getLast?_cons]
  cases cs.getLast? <;> rfl

theorem scan_none {α : Type} {f : Place → Option α} {prev : Option Char}
    (h : ∀ pre post, cs = pre ++ post → f (pre.getLast?.or prev, post) = none) : scan f prev cs = none := by
  induction cs generalizing prev with
  | nil => exact h [] [] rfl
  | cons c cs ih =>
    rw [scan, show f (prev, c :: cs) = none from h [] (c :: cs) rfl]
    refine ih fun pre post hcs => ?_
    rw [← getLast?_cons_or c pre prev]
    exact h (c :: pre) post (by rw [hcs, List.cons_append])

theorem scan_single {α : Type} {f : Place → Option α} {prev : Option Char} {pre post : List Char}
    (h : ∀ pre' post', pre ++ post = pre' ++ post' → pre' ≠ pre → f (pre'.getLast?.or prev, post') = none) :
    scan f prev (pre ++ post) = f (pre.getLast?.or prev, post) := by
  induction pre generalizing prev with
  | nil =>
    cases post with
    | nil => rfl
    | cons c cs =>
      have hrest : scan f (some c) cs = none := by
        refine scan_none fun pre' post' hcs => ?_
        rw [← getLast?_cons_or c pre' prev]
        exact h (c :: pre') post' (congrArg (c :: ·) hcs) (List.cons_ne_nil _ _)
      rw [List.nil_append, scan, hrest, List.getLast?_nil, Option.none_or]
      cases f (prev, c :: cs) <;> rfl
  | cons c pre ih =>
    rw [List.cons_append, scan, show f (prev, c :: (pre ++ post)) = none from
      h [] (c :: (pre ++ post)) rfl (List.cons_ne_nil _ _).symm, getLast?_cons_or]
    refine ih fun pre' post' hcs hne => ?_
    rw [← getLast?_cons_or c pre' prev]
    exact h (c :: pre') post' (congrArg (c :: ·) hcs) fun heq => hne (List.cons.inj heq).2

theorem ends_text (w : List Char) (prev : Option Char) (cs : List Char) : (Expr.text w).ends (prev, cs) =
    if w.isPrefixOf cs then [(w.getLast?.or prev, cs.drop w.length)] else [] := by
  induction w generalizing prev cs with
  | nil => rfl
  | cons x w ih =>
    cases cs with
    | nil => rfl
    | cons c cs =>
      have hends : (Expr.text (x :: w)).ends (prev, c :: cs) =
          (if decide (c = x) then [(some c, cs)] else []).flatMap (Expr.text w).ends := rfl
      rw [hends, List.isPrefixOf_cons_cons]
      by_cases hc : c = x
      · subst hc
        rw [if_pos (decide_eq_true rfl), List.flatMap_cons, List.flatMap_nil, List.append_nil, ih, getLast?_cons_or,
          List.length_cons, List.drop_succ_cons, beq_self_eq_true, Bool.true_and]
      · have hx : (x == c) = false := beq_eq_false_iff_ne.mpr (Ne.symm hc)
        rw [if_neg (by rw [decide_eq_false hc]; decide), hx, Bool.false_and]
        rfl

theorem greedy_flatMap {β : Type} {F : List Char → List β} (hF : ∀ c cs, p c = true → F (c :: cs) = [])
    {prev : Option Char} (hn : cs.length ≤ n) :
    (greedy (Expr.char p).ends n (prev, cs)).flatMap (fun b => F b.2) = F (cs.dropWhile p) := by
  induction cs generalizing n prev with
  | nil =>
    cases n with
    | zero => exact List.append_nil _
    | succ n => exact List.append_nil _
  | cons c cs ih =>
    obtain ⟨m, rfl⟩ : ∃ m, n = m + 1 := ⟨n - 1, by rw [List.length_cons] at hn; omega⟩
    rw [List.length_cons, Nat.add_le_add_iff_right] at hn
    by_cases hc : p c = true
    · have hends : (Expr.char p).ends (prev, c :: cs) = [(some c, cs)] := if_pos hc
      rw [greedy, hends, List.filter_cons_of_pos (by simp), List.filter_nil, List.flatMap_cons, List.flatMap_nil,
        List.append_nil, List.flatMap_append, ih hn, List.flatMap_cons, List.flatMap_nil, List.append_nil, hF c cs hc,
        List.append_nil, List.dropWhile_cons_of_pos hc]
    · have hends : (Expr.char p).ends (prev, c :: cs) = [] := if_neg hc
      rw [greedy, hends, List.filter_nil, List.flatMap_nil, List.nil_append, List.flatMap_cons, List.flatMap_nil,
        List.append_nil, List.dropWhile_cons_of_neg hc]

theorem plus_flatMap {β : Type} {F : List Char → List β} (hF : ∀ c cs, p c = true → F (c :: cs) = [])
    (prev : Option Char) (cs : List Char) : ((Expr.plus (.char p)).ends (prev, cs)).flatMap (fun b => F b.2) =
      if cs.head?.any p then F (cs.dropWhile p) else [] := by
  cases cs with
  | nil => rfl
  | cons c cs =>
    by_cases hc : p c = true
    · have hends : (Expr.plus (.char p)).ends (prev, c :: cs) = greedy (Expr.char p).ends cs.length (some c, cs) := by
        show ((if p c then [(some c, cs)] else []).flatMap (Expr.many (.char p)).ends : List Place) = _
        rw [if_pos hc]
        exact List.append_nil _
      rw [hends, greedy_flatMap hF (Nat.le_refl _), List.dropWhile_cons_of_pos hc]
      exact (if_pos hc).symm
    · have hends : (Expr.plus (.char p)).ends (prev, c :: cs) = [] := by
        show ((if p c then [(some c, cs)] else []).flatMap (Expr.many (.char p)).ends : List Place) = _
        rw [if_neg hc]
        rfl
      rw [hends]
      exact (if_neg hc).symm

theorem fewUpTo_head {behind : Expr} {stop : Place → Bool} (hbehind : ∀ a, behind.ends a = if stop a then [a] else [])
    (prev : Option Char) (before : List Char) (a : Place) :
    (((Expr.fewUpTo (.char p) n).ends a).flatMap fun c =>
      (behind.ends c).map fun _ => between (prev, before ++ a.2) c).head? =
        (shortest p stop n a).map (before ++ ·) := by
  have hhere (a : Place) (before : List Char) : between (prev, before ++ a.2) a = before := by
    rw [between, List.length_append, Nat.add_sub_cancel, List.take_left]
  induction n generalizing a before with
  | zero =>
    show ((([a] : List Place).flatMap _).head?) = _
    rw [List.flatMap_cons, List.flatMap_nil, List.append_nil, hbehind, shortest]
    split_ifs
    · rw [List.map_cons, hhere, Option.map_some, List.append_nil]
      rfl
    · rfl
  | succ n ih =>
    have hends : (Expr.fewUpTo (.char p) (n + 1)).ends a =
        a :: ((Expr.char p).ends a).flatMap (Expr.fewUpTo (.char p) n).ends := rfl
    rw [hends, List.flatMap_cons, hbehind, shortest]
    split_ifs with hstop
    · rw [List.map_cons, hhere, Option.map_some, List.append_nil]
      rfl
    · rw [List.map_nil, List.nil_append]
      obtain ⟨prev', cs⟩ := a
      cases cs with
      | nil => rfl
      | cons c cs =>
        by_cases hc : p c = true
        · have hchar : (Expr.char p).ends (prev', c :: cs) = [(some c, cs)] := if_pos hc
          have hnext := ih (before ++ [c]) (some c, cs)
          rw [List.append_assoc, List.singleton_append] at hnext
          rw [hchar, List.flatMap_cons, List.flatMap_nil, List.append_nil, hnext]
          dsimp only
          rw [if_pos hc, Option.map_map]
          refine congrArg (fun f => Option.map f _) (funext fun t => ?_)
          exact List.append_assoc before [c] t
        · have hchar : (Expr.char p).ends (prev', c :: cs) = [] := if_neg hc
          rw [hchar]
          dsimp only
          rw [if_neg hc]
          rfl

end AlfredProcessing.Lib.Regex
