import AlfredProcessing.Lib.Json
import Mathlib.Data.List.Sort

namespace AlfredProcessing.Lib.JsonDump

open Json

def isHigh (n : Nat) : Bool := 0xD800 ≤ n && n < 0xDC00

def isLow (n : Nat) : Bool := 0xDC00 ≤ n && n < 0xE000

/-- A string of code points where no two surrogates stand for one character. -/
def wellFormed : Str → Bool
  | [] => true
  | [n] => n < 0x110000
  | n :: m :: s => n < 0x110000 && !(isHigh n && isLow m) && wellFormed (m :: s)

abbrev Text := { s : Str // wellFormed s }

def numberChar (c : Char) : Bool := c.isDigit || c = '-' || c = '+' || c = '.' || c = 'e'

/-- A finite float, known by the text that `repr` gives for it. -/
structure Decimal where
  text : List Char
  chars : text.all numberChar
  real : text.any fun c => c = '.' || c = 'e'
  deriving DecidableEq

def Decimal.isZero (x : Decimal) : Bool :=
  (x.text.takeWhile (· ≠ 'e')).all fun c => c = '0' || c = '.' || c = '-'

/-- A JSON value. The entries of a dictionary are in insertion order. -/
inductive Tree where
  | null
  | bool (b : Bool)
  | int (n : Int)
  | float (x : Decimal)
  | str (s : Text)
  | list (xs : List Tree)
  | dict (es : List (Text × Tree))

def Tree.truthy : Tree → Bool
  | .null => false
  | .bool b => b
  | .int n => n != 0
  | .float x => !x.isZero
  | .str s => !s.1.isEmpty
  | .list xs => !xs.isEmpty
  | .dict es => !es.isEmpty

section Texts

/-- A string in UTF-16. -/
def units (s : Str) : Str :=
  s.flatMap fun n =>
    if n < 0x10000 then [n]
    else [0xD800 + (n - 0x10000) / 0x400, 0xDC00 + (n - 0x10000) % 0x400]

def hexDigit (n : Nat) : Char := if n < 10 then Char.ofNat (48 + n) else Char.ofNat (87 + n)

/-- `ensure_ascii`: what is no printable ASCII is escaped. -/
def escape (u : Nat) : List Char :=
  if u = 34 then ['\\', '"']
  else if u = 92 then ['\\', '\\']
  else if u = 10 then ['\\', 'n']
  else if u = 13 then ['\\', 'r']
  else if u = 9 then ['\\', 't']
  else if u = 12 then ['\\', 'f']
  else if u = 8 then ['\\', 'b']
  else if 32 ≤ u ∧ u ≤ 126 then [Char.ofNat u]
  else
    ['\\', 'u', hexDigit (u / 4096 % 16), hexDigit (u / 256 % 16), hexDigit (u / 16 % 16),
      hexDigit (u % 16)]

def quote (s : Str) : List Char := '"' :: ((units s).flatMap escape ++ ['"'])

def intText (n : Int) : List Char :=
  if n < 0 then '-' :: Nat.toDigits 10 n.natAbs else Nat.toDigits 10 n.natAbs

end Texts

mutual

/-- `json.dumps` on one line. -/
def dump : Tree → List Char
  | .null => ['n', 'u', 'l', 'l']
  | .bool true => ['t', 'r', 'u', 'e']
  | .bool false => ['f', 'a', 'l', 's', 'e']
  | .int n => intText n
  | .float x => x.text
  | .str s => quote s.1
  | .list xs => '[' :: dumpItems xs
  | .dict es => '{' :: dumpMembers es

def dumpItems : List Tree → List Char
  | [] => [']']
  | [t] => dump t ++ [']']
  | t :: u :: ts => dump t ++ ',' :: ' ' :: dumpItems (u :: ts)

def dumpMembers : List (Text × Tree) → List Char
  | [] => ['}']
  | [(k, t)] => quote k.1 ++ ':' :: ' ' :: (dump t ++ ['}'])
  | (k, t) :: e :: es => quote k.1 ++ ':' :: ' ' :: (dump t ++ ',' :: ' ' :: dumpMembers (e :: es))

end

/-- A new line of the layout with `indent=2`. -/
def newline (level : Nat) : List Char := '\n' :: List.replicate (2 * level) ' '

mutual

/-- `json.dumps` with `indent=2`, at some depth. -/
def dumpIndented (level : Nat) : Tree → List Char
  | .null => ['n', 'u', 'l', 'l']
  | .bool true => ['t', 'r', 'u', 'e']
  | .bool false => ['f', 'a', 'l', 's', 'e']
  | .int n => intText n
  | .float x => x.text
  | .str s => quote s.1
  | .list [] => ['[', ']']
  | .list (x :: xs) => '[' :: (newline (level + 1) ++ dumpIndentedItems level (x :: xs))
  | .dict [] => ['{', '}']
  | .dict (e :: es) => '{' :: (newline (level + 1) ++ dumpIndentedMembers level (e :: es))

def dumpIndentedItems (level : Nat) : List Tree → List Char
  | [] => newline level ++ [']']
  | [t] => dumpIndented (level + 1) t ++ newline level ++ [']']
  | t :: u :: ts =>
    dumpIndented (level + 1) t ++ ',' :: newline (level + 1) ++ dumpIndentedItems level (u :: ts)

def dumpIndentedMembers (level : Nat) : List (Text × Tree) → List Char
  | [] => newline level ++ ['}']
  | [(k, t)] => quote k.1 ++ ':' :: ' ' :: dumpIndented (level + 1) t ++ newline level ++ ['}']
  | (k, t) :: e :: es =>
    quote k.1 ++ ':' :: ' ' :: dumpIndented (level + 1) t ++ ',' :: newline (level + 1) ++
      dumpIndentedMembers level (e :: es)

end

/-- The order of Python on strings, by code points. -/
def codeLe : Str → Str → Bool
  | [], _ => true
  | _ :: _, [] => false
  | m :: s, n :: t => m < n || (m = n && codeLe s t)

def byKey (a b : Text × Tree) : Prop := codeLe a.1.1 b.1.1

instance : DecidableRel byKey := fun a b => inferInstanceAs (Decidable (codeLe a.1.1 b.1.1 = true))

mutual

/-- The value with the keys of every dictionary in order, as `sort_keys` writes it. -/
def sortKeys : Tree → Tree
  | .list xs => .list (sortItems xs)
  | .dict es => .dict ((sortMembers es).insertionSort byKey)
  | t => t

def sortItems : List Tree → List Tree
  | [] => []
  | t :: ts => sortKeys t :: sortItems ts

def sortMembers : List (Text × Tree) → List (Text × Tree)
  | [] => []
  | (k, t) :: es => (k, sortKeys t) :: sortMembers es

end

mutual

def Distinct : Tree → Prop
  | .list xs => DistinctItems xs
  | .dict es => (es.map Prod.fst).Nodup ∧ DistinctMembers es
  | _ => True

def DistinctItems : List Tree → Prop
  | [] => True
  | t :: ts => Distinct t ∧ DistinctItems ts

def DistinctMembers : List (Text × Tree) → Prop
  | [] => True
  | (_, t) :: es => Distinct t ∧ DistinctMembers es

end

/-- The same value but for the order of keys, at any depth. -/
inductive Reordered : Tree → Tree → Prop
  | refl (t : Tree) : Reordered t t
  | symm {t u : Tree} : Reordered t u → Reordered u t
  | trans {t u v : Tree} : Reordered t u → Reordered u v → Reordered t v
  | item (xs ys : List Tree) {t u : Tree} :
    Reordered t u → Reordered (.list (xs ++ t :: ys)) (.list (xs ++ u :: ys))
  | member (es fs : List (Text × Tree)) (k : Text) {t u : Tree} :
    Reordered t u → Reordered (.dict (es ++ (k, t) :: fs)) (.dict (es ++ (k, u) :: fs))
  | keys {es fs : List (Text × Tree)} :
    es.Perm fs → (es.map Prod.fst).Nodup → Reordered (.dict es) (.dict fs)

section Strings

theorem hexVal_hexDigit : ∀ n < 16, hexVal (hexDigit n) = some n := by decide

theorem toNat_ofNat_ascii : ∀ n < 127, (Char.ofNat n).toNat = n := by decide

theorem scanUnits_simple {e : Char} {u : Nat} (he : e ≠ 'u') (hu : escapeVal e = some u)
    (cs : List Char) :
    scanUnits ('\\' :: e :: cs) = (scanUnits cs).map fun p => (u :: p.1, p.2) := by
  cases h : scanUnits cs <;> simp [scanUnits, he, hu, h]

theorem scanUnits_plain {c : Char} (hquote : c ≠ '"') (hslash : c ≠ '\\') (hlow : ¬ c.toNat < 32)
    (cs : List Char) :
    scanUnits (c :: cs) = (scanUnits cs).map fun p => (c.toNat :: p.1, p.2) := by
  cases h : scanUnits cs <;> simp [scanUnits, hslash, hlow, h]

theorem scanUnits_escape {u : Nat} (hu : u < 0x10000) (cs : List Char) :
    scanUnits (escape u ++ cs) = (scanUnits cs).map fun p => (u :: p.1, p.2) := by
  unfold escape
  split_ifs with h1 h2 h3 h4 h5 h6 h7 h8
  iterate 7
    subst u
    exact scanUnits_simple (by decide) rfl cs
  · have hnat := toNat_ofNat_ascii u (by omega)
    have hquote : Char.ofNat u ≠ '"' := fun h => by rw [h] at hnat; exact h1 hnat.symm
    have hslash : Char.ofNat u ≠ '\\' := fun h => by rw [h] at hnat; exact h2 hnat.symm
    rw [List.singleton_append, scanUnits_plain hquote hslash (by omega), hnat]
  · have hunit : hexUnit (hexDigit (u / 4096 % 16)) (hexDigit (u / 256 % 16))
        (hexDigit (u / 16 % 16)) (hexDigit (u % 16)) = some u := by
      have hdigit : ∀ n, hexVal (hexDigit (n % 16)) = some (n % 16) := fun n =>
        hexVal_hexDigit _ (Nat.mod_lt _ (by decide))
      simp only [hexUnit, hdigit]
      exact congrArg some (by omega)
    simp only [List.cons_append, List.nil_append, scanUnits, hunit]
    cases scanUnits cs <;> rfl

theorem scanUnits_flatMap_escape {us : Str} (hus : ∀ u ∈ us, u < 0x10000) (rest : List Char) :
    scanUnits (us.flatMap escape ++ '"' :: rest) = some (us, rest) := by
  induction us with
  | nil => rfl
  | cons u us ih =>
    rw [List.flatMap_cons, List.append_assoc, scanUnits_escape (hus u List.mem_cons_self),
      ih fun v hv => hus v (List.mem_cons_of_mem u hv)]
    rfl

theorem units_cons (n : Nat) (s : Str) :
    units (n :: s) =
      (if n < 0x10000 then [n]
        else [0xD800 + (n - 0x10000) / 0x400, 0xDC00 + (n - 0x10000) % 0x400]) ++ units s := rfl

theorem units_lt {s : Str} (hs : wellFormed s) : ∀ u ∈ units s, u < 0x10000 := by
  have hpoint : ∀ n < 0x110000, ∀ u ∈ units [n], u < 0x10000 := by
    intro n hn u hu
    rw [units_cons] at hu
    split at hu <;> simp [units] at hu <;> omega
  induction s with
  | nil => simp [units]
  | cons n s ih =>
    have hn : n < 0x110000 ∧ wellFormed s := by
      cases s with
      | nil => exact ⟨by simpa [wellFormed] using hs, rfl⟩
      | cons m s =>
        simp only [wellFormed, Bool.and_eq_true, decide_eq_true_eq] at hs
        exact ⟨hs.1.1, hs.2⟩
    intro u hu
    rw [units_cons, List.mem_append] at hu
    obtain hu | hu := hu
    · exact hpoint n hn.1 u (by rw [units_cons]; exact List.mem_append_left _ hu)
    · exact ih hn.2 u hu

theorem joinSurrogates_cons {n : Nat} {us : Str}
    (h : ∀ l ∈ us.head?, ¬ (isHigh n ∧ isLow l)) :
    joinSurrogates (n :: us) = n :: joinSurrogates us := by
  cases us with
  | nil => rfl
  | cons l us =>
    have hl := h l rfl
    simp only [isHigh, isLow, Bool.and_eq_true, decide_eq_true_eq] at hl
    rw [joinSurrogates, if_neg (by omega)]

theorem joinSurrogates_units {s : Str} (hs : wellFormed s) : joinSurrogates (units s) = s := by
  induction s with
  | nil => rfl
  | cons n s ih =>
    have hrest : wellFormed s := by
      cases s with
      | nil => rfl
      | cons m s =>
        simp only [wellFormed, Bool.and_eq_true] at hs
        exact hs.2
    rw [units_cons]
    split
    · rw [List.singleton_append, joinSurrogates_cons, ih hrest]
      intro l hl
      cases s with
      | nil => cases hl
      | cons m s =>
        simp only [wellFormed, Bool.and_eq_true, Bool.not_eq_true', Bool.and_eq_false_iff] at hs
        rw [units_cons] at hl
        split at hl
        · obtain rfl : m = l := by simpa using hl
          rintro ⟨hn, hm⟩
          simp [hn, hm] at hs
        · next hm =>
          have hl' : 0xD800 + (m - 0x10000) / 0x400 = l := by simpa using hl
          have hbound : m < 0x110000 := by
            cases s <;> simp [wellFormed] at hs <;> omega
          rintro ⟨-, hlow⟩
          simp only [isLow, Bool.and_eq_true, decide_eq_true_eq] at hlow
          omega
    · next hn =>
      have hbound : n < 0x110000 := by
        cases s with
        | nil => simpa [wellFormed] using hs
        | cons m s =>
          simp only [wellFormed, Bool.and_eq_true, decide_eq_true_eq] at hs
          exact hs.1.1
      rw [List.cons_append, List.singleton_append, joinSurrogates, if_pos (by omega), ih hrest]
      have hjoin : 0x10000 + (0xD800 + (n - 0x10000) / 0x400 - 0xD800) * 0x400 +
          (0xDC00 + (n - 0x10000) % 0x400 - 0xDC00) = n := by omega
      rw [hjoin]

theorem quote_inj {s s' : Text} {r r' : List Char} (h : quote s.1 ++ r = quote s'.1 ++ r') :
    s = s' ∧ r = r' := by
  have hscan : ∀ (t : Text) (q : List Char),
      scanUnits (((units t.1).flatMap escape ++ ['"']) ++ q) = some (units t.1, q) := by
    intro t q
    rw [List.append_assoc]
    exact scanUnits_flatMap_escape (units_lt t.2) q
  have heq := (hscan s r).symm.trans ((congrArg scanUnits (List.cons.inj h).2).trans (hscan s' r'))
  have hunits := Prod.mk.inj (Option.some.inj heq)
  refine ⟨Subtype.ext ?_, hunits.2⟩
  rw [← joinSurrogates_units s.2, hunits.1, joinSurrogates_units s'.2]

end Strings

section Numbers

def Stops (r : List Char) : Prop := ∀ c ∈ r.head?, numberChar c = false

theorem numberText_inj {a b r r' : List Char} (ha : a.all numberChar) (hb : b.all numberChar)
    (hr : Stops r) (hr' : Stops r') (h : a ++ r = b ++ r') : a = b ∧ r = r' := by
  have htake : ∀ {x q : List Char}, x.all numberChar → Stops q →
      (x ++ q).takeWhile numberChar = x := by
    intro x q hx hq
    rw [List.takeWhile_append_of_pos (List.all_eq_true.mp hx)]
    cases q with
    | nil => simp
    | cons c q => simp [hq c rfl]
  have heq : a = b := by rw [← htake ha hr, h, htake hb hr']
  subst heq
  exact ⟨rfl, List.append_cancel_left h⟩

theorem digit_numberChar {c : Char} (h : c.isDigit) : numberChar c := by simp [numberChar, h]

theorem digits_toDigits (n : Nat) : ∀ c ∈ Nat.toDigits 10 n, c.isDigit := fun _ =>
  Nat.isDigit_of_mem_toDigits (by decide) (by decide)

theorem toDigits_inj {m n : Nat} (h : Nat.toDigits 10 m = Nat.toDigits 10 n) : m = n := by
  rw [← Nat.ofDigitChars_ten_toDigits (n := m), h, Nat.ofDigitChars_ten_toDigits]

theorem intText_chars (n : Int) : ∀ c ∈ intText n, c.isDigit ∨ c = '-' := by
  intro c hc
  unfold intText at hc
  split at hc
  · obtain rfl | hc := List.mem_cons.mp hc
    · exact .inr rfl
    · exact .inl (digits_toDigits _ c hc)
  · exact .inl (digits_toDigits _ c hc)

theorem intText_number (n : Int) : (intText n).all numberChar := by
  refine List.all_eq_true.mpr fun c hc => ?_
  obtain h | rfl := intText_chars n c hc
  · exact digit_numberChar h
  · decide

theorem intText_inj {m n : Int} (h : intText m = intText n) : m = n := by
  have hminus : ∀ k : Nat, '-' ∉ Nat.toDigits 10 k := fun k hk =>
    absurd (digits_toDigits k _ hk) (by decide)
  unfold intText at h
  split_ifs at h with hm hn hn
  · have := toDigits_inj (List.cons.inj h).2
    omega
  · exact absurd (h ▸ List.mem_cons_self) (hminus n.natAbs)
  · exact absurd (h ▸ List.mem_cons_self) (hminus m.natAbs)
  · have := toDigits_inj h
    omega

theorem intText_ne_text (n : Int) (x : Decimal) : intText n ≠ x.text := by
  intro h
  obtain ⟨c, hc, hreal⟩ := List.any_eq_true.mp x.real
  rw [← h] at hc
  simp only [decide_eq_true_eq, Bool.or_eq_true] at hreal
  obtain hdigit | rfl := intText_chars n c hc
  · obtain rfl | rfl := hreal <;> exact absurd hdigit (by decide)
  · exact absurd hreal (by decide)

end Numbers

section Injectivity

/-- What the first character of a text tells about the value. -/
inductive Shape where
  | null
  | true
  | false
  | number
  | str
  | list
  | dict
  | none
  deriving DecidableEq

def shapeOf (c : Char) : Shape :=
  if numberChar c then .number
  else if c = 'n' then .null
  else if c = 't' then .true
  else if c = 'f' then .false
  else if c = '"' then .str
  else if c = '[' then .list
  else if c = '{' then .dict
  else .none

def Tree.shape : Tree → Shape
  | .null => .null
  | .bool true => .true
  | .bool false => .false
  | .int _ => .number
  | .float _ => .number
  | .str _ => .str
  | .list _ => .list
  | .dict _ => .dict

theorem number_head {a : List Char} (ha : a.all numberChar) (hne : a ≠ []) :
    ∃ c cs, a = c :: cs ∧ shapeOf c = .number := by
  obtain ⟨c, cs, rfl⟩ := List.exists_cons_of_ne_nil hne
  refine ⟨c, cs, rfl, ?_⟩
  rw [List.all_cons, Bool.and_eq_true] at ha
  rw [shapeOf, if_pos ha.1]

theorem dump_head (t : Tree) : ∃ c cs, dump t = c :: cs ∧ shapeOf c = t.shape := by
  cases t with
  | null => exact ⟨_, _, rfl, rfl⟩
  | bool b => cases b <;> exact ⟨_, _, rfl, rfl⟩
  | int n =>
    refine number_head (intText_number n) fun h => ?_
    rw [dump, intText] at h
    split at h
    · cases h
    · exact Nat.toDigits_ne_nil h
  | float x =>
    refine number_head x.chars fun h => ?_
    have hreal := x.real
    rw [show x.text = [] from h] at hreal
    cases hreal
  | str s => exact ⟨_, _, rfl, rfl⟩
  | list xs => exact ⟨_, _, rfl, rfl⟩
  | dict es => exact ⟨_, _, rfl, rfl⟩

theorem shape_eq {t u : Tree} {r r' : List Char} (h : dump t ++ r = dump u ++ r') :
    t.shape = u.shape := by
  obtain ⟨c, cs, ht, hc⟩ := dump_head t
  obtain ⟨d, ds, hu, hd⟩ := dump_head u
  rw [ht, hu, List.cons_append, List.cons_append] at h
  rw [← hc, ← hd, (List.cons.inj h).1]

theorem dump_ne_close (t : Tree) (r r' : List Char) : dump t ++ r ≠ ']' :: r' := by
  obtain ⟨c, cs, ht, hc⟩ := dump_head t
  intro h
  rw [ht, List.cons_append] at h
  rw [(List.cons.inj h).1] at hc
  cases t with
  | bool b => cases b <;> cases hc
  | _ => cases hc

theorem stops_of_head {c : Char} (r : List Char) (h : numberChar c = false) : Stops (c :: r) := by
  intro d hd
  obtain rfl := Option.some.inj hd
  exact h

theorem dumpItems_cons (t : Tree) (ts : List Tree) :
    ∃ c q, dumpItems (t :: ts) = dump t ++ c :: q ∧ numberChar c = false := by
  cases ts with
  | nil => exact ⟨']', [], by rw [dumpItems], rfl⟩
  | cons u ts => exact ⟨',', _, by rw [dumpItems], rfl⟩

theorem dumpMembers_cons (e : Text × Tree) (es : List (Text × Tree)) :
    ∃ q, dumpMembers (e :: es) = '"' :: q := by
  obtain ⟨k, t⟩ := e
  cases es with
  | nil => exact ⟨_, by rw [dumpMembers, quote, List.cons_append]⟩
  | cons f es => exact ⟨_, by rw [dumpMembers, quote, List.cons_append]⟩

theorem member_append_inj {k l : Text} {t u : Tree} {c d : Char} {r r' : List Char}
    (hvalue : ∀ q q' : List Char, Stops q → Stops q' → dump t ++ q = dump u ++ q' → t = u ∧ q = q')
    (hc : numberChar c = false) (hd : numberChar d = false)
    (h : quote k.1 ++ ':' :: ' ' :: (dump t ++ c :: r) = quote l.1 ++ ':' :: ' ' :: (dump u ++ d :: r')) :
    (k, t) = (l, u) ∧ c = d ∧ r = r' := by
  obtain ⟨rfl, hrest⟩ := quote_inj h
  obtain ⟨rfl, hend⟩ := hvalue _ _ (stops_of_head r hc) (stops_of_head r' hd)
    (List.cons.inj (List.cons.inj hrest).2).2
  exact ⟨rfl, List.cons.inj hend⟩

mutual

theorem dump_append_inj : ∀ (t u : Tree) (r r' : List Char), Stops r → Stops r' →
    dump t ++ r = dump u ++ r' → t = u ∧ r = r'
  | .null, u, r, r', _, _, h => by
    cases u with
    | null => exact ⟨rfl, List.append_cancel_left h⟩
    | bool b => cases b <;> cases shape_eq h
    | _ => cases shape_eq h
  | .bool b, u, r, r', _, _, h => by
    cases u with
    | bool b' =>
      cases b <;> cases b'
      · exact ⟨rfl, List.append_cancel_left h⟩
      · cases shape_eq h
      · cases shape_eq h
      · exact ⟨rfl, List.append_cancel_left h⟩
    | _ => cases b <;> cases shape_eq h
  | .int n, u, r, r', hr, hr', h => by
    cases u with
    | int m =>
      obtain ⟨htext, hrest⟩ := numberText_inj (intText_number n) (intText_number m) hr hr' h
      exact ⟨congrArg _ (intText_inj htext), hrest⟩
    | float x =>
      obtain ⟨htext, -⟩ := numberText_inj (intText_number n) x.chars hr hr' h
      exact absurd htext (intText_ne_text n x)
    | bool b => cases b <;> cases shape_eq h
    | _ => cases shape_eq h
  | .float x, u, r, r', hr, hr', h => by
    cases u with
    | int m =>
      obtain ⟨htext, -⟩ := numberText_inj x.chars (intText_number m) hr hr' h
      exact absurd htext.symm (intText_ne_text m x)
    | float y =>
      obtain ⟨htext, hrest⟩ := numberText_inj x.chars y.chars hr hr' h
      obtain ⟨_, _, _⟩ := x
      obtain ⟨_, _, _⟩ := y
      cases htext
      exact ⟨rfl, hrest⟩
    | bool b => cases b <;> cases shape_eq h
    | _ => cases shape_eq h
  | .str s, u, r, r', _, _, h => by
    cases u with
    | str s' =>
      obtain ⟨rfl, hrest⟩ := quote_inj h
      exact ⟨rfl, hrest⟩
    | bool b => cases b <;> cases shape_eq h
    | _ => cases shape_eq h
  | .list xs, u, r, r', _, _, h => by
    cases u with
    | list ys =>
      obtain ⟨rfl, hrest⟩ := dumpItems_append_inj xs ys r r' (List.cons.inj h).2
      exact ⟨rfl, hrest⟩
    | bool b => cases b <;> cases shape_eq h
    | _ => cases shape_eq h
  | .dict es, u, r, r', _, _, h => by
    cases u with
    | dict fs =>
      obtain ⟨rfl, hrest⟩ := dumpMembers_append_inj es fs r r' (List.cons.inj h).2
      exact ⟨rfl, hrest⟩
    | bool b => cases b <;> cases shape_eq h
    | _ => cases shape_eq h

theorem dumpItems_append_inj : ∀ (xs ys : List Tree) (r r' : List Char),
    dumpItems xs ++ r = dumpItems ys ++ r' → xs = ys ∧ r = r'
  | [], [], r, r', h => ⟨rfl, (List.cons.inj h).2⟩
  | [], u :: us, r, r', h => by
    obtain ⟨c, q, hq, -⟩ := dumpItems_cons u us
    rw [hq, List.append_assoc] at h
    exact absurd h.symm (dump_ne_close u _ _)
  | t :: ts, [], r, r', h => by
    obtain ⟨c, q, hq, -⟩ := dumpItems_cons t ts
    rw [hq, List.append_assoc] at h
    exact absurd h (dump_ne_close t _ _)
  | [t], [u], r, r', h => by
    simp only [dumpItems, List.append_assoc, List.cons_append, List.nil_append] at h
    obtain ⟨rfl, hrest⟩ := dump_append_inj t u _ _ (stops_of_head _ rfl) (stops_of_head _ rfl) h
    exact ⟨rfl, (List.cons.inj hrest).2⟩
  | [t], u :: v :: us, r, r', h => by
    simp only [dumpItems, List.append_assoc, List.cons_append, List.nil_append] at h
    obtain ⟨-, hrest⟩ := dump_append_inj t u _ _ (stops_of_head _ rfl) (stops_of_head _ rfl) h
    exact absurd (List.cons.inj hrest).1 (by decide)
  | t :: s :: ts, [u], r, r', h => by
    simp only [dumpItems, List.append_assoc, List.cons_append, List.nil_append] at h
    obtain ⟨-, hrest⟩ := dump_append_inj t u _ _ (stops_of_head _ rfl) (stops_of_head _ rfl) h
    exact absurd (List.cons.inj hrest).1 (by decide)
  | t :: s :: ts, u :: v :: us, r, r', h => by
    simp only [dumpItems, List.append_assoc, List.cons_append] at h
    obtain ⟨rfl, hrest⟩ := dump_append_inj t u _ _ (stops_of_head _ rfl) (stops_of_head _ rfl) h
    obtain ⟨heq, hend⟩ := dumpItems_append_inj (s :: ts) (v :: us) r r'
      (List.cons.inj (List.cons.inj hrest).2).2
    exact ⟨congrArg _ heq, hend⟩

theorem dumpMembers_append_inj : ∀ (es fs : List (Text × Tree)) (r r' : List Char),
    dumpMembers es ++ r = dumpMembers fs ++ r' → es = fs ∧ r = r'
  | [], [], r, r', h => ⟨rfl, (List.cons.inj h).2⟩
  | [], f :: fs, r, r', h => by
    obtain ⟨q, hq⟩ := dumpMembers_cons f fs
    rw [hq] at h
    exact absurd (List.cons.inj h).1 (by decide)
  | e :: es, [], r, r', h => by
    obtain ⟨q, hq⟩ := dumpMembers_cons e es
    rw [hq] at h
    exact absurd (List.cons.inj h).1 (by decide)
  | [(k, t)], [(l, u)], r, r', h => by
    simp only [dumpMembers, List.append_assoc, List.cons_append, List.nil_append] at h
    obtain ⟨hmember, -, hrest⟩ := member_append_inj (dump_append_inj t u) rfl rfl h
    exact ⟨congrArg (· :: []) hmember, hrest⟩
  | [(k, t)], (l, u) :: f :: fs, r, r', h => by
    simp only [dumpMembers, List.append_assoc, List.cons_append, List.nil_append] at h
    obtain ⟨-, hend, -⟩ := member_append_inj (dump_append_inj t u) rfl rfl h
    exact absurd hend (by decide)
  | (k, t) :: e :: es, [(l, u)], r, r', h => by
    simp only [dumpMembers, List.append_assoc, List.cons_append, List.nil_append] at h
    obtain ⟨-, hend, -⟩ := member_append_inj (dump_append_inj t u) rfl rfl h
    exact absurd hend (by decide)
  | (k, t) :: e :: es, (l, u) :: f :: fs, r, r', h => by
    simp only [dumpMembers, List.append_assoc, List.cons_append] at h
    obtain ⟨hmember, -, hrest⟩ := member_append_inj (dump_append_inj t u) rfl rfl h
    obtain ⟨heq, hend⟩ := dumpMembers_append_inj (e :: es) (f :: fs) r r' (List.cons.inj hrest).2
    exact ⟨congr (congrArg List.cons hmember) heq, hend⟩

end

end Injectivity

section KeyOrder

theorem sortItems_eq_map (xs : List Tree) : sortItems xs = xs.map sortKeys := by
  induction xs with
  | nil => rfl
  | cons t ts ih => rw [sortItems, ih, List.map_cons]

def sortMember (e : Text × Tree) : Text × Tree := (e.1, sortKeys e.2)

theorem sortMembers_eq_map (es : List (Text × Tree)) : sortMembers es = es.map sortMember := by
  induction es with
  | nil => rfl
  | cons e es ih => rw [sortMembers, ih, List.map_cons, sortMember]

theorem codeLe_cons {m n : Nat} {s t : Str} :
    codeLe (m :: s) (n :: t) ↔ m < n ∨ m = n ∧ codeLe s t := by
  simp [codeLe]

theorem codeLe_total (s t : Str) : codeLe s t ∨ codeLe t s := by
  induction s generalizing t with
  | nil => exact .inl rfl
  | cons m s ih =>
    cases t with
    | nil => exact .inr rfl
    | cons n t =>
      simp only [codeLe_cons]
      obtain h | h | h := Nat.lt_trichotomy m n
      · exact .inl (.inl h)
      · exact (ih t).imp (fun hst => .inr ⟨h, hst⟩) fun hts => .inr ⟨h.symm, hts⟩
      · exact .inr (.inl h)

theorem codeLe_trans {s t u : Str} (hst : codeLe s t) (htu : codeLe t u) : codeLe s u := by
  induction s generalizing t u with
  | nil => rfl
  | cons l s ih =>
    cases t with
    | nil => cases hst
    | cons m t =>
      cases u with
      | nil => cases htu
      | cons n u =>
        rw [codeLe_cons] at hst htu ⊢
        obtain h | ⟨rfl, h⟩ := hst
        · exact .inl (by omega)
        · exact htu.imp id fun h' => ⟨h'.1, ih h h'.2⟩

instance : Std.Total byKey := ⟨fun a b => codeLe_total a.1.1 b.1.1⟩

instance : IsTrans (Text × Tree) byKey := ⟨fun _ _ _ => codeLe_trans⟩

theorem map_fst_sortMember (es : List (Text × Tree)) :
    (es.map sortMember).map Prod.fst = es.map Prod.fst := by
  rw [List.map_map]
  rfl

theorem reordered_list {xs : List Tree} (h : ∀ t ∈ xs, Reordered t (sortKeys t)) (done : List Tree) :
    Reordered (.list (done ++ xs)) (.list (done ++ xs.map sortKeys)) := by
  induction xs generalizing done with
  | nil => exact .refl _
  | cons t ts ih =>
    have hfirst := Reordered.item done ts (h t List.mem_cons_self)
    have hrest := ih (fun u hu => h u (List.mem_cons_of_mem t hu)) (done ++ [sortKeys t])
    simp only [List.append_assoc, List.singleton_append] at hrest
    exact hfirst.trans hrest

theorem reordered_dict {es : List (Text × Tree)} (h : ∀ e ∈ es, Reordered e.2 (sortKeys e.2))
    (done : List (Text × Tree)) :
    Reordered (.dict (done ++ es)) (.dict (done ++ es.map sortMember)) := by
  induction es generalizing done with
  | nil => exact .refl _
  | cons e es ih =>
    have hfirst := Reordered.member done es e.1 (h e List.mem_cons_self)
    have hrest := ih (fun u hu => h u (List.mem_cons_of_mem e hu)) (done ++ [sortMember e])
    simp only [List.append_assoc, List.singleton_append] at hrest
    exact hfirst.trans hrest

mutual

theorem reordered_sortKeys : ∀ {t : Tree}, Distinct t → Reordered t (sortKeys t)
  | .null, _ => .refl _
  | .bool _, _ => .refl _
  | .int _, _ => .refl _
  | .float _, _ => .refl _
  | .str _, _ => .refl _
  | .list xs, h => by
    rw [sortKeys, sortItems_eq_map]
    exact reordered_list (reordered_items xs h) []
  | .dict es, h => by
    rw [sortKeys, sortMembers_eq_map]
    refine (reordered_dict (reordered_members es h.2) []).trans
      (.keys (List.perm_insertionSort byKey _).symm ?_)
    rw [List.nil_append, map_fst_sortMember]
    exact h.1

theorem reordered_items : ∀ (xs : List Tree), DistinctItems xs →
    ∀ t ∈ xs, Reordered t (sortKeys t)
  | [], _ => List.forall_mem_nil _
  | _ :: us, h => List.forall_mem_cons.mpr ⟨reordered_sortKeys h.1, reordered_items us h.2⟩

theorem reordered_members : ∀ (es : List (Text × Tree)), DistinctMembers es →
    ∀ e ∈ es, Reordered e.2 (sortKeys e.2)
  | [], _ => List.forall_mem_nil _
  | (_, _) :: es, h => List.forall_mem_cons.mpr ⟨reordered_sortKeys h.1, reordered_members es h.2⟩

end

end KeyOrder

end AlfredProcessing.Lib.JsonDump
