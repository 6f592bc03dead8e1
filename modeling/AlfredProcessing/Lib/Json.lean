import Mathlib.Data.List.Basic

namespace AlfredProcessing.Lib.Json

/-- What is said of every character in a list is decided along the list, not by
going through all characters there are. -/
instance decidableForallChar (cs : List Char) (p : Char → Prop) [DecidablePred p] :
    Decidable (∀ c ∈ cs, p c) := List.decidableBAll p cs

/-- Code points. A Python string may hold lone surrogates. -/
abbrev Str := List Nat

def str (s : String) : Str := s.toList.map Char.toNat

inductive NonFinite where
  | nan
  | inf
  | negInf
  deriving DecidableEq

/-- The keys of a dictionary that are no strings: there may be none, and they
may or may not have an order together with the strings. Only a Python literal
has such keys. -/
inductive Strays where
  | none
  | ordered
  | mixed
  deriving DecidableEq

/-- A value as `json` or `ast.literal_eval` returns it. A float is the decimal
`mantissa * 10 ^ exponent`. Of tuples, sets and bytes only what the extractor
looks at is kept. -/
inductive Value where
  | null
  | bool (b : Bool)
  | int (n : Int)
  | float (mantissa exponent : Int)
  | nonFinite (x : NonFinite)
  | str (s : Str)
  | list (xs : List Value)
  | dict (entries : List (Str × Value)) (strays : Strays)
  | other (truthy : Bool) (hashable : Bool)

/-- A float literal below half of the smallest subnormal is zero. -/
def floatIsZero (mantissa exponent : Int) : Bool :=
  mantissa.natAbs * Nat.pow 2 1075 ≤ Nat.pow 10 (-exponent).toNat

def Value.truthy : Value → Bool
  | .null => false
  | .bool b => b
  | .int n => n != 0
  | .float m e => !floatIsZero m e
  | .nonFinite _ => true
  | .str s => !s.isEmpty
  | .list xs => !xs.isEmpty
  | .dict entries strays => !entries.isEmpty || strays ≠ .none
  | .other t _ => t

/-- `d[key] = value` on a dictionary in insertion order. -/
def insert (key : Str) (value : Value) : List (Str × Value) → List (Str × Value)
  | [] => [(key, value)]
  | (k, v) :: rest => if k = key then (k, value) :: rest else (k, v) :: insert key value rest

def get (key : Str) (entries : List (Str × Value)) : Option Value :=
  (entries.find? fun e => e.1 = key).map Prod.snd

/-- A number as mantissa and exponent; booleans are numbers. -/
def number : Value → Option (Int × Int)
  | .bool b => some (if b then 1 else 0, 0)
  | .int n => some (n, 0)
  | .float m e => some (m, e)
  | _ => none

@[simp] theorem get_nil (k : Str) : get k [] = none := rfl

@[simp] theorem get_cons (k k' : Str) (v : Value) (d : List (Str × Value)) :
    get k ((k', v) :: d) = if k' = k then some v else get k d := by
  by_cases h : k' = k <;> simp [get, h]

theorem get_insert (key k : Str) (v : Value) (d : List (Str × Value)) :
    get k (insert key v d) = if key = k then some v else get k d := by
  induction d with
  | nil => simp [insert]
  | cons e d ih =>
    obtain ⟨k', v'⟩ := e
    by_cases hk : k' = key
    · subst hk
      by_cases hkk : k' = k <;> simp [insert, hkk]
    · by_cases hkk : k' = k
      · subst hkk
        simp [insert, hk, Ne.symm hk]
      · simp [insert, hk, hkk, ih]

theorem get_insert_isSome {k : Str} (key : Str) (v : Value) {d : List (Str × Value)}
    (h : (get k d).isSome) : (get k (insert key v d)).isSome := by
  rw [get_insert]
  split
  · rfl
  · exact h

theorem insert_insert (key : Str) (v w : Value) (d : List (Str × Value)) :
    insert key w (insert key v d) = insert key w d := by
  induction d with
  | nil => simp [insert]
  | cons e d ih =>
    obtain ⟨k, u⟩ := e
    by_cases hk : k = key
    · simp [insert, hk]
    · simp [insert, hk, ih]

theorem insert_eq_self {key : Str} {v : Value} {d : List (Str × Value)} (h : get key d = some v) :
    insert key v d = d := by
  induction d with
  | nil => cases h
  | cons e d ih =>
    obtain ⟨k, u⟩ := e
    rw [get_cons] at h
    by_cases hk : k = key
    · rw [if_pos hk] at h
      cases h
      simp [insert, hk]
    · rw [if_neg hk] at h
      simp [insert, hk, ih h]

theorem insert_comm {key k : Str} (hne : key ≠ k) (v w : Value) {d : List (Str × Value)}
    (h : (get k d).isSome) : insert key v (insert k w d) = insert k w (insert key v d) := by
  induction d with
  | nil => cases h
  | cons e d ih =>
    obtain ⟨k', u⟩ := e
    by_cases hk : k' = k
    · subst hk
      simp [insert, Ne.symm hne]
    · rw [get_cons, if_neg hk] at h
      by_cases hkey : k' = key
      · subst hkey
        simp [insert, hk]
      · simp [insert, hk, hkey, ih h]

def mapValues (f : Value → Value) (d : List (Str × Value)) : List (Str × Value) := d.map fun e => (e.1, f e.2)

theorem mapValues_id (d : List (Str × Value)) : mapValues id d = d := List.map_id d

theorem get_mapValues (f : Value → Value) (k : Str) (d : List (Str × Value)) :
    get k (mapValues f d) = (get k d).map f := by
  induction d with
  | nil => rfl
  | cons e d ih =>
    obtain ⟨k', v⟩ := e
    have hcons : mapValues f ((k', v) :: d) = (k', f v) :: mapValues f d := rfl
    rw [hcons, get_cons, get_cons, ih]
    split_ifs <;> rfl

theorem insert_mapValues (f : Value → Value) (key : Str) (v : Value) (d : List (Str × Value)) :
    insert key (f v) (mapValues f d) = mapValues f (insert key v d) := by
  induction d with
  | nil => rfl
  | cons e d ih =>
    obtain ⟨k, u⟩ := e
    have hcons : mapValues f ((k, u) :: d) = (k, f u) :: mapValues f d := rfl
    rw [hcons, insert, insert]
    split_ifs
    · rfl
    · rw [ih]
      rfl

mutual

/-- `==` of Python on values, where numbers of different types may be equal and
the order of entries does not count. -/
def pyEq : Value → Value → Bool
  | .null, .null => true
  | .str s, .str t => s = t
  | .list xs, .list ys => pyEqList xs ys
  | .dict d s, .dict e t => d.length = e.length && s = t && pyEqDict d e
  | .nonFinite x, .nonFinite y => x = y && x ≠ .nan
  | .other t h, .other t' h' => t = t' && h = h'
  | a, b =>
    match number a, number b with
    | some (m, e), some (m', e') =>
      m * Int.pow 10 (e - min e e').toNat = m' * Int.pow 10 (e' - min e e').toNat
    | _, _ => false

def pyEqList : List Value → List Value → Bool
  | [], [] => true
  | x :: xs, y :: ys => pyEq x y && pyEqList xs ys
  | _, _ => false

def pyEqDict : List (Str × Value) → List (Str × Value) → Bool
  | [], _ => true
  | (k, v) :: d, e =>
    (match get k e with
      | some w => pyEq v w
      | none => false) && pyEqDict d e

end

def isWs (c : Char) : Bool := c = ' ' || c = '\t' || c = '\n' || c = '\r'

def skipWs (cs : List Char) : List Char := cs.dropWhile isWs

def digitVal (c : Char) : Nat := c.toNat - '0'.toNat

def natOf (ds : List Char) : Nat := ds.foldl (fun n d => 10 * n + digitVal d) 0

def hexVal (c : Char) : Option Nat :=
  if '0' ≤ c ∧ c ≤ '9' then some (c.toNat - '0'.toNat)
  else if 'a' ≤ c ∧ c ≤ 'f' then some (c.toNat - 'a'.toNat + 10)
  else if 'A' ≤ c ∧ c ≤ 'F' then some (c.toNat - 'A'.toNat + 10)
  else none

def escapeVal : Char → Option Nat
  | '"' => some 34
  | '\\' => some 92
  | '/' => some 47
  | 'b' => some 8
  | 'f' => some 12
  | 'n' => some 10
  | 'r' => some 13
  | 't' => some 9
  | _ => none

def hexUnit (a b c d : Char) : Option Nat := do
  let a ← hexVal a
  let b ← hexVal b
  let c ← hexVal c
  let d ← hexVal d
  return ((a * 16 + b) * 16 + c) * 16 + d

/-- The body of a string after its opening quote, as code units. -/
def scanUnits : List Char → Option (Str × List Char)
  | [] => none
  | '"' :: cs => some ([], cs)
  | '\\' :: 'u' :: a :: b :: c :: d :: cs => do
    let u ← hexUnit a b c d
    let (us, rest) ← scanUnits cs
    return (u :: us, rest)
  | '\\' :: e :: cs => do
    let u ← escapeVal e
    let (us, rest) ← scanUnits cs
    return (u :: us, rest)
  | c :: cs => do
    if c.toNat < 32 ∨ c = '\\' then failure
    let (us, rest) ← scanUnits cs
    return (c.toNat :: us, rest)

/-- A high surrogate and the low surrogate after it are one character. -/
def joinSurrogates : Str → Str
  | h :: l :: us =>
    if 0xD800 ≤ h ∧ h < 0xDC00 ∧ 0xDC00 ≤ l ∧ l < 0xE000 then
      (0x10000 + (h - 0xD800) * 0x400 + (l - 0xDC00)) :: joinSurrogates us
    else h :: joinSurrogates (l :: us)
  | us => us

def scanString (cs : List Char) : Option (Str × List Char) :=
  (scanUnits cs).map fun p => (joinSurrogates p.1, p.2)

/-- The integer part of a number after its sign. -/
def scanInt : List Char → Option (List Char × List Char)
  | '0' :: cs => some (['0'], cs)
  | cs =>
    match cs.span Char.isDigit with
    | ([], _) => none
    | (ds, rest) => some (ds, rest)

def scanFrac : List Char → List Char × List Char
  | '.' :: cs =>
    match cs.span Char.isDigit with
    | ([], _) => ([], '.' :: cs)
    | (ds, rest) => (ds, rest)
  | cs => ([], cs)

def scanSign : List Char → Bool × List Char
  | '-' :: cs => (true, cs)
  | '+' :: cs => (false, cs)
  | cs => (false, cs)

/-- An exponent without digits is left unread. -/
def scanExp : List Char → Option Int × List Char
  | [] => (none, [])
  | e :: cs =>
    if e = 'e' ∨ e = 'E' then
      let (negative, digits) := scanSign cs
      match digits.span Char.isDigit with
      | ([], _) => (none, e :: cs)
      | (ds, rest) => (some (if negative then -(natOf ds : Int) else natOf ds), rest)
    else (none, e :: cs)

def signed (negative : Bool) (n : Nat) : Int := if negative then -(n : Int) else n

/-- The least decimal that is rounded to an infinity, half an ulp above the largest float: 2^1024 - 2^970. -/
def floatBound : Nat := (Nat.pow 2 54 - 1) * Nat.pow (Nat.pow 2 194) 5

def overflows (m e : Int) : Bool :=
  if 0 ≤ e then floatBound ≤ m.natAbs * Nat.pow 10 e.toNat else floatBound * Nat.pow 10 (-e).toNat ≤ m.natAbs

/-- `float` of a decimal, which is kept as it is where it does not overflow. -/
def floatOf (m e : Int) : Value :=
  if overflows m e then .nonFinite (if m < 0 then .negInf else .inf) else .float m e

theorem floatOf_cases (m e : Int) : floatOf m e = .float m e ∨ ∃ x, floatOf m e = .nonFinite x := by
  by_cases h : overflows m e
  · exact .inr ⟨_, if_pos h⟩
  · exact .inl (if_neg h)

/-- `_match_number_unicode` after the sign. -/
def scanNumber (negative : Bool) (cs : List Char) : Option (Value × List Char) :=
  (scanInt cs).map fun p =>
    let (frac, rest) := scanFrac p.2
    let (exp, rest') := scanExp rest
    if frac = [] ∧ exp = none then (.int (signed negative (natOf p.1)), rest')
    else (floatOf (signed negative (natOf (p.1 ++ frac))) (exp.getD 0 - frac.length), rest')

mutual

/-- `scan_once` of the decoder. Every call spends fuel. -/
def scanOnce : Nat → List Char → Option (Value × List Char)
  | 0, _ => none
  | n + 1, cs =>
    match cs with
    | '"' :: cs => (scanString cs).map fun p => (.str p.1, p.2)
    | '{' :: cs =>
      match skipWs cs with
      | '}' :: rest => some (.dict [] .none, rest)
      | rest => scanMembers n [] rest
    | '[' :: cs =>
      match skipWs cs with
      | ']' :: rest => some (.list [], rest)
      | rest => scanItems n [] rest
    | 'n' :: 'u' :: 'l' :: 'l' :: rest => some (.null, rest)
    | 't' :: 'r' :: 'u' :: 'e' :: rest => some (.bool true, rest)
    | 'f' :: 'a' :: 'l' :: 's' :: 'e' :: rest => some (.bool false, rest)
    | 'N' :: 'a' :: 'N' :: rest => some (.nonFinite .nan, rest)
    | 'I' :: 'n' :: 'f' :: 'i' :: 'n' :: 'i' :: 't' :: 'y' :: rest => some (.nonFinite .inf, rest)
    | '-' :: 'I' :: 'n' :: 'f' :: 'i' :: 'n' :: 'i' :: 't' :: 'y' :: rest =>
      some (.nonFinite .negInf, rest)
    | '-' :: rest => scanNumber true rest
    | rest => scanNumber false rest

def scanItems : Nat → List Value → List Char → Option (Value × List Char)
  | 0, _, _ => none
  | n + 1, acc, cs =>
    match scanOnce n cs with
    | none => none
    | some (v, rest) =>
      match skipWs rest with
      | ']' :: rest => some (.list (acc ++ [v]), rest)
      | ',' :: rest => scanItems n (acc ++ [v]) (skipWs rest)
      | _ => none

def scanMembers : Nat → List (Str × Value) → List Char → Option (Value × List Char)
  | 0, _, _ => none
  | n + 1, acc, cs =>
    match cs with
    | '"' :: cs =>
      match scanString cs with
      | none => none
      | some (key, rest) =>
        match skipWs rest with
        | ':' :: rest =>
          match scanOnce n (skipWs rest) with
          | none => none
          | some (v, rest) =>
            match skipWs rest with
            | '}' :: rest => some (.dict (insert key v acc) .none, rest)
            | ',' :: rest => scanMembers n (insert key v acc) (skipWs rest)
            | _ => none
        | _ => none
    | _ => none

end

/-- `JSONDecoder.raw_decode`, with fuel for every character. -/
def rawDecode (cs : List Char) : Option (Value × List Char) :=
  scanOnce (2 * cs.length + 2) cs

end AlfredProcessing.Lib.Json
