import AlfredProcessing.Lib.Json

namespace AlfredProcessing.Lib.PyRepr

open Lib.Json

/-- What `repr` is given: which characters beyond ASCII are printable, and the texts of
floats and of what is no JSON. -/
structure Texts where
  printable : Nat → Bool
  float : Int → Int → List Char
  other : Bool → Bool → List Char

def nonFiniteText : NonFinite → List Char
  | .nan => "nan".toList
  | .inf => "inf".toList
  | .negInf => "-inf".toList

def intText (n : Int) : List Char :=
  (if n < 0 then ['-'] else []) ++ Nat.toDigits 10 n.natAbs

/-- The digits of a number to the base 16, with leading zeros. -/
def hexText (width n : Nat) : List Char :=
  List.replicate (width - (Nat.toDigits 16 n).length) '0' ++ Nat.toDigits 16 n

variable (texts : Texts)

def charText (quote n : Nat) : List Char :=
  if n = quote ∨ n = 92 then ['\\', Char.ofNat n]
  else if n = 9 then ['\\', 't']
  else if n = 10 then ['\\', 'n']
  else if n = 13 then ['\\', 'r']
  else if n < 32 ∨ n = 127 then '\\' :: 'x' :: hexText 2 n
  else if n < 127 ∨ texts.printable n then [Char.ofNat n]
  else if n < 256 then '\\' :: 'x' :: hexText 2 n
  else if n < 65536 then '\\' :: 'u' :: hexText 4 n
  else '\\' :: 'U' :: hexText 8 n

/-- A string is quoted in single quotes, unless it has one and no double quote. -/
def strText (s : Str) : List Char :=
  let quote := if s.contains 39 && !s.contains 34 then 34 else 39
  Char.ofNat quote :: (s.flatMap (charText texts quote) ++ [Char.ofNat quote])

mutual

/-- `repr`. -/
def repr : Value → List Char
  | .null => "None".toList
  | .bool b => if b then "True".toList else "False".toList
  | .int n => intText n
  | .float m e => texts.float m e
  | .nonFinite x => nonFiniteText x
  | .str s => strText texts s
  | .list xs => '[' :: (reprItems xs ++ [']'])
  | .dict entries _ => '{' :: (reprMembers entries ++ ['}'])
  | .other t h => texts.other t h

def reprItems : List Value → List Char
  | [] => []
  | [x] => repr x
  | x :: xs => repr x ++ ',' :: ' ' :: reprItems xs

def reprMembers : List (Str × Value) → List Char
  | [] => []
  | [(k, v)] => strText texts k ++ ':' :: ' ' :: repr v
  | (k, v) :: rest => strText texts k ++ ':' :: ' ' :: (repr v ++ ',' :: ' ' :: reprMembers rest)

end

end AlfredProcessing.Lib.PyRepr
