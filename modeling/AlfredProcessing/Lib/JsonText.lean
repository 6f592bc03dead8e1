import AlfredProcessing.Lib.Json

namespace AlfredProcessing.Lib.JsonText

open Json

abbrev Space := List { c : Char // isWs c }

def Space.render (w : Space) : List Char := w.map Subtype.val

/-- A character that stands for itself in a string literal. -/
def plain (c : Char) : Bool := 32 ≤ c.toNat && c ≠ '"' && c ≠ '\\'

inductive Piece where
  | raw (c : { c : Char // plain c })
  | escape (e : { e : Char // (escapeVal e).isSome })
  | unicode (a b c d : { h : Char // (hexVal h).isSome })

def Piece.render : Piece → List Char
  | .raw c => [c.1]
  | .escape e => ['\\', e.1]
  | .unicode a b c d => ['\\', 'u', a.1, b.1, c.1, d.1]

def Piece.unit : Piece → Nat
  | .raw c => c.1.toNat
  | .escape e => (escapeVal e.1).getD 0
  | .unicode a b c d => (hexUnit a.1 b.1 c.1 d.1).getD 0

abbrev Body := List Piece

def Body.render (b : Body) : List Char := b.flatMap Piece.render

def Body.units (b : Body) : Str := b.map Piece.unit

abbrev Digits := List { c : Char // c.isDigit }

def Digits.render (ds : Digits) : List Char := ds.map Subtype.val

inductive IntPart where
  | zero
  | digits (d : { c : Char // c.isDigit ∧ c ≠ '0' }) (ds : Digits)

def IntPart.render : IntPart → List Char
  | .zero => ['0']
  | .digits d ds => d.1 :: Digits.render ds

structure Exponent where
  upper : Bool
  sign : Option Bool
  first : { c : Char // c.isDigit }
  more : Digits

def signRender : Option Bool → List Char
  | none => []
  | some true => ['-']
  | some false => ['+']

def Exponent.render (e : Exponent) : List Char :=
  (if e.upper then 'E' else 'e') :: (signRender e.sign ++ e.first.1 :: Digits.render e.more)

structure Number where
  negative : Bool
  int : IntPart
  frac : Option ({ c : Char // c.isDigit } × Digits)
  exp : Option Exponent

def fracDigits : Option ({ c : Char // c.isDigit } × Digits) → List Char
  | none => []
  | some (d, ds) => d.1 :: Digits.render ds

def fracRender : Option ({ c : Char // c.isDigit } × Digits) → List Char
  | none => []
  | some (d, ds) => '.' :: d.1 :: Digits.render ds

def expRender : Option Exponent → List Char
  | none => []
  | some e => e.render

def Exponent.value (e : Exponent) : Int :=
  signed (e.sign = some true) (natOf (e.first.1 :: Digits.render e.more))

def Number.unsigned (n : Number) : List Char :=
  n.int.render ++ (fracRender n.frac ++ expRender n.exp)

def Number.render (n : Number) : List Char :=
  if n.negative then '-' :: n.unsigned else n.unsigned

def Number.value (n : Number) : Value :=
  if n.frac.isNone ∧ n.exp.isNone then .int (signed n.negative (natOf n.int.render))
  else floatOf (signed n.negative (natOf (n.int.render ++ fracDigits n.frac)))
    ((n.exp.map Exponent.value).getD 0 - (fracDigits n.frac).length)

theorem Number.value_cases (n : Number) :
    (∃ z, n.value = .int z) ∨ (∃ m e, n.value = .float m e) ∨ ∃ x, n.value = .nonFinite x := by
  unfold Number.value
  split_ifs
  · exact .inl ⟨_, rfl⟩
  · obtain hfloat | ⟨x, hfloat⟩ := floatOf_cases (signed n.negative (natOf (n.int.render ++ fracDigits n.frac)))
      ((n.exp.map Exponent.value).getD 0 - (fracDigits n.frac).length)
    · exact .inr (.inl ⟨_, _, hfloat⟩)
    · exact .inr (.inr ⟨x, hfloat⟩)

theorem Number.value_ne_list (n : Number) (vs : List Value) : n.value ≠ .list vs := by
  obtain ⟨z, h⟩ | ⟨m, e, h⟩ | ⟨x, h⟩ := n.value_cases <;> simp [h]

theorem Number.value_ne_dict (n : Number) (o : List (Str × Value)) (strays : Strays) : n.value ≠ .dict o strays := by
  obtain ⟨z, h⟩ | ⟨m, e, h⟩ | ⟨x, h⟩ := n.value_cases <;> simp [h]

mutual

inductive Doc where
  | null
  | bool (b : Bool)
  | number (n : Number)
  | string (b : Body)
  | emptyArray (w : Space)
  | array (w : Space) (xs : Items)
  | emptyObject (w : Space)
  | object (w : Space) (ms : Members)

inductive Items where
  | last (d : Doc) (after : Space)
  | cons (d : Doc) (after : Space) (lead : Space) (rest : Items)

inductive Members where
  | last (key : Body) (w₁ w₂ : Space) (d : Doc) (after : Space)
  | cons (key : Body) (w₁ w₂ : Space) (d : Doc) (after lead : Space) (rest : Members)

end

mutual

def Doc.render : Doc → List Char
  | .null => ['n', 'u', 'l', 'l']
  | .bool true => ['t', 'r', 'u', 'e']
  | .bool false => ['f', 'a', 'l', 's', 'e']
  | .number n => n.render
  | .string b => '"' :: (b.render ++ ['"'])
  | .emptyArray w => '[' :: (w.render ++ [']'])
  | .array w xs => '[' :: (w.render ++ xs.render)
  | .emptyObject w => '{' :: (w.render ++ ['}'])
  | .object w ms => '{' :: (w.render ++ ms.render)

/-- The elements of an array, up to and with the closing bracket. -/
def Items.render : Items → List Char
  | .last d after => d.render ++ (after.render ++ [']'])
  | .cons d after lead rest => d.render ++ (after.render ++ ',' :: (lead.render ++ rest.render))

def Members.render : Members → List Char
  | .last key w₁ w₂ d after =>
    '"' :: (key.render ++ '"' :: (w₁.render ++ ':' :: (w₂.render ++
      (d.render ++ (after.render ++ ['}'])))))
  | .cons key w₁ w₂ d after lead rest =>
    '"' :: (key.render ++ '"' :: (w₁.render ++ ':' :: (w₂.render ++
      (d.render ++ (after.render ++ ',' :: (lead.render ++ rest.render))))))

end

mutual

def Doc.value : Doc → Value
  | .null => .null
  | .bool b => .bool b
  | .number n => n.value
  | .string b => .str (joinSurrogates b.units)
  | .emptyArray _ => .list []
  | .array _ xs => .list xs.values
  | .emptyObject _ => .dict [] .none
  | .object _ ms => .dict (ms.entries []) .none

def Items.values : Items → List Value
  | .last d _ => [d.value]
  | .cons d _ _ rest => d.value :: rest.values

/-- The entries in insertion order; the last value of a repeated key stays. -/
def Members.entries : Members → List (Str × Value) → List (Str × Value)
  | .last key _ _ d _, acc => insert (joinSurrogates key.units) d.value acc
  | .cons key _ _ d _ _ rest, acc =>
    rest.entries (insert (joinSurrogates key.units) d.value acc)

end

end AlfredProcessing.Lib.JsonText
