import AlfredProcessing.Extract.Cleaning
import AlfredProcessing.Lib.SqlLexer

namespace AlfredProcessing.Security.SqlSafety

open Lib.Substitute Lib.SqlLexer Extract.Cleaning

/-- What the checker is given: which characters beyond ASCII `str.isalnum` accepts, and
how a text is quoted in a message. -/
structure Platform where
  isAlnum : Char → Bool
  repr : List Char → List Char

def asciiPlatform : Platform := ⟨fun _ => false, fun cs => '\'' :: (cs ++ ['\''])⟩

inductive Reason where
  | empty
  | multiStatement
  | dangerousKeyword
  | notSelect
  deriving DecidableEq

structure UnsafeSqlError where
  message : List Char
  reason : Reason

section Patterns

def blockComment : Pattern := fun _ cs =>
  match cs with
  | '/' :: '*' :: cs => (closeBlock cs).map (· + 2)
  | _ => none

/-- Two dashes or a hash, up to the end of the line. -/
def lineComment : Pattern := fun _ cs =>
  match cs with
  | '#' :: cs => some (lineLength cs + 1)
  | '-' :: '-' :: cs => some (lineLength cs + 2)
  | _ => none

/-- The rest of a literal as the regular expression reads it: it takes two quotes for
an escape where the literal can go on behind them. -/
def closeQuoted (quote : Char) : List Char → Option Nat
  | [] => none
  | [c] => if c = quote then some 1 else none
  | c :: d :: cs =>
    if c = quote then
      if d = quote then ((closeQuoted quote cs).map (· + 2)).orElse fun _ => some 1 else some 1
    else if c = '\\' then (closeQuoted quote cs).map (· + 2)
    else (closeQuoted quote (d :: cs)).map (· + 1)

def stringLiteral (quote : Char) : Pattern := fun _ cs =>
  match cs with
  | c :: cs => if c = quote then (closeQuoted quote cs).map (· + 1) else none
  | [] => none

/-- `_LEADING_COMMENT_RE`, with the white space in front. -/
def leadingComment (cs : List Char) : Option Nat :=
  let blank := (cs.takeWhile isSpace).length
  let closeLine (ds : List Char) : Option Nat :=
    if (ds.drop (lineLength ds)).isEmpty then none else some (lineLength ds + 1)
  match cs.dropWhile isSpace with
  | '/' :: '*' :: ds => (closeBlock ds).map (blank + 2 + ·)
  | '-' :: '-' :: ds => (closeLine ds).map (blank + 2 + ·)
  | '#' :: ds => (closeLine ds).map (blank + 1 + ·)
  | _ => none

def dangerousKeywords : List (List Char) :=
  ["insert".toList, "update".toList, "delete".toList, "drop".toList, "create".toList,
    "alter".toList, "truncate".toList, "grant".toList, "revoke".toList, "replace".toList,
    "exec".toList, "call".toList, "load".toList, "handler".toList, "merge".toList, "set".toList,
    "lock".toList, "unlock".toList]

/-- What `re.IGNORECASE` takes for a small letter. -/
def foldsTo (c k : Char) : Bool :=
  c.toLower = k || (k = 's' && c.toNat = 0x17F) || (k = 'k' && c.toNat = 0x212A) ||
    (k = 'i' && (c.toNat = 0x130 || c.toNat = 0x131))

def foldsToPrefix : List Char → List Char → Bool
  | [], _ => true
  | _ :: _, [] => false
  | k :: ks, c :: cs => foldsTo c k && foldsToPrefix ks cs

variable (p : Platform)

/-- What `\b` is the border of. -/
def wordChar (c : Char) : Bool :=
  c.isAlphanum || c = '_' || (128 ≤ c.toNat && p.isAlnum c)

def border (prev next : Option Char) : Bool :=
  (prev.map (wordChar p)).getD false != (next.map (wordChar p)).getD false

/-- `_DANGEROUS_RE`. -/
def dangerous : Pattern := fun prev cs =>
  if border p prev cs.head? then
    (dangerousKeywords.find? fun k =>
      foldsToPrefix k cs && border p (cs[k.length - 1]?) (cs[k.length]?)).map List.length
  else none

end Patterns

section Checks

/-- `_strip_leading_comments`, with fuel for every character. -/
def dropLeadingComments : Nat → List Char → List Char
  | 0, cs => cs
  | fuel + 1, cs =>
    match leadingComment cs with
    | some n => dropLeadingComments fuel (cs.drop n)
    | none => cs

def stripLeadingComments (sql : List Char) : List Char :=
  (dropLeadingComments sql.length sql).dropWhile isSpace

/-- `_strip_inline_comments`. -/
def stripInlineComments (sql : List Char) : List Char :=
  sub lineComment [' '] (sub blockComment [' '] sql)

/-- `_strip_string_literals`. -/
def stripStringLiterals (sql : List Char) : List Char :=
  sub (stringLiteral '"') ['"', '"'] (sub (stringLiteral '\'') ['\'', '\''] sql)

/-- What is counted: without the semicolons at the end. -/
def trimmed (sql : List Char) : List Char := strip ((sql.rdropWhile isSpace).rdropWhile (· = ';'))

/-- `_count_statements`. -/
def countStatements (sql : List Char) : Nat :=
  if (trimmed sql).isEmpty then 0 else 1 + (trimmed sql).count ';'

def sanitise (sql : List Char) : List Char := stripStringLiterals (stripInlineComments sql)

def tokenStart (c : Char) : Bool := c.isAlpha || c = '_'

def firstToken (sql : List Char) : List Char :=
  ((stripLeadingComments sql).dropWhile isSpace).takeWhile tokenStart

def selectTokens : List (List Char) := ["SELECT".toList, "WITH".toList]

variable (p : Platform)

/-- `validate_safe_select`. -/
def validateSafeSelect (sql : List Char) : Except UnsafeSqlError Unit :=
  if sql.isEmpty then .error ⟨"SQL is empty or not a string".toList, .empty⟩
  else
    let sanitised := sanitise sql
    let n := countStatements sanitised
    if n = 0 then .error ⟨"SQL is empty after stripping comments".toList, .empty⟩
    else if n > 1 then
      .error ⟨"SQL contains ".toList ++ Nat.toDigits 10 n ++
        " statements; only single-SELECT is allowed".toList, .multiStatement⟩
    else
      match search (dangerous p) sanitised with
      | some m =>
        .error ⟨"SQL contains disallowed keyword ".toList ++ p.repr m ++
          "; only SELECT is permitted".toList, .dangerousKeyword⟩
      | none =>
        if (firstToken sanitised).isEmpty then
          .error ⟨"SQL does not start with a SELECT or WITH statement".toList, .notSelect⟩
        else if selectTokens.contains ((firstToken sanitised).map Char.toUpper) then .ok ()
        else
          .error ⟨"SQL starts with ".toList ++ p.repr ((firstToken sanitised).map Char.toUpper) ++
            "; only SELECT and WITH are allowed".toList, .notSelect⟩

end Checks

end AlfredProcessing.Security.SqlSafety
