import Proctor.Toml.Scalar
import Proctor.Text.Search

/-! # TOML strings -/

namespace Proctor.Toml

/-- Tabs aside, control characters stand in no string and in no comment. -/
def isForbidden (c : Char) : Bool := (c.toNat < 0x20 && c != '\t') || c.toNat == 0x7f

def isBlank (c : Char) : Bool := c == ' ' || c == '\t'

/-- What follows a line break. A carriage return alone is none. -/
def lineBreak? : List Char → Option (List Char)
  | '\n' :: s => some s
  | '\r' :: '\n' :: s => some s
  | _ => none

def hexScalar (n : Nat) (s : List Char) : Option (Char × Nat) :=
  let digits := s.take n
  if digits.length = n && digits.all isHexDigit then
    let code := valueOf 16 digits
    if code.isValidChar then some (Char.ofNat code, n + 1) else none
  else none

/-- The character behind a backslash and the length of its text. -/
def escapedChar : List Char → Option (Char × Nat)
  | 'b' :: _ => some ('\x08', 1)
  | 't' :: _ => some ('\t', 1)
  | 'n' :: _ => some ('\n', 1)
  | 'f' :: _ => some ('\x0c', 1)
  | 'r' :: _ => some ('\r', 1)
  | 'e' :: _ => some ('\x1b', 1)
  | '"' :: _ => some ('"', 1)
  | '\\' :: _ => some ('\\', 1)
  | 'x' :: s => hexScalar 2 s
  | 'u' :: s => hexScalar 4 s
  | 'U' :: s => hexScalar 8 s
  | _ => none

/-- How much white space a backslash at the end of a line swallows: the rest of the line, the break
and all blanks and breaks behind it. -/
def swallowed (s : List Char) : Option Nat := do
  let onLine := s.dropWhile isBlank
  let rest ← lineBreak? onLine
  let after := skipAll rest
  return s.length - after.length
where
  skipAll : List Char → List Char
    | [] => []
    | '\r' :: '\n' :: s => skipAll s
    | c :: s => if isBlank c || c == '\n' then skipAll s else c :: s

/-- A string on one line behind its opening quote, and what follows the closing one. -/
def readLine (quote : Char) : (taken : Nat) → List Char → Option (List Char × List Char)
  | _, [] => none
  | taken + 1, _ :: s => readLine quote taken s
  | 0, c :: s =>
    if c = quote then some ([], s)
    else if isForbidden c then none
    else if c = '\\' && quote = '"' then do
      let (c, length) ← escapedChar s
      let (text, rest) ← readLine quote length s
      return (c :: text, rest)
    else do
      let (text, rest) ← readLine quote 0 s
      return (c :: text, rest)

/-- How many quotes stand at the front. -/
def quoteCount (quote : Char) (s : List Char) : Nat := (s.takeWhile (· == quote)).length

/-- A string over several lines behind its opening quotes. Three quotes end it; one or two more in
front of them belong to the text. -/
def readLines (quote : Char) : (taken : Nat) → List Char → Option (List Char × List Char)
  | _, [] => none
  | taken + 1, _ :: s => readLines quote taken s
  | 0, c :: s =>
    if c = quote then
      let count := quoteCount quote (c :: s)
      if count ≥ 6 then none
      else if count ≥ 3 then some (List.replicate (count - 3) quote, (c :: s).drop count)
      else do
        let (text, rest) ← readLines quote 0 s
        return (c :: text, rest)
    else if c = '\\' && quote = '"' then
      match swallowed s with
      | some length => readLines quote length s
      | none => do
        let (c, length) ← escapedChar s
        let (text, rest) ← readLines quote length s
        return (c :: text, rest)
    else if isForbidden c && c != '\n' && !(c == '\r' && s.head? == some '\n') then none
    else do
      let (text, rest) ← readLines quote 0 s
      return (c :: text, rest)

/-- A string with its quotes. A line break right behind three opening quotes is dropped. -/
def readString (quote : Char) (s : List Char) : Option (List Char × List Char) :=
  match Text.dropPrefix? [quote, quote, quote] s with
  | some s => readLines quote 0 ((lineBreak? s).getD s)
  | none =>
    match s with
    | c :: s => if c = quote then readLine quote 0 s else none
    | [] => none

end Proctor.Toml
