import Proctor.Toml.Value

/-! # TOML numbers

A document must write its numbers in the right form; whether such a text stands for a number is
kept in the value, for whoever asks for the number. -/

namespace Proctor.Toml

def isHexDigit (c : Char) : Bool := c.isDigit || ('a' ≤ c && c ≤ 'f') || ('A' ≤ c && c ≤ 'F')

def hexDigitValue (c : Char) : Nat :=
  if c.isDigit then c.toNat - '0'.toNat
  else if c ≤ 'F' then c.toNat - 'A'.toNat + 10
  else c.toNat - 'a'.toNat + 10

def valueOf (base : Nat) (digits : List Char) : Nat :=
  digits.foldl (fun n c => base * n + hexDigitValue c) 0

def splitSign : List Char → Bool × List Char
  | '-' :: s => (true, s)
  | '+' :: s => (false, s)
  | s => (false, s)

def withoutUnderscores (s : List Char) : List Char := s.filter (· != '_')

/-- Whether each underscore has a digit on both sides. -/
def separates (isDigit : Char → Bool) : List Char → Bool
  | '_' :: _ => false
  | c :: '_' :: d :: s => isDigit c && isDigit d && separates isDigit (d :: s)
  | [_, '_'] => false
  | _ :: s => separates isDigit s
  | [] => true

/-- The same behind a sign, which may have an underscore in front of the first digit. -/
def separatesSigned (isDigit : Char → Bool) (s : List Char) : Bool :=
  match s with
  | sign :: '_' :: d :: rest =>
    if sign == '+' || sign == '-' then isDigit d && separates isDigit (d :: rest)
    else separates isDigit s
  | _ => separates isDigit s

/-! ### Integers -/

/-- The integer of a text, if all its characters are digits and it has up to 128 bits. -/
def integerOf? (base : Nat) (negative : Bool) (digits : List Char) : Option Int :=
  if digits.isEmpty || !digits.all (fun c => isHexDigit c && hexDigitValue c < base) then none
  else
    let n : Int := valueOf base digits
    let n := if negative then -n else n
    if -(Int.pow 2 127) ≤ n && n < Int.pow 2 128 then some n else none

/-- A decimal integer. Behind an underscore its form does not tell the bases apart. -/
def readDecimal (s : List Char) : Option Value :=
  if separatesSigned isHexDigit s then
    let (negative, digits) := splitSign s
    some (.integer (integerOf? 10 negative (withoutUnderscores digits)))
  else none

/-- An integer of another base, behind the mark of its base. -/
def readRadix (base : Nat) (s : List Char) : Option Value :=
  if s.all (fun c => c == '_' || (isHexDigit c && hexDigitValue c < base)) && separates isHexDigit s
  then some (.integer (integerOf? base false (withoutUnderscores s)))
  else none

/-! ### Floats -/

/-- The digits at the front, and what follows. There must be one; underscores are left out. -/
def digitRun (s : List Char) : Option (List Char × List Char) :=
  let run := s.takeWhile fun c => c.isDigit || c == '_'
  let digits := withoutUnderscores run
  if digits.isEmpty then none else some (digits, s.drop run.length)

/-- Whether digits times a power of ten round to a double below infinity. -/
def fitsDouble (digits : List Char) (exponent : Int) : Bool :=
  let digits := digits.dropWhile (· == '0')
  let magnitude := exponent + digits.length
  digits.isEmpty || magnitude < 309 ||
    (magnitude = 309 &&
      valueOf 10 digits * Nat.pow 10 exponent.toNat <
        (Nat.pow 2 1024 - Nat.pow 2 970) * Nat.pow 10 (-exponent).toNat)

/-- What stands behind the mark of an exponent. -/
def readExponent (s : List Char) : Option (Int × List Char) := do
  let (negative, s) := splitSign s
  let (digits, s) ← digitRun s
  let exponent : Int := valueOf 10 digits
  return (if negative then -exponent else exponent, s)

/-- A float with a fraction, an exponent or both. -/
def readFloat (s : List Char) : Option Value := do
  let (_, body) := splitSign s
  let (whole, rest) ← digitRun body
  if body.head? == some '0' && whole.length > 1 then none
  let (fraction, rest) ← match rest with
    | '.' :: rest => digitRun rest
    | _ => some ([], rest)
  let (exponent, rest) ← match rest with
    | 'e' :: rest | 'E' :: rest => readExponent rest
    | _ => some (0, rest)
  if rest.isEmpty && separatesSigned Char.isDigit s then
    return .float (fitsDouble (whole ++ fraction) (exponent - fraction.length))
  else none

end Proctor.Toml
