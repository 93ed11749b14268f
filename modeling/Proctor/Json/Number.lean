import Proctor.Json.Text

/-! # JSON numbers

Only natural numbers are of use here; every other number is read so that it can be passed over or
found to be of the wrong kind. -/

namespace Proctor.Json

/-- The digits at the start of a text. -/
def digits (s : List Char) : List Char × List Char := s.span Char.isDigit

def digitValue (ds : List Char) : Nat := Nat.ofDigitChars 10 ds 0

/-- As many leading digits, behind those of `start`, as a value below 2⁶⁴ can have. -/
def fitting (start : Nat) : List Char → Nat × Nat
  | [] => (start, 0)
  | d :: rest =>
    let next := 10 * start + (d.toNat - '0'.toNat)
    if next < Nat.pow 2 64 then
      let (value, count) := fitting next rest
      (value, count + 1)
    else (start, 0)

/-- The nearest multiple of a power of two that has at most 53 bits in front of its zeros; of two
equally near ones, the even. A double holds it, if it is not too large. -/
def nearestDouble (n : Nat) : Nat :=
  let unit := Nat.pow 2 (n.log2 - 52)
  let down := n / unit
  let twice := 2 * (n % unit)
  (if twice > unit || (twice = unit && down % 2 = 1) then down + 1 else down) * unit

/-- A product of doubles from here on is nearer to infinity than to any double. -/
def overflow : Nat := Nat.pow 2 1024 - Nat.pow 2 970

/-- A decimal magnitude that no double can hold is refused. It is judged as the product of two
doubles, one for the digits and one for the power of ten. -/
def checkMagnitude (significand : Nat) (exponent : Int) : Except Fault Unit :=
  if significand = 0 || exponent < 0 then .ok ()
  else if exponent > 308 ||
      nearestDouble significand * nearestDouble (Nat.pow 10 exponent.toNat) ≥ overflow then
    .error .malformed
  else .ok ()

/-- An exponent behind its `e`, added to the one so far. Whatever was there before, a number is too
large once its exponent alone has more than 31 bits. -/
def exponentPart (significand : Nat) (exponent : Int) (s : List Char) : Except Fault (List Char) := do
  let (negative, s) := match s with
    | '+' :: s => (false, s)
    | '-' :: s => (true, s)
    | s => (false, s)
  match digits s with
  | ([], []) => throw .truncated
  | ([], _) => throw .malformed
  | (ds, rest) =>
    let e := digitValue ds
    if !negative && e ≥ Nat.pow 2 31 then checkMagnitude significand e
    else checkMagnitude significand (if negative then exponent - e else exponent + e)
    return rest

/-- What follows the integer part of a number that is no integer. -/
def fraction (significand : Nat) (exponent : Int) (s : List Char) : Except Fault (List Char) := do
  let exponentOrEnd (significand : Nat) (exponent : Int) : List Char → Except Fault (List Char)
    | 'e' :: s | 'E' :: s => exponentPart significand exponent s
    | s => do checkMagnitude significand exponent; return s
  match s with
  | '.' :: s =>
    match digits s with
    | ([], []) => throw .truncated
    | ([], _) => throw .malformed
    | (ds, rest) =>
      let (significand, count) := fitting significand ds
      exponentOrEnd significand (exponent - count) rest
  | s => exponentOrEnd significand exponent s

/-- A number behind its sign: its value if it is a natural number below 2⁶⁴ without a sign. -/
def readNumber (positive : Bool) (s : List Char) : Except Fault (Option Nat × List Char) := do
  match digits s with
  | ([], []) => throw .truncated
  | ([], _) => throw .malformed
  | ('0' :: _ :: _, _) => throw .malformed
  | (ds, rest) =>
    let (significand, count) := fitting 0 ds
    let exponent : Int := ds.length - count
    match rest with
    | '.' :: _ | 'e' :: _ | 'E' :: _ => return (none, ← fraction significand exponent rest)
    | _ =>
      if exponent > 0 then checkMagnitude significand exponent
      return (if positive && exponent == 0 then some significand else none, rest)

/-- Passes over a number behind its sign. -/
def skipNumber (s : List Char) : Except Fault (List Char) := do
  let some1 (s : List Char) : Except Fault (List Char) :=
    match digits s with
    | ([], _) => .error .malformed
    | (_, rest) => .ok rest
  let exponent : List Char → Except Fault (List Char)
    | 'e' :: s | 'E' :: s =>
      match s with
      | '+' :: s | '-' :: s => some1 s
      | s => some1 s
    | s => .ok s
  match digits s with
  | ([], _) => throw .malformed
  | ('0' :: _ :: _, _) => throw .malformed
  | (_, '.' :: rest) => exponent (← some1 rest)
  | (_, rest) => exponent rest

end Proctor.Json
