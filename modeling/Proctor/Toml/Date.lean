import Proctor.Toml.Number

/-! # TOML dates and times -/

namespace Proctor.Toml

/-- Exactly so many digits, and what follows. -/
def fixedDigits (n : Nat) (s : List Char) : Option (Nat × List Char) :=
  let digits := s.take n
  if digits.length = n && digits.all Char.isDigit then some (valueOf 10 digits, s.drop n) else none

def mark (c : Char) : List Char → Option (List Char)
  | d :: s => if c = d then some s else none
  | [] => none

def daysIn (year month : Nat) : Nat :=
  if month = 2 then
    if year % 4 = 0 && (year % 100 ≠ 0 || year % 400 = 0) then 29 else 28
  else if [4, 6, 9, 11].contains month then 30
  else 31

def readDate (s : List Char) : Option (List Char) := do
  let (year, s) ← fixedDigits 4 s
  let (month, s) ← fixedDigits 2 (← mark '-' s)
  let (day, s) ← fixedDigits 2 (← mark '-' s)
  if 1 ≤ month && month ≤ 12 && 1 ≤ day && day ≤ daysIn year month then some s else none

/-- A time of day. Seconds may be left out. -/
def readTime (s : List Char) : Option (List Char) := do
  let (hour, s) ← fixedDigits 2 s
  let (minute, s) ← fixedDigits 2 (← mark ':' s)
  if hour > 23 || minute > 59 then none
  match s with
  | ':' :: s => do
    let (second, s) ← fixedDigits 2 s
    if second > 60 then none
    match s with
    | '.' :: s =>
      let rest := s.dropWhile Char.isDigit
      if rest.length < s.length then some rest else none
    | _ => some s
  | _ => some s

def readOffset : List Char → Option (List Char)
  | 'Z' :: s | 'z' :: s => some s
  | c :: s => do
    if c ≠ '+' && c ≠ '-' then none
    let (hour, s) ← fixedDigits 2 s
    let (minute, s) ← fixedDigits 2 (← mark ':' s)
    if hour ≤ 23 && minute ≤ 59 then some s else none
  | [] => none

/-- A date, a time, or both with or without an offset. -/
def readDateTime (s : List Char) : Option Value := do
  let rest ← match readDate s with
    | some (c :: time) =>
      if c = 'T' || c = 't' || c = ' ' then
        let rest ← readTime time
        if rest.isEmpty then some [] else readOffset rest
      else none
    | some [] => some []
    | none => readTime s
  if rest.isEmpty then some .date else none

end Proctor.Toml
