import Proctor.Toml.Date

/-! # TOML values without quotes

The first characters decide between numbers, flags and dates. -/

namespace Proctor.Toml

/-- What begins with a digit behind its sign. A date needs no further look at its first digits; a
decimal integer has no leading zero. -/
def readNumber (s : List Char) : Option Value :=
  let (_, body) := splitSign s
  let rest := body.dropWhile Char.isDigit
  let zeroLed := body.head? == some '0' && body.length > 1
  match rest with
  | [] => if zeroLed then none else readDecimal s
  | c :: _ =>
    if c = '-' || c = ':' then readDateTime s
    else if rest.contains ' ' then none
    else if rest.any (fun c => c == '.' || c == 'e' || c == 'E') then readFloat s
    else if c = '_' && !zeroLed then readDecimal s
    else none

def readScalar (s : List Char) : Option Value :=
  match s with
  | '0' :: 'x' :: digits => readRadix 16 digits
  | '0' :: 'o' :: digits => readRadix 8 digits
  | '0' :: 'b' :: digits => readRadix 2 digits
  | ['t', 'r', 'u', 'e'] => some (.boolean true)
  | ['f', 'a', 'l', 's', 'e'] => some (.boolean false)
  | _ =>
    match (splitSign s).2 with
    | ['i', 'n', 'f'] | ['n', 'a', 'n'] => some (.float true)
    | c :: _ => if c.isDigit || c = '_' then readNumber s else none
    | [] => none

end Proctor.Toml
