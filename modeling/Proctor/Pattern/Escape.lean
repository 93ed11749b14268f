import Proctor.Pattern.Flags
import Proctor.Text.Search

/-! # Escapes

What a backslash makes of the characters behind it. -/

namespace Proctor.Pattern

inductive Escaped
  | literal (c : Char)
  /-- A byte by its number, which has no meaning of its own beyond ASCII. -/
  | byte (c : Char)
  | set (s : CharSet)
  | look (l : Look)

namespace Escaped

/-- Punctuation that a backslash may always stand before. -/
def isEscapable (c : Char) : Bool :=
  c.toNat < 0x80 && !c.isAlphanum && c != '<' && c != '>'

def hexDigit? (c : Char) : Option Nat :=
  if c.isDigit then some (c.toNat - '0'.toNat)
  else if 'a' ≤ c && c ≤ 'f' then some (c.toNat - 'a'.toNat + 10)
  else if 'A' ≤ c && c ≤ 'F' then some (c.toNat - 'A'.toNat + 10)
  else none

def hexChar? (digits : List Char) : Option Char := do
  let n ← digits.foldlM (fun n c => (hexDigit? c).map (16 * n + ·)) 0
  if n.isValidChar then some (Char.ofNat n) else none

/-- A character by its number: so many hexadecimal digits, or any number of them in braces. -/
def hex (fl : Flags) (width : Nat) (s : List Char) : Option (Escaped × List Char) :=
  match fl.skip s with
  | '\x7b' :: rest => do
    let (digits, rest) := fl.span (· != '\x7d') rest
    let rest ← rest.tail?
    if digits.isEmpty then none else return (.literal (← hexChar? digits), rest)
  | s => do
    let (digits, rest) ← fl.take? width s
    let c ← hexChar? digits
    return (if width = 2 then .byte c else .literal c, rest)

/-- The class that a name in braces asks for. A value is asked for by `key=value`, by `key:value`,
or by `key!=value` for all others. -/
def classOf? (name : List Char) : Option (Bool × CharSet) :=
  match Text.splitAt? ['!', '='] name, Text.splitAt? [':'] name, Text.splitAt? ['='] name with
  | some (key, value), _, _ => do return (true, ← CharClass.propertyValue? key value)
  | none, some (key, value), _ | none, none, some (key, value) =>
    do return (false, ← CharClass.propertyValue? key value)
  | none, none, none => do return (false, ← CharClass.property? name)

/-- A Unicode class by its name, in braces if longer than a letter. -/
def property (fl : Flags) (negated : Bool) (s : List Char) : Option (Escaped × List Char) := do
  let ((differs, chars), rest) ← match fl.skip s with
    | '\x7b' :: rest => do
      let (name, rest) := fl.span (· != '\x7d') rest
      pure (← classOf? name, ← rest.tail?)
    | '\\' :: _ | [] => none
    | c :: rest => do pure ((false, ← CharClass.property? [c]), rest)
  if !fl.unicode then none
  return (.set (← fl.signed? (negated != differs) (fl.fold chars)), rest)

/-- One of the classes that have a letter, or all other characters. -/
def letterClass (fl : Flags) (negated : Bool) (unicode ascii : CharSet) (rest : List Char) :
    Option (Escaped × List Char) := do
  return (.set (← fl.signed? negated (if fl.unicode then unicode else ascii)), rest)

/-- The end of a word or the like, alone or with its kind in braces. Braces that begin with neither a
letter nor a hyphen are a repetition. -/
def boundary (fl : Flags) (s : List Char) : Option (Escaped × List Char) :=
  let isName (c : Char) := c.isAlpha || c == '-'
  match s with
  | '\x7b' :: rest =>
    match fl.skip rest with
    | [] => none
    | c :: _ =>
      if !isName c then some (.look (fl.word .boundary), s)
      else
        let (name, rest) := fl.span isName rest
        match String.ofList name, rest with
        | "start", '\x7d' :: rest => some (.look (fl.word .start), rest)
        | "end", '\x7d' :: rest => some (.look (fl.word .stop), rest)
        | "start-half", '\x7d' :: rest => some (.look (fl.word .startHalf), rest)
        | "end-half", '\x7d' :: rest => some (.look (fl.word .stopHalf), rest)
        | _, _ => none
  | _ => some (.look (fl.word .boundary), s)

/-- What follows a backslash. -/
def read (fl : Flags) : List Char → Option (Escaped × List Char)
  | [] => none
  | 'x' :: rest => hex fl 2 rest
  | 'u' :: rest => hex fl 4 rest
  | 'U' :: rest => hex fl 8 rest
  | 'p' :: rest => property fl false rest
  | 'P' :: rest => property fl true rest
  | 'd' :: rest => letterClass fl false CharClass.digit CharClass.asciiDigit rest
  | 'D' :: rest => letterClass fl true CharClass.digit CharClass.asciiDigit rest
  | 's' :: rest => letterClass fl false CharClass.blank CharClass.asciiBlank rest
  | 'S' :: rest => letterClass fl true CharClass.blank CharClass.asciiBlank rest
  | 'w' :: rest => letterClass fl false CharClass.word CharClass.asciiWord rest
  | 'W' :: rest => letterClass fl true CharClass.word CharClass.asciiWord rest
  | 'a' :: rest => some (.literal '\x07', rest)
  | 'f' :: rest => some (.literal '\x0c', rest)
  | 't' :: rest => some (.literal '\t', rest)
  | 'n' :: rest => some (.literal '\n', rest)
  | 'r' :: rest => some (.literal '\r', rest)
  | 'v' :: rest => some (.literal '\x0b', rest)
  | 'A' :: rest => some (.look .textStart, rest)
  | 'z' :: rest => some (.look .textEnd, rest)
  | 'B' :: rest => some (.look (fl.word .inside), rest)
  | '<' :: rest => some (.look (fl.word .start), rest)
  | '>' :: rest => some (.look (fl.word .stop), rest)
  | 'b' :: rest => boundary fl rest
  | c :: rest => if isEscapable c then some (.literal c, rest) else none

/-- What it means outside of brackets. -/
def expr? (fl : Flags) : Escaped → Option Expr
  | literal c => some (fl.literal c)
  | byte c => if fl.unicode || c.toNat < 0x80 then some (fl.literal c) else none
  | set s => some (.ofSet s)
  | look l => some (.look l)

end Escaped
end Proctor.Pattern
