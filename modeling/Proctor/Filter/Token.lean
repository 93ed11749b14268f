import Proctor.Filter.Condition

/-! # Tokens of a filter text

The unescaped characters `&`, `|`, `(` and `)` are tokens of their own; what stands between them is
trimmed, and dropped if nothing is left. -/

namespace Proctor.Filter
open Proctor.Text

inductive Connective
  | or
  | and
  deriving Repr, DecidableEq

/-- `&` binds tighter than `|`. -/
def Connective.strength : Connective → Nat
  | or => 1
  | and => 2

def Connective.symbol : Connective → Char
  | or => '|'
  | and => '&'

def Connective.combine : Connective → Bool → Bool → Bool
  | or, a, b => a || b
  | and, a, b => a && b

inductive Token
  | connective (op : Connective)
  | opening
  | closing
  | operand (text : List Char)
  deriving Repr, DecidableEq

namespace Token

def ofSeparator? : Char → Option Token
  | '&' => some (connective .and)
  | '|' => some (connective .or)
  | '(' => some opening
  | ')' => some closing
  | _ => none

/-- A text cut at its unescaped separators: the text before the first, then each separator with the
text up to the next. -/
structure Cut where
  head : List Char
  tail : List (Token × List Char)
  deriving Repr, DecidableEq

def Cut.prepend (s : List Char) (cut : Cut) : Cut := { cut with head := s ++ cut.head }

/-- A backslash takes the next character with it. -/
def Cut.ofText : List Char → Cut
  | [] => ⟨[], []⟩
  | '\\' :: c :: rest => (ofText rest).prepend ['\\', c]
  | c :: rest =>
    match ofSeparator? c with
    | some separator => let cut := ofText rest; ⟨[], (separator, cut.head) :: cut.tail⟩
    | none => (ofText rest).prepend [c]

def operand? (text : List Char) : List Token :=
  let operand := trim text
  if operand.isEmpty then [] else [.operand operand]

def ofText (text : List Char) : List Token :=
  let cut := Cut.ofText text
  operand? cut.head ++ cut.tail.flatMap fun (separator, text) => separator :: operand? text

/-- Whether a `(` is followed at once by a `)`. -/
def hasEmptyParenthesis : List Token → Bool
  | opening :: closing :: _ => true
  | _ :: rest => hasEmptyParenthesis rest
  | [] => false

end Token
end Proctor.Filter
