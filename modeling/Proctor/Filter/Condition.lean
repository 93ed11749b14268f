import Proctor.Property
import Proctor.Text.Blank
import Proctor.Text.Caseless
import Proctor.Text.Search
import Proctor.Filter.Error
import Proctor.Filter.Escape

/-! # Conditions

A condition is one `name operator value` test of a property, the leaf of a filter. This module
reads and writes conditions, and says when one holds of a property's values. -/

namespace Proctor.Filter
open Proctor.Text

inductive Operation
  | equal
  | notEqual
  | contains
  | notContains
  deriving Repr, DecidableEq

namespace Operation

def symbol : Operation → List Char
  | equal => ['=']
  | notEqual => ['!', '=']
  | contains => ['~']
  | notContains => ['!', '~']

/-- Whether the operation searches inside values. -/
def isContainment : Operation → Bool
  | contains | notContains => true
  | equal | notEqual => false

end Operation

/-- A text cut at its unescaped operators: what stands before the first, then each operator with
the text up to the next. -/
structure Cut where
  head : List Char
  tail : List (Operation × List Char)
  deriving Repr, DecidableEq

namespace Cut

def prepend (s : List Char) (cut : Cut) : Cut := { cut with head := s ++ cut.head }

def behind (op : Operation) (cut : Cut) : Cut := ⟨[], (op, cut.head) :: cut.tail⟩

/-- A backslash takes the next character with it, and a lone `!` is plain text. -/
def ofText : List Char → Cut
  | [] => ⟨[], []⟩
  | '\\' :: c :: rest => (ofText rest).prepend ['\\', c]
  | '!' :: '=' :: rest => (ofText rest).behind .notEqual
  | '!' :: '~' :: rest => (ofText rest).behind .notContains
  | '=' :: rest => (ofText rest).behind .equal
  | '~' :: rest => (ofText rest).behind .contains
  | c :: rest => (ofText rest).prepend [c]

end Cut

/-- Cuts the text between two operators at its last inner blank, where the value of the first
condition ends and the name of the next begins; `none` if there is no such place. -/
def gap? (between : List Char) : Option (List Char × List Char) :=
  let kept := trimEnd between
  let name := kept.reverse.takeWhile fun c => !isBlank c
  let value := kept.take (kept.length - name.length - 1)
  if name.length < kept.length && !allBlank value then
    some (value, between.drop value.length)
  else none

/-- The conditions of a text without connectives, in order. Conditions that are only set apart by
blanks come out as several pieces. -/
def Cut.pieces (front : List Char) : List (Operation × List Char) → List (List Char)
  | [] => [trim front]
  | [(op, value)] => [trim (front ++ op.symbol ++ value)]
  | (op, between) :: next :: rest =>
    match gap? between with
    | some (value, name) => trim (front ++ op.symbol ++ value) :: pieces name (next :: rest)
    | none => pieces (front ++ op.symbol ++ between) (next :: rest)

def splitJuxtaposed (token : List Char) : List (List Char) :=
  let cut := Cut.ofText token
  Cut.pieces cut.head cut.tail

structure Condition where
  name : String
  operation : Operation
  value : String
  deriving Repr, DecidableEq

/-- The keyword for the fully qualified name cut at its first space. -/
def normalizedName : String := "NFQN"

def fullyQualifiedName : String := "FullyQualifiedName"

/-- Whether a property name is the keyword, in any case. -/
def isNormalized (name : String) : Bool := sameName name normalizedName

/-- The property that is looked up for a name. -/
def lookupName (name : String) : String :=
  if isNormalized name then fullyQualifiedName else name

/-- A fully qualified name up to its first space. -/
def normalize (value : String) : String :=
  String.ofList (value.toList.takeWhile (· != ' '))

namespace Condition

private def unescaped (text : List Char) : Except FilterError String :=
  match unescape text with
  | some plain => .ok (String.ofList plain)
  | none => .error (.invalidEscape (String.ofList text))

/-- Reads one condition: exactly one unescaped operator behind a name that is not blank. Name and
value are trimmed, then unescaped. -/
def parse (token : List Char) : Except FilterError Condition :=
  match Cut.ofText token with
  | ⟨front, [(operation, back)]⟩ =>
    let name := trim front
    if name.isEmpty then .error (.invalidCondition (String.ofList (trim token)))
    else do
      let name ← unescaped name
      let value ← unescaped (trim back)
      return { name, operation, value }
  | _ => .error (.invalidCondition (String.ofList (trim token)))

private theorem unescaped_eq_ok {text : List Char} {plain : String} :
    unescaped text = .ok plain ↔ unescape text = some plain.toList := by
  unfold unescaped
  cases unescape text with
  | none => simp
  | some u => simp [← String.toList_inj]

/-- What a text must be to be read as a given condition. -/
theorem parse_eq_ok {token : List Char} {c : Condition} :
    parse token = .ok c ↔ ∃ front back, Cut.ofText token = ⟨front, [(c.operation, back)]⟩ ∧
      trim front ≠ [] ∧ unescape (trim front) = some c.name.toList ∧
      unescape (trim back) = some c.value.toList := by
  simp only [← unescaped_eq_ok]
  constructor
  · intro h
    unfold parse at h
    split at h
    · next front operation back hcut =>
      dsimp only at h
      split at h
      · simp at h
      · next hname =>
        cases hn : unescaped (trim front) with
        | error e => simp [hn, bind, Except.bind] at h
        | ok name =>
          cases hv : unescaped (trim back) with
          | error e => simp [hn, hv, bind, Except.bind] at h
          | ok value =>
            obtain rfl : ⟨name, operation, value⟩ = c := by
              simpa [hn, hv, bind, Except.bind, pure, Except.pure] using h
            exact ⟨front, back, hcut, by simpa using hname, hn, hv⟩
    · simp at h
  · rintro ⟨front, back, hcut, hname, hn, hv⟩
    simp [parse, hcut, hname, hn, hv, bind, Except.bind, pure, Except.pure]

def render (c : Condition) : List Char :=
  escape c.name.toList ++ c.operation.symbol ++ escape c.value.toList

def isNormalized (c : Condition) : Bool := Filter.isNormalized c.name

def lookupName (c : Condition) : String := Filter.lookupName c.name

/-- The values a condition on `name` looks at, given the answer for the property. -/
def candidates (c : Condition) (answer : Option PropertyValue) : List String :=
  let values := (answer.map PropertyValue.toList).getD []
  if c.isNormalized then values.map normalize else values

/-- Whether the condition holds of a property's values. A negated operation asks that no value
match, so it holds of an absent property. -/
def holds (c : Condition) (answer : Option PropertyValue) : Bool :=
  let isPart (value : String) := occursIn c.value.toList value.toList
  match c.operation with
  | .equal => (c.candidates answer).any (· == c.value)
  | .notEqual => !(c.candidates answer).any (· == c.value)
  | .contains => (c.candidates answer).any isPart
  | .notContains => !(c.candidates answer).any isPart

/-- Whether a property of the given kind can bear the operation. -/
def admits (c : Condition) : Option PropertyKind → Bool
  | none => false
  | some kind => !c.operation.isContainment || kind.isTextual

/-- Whether the condition asks for a supported property, and one of a fitting kind if there is a
resolver. The resolver is asked only for supported names. -/
def isValid {m : Type → Type} [Monad m] (supported : List String)
    (resolve : Option (String → m (Option PropertyKind))) (c : Condition) : m Bool :=
  if supported.any (sameName · c.lookupName) then
    match resolve with
    | none => pure true
    | some ask => return c.admits (← ask c.lookupName)
  else pure false

end Condition
end Proctor.Filter
