import Proctor.Pattern.Program
import Proctor.Text.Search

/-! # Replacement

A replacement text names groups by `$name`, `$1` or `${name}`; `$$` stands for one `$`, and a `$`
that begins none of these stands for itself. -/

namespace Proctor.Pattern

inductive Piece
  | plain (c : Char)
  | group (name : List Char)
  deriving Repr, DecidableEq

def isReferenceChar (c : Char) : Bool := c.isAlphanum || c == '_'

/-- A group reference at the start of a text behind its `$`. A bare name is as long as possible. -/
def reference? (s : List Char) : Option (List Char × List Char) :=
  match s with
  | '{' :: rest =>
    match Text.cutAt '}' rest with
    | (name, some after) => some (name, after)
    | (_, none) => none
  | _ =>
    let name := s.takeWhile isReferenceChar
    if name.isEmpty then none else some (name, s.dropWhile isReferenceChar)

/-- Reads a replacement text. `skip` counts the characters that still belong to the last piece. -/
def pieces : (skip : Nat) → List Char → List Piece
  | _, [] => []
  | skip + 1, _ :: rest => pieces skip rest
  | 0, '$' :: '$' :: rest => .plain '$' :: pieces 1 ('$' :: rest)
  | 0, '$' :: rest =>
    match reference? rest with
    | some (name, after) => .group name :: pieces (rest.length - after.length) rest
    | none => .plain '$' :: pieces 0 rest
  | 0, c :: rest => .plain c :: pieces 0 rest

/-- A group's number, written in decimal with an optional `+`. -/
def groupNumber? (name : List Char) : Option Nat :=
  let digits := match name with
    | '+' :: digits => digits
    | _ => name
  let n := Nat.ofDigitChars 10 digits 0
  if !digits.isEmpty && digits.all Char.isDigit && n < Nat.pow 2 64 then some n else none

/-- What a group has matched; nothing for a group that is unknown or took no part. -/
def Program.groupText (p : Program) (m : Match) (text name : List Char) : List Char :=
  let index? := (groupNumber? name).or ((p.names.find? (·.1 == name)).map (·.2))
  let found := do
    let index ← index?
    return slice text (← m.saved.position? (2 * index)) (← m.saved.position? (2 * index + 1))
  found.getD []

/-- Replaces the first match. -/
def Program.replaceFirst (p : Program) (replacement text : List Char) : List Char :=
  match p.find text with
  | none => text
  | some m =>
    let filled := (pieces 0 replacement).flatMap fun
      | .plain c => [c]
      | .group name => p.groupText m text name
    text.take m.start ++ filled ++ text.drop m.stop

end Proctor.Pattern
