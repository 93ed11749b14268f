import Proctor.Pattern.Escape

/-! # Classes in brackets

A class lists characters, ranges and other classes. It may be combined with further ones by the
operators `&&`, `--` and `~~`, from left to right. -/

namespace Proctor.Pattern

inductive SetOp
  | inter | without | either

def SetOp.apply : SetOp → CharSet → CharSet → CharSet
  | inter => .inter
  | without => .without
  | either => .either

/-- A class with the levels of classes and operators that stand in each other. -/
structure ClassPart where
  set : CharSet
  depth : Nat

/-- The items of a class, put together. -/
structure ClassItems where
  set : CharSet := .empty
  count : Nat := 0
  deepest : Nat := 0

namespace ClassItems

def add (items : ClassItems) (part : ClassPart) : ClassItems :=
  ⟨items.set.union part.set, items.count + 1, max items.deepest part.depth⟩

/-- Several items are a level of their own. -/
def part (items : ClassItems) : ClassPart :=
  ⟨items.set, if items.count ≤ 1 then items.deepest else items.deepest + 1⟩

end ClassItems

/-- What an open class waits for: the end of a bracket inside the class `outer`, or the right side
of an operator. -/
inductive ClassFrame
  | bracket (outer : ClassItems) (negated : Bool)
  | operator (op : SetOp) (left : ClassPart)

namespace Bracket

/-- Hyphens at the front of a class. -/
def hyphens (fl : Flags) : (bound : Nat) → ClassItems → List Char → ClassItems × List Char
  | bound + 1, items, '-' :: rest =>
    hyphens fl bound (items.add ⟨.single '-', 0⟩) (fl.skip rest)
  | _, items, s => (items, s)

/-- The start of a class behind its bracket: whether it is negated, and its first items. Leading
hyphens, and a `]` in first place, are plain characters. -/
def start (fl : Flags) (s : List Char) : Bool × ClassItems × List Char :=
  let s := fl.skip s
  let (negated, s) := match s with
    | '^' :: rest => (true, fl.skip rest)
    | _ => (false, s)
  match s with
  | ']' :: rest => (negated, ClassItems.add {} ⟨.single ']', 0⟩, rest)
  | _ => (negated, hyphens fl s.length {} s)

/-- A class such as `[:alpha:]` behind its bracket. -/
def named? : List Char → Option ((Bool × CharSet) × List Char)
  | ':' :: rest => do
    let (negated, rest) := match rest with
      | '^' :: rest => (true, rest)
      | _ => (false, rest)
    match rest.span (· != ':') with
    | (name, ':' :: ']' :: after) =>
      return ((negated, ← CharClass.named? (String.ofList name)), after)
    | _ => none
  | _ => none

def item (fl : Flags) : List Char → Option (Escaped × List Char)
  | '\\' :: rest => Escaped.read fl rest
  | c :: rest => some (.literal c, rest)
  | [] => none

/-- The character of an item. Without Unicode it must be one of ASCII. -/
def char? (fl : Flags) : Escaped → Option Char
  | .literal c | .byte c => if fl.unicode || c.toNat < 0x80 then some c else none
  | .set _ | .look _ => none

def alone? (fl : Flags) : Escaped → Option CharSet
  | .set s => some s
  | e => (char? fl e).map .single

/-- One character, set or range of a class. -/
def range (fl : Flags) (s : List Char) : Option (CharSet × List Char) := do
  let (first, rest) ← item fl s
  match fl.skip rest with
  | '-' :: more =>
    let next := fl.peek more
    if next == some ']' || next == some '-' then return (← alone? fl first, rest)
    else
      let (last, rest) ← item fl (fl.skip more)
      let (a, b) := (← char? fl first, ← char? fl last)
      if a ≤ b then return (.range a b, rest) else none
  | _ => return (← alone? fl first, rest)

/-- Completes an operator that waits on top of the stack. -/
def closeOperator (fl : Flags) (right : ClassPart) : List ClassFrame → ClassPart × List ClassFrame
  | .operator op left :: frames =>
    (⟨op.apply (fl.fold left.set) (fl.fold right.set), max left.depth right.depth + 1⟩, frames)
  | frames => (right, frames)

/-- The rest of a class, with its items so far. -/
def body (fl : Flags) (frames : List ClassFrame) (items : ClassItems) (s : List Char) :
    Option (ClassPart × List Char) :=
  let s' := fl.skip s
  let continue? (frames : List ClassFrame) (items : ClassItems) (rest : List Char) :=
    if _h : rest.length < s.length then body fl frames items rest else none
  let operator (op : SetOp) (rest : List Char) :=
    let (left, frames) := closeOperator fl items.part frames
    continue? (.operator op left :: frames) {} rest
  match s' with
  | [] => none
  | '[' :: rest =>
    match named? rest with
    | some ((negated, set), after) => do
      continue? frames (items.add ⟨← fl.signed? negated (fl.fold set), 0⟩) after
    | none =>
      let (negated, first, after) := start fl rest
      continue? (.bracket items negated :: frames) first after
  | ']' :: rest => do
    let (part, frames) := closeOperator fl items.part frames
    match frames with
    | .bracket outer negated :: frames =>
      let part : ClassPart := ⟨← fl.signed? negated (fl.fold part.set), part.depth + 1⟩
      if frames.isEmpty then some (part, rest) else continue? frames (outer.add part) rest
    | _ => none
  | '&' :: '&' :: rest => operator .inter rest
  | '-' :: '-' :: rest => operator .without rest
  | '~' :: '~' :: rest => operator .either rest
  | _ => do
    let (set, rest) ← range fl s'
    continue? frames (items.add ⟨set, 0⟩) rest
termination_by s.length

/-- A class behind its bracket. -/
def read (fl : Flags) (s : List Char) : Option (ClassPart × List Char) :=
  let (negated, first, rest) := start fl s
  body fl [.bracket {} negated] first rest

end Bracket
end Proctor.Pattern
