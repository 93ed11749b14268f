import Proctor.Pattern.Basic
import Proctor.Pattern.Encoding

/-! # The size of patterns

A pattern is refused if the automaton for it takes too much memory. That automaton reads bytes, and
there is a second one that reads backward. A state takes 32 bytes, and more for each way out of a
state that has several. -/

namespace Proctor.Pattern

inductive Direction
  | forward | backward
  deriving Repr, DecidableEq

namespace Memory

def state : Nat := 32

/-- A state that reads one byte, in one of some ranges. -/
def reading (ranges : Nat) : Nat := state + 8 * ranges

/-- A state that goes on in one of several ways. -/
def fork (ways : Nat) : Nat := state + 4 * ways

/-- A set of characters, behind which all ways join. -/
def set (d : Direction) (s : CharSet) : Nat :=
  if s.isAscii then reading s.ranges.length + state
  else
    let strings := s.encodings
    match d with
    | .forward =>
      (automaton strings 4).foldl (fun sum node => sum + reading (branches node).length) state
    | .backward => fork strings.length + state * countFronts strings + state

def byteLength (s : List Char) : Nat := s.foldl (fun sum c => sum + c.utf8Size) 0

def bytes (d : Direction) (s : List Char) : List UInt8 :=
  let bytes := (String.ofList s).toUTF8.toList
  match d with
  | .forward => bytes
  | .backward => bytes.reverse

/-! ### Choices between texts

These are read by a tree, whose nodes keep the order of the texts: what comes behind a text that
ends at a node is kept apart from what comes before it. -/

/-- The texts at a node in groups with the same first byte, the byte taken off. -/
def byFirst : List (List UInt8) → List (UInt8 × List (List UInt8))
  | [] => []
  | [] :: rest => byFirst rest
  | (b :: s) :: rest =>
    let groups := byFirst rest
    match groups.find? (·.1 == b) with
    | some (_, group) => (b, s :: group) :: groups.filter (·.1 != b)
    | none => (b, [s]) :: groups

/-- The texts at a node, cut where one ends. -/
def segments : List (List UInt8) → List (List (List UInt8))
  | [] => [[]]
  | [] :: rest => [] :: segments rest
  | s :: rest =>
    match segments rest with
    | segment :: more => (s :: segment) :: more
    | [] => [[s]]

/-- That several texts end at a node counts once, as long as no other text has come. -/
def oneEnd : List (List UInt8) → List (List UInt8)
  | [] :: rest => [] :: rest.dropWhile List.isEmpty
  | texts => texts

/-- A node of the tree with all below it. Where nothing goes on there is no node. -/
def tree : (length : Nat) → List (List UInt8) → Nat
  | 0, _ => 0
  | length + 1, texts =>
    if texts.all List.isEmpty then 0
    else
      let segments := segments (oneEnd texts)
      let groups := (segments.map byFirst).filter (!·.isEmpty)
      let read := groups.map fun group =>
        (if group.length = 1 then state else reading group.length) +
          (group.map fun (_, texts) => tree length texts).sum
      fork (groups.length + (segments.length - 1)) + read.sum

def texts? (es : List Expr) : Option (List (List Char)) :=
  es.mapM fun
    | .text s => some s
    | _ => none

/-- What stands in a choice joins the ways of the choice. -/
def expr (d : Direction) (inChoice : Bool) : Expr → Nat
  | .empty | .look _ => state
  | .text s => state * byteLength s
  | .set s => set d s
  | .seq a b => expr d false a + expr d false b
  | .alt a b =>
    match if inChoice then none else texts? (Expr.alternatives (.alt a b)) with
    | some texts =>
      let strings := texts.map (bytes d)
      tree ((strings.map List.length).foldl max 0) strings + state
    | none =>
      let last := match b with
        | .alt _ _ => 0
        | _ => 4
      (if inChoice then 0 else fork 0 + state) + expr d false a + 4 + expr d true b + last
  | .capture _ e => expr d false e + (if d = .forward then 2 * state else 0)
  | .rounds e least most _ =>
    let round := expr d false e
    match least, most with
    | 0, none => if e.takesSome then fork 2 + round else round + 2 * fork 2 + state
    | n, none => n * round + fork 2
    | 0, some 1 => fork 2 + round + state
    | m, some n =>
      if m = n then m * round
      else (if m = 0 then state else m * round) + state + (n - m) * (round + fork 2)

end Memory

namespace Expr

/-- Whether a condition is sure to hold at one end of every match. -/
def isHeld (l : Look) (atStart : Bool) : Expr → Bool
  | look l' => l = l'
  | seq a b =>
    if atStart then a.isHeld l atStart || (a.takesNothing && b.isHeld l atStart)
    else b.isHeld l atStart || (b.takesNothing && a.isHeld l atStart)
  | alt a b => a.isHeld l atStart && b.isHeld l atStart
  | capture _ e => e.isHeld l atStart
  | rounds e least _ _ => least != 0 && e.isHeld l atStart
  | empty | text _ | set _ => false

/-- The memory for an automaton that reads in one direction. Unless a match must begin at the end of
the text, it may pass over some bytes first. -/
def memory (e : Expr) (d : Direction) : Nat :=
  let anchored := match d with
    | .forward => e.isHeld .textStart true
    | .backward => e.isHeld .textEnd false
  let passing := if anchored then Memory.state else Memory.fork 2 + Memory.reading 1 + Memory.state
  let whole := match d with
    | .forward => Expr.capture 0 e
    | .backward => e
  passing + Memory.expr d false whole + Memory.state

def memoryLimit : Nat := 10 * Nat.pow 2 20

def isSmall (e : Expr) : Bool :=
  e.memory .forward ≤ memoryLimit && e.memory .backward ≤ memoryLimit

end Expr
end Proctor.Pattern
