import Proctor.Pattern.CharClass

/-! # Patterns

The regular expressions that transform property values before a set tests them. Expressions are
built by functions that keep them in a simple form: sequences and alternatives are not nested, plain
characters side by side are one text, and what is a set of characters is written as a set. -/

namespace Proctor.Pattern

/-- A condition on the words on both sides of a position. -/
inductive WordLook
  | boundary | inside
  | start | stop
  | startHalf | stopHalf
  deriving Repr, DecidableEq

/-- A condition on the characters on both sides of a position. -/
inductive Look
  | textStart | textEnd
  | lineStart | lineEnd
  /-- Line ends at which a carriage return counts as well. -/
  | lineStartCrlf | lineEndCrlf
  /-- Words may be made of ASCII characters only. -/
  | word (l : WordLook) (ascii : Bool)
  deriving Repr, DecidableEq

/-- Whether a condition holds between a character that belongs to a word or not and another one. -/
def WordLook.holds (before after : Bool) : WordLook → Bool
  | boundary => before != after
  | inside => before == after
  | start => !before && after
  | stop => before && !after
  | startHalf => !before
  | stopHalf => !after

def Look.holds (before after : Option Char) : Look → Bool
  | textStart => before.isNone
  | textEnd => after.isNone
  | lineStart => before.isNone || before == some '\n'
  | lineEnd => after.isNone || after == some '\n'
  | lineStartCrlf =>
    before.isNone || before == some '\n' || (before == some '\r' && after != some '\n')
  | lineEndCrlf =>
    after.isNone || after == some '\r' || (after == some '\n' && before != some '\r')
  | word l ascii =>
    let chars := if ascii then CharClass.asciiWord else CharClass.word
    l.holds (before.any chars.contains) (after.any chars.contains)

inductive Expr
  | empty
  | text (s : List Char)
  | set (s : CharSet)
  | look (l : Look)
  | seq (a b : Expr)
  /-- The first alternative is preferred. -/
  | alt (a b : Expr)
  /-- A greedy repetition prefers more rounds. -/
  | rounds (e : Expr) (least : Nat) (most : Option Nat) (greedy : Bool)
  | capture (index : Nat) (e : Expr)
  deriving Repr, DecidableEq

namespace Expr

/-- How many characters a match takes at least, unless there is a place in the expression where no
character can match. -/
def least? : Expr → Option Nat
  | empty | look _ => some 0
  | text s => some s.length
  | set s => if s.isEmpty then none else some 1
  | seq a b => do return (← a.least?) + (← b.least?)
  | alt a b => do return min (← a.least?) (← b.least?)
  | rounds e least _ _ => do return least * (← e.least?)
  | capture _ e => e.least?

/-- Whether it is certain that every match takes a character. -/
def takesSome (e : Expr) : Bool := e.least?.any (0 < ·)

/-- Whether no match takes a character. -/
def takesNothing : Expr → Bool
  | empty | look _ => true
  | text s => s.isEmpty
  | set _ => false
  | seq a b | alt a b => a.takesNothing && b.takesNothing
  | rounds e _ most _ => most == some 0 || e.takesNothing
  | capture _ e => e.takesNothing

/-! ### Keeping expressions simple -/

def ofSet (s : CharSet) : Expr :=
  match s.single? with
  | some c => .text [c]
  | none => .set s

/-- A repetition. There is no use in more than one round of what takes nothing. -/
def repeated (e : Expr) (least : Nat) (most : Option Nat) (greedy : Bool) : Expr :=
  let least := if e.takesNothing then min least 1 else least
  let most := if e.takesNothing then some (min (most.getD 1) 1) else most
  if most = some 0 then .empty
  else if least = 1 && most = some 1 then e
  else .rounds e least most greedy

/-- What follows each other in an expression. -/
def parts : Expr → List Expr
  | empty => []
  | seq a b => a :: b.parts
  | e => [e]

def joinTexts : List Expr → List Expr
  | [] => []
  | text s :: rest =>
    match joinTexts rest with
    | text t :: more => .text (s ++ t) :: more
    | more => .text s :: more
  | e :: rest => e :: joinTexts rest

def ofParts : List Expr → Expr
  | [] => .empty
  | [e] => e
  | e :: rest => .seq e (ofParts rest)

/-- One expression after the other. -/
def concat (es : List Expr) : Expr := ofParts (joinTexts (es.flatMap parts))

/-- Between what an expression chooses. -/
def alternatives : Expr → List Expr
  | alt a b => a :: b.alternatives
  | e => [e]

def ofAlternatives : List Expr → Expr
  | [] => .empty
  | [e] => e
  | e :: rest => .alt e (ofAlternatives rest)

def singles? (es : List Expr) : Option CharSet := do
  return .points (← es.mapM fun
    | text [c] => some c.toNat
    | _ => none)

def sets? (es : List Expr) : Option CharSet := do
  return (← es.mapM fun
    | set s => some s
    | _ => none).foldl CharSet.union .empty

/-- How many parts at the front two sequences have in common. -/
def commonParts : List Expr → List Expr → Nat
  | a :: as, b :: bs => if a = b then commonParts as bs + 1 else 0
  | _, _ => 0

/-- How many parts at the front all of some sequences have in common. What is no sequence of several
parts has nothing in common with another expression. -/
def commonFront : List (List Expr) → Nat
  | [] => 0
  | first :: rest =>
    if (first :: rest).any (·.length < 2) then 0
    else rest.foldl (fun n parts => min n (commonParts first parts)) first.length

/-- A choice, the first alternative preferred. What all alternatives begin with is taken out of it,
which is repeated up to `bound` times. -/
def choose : (bound : Nat) → List Expr → Expr
  | bound, es =>
    let es := es.flatMap alternatives
    match es with
    | [e] => e
    | _ =>
      match (singles? es).or (sets? es) with
      | some s => ofSet s
      | none =>
        match bound, commonFront (es.map parts) with
        | bound + 1, n + 1 =>
          let front := ((es.map parts).headD []).take (n + 1)
          concat (front ++ [choose bound (es.map fun e => ofParts (e.parts.drop (n + 1)))])
        | _, _ => ofAlternatives es

def choice (es : List Expr) : Expr := choose (es.flatMap parts).length es

end Expr
end Proctor.Pattern
