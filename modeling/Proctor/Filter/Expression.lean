import Proctor.Filter.FastSet
import Proctor.Filter.Token

/-! # Filter expressions

A filter text is read with two stacks, one of connectives and open parentheses and one of finished
expressions: a connective first completes every stacked one that binds at least as tightly. The
result is the tree so built, unless the conditions form a set of values of one property, which then
stands for the whole tree. -/

namespace Proctor.Filter

inductive Expression
  | leaf (condition : Condition)
  | binary (op : Connective) (left right : Expression)
  | oneOf (set : FastSet)
  deriving Repr, DecidableEq

/-- What waits on the stack of operators. -/
inductive Pending
  | connective (op : Connective)
  | group
  deriving Repr, DecidableEq

/-- Completes a connective with the two topmost operands. -/
def reduce (op : Connective) : List Expression → Except FilterError (List Expression)
  | right :: left :: rest => .ok (.binary op left right :: rest)
  | _ => .error .missingOperand

/-- The state of reading. -/
structure Reading where
  operators : List Pending
  operands : List Expression
  candidate : Candidate
  deriving Repr, DecidableEq

namespace Reading

def start : Reading := ⟨[], [], .untouched⟩

/-- Completes what binds at least as tightly as `op`. -/
def settle (op : Connective) :
    List Pending → List Expression → Except FilterError (List Pending × List Expression)
  | .connective top :: operators, operands =>
    if top.strength < op.strength then .ok (.connective top :: operators, operands)
    else do settle op operators (← reduce top operands)
  | operators, operands => .ok (operators, operands)

/-- Completes everything back to the matching `(`, which goes too. -/
def close : List Pending → List Expression → Except FilterError (List Pending × List Expression)
  | [], _ => .error .missingOpenParenthesis
  | .group :: operators, operands => .ok (operators, operands)
  | .connective op :: operators, operands => do close operators (← reduce op operands)

/-- Completes everything at the end of the text. -/
def finish : List Pending → List Expression → Except FilterError (List Expression)
  | [], operands => .ok operands
  | .group :: _, _ => .error .missingCloseParenthesis
  | .connective op :: operators, operands => do finish operators (← reduce op operands)

def addCondition (r : Reading) (c : Condition) : Reading :=
  { r with operands := .leaf c :: r.operands, candidate := r.candidate.add c }

def addOperand (r : Reading) (text : List Char) : Except FilterError Reading :=
  (splitJuxtaposed text).foldlM (fun r piece => return r.addCondition (← Condition.parse piece)) r

def addConnective (r : Reading) (op : Connective) : Except FilterError Reading := do
  let (operators, operands) ← settle op r.operators r.operands
  let candidate := match op with | .and => .ruledOut | .or => r.candidate
  return ⟨.connective op :: operators, operands, candidate⟩

def step (r : Reading) : Token → Except FilterError Reading
  | .connective op => r.addConnective op
  | .opening => .ok { r with operators := .group :: r.operators }
  | .closing => do
    let (operators, operands) ← close r.operators r.operands
    return { r with operators, operands }
  | .operand text => r.addOperand text

end Reading

namespace Expression

/-- The tree of a list of tokens, and the set that stands for it if there is one. -/
def ofTokens (tokens : List Token) : Except FilterError (Expression × Option FastSet) := do
  if Token.hasEmptyParenthesis tokens then throw .emptyParenthesis
  let r ← tokens.foldlM Reading.step Reading.start
  match ← Reading.finish r.operators r.operands with
  | [] => throw .missingOperand
  | [tree] => return (tree, r.candidate.set?)
  | _ => throw .missingOperator

/-- The tree of a filter text, before a set takes its place. -/
def parseTree (text : List Char) : Except FilterError (Expression × Option FastSet) :=
  ofTokens (Token.ofText text)

def parse (text : List Char) : Except FilterError Expression := do
  let (tree, set) ← parseTree text
  return (set.map oneOf).getD tree

def fastSet? : Expression → Option FastSet
  | oneOf set => some set
  | leaf _ | binary .. => none

def render : Expression → List Char
  | leaf c => c.render
  | binary op left right => '(' :: left.render ++ [' ', op.symbol, ' '] ++ right.render ++ [')']
  | oneOf set => set.render

variable {m : Type → Type} [Monad m]

/-- Asks the provider once for each leaf and each set, from left to right, whatever the answers. -/
def evaluate (lookup : String → m (Option PropertyValue)) : Expression → m Bool
  | leaf c => return c.holds (← lookup c.lookupName)
  | binary op left right => do
    let l ← left.evaluate lookup
    let r ← right.evaluate lookup
    return op.combine l r
  | oneOf set => return set.holds some (← lookup set.lookupName)

/-- Evaluation in which a set transforms the values it tests. A tree transforms nothing. -/
def evaluateTransformed (transform : String → Option String)
    (lookup : String → m (Option PropertyValue)) : Expression → m Bool
  | oneOf set => return set.holds transform (← lookup set.lookupName)
  | tree => tree.evaluate lookup

/-- The names of the properties that cannot be filtered by, from left to right. -/
def invalidProperties (supported : List String)
    (resolve : Option (String → m (Option PropertyKind))) : Expression → m (List String)
  | leaf c => return if ← c.isValid supported resolve then [] else [c.lookupName]
  | binary _ left right => do
    let l ← left.invalidProperties supported resolve
    let r ← right.invalidProperties supported resolve
    return l ++ r
  | oneOf set =>
    return if ← set.blankCondition.isValid supported resolve then [] else [set.lookupName]

end Expression
end Proctor.Filter
