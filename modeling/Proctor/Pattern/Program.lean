import Proctor.Pattern.Memory
import Proctor.Pattern.Reader

/-! # Matching

A pattern becomes a graph of nodes, which is run over the text with a list of threads, the preferred
ones first. Of all matches the leftmost wins, and of those the one on the preferred thread. -/

namespace Proctor.Pattern

inductive Node
  | take (s : CharSet) (next : Nat)
  | look (l : Look) (next : Nat)
  /-- Both ways are open, the first is preferred. -/
  | fork (first second : Nat)
  | save (slot : Nat) (next : Nat)
  | accept
  deriving Repr

abbrev Graph := Array Node

namespace Expr

/-- A fork into a further round and the way out, the greedy one preferring the round. -/
def forkNode (greedy : Bool) (round out : Nat) : Node :=
  if greedy then .fork round out else .fork out round

/-- Adds `n` copies of what `build` adds, each leading to the one before. -/
def copies (build : Nat → Graph → Nat × Graph) : Nat → Nat → Graph → Nat × Graph
  | 0, next, g => (next, g)
  | n + 1, next, g =>
    let (next, g) := build next g
    copies build n next g

/-- Up to `n` rounds: each is entered or left for `out`. -/
def optionals (greedy : Bool) (out : Nat) (build : Nat → Graph → Nat × Graph) :
    Nat → Nat → Graph → Nat × Graph
  | 0, next, g => (next, g)
  | n + 1, next, g =>
    let (entry, g) := build next g
    let g := g.push (forkNode greedy entry out)
    optionals greedy out build n (g.size - 1) g

/-- At least one round. The node behind a round leads back to its start. -/
def loop (greedy : Bool) (build : Nat → Graph → Nat × Graph) (next : Nat) (g : Graph) :
    Nat × Nat × Graph :=
  let back := g.size
  let (entry, g) := build back (g.push (.fork next next))
  (entry, back, g.setIfInBounds back (forkNode greedy entry next))

/-- Adds the nodes of an expression that lead on to `next`; the result begins with its entry. -/
def build : Expr → Nat → Graph → Nat × Graph
  | empty, next, g => (next, g)
  | text s, next, g => s.foldr (fun c (next, g) => (g.size, g.push (.take (.single c) next))) (next, g)
  | set s, next, g => (g.size, g.push (.take s next))
  | look l, next, g => (g.size, g.push (.look l next))
  | seq a b, next, g =>
    let (next, g) := b.build next g
    a.build next g
  | alt a b, next, g =>
    let (first, g) := a.build next g
    let (second, g) := b.build next g
    (g.size, g.push (.fork first second))
  | capture index e, next, g =>
    let g := g.push (.save (2 * index + 1) next)
    let (entry, g) := e.build (g.size - 1) g
    (g.size, g.push (.save (2 * index) entry))
  | rounds e least none greedy, next, g =>
    let (entry, back, g) := loop greedy e.build next g
    match least with
    | 0 =>
      if e.takesSome then (back, g) else (g.size, g.push (forkNode greedy entry next))
    | more + 1 => copies e.build more entry g
  | rounds e least (some most) greedy, next, g =>
    let (entry, g) := optionals greedy next e.build (most - least) next g
    copies e.build least entry g

end Expr

/-- What a thread has saved: slots with positions, the latest first. -/
abbrev Saved := List (Nat × Nat)

def Saved.position? (saved : Saved) (slot : Nat) : Option Nat := saved.lookup slot

structure Thread where
  node : Nat
  saved : Saved

/-- A match, from the slots of its thread. -/
structure Match where
  start : Nat
  stop : Nat
  saved : Saved
  deriving Repr

/-- A pattern made ready to run. -/
structure Program where
  graph : Graph
  entry : Nat
  names : List (List Char × Nat)

def Regex.program (p : Regex) : Program :=
  let (entry, graph) := (Expr.capture 0 p.expr).build 0 #[.accept]
  { graph, entry, names := p.names }

/-- Makes a pattern ready to run, if the text is one and not too large. -/
def compile? (text : String) : Option Program := do
  let p ← read? text.toList
  if p.expr.isSmall then some p.program else none

namespace Program

/-- For every node the position behind the one at which it was visited last. -/
abbrev Visits := Array Nat

/-- The threads that stop at a character or accept, reached from `work` without taking a character,
behind those of `found`, which has the last one first. A node is visited once at each position, by
the most preferred thread that comes to it. -/
def settle (p : Program) (position : Nat) (before after : Option Char) :
    (fuel : Nat) → (work : List Thread) → Visits → (found : List Thread) → List Thread × Visits
  | 0, _, visits, found => (found.reverse, visits)
  | _, [], visits, found => (found.reverse, visits)
  | fuel + 1, t :: work, visits, found =>
    if visits.getD t.node 0 = position + 1 then
      p.settle position before after fuel work visits found
    else
      let visits := visits.setIfInBounds t.node (position + 1)
      match p.graph[t.node]? with
      | some (.look l next) =>
        let work := if l.holds before after then { t with node := next } :: work else work
        p.settle position before after fuel work visits found
      | some (.fork first second) =>
        let work := { t with node := first } :: { t with node := second } :: work
        p.settle position before after fuel work visits found
      | some (.save slot next) =>
        let work := ⟨next, (slot, position) :: t.saved⟩ :: work
        p.settle position before after fuel work visits found
      | some (.take ..) | some .accept =>
        p.settle position before after fuel work visits (t :: found)
      | none => p.settle position before after fuel work visits found

def accepts (p : Program) (t : Thread) : Bool :=
  match p.graph[t.node]? with
  | some .accept => true
  | _ => false

def advance (p : Program) (c : Char) (t : Thread) : Option Thread :=
  match p.graph[t.node]? with
  | some (.take s next) => if s.contains c then some { t with node := next } else none
  | _ => none

/-- Runs the threads over the rest of the text. A thread that accepts cuts off those behind it; as
long as none has accepted, a match may also begin at the next position. -/
def run (p : Program) (before : Option Char) (position : Nat) (work : List Thread) (visits : Visits)
    (best : Option Saved) (text : List Char) : Option Saved :=
  let fuel := work.length + 2 * p.graph.size + 1
  let (threads, visits) := p.settle position before text.head? fuel work visits []
  let (live, done) := threads.span fun t => !p.accepts t
  let best := match done with
    | t :: _ => some t.saved
    | [] => best
  match text with
  | [] => best
  | c :: rest =>
    let fresh := if best.isNone then [⟨p.entry, []⟩] else []
    let work := live.filterMap (p.advance c) ++ fresh
    if work.isEmpty then best else p.run (some c) (position + 1) work visits best rest

/-- The leftmost match. -/
def find (p : Program) (text : List Char) : Option Match := do
  let saved ← p.run none 0 [⟨p.entry, []⟩] (Array.replicate p.graph.size 0) none text
  return ⟨← saved.position? 0, ← saved.position? 1, saved⟩

end Program

/-- The characters from `start` up to `stop`. -/
def slice (text : List Char) (start stop : Nat) : List Char := (text.drop start).take (stop - start)

def Program.findText (p : Program) (text : List Char) : Option (List Char) :=
  (p.find text).map fun m => slice text m.start m.stop

end Proctor.Pattern
