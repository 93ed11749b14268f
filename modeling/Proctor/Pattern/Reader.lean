import Proctor.Pattern.Bracket

/-! # Reading patterns

The text of a pattern is first cut into tokens, under the flags in force at each place, and the
tokens are then nested into an expression. What is not a pattern yields `none`. -/

namespace Proctor.Pattern

/-- A group as it opens. -/
inductive Group
  | numbered
  | named (name : List Char)
  | plain (flags : Flags)

inductive Token
  /-- What stands for itself, with the levels of classes that stand in each other. -/
  | item (e : Expr) (depth : Nat)
  | bar
  | opening (g : Group)
  | closing
  | repetition (least : Nat) (most : Option Nat) (greedy : Bool)
  | flags (fl : Flags)

namespace Token

/-- Flags behind `(?`, up to a `:` or the closing parenthesis. No flag is named twice, and a
hyphen, which turns the flags behind it off, has some behind it. -/
def flagItems (fl : Flags) (on : Bool) (seen : List Char) :
    List Char → Option (Flags × List Char)
  | [] => none
  | '-' :: rest => if on then flagItems fl false ('-' :: seen) rest else none
  | c :: rest =>
    if c == ':' || c == ')' then
      if seen.head? == some '-' then none else some (fl, c :: rest)
    else if seen.contains c then none
    else do flagItems (← fl.set? on c) on (c :: seen) rest

def isNameStart (c : Char) : Bool := c == '_' || CharClass.alphabetic.contains c

def isNamePart (c : Char) : Bool :=
  c == '_' || c == '.' || c == '[' || c == ']' || CharClass.alphanumeric.contains c

def groupName (s : List Char) : Option (Token × List Char) :=
  match s.span (· != '>') with
  | (c :: more, '>' :: rest) =>
    if isNameStart c && more.all isNamePart then some (.opening (.named (c :: more)), rest)
    else none
  | _ => none

/-- What follows an opening parenthesis. Looking around is not supported. -/
def group (fl : Flags) (s : List Char) : Option (Token × List Char) :=
  match fl.skip s with
  | '?' :: '=' :: _ | '?' :: '!' :: _ | '?' :: '<' :: '=' :: _ | '?' :: '<' :: '!' :: _ => none
  | '?' :: 'P' :: '<' :: rest | '?' :: '<' :: rest => groupName rest
  | '?' :: rest => do
    let (inner, rest') ← flagItems fl true [] rest
    match rest' with
    | ':' :: after => some (.opening (.plain inner), after)
    | ')' :: after => if rest.head? == some ')' then none else some (.flags inner, after)
    | _ => none
  | rest => some (.opening .numbered, rest)

/-- A repetition, lazy if a `?` follows. -/
def repeating (fl : Flags) (least : Nat) (most : Option Nat) (s : List Char) : Token × List Char :=
  match s with
  | '?' :: rest => (.repetition least most fl.swapGreed, rest)
  | _ => (.repetition least most (!fl.swapGreed), s)

/-- A decimal number with blanks around it. -/
def decimal? (fl : Flags) (s : List Char) : Option (Nat × List Char) :=
  let (digits, rest) := fl.span Char.isDigit (Text.trimStart s)
  let n := Nat.ofDigitChars 10 digits 0
  if digits.isEmpty || n ≥ Nat.pow 2 32 then none else some (n, trimBlanks rest.length rest)
where
  /-- Comments may stand between the blanks, but not in front of them. -/
  trimBlanks : (bound : Nat) → List Char → List Char
    | bound + 1, c :: rest =>
      if Text.isBlank c then trimBlanks bound (fl.skip rest) else c :: rest
    | _, s => s

/-- How often, behind an opening brace: `{m}`, `{m,}` or `{m,n}`. -/
def counted (fl : Flags) (s : List Char) : Option (Token × List Char) := do
  let (least, rest) ← decimal? fl (fl.skip s)
  match rest with
  | '\x7d' :: rest => return repeating fl least (some least) (fl.skip rest)
  | ',' :: rest =>
    match fl.skip rest with
    | '\x7d' :: rest => return repeating fl least none (fl.skip rest)
    | rest =>
      let (most, rest) ← decimal? fl rest
      match rest with
      | '\x7d' :: rest =>
        if least ≤ most then return repeating fl least (some most) (fl.skip rest) else none
      | _ => none
  | _ => none

def read (fl : Flags) : List Char → Option (Token × List Char)
  | [] => none
  | '(' :: rest => group fl rest
  | ')' :: rest => some (.closing, rest)
  | '|' :: rest => some (.bar, rest)
  | '[' :: rest => do
    let (part, rest) ← Bracket.read fl rest
    return (.item (.ofSet part.set) part.depth, rest)
  | '?' :: rest => some (repeating fl 0 (some 1) rest)
  | '*' :: rest => some (repeating fl 0 none rest)
  | '+' :: rest => some (repeating fl 1 none rest)
  | '\x7b' :: rest => counted fl rest
  | '.' :: rest => do return (.item (← fl.dot?) 0, rest)
  | '^' :: rest => some (.item (.look fl.lineStart) 0, rest)
  | '$' :: rest => some (.item (.look fl.lineEnd) 0, rest)
  | '\\' :: rest => do
    let (escaped, rest) ← Escaped.read fl rest
    return (.item (← escaped.expr? fl) 0, rest)
  | c :: rest => some (.item (fl.literal c) 0, rest)

end Token

/-- All tokens, given the flags of the open groups with the innermost first. Flags that are set
inside a group end with it. -/
def tokens (fl : Flags) (outer : List Flags) (s : List Char) : Option (List Token) :=
  match fl.skip s with
  | [] => some []
  | s' => do
    let (t, rest) ← Token.read fl s'
    let (fl, outer) ← match t with
      | .opening (.plain inner) => pure (inner, fl :: outer)
      | .opening _ => pure (fl, fl :: outer)
      | .closing =>
        match outer with
        | fl :: outer => pure (fl, outer)
        | [] => none
      | .flags fl => pure (fl, outer)
      | _ => pure (fl, outer)
    if _h : rest.length < s.length then return t :: (← tokens fl outer rest) else none
termination_by s.length

/-! ### Nesting -/

/-- A part of a pattern with the levels of what stands in it. Groups, repetitions, sequences and
choices are levels, and so are classes in brackets. -/
structure Part where
  expr : Expr
  depth : Nat
  /-- Flags are a part that nothing can repeat. -/
  repeatable : Bool

namespace Part

/-- The depth of what holds some parts: one of them alone adds no level. -/
def depthOf : List Part → Nat
  | [] => 0
  | [p] => p.depth
  | parts => (parts.map depth).foldl max 0 + 1

def sequence (parts : List Part) : Part := ⟨.concat (parts.map expr), depthOf parts, true⟩

def choice (parts : List Part) : Part := ⟨.choice (parts.map expr), depthOf parts, true⟩

def group (capture : Option Nat) (p : Part) : Part :=
  ⟨match capture with
    | some index => .capture index p.expr
    | none => p.expr, p.depth + 1, true⟩

def repeated? (p : Part) (least : Nat) (most : Option Nat) (greedy : Bool) : Option Part :=
  if p.repeatable then some ⟨p.expr.repeated least most greedy, p.depth + 1, true⟩ else none

end Part

/-- A group being read: the number it captures under, its finished alternatives and the parts of
the current one, both with the last first. -/
structure Frame where
  capture : Option Nat
  alternatives : List Part
  parts : List Part

namespace Frame

def start (capture : Option Nat) : Frame := ⟨capture, [], []⟩

def contents (f : Frame) : Part :=
  match f.alternatives with
  | [] => .sequence f.parts.reverse
  | alternatives => .choice (.sequence f.parts.reverse :: alternatives).reverse

end Frame

structure Nesting where
  current : Frame
  outer : List Frame
  names : List (List Char × Nat)
  captures : Nat

namespace Nesting

def push (n : Nesting) (p : Part) : Nesting :=
  { n with current := { n.current with parts := p :: n.current.parts } }

def enter (n : Nesting) (capture : Option Nat) : Nesting :=
  { n with current := .start capture, outer := n.current :: n.outer }

def step (n : Nesting) : Token → Option Nesting
  | .item e depth => some (n.push ⟨e, depth, true⟩)
  | .flags _ => some (n.push ⟨.empty, 0, false⟩)
  | .bar =>
    let f := n.current
    let alternatives := .sequence f.parts.reverse :: f.alternatives
    some { n with current := { f with alternatives, parts := [] } }
  | .opening (.plain _) => some (n.enter none)
  | .opening .numbered =>
    some ({ n with captures := n.captures + 1 }.enter (some (n.captures + 1)))
  | .opening (.named name) =>
    if n.names.any (·.1 == name) then none
    else
      let index := n.captures + 1
      some ({ n with captures := index, names := (name, index) :: n.names }.enter (some index))
  | .closing =>
    match n.outer with
    | [] => none
    | f :: outer =>
      some ({ n with current := f, outer }.push (.group n.current.capture n.current.contents))
  | .repetition least most greedy =>
    match n.current.parts with
    | [] => none
    | p :: parts => do
      let p ← p.repeated? least most greedy
      return { n with current := { n.current with parts := p :: parts } }

end Nesting

/-- A pattern with the numbers of its named groups. -/
structure Regex where
  expr : Expr
  names : List (List Char × Nat)
  deriving Repr

/-- How many levels a pattern may have. -/
def depthLimit : Nat := 250

def read? (text : List Char) : Option Regex := do
  let tokens ← tokens {} [] text
  let n ← tokens.foldlM Nesting.step ⟨.start none, [], [], 0⟩
  let whole := n.current.contents
  if n.outer.isEmpty && whole.depth ≤ depthLimit then return ⟨whole.expr, n.names⟩ else none

end Proctor.Pattern
