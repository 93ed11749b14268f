import Proctor.Pattern.Basic

/-! # Flags

What a character of a pattern means depends on the flags in force where it stands. -/

namespace Proctor.Pattern

structure Flags where
  caseless : Bool := false
  multiLine : Bool := false
  dotAll : Bool := false
  /-- `U` lets repetitions be lazy unless marked greedy. -/
  swapGreed : Bool := false
  crlf : Bool := false
  /-- Without `u` the classes and case variants are those of ASCII, and no set may reach beyond. -/
  unicode : Bool := true
  /-- `x` lets blanks and comments stand between tokens. -/
  verbose : Bool := false
  deriving Repr, DecidableEq

namespace Flags

def set? (fl : Flags) (on : Bool) : Char → Option Flags
  | 'i' => some { fl with caseless := on }
  | 'm' => some { fl with multiLine := on }
  | 's' => some { fl with dotAll := on }
  | 'U' => some { fl with swapGreed := on }
  | 'R' => some { fl with crlf := on }
  | 'u' => some { fl with unicode := on }
  | 'x' => some { fl with verbose := on }
  | _ => none

/-! ### Meaning -/

def fold (fl : Flags) (s : CharSet) : CharSet :=
  if !fl.caseless then s else if fl.unicode then s.caseless else s.asciiCaseless

/-- A set or all other characters. -/
def signed? (fl : Flags) (negated : Bool) (s : CharSet) : Option CharSet :=
  if !negated then some s else if fl.unicode then some s.compl else none

def literal (fl : Flags) (c : Char) : Expr := .ofSet (fl.fold (.single c))

def dot? (fl : Flags) : Option Expr :=
  if !fl.unicode then none
  else if fl.dotAll then some (.set .any)
  else if fl.crlf then some (.set (CharSet.points [0x0a, 0x0d]).compl)
  else some (.set (CharSet.single '\n').compl)

def lineStart (fl : Flags) : Look :=
  if !fl.multiLine then .textStart else if fl.crlf then .lineStartCrlf else .lineStart

def lineEnd (fl : Flags) : Look :=
  if !fl.multiLine then .textEnd else if fl.crlf then .lineEndCrlf else .lineEnd

def word (fl : Flags) (l : WordLook) : Look := .word l (!fl.unicode)

/-! ### Blanks and comments -/

/-- In verbose mode, what follows the blanks and the comments that stand here. -/
def skip (fl : Flags) (s : List Char) : List Char := if fl.verbose then go false s else s
where
  go : Bool → List Char → List Char
    | _, [] => []
    | true, c :: rest => go (c != '\n') rest
    | false, c :: rest =>
      if c == '#' then go true rest else if Text.isBlank c then go false rest else c :: rest

/-- The characters at the front, blanks and comments between them left out, and what follows. -/
def span (fl : Flags) (p : Char → Bool) (s : List Char) : List Char × List Char := go false s
where
  go : Bool → List Char → List Char × List Char
    | _, [] => ([], [])
    | true, c :: rest => go (c != '\n') rest
    | false, c :: rest =>
      if fl.verbose && c == '#' then go true rest
      else if fl.verbose && Text.isBlank c then go false rest
      else if p c then
        let (front, back) := go false rest
        (c :: front, back)
      else ([], c :: rest)

/-- So many characters, blanks and comments between them left out. -/
def take? (fl : Flags) : (count : Nat) → List Char → Option (List Char × List Char)
  | 0, s => some ([], s)
  | count + 1, s =>
    match fl.skip s with
    | [] => none
    | c :: rest => do
      let (more, rest) ← fl.take? count rest
      return (c :: more, rest)

/-- A first look at what comes. In verbose mode it passes over blanks, and over the mark of a
comment, but not over its text. -/
def peek (fl : Flags) (s : List Char) : Option Char :=
  if fl.verbose then (go false s).or s.head? else s.head?
where
  go : Bool → List Char → Option Char
    | _, [] => none
    | marked, c :: rest =>
      if Text.isBlank c then go marked rest
      else if c == '#' && !marked then go true rest
      else some c

end Flags
end Proctor.Pattern
