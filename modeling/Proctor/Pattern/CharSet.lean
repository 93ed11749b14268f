import Proctor.Pattern.CaseFold

/-! # Sets of characters

A set is the list of its ranges of code points. They ascend, no two of them overlap or touch, and no
range begins or ends at a surrogate, so that each set has one list. -/

namespace Proctor.Pattern

structure CharSet where
  ranges : List (Nat × Nat)
  deriving Repr, DecidableEq

namespace CharSet

def lastCode : Nat := 0x10ffff

/-- The next code point of a character. -/
def next (n : Nat) : Nat := if n = 0xd7ff then 0xe000 else n + 1

/-- The code point of a character before. -/
def prev (n : Nat) : Nat := if n = 0xe000 then 0xd7ff else n - 1

/-- Joins a range with those that follow it, as long as they overlap or touch it. -/
def join (first last : Nat) : List (Nat × Nat) → List (Nat × Nat)
  | [] => [(first, last)]
  | (a, b) :: rest =>
    if a ≤ next last then join first (max last b) rest else (first, last) :: join a b rest

/-- The set of ranges that ascend by their first ends. -/
def ofAscending : List (Nat × Nat) → CharSet
  | [] => ⟨[]⟩
  | (a, b) :: rest => ⟨join a b rest⟩

def startsFirst (a b : Nat × Nat) : Bool := a.1 ≤ b.1

def ofRanges (ranges : List (Nat × Nat)) : CharSet := ofAscending (ranges.mergeSort startsFirst)

def empty : CharSet := ⟨[]⟩

def range (first last : Char) : CharSet := ⟨[(first.toNat, last.toNat)]⟩

def single (c : Char) : CharSet := range c c

def any : CharSet := ⟨[(0, lastCode)]⟩

def isEmpty (s : CharSet) : Bool := s.ranges.isEmpty

def isAscii (s : CharSet) : Bool := s.ranges.all (·.2 < 0x80)

/-- The only character of a set, if it has just one. -/
def single? (s : CharSet) : Option Char :=
  match s.ranges with
  | [(a, b)] => if a = b then some (Char.ofNat a) else none
  | _ => none

def covers (n : Nat) : List (Nat × Nat) → Bool
  | [] => false
  | (a, b) :: rest => a ≤ n && (n ≤ b || covers n rest)

def contains (s : CharSet) (c : Char) : Bool := covers c.toNat s.ranges

def union (s t : CharSet) : CharSet := ofAscending (s.ranges.merge t.ranges startsFirst)

/-- The ranges between those of a list, from a code point on. -/
def gaps (start : Nat) : List (Nat × Nat) → List (Nat × Nat)
  | [] => if start ≤ lastCode then [(start, lastCode)] else []
  | (a, b) :: rest =>
    if start < a then (start, prev a) :: gaps (next b) rest else gaps (next b) rest

def compl (s : CharSet) : CharSet := ⟨gaps 0 s.ranges⟩

def inter (s t : CharSet) : CharSet := (s.compl.union t.compl).compl

def without (s t : CharSet) : CharSet := s.inter t.compl

/-- What is in one of two sets, but not in both. -/
def either (s t : CharSet) : CharSet := (s.without t).union (t.without s)

def points (codes : List Nat) : CharSet := ofRanges (codes.map fun n => (n, n))

/-- The set with all case variants of its characters. -/
def caseless (s : CharSet) : CharSet :=
  s.union (points (caseClasses.filter (·.any (covers · s.ranges))).flatten)

/-- The set with the case variants of its ASCII letters, if these are ASCII letters themselves. -/
def asciiCaseless (s : CharSet) : CharSet :=
  let moved (s : CharSet) (shift : Int) : CharSet :=
    ⟨s.ranges.map fun (a, b) => ((a + shift).toNat, (b + shift).toNat)⟩
  let upper := s.inter (range 'A' 'Z')
  let lower := s.inter (range 'a' 'z')
  s.union ((moved upper 32).union (moved lower (-32)))

end CharSet
end Proctor.Pattern
