import Proctor.Pattern.CharSet

/-! # Sets of characters as bytes

The characters of a range are encoded by the byte strings that take each byte from a range of its
own, for a few lists of such ranges. -/

namespace Proctor.Pattern

/-- The ranges that the bytes of a string are taken from. -/
abbrev ByteRanges := List (Nat × Nat)

/-- The strings of the numbers of a range in a notation to base 64 with `count` digits behind the
first. The first digit is marked by adding `mark`, the others by adding 128. -/
def digitStrings : (count mark first last : Nat) → List ByteRanges
  | 0, mark, first, last => [[(mark + first, mark + last)]]
  | count + 1, mark, first, last =>
    let unit := 64 ^ (count + 1)
    let (low, lowRest) := (first / unit, first % unit)
    let (high, highRest) := (last / unit, last % unit)
    let under (digit a b : Nat) :=
      (digitStrings count 128 a b).map ((mark + digit, mark + digit) :: ·)
    if low = high then under low lowRest highRest
    else
      let front := if lowRest = 0 then [] else under low lowRest (unit - 1)
      let back := if highRest = unit - 1 then [] else under high 0 highRest
      let low := if lowRest = 0 then low else low + 1
      let high := if highRest = unit - 1 then high + 1 else high
      let middle :=
        if low < high then [(mark + low, mark + high - 1) :: List.replicate (count + 1) (128, 191)]
        else []
      front ++ middle ++ back

/-- The code points that have an encoding of one form: from where to where, how many bytes follow
the first, and how the first is marked. -/
def encodingForms : List (Nat × Nat × Nat × Nat) :=
  [(0x0000, 0x007f, 0, 0x00), (0x0080, 0x07ff, 1, 0xc0), (0x0800, 0xd7ff, 2, 0xe0),
   (0xe000, 0xffff, 2, 0xe0), (0x10000, 0x10ffff, 3, 0xf0)]

def CharSet.encodings (s : CharSet) : List ByteRanges :=
  s.ranges.flatMap fun (first, last) =>
    encodingForms.flatMap fun (a, b, count, mark) =>
      if max a first ≤ min b last then digitStrings count mark (max a first) (min b last) else []

/-- The nodes behind a node of the automaton that reads some strings, each given by the strings
that it reads in turn. Strings with the same front stand side by side. -/
def branches : List ByteRanges → List ((Nat × Nat) × List ByteRanges)
  | [] => []
  | [] :: rest => branches rest
  | (r :: s) :: rest =>
    match branches rest with
    | (r', node) :: more => if r = r' then (r, s :: node) :: more else (r, [s]) :: (r', node) :: more
    | [] => [(r, [s])]

/-- The different nodes of the automaton that reads some strings of at most `length` bytes, without
its end. -/
def automaton (strings : List ByteRanges) : (length : Nat) → List (List ByteRanges)
  | 0 => []
  | length + 1 => (levels length [strings]).eraseDups
where
  levels : Nat → List (List ByteRanges) → List (List ByteRanges)
    | 0, nodes => nodes
    | length + 1, nodes =>
      let behind := (nodes.flatMap fun node => (branches node).map (·.2)).filter (· != [[]])
      nodes ++ levels length behind.eraseDups

/-- How many strings there are at the front of some strings. -/
def countFronts : List ByteRanges → Nat
  | [] => 0
  | [s] => s.length
  | s :: t :: rest => s.length - common s t + countFronts (t :: rest)
where
  common : ByteRanges → ByteRanges → Nat
    | a :: s, b :: t => if a = b then common s t + 1 else 0
    | _, _ => 0

end Proctor.Pattern
