/-! # Blank characters

The characters of Unicode's `White_Space` property, and trimming by them. Names, values and
settings are all trimmed by this one set. -/

namespace Proctor.Text

/-- The first and last code point of each run of `White_Space`. -/
def blankRuns : List (Nat × Nat) :=
  [(0x09, 0x0d), (0x20, 0x20), (0x85, 0x85), (0xa0, 0xa0), (0x1680, 0x1680), (0x2000, 0x200a),
   (0x2028, 0x2029), (0x202f, 0x202f), (0x205f, 0x205f), (0x3000, 0x3000)]

def isBlank (c : Char) : Bool :=
  blankRuns.any fun run => run.1 ≤ c.toNat && c.toNat ≤ run.2

def trimStart (s : List Char) : List Char := s.dropWhile isBlank

def trimEnd (s : List Char) : List Char := (trimStart s.reverse).reverse

def trim (s : List Char) : List Char := trimEnd (trimStart s)

/-- A text is blank if nothing is left of it after trimming. -/
def allBlank (s : List Char) : Bool := s.all isBlank

theorem isBlank_of_isWhitespace {c : Char} (h : c.isWhitespace) : isBlank c := by
  simp only [Char.isWhitespace, Bool.or_eq_true, decide_eq_true_eq] at h
  rcases h with ((rfl | rfl) | rfl) | rfl <;> decide

end Proctor.Text
