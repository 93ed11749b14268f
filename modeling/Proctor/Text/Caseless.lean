/-! # Comparing names without regard to case

Only the letters `A` to `Z` have a case here; every other character stands for itself. -/

namespace Proctor.Text

def lower (s : String) : List Char := s.toList.map Char.toLower

/-- Whether two names are equal up to the case of ASCII letters. -/
def sameName (a b : String) : Bool := lower a == lower b

theorem sameName_iff {a b : String} : sameName a b ↔ lower a = lower b := by simp [sameName]

theorem sameName_refl (a : String) : sameName a a := by simp [sameName]

theorem sameName_comm (a b : String) : sameName a b = sameName b a := by
  simp only [sameName, Bool.beq_comm]

end Proctor.Text
