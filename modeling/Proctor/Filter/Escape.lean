/-! # Escaping in filter texts

A backslash makes the special character behind it literal. `escape` writes any text so that the
filter grammar reads it as plain characters; `unescape` reads such a text back. -/

namespace Proctor.Filter

/-- The characters with a meaning in the filter grammar. -/
def specialCharacters : List Char := ['\\', '(', ')', '&', '|', '=', '!', '~']

def isSpecial (c : Char) : Bool := specialCharacters.contains c

def escape (s : List Char) : List Char :=
  s.flatMap fun c => if isSpecial c then ['\\', c] else [c]

/-- Refuses a backslash that stands last or before a character that is not special. -/
def unescape : List Char → Option (List Char)
  | [] => some []
  | ['\\'] => none
  | '\\' :: c :: rest => if isSpecial c then (unescape rest).map (c :: ·) else none
  | c :: rest => (unescape rest).map (c :: ·)

@[simp] theorem escape_nil : escape [] = [] := rfl

theorem escape_cons (c : Char) (s : List Char) :
    escape (c :: s) = (if isSpecial c then ['\\', c] else [c]) ++ escape s := by
  simp [escape]

theorem escape_append (s t : List Char) : escape (s ++ t) = escape s ++ escape t := by
  simp [escape]

end Proctor.Filter
