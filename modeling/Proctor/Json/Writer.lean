import Proctor.Json.Text

/-! # Writing JSON

Values are written without blanks, and the members of an object in the order given. -/

namespace Proctor.Json

def text (s : String) : List Char := quote s.toList

def bool (b : Bool) : List Char := (if b then "true" else "false").toList

def natural (n : Nat) : List Char := Nat.toDigits 10 n

/-- The parts with a comma between each two. -/
def commaSeparated : List (List Char) → List Char
  | [] => []
  | [part] => part
  | part :: rest => part ++ ',' :: commaSeparated rest

def list {α : Type} (item : α → List Char) (l : List α) : List Char :=
  '[' :: commaSeparated (l.map item) ++ [']']

def member (m : String × List Char) : List Char := quote m.1.toList ++ ':' :: m.2

def object (ms : List (String × List Char)) : List Char :=
  '{' :: commaSeparated (ms.map member) ++ ['}']

/-- A member that is left out when there is no value. -/
def optionalMember {α : Type} (name : String) (value : α → List Char) :
    Option α → List (String × List Char)
  | some a => [(name, value a)]
  | none => []

end Proctor.Json
