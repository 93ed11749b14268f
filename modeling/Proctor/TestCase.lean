import Proctor.Property
import Proctor.Text.Caseless

/-! # Test cases -/

namespace Proctor
open Proctor.Text

structure TestTrait where
  name : String
  value : String
  deriving Repr, DecidableEq

/-- What is known of one discovered test. -/
structure TestCase where
  fullyQualifiedName : String
  displayName : String
  source : String
  traits : List TestTrait
  deriving Repr, DecidableEq

namespace TestCase

/-- A test that is displayed under its full name and has no traits. -/
def named (fullyQualifiedName source : String) : TestCase :=
  ⟨fullyQualifiedName, fullyQualifiedName, source, []⟩

def withTrait (t : TestCase) (name value : String) : TestCase :=
  { t with traits := t.traits ++ [⟨name, value⟩] }

/-- The values of the traits of a name, in order. -/
def traitValues (t : TestCase) (name : String) : List String :=
  (t.traits.filter (sameName ·.name name)).map TestTrait.value

/-- Looks a property up. The three built-in ones have one value and hide traits of the same name; a
trait may have several. -/
def property (t : TestCase) (name : String) : Option PropertyValue :=
  if sameName name "FullyQualifiedName" then some (.single t.fullyQualifiedName)
  else if sameName name "DisplayName" then some (.single t.displayName)
  else if sameName name "Source" then some (.single t.source)
  else
    match t.traitValues name with
    | [] => none
    | values => some (.multiple values)

/-- The properties that every test has for a filter. -/
def supportedProperties : List (String × PropertyKind) :=
  [("FullyQualifiedName", .string), ("DisplayName", .string), ("Source", .string),
   ("TestCategory", .stringList)]

def propertyKind (name : String) : Option PropertyKind :=
  (supportedProperties.find? (sameName ·.1 name)).map (·.2)

end TestCase
end Proctor
