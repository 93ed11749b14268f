/-! # Properties of tests

What a filter may ask about a test: the values of a named property, and of what kind they are. -/

namespace Proctor

inductive PropertyValue
  | single (value : String)
  | multiple (values : List String)
  deriving Repr, DecidableEq

def PropertyValue.toList : PropertyValue → List String
  | .single value => [value]
  | .multiple values => values

inductive PropertyKind
  | string
  | stringList
  | other
  deriving Repr, DecidableEq

/-- Only textual properties can be searched for a part. -/
def PropertyKind.isTextual : PropertyKind → Bool
  | .string | .stringList => true
  | .other => false

end Proctor
