/-! # Why a filter text is rejected -/

namespace Proctor.Filter

inductive FilterError
  | emptyParenthesis
  | missingOperand
  | missingOpenParenthesis
  | missingCloseParenthesis
  | missingOperator
  /-- The condition does not have one name, one operator and one value. -/
  | invalidCondition (token : String)
  /-- A backslash stands before a character that needs no escape. -/
  | invalidEscape (text : String)
  deriving Repr, DecidableEq

def FilterError.message : FilterError → String
  | .emptyParenthesis => "filter contains an empty parenthesis '()'"
  | .missingOperand => "missing operand for '&' or '|'"
  | .missingOpenParenthesis => "missing '(' for a ')'"
  | .missingCloseParenthesis => "missing ')' for a '('"
  | .missingOperator => "missing '&' or '|' between conditions"
  | .invalidCondition token =>
    "invalid condition '" ++ token ++ "': expected <property><operator><value>"
  | .invalidEscape text => "invalid escape sequence in '" ++ text ++ "'"

end Proctor.Filter
