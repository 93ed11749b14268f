import Proctor.Markup.Reader

/-! # Why run settings are rejected -/

namespace Proctor.Settings

inductive SettingsError
  | markup (e : Markup.MarkupError)
  | unclosedElement (name : String)
  | secondRoot (name : String)
  | noRoot
  | unexpectedRoot (name : String)
  | invalidValue (element value : String)
  deriving Repr, DecidableEq

namespace SettingsError

/-- What is wrong with the form of the document, if that is the error. -/
def malformed? : SettingsError → Option String
  | markup e => some e.message
  | unclosedElement name => some ("element <" ++ name ++ "> is not closed")
  | secondRoot name => some ("unexpected second root element <" ++ name ++ ">")
  | noRoot => some "no root element"
  | unexpectedRoot _ | invalidValue .. => none

def message : SettingsError → String
  | unexpectedRoot name =>
    "run settings root element must be <RunSettings>, found <" ++ name ++ ">"
  | invalidValue element value => "invalid value '" ++ value ++ "' for <" ++ element ++ ">"
  | e => "run settings are not well-formed XML: " ++ (e.malformed?.getD "")

end SettingsError
end Proctor.Settings
