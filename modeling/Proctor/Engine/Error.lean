import Proctor.Settings.Error

/-! # Failures of engines and requests -/

namespace Proctor

inductive ErrorKind
  | platform
  | settings
  | invalidOperation
  | notImplemented
  | unknown
  deriving Repr, DecidableEq

namespace ErrorKind

/-- Failures that a request reports by a plain `false`; the others are passed on. -/
def isRecoverable : ErrorKind → Bool
  | platform | settings | invalidOperation => true
  | notImplemented | unknown => false

def text : ErrorKind → String
  | platform => "platform error"
  | settings => "settings error"
  | invalidOperation => "invalid operation"
  | notImplemented => "not implemented"
  | unknown => "unknown error"

end ErrorKind

structure EngineError where
  kind : ErrorKind
  message : String
  deriving Repr, DecidableEq

namespace EngineError

def display (e : EngineError) : String := e.kind.text ++ ": " ++ e.message

def ofSettings (e : Settings.SettingsError) : EngineError := ⟨.settings, e.message⟩

end EngineError

/-- What a finished request tells its caller: success, a failure of a known kind, or the error. -/
def settle : Except EngineError Unit → Except EngineError Bool
  | .ok () => .ok true
  | .error e => if e.kind.isRecoverable then .ok false else .error e

end Proctor
