import Proctor.Text.Blank
import Proctor.Text.Caseless

/-! # Log levels

How much is logged: as much as the command line says, else the environment, else `info`. -/

namespace Proctor
open Proctor.Text

inductive LogLevel
  | error
  | warn
  | info
  | debug
  | trace
  deriving Repr, DecidableEq

namespace LogLevel

/-- The levels, the tersest first. -/
def all : List LogLevel := [error, warn, info, debug, trace]

def name : LogLevel → String
  | error => "error"
  | warn => "warn"
  | info => "info"
  | debug => "debug"
  | trace => "trace"

def ofName? (s : String) : Option LogLevel := all.find? (·.name == s)

theorem ofName?_name (l : LogLevel) : ofName? l.name = some l := by cases l <;> decide

def variableName : String := "TESTORCH_LOG"

/-- A level as the environment may spell it: in any case, with blanks around it, and with `warning`
for `warn`. -/
def ofEnvironment? (s : String) : Option LogLevel :=
  let word := String.ofList (lower (String.ofList (trim s.toList)))
  if word = "warning" then some warn else ofName? word

def choose (flag : Option LogLevel) (environment : Option String) : LogLevel :=
  (flag.or (environment.bind ofEnvironment?)).getD info

def rank : LogLevel → Nat
  | error => 1
  | warn => 2
  | info => 3
  | debug => 4
  | trace => 5

/-- Whether a message of the second level is logged under the first. -/
def admits (limit level : LogLevel) : Bool := level.rank ≤ limit.rank

end LogLevel
end Proctor
