import Proctor.Filter.Selection
import Proctor.LogLevel

/-! # Commands and their parameters

A command line leads from the root over a group of commands to a command that does something. Each
of these places has parameters of its own; two options are understood everywhere. -/

namespace Proctor.CommandLine

inductive Place
  | root
  | filter
  | settings
  | check
  | eval
  | merge
  deriving Repr, DecidableEq

inductive Parameter
  | config
  | logLevel
  | expression
  | property
  | regex
  | replacement
  | file
  deriving Repr, DecidableEq

namespace Place

/-- The commands that can be named here. -/
def commands : Place → List (String × Place)
  | root => [("filter", filter), ("settings", settings)]
  | filter => [("check", check), ("eval", eval)]
  | settings => [("merge", merge)]
  | check | eval | merge => []

def isGroup (p : Place) : Bool := !p.commands.isEmpty

/-- The options that are understood here. Each takes a value. -/
def options : Place → List (String × Parameter)
  | eval => everywhere ++ [("prop", .property), ("regex", .regex), ("replacement", .replacement)]
  | root | filter | settings | check | merge => everywhere
where
  everywhere : List (String × Parameter) := [("config", .config), ("log-level", .logLevel)]

/-- The argument that is written without an option. -/
def argument? : Place → Option Parameter
  | check | eval => some .expression
  | merge => some .file
  | root | filter | settings => none

end Place

namespace Parameter

/-- Whether the parameter may be given several times in one place. -/
def isRepeatable : Parameter → Bool
  | property => true
  | config | logLevel | expression | regex | replacement | file => false

/-- Whether the text is a value for the parameter. A path may not be empty. -/
def accepts : Parameter → String → Bool
  | logLevel, s => (LogLevel.ofName? s).isSome
  | config, s | file, s => s != ""
  | expression, _ | property, _ | regex, _ | replacement, _ => true

end Parameter

inductive Command
  | check (expression : String)
  /-- The properties are still in the form `NAME=VALUE`. -/
  | eval (expression : String) (properties : List String) (options : Option Filter.FilterOptions)
  | merge (file : String)
  deriving Repr, DecidableEq

/-- What a command line asks for. -/
structure Invocation where
  config : Option String
  logLevel : Option LogLevel
  command : Command
  deriving Repr, DecidableEq

/-- Why a command line leads to no command. -/
inductive Usage
  | help
  | version
  /-- A group was named without anything else. -/
  | helpForGroup
  | missingCommand
  | missingArgument
  | invalidCommand
  | unknownArgument
  | invalidValue
  | tooManyValues
  | argumentConflict
  deriving Repr, DecidableEq

/-- Help and version are what the user asked for; all else is an error. -/
def Usage.exitCode : Usage → UInt32
  | help | version => 0
  | helpForGroup | missingCommand | missingArgument | invalidCommand | unknownArgument | invalidValue
  | tooManyValues | argumentConflict => 2

end Proctor.CommandLine
