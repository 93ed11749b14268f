import Proctor.CommandLine.Grammar
import Proctor.Config.File
import Proctor.Settings.Merge

/-! # Carrying out commands

A command is carried out on a host that has files and a log. It comes to the text that is to be
printed, or to an error with those behind it. -/

namespace Proctor.CommandLine
open Proctor.Text Proctor.Filter

structure Host (m : Type → Type) where
  isFile : String → m Bool
  read : String → m (Except Config.FileError ByteArray)
  log : LogLevel → String → m Unit

/-- An error with those behind it, the outermost first. -/
abbrev ErrorChain := List String

/-! ### Filters -/

def check (expression : String) : Except ErrorChain String :=
  match Expression.parse expression.toList with
  | .error e => .error [e.message]
  | .ok e =>
    let shape := if e.fastSet?.isSome then "fast path: " else "tree: "
    .ok (shape ++ String.ofList e.render ++ "\n")

/-- A property as it is written on the command line, `NAME=VALUE`. The name is trimmed. -/
def readProperty (s : String) : Except ErrorChain (String × String) :=
  match splitAt? ['='] s.toList with
  | some (name, value) => .ok (String.ofList (trim name), String.ofList value)
  | none => .error ["property '" ++ s ++ "' must be NAME=VALUE"]

/-- The values given under a name. If names of different case were given, only the least counts. -/
def propertyOf (given : List (String × String)) (name : String) : Option PropertyValue :=
  match (ValueSet.ofList ((given.map (·.1)).filter (sameName · name))).toList with
  | [] => none
  | key :: _ =>
    match (given.filter (·.1 == key)).map (·.2) with
    | [value] => some (.single value)
    | values => some (.multiple values)

def evaluate (source : MatcherSource) (expression : String) (properties : List String)
    (options : Option FilterOptions) : Except ErrorChain String := do
  let given ← properties.mapM readProperty
  let selection := Selection.ofText source expression options
  match selection.error? with
  | some e => throw ["invalid filter '" ++ selection.text ++ "': " ++ e.message]
  | none =>
    let selected := Id.run (selection.selects fun name => pure (propertyOf given name))
    return (if selected then "true" else "false") ++ "\n"

/-! ### Run settings -/

def mergeFile (o : Options) (path : String) (content : Except Config.FileError ByteArray) :
    Except ErrorChain String := do
  let xml ← (Config.readText content).mapError fun e => ["reading run settings " ++ path, e.message]
  let merged ← (Settings.merge xml o.designMode o.batchSize).mapError fun e => [e.message]
  return merged.xml ++ "\n"

/-! ### Commands -/

variable {m : Type → Type} [Monad m]

def defaultConfigName : String := "Testorch.toml"

/-- The configuration file that is named, or else the usual one if it is there. -/
def configPath? (host : Host m) : Option String → m (Option String)
  | some path => return some path
  | none => return if ← host.isFile defaultConfigName then some defaultConfigName else none

def loadOptions (host : Host m) (config : Option String) : m (Except ErrorChain Options) := do
  match ← configPath? host config with
  | none => return .ok {}
  | some path =>
    let content ← host.read path
    return (Config.loadValid content).mapError fun e => ("loading config " ++ path) :: e.chain

def run (host : Host m) (i : Invocation) : m (Except ErrorChain String) := do
  match ← loadOptions host i.config with
  | .error chain => return .error chain
  | .ok o =>
    host.log .debug "ambient options loaded"
    match i.command with
    | .check expression => return check expression
    | .eval expression properties options =>
      return evaluate patterns expression properties options
    | .merge path =>
      let merged := mergeFile o path (← host.read path)
      if merged.toBool then host.log .debug "run settings merged"
      return merged

end Proctor.CommandLine
