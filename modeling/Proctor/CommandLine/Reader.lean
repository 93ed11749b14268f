import Proctor.CommandLine.Grammar
import Proctor.Text.Search

/-! # Reading command lines

The words of a command line are taken one after another, in the place that the commands named so far
have led to. A value is looked at only when the next parameter comes or the place is left for good,
so an error further on can come before that of a bad value. -/

namespace Proctor.CommandLine
open Proctor.Text

inductive Token
  /-- The mark `--`, behind which every word is an argument. -/
  | endOfOptions
  | long (name : String) (value : Option String)
  /-- One or more flags of one letter, of which the first is decisive. -/
  | short (flag : Char)
  | plain
  deriving Repr, DecidableEq

def Token.ofWord (word : String) : Token :=
  match word.toList with
  | ['-', '-'] => .endOfOptions
  | '-' :: '-' :: rest =>
    let (name, value) := cutAt '=' rest
    .long (String.ofList name) (value.map String.ofList)
  | '-' :: c :: _ => .short c
  | _ => .plain

/-- What has been found in one place. -/
structure Level where
  values : List (Parameter × String) := []
  /-- The latest parameter and its value, if that has come. It has not been looked at yet. -/
  pending : Option (Parameter × Option String) := none
  /-- Whether the end of the options has been marked. -/
  isOpen : Bool := true
  deriving Repr, DecidableEq

namespace Level

def value? (l : Level) (p : Parameter) : Option String := l.values.lookup p

def allValues (l : Level) (p : Parameter) : List String := (l.values.filter (·.1 == p)).map (·.2)

def add (l : Level) (p : Parameter) (value : String) : Except Usage Level :=
  if !p.isRepeatable && (l.value? p).isSome then .error .argumentConflict
  else if !p.accepts value then .error .invalidValue
  else .ok { l with values := l.values ++ [(p, value)] }

/-- Looks at the pending value. -/
def flush (l : Level) : Except Usage Level :=
  match l.pending with
  | none => .ok l
  | some (_, none) => .error .invalidValue
  | some (p, some value) => { l with pending := none }.add p value

/-- Whether the next word is to be a value. -/
def awaitsValue (l : Level) : Bool := l.pending.any (·.2.isNone)

def hasSeen (l : Level) (p : Parameter) : Bool :=
  (l.value? p).isSome || l.pending.any (·.1 == p)

/-- Takes a word as the argument of the place. -/
def takeArgument (place : Place) (l : Level) (word : String) : Except Usage Level :=
  match place.argument? with
  | some p =>
    if l.hasSeen p then .error .unknownArgument
    else return { ← l.flush with pending := some (p, some word) }
  | none =>
    if !l.isOpen && ((place.commands.lookup word).isSome || word == "help") then
      .error .unknownArgument
    else .error .invalidCommand

/-- Takes an option. Its value may be attached to it. -/
def takeOption (l : Level) (p : Parameter) (value : Option String) : Except Usage Level := do
  let l ← l.flush
  match value with
  | some value => l.add p value
  | none => return { l with pending := some (p, none) }

/-- A flag ends the reading once the pending value has been looked at. -/
def takeFlag {α : Type} (l : Level) (u : Usage) : Except Usage α := do
  discard l.flush
  throw u

def takeLong (place : Place) (l : Level) (name : String) (value : Option String) :
    Except Usage Level :=
  let flag? := if name = "help" then some Usage.help
    else if name = "version" && place = .root then some .version
    else none
  match flag? with
  | some u => if value.isSome then .error .tooManyValues else l.takeFlag u
  | none =>
    match place.options.lookup name with
    | some p => l.takeOption p value
    | none => .error .unknownArgument

def takeShort (place : Place) (l : Level) (flag : Char) : Except Usage Level :=
  if flag = 'h' then l.takeFlag .help
  else if flag = 'V' && place = .root then l.takeFlag .version
  else .error .unknownArgument

/-- Takes a word that names no command. -/
def take (place : Place) (l : Level) (word : String) : Except Usage Level :=
  match Token.ofWord word, l.pending with
  | .endOfOptions, _ => .ok { l with isOpen := false }
  | .long name value, _ => l.takeLong place name value
  | .short flag, _ => l.takeShort place flag
  | .plain, some (p, none) => .ok { l with pending := some (p, some word) }
  | .plain, _ => l.takeArgument place word

def logLevel? (l : Level) : Option LogLevel := (l.value? .logLevel).bind LogLevel.ofName?

/-- What is asked for when the command line ends in this place. -/
def conclude (place : Place) (l : Level) : Except Usage Invocation :=
  let invoke (command : Command) : Invocation := ⟨l.value? .config, l.logLevel?, command⟩
  match place, l.value? .expression, l.value? .file with
  | .check, some expression, _ => .ok (invoke (.check expression))
  | .eval, some expression, _ =>
    let regex := l.value? .regex
    let replacement := l.value? .replacement
    if replacement.isSome && regex.isNone then .error .missingArgument
    else .ok (invoke (.eval expression (l.allValues .property)
      (regex.map fun r => ⟨some r, replacement⟩)))
  | .merge, _, some file => .ok (invoke (.merge file))
  | .check, _, _ | .eval, _, _ | .merge, _, _ => .error .missingArgument
  | .root, _, _ | .filter, _, _ | .settings, _, _ =>
    .error (if l.values.isEmpty then .helpForGroup else .missingCommand)

end Level

/-- The answer to a `help` command for the given words, which must lead somewhere. -/
def helpOn (place : Place) : List String → Usage
  | [] => .help
  | word :: rest =>
    match place.commands.lookup word with
    | some inner => helpOn inner rest
    | none => if place.isGroup && word == "help" && rest.isEmpty then .help else .invalidCommand

/-- Where a word leads that is neither a value nor behind the end of the options. -/
inductive Turn
  | stay
  | enter (place : Place)
  | help

def turn (place : Place) (l : Level) (word : String) : Turn :=
  if !l.isOpen || l.awaitsValue then .stay
  else
    match place.commands.lookup word with
    | some inner => .enter inner
    | none => if place.isGroup && word == "help" then .help else .stay

/-- What is given in an inner place goes before what is given here. -/
def Invocation.orElse (i : Invocation) (l : Level) : Invocation :=
  { i with config := i.config.or (l.value? .config), logLevel := i.logLevel.or l.logLevel? }

def readFrom (place : Place) (l : Level) : List String → Except Usage Invocation
  | [] => do (← l.flush).conclude place
  | word :: rest =>
    match turn place l word with
    | .enter inner => do
      let i ← readFrom inner {} rest
      return i.orElse (← l.flush)
    | .help => .error (helpOn place rest)
    | .stay => do
      let l ← if l.isOpen then l.take place word else l.takeArgument place word
      readFrom place l rest

def read (words : List String) : Except Usage Invocation := readFrom .root {} words

end Proctor.CommandLine
