import Proctor.Config.Options

/-! # Configuration files

What can go wrong between a file and valid options. -/

namespace Proctor.Config

/-- Why a file has no text. -/
inductive FileError
  /-- The system gives this description and number. -/
  | system (description : String) (number : Nat)
  | nulInPath
  | notUtf8
  deriving Repr, DecidableEq

namespace FileError

def missing : FileError := system "No such file or directory" 2

def notDirectory : FileError := system "Not a directory" 20

def isDirectory : FileError := system "Is a directory" 21

def nameTooLong : FileError := system "File name too long" 36

/-- The error of a number; what has no name here keeps the description given with it. -/
def ofNumber (description : String) : Nat → FileError
  | 2 => missing
  | 20 => notDirectory
  | 21 => isDirectory
  | 36 => nameTooLong
  | number => system description number

def message : FileError → String
  | system description number => description ++ " (os error " ++ toString number ++ ")"
  | nulInPath => "file name contained an unexpected NUL byte"
  | notUtf8 => "stream did not contain valid UTF-8"

end FileError

def readText (content : Except FileError ByteArray) : Except FileError String := do
  match String.fromUTF8? (← content) with
  | some s => return s
  | none => throw .notUtf8

inductive ConfigError
  | file (e : FileError)
  | toml
  | options (e : Options.OptionsError)
  deriving Repr, DecidableEq

namespace ConfigError

def message : ConfigError → String
  | file e => "IO error: " ++ e.message
  | toml => "TOML parsing error"
  | options e => e.message

/-- The message with those of the errors behind it, the outermost first. -/
def chain (e : ConfigError) : List String :=
  e.message :: match e with
    | file e => [e.message]
    | options (.filter e) => [e.message]
    | toml | options .zeroBatchSize | options .zeroTimeout => []

end ConfigError

/-- The options of a file, not yet validated. -/
def load (content : Except FileError ByteArray) : Except ConfigError Options := do
  let text ← (readText content).mapError .file
  match Options.ofText? text with
  | some o => return o
  | none => throw .toml

def loadValid (content : Except FileError ByteArray) : Except ConfigError Options := do
  let o ← load content
  o.validate.mapError .options
  return o

end Proctor.Config
