import Proctor.CommandLine.Reader
import Proctor.CommandLine.Run

/-! # The program -/

namespace Proctor.CommandLine

def usageText : String :=
  "Usage: testorch [--config PATH] [--log-level LEVEL] COMMAND\n\n" ++
  "Commands:\n" ++
  "  filter check EXPRESSION\n" ++
  "  filter eval EXPRESSION [--prop NAME=VALUE]... [--regex REGEX [--replacement TEXT]]\n" ++
  "  settings merge FILE\n" ++
  "  help [COMMAND]...\n"

/-- What is said when there is no command to carry out. -/
def Usage.text : Usage → String
  | help | helpForGroup => usageText
  | version => "testorch 0.1.0\n"
  | missingCommand => "error: a command is missing\n"
  | missingArgument => "error: a required argument is missing\n"
  | invalidCommand => "error: unrecognized command\n"
  | unknownArgument => "error: unexpected argument\n"
  | invalidValue => "error: invalid value\n"
  | tooManyValues => "error: unexpected value\n"
  | argumentConflict => "error: an argument was given several times\n"

/-- An error with its causes. -/
def report (chain : ErrorChain) : String :=
  let numbered := chain.tail.zipIdx.map fun (cause, n) => "    " ++ toString n ++ ": " ++ cause ++ "\n"
  let causes := match chain.tail with
    | [] => ""
    | [cause] => "\nCaused by:\n    " ++ cause ++ "\n"
    | _ => "\nCaused by:\n" ++ String.join numbered
  "testorch error: " ++ chain.headD "" ++ "\n" ++ causes

/-- The error of a code, which may be written as a negative number of 32 bits. -/
def fileError (code : UInt32) (description : String) : Config.FileError :=
  .ofNumber description (if code < 0x80000000 then code else -code).toNat

def readFile (path : String) : IO (Except Config.FileError ByteArray) := do
  try return .ok (← IO.FS.readBinFile path)
  catch e =>
    match e with
    | .noFileOrDirectory .. => return .error .missing
    | .inappropriateType _ code description | .permissionDenied _ code description
    | .invalidArgument _ code description => return .error (fileError code description)
    | e => throw e

def host (limit : LogLevel) : Host IO where
  isFile path := return (← readFile path).toBool
  read := readFile
  log level message := do
    if limit.admits level then IO.eprintln (level.name ++ ": " ++ message)

end Proctor.CommandLine

open Proctor in
def main (args : List String) : IO UInt32 := do
  match CommandLine.read args with
  | .error usage =>
    if usage.exitCode = 0 then IO.print usage.text else IO.eprint usage.text
    return usage.exitCode
  | .ok invocation =>
    let level := LogLevel.choose invocation.logLevel (← IO.getEnv LogLevel.variableName)
    match ← CommandLine.run (CommandLine.host level) invocation with
    | .ok text =>
      IO.print text
      return 0
    | .error chain =>
      IO.eprint (CommandLine.report chain)
      return 1
