import Proctor.Settings.Inspect

/-! # Merging ambient defaults into run settings

`DesignMode` and `CollectSourceInformation` are filled in where the document does not have them.
All else in the document stays as it is. -/

namespace Proctor.Settings
open Proctor.Markup Proctor.Text

structure Merged where
  xml : String
  batchSize : Nat
  deriving Repr, DecidableEq

def flagText (b : Bool) : List Char := (if b then "True" else "False").toList

/-- An element with a text in it, as events. -/
def element (name : List Char) (content : List Char) : List Event :=
  [.start name, .text content, .close name]

/-- The elements that an inspected document lacks, with the value they are to have. -/
def missingElements (info : Info) (designMode : Bool) : List Event :=
  let lacking (name : String) (found : Option String) :=
    if found.isSome then [] else element name.toList (flagText designMode)
  lacking designModeName info.designMode ++ lacking collectSourceName info.collectSource

/-- The elements inside a configuration of their own. -/
def withConfiguration (missing : List Event) : List Event :=
  .start configurationName :: missing ++ [.close configurationName]

/-- The events that take the place of one event at the given path. The missing elements come last
in every configuration, and a configuration of their own last in a root without any. A tag that
receives them no longer closes itself. -/
def inject (missing : List Event) (hasRunConfiguration : Bool) (path : Path) (e : Event) : List Event :=
  match e with
  | .empty content =>
    if path = [] ∧ tagName content = rootName then
      .start content :: withConfiguration missing ++ [.close rootName]
    else if path = rootPath ∧ tagName content = configurationName then
      .start content :: missing ++ [.close configurationName]
    else [e]
  | .close _ =>
    if path = configurationPath then missing ++ [e]
    else if path = rootPath ∧ !hasRunConfiguration then withConfiguration missing ++ [e]
    else [e]
  | _ => [e]

/-- The path behind an event. -/
def follow (path : Path) : Event → Path
  | .start content => tagName content :: path
  | .close _ => path.tail
  | _ => path

def injectAll (missing : List Event) (hasRunConfiguration : Bool) : Path → List Event → List Event
  | _, [] => []
  | path, e :: rest =>
    inject missing hasRunConfiguration path e ++
      injectAll missing hasRunConfiguration (follow path e) rest

/-- Fills in the defaults. A document that lacks nothing is returned as it was written. -/
def merge (xml : String) (designMode : Bool) (defaultBatchSize : Nat) :
    Except SettingsError Merged := do
  let document := orEmptyDocument xml.toList
  let reading := Markup.read document
  let info ← inspectReading reading
  let missing := missingElements info designMode
  let merged :=
    if missing.isEmpty then document
    else Markup.render (injectAll missing info.hasRunConfiguration [] reading.events)
  return ⟨String.ofList merged, info.batchSize.getD defaultBatchSize⟩

end Proctor.Settings
