import Proctor.Settings.Error
import Proctor.Text.Blank
import Proctor.Text.Caseless

/-! # Inspecting run settings

Run settings are an XML document with the root `RunSettings`. Three elements below its
`RunConfiguration` are of interest: `BatchSize`, `DesignMode` and `CollectSourceInformation`. -/

namespace Proctor.Settings
open Proctor.Markup Proctor.Text

def rootName : List Char := "RunSettings".toList
def configurationName : List Char := "RunConfiguration".toList
def batchSizeName : String := "BatchSize"
def designModeName : String := "DesignMode"
def collectSourceName : String := "CollectSourceInformation"

/-- The names of the open elements, the innermost first. -/
abbrev Path := List (List Char)

def rootPath : Path := [rootName]
def configurationPath : Path := [configurationName, rootName]

/-- What the settings say. -/
structure Info where
  batchSize : Option Nat
  hasRunConfiguration : Bool
  /-- The trimmed text of the element, if it is there. -/
  designMode : Option String
  collectSource : Option String
  deriving Repr, DecidableEq

/-- The state of inspection: where it is, and what it has seen. -/
structure Inspection where
  path : Path := []
  hasRoot : Bool := false
  hasRunConfiguration : Bool := false
  batchText : Option String := none
  designMode : Option String := none
  collectSource : Option String := none
  deriving Repr, DecidableEq

namespace Inspection

/-- Notes that an element begins at the present path. -/
def enter (i : Inspection) (name : List Char) : Except SettingsError Inspection :=
  if i.path = [] then
    if i.hasRoot then .error (.secondRoot (String.ofList name))
    else if name ≠ rootName then .error (.unexpectedRoot (String.ofList name))
    else .ok { i with hasRoot := true }
  else if i.path = rootPath ∧ name = configurationName then
    .ok { i with hasRunConfiguration := true }
  else if i.path = configurationPath ∧ name = designModeName.toList then
    .ok { i with designMode := some (i.designMode.getD "") }
  else if i.path = configurationPath ∧ name = collectSourceName.toList then
    .ok { i with collectSource := some (i.collectSource.getD "") }
  else .ok i

/-- Notes a run of text at the present path. A later run takes the place of an earlier one. -/
def addText (i : Inspection) (content : List Char) : Inspection :=
  match i.path with
  | element :: outer =>
    if outer = configurationPath then
      let value := String.ofList (trim content)
      if element = batchSizeName.toList then { i with batchText := some value }
      else if element = designModeName.toList then { i with designMode := some value }
      else if element = collectSourceName.toList then { i with collectSource := some value }
      else i
    else i
  | [] => i

def step (i : Inspection) : Event → Except SettingsError Inspection
  | .start content => do
    let i ← i.enter (tagName content)
    return { i with path := tagName content :: i.path }
  | .empty content => i.enter (tagName content)
  | .close _ => .ok { i with path := i.path.tail }
  | .text content => .ok (i.addText content)
  | .comment _ | .cdata _ | .instruction _ | .doctype _ => .ok i

end Inspection

/-- A whole number in decimal, with an optional `+`, from 1 up to 2³² - 1. -/
def parseBatchSize (text : String) : Except SettingsError Nat :=
  let digits := match text.toList with
    | '+' :: digits => digits
    | digits => digits
  let n := Nat.ofDigitChars 10 digits 0
  if !digits.isEmpty && digits.all Char.isDigit && 0 < n && n < Nat.pow 2 32 then .ok n
  else .error (.invalidValue batchSizeName text)

/-- Whether the text says true or false, in any case. -/
def isFlagText (text : String) : Bool := sameName text "true" || sameName text "false"

/-- An element that is there must say true or false, unless it is empty. -/
def checkFlag (element : String) : Option String → Except SettingsError Unit
  | none => .ok ()
  | some text =>
    if text = "" || isFlagText text then .ok () else .error (.invalidValue element text)

/-- What an inspection has found once the document is over. -/
def Inspection.conclude (i : Inspection) : Except SettingsError Info := do
  if let name :: _ := i.path then throw (.unclosedElement (String.ofList name))
  if !i.hasRoot then throw .noRoot
  let batchSize ← i.batchText.mapM parseBatchSize
  checkFlag designModeName i.designMode
  checkFlag collectSourceName i.collectSource
  return ⟨batchSize, i.hasRunConfiguration, i.designMode, i.collectSource⟩

/-- A blank text stands for a document with an empty root. -/
def orEmptyDocument (xml : List Char) : List Char :=
  if allBlank xml then "<RunSettings></RunSettings>".toList else xml

/-- Inspects the events of a document; the first error in the order of the document counts. -/
def inspectReading (r : Reading) : Except SettingsError Info := do
  let i ← r.events.foldlM Inspection.step {}
  match r.error? with
  | some e => throw (.markup e)
  | none => i.conclude

def inspect (xml : List Char) : Except SettingsError Info :=
  inspectReading (Markup.read (orEmptyDocument xml))

end Proctor.Settings
