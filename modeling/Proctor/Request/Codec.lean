import Proctor.Json.Reader
import Proctor.Json.Writer
import Proctor.Request.Payload

/-! # Payloads as JSON

Each payload is written as an object with its members in a fixed order, an absent option being left
out, and is read from an object in any order or from a list of its fields. Lists, texts and flags
that are missing take their empty value, where the payload has one. -/

namespace Proctor
open Json (Reader)
open Json.Reader (RecordField)

/-- What is known of a payload while it is read: each field, if it has been found. -/
structure Request.Draft (α β γ δ : Type) where
  first : Option α := none
  second : Option β := none
  third : Option γ := none
  fourth : Option δ := none

namespace Request.Draft
variable {α β γ δ : Type}

def firstField (name : String) (value : Reader α) : RecordField (Draft α β γ δ) :=
  ⟨name.toList, (·.first.isSome), fun d => return { d with first := some (← value) }⟩

def secondField (name : String) (value : Reader β) : RecordField (Draft α β γ δ) :=
  ⟨name.toList, (·.second.isSome), fun d => return { d with second := some (← value) }⟩

def thirdField (name : String) (value : Reader γ) : RecordField (Draft α β γ δ) :=
  ⟨name.toList, (·.third.isSome), fun d => return { d with third := some (← value) }⟩

def fourthField (name : String) (value : Reader δ) : RecordField (Draft α β γ δ) :=
  ⟨name.toList, (·.fourth.isSome), fun d => return { d with fourth := some (← value) }⟩

end Request.Draft

open Request (Draft)
open Request.Draft

namespace TestTrait

def write (t : TestTrait) : List Char :=
  Json.object [("Name", Json.text t.name), ("Value", Json.text t.value)]

def reader : Reader TestTrait :=
  Json.Reader.record (σ := Draft String String Unit Unit)
    [firstField "Name" Json.Reader.text, secondField "Value" Json.Reader.text] {}
    fun d => return ⟨← d.first, ← d.second⟩

end TestTrait

namespace TestCase

def write (t : TestCase) : List Char :=
  Json.object [("FullyQualifiedName", Json.text t.fullyQualifiedName),
    ("DisplayName", Json.text t.displayName), ("Source", Json.text t.source),
    ("Traits", Json.list TestTrait.write t.traits)]

def reader : Reader TestCase :=
  Json.Reader.record (σ := Draft String String String (List TestTrait))
    [firstField "FullyQualifiedName" Json.Reader.text, secondField "DisplayName" Json.Reader.text,
     thirdField "Source" Json.Reader.text,
     fourthField "Traits" (Json.Reader.list TestTrait.reader)] {}
    fun d => return ⟨← d.first, ← d.second, ← d.third, d.fourth.getD []⟩

end TestCase

namespace Filter.FilterOptions

def write (o : FilterOptions) : List Char :=
  Json.object (Json.optionalMember "FilterRegEx" Json.text o.regex ++
    Json.optionalMember "FilterRegExReplacement" Json.text o.replacement)

def reader : Reader FilterOptions :=
  Json.Reader.record (σ := Draft (Option String) (Option String) Unit Unit)
    [firstField "FilterRegEx" (Json.Reader.optional Json.Reader.text),
     secondField "FilterRegExReplacement" (Json.Reader.optional Json.Reader.text)] {}
    fun d => return ⟨d.first.join, d.second.join⟩

end Filter.FilterOptions

namespace Request

namespace DiscoveryPayload

def write (p : DiscoveryPayload) : List Char :=
  Json.object ([("Sources", Json.list Json.text p.sources),
    ("RunSettings", Json.text p.runSettings)] ++
    Json.optionalMember "TestCaseFilterOverride" Json.text p.filter)

def reader : Reader DiscoveryPayload :=
  Json.Reader.record (σ := Draft (List String) String (Option String) Unit)
    [firstField "Sources" (Json.Reader.list Json.Reader.text),
     secondField "RunSettings" Json.Reader.text,
     thirdField "TestCaseFilterOverride" (Json.Reader.optional Json.Reader.text)] {}
    fun d => return ⟨d.first.getD [], d.second.getD "", d.third.join⟩

end DiscoveryPayload

namespace PlatformOptions

def write (o : PlatformOptions) : List Char :=
  Json.object (Json.optionalMember "TestCaseFilter" Json.text o.filter ++
    Json.optionalMember "FilterOptions" Filter.FilterOptions.write o.filterOptions ++
    [("CollectMetrics", Json.bool o.collectMetrics)])

def reader : Reader PlatformOptions :=
  Json.Reader.record (σ := Draft (Option String) (Option Filter.FilterOptions) Bool Unit)
    [firstField "TestCaseFilter" (Json.Reader.optional Json.Reader.text),
     secondField "FilterOptions" (Json.Reader.optional Filter.FilterOptions.reader),
     thirdField "CollectMetrics" Json.Reader.bool] {}
    fun d => return ⟨d.first.join, d.second.join, d.third.getD false⟩

end PlatformOptions

namespace RunPayload

def write (p : RunPayload) : List Char :=
  Json.object ([("Sources", Json.list Json.text p.sources),
    ("RunSettings", Json.text p.runSettings)] ++
    Json.optionalMember "TestPlatformOptions" PlatformOptions.write p.platformOptions)

def reader : Reader RunPayload :=
  Json.Reader.record (σ := Draft (List String) String (Option PlatformOptions) Unit)
    [firstField "Sources" (Json.Reader.list Json.Reader.text),
     secondField "RunSettings" Json.Reader.text,
     thirdField "TestPlatformOptions" (Json.Reader.optional PlatformOptions.reader)] {}
    fun d => return ⟨d.first.getD [], d.second.getD "", d.third.join⟩

end RunPayload

namespace ProtocolConfig

def write (c : ProtocolConfig) : List Char :=
  Json.object [("Version", Json.natural c.version.toNat)]

def reader : Reader ProtocolConfig :=
  Json.Reader.record (σ := Draft UInt32 Unit Unit Unit)
    [firstField "Version" Json.Reader.word32] {}
    fun d => return ⟨← d.first⟩

end ProtocolConfig
end Request
end Proctor
