import Proctor.Filter.Selection
import Proctor.TestCase

/-! # Request payloads

What a client sends with a request to discover or to run tests. -/

namespace Proctor.Request
open Proctor.Filter

structure DiscoveryPayload where
  sources : List String
  runSettings : String
  /-- Takes the place of the filter among the ambient options. -/
  filter : Option String
  deriving Repr, DecidableEq

structure PlatformOptions where
  filter : Option String
  filterOptions : Option FilterOptions
  collectMetrics : Bool
  deriving Repr, DecidableEq

structure RunPayload where
  sources : List String
  runSettings : String
  platformOptions : Option PlatformOptions
  deriving Repr, DecidableEq

/-- The protocol version agreed on with the client. -/
structure ProtocolConfig where
  version : UInt32
  deriving Repr, DecidableEq

def DiscoveryPayload.empty : DiscoveryPayload := ⟨[], "", none⟩

def RunPayload.empty : RunPayload := ⟨[], "", none⟩

end Proctor.Request
