import Proctor.Config.Options
import Proctor.Request.Context
import Proctor.Settings.Merge

/-! # Criteria

What an engine is asked for, made anew for each call of its payload and of the ambient options. -/

namespace Proctor.Request
open Proctor.Filter

inductive Kind
  | discovery
  | run
  deriving Repr, DecidableEq

structure Criteria where
  sources : List String
  runSettings : String
  filter : Option String
  /-- Only runs have filter options. -/
  filterOptions : Option FilterOptions
  batchSize : Nat
  deriving Repr, DecidableEq

def Criteria.selection (source : MatcherSource) (c : Criteria) : Option Selection :=
  c.filter.map (Selection.ofText source · c.filterOptions)

/-- An order to an engine to make a request ready. -/
structure Order where
  kind : Kind
  context : Context
  criteria : Criteria
  deriving Repr, DecidableEq

/-- The metrics of a call, if the caller has opted in. -/
def recordMetrics (context : Context) (c : Criteria) : Context :=
  if context.telemetryOptedIn then
    { context with
      metrics := ((context.metrics.add sourceCountName (toString c.sources.length)).add
        batchSizeName (toString c.batchSize)).add
        filterUsedName (if c.filter.isSome then "true" else "false") }
  else context

def order (kind : Kind) (protocol : ProtocolConfig) (optedIn : Bool) (c : Criteria) : Order :=
  ⟨kind, recordMetrics (.new protocol optedIn) c, c⟩

/-- The order for a discovery. The payload's own filter comes before the ambient one. -/
def discoveryOrder (o : Options) (protocol : ProtocolConfig) (p : DiscoveryPayload) :
    Except Settings.SettingsError Order := do
  let merged ← Settings.merge p.runSettings o.designMode o.batchSize
  return order .discovery protocol o.telemetryOptedIn {
    sources := p.sources
    runSettings := merged.xml
    filter := p.filter.or o.filter
    filterOptions := none
    batchSize := merged.batchSize }

/-- The order for a run. The caller may opt in to telemetry for this run alone. -/
def runOrder (o : Options) (protocol : ProtocolConfig) (p : RunPayload) :
    Except Settings.SettingsError Order := do
  let merged ← Settings.merge p.runSettings o.designMode o.batchSize
  let optedIn := o.telemetryOptedIn || p.platformOptions.any PlatformOptions.collectMetrics
  return order .run protocol optedIn {
    sources := p.sources
    runSettings := merged.xml
    filter := (p.platformOptions.bind PlatformOptions.filter).or o.filter
    filterOptions := p.platformOptions.bind PlatformOptions.filterOptions
    batchSize := merged.batchSize }

end Proctor.Request
