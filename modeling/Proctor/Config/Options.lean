import Proctor.Filter.Expression
import Proctor.Toml.Reader

/-! # Ambient options

What every request falls back on. A configuration file holds them in its `orchestrator` table; what
it leaves out takes its default. -/

namespace Proctor
open Toml

structure Options where
  /-- Filled into run settings that do not say. -/
  designMode : Bool := false
  /-- The filter of requests that bring none. -/
  filter : Option String := none
  /-- How many tests an event reports if the run settings do not say. -/
  batchSize : Nat := 10
  /-- How long cancelling and aborting wait for a run, in milliseconds. -/
  requestTimeout : Nat := 10000
  telemetryOptedIn : Bool := false
  deriving Repr, DecidableEq

namespace Options

inductive OptionsError
  | zeroBatchSize
  | zeroTimeout
  | filter (e : Filter.FilterError)
  deriving Repr, DecidableEq

def OptionsError.message : OptionsError → String
  | zeroBatchSize =>
    "Configuration error: [orchestrator].default_batch_size must be >= 1 (got 0)"
  | zeroTimeout =>
    "Configuration error: [orchestrator].run_request_timeout_ms must be >= 1 (got 0)"
  | .filter e => "Filter error: " ++ e.message

/-- Both numbers must be positive, and the filter must be one. -/
def validate (o : Options) : Except OptionsError Unit := do
  if o.batchSize = 0 then throw .zeroBatchSize
  if o.requestTimeout = 0 then throw .zeroTimeout
  if let some filter := o.filter then
    discard ((Filter.Expression.parse filter.toList).mapError OptionsError.filter)

/-! ### Reading from a file -/

def flag? : Value → Option Bool
  | .boolean b => some b
  | _ => none

def text? : Value → Option String
  | .text s => some s
  | _ => none

/-- A natural number below `bound`. -/
def natural? (bound : Nat) : Value → Option Nat
  | .integer (some n) => if 0 ≤ n && n < bound then some n.toNat else none
  | _ => none

/-- An absent value leaves the option as it is. -/
def setting {α : Type} (read : Value → Option α) (default : α) : Option Value → Option α
  | none => some default
  | some v => read v

/-- The names of the options, in their order. -/
def names : List String :=
  ["design_mode", "test_case_filter", "default_batch_size", "run_request_timeout_ms",
    "telemetry_opted_in"]

/-- The options of their values, each found by its place in the order. -/
def ofFields (field : Nat → Option Value) : Option Options := do
  let d : Options := {}
  return {
    designMode := ← setting flag? d.designMode (field 0)
    filter := ← setting (fun v => some <$> text? v) d.filter (field 1)
    batchSize := ← setting (natural? (Nat.pow 2 32)) d.batchSize (field 2)
    requestTimeout := ← setting (natural? (Nat.pow 2 64)) d.requestTimeout (field 3)
    telemetryOptedIn := ← setting flag? d.telemetryOptedIn (field 4) }

/-- Whether what stands under other names can be passed over. -/
def ignorable (names : List String) (entries : Entries) : Bool :=
  entriesSound (entries.filter fun e => !names.contains e.1)

/-- The options of a document, whose table may also be written as the list of its values in order.
A date is a table without any of the names. -/
def ofDocument? (t : Table) : Option Options :=
  if !ignorable ["orchestrator"] t.entries then none
  else match t.get? "orchestrator" with
  | none | some .date => some {}
  | some (.table _ entries) =>
    if ignorable names entries then ofFields fun i => do entries.lookup (← names[i]?)
    else none
  | some (.array items) => ofFields (items[·]?)
  | some _ => none

def ofText? (s : String) : Option Options := do ofDocument? (← Toml.read? s.toList)

end Options
end Proctor
