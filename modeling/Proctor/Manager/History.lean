import Proctor.Engine.Basic

/-! # The history of a request manager

Everything that the manager does to engines, registrars and telemetry, in order, each action with
the call it was done for. -/

namespace Proctor.Manager
open Proctor.Request (Kind Order)

inductive Edge
  | start
  | stop
  deriving Repr, DecidableEq

inductive Action
  | telemetry (kind : Kind) (edge : Edge)
  /-- An order to the engine; if there is a launcher, whether it debugs. -/
  | create (id : Nat) (order : Order) (debug : Option Bool)
  /-- A launch of a test host, with its process if it came about. -/
  | launch (start : ProcessStart) (process : Option Nat)
  | register (id : Nat)
  | unregister (id : Nat)
  | begin (kind : Kind) (id : Nat)
  | finish (kind : Kind) (id : Nat)
  | signal (s : Signal) (id : Nat)
  deriving Repr, DecidableEq

structure Entry where
  call : Nat
  action : Action
  deriving Repr, DecidableEq

def kindText : Kind → String
  | .discovery => "discovery"
  | .run => "execution"

def Edge.text : Edge → String
  | start => "start"
  | stop => "stop"

namespace Action

/-- The line that an action leaves in the journal, if it leaves one. -/
def text? : Action → Option String
  | telemetry kind edge => some ("telemetry:" ++ kindText kind ++ "-" ++ edge.text)
  | create id order _ =>
    match order.kind with
    | .discovery => some ("create-discovery:" ++ toString id)
    | .run => some ("create-run:" ++ toString id)
  | launch _ process => process.map fun p => "launch:" ++ toString p
  | register _ => some "register"
  | unregister _ => some "unregister"
  | begin .discovery id => some ("discover-start:" ++ toString id)
  | begin .run id => some ("execute-start:" ++ toString id)
  | finish .discovery id => some ("discover-end:" ++ toString id)
  | finish .run id => some ("execute-end:" ++ toString id)
  | signal .cancel id => some ("cancel:" ++ toString id)
  | signal .abort id => some ("abort:" ++ toString id)

/-- The name of a telemetry event, as it is traced. -/
def telemetryName? : Action → Option String
  | telemetry kind edge =>
    let subject := match kind with
      | .discovery => "DiscoveryRequest."
      | .run => "ExecutionRequest."
    let verb := match edge with
      | .start => "Start"
      | .stop => "Stop"
    some (subject ++ verb)
  | _ => none

end Action
end Proctor.Manager
