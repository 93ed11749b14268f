import Proctor.Engine.Error
import Proctor.Request.Criteria
import Proctor.TestCase

/-! # Engines

An engine makes requests ready, carries them out, and lets runs be cancelled and aborted. It may
take any number of steps over a request, and it is known here only by what it answers. -/

namespace Proctor

/-- What a request reports to those who watch it. -/
inductive Event
  | testsDiscovered (tests : List TestCase)
  | discoveryCompleted (total : Nat) (aborted : Bool)
  | testsExecuted (names : List String)
  | runCompleted (executed : Nat) (cancelled aborted : Bool)
  deriving Repr, DecidableEq

structure ProcessStart where
  file : String
  arguments : List String
  deriving Repr, DecidableEq

/-- Starts test hosts in the place of the engine, and knows the process by its number. -/
structure Launcher where
  isDebug : Bool
  launch : ProcessStart → Except EngineError Nat

inductive Signal
  | cancel
  | abort
  deriving Repr, DecidableEq

/-- What comes of an order. -/
structure Creation (σ : Type) where
  state : σ
  launches : List (ProcessStart × Except EngineError Nat)
  result : Except EngineError Unit

/-- What one step over a request brings: events, and the result if it is over. -/
structure Progress (σ : Type) where
  state : σ
  events : List Event
  result : Option (Except EngineError Unit)

/-- An engine with states `σ`. Requests go by the number of their order; `ε` is what else can happen
to the engine from outside. -/
structure Engine (σ ε : Type) where
  /-- How many events of a request are kept for one who has not taken them in yet. -/
  capacity : Nat
  create : σ → (id : Nat) → Request.Order → Option Launcher → Creation σ
  /-- Works on a request until it is over or has to wait. -/
  resume : σ → (now id : Nat) → Progress σ
  /-- Whether a request that waited can go on. -/
  canResume : σ → (now id : Nat) → Bool
  /-- When a request that waits for a time can go on. -/
  wakeTime : σ → (id : Nat) → Option Nat
  /-- Takes note of a signal for a run, and answers. -/
  signal : σ → Signal → (id : Nat) → σ × Except EngineError Unit
  /-- Nobody waits for the request any more. -/
  abandon : σ → (id : Nat) → σ
  react : σ → ε → σ

end Proctor
