import Proctor.Manager.World

/-! # Scheduling

A scheduler decides which call takes the next step: those that can go on do so in the order in which
they came to be able to. Time stands still as long as any call can go on. -/

namespace Proctor.Manager
variable {σ ε : Type}

namespace World

def phase? (w : World σ) (n : Nat) : Option Phase := w.calls[n]?.map Call.phase

/-- Whether a step would take the call further. -/
def canResume (E : Engine σ ε) (w : World σ) (n : Nat) : Bool :=
  match w.phase? n with
  | some .fresh => true
  | some (.queued _) => w.lock.holder == some n
  | some (.discovering id) | some (.executing id) => E.canResume w.engine w.clock id
  | some (.awaiting deadline) => (w.slot.answer w.clock deadline).isSome
  | some (.done _) | some .dropped | none => false

/-- When a call that waits can go on at the latest. -/
def wakeTime (E : Engine σ ε) (w : World σ) (n : Nat) : Option Nat :=
  match w.phase? n with
  | some (.discovering id) | some (.executing id) => E.wakeTime w.engine id
  | some (.awaiting deadline) => some deadline
  | _ => none

def isOver (w : World σ) (n : Nat) : Bool :=
  match w.phase? n with
  | some (.done _) | some .dropped | none => true
  | _ => false

/-- How many steps a call that can go on may still take before it is over. -/
def stepsLeft (w : World σ) (n : Nat) : Nat :=
  match w.phase? n with
  | some .fresh => 5
  | some (.queued _) => 4
  | some (.discovering _) | some (.executing _) => 3
  | some (.awaiting _) => 1
  | some (.done _) | some .dropped | none => 0

end World

structure Scheduler (σ : Type) where
  world : World σ
  /-- The calls that can go on, the first one first. -/
  ready : List Nat
  /-- A call that somebody waits for. It goes on only when no other call can. -/
  main : Option Nat

namespace Scheduler

def start (w : World σ) : Scheduler σ := ⟨w, [], none⟩

/-- Puts the calls that can now go on at the end of the line, those that waited for an earlier time
first. -/
def collect (E : Engine σ ε) (s : Scheduler σ) : Scheduler σ :=
  let isNew (n : Nat) := s.main ≠ some n && !s.ready.contains n && s.world.canResume E n
  let due (n : Nat) := (s.world.wakeTime E n).getD 0
  let fresh := (List.range s.world.calls.length).filter isNew
  { s with ready := s.ready ++ fresh.mergeSort fun a b => due a ≤ due b }

def apply (E : Engine σ ε) (s : Scheduler σ) (step : Step ε) : Scheduler σ :=
  { s with world := s.world.apply E step }.collect E

/-- Lets the calls in the line take a step each, until the line is empty. -/
def drainFor (E : Engine σ ε) : (bound : Nat) → Scheduler σ → Scheduler σ
  | 0, s => s
  | bound + 1, s =>
    match s.ready with
    | [] => s
    | n :: ready =>
      let s := { s with ready }
      let s := if s.world.canResume E n then s.apply E (.resume n) else s
      drainFor E bound s

/-- The steps that can be left before every call waits. -/
def bound (s : Scheduler σ) : Nat :=
  let left := (List.range s.world.calls.length).foldl (fun sum n => sum + s.world.stepsLeft n) 0
  s.ready.length + 2 * left + 1

def drain (E : Engine σ ε) (s : Scheduler σ) : Scheduler σ := drainFor E s.bound s

/-- The time at which the next call can go on. -/
def nextTime (E : Engine σ ε) (s : Scheduler σ) : Option Nat :=
  ((List.range s.world.calls.length).filterMap (s.world.wakeTime E)).min?

/-- Waits for the main call, passing the time until some call can go on, up to a last moment. -/
def waitFor (E : Engine σ ε) (n limit : Nat) : (bound : Nat) → Scheduler σ → Scheduler σ
  | 0, s => s
  | bound + 1, s =>
    let s := if s.world.canResume E n then s.apply E (.resume n) else s
    if s.world.isOver n then s
    else if limit ≤ s.world.clock then s.apply E (.drop n)
    else
      let s := s.drain E
      if s.world.canResume E n then waitFor E n limit bound s
      else
        let time := match s.nextTime E with
          | some t => min t limit
          | none => limit
        waitFor E n limit bound (s.apply E (.advance (time - s.world.clock)))

/-- Issues a call and waits until it is over, for an hour at most. -/
def call (E : Engine σ ε) (s : Scheduler σ) (task : Task) : Scheduler σ :=
  let n := s.world.calls.length
  let s := { s with main := some n }.apply E (.issue task)
  let s := waitFor E n (s.world.clock + 3600000) (4 * s.bound) s
  { s with main := none }

end Scheduler
end Proctor.Manager
