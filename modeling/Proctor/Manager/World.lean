import Proctor.Manager.Channel
import Proctor.Manager.History
import Proctor.Manager.RunLock
import Proctor.Manager.Slot

/-! # The request manager

Calls discover tests, run tests, and cancel or abort the run in flight. Runs are carried out one at
a time; discoveries need not wait. A step takes one call from where it waits to where it next waits,
so any order of steps is a way in which the calls can be interleaved, and any call can be dropped
between two steps. -/

namespace Proctor.Manager
open Proctor.Request

inductive Task
  | discover (payload : DiscoveryPayload) (protocol : ProtocolConfig)
  | run (payload : RunPayload) (launcher : Option Launcher) (protocol : ProtocolConfig)
  | signal (s : Signal)

/-- Where a call stands. -/
inductive Phase
  /-- It has not run yet. -/
  | fresh
  /-- A run that is to begin once it has the lock. -/
  | queued (order : Order)
  /-- A discovery that the engine is working on. -/
  | discovering (id : Nat)
  /-- A run that the engine is working on. It has the lock, and its handle is in the slot. -/
  | executing (id : Nat)
  /-- A signal that waits for a run. -/
  | awaiting (deadline : Nat)
  | done (result : Except EngineError Bool)
  | dropped

structure Call where
  task : Task
  phase : Phase
  /-- What the request publishes, once its registrar is hooked onto it. -/
  channel : Channel Event
  /-- Events that the registrar has taken in. -/
  delivered : List Event

namespace Call

def new (task : Task) : Call := ⟨task, .fresh, .empty, []⟩

/-- The registrar takes in what the request has published, and gives up the channel. -/
def takeIn (c : Call) : Call :=
  { c with delivered := c.delivered ++ c.channel.received, channel := .empty }

end Call

structure World (σ : Type) where
  clock : Nat
  /-- The ambient options. -/
  options : Options
  engine : σ
  nextId : Nat
  lock : RunLock
  slot : Slot Nat
  calls : List Call
  history : List Entry

namespace World
variable {σ ε : Type}

def start (options : Options) (engine : σ) : World σ :=
  { clock := 0, options, engine, nextId := 1, lock := .free, slot := .empty, calls := [], history := [] }

def log (w : World σ) (call : Nat) (a : Action) : World σ :=
  { w with history := w.history ++ [⟨call, a⟩] }

def logAll (w : World σ) (call : Nat) (as : List Action) : World σ := as.foldl (·.log call) w

def modifyCall (w : World σ) (n : Nat) (f : Call → Call) : World σ :=
  { w with calls := w.calls.modify n f }

def setPhase (w : World σ) (n : Nat) (phase : Phase) : World σ :=
  w.modifyCall n fun c => { c with phase }

def publishEvents (E : Engine σ ε) (w : World σ) (n : Nat) (events : List Event) : World σ :=
  w.modifyCall n fun c => { c with channel := c.channel.sendAll E.capacity events }

/-- Unhooks the registrar of a call, which takes in what has come through the channel. -/
def unhook (w : World σ) (n id : Nat) : World σ :=
  (w.modifyCall n Call.takeIn).log n (.unregister id)

/-- Ends a call that has shown up in telemetry. -/
def conclude (w : World σ) (n : Nat) (kind : Kind) (result : Except EngineError Unit) : World σ :=
  (w.log n (.telemetry kind .stop)).setPhase n (.done (settle result))

/-- Gives the engine an order under the next number. -/
def create (E : Engine σ ε) (w : World σ) (n : Nat) (o : Order) (launcher : Option Launcher) :
    World σ × Nat × Except EngineError Unit :=
  let id := w.nextId
  let creation := E.create w.engine id o launcher
  let w := { w with nextId := id + 1, engine := creation.state }
  let w := w.log n (.create id o (launcher.map Launcher.isDebug))
  let w := w.logAll n (creation.launches.map fun l => .launch l.1 l.2.toOption)
  (w, id, creation.result)

/-- Lets the engine work on the request of a call; if it is over, `finish` is done. -/
def work (E : Engine σ ε) (w : World σ) (n : Nat) (kind : Kind) (id : Nat)
    (finish : World σ → Except EngineError Unit → World σ) : World σ :=
  let progress := E.resume w.engine w.clock id
  let w := { w with engine := progress.state }.publishEvents E n progress.events
  match progress.result with
  | none => w
  | some result => finish (w.log n (.finish kind id)) result

def workOnDiscovery (E : Engine σ ε) (w : World σ) (n id : Nat) : World σ :=
  w.work E n .discovery id fun w result => (w.unhook n id).conclude n .discovery result

/-- Ends a run: the registrar is unhooked, then the slot is emptied, then the lock goes on. -/
def leaveRun (w : World σ) (n id : Nat) : World σ :=
  let w := w.unhook n id
  { w with slot := w.slot.clear, lock := w.lock.release }

def workOnRun (E : Engine σ ε) (w : World σ) (n id : Nat) : World σ :=
  w.work E n .run id fun w result => (w.leaveRun n id).conclude n .run result

/-- Begins a run that has the lock. -/
def beginRun (E : Engine σ ε) (w : World σ) (n : Nat) (o : Order) (launcher : Option Launcher) :
    World σ :=
  match w.create E n o launcher with
  | (w, _, .error e) => { w with lock := w.lock.release }.conclude n .run (.error e)
  | (w, id, .ok ()) =>
    let w := { w with slot := w.slot.publish id }
    let w := (w.log n (.register id)).setPhase n (.executing id)
    (w.log n (.begin .run id)).workOnRun E n id

def startDiscovery (E : Engine σ ε) (w : World σ) (n : Nat) (payload : DiscoveryPayload)
    (protocol : ProtocolConfig) : World σ :=
  let w' := w.log n (.telemetry .discovery .start)
  match discoveryOrder w.options protocol payload with
  | .error e => w'.conclude n .discovery (.error (.ofSettings e))
  | .ok o =>
    match w'.create E n o none with
    | (w, _, .error e) => w.conclude n .discovery (.error e)
    | (w, id, .ok ()) =>
      let w := (w.log n (.register id)).setPhase n (.discovering id)
      (w.log n (.begin .discovery id)).workOnDiscovery E n id

def startRun (E : Engine σ ε) (w : World σ) (n : Nat) (payload : RunPayload)
    (launcher : Option Launcher) (protocol : ProtocolConfig) : World σ :=
  let w' := w.log n (.telemetry .run .start)
  match runOrder w.options protocol payload with
  | .error e => w'.conclude n .run (.error (.ofSettings e))
  | .ok o =>
    let w := { w' with lock := w'.lock.request n }
    if w.lock.holder = some n then w.beginRun E n o launcher else w.setPhase n (.queued o)

/-- Signals the run in the slot, or goes on waiting for one until the deadline. The engine is asked
in the step that finds the run. A phase in which the call waits for the answer of the engine is left
out: the call would have neither lock nor slot in it and nothing more to do, so its wait or its drop
would concern nobody else, and what the engine does meanwhile comes from outside. -/
def trySignal (E : Engine σ ε) (w : World σ) (n : Nat) (s : Signal) (deadline : Nat) : World σ :=
  match w.slot.answer w.clock deadline with
  | none => w.setPhase n (.awaiting deadline)
  | some none => w.setPhase n (.done (.ok false))
  | some (some id) =>
    let (engine, result) := E.signal w.engine s id
    ({ w with engine }.log n (.signal s id)).setPhase n (.done (settle result))

/-- One step of a call. A call that has nothing to go on for stays where it is. -/
def resume (E : Engine σ ε) (w : World σ) (n : Nat) : World σ :=
  match w.calls[n]? with
  | none => w
  | some c =>
    match c.phase, c.task with
    | .fresh, .discover payload protocol => w.startDiscovery E n payload protocol
    | .fresh, .run payload launcher protocol => w.startRun E n payload launcher protocol
    | .fresh, .signal s => w.trySignal E n s (w.clock + w.options.requestTimeout)
    | .queued o, .run _ launcher _ =>
      if w.lock.holder = some n then w.beginRun E n o launcher else w
    | .discovering id, _ => w.workOnDiscovery E n id
    | .executing id, _ => w.workOnRun E n id
    | .awaiting deadline, .signal s => w.trySignal E n s deadline
    | _, _ => w

/-- Drops a call where it waits. A run in flight is left as at its end; a discovery is not unhooked. -/
def drop (E : Engine σ ε) (w : World σ) (n : Nat) : World σ :=
  match w.calls[n]? with
  | none => w
  | some c =>
    match c.phase with
    | .done _ | .dropped => w
    | .fresh | .awaiting _ => w.setPhase n .dropped
    | .queued _ =>
      ({ w with lock := w.lock.leave n }.log n (.telemetry .run .stop)).setPhase n .dropped
    | .discovering id =>
      ({ w with engine := E.abandon w.engine id }.log n (.telemetry .discovery .stop)).setPhase n .dropped
    | .executing id =>
      let w := { w with engine := E.abandon w.engine id }.leaveRun n id
      (w.log n (.telemetry .run .stop)).setPhase n .dropped

def issue (w : World σ) (task : Task) : World σ := { w with calls := w.calls ++ [.new task] }

end World

/-- All that can happen. -/
inductive Step (ε : Type)
  | issue (task : Task)
  | resume (call : Nat)
  | drop (call : Nat)
  | advance (time : Nat)
  | setOptions (o : Options)
  | outside (e : ε)

def World.apply {σ ε : Type} (E : Engine σ ε) (w : World σ) : Step ε → World σ
  | .issue task => w.issue task
  | .resume n => w.resume E n
  | .drop n => w.drop E n
  | .advance time => { w with clock := w.clock + time }
  | .setOptions options => { w with options }
  | .outside e => { w with engine := E.react w.engine e }

end Proctor.Manager
