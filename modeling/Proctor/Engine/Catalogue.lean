import Proctor.Engine.Basic

/-! # Catalogue engines

An engine that serves a fixed catalogue of tests by a script: each stage can be made to fail, and
runs can be held up by a delay and at a gate. -/

namespace Proctor.Catalogue
open Proctor.Request

structure Script where
  catalogue : List TestCase
  createFailure : Option EngineError := none
  discoveryFailure : Option EngineError := none
  executionFailure : Option EngineError := none
  cancelFailure : Option EngineError := none
  abortFailure : Option EngineError := none
  /-- How long a run sleeps first. -/
  delay : Option Nat := none
  /-- Whether a run then waits for a permit, or for being stopped. -/
  gated : Bool := false

/-- How far a run has come. -/
inductive Stage
  | idle
  | sleeping (until_ : Nat)
  /-- At the gate, and whether it has been let through. -/
  | atGate (admitted : Bool)
  | over
  deriving Repr, DecidableEq

structure Run where
  id : Nat
  selected : List TestCase
  stage : Stage := .idle
  cancelled : Bool := false
  aborted : Bool := false
  /-- A signal has come that stops a run at the gate. -/
  stopped : Bool := false
  deriving Repr, DecidableEq

structure Discovery where
  id : Nat
  selected : List TestCase
  batchSize : Nat
  deriving Repr, DecidableEq

structure State where
  runs : List Run := []
  discoveries : List Discovery := []
  /-- A permit that nobody has used yet. -/
  permit : Bool := false
  deriving Repr, DecidableEq

/-- Lets one run through the gate. -/
inductive Outside
  | permit
  deriving Repr, DecidableEq

namespace State

def run? (s : State) (id : Nat) : Option Run := s.runs.find? (·.id == id)

def setRun (s : State) (r : Run) : State :=
  { s with runs := s.runs.map fun other => if other.id == r.id then r else other }

/-- Gives a permit to the first run that waits for one, or keeps it; at most one is kept. -/
def givePermit (s : State) : State :=
  match s.runs.find? (·.stage == .atGate false) with
  | some r => s.setRun { r with stage := .atGate true }
  | none => { s with permit := true }

end State

/-- The tests of the listed sources that the filter selects, in the order of the catalogue. -/
def select (catalogue : List TestCase) (c : Criteria) : Except EngineError (List TestCase) :=
  let listed := catalogue.filter fun t => c.sources.contains t.source
  match c.selection Filter.patterns with
  | none => .ok listed
  | some selection =>
    match selection.error? with
    | some e => .error ⟨.platform, "invalid test case filter: " ++ e.message⟩
    | none => .ok (listed.filter fun t => Id.run (selection.selects fun name => pure (t.property name)))

/-- A list in parts of `size + 1`, but for the last, which holds the rest. -/
def batches {α : Type} (size : Nat) (l : List α) : List (List α) :=
  if _h : l = [] then []
  else l.take (size + 1) :: batches size (l.drop (size + 1))
termination_by l.length
decreasing_by
  have := List.length_pos_iff.2 _h
  simp; omega

def Discovery.events (d : Discovery) : List Event :=
  (batches (d.batchSize - 1) d.selected).map .testsDiscovered ++
    [.discoveryCompleted d.selected.length false]

/-- A run that was signalled has executed nothing. -/
def Run.executed (r : Run) : List String :=
  if r.cancelled || r.aborted then [] else r.selected.map TestCase.fullyQualifiedName

def Run.events (r : Run) : List Event :=
  [.testsExecuted r.executed, .runCompleted r.executed.length r.cancelled r.aborted]

def outcome : Option EngineError → Except EngineError Unit
  | some e => .error e
  | none => .ok ()

def create (script : Script) (s : State) (id : Nat) (o : Order) (launcher : Option Launcher) :
    Creation State :=
  match script.createFailure with
  | some e => ⟨s, [], .error e⟩
  | none =>
    let start : ProcessStart := ⟨"testhost", o.criteria.sources⟩
    let launches := match o.kind, launcher with
      | .run, some l => [(start, l.launch start)]
      | _, _ => []
    let ready : Except EngineError (List TestCase) := do
      launches.forM fun l => discard l.2
      select script.catalogue o.criteria
    match ready, o.kind with
    | .error e, _ => ⟨s, launches, .error e⟩
    | .ok selected, .discovery =>
      ⟨{ s with discoveries := s.discoveries ++ [⟨id, selected, o.criteria.batchSize⟩] }, launches, .ok ()⟩
    | .ok selected, .run => ⟨{ s with runs := s.runs ++ [{ id, selected }] }, launches, .ok ()⟩

/-- A run at the gate goes on with a permit, or with a signal that stops it. If it could go on with
either, it takes the permit. That the permit stays for another run is left out: it comes to the same
as one more permit after that, and a permit can come at any time. -/
def passGate (script : Script) (s : State) (r : Run) : State × Option Run :=
  if !script.gated || r.stage == .atGate true then (s, some r)
  else if s.permit then ({ s with permit := false }, some r)
  else if r.stopped then (s, some { r with stopped := false })
  else (s.setRun { r with stage := .atGate false }, none)

def resumeRun (script : Script) (s : State) (now : Nat) (r : Run) : Progress State :=
  let awake := match r.stage with
    | .idle => now + script.delay.getD 0
    | .sleeping u => u
    | .atGate _ | .over => now
  if now < awake then ⟨s.setRun { r with stage := .sleeping awake }, [], none⟩
  else
    match passGate script s r with
    | (s, none) => ⟨s, [], none⟩
    | (s, some r) =>
      ⟨s.setRun { r with stage := .over }, r.events, some (outcome script.executionFailure)⟩

def resume (script : Script) (s : State) (now id : Nat) : Progress State :=
  match s.run? id with
  | some r => resumeRun script s now r
  | none =>
    match s.discoveries.find? (·.id == id) with
    | some d => ⟨s, d.events, some (outcome script.discoveryFailure)⟩
    | none => ⟨s, [], none⟩

def canResume (s : State) (now id : Nat) : Bool :=
  match s.run? id with
  | some r =>
    match r.stage with
    | .idle => true
    | .sleeping u => u ≤ now
    | .atGate admitted => admitted || r.stopped
    | .over => false
  | none => false

def wakeTime (s : State) (id : Nat) : Option Nat := do
  match (← s.run? id).stage with
  | .sleeping u => some u
  | .idle | .atGate _ | .over => none

def signal (script : Script) (s : State) (sig : Signal) (id : Nat) : State × Except EngineError Unit :=
  match s.run? id, sig with
  | some r, .cancel => (s.setRun { r with cancelled := true, stopped := true }, outcome script.cancelFailure)
  | some r, .abort => (s.setRun { r with aborted := true, stopped := true }, outcome script.abortFailure)
  | none, _ => (s, .ok ())

/-- A run that is given up passes on the permit it was let through with. -/
def abandon (s : State) (id : Nat) : State :=
  match s.run? id with
  | some r =>
    let s := s.setRun { r with stage := .over }
    if r.stage == .atGate true then s.givePermit else s
  | none => s

/-- How many events of a request are kept for its registrar. -/
def capacity : Nat := 64

def engine (script : Script) : Engine State Outside where
  capacity := capacity
  create := create script
  resume := resume script
  canResume := canResume
  wakeTime := wakeTime
  signal := signal script
  abandon := abandon
  react s
    | .permit => s.givePermit

/-- A small catalogue of two sources. -/
def sample : List TestCase := [
  (TestCase.named "Calc.Tests.Add" "calc.dll").withTrait "TestCategory" "Unit",
  ((TestCase.named "Calc.Tests.Divide" "calc.dll").withTrait "TestCategory" "Unit").withTrait
    "TestCategory" "Slow",
  (TestCase.named "Calc.Tests.Overflow" "calc.dll").withTrait "TestCategory" "Edge",
  (TestCase.named "Io.Tests.ReadFile" "io.dll").withTrait "TestCategory" "Integration",
  (TestCase.named "Io.Tests.WriteFile" "io.dll").withTrait "TestCategory" "Integration"]

end Proctor.Catalogue
