import Mathlib.Logic.Relation
import Proctor.Proofs.Manager.Frame

/-! # What a step can do

A step of a call is made of moves, each of which takes the call from one phase to the next and adds
its actions to the history. What holds at the start and is kept by every move and by what happens
outside the calls holds after any steps. -/

namespace Proctor.Manager
open Proctor.Request

namespace Task

/-- What kind of request the call makes; a signal makes none. -/
def kind? : Task → Option Kind
  | discover .. => some .discovery
  | run .. => some .run
  | signal _ => none

/-- The order that the call gives to an engine under the ambient options. -/
def order? (o : Options) : Task → Option (Except Settings.SettingsError Order)
  | discover payload protocol => some (discoveryOrder o protocol payload)
  | run payload _ protocol => some (runOrder o protocol payload)
  | signal _ => none

def launcher? : Task → Option Launcher
  | run _ launcher _ => launcher
  | discover .. | signal _ => none

end Task

/-- An order is given, and brings about launches. -/
def creation (id : Nat) (o : Order) (launcher : Option Launcher)
    (launches : List (ProcessStart × Except EngineError Nat)) : List Action :=
  .create id o (launcher.map Launcher.isDebug) :: launches.map fun l => .launch l.1 l.2.toOption

namespace World
variable {σ ε : Type}

/-! ### Creating a request -/

section
variable (E : Engine σ ε) (w : World σ) (n : Nat) (o : Order) (launcher : Option Launcher)

theorem create_eq : (w.create E n o launcher).1 =
    let c := E.create w.engine w.nextId o launcher
    { w with
      nextId := w.nextId + 1
      engine := c.state
      history := w.history ++ (creation w.nextId o launcher c.launches).map (Entry.mk n) } := by
  simp [create, logAll_eq, log, creation]

theorem create_calls : (w.create E n o launcher).1.calls = w.calls := by rw [create_eq]

theorem create_phase? : (w.create E n o launcher).1.phase? = w.phase? := by rw [create_eq]; rfl

theorem create_task? : (w.create E n o launcher).1.task? = w.task? := by rw [create_eq]; rfl

theorem create_slot : (w.create E n o launcher).1.slot = w.slot := by rw [create_eq]

theorem create_clock : (w.create E n o launcher).1.clock = w.clock := by rw [create_eq]

theorem create_engine : (w.create E n o launcher).1.engine =
    (E.create w.engine w.nextId o launcher).state := by rw [create_eq]

theorem create_of_result {r : Except EngineError Unit}
    (h : (E.create w.engine w.nextId o launcher).result = r) :
    w.create E n o launcher = ((w.create E n o launcher).1, w.nextId, r) := by
  rw [← h]
  rfl

/-- A discovery goes to work: its registrar is hooked onto it. -/
def enterDiscovery (w : World σ) (n id : Nat) : World σ :=
  ((w.log n (.register id)).setPhase n (.discovering id)).log n (.begin .discovery id)

theorem phase?_enterDiscovery (m id : Nat) : (w.enterDiscovery n id).phase? m =
    if n = m then (w.phase? m).map fun _ => .discovering id else w.phase? m :=
  phase?_setPhase _ n m _

/-- The engine takes a step over the request of a call. -/
def proceed (E : Engine σ ε) (w : World σ) (n id : Nat) : World σ :=
  { w with engine := (E.resume w.engine w.clock id).state }.publishEvents E n
    (E.resume w.engine w.clock id).events

def withEngine (w : World σ) (engine : σ) : World σ := { w with engine }

def withLock (w : World σ) (lock : RunLock) : World σ := { w with lock }

/-- A run shows up in telemetry and asks for the lock. -/
def ask (w : World σ) (n : Nat) : World σ :=
  (w.log n (.telemetry .run .start)).withLock (w.lock.request n)

/-- A run that has been refused passes the lock on. -/
def passLock (w : World σ) : World σ := w.withLock w.lock.release

/-! ### Phases that are passed at once -/

theorem task?_setPhase (p : Phase) : (w.setPhase n p).task? = w.task? :=
  w.task?_modifyCall n fun _ => rfl

theorem task?_enterRun (id : Nat) : (w.enterRun n id).task? = w.task? :=
  w.task?_modifyCall n fun _ => rfl

theorem task?_enterDiscovery (id : Nat) : (w.enterDiscovery n id).task? = w.task? :=
  w.task?_modifyCall n fun _ => rfl

theorem setPhase_setPhase (p q : Phase) : (w.setPhase n p).setPhase n q = w.setPhase n q := by
  simp only [setPhase, modifyCall, List.modify_modify_eq]
  rfl

/-- A run that gets the lock at once might as well have queued for it. -/
theorem beginRun_setPhase (p : Phase) :
    (w.setPhase n p).beginRun E n o launcher = w.beginRun E n o launcher := by
  have hcreate : ((w.setPhase n p).create E n o launcher).1 =
      (w.create E n o launcher).1.setPhase n p := by
    rw [create_eq, create_eq]
    rfl
  cases h : (E.create w.engine w.nextId o launcher).result with
  | error e =>
    rw [beginRun_of_error (w.setPhase n p) n E o launcher h, beginRun_of_error w n E o launcher h,
      hcreate]
    exact setPhase_setPhase ((w.create E n o launcher).1.passLock.log n (.telemetry .run .stop)) n p _
  | ok =>
    rw [beginRun_of_ok (w.setPhase n p) n E o launcher h, beginRun_of_ok w n E o launcher h,
      hcreate]
    congr 1
    let w₁ := { (w.create E n o launcher).1 with
      slot := (w.create E n o launcher).1.slot.publish w.nextId }
    show (((w₁.log n _).setPhase n p).setPhase n _).log n _ = ((w₁.log n _).setPhase n _).log n _
    rw [setPhase_setPhase]
    rfl

end

/-! ### Moves -/

/-- When a signal gives up waiting for a run. -/
def WaitsUntil (w : World σ) (p : Phase) (deadline : Nat) : Prop :=
  p = .fresh ∧ deadline = w.clock + w.options.requestTimeout ∨ p = .awaiting deadline

/-- What a call can do next, by its phase: the phase it comes to, its actions, and the world after
that. -/
inductive Rule (E : Engine σ ε) (w : World σ) (n : Nat) (t : Task) :
    Phase → Phase → List Action → World σ → Prop
  /-- The settings cannot be read. -/
  | misread {kind : Kind} {e : Settings.SettingsError} (asks : t.kind? = some kind)
      (order : t.order? w.options = some (.error e)) :
      Rule E w n t .fresh (.done (settle (.error (.ofSettings e))))
        [.telemetry kind .start, .telemetry kind .stop]
        ((w.log n (.telemetry kind .start)).conclude n kind (.error (.ofSettings e)))
  | queue {o : Order} (asks : t.kind? = some .run) (order : t.order? w.options = some (.ok o)) :
      Rule E w n t .fresh (.queued o) [.telemetry .run .start]
        ((w.ask n).setPhase n (.queued o))
  | refuseRun {o : Order} {e : EngineError} (holds : w.lock.holder = some n)
      (answer : (E.create w.engine w.nextId o t.launcher?).result = .error e) :
      Rule E w n t (.queued o) (.done (settle (.error e)))
        (creation w.nextId o t.launcher? (E.create w.engine w.nextId o t.launcher?).launches ++
          [.telemetry .run .stop])
        ((w.create E n o t.launcher?).1.passLock.conclude n .run (.error e))
  | enterRun {o : Order} (holds : w.lock.holder = some n)
      (answer : (E.create w.engine w.nextId o t.launcher?).result = .ok ()) :
      Rule E w n t (.queued o) (.executing w.nextId)
        (creation w.nextId o t.launcher? (E.create w.engine w.nextId o t.launcher?).launches ++
          [.register w.nextId, .begin .run w.nextId])
        ((w.create E n o t.launcher?).1.enterRun n w.nextId)
  | refuseDiscovery {o : Order} {e : EngineError} (asks : t.kind? = some .discovery)
      (order : t.order? w.options = some (.ok o))
      (answer : (E.create w.engine w.nextId o none).result = .error e) :
      Rule E w n t .fresh (.done (settle (.error e)))
        (.telemetry .discovery .start ::
          creation w.nextId o none (E.create w.engine w.nextId o none).launches ++
          [.telemetry .discovery .stop])
        (((w.log n (.telemetry .discovery .start)).create E n o none).1.conclude n .discovery
          (.error e))
  | enterDiscovery {o : Order} (asks : t.kind? = some .discovery)
      (order : t.order? w.options = some (.ok o))
      (answer : (E.create w.engine w.nextId o none).result = .ok ()) :
      Rule E w n t .fresh (.discovering w.nextId)
        (.telemetry .discovery .start ::
          creation w.nextId o none (E.create w.engine w.nextId o none).launches ++
          [.register w.nextId, .begin .discovery w.nextId])
        (((w.log n (.telemetry .discovery .start)).create E n o none).1.enterDiscovery n w.nextId)
  | proceedRun {id : Nat} (progress : (E.resume w.engine w.clock id).result = none) :
      Rule E w n t (.executing id) (.executing id) [] (w.proceed E n id)
  | proceedDiscovery {id : Nat} (progress : (E.resume w.engine w.clock id).result = none) :
      Rule E w n t (.discovering id) (.discovering id) [] (w.proceed E n id)
  | finishRun {id : Nat} {result : Except EngineError Unit}
      (progress : (E.resume w.engine w.clock id).result = some result) :
      Rule E w n t (.executing id) (.done (settle result))
        [.finish .run id, .unregister id, .telemetry .run .stop]
        (((w.proceed E n id).log n (.finish .run id)).endRun n id (.done (settle result)))
  | finishDiscovery {id : Nat} {result : Except EngineError Unit}
      (progress : (E.resume w.engine w.clock id).result = some result) :
      Rule E w n t (.discovering id) (.done (settle result))
        [.finish .discovery id, .unregister id, .telemetry .discovery .stop]
        ((((w.proceed E n id).log n (.finish .discovery id)).unhook n id).conclude n .discovery
          result)
  /-- There is no run to signal yet. -/
  | await {s : Signal} {p : Phase} {deadline : Nat} (task : t = .signal s)
      (waits : w.WaitsUntil p deadline) (empty : w.slot.current = none)
      (early : w.clock < deadline) :
      Rule E w n t p (.awaiting deadline) [] (w.setPhase n (.awaiting deadline))
  | expire {s : Signal} {p : Phase} {deadline : Nat} (task : t = .signal s)
      (waits : w.WaitsUntil p deadline) (empty : w.slot.current = none)
      (late : deadline ≤ w.clock) :
      Rule E w n t p (.done (.ok false)) [] (w.setPhase n (.done (.ok false)))
  | signal {s : Signal} {p : Phase} {deadline id : Nat} (task : t = .signal s)
      (waits : w.WaitsUntil p deadline) (target : w.slot.current = some id) :
      Rule E w n t p (.done (settle (E.signal w.engine s id).2)) [.signal s id]
        (((w.withEngine (E.signal w.engine s id).1).log n (.signal s id)).setPhase n
          (.done (settle (E.signal w.engine s id).2)))
  | dropFresh : Rule E w n t .fresh .dropped [] (w.setPhase n .dropped)
  | dropAwaiting {deadline : Nat} :
      Rule E w n t (.awaiting deadline) .dropped [] (w.setPhase n .dropped)
  | dropQueued {o : Order} :
      Rule E w n t (.queued o) .dropped [.telemetry .run .stop]
        (((w.withLock (w.lock.leave n)).log n (.telemetry .run .stop)).setPhase n .dropped)
  | dropDiscovery {id : Nat} :
      Rule E w n t (.discovering id) .dropped [.telemetry .discovery .stop]
        (((w.withEngine (E.abandon w.engine id)).log n (.telemetry .discovery .stop)).setPhase n
          .dropped)
  /-- The registrar of a dropped run is unhooked, though the engine has not finished. -/
  | dropRun {id : Nat} :
      Rule E w n t (.executing id) .dropped [.unregister id, .telemetry .run .stop]
        ((w.withEngine (E.abandon w.engine id)).endRun n id .dropped)

/-- Whoever signals finds the target in the slot. -/
theorem Rule.of_signal {E : Engine σ ε} {w w' : World σ} {n id : Nat} {t : Task} {p p' : Phase}
    {as : List Action} {s : Signal} (h : Rule E w n t p p' as w') (hs : .signal s id ∈ as) :
    t = .signal s ∧ w.slot.current = some id := by
  cases h with
  | signal task _ target =>
    obtain ⟨rfl, rfl⟩ := Action.signal.inj (List.mem_singleton.1 hs)
    exact ⟨task, target⟩
  | misread | queue | refuseRun | enterRun | refuseDiscovery | enterDiscovery | proceedRun
  | proceedDiscovery | finishRun | finishDiscovery | await | expire | dropFresh | dropAwaiting
  | dropQueued | dropDiscovery | dropRun => simp [creation] at hs

/-- A call follows a rule. -/
structure Move (E : Engine σ ε) (w : World σ) (n : Nat) (t : Task) (p p' : Phase)
    (as : List Action) (w' : World σ) : Prop where
  task : w.task? n = some t
  phase : w.phase? n = some p
  rule : Rule E w n t p p' as w'

/-- Several moves of a call. -/
abbrev Moves (E : Engine σ ε) (n : Nat) : World σ → World σ → Prop :=
  Relation.ReflTransGen fun w w' => ∃ t p p' as, Move E w n t p p' as w'

section
variable {E : Engine σ ε} {w w' : World σ} {n id : Nat} {t : Task} {p p' : Phase} {as : List Action}

theorem Rule.moves (h : Rule E w n t p p' as w') (ht : w.task? n = some t)
    (hp : w.phase? n = some p) : Moves E n w w' := .single ⟨t, p, p', as, ht, hp, h⟩

theorem moves_workOnRun (ht : w.task? n = some t) (hp : w.phase? n = some (.executing id)) :
    Moves E n w (w.workOnRun E n id) := by
  unfold workOnRun work
  dsimp only
  split
  · next h => exact (Rule.proceedRun h).moves ht hp
  · next result h => exact (Rule.finishRun h).moves ht hp

theorem moves_workOnDiscovery (ht : w.task? n = some t)
    (hp : w.phase? n = some (.discovering id)) : Moves E n w (w.workOnDiscovery E n id) := by
  unfold workOnDiscovery work
  dsimp only
  split
  · next h => exact (Rule.proceedDiscovery h).moves ht hp
  · next result h => exact (Rule.finishDiscovery h).moves ht hp

theorem moves_beginRun {o : Order} (ht : w.task? n = some t)
    (hp : w.phase? n = some (.queued o)) (hl : w.lock.holder = some n) :
    Moves E n w (w.beginRun E n o t.launcher?) := by
  cases h : (E.create w.engine w.nextId o t.launcher?).result with
  | error e =>
    rw [beginRun_of_error w n E o _ h]
    exact (Rule.refuseRun hl h).moves ht hp
  | ok =>
    rw [beginRun_of_ok w n E o _ h]
    refine ((Rule.enterRun hl h).moves ht hp).trans (moves_workOnRun (t := t) ?_ ?_)
    · rw [task?_enterRun, create_task?, ht]
    · rw [phase?_enterRun, if_pos rfl, create_phase?]
      exact congrArg (Option.map _) hp

theorem startRun_of_ok {payload : RunPayload} {launcher : Option Launcher}
    {protocol : ProtocolConfig} {o : Order} (h : runOrder w.options protocol payload = .ok o) :
    w.startRun E n payload launcher protocol =
      if (w.ask n).lock.holder = some n then (w.ask n).beginRun E n o launcher
      else (w.ask n).setPhase n (.queued o) := by
  unfold startRun
  dsimp only
  rw [h]
  rfl

/-- Whoever gets the lock at once passes through the queue all the same. -/
theorem moves_of_queue {payload : RunPayload} {launcher : Option Launcher}
    {protocol : ProtocolConfig} {o : Order} (ht : w.task? n = some (.run payload launcher protocol))
    (hp : w.phase? n = some .fresh) (ho : runOrder w.options protocol payload = .ok o) :
    Moves E n ((w.ask n).setPhase n (.queued o)) (w.startRun E n payload launcher protocol) := by
  rw [startRun_of_ok ho]
  split
  · next hl =>
    have ht' : ((w.ask n).setPhase n (.queued o)).task? n =
        some (.run payload launcher protocol) :=
      (congrFun ((w.ask n).task?_setPhase n _) n).trans ht
    have hp' : ((w.ask n).setPhase n (.queued o)).phase? n = some (.queued o) := by
      rw [phase?_setPhase, if_pos rfl]
      exact congrArg (Option.map _) hp
    rw [← beginRun_setPhase E (w.ask n) n o launcher (.queued o)]
    exact moves_beginRun ht' hp' hl
  · exact .refl

theorem moves_startRun {payload : RunPayload} {launcher : Option Launcher}
    {protocol : ProtocolConfig} (ht : w.task? n = some (.run payload launcher protocol))
    (hp : w.phase? n = some .fresh) : Moves E n w (w.startRun E n payload launcher protocol) := by
  cases ho : runOrder w.options protocol payload with
  | error e =>
    have order : (Task.run payload launcher protocol).order? w.options = some (.error e) :=
      congrArg some ho
    unfold startRun
    dsimp only
    rw [ho]
    exact (Rule.misread rfl order).moves ht hp
  | ok o =>
    have order : (Task.run payload launcher protocol).order? w.options = some (.ok o) :=
      congrArg some ho
    exact ((Rule.queue rfl order).moves ht hp).trans (moves_of_queue ht hp ho)

/-- The engine accepts the order of a discovery, and sets to work on it. -/
theorem startDiscovery_of_ok {payload : DiscoveryPayload} {protocol : ProtocolConfig} {o : Order}
    (ho : discoveryOrder w.options protocol payload = .ok o)
    (h : (E.create w.engine w.nextId o none).result = .ok ()) :
    w.startDiscovery E n payload protocol =
      (((w.log n (.telemetry .discovery .start)).create E n o none).1.enterDiscovery n
        w.nextId).workOnDiscovery E n w.nextId := by
  unfold startDiscovery
  dsimp only
  rw [ho]
  dsimp only
  rw [(w.log n (.telemetry .discovery .start)).create_of_result E n o none h]
  rfl

theorem moves_startDiscovery {payload : DiscoveryPayload} {protocol : ProtocolConfig}
    (ht : w.task? n = some (.discover payload protocol)) (hp : w.phase? n = some .fresh) :
    Moves E n w (w.startDiscovery E n payload protocol) := by
  cases ho : discoveryOrder w.options protocol payload with
  | error e =>
    have order : (Task.discover payload protocol).order? w.options = some (.error e) :=
      congrArg some ho
    unfold startDiscovery
    dsimp only
    rw [ho]
    exact (Rule.misread rfl order).moves ht hp
  | ok o =>
    have order : (Task.discover payload protocol).order? w.options = some (.ok o) :=
      congrArg some ho
    cases h : (E.create w.engine w.nextId o none).result with
    | error e =>
      unfold startDiscovery
      dsimp only
      rw [ho]
      dsimp only
      rw [(w.log n (.telemetry .discovery .start)).create_of_result E n o none h]
      exact (Rule.refuseDiscovery rfl order h).moves ht hp
    | ok =>
      rw [startDiscovery_of_ok ho h]
      refine ((Rule.enterDiscovery rfl order h).moves ht hp).trans
        (moves_workOnDiscovery (t := .discover payload protocol) ?_ ?_)
      · rw [task?_enterDiscovery, create_task?]
        exact ht
      · rw [phase?_enterDiscovery, if_pos rfl, create_phase?]
        exact congrArg (Option.map _) hp

theorem moves_trySignal {s : Signal} {deadline : Nat} (ht : w.task? n = some (.signal s))
    (hp : w.phase? n = some p) (hw : w.WaitsUntil p deadline) :
    Moves E n w (w.trySignal E n s deadline) := by
  unfold trySignal Slot.answer
  cases hs : w.slot.current with
  | some id => exact (Rule.signal rfl hw hs).moves ht hp
  | none =>
    dsimp only
    by_cases hd : deadline ≤ w.clock
    · rw [if_pos hd]
      exact (Rule.expire rfl hw hs hd).moves ht hp
    · rw [if_neg hd]
      exact (Rule.await rfl hw hs (Nat.lt_of_not_le hd)).moves ht hp

theorem moves_resume (E : Engine σ ε) (w : World σ) (n : Nat) : Moves E n w (w.resume E n) := by
  unfold resume
  split
  · exact .refl
  · next c hc =>
    have ht : w.task? n = some c.task := by simp [task?, hc]
    have hp : w.phase? n = some c.phase := by simp [phase?, hc]
    split
    · next hphase htask => exact moves_startDiscovery (htask ▸ ht) (hphase ▸ hp)
    · next hphase htask => exact moves_startRun (htask ▸ ht) (hphase ▸ hp)
    · next hphase htask => exact moves_trySignal (htask ▸ ht) (hphase ▸ hp) (.inl ⟨rfl, rfl⟩)
    · next hphase htask =>
      split
      · next hl => exact moves_beginRun (htask ▸ ht) (hphase ▸ hp) hl
      · exact .refl
    · next hphase => exact moves_workOnDiscovery ht (hphase ▸ hp)
    · next hphase => exact moves_workOnRun ht (hphase ▸ hp)
    · next hphase htask => exact moves_trySignal (htask ▸ ht) (hphase ▸ hp) (.inr rfl)
    · exact .refl

theorem moves_drop (E : Engine σ ε) (w : World σ) (n : Nat) : Moves E n w (w.drop E n) := by
  unfold drop
  split
  · exact .refl
  · next c hc =>
    have ht : w.task? n = some c.task := by simp [task?, hc]
    have hp : w.phase? n = some c.phase := by simp [phase?, hc]
    split
    · exact .refl
    · exact .refl
    · next hphase => exact Rule.dropFresh.moves ht (hphase ▸ hp)
    · next hphase => exact Rule.dropAwaiting.moves ht (hphase ▸ hp)
    · next hphase => exact Rule.dropQueued.moves ht (hphase ▸ hp)
    · next hphase => exact Rule.dropDiscovery.moves ht (hphase ▸ hp)
    · next hphase => exact Rule.dropRun.moves ht (hphase ▸ hp)

end

end World
end Proctor.Manager
