import Proctor.Proofs.Manager.Lifecycle

/-! # The steps of a run

What a step takes a run to depends on its settings, on the lock and on the answers of the engine. -/

namespace Proctor.Manager
open Proctor.Request

namespace World
variable {σ ε : Type} {E : Engine σ ε} {w : World σ} {n : Nat} {payload : RunPayload}
  {launcher : Option Launcher} {protocol : ProtocolConfig} {o : Order} {id : Nat}

/-! ### Phases -/

/-- The phase of a run after the engine has taken a step over it. -/
def worked (E : Engine σ ε) (engine : σ) (clock id : Nat) : Phase :=
  match (E.resume engine clock id).result with
  | none => .executing id
  | some r => .done (settle r)

/-- The phase of a run after it has begun. -/
def begun (E : Engine σ ε) (w : World σ) (o : Order) (launcher : Option Launcher) : Phase :=
  let creation := E.create w.engine w.nextId o launcher
  match creation.result with
  | .ok () => worked E creation.state w.clock w.nextId
  | .error e => .done (settle (.error e))

theorem workOnRun_of_none (h : (E.resume w.engine w.clock id).result = none) :
    w.workOnRun E n id = w.proceed E n id := by
  unfold workOnRun work
  dsimp only
  rw [h]
  rfl

theorem workOnRun_of_some {r : Except EngineError Unit}
    (h : (E.resume w.engine w.clock id).result = some r) : w.workOnRun E n id =
      ((w.proceed E n id).log n (.finish .run id)).endRun n id (.done (settle r)) := by
  unfold workOnRun work
  dsimp only
  rw [h]
  rfl

theorem phase?_workOnRun (h : w.phase? n = some (.executing id)) :
    (w.workOnRun E n id).phase? n = some (worked E w.engine w.clock id) := by
  have hproceed := (Moved.refl h).proceed E id
  cases hr : (E.resume w.engine w.clock id).result with
  | none =>
    rw [workOnRun_of_none hr]
    simp only [worked, hr]
    exact hproceed.phase?_self
  | some r =>
    rw [workOnRun_of_some hr]
    simp only [worked, hr]
    exact ((hproceed.log (.finish .run id)).endRun id (.done (settle r))).phase?_self

/-- A run that the engine takes a step over comes to its end, or goes on. -/
theorem workOnRun_cases (E : Engine σ ε) (hp : w.phase? n = some (.executing id)) :
    (∃ result, (w.workOnRun E n id).phase? n = some (.done result)) ∨
      (E.resume w.engine w.clock id).result = none ∧ w.workOnRun E n id = w.proceed E n id ∧
        (w.proceed E n id).phase? n = some (.executing id) := by
  rw [phase?_workOnRun hp]
  cases hr : (E.resume w.engine w.clock id).result with
  | some result => exact .inl ⟨settle result, by simp only [worked, hr]⟩
  | none =>
    exact .inr ⟨rfl, workOnRun_of_none hr, ((Moved.refl hp).proceed E id).phase?_self⟩

theorem begun_of_error {e : EngineError}
    (h : (E.create w.engine w.nextId o launcher).result = .error e) :
    w.begun E o launcher = .done (settle (.error e)) := by
  simp only [begun, h]

theorem begun_of_ok (h : (E.create w.engine w.nextId o launcher).result = .ok ()) :
    w.begun E o launcher =
      worked E (E.create w.engine w.nextId o launcher).state w.clock w.nextId := by
  simp only [begun, h]

theorem phase?_beginRun {p : Phase} (h : w.phase? n = some p) :
    (w.beginRun E n o launcher).phase? n = some (w.begun E o launcher) := by
  have hcreate := (Moved.refl h).create E o launcher
  cases hr : (E.create w.engine w.nextId o launcher).result with
  | error e =>
    rw [beginRun_of_error w n E o launcher hr, begun_of_error hr]
    exact (((hcreate.withLock _).log (.telemetry .run .stop)).setPhase
      (.done (settle (.error e)))).phase?_self
  | ok =>
    have hengine : ((w.create E n o launcher).1.enterRun n w.nextId).engine =
        (E.create w.engine w.nextId o launcher).state := create_engine ..
    have hclock : ((w.create E n o launcher).1.enterRun n w.nextId).clock = w.clock :=
      create_clock ..
    rw [beginRun_of_ok w n E o launcher hr, phase?_workOnRun (hcreate.enterRun w.nextId).phase?_self,
      hengine, hclock, begun_of_ok hr]

/-! ### Steps -/

theorem resume_of_fresh (ht : w.task? n = some (.run payload launcher protocol))
    (hp : w.phase? n = some .fresh) :
    w.resume E n = w.startRun E n payload launcher protocol := by
  obtain ⟨c, hc, hphase⟩ := Option.map_eq_some_iff.1 hp
  have htask : c.task = .run payload launcher protocol := by simpa [task?, hc] using ht
  simp only [resume, hc, hphase, htask]

theorem resume_of_queued (ht : w.task? n = some (.run payload launcher protocol))
    (hp : w.phase? n = some (.queued o)) :
    w.resume E n = if w.lock.holder = some n then w.beginRun E n o launcher else w := by
  obtain ⟨c, hc, hphase⟩ := Option.map_eq_some_iff.1 hp
  have htask : c.task = .run payload launcher protocol := by simpa [task?, hc] using ht
  simp only [resume, hc, hphase, htask]

theorem resume_of_executing (hp : w.phase? n = some (.executing id)) :
    w.resume E n = w.workOnRun E n id := by
  obtain ⟨c, hc, hphase⟩ := Option.map_eq_some_iff.1 hp
  simp only [resume, hc, hphase]

theorem startRun_of_error {e : Settings.SettingsError}
    (h : runOrder w.options protocol payload = .error e) :
    w.startRun E n payload launcher protocol =
      (w.log n (.telemetry .run .start)).conclude n .run (.error (.ofSettings e)) := by
  unfold startRun
  dsimp only
  rw [h]

theorem phase?_misread {e : Settings.SettingsError} (h : w.phase? n = some .fresh) :
    ((w.log n (.telemetry .run .start)).conclude n .run (.error (.ofSettings e))).phase? n =
      some (.done (.ok false)) :=
  ((((Moved.refl h).log (.telemetry .run .start)).log (.telemetry .run .stop)).setPhase
    (.done (.ok false))).phase?_self

theorem phase?_queue (h : w.phase? n = some .fresh) :
    ((w.ask n).setPhase n (.queued o)).phase? n = some (.queued o) :=
  ((((Moved.refl h).log (.telemetry .run .start)).withLock (w.lock.request n)).setPhase
    (.queued o)).phase?_self

theorem runOrder_of_merge_error {options : Options} {e : Settings.SettingsError}
    (h : Settings.merge payload.runSettings options.designMode options.batchSize = .error e) :
    runOrder options protocol payload = .error e := by
  simp only [runOrder, h]
  rfl

theorem exists_runOrder (protocol : ProtocolConfig) {options : Options} {m : Settings.Merged}
    (h : Settings.merge payload.runSettings options.designMode options.batchSize = .ok m) :
    ∃ o, runOrder options protocol payload = .ok o := by
  simp only [runOrder, h]
  exact ⟨_, rfl⟩

theorem Reachable.workOnRun {options : Options} {engine : σ} (h : Reachable E options engine w)
    (hp : w.phase? n = some (.executing id)) :
    Reachable E options engine (w.workOnRun E n id) := by
  obtain ⟨t, ht⟩ := Option.isSome_iff_exists.1 (w.isSome_task?_of_phase? n hp)
  exact Relation.ReflTransGen.trans h (moves_workOnRun ht hp).changes

/-- What a run has done that has not begun, or has queued since. -/
theorem Reachable.actionsOf_of_waiting {options : Options} {engine : σ} {p : Phase}
    (h : Reachable E options engine w) (ht : w.task? n = some (.run payload launcher protocol))
    (hp : w.phase? n = some p) :
    (p = .fresh → w.actionsOf n = []) ∧ ∀ o, p = .queued o →
      w.actionsOf n = [.telemetry .run .start] := by
  have hl := h.lifecycle ht rfl hp
  generalize w.actionsOf n = as at hl ⊢
  cases hl <;> simp

/-- The engine refuses the order of a run that has the lock. -/
theorem beginRun_refused {e : EngineError} {p : Phase} (hp : w.phase? n = some p)
    (hr : (E.create w.engine w.nextId o launcher).result = .error e) :
    (w.beginRun E n o launcher).slot = w.slot ∧
      (w.beginRun E n o launcher).lock = w.lock.release ∧
      Moved n (.done (settle (.error e)))
        (creation w.nextId o launcher (E.create w.engine w.nextId o launcher).launches ++
          [.telemetry .run .stop]) w (w.beginRun E n o launcher) := by
  rw [beginRun_of_error w n E o launcher hr]
  refine ⟨create_slot .., congrArg RunLock.release (create_lock ..), ?_⟩
  exact ((((Moved.refl hp).create E o launcher).withLock _).log _).setPhase _

end World
end Proctor.Manager
