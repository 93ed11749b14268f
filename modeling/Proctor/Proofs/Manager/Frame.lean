import Proctor.Manager.Scheduler

/-! # What the parts of a step leave alone

A step is put together of parts that each change little: a line of the history, the phase of one
call, the events of one call. No part of any step changes the task of a call. -/

namespace Proctor.Manager
open Proctor.Request

/-! ### The lock -/

theorem RunLock.request_holder {l : RunLock} {n m : Nat} (h : l.holder = some m) :
    (l.request n).holder = some m := by
  simp [request, h]

theorem RunLock.leave_holder {l : RunLock} {n m : Nat} (h : l.holder = some m) (hn : m ≠ n) :
    (l.leave n).holder = some m := by
  simp [leave, h, hn]

namespace World
variable {σ ε : Type} (w : World σ) (n m : Nat)

/-- The world after some steps. -/
def run (E : Engine σ ε) (w : World σ) (steps : List (Step ε)) : World σ := steps.foldl (apply E) w

@[simp] theorem run_append (E : Engine σ ε) (front back : List (Step ε)) :
    w.run E (front ++ back) = (w.run E front).run E back := by simp [run]

@[simp] theorem run_singleton (E : Engine σ ε) (s : Step ε) : w.run E [s] = w.apply E s := rfl

def task? : Option Task := w.calls[n]?.map Call.task

/-! ### The history -/

theorem logAll_eq (as : List Action) :
    w.logAll n as = { w with history := w.history ++ as.map (Entry.mk n) } := by
  induction as generalizing w with
  | nil => simp [logAll]
  | cons a as ih =>
    show (w.log n a).logAll n as = _
    rw [ih]
    simp [log]

/-! ### The calls -/

/-- What a change to one call keeps of each call. -/
theorem map_getElem?_modifyCall {α : Type} {g : Call → α} {f : Call → Call}
    (hf : ∀ c, g (f c) = g c) : (w.modifyCall n f).calls[m]?.map g = w.calls[m]?.map g := by
  by_cases h : n = m
  · cases hc : w.calls[m]? <;> simp [modifyCall, h, hc, hf]
  · simp [modifyCall, h]

theorem task?_modifyCall {f : Call → Call} (hf : ∀ c, (f c).task = c.task) :
    (w.modifyCall n f).task? = w.task? :=
  funext fun m => w.map_getElem?_modifyCall n m hf

theorem phase?_modifyCall {f : Call → Call} (hf : ∀ c, (f c).phase = c.phase) :
    (w.modifyCall n f).phase? = w.phase? :=
  funext fun m => w.map_getElem?_modifyCall n m hf

theorem exists_phase? (h : (w.task? n).isSome) : ∃ p, w.phase? n = some p := by
  cases hc : w.calls[n]? with
  | none => simp [task?, hc] at h
  | some c => exact ⟨c.phase, by simp [phase?, hc]⟩

theorem isSome_task?_of_phase? {p : Phase} (h : w.phase? n = some p) : (w.task? n).isSome := by
  cases hc : w.calls[n]? with
  | none => simp [phase?, hc] at h
  | some c => simp [task?, hc]

theorem phase?_setPhase (p : Phase) :
    (w.setPhase n p).phase? m = if n = m then (w.phase? m).map fun _ => p else w.phase? m := by
  by_cases h : n = m
  · cases hc : w.calls[m]? <;> simp [phase?, setPhase, modifyCall, h, hc]
  · simp [phase?, setPhase, modifyCall, h]

theorem task?_issue (t : Task) (h : (w.task? n).isSome) : (w.issue t).task? n = w.task? n := by
  cases hc : w.calls[n]? with
  | none => simp [task?, hc] at h
  | some c =>
    obtain ⟨hn, -⟩ := List.getElem?_eq_some_iff.1 hc
    simp [task?, issue, List.getElem?_append_left hn]

theorem phase?_issue (t : Task) :
    (w.issue t).phase? n = if n = w.calls.length then some .fresh else w.phase? n := by
  split
  · next h => simp [phase?, issue, h, Call.new]
  · next h =>
    rcases Nat.lt_or_gt_of_ne h with h | h
    · simp [phase?, issue, List.getElem?_append_left h]
    · have hn : w.calls.length ≤ n := Nat.le_of_lt h
      have hn' : (w.calls ++ [Call.new t]).length ≤ n := by
        rw [List.length_append]
        exact h
      simp only [phase?, issue, List.getElem?_eq_none hn, List.getElem?_eq_none hn']

/-! ### Creating and beginning a run -/

variable (E : Engine σ ε) (o : Order) (launcher : Option Launcher)

theorem create_lock : (w.create E n o launcher).1.lock = w.lock := by
  simp [create, logAll_eq, log]

theorem create_nextId : (w.create E n o launcher).1.nextId = w.nextId + 1 := by
  simp [create, logAll_eq, log]

/-- A run goes to work: its handle is published, and its registrar is hooked onto it. -/
def enterRun (w : World σ) (n id : Nat) : World σ :=
  (({ w with slot := w.slot.publish id }.log n (.register id)).setPhase n (.executing id)).log n
    (.begin .run id)

theorem phase?_enterRun (id : Nat) : (w.enterRun n id).phase? m =
    if n = m then (w.phase? m).map fun _ => .executing id else w.phase? m :=
  phase?_setPhase _ n m _

/-- A run comes to an end: it is left, shows up in telemetry, and is over in some way. -/
def endRun (w : World σ) (n id : Nat) (p : Phase) : World σ :=
  ((w.leaveRun n id).log n (.telemetry .run .stop)).setPhase n p

theorem phase?_endRun (id : Nat) (p : Phase) : (w.endRun n id p).phase? m =
    if n = m then (w.phase? m).map fun _ => p else w.phase? m := by
  have hu : (w.unhook n id).phase? = w.phase? := w.phase?_modifyCall n fun _ => rfl
  rw [← hu]
  exact phase?_setPhase _ n m p

theorem beginRun_of_error {e : EngineError}
    (h : (E.create w.engine w.nextId o launcher).result = .error e) :
    w.beginRun E n o launcher =
      let w' := (w.create E n o launcher).1
      { w' with lock := w'.lock.release }.conclude n .run (.error e) := by
  have hc : w.create E n o launcher = ((w.create E n o launcher).1, w.nextId, .error e) := by
    rw [← h]
    rfl
  rw [beginRun, hc]

theorem beginRun_of_ok (h : (E.create w.engine w.nextId o launcher).result = .ok ()) :
    w.beginRun E n o launcher =
      ((w.create E n o launcher).1.enterRun n w.nextId).workOnRun E n w.nextId := by
  have hc : w.create E n o launcher = ((w.create E n o launcher).1, w.nextId, .ok ()) := by
    rw [← h]
    rfl
  rw [beginRun, hc]
  rfl

theorem workOnRun_nextId (id : Nat) : (w.workOnRun E n id).nextId = w.nextId := by
  unfold workOnRun work
  dsimp only
  split <;> rfl

theorem beginRun_nextId : (w.beginRun E n o launcher).nextId = w.nextId + 1 := by
  have hn := w.create_nextId n E o launcher
  cases h : (E.create w.engine w.nextId o launcher).result with
  | error e =>
    rw [beginRun_of_error w n E o launcher h]
    exact hn
  | ok =>
    rw [beginRun_of_ok w n E o launcher h, workOnRun_nextId]
    exact hn

end World
end Proctor.Manager
