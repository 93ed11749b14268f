import Mathlib.Logic.ExistsUnique
import Proctor.Proofs.Manager.Handle
import Proctor.Proofs.Manager.RunActions

/-! # The run in flight

The first in the line for the lock has it, and all others in the line wait. The slot holds a handle
exactly while the run of this handle executes, so a signal never goes to a run that is over. -/

namespace Proctor.Manager
open Proctor.Request

/-! ### The line for the lock -/

namespace RunLock

/-- All who have asked for the lock, the holder first. -/
def line (l : RunLock) : List Nat := l.holder.toList ++ l.queue

/-- Nobody waits for a lock that is free. -/
def Handed (l : RunLock) : Prop := l.holder = none → l.queue = []

variable {l : RunLock} {n : Nat}

theorem line_eq_cons (h : l.holder = some n) : l.line = n :: l.queue := by
  simp [line, h]

theorem line_request (h : l.Handed) : (l.request n).line = l.line ++ [n] := by
  cases hl : l.holder with
  | none => simp [request, line, hl, h hl]
  | some m => simp [request, line, hl]

theorem handed_request : (l.request n).Handed := by
  intro h
  cases hl : l.holder with
  | none => simp [request, hl] at h
  | some m => simp [request, hl] at h

theorem handed_release : l.release.Handed := by
  intro h
  have hq : l.queue = [] := List.head?_eq_none_iff.1 h
  simp [release, hq]

theorem line_release : l.release.line = l.queue := by
  cases hq : l.queue <;> simp [release, line, hq]

theorem leave_of_holder (h : l.holder = some n) : l.leave n = l.release := if_pos h

theorem handed_leave (h : l.Handed) : (l.leave n).Handed := by
  by_cases hl : l.holder = some n
  · rw [leave_of_holder hl]
    exact handed_release
  · intro hn
    simp only [leave, if_neg hl] at hn ⊢
    rw [h hn]
    rfl

theorem line_leave : (l.leave n).line = l.line.erase n := by
  by_cases hl : l.holder = some n
  · rw [leave_of_holder hl, line_release, line_eq_cons hl, List.erase_cons_head]
  · have hn : n ∉ l.holder.toList := by simpa using hl
    simp only [leave, if_neg hl, line]
    rw [List.erase_append_right _ hn]

theorem eq_free_of_line (h : l.line = []) : l = .free := by
  obtain ⟨hl, hq⟩ := List.append_eq_nil_iff.1 h
  cases l
  simp_all [free]

end RunLock

/-- A call in this phase is in the line for the lock. -/
def Phase.inLine : Phase → Bool
  | .queued _ | .executing _ => true
  | .fresh | .discovering _ | .awaiting _ | .done _ | .dropped => false

namespace World
variable {σ ε : Type}

/-- The lock and the slot are as the phases of the calls say. -/
structure Guarded (w : World σ) : Prop where
  handed : w.lock.Handed
  nodup : w.lock.line.Nodup
  mem_line : ∀ n, n ∈ w.lock.line ↔ (w.phase? n).any Phase.inLine
  holder : ∀ n id, w.phase? n = some (.executing id) → w.lock.holder = some n
  slot : ∀ id, w.slot.current = some id ↔ ∃ n, w.phase? n = some (.executing id)

namespace Guarded
variable {w w' : World σ} {n : Nat} {p p' : Phase} {as : List Action}

theorem start (options : Options) (engine : σ) : (World.start options engine).Guarded where
  handed _ := rfl
  nodup := List.nodup_nil
  mem_line n := by simp [World.start, RunLock.line, RunLock.free, phase?]
  holder n id h := by simp [World.start, phase?] at h
  slot id := by simp [World.start, phase?, Slot.empty]

/-- Only the lock, the slot and the phases matter. -/
theorem congr (h : w.Guarded) (hl : w'.lock = w.lock) (hs : w'.slot = w.slot)
    (hline : ∀ n, (w'.phase? n).any Phase.inLine = (w.phase? n).any Phase.inLine)
    (he : ∀ n id, w'.phase? n = some (.executing id) ↔ w.phase? n = some (.executing id)) :
    w'.Guarded where
  handed := hl ▸ h.handed
  nodup := hl ▸ h.nodup
  mem_line n := by rw [hl, hline, h.mem_line]
  holder n id hp := by rw [hl, h.holder n id ((he n id).1 hp)]
  slot id := by simp only [hs, h.slot, he]

theorem issue (h : w.Guarded) (t : Task) : (w.issue t).Guarded := by
  have hnone : w.phase? w.calls.length = none := by simp [phase?]
  refine h.congr rfl rfl (fun n => ?_) fun n id => ?_
  · rw [phase?_issue]
    split
    · next hn => simp [hn, hnone, Phase.inLine]
    · rfl
  · rw [phase?_issue]
    split
    · next hn => simp [hn, hnone]
    · rfl

/-- A move of a call that neither is nor comes to be in the line. -/
theorem aside (h : w.Guarded) (hp : w.phase? n = some p) (hm : Moved n p' as w w')
    (hl : w'.lock = w.lock) (hs : w'.slot = w.slot) (hold : p.inLine = false)
    (hnew : p'.inLine = false) : w'.Guarded := by
  refine h.congr hl hs (fun m => ?_) fun m id => ?_
  · rw [hm.phase?]
    split
    · next hn => simp [← hn, hp, hold, hnew]
    · rfl
  · rw [hm.phase?]
    split
    · next hn =>
      subst hn
      constructor
      · rintro ⟨⟩
        cases hnew
      · rw [hp]
        rintro ⟨⟩
        cases hold
    · rfl

theorem proceed (h : w.Guarded) (hp : w.phase? n = some p) (hm : Moved n p as w w')
    (hl : w'.lock = w.lock) (hs : w'.slot = w.slot) : w'.Guarded := by
  have hphase : w'.phase? = w.phase? := by
    funext m
    rw [hm.phase?]
    split
    · next hn => rw [← hn, hp]
    · rfl
  exact h.congr hl hs (fun m => by rw [hphase]) fun m id => by rw [hphase]

theorem not_mem_line (h : w.Guarded) (hp : w.phase? n = some p) (hold : p.inLine = false) :
    n ∉ w.lock.line := by
  simp [h.mem_line, hp, hold]

theorem queue (h : w.Guarded) {o : Order} (hp : w.phase? n = some .fresh)
    (hm : Moved n (.queued o) as w w') (hl : w'.lock = w.lock.request n)
    (hs : w'.slot = w.slot) : w'.Guarded := by
  have he : ∀ m id, w'.phase? m = some (.executing id) ↔ w.phase? m = some (.executing id) := by
    intro m id
    rw [hm.phase?]
    split
    · next hn => simp [← hn, hp]
    · rfl
  have hn := h.not_mem_line hp rfl
  refine ⟨hl ▸ RunLock.handed_request, ?_, fun m => ?_, fun m id hx => ?_, fun id => ?_⟩
  · rw [hl, RunLock.line_request h.handed]
    exact (List.perm_append_singleton n _).nodup_iff.2 (List.nodup_cons.2 ⟨hn, h.nodup⟩)
  · rw [hl, RunLock.line_request h.handed, List.mem_append, h.mem_line, hm.phase?]
    split
    · next hn => simp [hn, Phase.inLine]
    · next hn => simp [Ne.symm hn]
  · rw [hl]
    exact RunLock.request_holder (h.holder m id ((he m id).1 hx))
  · simp only [hs, h.slot, he]

/-- While one who is not executing has the lock, nobody executes. -/
theorem not_executing (h : w.Guarded) (hl : w.lock.holder = some n) (hp : w.phase? n = some p)
    (hold : ∀ id, p ≠ .executing id) (m id : Nat) : w.phase? m ≠ some (.executing id) := by
  intro hx
  obtain rfl := Option.some.inj (hl.symm.trans (h.holder m id hx))
  exact hold id (Option.some.inj (hp.symm.trans hx))

theorem enter (h : w.Guarded) {o : Order} {id : Nat} (hp : w.phase? n = some (.queued o))
    (holds : w.lock.holder = some n) (hm : Moved n (.executing id) as w w')
    (hl : w'.lock = w.lock) (hs : w'.slot = w.slot.publish id) : w'.Guarded := by
  have hnone := h.not_executing holds hp (by simp)
  refine ⟨hl ▸ h.handed, hl ▸ h.nodup, fun m => ?_, fun m i hx => ?_, fun i => ?_⟩
  · rw [hl, h.mem_line, hm.phase?]
    split
    · next hn => simp [← hn, hp, Phase.inLine]
    · rfl
  · rw [hm.phase?] at hx
    split at hx
    · next hn => rw [hl, holds, hn]
    · exact absurd hx (hnone m i)
  · rw [hs]
    simp only [Slot.publish, Option.some.injEq]
    constructor
    · rintro rfl
      exact ⟨n, hm.phase?_self⟩
    · rintro ⟨m, hx⟩
      rw [hm.phase?] at hx
      split at hx
      · exact Phase.executing.inj (Option.some.inj hx)
      · exact absurd hx (hnone m i)

/-- A call leaves the line, and with it the slot if it was executing. -/
theorem leave (h : w.Guarded) (hm : Moved n p' as w w') (hnew : p'.inLine = false)
    (hl : w'.lock = w.lock.leave n)
    (hs : ∀ id, w'.slot.current = some id ↔ ∃ m, n ≠ m ∧ w.phase? m = some (.executing id)) :
    w'.Guarded := by
  have he : ∀ m id, w'.phase? m = some (.executing id) ↔
      n ≠ m ∧ w.phase? m = some (.executing id) := by
    intro m id
    rw [hm.phase?]
    split
    · next hn =>
      refine ⟨?_, fun hx => absurd hn hx.1⟩
      rintro ⟨⟩
      cases hnew
    · next hn => simp [hn]
  refine ⟨hl ▸ RunLock.handed_leave h.handed, ?_, fun m => ?_, fun m id hx => ?_, fun id => ?_⟩
  · rw [hl, RunLock.line_leave]
    exact h.nodup.erase n
  · rw [hl, RunLock.line_leave, h.nodup.mem_erase_iff, h.mem_line, hm.phase?]
    split
    · next hn => simp [hn, hnew]
    · next hn => simp [Ne.symm hn]
  · obtain ⟨hn, hx⟩ := (he m id).1 hx
    rw [hl]
    exact RunLock.leave_holder (h.holder m id hx) (Ne.symm hn)
  · simp only [hs, he]

theorem leaveQueued (h : w.Guarded) {o : Order} (hp : w.phase? n = some (.queued o))
    (hm : Moved n p' as w w') (hnew : p'.inLine = false) (hl : w'.lock = w.lock.leave n)
    (hs : w'.slot = w.slot) : w'.Guarded := by
  refine h.leave hm hnew hl fun id => ?_
  rw [hs, h.slot]
  refine exists_congr fun m => ⟨fun hx => ⟨?_, hx⟩, And.right⟩
  rintro rfl
  cases hp.symm.trans hx

theorem leaveRun (h : w.Guarded) {id : Nat} (hp : w.phase? n = some (.executing id))
    (hm : Moved n p' as w w') (hnew : p'.inLine = false) (hl : w'.lock = w.lock.release)
    (hs : w'.slot = w.slot.clear) : w'.Guarded := by
  have holds := h.holder n id hp
  rw [← RunLock.leave_of_holder holds] at hl
  refine h.leave hm hnew hl fun i => ?_
  simp only [hs, Slot.clear, reduceCtorEq, false_iff]
  rintro ⟨m, hn, hx⟩
  exact hn (Option.some.inj (holds.symm.trans (h.holder m i hx)))

theorem move {ε : Type} {E : Engine σ ε} {t : Task} (h : w.Guarded)
    (hm : Move E w n t p p' as w') : w'.Guarded := by
  have hp := hm.phase
  have hmoved := hm.moved
  cases hm.rule with
  | misread => exact h.aside hp hmoved rfl rfl rfl rfl
  | queue => exact h.queue hp hmoved rfl rfl
  | refuseRun holds =>
    refine h.leaveQueued hp hmoved rfl ?_ (create_slot ..)
    rw [RunLock.leave_of_holder holds]
    exact congrArg RunLock.release (create_lock ..)
  | enterRun holds => exact h.enter hp holds hmoved (create_lock ..) rfl
  | refuseDiscovery | enterDiscovery =>
    exact h.aside hp hmoved (create_lock ..) (create_slot ..) rfl rfl
  | proceedRun | proceedDiscovery => exact h.proceed hp hmoved rfl rfl
  | finishRun | dropRun => exact h.leaveRun hp hmoved rfl rfl rfl
  | finishDiscovery | dropFresh | dropAwaiting | dropDiscovery =>
    exact h.aside hp hmoved rfl rfl rfl rfl
  | await _ waits | expire _ waits | signal _ waits =>
    rcases waits with ⟨rfl, -⟩ | rfl
    · exact h.aside hp hmoved rfl rfl rfl rfl
    · exact h.aside hp hmoved rfl rfl rfl rfl
  | dropQueued => exact h.leaveQueued hp hmoved rfl rfl rfl

end Guarded

theorem exists_task_of_isRun (w : World σ) {n : Nat} (h : w.isRun n) :
    ∃ t, w.task? n = some t ∧ t.kind? = some .run := by
  cases ht : w.task? n with
  | none => simp [isRun, ht] at h
  | some t =>
    cases t with
    | run => exact ⟨_, rfl, rfl⟩
    | discover | signal => simp [isRun, ht, Task.isRun] at h

theorem Changes.isRun {ε : Type} {E : Engine σ ε} {w w' : World σ} {n : Nat} (h : Changes E w w')
    (hn : w.isRun n) : w'.isRun n := by
  obtain ⟨t, ht, -⟩ := w.exists_task_of_isRun hn
  simp only [World.isRun, ht, h.task?_eq ht] at hn ⊢
  exact hn

/-- The run `n` holds the lock, and is suspended in the execution of the handle that it created. -/
structure InFlight (w : World σ) (n id : Nat) : Prop where
  isRun : w.isRun n
  holds : w.lock.holder = some n
  executes : w.phase? n = some (.executing id)
  created : ∃ o d, ⟨n, .create id o d⟩ ∈ w.history

namespace Reachable
variable {ε : Type} {E : Engine σ ε} {options : Options} {engine : σ} {w : World σ} {n m id : Nat}
  {p : Phase} {s : Signal}

theorem guarded (h : Reachable E options engine w) : w.Guarded := by
  induction h with
  | refl => exact .start options engine
  | tail _ hc ih =>
    cases hc with
    | move hm => exact ih.move hm
    | issue t => exact ih.issue t
    | advance | setOptions | outside => exact ih.congr rfl rfl (fun _ => rfl) fun _ _ => .rfl

theorem isRun_of_inLine (h : Reachable E options engine w) (hp : w.phase? n = some p)
    (hline : p.inLine) : w.isRun n := by
  cases ht : w.task? n with
  | none =>
    have hsome := w.isSome_task?_of_phase? n hp
    rw [ht] at hsome
    cases hsome
  | some t =>
    cases t with
    | run => simp [World.isRun, ht, Task.isRun]
    | discover =>
      have hl := h.lifecycle ht rfl hp
      generalize w.actionsOf n = as at hl
      cases hl <;> cases hline
    | signal =>
      have hs := h.signalling ht hp
      generalize w.actionsOf n = as at hs
      cases hs <;> cases hline

theorem registered (h : Reachable E options engine w) (hp : w.phase? n = some (.executing id)) :
    ⟨n, .register id⟩ ∈ w.history := by
  obtain ⟨t, ht, hk⟩ := w.exists_task_of_isRun (h.isRun_of_inLine hp rfl)
  have hl := h.lifecycle ht hk hp
  rw [← mem_actionsOf]
  generalize w.actionsOf n = as at hl
  cases hl
  simp

theorem inFlight (h : Reachable E options engine w) (hp : w.phase? n = some (.executing id)) :
    w.InFlight n id where
  isRun := h.isRun_of_inLine hp rfl
  holds := h.guarded.holder n id hp
  executes := hp
  created := h.created (h.registered hp) rfl

/-- The handle of a run in flight has been created, hooked and begun, and nothing else. -/
theorem begun (h : Reachable E options engine w) {a : Action}
    (hp : w.phase? m = some (.executing id)) (hn : ⟨n, a⟩ ∈ w.history) (ha : a.handle? = some id) :
    (∃ o d, a = .create id o d) ∨ a = .register id ∨ a = .begin .run id := by
  obtain rfl := h.call_eq hn (h.registered hp) ha rfl
  obtain ⟨t, ht, hkind⟩ := w.exists_task_of_isRun (h.isRun_of_inLine hp rfl)
  have hl := h.lifecycle ht hkind hp
  have hmem := mem_actionsOf.2 hn
  generalize w.actionsOf n = as at hmem hl
  cases hl
  simp only [creation, List.cons_append, List.mem_cons, List.mem_append, List.mem_map,
    List.not_mem_nil, or_false] at hmem
  rcases hmem with rfl | rfl | ⟨_, -, rfl⟩ | hrest
  · cases ha
  · exact .inl ⟨_, _, rfl⟩
  · cases ha
  · exact .inr hrest

theorem not_unregistered (h : Reachable E options engine w)
    (hp : w.phase? m = some (.executing id)) (k : Nat) : ⟨k, .unregister id⟩ ∉ w.history := by
  intro hk
  have hbegun := h.begun hp hk rfl
  simp at hbegun

theorem not_finished (h : Reachable E options engine w)
    (hp : w.phase? m = some (.executing id)) (k : Nat) (kind : Kind) :
    ⟨k, .finish kind id⟩ ∉ w.history := by
  intro hk
  have hbegun := h.begun hp hk rfl
  simp at hbegun

theorem current_iff (h : Reachable E options engine w) :
    w.slot.current = some id ↔ ∃! n, w.InFlight n id := by
  rw [h.guarded.slot]
  constructor
  · rintro ⟨n, hp⟩
    have hn := h.inFlight hp
    refine ⟨n, hn, fun m hm => ?_⟩
    exact Option.some.inj (hm.holds.symm.trans hn.holds)
  · rintro ⟨n, hn, -⟩
    exact ⟨n, hn.executes⟩

theorem slot_eq_empty (h : Reachable E options engine w)
    (hno : ∀ n id, w.phase? n ≠ some (.executing id)) : w.slot = .empty := by
  cases hs : w.slot.current with
  | none => exact congrArg Slot.mk hs
  | some id =>
    obtain ⟨n, hp⟩ := (h.guarded.slot id).1 hs
    exact absurd hp (hno n id)

/-- Nobody is in the line if no run is live. -/
theorem line_eq_nil (h : Reachable E options engine w)
    (hover : ∀ n p, w.isRun n → w.phase? n = some p → p.isLive = false) : w.lock.line = [] := by
  refine List.eq_nil_iff_forall_not_mem.2 fun n hn => ?_
  rw [h.guarded.mem_line] at hn
  cases hp : w.phase? n with
  | none => simp [hp] at hn
  | some p =>
    have hline : p.inLine := by simpa [hp] using hn
    have hlive := hover n p (h.isRun_of_inLine hp hline) hp
    cases p <;> simp [Phase.inLine, Phase.isLive] at hline hlive

/-- The run whose handle a step signals is in flight before the step and after it. -/
theorem inFlight_of_signal (h : Reachable E options engine w) {step : Step ε}
    (he : ⟨n, .signal s id⟩ ∈ (w.apply E step).history.drop w.history.length) :
    ∃ m, w.InFlight m id ∧ (w.apply E step).InFlight m id := by
  have hmoves : Moves E n w (w.apply E step) := moves_of_new he
  obtain ⟨as, hh, hfrom⟩ := hmoves.exists_actions
  rw [hh, List.drop_left] at he
  obtain ⟨u, u', t, p, p', bs, hu, hm, hmem⟩ := hfrom (.signal s id) (by simpa using he)
  obtain ⟨rfl, htarget⟩ := hm.rule.of_signal hmem
  have hreach : Reachable E options engine u := Relation.ReflTransGen.trans h hu.changes
  obtain ⟨m, hp⟩ := (hreach.guarded.slot id).1 htarget
  -- a run does not signal itself
  have hne : n ≠ m := by
    rintro rfl
    have hrun := (hreach.inFlight hp).isRun
    simp [World.isRun, hm.task, Task.isRun] at hrun
  have hbefore : w.phase? m = some (.executing id) := (hu.phase?_of_ne hne).symm.trans hp
  have hafter := (hmoves.phase?_of_ne hne).trans hbefore
  exact ⟨m, h.inFlight hbefore, (h.step step).inFlight hafter⟩

/-- Whatever has been signalled is the handle of a run. -/
theorem exists_target (h : Reachable E options engine w) (he : ⟨n, .signal s id⟩ ∈ w.history) :
    ∃ m, w.isRun m ∧ ⟨m, .register id⟩ ∈ w.history := by
  induction h with
  | refl => cases he
  | @tail w w' hr hc ih =>
    have hkeep : ∀ {m}, w.isRun m → w'.isRun m := Changes.isRun (.single hc)
    cases hc with
    | move hm =>
      have hold : ∀ {k a}, ⟨k, a⟩ ∈ w.history → ⟨k, a⟩ ∈ w'.history := fun he =>
        hm.moved.mem_history.2 (.inl he)
      rcases hm.moved.mem_history.1 he with he | ⟨-, ha⟩
      · obtain ⟨m, hrun, hm⟩ := ih he
        exact ⟨m, hkeep hrun, hold hm⟩
      · obtain ⟨m, hp⟩ := (guarded hr).slot id |>.1 (hm.rule.of_signal ha).2
        exact ⟨m, hkeep (isRun_of_inLine hr hp rfl), hold (registered hr hp)⟩
    | issue | advance | setOptions | outside =>
      obtain ⟨m, hrun, hm⟩ := ih he
      exact ⟨m, hkeep hrun, hm⟩

end Reachable

/-- Whatever calls there are, however their steps interleave and whichever of them are dropped: the
slot holds a handle exactly while one run has the lock and is suspended in the execution of this
handle, its own. A signal therefore goes to the run in flight, and the call that created its target
is not over. Once no run is live, the lock is free and the slot is empty. -/
theorem slot_holds_run_in_flight {ε : Type} (E : Engine σ ε) (options : Options) (engine : σ)
    (steps : List (Step ε)) :
    let w := (World.start options engine).run E steps
    (∀ id, w.slot.current = some id ↔ ∃! n, w.InFlight n id) ∧
    ((∀ n, w.isRun n → w.lock.holder ≠ some n) → w.slot = .empty) ∧
    (∀ step n s id, ⟨n, .signal s id⟩ ∈ (w.apply E step).history.drop w.history.length →
      ∃ m, w.InFlight m id ∧ (w.apply E step).InFlight m id ∧
        ∀ k o d, ⟨k, .create id o d⟩ ∈ w.history → k = m) ∧
    ((∀ n p, w.isRun n → w.phase? n = some p → p.isLive = false) →
      w.lock = .free ∧ w.slot = .empty) := by
  intro w
  have h : Reachable E options engine w := reachable_run E options engine steps
  refine ⟨fun id => h.current_iff, fun hno => ?_, fun step n s id he => ?_, fun hover => ?_⟩
  · refine h.slot_eq_empty fun n id hp => ?_
    have hn := h.inFlight hp
    exact hno n hn.isRun hn.holds
  · obtain ⟨m, hm, hm'⟩ := h.inFlight_of_signal he
    obtain ⟨o, d, hcreated⟩ := hm.created
    exact ⟨m, hm, hm', fun k o' d' hk => h.numbered.unique hk hcreated⟩
  · refine ⟨RunLock.eq_free_of_line (h.line_eq_nil hover), h.slot_eq_empty fun n id hp => ?_⟩
    have hlive := hover n _ (h.inFlight hp).isRun hp
    cases hlive

end World
end Proctor.Manager
