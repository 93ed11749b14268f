import Proctor.Proofs.Manager.Frame

/-! # What happens to runs

The actions on the requests of run calls are what a run consists of. Most of what a step does leaves
them and the run in flight alone; such parts of a step compose, and so do those that only add an
action. -/

namespace Proctor.Manager
open Proctor.Request

def Task.isRun : Task → Bool
  | .run .. => true
  | .discover .. | .signal _ => false

/-- Whether an action belongs to the course of a request. -/
def Action.isCourse : Action → Bool
  | .create .. | .register _ | .unregister _ | .begin .. | .finish .. => true
  | .telemetry .. | .launch .. | .signal .. => false

/-- What a phase says of a call that is a run or not. -/
def Phase.Fits (isRun : Bool) : Phase → Prop
  | .queued o => o.kind = .run
  | .discovering _ => isRun = false
  | .fresh | .executing _ | .awaiting _ | .done _ | .dropped => True

namespace World
variable {σ ε : Type}

def isRun (w : World σ) (n : Nat) : Bool := (w.task? n).any Task.isRun

/-- The actions on the requests of run calls, in order. -/
def runActions (w : World σ) : List Entry :=
  w.history.filter fun e => w.isRun e.call && e.action.isCourse

/-- What an action of a call adds to these. -/
def entry (w : World σ) (n : Nat) (a : Action) : List Entry :=
  if w.isRun n && a.isCourse then [⟨n, a⟩] else []

/-- From `w` to `w'`, the actions on runs are `es`. -/
structure Recorded (es : List Entry) (w w' : World σ) : Prop where
  actions : w'.runActions = w.runActions ++ es
  task? : w'.task? = w.task?
  known : ∀ e ∈ w'.history, e ∈ w.history ∨ (w.task? e.call).isSome

/-- From `w` to `w'`, the actions on runs are `es`, and the run in flight, if there is one, stays as
it is. -/
structure Happened (es : List Entry) (w w' : World σ) : Prop extends Recorded es w w' where
  executing : ∀ n id, w'.phase? n = some (.executing id) ↔ w.phase? n = some (.executing id)
  holder : ∀ n id, w.phase? n = some (.executing id) → w'.lock.holder = w.lock.holder
  fits : ∀ n p, w'.phase? n = some p → w.phase? n = some p ∨ p.Fits (w.isRun n)

theorem task?_isSome (w : World σ) {n : Nat} (h : w.isRun n) : (w.task? n).isSome := by
  unfold isRun at h
  cases ht : w.task? n with
  | none => simp [ht] at h
  | some t => rfl

theorem isRun_congr {w w' : World σ} (h : w'.task? = w.task?) : w'.isRun = w.isRun := by
  funext n
  simp only [isRun, h]

theorem runActions_congr {w w' : World σ} (ht : w'.task? = w.task?)
    (hh : w'.history = w.history) : w'.runActions = w.runActions := by
  simp only [runActions, hh, isRun_congr ht]

theorem entry_congr {w w' : World σ} (h : w'.task? = w.task?) : w'.entry = w.entry := by
  funext n a
  simp only [entry, isRun_congr h]

namespace Recorded
variable {w w₁ : World σ} {es : List Entry} {n : Nat}

theorem refl (w : World σ) : Recorded [] w w := ⟨by simp, rfl, fun _ he => .inl he⟩

/-- Neither history nor calls change. -/
theorem same {w₂ : World σ} (h : Recorded es w w₁) (hh : w₂.history = w₁.history)
    (hc : w₂.calls = w₁.calls) : Recorded es w w₂ := by
  have ht : w₂.task? = w₁.task? := by
    funext n
    simp only [World.task?, hc]
  refine ⟨?_, ht.trans h.task?, hh ▸ h.known⟩
  rw [runActions_congr ht hh, h.actions]

theorem log (h : Recorded es w w₁) (hn : (w.task? n).isSome) (a : Action) :
    Recorded (es ++ w.entry n a) w (w₁.log n a) := by
  refine ⟨?_, h.task?, fun e he => ?_⟩
  · show List.filter (fun e => w₁.isRun e.call && e.action.isCourse) (w₁.history ++ [⟨n, a⟩]) = _
    rw [List.filter_append, ← List.append_assoc, ← h.actions, ← entry_congr h.task?]
    simp only [runActions, entry, List.filter_cons, List.filter_nil]
  · rcases List.mem_append.1 he with he | he
    · exact h.known e he
    · obtain rfl := List.mem_singleton.1 he
      exact .inr hn

theorem log_other (h : Recorded es w w₁) (hn : (w.task? n).isSome) {a : Action}
    (ha : a.isCourse = false) : Recorded es w (w₁.log n a) := by
  simpa [entry, ha] using h.log hn a

theorem modifyCall (h : Recorded es w w₁) {f : Call → Call} (ht : ∀ c, (f c).task = c.task) :
    Recorded es w (w₁.modifyCall n f) := by
  have ht := w₁.task?_modifyCall n ht
  refine ⟨?_, ht.trans h.task?, h.known⟩
  rw [runActions_congr ht rfl, h.actions]

theorem setPhase (h : Recorded es w w₁) (p : Phase) : Recorded es w (w₁.setPhase n p) :=
  h.modifyCall fun _ => rfl

theorem unhook (h : Recorded es w w₁) (hn : (w.task? n).isSome) (id : Nat) :
    Recorded (es ++ w.entry n (.unregister id)) w (w₁.unhook n id) := by
  have hm : Recorded es w (w₁.modifyCall n Call.takeIn) := h.modifyCall fun _ => rfl
  exact hm.log hn _

theorem enterRun (h : Recorded es w w₁) (hn : (w.task? n).isSome) (id : Nat) :
    Recorded (es ++ w.entry n (.register id) ++ w.entry n (.begin .run id)) w
      (w₁.enterRun n id) := by
  have hs : Recorded es w { w₁ with slot := w₁.slot.publish id } := h.same rfl rfl
  exact ((hs.log hn _).setPhase _).log hn _

theorem endRun (h : Recorded es w w₁) (hn : (w.task? n).isSome) (id : Nat) (p : Phase) :
    Recorded (es ++ w.entry n (.unregister id)) w (w₁.endRun n id p) := by
  have hl : Recorded _ w (w₁.leaveRun n id) := (h.unhook hn id).same rfl rfl
  exact (hl.log_other hn rfl).setPhase p

end Recorded

namespace Happened
variable {w w₁ : World σ} {es : List Entry} {n : Nat}

theorem refl (w : World σ) : Happened [] w w where
  toRecorded := .refl w
  executing _ _ := .rfl
  holder _ _ _ := rfl
  fits _ _ hp := .inl hp

/-- Neither history nor calls change, and the lock moves only if no run is in flight. -/
theorem relock {w₂ : World σ} (h : Happened es w w₁) (hh : w₂.history = w₁.history)
    (hc : w₂.calls = w₁.calls)
    (hl : ∀ n id, w.phase? n = some (.executing id) → w₂.lock.holder = w₁.lock.holder) :
    Happened es w w₂ := by
  have hp : w₂.phase? = w₁.phase? := by
    funext n
    simp only [phase?, hc]
  refine ⟨h.toRecorded.same hh hc, hp ▸ h.executing, fun n id he => ?_, hp ▸ h.fits⟩
  rw [hl n id he, h.holder n id he]

theorem same {w₂ : World σ} (h : Happened es w w₁) (hh : w₂.history = w₁.history)
    (hc : w₂.calls = w₁.calls) (hl : w₂.lock = w₁.lock) : Happened es w w₂ :=
  h.relock hh hc fun _ _ _ => congrArg RunLock.holder hl

theorem log (h : Happened es w w₁) (hn : (w.task? n).isSome) (a : Action) :
    Happened (es ++ w.entry n a) w (w₁.log n a) :=
  ⟨h.toRecorded.log hn a, h.executing, h.holder, h.fits⟩

theorem log_other (h : Happened es w w₁) (hn : (w.task? n).isSome) {a : Action}
    (ha : a.isCourse = false) : Happened es w (w₁.log n a) :=
  ⟨h.toRecorded.log_other hn ha, h.executing, h.holder, h.fits⟩

theorem logAll_other (h : Happened es w w₁) (hn : (w.task? n).isSome) {as : List Action}
    (ha : ∀ a ∈ as, a.isCourse = false) : Happened es w (w₁.logAll n as) := by
  induction as generalizing w₁ with
  | nil => exact h
  | cons a as ih =>
    obtain ⟨ha, has⟩ := List.forall_mem_cons.1 ha
    exact ih (h.log_other hn ha) has

theorem modifyCall (h : Happened es w w₁) {f : Call → Call} (ht : ∀ c, (f c).task = c.task)
    (hp : ∀ c, (f c).phase = c.phase) : Happened es w (w₁.modifyCall n f) := by
  have hp := w₁.phase?_modifyCall n hp
  exact ⟨h.toRecorded.modifyCall ht, hp ▸ h.executing, h.holder, hp ▸ h.fits⟩

theorem publishEvents (h : Happened es w w₁) (E : Engine σ ε) (events : List Event) :
    Happened es w (w₁.publishEvents E n events) :=
  h.modifyCall (fun _ => rfl) fun _ => rfl

theorem unhook (h : Happened es w w₁) (hn : (w.task? n).isSome) (id : Nat) :
    Happened (es ++ w.entry n (.unregister id)) w (w₁.unhook n id) := by
  have hp : (w₁.unhook n id).phase? = w₁.phase? := w₁.phase?_modifyCall n fun _ => rfl
  exact ⟨h.toRecorded.unhook hn id, hp ▸ h.executing, h.holder, hp ▸ h.fits⟩

/-- A phase that begins or ends no execution. -/
theorem setPhase (h : Happened es w w₁) {p : Phase}
    (hold : ∀ id, w.phase? n ≠ some (.executing id)) (hnew : ∀ id, p ≠ .executing id)
    (hfits : p.Fits (w.isRun n)) : Happened es w (w₁.setPhase n p) := by
  refine ⟨h.toRecorded.setPhase p, fun m id => ?_, h.holder, fun m q hq => ?_⟩
  · rw [phase?_setPhase, ← h.executing m id]
    split
    · next hm =>
      subst hm
      have hold : w₁.phase? n ≠ some (.executing id) := mt (h.executing n id).1 (hold id)
      cases hp : w₁.phase? n with
      | none => simp
      | some q =>
        have hq : q ≠ .executing id := fun hq => hold (hp.trans (congrArg some hq))
        simp [hnew id, hq]
    · exact .rfl
  · rw [phase?_setPhase] at hq
    split at hq
    · next hm =>
      subst hm
      obtain ⟨_, -, rfl⟩ := Option.map_eq_some_iff.1 hq
      exact .inr hfits
    · exact h.fits m q hq

theorem conclude (h : Happened es w w₁) (hn : (w.task? n).isSome)
    (hold : ∀ id, w.phase? n ≠ some (.executing id)) (kind : Kind)
    (result : Except EngineError Unit) : Happened es w (w₁.conclude n kind result) :=
  (h.log_other hn rfl).setPhase hold (by simp) trivial

theorem create (h : Happened es w w₁) (hn : (w.task? n).isSome) (E : Engine σ ε) (o : Order)
    (launcher : Option Launcher) :
    Happened (es ++ w.entry n (.create w₁.nextId o (launcher.map Launcher.isDebug))) w
      (w₁.create E n o launcher).1 := by
  let creation := E.create w₁.engine w₁.nextId o launcher
  let w₂ := { w₁ with nextId := w₁.nextId + 1, engine := creation.state }
  let launches := creation.launches.map fun l => Action.launch l.1 l.2.toOption
  have h₂ : Happened es w w₂ := h.same rfl rfl rfl
  have hlaunches : ∀ a ∈ launches, a.isCourse = false := List.forall_mem_map.2 fun _ _ => rfl
  exact (h₂.log hn _).logAll_other hn hlaunches

/-! ### Steps of other calls -/

theorem workOnDiscovery (h : Happened es w w₁) (hn : (w.task? n).isSome)
    (hrun : w.isRun n = false) (hold : ∀ id, w.phase? n ≠ some (.executing id))
    (E : Engine σ ε) (id : Nat) : Happened es w (w₁.workOnDiscovery E n id) := by
  let progress := E.resume w₁.engine w₁.clock id
  let w₂ := { w₁ with engine := progress.state }
  have h₂ : Happened es w w₂ := h.same rfl rfl rfl
  have h₁ : Happened es w (w₂.publishEvents E n progress.events) := h₂.publishEvents E _
  unfold World.workOnDiscovery work
  dsimp only
  split
  · exact h₁
  · next result _ =>
    have h₂ := (h₁.log hn (.finish .discovery id)).unhook hn id
    simpa [entry, hrun] using h₂.conclude hn hold .discovery result

theorem startDiscovery (hn : (w.task? n).isSome) (hrun : w.isRun n = false)
    (hold : ∀ id, w.phase? n ≠ some (.executing id)) (E : Engine σ ε) (payload : DiscoveryPayload)
    (protocol : ProtocolConfig) : Happened [] w (w.startDiscovery E n payload protocol) := by
  have h := (refl w).log_other hn (a := .telemetry .discovery .start) rfl
  unfold World.startDiscovery
  dsimp only
  split
  · exact h.conclude hn hold _ _
  · next o _ =>
    have hc := h.create hn E o none
    split
    · next w₂ _ e hw =>
      rw [hw] at hc
      simpa [entry, hrun] using hc.conclude hn hold .discovery (.error e)
    · next w₂ id hw =>
      rw [hw] at hc
      have hd := (hc.log hn (.register id)).setPhase hold (p := .discovering id) (by simp) hrun
      have hb := (hd.log hn (.begin .discovery id)).workOnDiscovery hn hrun hold E id
      simpa [entry, hrun] using hb

theorem trySignal (hn : (w.task? n).isSome) (hold : ∀ id, w.phase? n ≠ some (.executing id))
    (E : Engine σ ε) (s : Signal) (deadline : Nat) :
    Happened [] w (w.trySignal E n s deadline) := by
  unfold World.trySignal
  split
  · exact (refl w).setPhase hold (by simp) trivial
  · exact (refl w).setPhase hold (by simp) trivial
  · next id _ =>
    have h : Happened [] w { w with engine := (E.signal w.engine s id).1 } :=
      (refl w).same rfl rfl rfl
    exact (h.log_other hn rfl).setPhase hold (by simp) trivial

end Happened
end World
end Proctor.Manager
