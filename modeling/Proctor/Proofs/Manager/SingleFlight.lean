import Mathlib.Data.List.Induction
import Proctor.Proofs.Except
import Proctor.Proofs.Manager.RunActions

/-! # Single flight

The actions on runs come in blocks, each of one call: an order that the engine refuses, or one that
it accepts, with the registrar hooked, the run, and the registrar unhooked. Only the last block can
still be open; its call has the lock and is the only one that executes. -/

namespace Proctor.Manager
open Proctor.Request

/-- How far a block has come. -/
inductive Course
  | refused
  | running
  /-- The registrar is unhooked, whether or not the engine has finished the run. -/
  | over (finished : Bool)
  deriving Repr, DecidableEq

/-- What happens to one order for a run. -/
structure Block where
  call : Nat
  id : Nat
  order : Order
  debug : Option Bool
  course : Course

namespace Block

def actions (b : Block) : List Action :=
  .create b.id b.order b.debug :: match b.course with
    | .refused => []
    | .running => [.register b.id, .begin .run b.id]
    | .over true => [.register b.id, .begin .run b.id, .finish .run b.id, .unregister b.id]
    | .over false => [.register b.id, .begin .run b.id, .unregister b.id]

def entries (b : Block) : List Entry := b.actions.map (Entry.mk b.call)

def leave (b : Block) (finished : Bool) : Block := { b with course := .over finished }

end Block

variable {σ ε : Type}

/-- Answers of an engine to orders, by their numbers. -/
abbrev Answers := Nat → Order → Option Bool → Except EngineError Unit → Prop

/-- The block is of a run call, and it is refused exactly if the engine refused its order. -/
structure Block.Sound (answers : Answers) (w : World σ) (b : Block) : Prop where
  isRun : w.isRun b.call
  kind : b.order.kind = .run
  answer : ∃ r, answers b.id b.order b.debug r ∧ (b.course = .refused ↔ ∃ e, r = .error e)

/-- The actions on runs come in blocks, of which only the last can be open. -/
structure InBlocks (answers : Answers) (w : World σ) (closed : List Block)
    (current : Option Block) : Prop where
  actions : w.runActions = (closed ++ current.toList).flatMap Block.entries
  ended : ∀ b ∈ closed, b.course ≠ .running
  inFlight : ∀ b ∈ current, b.course = .running ∧ w.lock.holder = some b.call
  executing : ∀ n id, w.phase? n = some (.executing id) ↔ ∃ b ∈ current, b.call = n ∧ b.id = id
  sound : ∀ b ∈ closed ++ current.toList, b.Sound answers w
  fits : ∀ n p, w.phase? n = some p → p.Fits (w.isRun n)
  known : ∀ e ∈ w.history, (w.task? e.call).isSome

namespace InBlocks
variable {answers : Answers} {w w' w₁ : World σ} {closed : List Block} {current : Option Block}
  {b : Block} {es : List Entry} {n id : Nat}

theorem start (options : Options) (engine : σ) :
    InBlocks answers (World.start options engine) [] none where
  actions := rfl
  ended := by simp
  inFlight := by simp
  executing n id := by simp [World.phase?, World.start]
  sound := by simp
  fits n p h := by simp [World.phase?, World.start] at h
  known := by simp [World.start]

theorem mono {answers' : Answers} (h : InBlocks answers w closed current)
    (ha : ∀ id o d r, answers id o d r → answers' id o d r) :
    InBlocks answers' w closed current := by
  refine { h with sound := fun b hb => ?_ }
  obtain ⟨hrun, hkind, r, hr, hiff⟩ := h.sound b hb
  exact ⟨hrun, hkind, r, ha _ _ _ _ hr, hiff⟩

theorem known_of_recorded (h : InBlocks answers w closed current) (hr : World.Recorded es w w') :
    ∀ e ∈ w'.history, (w'.task? e.call).isSome := by
  intro e he
  rw [hr.task?]
  exact (hr.known e he).elim (h.known e) id

theorem sound_congr (ht : w'.task? = w.task?) (hb : b.Sound answers w) : b.Sound answers w' := by
  refine ⟨?_, hb.kind, hb.answer⟩
  rw [World.isRun_congr ht]
  exact hb.isRun

theorem sound_append (ht : w'.task? = w.task?) (h : ∀ c ∈ closed, c.Sound answers w)
    (hb : b.Sound answers w) : ∀ c ∈ closed ++ [b], c.Sound answers w' := by
  intro c hc
  rcases List.mem_append.1 hc with hc | hc
  · exact sound_congr ht (h c hc)
  · obtain rfl := List.mem_singleton.1 hc
    exact sound_congr ht hb

theorem fits_of_happened (h : InBlocks answers w closed current) (hh : World.Happened es w w') :
    ∀ n p, w'.phase? n = some p → p.Fits (w'.isRun n) := by
  intro n p hp
  rw [World.isRun_congr hh.task?]
  exact (hh.fits n p hp).elim (h.fits n p) id

/-- Besides what happened, the call `n` has come to a phase that says nothing of its task. -/
theorem fits_of_phase (h : InBlocks answers w closed current) (hh : World.Happened es w w₁)
    (ht : w'.task? = w.task?) {p : Phase} (hfits : ∀ r, p.Fits r)
    (hp : ∀ m, w'.phase? m = if n = m then (w₁.phase? m).map fun _ => p else w₁.phase? m) :
    ∀ m q, w'.phase? m = some q → q.Fits (w'.isRun m) := by
  intro m q hm
  rw [World.isRun_congr ht]
  rw [hp] at hm
  split at hm
  · obtain ⟨_, -, rfl⟩ := Option.map_eq_some_iff.1 hm
    exact hfits _
  · exact (hh.fits m q hm).elim (h.fits m q) id

/-- What leaves the run in flight alone keeps the blocks. -/
theorem happened (h : InBlocks answers w closed current) (hh : World.Happened [] w w') :
    InBlocks answers w' closed current where
  actions := by rw [hh.actions, List.append_nil, h.actions]
  ended := h.ended
  inFlight b hb := by
    obtain ⟨hc, hl⟩ := h.inFlight b hb
    exact ⟨hc, (hh.holder b.call b.id ((h.executing _ _).2 ⟨b, hb, rfl, rfl⟩)).trans hl⟩
  executing n id := (hh.executing n id).trans (h.executing n id)
  sound b hb := sound_congr hh.task? (h.sound b hb)
  fits := h.fits_of_happened hh
  known := h.known_of_recorded hh.toRecorded

theorem idle (h : InBlocks answers w closed none) (n id : Nat) :
    w.phase? n ≠ some (.executing id) := by
  intro hp
  obtain ⟨b, hb, -⟩ := (h.executing n id).1 hp
  simp at hb

/-- A refused order is a block of its own. -/
theorem refuse (h : InBlocks answers w closed none) (hb : b.course = .refused)
    (hs : b.Sound answers w) (hh : World.Happened b.entries w w') :
    InBlocks answers w' (closed ++ [b]) none where
  actions := by simp [hh.actions, h.actions]
  ended := by simpa [or_imp, forall_and, hb] using h.ended
  inFlight := by simp
  executing n id := (hh.executing n id).trans (h.executing n id)
  sound := by simpa using sound_append hh.task? (fun c hc => h.sound c (by simpa using hc)) hs
  fits := h.fits_of_happened hh
  known := h.known_of_recorded hh.toRecorded

/-- An accepted order opens a block. -/
theorem enter (h : InBlocks answers w closed none) (hb : b.course = .running)
    (hs : b.Sound answers w)
    (hc : World.Happened [⟨b.call, .create b.id b.order b.debug⟩] w w₁)
    (hl : w₁.lock.holder = some b.call) :
    InBlocks answers (w₁.enterRun b.call b.id) closed (some b) := by
  have hn := w.task?_isSome hs.isRun
  have hr := hc.toRecorded.enterRun hn b.id
  obtain ⟨q, hq⟩ := w₁.exists_phase? b.call (hc.task? ▸ hn)
  have hclosed : ∀ c ∈ closed, c.Sound answers w := fun c hc => h.sound c (by simpa using hc)
  refine ⟨?_, h.ended, ?_, fun m i => ?_, sound_append hr.task? hclosed hs,
    h.fits_of_phase (p := .executing b.id) hc hr.task? (fun _ => trivial) fun m =>
      World.phase?_enterRun _ _ m _,
    h.known_of_recorded hr⟩
  · rw [hr.actions, h.actions]
    simp [World.entry, hs.isRun, Action.isCourse, Block.entries, Block.actions, hb]
  · rintro _ ⟨⟩
    exact ⟨hb, hl⟩
  · rw [World.phase?_enterRun]
    split
    · next hm => simp [← hm, hq]
    · next hm =>
      have hidle : w₁.phase? m ≠ some (.executing i) := mt (hc.executing m i).1 (h.idle m i)
      simp [hidle, hm]

theorem sound_leave (hb : b.course = .running) (hs : b.Sound answers w) (finished : Bool) :
    (b.leave finished).Sound answers w := by
  obtain ⟨hrun, hkind, r, hr, hiff⟩ := hs
  refine ⟨hrun, hkind, r, hr, ?_⟩
  rw [← hiff, hb]
  simp [Block.leave]

/-- The call of the open block leaves it, and unhooks its registrar. -/
theorem leave (h : InBlocks answers w closed (some b)) (finished : Bool) {p : Phase}
    (hh : World.Happened (if finished then [⟨b.call, .finish .run b.id⟩] else []) w w₁)
    (hnew : ∀ i, p ≠ .executing i) (hfits : ∀ r, p.Fits r) :
    InBlocks answers (w₁.endRun b.call b.id p) (closed ++ [b.leave finished]) none := by
  obtain ⟨hb, -⟩ := h.inFlight b rfl
  have hs := h.sound b (by simp)
  have hn := w.task?_isSome hs.isRun
  have hr := hh.toRecorded.endRun hn b.id p
  have hclosed : ∀ c ∈ closed, c.Sound answers w :=
    fun c hc => h.sound c (List.mem_append_left _ hc)
  have hsound := sound_append hr.task? hclosed (sound_leave hb hs finished)
  refine ⟨?_, ?_, by simp, fun m i => ?_, by simpa using hsound,
    h.fits_of_phase hh hr.task? hfits fun m => World.phase?_endRun _ _ m _ _,
    h.known_of_recorded hr⟩
  · rw [hr.actions, h.actions]
    cases finished <;>
      simp [World.entry, hs.isRun, Action.isCourse, Block.entries, Block.actions, Block.leave, hb]
  · simpa [or_imp, forall_and, Block.leave] using h.ended
  · rw [World.phase?_endRun]
    split
    · simp [hnew]
    · next hm =>
      rw [hh.executing, h.executing]
      simp [hm]

theorem eq_none (h : InBlocks answers w closed current) (hl : w.lock.holder = some n)
    (hold : ∀ i, w.phase? n ≠ some (.executing i)) : current = none := by
  cases current with
  | none => rfl
  | some b =>
    -- the call of an open block has the lock and executes, so it would be `n`
    obtain ⟨-, hb⟩ := h.inFlight b rfl
    obtain rfl : b.call = n := Option.some.inj (hb.symm.trans hl)
    exact absurd ((h.executing _ _).2 ⟨b, rfl, rfl, rfl⟩) (hold b.id)

/-- While a run is in flight, its call keeps the lock. -/
theorem holder_of_executing (h : InBlocks answers w closed current)
    (hp : w.phase? n = some (.executing id)) : w.lock.holder = some n := by
  obtain ⟨b, hb, rfl, -⟩ := (h.executing n id).1 hp
  exact (h.inFlight b hb).2

theorem issue (h : InBlocks answers w closed current) (t : Task) :
    InBlocks answers (w.issue t) closed current := by
  have hrun : ∀ m, (w.task? m).isSome → (w.issue t).isRun m = w.isRun m := by
    intro m hm
    simp only [World.isRun, w.task?_issue m t hm]
  refine ⟨?_, h.ended, h.inFlight, fun m i => ?_, fun b hb => ?_, fun m p hp => ?_, fun e he => ?_⟩
  · rw [← h.actions]
    refine List.filter_congr fun e he => ?_
    rw [hrun e.call (h.known e he)]
  · rw [← h.executing, World.phase?_issue]
    split
    · next hm => simp [hm, World.phase?]
    · exact .rfl
  · obtain ⟨hb, hkind, hanswer⟩ := h.sound b hb
    exact ⟨by rwa [hrun _ (w.task?_isSome hb)], hkind, hanswer⟩
  · rw [World.phase?_issue] at hp
    split at hp
    · obtain rfl := Option.some.inj hp
      trivial
    · rw [hrun m (w.isSome_task?_of_phase? m hp)]
      exact h.fits m p hp
  · rw [w.task?_issue e.call t (h.known e he)]
    exact h.known e he

end InBlocks

/-- The actions on runs come in blocks. -/
def SingleFlight (answers : Answers) (w : World σ) : Prop :=
  ∃ closed current, InBlocks answers w closed current

theorem kind_of_runOrder {options : Options} {protocol : ProtocolConfig} {payload : RunPayload}
    {o : Order} (h : runOrder options protocol payload = .ok o) : o.kind = .run := by
  obtain ⟨_, -, h⟩ := bind_eq_ok.1 h
  obtain rfl := pure_eq_ok.1 h
  rfl

namespace SingleFlight
variable {answers : Answers} {w w' : World σ} {n id : Nat} {E : Engine σ ε}

theorem happened (h : SingleFlight answers w) (hh : World.Happened [] w w') :
    SingleFlight answers w' := by
  obtain ⟨closed, current, h⟩ := h
  exact ⟨closed, current, h.happened hh⟩

theorem workOnRun (h : SingleFlight answers w) (hp : w.phase? n = some (.executing id)) :
    SingleFlight answers (w.workOnRun E n id) := by
  obtain ⟨closed, current, h⟩ := h
  obtain ⟨b, hb, rfl, rfl⟩ := (h.executing n id).1 hp
  obtain rfl : current = some b := hb
  have hrun := (h.sound b (by simp)).isRun
  have hn := w.task?_isSome hrun
  let progress := E.resume w.engine w.clock b.id
  let w₁ := { w with engine := progress.state }
  have h₁ : World.Happened [] w w₁ := (World.Happened.refl w).same rfl rfl rfl
  have h₂ := h₁.publishEvents (n := b.call) E progress.events
  unfold World.workOnRun World.work
  dsimp only
  split
  · exact ⟨closed, some b, h.happened h₂⟩
  · next result _ =>
    have h₃ := h₂.log hn (.finish .run b.id)
    simp only [World.entry, hrun, Action.isCourse, Bool.and_self, if_true, List.nil_append] at h₃
    exact ⟨_, none, h.leave true (p := .done (settle result)) h₃ (by simp) fun _ => trivial⟩

theorem beginRun (h : SingleFlight answers w) (hrun : w.isRun n)
    (hlock : w.lock.holder = some n) (hold : ∀ i, w.phase? n ≠ some (.executing i)) {o : Order}
    (hkind : o.kind = .run) {launcher : Option Launcher}
    (ha : answers w.nextId o (launcher.map Launcher.isDebug)
      (E.create w.engine w.nextId o launcher).result) :
    SingleFlight answers (w.beginRun E n o launcher) := by
  obtain ⟨closed, current, h⟩ := h
  obtain rfl := h.eq_none hlock hold
  have hn := w.task?_isSome hrun
  have hc := (World.Happened.refl w).create hn E o launcher
  simp only [World.entry, hrun, Action.isCourse, Bool.and_self, if_true, List.nil_append] at hc
  cases hr : (E.create w.engine w.nextId o launcher).result with
  | error e =>
    rw [World.beginRun_of_error w n E o launcher hr]
    let b : Block := ⟨n, w.nextId, o, launcher.map Launcher.isDebug, .refused⟩
    have hs : b.Sound answers w := ⟨hrun, hkind, _, ha, by simp [hr, b]⟩
    let w₁ := (w.create E n o launcher).1
    have hl : World.Happened _ w { w₁ with lock := w₁.lock.release } :=
      hc.relock rfl rfl fun m i hm => absurd hm (h.idle m i)
    exact ⟨_, none, h.refuse rfl hs (hl.conclude hn hold .run (.error e))⟩
  | ok =>
    rw [World.beginRun_of_ok w n E o launcher hr]
    let b : Block := ⟨n, w.nextId, o, launcher.map Launcher.isDebug, .running⟩
    have hs : b.Sound answers w := ⟨hrun, hkind, _, ha, by simp [hr, b]⟩
    have hl : (w.create E n o launcher).1.lock.holder = some n := by
      rw [World.create_lock, hlock]
    have hb := h.enter (b := b) rfl hs hc hl
    exact workOnRun ⟨closed, some b, hb⟩ ((hb.executing _ _).2 ⟨b, rfl, rfl, rfl⟩)

theorem startRun (h : SingleFlight answers w) {payload : RunPayload} {launcher : Option Launcher}
    {protocol : ProtocolConfig} (ht : w.task? n = some (.run payload launcher protocol))
    (hp : w.phase? n = some .fresh)
    (ha : (w.startRun E n payload launcher protocol).nextId = w.nextId + 1 → ∀ o,
      answers w.nextId o (launcher.map Launcher.isDebug)
        (E.create w.engine w.nextId o launcher).result) :
    SingleFlight answers (w.startRun E n payload launcher protocol) := by
  have hrun : w.isRun n := by simp [World.isRun, ht, Task.isRun]
  have hn := w.task?_isSome hrun
  have hold : ∀ i, w.phase? n ≠ some (.executing i) := by simp [hp]
  let w' := w.log n (.telemetry .run .start)
  have hstart : World.Happened [] w w' := (World.Happened.refl w).log_other hn rfl
  generalize hw : w.startRun E n payload launcher protocol = w₂ at ha ⊢
  unfold World.startRun at hw
  dsimp only at hw
  split at hw
  · subst hw
    exact h.happened (hstart.conclude hn hold _ _)
  · next o ho =>
    have hkind := kind_of_runOrder ho
    have hlock : World.Happened [] w { w' with lock := w'.lock.request n } := by
      obtain ⟨_, _, hb⟩ := h
      exact hstart.relock rfl rfl fun m i hm =>
        (RunLock.request_holder (hb.holder_of_executing hm)).trans (hb.holder_of_executing hm).symm
    split at hw
    · next hl =>
      subst hw
      refine (h.happened hlock).beginRun ?_ hl ?_ hkind (ha (World.beginRun_nextId ..) o)
      · exact hrun
      · exact hold
    · subst hw
      exact h.happened (hlock.setPhase hold (by simp) hkind)

theorem not_isRun_of_discovering (h : SingleFlight answers w)
    (hp : w.phase? n = some (.discovering id)) : w.isRun n = false := by
  obtain ⟨_, _, h⟩ := h
  exact h.fits n _ hp

theorem resume (h : SingleFlight answers w)
    (ha : (w.resume E n).nextId = w.nextId + 1 → ∀ o launcher,
      answers w.nextId o (launcher.map Launcher.isDebug)
        (E.create w.engine w.nextId o launcher).result) :
    SingleFlight answers (w.resume E n) := by
  generalize hw : w.resume E n = w' at ha ⊢
  unfold World.resume at hw
  split at hw
  · subst hw
    exact h
  · next c hc =>
    have ht : w.task? n = some c.task := by simp [World.task?, hc]
    have hp : w.phase? n = some c.phase := by simp [World.phase?, hc]
    have hn : (w.task? n).isSome := by simp [ht]
    split at hw
    · next hphase htask =>
      have hrun : w.isRun n = false := by simp [World.isRun, ht, htask, Task.isRun]
      subst hw
      exact h.happened (.startDiscovery hn hrun (by simp [hp, hphase]) E _ _)
    · next hphase htask =>
      subst hw
      exact h.startRun (htask ▸ ht) (hphase ▸ hp) fun hid o => ha hid o _
    · next hphase _ =>
      subst hw
      exact h.happened (.trySignal hn (by simp [hp, hphase]) E _ _)
    · next o _ launcher _ hphase htask =>
      have hrun : w.isRun n := by simp [World.isRun, ht, htask, Task.isRun]
      split at hw
      · next hl =>
        have hkind : o.kind = .run := by
          obtain ⟨_, _, hb⟩ := h
          exact hb.fits n _ (hphase ▸ hp)
        subst hw
        exact h.beginRun hrun hl (by simp [hp, hphase]) hkind (ha (World.beginRun_nextId ..) o _)
      · subst hw
        exact h
    · next id hphase =>
      have hold : ∀ i, w.phase? n ≠ some (.executing i) := by simp [hp, hphase]
      subst hw
      exact h.happened ((World.Happened.refl w).workOnDiscovery hn
        (h.not_isRun_of_discovering (hphase ▸ hp)) hold E id)
    · next hphase =>
      subst hw
      exact h.workOnRun (hphase ▸ hp)
    · next hphase _ =>
      subst hw
      exact h.happened (.trySignal hn (by simp [hp, hphase]) E _ _)
    · subst hw
      exact h

theorem drop (h : SingleFlight answers w) : SingleFlight answers (w.drop E n) := by
  unfold World.drop
  split
  · exact h
  · next c hc =>
    have hp : w.phase? n = some c.phase := by simp [World.phase?, hc]
    have hn := w.isSome_task?_of_phase? n hp
    split
    · exact h
    · exact h
    · next hphase =>
      exact h.happened ((World.Happened.refl w).setPhase (by simp [hp, hphase]) (by simp) trivial)
    · next hphase =>
      exact h.happened ((World.Happened.refl w).setPhase (by simp [hp, hphase]) (by simp) trivial)
    · next o hphase =>
      have hlock : World.Happened [] w { w with lock := w.lock.leave n } := by
        obtain ⟨_, _, hb⟩ := h
        refine (World.Happened.refl w).relock rfl rfl fun m i hm => ?_
        have hl := hb.holder_of_executing hm
        have hne : m ≠ n := by
          rintro rfl
          simp [hp, hphase] at hm
        rw [hl]
        exact RunLock.leave_holder hl hne
      exact h.happened ((hlock.log_other hn rfl).setPhase (by simp [hp, hphase]) (by simp) trivial)
    · next id hphase =>
      have hgone : World.Happened [] w { w with engine := E.abandon w.engine id } :=
        (World.Happened.refl w).same rfl rfl rfl
      exact h.happened ((hgone.log_other hn rfl).setPhase (by simp [hp, hphase]) (by simp) trivial)
    · next id hphase =>
      obtain ⟨closed, current, h⟩ := h
      obtain ⟨b, hb, rfl, rfl⟩ := (h.executing n id).1 (hphase ▸ hp)
      obtain rfl : current = some b := hb
      have hgone : World.Happened [] w { w with engine := E.abandon w.engine b.id } :=
        (World.Happened.refl w).same rfl rfl rfl
      exact ⟨_, none, h.leave false hgone (by simp) fun _ => trivial⟩

/-- Every step keeps the blocks, if the answer that it gets to an order is one of those given. -/
theorem apply (h : SingleFlight answers w) {s : Step ε}
    (ha : (w.apply E s).nextId = w.nextId + 1 → ∀ o launcher,
      answers w.nextId o (launcher.map Launcher.isDebug)
        (E.create w.engine w.nextId o launcher).result) :
    SingleFlight answers (w.apply E s) := by
  have hquiet := World.Happened.refl w
  cases s with
  | issue task =>
    obtain ⟨closed, current, h⟩ := h
    exact ⟨closed, current, h.issue task⟩
  | resume n => exact h.resume ha
  | drop n => exact h.drop
  | advance time => exact h.happened (hquiet.same rfl rfl rfl)
  | setOptions o => exact h.happened (hquiet.same rfl rfl rfl)
  | outside e => exact h.happened (hquiet.same rfl rfl rfl)

end SingleFlight

/-! ### Every history -/

/-- What the engine answered to the order `id`, in the step that used up this number. -/
def Answered (E : Engine σ ε) (w : World σ) (steps : List (Step ε)) : Answers := fun id o debug r =>
  ∃ front s back launcher, steps = front ++ s :: back ∧ (w.run E front).nextId = id ∧
    (w.run E (front ++ [s])).nextId = id + 1 ∧ launcher.map Launcher.isDebug = debug ∧
    (E.create (w.run E front).engine id o launcher).result = r

theorem Answered.append {E : Engine σ ε} {w : World σ} {front : List (Step ε)} {id : Nat}
    {o : Order} {debug : Option Bool} {r : Except EngineError Unit}
    (h : Answered E w front id o debug r) (back : List (Step ε)) :
    Answered E w (front ++ back) id o debug r := by
  obtain ⟨first, s, rest, launcher, rfl, h⟩ := h
  exact ⟨first, s, rest ++ back, launcher, by simp, h⟩

theorem singleFlight_run (E : Engine σ ε) (options : Options) (engine : σ)
    (steps : List (Step ε)) :
    SingleFlight (Answered E (.start options engine) steps)
      ((World.start options engine).run E steps) := by
  induction steps using List.reverseRecOn with
  | nil => exact ⟨[], none, .start options engine⟩
  | append_singleton front s ih =>
    obtain ⟨closed, current, ih⟩ := ih
    -- the answers to earlier orders stay as they were
    have h : SingleFlight (Answered E (.start options engine) (front ++ [s]))
        ((World.start options engine).run E front) :=
      ⟨closed, current, ih.mono fun _ _ _ _ ha => ha.append [s]⟩
    rw [World.run_append, World.run_singleton]
    refine h.apply fun hid o launcher => ?_
    refine ⟨front, s, [], launcher, rfl, rfl, ?_, rfl, rfl⟩
    rw [World.run_append, World.run_singleton]
    exact hid

/-- Whatever calls there are, however their steps interleave and whichever of them are dropped, the
actions on runs come in blocks: refused orders, and accepted ones with the registrar hooked and
unhooked again. Only the last can be open, and exactly its call executes. -/
theorem runs_come_in_blocks (E : Engine σ ε) (options : Options) (engine : σ)
    (steps : List (Step ε)) :
    ∃ (closed : List Block) (current : Option Block),
      ((World.start options engine).run E steps).runActions =
        (closed ++ current.toList).flatMap Block.entries ∧
      (∀ b ∈ closed, b.course ≠ .running) ∧ (∀ b ∈ current, b.course = .running) ∧
      (∀ b ∈ closed ++ current.toList, b.Sound (Answered E (.start options engine) steps)
        ((World.start options engine).run E steps)) ∧
      ∀ n id, ((World.start options engine).run E steps).phase? n = some (.executing id) ↔
        ∃ b ∈ current, b.call = n ∧ b.id = id := by
  obtain ⟨closed, current, h⟩ := singleFlight_run E options engine steps
  exact ⟨closed, current, h.actions, h.ended, fun b hb => (h.inFlight b hb).1, h.sound, h.executing⟩

end Proctor.Manager
