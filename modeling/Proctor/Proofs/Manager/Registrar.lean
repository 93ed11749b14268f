import Mathlib.Data.List.Induction
import Proctor.Proofs.Manager.WaitingSignal

/-! # What becomes of a registrar

The registrar of a call is hooked once at most. Each way out of a run unhooks it; of the ways out of
a discovery, the one through a drop while the engine works does not. -/

namespace Proctor.Manager
open Proctor.Request

namespace Action

def isRegister : Action → Bool
  | register _ => true
  | telemetry .. | create .. | launch .. | unregister _ | begin .. | finish .. | signal .. => false

def isUnregister : Action → Bool
  | unregister _ => true
  | telemetry .. | create .. | launch .. | register _ | begin .. | finish .. | signal .. => false

end Action

section
variable (id : Nat) (o : Order) (launcher : Option Launcher)
  (launches : List (ProcessStart × Except EngineError Nat))

theorem countP_isRegister_creation :
    (creation id o launcher launches).countP Action.isRegister = 0 := by
  simp [creation, List.countP_eq_zero, Action.isRegister]

theorem countP_isUnregister_creation :
    (creation id o launcher launches).countP Action.isUnregister = 0 := by
  simp [creation, List.countP_eq_zero, Action.isUnregister]

theorem begin_notMem_creation (kind : Kind) (k : Nat) :
    .begin kind k ∉ creation id o launcher launches := by
  simp [creation]

end

/-- No step of the call itself leads to this phase. -/
def Phase.isIdle : Phase → Bool
  | .fresh | .dropped => true
  | .queued _ | .discovering _ | .executing _ | .awaiting _ | .done _ => false

namespace Lifecycle
variable {t : Task} {kind : Kind} {p : Phase} {as : List Action}

/-- Once a call is over, its registrar has been unhooked if it has been hooked, unless the call is a
discovery that the engine had begun with and that was dropped. -/
theorem registrar (h : Lifecycle t kind p as) (hp : p.isOver) :
    as.countP Action.isRegister ≤ 1 ∧
      as.countP Action.isUnregister ≤ as.countP Action.isRegister ∧
      (as.countP Action.isUnregister = as.countP Action.isRegister ↔
        ¬ (p = .dropped ∧ ∃ id, .begin .discovery id ∈ as)) := by
  cases h with
  | fresh | queued | executing | discovering => cases hp
  | unstarted | misread | unqueued | refused | finished | abandonedRun | abandonedDiscovery =>
    simp [countP_isRegister_creation, countP_isUnregister_creation, begin_notMem_creation,
      List.countP_cons, Action.isRegister, Action.isUnregister]

/-- The engine has begun with a discovery that is not over exactly if it works on it. -/
theorem begin_iff (h : Lifecycle t kind p as) (hp : p.isOver = false) (id : Nat) :
    .begin .discovery id ∈ as ↔ p = .discovering id := by
  cases h with
  | fresh | queued => simp
  | executing => simp [begin_notMem_creation]
  | discovering => simp [begin_notMem_creation, eq_comm]
  | unstarted | misread | unqueued | refused | finished | abandonedRun | abandonedDiscovery =>
    cases hp

end Lifecycle

namespace World
variable {σ ε : Type} {E : Engine σ ε} {options : Options} {engine : σ} {w w' : World σ} {n : Nat}
  {p : Phase}

/-- How often a registrar has been hooked for the call. -/
def registrations (w : World σ) (n : Nat) : Nat := (w.actionsOf n).countP Action.isRegister

/-- How often a registrar has been unhooked for the call. -/
def unregistrations (w : World σ) (n : Nat) : Nat := (w.actionsOf n).countP Action.isUnregister

/-! ### A call is dropped only by its drop -/

theorem setPhase_not_idle (w : World σ) (hp : p.isIdle = false) :
    ((w.setPhase n p).phase? n).any Phase.isIdle = false := by
  rw [phase?_setPhase, if_pos rfl]
  cases w.phase? n with
  | none => rfl
  | some => exact hp

theorem conclude_not_idle (w : World σ) (kind : Kind) (result : Except EngineError Unit) :
    ((w.conclude n kind result).phase? n).any Phase.isIdle = false := setPhase_not_idle _ rfl

theorem work_not_idle {kind : Kind} {id : Nat}
    {finish : World σ → Except EngineError Unit → World σ}
    (hw : (w.phase? n).any Phase.isIdle = false)
    (hfinish : ∀ w result, ((finish w result).phase? n).any Phase.isIdle = false) :
    ((w.work E n kind id finish).phase? n).any Phase.isIdle = false := by
  unfold work
  dsimp only
  split
  · have hphase : (w.proceed E n id).phase? = w.phase? := phase?_modifyCall _ n fun _ => rfl
    rwa [← hphase] at hw
  · exact hfinish _ _

theorem workOnDiscovery_not_idle {id : Nat} (hw : (w.phase? n).any Phase.isIdle = false) :
    ((w.workOnDiscovery E n id).phase? n).any Phase.isIdle = false :=
  work_not_idle hw fun _ _ => conclude_not_idle _ _ _

theorem workOnRun_not_idle {id : Nat} (hw : (w.phase? n).any Phase.isIdle = false) :
    ((w.workOnRun E n id).phase? n).any Phase.isIdle = false :=
  work_not_idle hw fun _ _ => conclude_not_idle _ _ _

theorem beginRun_not_idle (o : Order) (launcher : Option Launcher) :
    ((w.beginRun E n o launcher).phase? n).any Phase.isIdle = false := by
  unfold beginRun
  split
  · exact conclude_not_idle _ _ _
  · exact workOnRun_not_idle (setPhase_not_idle _ rfl)

theorem startDiscovery_not_idle (payload : DiscoveryPayload) (protocol : ProtocolConfig) :
    ((w.startDiscovery E n payload protocol).phase? n).any Phase.isIdle = false := by
  unfold startDiscovery
  dsimp only
  split
  · exact conclude_not_idle _ _ _
  · split
    · exact conclude_not_idle _ _ _
    · exact workOnDiscovery_not_idle (setPhase_not_idle _ rfl)

theorem startRun_not_idle (payload : RunPayload) (launcher : Option Launcher)
    (protocol : ProtocolConfig) :
    ((w.startRun E n payload launcher protocol).phase? n).any Phase.isIdle = false := by
  unfold startRun
  dsimp only
  split
  · exact conclude_not_idle _ _ _
  · split
    · exact beginRun_not_idle _ _
    · exact setPhase_not_idle _ rfl

theorem trySignal_not_idle (s : Signal) (deadline : Nat) :
    ((w.trySignal E n s deadline).phase? n).any Phase.isIdle = false := by
  unfold trySignal
  split
  · exact setPhase_not_idle _ rfl
  · exact setPhase_not_idle _ rfl
  · exact setPhase_not_idle _ rfl

/-- A step takes a call out of the phase in which it has not run yet, and drops no call. -/
theorem resume_not_idle (hw : w.phase? n ≠ some .dropped) :
    ((w.resume E n).phase? n).any Phase.isIdle = false := by
  unfold resume
  split
  · next hc => simp [World.phase?, hc]
  · next c hc =>
    have hp : w.phase? n = some c.phase := by simp [World.phase?, hc]
    have hstay : c.phase ≠ .fresh → (w.phase? n).any Phase.isIdle = false := by
      intro hfresh
      rw [hp] at hw ⊢
      cases hphase : c.phase with
      | fresh => exact absurd hphase hfresh
      | dropped => exact absurd (congrArg some hphase) hw
      | queued | discovering | executing | awaiting | done => rfl
    split
    · exact startDiscovery_not_idle _ _
    · exact startRun_not_idle _ _ _
    · exact trySignal_not_idle _ _
    · next hphase _ =>
      split
      · exact beginRun_not_idle _ _
      · exact hstay (by simp [hphase])
    · next hphase => exact workOnDiscovery_not_idle (hstay (by simp [hphase]))
    · next hphase => exact workOnRun_not_idle (hstay (by simp [hphase]))
    · exact trySignal_not_idle _ _
    · next hdiscover hrun hsignal _ _ =>
      refine hstay fun hfresh => ?_
      cases htask : c.task with
      | discover => exact hdiscover _ _ hfresh htask
      | run => exact hrun _ _ _ hfresh htask
      | signal => exact hsignal _ hfresh htask

theorem eq_drop_of_dropped {s : Step ε} (hw : w.phase? n ≠ some .dropped)
    (hs : (w.apply E s).phase? n = some .dropped) : s = .drop n := by
  cases s with
  | issue t =>
    have hi : (w.issue t).phase? n = some .dropped := hs
    rw [phase?_issue] at hi
    split at hi
    · cases hi
    · exact absurd hi hw
  | resume k =>
    by_cases hk : k = n
    · subst hk
      have hidle := resume_not_idle (E := E) hw
      have hdropped : (w.resume E k).phase? k = some .dropped := hs
      rw [hdropped] at hidle
      cases hidle
    · exact absurd (((moves_resume E w k).phase?_of_ne hk).symm.trans hs) hw
  | drop k =>
    by_cases hk : k = n
    · rw [hk]
    · exact absurd (((moves_drop E w k).phase?_of_ne hk).symm.trans hs) hw
  | advance | setOptions | outside => exact absurd hs hw

theorem drop_of_none (E : Engine σ ε) (hp : w.phase? n = none) : w.drop E n = w := by
  have hc : w.calls[n]? = none := by simpa [World.phase?] using hp
  simp [drop, hc]

/-- A drop begins nothing. -/
theorem moved_drop (E : Engine σ ε) (hp : w.phase? n = some p) (hover : p.isOver = false) :
    ∃ as, Moved n .dropped as w (w.drop E n) ∧ ∀ kind id, .begin kind id ∉ as := by
  obtain ⟨c, hc, rfl⟩ := Option.map_eq_some_iff.1 hp
  have hr := Moved.refl hp
  unfold drop
  simp only [hc]
  split
  · next h => simp [h, Phase.isOver] at hover
  · next h => simp [h, Phase.isOver] at hover
  · exact ⟨_, hr.setPhase _, by simp⟩
  · exact ⟨_, hr.setPhase _, by simp⟩
  · exact ⟨_, ((hr.withLock _).log _).setPhase _, by simp⟩
  · exact ⟨_, ((hr.withEngine _).log _).setPhase _, by simp⟩
  · exact ⟨_, (hr.withEngine _).endRun _ _, by simp⟩

theorem phase?_congr (h : w'.calls[n]? = w.calls[n]?) : w'.phase? n = w.phase? n := by
  rw [World.phase?, h, World.phase?]

/-- Nothing changes of a call that is over. -/
theorem Changes.eq_of_isOver (h : Changes E w w') (hn : w.IsOver n) :
    w'.calls[n]? = w.calls[n]? ∧ w'.actionsOf n = w.actionsOf n := by
  obtain ⟨p, hp, hover⟩ := hn
  induction h with
  | refl => exact ⟨rfl, rfl⟩
  | tail _ hc ih =>
    rcases hc.stays_or_moves ((phase?_congr ih.1).trans hp) with ⟨hcall, hactions⟩ | ⟨_, _, _, hm⟩
    · exact ⟨hcall.trans ih.1, hactions.trans ih.2⟩
    · rw [hm.rule.not_isOver] at hover
      cases hover

/-- One step drops a call exactly if it is its drop, and the call is not over. -/
theorem dropped_apply_iff (E : Engine σ ε) (w : World σ) (n : Nat) (s : Step ε) :
    (w.apply E s).phase? n = some .dropped ↔
      w.phase? n = some .dropped ∨ s = .drop n ∧ ∃ p, w.phase? n = some p ∧ p.isOver = false := by
  constructor
  · intro hs
    by_cases hover : w.IsOver n
    · have hsame := (Changes.eq_of_isOver (changes_apply E w s) hover).1
      exact .inl ((phase?_congr hsame).symm.trans hs)
    · have hdropped : w.phase? n ≠ some .dropped := fun hp => hover ⟨_, hp, rfl⟩
      obtain rfl := eq_drop_of_dropped hdropped hs
      refine .inr ⟨rfl, ?_⟩
      cases hp : w.phase? n with
      | none =>
        have hw : w.apply E (.drop n) = w := drop_of_none E hp
        exact absurd (hw ▸ hs) hdropped
      | some p => exact ⟨p, rfl, Bool.eq_false_iff.2 fun hp' => hover ⟨p, hp, hp'⟩⟩
  · rintro (hp | ⟨rfl, p, hp, hover⟩)
    · exact (phase?_congr (Changes.eq_of_isOver (changes_apply E w s) ⟨_, hp, rfl⟩).1).trans hp
    · obtain ⟨as, hm, -⟩ := moved_drop E hp hover
      exact hm.phase?_self

/-! ### Discoveries that are dropped while the engine works -/

/-- The call was dropped when the engine had begun with its discovery. -/
def Deserted (w : World σ) (n : Nat) : Prop :=
  w.phase? n = some .dropped ∧ ∃ id, .begin .discovery id ∈ w.actionsOf n

theorem Changes.deserted_iff (h : Changes E w w') (hn : w.IsOver n) :
    w'.Deserted n ↔ w.Deserted n := by
  obtain ⟨hcall, hactions⟩ := h.eq_of_isOver hn
  simp only [Deserted, phase?_congr hcall, hactions]

theorem Reachable.begin_iff (h : Reachable E options engine w) (hp : w.phase? n = some p)
    (hover : p.isOver = false) (id : Nat) :
    .begin .discovery id ∈ w.actionsOf n ↔ p = .discovering id := by
  obtain ⟨t, ht⟩ := Option.isSome_iff_exists.1 (w.isSome_task?_of_phase? n hp)
  cases hk : t.kind? with
  | some kind => exact (h.lifecycle ht hk hp).begin_iff hover id
  | none =>
    cases t with
    | discover | run => cases hk
    | signal s =>
      have hs := h.signalling ht hp
      generalize w.actionsOf n = as at hs
      cases hs <;> simp

/-- One step deserts a call exactly if it drops it while the engine works on its discovery. -/
theorem Reachable.deserted_apply_iff (h : Reachable E options engine w) (s : Step ε) :
    (w.apply E s).Deserted n ↔
      w.Deserted n ∨ s = .drop n ∧ ∃ id, w.phase? n = some (.discovering id) := by
  -- the drop of a call begins nothing that was not begun before
  have hdrop : ∀ {p}, w.phase? n = some p → p.isOver = false →
      ((∃ id, .begin .discovery id ∈ (w.drop E n).actionsOf n) ↔ ∃ id, p = .discovering id) := by
    intro p hp hlive
    obtain ⟨as, hm, hbegin⟩ := moved_drop E hp hlive
    simp only [hm.actionsOf_self, List.mem_append, hbegin, or_false, h.begin_iff hp hlive]
  by_cases hover : w.IsOver n
  · rw [(changes_apply E w s).deserted_iff hover]
    refine ⟨.inl, fun hd => hd.resolve_right ?_⟩
    rintro ⟨-, id, hp⟩
    obtain ⟨q, hq, hover⟩ := hover
    obtain rfl := Option.some.inj (hq.symm.trans hp)
    cases hover
  · have hdropped : w.phase? n ≠ some .dropped := fun hp => hover ⟨_, hp, rfl⟩
    constructor
    · rintro ⟨hd, hbegin⟩
      obtain ⟨rfl, p, hp, hlive⟩ := ((dropped_apply_iff E w n s).1 hd).resolve_left hdropped
      obtain ⟨id, rfl⟩ := (hdrop hp hlive).1 hbegin
      exact .inr ⟨rfl, id, hp⟩
    · rintro (hd | ⟨rfl, id, hp⟩)
      · exact absurd hd.1 hdropped
      · exact ⟨(dropped_apply_iff E w n _).2 (.inr ⟨rfl, _, hp, rfl⟩), (hdrop hp rfl).2 ⟨id, rfl⟩⟩

/-- What comes in the course of some steps and one more comes before the last one, or is the last
one. -/
theorem exists_split_append_singleton {α : Type} {P : List α → Prop} {steps : List α} {s x : α} :
    (∃ front back, steps ++ [s] = front ++ x :: back ∧ P front) ↔
      (∃ front back, steps = front ++ x :: back ∧ P front) ∨ s = x ∧ P steps := by
  constructor
  · rintro ⟨front, back, heq, hP⟩
    rcases List.eq_nil_or_concat back with rfl | ⟨back, s', rfl⟩
    · obtain ⟨rfl, hs⟩ := List.append_inj' heq rfl
      exact .inr ⟨List.singleton_inj.1 hs, hP⟩
    · refine .inl ⟨front, back, ?_, hP⟩
      rw [List.concat_eq_append, ← List.cons_append, ← List.append_assoc] at heq
      exact (List.append_inj' heq rfl).1
  · rintro (⟨front, back, rfl, hP⟩ | ⟨rfl, hP⟩)
    · exact ⟨front, back ++ [s], by simp, hP⟩
    · exact ⟨steps, [], rfl, hP⟩

/-- A call that some steps desert is dropped by one of them while the engine works on its
discovery. -/
theorem Reachable.deserted_run_iff (h : Reachable E options engine w) (hn : ¬ w.Deserted n)
    (steps : List (Step ε)) : (w.run E steps).Deserted n ↔
      ∃ front back id, steps = front ++ .drop n :: back ∧
        (w.run E front).phase? n = some (.discovering id) := by
  induction steps using List.reverseRecOn with
  | nil =>
    have hnil : w.run E [] = w := rfl
    simp [hnil, hn]
  | append_singleton steps s ih =>
    rw [run_append, run_singleton, (h.run steps).deserted_apply_iff, ih]
    simp only [exists_and_left]
    exact exists_split_append_singleton.symm

/-! ### Registrars -/

/-- Whatever calls there are, however their steps interleave and however often the engine makes them
wait: a registrar is hooked once at most for a call, and once the call is over it has been unhooked
as often as it was hooked, unless the call is a discovery that was dropped while the engine worked
on it. -/
theorem registrar_is_unhooked_iff (E : Engine σ ε) (options : Options) (engine : σ)
    (steps : List (Step ε)) {t : Task} {kind : Kind} :
    let start := World.start options engine
    let w := start.run E steps
    w.task? n = some t → t.kind? = some kind → w.IsOver n →
    w.registrations n ≤ 1 ∧ w.unregistrations n ≤ w.registrations n ∧
    (w.unregistrations n = w.registrations n ↔
      ¬ ∃ front back id, steps = front ++ .drop n :: back ∧
        (start.run E front).phase? n = some (.discovering id)) := by
  intro start w ht hk hover
  have hstart : Reachable E options engine start := .refl
  have hnew : ¬ start.Deserted n := fun hd => by simp [start, World.start, phase?, Deserted] at hd
  obtain ⟨p, hp, hover⟩ := hover
  have hdeserted : w.Deserted n ↔ p = .dropped ∧ ∃ id, .begin .discovery id ∈ w.actionsOf n := by
    rw [Deserted, hp, Option.some_inj]
  rw [← hstart.deserted_run_iff hnew, hdeserted]
  exact ((hstart.run steps).lifecycle ht hk hp).registrar hover

/-- Accepts each order, and never gets done. -/
def stalled : Engine Unit Empty where
  capacity := 1
  create s _ _ _ := ⟨s, [], .ok ()⟩
  resume s _ _ := ⟨s, [], none⟩
  canResume _ _ _ := true
  wakeTime _ _ := none
  signal s _ _ := (s, .ok ())
  abandon s _ := s
  react s _ := s

/-- A discovery is dropped while the engine works on it. -/
def desertion : List (Step Empty) := [.issue (.discover .empty ⟨6⟩), .resume 0, .drop 0]

theorem dropped_discovery_stays_hooked :
    let w := (World.start {} ()).run stalled desertion
    w.IsOver 0 ∧ w.registrations 0 = 1 ∧ w.unregistrations 0 = 0 ∧
      ∃ front back id, desertion = front ++ .drop 0 :: back ∧
        ((World.start {} ()).run stalled front).phase? 0 = some (.discovering id) := by
  intro w
  have hany : (w.phase? 0).any Phase.isOver := by decide +kernel
  have hover : w.IsOver 0 := (Option.any_eq_true ..).1 hany
  have ht : w.task? 0 = some (.discover .empty ⟨6⟩) := task?_of_take 1 rfl
  have hr : w.registrations 0 = 1 := by decide +kernel
  have hu : w.unregistrations 0 = 0 := by decide +kernel
  obtain ⟨-, -, hiff⟩ := registrar_is_unhooked_iff stalled {} () desertion ht rfl hover
  refine ⟨hover, hr, hu, not_not.1 fun hnone => ?_⟩
  have heq : w.unregistrations 0 = w.registrations 0 := hiff.2 hnone
  rw [hr, hu] at heq
  cases heq

end World
end Proctor.Manager
