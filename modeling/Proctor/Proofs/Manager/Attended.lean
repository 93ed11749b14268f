import Proctor.Proofs.Engine.Progress
import Proctor.Proofs.Manager.CatalogueRun
import Proctor.Proofs.Manager.Registrar

/-! # Runs in hand

A catalogue engine keeps its runs for good. Each one that is not over is executed by a call, so
whoever has the lock finds the engine free of other runs. -/

namespace Proctor.Manager
open Proctor.Request
open Proctor.Catalogue (Script State Stage Outside)

namespace World
variable {script : Script} {options : Options} {w w' : World State} {n id i : Nat} {t : Task}
  {p p' : Phase} {as : List Action} {g : Stage}

/-! ### The runs that the engine knows of -/

/-- A record was there before, or is that of the run which now begins. -/
theorem Effect.exists_of_mem (h : Effect script w p p' as w') {r : Catalogue.Run}
    (hr : r ∈ w'.engine.records) :
    (∃ r₀ ∈ w.engine.records, r₀.id = r.id) ∨ p' = .executing r.id := by
  cases h with
  | still records => exact .inl ⟨r, records ▸ hr, rfl⟩
  | enter _ _ records _ phase =>
    rw [records] at hr
    rcases List.mem_append.1 hr with hr | hr
    · exact .inl ⟨r, hr, rfl⟩
    · obtain rfl := List.mem_singleton.1 hr
      exact .inr phase
  | signal _ _ records =>
    rw [records] at hr
    obtain ⟨r₀, hr₀, rfl⟩ := List.mem_map.1 hr
    refine .inl ⟨r₀, hr₀, ?_⟩
    split
    · exact (r₀.id_mark _).symm
    · rfl

namespace Reachable
variable (h : Reachable (Catalogue.engine script) options {} w)
include h

/-- Each run that the engine knows of has been begun by a run call. -/
theorem exists_run_of_record {r : Catalogue.Run} (hr : r ∈ w.engine.records) :
    ∃ k, w.isRun k ∧ ⟨k, .register r.id⟩ ∈ w.history := by
  induction h generalizing r with
  | refl => cases hr
  | @tail w w' hreach hc ih =>
    have hold : ∀ {r₀ : Catalogue.Run}, r₀ ∈ w.engine.records → w.history <+: w'.history →
        ∃ k, w'.isRun k ∧ ⟨k, .register r₀.id⟩ ∈ w'.history := by
      intro r₀ hr₀ hh
      obtain ⟨k, hrun, hk⟩ := ih hr₀
      exact ⟨k, Changes.isRun (.single hc) hrun, hh.subset hk⟩
    cases hc with
    | @move k _ _ _ _ _ hm =>
      have hh : w.history <+: w'.history := ⟨_, hm.moved.history.symm⟩
      rcases (hm.effect hreach (marked hreach).distinct).exists_of_mem hr with
        ⟨r₀, hr₀, hid⟩ | rfl
      · exact hid ▸ hold hr₀ hh
      · have hreach' : Reachable (Catalogue.engine script) options {} w' :=
          hreach.tail (.move hm)
        have hp := hm.moved.phase?_self
        exact ⟨k, hreach'.isRun_of_inLine hp rfl, hreach'.registered hp⟩
    | issue | advance | setOptions => exact hold hr List.prefix_rfl
    | outside e =>
      have hrecords : w.engine.givePermit.records = w.engine.records :=
        (marked hreach).distinct.records_givePermit
      exact hold (hrecords ▸ hr) List.prefix_rfl

/-- The engine knows of no run with the number of a discovery. -/
theorem run?_of_discovering (hp : w.phase? n = some (.discovering id)) :
    w.engine.run? id = none := by
  by_contra hsome
  obtain ⟨r, hr⟩ := Option.ne_none_iff_exists'.1 hsome
  obtain ⟨hmem, rfl⟩ := State.run?_mem hr
  obtain ⟨k, hrun, hk⟩ := h.exists_run_of_record (State.record_mem hmem)
  have hbegin : ⟨n, .begin .discovery r.id⟩ ∈ w.history :=
    mem_actionsOf.1 ((h.begin_iff hp rfl r.id).2 rfl)
  obtain rfl := h.call_eq hbegin hk rfl rfl
  obtain ⟨t, ht, hkind⟩ := w.exists_task_of_isRun hrun
  have hl := h.lifecycle ht hkind hp
  generalize w.actionsOf n = as at hl
  cases hl

end Reachable

/-! ### What a move does to the stages of runs -/

theorem Rule.clock_eq {σ ε : Type} {E : Engine σ ε} {w w' : World σ}
    (h : Rule E w n t p p' as w') : w'.clock = w.clock := by
  cases h with
  | refuseRun | enterRun | refuseDiscovery | enterDiscovery => exact create_clock ..
  | misread | queue | proceedRun | proceedDiscovery | finishRun | finishDiscovery | await | expire
  | signal | dropFresh | dropAwaiting | dropQueued | dropDiscovery | dropRun => rfl

/-- A run that is not over after a move is executed by the call, or was not over before and is
executed by another call. A run that falls asleep is told to wake up soon. -/
theorem Move.isAt (hm : Move (Catalogue.engine script) w n t p p' as w')
    (hr : Reachable (Catalogue.engine script) options {} w) (h : w'.engine.IsAt i g)
    (hg : g ≠ .over) :
    (p' = .executing i ∨ p ≠ .executing i ∧ ∃ g₀, w.engine.IsAt i g₀ ∧ g₀ ≠ .over) ∧
      ∀ u, g = .sleeping u → w.engine.IsAt i g ∨ u ≤ w.clock + script.delay.getD 0 := by
  have hphase := hm.phase
  have hkeep : p ≠ .executing i → w.engine.IsAt i g →
      (p' = .executing i ∨ p ≠ .executing i ∧ ∃ g₀, w.engine.IsAt i g₀ ∧ g₀ ≠ .over) ∧
        ∀ u, g = .sleeping u → w.engine.IsAt i g ∨ u ≤ w.clock + script.delay.getD 0 :=
    fun hp hi => ⟨.inr ⟨hp, g, hi, hg⟩, fun _ _ => .inl hi⟩
  cases hm.rule with
  | misread | queue | dropFresh | dropAwaiting | dropQueued => exact hkeep (by simp) h
  | await _ waits | expire _ waits =>
    refine hkeep ?_ h
    rcases waits with ⟨rfl, -⟩ | rfl <;> simp
  | @refuseRun o _ _ answer =>
    have hs : (Catalogue.create script w.engine w.nextId o t.launcher?).state.IsAt i g :=
      create_engine (Catalogue.engine script) w n o t.launcher? ▸ h
    exact hkeep (by simp) (Catalogue.state_create_of_error answer ▸ hs)
  | @enterRun o =>
    have hs : (Catalogue.create script w.engine w.nextId o t.launcher?).state.IsAt i g :=
      create_engine (Catalogue.engine script) w n o t.launcher? ▸ h
    rcases Catalogue.isAt_create hs with hi | ⟨-, -, rfl, rfl⟩
    · exact hkeep (by simp) hi
    · exact ⟨.inl rfl, by simp⟩
  | @refuseDiscovery o _ _ _ answer =>
    have hs : (Catalogue.create script w.engine w.nextId o none).state.IsAt i g :=
      create_engine (Catalogue.engine script) (w.log n _) n o none ▸ h
    exact hkeep (by simp) (Catalogue.state_create_of_error answer ▸ hs)
  | @enterDiscovery o asks order =>
    have hs : (Catalogue.create script w.engine w.nextId o none).state.IsAt i g :=
      create_engine (Catalogue.engine script) (w.log n _) n o none ▸ h
    rcases Catalogue.isAt_create hs with hi | ⟨hkind, -⟩
    · exact hkeep (by simp) hi
    · rw [Task.kind_of_order? asks order] at hkind
      cases hkind
  | proceedRun =>
    rcases Catalogue.isAt_resume h with ⟨hi, hne⟩ | ⟨rfl, rfl | ⟨-, hstage⟩⟩
    · exact hkeep (by simpa using hne.symm) hi
    · exact absurd rfl hg
    · refine ⟨.inl rfl, ?_⟩
      rintro u rfl
      rcases hstage with hu | hi | hgate
      · exact .inr (Nat.le_of_eq (Stage.sleeping.inj hu))
      · exact .inl hi
      · cases hgate
  | proceedDiscovery | finishDiscovery =>
    have hs := Catalogue.state_resume_of_none script w.clock (hr.run?_of_discovering hphase)
    exact hkeep (by simp) (hs ▸ h)
  | finishRun progress =>
    rcases Catalogue.isAt_resume h with ⟨hi, hne⟩ | ⟨-, rfl | ⟨hnone, -⟩⟩
    · exact hkeep (by simpa using hne.symm) hi
    · exact absurd rfl hg
    · cases hnone.symm.trans progress
  | signal _ waits =>
    refine hkeep ?_ (Catalogue.isAt_signal h)
    rcases waits with ⟨rfl, -⟩ | rfl <;> simp
  | dropDiscovery =>
    obtain ⟨-, hi | ⟨rfl, hi⟩⟩ := Catalogue.isAt_abandon h hg
    · exact hkeep (by simp) hi
    · exact ⟨.inr ⟨by simp, _, hi, by simp⟩, by simp⟩
  | dropRun =>
    obtain ⟨hne, hi | ⟨rfl, hi⟩⟩ := Catalogue.isAt_abandon h hg
    · exact hkeep (by simpa using hne.symm) hi
    · exact ⟨.inr ⟨by simpa using hne.symm, _, hi, by simp⟩, by simp⟩

/-- Only an order adds a discovery, with its own number. -/
theorem Move.discoveries (hm : Move (Catalogue.engine script) w n t p p' as w')
    {d : Catalogue.Discovery} (h : d ∈ w'.engine.discoveries) :
    d ∈ w.engine.discoveries ∨ d.id = w.nextId ∧ w'.nextId = w.nextId + 1 := by
  cases hm.rule with
  | misread | queue | await | expire | dropFresh | dropAwaiting | dropQueued => exact .inl h
  | @refuseRun o | @enterRun o =>
    have hs : d ∈ (Catalogue.create script w.engine w.nextId o t.launcher?).state.discoveries :=
      create_engine (Catalogue.engine script) w n o t.launcher? ▸ h
    exact (Catalogue.discoveries_create hs).imp_right fun hid => ⟨hid, create_nextId ..⟩
  | @refuseDiscovery o | @enterDiscovery o =>
    have hs : d ∈ (Catalogue.create script w.engine w.nextId o none).state.discoveries :=
      create_engine (Catalogue.engine script) (w.log n _) n o none ▸ h
    exact (Catalogue.discoveries_create hs).imp_right fun hid => ⟨hid, create_nextId ..⟩
  | proceedRun | proceedDiscovery | finishRun | finishDiscovery =>
    exact .inl (Catalogue.discoveries_resume script w.engine w.clock _ ▸ h)
  | signal => exact .inl (Catalogue.discoveries_signal script w.engine _ _ ▸ h)
  | dropDiscovery | dropRun => exact .inl (Catalogue.discoveries_abandon w.engine _ ▸ h)

/-! ### Every run is in hand -/

/-- Runs that are not over are executed, and sleep no longer than the script says. The numbers of
discoveries have been given out. -/
structure Attended (script : Script) (w : World State) : Prop where
  executes : ∀ i g, w.engine.IsAt i g → g ≠ .over → ∃ n, w.phase? n = some (.executing i)
  due : ∀ i u, w.engine.IsAt i (.sleeping u) → u ≤ w.clock + script.delay.getD 0
  discoveries : ∀ d ∈ w.engine.discoveries, d.id < w.nextId

namespace Attended

theorem move (h : w.Attended script) (hr : Reachable (Catalogue.engine script) options {} w)
    (hm : Move (Catalogue.engine script) w n t p p' as w') : w'.Attended script where
  executes i g hi hg := by
    rcases (hm.isAt hr hi hg).1 with rfl | ⟨hother, g₀, hi₀, hg₀⟩
    · exact ⟨n, hm.moved.phase?_self⟩
    · obtain ⟨m, hp⟩ := h.executes i g₀ hi₀ hg₀
      have hne : n ≠ m := by
        rintro rfl
        exact hother (Option.some.inj (hm.phase.symm.trans hp))
      exact ⟨m, (hm.moved.phase?_of_ne hne).trans hp⟩
  due i u hi := by
    rw [hm.rule.clock_eq]
    exact ((hm.isAt hr hi (by simp)).2 u rfl).elim (h.due i u) id
  discoveries d hd := by
    rcases hm.discoveries hd with hd | ⟨hid, hnext⟩
    · exact Nat.lt_of_lt_of_le (h.discoveries d hd) hm.rule.nextId_le
    · omega

theorem issue (h : w.Attended script) (task : Task) : (w.issue task).Attended script where
  executes i g hi hg := by
    obtain ⟨m, hp⟩ := h.executes i g hi hg
    have hne : m ≠ w.calls.length := by
      rintro rfl
      simp [phase?] at hp
    exact ⟨m, by rw [phase?_issue, if_neg hne, hp]⟩
  due := h.due
  discoveries := h.discoveries

theorem advance (h : w.Attended script) (time : Nat) :
    Attended script { w with clock := w.clock + time } where
  executes := h.executes
  due i u hi := by
    have hdue := h.due i u hi
    dsimp only
    omega
  discoveries := h.discoveries

theorem permit (h : w.Attended script) :
    Attended script { w with engine := w.engine.givePermit } where
  executes i g hi hg := by
    rcases Catalogue.isAt_givePermit hi with hi | ⟨-, hi⟩
    · exact h.executes i g hi hg
    · exact h.executes i _ hi (by simp)
  due i u hi := by
    rcases Catalogue.isAt_givePermit hi with hi | ⟨hstage, -⟩
    · exact h.due i u hi
    · cases hstage
  discoveries d hd := h.discoveries d (Catalogue.discoveries_givePermit w.engine ▸ hd)

end Attended

namespace Reachable
variable (h : Reachable (Catalogue.engine script) options {} w)
include h

theorem attended : w.Attended script := by
  induction h with
  | refl => constructor <;> simp [start, State.IsAt]
  | tail hr hc ih =>
    cases hc with
    | move hm => exact ih.move hr hm
    | issue task => exact ih.issue task
    | advance time => exact ih.advance time
    | setOptions => exact ⟨ih.executes, ih.due, ih.discoveries⟩
    | outside e => exact ih.permit

/-- The run in flight is the only one that the engine has not brought to its end. -/
theorem alone (hp : w.phase? n = some (.executing id)) :
    w.engine.Alone script w.clock id where
  known := by
    obtain ⟨r, hr, rfl⟩ := h.reported.executing n id hp
    exact State.exists_run? hr
  only i g hi hg := by
    have hslot := (h.guarded.slot id).2 ⟨n, hp⟩
    have hslot' := (h.guarded.slot i).2 (h.attended.executes i g hi hg)
    exact Option.some.inj (hslot'.symm.trans hslot)
  due := h.attended.due

end Reachable

end World
end Proctor.Manager
