import Proctor.Engine.Catalogue
import Proctor.Proofs.Manager.RunInFlight

/-! # Signals that wait for a run

A signal that waits sees what is in the slot when it takes a step, and not what has been there in
the meantime. -/

namespace Proctor.Manager
open Proctor.Request

namespace World
variable {σ ε : Type} {E : Engine σ ε} {w w' : World σ} {n m id : Nat} {t : Task} {p p' : Phase}
  {as : List Action} {s : Signal}

/-- The call `n` is to signal a run, and waits until there is one. -/
def Waits (w : World σ) (n : Nat) : Prop := ∃ deadline, w.phase? n = some (.awaiting deadline)

def IsOver (w : World σ) (n : Nat) : Prop := ∃ p, w.phase? n = some p ∧ p.isOver

/-- The call `n` has signalled the handle, and nobody had unhooked a registrar from it before. -/
def SignalledInTime (w : World σ) (n : Nat) (s : Signal) (id : Nat) : Prop :=
  ∃ pre post, w.history = pre ++ ⟨n, .signal s id⟩ :: post ∧ ∀ k, ⟨k, .unregister id⟩ ∉ pre

/-! ### Waiting -/

/-- Who waits goes on waiting or is over. -/
theorem Rule.awaiting_or_isOver {deadline : Nat} (h : Rule E w n t (.awaiting deadline) p' as w') :
    p' = .awaiting deadline ∨ p'.isOver := by
  cases h with
  | await _ waits =>
    rcases waits with ⟨⟨⟩, -⟩ | h
    exact .inl h.symm
  | expire | signal | dropAwaiting => exact .inr rfl

theorem Moves.eq_of_isOver (h : Moves E n w w') (hover : w.IsOver n) : w' = w := by
  obtain ⟨p, hp, hover⟩ := hover
  induction h with
  | refl => rfl
  | tail _ hm ih =>
    subst ih
    obtain ⟨_, _, _, _, hm⟩ := hm
    obtain rfl := Option.some.inj (hm.phase.symm.trans hp)
    rw [hm.rule.not_isOver] at hover
    cases hover

theorem Change.waits_or_isOver (h : Change E w w') (hn : w.Waits n) : w'.Waits n ∨ w'.IsOver n := by
  obtain ⟨deadline, hp⟩ := hn
  rcases h.phase? hp with hp | ⟨t, p', as, hm⟩
  · exact .inl ⟨deadline, hp⟩
  · have hphase := hm.moved.phase?_self
    rcases hm.rule.awaiting_or_isOver with rfl | hover
    · exact .inl ⟨deadline, hphase⟩
    · exact .inr ⟨p', hphase, hover⟩

theorem Change.isOver (h : Change E w w') (hn : w.IsOver n) : w'.IsOver n := by
  obtain ⟨p, hp, hover⟩ := hn
  rcases h.phase? hp with hp | ⟨t, p', as, hm⟩
  · exact ⟨p, hp, hover⟩
  · rw [hm.rule.not_isOver] at hover
    cases hover

theorem Changes.waits_or_isOver (h : Changes E w w') (hn : w.Waits n) :
    w'.Waits n ∨ w'.IsOver n := by
  induction h with
  | refl => exact .inl hn
  | tail _ hc ih => exact ih.elim hc.waits_or_isOver fun h => .inr (hc.isOver h)

/-! ### Steps of a call that waits -/

theorem drop_of_waits (hn : w.Waits n) : w.drop E n = w.setPhase n .dropped := by
  obtain ⟨deadline, hp⟩ := hn
  obtain ⟨c, hc, hphase⟩ := Option.map_eq_some_iff.1 hp
  simp only [drop, hc, hphase]

theorem history_resume_of_waits (ht : w.task? n = some (.signal s)) (hn : w.Waits n)
    (hs : w.slot.current = some id) :
    (w.resume E n).history = w.history ++ [⟨n, .signal s id⟩] := by
  obtain ⟨deadline, hp⟩ := hn
  obtain ⟨c, hc, hphase⟩ := Option.map_eq_some_iff.1 hp
  have htask : c.task = .signal s := by simpa [task?, hc] using ht
  simp only [resume, hc, hphase, htask, trySignal, Slot.answer, hs]
  rfl

/-- Whoever waits signals only in a step of its own. -/
theorem eq_resume_of_signal {step : Step ε} (hn : w.Waits n ∨ w.IsOver n)
    (he : ⟨n, .signal s id⟩ ∈ (w.apply E step).history.drop w.history.length) :
    step = .resume n ∧ w.Waits n := by
  have hwaits : w.Waits n := by
    refine hn.resolve_right fun hover => ?_
    rw [(moves_of_new he).eq_of_isOver hover, List.drop_length] at he
    cases he
  refine ⟨?_, hwaits⟩
  cases step with
  | resume k => exact congrArg Step.resume ((moves_resume E w k).call_of_new he).symm
  | drop k =>
    obtain rfl := (moves_drop E w k).call_of_new he
    simp [apply, drop_of_waits hwaits, setPhase, modifyCall] at he
  | issue | advance | setOptions | outside => simp [apply, issue] at he

/-! ### Which signals get through -/

/-- A signal that waits when a run begins gets through to this run exactly if it takes a step while
the run is suspended in its execution, and has not been dropped before. A run that is never
suspended is therefore never signalled. -/
theorem waiting_signal_reaches_run_iff (E : Engine σ ε) (options : Options) (engine : σ)
    (steps rest : List (Step ε)) {n m : Nat} {s : Signal} :
    let w := (World.start options engine).run E steps
    let w' := w.apply E (.resume m)
    w.task? n = some (.signal s) → w.Waits n → ⟨m, .begin .run w.nextId⟩ ∈ w'.history →
    ((w'.run E rest).SignalledInTime n s w.nextId ↔
      ∃ front back, rest = front ++ .resume n :: back ∧
        (w'.run E front).phase? m = some (.executing w.nextId) ∧ (w'.run E front).Waits n) := by
  intro w w' ht hn hm
  have h : Reachable E options engine w := reachable_run E options engine steps
  have h' : Reachable E options engine w' := h.step (.resume m)
  have ht' : w'.task? n = some (.signal s) := (changes_apply E w _).task?_eq ht
  have hne : m ≠ n := by
    rintro rfl
    obtain ⟨_, ⟨⟩⟩ := h'.signals ht' hm
  have hn' : w'.Waits n := by
    obtain ⟨deadline, hp⟩ := hn
    exact ⟨deadline, ((moves_resume E w m).phase?_of_ne hne).trans hp⟩
  constructor
  · rintro ⟨pre, post, hh, -⟩
    have hmem : ⟨n, .signal s w.nextId⟩ ∈ (w'.run E rest).history := by simp [hh]
    -- the call has done nothing yet, so there is a step in which it signals
    rcases exists_step_of_mem hmem with hmem | ⟨front, step, back, rfl, hnew⟩
    · obtain ⟨deadline, hp⟩ := hn'
      have hsignals := h'.signalling ht' hp
      have hmem := mem_actionsOf.2 hmem
      generalize w'.actionsOf n = as at hmem hsignals
      cases hsignals
      cases hmem
    · have hu := h'.run front
      have hwaits := (changes_run E w' front).waits_or_isOver hn'
      obtain ⟨rfl, hwaits⟩ := eq_resume_of_signal hwaits hnew
      obtain ⟨k, hk, -⟩ := hu.inFlight_of_signal hnew
      obtain ⟨o, d, hcreated⟩ := hk.created
      have hbegun := (history_run E w' front).subset hm
      obtain rfl := hu.call_eq hbegun hcreated rfl rfl
      exact ⟨front, back, rfl, hk.executes, hwaits⟩
  · rintro ⟨front, back, rfl, hexec, hwaits⟩
    have hu := h'.run front
    let u := w'.run E front
    have htask : u.task? n = some (.signal s) := (changes_run E w' front).task?_eq ht'
    have hslot : u.slot.current = some w.nextId := (hu.guarded.slot _).2 ⟨m, hexec⟩
    have hstep := history_resume_of_waits (E := E) htask hwaits hslot
    obtain ⟨post, hpost⟩ := history_run E (u.apply E (.resume n)) back
    refine ⟨u.history, post, ?_, hu.not_unregistered hexec⟩
    rw [run_append]
    change ((u.apply E (.resume n)).run E back).history = _
    rw [← hpost]
    change (u.resume E n).history ++ post = _
    rw [hstep, List.append_assoc]
    rfl

/-- A cancel begins to wait, and a run is issued. -/
def cancelFirst : World Catalogue.State :=
  (World.start {} {}).run (Catalogue.engine { catalogue := Catalogue.sample })
    [.issue (.signal .cancel), .resume 0, .issue (.run .empty none ⟨6⟩)]

/-- A cancel that waits misses a run that is over in the step in which it begins. -/
theorem waiting_cancel_misses_immediate_run :
    let E := Catalogue.engine { catalogue := Catalogue.sample }
    let w' := cancelFirst.apply E (.resume 1)
    cancelFirst.Waits 0 ∧ ⟨1, .begin .run cancelFirst.nextId⟩ ∈ w'.history ∧
      ¬ (w'.run E [.resume 0]).SignalledInTime 0 .cancel cancelFirst.nextId := by
  have hwaits : cancelFirst.Waits 0 := ⟨10000, rfl⟩
  refine ⟨hwaits, by decide +kernel, fun hsignalled => ?_⟩
  obtain ⟨front, back, hrest, hexec, -⟩ := (waiting_signal_reaches_run_iff
    (Catalogue.engine { catalogue := Catalogue.sample }) {} {}
    [.issue (.signal .cancel), .resume 0, .issue (.run .empty none ⟨6⟩)] [.resume 0] rfl hwaits
    (by decide +kernel)).1 hsignalled
  obtain rfl : front = [] := by
    cases front with
    | nil => rfl
    | cons => simp at hrest
  have hover : ((cancelFirst.apply (Catalogue.engine { catalogue := Catalogue.sample })
      (.resume 1)).phase? 1).any Phase.isOver := by decide +kernel
  change (cancelFirst.apply _ (.resume 1)).phase? 1 = _ at hexec
  rw [hexec] at hover
  cases hover

end World
end Proctor.Manager
