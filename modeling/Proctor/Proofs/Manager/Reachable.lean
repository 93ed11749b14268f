import Proctor.Proofs.Manager.Move

/-! # Reachable worlds

A move changes one call, and adds only actions of this call to the history. What a call has done
therefore follows from its own moves alone. -/

namespace Proctor.Manager
open Proctor.Request

namespace World
variable {σ ε : Type}

/-- What a call has done, in order. -/
def actionsOf (w : World σ) (n : Nat) : List Action :=
  (w.history.filter (·.call = n)).map Entry.action

theorem mem_actionsOf {w : World σ} {n : Nat} {a : Action} :
    a ∈ w.actionsOf n ↔ ⟨n, a⟩ ∈ w.history := by
  simp only [actionsOf, List.mem_map, List.mem_filter, decide_eq_true_eq]
  constructor
  · rintro ⟨⟨m, b⟩, ⟨he, rfl⟩, rfl⟩
    exact he
  · intro he
    exact ⟨⟨n, a⟩, ⟨he, rfl⟩, rfl⟩

/-! ### What a move changes -/

/-- The call `n` has come to the phase `p`, its actions being `as`. Other calls stay as they are. -/
structure Moved (n : Nat) (p : Phase) (as : List Action) (w w' : World σ) : Prop where
  calls : ∃ f c, w'.calls = w.calls.modify n f ∧ w.calls[n]? = some c ∧ (f c).task = c.task ∧
    (f c).phase = p
  history : w'.history = w.history ++ as.map (Entry.mk n)

namespace Moved
variable {w w₁ w₂ : World σ} {n m : Nat} {p : Phase} {as : List Action}

theorem refl (hp : w.phase? n = some p) : Moved n p [] w w := by
  obtain ⟨c, hc, rfl⟩ := Option.map_eq_some_iff.1 hp
  exact ⟨⟨id, c, by simp, hc, rfl, rfl⟩, by simp⟩

theorem same (h : Moved n p as w w₁) (hc : w₂.calls = w₁.calls) (hh : w₂.history = w₁.history) :
    Moved n p as w w₂ := ⟨hc ▸ h.calls, hh ▸ h.history⟩

theorem log (h : Moved n p as w w₁) (a : Action) : Moved n p (as ++ [a]) w (w₁.log n a) := by
  refine ⟨h.calls, ?_⟩
  simp [World.log, h.history]

theorem modifyCall (h : Moved n p as w w₁) {g : Call → Call} {q : Phase}
    (ht : ∀ c, (g c).task = c.task) (hp : ∀ c, c.phase = p → (g c).phase = q) :
    Moved n q as w (w₁.modifyCall n g) := by
  obtain ⟨f, c, hf, hc, hft, hfp⟩ := h.calls
  refine ⟨⟨g ∘ f, c, ?_, hc, (ht _).trans hft, hp _ hfp⟩, h.history⟩
  simp only [World.modifyCall, hf, List.modify_modify_eq]

theorem setPhase (h : Moved n p as w w₁) (q : Phase) : Moved n q as w (w₁.setPhase n q) :=
  h.modifyCall (fun _ => rfl) fun _ _ => rfl

theorem create (h : Moved n p as w w₁) (E : Engine σ ε) (o : Order) (launcher : Option Launcher) :
    Moved n p (as ++ creation w₁.nextId o launcher
      (E.create w₁.engine w₁.nextId o launcher).launches) w (w₁.create E n o launcher).1 := by
  refine ⟨(w₁.create_calls E n o launcher) ▸ h.calls, ?_⟩
  rw [create_eq]
  simp [h.history]

theorem withEngine (h : Moved n p as w w₁) (engine : σ) : Moved n p as w (w₁.withEngine engine) :=
  h.same rfl rfl

theorem withLock (h : Moved n p as w w₁) (lock : RunLock) : Moved n p as w (w₁.withLock lock) :=
  h.same rfl rfl

theorem proceed (h : Moved n p as w w₁) (E : Engine σ ε) (id : Nat) :
    Moved n p as w (w₁.proceed E n id) := by
  let w₂ := w₁.withEngine (E.resume w₁.engine w₁.clock id).state
  have h₂ : Moved n p as w w₂ := h.withEngine _
  exact h₂.modifyCall (fun _ => rfl) fun _ hp => hp

theorem unhook (h : Moved n p as w w₁) (id : Nat) :
    Moved n p (as ++ [.unregister id]) w (w₁.unhook n id) := by
  have hm : Moved n p as w (w₁.modifyCall n Call.takeIn) :=
    h.modifyCall (fun _ => rfl) fun _ hp => hp
  exact hm.log _

theorem enterRun (h : Moved n p as w w₁) (id : Nat) :
    Moved n (.executing id) (as ++ [.register id, .begin .run id]) w (w₁.enterRun n id) := by
  have hs : Moved n p as w { w₁ with slot := w₁.slot.publish id } := h.same rfl rfl
  have hr := ((hs.log (.register id)).setPhase (.executing id)).log (.begin .run id)
  rwa [List.append_assoc] at hr

theorem enterDiscovery (h : Moved n p as w w₁) (id : Nat) :
    Moved n (.discovering id) (as ++ [.register id, .begin .discovery id]) w
      (w₁.enterDiscovery n id) := by
  have hd := ((h.log (.register id)).setPhase (.discovering id)).log (.begin .discovery id)
  rwa [List.append_assoc] at hd

theorem endRun (h : Moved n p as w w₁) (id : Nat) (q : Phase) :
    Moved n q (as ++ [.unregister id] ++ [.telemetry .run .stop]) w (w₁.endRun n id q) := by
  have hl : Moved n p (as ++ [.unregister id]) w (w₁.leaveRun n id) := (h.unhook id).same rfl rfl
  exact (hl.log _).setPhase q

theorem getElem?_of_ne (h : Moved n p as w w₁) (hm : n ≠ m) : w₁.calls[m]? = w.calls[m]? := by
  obtain ⟨f, c, hf, -⟩ := h.calls
  simp [hf, hm]

theorem task? (h : Moved n p as w w₁) : w₁.task? = w.task? := by
  funext m
  by_cases hm : n = m
  · obtain ⟨f, c, hf, hc, ht, -⟩ := h.calls
    subst hm
    simp [World.task?, hf, hc, ht]
  · simp only [World.task?, h.getElem?_of_ne hm]

theorem phase? (h : Moved n p as w w₁) (m : Nat) :
    w₁.phase? m = if n = m then some p else w.phase? m := by
  split
  · next hm =>
    obtain ⟨f, c, hf, hc, -, hp⟩ := h.calls
    subst hm
    simp [World.phase?, hf, hc, hp]
  · next hm => simp only [World.phase?, h.getElem?_of_ne hm]

theorem phase?_self (h : Moved n p as w w₁) : w₁.phase? n = some p := by simp [h.phase?]

theorem phase?_of_ne (h : Moved n p as w w₁) (hm : n ≠ m) : w₁.phase? m = w.phase? m := by
  simp [h.phase?, hm]

theorem mem_history (h : Moved n p as w w₁) {a : Action} :
    ⟨m, a⟩ ∈ w₁.history ↔ ⟨m, a⟩ ∈ w.history ∨ m = n ∧ a ∈ as := by
  simp only [h.history, List.mem_append, List.mem_map, Entry.mk.injEq]
  refine or_congr_right ⟨?_, ?_⟩
  · rintro ⟨_, ha, rfl, rfl⟩
    exact ⟨rfl, ha⟩
  · rintro ⟨rfl, ha⟩
    exact ⟨a, ha, rfl, rfl⟩

theorem actionsOf_self (h : Moved n p as w w₁) : w₁.actionsOf n = w.actionsOf n ++ as := by
  simp [actionsOf, h.history, List.filter_map, Function.comp_def]

theorem actionsOf_of_ne (h : Moved n p as w w₁) (hm : n ≠ m) :
    w₁.actionsOf m = w.actionsOf m := by
  simp [actionsOf, h.history, List.filter_map, Function.comp_def, hm]

end Moved

theorem Move.moved {E : Engine σ ε} {w w' : World σ} {n : Nat} {t : Task} {p p' : Phase}
    {as : List Action} (h : Move E w n t p p' as w') : Moved n p' as w w' := by
  have hr := Moved.refl h.phase
  cases h.rule with
  | misread => exact ((hr.log _).log _).setPhase _
  | queue => exact ((hr.log _).withLock _).setPhase _
  | @refuseRun o => exact (((hr.create E o t.launcher?).withLock _).log _).setPhase _
  | @enterRun o => exact (hr.create E o t.launcher?).enterRun w.nextId
  | @refuseDiscovery o => exact (((hr.log _).create E o none).log _).setPhase _
  | @enterDiscovery o => exact ((hr.log _).create E o none).enterDiscovery w.nextId
  | proceedRun | proceedDiscovery => exact hr.proceed E _
  | finishRun => exact ((hr.proceed E _).log _).endRun _ _
  | finishDiscovery => exact ((((hr.proceed E _).log _).unhook _).log _).setPhase _
  | await | expire | dropFresh | dropAwaiting => exact hr.setPhase _
  | signal => exact ((hr.withEngine _).log _).setPhase _
  | dropQueued => exact ((hr.withLock _).log _).setPhase _
  | dropDiscovery => exact ((hr.withEngine _).log _).setPhase _
  | dropRun => exact (hr.withEngine _).endRun _ _

/-- The actions that several moves of a call add, each of which is an action of one of the moves. -/
theorem Moves.exists_actions {E : Engine σ ε} {w w' : World σ} {n : Nat} (h : Moves E n w w') :
    ∃ as : List Action, w'.history = w.history ++ as.map (Entry.mk n) ∧
      ∀ a ∈ as, ∃ u u' t p p' bs, Moves E n w u ∧ Move E u n t p p' bs u' ∧ a ∈ bs := by
  induction h with
  | refl => exact ⟨[], by simp⟩
  | @tail u u' hu hm ih =>
    obtain ⟨t, p, p', bs, hm⟩ := hm
    obtain ⟨as, hh, ih⟩ := ih
    refine ⟨as ++ bs, by simp [hm.moved.history, hh], fun a ha => ?_⟩
    rcases List.mem_append.1 ha with ha | ha
    · exact ih a ha
    · exact ⟨u, u', t, p, p', bs, hu, hm, ha⟩

theorem Moves.call_of_new {E : Engine σ ε} {w w' : World σ} {n : Nat} {e : Entry}
    (h : Moves E n w w') (he : e ∈ w'.history.drop w.history.length) : e.call = n := by
  obtain ⟨as, hh, -⟩ := h.exists_actions
  rw [hh, List.drop_left] at he
  obtain ⟨a, -, rfl⟩ := List.mem_map.1 he
  rfl

theorem Moves.phase?_of_ne {E : Engine σ ε} {w w' : World σ} {n m : Nat} (h : Moves E n w w')
    (hm : n ≠ m) : w'.phase? m = w.phase? m := by
  induction h with
  | refl => rfl
  | tail _ hmove ih =>
    obtain ⟨_, _, _, _, hmove⟩ := hmove
    rw [hmove.moved.phase?_of_ne hm, ih]

/-! ### Reachable worlds -/

/-- All that can change a world: the moves of calls, a new call, and what happens outside. -/
inductive Change (E : Engine σ ε) (w : World σ) : World σ → Prop
  | move {n : Nat} {t : Task} {p p' : Phase} {as : List Action} {w' : World σ}
      (move : Move E w n t p p' as w') : Change E w w'
  | issue (task : Task) : Change E w (w.issue task)
  | advance (time : Nat) : Change E w { w with clock := w.clock + time }
  | setOptions (options : Options) : Change E w { w with options }
  | outside (e : ε) : Change E w { w with engine := E.react w.engine e }

/-- A call stays as it is unless it moves itself. -/
theorem Change.stays_or_moves {E : Engine σ ε} {w w' : World σ} {n : Nat} {p : Phase}
    (h : Change E w w') (hp : w.phase? n = some p) :
    w'.calls[n]? = w.calls[n]? ∧ w'.actionsOf n = w.actionsOf n ∨
      ∃ t p' as, Move E w n t p p' as w' := by
  cases h with
  | @move m t q q' as _ hm =>
    by_cases hne : m = n
    · subst hne
      obtain rfl := Option.some.inj (hm.phase.symm.trans hp)
      exact .inr ⟨t, q', as, hm⟩
    · exact .inl ⟨hm.moved.getElem?_of_ne hne, hm.moved.actionsOf_of_ne hne⟩
  | issue t =>
    obtain ⟨c, hc, -⟩ := Option.map_eq_some_iff.1 hp
    have hn : n < w.calls.length := (List.getElem?_eq_some_iff.1 hc).1
    exact .inl ⟨by simp [World.issue, List.getElem?_append_left hn], rfl⟩
  | advance | setOptions | outside => exact .inl ⟨rfl, rfl⟩

theorem Change.phase? {E : Engine σ ε} {w w' : World σ} {n : Nat} {p : Phase} (h : Change E w w')
    (hp : w.phase? n = some p) :
    w'.phase? n = some p ∨ ∃ t p' as, Move E w n t p p' as w' :=
  (h.stays_or_moves hp).imp_left fun hc => by rw [World.phase?, hc.1, ← hp, World.phase?]

abbrev Changes (E : Engine σ ε) : World σ → World σ → Prop := Relation.ReflTransGen (Change E)

theorem Moves.changes {E : Engine σ ε} {w w' : World σ} {n : Nat} (h : Moves E n w w') :
    Changes E w w' := by
  induction h with
  | refl => exact .refl
  | tail _ hm ih =>
    obtain ⟨_, _, _, _, hm⟩ := hm
    exact ih.tail (.move hm)

theorem Changes.task?_eq {E : Engine σ ε} {w w' : World σ} {n : Nat} {t : Task}
    (h : Changes E w w') (ht : w.task? n = some t) : w'.task? n = some t := by
  induction h with
  | refl => exact ht
  | @tail u _ _ hc ih =>
    cases hc with
    | move hm => rwa [hm.moved.task?]
    | issue t' => rwa [u.task?_issue n t' (by simp [ih])]
    | advance | setOptions | outside => exact ih

theorem changes_apply (E : Engine σ ε) (w : World σ) (s : Step ε) :
    Changes E w (w.apply E s) := by
  cases s with
  | issue task => exact .single (.issue task)
  | resume n => exact (moves_resume E w n).changes
  | drop n => exact (moves_drop E w n).changes
  | advance time => exact .single (.advance time)
  | setOptions o => exact .single (.setOptions o)
  | outside e => exact .single (.outside e)

/-- What a step adds to the history, some moves of one call add. -/
theorem moves_of_new {E : Engine σ ε} {w : World σ} {s : Step ε} {e : Entry}
    (he : e ∈ (w.apply E s).history.drop w.history.length) : Moves E e.call w (w.apply E s) := by
  cases s with
  | resume n =>
    rw [(moves_resume E w n).call_of_new he]
    exact moves_resume E w n
  | drop n =>
    rw [(moves_drop E w n).call_of_new he]
    exact moves_drop E w n
  | issue | advance | setOptions | outside => simp [apply, issue] at he

theorem changes_run (E : Engine σ ε) (w : World σ) (steps : List (Step ε)) :
    Changes E w (w.run E steps) := by
  induction steps generalizing w with
  | nil => exact .refl
  | cons s steps ih => exact (changes_apply E w s).trans (ih _)

/-- A call that is there after some of the steps is there after all of them. -/
theorem task?_of_take {E : Engine σ ε} {w : World σ} {steps : List (Step ε)} {n : Nat} {t : Task}
    (k : Nat) (ht : (w.run E (steps.take k)).task? n = some t) : (w.run E steps).task? n = some t := by
  rw [← List.take_append_drop k steps, run_append]
  exact (changes_run E _ _).task?_eq ht

theorem history_apply (E : Engine σ ε) (w : World σ) (s : Step ε) :
    w.history <+: (w.apply E s).history := by
  have hmoves : ∀ {n w'}, Moves E n w w' → w.history <+: w'.history := by
    intro n w' h
    obtain ⟨as, hh, -⟩ := Moves.exists_actions h
    exact ⟨_, hh.symm⟩
  cases s with
  | resume n => exact hmoves (moves_resume E w n)
  | drop n => exact hmoves (moves_drop E w n)
  | issue | advance | setOptions | outside => exact List.prefix_rfl

theorem history_run (E : Engine σ ε) (w : World σ) (steps : List (Step ε)) :
    w.history <+: (w.run E steps).history := by
  induction steps generalizing w with
  | nil => exact List.prefix_rfl
  | cons s steps ih => exact (history_apply E w s).trans (ih _)

/-- What has happened meanwhile has happened at one of the steps. -/
theorem exists_step_of_mem {E : Engine σ ε} {w : World σ} {steps : List (Step ε)} {e : Entry}
    (he : e ∈ (w.run E steps).history) : e ∈ w.history ∨ ∃ front s back,
      steps = front ++ s :: back ∧
      e ∈ ((w.run E front).apply E s).history.drop (w.run E front).history.length := by
  induction steps generalizing w with
  | nil => exact .inl he
  | cons s steps ih =>
    rcases ih he with he | ⟨front, s', back, rfl, hnew⟩
    · obtain ⟨new, hnew⟩ := history_apply E w s
      rw [← hnew] at he
      rcases List.mem_append.1 he with he | he
      · exact .inl he
      · refine .inr ⟨[], s, steps, rfl, ?_⟩
        change e ∈ (w.apply E s).history.drop w.history.length
        rwa [← hnew, List.drop_left]
    · exact .inr ⟨s :: front, s', back, rfl, hnew⟩

def Reachable (E : Engine σ ε) (options : Options) (engine : σ) : World σ → Prop :=
  Changes E (.start options engine)

theorem reachable_run (E : Engine σ ε) (options : Options) (engine : σ) (steps : List (Step ε)) :
    Reachable E options engine ((World.start options engine).run E steps) :=
  changes_run E _ steps

namespace Reachable
variable {E : Engine σ ε} {options : Options} {engine : σ} {w w' : World σ}

theorem step (h : Reachable E options engine w) (s : Step ε) :
    Reachable E options engine (w.apply E s) := Relation.ReflTransGen.trans h (changes_apply E w s)

theorem run (h : Reachable E options engine w) (steps : List (Step ε)) :
    Reachable E options engine (w.run E steps) :=
  Relation.ReflTransGen.trans h (changes_run E w steps)

/-- Who is not there has done nothing. -/
theorem actionsOf_eq_nil (h : Reachable E options engine w) {n : Nat} (hn : w.task? n = none) :
    w.actionsOf n = [] := by
  induction h with
  | refl => rfl
  | @tail w w' _ hc ih =>
    cases hc with
    | @move m _ _ _ _ _ hm =>
      rw [hm.moved.task?] at hn
      have hne : m ≠ n := by
        rintro rfl
        cases hn.symm.trans hm.task
      rw [hm.moved.actionsOf_of_ne hne]
      exact ih hn
    | issue t =>
      cases hs : w.task? n with
      | none => exact ih hs
      | some s =>
        rw [w.task?_issue n t (by simp [hs]), hs] at hn
        cases hn
    | advance | setOptions | outside => exact ih hn

/-- What holds of a new call, and is kept by each move of a call, holds of every call. -/
theorem course {P : Task → Phase → List Action → Prop} (hfresh : ∀ t, P t .fresh [])
    (hmove : ∀ {w w' : World σ} {n t p p' as as'}, Move E w n t p p' as' w' → P t p as →
      P t p' (as ++ as'))
    (h : Reachable E options engine w) {n : Nat} {t : Task} {p : Phase} (ht : w.task? n = some t)
    (hp : w.phase? n = some p) : P t p (w.actionsOf n) := by
  induction h generalizing t p with
  | refl => simp [World.task?, start] at ht
  | @tail w w' hr hc ih =>
    cases hc with
    | @move m _ _ _ _ _ hm =>
      rw [hm.moved.task?] at ht
      by_cases hne : m = n
      · subst hne
        obtain rfl := Option.some.inj (hm.task.symm.trans ht)
        obtain rfl := Option.some.inj (hm.moved.phase?_self.symm.trans hp)
        rw [hm.moved.actionsOf_self]
        exact hmove hm (ih hm.task hm.phase)
      · rw [hm.moved.phase?_of_ne hne] at hp
        rw [hm.moved.actionsOf_of_ne hne]
        exact ih ht hp
    | issue t' =>
      rw [phase?_issue] at hp
      split at hp
      · next hn =>
        -- the new call takes a number that no call has had
        obtain rfl := Option.some.inj hp
        have hnone : w.task? n = none := by simp [World.task?, hn]
        have hnil : (w.issue t').actionsOf n = [] := actionsOf_eq_nil hr hnone
        rw [hnil]
        exact hfresh t
      · rw [w.task?_issue n t' (w.isSome_task?_of_phase? n hp)] at ht
        exact ih ht hp
    | advance | setOptions | outside => exact ih ht hp

end Reachable
end World
end Proctor.Manager
