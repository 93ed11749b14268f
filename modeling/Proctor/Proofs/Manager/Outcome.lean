import Proctor.Proofs.Manager.RunStep
import Proctor.Proofs.Manager.Snapshot

/-! # What a run comes to

A run goes through three stages: its settings are merged, the engine accepts its order, and the
engine carries it out. The first stage that fails decides what the caller is told. -/

namespace Proctor.Manager
open Proctor.Request

/-- What the stages of a run have come to so far. -/
structure Stages where
  settings : Option (Except Settings.SettingsError Settings.Merged)
  creation : Option (Except EngineError Unit)
  execution : Option (Except EngineError Unit)

/-- The stages of some steps and of one more. -/
def Stages.or (s s' : Stages) : Stages :=
  ⟨s.settings.or s'.settings, s.creation.or s'.creation, s.execution.or s'.execution⟩

/-- Where a run stands once its stages have come to this. -/
inductive Stages.Leads : Stages → Option Phase → Prop
  | unissued : Leads ⟨none, none, none⟩ none
  | fresh : Leads ⟨none, none, none⟩ (some .fresh)
  | misread (e : Settings.SettingsError) :
      Leads ⟨some (.error e), none, none⟩ (some (.done (.ok false)))
  | queued (m : Settings.Merged) (o : Order) :
      Leads ⟨some (.ok m), none, none⟩ (some (.queued o))
  | refused (m : Settings.Merged) (e : EngineError) :
      Leads ⟨some (.ok m), some (.error e), none⟩ (some (.done (settle (.error e))))
  | executing (m : Settings.Merged) (id : Nat) :
      Leads ⟨some (.ok m), some (.ok ()), none⟩ (some (.executing id))
  | finished (m : Settings.Merged) (r : Except EngineError Unit) :
      Leads ⟨some (.ok m), some (.ok ()), some r⟩ (some (.done (settle r)))
  | dropped {s : Stages} {p : Phase} (h : Leads s (some p)) (live : p.isOver = false) :
      Leads s (some .dropped)

/-- The kinds of failures that the caller is told by a plain `false`. -/
def plainKinds : List ErrorKind := [.platform, .settings, .invalidOperation]

theorem isRecoverable_iff (k : ErrorKind) : k.isRecoverable = true ↔ k ∈ plainKinds := by
  cases k <;> decide

theorem settle_of_mem {e : EngineError} (h : e.kind ∈ plainKinds) :
    settle (.error e) = .ok false := if_pos ((isRecoverable_iff _).2 h)

theorem settle_of_notMem {e : EngineError} (h : e.kind ∉ plainKinds) :
    settle (.error e) = .error e := if_neg fun hr => h ((isRecoverable_iff _).1 hr)

theorem ne_of_notMem {e e' : EngineError} (h : e.kind ∈ plainKinds) (h' : e'.kind ∉ plainKinds) :
    e ≠ e' := by
  rintro rfl
  exact h' h

namespace Stages.Leads
variable {s : Stages} {p : Option Phase} {result : Except EngineError Bool}

/-- A stage comes only once the one before it has succeeded. -/
theorem order (h : s.Leads p) :
    (∀ r, s.creation = some r → ∃ m, s.settings = some (.ok m)) ∧
      ∀ r, s.execution = some r → s.creation = some (.ok ()) := by
  induction h with
  | unissued | fresh | misread | queued | refused | executing | finished => simp
  | dropped _ _ ih => exact ih

/-- A stage that fails, and the last one in any case, is the end of the run. -/
theorem exists_done (h : s.Leads p) (hend : (∃ e, s.settings = some (.error e)) ∨
    (∃ e, s.creation = some (.error e)) ∨ ∃ r, s.execution = some r) :
    ∃ result, p = some (.done result) := by
  cases h with
  | unissued | fresh | queued | executing => simp at hend
  | misread | refused | finished => exact ⟨_, rfl⟩
  | dropped h live =>
    cases h with
    | fresh | queued | executing => simp at hend
    | misread | refused | finished | dropped => cases live

/-- The caller is told success if all stages have succeeded, and else of the one that failed. -/
theorem done (h : s.Leads (some (.done result))) :
    (result = .ok true ↔ (∃ m, s.settings = some (.ok m)) ∧ s.creation = some (.ok ()) ∧
      s.execution = some (.ok ())) ∧
    (result = .ok false ↔ (∃ e, s.settings = some (.error e)) ∨
      ∃ e, e.kind ∈ plainKinds ∧ (s.creation = some (.error e) ∨ s.execution = some (.error e))) ∧
    ∀ e, result = .error e ↔
      e.kind ∉ plainKinds ∧ (s.creation = some (.error e) ∨ s.execution = some (.error e)) := by
  cases h with
  | misread e => simp
  | refused m e =>
    by_cases hk : e.kind ∈ plainKinds
    · simp +contextual [settle_of_mem hk, hk, ne_of_notMem hk]
    · simp +contextual [settle_of_notMem hk, hk]
  | finished m r =>
    cases r with
    | ok => simp [settle]
    | error e =>
      by_cases hk : e.kind ∈ plainKinds
      · simp +contextual [settle_of_mem hk, hk, ne_of_notMem hk]
      · simp +contextual [settle_of_notMem hk, hk]

end Stages.Leads

namespace World
variable {σ ε : Type} (E : Engine σ ε) (w : World σ) (n : Nat) (payload : RunPayload)
  (launcher : Option Launcher) (protocol : ProtocolConfig)

/-! ### The stages of one step -/

/-- The order of a run whose turn it is: the lock is free when it comes, or has been handed to it in
the queue. -/
def turn? : Option Order :=
  match w.phase? n with
  | some .fresh =>
    if w.lock.holder = none then (runOrder w.options protocol payload).toOption else none
  | some (.queued o) => if w.lock.holder = some n then some o else none
  | _ => none

/-- What comes of the settings if the run now takes a step. -/
def merging? : Option (Except Settings.SettingsError Settings.Merged) :=
  match w.phase? n with
  | some .fresh =>
    some (Settings.merge payload.runSettings w.options.designMode w.options.batchSize)
  | _ => none

/-- What the engine answers to the order of the run if the run now takes a step. -/
def creating? : Option (Except EngineError Unit) :=
  (w.turn? n payload protocol).map fun o => (E.create w.engine w.nextId o launcher).result

/-- What the engine comes to at once in carrying out an order that it accepts. -/
def carriedOut? (o : Order) : Option (Except EngineError Unit) :=
  let creation := E.create w.engine w.nextId o launcher
  match creation.result with
  | .ok () => (E.resume creation.state w.clock w.nextId).result
  | .error _ => none

/-- What the engine comes to in carrying the run out if the run now takes a step. -/
def executing? : Option (Except EngineError Unit) :=
  match w.phase? n with
  | some (.executing id) => (E.resume w.engine w.clock id).result
  | _ => (w.turn? n payload protocol).bind (w.carriedOut? E launcher)

/-- What comes to pass if the run now takes a step. -/
def moment : Stages :=
  ⟨w.merging? n payload, w.creating? E n payload launcher protocol,
    w.executing? E n payload launcher protocol⟩

/-- What comes to pass when the call takes a step, in the course of some steps. -/
def Happens {α : Type} (steps : List (Step ε)) (stage : World σ → Option α) (a : α) : Prop :=
  ∃ front back, steps = front ++ .resume n :: back ∧ stage (w.run E front) = some a

variable {E w n payload launcher protocol} {w' : World σ} {o : Order} {id : Nat}

theorem happens_nil {α : Type} {stage : World σ → Option α} {a : α} :
    ¬ w.Happens E n [] stage a := by
  rintro ⟨front, back, h, -⟩
  simp at h

theorem happens_append_singleton {α : Type} {stage : World σ → Option α} {a : α}
    {steps : List (Step ε)} {s : Step ε} : w.Happens E n (steps ++ [s]) stage a ↔
      w.Happens E n steps stage a ∨ s = .resume n ∧ stage (w.run E steps) = some a :=
  exists_split_append_singleton

/-! ### The phase after a step -/

/-- The phase that the engine leaves a run in is the one that the stages lead to. -/
theorem leads_worked (m : Settings.Merged) (engine : σ) (clock id : Nat) :
    Stages.Leads ⟨some (.ok m), some (.ok ()), (E.resume engine clock id).result⟩
      (some (worked E engine clock id)) := by
  unfold worked
  cases (E.resume engine clock id).result with
  | none => exact .executing m id
  | some r => exact .finished m r

theorem leads_begun (m : Settings.Merged) (w : World σ) (o : Order) (launcher : Option Launcher) :
    Stages.Leads ⟨some (.ok m), some (E.create w.engine w.nextId o launcher).result,
      w.carriedOut? E launcher o⟩ (some (w.begun E o launcher)) := by
  cases hr : (E.create w.engine w.nextId o launcher).result with
  | error e =>
    rw [begun_of_error hr]
    simp only [carriedOut?, hr]
    exact .refused m e
  | ok =>
    rw [begun_of_ok hr]
    simp only [carriedOut?, hr]
    exact leads_worked m ..

theorem moment_of_over {p : Phase} (hp : w.phase? n = some p) (hover : p.isOver) :
    w.moment E n payload launcher protocol = ⟨none, none, none⟩ := by
  cases p with
  | done | dropped => simp [moment, merging?, creating?, executing?, turn?, hp]
  | fresh | queued | discovering | executing | awaiting => cases hover

theorem moment_of_executing (hp : w.phase? n = some (.executing id)) :
    w.moment E n payload launcher protocol =
      ⟨none, none, (E.resume w.engine w.clock id).result⟩ := by
  simp [moment, merging?, creating?, executing?, turn?, hp]

theorem moment_of_queued (hp : w.phase? n = some (.queued o)) :
    w.moment E n payload launcher protocol =
      if w.lock.holder = some n then
        ⟨none, some (E.create w.engine w.nextId o launcher).result, w.carriedOut? E launcher o⟩
      else ⟨none, none, none⟩ := by
  split
  · next hl => simp [moment, merging?, creating?, executing?, turn?, hp, hl]
  · next hl => simp [moment, merging?, creating?, executing?, turn?, hp, hl]

theorem moment_of_fresh_error {e : Settings.SettingsError} (hp : w.phase? n = some .fresh)
    (hm : Settings.merge payload.runSettings w.options.designMode w.options.batchSize = .error e) :
    w.moment E n payload launcher protocol = ⟨some (.error e), none, none⟩ := by
  have ho : runOrder w.options protocol payload = .error e := runOrder_of_merge_error hm
  simp [moment, merging?, creating?, executing?, turn?, hp, hm, ho, Except.toOption]

theorem moment_of_fresh_ok {m : Settings.Merged} (hp : w.phase? n = some .fresh)
    (hm : Settings.merge payload.runSettings w.options.designMode w.options.batchSize = .ok m)
    (ho : runOrder w.options protocol payload = .ok o) :
    w.moment E n payload launcher protocol =
      if w.lock.holder = none then
        ⟨some (.ok m), some (E.create w.engine w.nextId o launcher).result,
          w.carriedOut? E launcher o⟩
      else ⟨some (.ok m), none, none⟩ := by
  split
  · next hl =>
    simp [moment, merging?, creating?, executing?, turn?, hp, hl, hm, ho, Except.toOption]
  · next hl => simp [moment, merging?, creating?, executing?, turn?, hp, hl, hm]

theorem or_eq_some_iff {α : Type} {a b : Option α} (h : a = none ∨ b = none) (r : α) :
    a.or b = some r ↔ a = some r ∨ b = some r := by
  rcases h with rfl | rfl
  · simp
  · simp

/-- No stage comes to pass twice. -/
theorem once (E : Engine σ ε) (payload : RunPayload) (launcher : Option Launcher)
    (protocol : ProtocolConfig) {s : Stages} (h : s.Leads (w.phase? n)) :
    (s.settings = none ∨ w.merging? n payload = none) ∧
      (s.creation = none ∨ w.creating? E n payload launcher protocol = none) ∧
      (s.execution = none ∨ w.executing? E n payload launcher protocol = none) := by
  generalize hp : w.phase? n = q at h
  cases h with
  | unissued | fresh => exact ⟨.inl rfl, .inl rfl, .inl rfl⟩
  | queued | executing | misread | refused | finished | dropped =>
    simp [merging?, creating?, executing?, turn?, hp]

/-- What comes to pass in a step of a run leads to the phase after it. -/
theorem leads_resume {s : Stages} (ht : ∀ t ∈ w.task? n, t = .run payload launcher protocol)
    (hg : w.Guarded) (h : s.Leads (w.phase? n)) :
    (s.or (w.moment E n payload launcher protocol)).Leads ((w.resume E n).phase? n) := by
  generalize hp : w.phase? n = q at h
  have hover : ∀ {p}, q = some p → p.isOver → s.Leads (some p) →
      (s.or (w.moment E n payload launcher protocol)).Leads ((w.resume E n).phase? n) := by
    rintro p rfl hp' h
    rw [Moves.eq_of_isOver (moves_resume E w n) ⟨p, hp, hp'⟩, moment_of_over hp hp', hp]
    simpa [Stages.or] using h
  cases h with
  | unissued =>
    have hc : w.calls[n]? = none := by simpa [World.phase?] using hp
    have hw : w.resume E n = w := by simp [resume, hc]
    rw [hw, hp]
    simp [Stages.or, moment, merging?, creating?, executing?, turn?, hp]
    exact .unissued
  | fresh =>
    obtain ⟨t, ht'⟩ := Option.isSome_iff_exists.1 (w.isSome_task?_of_phase? n hp)
    obtain rfl := ht t ht'
    rw [resume_of_fresh ht' hp]
    cases hm : Settings.merge payload.runSettings w.options.designMode w.options.batchSize with
    | error e =>
      rw [moment_of_fresh_error hp hm, startRun_of_error (runOrder_of_merge_error hm),
        phase?_misread hp]
      exact .misread e
    | ok m =>
      obtain ⟨o, ho⟩ := exists_runOrder protocol hm
      rw [moment_of_fresh_ok hp hm ho, startRun_of_ok ho]
      cases hl : w.lock.holder with
      | none =>
        have hask : (w.ask n).lock.holder = some n := by simp [ask, withLock, RunLock.request, hl]
        have hp' : (w.ask n).phase? n = some .fresh := hp
        rw [if_pos hask, if_pos rfl, phase?_beginRun hp']
        exact leads_begun m w o launcher
      | some k =>
        have hask : (w.ask n).lock.holder = some k := RunLock.request_holder hl
        have hk : some k ≠ some n := by
          rintro ⟨⟩
          exact hg.not_mem_line hp rfl (by simp [RunLock.line, hl])
        rw [hask, if_neg hk, if_neg (by simp), phase?_queue hp]
        exact .queued m o
  | misread e => exact hover rfl rfl (.misread e)
  | queued m o =>
    obtain ⟨t, ht'⟩ := Option.isSome_iff_exists.1 (w.isSome_task?_of_phase? n hp)
    obtain rfl := ht t ht'
    rw [resume_of_queued ht' hp, moment_of_queued hp]
    split
    · rw [phase?_beginRun hp]
      exact leads_begun m w o launcher
    · rw [hp]
      exact .queued m o
  | refused m e => exact hover rfl rfl (.refused m e)
  | executing m id =>
    rw [resume_of_executing hp, moment_of_executing hp, phase?_workOnRun hp]
    exact leads_worked m ..
  | finished m r => exact hover rfl rfl (.finished m r)
  | dropped h live => exact hover rfl rfl (.dropped h live)

/-- A step that the run does not take adds nothing to its stages. -/
theorem leads_apply {s : Stages} {step : Step ε} (hs : step ≠ .resume n)
    (h : s.Leads (w.phase? n)) : s.Leads ((w.apply E step).phase? n) := by
  cases step with
  | resume m =>
    have hm : m ≠ n := by
      rintro rfl
      exact hs rfl
    rw [← Moves.phase?_of_ne (moves_resume E w m) hm] at h
    exact h
  | drop m =>
    by_cases hm : m = n
    · subst hm
      change s.Leads ((w.drop E m).phase? m)
      cases hp : w.phase? m with
      | none => rwa [drop_of_none E hp]
      | some p =>
        cases hover : p.isOver with
        | true => rwa [Moves.eq_of_isOver (moves_drop E w m) ⟨p, hp, hover⟩]
        | false =>
          obtain ⟨as, hm, -⟩ := moved_drop E hp hover
          rw [hm.phase?_self]
          exact .dropped (hp ▸ h) hover
    · rw [← Moves.phase?_of_ne (moves_drop E w m) hm] at h
      exact h
  | issue task =>
    change s.Leads ((w.issue task).phase? n)
    rw [phase?_issue]
    split
    · next hn =>
      have hnone : w.phase? n = none := by simp [World.phase?, hn]
      rw [hnone] at h
      cases h
      exact .fresh
    · exact h
  | advance | setOptions | outside => exact h

/-- The stages are those of the steps. -/
structure Stages.Sum (s : Stages) (E : Engine σ ε) (w : World σ) (n : Nat) (payload : RunPayload)
    (launcher : Option Launcher) (protocol : ProtocolConfig) (steps : List (Step ε)) : Prop where
  settings : ∀ r, w.Happens E n steps (fun u => u.merging? n payload) r ↔ s.settings = some r
  creation : ∀ r, w.Happens E n steps (fun u => u.creating? E n payload launcher protocol) r ↔
    s.creation = some r
  execution : ∀ r, w.Happens E n steps (fun u => u.executing? E n payload launcher protocol) r ↔
    s.execution = some r

theorem exists_stages (E : Engine σ ε) (options : Options) (engine : σ) (steps : List (Step ε))
    (ht : ∀ t ∈ ((start options engine).run E steps).task? n, t = .run payload launcher protocol) :
    ∃ s : Stages, s.Leads (((start options engine).run E steps).phase? n) ∧
      Stages.Sum s E (start options engine) n payload launcher protocol steps := by
  induction steps using List.reverseRecOn with
  | nil =>
    exact ⟨⟨none, none, none⟩, .unissued, by simp [happens_nil], by simp [happens_nil],
      by simp [happens_nil]⟩
  | append_singleton steps s ih =>
    let w := (World.start options engine).run E steps
    have hrun : (World.start options engine).run E (steps ++ [s]) = w.apply E s := by simp [w]
    rw [hrun] at ht ⊢
    have ht' : ∀ t ∈ w.task? n, t = .run payload launcher protocol := fun t h =>
      ht t ((changes_apply E w s).task?_eq h)
    obtain ⟨st, hleads, hsum⟩ := ih ht'
    by_cases hs : s = .resume n
    · subst hs
      have hg : w.Guarded := (reachable_run E options engine steps).guarded
      refine ⟨_, leads_resume ht' hg hleads, ?_⟩
      obtain ⟨hm, hc, hx⟩ := once E payload launcher protocol hleads
      refine ⟨fun r => ?_, fun r => ?_, fun r => ?_⟩
      · rw [happens_append_singleton, hsum.settings]
        exact (or_congr_right (and_iff_right rfl)).trans (or_eq_some_iff hm r).symm
      · rw [happens_append_singleton, hsum.creation]
        exact (or_congr_right (and_iff_right rfl)).trans (or_eq_some_iff hc r).symm
      · rw [happens_append_singleton, hsum.execution]
        exact (or_congr_right (and_iff_right rfl)).trans (or_eq_some_iff hx r).symm
    · refine ⟨st, leads_apply hs hleads, ?_⟩
      constructor
      · simpa [happens_append_singleton, hs] using hsum.settings
      · simpa [happens_append_singleton, hs] using hsum.creation
      · simpa [happens_append_singleton, hs] using hsum.execution

/-! ### Failures -/

/-- A run whose settings cannot be read ends in its first step, and touches nothing. -/
theorem misread_run {options : Options} {engine : σ} {e : Settings.SettingsError}
    (h : Reachable E options engine w) (ht : w.task? n = some (.run payload launcher protocol))
    (hp : w.phase? n = some .fresh)
    (hm : Settings.merge payload.runSettings w.options.designMode w.options.batchSize = .error e) :
    let w' := w.resume E n
    w'.engine = w.engine ∧ w'.nextId = w.nextId ∧ w'.slot = w.slot ∧ w'.lock = w.lock ∧
      w'.phase? n = some (.done (.ok false)) ∧
      w'.actionsOf n = [.telemetry .run .start, .telemetry .run .stop] := by
  intro w'
  have hw' : w' = (w.log n (.telemetry .run .start)).conclude n .run (.error (.ofSettings e)) :=
    (resume_of_fresh ht hp).trans (startRun_of_error (runOrder_of_merge_error hm))
  have hmoved : Moved n (.done (.ok false)) [.telemetry .run .start, .telemetry .run .stop] w
      ((w.log n (.telemetry .run .start)).conclude n .run (.error (.ofSettings e))) :=
    (((Moved.refl hp).log _).log _).setPhase _
  rw [hw']
  refine ⟨rfl, rfl, rfl, rfl, hmoved.phase?_self, ?_⟩
  rw [hmoved.actionsOf_self, (h.actionsOf_of_waiting ht hp).1 rfl, List.nil_append]

theorem merging?_eq_some {r : Except Settings.SettingsError Settings.Merged} :
    w.merging? n payload = some r ↔ w.phase? n = some .fresh ∧
      Settings.merge payload.runSettings w.options.designMode w.options.batchSize = r := by
  unfold merging?
  split
  · next hp => simp [hp]
  · next hfresh =>
    refine ⟨fun h => (by cases h), ?_⟩
    rintro ⟨hp, -⟩
    exact (hfresh hp).elim

theorem turn?_eq_some : w.turn? n payload protocol = some o ↔
    w.phase? n = some .fresh ∧ w.lock.holder = none ∧
      runOrder w.options protocol payload = .ok o ∨
    w.phase? n = some (.queued o) ∧ w.lock.holder = some n := by
  unfold turn?
  split
  · next hp =>
    cases ho : runOrder w.options protocol payload <;> simp [hp, Except.toOption]
  · next hp => simp [hp, and_comm]
  · next hfresh hqueued =>
    refine ⟨fun h => (by cases h), ?_⟩
    rintro (⟨hp, -⟩ | ⟨hp, -⟩)
    · exact (hfresh hp).elim
    · exact (hqueued o hp).elim

/-- A run that the engine refuses ends with the slot empty and the lock handed on. -/
theorem refused_run {options : Options} {engine : σ} {e : EngineError}
    (h : Reachable E options engine w) (ht : w.task? n = some (.run payload launcher protocol))
    (hc : w.creating? E n payload launcher protocol = some (.error e)) :
    let w' := w.resume E n
    w.slot = .empty ∧ w'.slot = .empty ∧
      w'.lock = ⟨w.lock.queue.head?, w.lock.queue.tail⟩ ∧
      w'.phase? n = some (.done (settle (.error e))) ∧
      ∃ id o launches, w'.actionsOf n =
        .telemetry .run .start :: creation id o launcher launches ++ [.telemetry .run .stop] := by
  intro w'
  obtain ⟨o, hturn, hr⟩ := Option.map_eq_some_iff.1 hc
  rcases turn?_eq_some.1 hturn with ⟨hp, hl, ho⟩ | ⟨hp, hl⟩
  · have hask : (w.ask n).lock = ⟨some n, w.lock.queue⟩ := by
      simp [ask, withLock, RunLock.request, hl]
    have hp' : (w.ask n).phase? n = some .fresh := hp
    have hw' : w' = (w.ask n).beginRun E n o launcher :=
      ((resume_of_fresh ht hp).trans (startRun_of_ok ho)).trans
        (if_pos (congrArg RunLock.holder hask))
    have hslot : w.slot = .empty := by
      refine h.slot_eq_empty fun m id hx => ?_
      rw [h.guarded.holder m id hx] at hl
      cases hl
    have hnone : (w.ask n).actionsOf n = [.telemetry .run .start] := by
      have hmoved := ((Moved.refl hp).log (.telemetry .run .start)).withLock (w.lock.request n)
      exact hmoved.actionsOf_self.trans (by rw [(h.actionsOf_of_waiting ht hp).1 rfl]; rfl)
    obtain ⟨hs, hlock, hmoved⟩ := beginRun_refused hp' hr
    rw [hw']
    refine ⟨hslot, hs.trans hslot, ?_, hmoved.phase?_self, w.nextId, o,
      (E.create w.engine w.nextId o launcher).launches, ?_⟩
    · rw [hlock, hask]
      rfl
    · rw [hmoved.actionsOf_self, hnone]
      rfl
  · have hw' : w' = w.beginRun E n o launcher := (resume_of_queued ht hp).trans (if_pos hl)
    have hslot : w.slot = .empty :=
      h.slot_eq_empty (h.guarded.not_executing hl hp (by simp))
    obtain ⟨hs, hlock, hmoved⟩ := beginRun_refused hp hr
    rw [hw']
    refine ⟨hslot, hs.trans hslot, hlock, hmoved.phase?_self, w.nextId, o,
      (E.create w.engine w.nextId o launcher).launches, ?_⟩
    rw [hmoved.actionsOf_self, (h.actionsOf_of_waiting ht hp).2 o rfl]
    rfl

/-- Whatever the engine does, and however the steps of other calls interleave: a run that comes to
its end tells its caller whether its stages have succeeded, and else passes on the error of the one
that failed or hides it, by its kind. A run whose settings cannot be read ends in its first step,
whoever has the lock, and touches nothing; a run that the engine refuses never has a registrar, and
hands the lock on. -/
theorem first_failing_stage_decides (E : Engine σ ε) (options : Options) (engine : σ)
    (steps : List (Step ε)) (n : Nat) (payload : RunPayload) (launcher : Option Launcher)
    (protocol : ProtocolConfig) :
    let start := World.start options engine
    let w := start.run E steps
    let w' := w.apply E (.resume n)
    let merged := start.Happens E n steps fun u => u.merging? n payload
    let created := start.Happens E n steps fun u => u.creating? E n payload launcher protocol
    let executed := start.Happens E n steps fun u => u.executing? E n payload launcher protocol
    w.task? n = some (.run payload launcher protocol) →
    (∀ result, w.phase? n = some (.done result) →
      (result = .ok true ↔ (∃ m, merged (.ok m)) ∧ created (.ok ()) ∧ executed (.ok ())) ∧
      (result = .ok false ↔ (∃ e, merged (.error e)) ∨
        ∃ e, e.kind ∈ plainKinds ∧ (created (.error e) ∨ executed (.error e))) ∧
      ∀ e, result = .error e ↔
        e.kind ∉ plainKinds ∧ (created (.error e) ∨ executed (.error e))) ∧
    ((∀ r, created r → ∃ m, merged (.ok m)) ∧ ∀ r, executed r → created (.ok ())) ∧
    ((∃ e, merged (.error e)) ∨ (∃ e, created (.error e)) ∨ (∃ r, executed r) →
      ∃ result, w.phase? n = some (.done result)) ∧
    (∀ e, w.merging? n payload = some (.error e) →
      w'.engine = w.engine ∧ w'.nextId = w.nextId ∧ w'.slot = w.slot ∧ w'.lock = w.lock ∧
      ∀ rest, (w'.run E rest).phase? n = some (.done (.ok false)) ∧
        (w'.run E rest).actionsOf n = [.telemetry .run .start, .telemetry .run .stop]) ∧
    ∀ e, w.creating? E n payload launcher protocol = some (.error e) →
      w.slot = .empty ∧ w'.slot = .empty ∧
      w'.lock = ⟨w.lock.queue.head?, w.lock.queue.tail⟩ ∧
      ∀ rest, (w'.run E rest).phase? n = some (.done (settle (.error e))) ∧
        ∃ id o launches, (w'.run E rest).actionsOf n = .telemetry .run .start ::
          creation id o launcher launches ++ [.telemetry .run .stop] := by
  intro start w w' merged created executed ht
  have h : Reachable E options engine w := reachable_run E options engine steps
  have hfinal : ∀ {p as}, p.isOver → w'.phase? n = some p → w'.actionsOf n = as → ∀ rest,
      (w'.run E rest).phase? n = some p ∧ (w'.run E rest).actionsOf n = as := by
    rintro p as hover hp rfl rest
    obtain ⟨hcall, hactions⟩ := Changes.eq_of_isOver (changes_run E w' rest) ⟨p, hp, hover⟩
    exact ⟨(phase?_congr hcall).trans hp, hactions⟩
  have hrun : ∀ t ∈ w.task? n, t = .run payload launcher protocol := fun t ht' =>
    Option.some.inj (ht'.symm.trans ht)
  obtain ⟨s, hleads, hsum⟩ := exists_stages E options engine steps hrun
  have hmerged : ∀ r, merged r ↔ s.settings = some r := hsum.settings
  have hcreated : ∀ r, created r ↔ s.creation = some r := hsum.creation
  have hexecuted : ∀ r, executed r ↔ s.execution = some r := hsum.execution
  simp only [hmerged, hcreated, hexecuted]
  refine ⟨fun result hp => ?_, hleads.order, hleads.exists_done, fun e hm => ?_, fun e hc => ?_⟩
  · exact Stages.Leads.done (hp ▸ hleads)
  · obtain ⟨hp, hm⟩ := merging?_eq_some.1 hm
    obtain ⟨hengine, hnext, hslot, hlock, hp', hactions⟩ := misread_run (E := E) h ht hp hm
    exact ⟨hengine, hnext, hslot, hlock, hfinal rfl hp' hactions⟩
  · obtain ⟨hslot, hslot', hlock, hp', id, o, launches, hactions⟩ := refused_run h ht hc
    refine ⟨hslot, hslot', hlock, fun rest => ?_⟩
    obtain ⟨hphase, has⟩ := hfinal rfl hp' hactions rest
    exact ⟨hphase, id, o, launches, has⟩

/-- Lets one run through its gate at a time, and fails to carry it out. -/
def faulty : Engine Catalogue.State Catalogue.Outside :=
  Catalogue.engine {
    catalogue := Catalogue.sample
    gated := true
    executionFailure := some ⟨.unknown, "the test host is gone"⟩ }

/-- Three runs, the second with settings that cannot be read and the third with a filter that cannot
be read. The first is at the gate, and the third queues. -/
def troubles : List (Step Catalogue.Outside) := [
  .issue (.run ⟨["calc.dll"], "", none⟩ none ⟨6⟩),
  .issue (.run ⟨["calc.dll"], "<RunSettings>", none⟩ none ⟨6⟩),
  .issue (.run ⟨["calc.dll"], "", some ⟨some "Name=(", none, false⟩⟩ none ⟨6⟩),
  .resume 0, .resume 2]

/-- The first run goes on and fails. -/
def moreTroubles : List (Step Catalogue.Outside) := troubles ++ [.outside .permit, .resume 0]

def lost : EngineError := ⟨.unknown, "the test host is gone"⟩

theorem runs_fail_at_each_stage :
    let start := World.start {} {}
    let w := start.run faulty troubles
    let w₂ := start.run faulty moreTroubles
    (w.lock = ⟨some 0, [2]⟩ ∧ (w.apply faulty (.resume 1)).lock = w.lock ∧
      ((w.apply faulty (.resume 1)).run faulty []).phase? 1 = some (.done (.ok false))) ∧
    w₂.phase? 0 = some (.done (.error lost)) ∧
    w₂.lock = ⟨some 2, []⟩ ∧ (w₂.apply faulty (.resume 2)).lock = ⟨none, []⟩ ∧
      ((w₂.apply faulty (.resume 2)).run faulty []).phase? 2 = some (.done (.ok false)) := by
  intro start w w₂
  refine ⟨?_, ?_, ?_⟩
  · obtain ⟨-, -, -, hmisread, -⟩ := first_failing_stage_decides faulty {} {} troubles 1
      ⟨["calc.dll"], "<RunSettings>", none⟩ none ⟨6⟩ (task?_of_take 3 rfl)
    obtain ⟨-, -, -, hlock, hrest⟩ := hmisread
      (.unclosedElement "RunSettings") (by decide +kernel)
    exact ⟨by decide +kernel, hlock, (hrest []).1⟩
  · obtain ⟨hresult, -, hdone, -, -⟩ := first_failing_stage_decides faulty {} {} moreTroubles 0
      ⟨["calc.dll"], "", none⟩ none ⟨6⟩ (task?_of_take 3 rfl)
    have hexecuted : start.Happens faulty 0 moreTroubles
        (fun u => u.executing? faulty 0 ⟨["calc.dll"], "", none⟩ none ⟨6⟩) (.error lost) :=
      ⟨troubles ++ [.outside .permit], [], rfl, by decide +kernel⟩
    obtain ⟨result, hp⟩ := hdone (.inr (.inr ⟨_, hexecuted⟩))
    obtain ⟨-, -, herror⟩ := hresult result hp
    rwa [(herror lost).2 ⟨by decide, .inr hexecuted⟩] at hp
  · obtain ⟨-, -, -, -, hrefused⟩ := first_failing_stage_decides faulty {} {} moreTroubles 2
      ⟨["calc.dll"], "", some ⟨some "Name=(", none, false⟩⟩ none ⟨6⟩ (task?_of_take 3 rfl)
    obtain ⟨-, -, hlock, hrest⟩ := hrefused
      ⟨.platform, "invalid test case filter: missing ')' for a '('"⟩ (by decide +kernel)
    have hline : w₂.lock = ⟨some 2, []⟩ := by decide +kernel
    exact ⟨hline, hlock.trans (by rw [hline]; rfl), (hrest []).1⟩

end World
end Proctor.Manager
