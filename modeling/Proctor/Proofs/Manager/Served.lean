import Proctor.Proofs.Manager.Attended
import Proctor.Proofs.Manager.Outcome

/-! # Calls that a catalogue engine serves

An engine that fails at no stage reports all tests of a discovery at once. A run comes to its end
once it has had the lock, its time and a permit, and reports all tests selected for it unless
somebody has signalled it. -/

namespace Proctor.Manager
open Proctor.Request
open Proctor.Catalogue (Script State Outside)

theorem settle_eq_true {r : Except EngineError Unit} (h : settle r = .ok true) : r = .ok () := by
  cases r with
  | ok => rfl
  | error e =>
    by_cases hk : e.kind ∈ plainKinds
    · rw [settle_of_mem hk] at h
      cases h
    · rw [settle_of_notMem hk] at h
      cases h

/-- A request that has succeeded had its registrar hooked. -/
theorem Lifecycle.exists_register {t : Task} {kind : Kind} {as : List Action}
    (h : Lifecycle t kind (.done (.ok true)) as) : ∃ id, .register id ∈ as := by
  generalize hp : Phase.done (.ok true) = p at h
  cases h with
  | misread | refused => cases settle_eq_true (Phase.done.inj hp).symm
  | @finished _ _ _ id => exact ⟨id, by simp⟩
  | fresh | unstarted | queued | unqueued | executing | discovering | abandonedRun
  | abandonedDiscovery => cases hp

/-- A request signals nobody. -/
theorem Lifecycle.signal_notMem {t : Task} {kind : Kind} {p : Phase} {as : List Action}
    (h : Lifecycle t kind p as) (s : Signal) (id : Nat) : .signal s id ∉ as := by
  cases h <;> simp [creation]

/-! ### Calls that the engine can serve -/

/-- The order of a call under these options, which the engine accepts, selecting these tests. -/
structure Served (script : Script) (t : Task) (options : Options) (o : Order)
    (selected : List TestCase) : Prop where
  order : t.order? options = some (.ok o)
  select : Catalogue.select script.catalogue o.criteria = .ok selected
  launches : ∀ l ∈ t.launcher?, ∃ process,
    l.launch ⟨"testhost", o.criteria.sources⟩ = .ok process

theorem Served.accepted {script : Script} {t : Task} {options : Options} {o : Order}
    {selected : List TestCase} (hs : Served script t options o selected) (hscript : script.Obliging)
    (s : State) (id : Nat) :
    ((Catalogue.engine script).create s id o t.launcher?).result = .ok () :=
  (Catalogue.create_of_select hscript hs.select hs.launches).1

namespace World
variable {script : Script} {options ambient : Options} {w w' : World State} {n id : Nat} {t : Task}
  {o : Order} {selected : List TestCase}

/-! ### Discoveries -/

section
variable {σ ε : Type} {E : Engine σ ε} {w : World σ}

theorem resume_of_fresh_discovery {payload : DiscoveryPayload} {protocol : ProtocolConfig}
    (ht : w.task? n = some (.discover payload protocol)) (hp : w.phase? n = some .fresh) :
    w.resume E n = w.startDiscovery E n payload protocol := by
  obtain ⟨c, hc, hphase⟩ := Option.map_eq_some_iff.1 hp
  have htask : c.task = .discover payload protocol := by simpa [task?, hc] using ht
  simp only [resume, hc, hphase, htask]

theorem workOnDiscovery_of_result {r : Except EngineError Unit}
    (h : (E.resume w.engine w.clock id).result = some r) : w.workOnDiscovery E n id =
      (((w.proceed E n id).log n (.finish .discovery id)).unhook n id).conclude n .discovery r := by
  unfold workOnDiscovery work
  dsimp only
  rw [h]
  rfl

end

/-- A discovery ends in its first step, and its registrar has taken in all that was found, if there
was room for it. -/
theorem Reachable.discovery_reports (h : Reachable (Catalogue.engine script) ambient {} w)
    (hscript : script.Obliging) (ht : w.task? n = some t) (hp : w.phase? n = some .fresh)
    (hk : t.kind? = some .discovery) (hs : Served script t w.options o selected) :
    (w.resume (Catalogue.engine script) n).phase? n = some (.done (.ok true)) ∧
      (w.resume (Catalogue.engine script) n).delivered? n =
        let events := Catalogue.Discovery.events ⟨w.nextId, selected, o.criteria.batchSize⟩
        some (if events.length ≤ Catalogue.capacity then events else []) := by
  cases t with
  | run | signal => cases hk
  | discover payload protocol =>
    let E := Catalogue.engine script
    let d : Catalogue.Discovery := ⟨w.nextId, selected, o.criteria.batchSize⟩
    let u := ((w.log n (.telemetry .discovery .start)).create E n o none).1
    let v := u.enterDiscovery n w.nextId
    have hkind : o.kind = .discovery := Task.kind_of_order? hk hs.order
    have ho : discoveryOrder w.options protocol payload = .ok o := Option.some.inj hs.order
    -- no request has had the number before
    have hrun : w.engine.run? w.nextId = none := by
      refine List.find?_eq_none.2 fun r hr => ?_
      have hlt : r.id < w.nextId := h.marked.lt r.record (State.record_mem hr)
      simpa using Nat.ne_of_lt hlt
    have hnew : ∀ d ∈ w.engine.discoveries, d.id ≠ w.nextId := fun d hd =>
      Nat.ne_of_lt (h.attended.discoveries d hd)
    have hengine : v.engine = (Catalogue.create script w.engine w.nextId o none).state :=
      create_engine ..
    have hresume : E.resume v.engine v.clock w.nextId = ⟨v.engine, d.events, some (.ok ())⟩ := by
      rw [hengine]
      exact Catalogue.resume_of_new_discovery hscript hs.select hs.launches hkind hrun hnew
    have hw' : w.resume E n =
        (((v.proceed E n w.nextId).log n (.finish .discovery w.nextId)).unhook n
          w.nextId).conclude n .discovery (.ok ()) := by
      rw [resume_of_fresh_discovery ht hp,
        startDiscovery_of_ok ho (hs.accepted hscript w.engine w.nextId)]
      exact workOnDiscovery_of_result (congrArg Progress.result hresume)
    have hmoved := (((Moved.refl hp).log (.telemetry .discovery .start)).create E o
      none).enterDiscovery w.nextId
    have hevents : v.events? n = some (.empty, []) := by
      have hcalls : u.calls = w.calls := create_calls ..
      have hsame : u.events? n = w.events? n := by rw [events?, hcalls, events?]
      exact (events?_setPhase ..).trans (hsame.trans (h.reported.silent n .fresh hp rfl))
    have hpublished : (v.proceed E n w.nextId).events? n =
        some (Channel.empty.sendAll Catalogue.capacity d.events, []) := by
      rw [events?_proceed, hevents, hresume]
      rfl
    rw [hw']
    refine ⟨((((hmoved.proceed E _).log _).unhook _).log _).setPhase _ |>.phase?_self, ?_⟩
    have hunhooked := (events?_unhook ((v.proceed E n w.nextId).log n
      (.finish .discovery w.nextId)) n w.nextId).trans (congrArg (Option.map _) hpublished)
    refine (congrArg (Option.map Prod.snd) ((events?_setPhase ..).trans hunhooked)).trans ?_
    exact congrArg some (Channel.received_sendAll_empty ..)

/-! ### Runs that come to their end -/

/-- The call has looked at the options, and has come to no bad end. -/
structure InOrder (w : World State) (n : Nat) (t : Task) (options : Options) : Prop where
  seen : w.HasSeen n t options
  succeeds : ∀ result, w.phase? n = some (.done result) → result = .ok true

namespace InOrder

theorem change (h : w.InOrder n t options) (hscript : script.Obliging)
    (hs : Served script t options o selected) (hc : Change (Catalogue.engine script) w w') :
    w'.InOrder n t options where
  seen := h.seen.change hc
  succeeds result hdone := by
    obtain ⟨p, ht, hp, hunder⟩ := h.seen
    rcases hc.stays_or_moves hp with ⟨hcall, -⟩ | ⟨t', p', as, hm⟩
    · rw [phase?_congr hcall] at hdone
      exact h.succeeds result hdone
    obtain rfl := Option.some.inj (hm.task.symm.trans ht)
    obtain rfl := Option.some.inj (hm.moved.phase?_self.symm.trans hdone)
    generalize hq : Phase.done result = q at hm
    cases hm.rule with
    | misread | refuseDiscovery => exact absurd rfl hunder.begun
    | @refuseRun o' _ _ answer =>
      obtain rfl : o = o' := by simpa [hs.order] using hunder.queued o' rfl
      cases (hs.accepted hscript w.engine w.nextId).symm.trans answer
    | finishRun progress | finishDiscovery progress =>
      rw [Catalogue.resume_eq_ok hscript progress] at hq
      exact Phase.done.inj hq
    | expire task | signal task =>
      rw [task] at hs
      cases hs.order
    | queue | enterRun | enterDiscovery | proceedRun | proceedDiscovery | await | dropFresh
    | dropAwaiting | dropQueued | dropDiscovery | dropRun => cases hq

theorem changes (h : w.InOrder n t options) (hscript : script.Obliging)
    (hs : Served script t options o selected) (hc : Changes (Catalogue.engine script) w w') :
    w'.InOrder n t options := by
  induction hc with
  | refl => exact h
  | tail _ hc ih => exact ih.change hscript hs hc

end InOrder

theorem isRun_of_kind (ht : w.task? n = some t) (hk : t.kind? = some .run) : w.isRun n := by
  cases t with
  | run => simp [World.isRun, ht, Task.isRun]
  | discover | signal => cases hk

/-- A run that has asked for the lock. -/
def queue (w : World State) (n : Nat) (o : Order) : World State := (w.ask n).setPhase n (.queued o)

section
variable {payload : RunPayload} {launcher : Option Launcher} {protocol : ProtocolConfig}
  (ht : w.task? n = some (.run payload launcher protocol)) (hp : w.phase? n = some .fresh)
  (ho : runOrder w.options protocol payload = .ok o)
include ht hp ho

theorem queue_move : Move (Catalogue.engine script) w n (.run payload launcher protocol) .fresh
    (.queued o) [.telemetry .run .start] (w.queue n o) :=
  ⟨ht, hp, .queue rfl (congrArg some ho)⟩

theorem Reachable.queue (h : Reachable (Catalogue.engine script) ambient {} w) :
    Reachable (Catalogue.engine script) ambient {} (w.queue n o) :=
  h.tail (.move (queue_move ht hp ho))

theorem changes_of_queue :
    Changes (Catalogue.engine script) (w.queue n o) (w.resume (Catalogue.engine script) n) := by
  rw [resume_of_fresh ht hp]
  exact (moves_of_queue ht hp ho).changes

/-- A run that finds the lock free gets it at once. -/
theorem resume_queue (hl : w.lock.holder = none) :
    (w.queue n o).lock.holder = some n ∧
      (w.queue n o).resume (Catalogue.engine script) n = w.resume (Catalogue.engine script) n := by
  have hask : (w.ask n).lock.holder = some n := by simp [ask, withLock, RunLock.request, hl]
  have hqueue : (w.queue n o).lock.holder = some n := hask
  have hphase : (w.queue n o).phase? n = some (.queued o) := phase?_queue hp
  have htask : (w.queue n o).task? n = some (.run payload launcher protocol) :=
    (congrFun ((w.ask n).task?_setPhase n _) n).trans ht
  refine ⟨hqueue, ?_⟩
  rw [resume_of_queued htask hphase, if_pos hqueue, resume_of_fresh ht hp, startRun_of_ok ho,
    if_pos hask]
  exact beginRun_setPhase ..

/-- A run is in order once it has asked for the lock. -/
theorem Reachable.inOrder_queue (h : Reachable (Catalogue.engine script) ambient {} w) :
    (w.queue n o).InOrder n (.run payload launcher protocol) w.options := by
  have hm : Move (Catalogue.engine script) w n _ _ _ _ (w.queue n o) := queue_move ht hp ho
  have hphase := hm.moved.phase?_self
  refine ⟨⟨.queued o, ?_, hphase, ?_⟩, fun result hdone => ?_⟩
  · rw [hm.moved.task?, ht]
  · have hunder := (Under.of_fresh hm.rule).resolve_left (by simp)
    rwa [hm.moved.actionsOf_self, (h.actionsOf_of_waiting ht hp).1 rfl]
  · cases hphase.symm.trans hdone

end

/-- Nobody has signalled the run of the call. -/
def Undisturbed (w : World State) (n : Nat) : Prop :=
  ∀ id, ⟨n, .register id⟩ ∈ w.history → ∀ m s, ⟨m, .signal s id⟩ ∉ w.history

/-- The call has succeeded, and its registrar has taken in these events. -/
def Succeeded (w : World State) (n : Nat) (events : List Event) : Prop :=
  w.phase? n = some (.done (.ok true)) ∧ w.delivered? n = some events

/-- What a discovery reports that has found these parts. -/
def listed (parts : List (List TestCase)) : List Event :=
  parts.map .testsDiscovered ++ [.discoveryCompleted parts.flatten.length false]

/-- What a run reports that has executed these tests. -/
def executed (tests : List TestCase) : List Event :=
  [.testsExecuted (tests.map TestCase.fullyQualifiedName), .runCompleted tests.length false false]

/-- A run that nobody has signalled reports the tests selected for it. -/
theorem Reachable.run_reports (h : Reachable (Catalogue.engine script) ambient {} w)
    (hk : t.kind? = some .run) (hs : Served script t options o selected)
    (ho : w.InOrder n t options) {result : Except EngineError Bool}
    (hp : w.phase? n = some (.done result)) (hquiet : w.Undisturbed n) :
    w.Succeeded n (executed selected) := by
  obtain rfl := ho.succeeds result hp
  obtain ⟨p, ht, -, hunder⟩ := ho.seen
  have hrun : w.isRun n := isRun_of_kind ht hk
  obtain ⟨id, hregister⟩ := (h.lifecycle ht hk hp).exists_register
  obtain ⟨o', d, selected', hcreate, hselect, hdelivered⟩ :=
    h.exists_report_of_quiet hrun hp (mem_actionsOf.1 hregister)
      (hquiet id (mem_actionsOf.1 hregister))
  have horder := hunder.created id o' d (mem_actionsOf.2 hcreate)
  obtain rfl : o = o' := by simpa [hs.order] using horder
  obtain rfl := Except.ok.inj (hs.select.symm.trans hselect)
  exact ⟨hp, hdelivered⟩

/-! ### Runs that are let go on -/

/-- What a run that has the lock needs at most: its time, a permit, and the steps to make use of
them. -/
def patience (script : Script) (n : Nat) : List (Step Outside) :=
  [.resume n, .advance (script.delay.getD 0), .resume n, .outside .permit, .resume n]

theorem phase?_run_of_done {result : Except EngineError Bool}
    (hp : w.phase? n = some (.done result)) (steps : List (Step Outside)) :
    (w.run (Catalogue.engine script) steps).phase? n = some (.done result) :=
  (phase?_congr (Changes.eq_of_isOver (changes_run _ w steps) ⟨_, hp, rfl⟩).1).trans hp

namespace Reachable
variable (h : Reachable (Catalogue.engine script) ambient {} w)
include h

/-- A run that the engine works on sleeps for a time, then waits at the gate, and is over with a
permit. -/
theorem ends_after_step (hp : w.phase? n = some (.executing id)) :
    ∃ result, ((w.workOnRun (Catalogue.engine script) n id).run (Catalogue.engine script)
      (patience script n).tail).phase? n = some (.done result) := by
  let E := Catalogue.engine script
  rcases workOnRun_cases E hp with ⟨result, hdone⟩ | ⟨hnone, hw₁, hp₁⟩
  · exact ⟨result, phase?_run_of_done hdone _⟩
  rw [hw₁]
  obtain ⟨r, hr, hawake⟩ := (h.alone hp).resume.resolve_left fun ⟨_, hsome⟩ => by
    cases hnone.symm.trans hsome
  let w₂ := (w.proceed E n id).apply E (.advance (script.delay.getD 0))
  have hp₂ : w₂.phase? n = some (.executing id) := hp₁
  change ∃ result, ((w₂.resume E n).run E [.outside .permit, .resume n]).phase? n =
    some (.done result)
  rw [resume_of_executing hp₂]
  rcases workOnRun_cases E hp₂ with ⟨result, hdone⟩ | ⟨hnone, hw₃, hp₃⟩
  · exact ⟨result, phase?_run_of_done hdone _⟩
  rw [hw₃]
  obtain ⟨r', hr', hgate⟩ := (Catalogue.resume_of_awake (s := w₂.engine) hr hawake).resolve_left
    fun ⟨_, hsome⟩ => by cases hnone.symm.trans hsome
  have h₁ : Reachable E ambient {} (w.proceed E n id) := hw₁ ▸ h.workOnRun hp
  have h₂ : Reachable E ambient {} w₂ := h₁.step (.advance (script.delay.getD 0))
  have h₃ : Reachable E ambient {} (w₂.proceed E n id) := hw₃ ▸ h₂.workOnRun hp₂
  obtain ⟨result, hresult⟩ := (h₃.alone hp₃).resume_of_permit hr' hgate
  let w₄ := (w₂.proceed E n id).apply E (.outside .permit)
  have hp₄ : w₄.phase? n = some (.executing id) := hp₃
  refine ⟨settle result, ?_⟩
  change (w₄.resume E n).phase? n = some (.done (settle result))
  rw [resume_of_executing hp₄, phase?_workOnRun hp₄, worked]
  have hover : (E.resume w₄.engine w₄.clock id).result = some result := hresult
  rw [hover]

/-- A run that has the lock comes to its end. -/
theorem ends_of_holder (hscript : script.Obliging) (hk : t.kind? = some .run)
    (hs : Served script t options o selected) (ho : w.InOrder n t options)
    (hl : w.lock.holder = some n) :
    ∃ result, (w.run (Catalogue.engine script) (patience script n)).phase? n =
      some (.done result) := by
  let E := Catalogue.engine script
  obtain ⟨p, ht, hp, hunder⟩ := ho.seen
  have hline : p.inLine := by
    have hmem := (h.guarded.mem_line n).1 (by simp [RunLock.line, hl])
    simpa [hp] using hmem
  have hrun : w.run E (patience script n) = (w.resume E n).run E (patience script n).tail := rfl
  rw [hrun]
  cases p with
  | executing id =>
    rw [resume_of_executing hp]
    exact h.ends_after_step hp
  | queued o' =>
    obtain rfl : o = o' := by simpa [hs.order] using hunder.queued o' rfl
    cases t with
    | discover | signal => cases hk
    | run payload launcher protocol =>
      have answer := hs.accepted hscript w.engine w.nextId
      have hm : Move E w n (.run payload launcher protocol) (.queued o) _ _ _ :=
        ⟨ht, hp, .enterRun hl answer⟩
      have h₁ : Reachable E ambient {} ((w.create E n o launcher).1.enterRun n w.nextId) :=
        h.tail (.move hm)
      rw [resume_of_queued ht hp, if_pos hl, beginRun_of_ok w n E o launcher answer]
      exact h₁.ends_after_step hm.moved.phase?_self
  | fresh | discovering | awaiting | done | dropped => cases hline

end Reachable

/-- The steps of a run signal nobody. -/
theorem Reachable.undisturbed_patience (h : Reachable (Catalogue.engine script) ambient {} w)
    (hrun : w.isRun n) (hquiet : w.Undisturbed n) :
    (w.run (Catalogue.engine script) (patience script n)).Undisturbed n := by
  intro id hregister m s hsignal
  have h' := h.run (patience script n)
  have hrun' := (changes_run (Catalogue.engine script) w (patience script n)).isRun hrun
  have hne : n ≠ m := by
    rintro rfl
    obtain ⟨t, ht, hk⟩ := World.exists_task_of_isRun _ hrun'
    obtain ⟨p, hp⟩ := World.exists_phase? _ n (Option.isSome_of_eq_some ht)
    exact (h'.lifecycle ht hk hp).signal_notMem s id (mem_actionsOf.2 hsignal)
  have hstep : ∀ v : World State, (v.resume (Catalogue.engine script) n).actionsOf m =
      v.actionsOf m := fun v => (Moves.stays (moves_resume _ v n) hne).2
  have hactions : (w.run (Catalogue.engine script) (patience script n)).actionsOf m =
      w.actionsOf m := (hstep _).trans ((hstep _).trans (hstep w))
  have hsignal' : ⟨m, .signal s id⟩ ∈ w.history :=
    mem_actionsOf.1 (hactions ▸ mem_actionsOf.2 hsignal)
  obtain ⟨k, -, hk⟩ := h.exists_target hsignal'
  obtain rfl := h'.call_eq hregister ((history_run _ w _).subset hk) rfl rfl
  exact hquiet id hk m s hsignal'

/-- A run that has the lock succeeds if nobody has signalled it. -/
theorem Reachable.run_succeeds (h : Reachable (Catalogue.engine script) ambient {} w)
    (hscript : script.Obliging) (hk : t.kind? = some .run)
    (hs : Served script t options o selected) (ho : w.InOrder n t options)
    (hquiet : w.Undisturbed n) (hl : w.lock.holder = some n) :
    (w.run (Catalogue.engine script) (patience script n)).Succeeded n (executed selected) := by
  obtain ⟨result, hdone⟩ := h.ends_of_holder hscript hk hs ho hl
  obtain ⟨-, ht, -⟩ := ho.seen
  have ho' := ho.changes hscript hs (changes_run _ w (patience script n))
  exact (h.run _).run_reports hk hs ho' hdone
    (h.undisturbed_patience (isRun_of_kind ht hk) hquiet)

/-- A run that finds the lock free succeeds, as nobody can have signalled it before. -/
theorem Reachable.new_run_succeeds (h : Reachable (Catalogue.engine script) ambient {} w)
    (hscript : script.Obliging) {payload : RunPayload} {launcher : Option Launcher}
    {protocol : ProtocolConfig} (ht : w.task? n = some (.run payload launcher protocol))
    (hp : w.phase? n = some .fresh)
    (hs : Served script (.run payload launcher protocol) w.options o selected)
    (hl : w.lock.holder = none) :
    (w.run (Catalogue.engine script) (patience script n)).Succeeded n (executed selected) := by
  have ho : runOrder w.options protocol payload = .ok o := Option.some.inj hs.order
  have hqueue := h.queue ht hp ho
  have hinOrder := h.inOrder_queue ht hp ho
  obtain ⟨hholder, hresume⟩ : (w.queue n o).lock.holder = some n ∧
      (w.queue n o).resume (Catalogue.engine script) n = w.resume (Catalogue.engine script) n :=
    resume_queue ht hp ho hl
  have hquiet : (w.queue n o).Undisturbed n := by
    obtain ⟨-, htask, -⟩ := hinOrder.seen
    have hactions := (hqueue.actionsOf_of_waiting htask (phase?_queue hp)).2 o rfl
    intro id hregister
    have hmem := mem_actionsOf.2 hregister
    rw [hactions] at hmem
    simp at hmem
  have hsame : w.run (Catalogue.engine script) (patience script n) =
      (w.queue n o).run (Catalogue.engine script) (patience script n) :=
    congrArg (fun v : World State => v.run _ (patience script n).tail) hresume.symm
  rw [hsame]
  exact hqueue.run_succeeds hscript rfl hs hinOrder hquiet hholder

end World
end Proctor.Manager
