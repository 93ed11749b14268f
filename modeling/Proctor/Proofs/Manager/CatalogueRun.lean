import Proctor.Proofs.Engine.Catalogue
import Proctor.Proofs.Manager.RunInFlight

/-! # What runs of a catalogue engine report

A signal goes to the run in flight, which has not reported anything yet. So whatever signal is
accepted shows in the report of the run that it went to, and nothing else does. -/

namespace Proctor.Manager
open Proctor.Request
open Proctor.Catalogue (Script State Outside)

/-- A run in this phase has not reported anything. -/
def Phase.isSilent : Phase → Bool
  | .fresh | .queued _ | .executing _ => true
  | .discovering _ | .awaiting _ | .done _ | .dropped => false

theorem Task.kind_of_order? {t : Task} {kind : Kind} {options : Options} {o : Order}
    (hk : t.kind? = some kind) (h : t.order? options = some (.ok o)) : o.kind = kind := by
  cases t with
  | discover | run =>
    cases hk
    obtain ⟨_, -, h⟩ := bind_eq_ok.1 (Option.some.inj h)
    obtain rfl := pure_eq_ok.1 h
    rfl
  | signal => cases hk

namespace World

/-! ### Events -/

section
variable {σ ε : Type} {E : Engine σ ε} {w w' : World σ} {n m id : Nat} {p : Phase}
  {as : List Action}

/-- The channel from the request of a call to its registrar, and the events that the registrar has
taken in. -/
def events? (w : World σ) (n : Nat) : Option (Channel Event × List Event) :=
  w.calls[n]?.map fun c => (c.channel, c.delivered)

/-- The events that the registrar of a call has taken in. -/
def delivered? (w : World σ) (n : Nat) : Option (List Event) := (w.events? n).map Prod.snd

theorem events?_setPhase (w : World σ) (n : Nat) (p : Phase) :
    (w.setPhase n p).events? n = w.events? n :=
  w.map_getElem?_modifyCall n n fun _ => rfl

theorem events?_proceed (w : World σ) (n id : Nat) : (w.proceed E n id).events? n =
    (w.events? n).map fun e =>
      (e.1.sendAll E.capacity (E.resume w.engine w.clock id).events, e.2) := by
  cases hc : w.calls[n]? <;> simp [events?, proceed, publishEvents, modifyCall, hc]

theorem events?_unhook (w : World σ) (n id : Nat) :
    (w.unhook n id).events? n = (w.events? n).map fun e => (.empty, e.2 ++ e.1.received) := by
  cases hc : w.calls[n]? <;> simp [events?, unhook, Call.takeIn, log, modifyCall, hc]

theorem events?_endRun (w : World σ) (n id : Nat) (p : Phase) :
    (w.endRun n id p).events? n = (w.events? n).map fun e => (.empty, e.2 ++ e.1.received) :=
  (events?_setPhase _ n p).trans (events?_unhook w n id)

theorem Moved.events?_of_ne (h : Moved n p as w w') (hm : n ≠ m) :
    w'.events? m = w.events? m := by
  simp only [events?, h.getElem?_of_ne hm]

end

variable {script : Script} {options : Options} {w w' : World State} {n id : Nat} {t : Task}
  {p p' : Phase} {as : List Action}

/-! ### Records -/

/-- What a move does to the records of the engine. -/
inductive Effect (script : Script) (w : World State) (p p' : Phase) (as : List Action)
    (w' : World State) : Prop
  | still (records : w'.engine.records = w.engine.records) (quiet : ∀ s id, .signal s id ∉ as)
      (phase : ∀ id, p' = .executing id → p = .executing id)
  | enter {o : Order} {d : Option Bool} {selected : List TestCase}
      (create : .create w.nextId o d ∈ as)
      (select : Catalogue.select script.catalogue o.criteria = .ok selected)
      (records : w'.engine.records = w.engine.records ++ [{ id := w.nextId, selected := selected }])
      (quiet : ∀ s id, .signal s id ∉ as) (phase : p' = .executing w.nextId)
  | signal {s : Signal} {id : Nat} (target : w.slot.current = some id)
      (actions : as = [.signal s id])
      (records : w'.engine.records =
        w.engine.records.map fun r => if r.id = id then r.mark s else r)
      (phase : p'.isOver)

namespace Effect
variable {r : Catalogue.Run}

/-- No run is forgotten. -/
theorem exists_record (h : Effect script w p p' as w') (hr : r ∈ w.engine.records) :
    ∃ r' ∈ w'.engine.records, r'.id = r.id := by
  cases h with
  | still records => exact ⟨r, records ▸ hr, rfl⟩
  | enter _ _ records => exact ⟨r, records ▸ List.mem_append_left _ hr, rfl⟩
  | signal _ _ records =>
    refine ⟨_, records ▸ List.mem_map_of_mem hr, ?_⟩
    split
    · exact r.id_mark _
    · rfl

/-- Only the record of the run in the slot can change. -/
theorem keeps (h : Effect script w p p' as w') (hr : r ∈ w.engine.records)
    (hslot : w.slot.current ≠ some r.id) : r ∈ w'.engine.records := by
  cases h with
  | still records => exact records ▸ hr
  | enter _ _ records => exact records ▸ List.mem_append_left _ hr
  | @signal s i target _ records =>
    have hne : r.id ≠ i := by
      rintro rfl
      exact hslot target
    rw [records]
    exact List.mem_map.2 ⟨r, hr, if_neg hne⟩

/-- The engine knows of a run that is executing. -/
theorem executing (h : Effect script w p (.executing id) as w')
    (hknown : p = .executing id → ∃ r ∈ w.engine.records, r.id = id) :
    ∃ r ∈ w'.engine.records, r.id = id := by
  cases h with
  | still records _ phase =>
    rw [records]
    exact hknown (phase id rfl)
  | enter _ _ records _ phase =>
    obtain rfl := Phase.executing.inj phase
    exact ⟨_, records ▸ List.mem_append_right _ (List.mem_singleton_self _), rfl⟩
  | signal _ _ _ phase => cases phase

end Effect

theorem Reachable.kind_of_queued {σ ε : Type} {E : Engine σ ε} {engine : σ} {w : World σ}
    {o : Order} (h : Reachable E options engine w) (hp : w.phase? n = some (.queued o)) : o.kind = .run := by
  obtain ⟨t, ht, hk⟩ := w.exists_task_of_isRun (h.isRun_of_inLine hp rfl)
  have hl := h.lifecycle ht hk hp
  generalize w.actionsOf n = as at hl
  cases hl with
  | queued order => exact Task.kind_of_order? hk order

theorem Move.effect (hm : Move (Catalogue.engine script) w n t p p' as w')
    (hr : Reachable (Catalogue.engine script) options {} w) (hd : w.engine.Distinct) :
    Effect script w p p' as w' := by
  have hphase := hm.phase
  cases hm.rule with
  | misread | queue | await | expire | dropFresh | dropAwaiting | dropQueued =>
    exact .still rfl (by simp) (by simp)
  | refuseRun _ answer =>
    refine .still (congrArg State.records ?_) (by simp [creation]) (by simp)
    exact (create_engine ..).trans (Catalogue.state_create_of_error answer)
  | refuseDiscovery _ _ answer =>
    refine .still (congrArg State.records ?_) (by simp [creation]) (by simp)
    exact (create_engine ..).trans (Catalogue.state_create_of_error answer)
  | enterDiscovery asks order =>
    refine .still ?_ (by simp [creation]) (by simp)
    refine (congrArg State.records (create_engine ..)).trans ?_
    exact Catalogue.records_create_of_discovery (Task.kind_of_order? asks order)
  | enterRun _ answer =>
    obtain ⟨selected, hselect, hrecords⟩ :=
      Catalogue.records_create_of_run (hr.kind_of_queued hphase) answer
    refine .enter (d := t.launcher?.map Launcher.isDebug) (by simp [creation]) hselect ?_
      (by simp [creation]) rfl
    exact (congrArg State.records (create_engine ..)).trans hrecords
  | proceedRun | proceedDiscovery => exact .still (Catalogue.records_resume hd) (by simp) (by simp)
  | finishRun | finishDiscovery => exact .still (Catalogue.records_resume hd) (by simp) (by simp)
  | signal _ _ target => exact .signal target rfl (Catalogue.records_signal hd _ _) rfl
  | dropDiscovery | dropRun => exact .still (Catalogue.records_abandon hd) (by simp) (by simp)

/-- The records are those of the runs that have been created, with the signals that have been
given to them. -/
structure Marked (script : Script) (w : World State) : Prop where
  distinct : w.engine.Distinct
  lt : ∀ r ∈ w.engine.records, r.id < w.nextId
  flag : ∀ r ∈ w.engine.records, ∀ s, r.flag s = true ↔ ∃ n, ⟨n, .signal s r.id⟩ ∈ w.history
  selected : ∀ r ∈ w.engine.records, ∃ n o d, ⟨n, .create r.id o d⟩ ∈ w.history ∧
    Catalogue.select script.catalogue o.criteria = .ok r.selected

namespace Marked

theorem congr (h : w.Marked script) (hrecords : w'.engine.records = w.engine.records)
    (hnext : w.nextId ≤ w'.nextId) (hh : w.history <+: w'.history)
    (hquiet : ∀ n s id, ⟨n, .signal s id⟩ ∈ w'.history → ⟨n, .signal s id⟩ ∈ w.history) :
    w'.Marked script where
  distinct := by
    rw [State.Distinct, hrecords]
    exact h.distinct
  lt r hr := Nat.lt_of_lt_of_le (h.lt r (hrecords ▸ hr)) hnext
  flag r hr s := by
    rw [h.flag r (hrecords ▸ hr)]
    exact exists_congr fun n => ⟨fun he => hh.subset he, hquiet n s r.id⟩
  selected r hr := by
    obtain ⟨n, o, d, he, hselect⟩ := h.selected r (hrecords ▸ hr)
    exact ⟨n, o, d, hh.subset he, hselect⟩

/-- A run is created, which nobody can have signalled. -/
theorem enter (h : w.Marked script) {r : Catalogue.Run} {o : Order} {d : Option Bool}
    (hrecords : w'.engine.records = w.engine.records ++ [r]) (hid : r.id = w.nextId)
    (hflag : ∀ s, r.flag s = false) (hnext : w'.nextId = w.nextId + 1)
    (hh : w.history <+: w'.history)
    (hquiet : ∀ n s id, ⟨n, .signal s id⟩ ∈ w'.history → ⟨n, .signal s id⟩ ∈ w.history)
    (hfresh : ∀ n s, ⟨n, .signal s w.nextId⟩ ∉ w.history)
    (hcreate : ⟨n, .create w.nextId o d⟩ ∈ w'.history)
    (hselect : Catalogue.select script.catalogue o.criteria = .ok r.selected) :
    w'.Marked script := by
  have hmem : ∀ x ∈ w'.engine.records, x ∈ w.engine.records ∨ x = r := by
    intro x hx
    simpa [hrecords] using hx
  refine ⟨?_, fun x hx => ?_, fun x hx s => ?_, fun x hx => ?_⟩
  · rw [State.Distinct, hrecords, List.map_append]
    refine List.nodup_append.2 ⟨h.distinct, List.nodup_singleton _, ?_⟩
    intro i hi j hj
    obtain ⟨x, hx, rfl⟩ := List.mem_map.1 hi
    obtain rfl : j = r.id := by simpa using hj
    rw [hid]
    exact Nat.ne_of_lt (h.lt x hx)
  · rcases hmem x hx with hx | rfl
    · have hlt := h.lt x hx
      omega
    · omega
  · rcases hmem x hx with hx | rfl
    · rw [h.flag x hx]
      exact exists_congr fun n => ⟨fun he => hh.subset he, hquiet n s x.id⟩
    · rw [hflag, hid]
      refine ⟨fun h => (by cases h), ?_⟩
      rintro ⟨n, he⟩
      exact absurd (hquiet _ _ _ he) (hfresh n s)
  · rcases hmem x hx with hx | rfl
    · obtain ⟨n, o, d, he, hselect⟩ := h.selected x hx
      exact ⟨n, o, d, hh.subset he, hselect⟩
    · exact ⟨n, o, d, hid ▸ hcreate, hselect⟩

/-- A run is signalled, which its record notes. -/
theorem signal (h : w.Marked script) {s : Signal}
    (hrecords : w'.engine.records =
      w.engine.records.map fun r => if r.id = id then r.mark s else r)
    (hnext : w.nextId ≤ w'.nextId) (hh : w'.history = w.history ++ [⟨n, .signal s id⟩]) :
    w'.Marked script := by
  have hid : ∀ r : Catalogue.Run, (if r.id = id then r.mark s else r).id = r.id := by
    intro r
    split
    · exact r.id_mark s
    · rfl
  have hmem : ∀ r ∈ w'.engine.records, ∃ r₀ ∈ w.engine.records,
      (if r₀.id = id then r₀.mark s else r₀) = r := by
    intro r hr
    rw [hrecords] at hr
    exact List.mem_map.1 hr
  refine ⟨?_, fun r hr => ?_, fun r hr s' => ?_, fun r hr => ?_⟩
  · rw [State.Distinct, hrecords, List.map_map]
    have hids : Catalogue.Run.id ∘ (fun r : Catalogue.Run => if r.id = id then r.mark s else r) =
        Catalogue.Run.id := funext hid
    rw [hids]
    exact h.distinct
  · obtain ⟨r₀, hr₀, rfl⟩ := hmem r hr
    rw [hid]
    exact Nat.lt_of_lt_of_le (h.lt r₀ hr₀) hnext
  · obtain ⟨r₀, hr₀, rfl⟩ := hmem r hr
    have hold := h.flag r₀ hr₀ s'
    rw [hid]
    simp only [hh, List.mem_append, List.mem_singleton, Entry.mk.injEq, Action.signal.injEq,
      exists_or, exists_eq_left, ← hold]
    split
    · next hi => simp [Catalogue.Run.flag_mark, hi]
    · next hi => simp [hi]
  · obtain ⟨r₀, hr₀, rfl⟩ := hmem r hr
    obtain ⟨k, o, d, he, hselect⟩ := h.selected r₀ hr₀
    refine ⟨k, o, d, ?_, ?_⟩
    · rw [hid, hh]
      exact List.mem_append_left _ he
    · split
      · rwa [r₀.selected_mark]
      · exact hselect

theorem move (h : w.Marked script) (hr : Reachable (Catalogue.engine script) options {} w)
    (hm : Move (Catalogue.engine script) w n t p p' as w') : w'.Marked script := by
  have hh : w.history <+: w'.history := ⟨_, hm.moved.history.symm⟩
  have hnext := hm.rule.nextId_le
  have hquiet : (∀ s id, .signal s id ∉ as) → ∀ k s i,
      ⟨k, .signal s i⟩ ∈ w'.history → ⟨k, .signal s i⟩ ∈ w.history := fun hno _ s i he =>
    (hm.moved.mem_history.1 he).resolve_right fun ⟨_, ha⟩ => hno s i ha
  cases hm.effect hr h.distinct with
  | still records quiet => exact h.congr records hnext hh (hquiet quiet)
  | @enter o d selected create select records quiet =>
    have hfresh : ∀ k s, ⟨k, .signal s w.nextId⟩ ∉ w.history := by
      intro k s he
      obtain ⟨m, -, hm⟩ := hr.exists_target he
      obtain ⟨o, d, hm⟩ := hr.created hm rfl
      exact Nat.lt_irrefl _ (hr.numbered.lt hm)
    have hnew : w'.nextId = w.nextId + 1 := by
      rcases hm.rule.nextId with ⟨-, hno⟩ | ⟨hnew, -⟩
      · exact absurd create (hno _ _ _)
      · exact hnew
    have hcreated : ⟨n, .create w.nextId o d⟩ ∈ w'.history :=
      hm.moved.mem_history.2 (.inr ⟨rfl, create⟩)
    exact h.enter records rfl (fun s => by cases s <;> rfl) hnew hh (hquiet quiet) hfresh hcreated
      select
  | @signal s id target actions records =>
    have hhistory : w'.history = w.history ++ [⟨n, .signal s id⟩] := by
      rw [hm.moved.history, actions]
      rfl
    exact h.signal records hnext hhistory

end Marked

theorem Reachable.marked (h : Reachable (Catalogue.engine script) options {} w) :
    w.Marked script := by
  induction h with
  | refl => exact ⟨List.nodup_nil, by simp [start, State.records], by simp [start, State.records],
      by simp [start, State.records]⟩
  | tail hr hc ih =>
    cases hc with
    | move hm => exact ih.move hr hm
    | issue | advance | setOptions =>
      exact ih.congr rfl (Nat.le_refl _) List.prefix_rfl fun _ _ _ he => he
    | outside e =>
      exact ih.congr ih.distinct.records_givePermit (Nat.le_refl _) List.prefix_rfl
        fun _ _ _ he => he

/-! ### Reports -/

/-- A call that takes a step and has reported nothing after it had reported nothing before. -/
theorem Move.silent (hm : Move (Catalogue.engine script) w n t p p' as w') (h : w.Marked script)
    (hknown : ∀ id, p = .executing id → ∃ r ∈ w.engine.records, r.id = id) (hp : p'.isSilent) :
    p.isSilent ∧ w'.events? n = w.events? n := by
  cases hm.rule with
  | queue => exact ⟨rfl, (events?_setPhase _ n _).trans rfl⟩
  | @enterRun o =>
    refine ⟨rfl, (events?_setPhase _ n _).trans ?_⟩
    exact congrArg (fun calls : List Call => calls[n]?.map fun c => (c.channel, c.delivered))
      (create_calls _ w n o t.launcher?)
  | @proceedRun id progress =>
    obtain ⟨r, hr, rfl⟩ := hknown id rfl
    have hevents : ((Catalogue.engine script).resume w.engine w.clock r.id).events = [] := by
      rcases Catalogue.resume_cases h.distinct hr with ⟨-, hnil⟩ | ⟨hover, -⟩
      · exact hnil
      · change (Catalogue.resume script w.engine w.clock r.id).result = none at progress
        rw [progress] at hover
        cases hover
    refine ⟨rfl, (events?_proceed w n r.id).trans ?_⟩
    rw [hevents]
    exact Option.map_id' ..
  | misread | refuseRun | refuseDiscovery | enterDiscovery | proceedDiscovery | finishRun
  | finishDiscovery | await | expire | signal | dropFresh | dropAwaiting | dropQueued
  | dropDiscovery | dropRun => cases hp

/-- A run that comes to its end reports what its record says. -/
theorem Move.finishes (hm : Move (Catalogue.engine script) w n t p p' as w') (h : w.Marked script)
    (hknown : ∀ id, p = .executing id → ∃ r ∈ w.engine.records, r.id = id)
    (hsilent : p.isSilent → w.events? n = some (.empty, [])) (hf : .finish .run id ∈ as) :
    ∃ r ∈ w'.engine.records, r.id = id ∧ w'.delivered? n = some r.events := by
  cases hm.rule with
  | @finishRun i result progress =>
    obtain rfl : id = i := by simpa using hf
    obtain ⟨r, hr, rfl⟩ := hknown id rfl
    have hevents : ((Catalogue.engine script).resume w.engine w.clock r.id).events = r.events := by
      rcases Catalogue.resume_cases h.distinct hr with ⟨hnone, -⟩ | ⟨-, hevents⟩
      · cases hnone.symm.trans progress
      · exact hevents
    refine ⟨r, ?_, rfl, ?_⟩
    · have hrecords : (Catalogue.resume script w.engine w.clock r.id).state.records =
          w.engine.records := Catalogue.records_resume h.distinct
      exact hrecords ▸ hr
    · have hpublished : ((w.proceed (Catalogue.engine script) n r.id).log n
          (.finish .run r.id)).events? n =
            some (Channel.empty.sendAll Catalogue.capacity r.events, []) := by
        refine (events?_proceed w n r.id).trans ?_
        rw [hsilent rfl, hevents]
        rfl
      rw [delivered?, events?_endRun, hpublished]
      exact congrArg some ((Channel.received_sendAll_empty ..).trans (if_pos r.length_events_le))
  | misread | queue | refuseRun | enterRun | refuseDiscovery | enterDiscovery | proceedRun
  | proceedDiscovery | finishDiscovery | await | expire | signal | dropFresh | dropAwaiting
  | dropQueued | dropDiscovery | dropRun => simp [creation] at hf

/-- A run has reported nothing before its end, and then what its record says. -/
structure Reported (w : World State) : Prop where
  executing : ∀ n id, w.phase? n = some (.executing id) → ∃ r ∈ w.engine.records, r.id = id
  silent : ∀ n p, w.phase? n = some p → p.isSilent → w.events? n = some (.empty, [])
  finished : ∀ n id, ⟨n, .finish .run id⟩ ∈ w.history →
    ∃ r ∈ w.engine.records, r.id = id ∧ w.delivered? n = some r.events

namespace Reported

theorem congr (h : w.Reported) (hrecords : w'.engine.records = w.engine.records)
    (hc : w'.calls = w.calls) (hh : w'.history = w.history) : w'.Reported where
  executing n id hp := by
    rw [hrecords]
    exact h.executing n id (by rwa [phase?, ← hc])
  silent n p hp hs := by
    rw [events?, hc]
    exact h.silent n p (by rwa [phase?, ← hc]) hs
  finished n id he := by
    rw [hrecords, delivered?, events?, hc]
    exact h.finished n id (hh ▸ he)

theorem issue (h : w.Reported) (task : Task) (hlt : ∀ e ∈ w.history, e.call < w.calls.length) :
    (w.issue task).Reported := by
  have hphase : ∀ m p, (w.issue task).phase? m = some p → m = w.calls.length ∧ p = .fresh ∨
      w.phase? m = some p := by
    intro m p hp
    rw [phase?_issue] at hp
    split at hp
    · next hm => exact .inl ⟨hm, (Option.some.inj hp).symm⟩
    · exact .inr hp
  have hevents : ∀ m, m < w.calls.length → (w.issue task).events? m = w.events? m := by
    intro m hm
    simp [events?, World.issue, List.getElem?_append_left hm]
  refine ⟨fun m id hp => ?_, fun m p hp hs => ?_, fun m id he => ?_⟩
  · rcases hphase m _ hp with ⟨-, ⟨⟩⟩ | hp
    exact h.executing m id hp
  · rcases hphase m p hp with ⟨rfl, rfl⟩ | hp
    · simp [events?, World.issue, Call.new]
    · obtain ⟨c, hc, -⟩ := Option.map_eq_some_iff.1 hp
      rw [hevents m (List.getElem?_eq_some_iff.1 hc).1]
      exact h.silent m p hp hs
  · rw [delivered?, hevents m (hlt _ he)]
    exact h.finished m id he

theorem move (h : w.Reported) (hr : Reachable (Catalogue.engine script) options {} w)
    (hm : Move (Catalogue.engine script) w n t p p' as w') : w'.Reported := by
  have hmarked := hr.marked
  have heffect := hm.effect hr hmarked.distinct
  have hknown : ∀ id, p = .executing id → ∃ r ∈ w.engine.records, r.id = id := by
    rintro id rfl
    exact h.executing n id hm.phase
  refine ⟨fun m id hp => ?_, fun m q hp hs => ?_, fun m id he => ?_⟩
  · by_cases hn : n = m
    · subst hn
      obtain rfl := Option.some.inj (hm.moved.phase?_self.symm.trans hp)
      exact heffect.executing (hknown id)
    · obtain ⟨r, hrec, rfl⟩ := h.executing m id ((hm.moved.phase?_of_ne hn).symm.trans hp)
      exact heffect.exists_record hrec
  · by_cases hn : n = m
    · subst hn
      obtain rfl := Option.some.inj (hm.moved.phase?_self.symm.trans hp)
      obtain ⟨hold, hevents⟩ := hm.silent hmarked hknown hs
      rw [hevents]
      exact h.silent n p hm.phase hold
    · rw [hm.moved.events?_of_ne hn]
      exact h.silent m q ((hm.moved.phase?_of_ne hn).symm.trans hp) hs
  · rcases hm.moved.mem_history.1 he with he | ⟨rfl, ha⟩
    · have hn : n ≠ m := by
        rintro rfl
        have hover := hr.isOver_of_finish he hm.phase
        rw [hm.rule.not_isOver] at hover
        cases hover
      obtain ⟨r, hrec, rfl, hdelivered⟩ := h.finished m id he
      -- a run that is over is not the one in flight
      have hslot : w.slot.current ≠ some r.id := by
        intro hs
        obtain ⟨k, hk⟩ := (hr.guarded.slot r.id).1 hs
        exact hr.not_finished hk m .run he
      refine ⟨r, heffect.keeps hrec hslot, rfl, ?_⟩
      rwa [delivered?, hm.moved.events?_of_ne hn]
    · exact hm.finishes hmarked hknown (h.silent m p hm.phase) ha

end Reported

namespace Reachable
variable (h : Reachable (Catalogue.engine script) options {} w)
include h

theorem reported : w.Reported := by
  induction h with
  | refl => constructor <;> simp [start, World.phase?]
  | tail hr hc ih =>
    cases hc with
    | move hm => exact ih.move hr hm
    | issue task => exact ih.issue task fun e he => call_lt hr he
    | advance | setOptions => exact ih.congr rfl rfl rfl
    | outside e => exact ih.congr (marked hr).distinct.records_givePermit rfl rfl

/-- A run that has come to its end has reported what its record says. -/
theorem exists_report (hrun : w.isRun n) {result : Except EngineError Bool}
    (hp : w.phase? n = some (.done result)) (hn : ⟨n, .register id⟩ ∈ w.history) :
    ∃ r ∈ w.engine.records, r.id = id ∧ w.delivered? n = some r.events := by
  obtain ⟨t, ht, hk⟩ := w.exists_task_of_isRun hrun
  have hfinish := (h.lifecycle ht hk hp).finish_of_register rfl (mem_actionsOf.2 hn)
  exact h.reported.finished n id (mem_actionsOf.1 hfinish)

/-- A run that has come to its end without any signal has reported the tests selected for it. -/
theorem exists_report_of_quiet (hrun : w.isRun n) {result : Except EngineError Bool}
    (hp : w.phase? n = some (.done result)) (hn : ⟨n, .register id⟩ ∈ w.history)
    (hquiet : ∀ m s, ⟨m, .signal s id⟩ ∉ w.history) :
    ∃ o d selected, ⟨n, .create id o d⟩ ∈ w.history ∧
      Catalogue.select script.catalogue o.criteria = .ok selected ∧
      w.delivered? n = some [.testsExecuted (selected.map TestCase.fullyQualifiedName),
        .runCompleted selected.length false false] := by
  obtain ⟨r, hr, rfl, hdelivered⟩ := h.exists_report hrun hp hn
  have hflag : ∀ s, r.flag s = false := by
    intro s
    refine Bool.eq_false_iff.2 fun hs => ?_
    obtain ⟨m, hm⟩ := (h.marked.flag r hr s).1 hs
    exact hquiet m s hm
  obtain ⟨k, o, d, hcreated, hselect⟩ := h.marked.selected r hr
  obtain rfl := h.call_eq hcreated hn rfl rfl
  exact ⟨o, d, r.selected, hcreated, hselect,
    hdelivered.trans (congrArg some (Catalogue.Run.events_of_no_flag hflag))⟩

end Reachable

/-- Whatever calls there are with a catalogue engine, however their steps interleave and whichever
of them are dropped: a signal that is accepted has gone to one run, and if this run comes to its end
it reports that it was signalled and has executed nothing. A run that comes to its end without any
signal reports the tests selected for it, and neither flag. -/
theorem accepted_signal_takes_effect (script : Script) (options : Options)
    (steps : List (Step Outside)) :
    let w := (World.start options ({} : State)).run (Catalogue.engine script) steps
    (∀ n s, w.task? n = some (.signal s) → w.phase? n = some (.done (.ok true)) →
      ∃ id m, w.actionsOf n = [.signal s id] ∧ w.isRun m ∧
        (∀ k, ⟨k, .register id⟩ ∈ w.history ↔ k = m) ∧
        ∀ result, w.phase? m = some (.done result) → ∃ cancelled aborted,
          w.delivered? m = some [.testsExecuted [], .runCompleted 0 cancelled aborted] ∧
          (s = .cancel → cancelled = true) ∧ (s = .abort → aborted = true)) ∧
    ∀ m id result, w.isRun m → w.phase? m = some (.done result) → ⟨m, .register id⟩ ∈ w.history →
      (∀ n s, ⟨n, .signal s id⟩ ∉ w.history) →
      ∃ o d selected, ⟨m, .create id o d⟩ ∈ w.history ∧
        Catalogue.select script.catalogue o.criteria = .ok selected ∧
        w.delivered? m = some [.testsExecuted (selected.map TestCase.fullyQualifiedName),
          .runCompleted selected.length false false] := by
  intro w
  have h : Reachable (Catalogue.engine script) options {} w := reachable_run _ options _ steps
  refine ⟨fun n s ht hp => ?_, fun m id result hrun hp hm hquiet =>
    h.exists_report_of_quiet hrun hp hm hquiet⟩
  obtain ⟨id, hactions⟩ := (h.signalling ht hp).eq_signal rfl
  have hsignal : ⟨n, .signal s id⟩ ∈ w.history := by simp [← mem_actionsOf, hactions]
  obtain ⟨m, hrun, hm⟩ := h.exists_target hsignal
  refine ⟨id, m, hactions, hrun, fun k => ⟨fun hk => h.call_eq hk hm rfl rfl, ?_⟩, ?_⟩
  · rintro rfl
    exact hm
  · intro result hp
    obtain ⟨r, hr, rfl, hdelivered⟩ := h.exists_report hrun hp hm
    have hflag : r.flag s := (h.marked.flag r hr s).2 ⟨n, hsignal⟩
    refine ⟨r.cancelled, r.aborted, ?_, ?_, ?_⟩
    · rw [hdelivered, Catalogue.Run.events_of_flag hflag]
    · rintro rfl
      exact hflag
    · rintro rfl
      exact hflag

def gated : Script := { catalogue := Catalogue.sample, gated := true }

/-- Three runs, a cancel, and a run. The first run is at the gate and two queue when the second one
and the first one are dropped. The third one goes to the gate, and is cancelled there. The last one
goes on with a permit. -/
def commotion : List (Step Outside) := [
  .issue (.run ⟨["calc.dll"], "", none⟩ none ⟨6⟩), .issue (.run ⟨["io.dll"], "", none⟩ none ⟨6⟩),
  .issue (.run ⟨["calc.dll"], "", none⟩ none ⟨6⟩), .issue (.signal .cancel),
  .issue (.run ⟨["io.dll"], "", none⟩ none ⟨6⟩), .resume 0, .resume 1, .resume 2, .drop 1, .drop 0,
  .resume 2, .resume 3, .resume 2, .outside .permit, .resume 4]

theorem cancelled_run_reports_it :
    let w := (World.start {} ({} : State)).run (Catalogue.engine gated) commotion
    (w.phase? 0 = some .dropped ∧ w.phase? 1 = some .dropped ∧
      w.phase? 3 = some (.done (.ok true))) ∧
    (∃ aborted, w.delivered? 2 = some [.testsExecuted [], .runCompleted 0 true aborted]) ∧
    ∃ o d selected, ⟨4, .create 3 o d⟩ ∈ w.history ∧
      Catalogue.select gated.catalogue o.criteria = .ok selected ∧
      w.delivered? 4 = some [.testsExecuted (selected.map TestCase.fullyQualifiedName),
        .runCompleted selected.length false false] := by
  intro w
  obtain ⟨hsignalled, hquiet⟩ := accepted_signal_takes_effect gated {} commotion
  have hp₃ : w.phase? 3 = some (.done (.ok true)) := by decide +kernel
  refine ⟨⟨by decide +kernel, by decide +kernel, hp₃⟩, ?_, ?_⟩
  · obtain ⟨id, m, hactions, -, hregister, hreport⟩ :=
      hsignalled 3 .cancel (task?_of_take 5 rfl) hp₃
    have hsignal : w.actionsOf 3 = [.signal .cancel 2] := by decide +kernel
    obtain rfl : 2 = id := by simpa using hsignal.symm.trans hactions
    obtain rfl : 2 = m := (hregister 2).1 (by decide +kernel)
    obtain ⟨cancelled, aborted, hdelivered, hcancelled, -⟩ := hreport (.ok true) (by decide +kernel)
    obtain rfl := hcancelled rfl
    exact ⟨aborted, hdelivered⟩
  · have hrun : w.isRun 4 := by
      rw [isRun, task?_of_take 5 rfl]
      rfl
    have hnobody : ∀ s : Signal, Action.signal s 3 ∉ w.history.map Entry.action := by
      intro s
      cases s <;> decide +kernel
    refine hquiet 4 3 (.ok true) hrun (by decide +kernel) (by decide +kernel) fun n s hsignal => ?_
    exact hnobody s (List.mem_map_of_mem hsignal)

end World
end Proctor.Manager
