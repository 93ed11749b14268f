import Mathlib.Data.List.Induction
import Proctor.Engine.Catalogue
import Proctor.Proofs.Except
import Proctor.Proofs.Manager.Registrar

/-! # What an order is made of

A call looks at the ambient options once, in its first step. However long it then waits, and whatever
takes the place of the options meanwhile, the engine is given the order that follows from this look
and from the payload of the call. -/

namespace Proctor.Manager
open Proctor.Request

/-! ### Demands -/

/-- What a call for a request brings along, before anything is filled in. -/
structure Demand where
  kind : Kind
  sources : List String
  runSettings : String
  filter : Option String
  filterOptions : Option Filter.FilterOptions
  protocol : ProtocolConfig
  /-- The caller opts in to telemetry for this call. -/
  optsIn : Bool

def Task.demand? : Task → Option Demand
  | discover p protocol => some {
      kind := .discovery
      sources := p.sources
      runSettings := p.runSettings
      filter := p.filter
      filterOptions := none
      protocol
      optsIn := false }
  | run p _ protocol => some {
      kind := .run
      sources := p.sources
      runSettings := p.runSettings
      filter := p.platformOptions.bind PlatformOptions.filter
      filterOptions := p.platformOptions.bind PlatformOptions.filterOptions
      protocol
      optsIn := p.platformOptions.any PlatformOptions.collectMetrics }
  | signal _ => none

namespace Demand

/-- The order holds what the call brings along, filled in from the options, and nothing else. -/
structure Ordered (b : Demand) (options : Options) (o : Order) : Prop where
  kind : o.kind = b.kind
  sources : o.criteria.sources = b.sources
  settings : Settings.merge b.runSettings options.designMode options.batchSize =
    .ok ⟨o.criteria.runSettings, o.criteria.batchSize⟩
  filter : o.criteria.filter = b.filter.or options.filter
  filterOptions : o.criteria.filterOptions = b.filterOptions
  protocol : o.context.protocol = b.protocol
  optedIn : o.context.telemetryOptedIn = (options.telemetryOptedIn || b.optsIn)
  metrics : o.context.metrics.entries =
    if options.telemetryOptedIn || b.optsIn then
      [(sourceCountName, toString o.criteria.sources.length),
        (batchSizeName, toString o.criteria.batchSize),
        (filterUsedName, if o.criteria.filter.isSome then "true" else "false")]
    else []

/-- The order for a demand whose settings have been merged. -/
def order (b : Demand) (options : Options) (merged : Settings.Merged) : Order :=
  Request.order b.kind b.protocol (options.telemetryOptedIn || b.optsIn) {
    sources := b.sources
    runSettings := merged.xml
    filter := b.filter.or options.filter
    filterOptions := b.filterOptions
    batchSize := merged.batchSize }

variable {b : Demand} {options : Options} {o o' : Order} {merged : Settings.Merged}

/-- The metrics of a call are its own from the first entry on. -/
theorem recordMetrics_new (protocol : ProtocolConfig) (optedIn : Bool) (c : Criteria) :
    recordMetrics (.new protocol optedIn) c = ⟨protocol, optedIn, ⟨if optedIn then
      [(sourceCountName, toString c.sources.length), (batchSizeName, toString c.batchSize),
        (filterUsedName, if c.filter.isSome then "true" else "false")]
    else []⟩⟩ := by
  cases optedIn with
  | false => rfl
  | true =>
    have hsize : sourceCountName ≠ batchSizeName := by decide
    have hfilter : sourceCountName ≠ filterUsedName := by decide
    have hfilter' : batchSizeName ≠ filterUsedName := by decide
    simp [recordMetrics, Context.new, Metrics.empty, Metrics.add, hsize, hfilter, hfilter']

theorem ordered_iff : b.Ordered options o ↔ ∃ merged,
    Settings.merge b.runSettings options.designMode options.batchSize = .ok merged ∧
      o = b.order options merged := by
  constructor
  · intro h
    refine ⟨_, h.settings, ?_⟩
    obtain ⟨kind, ⟨protocol, optedIn, ⟨entries⟩⟩, ⟨sources, text, filter, filterOptions, size⟩⟩ := o
    obtain ⟨rfl, rfl, -, rfl, rfl, rfl, rfl, metrics⟩ := h
    rw [order, Request.order, recordMetrics_new, ← metrics]
  · rintro ⟨merged, hm, rfl⟩
    constructor <;> simp only [order, Request.order, recordMetrics_new]
    exact hm

theorem Ordered.unique (h : b.Ordered options o) (h' : b.Ordered options o') : o = o' := by
  obtain ⟨merged, hm, rfl⟩ := ordered_iff.1 h
  obtain ⟨merged', hm', rfl⟩ := ordered_iff.1 h'
  rw [Except.ok.inj (hm.symm.trans hm')]

end Demand

theorem Task.order?_eq {t : Task} {b : Demand} (h : t.demand? = some b) (options : Options) :
    t.order? options = some (do
      let merged ← Settings.merge b.runSettings options.designMode options.batchSize
      return b.order options merged) := by
  cases t with
  | discover | run =>
    obtain rfl := Option.some.inj h
    simp [order?, discoveryOrder, runOrder, Demand.order]
  | signal => cases h

/-- The order of a call is the one that its demand comes to. -/
theorem Task.order?_iff {t : Task} {b : Demand} (h : t.demand? = some b) {options : Options}
    {o : Order} : t.order? options = some (.ok o) ↔ b.Ordered options o := by
  rw [order?_eq h, Option.some_inj, Demand.ordered_iff, bind_eq_ok]
  exact exists_congr fun merged => and_congr_right fun _ => pure_eq_ok.trans eq_comm

theorem Task.exists_demand? {t : Task} {options : Options} {r : Except Settings.SettingsError Order}
    (h : t.order? options = some r) : ∃ b, t.demand? = some b := by
  cases t with
  | discover | run => exact ⟨_, rfl⟩
  | signal => cases h

namespace World
variable {σ ε : Type} {E : Engine σ ε} {w w' : World σ} {n : Nat} {t : Task} {p p' : Phase}
  {as as' : List Action} {options : Options}

/-! ### The ambient options -/

theorem create_options (E : Engine σ ε) (w : World σ) (n : Nat) (o : Order)
    (launcher : Option Launcher) : (w.create E n o launcher).1.options = w.options := by
  rw [create_eq]

theorem Rule.options_eq (h : Rule E w n t p p' as w') : w'.options = w.options := by
  cases h with
  | refuseRun | enterRun | refuseDiscovery | enterDiscovery => exact create_options ..
  | misread | queue | proceedRun | proceedDiscovery | finishRun | finishDiscovery | await | expire
  | signal | dropFresh | dropAwaiting | dropQueued | dropDiscovery | dropRun => rfl

theorem Moves.options_eq (h : Moves E n w w') : w'.options = w.options := by
  induction h with
  | refl => rfl
  | tail _ hm ih =>
    obtain ⟨_, _, _, _, hm⟩ := hm
    rw [hm.rule.options_eq, ih]

/-- The ambient options after some steps, of which only those that set them matter. -/
def latest (options : Options) (steps : List (Step ε)) : Options :=
  steps.foldl (fun old s => match s with
    | .setOptions new => new
    | .issue _ | .resume _ | .drop _ | .advance _ | .outside _ => old) options

theorem options_run (E : Engine σ ε) (w : World σ) (steps : List (Step ε)) :
    (w.run E steps).options = latest w.options steps := by
  induction steps generalizing w with
  | nil => rfl
  | cons s steps ih =>
    refine (ih (w.apply E s)).trans ?_
    cases s with
    | resume n => exact congrArg (latest · steps) (Moves.options_eq (moves_resume E w n))
    | drop n => exact congrArg (latest · steps) (Moves.options_eq (moves_drop E w n))
    | issue | advance | setOptions | outside => rfl

/-! ### Calls that have looked at the options -/

/-- A call that has looked at the options gives no order but the one that follows from this look. -/
structure Under (t : Task) (options : Options) (p : Phase) (as : List Action) : Prop where
  begun : p ≠ .fresh
  queued : ∀ o, p = .queued o → t.order? options = some (.ok o)
  created : ∀ id o d, .create id o d ∈ as → t.order? options = some (.ok o)

namespace Under

/-- The call gives no order, and comes to no queue. -/
theorem quiet (h : Under t options p as) (hbegun : p' ≠ .fresh) (hqueued : ∀ o, p' ≠ .queued o)
    (has : ∀ id o d, .create id o d ∉ as') : Under t options p' (as ++ as') where
  begun := hbegun
  queued o ho := absurd ho (hqueued o)
  created id o d hc := h.created id o d ((List.mem_append.1 hc).resolve_right (has id o d))

theorem rule (h : Under t options p as) (hr : Rule E w n t p p' as' w') :
    Under t options p' (as ++ as') := by
  cases hr with
  | misread | queue | refuseDiscovery | enterDiscovery | dropFresh => exact absurd rfl h.begun
  | @refuseRun o =>
    refine ⟨by simp, by simp, fun id o' d hc => ?_⟩
    rcases List.mem_append.1 hc with hc | hc
    · exact h.created id o' d hc
    · obtain rfl : o' = o := by simp_all [creation]
      exact h.queued o' rfl
  | @enterRun o =>
    refine ⟨by simp, by simp, fun id o' d hc => ?_⟩
    rcases List.mem_append.1 hc with hc | hc
    · exact h.created id o' d hc
    · obtain rfl : o' = o := by simp_all [creation]
      exact h.queued o' rfl
  | proceedRun | proceedDiscovery | finishRun | finishDiscovery | await | expire | signal
  | dropAwaiting | dropQueued | dropDiscovery | dropRun =>
    exact h.quiet (by simp) (by simp) (by simp)

/-- The first rule that a call follows looks at the options, unless the call is dropped. -/
theorem of_fresh (hr : Rule E w n t .fresh p' as w') :
    p' = .dropped ∧ as = [] ∨ Under t w.options p' as := by
  cases hr with
  | dropFresh => exact .inl ⟨rfl, rfl⟩
  | queue _ order =>
    refine .inr ⟨by simp, fun o ho => ?_, by simp⟩
    rwa [← Phase.queued.inj ho]
  | @refuseDiscovery o _ _ order =>
    refine .inr ⟨by simp, by simp, fun id o' d hc => ?_⟩
    obtain rfl : o' = o := by simp_all [creation]
    exact order
  | @enterDiscovery o _ order =>
    refine .inr ⟨by simp, by simp, fun id o' d hc => ?_⟩
    obtain rfl : o' = o := by simp_all [creation]
    exact order
  | misread | await | expire | signal => exact .inr ⟨by simp, by simp, by simp⟩

end Under

/-- The call has looked at these options. -/
def HasSeen (w : World σ) (n : Nat) (t : Task) (options : Options) : Prop :=
  ∃ p, w.task? n = some t ∧ w.phase? n = some p ∧ Under t options p (w.actionsOf n)

/-- The call has done nothing: it has not begun, or was dropped before that. -/
def Idle (w : World σ) (n : Nat) : Prop :=
  w.actionsOf n = [] ∧ (w.phase? n = some .fresh ∨ w.phase? n = some .dropped)

theorem HasSeen.change (h : w.HasSeen n t options) (hc : Change E w w') :
    w'.HasSeen n t options := by
  obtain ⟨p, ht, hp, hu⟩ := h
  have ht' : w'.task? n = some t := Changes.task?_eq (.single hc) ht
  rcases hc.stays_or_moves hp with ⟨hcall, hactions⟩ | ⟨t', p', as, hm⟩
  · exact ⟨p, ht', by rw [World.phase?, hcall, ← hp, World.phase?], hactions ▸ hu⟩
  · obtain rfl := Option.some.inj (hm.task.symm.trans ht)
    exact ⟨p', ht', hm.moved.phase?_self, hm.moved.actionsOf_self ▸ hu.rule hm.rule⟩

theorem HasSeen.changes (h : w.HasSeen n t options) (hc : Changes E w w') :
    w'.HasSeen n t options := by
  induction hc with
  | refl => exact h
  | tail _ hc ih => exact ih.change hc

/-- The moves of a call that has done nothing begin with a look at the options. -/
theorem Idle.moves (h : w.Idle n) (ht : w.task? n = some t) (hm : Moves E n w w') :
    w'.Idle n ∨ w.phase? n = some .fresh ∧ w'.HasSeen n t w.options := by
  obtain ⟨hactions, hp⟩ := h
  rcases Relation.ReflTransGen.cases_head hm with rfl | ⟨u, ⟨t', p, p', as, hfirst⟩, hrest⟩
  · exact .inl ⟨hactions, hp⟩
  · obtain rfl := Option.some.inj (hfirst.task.symm.trans ht)
    have hlive := hfirst.rule.not_isOver
    have hfresh : p = .fresh := by
      rcases hp with hp | hp
      · exact Option.some.inj (hfirst.phase.symm.trans hp)
      · obtain rfl := Option.some.inj (hfirst.phase.symm.trans hp)
        cases hlive
    subst hfresh
    have hphase := hfirst.moved.phase?_self
    have has : u.actionsOf n = as := by rw [hfirst.moved.actionsOf_self, hactions, List.nil_append]
    rcases Under.of_fresh hfirst.rule with ⟨rfl, rfl⟩ | hu
    · obtain rfl := Moves.eq_of_isOver hrest ⟨_, hphase, rfl⟩
      exact .inl ⟨has, .inr hphase⟩
    · refine .inr ⟨hfirst.phase, HasSeen.changes ⟨p', ?_, hphase, has ▸ hu⟩ (Moves.changes hrest)⟩
      rw [hfirst.moved.task?, ht]

theorem drop_of_fresh (hp : w.phase? n = some .fresh) : w.drop E n = w.setPhase n .dropped := by
  obtain ⟨c, hc, hphase⟩ := Option.map_eq_some_iff.1 hp
  simp only [drop, hc, hphase]

theorem Moves.task?_eq (h : Moves E n w w') : w'.task? = w.task? := by
  induction h with
  | refl => rfl
  | tail _ hm ih =>
    obtain ⟨_, _, _, _, hm⟩ := hm
    exact hm.moved.task?.trans ih

theorem Moves.stays {m : Nat} (h : Moves E m w w') (hne : m ≠ n) :
    w'.calls[n]? = w.calls[n]? ∧ w'.actionsOf n = w.actionsOf n := by
  induction h with
  | refl => exact ⟨rfl, rfl⟩
  | tail _ hm ih =>
    obtain ⟨_, _, _, _, hm⟩ := hm
    exact ⟨(hm.moved.getElem?_of_ne hne).trans ih.1, (hm.moved.actionsOf_of_ne hne).trans ih.2⟩

/-- A call stays as it is in the steps of others. -/
theorem stays_apply (E : Engine σ ε) (ht : (w.task? n).isSome) {s : Step ε} (hresume : s ≠ .resume n)
    (hdrop : s ≠ .drop n) : (w.apply E s).calls[n]? = w.calls[n]? ∧
      (w.apply E s).actionsOf n = w.actionsOf n := by
  cases s with
  | resume m => exact Moves.stays (moves_resume E w m) fun hm => hresume (congrArg _ hm)
  | drop m => exact Moves.stays (moves_drop E w m) fun hm => hdrop (congrArg _ hm)
  | issue task =>
    obtain ⟨t, ht⟩ := Option.isSome_iff_exists.1 ht
    obtain ⟨c, hc, -⟩ := Option.map_eq_some_iff.1 ht
    exact ⟨List.getElem?_append_left (List.getElem?_eq_some_iff.1 hc).1, rfl⟩
  | advance | setOptions | outside => exact ⟨rfl, rfl⟩

theorem Idle.congr (h : w.Idle n)
    (hs : w'.calls[n]? = w.calls[n]? ∧ w'.actionsOf n = w.actionsOf n) : w'.Idle n := by
  rw [Idle, World.phase?, hs.1, hs.2]
  exact h

theorem Idle.drop (E : Engine σ ε) (h : w.Idle n) : (w.drop E n).Idle n := by
  rcases h.2 with hp | hp
  · rw [drop_of_fresh hp]
    exact ⟨h.1, .inr (by rw [phase?_setPhase, if_pos rfl, hp]; rfl)⟩
  · rwa [Moves.eq_of_isOver (moves_drop E w n) ⟨_, hp, rfl⟩]

/-- A call that has done nothing looks at the options in a step of its own, or goes on doing
nothing. -/
theorem Idle.apply (h : w.Idle n) (ht : w.task? n = some t) (s : Step ε) :
    (w.apply E s).Idle n ∨
      s = .resume n ∧ w.phase? n = some .fresh ∧ (w.apply E s).HasSeen n t w.options := by
  by_cases hresume : s = .resume n
  · subst hresume
    exact (h.moves ht (moves_resume E w n)).imp_right fun hseen => ⟨rfl, hseen⟩
  by_cases hdrop : s = .drop n
  · subst hdrop
    exact .inl (h.drop E)
  · exact .inl (h.congr (stays_apply E (Option.isSome_of_eq_some ht) hresume hdrop))

/-- A call that has done something has looked at the options in its first step. -/
theorem idle_or_hasSeen (E : Engine σ ε) (options : Options) (engine : σ) (steps : List (Step ε))
    (ht : ((World.start options engine).run E steps).task? n = some t) :
    let start := World.start options engine
    (start.run E steps).Idle n ∨ ∃ front back, steps = front ++ .resume n :: back ∧
      (start.run E front).phase? n = some .fresh ∧
      (start.run E steps).HasSeen n t (latest options front) := by
  intro start
  induction steps using List.reverseRecOn with
  | nil => simp [run, World.start, task?] at ht
  | append_singleton steps s ih =>
    have hr : Reachable E options engine (start.run E steps) := reachable_run E options engine steps
    rw [run_append, run_singleton] at ht ⊢
    cases hold : (start.run E steps).task? n with
    | none =>
      cases s with
      | resume m =>
        rw [← Moves.task?_eq (moves_resume E _ m)] at hold
        cases hold.symm.trans ht
      | drop m =>
        rw [← Moves.task?_eq (moves_drop E _ m)] at hold
        cases hold.symm.trans ht
      | issue task =>
        obtain ⟨p, hp⟩ := World.exists_phase? _ n (Option.isSome_of_eq_some ht)
        have hnew : (World.issue (start.run E steps) task).phase? n = some p := hp
        rw [phase?_issue] at hnew
        split at hnew
        · exact .inl ⟨hr.actionsOf_eq_nil hold, .inl (hp.trans hnew.symm)⟩
        · have hsome := isSome_task?_of_phase? _ n hnew
          rw [hold] at hsome
          cases hsome
      | advance | setOptions | outside => cases hold.symm.trans ht
    | some t' =>
      obtain rfl := Option.some.inj (((changes_apply E _ s).task?_eq hold).symm.trans ht)
      rcases ih hold with hidle | ⟨front, back, rfl, hfresh, hseen⟩
      · refine (hidle.apply hold s).imp_right ?_
        rintro ⟨rfl, hfresh, hseen⟩
        refine ⟨steps, [], rfl, hfresh, ?_⟩
        rwa [options_run] at hseen
      · exact .inr ⟨front, back ++ [s], by simp, hfresh, hseen.changes (changes_apply E _ s)⟩

/-- Whatever calls there are, however their steps interleave, and however often the options are
replaced: the order that a call gives to the engine is the only one that its payload comes to under
the options as they were at its first step. -/
theorem order_follows_from_first_look (E : Engine σ ε) (options : Options) (engine : σ)
    (steps : List (Step ε)) {id : Nat} {o : Order} {d : Option Bool} :
    let start := World.start options engine
    let w := start.run E steps
    ⟨n, .create id o d⟩ ∈ w.history →
    ∃ t b front back, w.task? n = some t ∧ t.demand? = some b ∧
      steps = front ++ .resume n :: back ∧ (start.run E front).phase? n = some .fresh ∧
      ∀ o', b.Ordered (latest options front) o' ↔ o' = o := by
  intro start w hcreate
  have h : Reachable E options engine w := reachable_run E options engine steps
  obtain ⟨t, -, ht, -⟩ := h.exists_call hcreate
  have hmem := mem_actionsOf.2 hcreate
  rcases idle_or_hasSeen E options engine steps ht with hidle | ⟨front, back, rfl, hfresh, hseen⟩
  · rw [hidle.1] at hmem
    cases hmem
  · obtain ⟨p, -, -, hunder⟩ := hseen
    have horder := hunder.created id o d hmem
    obtain ⟨b, hb⟩ := Task.exists_demand? horder
    have hordered : b.Ordered (latest options front) o := (Task.order?_iff hb).1 horder
    refine ⟨t, b, front, back, ht, hb, rfl, hfresh, fun o' => ⟨fun h' => h'.unique hordered, ?_⟩⟩
    rintro rfl
    exact hordered

/-- The second run looks at the options while the first one is at the gate, and gets the lock when
they have been reset. -/
def contention : List (Step Catalogue.Outside) := [
  .issue (.run ⟨["io.dll"], "", none⟩ none ⟨6⟩), .resume 0,
  .setOptions { designMode := true, filter := some "Name~Add", batchSize := 7, telemetryOptedIn := true },
  .issue (.run ⟨["calc.dll"], "", none⟩ none ⟨7⟩), .resume 1,
  .setOptions {}, .outside .permit, .resume 0, .resume 1]

def patientOrder : Order where
  kind := .run
  context := ⟨⟨7⟩, true, ⟨[(sourceCountName, "1"), (batchSizeName, "7"), (filterUsedName, "true")]⟩⟩
  criteria := {
    sources := ["calc.dll"]
    runSettings := "<RunSettings><RunConfiguration><DesignMode>True</DesignMode>" ++
      "<CollectSourceInformation>True</CollectSourceInformation></RunConfiguration></RunSettings>"
    filter := some "Name~Add"
    filterOptions := none
    batchSize := 7 }

theorem queued_run_keeps_first_look :
    let E := Catalogue.engine { catalogue := Catalogue.sample, gated := true }
    let start := World.start {} {}
    let w := start.run E contention
    ⟨1, .create 2 patientOrder none⟩ ∈ w.history ∧
    ∃ t b front back, w.task? 1 = some t ∧ t.demand? = some b ∧
      contention = front ++ .resume 1 :: back ∧ (start.run E front).phase? 1 = some .fresh ∧
      ∀ o', b.Ordered (latest {} front) o' ↔ o' = patientOrder := by
  intro E start w
  have hcreate : ⟨1, .create 2 patientOrder none⟩ ∈ w.history := by decide +kernel
  exact ⟨hcreate, order_follows_from_first_look E {} {} contention hcreate⟩

end World
end Proctor.Manager
