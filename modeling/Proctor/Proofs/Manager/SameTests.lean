import Proctor.Proofs.Manager.Served

/-! # Discoveries and runs find the same tests

What a discovery lists and what a run executes follows from the sources, the settings, the options
and the filter alone, so that a test that is listed is run if the same is asked for. -/

namespace Proctor.Manager
open Proctor.Request Proctor.Filter
open Proctor.Catalogue (Script State Outside InParts)

/-- What the tests of a request depend on. -/
structure Inquiry where
  sources : List String
  runSettings : String
  designMode : Bool
  batchSize : Nat
  /-- The text of the filter that applies, be it the call's own or the ambient one. -/
  filter : Option String

namespace World
variable {script : Script} {w : World State} {n : Nat} {t : Task}

/-- A call that is about to take its first step asks for this, with a launcher that works. -/
structure Asks (w : World State) (n : Nat) (t : Task) (b : Demand) (q : Inquiry) : Prop where
  task : w.task? n = some t
  fresh : w.phase? n = some .fresh
  demand : t.demand? = some b
  sources : b.sources = q.sources
  runSettings : b.runSettings = q.runSettings
  designMode : w.options.designMode = q.designMode
  batchSize : w.options.batchSize = q.batchSize
  filter : b.filter.or w.options.filter = q.filter
  plain : b.filterOptions.bind FilterOptions.regex = none
  launches : ∀ l ∈ t.launcher?, ∃ process, l.launch ⟨"testhost", q.sources⟩ = .ok process

namespace Asks
variable {b : Demand} {q : Inquiry} {merged : Settings.Merged} {filter : Option Expression}

theorem kind? (h : w.Asks n t b q) : t.kind? = some b.kind := by
  have hdemand := h.demand
  cases t with
  | discover | run =>
    obtain rfl := Option.some.inj hdemand
    rfl
  | signal => cases hdemand

theorem served (script : Script) (h : w.Asks n t b q)
    (hmerge : Settings.merge q.runSettings q.designMode q.batchSize = .ok merged)
    (hfilter : q.filter.mapM (fun text => Expression.parse text.toList) = .ok filter) :
    ∃ o, Served script t w.options o (Catalogue.chosen script.catalogue q.sources filter) ∧
      o.criteria.batchSize = merged.batchSize := by
  have hm : Settings.merge b.runSettings w.options.designMode w.options.batchSize = .ok merged := by
    rw [h.runSettings, h.designMode, h.batchSize, hmerge]
  have hordered := Demand.ordered_iff.2 ⟨merged, hm, rfl⟩
  refine ⟨b.order w.options merged, ⟨(Task.order?_iff h.demand).2 hordered, ?_, ?_⟩, rfl⟩
  · rw [← h.sources, ← hordered.sources]
    refine Catalogue.select_eq_chosen ?_ ?_
    · rw [hordered.filter, h.filter, hfilter]
    · rw [hordered.filterOptions, h.plain]
  · rw [hordered.sources, h.sources]
    exact h.launches

end Asks

/-- A catalogue engine that fails at no stage, asked for the same by a discovery and by a run: the
discovery ends in its first step and reports the tests of the sources that the filter holds of, in
the order of the catalogue and in parts of the batch size, and then their number, if there is room
for so many events. The run, if nobody signals it, comes to its end with the names of the same tests
and with their number, once it has the lock and is given its time and a permit. Other calls, before
and after, make no difference, nor do options that are set later. -/
theorem discovery_and_run_find_same_tests (script : Script) (q : Inquiry)
    {merged : Settings.Merged} {filter : Option Expression} (hscript : script.Obliging)
    (hmerge : Settings.merge q.runSettings q.designMode q.batchSize = .ok merged)
    (hfilter : q.filter.mapM (fun text => Expression.parse text.toList) = .ok filter) :
    ∃ parts : List (List TestCase),
      parts.flatten = Catalogue.chosen script.catalogue q.sources filter ∧
      InParts (max 1 merged.batchSize) parts ∧
      ∀ (ambient : Options) (steps : List (Step Outside)) (n : Nat) (t : Task) (b : Demand),
        let E := Catalogue.engine script
        let w := (World.start ambient {}).run E steps
        let w' := w.apply E (.resume n)
        w.Asks n t b q →
        (b.kind = .discovery → (listed parts).length ≤ Catalogue.capacity →
          ∀ rest, (w'.run E rest).Succeeded n (listed parts)) ∧
        (b.kind = .run →
          (w.lock.holder = none →
            (w.run E (patience script n)).Succeeded n (executed parts.flatten)) ∧
          ∀ rest, (w'.run E rest).Undisturbed n →
            (∀ result, (w'.run E rest).phase? n = some (.done result) →
              (w'.run E rest).Succeeded n (executed parts.flatten)) ∧
            ((w'.run E rest).lock.holder = some n →
              ((w'.run E rest).run E (patience script n)).Succeeded n
                (executed parts.flatten))) := by
  let tests := Catalogue.chosen script.catalogue q.sources filter
  have hsize : merged.batchSize - 1 + 1 = max 1 merged.batchSize := by omega
  refine ⟨Catalogue.batches (merged.batchSize - 1) tests, Catalogue.flatten_batches .., ?_, ?_⟩
  · rw [← hsize]
    exact Catalogue.inParts_batches ..
  intro ambient steps n t b E w w' hasks
  rw [listed, Catalogue.flatten_batches]
  have h : Reachable E ambient {} w := reachable_run E ambient {} steps
  obtain ⟨o, hserved, hbatch⟩ := hasks.served script hmerge hfilter
  refine ⟨fun hkind hroom rest => ?_, fun hkind => ?_⟩
  · have hk : t.kind? = some .discovery := hkind ▸ hasks.kind?
    obtain ⟨hdone, hdelivered⟩ := h.discovery_reports hscript hasks.task hasks.fresh hk hserved
    obtain ⟨hcall, -⟩ := Changes.eq_of_isOver (changes_run E w' rest) ⟨_, hdone, rfl⟩
    refine ⟨(phase?_congr hcall).trans hdone, ?_⟩
    rw [← hbatch] at hroom ⊢
    rw [delivered?, events?, hcall]
    exact hdelivered.trans (congrArg some (if_pos hroom))
  · have hk : t.kind? = some .run := hkind ▸ hasks.kind?
    cases t with
    | discover | signal => cases hk
    | run payload launcher protocol =>
      have ho : runOrder w.options protocol payload = .ok o := Option.some.inj hserved.order
      have hinOrder : ∀ rest, (w'.run E rest).InOrder n (.run payload launcher protocol) w.options :=
        fun rest => (h.inOrder_queue hasks.task hasks.fresh ho).changes hscript hserved
          ((changes_of_queue hasks.task hasks.fresh ho).trans (changes_run E w' rest))
      have hreach : ∀ rest, Reachable E ambient {} (w'.run E rest) := (h.step _).run
      refine ⟨h.new_run_succeeds hscript hasks.task hasks.fresh hserved, fun rest hquiet => ⟨?_, ?_⟩⟩
      · exact fun result hdone =>
          (hreach rest).run_reports hk hserved (hinOrder rest) hdone hquiet
      · exact (hreach rest).run_succeeds hscript hk hserved (hinOrder rest) hquiet

/-- Lets each run sleep, and then wait for a permit. -/
def slow : Script := { catalogue := Catalogue.sample, delay := some 5, gated := true }

def quickTests : Inquiry where
  sources := ["calc.dll"]
  runSettings :=
    "<RunSettings><RunConfiguration><BatchSize>1</BatchSize></RunConfiguration></RunSettings>"
  designMode := false
  batchSize := 10
  filter := some "TestCategory!=Slow"

/-- The filter is that of the call. -/
def listing : List (Step Outside) := [
  .issue (.discover ⟨["calc.dll"], quickTests.runSettings, some "TestCategory!=Slow"⟩ ⟨6⟩)]

/-- The filter is that of the options. -/
def running : List (Step Outside) := [
  .setOptions { filter := some "TestCategory!=Slow" },
  .issue (.run ⟨["calc.dll"], quickTests.runSettings, none⟩ none ⟨6⟩)]

theorem quick_tests_are_listed_and_run :
    let E := Catalogue.engine slow
    let start := World.start {} {}
    ∃ parts : List (List TestCase),
      parts.flatten.map TestCase.fullyQualifiedName = ["Calc.Tests.Add", "Calc.Tests.Overflow"] ∧
      InParts 1 parts ∧
      ((start.run E listing).apply E (.resume 0)).Succeeded 0
        (parts.map .testsDiscovered ++ [.discoveryCompleted 2 false]) ∧
      ((start.run E running).run E (patience slow 0)).Succeeded 0
        [.testsExecuted ["Calc.Tests.Add", "Calc.Tests.Overflow"], .runCompleted 2 false false] := by
  intro E start
  have hmerge : Settings.merge quickTests.runSettings false 10 = .ok
      ⟨"<RunSettings><RunConfiguration><BatchSize>1</BatchSize><DesignMode>False</DesignMode>" ++
        "<CollectSourceInformation>False</CollectSourceInformation></RunConfiguration>" ++
        "</RunSettings>", 1⟩ := by decide +kernel
  have hfilter : quickTests.filter.mapM (fun text => Expression.parse text.toList) =
      .ok (some (.leaf ⟨"TestCategory", .notEqual, "Slow"⟩)) := by decide +kernel
  obtain ⟨parts, hflat, hparts, hall⟩ :=
    discovery_and_run_find_same_tests slow quickTests ⟨rfl, rfl, rfl⟩ hmerge hfilter
  have hnames : parts.flatten.map TestCase.fullyQualifiedName =
      ["Calc.Tests.Add", "Calc.Tests.Overflow"] := by
    rw [hflat]
    decide +kernel
  have hlength : parts.flatten.length = 2 :=
    (List.length_map _).symm.trans (congrArg List.length hnames)
  have hroom : (listed parts).length ≤ Catalogue.capacity := by
    have hle := Catalogue.length_le_length_flatten (hparts.length_pos (Nat.le_max_left ..))
    rw [hlength] at hle
    simp only [listed, List.length_append, List.length_map, List.length_singleton,
      Catalogue.capacity]
    omega
  obtain ⟨hlisted, -⟩ := hall {} listing 0 _ _
    ⟨rfl, rfl, rfl, rfl, rfl, rfl, rfl, rfl, rfl, by rintro _ ⟨⟩⟩
  obtain ⟨-, hrun⟩ := hall {} running 0 _ _
    ⟨rfl, rfl, rfl, rfl, rfl, rfl, rfl, rfl, rfl, by rintro _ ⟨⟩⟩
  refine ⟨parts, hnames, hparts, ?_, ?_⟩
  · have hreport := hlisted rfl hroom []
    rwa [listed, hlength] at hreport
  · have hreport := (hrun rfl).1 rfl
    rwa [executed, hnames, hlength] at hreport

end World
end Proctor.Manager
