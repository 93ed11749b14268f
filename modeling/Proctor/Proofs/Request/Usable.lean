import Proctor.Proofs.Engine.Selection
import Proctor.Proofs.Settings.Merge
import Proctor.Proofs.Settings.Verdict

/-! # What valid options guarantee

The options that pass validation can be fallen back on: every order made with them reports at least
one test at a time, and one that takes its filter from them is not rejected for it. -/

namespace Proctor

/-! ### Valid options -/

theorem Options.validate_eq_ok {o : Options} :
    o.validate = .ok () ↔ o.batchSize ≠ 0 ∧ o.requestTimeout ≠ 0 ∧
      ∀ text ∈ o.filter, ∃ e, Filter.Expression.parse text.toList = .ok e := by
  obtain ⟨designMode, filter, batchSize, requestTimeout, telemetryOptedIn⟩ := o
  by_cases hsize : batchSize = 0
  · simp [validate, hsize, throw, throwThe, MonadExceptOf.throw, bind, Except.bind]
  by_cases htimeout : requestTimeout = 0
  · simp [validate, htimeout, hsize, throw, throwThe, MonadExceptOf.throw, bind, Except.bind]
  cases filter with
  | none => simp [validate, hsize, htimeout, pure, Except.pure]
  | some text =>
    cases hparse : Filter.Expression.parse text.toList <;>
      simp [validate, hsize, htimeout, hparse, Except.mapError, discard, Functor.discard,
        Functor.mapConst, Except.map]

/-- A batch size in run settings is positive. -/
theorem Settings.pos_of_inspect {xml : List Char} {info : Settings.Info} {n : Nat}
    (h : Settings.inspect xml = .ok info) (hn : info.batchSize = some n) : 1 ≤ n := by
  obtain ⟨-, i, -, hi⟩ := Settings.inspectReading_eq_ok.1 h
  obtain ⟨-, -, -, hshown⟩ := Settings.Inspection.conclude_eq_ok_iff.1 hi
  obtain ⟨text, -, _, _, -, -, -, -, -, hpos, -⟩ := ((hshown .batchSize).2 n).1 hn
  exact hpos

namespace Request
open Proctor.Filter

section
variable {options : Options} {xml : String} {m : Settings.Merged} {o : Order}

/-- Whatever run settings are merged, the batch size that comes of it is positive. -/
theorem pos_of_merge (h : options.validate = .ok ())
    (hm : Settings.merge xml options.designMode options.batchSize = .ok m) : 1 ≤ m.batchSize := by
  obtain ⟨hsize, -⟩ := Options.validate_eq_ok.1 h
  obtain ⟨info, hinfo, rfl⟩ := Settings.exists_of_merge hm
  cases hn : info.batchSize with
  | none => exact Nat.pos_of_ne_zero hsize
  | some n => exact Settings.pos_of_inspect hinfo hn

/-! ### Orders with a filter that can be read -/

def Criteria.unfiltered (c : Criteria) : Criteria := { c with filter := none }

def Order.unfiltered (o : Order) : Order := { o with criteria := o.criteria.unfiltered }

/-- The filter of an order is no reason to reject it: it has no error, whatever makes the matchers,
and an engine for a catalogue answers as it would without the filter. -/
structure Order.FilterAccepted (o : Order) : Prop where
  error?_eq : ∀ source, ∀ s ∈ o.criteria.selection source, s.error? = none
  create_eq : ∀ script s id launcher,
    (Catalogue.create script s id o launcher).result =
      (Catalogue.create script s id o.unfiltered launcher).result

/-- Orders that differ in their filter alone, each of which selects some tests, are answered alike. -/
theorem create_result_of_select {script : Catalogue.Script} {selected : List TestCase}
    (h : Catalogue.select script.catalogue o.criteria = .ok selected) (s : Catalogue.State) (id : Nat)
    (launcher : Option Launcher) :
    (Catalogue.create script s id o launcher).result =
      (Catalogue.create script s id o.unfiltered launcher).result := by
  obtain ⟨listed, hlisted⟩ : ∃ listed,
      Catalogue.select script.catalogue o.unfiltered.criteria = .ok listed := ⟨_, rfl⟩
  have hkind : o.unfiltered.kind = o.kind := rfl
  have hsources : o.unfiltered.criteria.sources = o.criteria.sources := rfl
  cases hfailure : script.createFailure with
  | some e => simp only [Catalogue.create, hfailure]
  | none =>
    simp only [Catalogue.create, hfailure, h, hlisted, hkind, hsources]
    -- what comes before the selection is the same for both
    cases o.kind with
    | discovery => rfl
    | run =>
      cases launcher with
      | none => rfl
      | some l => cases hl : l.launch ⟨"testhost", o.criteria.sources⟩ <;> simp [hl] <;> rfl

/-- The ambient filter of valid options is a filter. -/
theorem filterAccepted_of_ambient (h : options.validate = .ok ())
    (hfilter : o.criteria.filter = options.filter)
    (hplain : o.criteria.filterOptions.bind FilterOptions.regex = none) : o.FilterAccepted := by
  obtain ⟨-, -, hparse⟩ := Options.validate_eq_ok.1 h
  have hread : ∃ filter, o.criteria.filter.mapM (fun text => Expression.parse text.toList) =
      .ok filter := by
    rw [hfilter]
    cases htext : options.filter with
    | none => exact ⟨none, rfl⟩
    | some text =>
      obtain ⟨e, he⟩ := hparse text htext
      exact ⟨some e, by simp [he, Functor.map, Except.map]⟩
  obtain ⟨filter, hread⟩ := hread
  refine ⟨fun source s hs => ?_, fun script s id launcher => ?_⟩
  · obtain ⟨text, htext, rfl⟩ := Option.map_eq_some_iff.1 hs
    obtain ⟨e, he⟩ := hparse text (hfilter ▸ htext)
    rw [Selection.error?, Selection.rule_of_parse source he hplain]
  · exact create_result_of_select (Catalogue.select_eq_chosen hread hplain) s id launcher

end

/-- With valid options, every order reports at least one test at a time. If its payload brings no
filter of its own and no regular expression, the filter of the order is no reason to reject it. -/
theorem valid_options_are_usable {options : Options} (h : options.validate = .ok ()) :
    (∀ protocol (p : DiscoveryPayload) o, discoveryOrder options protocol p = .ok o →
      1 ≤ o.criteria.batchSize ∧ (p.filter = none → o.FilterAccepted)) ∧
    ∀ protocol (p : RunPayload) o, runOrder options protocol p = .ok o →
      1 ≤ o.criteria.batchSize ∧
        (p.platformOptions.bind PlatformOptions.filter = none →
          (p.platformOptions.bind PlatformOptions.filterOptions).bind FilterOptions.regex = none →
          o.FilterAccepted) := by
  refine ⟨fun protocol p o ho => ?_, fun protocol p o ho => ?_⟩
  · obtain ⟨m, hm, ho⟩ := bind_eq_ok.1 ho
    obtain rfl := pure_eq_ok.1 ho
    refine ⟨pos_of_merge h hm, fun hfilter => filterAccepted_of_ambient h ?_ rfl⟩
    simp [order, hfilter]
  · obtain ⟨m, hm, ho⟩ := bind_eq_ok.1 ho
    obtain rfl := pure_eq_ok.1 ho
    refine ⟨pos_of_merge h hm, fun hfilter hplain => filterAccepted_of_ambient h ?_ hplain⟩
    simp [order, hfilter]

theorem ambient_filter_is_accepted :
    let options : Options := { filter := some "Category!=Slow", batchSize := 7 }
    let payload : RunPayload :=
      ⟨["calc.dll"], "<RunSettings/>", some ⟨none, some ⟨none, some "$1"⟩, false⟩⟩
    options.validate = .ok () ∧ ∃ o, runOrder options ⟨1⟩ payload = .ok o ∧
      o.criteria.filter = some "Category!=Slow" ∧ 1 ≤ o.criteria.batchSize ∧ o.FilterAccepted := by
  intro options payload
  have hvalid : options.validate = .ok () := by decide +kernel
  have hinspect : Settings.inspect payload.runSettings.toList = .ok ⟨none, false, none, none⟩ := by
    decide +kernel
  have hm := Settings.merge_of_ok hinspect options.designMode options.batchSize
  obtain ⟨o, ho, hfilter⟩ : ∃ o, runOrder options ⟨1⟩ payload = .ok o ∧
      o.criteria.filter = some "Category!=Slow" := ⟨_, bind_eq_ok.2 ⟨_, hm, rfl⟩, rfl⟩
  obtain ⟨hsize, husable⟩ := (valid_options_are_usable hvalid).2 ⟨1⟩ payload o ho
  exact ⟨hvalid, o, ho, hfilter, hsize, husable rfl rfl⟩

end Request
end Proctor
