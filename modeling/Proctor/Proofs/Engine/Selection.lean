import Proctor.Proofs.Engine.Catalogue
import Proctor.Proofs.Filter.Listing

/-! # What an obliging catalogue engine selects

An engine that no script makes fail accepts each order whose filter can be read, selects the tests
that the filter holds of, and reports them in parts. -/

namespace Proctor.Catalogue
open Proctor.Request Proctor.Filter

/-! ### Parts of a list -/

/-- All parts but the last have this size, and the last is not empty and no larger. -/
structure InParts {α : Type} (size : Nat) (parts : List (List α)) : Prop where
  full : ∀ part ∈ parts.dropLast, part.length = size
  last : ∀ part ∈ parts.getLast?, 0 < part.length ∧ part.length ≤ size

theorem InParts.length_pos {α : Type} {size : Nat} {parts : List (List α)} (h : InParts size parts)
    (hsize : 0 < size) : ∀ part ∈ parts, 0 < part.length := by
  intro part hpart
  rcases parts.eq_nil_or_concat' with rfl | ⟨front, last, rfl⟩
  · cases hpart
  · rcases List.mem_append.1 hpart with hfront | hlast
    · rw [h.full part (by rwa [List.dropLast_concat])]
      exact hsize
    · obtain rfl := List.mem_singleton.1 hlast
      exact (h.last part (by simp)).1

theorem length_le_length_flatten {α : Type} {parts : List (List α)}
    (h : ∀ part ∈ parts, 0 < part.length) : parts.length ≤ parts.flatten.length := by
  induction parts with
  | nil => exact Nat.zero_le _
  | cons part parts ih =>
    obtain ⟨hpart, hparts⟩ := List.forall_mem_cons.1 h
    have hle := ih hparts
    rw [List.length_cons, List.flatten_cons, List.length_append]
    omega

theorem batches_of_ne_nil {α : Type} (size : Nat) {l : List α} (h : l ≠ []) :
    batches size l = l.take (size + 1) :: batches size (l.drop (size + 1)) := by
  rw [batches, dif_neg h]

theorem flatten_batches {α : Type} (size : Nat) (l : List α) : (batches size l).flatten = l := by
  induction l using batches.induct size with
  | case1 => rw [batches, dif_pos rfl, List.flatten_nil]
  | case2 l hl ih => rw [batches_of_ne_nil size hl, List.flatten_cons, ih, List.take_append_drop]

theorem inParts_batches {α : Type} (size : Nat) (l : List α) :
    InParts (size + 1) (batches size l) := by
  induction l using batches.induct size with
  | case1 => rw [batches, dif_pos rfl]; exact ⟨by simp, by simp⟩
  | case2 l hl ih =>
    have hpos : 0 < l.length := List.length_pos_iff.2 hl
    rw [batches_of_ne_nil size hl]
    by_cases hrest : l.drop (size + 1) = []
    · have hle : l.length ≤ size + 1 := List.drop_eq_nil_iff.1 hrest
      rw [hrest, batches, dif_pos rfl]
      exact ⟨by simp, by simp [hpos, hle]⟩
    · have hlt : size + 1 < l.length := by simpa using hrest
      have hlength : (l.take (size + 1)).length = size + 1 := by
        rw [List.length_take]
        omega
      rw [batches_of_ne_nil size hrest] at ih ⊢
      refine ⟨?_, ih.last⟩
      rw [List.dropLast_cons_cons, List.forall_mem_cons]
      exact ⟨hlength, ih.full⟩

/-! ### Selection -/

/-- The engine fails at no stage. -/
structure Script.Obliging (script : Script) : Prop where
  create : script.createFailure = none
  discovery : script.discoveryFailure = none
  execution : script.executionFailure = none

/-- The tests of the listed sources that the filter holds of, if there is one. -/
def chosen (catalogue : List TestCase) (sources : List String) (filter : Option Expression) :
    List TestCase :=
  catalogue.filter fun t => sources.contains t.source && filter.all fun e => e.holds t.property

theorem select_eq_chosen {catalogue : List TestCase} {c : Criteria} {filter : Option Expression}
    (hparse : c.filter.mapM (fun text => Expression.parse text.toList) = .ok filter)
    (hplain : c.filterOptions.bind FilterOptions.regex = none) :
    select catalogue c = .ok (chosen catalogue c.sources filter) := by
  cases hc : c.filter with
  | none =>
    rw [hc] at hparse
    obtain rfl : none = filter := pure_eq_ok.1 hparse
    simp [select, Criteria.selection, hc, chosen]
  | some text =>
    rw [hc] at hparse
    obtain ⟨e, he, hsome⟩ := bind_eq_ok.1 hparse
    obtain rfl : some e = filter := pure_eq_ok.1 hsome
    have hrule := Selection.rule_of_parse patterns he hplain
    have hselects : ∀ t : TestCase, Id.run ((Selection.ofText patterns text c.filterOptions).selects
        fun name => pure (t.property name)) = e.holds t.property :=
      Selection.selectsTest_of_rule hrule
    simp only [select, Criteria.selection, hc, Option.map_some, Selection.error?, hrule, hselects,
      chosen, List.filter_filter, Option.all_some, Bool.and_comm]

/-! ### Orders -/

section
variable {script : Script} {s : State} {id : Nat} {o : Order} {launcher : Option Launcher}
  {selected : List TestCase}

/-- What the engine knows of a request that it has accepted. -/
theorem create_of_select (hscript : script.Obliging)
    (hselect : select script.catalogue o.criteria = .ok selected)
    (hlaunch : ∀ l ∈ launcher, ∃ process, l.launch ⟨"testhost", o.criteria.sources⟩ = .ok process) :
    (create script s id o launcher).result = .ok () ∧
      (create script s id o launcher).state = match o.kind with
        | .discovery =>
          { s with discoveries := s.discoveries ++ [⟨id, selected, o.criteria.batchSize⟩] }
        | .run => { s with runs := s.runs ++ [{ id, selected }] } := by
  cases hkind : o.kind with
  | discovery =>
    simp only [create, hscript.create, hkind, hselect]
    exact ⟨rfl, rfl⟩
  | run =>
    cases launcher with
    | none =>
      simp only [create, hscript.create, hkind, hselect]
      exact ⟨rfl, rfl⟩
    | some l =>
      obtain ⟨process, hl⟩ := hlaunch l rfl
      simp only [create, hscript.create, hkind, hselect, hl]
      exact ⟨rfl, rfl⟩

/-- An engine that fails at no stage brings every request to a good end. -/
theorem resume_eq_ok (hscript : script.Obliging) {now : Nat} {r : Except EngineError Unit}
    (h : (resume script s now id).result = some r) : r = .ok () := by
  unfold resume at h
  split at h
  · rw [resumeRun_eq] at h
    split at h
    · cases h
    · split at h
      · cases h
      · rw [hscript.execution] at h
        exact (Option.some.inj h).symm
  · split at h
    · rw [hscript.discovery] at h
      exact (Option.some.inj h).symm
    · cases h

end
end Proctor.Catalogue
