import Proctor.Proofs.Filter.Display
import Proctor.Proofs.Filter.Options
import Proctor.TestCase

/-! # Filters that list names

Names that are escaped and listed with `|` between are read as the set of these names, but for the
blanks around them, whatever characters they have. Such a filter selects the tests of these names. -/

namespace Proctor.Filter
open Proctor.Text

/-! ### Alternatives -/

/-- Conditions with `|` between, behind a filter. -/
def otherwise (cs : List Condition) : List Terminal :=
  cs.flatMap fun c => [.connective .or, .condition c]

theorem derives_otherwise {ts : List Terminal} {tree : Expression} (h : Derives .filter ts tree)
    (cs : List Condition) : ∃ tree', Derives .filter (ts ++ otherwise cs) tree' := by
  induction cs generalizing ts tree with
  | nil => exact ⟨tree, by simpa [otherwise] using h⟩
  | cons c cs ih =>
    have hc : Derives .filter (ts ++ [.connective .or, .condition c]) _ :=
      h.snoc (.single (.condition c))
    obtain ⟨tree', h'⟩ := ih hc
    exact ⟨tree', by simpa [otherwise] using h'⟩

theorem conditions_otherwise (cs : List Condition) : conditions (otherwise cs) = cs := by
  induction cs with
  | nil => rfl
  | cons c cs ih => exact congrArg (c :: ·) ih

theorem and_notMem_otherwise (cs : List Condition) : .connective .and ∉ otherwise cs := by
  simp [otherwise]

/-- Alternatives as they are written: each with a `|` in front. -/
theorem written_otherwise {cs : List Condition} (h : ∀ c ∈ cs, ¬ allBlank c.name.toList) :
    Written (otherwise (cs.map Condition.trimmed)) (cs.flatMap fun c => '|' :: c.render) := by
  induction cs with
  | nil => exact .blank allBlank_nil
  | cons c cs ih =>
    obtain ⟨hc, hcs⟩ := List.forall_mem_cons.1 h
    have hcondition : Written (.condition c.trimmed :: otherwise (cs.map Condition.trimmed)) _ :=
      .cons (p := []) rfl ⟨c.not_hasSeparator_render, Condition.parse_render hc⟩ (ih hcs)
    have hor := Written.cons (t := .connective .or) (p := []) (s := ['|']) rfl rfl hcondition
    simpa [otherwise] using hor

/-- Equalities on one property with `|` between are read as the set of their values, without the
blanks around these. -/
theorem parse_alternatives {c : Condition} {cs : List Condition} {name : String}
    (hblank : ¬ allBlank name.toList) (htrim : String.ofList (trim name.toList) = name)
    (h : ∀ d ∈ c :: cs, d.operation = .equal ∧ d.name = name) :
    ∃ set, Expression.parse (c.render ++ cs.flatMap fun d => '|' :: d.render) = .ok (.oneOf set) ∧
      set.name = name ∧
      ∀ v, v ∈ set.values ↔ ∃ d ∈ c :: cs, String.ofList (trim d.value.toList) = v := by
  have hnames : ∀ d ∈ c :: cs, ¬ allBlank d.name.toList := by
    intro d hd
    rwa [(h d hd).2]
  obtain ⟨hc, hcs⟩ := List.forall_mem_cons.1 hnames
  obtain ⟨tree, htree⟩ := derives_otherwise (Derives.filter_of_atom (.condition c.trimmed))
    (cs.map Condition.trimmed)
  have hwritten : Written ([.condition c.trimmed] ++ otherwise (cs.map Condition.trimmed)) _ :=
    .cons (p := []) rfl ⟨c.not_hasSeparator_render, Condition.parse_render hc⟩
      (written_otherwise hcs)
  obtain ⟨set, hset, hf⟩ :=
    ofTokens_of_derives (hwritten.terminals_ofText htree.alternates.separated) htree
  have hleaves : tree.leaves = (c :: cs).map Condition.trimmed := by
    rw [hf.leaves, conditions_append, conditions_otherwise]
    rfl
  have hlists : tree.Lists name := by
    refine ⟨fun hand => ?_, fun d hd => ?_⟩
    · have hmem := hf.and_mem_iff.1 hand
      simp [and_notMem_otherwise] at hmem
    · rw [hleaves, List.mem_map] at hd
      obtain ⟨d, hd, rfl⟩ := hd
      obtain ⟨hop, hname⟩ := h d hd
      exact ⟨hop, by rw [Condition.trimmed, hname, htrim]⟩
  cases set with
  | none => exact absurd ⟨name, hlists⟩ hf.not_lists_of_none
  | some s =>
    obtain ⟨hs, hmem⟩ := hf.lists_of_some
    refine ⟨s, Expression.parse_eq_ok.2 ⟨tree, some s, hset, rfl⟩, hs.name_eq hf.isTree hlists, ?_⟩
    intro v
    rw [hmem, hleaves]
    simp [Condition.trimmed]

/-! ### Names -/

/-- The filter for tests by their full names. -/
def listing (names : List String) : List Char :=
  ['|'].intercalate (names.map fun name => "FullyQualifiedName=".toList ++ escape name.toList)

def nameIs (name : String) : Condition := ⟨fullyQualifiedName, .equal, name⟩

theorem render_nameIs (name : String) :
    (nameIs name).render = "FullyQualifiedName=".toList ++ escape name.toList := by
  have hname : escape fullyQualifiedName.toList ++ Operation.equal.symbol =
      "FullyQualifiedName=".toList := by decide
  rw [Condition.render, ← hname]
  rfl

theorem listing_cons (name : String) (names : List String) :
    listing (name :: names) =
      (nameIs name).render ++ (names.map nameIs).flatMap fun c => '|' :: c.render := by
  induction names generalizing name with
  | nil => simp [listing, render_nameIs]
  | cons other names ih =>
    have hcut : listing (name :: other :: names) =
        (nameIs name).render ++ '|' :: listing (other :: names) := by
      simp [listing, render_nameIs, List.intercalate_cons_cons]
    rw [hcut, ih]
    simp

/-- A list of names is read as the set of these names, without the blanks around them. -/
theorem parse_listing {names : List String} (hne : names ≠ []) :
    ∃ set, Expression.parse (listing names) = .ok (.oneOf set) ∧ set.name = fullyQualifiedName ∧
      ∀ v, v ∈ set.values ↔ ∃ name ∈ names, String.ofList (trim name.toList) = v := by
  cases names with
  | nil => exact absurd rfl hne
  | cons name names =>
    have hall : ∀ d ∈ nameIs name :: names.map nameIs,
        d.operation = .equal ∧ d.name = fullyQualifiedName := by
      simp [nameIs]
    obtain ⟨set, hset, hname, hvalues⟩ := parse_alternatives (by decide) (by decide) hall
    rw [← listing_cons] at hset
    refine ⟨set, hset, hname, fun v => ?_⟩
    rw [hvalues]
    simp [nameIs]

namespace Selection

/-- Whether a test is selected. -/
def selectsTest (s : Selection) (t : TestCase) : Bool :=
  Id.run (s.selects fun name => pure (t.property name))

theorem selectsTest_of_rule {s : Selection} {e : Expression} (h : s.rule = .ok ⟨e, none⟩)
    (t : TestCase) : s.selectsTest t = e.holds t.property := by
  simp only [selectsTest, selects, h]
  rfl

theorem selectsTest_of_none {s : Selection} (h : s.expression? = none) (t : TestCase) :
    s.selectsTest t = false := by
  rw [selectsTest, selects_of_none h]
  rfl

theorem selectsTest_of_parse {text : List Char} {e : Expression}
    (h : Expression.parse text = .ok e) (source : MatcherSource) (t : TestCase) :
    (ofText source (String.ofList text) none).selectsTest t = e.holds t.property :=
  selectsTest_of_rule (rule_of_parse source (by rwa [String.toList_ofList]) rfl) t

end Selection

/-- A set of full names holds of the tests that have one of them. -/
theorem FastSet.holds_fullyQualifiedName {set : FastSet} (h : set.name = fullyQualifiedName)
    (t : TestCase) :
    (Expression.oneOf set).holds t.property ↔ t.fullyQualifiedName ∈ set.values := by
  have hnot : Filter.isNormalized fullyQualifiedName = false := by decide
  have hproperty : t.property fullyQualifiedName = some (.single t.fullyQualifiedName) :=
    if_pos (by decide)
  have hlookup : set.lookupName = fullyQualifiedName := by
    simp [lookupName, Filter.lookupName, h, hnot]
  rw [Expression.holds_oneOf, hlookup, hproperty]
  simp [FastSet.holds, isNormalized, h, hnot, PropertyValue.toList, ValueSet.contains_iff]

/-- Names that are escaped, whatever characters they have, and listed in a filter are read as a set,
and the filter selects exactly the tests with one of these names, without the blanks around it. -/
theorem escaped_names_select_themselves (source : MatcherSource) {names : List String}
    (hne : names ≠ []) :
    (∃ set, Expression.parse (listing names) = .ok (.oneOf set)) ∧
      ∀ t : TestCase,
        (Selection.ofText source (String.ofList (listing names)) none).selectsTest t ↔
          ∃ name ∈ names, t.fullyQualifiedName = String.ofList (trim name.toList) := by
  obtain ⟨set, hset, hname, hvalues⟩ := parse_listing hne
  refine ⟨⟨set, hset⟩, fun t => ?_⟩
  rw [Selection.selectsTest_of_parse hset, FastSet.holds_fullyQualifiedName hname, hvalues]
  simp only [eq_comm]

theorem special_characters_select_themselves :
    let names := ["Ns.M(a=1, b|c)", " \\!~ "]
    let selection := Selection.ofText patterns (String.ofList (listing names)) none
    listing names = "FullyQualifiedName=Ns.M\\(a\\=1, b\\|c\\)|FullyQualifiedName= \\\\\\!\\~ ".toList ∧
      selection.selectsTest (.named "Ns.M(a=1, b|c)" "") ∧ selection.selectsTest (.named "\\!~" "") ∧
      ¬ selection.selectsTest (.named "Ns.M" "") := by
  intro names selection
  have hne : names ≠ [] := by decide
  have hiff := (escaped_names_select_themselves patterns hne).2
  refine ⟨by decide, (hiff _).2 ?_, (hiff _).2 ?_, fun h => ?_⟩
  · exact ⟨_, List.mem_cons_self .., by decide⟩
  · exact ⟨_, List.mem_cons_of_mem _ (List.mem_cons_self ..), by decide⟩
  · exact absurd ((hiff _).1 h) (by decide)

end Proctor.Filter
