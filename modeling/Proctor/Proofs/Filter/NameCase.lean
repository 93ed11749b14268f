import Proctor.Proofs.Filter.Listing
import Proctor.Proofs.Filter.SmallLetters

/-! # The case of property names

Properties are looked up without regard to the case of their names, but whether a filter is a set
depends on how the names are spelled. Set or tree, a filter selects the same tests under every
spelling of its names. -/

namespace Proctor
open Proctor.Text

/-! ### Names in small letters -/

theorem Text.toLower_toLower (c : Char) : c.toLower.toLower = c.toLower := by
  by_cases hc : c.isUpper
  · have hrange := isUpper_iff.1 hc
    refine toLower_of_not_isUpper ?_
    rw [isUpper_iff, toNat_toLower hc]
    omega
  · rw [toLower_of_not_isUpper hc, toLower_of_not_isUpper hc]

theorem Text.sameName_lower (a : String) : sameName (String.ofList (lower a)) a := by
  rw [sameName_iff, lower, String.toList_ofList, lower, List.map_map]
  exact List.map_congr_left fun c _ => toLower_toLower c

theorem Text.sameName_congr {a b : String} (h : sameName a b) (c : String) :
    sameName a c = sameName b c := by
  rw [sameName, sameName_iff.1 h]
  rfl

theorem TestCase.property_congr {a b : String} (h : sameName a b) (t : TestCase) :
    t.property a = t.property b := by
  have hname (name : String) : sameName name a = sameName name b := by
    rw [sameName_comm, sameName_congr h, sameName_comm]
  have htraits : t.traitValues a = t.traitValues b := by simp only [traitValues, hname]
  unfold property
  rw [sameName_congr h, sameName_congr h, sameName_congr h, htraits]

namespace Filter

theorem isNormalized_congr {a b : String} (h : sameName a b) : isNormalized a = isNormalized b :=
  sameName_congr h normalizedName

theorem sameName_lookupName {a b : String} (h : sameName a b) :
    sameName (lookupName a) (lookupName b) := by
  unfold lookupName
  rw [isNormalized_congr h]
  split
  · exact sameName_refl _
  · exact h

namespace Condition

/-- The condition with its name in small letters. -/
def caseless (c : Condition) : Condition := { c with name := String.ofList (lower c.name) }

theorem holds_caseless (c : Condition) (answer : Option PropertyValue) :
    c.caseless.holds answer = c.holds answer := by
  have hname : c.caseless.isNormalized = c.isNormalized :=
    isNormalized_congr (sameName_lower c.name)
  have hcandidates : c.caseless.candidates answer = c.candidates answer := by
    simp only [candidates, hname]
  simp only [holds, hcandidates]
  rfl

theorem caseless_eq_of_lowered {c d : Condition} (h : c.lowered = d.lowered)
    (hvalue : c.value = d.value) : c.caseless = d.caseless := by
  obtain ⟨hname, hop, -⟩ := Condition.mk.inj h
  simp only [caseless, hname, hop, hvalue]

end Condition

theorem Expression.holds_mapLeaves_caseless (e : Expression) (t : TestCase) :
    (e.mapLeaves Condition.caseless).holds t.property = e.holds t.property := by
  induction e with
  | leaf c =>
    have hsame : sameName c.caseless.lookupName c.lookupName :=
      sameName_lookupName (sameName_lower c.name)
    rw [mapLeaves, holds_leaf, holds_leaf, c.holds_caseless, t.property_congr hsame]
  | binary op left right ihl ihr => rw [mapLeaves, holds_binary, holds_binary, ihl, ihr]
  | oneOf set => rfl

/-! ### Filters with recased names -/

/-- The text behind the operator of a piece, if it has a single one. -/
def valueText? (piece : List Char) : Option (List Char) :=
  match (Cut.ofText piece).tail with
  | [(_, value)] => some value
  | _ => none

/-- The texts of the values in a filter text. -/
def valueTexts (text : List Char) : List (List Char) :=
  ((Token.ofText text).flatMap Token.pieces).filterMap valueText?

/-- Two texts that differ at most in the case of letters, and not in those of their values. What is
left are the letters of names, since nothing else in a filter is a letter. -/
structure Recased (f g : List Char) : Prop where
  letters : small f = small g
  values : valueTexts f = valueTexts g

/-- The value that a text behind an operator is read as. -/
def readValue? (text : List Char) : Option String := (unescape (trim text)).map String.ofList

theorem values_of_mapM {pieces : List (List Char)} {cs : List Condition}
    (h : pieces.mapM Condition.parse = .ok cs) :
    cs.map Condition.value = (pieces.filterMap valueText?).filterMap readValue? := by
  induction pieces generalizing cs with
  | nil =>
    obtain rfl := pure_eq_ok.1 h
    rfl
  | cons piece pieces ih =>
    obtain ⟨c, cs, hc, hcs, rfl⟩ := mapM_cons_eq_ok.1 h
    obtain ⟨front, back, hcut, -, -, hvalue⟩ := Condition.parse_eq_ok.1 hc
    have hback : valueText? piece = some back := by rw [valueText?, hcut]
    have hread : readValue? back = some c.value := by simp [readValue?, hvalue]
    rw [List.filterMap_cons_some hback, List.filterMap_cons_some hread, List.map_cons, ih hcs]

theorem map_caseless_eq {ts us : List Terminal}
    (h : ts.map (Terminal.mapCondition Condition.lowered) =
      us.map (Terminal.mapCondition Condition.lowered))
    (hvalues : (conditions ts).map Condition.value = (conditions us).map Condition.value) :
    ts.map (Terminal.mapCondition Condition.caseless) =
      us.map (Terminal.mapCondition Condition.caseless) := by
  induction ts generalizing us with
  | nil =>
    obtain rfl := List.map_eq_nil_iff.1 h.symm
    rfl
  | cons t ts ih =>
    cases us with
    | nil => cases h
    | cons u us =>
      obtain ⟨hhead, htail⟩ := List.cons.inj h
      match t, u, hhead, hvalues with
      | .condition c, .condition d, hhead, hvalues =>
        obtain ⟨hvalue, hrest⟩ := List.cons.inj hvalues
        have hcaseless := Condition.caseless_eq_of_lowered (Terminal.condition.inj hhead) hvalue
        rw [List.map_cons, List.map_cons, ih htail hrest]
        exact congrArg (Terminal.condition · :: _) hcaseless
      | .connective _, .connective _, rfl, hvalues =>
        rw [List.map_cons, List.map_cons, ih htail hvalues]
      | .opening, .opening, _, hvalues | .closing, .closing, _, hvalues =>
        rw [List.map_cons, List.map_cons, ih htail hvalues]

namespace Recased
variable {f g : List Char} {ts us : List Terminal}

theorem symm (h : Recased f g) : Recased g f := ⟨h.letters.symm, h.values.symm⟩

theorem hasEmptyParenthesis_eq (h : Recased f g) :
    Token.hasEmptyParenthesis (Token.ofText f) = Token.hasEmptyParenthesis (Token.ofText g) := by
  rw [← Token.hasEmptyParenthesis_lowered, ← Token.ofText_small, h.letters, Token.ofText_small,
    Token.hasEmptyParenthesis_lowered]

/-- The texts have the same conditions in the same places, but for the case of their names. -/
theorem exists_terminals (h : Recased f g) (hts : terminals (Token.ofText f) = .ok ts) :
    ∃ us, terminals (Token.ofText g) = .ok us ∧
      ts.map (Terminal.mapCondition Condition.caseless) =
        us.map (Terminal.mapCondition Condition.caseless) := by
  have hsmall := terminals_small.2 ⟨ts, hts, rfl⟩
  rw [h.letters] at hsmall
  obtain ⟨us, hus, hlowered⟩ := terminals_small.1 hsmall
  have hvalues : (conditions ts).map Condition.value = (conditions us).map Condition.value := by
    rw [values_of_mapM (mapM_pieces hts), values_of_mapM (mapM_pieces hus)]
    exact congrArg _ h.values
  exact ⟨us, hus, map_caseless_eq hlowered.symm hvalues⟩

/-- If one is a filter, so is the other, and both hold of the same tests. -/
theorem exists_parse (h : Recased f g) {e : Expression} (he : Expression.parse f = .ok e) :
    ∃ e', Expression.parse g = .ok e' ∧
      ∀ t : TestCase, e.holds t.property = e'.holds t.property := by
  obtain ⟨ts, r, tree, hf, rfl⟩ := Accepted.of_parse he
  obtain ⟨us, hus, hcaseless⟩ := h.exists_terminals hf.terminals
  have hmap := operandsLeft_map Condition.caseless us
  rw [← hcaseless, operandsLeft_map, hf.operandsLeft_eq] at hmap
  cases hleft : operandsLeft us with
  | error err =>
    rw [hleft] at hmap
    cases hmap
  | ok xs =>
    rw [hleft] at hmap
    obtain ⟨tree', rfl, htree⟩ := List.map_eq_singleton_iff.1 (Except.ok.inj hmap).symm
    have hempty := hf.parentheses
    rw [h.hasEmptyParenthesis_eq] at hempty
    obtain ⟨r', hg⟩ := exists_accepted hempty hus hleft
    refine ⟨_, hg.parse_eq, fun t => ?_⟩
    rw [hf.faithful.holds_eq, hg.faithful.holds_eq, ← tree.holds_mapLeaves_caseless, ← htree,
      tree'.holds_mapLeaves_caseless]

end Recased

/-- The case of property names has no part in a selection. Of two texts that differ only in it, both
are filters or neither is, and without a pattern they select the same tests from every list, even
where the one is a set and the other a tree. -/
theorem name_case_is_ignored {f g : String} (h : Recased f.toList g.toList) :
    ((∃ e, Expression.parse f.toList = .ok e) ↔ ∃ e, Expression.parse g.toList = .ok e) ∧
      ∀ (source : MatcherSource) (options : Option FilterOptions),
        options.bind FilterOptions.regex = none → ∀ tests : List TestCase,
          tests.filter (Selection.ofText source f options).selectsTest =
            tests.filter (Selection.ofText source g options).selectsTest := by
  refine ⟨⟨fun ⟨e, he⟩ => ?_, fun ⟨e, he⟩ => ?_⟩, fun source options hplain tests => ?_⟩
  · obtain ⟨e', he', -⟩ := h.exists_parse he
    exact ⟨e', he'⟩
  · obtain ⟨e', he', -⟩ := h.symm.exists_parse he
    exact ⟨e', he'⟩
  refine List.filter_congr fun t _ => ?_
  cases hf : Expression.parse f.toList with
  | ok e =>
    obtain ⟨e', hg, hholds⟩ := h.exists_parse hf
    rw [Selection.selectsTest_of_rule (Selection.rule_of_parse source hf hplain),
      Selection.selectsTest_of_rule (Selection.rule_of_parse source hg hplain), hholds]
  | error err =>
    have hg : ∃ err, Expression.parse g.toList = .error err := by
      cases hg : Expression.parse g.toList with
      | error err => exact ⟨err, rfl⟩
      | ok e =>
        obtain ⟨e', he', -⟩ := h.symm.exists_parse hg
        cases hf.symm.trans he'
    rw [Selection.selectsTest_of_none (Selection.expression?_eq_none.2 (.inl ⟨err, hf⟩)),
      Selection.selectsTest_of_none (Selection.expression?_eq_none.2 (.inl hg))]

/-- Names that are spelled alike make a set, and the same names spelled differently a tree. -/
theorem spellings_of_nfqn_select_alike :
    let tests := [TestCase.named "N.A (1)" "a.dll", .named "N.C" "a.dll", .named "N.B" "a.dll"]
    let set : FastSet := ⟨"NFQN", (ValueSet.empty.insert "N.A").insert "N.B"⟩
    let tree : Expression :=
      .binary .or (.leaf ⟨"nfqn", .equal, "N.A"⟩) (.leaf ⟨"Nfqn", .equal, "N.B"⟩)
    Expression.parse "NFQN=N.A|NFQN=N.B".toList = .ok (.oneOf set) ∧
      Expression.parse "nfqn=N.A|Nfqn=N.B".toList = .ok tree ∧
      tests.filter (Selection.ofText patterns "NFQN=N.A|NFQN=N.B" none).selectsTest =
        tests.filter (Selection.ofText patterns "nfqn=N.A|Nfqn=N.B" none).selectsTest := by
  intro tests set tree
  have h : Recased "NFQN=N.A|NFQN=N.B".toList "nfqn=N.A|Nfqn=N.B".toList :=
    ⟨by decide, by decide⟩
  exact ⟨rfl, rfl, (name_case_is_ignored h).2 patterns none rfl tests⟩

end Filter
end Proctor
