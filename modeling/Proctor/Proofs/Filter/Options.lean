import Proctor.Filter.Selection
import Proctor.Proofs.Except
import Proctor.Proofs.Filter.Tree

/-! # What the options of a selection change

A pattern that is none makes the whole selection fail. A pattern that is one transforms values, but
only those that a set tests, and not if it is a set of normalized names: everything else is selected
as without options. -/

namespace Proctor.Filter
open Proctor.Text

/-! ### Transformed values -/

/-- What a value becomes before a set tests it: a given replacement is put in for its first match,
and without one the first match itself stands for the value. A value without a match then becomes
nothing. -/
inductive Rewrites (m : Matcher) : Option String → String → String → Prop
  | replaced (replacement value : String) :
      Rewrites m (some replacement) value (m.replaceFirst replacement value)
  | found {value part : String} (h : m.find value = some part) : Rewrites m none value part

theorem Selection.transformation_eq_some {m : Matcher} {replacement : Option String}
    {value w : String} :
    transformation m replacement value = some w ↔ Rewrites m replacement value w := by
  cases replacement with
  | none => exact ⟨.found, fun | .found h => h⟩
  | some replacement =>
    constructor
    · intro h
      obtain rfl := Option.some.inj h
      exact .replaced replacement value
    · rintro ⟨⟩
      rfl

namespace FastSet
variable {set : FastSet} {transform : String → Option String}

/-- Normalized names are never transformed. -/
theorem holds_of_isNormalized (h : set.isNormalized) (transform : String → Option String) :
    set.holds transform = set.holds some := by
  funext answer
  cases answer <;> simp [holds, h]

theorem holds_iff (h : ¬ set.isNormalized) {answer : Option PropertyValue} :
    set.holds transform answer ↔
      ∃ values v w, answer = some values ∧ v ∈ values.toList ∧ transform v = some w ∧
        w ∈ set.values := by
  cases answer with
  | none => simp [holds]
  | some values => simp [holds, h, Option.any_eq_true, ValueSet.contains_iff]

theorem lookupName_of_not_isNormalized (h : ¬ set.isNormalized) : set.lookupName = set.name :=
  if_neg h

end FastSet

namespace Expression
variable {m : Type → Type} [Monad m]

theorem evaluateTransformed_some (e : Expression) (lookup : String → m (Option PropertyValue)) :
    e.evaluateTransformed some lookup = e.evaluate lookup := by
  cases e <;> rfl

/-- A transformation makes no difference to a tree, nor to a set of normalized names. -/
theorem evaluateTransformed_eq {e : Expression} (h : ∀ set, e = .oneOf set → set.isNormalized)
    (transform : String → Option String) (lookup : String → m (Option PropertyValue)) :
    e.evaluateTransformed transform lookup = e.evaluate lookup := by
  cases e with
  | leaf c => rfl
  | binary op left right => rfl
  | oneOf set =>
    have hset : set.isNormalized := h set rfl
    simp only [evaluateTransformed, evaluate, set.holds_of_isNormalized hset]

end Expression

namespace Selection

/-! ### Selections that can be made -/

section
variable {source : MatcherSource} {text : String} {options : Option FilterOptions} {rule : Rule}
  {e : Expression}

/-- A selection is made of a text that is a filter, and of a pattern only if that is one. -/
theorem rule_eq_ok :
    (ofText source text options).rule = .ok rule ↔
      Expression.parse text.toList = .ok rule.expression ∧
        ((options.bind FilterOptions.regex = none ∧ rule.transform = none) ∨
          ∃ p matcher, options.bind FilterOptions.regex = some p ∧ source p = some matcher ∧
            rule.transform =
              some (transformation matcher (options.bind FilterOptions.replacement))) := by
  obtain ⟨e, transform⟩ := rule
  cases hparse : Expression.parse text.toList with
  | error err =>
    have hrule : (ofText source text options).rule = .error (.filter err) := by
      simp only [ofText, hparse]
      rfl
    simp [hrule]
  | ok tree =>
    cases hp : options.bind FilterOptions.regex with
    | none =>
      have hrule : (ofText source text options).rule = .ok ⟨tree, none⟩ := by
        simp only [ofText, hparse, hp]
        rfl
      simp [hrule, eq_comm]
    | some p =>
      cases hm : source p with
      | none =>
        have hrule : (ofText source text options).rule = .error (.regex p) := by
          simp only [ofText, hparse, hp, hm]
          rfl
        simp [hrule, hm]
      | some matcher =>
        have hrule : (ofText source text options).rule = .ok ⟨tree,
            some (transformation matcher (options.bind FilterOptions.replacement))⟩ := by
          simp only [ofText, hparse, hp, hm]
          rfl
        simp [hrule, hm, eq_comm]

theorem rule_of_parse (source : MatcherSource) (h : Expression.parse text.toList = .ok e)
    (hplain : options.bind FilterOptions.regex = none) :
    (ofText source text options).rule = .ok ⟨e, none⟩ :=
  rule_eq_ok.2 ⟨h, .inl ⟨hplain, rfl⟩⟩

end

section
variable {s : Selection} {e : Expression} {transform : Option (String → Option String)}

theorem error?_isSome_iff : s.error?.isSome ↔ s.expression? = none := by
  unfold error? expression?
  cases s.rule <;> simp [Except.toOption]

theorem expression?_eq_some :
    s.expression? = some e ↔ ∃ transform, s.rule = .ok ⟨e, transform⟩ := by
  unfold expression?
  cases s.rule with
  | error err => simp [Except.toOption]
  | ok rule =>
    obtain ⟨e', transform⟩ := rule
    simp [Except.toOption]

variable {m : Type → Type} [Monad m]

theorem selects_of_none (h : s.expression? = none) (lookup : String → m (Option PropertyValue)) :
    s.selects lookup = pure false := by
  unfold selects
  cases hrule : s.rule with
  | error err => rfl
  | ok rule => simp [expression?, hrule, Except.toOption] at h

/-- Without a transformation every value is kept as it is. -/
theorem selects_of_rule (h : s.rule = .ok ⟨e, transform⟩)
    (lookup : String → m (Option PropertyValue)) :
    s.selects lookup = e.evaluateTransformed (transform.getD some) lookup := by
  unfold selects
  rw [h]
  cases transform with
  | none => exact (e.evaluateTransformed_some lookup).symm
  | some transform => rfl

end

/-- No selection can be made exactly of a text that is no filter and with a pattern that is none. -/
theorem expression?_eq_none {source : MatcherSource} {text : String}
    {options : Option FilterOptions} :
    (ofText source text options).expression? = none ↔
      (∃ err, Expression.parse text.toList = .error err) ∨
        ∃ e p, Expression.parse text.toList = .ok e ∧
          options.bind FilterOptions.regex = some p ∧ source p = none := by
  constructor
  · intro h
    cases hparse : Expression.parse text.toList with
    | error err => exact .inl ⟨err, rfl⟩
    | ok e =>
      have hno : ∀ transform, (ofText source text options).rule ≠ .ok ⟨e, transform⟩ := by
        intro transform hrule
        cases h.symm.trans (expression?_eq_some.2 ⟨transform, hrule⟩)
      cases hp : options.bind FilterOptions.regex with
      | none => exact absurd (rule_of_parse source hparse hp) (hno _)
      | some p =>
        cases hm : source p with
        | none => exact .inr ⟨e, p, rfl, rfl, hm⟩
        | some matcher =>
          exact absurd (rule_eq_ok.2 ⟨hparse, .inr ⟨p, matcher, hp, hm, rfl⟩⟩) (hno _)
  · intro h
    refine Option.eq_none_iff_forall_ne_some.2 fun e he => ?_
    obtain ⟨transform, hrule⟩ := expression?_eq_some.1 he
    obtain ⟨hparse, htransform⟩ := rule_eq_ok.1 hrule
    rcases h with ⟨err, herr⟩ | ⟨_, p, -, hp, hm⟩
    · cases hparse.symm.trans herr
    · rcases htransform with ⟨hnone, -⟩ | ⟨p', matcher, hp', hm', -⟩
      · cases hp.symm.trans hnone
      · obtain rfl := Option.some.inj (hp.symm.trans hp')
        cases hm.symm.trans hm'

section
variable {source : MatcherSource} {text : String} {options : Option FilterOptions}
  {transform : Option (String → Option String)} {m : Type → Type} [Monad m]

/-- Options make no difference where there is no pattern, and where the pattern finds no set whose
values it could transform. -/
theorem selects_eq_without_options {e : Expression}
    (hrule : (ofText source text options).rule = .ok ⟨e, transform⟩)
    (h : (∀ set, e = .oneOf set → set.isNormalized) ∨ options.bind FilterOptions.regex = none)
    (lookup : String → m (Option PropertyValue)) :
    (ofText source text options).selects lookup = (ofText source text none).selects lookup := by
  obtain ⟨hparse, htransform⟩ := rule_eq_ok.1 hrule
  have hplain : (ofText source text none).rule = .ok ⟨e, none⟩ := rule_of_parse source hparse rfl
  rw [selects_of_rule hrule, selects_of_rule hplain, Option.getD_none,
    Expression.evaluateTransformed_some]
  rcases h with hkept | hnone
  · exact Expression.evaluateTransformed_eq hkept _ lookup
  · rcases htransform with ⟨-, rfl⟩ | ⟨p, matcher, hp, -⟩
    · exact e.evaluateTransformed_some lookup
    · cases hnone.symm.trans hp

/-- A pattern transforms the values that any other set tests. -/
theorem exists_transformation {set : FastSet} {p : String}
    (hrule : (ofText source text options).rule = .ok ⟨.oneOf set, transform⟩)
    (hset : ¬ set.isNormalized) (hp : options.bind FilterOptions.regex = some p) :
    ∃ matcher, source p = some matcher ∧
      ∀ (m : Type → Type) [Monad m] (lookup : String → m (Option PropertyValue)),
        (ofText source text options).selects lookup = do
          return set.holds (transformation matcher (options.bind FilterOptions.replacement))
            (← lookup set.name) := by
  obtain ⟨-, ⟨hnone, -⟩ | ⟨p', matcher, hp', hm, rfl⟩⟩ := rule_eq_ok.1 hrule
  · cases hp.symm.trans hnone
  · obtain rfl := Option.some.inj (hp.symm.trans hp')
    refine ⟨matcher, hm, fun m _ lookup => ?_⟩
    rw [selects_of_rule hrule, ← FastSet.lookupName_of_not_isNormalized hset]
    rfl

end

end Selection

/-- The options of a selection act only on a set that is not one of normalized names. A selection
has an error exactly if it has no expression, because the text is no filter or the pattern is none,
and then selects nothing. A tree, a set of normalized names, and any filter without a pattern select
what they select without options. Any other set selects the tests of which some value, rewritten, is
a member. -/
theorem options_act_on_plain_sets (source : MatcherSource) (text : String)
    (options : Option FilterOptions) :
    let s := Selection.ofText source text options
    let pattern := options.bind FilterOptions.regex
    let replacement := options.bind FilterOptions.replacement
    (s.error?.isSome ↔ s.expression? = none) ∧
      (s.expression? = none ↔ (∃ err, Expression.parse text.toList = .error err) ∨
        ∃ e p, Expression.parse text.toList = .ok e ∧ pattern = some p ∧ source p = none) ∧
      (s.expression? = none → ∀ (m : Type → Type) [Monad m]
        (lookup : String → m (Option PropertyValue)), s.selects lookup = pure false) ∧
      ∀ e, s.expression? = some e → Expression.parse text.toList = .ok e ∧
        ((∀ set, e ≠ .oneOf set) ∨ (∃ set, e = .oneOf set ∧ sameName set.name normalizedName) ∨
            pattern = none →
          ∀ (m : Type → Type) [Monad m] (lookup : String → m (Option PropertyValue)),
            s.selects lookup = (Selection.ofText source text none).selects lookup) ∧
        ∀ set p, e = .oneOf set → ¬ sameName set.name normalizedName → pattern = some p →
          ∃ matcher, source p = some matcher ∧ ∃ member : Option PropertyValue → Bool,
            (∀ answer, member answer ↔ ∃ values v w, answer = some values ∧ v ∈ values.toList ∧
              Rewrites matcher replacement v w ∧ w ∈ set.values) ∧
            ∀ (m : Type → Type) [Monad m] (lookup : String → m (Option PropertyValue)),
              s.selects lookup = do return member (← lookup set.name) := by
  intro s pattern replacement
  refine ⟨Selection.error?_isSome_iff, Selection.expression?_eq_none,
    fun h m _ lookup => Selection.selects_of_none h lookup, fun e he => ?_⟩
  obtain ⟨transform, hrule⟩ := Selection.expression?_eq_some.1 he
  refine ⟨(Selection.rule_eq_ok.1 hrule).1, fun hkept m _ lookup => ?_, ?_⟩
  · refine Selection.selects_eq_without_options hrule ?_ lookup
    rcases hkept with htree | ⟨set, rfl, hset⟩ | hnone
    · exact .inl fun set h => absurd h (htree set)
    · refine .inl fun set' h => ?_
      obtain rfl := Expression.oneOf.inj h
      exact hset
    · exact .inr hnone
  · rintro set p rfl hset hp
    obtain ⟨matcher, hm, hselects⟩ := Selection.exists_transformation hrule hset hp
    refine ⟨matcher, hm, set.holds (Selection.transformation matcher replacement),
      fun answer => ?_, hselects⟩
    simp only [FastSet.holds_iff hset, Selection.transformation_eq_some]

/-- The pattern `^[^(]+` takes the arguments off a name before a set looks for it, and leaves
nothing of a name that begins with its arguments. -/
theorem pattern_takes_arguments_off :
    let source : MatcherSource := fun p =>
      if p = "^[^(]+" then
        some ⟨fun v =>
          let front := v.toList.takeWhile (· != '(')
          if front.isEmpty then none else some (String.ofList front),
          fun replacement v => replacement ++ String.ofList (v.toList.dropWhile (· != '('))⟩
      else none
    let s := Selection.ofText source "FullyQualifiedName=A.M|FullyQualifiedName=A.N"
      (some ⟨some "^[^(]+", none⟩)
    let named (name : String) : String → Id (Option PropertyValue) :=
      fun _ => pure (some (.single name))
    s.selects (named "A.M(1, 2)") = pure true ∧ s.selects (named "(A.M)") = pure false := by
  intro source s named
  let set : FastSet := ⟨"FullyQualifiedName", (ValueSet.empty.insert "A.M").insert "A.N"⟩
  have hs : s.expression? = some (.oneOf set) := rfl
  obtain ⟨-, -, -, hsome⟩ := options_act_on_plain_sets source
    "FullyQualifiedName=A.M|FullyQualifiedName=A.N" (some ⟨some "^[^(]+", none⟩)
  obtain ⟨matcher, hm, member, hmember, hselects⟩ :=
    (hsome _ hs).2.2 set "^[^(]+" rfl (by decide) rfl
  obtain rfl := Option.some.inj hm
  constructor
  · have h : member (some (.single "A.M(1, 2)")) :=
      (hmember _).2 ⟨_, "A.M(1, 2)", "A.M", rfl, by decide, .found (by decide),
        ValueSet.contains_iff.1 (by decide)⟩
    rw [hselects]
    exact congrArg pure h
  · have h : ¬ member (some (.single "(A.M)")) := by
      rw [hmember]
      rintro ⟨values, v, w, hvalues, hv, hw, -⟩
      obtain rfl := Option.some.inj hvalues
      obtain rfl := List.mem_singleton.1 hv
      cases hw with
      | found h => exact absurd h nofun
    rw [hselects]
    exact congrArg pure (Bool.eq_false_iff.2 h)

end Proctor.Filter
