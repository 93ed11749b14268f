import Proctor.Proofs.Filter.Acceptance

/-! # Properties that cannot be filtered by

A tree reports the property of each of its conditions that cannot be used, in their order. A set
asks about its property once, by an equality, and so does each condition that it stands for: all of
them can be used or none. -/

namespace Proctor.Filter
open Proctor.Text

section
variable {supported : List String} {resolve : Option (String → Option PropertyKind)}

/-! ### Conditions -/

namespace Condition
variable {c d : Condition}

/-- Why a condition cannot be used: its property is none of the supported ones, it has no kind, or
it is searched for a part although it is not textual. -/
inductive Unusable (supported : List String) (resolve : Option (String → Option PropertyKind))
    (c : Condition) : Prop
  | unsupported (h : ∀ name ∈ supported, ¬ sameName name c.lookupName)
  | unknown {kindOf : String → Option PropertyKind} (hresolve : resolve = some kindOf)
      (h : kindOf c.lookupName = none)
  | unsearchable {kindOf : String → Option PropertyKind} {kind : PropertyKind}
      (hresolve : resolve = some kindOf) (h : kindOf c.lookupName = some kind)
      (hop : c.operation.isContainment) (hkind : ¬ kind.isTextual)

/-- Whether a condition is valid, given the kinds of all properties. -/
def valid (supported : List String) (resolve : Option (String → Option PropertyKind))
    (c : Condition) : Bool :=
  Id.run (c.isValid supported (resolve.map fun kindOf name => pure (kindOf name)))

theorem valid_eq (supported : List String) (resolve : Option (String → Option PropertyKind))
    (c : Condition) :
    c.valid supported resolve = (supported.any (sameName · c.lookupName) &&
      resolve.all fun kindOf => c.admits (kindOf c.lookupName)) := by
  unfold valid isValid
  cases supported.any (sameName · c.lookupName) with
  | false => rfl
  | true => cases resolve <;> rfl

theorem admits_eq_false {kind? : Option PropertyKind} :
    c.admits kind? = false ↔
      kind? = none ∨ ∃ kind, kind? = some kind ∧ c.operation.isContainment ∧ ¬ kind.isTextual := by
  cases kind? with
  | none => simp [admits]
  | some kind => simp [admits]

theorem valid_eq_false : c.valid supported resolve = false ↔ c.Unusable supported resolve := by
  rw [valid_eq, Bool.and_eq_false_iff]
  constructor
  · rintro (h | h)
    · exact .unsupported (by simpa using h)
    · obtain ⟨kindOf, hresolve, hadmits⟩ :
          ∃ kindOf, resolve = some kindOf ∧ c.admits (kindOf c.lookupName) = false := by
        cases resolve with
        | none => simp at h
        | some kindOf => exact ⟨kindOf, rfl, by simpa using h⟩
      rcases admits_eq_false.1 hadmits with hnone | ⟨kind, hkind, hop, htextual⟩
      · exact .unknown hresolve hnone
      · exact .unsearchable hresolve hkind hop htextual
  · intro h
    cases h with
    | unsupported h => exact .inl (by simpa using h)
    | unknown hresolve h => exact .inr (by simp [hresolve, admits_eq_false, h])
    | unsearchable hresolve h hop hkind =>
      exact .inr (by simp [hresolve, admits_eq_false.2 (.inr ⟨_, h, hop, hkind⟩)])

instance : Decidable (c.Unusable supported resolve) := decidable_of_iff _ valid_eq_false

/-- Only the property and whether it is searched matter. -/
theorem valid_congr (hname : c.lookupName = d.lookupName)
    (hop : c.operation.isContainment = d.operation.isContainment) :
    c.valid supported resolve = d.valid supported resolve := by
  have hadmits : c.admits = d.admits := by
    funext kind?
    cases kind? <;> simp [admits, hop]
  rw [valid_eq, valid_eq, hname, hadmits]

end Condition

/-! ### Expressions -/

namespace Expression

/-- The properties that are reported, given the kinds of all properties. -/
def unusable (supported : List String) (resolve : Option (String → Option PropertyKind))
    (e : Expression) : List String :=
  Id.run (e.invalidProperties supported (resolve.map fun kindOf name => pure (kindOf name)))

theorem unusable_leaf (c : Condition) :
    (leaf c).unusable supported resolve =
      if c.valid supported resolve then [] else [c.lookupName] := rfl

theorem unusable_binary (op : Connective) (left right : Expression) :
    (binary op left right).unusable supported resolve =
      left.unusable supported resolve ++ right.unusable supported resolve := rfl

theorem unusable_oneOf (set : FastSet) :
    (oneOf set).unusable supported resolve =
      if set.blankCondition.valid supported resolve then [] else [set.lookupName] := rfl

/-- A tree reports the conditions that cannot be used, from left to right. -/
theorem unusable_of_isTree {tree : Expression} (ht : tree.IsTree) :
    tree.unusable supported resolve =
      (tree.leaves.filter (·.Unusable supported resolve)).map Condition.lookupName := by
  induction tree with
  | leaf c =>
    rw [unusable_leaf, leaves]
    cases hc : c.valid supported resolve with
    | false => simp [Condition.valid_eq_false.1 hc]
    | true =>
      have hc : ¬ c.Unusable supported resolve := by simp [← Condition.valid_eq_false, hc]
      simp [hc]
  | binary op left right ihl ihr =>
    simp only [unusable_binary, ihl ht.1, ihr ht.2, leaves, List.filter_append, List.map_append]
  | oneOf set => exact ht.elim

/-- The conditions of a tree that lists values stand or fall with the one that its set asks by. -/
theorem Lists.unusable_eq {tree : Expression} {set : FastSet} (hl : tree.Lists set.name)
    (ht : tree.IsTree) :
    tree.unusable supported resolve =
      if set.blankCondition.valid supported resolve then []
      else tree.leaves.map fun _ => set.lookupName := by
  have hleaf : ∀ c ∈ tree.leaves, c.lookupName = set.lookupName ∧
      c.valid supported resolve = set.blankCondition.valid supported resolve := by
    intro c hc
    obtain ⟨hop, hname⟩ := hl.2 c hc
    have hlookup : c.lookupName = set.lookupName := congrArg Filter.lookupName hname
    refine ⟨hlookup, Condition.valid_congr hlookup ?_⟩
    rw [hop]
    rfl
  have hmap : tree.leaves.map Condition.lookupName = tree.leaves.map fun _ => set.lookupName :=
    List.map_congr_left fun c hc => (hleaf c hc).1
  rw [unusable_of_isTree ht]
  split
  · next hvalid =>
    rw [List.map_eq_nil_iff, List.filter_eq_nil_iff]
    intro c hc
    simp [← Condition.valid_eq_false, (hleaf c hc).2, hvalid]
  · next hvalid =>
    have hall : tree.leaves.filter (·.Unusable supported resolve) = tree.leaves := by
      rw [List.filter_eq_self]
      intro c hc
      simp [← Condition.valid_eq_false, (hleaf c hc).2, hvalid]
    rw [hall, hmap]

end Expression
end

/-- A filter that is read as a tree reports the properties of exactly those of its conditions that
cannot be used, in textual order. One that is read as a set reports one property at most. It reports
none exactly if its tree would report none, and else the one that all entries of the tree's report
name. -/
theorem both_paths_report_alike {text : List Char} {e : Expression}
    (h : Expression.parse text = .ok e) (supported : List String)
    (resolve : Option (String → Option PropertyKind)) :
    ∃ tree set cs, Expression.parseTree text = .ok (tree, set) ∧
      ((Token.ofText text).flatMap Token.pieces).mapM Condition.parse = .ok cs ∧
      ((∀ s, e ≠ .oneOf s) → e.unusable supported resolve =
        (cs.filter (·.Unusable supported resolve)).map Condition.lookupName) ∧
      ∀ s, e = .oneOf s → tree.Lists s.name ∧
        (e.unusable supported resolve).length ≤ 1 ∧
        (e.unusable supported resolve = [] ↔ tree.unusable supported resolve = []) ∧
        ∀ name ∈ e.unusable supported resolve, ∀ other ∈ tree.unusable supported resolve,
          other = name := by
  obtain ⟨ts, r, tree, ha, he⟩ := Accepted.of_parse h
  have hf := ha.faithful
  refine ⟨tree, _, conditions ts, ha.parseTree_eq, mapM_pieces ha.terminals, fun hnot => ?_,
    fun s hs => ?_⟩
  · cases hset : r.candidate.set? with
    | some s =>
      rw [hset] at he
      exact absurd he.symm (hnot s)
    | none =>
      rw [hset] at he
      obtain rfl : tree = e := he
      rw [Expression.unusable_of_isTree hf.isTree, hf.leaves]
  · cases hset : r.candidate.set? with
    | none =>
      rw [hset] at he
      obtain rfl : tree = .oneOf s := he.trans hs
      exact hf.isTree.elim
    | some s' =>
      rw [hset] at he hf
      obtain rfl : s' = s := Expression.oneOf.inj (he.trans hs)
      obtain ⟨hl, -⟩ := hf.lists_of_some
      rw [hs, hl.unusable_eq hf.isTree, Expression.unusable_oneOf]
      refine ⟨hl, ?_⟩
      split
      · simp
      · simp [hf.isTree.leaves_ne_nil]

/-- On both paths the normalized name is reported as the fully qualified one. -/
theorem normalized_name_is_reported_alike :
    let kindOf : String → Option PropertyKind :=
      fun name => if name = "FullyQualifiedName" then some .other else none
    let supported := ["fullyqualifiedname", "Source"]
    (∃ e, Expression.parse "Nfqn~a&(Owner=b|NFQN=c)&Source!=d&Owner=e".toList = .ok e ∧
      e.unusable supported (some kindOf) = ["FullyQualifiedName", "Owner", "Source", "Owner"]) ∧
      ∃ s tree set, Expression.parse "nfqn=a|nfqn=b".toList = .ok (.oneOf s) ∧
        Expression.parseTree "nfqn=a|nfqn=b".toList = .ok (tree, set) ∧
        (Expression.oneOf s).unusable ["Source"] none = ["FullyQualifiedName"] ∧
        ∀ other ∈ tree.unusable ["Source"] none, other = "FullyQualifiedName" := by
  intro kindOf supported
  let a : Condition := ⟨"Nfqn", .contains, "a"⟩
  let b : Condition := ⟨"Owner", .equal, "b"⟩
  let c : Condition := ⟨"NFQN", .equal, "c"⟩
  let d : Condition := ⟨"Source", .notEqual, "d"⟩
  let f : Condition := ⟨"Owner", .equal, "e"⟩
  let tree : Expression := .binary .and (.binary .and (.binary .and (.leaf a)
    (.binary .or (.leaf b) (.leaf c))) (.leaf d)) (.leaf f)
  let set : FastSet := ⟨"nfqn", (ValueSet.empty.insert "a").insert "b"⟩
  have htree : Expression.parse "Nfqn~a&(Owner=b|NFQN=c)&Source!=d&Owner=e".toList = .ok tree := rfl
  have hset : Expression.parse "nfqn=a|nfqn=b".toList = .ok (.oneOf set) := rfl
  constructor
  · obtain ⟨_, _, cs, -, hcs, hreport, -⟩ := both_paths_report_alike htree supported (some kindOf)
    obtain rfl : [a, b, c, d, f] = cs := Except.ok.inj hcs
    exact ⟨tree, htree, (hreport nofun).trans (by decide)⟩
  · obtain ⟨t, k, -, ht, -, -, hreport⟩ := both_paths_report_alike hset ["Source"] none
    obtain ⟨-, -, -, hsame⟩ := hreport set rfl
    have hnames : (Expression.oneOf set).unusable ["Source"] none = ["FullyQualifiedName"] := by
      decide
    exact ⟨set, t, k, hset, ht, hnames, hsame _ (by simp [hnames])⟩

end Proctor.Filter
