import Proctor.Proofs.Filter.Stacks

/-! # When a set stands for a tree

A set takes the place of the tree of a filter exactly when the tree lists the values of one property.
It then has the values of the leaves, and holds of the same answers. -/

namespace Proctor.Filter

theorem Expression.parse_eq_ok {text : List Char} {e : Expression} :
    parse text = .ok e ↔
      ∃ tree set, parseTree text = .ok (tree, set) ∧ (set.map oneOf).getD tree = e := by
  unfold parse
  simp only [bind_eq_ok, pure_eq_ok, Prod.exists]

namespace Faithful
variable {ts : List Terminal} {tree : Expression} {set : Option FastSet}

theorem and_mem_iff (h : Faithful ts tree set) :
    .and ∈ tree.connectives ↔ .connective .and ∈ ts := by
  rw [← List.count_pos_iff, h.connectives, List.count_pos_iff]

/-- A set lists what the tree lists. -/
theorem lists_of_some {s : FastSet} (h : Faithful ts tree (some s)) :
    tree.Lists s.name ∧ ∀ v, v ∈ s.values ↔ ∃ c ∈ tree.leaves, c.value = v := by
  obtain ⟨k, hk, hs⟩ := h.candidate
  cases k with
  | untouched | ruledOut => simp [Candidate.set?] at hs
  | collecting s' =>
    obtain rfl : s' = s := by simpa [Candidate.set?] using hs
    obtain ⟨hand, -, hall, hmem⟩ := hk
    rw [← h.leaves] at hall hmem
    exact ⟨⟨fun ha => hand (h.and_mem_iff.1 ha), hall⟩, hmem⟩

/-- Without a set, the tree lists the values of no property. -/
theorem not_lists_of_none (h : Faithful ts tree none) : ¬ ∃ name, tree.Lists name := by
  rintro ⟨name, hand, hall⟩
  obtain ⟨k, hk, hs⟩ := h.candidate
  cases k with
  | untouched => exact h.isTree.leaves_ne_nil (h.leaves.trans hk.2)
  | collecting s => simp [Candidate.set?] at hs
  | ruledOut =>
    rcases hk with hk | hk
    · exact hand (h.and_mem_iff.2 hk)
    · obtain ⟨c, hc, hn⟩ := hk name
      exact hn (hall c (h.leaves ▸ hc))

end Faithful

theorem Expression.Lists.name_eq {tree : Expression} {a b : String} (ht : tree.IsTree)
    (ha : tree.Lists a) (hb : tree.Lists b) : a = b := by
  obtain ⟨c, hc⟩ := List.exists_mem_of_ne_nil _ ht.leaves_ne_nil
  exact (ha.2 c hc).2.symm.trans (hb.2 c hc).2

/-- An equality looks for its value among the candidates, which only its name decides. -/
theorem Condition.holds_of_equal {c : Condition} {s : FastSet} (hop : c.operation = .equal)
    (hname : c.name = s.name) (answer : Option PropertyValue) :
    c.holds answer = (s.blankCondition.candidates answer).any (· == c.value) := by
  simp only [holds, hop, candidates, isNormalized, hname, FastSet.blankCondition]
  rfl

theorem FastSet.holds_some (s : FastSet) (answer : Option PropertyValue) :
    s.holds some answer = (s.blankCondition.candidates answer).any s.values.contains := by
  cases answer with
  | none => simp [holds, Condition.candidates]
  | some value =>
    by_cases hn : Filter.isNormalized s.name
    · simp [holds, Condition.candidates, Condition.isNormalized, isNormalized, blankCondition, hn,
        Function.comp_def]
    · simp [holds, Condition.candidates, Condition.isNormalized, isNormalized, blankCondition, hn]

/-- The set of a tree that lists values holds of the same answers as the tree. -/
theorem FastSet.holds_eq_tree {tree : Expression} {s : FastSet} (ht : tree.IsTree)
    (hl : tree.Lists s.name) (hv : ∀ v, v ∈ s.values ↔ ∃ c ∈ tree.leaves, c.value = v)
    (lookup : String → Option PropertyValue) :
    (Expression.oneOf s).holds lookup = tree.holds lookup := by
  have hlookup : ∀ c ∈ tree.leaves, c.lookupName = s.lookupName :=
    fun c hc => congrArg Filter.lookupName (hl.2 c hc).2
  rw [Expression.holds_of_or_only ht hl.1, Expression.holds_oneOf, s.holds_some, Bool.eq_iff_iff]
  simp only [List.any_eq_true, ValueSet.contains_iff, hv]
  constructor
  · rintro ⟨v, hmem, c, hc, rfl⟩
    refine ⟨c, hc, ?_⟩
    rw [hlookup c hc, Condition.holds_of_equal (hl.2 c hc).1 (hl.2 c hc).2]
    exact List.any_eq_true.2 ⟨_, hmem, beq_self_eq_true _⟩
  · rintro ⟨c, hc, h⟩
    rw [hlookup c hc, Condition.holds_of_equal (hl.2 c hc).1 (hl.2 c hc).2] at h
    obtain ⟨v, hmem, hveq⟩ := List.any_eq_true.1 h
    exact ⟨v, hmem, c, hc, (eq_of_beq hveq).symm⟩

/-- An accepted filter is read as a set exactly if its tree lists the values of one property; the
set has the values of the leaves and holds of the same tests. Any other filter is its tree. -/
theorem parse_refines_tree {text : List Char} {e : Expression}
    (h : Expression.parse text = .ok e) :
    ∃ tree set, Expression.parseTree text = .ok (tree, set) ∧ tree.IsTree ∧
      ((∃ s, e = .oneOf s) ↔ ∃ name, tree.Lists name) ∧
      (∀ s, e = .oneOf s → (∀ c ∈ tree.leaves, c.name = s.name) ∧
        (∀ v, v ∈ s.values ↔ ∃ c ∈ tree.leaves, c.value = v) ∧
        ∀ lookup, e.holds lookup = tree.holds lookup) ∧
      ((¬ ∃ name, tree.Lists name) → e = tree) := by
  obtain ⟨tree, set, ht, he⟩ := Expression.parse_eq_ok.1 h
  obtain ⟨ts, -, hf⟩ := faithful_of_ofTokens ht
  refine ⟨tree, set, ht, hf.isTree, ?_⟩
  cases set with
  | none =>
    obtain rfl : tree = e := he
    have hnot : ∀ s, tree ≠ .oneOf s := by
      rintro s rfl
      exact hf.isTree
    refine ⟨⟨?_, fun hl => absurd hl hf.not_lists_of_none⟩, ?_, fun _ => rfl⟩
    · rintro ⟨s, hs⟩
      exact absurd hs (hnot s)
    · intro s hs
      exact absurd hs (hnot s)
  | some s =>
    obtain rfl : .oneOf s = e := he
    obtain ⟨hl, hv⟩ := hf.lists_of_some
    refine ⟨⟨fun _ => ⟨s.name, hl⟩, fun _ => ⟨s, rfl⟩⟩, ?_, fun hn => absurd ⟨s.name, hl⟩ hn⟩
    rintro _ ⟨⟩
    exact ⟨fun c hc => (hl.2 c hc).2, hv, s.holds_eq_tree hf.isTree hl hv⟩

theorem two_values_refine_tree :
    ∃ (s : FastSet) (tree : Expression), Expression.parse "A=1|A=2".toList = .ok (.oneOf s) ∧
      tree.IsTree ∧ (∃ name, tree.Lists name) ∧
      ∀ lookup, (Expression.oneOf s).holds lookup = tree.holds lookup := by
  have h : Expression.parse "A=1|A=2".toList =
      .ok (.oneOf ⟨"A", (ValueSet.empty.insert "1").insert "2"⟩) := rfl
  obtain ⟨tree, -, -, ht, hset, hholds, -⟩ := parse_refines_tree h
  exact ⟨_, tree, h, ht, hset.1 ⟨_, rfl⟩, (hholds _ rfl).2.2⟩

end Proctor.Filter
