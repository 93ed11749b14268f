import Proctor.Proofs.Filter.Completeness

/-! # What an accepted filter is made of

An accepted filter has one condition more than connectives, and its parentheses match. If no operand
follows at once upon another, each connective then stands between two operands, and the grammar
derives the filter. Otherwise a connective without an operand has made up for the two that touch. -/

namespace Proctor.Filter

/-! ### Operands and connectives -/

/-- The number of connectives. -/
def joins (ts : List Terminal) : Nat := ts.count (.connective .or) + ts.count (.connective .and)

theorem length_connectives (ops : List Connective) :
    ops.length = ops.count .or + ops.count .and := by
  induction ops with
  | nil => rfl
  | cons op ops ih =>
    cases op with
    | or | and =>
      simp only [List.length_cons, ih, List.count_cons]
      simp
      omega

theorem Faithful.length_conditions {ts : List Terminal} {tree : Expression}
    {set : Option FastSet} (h : Faithful ts tree set) :
    (conditions ts).length = joins ts + 1 := by
  rw [← h.leaves, h.isTree.length_leaves, length_connectives, h.connectives, h.connectives, joins]

theorem Separated.tail {t : Terminal} {ts : List Terminal} (h : Separated (t :: ts)) :
    Separated ts :=
  fun front a b back he => h (t :: front) a b back (by simp [he])

@[simp] theorem joins_append (s t : List Terminal) : joins (s ++ t) = joins s + joins t := by
  simp only [joins, List.count_append]
  omega

theorem joins_cons (t : Terminal) (ts : List Terminal) :
    joins (t :: ts) = joins [t] + joins ts :=
  joins_append [t] ts

@[simp] theorem joins_connective (op : Connective) : joins [.connective op] = 1 := by
  cases op <;> rfl

/-- One terminal adds a condition only where it may, and a connective makes room for one more. -/
theorem Terminal.length_conditions {t : Terminal} {ended : Bool}
    (hfirst : ended → ¬ t.startsOperand) :
    (conditions [t]).length + ended.toNat ≤ joins [t] + t.endsOperand.toNat ∧
      ((conditions [t]).length + ended.toNat = joins [t] + t.endsOperand.toNat →
        t.follow ended = some t.endsOperand) := by
  cases ended with
  | false =>
    cases t with
    | connective op => cases op <;> exact ⟨by decide, by decide⟩
    | opening | closing => exact ⟨by decide, by decide⟩
    | condition c => exact ⟨by simp [joins, endsOperand], fun _ => rfl⟩
  | true =>
    cases t with
    | connective op => cases op <;> exact ⟨by decide, by decide⟩
    | closing => exact ⟨by decide, by decide⟩
    | opening | condition c => exact absurd rfl (hfirst rfl)

/-- Where no two operands touch, there are at most as many as the connectives make room for, and
fewer as soon as a connective stands without one. -/
theorem Separated.length_conditions {ts : List Terminal} {ended : Bool} (hs : Separated ts)
    (hfirst : ∀ t ∈ ts.head?, ended → ¬ t.startsOperand) :
    (conditions ts).length + ended.toNat ≤ joins ts + 1 ∧
      ((conditions ts).length + ended.toNat = joins ts + 1 →
        ts.foldlM Terminal.follow ended = some true) := by
  induction ts generalizing ended with
  | nil =>
    cases ended with
    | false => simp [conditions, joins]
    | true => exact ⟨Nat.le_refl _, fun _ => rfl⟩
  | cons t ts ih =>
    have hnext : ∀ u ∈ ts.head?, t.endsOperand → ¬ u.startsOperand := by
      intro u hu
      cases ts with
      | nil => simp at hu
      | cons v ts =>
        obtain rfl : v = u := by simpa using hu
        exact hs [] t v ts rfl
    obtain ⟨hle, heq⟩ := ih hs.tail hnext
    obtain ⟨hle₁, heq₁⟩ := Terminal.length_conditions (hfirst t rfl)
    have hc : (conditions (t :: ts)).length = (conditions [t]).length + (conditions ts).length := by
      rw [← List.length_append, ← conditions_append, List.singleton_append]
    rw [hc, joins_cons]
    refine ⟨by omega, fun h => ?_⟩
    rw [List.foldlM_cons, heq₁ (by omega)]
    exact heq (by omega)

theorem Separated.alternates {ts : List Terminal} (hs : Separated ts)
    (h : (conditions ts).length = joins ts + 1) : Alternates ts := by
  have hlen := @hs.length_conditions ts false (by simp)
  exact hlen.2 h

/-! ### Parentheses -/

/-- The terminals close `n` open parentheses and all that they open themselves. -/
def Closes : Nat → List Terminal → Prop
  | n, [] => n = 0
  | n, .opening :: ts => Closes (n + 1) ts
  | 0, .closing :: _ => False
  | n + 1, .closing :: ts => Closes n ts
  | n, .connective _ :: ts | n, .condition _ :: ts => Closes n ts

namespace Reading

/-- Taking a terminal opens and closes what the terminal says. -/
theorem closes_take {t : Terminal} {ts : List Terminal} {r r' : Reading}
    (ht : r.take t = .ok r') :
    Closes (r.operators.count .group) (t :: ts) ↔ Closes (r'.operators.count .group) ts := by
  cases t with
  | connective op =>
    obtain ⟨⟨ops, xs⟩, hs, ht⟩ := bind_eq_ok.1 ht
    obtain rfl := pure_eq_ok.1 ht
    simp [(reduces_of_settle hs).groups_eq, Closes]
  | opening =>
    obtain rfl := Except.ok.inj ht
    simp [Closes]
  | closing =>
    obtain ⟨⟨ops, xs⟩, hc, ht⟩ := bind_eq_ok.1 ht
    obtain rfl := pure_eq_ok.1 ht
    rw [(reduces_of_close hc).groups_eq, List.count_cons_self]
    rfl
  | condition c =>
    obtain rfl := Except.ok.inj ht
    rfl

theorem closes_of_foldlM {ts : List Terminal} {r r' : Reading} {xs : List Expression}
    (hr : ts.foldlM take r = .ok r') (hf : finish r'.operators r'.operands = .ok xs) :
    Closes (r.operators.count .group) ts := by
  induction ts generalizing r with
  | nil =>
    obtain rfl := Except.ok.inj hr
    exact (reduces_of_finish hf).groups_eq
  | cons t ts ih =>
    obtain ⟨r₁, ht, hr⟩ := bind_eq_ok.1 hr
    exact (closes_take ht).2 (ih hr)

end Reading

/-! ### Derivations -/

/-- What terminals have come to: a filter after an operand (`true`), and else what an atom completes
to a filter. -/
def Begun : Bool → List Terminal → Prop
  | true, ts => ∃ tree, Derives .filter ts tree
  | false, ts => ∀ s t, Derives .atom s t → ∃ tree, Derives .filter (ts ++ s) tree

namespace Begun
variable {ts s : List Terminal}

theorem nil : Begun false [] := fun _ t h => ⟨t, .filter_of_atom h⟩

theorem connective (h : Begun true ts) (op : Connective) : Begun false (ts ++ [.connective op]) := by
  obtain ⟨tree, h⟩ := h
  intro s t hs
  obtain ⟨tree', h'⟩ := h.extend op hs
  exact ⟨tree', by simpa using h'⟩

theorem condition (h : Begun false ts) (c : Condition) : Begun true (ts ++ [.condition c]) :=
  h _ _ (.condition c)

theorem group (h : Begun false ts) (hs : Begun true s) :
    Begun true (ts ++ .opening :: s ++ [.closing]) := by
  obtain ⟨tree, hs⟩ := hs
  obtain ⟨tree', h'⟩ := h _ _ (.group hs)
  exact ⟨tree', by simpa using h'⟩

end Begun

/-- The terminals before `ts` and what stands in the parentheses still open: each entry of the stack
is followed by a `(`. -/
def assemble : List (List Terminal) → List Terminal → List Terminal
  | [], ts => ts
  | s :: stack, ts => assemble stack (s ++ .opening :: ts)

theorem assemble_append (stack : List (List Terminal)) (s t : List Terminal) :
    assemble stack (s ++ t) = assemble stack s ++ t := by
  induction stack generalizing s with
  | nil => rfl
  | cons u stack ih => simp [assemble, ← ih]

/-- What has been begun inside each open parenthesis is completed by terminals that go on from there
and close all of them. -/
theorem derives_of_follow {ts s : List Terminal} {ended : Bool} {stack : List (List Terminal)}
    (hf : ts.foldlM Terminal.follow ended = some true) (hc : Closes stack.length ts)
    (hs : Begun ended s) (hstack : ∀ u ∈ stack, Begun false u) :
    ∃ tree, Derives .filter (assemble stack s ++ ts) tree := by
  induction ts generalizing ended stack s with
  | nil =>
    obtain rfl : ended = true := Option.some.inj hf
    obtain rfl : stack = [] := List.length_eq_zero_iff.1 hc
    rw [assemble, List.append_nil]
    exact hs
  | cons t ts ih =>
    obtain ⟨e, ht, hf⟩ := Option.bind_eq_some_iff.1 hf
    obtain ⟨hne, rfl⟩ : t.startsOperand ≠ ended ∧ t.endsOperand = e := by
      simpa [Terminal.follow] using ht
    have hshift : assemble stack s ++ t :: ts = assemble stack (s ++ [t]) ++ ts := by
      simp [assemble_append]
    cases t with
    | connective op =>
      obtain rfl : ended = true := by simpa [Terminal.startsOperand] using hne
      rw [hshift]
      exact ih hf (by simpa [Closes] using hc) (hs.connective op) hstack
    | opening =>
      obtain rfl : ended = false := by simpa [Terminal.startsOperand] using hne
      have hopen : Closes (s :: stack).length ts := by simpa [Closes] using hc
      have h := ih hf hopen .nil (List.forall_mem_cons.2 ⟨hs, hstack⟩)
      rw [hshift]
      exact h
    | closing =>
      obtain rfl : ended = true := by simpa [Terminal.startsOperand] using hne
      cases stack with
      | nil => exact hc.elim
      | cons u stack =>
        obtain ⟨hu, hstack⟩ := List.forall_mem_cons.1 hstack
        have h := ih hf hc (hu.group hs) hstack
        simpa [assemble, assemble_append] using h
    | condition c =>
      obtain rfl : ended = false := by simpa [Terminal.startsOperand] using hne
      rw [hshift]
      exact ih hf (by simpa [Closes] using hc) (hs.condition c) hstack

theorem Alternates.derives {ts : List Terminal} (ha : Alternates ts) (hc : Closes 0 ts) :
    ∃ tree, Derives .filter ts tree := by
  have h := @derives_of_follow ts [] false [] ha hc .nil (by simp)
  simpa [assemble] using h

/-! ### Accepted filters -/

theorem Faithful.alternates_iff_separated {ts : List Terminal} {tree : Expression}
    {set : Option FastSet} (h : Faithful ts tree set) : Alternates ts ↔ Separated ts :=
  ⟨Alternates.separated, fun hs => hs.alternates h.length_conditions⟩

/-- The grammar derives an accepted filter, and with the tree that it is read as, exactly if no
operand in it follows at once upon another. -/
theorem derives_iff_separated {text : List Char} {e : Expression}
    (h : Expression.parse text = .ok e) :
    ∃ ts tree set, terminals (Token.ofText text) = .ok ts ∧
      Expression.parseTree text = .ok (tree, set) ∧
      (Derives .filter ts tree ↔ Separated ts) ∧
      ((∃ other, Derives .filter ts other) ↔ Separated ts) := by
  obtain ⟨tree, set, htree, -⟩ := Expression.parse_eq_ok.1 h
  obtain ⟨-, ts, r, hts, hr, hf, rfl⟩ := Expression.ofTokens_eq_ok.1 htree
  have hfaithful := faithful_of_reading hr hf
  have hderives : Separated ts → Derives .filter ts tree := by
    intro hs
    have ha := hfaithful.alternates_iff_separated.2 hs
    obtain ⟨other, hother⟩ := ha.derives (Reading.closes_of_foldlM hr hf)
    -- a derivation is read as its own tree, and this one is read as `tree`
    obtain ⟨set', hset', -⟩ := ofTokens_of_derives hts hother
    obtain ⟨rfl, -⟩ := Prod.mk.inj (Except.ok.inj (hset'.symm.trans htree))
    exact hother
  refine ⟨ts, tree, _, hts, htree, ?_, ?_⟩
  · exact ⟨fun hd => hd.alternates.separated, hderives⟩
  · exact ⟨fun ⟨_, hd⟩ => hd.alternates.separated, fun hs => ⟨tree, hderives hs⟩⟩

/-- Two conditions side by side use up a connective that ends the filter. -/
theorem touching_conditions_are_accepted :
    ∃ e ts, Expression.parse "A=1 B=2|".toList = .ok e ∧
      terminals (Token.ofText "A=1 B=2|".toList) = .ok ts ∧ ¬ ∃ tree, Derives .filter ts tree := by
  let a : Condition := ⟨"A", .equal, "1"⟩
  let b : Condition := ⟨"B", .equal, "2"⟩
  have h : Expression.parse "A=1 B=2|".toList = .ok (.binary .or (.leaf a) (.leaf b)) := rfl
  have hread : terminals (Token.ofText "A=1 B=2|".toList) =
    .ok [.condition a, .condition b, .connective .or] := rfl
  obtain ⟨ts, _, _, hts, -, -, hiff⟩ := derives_iff_separated h
  obtain rfl := Except.ok.inj (hread.symm.trans hts)
  refine ⟨_, _, h, hts, fun hd => ?_⟩
  exact hiff.1 hd [] (.condition a) (.condition b) [.connective .or] rfl rfl rfl

end Proctor.Filter
