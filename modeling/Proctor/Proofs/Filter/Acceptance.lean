import Proctor.Proofs.Filter.Separator
import Proctor.Proofs.Filter.Soundness

/-! # What acceptance guarantees

Whatever the shape of an accepted filter, its parentheses match, and its tree has all of its
conditions, in their order, and all of its connectives. -/

namespace Proctor.Filter

/-! ### Parentheses -/

namespace Closes
variable {n : Nat} {p q ts : List Terminal}

theorem count_eq (h : Closes n ts) : ts.count .closing = n + ts.count .opening := by
  fun_induction Closes n ts with
  | case1 n => exact h.symm
  | case2 n ts ih =>
    have ih := ih h
    simp
    omega
  | case3 => exact h.elim
  | case4 n ts ih =>
    have ih := ih h
    simp
    omega
  | case5 n op ts ih | case6 n c ts ih => simpa using ih h

theorem append {m : Nat} (hp : Closes n p) (hq : Closes m q) : Closes (n + m) (p ++ q) := by
  fun_induction Closes n p with
  | case1 n =>
    obtain rfl : n = 0 := hp
    rwa [Nat.zero_add, List.nil_append]
  | case2 n p ih =>
    have ih := ih hp
    rw [Nat.add_right_comm] at ih
    simpa [Closes] using ih
  | case3 => exact hp.elim
  | case4 n p ih =>
    rw [Nat.succ_add]
    exact ih hp
  | case5 n op p ih | case6 n c p ih => simpa [Closes] using ih hp

theorem count_le_of_append (h : Closes n (p ++ q)) : p.count .closing ≤ n + p.count .opening := by
  induction p generalizing n with
  | nil => simp
  | cons t p ih =>
    cases t with
    | opening =>
      have ih := ih (show Closes (n + 1) (p ++ q) by simpa [Closes] using h)
      simp
      omega
    | closing =>
      cases n with
      | zero => exact h.elim
      | succ n =>
        have ih := ih (show Closes n (p ++ q) from h)
        simp
        omega
    | connective op => simpa using ih (show Closes n (p ++ q) by simpa [Closes] using h)
    | condition c => simpa using ih (show Closes n (p ++ q) by simpa [Closes] using h)

end Closes

theorem Terminal.eq_of_token? {t u : Terminal} (h : u.token? = t.token?) (ht : t.token?.isSome) :
    u = t := by
  cases t <;> cases u <;> simp_all [token?]

theorem count_filterMap_token? {t : Terminal} {token : Token} (ht : t.token? = some token)
    (ts : List Terminal) : (ts.filterMap Terminal.token?).count token = ts.count t := by
  rw [List.count_filterMap, List.count]
  refine List.countP_congr fun u _ => ?_
  simp only [beq_iff_eq]
  constructor
  · intro hu
    exact Terminal.eq_of_token? (hu.trans ht.symm) (by simp [ht])
  · rintro rfl
    exact ht

/-- The parentheses of a text match: each `)` closes a `(` before it, and every `(` is closed. -/
structure Balanced (text : List Char) : Prop where
  part : ∀ p, p <+: text → (separators p).count .closing ≤ (separators p).count .opening
  whole : (separators text).count .closing = (separators text).count .opening

theorem Closes.balanced {text : List Char} {ts : List Terminal} (h : Closes 0 ts)
    (hts : terminals (Token.ofText text) = .ok ts) : Balanced text := by
  have hseparators : ts.filterMap Terminal.token? = separators text := by
    rw [filterMap_token? hts, Token.filter_ofText]
  have hopening := count_filterMap_token? (t := .opening) rfl
  have hclosing := count_filterMap_token? (t := .closing) rfl
  constructor
  · intro p hp
    have hprefix : separators p <+: ts.filterMap Terminal.token? := by
      rw [hseparators]
      exact separators_prefix hp
    obtain ⟨front, ⟨back, rfl⟩, hfront⟩ := List.prefix_filterMap_iff.1 hprefix
    rw [hfront, hopening, hclosing]
    simpa using h.count_le_of_append
  · rw [← hseparators, hopening, hclosing, h.count_eq, Nat.zero_add]

/-! ### Accepted filters -/

/-- A text that is accepted, with its terminals, the stacks once they are taken, and the tree. -/
structure Accepted (text : List Char) (ts : List Terminal) (r : Reading) (tree : Expression) :
    Prop where
  parentheses : ¬ Token.hasEmptyParenthesis (Token.ofText text)
  terminals : terminals (Token.ofText text) = .ok ts
  reading : ts.foldlM Reading.take Reading.start = .ok r
  finish : Reading.finish r.operators r.operands = .ok [tree]

namespace Accepted
variable {text : List Char} {ts : List Terminal} {r : Reading} {tree e : Expression}

theorem of_parse (h : Expression.parse text = .ok e) :
    ∃ ts r tree, Accepted text ts r tree ∧ (r.candidate.set?.map .oneOf).getD tree = e := by
  obtain ⟨tree, set, htree, he⟩ := Expression.parse_eq_ok.1 h
  obtain ⟨hne, ts, r, hts, hr, hf, rfl⟩ := Expression.ofTokens_eq_ok.1 htree
  exact ⟨ts, r, tree, ⟨hne, hts, hr, hf⟩, he⟩

theorem parseTree_eq (h : Accepted text ts r tree) :
    Expression.parseTree text = .ok (tree, r.candidate.set?) :=
  Expression.ofTokens_eq_ok.2 ⟨h.parentheses, ts, r, h.terminals, h.reading, h.finish, rfl⟩

theorem parse_eq (h : Accepted text ts r tree) :
    Expression.parse text = .ok ((r.candidate.set?.map .oneOf).getD tree) :=
  Expression.parse_eq_ok.2 ⟨tree, _, h.parseTree_eq, rfl⟩

theorem faithful (h : Accepted text ts r tree) : Faithful ts tree r.candidate.set? :=
  faithful_of_reading h.reading h.finish

theorem closes (h : Accepted text ts r tree) : Closes 0 ts :=
  Reading.closes_of_foldlM h.reading h.finish

theorem wellEscaped (h : Accepted text ts r tree) : WellEscaped text :=
  wellEscaped_of_terminals h.terminals

theorem ofText_ne_nil (h : Accepted text ts r tree) : Token.ofText text ≠ [] := by
  intro hnil
  have hts := h.terminals
  rw [hnil] at hts
  obtain rfl := Except.ok.inj hts
  have hr := h.reading
  obtain rfl := pure_eq_ok.1 hr
  cases h.finish

theorem not_closing_first (h : Accepted text ts r tree) :
    (Token.ofText text).head? ≠ some .closing := by
  intro hhead
  obtain ⟨tokens, htokens⟩ := List.head?_eq_some_iff.1 hhead
  have hts := h.terminals
  rw [htokens, terminals_cons_eq_ok] at hts
  obtain ⟨_, s, hs, -, rfl⟩ := hts
  obtain rfl := Except.ok.inj hs
  exact h.closes

theorem not_opening_last (h : Accepted text ts r tree) :
    (Token.ofText text).getLast? ≠ some .opening := by
  intro hlast
  obtain ⟨tokens, htokens⟩ := List.getLast?_eq_some_iff.1 hlast
  have hts := h.terminals
  rw [htokens, terminals_append_eq_ok] at hts
  obtain ⟨s, _, -, hs, rfl⟩ := hts
  obtain rfl := Except.ok.inj hs
  -- the parentheses before it would have to match by themselves
  have hle := h.closes.count_le_of_append
  have heq := h.closes.count_eq
  simp at heq
  omega

end Accepted

theorem count_connective {text : List Char} {ts : List Terminal}
    (hts : terminals (Token.ofText text) = .ok ts) (op : Connective) :
    ts.count (.connective op) = (Token.ofText text).count (.connective op) := by
  have hop : (Terminal.connective op).token? = some (.connective op) := rfl
  rw [← count_filterMap_token? hop, filterMap_token? hts, List.count_filter rfl]

/-- In an accepted filter the parentheses match, and there is one condition more than connectives.
The leaves of its tree are the conditions of the text in their order, and the tree joins them by as
many `&` and `|` as the text has. -/
theorem accepted_tree_keeps_text {text : List Char} {e : Expression}
    (h : Expression.parse text = .ok e) :
    Balanced text ∧ ∃ tree set, Expression.parseTree text = .ok (tree, set) ∧ tree.IsTree ∧
      ((Token.ofText text).flatMap Token.pieces).mapM Condition.parse = .ok tree.leaves ∧
      tree.leaves.length = (Token.ofText text).count (.connective .and) +
        (Token.ofText text).count (.connective .or) + 1 ∧
      ∀ op, tree.connectives.count op = (Token.ofText text).count (.connective op) := by
  obtain ⟨ts, r, tree, ha, -⟩ := Accepted.of_parse h
  have hf := ha.faithful
  have hts := ha.terminals
  have hlength : tree.leaves.length = (Token.ofText text).count (.connective .and) +
      (Token.ofText text).count (.connective .or) + 1 := by
    rw [hf.leaves, hf.length_conditions, joins, count_connective hts, count_connective hts]
    omega
  refine ⟨ha.closes.balanced hts, tree, _, ha.parseTree_eq, hf.isTree, ?_, hlength, fun op => ?_⟩
  · rw [hf.leaves]
    exact mapM_pieces hts
  · rw [hf.connectives, count_connective hts]

/-- The last connective joins what stands side by side before it. -/
theorem connective_behind_group_keeps_text :
    let text := "A=1(B=\\)|C~2 )|".toList
    let a : Condition := ⟨"A", .equal, "1"⟩
    let b : Condition := ⟨"B", .equal, ")"⟩
    let c : Condition := ⟨"C", .contains, "2"⟩
    Expression.parse text = .ok (.binary .or (.leaf a) (.binary .or (.leaf b) (.leaf c))) ∧
      Balanced text ∧
      ∃ tree set, Expression.parseTree text = .ok (tree, set) ∧ tree.leaves = [a, b, c] := by
  intro text a b c
  have h : Expression.parse text =
      .ok (.binary .or (.leaf a) (.binary .or (.leaf b) (.leaf c))) := rfl
  have hread : ((Token.ofText text).flatMap Token.pieces).mapM Condition.parse = .ok [a, b, c] :=
    rfl
  obtain ⟨hbalanced, tree, set, htree, -, hleaves, -⟩ := accepted_tree_keeps_text h
  exact ⟨h, hbalanced, tree, set, htree, Except.ok.inj (hleaves.symm.trans hread)⟩

end Proctor.Filter
