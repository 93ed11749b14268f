import Proctor.Proofs.Filter.FastPath
import Proctor.Proofs.Filter.Precedence
import Proctor.Proofs.Filter.Token

/-! # Every filter of the grammar is accepted

However what is derived is written out, it is read as the tree of its derivation, or as the set that
stands for this tree. -/

namespace Proctor.Filter

theorem exists_of_hasEmptyParenthesis {tokens : List Token} {ts : List Terminal}
    (he : Token.hasEmptyParenthesis tokens) (hts : terminals tokens = .ok ts) :
    ∃ front back, ts = front ++ .opening :: .closing :: back := by
  fun_induction Token.hasEmptyParenthesis tokens generalizing ts with
  | case1 tokens =>
    obtain ⟨_, _, ho, hrest, rfl⟩ := terminals_cons_eq_ok.1 hts
    obtain ⟨_, s, hc, -, rfl⟩ := terminals_cons_eq_ok.1 hrest
    obtain rfl := Except.ok.inj ho
    obtain rfl := Except.ok.inj hc
    exact ⟨[], s, rfl⟩
  | case2 token tokens _ ih =>
    obtain ⟨s, s', -, hrest, rfl⟩ := terminals_cons_eq_ok.1 hts
    obtain ⟨front, back, rfl⟩ := ih he hrest
    exact ⟨s ++ front, back, by simp⟩
  | case3 => simp at he

theorem Derives.not_hasEmptyParenthesis {level : Level} {tokens : List Token}
    {ts : List Terminal} {tree : Expression} (h : Derives level ts tree)
    (hts : terminals tokens = .ok ts) : ¬ Token.hasEmptyParenthesis tokens := by
  intro he
  obtain ⟨front, back, hp⟩ := exists_of_hasEmptyParenthesis he hts
  exact h.alternates.adjacent hp rfl

/-- What the grammar derives is read as its tree. -/
theorem ofTokens_of_derives {tokens : List Token} {ts : List Terminal} {tree : Expression}
    (hts : terminals tokens = .ok ts) (h : Derives .filter ts tree) :
    ∃ set, Expression.ofTokens tokens = .ok (tree, set) ∧ Faithful ts tree set := by
  obtain ⟨r, hr, hf⟩ := finish_of_derives h
  have hne := h.not_hasEmptyParenthesis hts
  exact ⟨_, Expression.ofTokens_eq_ok.2 ⟨hne, ts, r, hts, hr, hf, rfl⟩, faithful_of_reading hr hf⟩

/-- A written filter is read as the tree of its derivation, unless the tree lists the values of one
property: then it is read as the set of these. -/
theorem parse_of_derives {ts : List Terminal} {tree : Expression} {text : List Char}
    (h : Derives .filter ts tree) (hw : Written ts text) :
    ((¬ ∃ name, tree.Lists name) → Expression.parse text = .ok tree) ∧
      ∀ name, tree.Lists name → ∃ set, Expression.parse text = .ok (.oneOf set) ∧
        set.name = name ∧ ∀ v, v ∈ set.values ↔ ∃ c ∈ tree.leaves, c.value = v := by
  have hts := hw.terminals_ofText h.alternates.separated
  obtain ⟨set, hset, hf⟩ := ofTokens_of_derives hts h
  have hparse : Expression.parse text = .ok ((set.map .oneOf).getD tree) :=
    Expression.parse_eq_ok.2 ⟨tree, set, hset, rfl⟩
  cases set with
  | none => exact ⟨fun _ => hparse, fun name hl => absurd ⟨name, hl⟩ hf.not_lists_of_none⟩
  | some s =>
    obtain ⟨hs, hmem⟩ := hf.lists_of_some
    refine ⟨fun hn => absurd ⟨s.name, hs⟩ hn, fun name hl => ⟨s, hparse, ?_, hmem⟩⟩
    exact hs.name_eq hf.isTree hl

theorem group_is_read :
    ∃ ts tree, Derives .filter ts tree ∧ Written ts " (A = 1| B!=2 )&C=\\(3".toList ∧
      Expression.parse " (A = 1| B!=2 )&C=\\(3".toList = .ok tree := by
  let a : Condition := ⟨"A", .equal, "1"⟩
  let b : Condition := ⟨"B", .notEqual, "2"⟩
  let c : Condition := ⟨"C", .equal, "(3"⟩
  have hor : Derives .filter [.condition a, .connective .or, .condition b] _ :=
    (Derives.filter_of_atom (.condition a)).snoc (.single (.condition b))
  have hgroup : Derives (.chain .and) _ (.binary .or (.leaf a) (.leaf b)) := .single (.group hor)
  have hand : Derives .filter _ _ := .single (hgroup.snoc (.condition c))
  have hw : Written _ " (A = 1| B!=2 )&C=\\(3".toList :=
    .cons (t := .opening) (p := [' ']) (by decide) rfl <|
    .cons (t := .condition a) (p := []) (s := "A = 1".toList) (by decide) ⟨by decide, rfl⟩ <|
    .cons (t := .connective .or) (p := []) (by decide) rfl <|
    .cons (t := .condition b) (p := [' ']) (s := "B!=2".toList) (by decide) ⟨by decide, rfl⟩ <|
    .cons (t := .closing) (p := [' ']) (by decide) rfl <|
    .cons (t := .connective .and) (p := []) (by decide) rfl <|
    .cons (t := .condition c) (p := []) (s := "C=\\(3".toList) (by decide) ⟨by decide, rfl⟩ <|
    .blank (s := []) (by decide)
  refine ⟨_, _, hand, hw, (parse_of_derives hand hw).1 ?_⟩
  rintro ⟨name, hno, -⟩
  exact hno (by decide)

end Proctor.Filter
