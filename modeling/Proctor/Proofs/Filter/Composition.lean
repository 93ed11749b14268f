import Proctor.Proofs.Filter.Acceptance

/-! # Filters in parentheses

Reading an accepted filter inside parentheses never touches what lies on the stacks below the `(`,
and leaves the tree of the filter on top of it. So accepted filters can be joined by any connective,
and the whole holds of what the connective makes of its parts. -/

namespace Proctor.Filter
open Proctor.Text

/-! ### Reading above an open parenthesis -/

namespace Reading
variable {op : Connective} {ops ops₁ ops' : List Pending} {xs xs₁ xs' : List Expression}
  {r r' s : Reading} {ts : List Terminal} {tree : Expression}

theorem reduce_above (h : reduce op xs₁ = .ok xs') (xs : List Expression) :
    reduce op (xs₁ ++ xs) = .ok (xs' ++ xs) := by
  obtain ⟨left, right, rest, rfl, rfl⟩ := reduce_eq_ok.1 h
  rfl

theorem settle_above (h : settle op ops₁ xs₁ = .ok (ops', xs')) (ops : List Pending)
    (xs : List Expression) :
    settle op (ops₁ ++ .group :: ops) (xs₁ ++ xs) = .ok (ops' ++ .group :: ops, xs' ++ xs) := by
  fun_induction settle op ops₁ xs₁ with
  | case1 ops₁ xs₁ top hlt =>
    obtain ⟨rfl, rfl⟩ := Prod.mk.inj (Except.ok.inj h)
    simp [settle, hlt]
  | case2 ops₁ xs₁ top hlt ih =>
    obtain ⟨ys, hy, h⟩ := bind_eq_ok.1 h
    have ih := ih ys h
    simp [settle, hlt, reduce_above hy, ok_bind, ih]
  | case3 ops₁ xs₁ hnot =>
    obtain ⟨rfl, rfl⟩ := Prod.mk.inj (Except.ok.inj h)
    cases ops₁ with
    | nil => rfl
    | cons pending ops₁ =>
      cases pending with
      | group => rfl
      | connective top => exact (hnot top ops₁ rfl).elim

theorem close_above (h : close ops₁ xs₁ = .ok (ops', xs')) (ops : List Pending)
    (xs : List Expression) :
    close (ops₁ ++ .group :: ops) (xs₁ ++ xs) = .ok (ops' ++ .group :: ops, xs' ++ xs) := by
  fun_induction close ops₁ xs₁ with
  | case1 => cases h
  | case2 ops₁ xs₁ =>
    obtain ⟨rfl, rfl⟩ := Prod.mk.inj (Except.ok.inj h)
    rfl
  | case3 xs₁ op ops₁ ih =>
    obtain ⟨ys, hy, h⟩ := bind_eq_ok.1 h
    have ih := ih ys h
    simp [close, reduce_above hy, ok_bind, ih]

/-- At the `)`, what is left to complete is what the end of the text would complete. -/
theorem close_of_finish (h : finish ops₁ xs₁ = .ok xs') (ops : List Pending)
    (xs : List Expression) : close (ops₁ ++ .group :: ops) (xs₁ ++ xs) = .ok (ops, xs' ++ xs) := by
  fun_induction finish ops₁ xs₁ with
  | case1 xs₁ =>
    obtain rfl := Except.ok.inj h
    rfl
  | case2 => cases h
  | case3 xs₁ op ops₁ ih =>
    obtain ⟨ys, hy, h⟩ := bind_eq_ok.1 h
    have ih := ih ys h
    simp [close, reduce_above hy, ok_bind, ih]

/-- The stacks of the reading `r`, on top of a `(` and what is below it. -/
structure Above (ops : List Pending) (xs : List Expression) (r s : Reading) : Prop where
  operators : s.operators = r.operators ++ .group :: ops
  operands : s.operands = r.operands ++ xs

theorem Above.take {t : Terminal} (h : Above ops xs r s) (ht : r.take t = .ok r') :
    ∃ s', s.take t = .ok s' ∧ Above ops xs r' s' := by
  cases t with
  | connective op =>
    obtain ⟨⟨ops', xs'⟩, hs, ht⟩ := bind_eq_ok.1 ht
    obtain rfl := pure_eq_ok.1 ht
    have hsettle := settle_above hs ops xs
    rw [← h.operators, ← h.operands] at hsettle
    exact ⟨_, bind_eq_ok.2 ⟨_, hsettle, rfl⟩, rfl, rfl⟩
  | opening =>
    obtain rfl := Except.ok.inj ht
    exact ⟨_, rfl, congrArg (Pending.group :: ·) h.operators, h.operands⟩
  | closing =>
    obtain ⟨⟨ops', xs'⟩, hc, ht⟩ := bind_eq_ok.1 ht
    obtain rfl := pure_eq_ok.1 ht
    have hclose := close_above hc ops xs
    rw [← h.operators, ← h.operands] at hclose
    exact ⟨_, bind_eq_ok.2 ⟨_, hclose, rfl⟩, rfl, rfl⟩
  | condition c =>
    obtain rfl := Except.ok.inj ht
    exact ⟨_, rfl, h.operators, congrArg (Expression.leaf c :: ·) h.operands⟩

theorem Above.foldlM (h : Above ops xs r s) (hr : ts.foldlM Reading.take r = .ok r') :
    ∃ s', ts.foldlM Reading.take s = .ok s' ∧ Above ops xs r' s' := by
  induction ts generalizing r s with
  | nil =>
    obtain rfl := pure_eq_ok.1 hr
    exact ⟨s, rfl, h⟩
  | cons t ts ih =>
    obtain ⟨r₁, ht, hr⟩ := foldlM_cons_eq_ok.1 hr
    obtain ⟨s₁, hs₁, h₁⟩ := h.take ht
    obtain ⟨s', hs', h'⟩ := ih h₁ hr
    exact ⟨s', foldlM_cons_eq_ok.2 ⟨s₁, hs₁, hs'⟩, h'⟩

/-- What is read as a tree leaves this tree and nothing else when it is read in parentheses. -/
theorem foldlM_group (hr : ts.foldlM Reading.take start = .ok r)
    (hf : finish r.operators r.operands = .ok [tree]) (ops : List Pending) (xs : List Expression)
    (k : Candidate) :
    ∃ k', (Terminal.opening :: ts ++ [Terminal.closing]).foldlM Reading.take ⟨ops, xs, k⟩ =
      .ok ⟨ops, tree :: xs, k'⟩ := by
  have hbelow : Above ops xs start ⟨.group :: ops, xs, k⟩ := ⟨rfl, rfl⟩
  obtain ⟨s, hs, habove⟩ := hbelow.foldlM hr
  have hclose := close_of_finish hf ops xs
  rw [← habove.operators, ← habove.operands] at hclose
  have hstep : s.take .closing = .ok ⟨ops, tree :: xs, s.candidate⟩ :=
    bind_eq_ok.2 ⟨_, hclose, rfl⟩
  refine ⟨s.candidate, ?_⟩
  rw [List.cons_append, foldlM_cons_eq_ok]
  exact ⟨_, rfl, foldlM_append_eq_ok.2 ⟨s, hs, foldlM_cons_eq_ok.2 ⟨_, hstep, rfl⟩⟩⟩

/-- In parentheses, what is read as a tree can stand wherever an operand can. -/
theorem reads_group (hr : ts.foldlM Reading.take start = .ok r)
    (hf : finish r.operators r.operands = .ok [tree]) (n : Nat) :
    Reads n (.opening :: ts ++ [.closing]) tree := by
  intro ops xs k _
  obtain ⟨k', hk⟩ := foldlM_group hr hf ops xs k
  exact ⟨_, hk, [], rfl, by simp, rfl⟩

end Reading

/-! ### Two filters joined -/

def grouped (f : List Char) : List Char := '(' :: f ++ [')']

/-- Two texts in parentheses, joined by a connective. -/
def joined (op : Connective) (f g : List Char) : List Char :=
  grouped f ++ op.symbol :: grouped g

theorem WellEscaped.grouped {f : List Char} (h : WellEscaped f) : WellEscaped (grouped f) :=
  .plain (by decide) (h.append (.plain (by decide) .nil))

namespace Token
variable {f g : List Char} {a b : List Token}

theorem ofText_cons_separator {c : Char} {separator : Token}
    (hc : ofSeparator? c = some separator) : ofText (c :: f) = separator :: ofText f := by
  have h := ofText_append_separator (t := f) .nil hc
  rwa [List.nil_append, ofText_of_blank allBlank_nil, List.nil_append] at h

theorem ofText_concat_separator {c : Char} {separator : Token} (hf : WellEscaped f)
    (hc : ofSeparator? c = some separator) : ofText (f ++ [c]) = ofText f ++ [separator] := by
  rw [ofText_append_separator hf hc, ofText_of_blank allBlank_nil]

theorem ofText_grouped (hf : WellEscaped f) :
    ofText (grouped f) = .opening :: ofText f ++ [.closing] := by
  rw [grouped, List.cons_append, ofText_cons_separator rfl, ofText_concat_separator hf rfl]
  rfl

theorem ofText_joined (hf : WellEscaped f) (hg : WellEscaped g) (op : Connective) :
    ofText (joined op f g) =
      (.opening :: ofText f ++ [.closing]) ++
        .connective op :: (.opening :: ofText g ++ [.closing]) := by
  rw [joined, ofText_append_separator hf.grouped (ofSeparator?_symbol op), ofText_grouped hf,
    ofText_grouped hg]

theorem hasEmptyParenthesis_iff {tokens : List Token} :
    hasEmptyParenthesis tokens ↔ [.opening, .closing] <:+: tokens := by
  fun_induction hasEmptyParenthesis tokens with
  | case1 rest => simpa using (List.prefix_append [opening, closing] rest).isInfix
  | case2 token rest hnot ih =>
    rw [ih, List.infix_cons_iff]
    refine ⟨.inr, fun h => h.resolve_left ?_⟩
    rintro ⟨back, hback⟩
    obtain ⟨rfl, rfl⟩ := List.cons.inj hback
    exact hnot back rfl rfl
  | case3 => simp

theorem not_hasEmptyParenthesis_append (ha : ¬ hasEmptyParenthesis a)
    (hb : ¬ hasEmptyParenthesis b) (h : a.getLast? = some .opening → b.head? ≠ some .closing) :
    ¬ hasEmptyParenthesis (a ++ b) := by
  rw [hasEmptyParenthesis_iff] at ha hb ⊢
  rw [List.infix_append_iff]
  rintro (hpair | hpair | ⟨l, l', hl, hsuffix, hprefix⟩)
  · exact ha hpair
  · exact hb hpair
  · match l, hl with
    | [], hl =>
      obtain rfl : _ = l' := hl
      exact hb hprefix.isInfix
    | [_], hl =>
      obtain ⟨rfl, rfl⟩ := List.cons.inj hl
      exact h (List.singleton_suffix_iff_getLast?_eq_some.1 hsuffix)
        (List.singleton_prefix_iff_head?_eq_some.1 hprefix)
    | [_, _], hl =>
      cases hl
      exact ha hsuffix.isInfix

/-- An empty pair of parentheses does not come about by adding parentheses around tokens. -/
theorem not_hasEmptyParenthesis_grouped (ha : ¬ hasEmptyParenthesis a) (hne : a ≠ [])
    (hfirst : a.head? ≠ some .closing) (hlast : a.getLast? ≠ some .opening) :
    ¬ hasEmptyParenthesis (.opening :: a ++ [.closing]) := by
  have hclose : ¬ hasEmptyParenthesis (a ++ [.closing]) :=
    not_hasEmptyParenthesis_append ha nofun fun h => absurd h hlast
  have hhead : (a ++ [closing]).head? ≠ some closing := by
    cases a with
    | nil => exact absurd rfl hne
    | cons token a => exact hfirst
  exact not_hasEmptyParenthesis_append (a := [.opening]) nofun hclose fun _ => hhead

end Token

namespace Accepted
variable {f g : List Char} {ts₁ ts₂ : List Terminal} {r₁ r₂ : Reading} {t₁ t₂ : Expression}

theorem not_hasEmptyParenthesis_grouped (h : Accepted f ts₁ r₁ t₁) :
    ¬ Token.hasEmptyParenthesis (.opening :: Token.ofText f ++ [.closing]) :=
  Token.not_hasEmptyParenthesis_grouped h.parentheses h.ofText_ne_nil h.not_closing_first
    h.not_opening_last

theorem terminals_grouped (h : Accepted f ts₁ r₁ t₁) :
    Filter.terminals (.opening :: Token.ofText f ++ [.closing]) =
      .ok (.opening :: ts₁ ++ [.closing]) :=
  terminals_cons_eq_ok.2 ⟨_, _, rfl, terminals_append_eq_ok.2 ⟨_, _, h.terminals, rfl, rfl⟩, rfl⟩

/-- Two accepted texts joined by a connective are accepted, with their trees joined by it. -/
theorem join (hf : Accepted f ts₁ r₁ t₁) (hg : Accepted g ts₂ r₂ t₂) (op : Connective) :
    ∃ ts r, Accepted (joined op f g) ts r (.binary op t₁ t₂) := by
  have htokens := Token.ofText_joined hf.wellEscaped hg.wellEscaped op
  have hne : ¬ Token.hasEmptyParenthesis (Token.ofText (joined op f g)) := by
    rw [htokens]
    refine Token.not_hasEmptyParenthesis_append hf.not_hasEmptyParenthesis_grouped ?_ (by simp)
    exact Token.not_hasEmptyParenthesis_append (a := [.connective op]) nofun
      hg.not_hasEmptyParenthesis_grouped (by simp)
  have hts : Filter.terminals (Token.ofText (joined op f g)) =
      .ok ((.opening :: ts₁ ++ [.closing]) ++ .connective op :: (.opening :: ts₂ ++ [.closing])) := by
    rw [htokens]
    refine terminals_append_eq_ok.2 ⟨_, _, hf.terminals_grouped, ?_, rfl⟩
    exact terminals_cons_eq_ok.2 ⟨[.connective op], _, rfl, hg.terminals_grouped, rfl⟩
  -- the first operand, then the connective with the second
  obtain ⟨s₁, hs₁, hsettled₁⟩ :=
    Reading.reads_group hf.reading hf.finish op.strength [] [] .untouched trivial
  obtain ⟨s₂, hs₂, waiting, ho, -, hu⟩ :=
    hsettled₁.operand trivial (Reading.reads_group hg.reading hg.finish _)
  refine ⟨_, s₂, hne, hts, foldlM_append_eq_ok.2 ⟨s₁, hs₁, hs₂⟩, ?_⟩
  rw [ho, Reading.finish_waiting, hu]
  rfl

end Accepted

theorem Faithful.holds_eq {ts : List Terminal} {tree : Expression} {set : Option FastSet}
    (h : Faithful ts tree set) (lookup : String → Option PropertyValue) :
    ((set.map .oneOf).getD tree).holds lookup = tree.holds lookup := by
  cases set with
  | none => rfl
  | some s =>
    obtain ⟨hl, hv⟩ := h.lists_of_some
    exact s.holds_eq_tree h.isTree hl hv lookup

/-- Two accepted filters in parentheses, joined by a connective, are an accepted filter. It is the
connective over their trees, unless it is `|` and the trees together list the values of one
property, which are then a set. It holds of what the connective makes of the two. -/
theorem filters_compose {f g : List Char} {e₁ e₂ : Expression}
    (hf : Expression.parse f = .ok e₁) (hg : Expression.parse g = .ok e₂) :
    ∃ t₁ set₁ t₂ set₂, Expression.parseTree f = .ok (t₁, set₁) ∧
      Expression.parseTree g = .ok (t₂, set₂) ∧
      Expression.parse (joined .and f g) = .ok (.binary .and t₁ t₂) ∧
      (Expression.parse (joined .or f g) = .ok (.binary .or t₁ t₂) ∨
        ∃ set, (Expression.binary .or t₁ t₂).Lists set.name ∧
          Expression.parse (joined .or f g) = .ok (.oneOf set)) ∧
      ∀ op e, Expression.parse (joined op f g) = .ok e →
        ∀ lookup, e.holds lookup = op.combine (e₁.holds lookup) (e₂.holds lookup) := by
  obtain ⟨ts₁, r₁, t₁, h₁, rfl⟩ := Accepted.of_parse hf
  obtain ⟨ts₂, r₂, t₂, h₂, rfl⟩ := Accepted.of_parse hg
  refine ⟨t₁, _, t₂, _, h₁.parseTree_eq, h₂.parseTree_eq, ?_, ?_, fun op e he lookup => ?_⟩
  · obtain ⟨ts, r, h⟩ := h₁.join h₂ .and
    cases hset : r.candidate.set? with
    | none => simpa [hset] using h.parse_eq
    | some s =>
      have hl := (hset ▸ h.faithful).lists_of_some.1
      exact absurd (by simp [Expression.connectives]) hl.1
  · obtain ⟨ts, r, h⟩ := h₁.join h₂ .or
    cases hset : r.candidate.set? with
    | none => exact .inl (by simpa [hset] using h.parse_eq)
    | some s =>
      have hl := (hset ▸ h.faithful).lists_of_some.1
      exact .inr ⟨s, hl, by simpa [hset] using h.parse_eq⟩
  · obtain ⟨ts, r, h⟩ := h₁.join h₂ op
    obtain rfl := Except.ok.inj (he.symm.trans h.parse_eq)
    rw [h.faithful.holds_eq, h₁.faithful.holds_eq, h₂.faithful.holds_eq, Expression.holds_binary]

/-- A set keeps its tree when it is joined, and so does a filter of an odd shape. -/
theorem set_and_odd_shape_compose :
    let a (v : String) : Expression := .leaf ⟨"A", .equal, v⟩
    let set : FastSet := ⟨"A", (ValueSet.empty.insert "1").insert "2"⟩
    Expression.parse "A=1|A=2".toList = .ok (.oneOf set) ∧
      Expression.parse "A=3 B=4|".toList = .ok (.binary .or (a "3") (.leaf ⟨"B", .equal, "4"⟩)) ∧
      Expression.parse "(A=1|A=2)&(A=3 B=4|)".toList =
        .ok (.binary .and (.binary .or (a "1") (a "2"))
          (.binary .or (a "3") (.leaf ⟨"B", .equal, "4"⟩))) := by
  intro a set
  have hset : Expression.parse "A=1|A=2".toList = .ok (.oneOf set) := rfl
  have hodd : Expression.parse "A=3 B=4|".toList =
      .ok (.binary .or (a "3") (.leaf ⟨"B", .equal, "4"⟩)) := rfl
  have htree : Expression.parseTree "A=1|A=2".toList =
      .ok (.binary .or (a "1") (a "2"), some set) := rfl
  have htree' : Expression.parseTree "A=3 B=4|".toList =
      .ok (.binary .or (a "3") (.leaf ⟨"B", .equal, "4"⟩), none) := rfl
  obtain ⟨t₁, set₁, t₂, set₂, h₁, h₂, hand, -⟩ := filters_compose hset hodd
  obtain ⟨rfl, -⟩ := Prod.mk.inj (Except.ok.inj (htree.symm.trans h₁))
  obtain ⟨rfl, -⟩ := Prod.mk.inj (Except.ok.inj (htree'.symm.trans h₂))
  exact ⟨hset, hodd, hand⟩

end Proctor.Filter
