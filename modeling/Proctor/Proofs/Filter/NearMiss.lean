import Proctor.Proofs.Filter.Rejection

/-! # Faults at the ends of a filter

A parenthesis or a connective too many before, behind or between accepted filters is reported as
what it is, whatever the filters are made of: reading them never fails for another reason first. -/

namespace Proctor.Filter
open Proctor.Text

/-! ### Parentheses of which one is missing -/

namespace Reading
variable {ops₁ : List Pending} {xs₁ xs' : List Expression}

/-- A `(` that is open at the end is met once everything above it is completed. -/
theorem finish_above (h : finish ops₁ xs₁ = .ok xs') (ops : List Pending)
    (xs : List Expression) :
    finish (ops₁ ++ .group :: ops) (xs₁ ++ xs) = .error .missingCloseParenthesis := by
  fun_induction finish ops₁ xs₁ with
  | case1 => rfl
  | case2 => cases h
  | case3 xs₁ op ops₁ ih =>
    obtain ⟨ys, hy, h⟩ := bind_eq_ok.1 h
    have ih := ih ys h
    simp [finish, reduce_above hy, ok_bind, ih]

/-- What the end of the text would complete, a `)` completes in search of its `(`. -/
theorem close_of_finish_unopened (h : finish ops₁ xs₁ = .ok xs') :
    close ops₁ xs₁ = .error .missingOpenParenthesis := by
  fun_induction finish ops₁ xs₁ with
  | case1 => rfl
  | case2 => cases h
  | case3 xs₁ op ops₁ ih =>
    obtain ⟨ys, hy, h⟩ := bind_eq_ok.1 h
    rw [close, hy]
    exact ih ys h

end Reading

namespace Accepted
variable {f g : List Char} {ts ts₁ ts₂ : List Terminal} {r r₁ r₂ : Reading}
  {tree t₁ t₂ : Expression}

theorem parse_opening (h : Accepted f ts r tree) :
    Expression.parse ('(' :: f) = .error .missingCloseParenthesis := by
  have htokens : Token.ofText ('(' :: f) = .opening :: Token.ofText f :=
    Token.ofText_cons_separator rfl
  have hts : Filter.terminals (Token.ofText ('(' :: f)) = .ok (.opening :: ts) := by
    rw [htokens]
    exact terminals_cons_eq_ok.2 ⟨_, _, rfl, h.terminals, rfl⟩
  refine parse_eq_error ?_ hts (.inl ?_)
  · rw [htokens]
    exact Token.not_hasEmptyParenthesis_append (a := [.opening]) nofun h.parentheses
      fun _ => h.not_closing_first
  · have hbelow : Reading.Above [] [] Reading.start ⟨[.group], [], .untouched⟩ := ⟨rfl, rfl⟩
    obtain ⟨s, hs, habove⟩ := hbelow.foldlM h.reading
    refine bind_eq_error.2 (.inr ⟨s, foldlM_cons_eq_ok.2 ⟨_, rfl, hs⟩, ?_⟩)
    rw [habove.operators, habove.operands]
    exact Reading.finish_above h.finish [] []

theorem parse_closing (h : Accepted f ts r tree) :
    Expression.parse (f ++ [')']) = .error .missingOpenParenthesis := by
  have htokens : Token.ofText (f ++ [')']) = Token.ofText f ++ [.closing] :=
    Token.ofText_concat_separator h.wellEscaped rfl
  have hts : Filter.terminals (Token.ofText (f ++ [')'])) = .ok (ts ++ [.closing]) := by
    rw [htokens]
    exact terminals_append_eq_ok.2 ⟨_, _, h.terminals, rfl, rfl⟩
  refine parse_eq_error ?_ hts (.inl ?_)
  · rw [htokens]
    exact Token.not_hasEmptyParenthesis_append h.parentheses nofun
      fun hlast => absurd hlast h.not_opening_last
  · have hclose : r.take .closing = .error .missingOpenParenthesis :=
      bind_eq_error.2 (.inl (Reading.close_of_finish_unopened h.finish))
    refine bind_eq_error.2 (.inl ?_)
    rw [List.foldlM_append, h.reading, ok_bind, List.foldlM_cons, hclose]
    rfl

/-! ### A connective without an operand, and filters without a connective -/

theorem length_conditions (h : Accepted f ts r tree) : (conditions ts).length = joins ts + 1 :=
  h.faithful.length_conditions

theorem parse_concat_connective (h : Accepted f ts r tree) (op : Connective) :
    Expression.parse (f ++ [op.symbol]) = .error .missingOperand := by
  have htokens : Token.ofText (f ++ [op.symbol]) = Token.ofText f ++ [.connective op] :=
    Token.ofText_concat_separator h.wellEscaped (Token.ofSeparator?_symbol op)
  have hts : Filter.terminals (Token.ofText (f ++ [op.symbol])) = .ok (ts ++ [.connective op]) := by
    rw [htokens]
    exact terminals_append_eq_ok.2 ⟨_, _, h.terminals, rfl, rfl⟩
  refine parse_of_short ?_ hts ?_ ?_
  · rw [htokens]
    exact Token.not_hasEmptyParenthesis_append h.parentheses nofun (by simp)
  · exact h.closes.append (m := 0) (by simp [Closes])
  · simp [h.length_conditions]

theorem parse_cons_connective (h : Accepted f ts r tree) (op : Connective) :
    Expression.parse (op.symbol :: f) = .error .missingOperand := by
  have htokens : Token.ofText (op.symbol :: f) = .connective op :: Token.ofText f :=
    Token.ofText_cons_separator (Token.ofSeparator?_symbol op)
  have hts : Filter.terminals (Token.ofText (op.symbol :: f)) = .ok (.connective op :: ts) := by
    rw [htokens]
    exact terminals_cons_eq_ok.2 ⟨_, _, rfl, h.terminals, rfl⟩
  refine parse_of_short ?_ hts ?_ ?_
  · rw [htokens]
    exact Token.not_hasEmptyParenthesis_append (a := [.connective op]) nofun h.parentheses
      (by simp)
  · simpa [Closes] using h.closes
  · have hconditions : conditions (.connective op :: ts) = conditions ts := rfl
    rw [joins_cons, joins_connective, hconditions, h.length_conditions]
    omega

theorem parse_grouped_grouped (hf : Accepted f ts₁ r₁ t₁) (hg : Accepted g ts₂ r₂ t₂) :
    Expression.parse (grouped f ++ grouped g) = .error .missingOperator := by
  have htokens : Token.ofText (grouped f ++ grouped g) =
      (.opening :: Token.ofText f ++ [.closing]) ++ (.opening :: Token.ofText g ++ [.closing]) := by
    have hsplit : grouped f ++ grouped g = grouped f ++ '(' :: (g ++ [')']) := rfl
    rw [hsplit, Token.ofText_append_separator hf.wellEscaped.grouped rfl,
      Token.ofText_grouped hf.wellEscaped, Token.ofText_concat_separator hg.wellEscaped rfl]
    rfl
  have hts : Filter.terminals (Token.ofText (grouped f ++ grouped g)) =
      .ok ((.opening :: ts₁ ++ [.closing]) ++ (.opening :: ts₂ ++ [.closing])) := by
    rw [htokens]
    exact terminals_append_eq_ok.2 ⟨_, _, hf.terminals_grouped, hg.terminals_grouped, rfl⟩
  refine parse_eq_error ?_ hts (.inr ?_)
  · rw [htokens]
    exact Token.not_hasEmptyParenthesis_append hf.not_hasEmptyParenthesis_grouped
      hg.not_hasEmptyParenthesis_grouped (by simp)
  · -- each group leaves its tree, and no connective joins the two
    obtain ⟨k₁, hk₁⟩ := Reading.foldlM_group hf.reading hf.finish [] [] .untouched
    obtain ⟨k₂, hk₂⟩ := Reading.foldlM_group hg.reading hg.finish [] [t₁] k₁
    exact ⟨[t₂, t₁], bind_eq_ok.2 ⟨_, foldlM_append_eq_ok.2 ⟨_, hk₁, hk₂⟩, rfl⟩, rfl⟩

end Accepted

/-! ### Empty parentheses -/

theorem parse_of_hasEmptyParenthesis {text : List Char}
    (h : Token.hasEmptyParenthesis (Token.ofText text)) :
    Expression.parse text = .error .emptyParenthesis := by
  apply parse_eq_error_of_parseTree
  unfold Expression.parseTree Expression.ofTokens
  rw [if_pos h]
  rfl

/-- Whatever stands before and behind, parentheses with nothing but blanks between are two tokens
side by side. -/
theorem hasEmptyParenthesis_of_blank {front blank back : List Char} (hf : Sealed front)
    (hb : allBlank blank) :
    Token.hasEmptyParenthesis (Token.ofText (front ++ '(' :: (blank ++ ')' :: back))) := by
  rw [Token.ofText_sealed_append hf rfl, Token.ofText_append_separator (.of_blank hb) rfl,
    Token.ofText_of_blank hb, Token.hasEmptyParenthesis_iff]
  exact ⟨Token.ofText front, Token.ofText back, by simp⟩

/-- A fault at the ends of accepted filters is reported as what it is: an open parenthesis, one that
was not opened, a connective at either end, and two groups with no connective between. Empty
parentheses are reported before anything else that is wrong with a text. -/
theorem near_misses_are_reported {f g : List Char} {e₁ e₂ : Expression}
    (hf : Expression.parse f = .ok e₁) (hg : Expression.parse g = .ok e₂) :
    Expression.parse ('(' :: f) = .error .missingCloseParenthesis ∧
      Expression.parse (f ++ [')']) = .error .missingOpenParenthesis ∧
      (∀ op : Connective, Expression.parse (f ++ [op.symbol]) = .error .missingOperand ∧
        Expression.parse (op.symbol :: f) = .error .missingOperand) ∧
      Expression.parse (grouped f ++ grouped g) = .error .missingOperator ∧
      ∀ front blank back : List Char, Sealed front → allBlank blank →
        Expression.parse (front ++ '(' :: (blank ++ ')' :: back)) = .error .emptyParenthesis := by
  obtain ⟨ts₁, r₁, t₁, h₁, -⟩ := Accepted.of_parse hf
  obtain ⟨ts₂, r₂, t₂, h₂, -⟩ := Accepted.of_parse hg
  refine ⟨h₁.parse_opening, h₁.parse_closing, fun op => ?_, h₁.parse_grouped_grouped h₂, ?_⟩
  · exact ⟨h₁.parse_concat_connective op, h₁.parse_cons_connective op⟩
  · intro front blank back hfront hblank
    exact parse_of_hasEmptyParenthesis (hasEmptyParenthesis_of_blank hfront hblank)

/-- A connective too many is no better for standing behind a filter that has its last one without an
operand, and empty parentheses win over a bad escape and an unmatched `)`. -/
theorem odd_filter_has_near_misses :
    Expression.parse "(A=1 B=2|".toList = .error .missingCloseParenthesis ∧
      Expression.parse "A=1 B=2|&".toList = .error .missingOperand ∧
      Expression.parse "|A=1 B=2|".toList = .error .missingOperand ∧
      Expression.parse "(A=1 B=2|)(C=\\)&D~x)".toList = .error .missingOperator ∧
      Expression.parse ")\\x\\(( \t)&".toList = .error .emptyParenthesis := by
  have hf : Expression.parse "A=1 B=2|".toList =
      .ok (.binary .or (.leaf ⟨"A", .equal, "1"⟩) (.leaf ⟨"B", .equal, "2"⟩)) := rfl
  have hg : Expression.parse "C=\\)&D~x".toList =
      .ok (.binary .and (.leaf ⟨"C", .equal, ")"⟩) (.leaf ⟨"D", .contains, "x"⟩)) := rfl
  obtain ⟨hopen, -, hconnective, hgroups, hempty⟩ := near_misses_are_reported hf hg
  have hfront : Sealed ")\\x\\(".toList := .plain (by decide) (.pair (.pair .nil))
  exact ⟨hopen, (hconnective .and).1, (hconnective .or).2, hgroups,
    hempty _ [' ', '\t'] ['&'] hfront (by decide)⟩

end Proctor.Filter
