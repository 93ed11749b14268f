import Proctor.Proofs.Filter.Composition

/-! # Why a filter of readable conditions is rejected

Where every condition of a text can be read, the terminals alone decide what becomes of it. If their
parentheses match, only operands can be missing or left over, and which of the two it is follows
from the numbers of conditions and connectives. -/

namespace Proctor.Filter

/-! ### From tokens to terminals -/

namespace Reading
variable {r r' : Reading} {ts : List Terminal}

theorem foldlM_conditions (cs : List Condition) (r : Reading) :
    (cs.map Terminal.condition).foldlM take r = .ok (cs.foldl addCondition r) := by
  induction cs generalizing r with
  | nil => rfl
  | cons c cs ih => exact ih (r.addCondition c)

theorem step_of_ofToken {token : Token} (h : Terminal.ofToken token = .ok ts) (r : Reading) :
    r.step token = ts.foldlM take r := by
  cases token with
  | connective op | opening | closing =>
    obtain rfl := Except.ok.inj h
    simp [take]
  | operand text =>
    obtain ⟨cs, -, rfl⟩ := Terminal.ofToken_operand.1 h
    rw [foldlM_conditions]
    exact step_eq_ok.2 ⟨_, h, foldlM_conditions cs r⟩

/-- Readable tokens are taken as their terminals are, whether this succeeds or not. -/
theorem foldlM_step_of_terminals {tokens : List Token} (h : terminals tokens = .ok ts)
    (r : Reading) : tokens.foldlM step r = ts.foldlM take r := by
  induction tokens generalizing ts r with
  | nil =>
    obtain rfl := Except.ok.inj h
    rfl
  | cons token tokens ih =>
    obtain ⟨s, s', hs, hs', rfl⟩ := terminals_cons_eq_ok.1 h
    rw [List.foldlM_cons, List.foldlM_append, step_of_ofToken hs]
    simp only [ih hs']

end Reading

/-! ### The operands that are left -/

/-- The operands that are left once the terminals are taken and everything is completed. -/
def operandsLeft (ts : List Terminal) : Except FilterError (List Expression) := do
  let r ← ts.foldlM Reading.take Reading.start
  Reading.finish r.operators r.operands

theorem Accepted.operandsLeft_eq {text : List Char} {ts : List Terminal} {r : Reading}
    {tree : Expression} (h : Accepted text ts r tree) : operandsLeft ts = .ok [tree] :=
  bind_eq_ok.2 ⟨r, h.reading, h.finish⟩

theorem exists_accepted {text : List Char} {ts : List Terminal} {tree : Expression}
    (hne : ¬ Token.hasEmptyParenthesis (Token.ofText text))
    (hts : terminals (Token.ofText text) = .ok ts) (h : operandsLeft ts = .ok [tree]) :
    ∃ r, Accepted text ts r tree := by
  obtain ⟨r, hr, hf⟩ := bind_eq_ok.1 h
  exact ⟨r, hne, hts, hr, hf⟩

/-- What is wrong with the operands that are left: there must be a single one. -/
def faultOf? : List Expression → Option FilterError
  | [] => some .missingOperand
  | [_] => none
  | _ => some .missingOperator

section
variable {text : List Char} {ts : List Terminal} {e : FilterError}

theorem parse_eq_error_of_parseTree (h : Expression.parseTree text = .error e) :
    Expression.parse text = .error e := by
  rw [Expression.parse, h]
  rfl

/-- A text of readable conditions is rejected for what goes wrong while they are taken, or for the
number of operands that are left. -/
theorem parse_eq_error (hne : ¬ Token.hasEmptyParenthesis (Token.ofText text))
    (hts : terminals (Token.ofText text) = .ok ts)
    (h : operandsLeft ts = .error e ∨ ∃ xs, operandsLeft ts = .ok xs ∧ faultOf? xs = some e) :
    Expression.parse text = .error e := by
  apply parse_eq_error_of_parseTree
  unfold Expression.parseTree Expression.ofTokens
  rw [if_neg hne]
  simp only [Reading.foldlM_step_of_terminals hts, bind_eq_error]
  simp only [operandsLeft, bind_eq_error, bind_eq_ok] at h
  rcases h with (h | ⟨r, hr, hf⟩) | ⟨xs, ⟨r, hr, hf⟩, hfault⟩
  · exact .inl h
  · exact .inr ⟨r, hr, .inl hf⟩
  · refine .inr ⟨r, hr, .inr ⟨xs, hf, ?_⟩⟩
    match xs, hfault with
    | [], hfault | _ :: _ :: _, hfault =>
      obtain rfl := Option.some.inj hfault
      rfl

end

/-! ### Counting operands -/

theorem faultOf?_of_two_le {xs : List Expression} (h : 2 ≤ xs.length) :
    faultOf? xs = some .missingOperator := by
  match xs, h with
  | _ :: _ :: _, _ => rfl

theorem Reading.operators_foldl_addCondition (cs : List Condition) (r : Reading) :
    (cs.foldl addCondition r).operators = r.operators := by
  induction cs generalizing r with
  | nil => rfl
  | cons c cs ih => exact ih (r.addCondition c)

theorem length_leaves {xs : List Expression} (h : ∀ e ∈ xs, e.IsTree) :
    (xs.reverse.flatMap Expression.leaves).length =
      (xs.flatMap Expression.connectives).length + xs.length := by
  induction xs with
  | nil => rfl
  | cons e xs ih =>
    obtain ⟨he, hxs⟩ := List.forall_mem_cons.1 h
    simp only [List.reverse_cons, List.flatMap_append, List.flatMap_cons, List.flatMap_nil,
      List.append_nil, List.length_append, List.length_cons, ih hxs, he.length_leaves]
    omega

/-- Each connective joins two operands into one. -/
theorem length_operandsLeft {ts : List Terminal} {xs : List Expression}
    (h : operandsLeft ts = .ok xs) : xs.length + joins ts = (conditions ts).length := by
  obtain ⟨r, hr, hf⟩ := bind_eq_ok.1 h
  have hrecords := Reading.Records.of_foldlM hr
  have hreduces := Reading.reduces_of_finish hf
  have hcount (op : Connective) :
      (xs.flatMap Expression.connectives).count op = ts.count (.connective op) := by
    rw [← hrecords.connectives, hreduces.count_eq]
    simp
  rw [← hrecords.leaves, hreduces.leaves_eq, length_leaves (hreduces.isTree hrecords.isTree),
    length_connectives, hcount, hcount, joins, Nat.add_comm]

/-- Conditions that no connective joins are all left. -/
theorem exists_operandsLeft_conditions (cs : List Condition) :
    ∃ xs, operandsLeft (cs.map .condition) = .ok xs ∧ xs.length = cs.length := by
  have hleft : operandsLeft (cs.map .condition) =
      .ok (cs.foldl Reading.addCondition Reading.start).operands := by
    rw [operandsLeft, Reading.foldlM_conditions, ok_bind, Reading.operators_foldl_addCondition]
    rfl
  have hlength := length_operandsLeft hleft
  have hjoins : joins (cs.map .condition) = 0 := by simp [joins, List.count_eq_zero]
  rw [hjoins, conditions_map_condition, Nat.add_zero] at hlength
  exact ⟨_, hleft, hlength⟩

/-! ### Matching parentheses -/

namespace Reading
variable {op : Connective} {ops : List Pending} {xs : List Expression} {e : FilterError}

theorem eq_of_reduce (h : reduce op xs = .error e) : e = .missingOperand := by
  match xs, h with
  | [], h | [_], h => exact (Except.error.inj h).symm

theorem eq_of_settle (h : settle op ops xs = .error e) : e = .missingOperand := by
  fun_induction settle op ops xs with
  | case1 => cases h
  | case2 ops xs top _ ih =>
    rcases bind_eq_error.1 h with h | ⟨ys, -, h⟩
    · exact eq_of_reduce h
    · exact ih ys h
  | case3 => cases h

theorem eq_of_close (hg : .group ∈ ops) (h : close ops xs = .error e) : e = .missingOperand := by
  fun_induction close ops xs with
  | case1 => cases hg
  | case2 => cases h
  | case3 xs op ops ih =>
    rcases bind_eq_error.1 h with h | ⟨ys, -, h⟩
    · exact eq_of_reduce h
    · exact ih ys (by simpa using hg) h

theorem eq_of_finish (hg : .group ∉ ops) (h : finish ops xs = .error e) : e = .missingOperand := by
  fun_induction finish ops xs with
  | case1 => cases h
  | case2 => simp at hg
  | case3 xs op ops ih =>
    rcases bind_eq_error.1 h with h | ⟨ys, -, h⟩
    · exact eq_of_reduce h
    · exact ih ys (by simpa using hg) h

theorem eq_of_take {t : Terminal} {ts : List Terminal} {r : Reading}
    (hc : Closes (r.operators.count .group) (t :: ts)) (h : r.take t = .error e) :
    e = .missingOperand := by
  cases t with
  | connective op =>
    rcases bind_eq_error.1 h with h | ⟨_, -, h⟩
    · exact eq_of_settle h
    · cases h
  | opening | condition => cases h
  | closing =>
    have hg : .group ∈ r.operators := by
      rw [← List.count_pos_iff, Nat.pos_iff_ne_zero]
      intro hn
      rw [hn] at hc
      exact hc
    rcases bind_eq_error.1 h with h | ⟨_, -, h⟩
    · exact eq_of_close hg h
    · cases h

/-- Where the parentheses match, all that can go wrong is that an operand is missing. -/
theorem eq_of_closes {ts : List Terminal} {r : Reading}
    (hc : Closes (r.operators.count .group) ts)
    (h : (ts.foldlM take r >>= fun r' => finish r'.operators r'.operands) = .error e) :
    e = .missingOperand := by
  induction ts generalizing r with
  | nil => exact eq_of_finish (List.count_eq_zero.1 hc) h
  | cons t ts ih =>
    rw [List.foldlM_cons, bind_assoc] at h
    rcases bind_eq_error.1 h with h | ⟨r', ht, h⟩
    · exact eq_of_take hc h
    · exact ih ((closes_take ht).1 hc) h

end Reading

/-- Without more conditions than connectives, an operand is missing. -/
theorem parse_of_short {text : List Char} {ts : List Terminal}
    (hne : ¬ Token.hasEmptyParenthesis (Token.ofText text))
    (hts : terminals (Token.ofText text) = .ok ts) (hc : Closes 0 ts)
    (hn : (conditions ts).length ≤ joins ts) :
    Expression.parse text = .error .missingOperand := by
  refine parse_eq_error hne hts ?_
  cases h : operandsLeft ts with
  | error e =>
    obtain rfl := Reading.eq_of_closes (r := Reading.start) hc h
    exact .inl rfl
  | ok xs =>
    have hlength := length_operandsLeft h
    obtain rfl : xs = [] := List.length_eq_zero_iff.1 (by omega)
    exact .inr ⟨[], rfl, rfl⟩

end Proctor.Filter
