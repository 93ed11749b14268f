import Proctor.Proofs.Filter.Reading

/-! # What the stacks record

Whatever has been taken is on the two stacks: the conditions in order, and each connective once.
Completing a connective only moves it, and every step keeps the record, so an accepted tree holds
exactly what its text says. -/

namespace Proctor.Filter

def Terminal.condition? : Terminal → Option Condition
  | condition c => some c
  | connective _ | opening | closing => none

def conditions (ts : List Terminal) : List Condition := ts.filterMap Terminal.condition?

@[simp] theorem conditions_append (s t : List Terminal) :
    conditions (s ++ t) = conditions s ++ conditions t := by simp [conditions]

@[simp] theorem conditions_condition (c : Condition) : conditions [.condition c] = [c] := rfl

@[simp] theorem conditions_connective (op : Connective) : conditions [.connective op] = [] := rfl

@[simp] theorem conditions_opening : conditions [.opening] = [] := rfl

@[simp] theorem conditions_closing : conditions [.closing] = [] := rfl

theorem reduce_eq_ok {op : Connective} {operands rest : List Expression} :
    reduce op operands = .ok rest ↔
      ∃ left right xs, operands = right :: left :: xs ∧ .binary op left right :: xs = rest := by
  match operands with
  | [] | [_] => simp [reduce]
  | right :: left :: xs =>
    simp only [reduce, Except.ok.injEq, List.cons.injEq]
    constructor
    · rintro rfl
      exact ⟨left, right, xs, ⟨rfl, rfl, rfl⟩, rfl⟩
    · rintro ⟨_, _, _, ⟨rfl, rfl, rfl⟩, h⟩
      exact h

namespace Reading

/-- Connectives are completed from the top. -/
inductive Reduces : List Pending → List Expression → List Pending → List Expression → Prop
  | refl (ops : List Pending) (xs : List Expression) : Reduces ops xs ops xs
  | step {op : Connective} {ops ops' : List Pending} {left right : Expression}
      {xs xs' : List Expression} (rest : Reduces ops (.binary op left right :: xs) ops' xs') :
      Reduces (.connective op :: ops) (right :: left :: xs) ops' xs'

theorem reduces_of_settle {op : Connective} {ops ops' : List Pending} {xs xs' : List Expression}
    (h : settle op ops xs = .ok (ops', xs')) : Reduces ops xs ops' xs' := by
  fun_induction settle op ops xs with
  | case1 =>
    obtain ⟨rfl, rfl⟩ : _ = ops' ∧ _ = xs' := by simpa using h
    exact .refl _ _
  | case2 ops xs top _ ih =>
    obtain ⟨ys, hy, h⟩ := bind_eq_ok.1 h
    obtain ⟨left, right, rest, rfl, rfl⟩ := reduce_eq_ok.1 hy
    exact .step (ih _ h)
  | case3 =>
    obtain ⟨rfl, rfl⟩ : _ = ops' ∧ _ = xs' := by simpa using h
    exact .refl _ _

theorem reduces_of_close {ops ops' : List Pending} {xs xs' : List Expression}
    (h : close ops xs = .ok (ops', xs')) : Reduces ops xs (.group :: ops') xs' := by
  fun_induction close ops xs with
  | case1 => simp at h
  | case2 =>
    obtain ⟨rfl, rfl⟩ : _ = ops' ∧ _ = xs' := by simpa using h
    exact .refl _ _
  | case3 xs op ops ih =>
    obtain ⟨ys, hy, h⟩ := bind_eq_ok.1 h
    obtain ⟨left, right, rest, rfl, rfl⟩ := reduce_eq_ok.1 hy
    exact .step (ih _ h)

theorem reduces_of_finish {ops : List Pending} {xs xs' : List Expression}
    (h : finish ops xs = .ok xs') : Reduces ops xs [] xs' := by
  fun_induction finish ops xs with
  | case1 =>
    obtain rfl : _ = xs' := by simpa using h
    exact .refl _ _
  | case2 => simp at h
  | case3 xs op ops ih =>
    obtain ⟨ys, hy, h⟩ := bind_eq_ok.1 h
    obtain ⟨left, right, rest, rfl, rfl⟩ := reduce_eq_ok.1 hy
    exact .step (ih _ h)

namespace Reduces
variable {ops ops' : List Pending} {xs xs' : List Expression}

theorem leaves_eq (h : Reduces ops xs ops' xs') :
    xs.reverse.flatMap Expression.leaves = xs'.reverse.flatMap Expression.leaves := by
  induction h with
  | refl => rfl
  | step _ ih => simpa [List.flatMap_append, Expression.leaves] using ih

theorem count_eq (h : Reduces ops xs ops' xs') (op : Connective) :
    (xs.flatMap Expression.connectives).count op + ops.count (.connective op) =
      (xs'.flatMap Expression.connectives).count op + ops'.count (.connective op) := by
  induction h with
  | refl => rfl
  | @step top _ _ _ _ _ _ _ ih =>
    rw [← ih]
    by_cases ht : top = op
    · simp [ht, Expression.connectives]
      omega
    · simp [ht, Expression.connectives]
      omega

theorem groups_eq (h : Reduces ops xs ops' xs') : ops.count .group = ops'.count .group := by
  induction h with
  | refl => rfl
  | step _ ih => simpa using ih

theorem isTree (h : Reduces ops xs ops' xs') (hx : ∀ e ∈ xs, e.IsTree) :
    ∀ e ∈ xs', e.IsTree := by
  induction h with
  | refl => exact hx
  | step _ ih =>
    simp only [List.forall_mem_cons] at hx ih
    exact ih ⟨⟨hx.2.1, hx.1⟩, hx.2.2⟩

end Reduces
end Reading

/-! ### The candidate for a set -/

/-- The candidate tells the truth about the terminals that it has seen. -/
def Candidate.Reflects (ts : List Terminal) : Candidate → Prop
  | untouched => .connective .and ∉ ts ∧ conditions ts = []
  | collecting set => .connective .and ∉ ts ∧ conditions ts ≠ [] ∧
    (∀ c ∈ conditions ts, c.operation = .equal ∧ c.name = set.name) ∧
    ∀ v, v ∈ set.values ↔ ∃ c ∈ conditions ts, c.value = v
  | ruledOut => .connective .and ∈ ts ∨
    ∀ name, ∃ c ∈ conditions ts, ¬ (c.operation = .equal ∧ c.name = name)

namespace Candidate
variable {ts : List Terminal} {k : Candidate}

theorem Reflects.and (ts : List Terminal) :
    Candidate.ruledOut.Reflects (ts ++ [.connective .and]) := .inl (by simp)

/-- A terminal that is neither a condition nor `&` changes nothing. -/
theorem Reflects.skip {t : Terminal} (h : k.Reflects ts) (hc : t.condition? = none)
    (ht : t ≠ .connective .and) : k.Reflects (ts ++ [t]) := by
  have hs : conditions (ts ++ [t]) = conditions ts := by simp [conditions, hc]
  have ha : .connective .and ∈ ts ++ [t] ↔ .connective .and ∈ ts := by simp [ht.symm]
  cases k <;> simpa only [Reflects, hs, ha] using h

theorem Reflects.add (h : k.Reflects ts) (c : Condition) :
    (k.add c).Reflects (ts ++ [.condition c]) := by
  have ha : .connective .and ∈ ts ++ [.condition c] ↔ .connective .and ∈ ts := by simp
  cases k with
  | untouched =>
    obtain ⟨hand, hnone⟩ := h
    by_cases hc : c.operation = .equal
    · rw [Candidate.add, if_pos hc]
      refine ⟨by rwa [ha], by simp, by simp [hnone, hc], fun v => ?_⟩
      simp [hnone, ValueSet.mem_insert, ValueSet.not_mem_empty, eq_comm]
    · rw [Candidate.add, if_neg hc]
      exact .inr fun name => ⟨c, by simp, fun hn => hc hn.1⟩
  | collecting set =>
    obtain ⟨hand, hsome, hall, hmem⟩ := h
    by_cases hc : c.operation = .equal ∧ c.name = set.name
    · rw [Candidate.add, if_pos hc]
      refine ⟨by rwa [ha], by simp, ?_, fun v => ?_⟩
      · intro d hd
        rcases List.mem_append.1 (conditions_append _ _ ▸ hd) with hd | hd
        · exact hall d hd
        · obtain rfl := List.mem_singleton.1 hd
          exact hc
      · rw [ValueSet.mem_insert, hmem v]
        simp [or_and_right, exists_or, or_comm, eq_comm]
    · rw [Candidate.add, if_neg hc]
      refine .inr fun name => ?_
      by_cases hn : set.name = name
      · exact ⟨c, by simp, by rwa [← hn]⟩
      · -- the conditions seen before are on another property
        obtain ⟨d, hd⟩ := List.exists_mem_of_ne_nil _ hsome
        exact ⟨d, by simp [hd], fun h => hn ((hall d hd).2.symm.trans h.2)⟩
  | ruledOut =>
    rcases h with h | h
    · exact .inl (ha.2 h)
    · refine .inr fun name => ?_
      obtain ⟨d, hd, hn⟩ := h name
      exact ⟨d, by simp [hd], hn⟩

end Candidate

/-! ### The record of a reading -/

namespace Reading

structure Records (ts : List Terminal) (r : Reading) : Prop where
  leaves : r.operands.reverse.flatMap Expression.leaves = conditions ts
  connectives : ∀ op, (r.operands.flatMap Expression.connectives).count op +
    r.operators.count (.connective op) = ts.count (.connective op)
  isTree : ∀ e ∈ r.operands, e.IsTree
  candidate : r.candidate.Reflects ts

variable {ts : List Terminal} {r r' : Reading}

theorem Records.start : Records [] start where
  leaves := rfl
  connectives _ := rfl
  isTree := by simp [Reading.start]
  candidate := ⟨by simp, rfl⟩

theorem Records.connective {op : Connective} (h : Records ts r)
    (ht : r.addConnective op = .ok r') : Records (ts ++ [.connective op]) r' := by
  obtain ⟨⟨ops, xs⟩, hs, ht⟩ := bind_eq_ok.1 ht
  obtain rfl := pure_eq_ok.1 ht
  have hr := reduces_of_settle hs
  refine ⟨?_, fun o => ?_, hr.isTree h.isTree, ?_⟩
  · simp [← hr.leaves_eq, h.leaves]
  · have hc := h.connectives o
    rw [hr.count_eq] at hc
    by_cases ho : op = o
    · simp [ho]
      omega
    · simp [ho]
      omega
  · cases op with
    | and => exact Candidate.Reflects.and ts
    | or => exact h.candidate.skip rfl (by simp)

theorem Records.opening (h : Records ts r) :
    Records (ts ++ [.opening]) { r with operators := .group :: r.operators } where
  leaves := by simpa using h.leaves
  connectives op := by simpa using h.connectives op
  isTree := h.isTree
  candidate := h.candidate.skip rfl (by simp)

theorem Records.closing {ops : List Pending} {xs : List Expression} (h : Records ts r)
    (hc : close r.operators r.operands = .ok (ops, xs)) :
    Records (ts ++ [.closing]) { r with operators := ops, operands := xs } := by
  have hr := reduces_of_close hc
  refine ⟨?_, fun op => ?_, hr.isTree h.isTree, h.candidate.skip rfl (by simp)⟩
  · simp [← hr.leaves_eq, h.leaves]
  · have hc := h.connectives op
    rw [hr.count_eq] at hc
    simpa using hc

theorem Records.condition (h : Records ts r) (c : Condition) :
    Records (ts ++ [.condition c]) (r.addCondition c) where
  leaves := by simp [addCondition, Expression.leaves, h.leaves]
  connectives op := by simpa [addCondition, Expression.connectives] using h.connectives op
  isTree := by
    simp only [addCondition, List.forall_mem_cons]
    exact ⟨trivial, h.isTree⟩
  candidate := h.candidate.add c

theorem Records.take {t : Terminal} (h : Records ts r) (ht : r.take t = .ok r') :
    Records (ts ++ [t]) r' := by
  cases t with
  | connective op => exact h.connective ht
  | opening =>
    obtain rfl : _ = r' := by simpa [Reading.take, step] using ht
    exact h.opening
  | closing =>
    obtain ⟨⟨ops, xs⟩, hc, ht⟩ := bind_eq_ok.1 ht
    obtain rfl := pure_eq_ok.1 ht
    exact h.closing hc
  | condition c =>
    obtain rfl : _ = r' := by simpa [Reading.take] using ht
    exact h.condition c

theorem Records.of_foldlM (h : ts.foldlM Reading.take Reading.start = .ok r) : Records ts r := by
  simpa using foldlM_induction Records.take Records.start h

end Reading

/-! ### Accepted filters -/

/-- The tree and the set that come of reading terminals say what the terminals say. -/
structure Faithful (ts : List Terminal) (tree : Expression) (set : Option FastSet) : Prop where
  isTree : tree.IsTree
  leaves : tree.leaves = conditions ts
  connectives : ∀ op, tree.connectives.count op = ts.count (.connective op)
  candidate : ∃ k : Candidate, k.Reflects ts ∧ k.set? = set

theorem faithful_of_reading {ts : List Terminal} {r : Reading} {tree : Expression}
    (hr : ts.foldlM Reading.take Reading.start = .ok r)
    (hf : Reading.finish r.operators r.operands = .ok [tree]) :
    Faithful ts tree r.candidate.set? := by
  have h := Reading.Records.of_foldlM hr
  have hd := Reading.reduces_of_finish hf
  refine ⟨hd.isTree h.isTree tree (by simp), ?_, fun op => ?_, _, h.candidate, rfl⟩
  · simpa [hd.leaves_eq] using h.leaves
  · have hc := h.connectives op
    rw [hd.count_eq] at hc
    simpa using hc

/-- What an accepted list of tokens comes to. -/
theorem faithful_of_ofTokens {tokens : List Token} {tree : Expression} {set : Option FastSet}
    (h : Expression.ofTokens tokens = .ok (tree, set)) :
    ∃ ts, terminals tokens = .ok ts ∧ Faithful ts tree set := by
  obtain ⟨-, ts, r, hts, hr, hf, rfl⟩ := Expression.ofTokens_eq_ok.1 h
  exact ⟨ts, hts, faithful_of_reading hr hf⟩

end Proctor.Filter
