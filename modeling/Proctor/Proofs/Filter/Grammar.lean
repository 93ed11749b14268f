import Proctor.Filter.Expression

/-! # The grammar of filters

A filter is a chain of conjunctions joined by `|`, a conjunction is a chain of atoms joined by `&`,
and an atom is a condition or a filter in parentheses. A derivation has the tree in which each chain
leans to the left. What is derived alternates between operands and connectives. -/

namespace Proctor.Filter

/-- A token, with the condition that an operand is read as in place of its text. -/
inductive Terminal
  | connective (op : Connective)
  | opening
  | closing
  | condition (c : Condition)
  deriving Repr, DecidableEq

/-- The parts of a filter: atoms, and chains of parts joined by one connective. -/
inductive Level
  | atom
  | chain (op : Connective)
  deriving Repr, DecidableEq

/-- The parts that a connective joins. -/
def Level.operand : Connective → Level
  | .or => chain .and
  | .and => atom

abbrev Level.filter : Level := chain .or

inductive Derives : Level → List Terminal → Expression → Prop
  | condition (c : Condition) : Derives .atom [.condition c] (.leaf c)
  | group {ts : List Terminal} {tree : Expression} (inner : Derives .filter ts tree) :
      Derives .atom (.opening :: ts ++ [.closing]) tree
  | chain (op : Connective) {ts : List Terminal} {tree : Expression}
      {rest : List (List Terminal × Expression)} (first : Derives (.operand op) ts tree)
      (others : ∀ part ∈ rest, Derives (.operand op) part.1 part.2) :
      Derives (.chain op) (ts ++ rest.flatMap fun part => .connective op :: part.1)
        (rest.foldl (fun tree part => .binary op tree part.2) tree)

namespace Derives
variable {ts s : List Terminal} {tree t : Expression} {op : Connective}

theorem single (h : Derives (.operand op) ts tree) : Derives (.chain op) ts tree := by
  simpa using @Derives.chain op ts tree [] h (by simp)

theorem filter_of_atom (h : Derives .atom ts tree) : Derives .filter ts tree :=
  .single (.single h)

theorem snoc (h : Derives (.chain op) ts tree) (hs : Derives (.operand op) s t) :
    Derives (.chain op) (ts ++ .connective op :: s) (.binary op tree t) := by
  cases h with
  | @chain _ ts tree rest first others =>
    have hall : ∀ part ∈ rest ++ [(s, t)], Derives (.operand op) part.1 part.2 := by
      intro part hp
      rcases List.mem_append.1 hp with hp | hp
      · exact others part hp
      · obtain rfl := List.mem_singleton.1 hp
        exact hs
    have h := Derives.chain op first hall
    simpa [List.flatMap_append, List.foldl_append] using h

/-- A connective and an atom make a longer filter of a filter, whichever connective it is. -/
theorem extend (h : Derives .filter ts tree) (op : Connective) (hs : Derives .atom s t) :
    ∃ tree', Derives .filter (ts ++ .connective op :: s) tree' := by
  cases op with
  | or => exact ⟨_, h.snoc (.single hs)⟩
  | and =>
    cases h with
    | @chain _ ts tree rest first others =>
      rcases List.eq_nil_or_concat rest with rfl | ⟨init, last, rfl⟩
      · simp only [List.flatMap_nil, List.append_nil]
        exact ⟨_, .single (first.snoc hs)⟩
      · -- the atom joins the last conjunction
        have hinit : ∀ part ∈ init, Derives (.chain .and) part.1 part.2 :=
          fun part hp => others part (by simp [hp])
        have hlast : Derives (.chain .and) last.1 last.2 := others last (by simp)
        have h := Derives.snoc (.chain .or first hinit) (hlast.snoc hs)
        exact ⟨_, by simpa [List.flatMap_append] using h⟩

end Derives

namespace Terminal

def startsOperand : Terminal → Bool
  | condition _ | opening => true
  | connective _ | closing => false

def endsOperand : Terminal → Bool
  | condition _ | closing => true
  | connective _ | opening => false

/-- Takes a terminal after an operand (`true`) or where one is due (`false`). -/
def follow (ended : Bool) (t : Terminal) : Option Bool :=
  if t.startsOperand = ended then none else some t.endsOperand

end Terminal

/-- Operands and connectives alternate, from an operand to an operand. -/
def Alternates (ts : List Terminal) : Prop := ts.foldlM Terminal.follow false = some true

/-- No operand follows at once upon another. -/
def Separated (ts : List Terminal) : Prop :=
  ∀ front a b back, ts = front ++ a :: b :: back → a.endsOperand → ¬ b.startsOperand

theorem alternates_chain {op : Connective} {rest : List (List Terminal × Expression)}
    (h : ∀ part ∈ rest, Alternates part.1) :
    (rest.flatMap fun part => .connective op :: part.1).foldlM Terminal.follow true =
      some true := by
  induction rest with
  | nil => rfl
  | cons part rest ih =>
    have hp : part.1.foldlM Terminal.follow false = some true := h part (by simp)
    simp only [List.flatMap_cons, List.cons_append, List.foldlM_cons, List.foldlM_append]
    show (part.1.foldlM Terminal.follow false).bind _ = _
    rw [hp]
    exact ih fun p hp => h p (by simp [hp])

theorem Derives.alternates {level : Level} {ts : List Terminal} {tree : Expression}
    (h : Derives level ts tree) : Alternates ts := by
  induction h with
  | condition c => rfl
  | @group ts tree _ ih =>
    have ih : ts.foldlM Terminal.follow false = some true := ih
    simp only [Alternates, List.cons_append, List.foldlM_cons, List.foldlM_append]
    show (ts.foldlM Terminal.follow false).bind _ = _
    rw [ih]
    rfl
  | chain op _ _ ih ihs =>
    rw [Alternates, List.foldlM_append, ih]
    exact alternates_chain ihs

theorem Alternates.adjacent {ts front back : List Terminal} {a b : Terminal} (h : Alternates ts)
    (he : ts = front ++ a :: b :: back) : b.startsOperand ≠ a.endsOperand := by
  rw [Alternates, he, List.foldlM_append] at h
  obtain ⟨x, -, h⟩ := Option.bind_eq_some_iff.1 h
  simp only [List.foldlM_cons] at h
  obtain ⟨y, ha, h⟩ := Option.bind_eq_some_iff.1 h
  obtain ⟨z, hb, -⟩ := Option.bind_eq_some_iff.1 h
  obtain ⟨-, rfl⟩ : a.startsOperand ≠ x ∧ a.endsOperand = y := by
    simpa [Terminal.follow] using ha
  exact (show b.startsOperand ≠ a.endsOperand ∧ b.endsOperand = z by
    simpa [Terminal.follow] using hb).1

theorem Alternates.separated {ts : List Terminal} (h : Alternates ts) : Separated ts := by
  intro front a b back he ha hb
  exact h.adjacent he (by rw [ha, hb])

end Proctor.Filter
