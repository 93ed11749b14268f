import Proctor.Filter.Expression

/-! # Expression trees

The leaves and connectives of a tree from left to right, and which trees only list the values of one
property. Such a tree holds as soon as one of its leaves does. -/

namespace Proctor.Filter.Expression

def leaves : Expression → List Condition
  | leaf c => [c]
  | binary _ left right => left.leaves ++ right.leaves
  | oneOf _ => []

def connectives : Expression → List Connective
  | binary op left right => left.connectives ++ op :: right.connectives
  | leaf _ | oneOf _ => []

/-- No set stands in the tree. -/
def IsTree : Expression → Prop
  | leaf _ => True
  | binary _ left right => left.IsTree ∧ right.IsTree
  | oneOf _ => False

/-- The tree lists values of the property `name`: it joins equalities with that name by `|`. -/
def Lists (tree : Expression) (name : String) : Prop :=
  .and ∉ tree.connectives ∧ ∀ c ∈ tree.leaves, c.operation = .equal ∧ c.name = name

theorem IsTree.length_leaves {tree : Expression} (h : tree.IsTree) :
    tree.leaves.length = tree.connectives.length + 1 := by
  induction tree with
  | leaf c => rfl
  | binary op left right ihl ihr =>
    have hl := ihl h.1
    have hr := ihr h.2
    simp only [leaves, connectives, List.length_append, List.length_cons]
    omega
  | oneOf set => exact h.elim

theorem IsTree.leaves_ne_nil {tree : Expression} (h : tree.IsTree) : tree.leaves ≠ [] := by
  intro he
  have hl := h.length_leaves
  simp [he] at hl

/-- Whether an expression holds, given the answers for all properties. -/
def holds (lookup : String → Option PropertyValue) (e : Expression) : Bool :=
  Id.run (e.evaluate fun name => pure (lookup name))

variable {lookup : String → Option PropertyValue}

@[simp] theorem holds_leaf (c : Condition) :
    (leaf c).holds lookup = c.holds (lookup c.lookupName) := rfl

@[simp] theorem holds_binary (op : Connective) (left right : Expression) :
    (binary op left right).holds lookup = op.combine (left.holds lookup) (right.holds lookup) :=
  rfl

@[simp] theorem holds_oneOf (set : FastSet) :
    (oneOf set).holds lookup = set.holds some (lookup set.lookupName) := rfl

theorem holds_of_or_only {tree : Expression} (ht : tree.IsTree) (h : .and ∉ tree.connectives) :
    tree.holds lookup = tree.leaves.any fun c => c.holds (lookup c.lookupName) := by
  induction tree with
  | leaf c => simp [leaves]
  | binary op left right ihl ihr =>
    simp only [connectives, List.mem_append, List.mem_cons, not_or] at h
    cases op with
    | and => exact absurd rfl h.2.1
    | or => simp [Connective.combine, leaves, ihl ht.1 h.1, ihr ht.2 h.2.2]
  | oneOf set => exact ht.elim

end Proctor.Filter.Expression
