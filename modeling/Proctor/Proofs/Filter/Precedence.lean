import Proctor.Proofs.Filter.Stacks

/-! # Reading derived terminals

Reading what the grammar derives from any state puts its tree on the stack of operands, but for
connectives that still wait; each of these binds at least as tightly as the part that was read, so
whatever comes next completes it first. -/

namespace Proctor.Filter

def Level.strength : Level → Nat
  | .chain op => op.strength
  | .atom => 3

theorem Level.strength_operand (op : Connective) :
    (Level.operand op).strength = op.strength + 1 := by
  cases op <;> rfl

namespace Reading
variable {op : Connective} {waiting : List Connective} {ops : List Pending}
  {xs : List Expression} {n : Nat}

/-- Completes connectives one after the other. -/
def unwind : List Connective → List Expression → Except FilterError (List Expression)
  | [], operands => .ok operands
  | op :: waiting, operands => do unwind waiting (← reduce op operands)

theorem unwind_append (a b : List Connective) (xs : List Expression) :
    unwind (a ++ b) xs = unwind a xs >>= unwind b := by
  induction a generalizing xs with
  | nil => rfl
  | cons op a ih => simp [unwind, ih]

theorem settle_waiting (h : ∀ o ∈ waiting, op.strength ≤ o.strength) :
    settle op (waiting.map .connective ++ ops) xs = unwind waiting xs >>= settle op ops := by
  induction waiting generalizing xs with
  | nil => rfl
  | cons top waiting ih =>
    obtain ⟨htop, hrest⟩ := List.forall_mem_cons.1 h
    simp [settle, unwind, Nat.not_lt.2 htop, ih hrest]

theorem close_waiting :
    close (waiting.map .connective ++ ops) xs = unwind waiting xs >>= close ops := by
  induction waiting generalizing xs with
  | nil => rfl
  | cons top waiting ih => simp [close, unwind, ih]

theorem finish_waiting :
    finish (waiting.map .connective ++ ops) xs = unwind waiting xs >>= finish ops := by
  induction waiting generalizing xs with
  | nil => rfl
  | cons top waiting ih => simp [finish, unwind, ih]

/-- The connective on top, if there is one, binds less tightly than `n`. -/
def Loose (n : Nat) : List Pending → Prop
  | .connective op :: _ => op.strength < n
  | .group :: _ | [] => True

theorem Loose.mono {m : Nat} (h : Loose n ops) (hnm : n ≤ m) : Loose m ops := by
  match ops with
  | [] | .group :: _ => trivial
  | .connective op :: _ => exact Nat.lt_of_lt_of_le h hnm

theorem settle_of_loose (h : Loose op.strength ops) : settle op ops xs = .ok (ops, xs) := by
  match ops with
  | [] | .group :: _ => rfl
  | .connective top :: _ =>
    have h : top.strength < op.strength := h
    simp [settle, h]

/-- Up to waiting connectives that bind at least as tightly as `n`, the stacks are as given. -/
def Settled (n : Nat) (ops : List Pending) (xs : List Expression) (r : Reading) : Prop :=
  ∃ waiting, r.operators = waiting.map .connective ++ ops ∧ (∀ o ∈ waiting, n ≤ o.strength) ∧
    unwind waiting r.operands = .ok xs

/-- From any state in which a part of strength `n` may begin, the terminals are read as the tree. -/
def Reads (n : Nat) (ts : List Terminal) (tree : Expression) : Prop :=
  ∀ ops xs k, Loose n ops →
    ∃ r, ts.foldlM take ⟨ops, xs, k⟩ = .ok r ∧ Settled n ops (tree :: xs) r

theorem reads_condition (c : Condition) : Reads n [.condition c] (.leaf c) :=
  fun ops xs k _ => ⟨_, rfl, [], rfl, by simp, rfl⟩

theorem Reads.group {ts : List Terminal} {tree : Expression} (h : Reads 1 ts tree) :
    Reads n (.opening :: ts ++ [.closing]) tree := by
  intro ops xs k _
  obtain ⟨r, hr, waiting, ho, -, hu⟩ := h (.group :: ops) xs k trivial
  refine ⟨⟨ops, tree :: xs, r.candidate⟩, ?_, [], rfl, by simp, rfl⟩
  rw [List.cons_append, List.foldlM_cons]
  show (ts ++ [Terminal.closing]).foldlM take ⟨.group :: ops, xs, k⟩ = _
  rw [List.foldlM_append, hr]
  simp [ok_bind, take, step, ho, close_waiting, hu, close, pure, Except.pure]

/-- One more operand of a chain. -/
theorem Settled.operand {r : Reading} {ts : List Terminal} {tree t : Expression}
    (h : Settled op.strength ops (tree :: xs) r) (hl : Loose op.strength ops)
    (ht : Reads (op.strength + 1) ts t) :
    ∃ r', (.connective op :: ts).foldlM take r = .ok r' ∧
      Settled op.strength ops (.binary op tree t :: xs) r' := by
  obtain ⟨waiting, ho, hs, hu⟩ := h
  obtain ⟨k, hk⟩ : ∃ k, r.take (.connective op) = .ok ⟨.connective op :: ops, tree :: xs, k⟩ := by
    simp only [take, step, addConnective, ho, settle_waiting hs, hu, ok_bind, settle_of_loose hl]
    exact ⟨_, rfl⟩
  obtain ⟨r', hr, waiting', ho', hs', hu'⟩ :=
    ht (.connective op :: ops) (tree :: xs) k (Nat.lt_succ_self _)
  refine ⟨r', ?_, waiting' ++ [op], by simp [ho'], ?_, ?_⟩
  · rw [List.foldlM_cons, hk, ok_bind, hr]
  · intro o hmem
    rcases List.mem_append.1 hmem with hmem | hmem
    · exact Nat.le_of_succ_le (hs' o hmem)
    · exact Nat.le_of_eq (congrArg _ (List.mem_singleton.1 hmem).symm)
  · rw [unwind_append, hu']
    rfl

theorem Settled.chain {rest : List (List Terminal × Expression)} {r : Reading}
    {tree : Expression} (h : Settled op.strength ops (tree :: xs) r)
    (hl : Loose op.strength ops)
    (others : ∀ part ∈ rest, Reads (op.strength + 1) part.1 part.2) :
    ∃ r', (rest.flatMap fun part => .connective op :: part.1).foldlM take r = .ok r' ∧
      Settled op.strength ops
        (rest.foldl (fun tree part => .binary op tree part.2) tree :: xs) r' := by
  induction rest generalizing r tree with
  | nil => exact ⟨r, rfl, h⟩
  | cons part rest ih =>
    obtain ⟨hpart, hrest⟩ := List.forall_mem_cons.1 others
    obtain ⟨r₁, h₁, hs₁⟩ := h.operand hl hpart
    obtain ⟨r₂, h₂, hs₂⟩ := ih hs₁ hrest
    refine ⟨r₂, ?_, hs₂⟩
    rw [List.flatMap_cons, List.foldlM_append, h₁]
    exact h₂

theorem reads_of_derives {level : Level} {ts : List Terminal} {tree : Expression}
    (h : Derives level ts tree) : Reads level.strength ts tree := by
  induction h with
  | condition c => exact reads_condition c
  | group _ ih => exact ih.group
  | @chain op ts tree rest _ _ ih ihs =>
    rw [Level.strength_operand] at ih
    simp only [Level.strength_operand] at ihs
    intro ops xs k hl
    have hl : Loose op.strength ops := hl
    obtain ⟨r₁, h₁, waiting, ho, hs, hu⟩ := ih ops xs k (hl.mono (Nat.le_succ _))
    have hs₁ : Settled op.strength ops (tree :: xs) r₁ :=
      ⟨waiting, ho, fun o hm => Nat.le_of_succ_le (hs o hm), hu⟩
    obtain ⟨r₂, h₂, hs₂⟩ := hs₁.chain hl ihs
    refine ⟨r₂, ?_, hs₂⟩
    rw [List.foldlM_append, h₁]
    exact h₂

end Reading

theorem finish_of_derives {ts : List Terminal} {tree : Expression}
    (h : Derives .filter ts tree) :
    ∃ r, ts.foldlM Reading.take Reading.start = .ok r ∧
      Reading.finish r.operators r.operands = .ok [tree] := by
  obtain ⟨r, hr, waiting, ho, -, hu⟩ := Reading.reads_of_derives h [] [] .untouched trivial
  refine ⟨r, hr, ?_⟩
  rw [ho, Reading.finish_waiting, hu]
  rfl

end Proctor.Filter
