import Proctor.Proofs.Filter.Rejection

/-! # Other conditions in the same places

Which conditions a filter has plays no part in how its tree is built. Where every condition is
replaced by another, the stacks take the same steps, fail at the same places, and end in the same
tree with its leaves replaced. -/

namespace Proctor.Filter

/-- Puts another condition in the place of each. -/
def Terminal.mapCondition (φ : Condition → Condition) : Terminal → Terminal
  | condition c => condition (φ c)
  | connective op => connective op
  | opening => opening
  | closing => closing

def Expression.mapLeaves (φ : Condition → Condition) : Expression → Expression
  | leaf c => leaf (φ c)
  | binary op left right => binary op (left.mapLeaves φ) (right.mapLeaves φ)
  | oneOf set => oneOf set

section
variable (φ : Condition → Condition)

theorem reduce_map (op : Connective) (xs : List Expression) :
    reduce op (xs.map (Expression.mapLeaves φ)) =
      (reduce op xs).map (List.map (Expression.mapLeaves φ)) := by
  match xs with
  | [] | [_] | _ :: _ :: _ => rfl

namespace Reading

theorem settle_map (op : Connective) (ops : List Pending) (xs : List Expression) :
    settle op ops (xs.map (Expression.mapLeaves φ)) =
      (settle op ops xs).map (Prod.map id (List.map (Expression.mapLeaves φ))) := by
  fun_induction settle op ops xs with
  | case1 top ops xs hlt =>
    rw [settle, if_pos hlt]
    rfl
  | case2 top ops xs hlt ih =>
    rw [settle, if_neg hlt, reduce_map]
    exact map_bind ih
  | case3 ops xs hnot =>
    cases ops with
    | nil => rfl
    | cons pending ops =>
      cases pending with
      | group => rfl
      | connective top => exact (hnot top ops rfl).elim

theorem close_map (ops : List Pending) (xs : List Expression) :
    close ops (xs.map (Expression.mapLeaves φ)) =
      (close ops xs).map (Prod.map id (List.map (Expression.mapLeaves φ))) := by
  fun_induction close ops xs with
  | case1 | case2 => rfl
  | case3 op ops xs ih =>
    rw [close, reduce_map]
    exact map_bind ih

theorem finish_map (ops : List Pending) (xs : List Expression) :
    finish ops (xs.map (Expression.mapLeaves φ)) =
      (finish ops xs).map (List.map (Expression.mapLeaves φ)) := by
  fun_induction finish ops xs with
  | case1 | case2 => rfl
  | case3 op ops xs ih =>
    rw [finish, reduce_map]
    exact map_bind ih

/-- The stacks of `s` are those of `r` with the conditions replaced. Nothing is said of the
candidates: whether there is a set depends on the conditions. -/
structure Mapped (r s : Reading) : Prop where
  operators : s.operators = r.operators
  operands : s.operands = r.operands.map (Expression.mapLeaves φ)

variable {φ} {r s : Reading}

/-- What two readings in step come to: they fail alike, or are in step again. -/
inductive InStep (φ : Condition → Condition) :
    Except FilterError Reading → Except FilterError Reading → Prop
  | error (e : FilterError) : InStep φ (.error e) (.error e)
  | ok {r s : Reading} (h : Mapped φ r s) : InStep φ (.ok r) (.ok s)

theorem InStep.of_stacks {x : Except FilterError (List Pending × List Expression)}
    {f g : List Pending × List Expression → Reading}
    (h : ∀ ops xs, Mapped φ (f (ops, xs)) (g (ops, xs.map (Expression.mapLeaves φ)))) :
    InStep φ (x >>= fun p => pure (f p))
      (x.map (Prod.map id (List.map (Expression.mapLeaves φ))) >>= fun p => pure (g p)) := by
  cases x with
  | error e => exact .error e
  | ok p => exact .ok (h p.1 p.2)

theorem Mapped.take (h : Mapped φ r s) (t : Terminal) :
    InStep φ (r.take t) (s.take (t.mapCondition φ)) := by
  cases t with
  | connective op =>
    show InStep φ (settle op r.operators r.operands >>= _) (settle op s.operators s.operands >>= _)
    rw [h.operators, h.operands, settle_map]
    exact .of_stacks fun ops xs => ⟨rfl, rfl⟩
  | opening => exact .ok ⟨congrArg (Pending.group :: ·) h.operators, h.operands⟩
  | closing =>
    show InStep φ (close r.operators r.operands >>= _) (close s.operators s.operands >>= _)
    rw [h.operators, h.operands, close_map]
    exact .of_stacks fun ops xs => ⟨rfl, rfl⟩
  | condition c => exact .ok ⟨h.operators, congrArg (Expression.leaf (φ c) :: ·) h.operands⟩

theorem Mapped.finish_foldlM (h : Mapped φ r s) (ts : List Terminal) :
    ((ts.map (Terminal.mapCondition φ)).foldlM Reading.take s >>=
        fun s' => finish s'.operators s'.operands) =
      (ts.foldlM Reading.take r >>= fun r' => finish r'.operators r'.operands).map
        (List.map (Expression.mapLeaves φ)) := by
  induction ts generalizing r s with
  | nil =>
    show finish s.operators s.operands = (finish r.operators r.operands).map _
    rw [h.operators, h.operands, finish_map]
  | cons t ts ih =>
    rw [List.map_cons, List.foldlM_cons, List.foldlM_cons]
    have hstep := h.take t
    generalize r.take t = x, s.take (t.mapCondition φ) = y at hstep
    cases hstep with
    | error e => rfl
    | ok h' => exact ih h'

end Reading

/-- The same operands are left, with their leaves replaced. -/
theorem operandsLeft_map (φ : Condition → Condition) (ts : List Terminal) :
    operandsLeft (ts.map (Terminal.mapCondition φ)) =
      (operandsLeft ts).map (List.map (Expression.mapLeaves φ)) :=
  Reading.Mapped.finish_foldlM ⟨rfl, rfl⟩ ts

end
end Proctor.Filter
