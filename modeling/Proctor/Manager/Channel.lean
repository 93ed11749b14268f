/-! # The channel from a request to its registrar

A request publishes its events into a channel that has room for the latest ones only. A registrar
takes them in when it is unhooked. If an event has been lost by then, this shows before the events
that are left, and the registrar stops there. -/

namespace Proctor.Manager

structure Channel (α : Type) where
  /-- The latest events, the oldest first. -/
  kept : List α
  /-- Whether an event has been lost to make room for a later one. -/
  lost : Bool
  deriving Repr, DecidableEq

namespace Channel
variable {α : Type}

def empty : Channel α := ⟨[], false⟩

/-- Publishes an event. If there is no room for it, the oldest one is lost. -/
def send (capacity : Nat) (c : Channel α) (a : α) : Channel α :=
  if c.kept.length < capacity then { c with kept := c.kept ++ [a] }
  else ⟨(c.kept ++ [a]).tail, true⟩

def sendAll (capacity : Nat) (c : Channel α) (as : List α) : Channel α := as.foldl (send capacity) c

/-- What one takes in who stops where something was lost. -/
def received (c : Channel α) : List α := if c.lost then [] else c.kept

variable {capacity : Nat} {c : Channel α} {as : List α}

/-- As long as there is room, all events are kept. -/
theorem sendAll_of_le (h : c.kept.length + as.length ≤ capacity) :
    c.sendAll capacity as = { c with kept := c.kept ++ as } := by
  induction as generalizing c with
  | nil => simp [sendAll]
  | cons a as ih =>
    rw [List.length_cons] at h
    have hsend : c.send capacity a = { c with kept := c.kept ++ [a] } := if_pos (by omega)
    have hroom : (c.send capacity a).kept.length + as.length ≤ capacity := by
      simp only [hsend, List.length_append, List.length_singleton]
      omega
    refine (ih hroom).trans ?_
    simp [hsend]

theorem lost_sendAll (h : c.lost) : (c.sendAll capacity as).lost := by
  induction as generalizing c with
  | nil => exact h
  | cons a as ih =>
    refine ih ?_
    unfold send
    split
    · exact h
    · rfl

/-- Where there is no room for all events, one of them is lost. -/
theorem lost_sendAll_of_lt (h : capacity < c.kept.length + as.length)
    (hc : c.kept.length ≤ capacity) : (c.sendAll capacity as).lost := by
  induction as generalizing c with
  | nil => exact absurd hc (Nat.not_le.2 h)
  | cons a as ih =>
    by_cases hroom : c.kept.length < capacity
    · have hsend : c.send capacity a = { c with kept := c.kept ++ [a] } := if_pos hroom
      refine ih ?_ ?_
      · simp only [hsend, List.length_append, List.length_singleton]
        rw [List.length_cons] at h
        omega
      · simp only [hsend, List.length_append, List.length_singleton]
        exact hroom
    · have hsend : c.send capacity a = ⟨(c.kept ++ [a]).tail, true⟩ := if_neg hroom
      exact lost_sendAll (c := c.send capacity a) (congrArg lost hsend)

/-- All events of a request come through, or none. -/
theorem received_sendAll_empty (capacity : Nat) (as : List α) :
    (empty.sendAll capacity as).received = if as.length ≤ capacity then as else [] := by
  split
  · next h =>
    rw [sendAll_of_le (by simpa [empty] using h)]
    simp [received, empty]
  · next h =>
    have hlost : (empty.sendAll capacity as).lost :=
      lost_sendAll_of_lt (by simpa [empty] using h) (Nat.zero_le _)
    exact if_pos hlost

-- There is room for two events.
example : (empty.sendAll 2 ["a", "b"]).received = ["a", "b"] ∧
    (empty.sendAll 2 ["a", "b", "c"]).received = [] := by decide

end Channel
end Proctor.Manager
