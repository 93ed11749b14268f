/-! # The slot of the current run

A slot holds the handle of the run in flight. Whoever wants to signal the run waits on the slot
until a handle is there or the time is over. -/

namespace Proctor.Manager

structure Slot (α : Type) where
  current : Option α
  deriving Repr, DecidableEq

namespace Slot
variable {α : Type}

def empty : Slot α := ⟨none⟩

def publish (_ : Slot α) (a : α) : Slot α := ⟨some a⟩

def clear (_ : Slot α) : Slot α := ⟨none⟩

def isEmpty (s : Slot α) : Bool := s.current.isNone

/-- What one who waits until `deadline` is told at the time `now`: a handle that is there, nothing
once the time is over, or to go on waiting. -/
def answer (s : Slot α) (now deadline : Nat) : Option (Option α) :=
  match s.current with
  | some a => some (some a)
  | none => if deadline ≤ now then some none else none

end Slot

/-! ### A slot and those who wait on it -/

structure Waiter (α : Type) where
  patience : Nat
  /-- Set when the waiter first runs. -/
  deadline : Option Nat := none
  answer : Option (Option α) := none
  deriving Repr, DecidableEq

structure SlotRoom (α : Type) where
  now : Nat := 0
  slot : Slot α := .empty
  /-- The guards of the published handles, and whether they are still held. -/
  guards : List Bool := []
  waiters : List (Waiter α) := []
  deriving Repr, DecidableEq

namespace SlotRoom
variable {α : Type}

/-- Lets a waiter run. It takes a handle that is there; only if `expire` is set has it noticed that
its time is over. -/
def wake (r : SlotRoom α) (expire : Bool) (w : Waiter α) : Waiter α :=
  if w.answer.isSome then w
  else
    let deadline := w.deadline.getD (r.now + w.patience)
    match r.slot.answer r.now deadline with
    | some none =>
      if expire || w.patience = 0 then { w with deadline := some deadline, answer := some none }
      else { w with deadline := some deadline }
    | answer => { w with deadline := some deadline, answer }

def settle (r : SlotRoom α) (expire : Bool) : SlotRoom α :=
  { r with waiters := r.waiters.map (r.wake expire) }

def publish (r : SlotRoom α) (a : α) : SlotRoom α :=
  { r with slot := r.slot.publish a, guards := r.guards ++ [true] }

/-- Drops a guard, which empties the slot whatever it holds. A guard is dropped only once. -/
def unpublish (r : SlotRoom α) (index : Nat) : SlotRoom α :=
  if r.guards[index]? = some true then
    { r with slot := r.slot.clear, guards := r.guards.set index false }
  else r

def clear (r : SlotRoom α) : SlotRoom α := { r with slot := r.slot.clear }

def addWaiter (r : SlotRoom α) (patience : Nat) : SlotRoom α :=
  { r with waiters := r.waiters ++ [{ patience }] }

/-- Time passes at once; the waiters that were due to run then do so at the new time. -/
def advance (r : SlotRoom α) (time : Nat) : SlotRoom α :=
  { r with now := r.now + time }.settle false

/-- Waits for a handle while the others wait too. Nobody can publish one meanwhile. -/
def wait (r : SlotRoom α) (patience : Nat) : SlotRoom α × Option α :=
  match r.slot.answer r.now (r.now + patience) with
  | some answer => (r, answer)
  | none => (({ r.settle true with now := r.now + patience }).settle true, none)

end SlotRoom
end Proctor.Manager
