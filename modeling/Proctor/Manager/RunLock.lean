/-! # The run lock

One run at a time holds the lock; the others queue for it in the order in which they came. -/

namespace Proctor.Manager

structure RunLock where
  holder : Option Nat
  queue : List Nat
  deriving Repr, DecidableEq

namespace RunLock

def free : RunLock := ⟨none, []⟩

/-- Takes the lock if nobody has it, and queues for it otherwise. -/
def request (l : RunLock) (call : Nat) : RunLock :=
  match l.holder with
  | none => { l with holder := some call }
  | some _ => { l with queue := l.queue ++ [call] }

/-- Hands the lock on to the first in the queue. -/
def release (l : RunLock) : RunLock := ⟨l.queue.head?, l.queue.tail⟩

/-- Gives up a place in the queue, or the lock if it has already been handed over. -/
def leave (l : RunLock) (call : Nat) : RunLock :=
  if l.holder = some call then l.release else { l with queue := l.queue.erase call }

end RunLock
end Proctor.Manager
