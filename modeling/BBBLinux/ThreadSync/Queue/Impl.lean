import BBBLinux.Fifo.Basic
import Mathlib.Data.Fintype.Pi

/-!
This module contains the queue of `Thread_sync/CV/queue.c`.
-/

universe u

namespace ThreadSync

def qDefaultSize : Nat := 5

/--
`struct Queue_t` without its mutex and condition variable, which the threads that use the queue
account for. A null pointer in `elem` is `none`, `front` and `rear` are indices into `elem`.
-/
structure Queue (α : Type u) where
  elem : Fin qDefaultSize → Option α
  front : Fin qDefaultSize
  rear : Fin qDefaultSize
  count : Nat
  deriving DecidableEq

def initQ : Queue α where
  elem := fun _ => none
  front := ⟨0, by decide⟩
  rear := ⟨0, by decide⟩
  count := 0

namespace Queue

def isQueueEmpty (q : Queue α) : Bool :=
  q.count == 0

def isQueueFull (q : Queue α) : Bool :=
  q.count == qDefaultSize

def advance (i : Fin qDefaultSize) : Fin qDefaultSize :=
  if h : i.val = qDefaultSize - 1 then
    ⟨0, by decide⟩
  else
    ⟨i + 1, by have := i.isLt; omega⟩

def enqueue (q : Queue α) (ptr : Option α) : Bool × Queue α :=
  if ptr.isNone then
    (false, q)
  else if q.isQueueFull then
    (false, q)
  else if q.isQueueEmpty then
    -- `rear` stays: it equals `front` whenever the queue is empty
    (true, { q with elem := Function.update q.elem q.front ptr, count := q.count + 1 })
  else
    let rear := advance q.rear
    (true, { q with elem := Function.update q.elem rear ptr, rear := rear, count := q.count + 1 })

def deque (q : Queue α) : Option α × Queue α :=
  if q.isQueueEmpty then
    (none, q)
  else
    let elem := q.elem q.front
    let q := { q with elem := Function.update q.elem q.front none, count := q.count - 1 }
    -- for last elem
    if q.front = q.rear then
      (elem, q)
    else
      (elem, { q with front := advance q.front })

def call : CallMachine (Queue α) (Fifo.Call α) (Fifo.Reply α)
  | q, .enqueue ptr =>
    let (accepted, q) := q.enqueue ptr
    (.enqueued accepted, q)
  | q, .deque =>
    let (ptr, q) := q.deque
    (.dequed ptr, q)

end Queue
end ThreadSync
