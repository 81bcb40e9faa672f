import BBBLinux.ThreadSync.Queue.Impl
import Mathlib.Data.Fintype.Sum

/-!
This module contains the producer and consumer threads of `Thread_sync/CV/pro_con.c`, as a
transition system whose steps are their operations on the mutex, the condition variable and the
queue.
-/

namespace ThreadSync
namespace ProCon

abbrev Thread (p c : Nat) := Fin p ⊕ Fin c

inductive Role where
  | producer
  | consumer
  deriving DecidableEq, Repr

def Thread.role : Thread p c → Role
  | .inl _ => .producer
  | .inr _ => .consumer

inductive Pc where
  -- before `pthread_mutex_lock`
  | lock
  -- at the condition of the loop around `pthread_cond_wait`
  | check
  -- blocked in `pthread_cond_wait`
  | wait
  -- woken up in `pthread_cond_wait`, which has yet to lock the mutex again
  | woken
  -- at the `assert`
  | assert
  -- at the condition of the loop that fills or drains the queue
  | loop
  -- before `pthread_cond_broadcast`
  | broadcast
  -- before `pthread_mutex_unlock`
  | unlock
  | done
  -- the `assert` failed
  | abort
  deriving DecidableEq, Repr

def toPtr (item : Int) : Option Int :=
  if item = 0 then none else some item

def ofPtr (ptr : Option Int) : Int :=
  ptr.getD 0

def newItem (item : Int) : Int :=
  Int.bmod (item + 1) (2 ^ 32)

/--
The memory the threads share and the place each of them is at. `dequeued` lists the items the
consumers took from the queue, in this order, and `produced` counts the calls of `new_item`: the
program has no such variables.
-/
structure State (p c : Nat) where
  queue : Queue Int
  mutex : Option (Thread p c)
  item : Int
  pc : Thread p c → Pc
  dequeued : List Int
  produced : Nat
  deriving DecidableEq

def mustWait : Role → Queue α → Bool
  | .producer, q => q.isQueueFull
  | .consumer, q => q.isQueueEmpty

def asserted : Role → Queue α → Bool
  | .producer, q => q.isQueueEmpty
  | .consumer, q => q.isQueueFull

def loopEnds : Role → Queue α → Bool
  | .producer, q => q.isQueueFull
  | .consumer, q => q.isQueueEmpty

namespace State

def init (p c : Nat) : State p c where
  queue := initQ
  mutex := none
  item := 0
  pc := fun _ => .lock
  dequeued := []
  produced := 0

def goto (s : State p c) (t : Thread p c) (pc : Pc) : State p c :=
  { s with pc := Function.update s.pc t pc }

def lock (s : State p c) (t : Thread p c) : Option (State p c) :=
  if s.mutex = none then
    some { s.goto t .check with mutex := some t }
  else
    none

def unlock (s : State p c) (t : Thread p c) (pc : Pc) : State p c :=
  { s.goto t pc with mutex := none }

def broadcast (s : State p c) : State p c :=
  { s with pc := fun t => if s.pc t = .wait then .woken else s.pc t }

def produce (s : State p c) : State p c :=
  let item := newItem s.item
  { s with item := item, queue := (s.queue.enqueue (toPtr item)).2, produced := s.produced + 1 }

def consume (s : State p c) : State p c :=
  let (ptr, queue) := s.queue.deque
  { s with queue := queue, dequeued := s.dequeued ++ [ofPtr ptr] }

def round (s : State p c) : Role → State p c
  | .producer => s.produce
  | .consumer => s.consume

def run (s : State p c) (t : Thread p c) : Option (State p c) :=
  match s.pc t with
  | .lock => s.lock t
  | .check =>
    if mustWait t.role s.queue then
      some (s.unlock t .wait)
    else
      some (s.goto t .assert)
  | .wait => none
  | .woken => s.lock t
  | .assert =>
    if asserted t.role s.queue then
      some (s.goto t .loop)
    else
      some (s.goto t .abort)
  | .loop =>
    if loopEnds t.role s.queue then
      some (s.goto t .broadcast)
    else
      some (s.round t.role)
  | .broadcast => some (s.broadcast.goto t .unlock)
  | .unlock => some (s.unlock t .done)
  | .done => none
  | .abort => none

end State

inductive Label (p c : Nat) where
  | run (t : Thread p c)
  | spurious (t : Thread p c)
  deriving DecidableEq

def State.next (s : State p c) : Label p c → Option (State p c)
  | .run t => s.run t
  | .spurious t => if s.pc t = .wait then some (s.goto t .woken) else none

def system (p c : Nat) : TransitionSystem (State p c) (Label p c) :=
  .ofStep (· = State.init p c) State.next

end ProCon
end ThreadSync
