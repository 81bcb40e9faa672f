import BBBLinux.Transition.Basic
import Mathlib.Data.Fintype.Pi

/-!
This module contains the dining philosophers of `Thread_sync/Dining_philosopher/dnphil.c`, as a
transition system whose steps are their operations on the mutexes, the condition variables and the
spoons. `NO_PHIL` is the parameter `n`, and a philosopher is named by its `phil_id`.
-/

namespace ThreadSync
namespace DnPhil

structure Spoon (n : Nat) where
  isUsed : Bool
  phil : Option (Fin n)
  mutex : Option (Fin n)
  deriving DecidableEq

def philGetLeftSpoon (p : Fin n) : Fin n := p

def philGetRightSpoon (p : Fin n) : Fin n :=
  if p.val = 0 then
    ⟨n - 1, by have := p.isLt; omega⟩
  else
    ⟨p - 1, by have := p.isLt; omega⟩

inductive Side where
  | left
  | right
  deriving DecidableEq, Repr

def Side.spoon : Side → Fin n → Fin n
  | .left, p => philGetLeftSpoon p
  | .right, p => philGetRightSpoon p

inductive Pc where
  -- `phil_access_both_spoon`, up to the decision about the right spoon
  | lockLeft
  | checkLeft
  | waitLeft
  | wokenLeft
  | takeLeft
  | unlockLeft
  | lockRight
  | checkRight
  | takeRight
  | unlockRight
  -- its way back, because the right spoon is in use
  | backoffLockLeft
  | backoffAssert
  | backoffClear
  | backoffUnlockLeft
  | backoffUnlockRight
  -- the `assert(0)` behind its tests, all of whose ways return
  | accessEnd
  -- `phil_eat`
  | eatLeft
  | eatRight
  | eat
  -- `phil_release_both_spoon`
  | releaseLockLeft
  | releaseLockRight
  | releaseAssertLeft
  | releaseAssertRight
  | releaseClearLeft
  | releaseSignalLeft
  | releaseUnlockLeft
  | releaseClearRight
  | releaseSignalRight
  | releaseUnlockRight
  -- an `assert` failed
  | abort
  deriving DecidableEq, Repr

inductive Instr where
  -- `pthread_mutex_lock`
  | lock (side : Side) (next : Pc)
  -- `pthread_mutex_unlock`
  | unlock (side : Side) (next : Pc)
  -- the condition of the loop around `pthread_cond_wait`, and how the latter blocks
  | waitWhileTaken (wait next : Pc)
  -- blocked in `pthread_cond_wait` until the condition variable of the left spoon is signalled
  | sleep (woken : Pc)
  -- `is_used = true` and `phil = phil`
  | take (side : Side) (next : Pc)
  -- `is_used = false` and `phil = NULL`
  | clear (side : Side) (next : Pc)
  -- `pthread_cond_signal`
  | signal (side : Side) (next : Pc)
  -- `assert` of `is_used == true` and of `phil == phil`
  | assertOwned (side : Side) (next : Pc)
  -- `assert(0)`
  | assertFalse
  -- the tests of the right spoon: it is free, it has another owner, it is one's own
  | branchRight (free other own : Pc)
  -- `eat_count++`
  | count (next : Pc)
  | halt
  deriving DecidableEq, Repr

def Pc.instr : Pc → Instr
  | .lockLeft => .lock .left .checkLeft
  | .checkLeft => .waitWhileTaken .waitLeft .takeLeft
  | .waitLeft => .sleep .wokenLeft
  -- `pthread_cond_wait` locks the mutex again before it returns to the condition of the loop
  | .wokenLeft => .lock .left .checkLeft
  | .takeLeft => .take .left .unlockLeft
  | .unlockLeft => .unlock .left .lockRight
  | .lockRight => .lock .right .checkRight
  | .checkRight => .branchRight .takeRight .backoffLockLeft .unlockRight
  | .takeRight => .take .right .unlockRight
  -- `return true`
  | .unlockRight => .unlock .right .eatLeft
  | .backoffLockLeft => .lock .left .backoffAssert
  | .backoffAssert => .assertOwned .left .backoffClear
  | .backoffClear => .clear .left .backoffUnlockLeft
  | .backoffUnlockLeft => .unlock .left .backoffUnlockRight
  -- `return false`
  | .backoffUnlockRight => .unlock .right .lockLeft
  | .accessEnd => .assertFalse
  | .eatLeft => .assertOwned .left .eatRight
  | .eatRight => .assertOwned .right .eat
  | .eat => .count .releaseLockLeft
  | .releaseLockLeft => .lock .left .releaseLockRight
  | .releaseLockRight => .lock .right .releaseAssertLeft
  | .releaseAssertLeft => .assertOwned .left .releaseAssertRight
  | .releaseAssertRight => .assertOwned .right .releaseClearLeft
  | .releaseClearLeft => .clear .left .releaseSignalLeft
  | .releaseSignalLeft => .signal .left .releaseUnlockLeft
  | .releaseUnlockLeft => .unlock .left .releaseClearRight
  | .releaseClearRight => .clear .right .releaseSignalRight
  | .releaseSignalRight => .signal .right .releaseUnlockRight
  | .releaseUnlockRight => .unlock .right .lockLeft
  | .abort => .halt

structure State (n : Nat) where
  spoon : Fin n → Spoon n
  eatCount : Fin n → Nat
  pc : Fin n → Pc
  deriving DecidableEq

namespace State

def init (n : Nat) : State n where
  spoon := fun _ => { isUsed := false, phil := none, mutex := none }
  eatCount := fun _ => 0
  pc := fun _ => .lockLeft

def goto (s : State n) (p : Fin n) (pc : Pc) : State n :=
  { s with pc := Function.update s.pc p pc }

def setMutex (s : State n) (k : Fin n) (mutex : Option (Fin n)) : State n :=
  { s with spoon := Function.update s.spoon k { s.spoon k with mutex := mutex } }

def setUsed (s : State n) (k : Fin n) (isUsed : Bool) : State n :=
  { s with spoon := Function.update s.spoon k { s.spoon k with isUsed := isUsed } }

def setPhil (s : State n) (k : Fin n) (phil : Option (Fin n)) : State n :=
  { s with spoon := Function.update s.spoon k { s.spoon k with phil := phil } }

def wake (s : State n) (k : Fin n) : State n :=
  -- philosophers only sleep on the condition variable of their left spoon
  { s with pc := fun q =>
      match (s.pc q).instr with
      | .sleep woken => if Side.left.spoon q = k then woken else s.pc q
      | _ => s.pc q }

def run (s : State n) (p : Fin n) : Option (State n) :=
  match (s.pc p).instr with
  | .lock side next =>
    if (s.spoon (side.spoon p)).mutex = none then
      some ((s.setMutex (side.spoon p) (some p)).goto p next)
    else
      none
  | .unlock side next => some ((s.setMutex (side.spoon p) none).goto p next)
  | .waitWhileTaken wait next =>
    let leftSpoon := s.spoon (Side.left.spoon p)
    if leftSpoon.isUsed = true ∧ leftSpoon.phil ≠ some p then
      some ((s.setMutex (Side.left.spoon p) none).goto p wait)
    else
      some (s.goto p next)
  | .sleep _ => none
  | .take side next =>
    some (((s.setUsed (side.spoon p) true).setPhil (side.spoon p) (some p)).goto p next)
  | .clear side next =>
    some (((s.setUsed (side.spoon p) false).setPhil (side.spoon p) none).goto p next)
  | .signal side next => some ((s.wake (side.spoon p)).goto p next)
  | .assertOwned side next =>
    let spoon := s.spoon (side.spoon p)
    if spoon.isUsed = true ∧ spoon.phil = some p then
      some (s.goto p next)
    else
      some (s.goto p .abort)
  | .assertFalse => some (s.goto p .abort)
  | .branchRight free other own =>
    let rightSpoon := s.spoon (Side.right.spoon p)
    if rightSpoon.isUsed = false then
      some (s.goto p free)
    else if rightSpoon.phil ≠ some p then
      some (s.goto p other)
    else
      some (s.goto p own)
  | .count next =>
    some ({ s with eatCount := Function.update s.eatCount p (s.eatCount p + 1) }.goto p next)
  | .halt => none

end State

inductive Label (n : Nat) where
  | run (p : Fin n)
  | spurious (p : Fin n)
  deriving DecidableEq

def State.next (s : State n) : Label n → Option (State n)
  | .run p => s.run p
  | .spurious p =>
    match (s.pc p).instr with
    | .sleep woken => some (s.goto p woken)
    | _ => none

def system (n : Nat) : TransitionSystem (State n) (Label n) :=
  .ofStep (· = State.init n) State.next

def Blocked (s : State n) (p : Fin n) : Prop :=
  match (s.pc p).instr with
  | .lock side _ => ∃ q, q ≠ p ∧ (s.spoon (side.spoon p)).mutex = some q
  | .sleep _ => True
  | _ => False

instance (s : State n) (p : Fin n) : Decidable (Blocked s p) := by
  unfold Blocked
  split <;> infer_instance

def Deadlocked (s : State n) : Prop :=
  ∀ p, Blocked s p

instance (s : State n) : Decidable (Deadlocked s) :=
  inferInstanceAs (Decidable (∀ p, Blocked s p))

end DnPhil
end ThreadSync
