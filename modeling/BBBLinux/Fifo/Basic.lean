import BBBLinux.Transition.Basic
import Mathlib.Data.List.Basic
import Mathlib.Data.Nat.ModEq

/-!
This module contains bounded FIFO queues, as lists, and the slot arithmetic of their usual
implementation by a circular array.
-/

universe u

namespace Fifo

inductive Call (α : Type u) where
  | enqueue (ptr : Option α)
  | deque
  deriving DecidableEq, Repr

inductive Reply (α : Type u) where
  | enqueued (accepted : Bool)
  | dequed (ptr : Option α)
  deriving DecidableEq, Repr

def call (cap : Nat) : CallMachine (List α) (Call α) (Reply α)
  | l, .enqueue none => (.enqueued false, l)
  | l, .enqueue (some x) => if l.length = cap then (.enqueued false, l) else (.enqueued true, l ++ [x])
  | [], .deque => (.dequed none, [])
  | x :: l, .deque => (.dequed (some x), l)

end Fifo

namespace Ring

variable {n : Nat}

def slot (i : Fin n) (k : Nat) : Fin n :=
  ⟨(i + k) % n, Nat.mod_lt _ i.pos⟩

@[simp]
theorem slot_val (i : Fin n) (k : Nat) : (slot i k).val = (i + k) % n := rfl

@[simp]
theorem slot_zero (i : Fin n) : slot i 0 = i := by
  apply Fin.ext
  simp [Nat.mod_eq_of_lt i.isLt]

theorem slot_slot (i : Fin n) (j k : Nat) : slot (slot i j) k = slot i (j + k) := by
  apply Fin.ext
  simp [Nat.add_assoc]

theorem slot_inj {i : Fin n} {j k : Nat} (hj : j < n) (hk : k < n) (h : slot i j = slot i k) :
    j = k := by
  have hmod : (i.val + j) % n = (i.val + k) % n := congrArg Fin.val h
  have hmod' : j % n = k % n := Nat.ModEq.add_left_cancel' i.val hmod
  rwa [Nat.mod_eq_of_lt hj, Nat.mod_eq_of_lt hk] at hmod'

theorem forall_of_slot {P : Fin n → Prop} (i : Fin n) (h : ∀ k, P (slot i k)) (j : Fin n) : P j := by
  have hj : slot i (n - i + j) = j := by
    apply Fin.ext
    have := i.isLt
    rw [slot_val, ← Nat.add_assoc, Nat.add_sub_cancel' (by omega), Nat.add_mod_left]
    apply Nat.mod_eq_of_lt j.isLt
  rw [← hj]
  apply h

end Ring
