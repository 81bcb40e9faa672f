import BBBLinux.ThreadSync.Queue.Impl

/-!
This module contains the refinement of a bounded FIFO by the circular queue.
-/

universe u

namespace ThreadSync
namespace Queue

open Ring

variable {α : Type u}

@[simp]
theorem isQueueEmpty_eq_true (q : Queue α) : q.isQueueEmpty = true ↔ q.count = 0 := by
  simp [isQueueEmpty]

@[simp]
theorem isQueueFull_eq_true (q : Queue α) : q.isQueueFull = true ↔ q.count = qDefaultSize := by
  simp [isQueueFull]

theorem advance_eq_slot (i : Fin qDefaultSize) : advance i = slot i 1 := by
  apply Fin.ext
  have := i.isLt
  unfold advance
  split
  . next hlast =>
    rw [slot_val, hlast]
    rfl
  . next hlast => simp [Nat.mod_eq_of_lt (show i.val + 1 < qDefaultSize by omega)]

/--
`q` holds the elements of `l`, in this order: they are in the live window that starts at `front`,
`rear` is the last slot of the window and every slot outside of it is null. While the queue is
empty the window still has its first slot, which `front` and `rear` share.
-/
structure Refines (q : Queue α) (l : List α) : Prop where
  count_eq : q.count = l.length
  length_le : l.length ≤ qDefaultSize
  window : ∀ (k : Nat) (hk : k < l.length), q.elem (slot q.front k) = some l[k]
  outside : ∀ i, (∀ k < l.length, i ≠ slot q.front k) → q.elem i = none
  rear_eq : q.rear = slot q.front (l.length - 1)

namespace Refines

variable {q : Queue α} {l : List α}

theorem initQ : Refines (initQ : Queue α) [] where
  count_eq := rfl
  length_le := Nat.zero_le _
  window := by intro k hk; simp at hk
  outside := by intros; rfl
  rear_eq := by simp [ThreadSync.initQ]

theorem front_eq_rear (h : Refines q l) (hcount : q.count = 0) : q.front = q.rear := by
  have hlength : l.length = 0 := h.count_eq ▸ hcount
  rw [h.rear_eq, hlength]
  simp

theorem rear_eq_slot (h : Refines q l) : q.rear = slot q.front (q.count - 1) := by
  rw [h.count_eq]
  exact h.rear_eq

theorem count_le (h : Refines q l) : q.count ≤ qDefaultSize := by
  rw [h.count_eq]
  exact h.length_le

theorem advance_rear (h : Refines q l) (hne : l ≠ []) :
    advance q.rear = slot q.front l.length := by
  have : 0 < l.length := List.length_pos_of_ne_nil hne
  rw [advance_eq_slot, h.rear_eq, slot_slot]
  congr 1
  omega

theorem push (h : Refines q l) (hroom : l.length < qDefaultSize) (x : α) :
    Refines { q with
        elem := Function.update q.elem (slot q.front l.length) (some x)
        rear := slot q.front l.length
        count := q.count + 1 } (l ++ [x]) where
  count_eq := by simp [h.count_eq]
  length_le := by
    rw [List.length_append]
    exact hroom
  window := by
    intro k hk
    simp only [List.length_append, List.length_singleton] at hk
    dsimp only
    cases Nat.lt_succ_iff_lt_or_eq.mp hk with
    | inl hold =>
      rw [Function.update_of_ne, h.window k hold]
      . simp [hold]
      . intro heq
        have := slot_inj (by omega) hroom heq
        omega
    | inr hnew =>
      subst hnew
      simp
  outside := by
    intro i hi
    dsimp only at hi ⊢
    simp only [List.length_append, List.length_singleton] at hi
    rw [Function.update_of_ne (hi l.length (by omega))]
    exact h.outside i fun k hk => hi k (by omega)
  rear_eq := by simp

theorem isQueueEmpty_iff (h : Refines q l) : q.isQueueEmpty = true ↔ l = [] := by
  rw [isQueueEmpty_eq_true, h.count_eq, List.length_eq_zero_iff]

theorem isQueueFull_iff (h : Refines q l) : q.isQueueFull = true ↔ l.length = qDefaultSize := by
  rw [isQueueFull_eq_true, h.count_eq]

theorem enqueue_full (h : Refines q l) (hfull : l.length = qDefaultSize) (ptr : Option α) :
    q.enqueue ptr = (false, q) := by
  have : q.isQueueFull = true := h.isQueueFull_iff.mpr hfull
  simp [enqueue, this]

theorem enqueue_some (h : Refines q l) (hroom : l.length < qDefaultSize) (x : α) :
    q.enqueue (some x) = (true, { q with
        elem := Function.update q.elem (slot q.front l.length) (some x)
        rear := slot q.front l.length
        count := q.count + 1 }) := by
  have hfull : q.isQueueFull = false := by
    rw [Bool.eq_false_iff, Ne, h.isQueueFull_iff]
    omega
  cases hempty : q.isQueueEmpty with
  | true =>
    have hl : l = [] := h.isQueueEmpty_iff.mp hempty
    have hrear : q.rear = q.front := by
      rw [h.rear_eq, hl]
      simp
    simp [enqueue, hfull, hempty, hl, ← hrear]
  | false =>
    have hne : l ≠ [] := by
      rw [Ne, ← h.isQueueEmpty_iff, hempty]
      simp
    simp [enqueue, hfull, hempty, h.advance_rear hne]

theorem elem_front (h : Refines q (x :: l)) : q.elem q.front = some x := by
  have := h.window 0 (by simp)
  rw [slot_zero] at this
  exact this

theorem deque_nil (h : Refines q []) : q.deque = (none, q) := by
  have : q.isQueueEmpty = true := h.isQueueEmpty_iff.mpr rfl
  simp [deque, this]

theorem pop_singleton (h : Refines q [x]) :
    Refines { q with elem := Function.update q.elem q.front none, count := q.count - 1 } [] where
  count_eq := by simp [h.count_eq]
  length_le := Nat.zero_le _
  window := by intro k hk; simp at hk
  outside := by
    intro i _
    dsimp only
    by_cases hi : i = q.front
    . simp [hi]
    . rw [Function.update_of_ne hi]
      apply h.outside
      intro k hk
      have : k = 0 := by simpa using hk
      simpa [this] using hi
  rear_eq := by simpa using h.rear_eq

theorem pop_cons (h : Refines q (x :: l)) (hne : l ≠ []) :
    Refines { q with
        elem := Function.update q.elem q.front none
        front := slot q.front 1
        count := q.count - 1 } l where
  count_eq := by simp [h.count_eq]
  length_le := by
    have := h.length_le
    simp only [List.length_cons] at this
    omega
  window := by
    intro k hk
    have hlength := h.length_le
    simp only [List.length_cons] at hlength
    dsimp only
    rw [slot_slot, Function.update_of_ne]
    . rw [Nat.add_comm 1 k, h.window (k + 1) (by simpa using hk)]
      simp
    . intro heq
      have hzero : slot q.front (1 + k) = slot q.front 0 := by simpa using heq
      have := slot_inj (by omega) (by omega) hzero
      omega
  outside := by
    intro i hi
    dsimp only at hi ⊢
    by_cases hfront : i = q.front
    . simp [hfront]
    . rw [Function.update_of_ne hfront]
      apply h.outside
      intro k hk
      cases k with
      | zero => simpa using hfront
      | succ k =>
        have := hi k (by simpa using hk)
        rwa [slot_slot, Nat.add_comm 1 k] at this
  rear_eq := by
    have : 0 < l.length := List.length_pos_of_ne_nil hne
    dsimp only
    rw [h.rear_eq, slot_slot]
    congr 1
    simp only [List.length_cons]
    omega

theorem deque_singleton (h : Refines q [x]) :
    q.deque = (some x, { q with elem := Function.update q.elem q.front none, count := q.count - 1 }) := by
  have hempty : q.isQueueEmpty = false := by
    rw [Bool.eq_false_iff, Ne, h.isQueueEmpty_iff]
    simp
  have hrear : q.rear = q.front := by simpa using h.rear_eq
  simp [deque, hempty, h.elem_front, hrear]

theorem deque_cons (h : Refines q (x :: l)) (hne : l ≠ []) :
    q.deque = (some x, { q with
        elem := Function.update q.elem q.front none
        front := slot q.front 1
        count := q.count - 1 }) := by
  have hempty : q.isQueueEmpty = false := by
    rw [Bool.eq_false_iff, Ne, h.isQueueEmpty_iff]
    simp
  have hrear : q.front ≠ q.rear := by
    rw [h.rear_eq]
    intro heq
    have hzero : slot q.front 0 = slot q.front ((x :: l).length - 1) := by simpa using heq
    have hlength := h.length_le
    have : 0 < l.length := List.length_pos_of_ne_nil hne
    simp only [List.length_cons] at hlength hzero
    have := slot_inj (by omega) (by omega) hzero
    omega
  simp [deque, hempty, h.elem_front, hrear, advance_eq_slot]

theorem call (h : Refines q l) (c : Fifo.Call α) :
    (Queue.call q c).1 = (Fifo.call qDefaultSize l c).1 ∧
      Refines (Queue.call q c).2 (Fifo.call qDefaultSize l c).2 := by
  cases c with
  | enqueue ptr =>
    cases ptr with
    | none => simpa [Queue.call, Fifo.call, enqueue] using h
    | some x =>
      by_cases hfull : l.length = qDefaultSize
      . simpa [Queue.call, Fifo.call, h.enqueue_full hfull, hfull] using h
      . have hroom : l.length < qDefaultSize := by
          have := h.length_le
          omega
        simpa [Queue.call, Fifo.call, h.enqueue_some hroom, hfull] using h.push hroom x
  | deque =>
    match l with
    | [] => simpa [Queue.call, Fifo.call, h.deque_nil] using h
    | [x] => simpa [Queue.call, Fifo.call, h.deque_singleton] using h.pop_singleton
    | x :: y :: l =>
      simpa [Queue.call, Fifo.call, h.deque_cons] using h.pop_cons (by simp)

end Refines

theorem run_initQ_refines_fifo (calls : List (Fifo.Call α)) :
    let q := (CallMachine.run Queue.call initQ calls).2
    let l := (CallMachine.run (Fifo.call qDefaultSize) [] calls).2
    (CallMachine.run Queue.call initQ calls).1 = (CallMachine.run (Fifo.call qDefaultSize) [] calls).1
      ∧ q.count = l.length
      ∧ q.count ≤ qDefaultSize
      ∧ (∀ (k : Nat) (hk : k < l.length), q.elem (slot q.front k) = some l[k])
      ∧ (∀ i, (∀ k < q.count, i ≠ slot q.front k) → q.elem i = none)
      ∧ q.rear = slot q.front (q.count - 1)
      ∧ (q.count = 0 → q.front = q.rear) := by
  intro q l
  have ⟨hreplies, h⟩ := CallMachine.run_refines (R := Refines) (fun _ _ c h => h.call c)
    (Refines.initQ (α := α)) calls
  refine ⟨hreplies, h.count_eq, h.count_le, h.window, ?_, h.rear_eq_slot, h.front_eq_rear⟩
  intro i hi
  apply h.outside
  intro k hk
  exact hi k (by rwa [← h.count_eq] at hk)

end Queue
end ThreadSync
