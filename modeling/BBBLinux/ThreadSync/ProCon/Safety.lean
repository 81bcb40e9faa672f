import BBBLinux.ThreadSync.ProCon.Lemmas

/-!
This module contains the safety of the producers and consumers: no assertion fails, and the items
leave the queue in the order in which they were made.
-/

namespace ThreadSync
namespace ProCon

variable {p c : Nat} {s s' : State p c} {t u : Thread p c}

def Settled (q : Queue α) : Prop :=
  q.isQueueFull = true ∨ q.isQueueEmpty = true

theorem Settled.asserted {q : Queue α} (h : Settled q) {r : Role} (hwait : mustWait r q = false) :
    asserted r q = true := by
  cases r with
  | producer =>
    have : q.isQueueFull = false := hwait
    exact h.resolve_left (by simp [this])
  | consumer =>
    have : q.isQueueEmpty = false := hwait
    exact h.resolve_right (by simp [this])

theorem settled_of_loopEnds {q : Queue α} {r : Role} (h : loopEnds r q = true) : Settled q := by
  cases r with
  | producer => exact .inl h
  | consumer => exact .inr h

structure AssertInv (s : State p c) : Prop where
  settled : (∀ t, s.pc t ≠ .loop) → Settled s.queue
  asserted : ∀ t, s.pc t = .assert → asserted t.role s.queue = true
  noAbort : ∀ t, s.pc t ≠ .abort

namespace AssertInv

theorem init : AssertInv (State.init p c) where
  settled := fun _ => .inr rfl
  asserted := by simp [State.init]
  noAbort := by simp [State.init]

theorem of_pc (h : AssertInv s) (s' : State p c) (hqueue : s'.queue = s.queue)
    (hloop : ∀ u, s.pc u = .loop → s'.pc u = .loop)
    (hassert : ∀ u, s'.pc u = .assert → s.pc u = .assert) (habort : ∀ u, s'.pc u ≠ .abort) :
    AssertInv s' where
  settled := by
    intro hnone
    rw [hqueue]
    exact h.settled fun u hu => hnone u (hloop u hu)
  asserted := by
    intro u hu
    rw [hqueue]
    apply h.asserted u (hassert u hu)
  noAbort := habort

theorem goto (h : AssertInv s) {pc : Pc} (hloop : s.pc t ≠ .loop) (hassert : pc ≠ .assert)
    (habort : pc ≠ .abort) : AssertInv (s.goto t pc) := by
  apply h.of_pc (s.goto t pc) rfl
  . intro u hu
    have : u ≠ t := by
      rintro rfl
      exact hloop hu
    simpa [this] using hu
  . intro u hu
    rw [State.goto_pc] at hu
    split at hu
    . exact absurd hu hassert
    . exact hu
  . intro u
    rw [State.goto_pc]
    split
    . exact habort
    . exact h.noAbort u

theorem broadcast (h : AssertInv s) : AssertInv s.broadcast := by
  apply h.of_pc s.broadcast rfl
  all_goals
    intro u
    rw [State.broadcast_pc]
    have := h.noAbort u
    split <;> simp_all

theorem with_mutex (h : AssertInv s) (mutex : Option (Thread p c)) :
    AssertInv { s with mutex := mutex } :=
  ⟨h.settled, h.asserted, h.noAbort⟩

theorem of_holder (hmutex : MutexInv s) (h : AssertInv s) (t : Thread p c) (pc : Pc)
    (hpc : (s.pc t).Holds) (habort : pc ≠ .abort)
    (hsettled : pc ≠ .loop → Settled s'.queue)
    (hassert : pc = .assert → ProCon.asserted t.role s'.queue = true)
    (hself : s'.pc t = pc) (hother : ∀ u, u ≠ t → s'.pc u = s.pc u) : AssertInv s' where
  settled := by
    intro hnone
    exact hsettled (hself ▸ hnone t)
  asserted := by
    intro u hu
    by_cases hut : u = t
    . subst hut
      exact hassert (hself ▸ hu)
    . rw [hother u hut] at hu
      exact absurd (hmutex.unique hpc (by simp [hu, Pc.Holds])) hut
  noAbort := by
    intro u
    by_cases hut : u = t
    . subst hut
      exact hself ▸ habort
    . rw [hother u hut]
      exact h.noAbort u

theorem settled_of_holder (hmutex : MutexInv s) (h : AssertInv s) (hpc : (s.pc t).Holds)
    (hloop : s.pc t ≠ .loop) : Settled s.queue := by
  apply h.settled
  intro u hu
  have : u = t := hmutex.unique hpc (by simp [hu, Pc.Holds])
  exact hloop (this ▸ hu)

theorem move (hmutex : MutexInv s) (h : AssertInv s) (hmove : Move s t s') : AssertInv s' := by
  cases hmove with
  | lock hpc =>
    have hgoto : AssertInv (s.goto t .check) :=
      h.goto (by cases hpc <;> simp_all) (by simp) (by simp)
    apply hgoto.with_mutex _
  | wait hpc =>
    have hgoto : AssertInv (s.goto t .wait) := h.goto (by simp [hpc]) (by simp) (by simp)
    apply hgoto.with_mutex _
  | proceed hpc hwait =>
    have hsettled := settled_of_holder (t := t) hmutex h (by simp [hpc, Pc.Holds]) (by simp [hpc])
    apply of_holder hmutex h t .assert
    . simp [hpc, Pc.Holds]
    . simp
    . exact fun _ => hsettled
    . exact fun _ => hsettled.asserted hwait
    . simp
    . intro u hu
      simp [hu]
  | assertOk hpc =>
    apply of_holder hmutex h t .loop
    . simp [hpc, Pc.Holds]
    . simp
    . simp
    . simp
    . simp
    . intro u hu
      simp [hu]
  | assertFail hpc hassert =>
    have := h.asserted t hpc
    rw [hassert] at this
    contradiction
  | round hpc =>
    apply of_holder hmutex h t .loop
    . simp [hpc, Pc.Holds]
    . simp
    . simp
    . simp
    . simp [hpc]
    . simp
  | leave hpc hends =>
    apply of_holder hmutex h t .broadcast
    . simp [hpc, Pc.Holds]
    . simp
    . exact fun _ => settled_of_loopEnds hends
    . simp
    . simp
    . intro u hu
      simp [hu]
  | broadcast hpc => apply h.broadcast.goto (by simp [hpc]) (by simp) (by simp)
  | unlock hpc =>
    have hgoto : AssertInv (s.goto t .done) := h.goto (by simp [hpc]) (by simp) (by simp)
    apply hgoto.with_mutex _
  | wake hpc => apply h.goto (by simp [hpc]) (by simp) (by simp)

end AssertInv

theorem assertInv_of_reachable (h : (system p c).Reachable s) : AssertInv s := by
  have hinv : MutexInv s ∧ AssertInv s := by
    apply invariant_of_move (P := fun s => MutexInv s ∧ AssertInv s) _ _ h
    . exact ⟨mutexInv_of_reachable (.init rfl), .init⟩
    . rintro s s' t ⟨hmutex, h⟩ hmove
      exact ⟨hmutex.move hmove, h.move hmutex hmove⟩
  exact hinv.2

def items (n : Nat) : List Int :=
  (List.range n).map fun (k : Nat) => (k : Int) + 1

@[simp]
theorem items_length (n : Nat) : (items n).length = n := by
  simp [items]

theorem items_succ (n : Nat) : items (n + 1) = items n ++ [(n : Int) + 1] := by
  simp [items, List.range_succ]

theorem items_take {m n : Nat} (h : m ≤ n) : (items n).take m = items m := by
  rw [items, ← List.map_take, List.take_range, Nat.min_eq_left h, items]

theorem newItem_bmod (n : Nat) : newItem (Int.bmod n (2 ^ 32)) = Int.bmod ((n + 1 : Nat) : Int) (2 ^ 32) := by
  simp [newItem]

theorem newItem_of_lt {n : Nat} (h : n + 1 < 2 ^ 31) : newItem (Int.bmod n (2 ^ 32)) = (n : Int) + 1 := by
  rw [newItem_bmod, Int.bmod_eq_of_le_mul_two]
  . simp
  all_goals omega

structure OrderInv (s : State p c) : Prop where
  item : s.item = Int.bmod s.produced (2 ^ 32)
  order : ∃ l, s.queue.Refines l ∧ (s.produced < 2 ^ 31 → s.dequeued ++ l = items s.produced)

namespace OrderInv

theorem init : OrderInv (State.init p c) where
  item := by simp [State.init]
  order := ⟨[], .initQ, by simp [State.init, items]⟩

theorem produce (h : OrderInv s) (hfull : s.queue.isQueueFull = false) : OrderInv s.produce where
  item := by
    simp only [State.produce]
    rw [h.item]
    apply newItem_bmod s.produced
  order := by
    obtain ⟨l, hl, horder⟩ := h.order
    have hroom : l.length ≠ qDefaultSize := by
      rw [Ne, ← hl.isQueueFull_iff]
      simp [hfull]
    refine ⟨_, (hl.call (.enqueue (toPtr (newItem s.item)))).2, ?_⟩
    intro hbound
    simp only [State.produce] at hbound ⊢
    have hitem : newItem s.item = (s.produced : Int) + 1 := by
      rw [h.item]
      apply newItem_of_lt hbound
    have hptr : toPtr (newItem s.item) = some ((s.produced : Int) + 1) := by
      rw [hitem, toPtr, if_neg (by omega)]
    simp only [hptr, Fifo.call, if_neg hroom]
    rw [← List.append_assoc, horder (by omega), ← items_succ]

theorem consume (h : OrderInv s) (hempty : s.queue.isQueueEmpty = false) : OrderInv s.consume where
  item := h.item
  order := by
    obtain ⟨l, hl, horder⟩ := h.order
    cases l with
    | nil =>
      have := hl.isQueueEmpty_iff.mpr rfl
      simp [hempty] at this
    | cons x l =>
      have ⟨hreply, hl'⟩ := hl.call .deque
      have hdeque : s.queue.deque.1 = some x := by simpa [Queue.call, Fifo.call] using hreply
      refine ⟨l, hl', ?_⟩
      intro hbound
      have : s.dequeued ++ [ofPtr s.queue.deque.1] ++ l = items s.produced := by
        rw [hdeque, List.append_assoc]
        exact horder hbound
      exact this

theorem move (h : OrderInv s) (hmove : Move s t s') : OrderInv s' := by
  cases hmove with
  | round _ hends =>
    generalize t.role = r at hends
    cases r with
    | producer => apply h.produce hends
    | consumer => apply h.consume hends
  | _ => exact ⟨h.item, h.order⟩

end OrderInv

theorem orderInv_of_reachable (h : (system p c).Reachable s) : OrderInv s :=
  invariant_of_move (P := OrderInv) .init (fun _ _ _ => .move) h

theorem assertions_hold_and_items_in_order (h : (system p c).Reachable s) :
    (∀ t, s.pc t ≠ .abort)
      ∧ (∀ t, s.pc t = .assert → asserted t.role s.queue = true)
      ∧ (s.produced < 2 ^ 31 →
          s.dequeued = items s.dequeued.length
            ∧ ∃ l, s.queue.Refines l ∧ s.dequeued ++ l = items s.produced) := by
  have hassert := assertInv_of_reachable h
  obtain ⟨l, hl, horder⟩ := (orderInv_of_reachable h).order
  refine ⟨hassert.noAbort, hassert.asserted, ?_⟩
  intro hbound
  have happend := horder hbound
  refine ⟨?_, l, hl, happend⟩
  have hle : s.dequeued.length ≤ s.produced := by
    have := congrArg List.length happend
    simp only [List.length_append, items_length] at this
    omega
  rw [← items_take hle, ← happend]
  simp

def waitFillDrain : List (Label 1 1) :=
  List.replicate 2 (.run (.inr 0)) ++ List.replicate 11 (.run (.inl 0)) ++
    List.replicate 11 (.run (.inr 0))

theorem assertions_hold_and_items_in_order_waitFillDrain :
    ∃ s, TransitionSystem.runSchedule State.next (State.init 1 1) waitFillDrain = some s
      ∧ s.produced = 5 ∧ s.dequeued = items 5 := by
  have hrun : (TransitionSystem.runSchedule State.next (State.init 1 1) waitFillDrain).isSome = true := by
    decide +kernel
  obtain ⟨s, hs⟩ := Option.isSome_iff_exists.mp hrun
  have hproduced : s.produced = 5 ∧ s.dequeued.length = 5 := by
    have : (TransitionSystem.runSchedule State.next (State.init 1 1) waitFillDrain).map
        (fun s => (s.produced, s.dequeued.length)) = some (5, 5) := by decide +kernel
    simpa [hs] using this
  have hreach : (system 1 1).Reachable s := TransitionSystem.reachable_of_runSchedule (.init rfl) hs
  have horder := (assertions_hold_and_items_in_order hreach).2.2 (by omega)
  exact ⟨s, hs, hproduced.1, hproduced.2 ▸ horder.1⟩

end ProCon
end ThreadSync
