import BBBLinux.ThreadSync.ProCon.Safety
import Mathlib.Data.Fintype.BigOperators

/-!
This module contains the progress of equally many producers and consumers: they never all sleep in
`pthread_cond_wait`, and they leave the queue empty.
-/

namespace ThreadSync
namespace ProCon

variable {p c : Nat} {s s' : State p c} {t u : Thread p c}

def Pc.past : Pc → Bool
  | .broadcast | .unlock | .done => true
  | .lock | .check | .wait | .woken | .assert | .loop | .abort => false

def rounds (s : State p c) (r : Role) : Nat :=
  (Finset.univ.filter fun t : Thread p c => t.role = r ∧ (s.pc t).past = true).card

theorem rounds_congr (s s' : State p c) (h : ∀ t, (s'.pc t).past = (s.pc t).past) (r : Role) :
    rounds s' r = rounds s r := by
  simp only [rounds, h]

theorem rounds_goto_past (ht : (s.pc t).past = false) (pc : Pc) (hpc : pc.past = true) (r : Role) :
    rounds (s.goto t pc) r = if t.role = r then rounds s r + 1 else rounds s r := by
  have hmem : ∀ u, (((s.goto t pc).pc u).past = true ↔ u = t ∨ (s.pc u).past = true) := by
    intro u
    rw [State.goto_pc]
    split
    . next hu => simp [hu, hpc]
    . next hu => simp [hu]
  split
  . next hrole =>
    have hinsert : (Finset.univ.filter fun u : Thread p c => u.role = r ∧ ((s.goto t pc).pc u).past = true)
        = insert t (Finset.univ.filter fun u : Thread p c => u.role = r ∧ (s.pc u).past = true) := by
      ext u
      simp only [hmem, Finset.mem_filter, Finset.mem_univ, true_and, Finset.mem_insert]
      grind
    rw [rounds, hinsert, Finset.card_insert_of_notMem]
    . rfl
    . simp [ht]
  . next hrole =>
    unfold rounds
    congr 1
    ext u
    simp only [hmem, Finset.mem_filter, Finset.mem_univ, true_and]
    grind

def threads (p c : Nat) : Role → Nat
  | .producer => p
  | .consumer => c

theorem card_role (p c : Nat) (r : Role) :
    (Finset.univ.filter fun t : Thread p c => t.role = r).card = threads p c r := by
  rw [Finset.card_filter, Fintype.sum_sum_type]
  cases r <;> simp [Thread.role, threads]

theorem rounds_le (s : State p c) (r : Role) : rounds s r ≤ threads p c r := by
  rw [← card_role]
  apply Finset.card_le_card
  intro t
  simp only [Finset.mem_filter, Finset.mem_univ, true_and]
  apply And.left

theorem rounds_eq_iff (s : State p c) (r : Role) :
    rounds s r = threads p c r ↔ ∀ t, t.role = r → (s.pc t).past = true := by
  rw [← card_role]
  constructor
  . intro h t ht
    have hsub : (Finset.univ.filter fun t : Thread p c => t.role = r ∧ (s.pc t).past = true)
        ⊆ Finset.univ.filter fun t : Thread p c => t.role = r := by
      intro t
      simp only [Finset.mem_filter, Finset.mem_univ, true_and]
      apply And.left
    have heq := Finset.eq_of_subset_of_card_le hsub (by rw [← h, rounds])
    have hmem : t ∈ Finset.univ.filter fun t : Thread p c => t.role = r := by simpa using ht
    rw [← heq] at hmem
    simp only [Finset.mem_filter, Finset.mem_univ, true_and] at hmem
    exact hmem.2
  . intro h
    unfold rounds
    congr 1
    ext t
    simp only [Finset.mem_filter, Finset.mem_univ, true_and]
    exact ⟨And.left, fun ht => ⟨ht, h t ht⟩⟩

structure BalanceInv (s : State p c) : Prop where
  full : (∀ t, s.pc t ≠ .loop) → s.queue.isQueueFull = true →
    rounds s .producer = rounds s .consumer + 1
  empty : (∀ t, s.pc t ≠ .loop) → s.queue.isQueueEmpty = true →
    rounds s .producer = rounds s .consumer
  filling : ∀ t, s.pc t = .loop → t.role = .producer → rounds s .producer = rounds s .consumer
  draining : ∀ t, s.pc t = .loop → t.role = .consumer →
    rounds s .producer = rounds s .consumer + 1

namespace BalanceInv

theorem init : BalanceInv (State.init p c) := by
  constructor <;> simp [State.init, initQ, Queue.isQueueFull, qDefaultSize, rounds, Pc.past]

theorem of_loop_iff (h : BalanceInv s) (s' : State p c) (hqueue : s'.queue = s.queue)
    (hloop : ∀ u, s'.pc u = .loop ↔ s.pc u = .loop)
    (hpast : ∀ u, (s'.pc u).past = (s.pc u).past) : BalanceInv s' := by
  have hrounds := rounds_congr s s' hpast
  constructor
  all_goals
    simp only [ne_eq, hloop, hqueue, hrounds]
  . exact h.full
  . apply h.empty
  . exact h.filling
  . exact h.draining

theorem goto (h : BalanceInv s) (pc : Pc) (ht : s.pc t ≠ .loop) (hpc : pc ≠ .loop)
    (hpast : pc.past = (s.pc t).past) : BalanceInv (s.goto t pc) := by
  apply h.of_loop_iff (s.goto t pc) rfl
  all_goals
    intro u
    rw [State.goto_pc]
    split
    . next hu => simp [hu, ht, hpc, hpast]
    . rfl

theorem with_mutex (h : BalanceInv s) (mutex : Option (Thread p c)) :
    BalanceInv { s with mutex := mutex } :=
  h.of_loop_iff _ rfl (fun _ => Iff.rfl) (fun _ => rfl)

theorem broadcast (h : BalanceInv s) : BalanceInv s.broadcast := by
  apply h.of_loop_iff s.broadcast rfl
  all_goals
    intro u
    rw [State.broadcast_pc]
    split
    . next hwait => simp [hwait, Pc.past]
    . rfl

theorem enter (hmutex : MutexInv s) (h : BalanceInv s) (hpc : s.pc t = .assert)
    (hassert : asserted t.role s.queue = true) : BalanceInv (s.goto t .loop) := by
  have hnone : ∀ u, s.pc u ≠ .loop := by
    intro u hu
    have : u = t := hmutex.unique (by simp [hpc, Pc.Holds]) (by simp [hu, Pc.Holds])
    simp [this, hpc] at hu
  have honly : ∀ u, (s.goto t .loop).pc u = .loop → u = t := by
    intro u hu
    by_contra hne
    exact hnone u (by simpa [hne] using hu)
  have hrounds := rounds_congr s (s.goto t .loop) fun u => by
    rw [State.goto_pc]
    split
    . next hu => simp [hu, hpc, Pc.past]
    . rfl
  constructor
  . intro hloop
    exact absurd (by simp) (hloop t)
  . intro hloop
    exact absurd (by simp) (hloop t)
  . intro u hu hrole
    rw [honly u hu] at hrole
    rw [hrounds, hrounds]
    rw [hrole] at hassert
    apply h.empty hnone hassert
  . intro u hu hrole
    rw [honly u hu] at hrole
    rw [hrounds, hrounds]
    rw [hrole] at hassert
    exact h.full hnone hassert

theorem leave (hmutex : MutexInv s) (h : BalanceInv s) (hpc : s.pc t = .loop)
    (hends : loopEnds t.role s.queue = true) : BalanceInv (s.goto t .broadcast) := by
  have hnone : ∀ u, (s.goto t .broadcast).pc u ≠ .loop := by
    intro u
    rw [State.goto_pc]
    split
    . simp
    . next hu =>
      intro hloop
      exact hu (hmutex.unique (by simp [hpc, Pc.Holds]) (by simp [hloop, Pc.Holds]))
  have hrounds := rounds_goto_past (s := s) (t := t) (by simp [hpc, Pc.past]) .broadcast rfl
  have hboth : ¬(s.queue.isQueueFull = true ∧ s.queue.isQueueEmpty = true) := by
    simp only [Queue.isQueueFull_eq_true, Queue.isQueueEmpty_eq_true, qDefaultSize]
    omega
  constructor
  . intro _ hfull
    rw [State.goto_queue] at hfull
    cases hrole : t.role with
    | producer => simp [hrounds, hrole, h.filling t hpc hrole]
    | consumer =>
      rw [hrole] at hends
      exact absurd ⟨hfull, hends⟩ hboth
  . intro _ hempty
    rw [State.goto_queue] at hempty
    cases hrole : t.role with
    | producer =>
      rw [hrole] at hends
      exact absurd ⟨hends, hempty⟩ hboth
    | consumer => simp [hrounds, hrole, h.draining t hpc hrole]
  . intro u hu
    exact absurd hu (hnone u)
  . intro u hu
    exact absurd hu (hnone u)

theorem round (h : BalanceInv s) (hpc : s.pc t = .loop) (r : Role) : BalanceInv (s.round r) := by
  have hrounds := rounds_congr s (s.round r) fun u => by rw [State.round_pc]
  constructor
  all_goals
    simp only [State.round_pc, hrounds]
  . intro hnone
    exact absurd hpc (hnone t)
  . intro hnone
    exact absurd hpc (hnone t)
  . exact h.filling
  . exact h.draining

theorem move (hmutex : MutexInv s) (h : BalanceInv s) (hmove : Move s t s') : BalanceInv s' := by
  cases hmove with
  | lock hpc =>
    apply (h.goto .check _ (by simp) _).with_mutex
    all_goals cases hpc <;> simp_all [Pc.past]
  | wait hpc => apply (h.goto _ (by simp [hpc]) (by simp) (by simp [hpc, Pc.past])).with_mutex _
  | proceed hpc => apply h.goto _ (by simp [hpc]) (by simp) (by simp [hpc, Pc.past])
  | assertOk hpc hassert => apply enter hmutex h hpc hassert
  | assertFail hpc => apply h.goto _ (by simp [hpc]) (by simp) (by simp [hpc, Pc.past])
  | round hpc => apply h.round hpc _
  | leave hpc hends => apply leave hmutex h hpc hends
  | broadcast hpc =>
    apply h.broadcast.goto _ (by simp [hpc]) (by simp) (by simp [hpc, Pc.past])
  | unlock hpc => apply (h.goto _ (by simp [hpc]) (by simp) (by simp [hpc, Pc.past])).with_mutex _
  | wake hpc => apply h.goto _ (by simp [hpc]) (by simp) (by simp [hpc, Pc.past])

end BalanceInv

/--
A sleeping thread has a reason to sleep, or somebody is about to wake all sleepers up: only the
loops change the queue, and each of them is followed by a broadcast.
-/
def SleepInv (s : State p c) : Prop :=
  ∀ t, s.pc t = .wait →
    mustWait t.role s.queue = true ∨ ∃ u, s.pc u = .loop ∨ s.pc u = .broadcast

namespace SleepInv

theorem of_queue (h : SleepInv s) (s' : State p c) (hqueue : s'.queue = s.queue)
    (hwait : ∀ u, s'.pc u = .wait → s.pc u = .wait ∨ mustWait u.role s.queue = true)
    (hsignal : ∀ u, s.pc u = .loop ∨ s.pc u = .broadcast → s'.pc u = .loop ∨ s'.pc u = .broadcast) :
    SleepInv s' := by
  intro u hu
  rw [hqueue]
  cases hwait u hu with
  | inl hold =>
    cases h u hold with
    | inl hmust => exact .inl hmust
    | inr hsignaller =>
      obtain ⟨v, hv⟩ := hsignaller
      exact .inr ⟨v, hsignal v hv⟩
  | inr hmust => exact .inl hmust

theorem goto (h : SleepInv s) (pc : Pc) (hpc : pc = .wait → mustWait t.role s.queue = true)
    (ht : s.pc t ≠ .loop ∧ s.pc t ≠ .broadcast) : SleepInv (s.goto t pc) := by
  apply h.of_queue (s.goto t pc) rfl
  all_goals
    intro u
    rw [State.goto_pc]
    split
    . next hu =>
      subst hu
      grind
    . grind

theorem with_mutex (h : SleepInv s) (mutex : Option (Thread p c)) :
    SleepInv { s with mutex := mutex } :=
  h

theorem of_signaller (hpc : s.pc t = .loop ∨ s.pc t = .broadcast) : SleepInv s :=
  fun _ _ => .inr ⟨t, hpc⟩

theorem broadcast {pc : Pc} (hpc : pc ≠ .wait) : SleepInv (s.broadcast.goto t pc) := by
  intro u hu
  rw [State.goto_pc, State.broadcast_pc] at hu
  split at hu
  . exact absurd hu hpc
  . grind

theorem move (h : SleepInv s) (hmove : Move s t s') : SleepInv s' := by
  cases hmove with
  | lock hpc => exact (h.goto .check (by simp) (by cases hpc <;> simp_all)).with_mutex _
  | wait hpc hwait =>
    apply (h.goto .wait (fun _ => hwait) (by simp [hpc])).with_mutex _
  | proceed hpc => apply h.goto _ (by simp) (by simp [hpc])
  | assertOk hpc => apply of_signaller (t := t) (by simp)
  | assertFail hpc => apply h.goto _ (by simp) (by simp [hpc])
  | round hpc => apply of_signaller (t := t) (by simp [hpc])
  | leave hpc => apply of_signaller (t := t) (by simp)
  | broadcast => apply broadcast (by simp)
  | unlock hpc => apply (h.goto .done (by simp) (by simp [hpc])).with_mutex _
  | wake hpc => apply h.goto _ (by simp) (by simp [hpc])

end SleepInv

theorem balanceInv_of_reachable (h : (system p c).Reachable s) : BalanceInv s := by
  have hinv : MutexInv s ∧ BalanceInv s := by
    apply invariant_of_move (P := fun s => MutexInv s ∧ BalanceInv s) _ _ h
    . exact ⟨mutexInv_of_reachable (.init rfl), .init⟩
    . rintro s s' t ⟨hmutex, h⟩ hmove
      exact ⟨hmutex.move hmove, h.move hmutex hmove⟩
  exact hinv.2

theorem sleepInv_of_reachable (h : (system p c).Reachable s) : SleepInv s :=
  invariant_of_move (P := SleepInv) (by intro t; simp [State.init]) (fun _ _ _ => .move) h

theorem run_eq_none (h : s.run t = none) :
    s.pc t = .wait ∨ s.pc t = .done ∨ s.pc t = .abort ∨ ¬(s.pc t).Holds ∧ s.mutex ≠ none := by
  unfold State.run State.lock at h
  cases hpc : s.pc t <;> simp_all [Pc.Holds]
  all_goals
    split at h <;> contradiction

theorem wait_or_done_of_stuck (h : (system p c).Reachable s) (hstuck : ∀ t, s.run t = none) (t) :
    s.pc t = .wait ∨ s.pc t = .done := by
  have hmutex := mutexInv_of_reachable h
  have habort := (assertInv_of_reachable h).noAbort
  have hfree : s.mutex = none := by
    cases hm : s.mutex with
    | none => rfl
    | some u =>
      have hholds := (hmutex u).mpr hm
      rcases run_eq_none (hstuck u) with hpc | hpc | hpc | hpc
      . simp [hpc, Pc.Holds] at hholds
      . simp [hpc, Pc.Holds] at hholds
      . exact absurd hpc (habort u)
      . exact absurd hholds hpc.1
  rcases run_eq_none (hstuck t) with hpc | hpc | hpc | hpc
  . exact .inl hpc
  . exact .inr hpc
  . exact absurd hpc (habort t)
  . exact absurd hfree hpc.2

theorem done_of_wait_or_done {n : Nat} {s : State n n} (h : (system n n).Reachable s)
    (hpc : ∀ t, s.pc t = .wait ∨ s.pc t = .done) : (∀ t, s.pc t = .done) ∧ s.queue.count = 0 := by
  have hbalance := balanceInv_of_reachable h
  have hnone : ∀ t, s.pc t ≠ .loop := by
    intro t
    cases hpc t <;> simp_all
  have hreason : ∀ t, s.pc t = .wait → mustWait t.role s.queue = true := by
    intro t ht
    refine (sleepInv_of_reachable h t ht).resolve_right ?_
    rintro ⟨u, hu⟩
    cases hpc u <;> simp_all
  have hpast : ∀ t, (s.pc t).past = true → s.pc t = .done := by
    intro t ht
    refine (hpc t).resolve_left ?_
    intro hwait
    simp [hwait, Pc.past] at ht
  have hall : ∀ r, mustWait r s.queue = false → rounds s r = n := by
    intro r hr
    have hthreads : threads n n r = n := by cases r <;> rfl
    refine ((rounds_eq_iff s r).mpr ?_).trans hthreads
    intro t ht
    have hdone : s.pc t = .done := by
      refine (hpc t).resolve_left ?_
      intro hwait
      have := hreason t hwait
      rw [ht, hr] at this
      contradiction
    simp [hdone, Pc.past]
  rcases (assertInv_of_reachable h).settled hnone with hfull | hempty
  . have hdrained : rounds s .consumer = n := by
      apply hall
      have := (Queue.isQueueFull_eq_true s.queue).mp hfull
      simp [mustWait, Queue.isQueueEmpty, this, qDefaultSize]
    have hfilled : rounds s .producer ≤ n := rounds_le s .producer
    have := hbalance.full hnone hfull
    omega
  . have hcount := (Queue.isQueueEmpty_eq_true s.queue).mp hempty
    have hfilled : rounds s .producer = n := by
      apply hall
      simp [mustWait, Queue.isQueueFull, hcount, qDefaultSize]
    have hdrained : rounds s .consumer = n := by
      rw [← hbalance.empty hnone hempty]
      exact hfilled
    refine ⟨?_, hcount⟩
    intro t
    apply hpast
    cases hrole : t.role with
    | producer => apply (rounds_eq_iff s .producer).mp hfilled t hrole
    | consumer => apply (rounds_eq_iff s .consumer).mp hdrained t hrole

theorem never_stuck_and_empty_when_done {n : Nat} {s : State n n} (h : (system n n).Reachable s) :
    ((∃ t, s.pc t ≠ .done) → ∃ t, (s.run t).isSome = true)
      ∧ ((∀ t, s.pc t = .done) → s.queue.count = 0) := by
  constructor
  . rintro ⟨t, ht⟩
    by_contra hstuck
    have hnone : ∀ t, s.run t = none := by
      intro t
      by_contra hsome
      exact hstuck ⟨t, Option.isSome_iff_ne_none.mpr hsome⟩
    exact ht ((done_of_wait_or_done h (wait_or_done_of_stuck h hnone)).1 t)
  . intro hdone
    apply (done_of_wait_or_done h fun t => .inr (hdone t)).2

theorem never_stuck_and_empty_when_done_waitFillDrain :
    ∃ s, TransitionSystem.runSchedule State.next (State.init 1 1) waitFillDrain = some s
      ∧ s.queue.count = 0 := by
  have hrun : (TransitionSystem.runSchedule State.next (State.init 1 1) waitFillDrain).map
      (fun s => (s.pc (.inl 0), s.pc (.inr 0))) = some (.done, .done) := by decide +kernel
  obtain ⟨s, hs, hpc⟩ := Option.map_eq_some_iff.mp hrun
  have hreach : (system 1 1).Reachable s := TransitionSystem.reachable_of_runSchedule (.init rfl) hs
  refine ⟨s, hs, (never_stuck_and_empty_when_done hreach).2 ?_⟩
  simp only [Prod.mk.injEq] at hpc
  rintro (t | t)
  . rw [Subsingleton.elim t 0]
    exact hpc.1
  . rw [Subsingleton.elim t 0]
    exact hpc.2

end ProCon
end ThreadSync
