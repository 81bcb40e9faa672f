import BBBLinux.ThreadSync.ProCon.Progress
import Mathlib.Algebra.Order.BigOperators.Group.Finset

/-!
This module contains the end of the runs of any number of producers and consumers: how many steps there
are until no thread can go on, and what has been done by then.
-/

namespace ThreadSync
namespace ProCon

variable {p c : Nat} {s s' : State p c} {t u : Thread p c}

/--
`enqueue` ignores the item 0, after which `new_item` returns 1.
-/
def State.roundsLeft (s : State p c) : Role → Nat
  | .producer => 2 * (qDefaultSize - s.queue.count) + if s.item = 0 then 0 else 1
  | .consumer => s.queue.count

@[simp]
theorem roundsLeft_goto (s : State p c) (t : Thread p c) (pc : Pc) (r : Role) :
    (s.goto t pc).roundsLeft r = s.roundsLeft r := by
  cases r <;> rfl

@[simp]
theorem roundsLeft_broadcast (s : State p c) (r : Role) : s.broadcast.roundsLeft r = s.roundsLeft r := by
  cases r <;> rfl

/--
What a thread has to do. A broadcast gives each sleeper two steps more, so it has to be worth them.
-/
def Pc.work (threads left : Nat) : Pc → Nat
  | .lock | .woken => 2 * qDefaultSize + 2 * threads + 8
  | .check => 2 * qDefaultSize + 2 * threads + 7
  | .wait => 2 * qDefaultSize + 2 * threads + 6
  | .assert => 2 * qDefaultSize + 2 * threads + 5
  | .loop => left + 2 * threads + 3
  | .broadcast => 2 * threads + 2
  | .unlock => 1
  | .done | .abort => 0

def State.workOf (s : State p c) (t : Thread p c) : Nat :=
  (s.pc t).work (p + c) (s.roundsLeft t.role)

def State.work (s : State p c) : Nat :=
  ∑ t : Thread p c, s.workOf t

theorem work_change (s s' : State p c) (t : Thread p c) (h : ∀ u, u ≠ t → s'.workOf u = s.workOf u) :
    s'.work + s.workOf t = s.work + s'.workOf t := by
  unfold State.work
  rw [← Finset.add_sum_erase _ s'.workOf (Finset.mem_univ t),
    ← Finset.add_sum_erase _ s.workOf (Finset.mem_univ t)]
  have hrest : ∑ u ∈ Finset.univ.erase t, s'.workOf u = ∑ u ∈ Finset.univ.erase t, s.workOf u := by
    apply Finset.sum_congr rfl
    intro u hu
    exact h u (Finset.ne_of_mem_erase hu)
  omega

theorem work_goto (s : State p c) (t : Thread p c) (pc : Pc) :
    (s.goto t pc).work + s.workOf t = s.work + pc.work (p + c) (s.roundsLeft t.role) := by
  rw [work_change s (s.goto t pc) t]
  . simp [State.workOf]
  . intro u hu
    simp [State.workOf, hu]

theorem work_round (hmutex : MutexInv s) (hpc : s.pc t = .loop)
    (hleft : (s.round t.role).roundsLeft t.role < s.roundsLeft t.role) :
    (s.round t.role).work < s.work := by
  have hchange := work_change s (s.round t.role) t
  have hother : ∀ u, u ≠ t → (s.round t.role).workOf u = s.workOf u := by
    intro u hu
    have hloop : s.pc u ≠ .loop := by
      intro hloop
      exact hu (hmutex.unique (by simp [hpc, Pc.Holds]) (by simp [hloop, Pc.Holds]))
    unfold State.workOf
    rw [State.round_pc]
    cases hu : s.pc u <;> first | rfl | contradiction
  have hself : (s.round t.role).workOf t < s.workOf t := by
    unfold State.workOf
    rw [State.round_pc, hpc]
    simp only [Pc.work]
    omega
  have heq := hchange hother
  omega

theorem work_broadcast (hpc : s.pc t = .broadcast) : (s.broadcast.goto t .unlock).work < s.work := by
  have hself : s.workOf t = 2 * (p + c) + 2 := by
    unfold State.workOf
    rw [hpc]
    rfl
  have hself' : (s.broadcast.goto t .unlock).workOf t = 1 := by
    simp [State.workOf, Pc.work]
  have hother : ∀ u ∈ Finset.univ.erase t, (s.broadcast.goto t .unlock).workOf u ≤ s.workOf u + 2 := by
    intro u hu
    unfold State.workOf
    rw [State.goto_pc, if_neg (Finset.ne_of_mem_erase hu), State.broadcast_pc]
    split
    . next hwait =>
      rw [hwait]
      exact Nat.le_refl _
    . exact Nat.le_add_right _ 2
  have hsum := Finset.sum_le_sum hother
  rw [Finset.sum_add_distrib, Finset.sum_const_nat fun _ _ => rfl,
    Finset.card_erase_of_mem (Finset.mem_univ t), Finset.card_univ, Fintype.card_sum, Fintype.card_fin,
    Fintype.card_fin] at hsum
  unfold State.work
  rw [← Finset.add_sum_erase _ s.workOf (Finset.mem_univ t),
    ← Finset.add_sum_erase _ (s.broadcast.goto t .unlock).workOf (Finset.mem_univ t)]
  omega

theorem newItem_zero : newItem 0 ≠ 0 := by
  decide

theorem enqueue_count {q : Queue Int} {item : Int} (hitem : item ≠ 0) (hcount : q.count < qDefaultSize) :
    (q.enqueue (toPtr item)).2.count = q.count + 1 := by
  unfold Queue.enqueue toPtr
  rw [if_neg hitem]
  have hfull : q.isQueueFull = false := by
    rw [Bool.eq_false_iff, Ne, Queue.isQueueFull_eq_true]
    omega
  simp only [Option.isNone_some, Bool.false_eq_true, if_false, hfull]
  split <;> rfl

theorem roundsLeft_produce (hcount : s.queue.count < qDefaultSize) :
    s.produce.roundsLeft .producer < s.roundsLeft .producer := by
  unfold State.produce State.roundsLeft
  dsimp only
  by_cases hitem : newItem s.item = 0
  . have hne : s.item ≠ 0 := by
      intro hzero
      rw [hzero] at hitem
      exact newItem_zero hitem
    rw [hitem, if_pos rfl, if_neg hne]
    exact Nat.lt_succ_self _
  . rw [enqueue_count hitem hcount, if_neg hitem]
    split <;> omega

theorem consume_count (hcount : s.queue.count ≠ 0) : s.consume.queue.count + 1 = s.queue.count := by
  have hempty : s.queue.isQueueEmpty = false := by
    rw [Bool.eq_false_iff, Ne, Queue.isQueueEmpty_eq_true]
    exact hcount
  unfold State.consume Queue.deque
  simp only [hempty, Bool.false_eq_true, if_false]
  split <;> simp only <;> omega

theorem roundsLeft_round {r : Role} (hcount : s.queue.count ≤ qDefaultSize)
    (hends : loopEnds r s.queue = false) : (s.round r).roundsLeft r < s.roundsLeft r := by
  cases r with
  | producer =>
    have hfull : s.queue.isQueueFull = false := hends
    rw [Bool.eq_false_iff, Ne, Queue.isQueueFull_eq_true] at hfull
    exact roundsLeft_produce (by omega)
  | consumer =>
    have hempty : s.queue.isQueueEmpty = false := hends
    rw [Bool.eq_false_iff, Ne, Queue.isQueueEmpty_eq_true] at hempty
    exact Nat.lt_of_succ_le (Nat.le_of_eq (consume_count hempty))

theorem roundsLeft_le (s : State p c) (r : Role) (hcount : s.queue.count ≤ qDefaultSize) :
    s.roundsLeft r ≤ 2 * qDefaultSize + 1 := by
  unfold State.roundsLeft
  cases r with
  | producer =>
    dsimp only
    split <;> omega
  | consumer => exact Nat.le_trans hcount (by decide)

theorem work_goto_lt {pc : Pc}
    (hlt : pc.work (p + c) (s.roundsLeft t.role) < (s.pc t).work (p + c) (s.roundsLeft t.role)) :
    (s.goto t pc).work < s.work := by
  have hgoto := work_goto s t pc
  unfold State.workOf at hgoto
  omega

/--
Every step but a spurious wake-up leaves less to do.
-/
theorem work_run (hmutex : MutexInv s) (hcount : s.queue.count ≤ qDefaultSize) (h : s.run t = some s') :
    s'.work < s.work := by
  have hleft := roundsLeft_le s t.role hcount
  cases Move.of_run h with
  | lock hpc =>
    apply work_goto_lt
    cases hpc with
    | inl hpc =>
      rw [hpc]
      exact Nat.lt_succ_self _
    | inr hpc =>
      rw [hpc]
      exact Nat.lt_succ_self _
  | wait hpc =>
    apply work_goto_lt
    rw [hpc]
    exact Nat.lt_succ_self _
  | proceed hpc =>
    apply work_goto_lt
    rw [hpc]
    simp only [Pc.work]
    omega
  | assertOk hpc =>
    apply work_goto_lt
    rw [hpc]
    simp only [Pc.work]
    omega
  | assertFail hpc =>
    apply work_goto_lt
    rw [hpc]
    exact Nat.zero_lt_succ _
  | round hpc hends => exact work_round hmutex hpc (roundsLeft_round hcount hends)
  | leave hpc =>
    apply work_goto_lt
    rw [hpc]
    simp only [Pc.work]
    omega
  | broadcast hpc => exact work_broadcast hpc
  | unlock hpc =>
    apply work_goto_lt
    rw [hpc]
    exact Nat.zero_lt_one
  | wake hpc =>
    unfold State.run at h
    rw [hpc] at h
    contradiction

theorem work_spurious (h : s.next (.spurious t) = some s') : s'.work = s.work + 2 := by
  unfold State.next at h
  dsimp only at h
  split at h
  . next hpc =>
    have hgoto := work_goto s t .woken
    unfold State.workOf at hgoto
    rw [hpc] at hgoto
    simp only [Pc.work] at hgoto
    rw [Option.some.injEq] at h
    rw [← h]
    omega
  . contradiction

theorem work_init : (State.init p c).work = (p + c) * (2 * qDefaultSize + 2 * (p + c) + 8) := by
  have hone : ∀ t ∈ (Finset.univ : Finset (Thread p c)),
      (State.init p c).workOf t = 2 * qDefaultSize + 2 * (p + c) + 8 := fun _ _ => rfl
  unfold State.work
  rw [Finset.sum_const_nat hone, Finset.card_univ, Fintype.card_sum, Fintype.card_fin, Fintype.card_fin]

def Label.isRun : Label p c → Bool
  | .run _ => true
  | .spurious _ => false

theorem count_le_of_reachable (h : (system p c).Reachable s) : s.queue.count ≤ qDefaultSize := by
  obtain ⟨l, hl, _⟩ := (orderInv_of_reachable h).order
  exact hl.count_le

theorem work_step {l : Label p c} (h : (system p c).Reachable s) (hstep : s.next l = some s') :
    (if l.isRun then 1 else 0) + s'.work ≤ s.work + if l.isRun then 0 else 2 := by
  cases l with
  | run t =>
    have hlt := work_run (mutexInv_of_reachable h) (count_le_of_reachable h) hstep
    simp only [Label.isRun, if_true]
    omega
  | spurious t =>
    rw [work_spurious hstep]
    simp [Label.isRun]

theorem steps_add_work {q : State p c × List (Label p c)}
    (h : ((system p c).withHistory fun _ l => [l]).Reachable q) :
    q.2.countP Label.isRun + q.1.work
      ≤ (p + c) * (2 * qDefaultSize + 2 * (p + c) + 8) + 2 * q.2.countP fun l => !l.isRun := by
  induction h with
  | init hinit =>
    rw [hinit.2, hinit.1, work_init]
    simp
  | step hreach _ hstep ih =>
    have hwork := work_step hreach.of_history hstep.1
    rw [hstep.2, List.singleton_append, List.countP_cons, List.countP_cons]
    rename_i q q' l _
    cases hl : l.isRun with
    | false =>
      rw [hl] at hwork
      simp at hwork ⊢
      omega
    | true =>
      rw [hl] at hwork
      simp at hwork ⊢
      omega

/--
What the consumers that have left their loop have taken, and what the one in its loop has taken so far.
-/
structure TakenInv (s : State p c) : Prop where
  rest : (∀ t, s.pc t = .loop → t.role = .producer) →
    s.dequeued.length = qDefaultSize * rounds s .consumer
  draining : ∀ t, s.pc t = .loop → t.role = .consumer →
    s.dequeued.length + s.queue.count = qDefaultSize * (rounds s .consumer + 1)

namespace TakenInv

theorem init : TakenInv (State.init p c) := by
  constructor <;> simp [State.init, rounds, Pc.past]

theorem of_loop_iff (h : TakenInv s) (s' : State p c) (hqueue : s'.queue = s.queue)
    (hdequeued : s'.dequeued = s.dequeued) (hloop : ∀ u, s'.pc u = .loop ↔ s.pc u = .loop)
    (hpast : ∀ u, (s'.pc u).past = (s.pc u).past) : TakenInv s' := by
  have hrounds := rounds_congr s s' hpast
  constructor
  . simp only [hloop, hdequeued, hrounds]
    exact h.rest
  . simp only [hloop, hdequeued, hqueue, hrounds]
    exact h.draining

theorem goto (h : TakenInv s) (pc : Pc) (ht : s.pc t ≠ .loop) (hpc : pc ≠ .loop)
    (hpast : pc.past = (s.pc t).past) : TakenInv (s.goto t pc) := by
  apply h.of_loop_iff (s.goto t pc) rfl rfl
  all_goals
    intro u
    rw [State.goto_pc]
    split
    . next hu => simp [hu, ht, hpc, hpast]
    . rfl

theorem with_mutex (h : TakenInv s) (mutex : Option (Thread p c)) :
    TakenInv { s with mutex := mutex } :=
  h.of_loop_iff _ rfl rfl (fun _ => Iff.rfl) (fun _ => rfl)

theorem broadcast (h : TakenInv s) : TakenInv s.broadcast := by
  apply h.of_loop_iff s.broadcast rfl rfl
  all_goals
    intro u
    rw [State.broadcast_pc]
    split
    . next hwait => simp [hwait, Pc.past]
    . rfl

theorem enter (hmutex : MutexInv s) (h : TakenInv s) (hpc : s.pc t = .assert)
    (hassert : asserted t.role s.queue = true) : TakenInv (s.goto t .loop) := by
  have hnone : ∀ u, s.pc u ≠ .loop := by
    intro u hu
    have heq : u = t := hmutex.unique (by simp [hpc, Pc.Holds]) (by simp [hu, Pc.Holds])
    rw [heq, hpc] at hu
    contradiction
  have hrounds := rounds_congr s (s.goto t .loop) fun u => by
    rw [State.goto_pc]
    split
    . next hu => simp [hu, hpc, Pc.past]
    . rfl
  have hrest : s.dequeued.length = qDefaultSize * rounds s .consumer :=
    h.rest fun u hu => absurd hu (hnone u)
  constructor
  . intro _
    rw [hrounds]
    exact hrest
  . intro u hu hrole
    have heq : u = t := by
      by_contra hne
      rw [State.goto_pc, if_neg hne] at hu
      exact hnone u hu
    rw [heq] at hrole
    rw [hrole] at hassert
    have hfull := (Queue.isQueueFull_eq_true s.queue).mp hassert
    rw [hrounds, State.goto_queue, hfull, Nat.mul_succ, ← hrest]
    rfl

theorem leave (hmutex : MutexInv s) (h : TakenInv s) (hpc : s.pc t = .loop)
    (hends : loopEnds t.role s.queue = true) : TakenInv (s.goto t .broadcast) := by
  have honly : ∀ u, s.pc u = .loop → u = t := by
    intro u hu
    exact hmutex.unique (by simp [hpc, Pc.Holds]) (by simp [hu, Pc.Holds])
  have hrounds := rounds_goto_past (s := s) (t := t) (by simp [hpc, Pc.past]) .broadcast rfl
  constructor
  . intro _
    rw [hrounds]
    split
    . next hrole =>
      rw [hrole] at hends
      have hempty := (Queue.isQueueEmpty_eq_true s.queue).mp hends
      have hdraining := h.draining t hpc hrole
      rw [hempty] at hdraining
      exact hdraining
    . next hrole =>
      apply h.rest
      intro u hu
      rw [honly u hu]
      cases hproducer : t.role with
      | producer => rfl
      | consumer => exact absurd hproducer hrole
  . intro u hu
    rw [State.goto_pc] at hu
    split at hu
    . contradiction
    . next hne => exact absurd (honly u hu) hne

theorem round (hmutex : MutexInv s) (h : TakenInv s) (hpc : s.pc t = .loop)
    (hends : loopEnds t.role s.queue = false) : TakenInv (s.round t.role) := by
  have honly : ∀ u, s.pc u = .loop → u = t := by
    intro u hu
    exact hmutex.unique (by simp [hpc, Pc.Holds]) (by simp [hu, Pc.Holds])
  have hrounds := rounds_congr s (s.round t.role) fun u => by rw [State.round_pc]
  cases hrole : t.role with
  | producer =>
    rw [hrole] at hrounds
    constructor
    . intro hloop
      rw [hrounds]
      rw [State.round_pc] at hloop
      exact h.rest hloop
    . intro u hu hconsumer
      rw [State.round_pc] at hu
      rw [honly u hu, hrole] at hconsumer
      contradiction
  | consumer =>
    rw [hrole] at hrounds hends
    have hempty : s.queue.isQueueEmpty = false := hends
    rw [Bool.eq_false_iff, Ne, Queue.isQueueEmpty_eq_true] at hempty
    have hcount := consume_count hempty
    constructor
    . intro hloop
      rw [State.round_pc] at hloop
      rw [hloop t hpc] at hrole
      contradiction
    . intro u hu hconsumer
      rw [State.round_pc] at hu
      have hdraining := h.draining t hpc hrole
      rw [hrounds, ← hdraining]
      have hlength : s.consume.dequeued.length = s.dequeued.length + 1 := by
        unfold State.consume
        rw [List.length_append, List.length_singleton]
      change s.consume.dequeued.length + s.consume.queue.count = _
      omega

theorem move (hmutex : MutexInv s) (h : TakenInv s) (hmove : Move s t s') : TakenInv s' := by
  cases hmove with
  | lock hpc =>
    apply (h.goto .check _ (by simp) _).with_mutex
    all_goals cases hpc <;> simp_all [Pc.past]
  | wait hpc => exact (h.goto .wait (by simp [hpc]) (by simp) (by simp [hpc, Pc.past])).with_mutex _
  | proceed hpc => exact h.goto .assert (by simp [hpc]) (by simp) (by simp [hpc, Pc.past])
  | assertOk hpc hassert => exact enter hmutex h hpc hassert
  | assertFail hpc => exact h.goto .abort (by simp [hpc]) (by simp) (by simp [hpc, Pc.past])
  | round hpc hends => exact round hmutex h hpc hends
  | leave hpc hends => exact leave hmutex h hpc hends
  | broadcast hpc => exact h.broadcast.goto .unlock (by simp [hpc]) (by simp) (by simp [hpc, Pc.past])
  | unlock hpc => exact (h.goto .done (by simp [hpc]) (by simp) (by simp [hpc, Pc.past])).with_mutex _
  | wake hpc => exact h.goto .woken (by simp [hpc]) (by simp) (by simp [hpc, Pc.past])

end TakenInv

theorem takenInv_of_reachable (h : (system p c).Reachable s) : TakenInv s := by
  have hinv : MutexInv s ∧ TakenInv s := by
    apply invariant_of_move (P := fun s => MutexInv s ∧ TakenInv s) _ _ h
    . exact ⟨mutexInv_of_reachable (.init rfl), .init⟩
    . intro s s' t hinv hmove
      exact ⟨hinv.1.move hmove, hinv.2.move hinv.1 hmove⟩
  exact hinv.2

def finished (s : State p c) (r : Role) : Nat :=
  (Finset.univ.filter fun t : Thread p c => t.role = r ∧ s.pc t = .done).card

theorem finished_eq_rounds (hpc : ∀ t, s.pc t = .wait ∨ s.pc t = .done) (r : Role) :
    finished s r = rounds s r := by
  unfold finished rounds
  congr 1
  ext t
  simp only [Finset.mem_filter, Finset.mem_univ, true_and]
  cases hpc t with
  | inl hwait => simp [hwait, Pc.past]
  | inr hdone => simp [hdone, Pc.past]

/--
Those who could go on have all finished.
-/
theorem rounds_of_not_mustWait (h : (system p c).Reachable s) (hpc : ∀ t, s.pc t = .wait ∨ s.pc t = .done)
    {r : Role} (hr : mustWait r s.queue = false) : rounds s r = threads p c r := by
  rw [rounds_eq_iff]
  intro t ht
  cases hpc t with
  | inr hdone =>
    rw [hdone]
    rfl
  | inl hwait =>
    cases sleepInv_of_reachable h t hwait with
    | inl hmust =>
      rw [ht, hr] at hmust
      contradiction
    | inr hsignaller =>
      obtain ⟨u, hu⟩ := hsignaller
      cases hpc u <;> simp_all

theorem rounds_of_stuck (h : (system p c).Reachable s) (hpc : ∀ t, s.pc t = .wait ∨ s.pc t = .done) :
    (s.queue.count = qDefaultSize ∧ c < p ∧ rounds s .producer = c + 1 ∧ rounds s .consumer = c)
      ∨ (s.queue.count = 0 ∧ p ≤ c ∧ rounds s .producer = p ∧ rounds s .consumer = p) := by
  have hbalance := balanceInv_of_reachable h
  have hnone : ∀ t, s.pc t ≠ .loop := by
    intro t
    cases hpc t <;> simp_all
  have hproducers : rounds s .producer ≤ p := rounds_le s .producer
  have hconsumers : rounds s .consumer ≤ c := rounds_le s .consumer
  cases (assertInv_of_reachable h).settled hnone with
  | inl hfull =>
    left
    have hcount := (Queue.isQueueFull_eq_true s.queue).mp hfull
    have hdrained : rounds s .consumer = c := by
      apply rounds_of_not_mustWait h hpc
      simp [mustWait, Queue.isQueueEmpty, hcount, qDefaultSize]
    have hfilled := hbalance.full hnone hfull
    omega
  | inr hempty =>
    right
    have hcount := (Queue.isQueueEmpty_eq_true s.queue).mp hempty
    have hfilled : rounds s .producer = p := by
      apply rounds_of_not_mustWait h hpc
      simp [mustWait, Queue.isQueueFull, hcount, qDefaultSize]
    have hdrained := hbalance.empty hnone hempty
    omega

theorem dequeued_eq_items (h : (system p c).Reachable s) (hproduced : s.produced < 2 ^ 31) :
    s.dequeued = items s.dequeued.length := by
  obtain ⟨l, _, horder⟩ := (orderInv_of_reachable h).order
  have heq := horder hproduced
  have hlength : s.dequeued.length ≤ s.produced := by
    have := congrArg List.length heq
    rw [List.length_append, items_length] at this
    omega
  rw [← items_take hlength, ← heq, List.take_left]

theorem outcome_of_stuck (h : (system p c).Reachable s) (hstuck : ∀ t, s.run t = none) :
    (finished s .producer = min p (c + 1) ∧ finished s .consumer = min p c)
      ∧ s.queue.count = (if c < p then qDefaultSize else 0)
      ∧ s.dequeued.length = qDefaultSize * min p c
      ∧ (s.produced < 2 ^ 31 → s.dequeued = items (qDefaultSize * min p c)) := by
  have hpc := wait_or_done_of_stuck h hstuck
  have htaken : s.dequeued.length = qDefaultSize * rounds s .consumer := by
    apply (takenInv_of_reachable h).rest
    intro t ht
    cases hpc t <;> simp_all
  have horder := dequeued_eq_items h
  rw [finished_eq_rounds hpc, finished_eq_rounds hpc]
  cases rounds_of_stuck h hpc with
  | inl hfull =>
    obtain ⟨hcount, hlt, hproducers, hconsumers⟩ := hfull
    rw [hconsumers] at htaken
    rw [htaken] at horder
    rw [hcount, hproducers, hconsumers, htaken, if_pos hlt, Nat.min_eq_right hlt,
      Nat.min_eq_right (Nat.le_of_lt hlt)]
    exact ⟨⟨rfl, rfl⟩, rfl, rfl, horder⟩
  | inr hempty =>
    obtain ⟨hcount, hle, hproducers, hconsumers⟩ := hempty
    rw [hconsumers] at htaken
    rw [htaken] at horder
    rw [hcount, hproducers, hconsumers, htaken, if_neg (Nat.not_lt_of_le hle),
      Nat.min_eq_left (Nat.le_succ_of_le hle), Nat.min_eq_left hle]
    exact ⟨⟨rfl, rfl⟩, rfl, rfl, horder⟩

def lastSleeps : List (Label 3 1) :=
  List.replicate 11 (.run (.inl ⟨0, by decide⟩)) ++ List.replicate 2 (.run (.inl ⟨2, by decide⟩)) ++
    List.replicate 11 (.run (.inr ⟨0, by decide⟩)) ++ List.replicate 11 (.run (.inl ⟨1, by decide⟩)) ++
    List.replicate 2 (.run (.inl ⟨2, by decide⟩))

theorem reachable_lastSleeps : ∃ s, TransitionSystem.runSchedule State.next (State.init 3 1) lastSleeps = some s
    ∧ (system 3 1).Reachable s ∧ (∀ t, s.run t = none) ∧ s.produced < 2 ^ 31 := by
  have hrun : (TransitionSystem.runSchedule State.next (State.init 3 1) lastSleeps).map
      (fun s => decide ((∀ t, (s.run t).isNone = true) ∧ s.produced < 2 ^ 31)) = some true := by
    decide +kernel
  obtain ⟨s, hs, hstuck⟩ := Option.map_eq_some_iff.mp hrun
  rw [decide_eq_true_eq] at hstuck
  refine ⟨s, hs, TransitionSystem.reachable_of_runSchedule (.init rfl) hs, ?_, hstuck.2⟩
  intro t
  exact Option.isNone_iff_eq_none.mp (hstuck.1 t)

theorem outcome_of_stuck_lastSleeps :
    ∃ s, TransitionSystem.runSchedule State.next (State.init 3 1) lastSleeps = some s
      ∧ finished s .producer = 2 ∧ s.dequeued = items 5 := by
  obtain ⟨s, hs, hreach, hstuck, hproduced⟩ := reachable_lastSleeps
  obtain ⟨⟨hproducers, _⟩, _, _, horder⟩ := outcome_of_stuck hreach hstuck
  exact ⟨s, hs, hproducers, horder hproduced⟩

theorem steps_bounded {ls : List (Label p c)}
    (h : ((system p c).withHistory fun _ l => [l]).Reachable (s, ls)) :
    ls.countP Label.isRun
      ≤ (p + c) * (2 * qDefaultSize + 2 * (p + c) + 8) + 2 * ls.countP fun l => !l.isRun :=
  Nat.le_trans (Nat.le_add_right _ _) (steps_add_work h)

theorem steps_bounded_lastSleeps : ∃ s ls, ((system 3 1).withHistory fun _ l => [l]).Reachable (s, ls)
    ∧ (∀ t, s.run t = none) ∧ ls.countP Label.isRun ≤ 104 + 2 * ls.countP fun l => !l.isRun := by
  obtain ⟨s, _, hreach, hstuck, _⟩ := reachable_lastSleeps
  obtain ⟨ls, hls⟩ := hreach.exists_history fun _ l => [l]
  exact ⟨s, ls, hls, hstuck, steps_bounded hls⟩

end ProCon
end ThreadSync
