import BBBLinux.ThreadSync.DnPhil.Invariant

/-!
This module contains the philosophers that sleep on the condition variable of their left spoon. Only
the release of a right spoon can free such a spoon, and it signals before it unlocks the mutex.
-/

namespace ThreadSync
namespace DnPhil

variable {n : Nat} {s s' : State n} {p q : Fin n}

def SleepInv (s : State n) : Prop :=
  ∀ p, s.pc p = .waitLeft → (∃ q, q ≠ p ∧ s.owner p = some q)
    ∨ ∃ q, Side.right.spoon q = p ∧ s.pc q = .releaseSignalRight

namespace SleepInv

variable {next : Pc} {side : Side}

theorem of_kept (h : SleepInv s) (s' : State n) (hq : s.pc q = .waitLeft)
    (howner : s'.owner q = s.owner q)
    (hsignal : ∀ r, s.pc r = .releaseSignalRight → Side.right.spoon r = q →
      s'.pc r = .releaseSignalRight) :
    (∃ r, r ≠ q ∧ s'.owner q = some r)
      ∨ ∃ r, Side.right.spoon r = q ∧ s'.pc r = .releaseSignalRight := by
  cases h q hq with
  | inl howned =>
    left
    rw [howner]
    exact howned
  | inr hsignals =>
    have ⟨r, hr, hrpc⟩ := hsignals
    right
    exists r
    exact ⟨hr, hsignal r hrpc hr⟩

theorem waitLeft_of_update {pc : Fin n → Pc} (hnext : next ≠ .waitLeft)
    (hq : Function.update pc p next q = .waitLeft) : q ≠ p ∧ pc q = .waitLeft := by
  have hqp : q ≠ p := by
    intro heq
    rw [heq, Function.update_self] at hq
    exact hnext hq
  rw [Function.update_of_ne hqp] at hq
  exact ⟨hqp, hq⟩

theorem update_of_signal {pc : Fin n → Pc} (hp : pc p ≠ .releaseSignalRight)
    (hq : pc q = .releaseSignalRight) : Function.update pc p next q = .releaseSignalRight := by
  rw [Function.update_of_ne]
  . exact hq
  . intro heq
    rw [heq] at hq
    exact hp hq

theorem ne_releaseSignalRight (h : (s.pc p).instr ≠ .signal .right .releaseUnlockRight) :
    s.pc p ≠ .releaseSignalRight := by
  intro heq
  rw [heq] at h
  exact h rfl

theorem of_owner (h : SleepInv s) (s' : State n) (hpc : s'.pc = Function.update s.pc p next)
    (howner : s'.owner = s.owner) (hnext : next ≠ .waitLeft)
    (hp : (s.pc p).instr ≠ .signal .right .releaseUnlockRight) : SleepInv s' := by
  intro q hq
  rw [hpc] at hq
  apply h.of_kept s' (waitLeft_of_update hnext hq).2
  . rw [howner]
  . intro r hr _
    rw [hpc]
    apply update_of_signal (ne_releaseSignalRight hp) hr

theorem goto (h : SleepInv s) (hnext : next ≠ .waitLeft)
    (hp : (s.pc p).instr ≠ .signal .right .releaseUnlockRight) : SleepInv (s.goto p next) :=
  h.of_owner (s.goto p next) rfl rfl hnext hp

theorem count (h : SleepInv s) (eatCount : Fin n → Nat) :
    SleepInv { s with eatCount := eatCount } :=
  h

theorem wait (hinv : Inv s) (h : SleepInv s) (hp : s.pc p = .checkLeft)
    (hused : (s.spoon p).isUsed = true) (hphil : s.owner p ≠ some p) :
    SleepInv ((s.setMutex p none).goto p .waitLeft) := by
  intro q hq
  by_cases hqp : q = p
  . rw [hinv.isUsed, Option.isSome_iff_exists] at hused
    have ⟨r, hr⟩ := hused
    left
    exists r
    rw [State.goto_owner, State.setMutex_owner, hqp]
    refine ⟨?_, hr⟩
    intro heq
    rw [hr, heq] at hphil
    contradiction
  . rw [State.goto_pc, State.setMutex_pc, Function.update_of_ne hqp] at hq
    apply h.of_kept _ hq
    . simp
    . intro r hr _
      apply update_of_signal _ hr
      simp [hp]

theorem take (h : SleepInv s) (hpc : (s.pc p).instr = .take side next) :
    SleepInv (((s.setUsed (side.spoon p) true).setPhil (side.spoon p) (some p)).goto p next) := by
  intro q hq
  have hnext := Pc.ne_waitLeft_of_plain (Pc.take_spec hpc side).2.2.2
  have ⟨hqp, hwait⟩ := waitLeft_of_update hnext hq
  by_cases hk : q = side.spoon p
  . left
    exists p
    rw [State.goto_owner, State.setPhil_owner, State.setUsed_owner, hk, Function.update_self, ← hk]
    exact ⟨hqp.symm, rfl⟩
  . apply h.of_kept _ hwait
    . simp [hk]
    . intro r hr _
      apply update_of_signal _ hr
      apply ne_releaseSignalRight
      simp [hpc]

theorem clear (h : SleepInv s) (hpc : (s.pc p).instr = .clear side next) :
    SleepInv (((s.setUsed (side.spoon p) false).setPhil (side.spoon p) none).goto p next) := by
  intro q hq
  have hnext := Pc.ne_waitLeft_of_plain (Pc.clear_spec hpc side).2.2.2.2
  have ⟨hqp, hwait⟩ := waitLeft_of_update hnext hq
  by_cases hk : q = side.spoon p
  . cases side with
    | left => exact absurd hk hqp
    | right =>
      right
      exists p
      rw [State.goto_pc, Function.update_self]
      refine ⟨hk.symm, ?_⟩
      generalize s.pc p = pc at hpc
      cases pc <;> simp [Pc.instr] at hpc
      exact hpc.symm
  . apply h.of_kept _ hwait
    . simp [hk]
    . intro r hr _
      apply update_of_signal _ hr
      apply ne_releaseSignalRight
      simp [hpc]

theorem signal (h : SleepInv s) (hpc : (s.pc p).instr = .signal side next) :
    SleepInv ((s.wake (side.spoon p)).goto p next) := by
  intro q hq
  have hnext := Pc.ne_waitLeft_of_plain (Pc.signal_spec hpc side).2.2
  have hwake := (waitLeft_of_update hnext hq).2
  have hwait : s.pc q = .waitLeft := by
    rcases s.wake_pc q (side.spoon p) with hsame | ⟨woken, hsleep, hwoken⟩
    . rw [← hsame]
      exact hwake
    . rw [hwoken] at hwake
      exact absurd hwake (Pc.ne_waitLeft_of_plain (Pc.sleep_spec hsleep .left).2.2)
  have hk : q ≠ side.spoon p := by
    intro heq
    have hleft : Side.left.spoon q = side.spoon p := heq
    simp only [State.wake, hwait, Pc.instr, if_pos hleft] at hwake
    contradiction
  apply h.of_kept _ hwait
  . simp
  . intro r hr hright
    have hrp : r ≠ p := by
      intro heq
      rw [← heq, hr] at hpc
      injection hpc with hside
      rw [← hside, ← heq] at hk
      exact hk hright.symm
    rw [State.goto_pc, Function.update_of_ne hrp]
    rcases s.wake_pc r (side.spoon p) with hsame | ⟨woken, hsleep, _⟩
    . rw [hsame]
      exact hr
    . rw [hr] at hsleep
      contradiction

theorem move (hinv : Inv s) (h : SleepInv s) (hmove : Move s p s') : SleepInv s' := by
  cases hmove with
  | lock hpc =>
    have hnext := Pc.ne_waitLeft_of_plain (Pc.lock_spec hpc .left).2.2
    apply h.of_owner _ rfl _ hnext
    . simp [hpc]
    . simp
  | unlock hpc =>
    have hnext := Pc.ne_waitLeft_of_plain (Pc.unlock_spec hpc .left).2.2.2
    apply h.of_owner _ rfl _ hnext
    . simp [hpc]
    . simp
  | wait hpc hused hphil =>
    have hwait := (Pc.waitWhileTaken_spec hpc .left).2.2.2.2.2.2.1
    subst hwait
    have hp : s.pc p = .checkLeft := by
      generalize s.pc p = pc at hpc ⊢
      cases pc <;> simp [Pc.instr] at hpc ⊢
    apply wait (p := p) hinv h hp hused hphil
  | proceed hpc =>
    have hnext := (Pc.waitWhileTaken_spec hpc .left).2.2.2.2.2.2.2
    apply h.goto
    . simp [hnext]
    . simp [hpc]
  | take hpc => apply h.take hpc
  | clear hpc => apply h.clear hpc
  | signal hpc => apply h.signal hpc
  | assertOk hpc =>
    have hnext := Pc.ne_waitLeft_of_plain (Pc.assertOwned_spec hpc .left).2.2.2
    apply h.goto hnext
    simp [hpc]
  | assertFail hpc =>
    apply h.goto
    . simp
    . simp [hpc]
  | assertFalse hpc =>
    apply h.goto
    . simp
    . simp [hpc]
  | branchFree hpc =>
    have hfree := (Pc.branchRight_spec hpc .left).2.2.2.2.2.1
    apply h.goto
    . simp [hfree]
    . simp [hpc]
  | branchOther hpc =>
    have hother := Pc.ne_waitLeft_of_plain (Pc.branchRight_spec hpc .left).2.2.2.2.2.2
    apply h.goto hother
    simp [hpc]
  | branchOwn hpc =>
    apply h.goto
    . generalize s.pc p = pc at hpc
      cases pc <;> simp [Pc.instr] at hpc
      simp [← hpc.2.2]
    . simp [hpc]
  | count hpc eatCount =>
    have hnext := Pc.ne_waitLeft_of_plain (Pc.count_spec hpc .left).2.2
    apply (h.count eatCount).goto hnext
    simp [hpc]
  | wake hpc =>
    have hnext := Pc.ne_waitLeft_of_plain (Pc.sleep_spec hpc .left).2.2
    apply h.goto hnext
    simp [hpc]

end SleepInv

theorem sleepInv_of_reachable (hn : 2 ≤ n) (h : (system n).Reachable s) : SleepInv s := by
  apply h.invariant_of (Q := Inv)
  . exact fun _ => inv_of_reachable hn
  . intro s hs p hp
    rw [hs] at hp
    contradiction
  . intro s l s' hinv hsleep _ hstep
    have ⟨p, hmove⟩ := Move.of_step hstep
    apply hsleep.move hinv hmove

def WakeUpPending (s : State n) (p q : Fin n) : Prop :=
  ∃ side next, (s.pc q).instr = .signal side next ∧ side.spoon q = Side.left.spoon p

/--
Nobody sleeps through the moment its left spoon becomes free.
-/
structure NoLostWakeUp (s : State n) : Prop where
  taken : ∀ p, s.pc p = .waitLeft → (∀ q, ¬WakeUpPending s p q) →
    (s.spoon (Side.left.spoon p)).isUsed = true ∧ ∃ q, q ≠ p
      ∧ Side.right.spoon q = Side.left.spoon p ∧ (s.spoon (Side.left.spoon p)).phil = some q
  -- the spoon of a pending wake-up stays locked until the wake-up has arrived
  pending : ∀ p q, s.pc p = .waitLeft → WakeUpPending s p q →
    (s.spoon (Side.left.spoon p)).mutex = some q
      ∧ ∃ t, s.run q = some t ∧ t.pc p = .wokenLeft
  -- the way back frees a spoon without a signal, but nobody waits for it
  backoff : ∀ q t, s.pc q = .backoffClear → s.run q = some t →
    ∀ p, t.pc p = .waitLeft → Side.left.spoon p ≠ Side.left.spoon q

theorem signal_of_wakeUpPending (hp : s.pc p = .waitLeft) (h : WakeUpPending s p q) :
    q ≠ p ∧ s.pc q = .releaseSignalRight ∧ Side.right.spoon q = Side.left.spoon p := by
  have ⟨side, next, hpc, hspoon⟩ := h
  have hne : q ≠ p := by
    intro heq
    rw [heq, hp] at hpc
    contradiction
  refine ⟨hne, ?_⟩
  cases side with
  | left => exact absurd hspoon hne
  | right =>
    refine ⟨?_, hspoon⟩
    generalize s.pc q = pc at hpc
    cases pc <;> simp [Pc.instr] at hpc ⊢

theorem taken_of_waitLeft (hinv : Inv s) (hsleep : SleepInv s) (hp : s.pc p = .waitLeft)
    (hpending : ∀ q, ¬WakeUpPending s p q) :
    (s.spoon (Side.left.spoon p)).isUsed = true ∧ ∃ q, q ≠ p
      ∧ Side.right.spoon q = Side.left.spoon p ∧ (s.spoon (Side.left.spoon p)).phil = some q := by
  cases hsleep p hp with
  | inl howner =>
    have ⟨q, hne, howner⟩ := howner
    constructor
    . apply (hinv.isUsed p).trans
      rw [howner]
      rfl
    . refine ⟨q, hne, ?_, howner⟩
      have ⟨side, hside, _⟩ := (hinv.owner p q).mp howner
      cases side with
      | left => exact absurd hside.symm hne
      | right => exact hside.symm
  | inr hsignal =>
    have ⟨q, hspoon, hq⟩ := hsignal
    refine absurd ⟨.right, .releaseUnlockRight, ?_, hspoon⟩ (hpending q)
    rw [hq]
    rfl

theorem wakeUp_arrives (hinv : Inv s) (hp : s.pc p = .waitLeft) (h : WakeUpPending s p q) :
    (s.spoon (Side.left.spoon p)).mutex = some q
      ∧ ∃ t, s.run q = some t ∧ t.pc p = .wokenLeft := by
  have ⟨hne, hq, hspoon⟩ := signal_of_wakeUpPending hp h
  constructor
  . have hholds : (s.pc q).holds .right = true := by
      rw [hq]
      rfl
    rw [← hspoon]
    apply hinv.holder_eq hholds
  . refine ⟨(s.wake (Side.right.spoon q)).goto q .releaseUnlockRight, ?_, ?_⟩
    . simp [State.run, hq, Pc.instr]
    . rw [State.goto_pc, Function.update_of_ne hne.symm]
      simp [State.wake, hp, Pc.instr, hspoon]

theorem not_waitLeft_of_backoffClear {t : State n} (hq : s.pc q = .backoffClear)
    (hrun : s.run q = some t) (hp : t.pc p = .waitLeft) : Side.left.spoon p ≠ Side.left.spoon q := by
  intro hspoon
  have heq : p = q := hspoon
  simp only [State.run, hq, Pc.instr, Option.some.injEq] at hrun
  rw [heq, ← hrun, State.goto_pc, Function.update_self] at hp
  contradiction

theorem no_lost_wake_up (hn : 2 ≤ n) (h : (system n).Reachable s) : NoLostWakeUp s where
  taken _ hp hpending := taken_of_waitLeft (inv_of_reachable hn h) (sleepInv_of_reachable hn h) hp hpending
  pending _ _ hp hpending := wakeUp_arrives (inv_of_reachable hn h) hp hpending
  backoff _ _ hq hrun _ hp := not_waitLeft_of_backoffClear hq hrun hp

def waitSchedule : List (Label 5) :=
  List.replicate 8 (.run 2) ++ List.replicate 2 (.run 1)

theorem no_lost_wake_up_waitSchedule : 2 ≤ 5 ∧ ∃ s : State 5, s.pc 1 = .waitLeft ∧ NoLostWakeUp s := by
  have hrun : ((TransitionSystem.runSchedule State.next (State.init 5) waitSchedule).any
      fun s => decide (s.pc 1 = .waitLeft)) = true := by
    decide
  rw [Option.any_eq_true] at hrun
  have ⟨s, hs, hwait⟩ := hrun
  refine ⟨by decide, s, of_decide_eq_true hwait, ?_⟩
  apply no_lost_wake_up (by decide)
  exact TransitionSystem.reachable_of_runSchedule (.init rfl) hs

end DnPhil
end ThreadSync
