import BBBLinux.ThreadSync.DnPhil.Deadlock
import Mathlib.Algebra.BigOperators.Group.Finset.Piecewise
import Mathlib.Algebra.Order.BigOperators.Group.Finset

/-!
This module contains who can still eat. If no philosopher begins to access its spoons the others come to
the end of what they do and leave the table as it was at the start, unless everybody has locked its right
spoon on the way into the deadlock. At the empty table everybody can eat.
-/

namespace ThreadSync
namespace DnPhil

open Ring

variable {n : Nat} {s s' : State n} {p q : Fin n}

def Still (s : State n) : Prop :=
  ∀ p, s.pc p = .lockLeft ∨ Blocked s p

namespace Still

theorem blocked (h : Still s) (hp : s.pc p ≠ .lockLeft) : Blocked s p :=
  (h p).resolve_left hp

theorem holder (hinv : Inv s) (h : Still s) {k : Fin n} (hk : s.holder k = some q) :
    s.pc q = .backoffLockLeft ∧ k = Side.right.spoon q ∨ s.pc q = .releaseLockRight ∧ k = q := by
  obtain ⟨side, hspoon, hholds⟩ := (hinv.holder k q).mp hk
  have hidle : s.pc q ≠ .lockLeft := by
    intro hidle
    rw [hidle] at hholds
    cases side <;> contradiction
  cases pc_of_blocked_of_holds (h.blocked hidle) hholds with
  | inl hback =>
    rw [hback.2] at hspoon
    exact .inl ⟨hback.1, hspoon⟩
  | inr hrelease =>
    rw [hrelease.2] at hspoon
    exact .inr ⟨hrelease.1, hspoon⟩

theorem next (hinv : Inv s) (h : Still s) (hp : s.pc p = .backoffLockLeft) :
    s.pc (slot p 1) = .backoffLockLeft := by
  have hpc : (s.pc p).instr = .lock .left .backoffAssert := by
    rw [hp]
    rfl
  have hidle : s.pc p ≠ .lockLeft := by simp [hp]
  obtain ⟨q, hqp, hholder⟩ := (h.blocked hidle).of_lock hpc
  cases h.holder hinv hholder with
  | inl hback =>
    have hright : Side.right.spoon (slot p 1) = Side.right.spoon q := by
      rw [right_slot_one]
      exact hback.2
    rw [Side.spoon_inj hright]
    exact hback.1
  | inr hrelease => exact absurd hrelease.2.symm hqp

theorem not_release (hinv : Inv s) (h : Still s) (hback : ∀ q, s.pc q ≠ .backoffLockLeft) :
    s.pc p ≠ .releaseLockRight := by
  intro hp
  have hpc : (s.pc p).instr = .lock .right .releaseAssertLeft := by
    rw [hp]
    rfl
  have hidle : s.pc p ≠ .lockLeft := by simp [hp]
  obtain ⟨q, hqp, hholder⟩ := (h.blocked hidle).of_lock hpc
  cases h.holder hinv hholder with
  | inl hq => exact hback q hq.1
  | inr hq =>
    have hleft : s.owner (Side.left.spoon q) = some q := by
      apply hinv.owner_eq
      rw [hq.1]
      rfl
    have hright : s.owner (Side.right.spoon p) = some p := by
      apply hinv.owner_eq
      rw [hp]
      rfl
    rw [hq.2] at hright
    rw [Side.spoon, philGetLeftSpoon, hright] at hleft
    injection hleft with heq
    exact hqp heq.symm

/--
Nobody holds a mutex and nobody owns a spoon, so there is nothing left to wait for.
-/
theorem idle_of_ne_backoff (hinv : Inv s) (hsleep : SleepInv s) (h : Still s)
    (hback : ∀ q, s.pc q ≠ .backoffLockLeft) (p : Fin n) : s.pc p = .lockLeft := by
  have hplace : ∀ q, s.pc q = .lockLeft ∨ s.pc q = .waitLeft := by
    intro q
    cases h q with
    | inl hidle => exact .inl hidle
    | inr hblocked =>
      right
      cases hblocked.pc with
      | inl hwait => exact hwait
      | inr hlock =>
        obtain ⟨side, next, hlock⟩ := hlock
        obtain ⟨r, _, hholder⟩ := hblocked.of_lock hlock
        cases h.holder hinv hholder with
        | inl hr => exact absurd hr.1 (hback r)
        | inr hr => exact absurd hr.1 (h.not_release hinv hback)
  refine (hplace p).resolve_right ?_
  intro hwait
  cases hsleep p hwait with
  | inl howned =>
    obtain ⟨q, _, howner⟩ := howned
    obtain ⟨side, _, howns⟩ := (hinv.owner p q).mp howner
    cases hplace q with
    | inl hq =>
      rw [hq] at howns
      cases side <;> contradiction
    | inr hq =>
      rw [hq] at howns
      cases side <;> contradiction
  | inr hsignal =>
    obtain ⟨q, _, hq⟩ := hsignal
    have hplace := hplace q
    rw [hq] at hplace
    simp at hplace

theorem behind_or_idle (hinv : Inv s) (hsleep : SleepInv s) (h : Still s) :
    (∀ p, Behind s p) ∨ ∀ p, s.pc p = .lockLeft := by
  by_cases hany : ∃ p, s.pc p = .backoffLockLeft
  . obtain ⟨p, hp⟩ := hany
    left
    intro q
    right
    apply forall_of_slot (P := fun p => s.pc p = .backoffLockLeft) p
    intro k
    induction k with
    | zero =>
      rw [slot_zero]
      exact hp
    | succ k ih =>
      rw [← slot_slot]
      exact h.next hinv ih
  . right
    exact h.idle_of_ne_backoff hinv hsleep fun q hq => hany ⟨q, hq⟩

end Still

theorem holder_eq_none_of_lock (hn : 2 ≤ n) (hinv : Inv s) {side : Side} {next : Pc}
    (hpc : (s.pc p).instr = .lock side next)
    (hothers : ∀ q, q ≠ p → s.holder (side.spoon p) ≠ some q) : s.holder (side.spoon p) = none := by
  rw [Option.eq_none_iff_forall_ne_some]
  intro q hholder
  by_cases hq : q = p
  . subst hq
    obtain ⟨side', hspoon, hholds⟩ := (hinv.holder _ _).mp hholder
    rw [← Side.eq_of_spoon_eq hn hspoon] at hholds
    generalize s.pc q = pc at hpc hholds
    cases pc <;> simp [Pc.instr] at hpc
    all_goals
      obtain ⟨rfl, -⟩ := hpc
      contradiction
  . exact hothers q hq hholder

theorem exists_run (hn : 2 ≤ n) (hinv : Inv s) (hblocked : ¬Blocked s p) : ∃ s', s.run p = some s' := by
  have hfailed := hinv.noFail p
  unfold State.run
  cases hpc : (s.pc p).instr with
  | lock side next =>
    have hfree : (s.spoon (side.spoon p)).mutex = none := by
      apply holder_eq_none_of_lock hn hinv hpc
      intro q hq hholder
      apply hblocked
      unfold Blocked
      rw [hpc]
      exact ⟨q, hq, hholder⟩
    exact ⟨_, by dsimp only; rw [if_pos hfree]⟩
  | sleep woken =>
    exfalso
    apply hblocked
    unfold Blocked
    rw [hpc]
    trivial
  | halt =>
    generalize s.pc p = pc at hpc hfailed
    cases pc <;> simp [Pc.instr] at hpc
    contradiction
  | waitWhileTaken wait next =>
    dsimp only
    split
    . exact ⟨_, rfl⟩
    . exact ⟨_, rfl⟩
  | assertOwned side next =>
    dsimp only
    split
    . exact ⟨_, rfl⟩
    . exact ⟨_, rfl⟩
  | branchRight free other own =>
    dsimp only
    split
    . exact ⟨_, rfl⟩
    . split
      . exact ⟨_, rfl⟩
      . exact ⟨_, rfl⟩
  | _ => exact ⟨_, rfl⟩

/--
The philosopher whose left spoon the last one would lock is on its way back, or can still get there.
-/
theorem exists_run_neighbour (hn : 2 ≤ n) (hinv : Inv s) (hp : s.pc p = .lockRight)
    (hothers : ∀ q, q ≠ p → Behind s q) :
    ∃ q s', q ≠ p ∧ s.pc q ≠ .lockLeft ∧ s.run q = some s' := by
  have hne := right_ne_self hn p
  refine ⟨Side.right.spoon p, ?_⟩
  have hblocked : ¬Blocked s (Side.right.spoon p) := by
    intro hblocked
    cases hothers _ hne with
    | inl hq =>
      unfold Blocked at hblocked
      rw [hq] at hblocked
      exact hblocked
    | inr hq =>
      have hpc : (s.pc (Side.right.spoon p)).instr = .lock .left .backoffAssert := by
        rw [hq]
        rfl
      obtain ⟨r, hr, hholder⟩ := hblocked.of_lock hpc
      obtain ⟨side, hspoon, hholds⟩ := (hinv.holder _ r).mp hholder
      cases side with
      | left => exact hr hspoon.symm
      | right =>
        have hspoon : Side.right.spoon p = Side.right.spoon r := hspoon
        have hrp := Side.spoon_inj hspoon
        rw [← hrp, hp] at hholds
        contradiction
  obtain ⟨s', hrun⟩ := exists_run hn hinv hblocked
  refine ⟨s', hne, ?_, hrun⟩
  cases hothers _ hne with
  | inl hq => simp [hq]
  | inr hq => simp [hq]

theorem exists_run_not_behind (hn : 2 ≤ n) (hinv : Inv s) (hsleep : SleepInv s)
    (hbehind : ¬∀ p, Behind s p) (hidle : ¬∀ p, s.pc p = .lockLeft) :
    ∃ p s', s.pc p ≠ .lockLeft ∧ s.run p = some s' ∧ ¬∀ q, Behind s' q := by
  have hstill : ¬Still s := by
    intro hstill
    cases hstill.behind_or_idle hinv hsleep with
    | inl hall => exact hbehind hall
    | inr hall => exact hidle hall
  obtain ⟨p, hp⟩ := not_forall.mp hstill
  rw [not_or] at hp
  obtain ⟨s', hrun⟩ := exists_run hn hinv hp.2
  by_cases hall : ∀ q, Behind s' q
  . have hmove := Move.of_run hrun
    have hothers : ∀ q, q ≠ p → Behind s q := fun q hq => hmove.behind_of_ne hq (hall q)
    have hlock : s.pc p = .lockRight := by
      cases hmove.behind_self (hall p) with
      | inl hlock => exact hlock
      | inr hself =>
        refine absurd (fun q => ?_) hbehind
        by_cases hq : q = p
        . rw [hq]
          exact hself
        . exact hothers q hq
    obtain ⟨q, t, hq, hidle, hrun⟩ := exists_run_neighbour hn hinv hlock hothers
    refine ⟨q, t, hidle, hrun, fun hall => ?_⟩
    have hself := (Move.of_run hrun).behind_of_ne hq.symm (hall p)
    simp [Behind, hlock] at hself
  . exact ⟨p, s', hp.1, hrun, hall⟩

/--
The steps to the next access of the spoons, at most. A signal gives its sleeper two of them, so it has to
be worth more.
-/
def Pc.rank : Pc → Nat
  | .wokenLeft => 25
  | .checkLeft => 24
  | .waitLeft | .takeLeft => 23
  | .unlockLeft => 22
  | .lockRight => 21
  | .checkRight => 20
  | .takeRight => 19
  | .unlockRight => 18
  | .eatLeft => 17
  | .eatRight => 16
  | .eat => 15
  | .releaseLockLeft => 14
  | .releaseLockRight => 13
  | .releaseAssertLeft => 12
  | .releaseAssertRight => 11
  | .releaseClearLeft => 10
  | .releaseSignalLeft => 9
  | .releaseUnlockLeft => 6
  | .releaseClearRight => 5
  | .releaseSignalRight => 4
  | .releaseUnlockRight => 1
  | .backoffLockLeft => 5
  | .backoffAssert => 4
  | .backoffClear => 3
  | .backoffUnlockLeft => 2
  | .backoffUnlockRight => 1
  | .accessEnd => 1
  | .lockLeft | .abort => 0

def Instr.targets : Instr → List Pc
  | .lock _ next | .unlock _ next | .take _ next | .clear _ next | .signal _ next | .count next => [next]
  | .waitWhileTaken wait next => [wait, next]
  | .assertOwned _ next => [next, .abort]
  | .assertFalse => [.abort]
  | .branchRight free other own => [free, other, own]
  | .sleep _ | .halt => []

theorem Pc.rank_lt {pc next : Pc} (hidle : pc ≠ .lockLeft) (hnext : next ∈ pc.instr.targets) :
    next.rank < pc.rank := by
  revert next
  cases pc <;> first | contradiction | decide

theorem Pc.rank_signal {pc next : Pc} {side : Side} (hpc : pc.instr = .signal side next) :
    next.rank + 3 ≤ pc.rank := by
  cases pc <;> simp only [instr, reduceCtorEq, Instr.signal.injEq] at hpc
  all_goals
    obtain ⟨rfl, rfl⟩ := hpc
    decide

theorem Pc.rank_sleep {pc woken : Pc} (hpc : pc.instr = .sleep woken) : woken.rank ≤ pc.rank + 2 := by
  cases pc <;> simp only [instr, reduceCtorEq, Instr.sleep.injEq] at hpc
  subst hpc
  decide

def State.rank (s : State n) : Nat :=
  ∑ p : Fin n, (s.pc p).rank

theorem rank_lt_of_others (hothers : ∀ q, q ≠ p → (s'.pc q).rank = (s.pc q).rank)
    (hself : (s'.pc p).rank < (s.pc p).rank) : s'.rank < s.rank := by
  unfold State.rank
  apply Finset.sum_lt_sum
  . intro q _
    by_cases hq : q = p
    . rw [hq]
      exact Nat.le_of_lt hself
    . exact Nat.le_of_eq (hothers q hq)
  . exact ⟨p, Finset.mem_univ p, hself⟩

theorem rank_signal {side : Side} {next : Pc} (hpc : (s.pc p).instr = .signal side next) :
    ((s.wake (side.spoon p)).goto p next).rank < s.rank := by
  have hself := Pc.rank_signal hpc
  have hothers : ∀ q ∈ Finset.univ.erase p, (((s.wake (side.spoon p)).goto p next).pc q).rank
      ≤ (s.pc q).rank + if q = side.spoon p then 2 else 0 := by
    intro q hq
    rw [State.goto_pc, Function.update_of_ne (Finset.ne_of_mem_erase hq)]
    unfold State.wake
    dsimp only
    split
    . next woken hsleep =>
      rw [Side.spoon, philGetLeftSpoon]
      split
      . exact Pc.rank_sleep hsleep
      . exact Nat.le_add_right _ _
    . exact Nat.le_add_right _ _
  have hsum := Finset.sum_le_sum hothers
  have hwoken : (∑ q ∈ Finset.univ.erase p, if q = side.spoon p then 2 else 0) ≤ 2 := by
    rw [Finset.sum_ite_eq']
    split
    . exact Nat.le_refl 2
    . exact Nat.zero_le 2
  rw [Finset.sum_add_distrib] at hsum
  have hnext : (((s.wake (side.spoon p)).goto p next).pc p).rank = next.rank := by
    rw [State.goto_pc, Function.update_self]
  unfold State.rank
  rw [← Finset.add_sum_erase _ (fun q => (s.pc q).rank) (Finset.mem_univ p),
    ← Finset.add_sum_erase _ (fun q => (((s.wake (side.spoon p)).goto p next).pc q).rank)
      (Finset.mem_univ p), hnext]
  omega

theorem rank_run (hrun : s.run p = some s') (hidle : s.pc p ≠ .lockLeft) : s'.rank < s.rank := by
  have hgoto {next : Pc} (hnext : next ∈ (s.pc p).instr.targets)
      (hpc : s'.pc = Function.update s.pc p next) : s'.rank < s.rank := by
    apply rank_lt_of_others (p := p)
    . intro q hq
      rw [hpc, Function.update_of_ne hq]
    . rw [hpc, Function.update_self]
      exact Pc.rank_lt hidle hnext
  cases Move.of_run hrun with
  | signal hpc => exact rank_signal hpc
  | wake hpc =>
    unfold State.run at hrun
    rw [hpc] at hrun
    contradiction
  | _ hpc =>
    refine hgoto ?_ rfl
    rw [hpc]
    simp [Instr.targets]

def Cleared (s : State n) : Prop :=
  ∀ p, s.pc p = .lockLeft

theorem exists_cleared (hn : 2 ≤ n) (hinv : Inv s) (hsleep : SleepInv s) (hbehind : ¬∀ p, Behind s p) :
    ∃ t, ((system n).startingAt s).Reachable t ∧ Cleared t := by
  induction hrank : s.rank using Nat.strong_induction_on generalizing s with
  | _ m ih =>
    by_cases hidle : ∀ p, s.pc p = .lockLeft
    . exact ⟨s, .init rfl, hidle⟩
    . obtain ⟨p, s', hp, hrun, hbehind'⟩ := exists_run_not_behind hn hinv hsleep hbehind hidle
      have hmove := Move.of_run hrun
      have hlt := rank_run hrun hp
      rw [hrank] at hlt
      obtain ⟨t, ht, hcleared⟩ := ih s'.rank hlt (hinv.move hn hmove) (hsleep.move hinv hmove) hbehind' rfl
      exact ⟨t, ht.head trivial (show (system n).step s (.run p) s' from hrun), hcleared⟩

/--
The way of a philosopher whom nobody disturbs, from its end.
-/
def beforeEat : Nat → Pc
  | 0 => .eat
  | 1 => .eatRight
  | 2 => .eatLeft
  | 3 => .unlockRight
  | 4 => .takeRight
  | 5 => .checkRight
  | 6 => .lockRight
  | 7 => .unlockLeft
  | 8 => .takeLeft
  | 9 => .checkLeft
  | _ => .lockLeft

/--
The neighbours of `p` neither hold a mutex nor own a spoon that `p` uses.
-/
def Undisturbed (s : State n) (p : Fin n) : Prop :=
  ∀ q, q ≠ p → ∀ side side' : Side, side.spoon p = side'.spoon q →
    (s.pc q).holds side' = false ∧ (s.pc q).owns side' = false

theorem Undisturbed.holder (hinv : Inv s) (h : Undisturbed s p) {side : Side} (hq : q ≠ p) :
    s.holder (side.spoon p) ≠ some q := by
  intro hholder
  obtain ⟨side', hspoon, hholds⟩ := (hinv.holder _ q).mp hholder
  rw [(h q hq side side' hspoon).1] at hholds
  contradiction

theorem Undisturbed.isUsed (hn : 2 ≤ n) (hinv : Inv s) (h : Undisturbed s p) {side : Side}
    (hp : (s.pc p).owns side = false) : (s.spoon (side.spoon p)).isUsed = false := by
  have hnone : s.owner (side.spoon p) = none := by
    rw [Option.eq_none_iff_forall_ne_some]
    intro q howner
    by_cases hq : q = p
    . rw [hq] at howner
      exact hinv.owner_ne hn hp howner
    . obtain ⟨side', hspoon, howns⟩ := (hinv.owner _ q).mp howner
      rw [(h q hq side side' hspoon).2] at howns
      contradiction
  rw [hinv.isUsed, hnone]
  rfl

theorem Undisturbed.congr (h : Undisturbed s p) {next : Pc} (hpc : s'.pc = Function.update s.pc p next) :
    Undisturbed s' p := by
  intro q hq
  rw [hpc, Function.update_of_ne hq]
  exact h q hq

def Instr.freeNext : Instr → Option Pc
  | .lock _ next | .unlock _ next | .waitWhileTaken _ next | .take _ next | .assertOwned _ next => some next
  | .branchRight free _ _ => some free
  | _ => none

theorem Undisturbed.run (hn : 2 ≤ n) (hinv : Inv s) (h : Undisturbed s p) {next : Pc}
    (hnext : (s.pc p).instr.freeNext = some next) :
    ∃ s', s.run p = some s' ∧ s'.pc = Function.update s.pc p next ∧ s'.eatCount = s.eatCount := by
  unfold State.run
  cases hpc : (s.pc p).instr with
  | lock side next =>
    have hfree : (s.spoon (side.spoon p)).mutex = none :=
      holder_eq_none_of_lock hn hinv hpc fun q hq => h.holder hinv hq
    rw [hpc] at hnext
    cases hnext
    dsimp only
    rw [if_pos hfree]
    exact ⟨_, rfl, rfl, rfl⟩
  | waitWhileTaken wait next =>
    have hunused := h.isUsed hn hinv (Pc.waitWhileTaken_spec hpc .left).2.2.2.2.2.1
    rw [hpc] at hnext
    cases hnext
    dsimp only
    rw [if_neg (by simp [hunused])]
    exact ⟨_, rfl, rfl, rfl⟩
  | assertOwned side next =>
    have howner := hinv.owner_eq (Pc.assertOwned_spec hpc side).1
    have hused : (s.spoon (side.spoon p)).isUsed = true := by
      rw [hinv.isUsed, howner]
      rfl
    rw [hpc] at hnext
    cases hnext
    dsimp only
    rw [if_pos ⟨hused, howner⟩]
    exact ⟨_, rfl, rfl, rfl⟩
  | branchRight free other own =>
    have hunused := h.isUsed hn hinv (Pc.branchRight_spec hpc .right).1
    rw [hpc] at hnext
    cases hnext
    dsimp only
    rw [if_pos hunused]
    exact ⟨_, rfl, rfl, rfl⟩
  | unlock side next =>
    rw [hpc] at hnext
    cases hnext
    exact ⟨_, rfl, rfl, rfl⟩
  | take side next =>
    rw [hpc] at hnext
    cases hnext
    exact ⟨_, rfl, rfl, rfl⟩
  | _ =>
    rw [hpc] at hnext
    contradiction

theorem freeNext_beforeEat : ∀ k < 10, (beforeEat (k + 1)).instr.freeNext = some (beforeEat k) := by
  decide

theorem Undisturbed.comes (hn : 2 ≤ n) (hinv : Inv s) (h : Undisturbed s p) {k : Nat} (hk : k ≤ 10)
    (hpc : s.pc p = beforeEat k) :
    ∃ t, ((system n).startingAt s).Reachable t ∧ t.pc = Function.update s.pc p .eat
      ∧ t.eatCount = s.eatCount := by
  induction k generalizing s with
  | zero =>
    refine ⟨s, .init rfl, ?_, rfl⟩
    rw [← show s.pc p = .eat from hpc, Function.update_eq_self]
  | succ k ih =>
    have hnext : (s.pc p).instr.freeNext = some (beforeEat k) := by
      rw [hpc]
      exact freeNext_beforeEat k hk
    obtain ⟨s', hrun, hpc', hcount⟩ := h.run hn hinv hnext
    have hself : s'.pc p = beforeEat k := by
      rw [hpc', Function.update_self]
    obtain ⟨t, ht, heat, heats⟩ :=
      ih (hinv.move hn (.of_run hrun)) (h.congr hpc') (Nat.le_of_succ_le hk) hself
    refine ⟨t, ht.head trivial (show (system n).step s (.run p) s' from hrun), ?_, ?_⟩
    . rw [heat, hpc', Function.update_idem]
    . rw [heats, hcount]

theorem Undisturbed.eats (hn : 2 ≤ n) (hinv : Inv s) (h : Undisturbed s p) (hpc : s.pc p = .lockLeft) :
    ∃ t, ((system n).startingAt s).Reachable t ∧ t.eatCount p = s.eatCount p + 1 := by
  obtain ⟨t, ht, heat, hcount⟩ := h.comes hn hinv (Nat.le_refl 10) hpc
  have hinstr : (t.pc p).instr = .count .releaseLockLeft := by
    rw [heat, Function.update_self]
    rfl
  have hrun : (system n).step t (.run p) ({ t with
      eatCount := Function.update t.eatCount p (t.eatCount p + 1) }.goto p .releaseLockLeft) := by
    change t.run p = some _
    unfold State.run
    rw [hinstr]
  refine ⟨_, ht.step trivial hrun, ?_⟩
  rw [← hcount]
  simp [State.goto]

theorem inv_of_startingAt (hn : 2 ≤ n) (hinv : Inv s) {t : State n}
    (ht : ((system n).startingAt s).Reachable t) : Inv t := by
  apply ht.invariant
  . rintro s' rfl
    exact hinv
  . intro s' l t' hinv' _ hstep
    obtain ⟨p, hmove⟩ := Move.of_step hstep
    exact hinv'.move hn hmove

theorem eatCount_run (hrun : s.run p = some s') (q : Fin n) : s.eatCount q ≤ s'.eatCount q := by
  unfold State.run at hrun
  cases hpc : (s.pc p).instr with
  | count next =>
    rw [hpc, Option.some.injEq] at hrun
    rw [← hrun]
    change s.eatCount q ≤ Function.update s.eatCount p (s.eatCount p + 1) q
    rw [Function.update_apply]
    split
    . next hq =>
      rw [hq]
      exact Nat.le_succ _
    . exact Nat.le_refl _
  | _ =>
    rw [hpc] at hrun
    dsimp only at hrun
    grind [State.goto, State.setMutex, State.setUsed, State.setPhil, State.wake]

theorem eatCount_le_of_startingAt (p : Fin n) {t : State n} (ht : ((system n).startingAt s).Reachable t) :
    s.eatCount p ≤ t.eatCount p := by
  apply ht.invariant
  . rintro s' rfl
    exact Nat.le_refl _
  . intro s' l t' hle _ hstep
    apply Nat.le_trans hle
    cases l with
    | run q => exact eatCount_run hstep p
    | spurious q =>
      simp only [TransitionSystem.startingAt, system, TransitionSystem.ofStep, State.next] at hstep
      split at hstep
      . injection hstep with hstep
        rw [← hstep]
        exact Nat.le_refl _
      . contradiction

/--
Nobody eats any more on the way into the deadlock.
-/
theorem behind_of_startingAt (hn : 2 ≤ n) (hinv : Inv s) (hbehind : ∀ p, Behind s p) {t : State n}
    (ht : ((system n).startingAt s).Reachable t) : (∀ p, Behind t p) ∧ t.eatCount = s.eatCount := by
  apply ht.invariant_of (Q := Inv) (fun t ht => inv_of_startingAt hn hinv ht)
  . rintro s' rfl
    exact ⟨hbehind, rfl⟩
  . rintro s' l t' hinv' ⟨hbehind', hcount⟩ _ hstep
    cases l with
    | run p =>
      cases hbehind' p with
      | inl hcheck =>
        have hrun := run_of_all_behind hn hinv' hbehind' hcheck
        change s'.run p = some t' at hstep
        rw [hrun, Option.some.injEq] at hstep
        rw [← hstep]
        refine ⟨fun q => ?_, hcount⟩
        by_cases hq : q = p
        . simp [Behind, hq]
        . simpa [Behind, hq] using hbehind' q
      | inr hback =>
        have hholds : (s'.pc (slot p 1)).holds .right = true := by
          cases hbehind' (slot p 1) with
          | inl hnext =>
            rw [hnext]
            rfl
          | inr hnext =>
            rw [hnext]
            rfl
        have hholder := hinv'.holder_eq hholds
        rw [right_slot_one] at hholder
        have hlocked : (s'.spoon (Side.left.spoon p)).mutex ≠ none := by
          intro hfree
          change (s'.spoon p).mutex = some _ at hholder
          rw [Side.spoon, philGetLeftSpoon, hholder] at hfree
          contradiction
        change s'.run p = some t' at hstep
        unfold State.run at hstep
        rw [hback] at hstep
        dsimp only [Pc.instr] at hstep
        rw [if_neg hlocked] at hstep
        contradiction
    | spurious p =>
      simp only [TransitionSystem.startingAt, system, TransitionSystem.ofStep, State.next] at hstep
      cases hbehind' p with
      | inl hcheck =>
        rw [hcheck] at hstep
        contradiction
      | inr hback =>
        rw [hback] at hstep
        contradiction

/--
As long as not everybody has locked its right spoon in vain, everybody can eat once more. Then nobody can.
-/
theorem can_eat_iff_not_all_behind (hn : 2 ≤ n) (h : (system n).Reachable s) (p : Fin n) :
    (∃ t, ((system n).startingAt s).Reachable t ∧ s.eatCount p < t.eatCount p) ↔ ¬∀ q, Behind s q := by
  have hinv := inv_of_reachable hn h
  constructor
  . rintro ⟨t, ht, hlt⟩ hbehind
    rw [(behind_of_startingAt hn hinv hbehind ht).2] at hlt
    exact Nat.lt_irrefl _ hlt
  . intro hbehind
    obtain ⟨t, ht, hcleared⟩ := exists_cleared hn hinv (sleepInv_of_reachable hn h) hbehind
    have hundisturbed : Undisturbed t p := by
      intro q _ side side' _
      rw [hcleared q]
      cases side' <;> exact ⟨rfl, rfl⟩
    obtain ⟨u, hu, heats⟩ := hundisturbed.eats hn (inv_of_startingAt hn hinv ht) (hcleared p)
    refine ⟨u, ht.trans hu, ?_⟩
    rw [heats]
    exact Nat.lt_succ_of_le (eatCount_le_of_startingAt p ht)

/--
Philosopher 4 gets to eat although it waits for a spoon while the others hold spoons and mutexes.
-/
theorem can_eat_iff_not_all_behind_five : 2 ≤ 5 ∧ ∃ s : State 5, (system 5).Reachable s
    ∧ List.ofFn s.pc = [.releaseLockLeft, .lockLeft, .checkRight, .backoffLockLeft, .waitLeft]
    ∧ ∃ t, ((system 5).startingAt s).Reachable t ∧ s.eatCount 4 < t.eatCount 4 := by
  obtain ⟨s, hreach, _, hpc⟩ := exists_dinner
  refine ⟨by decide, s, hreach.reachable, hpc, ?_⟩
  apply (can_eat_iff_not_all_behind (by decide) hreach.reachable 4).mpr
  intro hbehind
  have hwait : (List.ofFn s.pc)[4]? = some .waitLeft := by
    rw [hpc]
    rfl
  have hpc4 : s.pc 4 = .waitLeft := by
    simpa using hwait
  have := hbehind 4
  simp [Behind, hpc4] at this

end DnPhil
end ThreadSync
