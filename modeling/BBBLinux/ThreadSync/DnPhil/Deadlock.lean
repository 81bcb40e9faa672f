import BBBLinux.Fifo.Basic
import BBBLinux.ThreadSync.DnPhil.WakeUp

/-!
This module contains the deadlocks of the dining philosophers. The table deadlocks exactly when
everybody has come to the way back of `phil_access_both_spoon`: each of them holds the mutex of its
right spoon and waits for the one of its left spoon. This takes a last philosopher that locks its
right spoon after all others did.
-/

namespace ThreadSync
namespace DnPhil

open Ring

variable {n : Nat} {s s' : State n} {p q : Fin n}

theorem right_slot_one (p : Fin n) : Side.right.spoon (slot p 1) = p := by
  apply Fin.ext
  have hlt := p.isLt
  rw [Side.spoon, philGetRightSpoon_val, slot_val]
  by_cases hlast : p.val + 1 = n
  . rw [hlast, Nat.mod_self, if_pos rfl]
    omega
  . rw [Nat.mod_eq_of_lt (by omega), if_neg (by omega)]
    omega

theorem pc_of_blocked_of_holds (hblocked : Blocked s p) {side : Side}
    (hholds : (s.pc p).holds side = true) :
    s.pc p = .backoffLockLeft ∧ side = .right ∨ s.pc p = .releaseLockRight ∧ side = .left := by
  unfold Blocked at hblocked
  generalize s.pc p = pc at hblocked hholds
  cases pc <;> simp only [Pc.instr] at hblocked
  all_goals cases side <;> simp_all [Pc.holds]

theorem Blocked.of_lock (hblocked : Blocked s p) {side : Side} {next : Pc}
    (hpc : (s.pc p).instr = .lock side next) : ∃ q, q ≠ p ∧ s.holder (side.spoon p) = some q := by
  unfold Blocked at hblocked
  rw [hpc] at hblocked
  exact hblocked

theorem Blocked.pc (hblocked : Blocked s p) :
    s.pc p = .waitLeft ∨ ∃ side next, (s.pc p).instr = .lock side next := by
  unfold Blocked at hblocked
  generalize s.pc p = pc at hblocked
  cases pc <;> simp [Pc.instr] at hblocked ⊢

theorem Deadlocked.holder (hinv : Inv s) (h : Deadlocked s) {k : Fin n} (hk : s.holder k = some q) :
    s.pc q = .backoffLockLeft ∧ k = Side.right.spoon q ∨ s.pc q = .releaseLockRight ∧ k = q := by
  have ⟨side, hspoon, hholds⟩ := (hinv.holder k q).mp hk
  cases pc_of_blocked_of_holds (h q) hholds with
  | inl hback =>
    rw [hback.2] at hspoon
    exact .inl ⟨hback.1, hspoon⟩
  | inr hrelease =>
    rw [hrelease.2] at hspoon
    exact .inr ⟨hrelease.1, hspoon⟩

theorem Deadlocked.next (hinv : Inv s) (h : Deadlocked s) (hp : s.pc p = .backoffLockLeft) :
    s.pc (slot p 1) = .backoffLockLeft := by
  have hpc : (s.pc p).instr = .lock .left .backoffAssert := by
    rw [hp]
    rfl
  have ⟨q, hqp, hholder⟩ := (h p).of_lock hpc
  cases h.holder hinv hholder with
  | inl hback =>
    have hright : Side.right.spoon (slot p 1) = Side.right.spoon q := by
      rw [right_slot_one]
      exact hback.2
    rw [Side.spoon_inj hright]
    exact hback.1
  | inr hrelease => exact absurd hrelease.2.symm hqp

theorem Deadlocked.not_release (hinv : Inv s) (h : Deadlocked s)
    (hback : ∀ q, s.pc q ≠ .backoffLockLeft) : s.pc p ≠ .releaseLockRight := by
  intro hp
  have hpc : (s.pc p).instr = .lock .right .releaseAssertLeft := by
    rw [hp]
    rfl
  have ⟨q, hqp, hholder⟩ := (h p).of_lock hpc
  cases h.holder hinv hholder with
  | inl hq => exact hback q hq.1
  | inr hq =>
    have hleft : s.owner (Side.left.spoon q) = some q := by
      apply hinv.owner_eq
      rw [hq.1]
      rfl
    have hright : s.owner (Side.right.spoon p) = some p := by
      apply hinv.owner_eq
      rw [hp]
      rfl
    rw [hq.2] at hright
    rw [Side.spoon, philGetLeftSpoon, hright] at hleft
    injection hleft with heq
    exact hqp heq.symm

theorem Deadlocked.backoff (hn : 2 ≤ n) (hinv : Inv s) (hsleep : SleepInv s) (h : Deadlocked s) :
    ∀ p, s.pc p = .backoffLockLeft := by
  by_cases hany : ∃ p, s.pc p = .backoffLockLeft
  . have ⟨p, hp⟩ := hany
    apply forall_of_slot (P := fun p => s.pc p = .backoffLockLeft) p
    intro k
    induction k with
    | zero =>
      rw [slot_zero]
      exact hp
    | succ k ih =>
      rw [← slot_slot]
      apply h.next hinv ih
  . exfalso
    have hback : ∀ p, s.pc p ≠ .backoffLockLeft := fun p hp => hany ⟨p, hp⟩
    have hwait : ∀ p, s.pc p = .waitLeft := by
      intro p
      cases (h p).pc with
      | inl hwait => exact hwait
      | inr hlock =>
        have ⟨side, next, hlock⟩ := hlock
        have ⟨q, _, hholder⟩ := (h p).of_lock hlock
        cases h.holder hinv hholder with
        | inl hq => exact absurd hq.1 (hback q)
        | inr hq => exact absurd hq.1 (h.not_release hinv hback)
    have p : Fin n := ⟨0, by omega⟩
    cases hsleep p (hwait p) with
    | inl howned =>
      have ⟨q, _, howner⟩ := howned
      have ⟨side, _, howns⟩ := (hinv.owner p q).mp howner
      rw [hwait q] at howns
      cases side <;> contradiction
    | inr hsignal =>
      have ⟨q, _, hq⟩ := hsignal
      rw [hwait q] at hq
      contradiction

def Behind (s : State n) (p : Fin n) : Prop :=
  s.pc p = .checkRight ∨ s.pc p = .backoffLockLeft

instance (s : State n) (p : Fin n) : Decidable (Behind s p) :=
  inferInstanceAs (Decidable (_ ∨ _))

def LastToLockRight (s : State n) : Label n → Prop
  | .run p => s.pc p = .lockRight ∧ ∀ q, q ≠ p → Behind s q
  | .spurious _ => False

instance (s : State n) : ∀ l, Decidable (LastToLockRight s l)
  | .run p => inferInstanceAs (Decidable (s.pc p = .lockRight ∧ ∀ q, q ≠ p → Behind s q))
  | .spurious _ => inferInstanceAs (Decidable False)

theorem Move.pc_of_ne (h : Move s p s') (hq : q ≠ p) : s'.pc q = s.pc q ∨ s'.pc q = .wokenLeft := by
  cases h with
  | signal hpc =>
    rename_i side _
    rw [State.goto_pc, Function.update_of_ne hq]
    rcases s.wake_pc q (side.spoon p) with hsame | ⟨woken, hsleep, hwoken⟩
    . exact .inl hsame
    . right
      rw [hwoken]
      generalize s.pc q = pc at hsleep
      cases pc <;> simp [Pc.instr] at hsleep
      exact hsleep.symm
  | _ =>
    left
    simp [hq]

theorem Move.behind_of_ne (h : Move s p s') (hq : q ≠ p) (hbehind : Behind s' q) : Behind s q := by
  cases h.pc_of_ne hq with
  | inl hsame => simpa [Behind, hsame] using hbehind
  | inr hwoken => simp [Behind, hwoken] at hbehind

theorem Move.behind_self (h : Move s p s') (hbehind : Behind s' p) :
    s.pc p = .lockRight ∨ Behind s p := by
  unfold Behind at hbehind ⊢
  cases h with
  | assertFail => simp at hbehind
  | _ hpc =>
    simp only [State.goto_pc, Function.update_self] at hbehind
    generalize s.pc p = pc at hpc ⊢
    cases pc <;> simp [Pc.instr] at hpc ⊢
    all_goals grind

theorem not_all_behind (hn : 2 ≤ n)
    (h : (system n).ReachableVia (fun s l => ¬LastToLockRight s l) s) : ¬∀ p, Behind s p := by
  apply h.invariant (P := fun s => ¬∀ p, Behind s p)
  . intro s hs hall
    have hs : s = State.init n := hs
    have := hall ⟨0, by omega⟩
    simp [Behind, hs, State.init] at this
  . intro s l s' hnot hlast hstep hall
    cases l with
    | run p =>
      have hmove := Move.of_run hstep
      have hothers : ∀ q, q ≠ p → Behind s q := fun q hq => hmove.behind_of_ne hq (hall q)
      cases hmove.behind_self (hall p) with
      | inl hlock => exact hlast ⟨hlock, hothers⟩
      | inr hself =>
        apply hnot
        intro q
        by_cases hq : q = p
        . rw [hq]
          exact hself
        . exact hothers q hq
    | spurious p =>
      simp only [system, TransitionSystem.ofStep, State.next] at hstep
      split at hstep
      . next hpc =>
        injection hstep with hstep
        have := hall p
        rw [← hstep] at this
        generalize s.pc p = pc at hpc
        cases pc <;> simp [Pc.instr] at hpc
        simp [Behind, ← hpc] at this
      . contradiction

theorem right_ne_self (hn : 2 ≤ n) (p : Fin n) : Side.right.spoon p ≠ p := by
  intro heq
  have hsides : Side.right.spoon p = Side.left.spoon p := heq
  have := Side.eq_of_spoon_eq hn hsides
  contradiction

theorem run_of_all_behind (hn : 2 ≤ n) (hinv : Inv s) (hall : ∀ p, Behind s p)
    (hp : s.pc p = .checkRight) : s.run p = some (s.goto p .backoffLockLeft) := by
  have howner : s.owner (Side.left.spoon (Side.right.spoon p)) = some (Side.right.spoon p) := by
    apply hinv.owner_eq
    cases hall (Side.right.spoon p) with
    | inl hq =>
      rw [hq]
      rfl
    | inr hq =>
      rw [hq]
      rfl
  rw [Side.spoon, philGetLeftSpoon] at howner
  have hne : Side.right.spoon p ≠ p := right_ne_self hn p
  have hused : (s.spoon (Side.right.spoon p)).isUsed = true := by
    rw [hinv.isUsed, howner]
    rfl
  have hphil : (s.spoon (Side.right.spoon p)).phil ≠ some p := by
    intro heq
    rw [State.owner, heq] at howner
    injection howner with howner
    exact hne howner.symm
  simp [State.run, hp, Pc.instr, hused, hphil]

theorem deadlocked_of_all_backoff (hn : 2 ≤ n) (hinv : Inv s)
    (hall : ∀ p, s.pc p = .backoffLockLeft) : Deadlocked s := by
  intro p
  have hholder : s.holder (Side.right.spoon (slot p 1)) = some (slot p 1) := by
    apply hinv.holder_eq
    rw [hall]
    rfl
  rw [right_slot_one] at hholder
  unfold Blocked
  rw [hall p]
  exists slot p 1
  refine ⟨?_, hholder⟩
  intro heq
  apply right_ne_self hn (slot p 1)
  rw [right_slot_one, heq]

theorem deadlock_of_all_behind (hn : 2 ≤ n) (hinv : Inv s) (hall : ∀ p, Behind s p) :
    ∃ u, ((system n).startingAt s).Reachable u ∧ Deadlocked u := by
  generalize hcard : (Finset.univ.filter fun p => s.pc p = .checkRight).card = m
  induction m generalizing s with
  | zero =>
    have hback : ∀ p, s.pc p = .backoffLockLeft := by
      intro p
      refine (hall p).resolve_left ?_
      intro hp
      rw [Finset.card_eq_zero, Finset.filter_eq_empty_iff] at hcard
      exact hcard (Finset.mem_univ p) hp
    exact ⟨s, .init rfl, deadlocked_of_all_backoff hn hinv hback⟩
  | succ m ih =>
    have hpos : 0 < (Finset.univ.filter fun p => s.pc p = .checkRight).card := by omega
    have ⟨p, hp⟩ := Finset.card_pos.mp hpos
    rw [Finset.mem_filter] at hp
    have hrun := run_of_all_behind hn hinv hall hp.2
    have hinv' := hinv.move hn (.of_run hrun)
    have hall' : ∀ q, Behind (s.goto p .backoffLockLeft) q := by
      intro q
      by_cases hq : q = p
      . simp [Behind, hq]
      . simpa [Behind, hq] using hall q
    have hcard' : (Finset.univ.filter fun q => (s.goto p .backoffLockLeft).pc q = .checkRight).card
        = m := by
      have herase : (Finset.univ.filter fun q => (s.goto p .backoffLockLeft).pc q = .checkRight)
          = (Finset.univ.filter fun q => s.pc q = .checkRight).erase p := by
        ext q
        rw [Finset.mem_erase, Finset.mem_filter, Finset.mem_filter, State.goto_pc]
        by_cases hq : q = p
        . simp [hq]
        . simp [hq]
      rw [herase, Finset.card_erase_of_mem (by simp [hp.2]), hcard]
      omega
    have ⟨u, hu, hdead⟩ := ih hinv' hall' hcard'
    exists u
    exact ⟨hu.head trivial (show (system n).step s (.run p) _ from hrun), hdead⟩

theorem deadlock_free_unless_last_to_lock_right (hn : 2 ≤ n) :
    (∀ s, (system n).ReachableVia (fun s l => ¬LastToLockRight s l) s → ¬Deadlocked s)
      ∧ ∀ s l t, (system n).Reachable s → LastToLockRight s l → (system n).step s l t →
          ∃ u, ((system n).startingAt t).Reachable u ∧ Deadlocked u := by
  constructor
  . intro s h hdead
    apply not_all_behind hn h
    intro p
    right
    apply hdead.backoff hn (inv_of_reachable hn h.reachable) (sleepInv_of_reachable hn h.reachable) p
  . intro s l t h hlast hstep
    cases l with
    | run p =>
      have hrun : s.run p = some t := hstep
      apply deadlock_of_all_behind hn ((inv_of_reachable hn h).move hn (.of_run hrun))
      simp only [State.run, hlast.1, Pc.instr] at hrun
      split at hrun
      . injection hrun with hrun
        rw [← hrun]
        intro q
        by_cases hq : q = p
        . simp [Behind, hq]
        . simpa [Behind, hq] using hlast.2 q hq
      . contradiction
    | spurious p => exact hlast.elim

/--
The schedule in which each of `phils` takes the same number of steps, one philosopher after the other.
-/
def inTurn (steps : Nat) (phils : List (Fin n)) : List (Label n) :=
  phils.flatMap fun p => List.replicate steps (.run p)

def circleSchedule (n : Nat) : List (Label n) :=
  inTurn 4 (List.finRange n) ++ inTurn 2 (List.finRange n)

/--
Philosopher 0 comes to eat, philosopher 1 finds its right spoon in use and backs off, philosopher 0 eats,
philosophers 2 and 3 come as far as the right spoon and philosopher 4 waits for the left one.
-/
def dinnerSchedule : List (Label 5) :=
  [(8, ⟨0, by decide⟩), (11, ⟨1, by decide⟩), (3, ⟨0, by decide⟩), (5, ⟨2, by decide⟩),
    (6, ⟨3, by decide⟩), (2, ⟨4, by decide⟩)].flatMap fun (steps, p) => inTurn steps [p]

theorem exists_dinner : ∃ s : State 5, (system 5).ReachableVia (fun s l => ¬LastToLockRight s l) s
    ∧ s.eatCount 0 = 1
    ∧ List.ofFn s.pc = [.releaseLockLeft, .lockLeft, .checkRight, .backoffLockLeft, .waitLeft] := by
  have hrun : ((TransitionSystem.runSchedule
      (fun s l => if ¬LastToLockRight s l then State.next s l else none) (State.init 5)
      dinnerSchedule).any fun s => decide (s.eatCount 0 = 1 ∧ List.ofFn s.pc
        = [.releaseLockLeft, .lockLeft, .checkRight, .backoffLockLeft, .waitLeft])) = true := by
    decide +kernel
  rw [Option.any_eq_true] at hrun
  obtain ⟨s, hs, hpc⟩ := hrun
  exact ⟨s, TransitionSystem.reachableVia_of_runSchedule (.init rfl) hs, of_decide_eq_true hpc⟩

theorem deadlock_free_unless_last_to_lock_right_five :
    2 ≤ 5
      ∧ (∃ s : State 5, (system 5).ReachableVia (fun s l => ¬LastToLockRight s l) s
        ∧ s.eatCount 0 = 1
        ∧ List.ofFn s.pc = [.releaseLockLeft, .lockLeft, .checkRight, .backoffLockLeft, .waitLeft]
        ∧ ¬Deadlocked s)
      ∧ ∃ s t : State 5, LastToLockRight s (.run 4) ∧ (system 5).step s (.run 4) t
        ∧ ∃ u, ((system 5).startingAt t).Reachable u ∧ Deadlocked u := by
  have ⟨hfree, hdead⟩ := deadlock_free_unless_last_to_lock_right (n := 5) (by decide)
  refine ⟨by decide, ?_, ?_⟩
  . obtain ⟨s, hreach, heat, hpc⟩ := exists_dinner
    exact ⟨s, hreach, heat, hpc, hfree s hreach⟩
  . have hrun : ((TransitionSystem.runSchedule State.next (State.init 5)
        (inTurn 4 [0, 1, 2, 3, 4] ++ inTurn 2 [0, 1, 2, 3])).any fun s =>
          decide (LastToLockRight s (.run 4)) && (s.next (.run 4)).isSome) = true := by
      decide +kernel
    rw [Option.any_eq_true] at hrun
    obtain ⟨s, hs, hlast⟩ := hrun
    rw [Bool.and_eq_true, Option.isSome_iff_exists] at hlast
    obtain ⟨hlast, t, hstep⟩ := hlast
    have hreach : (system 5).Reachable s := TransitionSystem.reachable_of_runSchedule (.init rfl) hs
    have hlast := of_decide_eq_true hlast
    exact ⟨s, t, hlast, hstep, hdead s (.run 4) t hreach hlast hstep⟩

theorem deadlock_of_circleSchedule :
    ¬∀ n, 2 ≤ n → ∀ s, (system n).Reachable s → ¬Deadlocked s := by
  intro h
  have hrun : ((TransitionSystem.runSchedule State.next (State.init 5) (circleSchedule 5)).any
      fun s => decide (Deadlocked s)) = true := by
    decide +kernel
  rw [Option.any_eq_true] at hrun
  have ⟨s, hs, hdead⟩ := hrun
  apply h 5 (by decide) s
  . exact TransitionSystem.reachable_of_runSchedule (.init rfl) hs
  . exact of_decide_eq_true hdead

end DnPhil
end ThreadSync
