import BBBLinux.ThreadSync.DnPhil.Lemmas

/-!
This module contains the proofs that every step of a philosopher keeps the invariant of the table.
-/

namespace ThreadSync
namespace DnPhil

variable {n : Nat} {s s' : State n} {p q : Fin n} {side : Side} {next : Pc}

/--
The invariant of the table. A philosopher who is about to take a spoon has seen that it is free, and
still holds its mutex.
-/
structure Inv (s : State n) : Prop where
  holder : Tracks s.holder Pc.holds s.pc
  owner : Tracks s.owner Pc.owns s.pc
  isUsed : ∀ k, (s.spoon k).isUsed = (s.owner k).isSome
  free : ∀ p side next, (s.pc p).instr = .take side next → s.owner (side.spoon p) = none
  noFail : ∀ p, (s.pc p).failed = false

namespace Inv

theorem init (n : Nat) : Inv (State.init n) where
  holder := by
    intro k q
    simp [State.init, State.holder, Pc.holds]
  owner := by
    intro k q
    simp [State.init, State.owner, Pc.owns]
  isUsed := by
    intro k
    rfl
  free := by simp [State.init, Pc.instr]
  noFail := by simp [State.init, Pc.failed]

theorem holder_eq (h : Inv s) (hp : (s.pc p).holds side = true) : s.holder (side.spoon p) = some p :=
  h.holder.eq_some hp

theorem owner_eq (h : Inv s) (hp : (s.pc p).owns side = true) : s.owner (side.spoon p) = some p :=
  h.owner.eq_some hp

theorem owner_ne (hn : 2 ≤ n) (h : Inv s) (hp : (s.pc p).owns side = false) :
    s.owner (side.spoon p) ≠ some p := by
  intro howner
  obtain ⟨sd, hsd, howns⟩ := (h.owner _ _).mp howner
  rw [← Side.eq_of_spoon_eq hn hsd, hp] at howns
  contradiction

theorem owner_eq_none (hn : 2 ≤ n) (h : Inv s) (hp : (s.pc p).owns side = false)
    (hfree : (s.spoon (side.spoon p)).isUsed = true → s.owner (side.spoon p) = some p) :
    s.owner (side.spoon p) = none := by
  have hused : (s.spoon (side.spoon p)).isUsed ≠ true := fun hused => h.owner_ne hn hp (hfree hused)
  rw [h.isUsed] at hused
  simpa using hused

theorem free_of_move (h : Inv s) (hpc : ∀ q, q ≠ p → ∀ side next,
      (s'.pc q).instr = .take side next → (s.pc q).instr = .take side next)
    (howner : ∀ k, s'.owner k = s.owner k ∨ s.holder k = some p)
    (hself : ∀ side next, (s'.pc p).instr = .take side next → s'.owner (side.spoon p) = none) :
    ∀ q side next, (s'.pc q).instr = .take side next → s'.owner (side.spoon q) = none := by
  intro q side next hq
  by_cases hqp : q = p
  . subst hqp
    exact hself side next hq
  . have htake := hpc q hqp side next hq
    cases howner (side.spoon q) with
    | inl hsame =>
      rw [hsame]
      exact h.free q side next htake
    | inr hholder =>
      rw [h.holder_eq (Pc.take_spec htake side).1] at hholder
      injection hholder with hholder
      exact absurd hholder hqp

theorem free_of_goto (h : Inv s) (s' : State n) (p : Fin n) (next : Pc)
    (hpc : s'.pc = Function.update s.pc p next)
    (howner : ∀ k, s'.owner k = s.owner k ∨ s.holder k = some p)
    (hnext : ∀ side next', next.instr = .take side next' → s'.owner (side.spoon p) = none) :
    ∀ q side next, (s'.pc q).instr = .take side next → s'.owner (side.spoon q) = none := by
  apply h.free_of_move _ howner
  . rw [hpc]
    simpa using hnext
  . intro q hq
    rw [hpc, Function.update_of_ne hq]
    exact fun _ _ => id

theorem noFail_of_goto (h : Inv s) (s' : State n) (p : Fin n) (next : Pc)
    (hpc : s'.pc = Function.update s.pc p next)
    (hnext : next.failed = false) (q : Fin n) : (s'.pc q).failed = false := by
  rw [hpc]
  by_cases hq : q = p
  . subst hq
    simpa using hnext
  . rw [Function.update_of_ne hq]
    exact h.noFail q

theorem goto (h : Inv s) (hholds : ∀ sd, next.holds sd = (s.pc p).holds sd)
    (howns : ∀ sd, next.owns sd = (s.pc p).owns sd) (hnext : next.failed = false)
    (hfree : ∀ side next', next.instr = .take side next' → s.owner (side.spoon p) = none) :
    Inv (s.goto p next) where
  holder := h.holder.goto hholds
  owner := h.owner.goto howns
  isUsed := h.isUsed
  free := h.free_of_goto (s.goto p next) p next rfl (fun _ => .inl rfl) hfree
  noFail := h.noFail_of_goto (s.goto p next) p next rfl hnext

theorem goto_plain (h : Inv s) (hholds : ∀ sd, next.holds sd = (s.pc p).holds sd)
    (howns : ∀ sd, next.owns sd = (s.pc p).owns sd) (hnext : next.plain = true) :
    Inv (s.goto p next) :=
  h.goto hholds howns (Pc.failed_of_plain hnext) fun _ _ htake =>
    absurd htake (Pc.instr_ne_take_of_plain hnext)

theorem setMutex (h : Inv s) (v : Option (Fin n))
    (hholder : Tracks (Function.update s.holder (side.spoon p) v) Pc.holds
      (Function.update s.pc p next))
    (howns : ∀ sd, next.owns sd = (s.pc p).owns sd) (hnext : next.failed = false)
    (htake : ∀ side next', next.instr ≠ .take side next') :
    Inv ((s.setMutex (side.spoon p) v).goto p next) where
  holder := by simpa using hholder
  owner := by simpa using h.owner.goto howns
  isUsed := by simpa using h.isUsed
  free := by
    apply h.free_of_goto _ p next
    . simp
    . simp
    . intro sd next' heq
      exact absurd heq (htake sd next')
  noFail := h.noFail_of_goto _ p next (by simp) hnext

theorem lock (h : Inv s) (hpc : (s.pc p).instr = .lock side next)
    (hfree : s.holder (side.spoon p) = none) :
    Inv ((s.setMutex (side.spoon p) (some p)).goto p next) := by
  apply h.setMutex
  . apply h.holder.acquire hfree fun sd => (Pc.lock_spec hpc sd).1
  . exact fun sd => (Pc.lock_spec hpc sd).2.1
  . apply Pc.failed_of_plain (Pc.lock_spec hpc side).2.2
  . exact fun _ _ => Pc.instr_ne_take_of_plain (Pc.lock_spec hpc side).2.2

theorem unlock (hn : 2 ≤ n) (h : Inv s) (hpc : (s.pc p).instr = .unlock side next) :
    Inv ((s.setMutex (side.spoon p) none).goto p next) := by
  apply h.setMutex
  . apply h.holder.release hn (Pc.unlock_spec hpc side).1
    exact fun sd => (Pc.unlock_spec hpc sd).2.1
  . exact fun sd => (Pc.unlock_spec hpc sd).2.2.1
  . apply Pc.failed_of_plain (Pc.unlock_spec hpc side).2.2.2
  . exact fun _ _ => Pc.instr_ne_take_of_plain (Pc.unlock_spec hpc side).2.2.2

theorem wait (hn : 2 ≤ n) (h : Inv s) {wait : Pc} (hpc : (s.pc p).instr = .waitWhileTaken wait next) :
    Inv ((s.setMutex (Side.left.spoon p) none).goto p wait) := by
  have hspec := Pc.waitWhileTaken_spec hpc
  have hwait := (hspec .left).2.2.2.2.2.2.1
  apply h.setMutex
  . apply h.holder.release hn (hspec .left).1
    exact fun sd => (hspec sd).2.1
  . exact fun sd => (hspec sd).2.2.2.1
  . rw [hwait]
    rfl
  . simp [hwait, Pc.instr]

theorem setPhil (h : Inv s) (b : Bool) (v : Option (Fin n)) (hb : b = v.isSome)
    (hp : (s.pc p).holds side = true)
    (howner : Tracks (Function.update s.owner (side.spoon p) v) Pc.owns
      (Function.update s.pc p next))
    (hholds : ∀ sd, next.holds sd = (s.pc p).holds sd) (hnext : next.plain = true) :
    Inv (((s.setUsed (side.spoon p) b).setPhil (side.spoon p) v).goto p next) where
  holder := by simpa using h.holder.goto hholds
  owner := by simpa using howner
  isUsed := by
    intro k
    rw [State.goto_spoon, State.goto_owner, State.setPhil_isUsed, State.setUsed_isUsed,
      State.setPhil_owner, State.setUsed_owner, Function.update_apply]
    split
    . exact hb
    . exact h.isUsed k
  free := by
    apply h.free_of_goto _ p next
    . simp
    . intro k
      by_cases hk : k = side.spoon p
      . right
        rw [hk]
        apply h.holder_eq hp
      . left
        simp [hk]
    . intro sd next' htake
      exact absurd htake (Pc.instr_ne_take_of_plain hnext)
  noFail := h.noFail_of_goto _ p next (by simp) (Pc.failed_of_plain hnext)

theorem take (h : Inv s) (hpc : (s.pc p).instr = .take side next) :
    Inv (((s.setUsed (side.spoon p) true).setPhil (side.spoon p) (some p)).goto p next) := by
  have hspec := Pc.take_spec hpc
  apply h.setPhil true (some p) rfl (hspec side).1
  . apply h.owner.acquire (h.free p side next hpc)
    exact fun sd => (hspec sd).2.2.1
  . exact fun sd => (hspec sd).2.1
  . exact (hspec side).2.2.2

theorem clear (hn : 2 ≤ n) (h : Inv s) (hpc : (s.pc p).instr = .clear side next) :
    Inv (((s.setUsed (side.spoon p) false).setPhil (side.spoon p) none).goto p next) := by
  have hspec := Pc.clear_spec hpc
  apply h.setPhil false none rfl (hspec side).1
  . apply h.owner.release hn (hspec side).2.1
    exact fun sd => (hspec sd).2.2.2.1
  . exact fun sd => (hspec sd).2.2.1
  . exact (hspec side).2.2.2.2

theorem wake (h : Inv s) (k : Fin n) : Inv (s.wake k) where
  holder := by
    apply h.holder.congr
    intro q sd
    rcases s.wake_pc q k with hpc | ⟨woken, hsleep, hpc⟩
    . rw [hpc]
    . rw [hpc, (Pc.sleep_spec hsleep sd).1]
  owner := by
    apply h.owner.congr
    intro q sd
    rcases s.wake_pc q k with hpc | ⟨woken, hsleep, hpc⟩
    . rw [hpc]
    . rw [hpc, (Pc.sleep_spec hsleep sd).2.1]
  isUsed := h.isUsed
  free := by
    intro q side next hq
    rcases s.wake_pc q k with hpc | ⟨woken, hsleep, hpc⟩
    . rw [hpc] at hq
      exact h.free q side next hq
    . rw [hpc] at hq
      exact absurd hq (Pc.instr_ne_take_of_plain (Pc.sleep_spec hsleep side).2.2)
  noFail := by
    intro q
    rcases s.wake_pc q k with hpc | ⟨woken, hsleep, hpc⟩
    . rw [hpc]
      exact h.noFail q
    . rw [hpc]
      apply Pc.failed_of_plain (Pc.sleep_spec hsleep .left).2.2

theorem signal (h : Inv s) (hpc : (s.pc p).instr = .signal side next) :
    Inv ((s.wake (side.spoon p)).goto p next) := by
  have hself : (s.wake (side.spoon p)).pc p = s.pc p := by
    rcases s.wake_pc p (side.spoon p) with hsame | ⟨woken, hsleep, _⟩
    . exact hsame
    . rw [hpc] at hsleep
      contradiction
  apply (h.wake (side.spoon p)).goto_plain
  . intro sd
    rw [hself]
    apply (Pc.signal_spec hpc sd).1
  . intro sd
    rw [hself]
    apply (Pc.signal_spec hpc sd).2.1
  . apply (Pc.signal_spec hpc side).2.2

theorem count (h : Inv s) (eatCount : Fin n → Nat) : Inv { s with eatCount := eatCount } :=
  ⟨h.holder, h.owner, h.isUsed, h.free, h.noFail⟩

theorem goto_take (h : Inv s) (hnext : next.instr = .take side next') (hfailed : next.failed = false)
    (hholds : ∀ sd, next.holds sd = (s.pc p).holds sd)
    (howns : ∀ sd, next.owns sd = (s.pc p).owns sd) (hnone : s.owner (side.spoon p) = none) :
    Inv (s.goto p next) := by
  apply h.goto hholds howns hfailed
  intro side' next'' htake
  rw [hnext] at htake
  injection htake with hside
  rw [← hside]
  exact hnone

theorem move (hn : 2 ≤ n) (h : Inv s) (hmove : Move s p s') : Inv s' := by
  cases hmove with
  | lock hpc hfree => apply h.lock hpc hfree
  | unlock hpc => apply h.unlock hn hpc
  | wait hpc => apply h.wait hn hpc
  | proceed hpc hfree =>
    have hspec := Pc.waitWhileTaken_spec hpc
    have hnone := h.owner_eq_none hn (hspec .left).2.2.2.2.2.1 hfree
    have hnext := (hspec .left).2.2.2.2.2.2.2
    subst hnext
    apply h.goto_take rfl rfl (fun sd => (hspec sd).2.2.1) (fun sd => (hspec sd).2.2.2.2.1)
    exact hnone
  | take hpc => apply h.take hpc
  | clear hpc => apply h.clear hn hpc
  | signal hpc => apply h.signal hpc
  | assertOk hpc =>
    have hspec := Pc.assertOwned_spec hpc
    apply h.goto_plain (fun sd => (hspec sd).2.1) (fun sd => (hspec sd).2.2.1) (hspec .left).2.2.2
  | assertFail hpc hassert =>
    have howner := h.owner_eq (Pc.assertOwned_spec hpc .left).1
    refine absurd ⟨?_, howner⟩ hassert
    rw [h.isUsed, howner]
    rfl
  | assertFalse hpc =>
    have hfail := Pc.failed_of_assertFalse hpc
    rw [h.noFail p] at hfail
    contradiction
  | branchFree hpc hused =>
    have hspec := Pc.branchRight_spec hpc
    have hnone := h.owner_eq_none hn (hspec .left).1 (by simp [hused])
    have hfree := (hspec .left).2.2.2.2.2.1
    subst hfree
    apply h.goto_take rfl rfl (fun sd => (hspec sd).2.1) (fun sd => (hspec sd).2.2.1) hnone
  | branchOther hpc =>
    have hspec := Pc.branchRight_spec hpc
    exact h.goto_plain (fun sd => (hspec sd).2.2.2.1) (fun sd => (hspec sd).2.2.2.2.1)
      (hspec .left).2.2.2.2.2.2
  | branchOwn hpc hphil => exact absurd hphil (h.owner_ne hn (Pc.branchRight_spec hpc .left).1)
  | count hpc eatCount =>
    have hspec := Pc.count_spec hpc
    exact (h.count eatCount).goto_plain (fun sd => (hspec sd).1) (fun sd => (hspec sd).2.1)
      (hspec .left).2.2
  | wake hpc =>
    have hspec := Pc.sleep_spec hpc
    apply h.goto_plain (fun sd => (hspec sd).1) (fun sd => (hspec sd).2.1) (hspec .left).2.2

end Inv

theorem inv_of_reachable (hn : 2 ≤ n) (h : (system n).Reachable s) : Inv s := by
  apply h.invariant
  . intro s hs
    rw [hs]
    exact .init n
  . intro s l s' hinv _ hstep
    have ⟨p, hmove⟩ := Move.of_step hstep
    apply hinv.move hn hmove

end DnPhil
end ThreadSync
