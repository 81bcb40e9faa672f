import BBBLinux.ThreadSync.DnPhil.Impl

/-!
This module contains the invariant of the dining philosophers: the mutex and the owner of each spoon
are determined by the places of its two neighbours.
-/

namespace ThreadSync
namespace DnPhil

variable {n : Nat}

theorem philGetRightSpoon_val (p : Fin n) :
    (philGetRightSpoon p).val = if p.val = 0 then n - 1 else p.val - 1 := by
  unfold philGetRightSpoon
  split <;> rfl

theorem Side.spoon_inj {side : Side} {p q : Fin n} (h : side.spoon p = side.spoon q) : p = q := by
  cases side with
  | left => exact h
  | right =>
    have hval := congrArg Fin.val h
    simp only [Side.spoon, philGetRightSpoon_val] at hval
    apply Fin.ext
    have := p.isLt
    have := q.isLt
    split at hval <;> split at hval <;> omega

theorem Side.eq_of_spoon_eq (hn : 2 ≤ n) {side side' : Side} {p : Fin n}
    (h : side.spoon p = side'.spoon p) : side = side' := by
  have hne : philGetLeftSpoon p ≠ philGetRightSpoon p := by
    intro heq
    have hval := congrArg Fin.val heq
    simp only [philGetLeftSpoon, philGetRightSpoon_val] at hval
    split at hval <;> omega
  cases side <;> cases side'
  . rfl
  . exact absurd h hne
  . exact absurd h.symm hne
  . rfl

namespace Pc

def holds : Side → Pc → Bool
  | .left, .checkLeft | .left, .takeLeft | .left, .unlockLeft
  | .left, .backoffAssert | .left, .backoffClear | .left, .backoffUnlockLeft
  | .left, .releaseLockRight | .left, .releaseAssertLeft | .left, .releaseAssertRight
  | .left, .releaseClearLeft | .left, .releaseSignalLeft | .left, .releaseUnlockLeft => true
  | .right, .checkRight | .right, .takeRight | .right, .unlockRight
  | .right, .backoffLockLeft | .right, .backoffAssert | .right, .backoffClear
  | .right, .backoffUnlockLeft | .right, .backoffUnlockRight
  | .right, .releaseAssertLeft | .right, .releaseAssertRight | .right, .releaseClearLeft
  | .right, .releaseSignalLeft | .right, .releaseUnlockLeft | .right, .releaseClearRight
  | .right, .releaseSignalRight | .right, .releaseUnlockRight => true
  | _, _ => false

def owns : Side → Pc → Bool
  | .left, .unlockLeft | .left, .lockRight | .left, .checkRight | .left, .takeRight
  | .left, .unlockRight | .left, .backoffLockLeft | .left, .backoffAssert | .left, .backoffClear
  | .left, .eatLeft | .left, .eatRight | .left, .eat | .left, .releaseLockLeft
  | .left, .releaseLockRight | .left, .releaseAssertLeft | .left, .releaseAssertRight
  | .left, .releaseClearLeft => true
  | .right, .unlockRight | .right, .eatLeft | .right, .eatRight | .right, .eat
  | .right, .releaseLockLeft | .right, .releaseLockRight | .right, .releaseAssertLeft
  | .right, .releaseAssertRight | .right, .releaseClearLeft | .right, .releaseSignalLeft
  | .right, .releaseUnlockLeft | .right, .releaseClearRight => true
  | _, _ => false

def plain : Pc → Bool
  | .takeLeft | .takeRight | .waitLeft | .accessEnd | .abort => false
  | _ => true

def failed : Pc → Bool
  | .accessEnd | .abort => true
  | _ => false

variable {pc next wait woken free other own : Pc} {side : Side}

theorem failed_of_plain (h : pc.plain = true) : pc.failed = false := by
  cases pc <;> simp [plain, failed] at h ⊢

theorem failed_of_assertFalse (h : pc.instr = .assertFalse) : pc.failed = true := by
  cases pc <;> simp [instr] at h
  rfl

theorem ne_waitLeft_of_plain (h : pc.plain = true) : pc ≠ .waitLeft := by
  intro hpc
  rw [hpc] at h
  contradiction

theorem instr_ne_take_of_plain (h : pc.plain = true) : pc.instr ≠ .take side next := by
  intro hpc
  cases pc <;> simp [instr] at hpc
  all_goals contradiction

theorem lock_spec (h : pc.instr = .lock side next) (sd : Side) :
    holds sd next = (if sd = side then true else holds sd pc) ∧ owns sd next = owns sd pc
      ∧ next.plain = true := by
  cases pc <;> simp only [instr, reduceCtorEq, Instr.lock.injEq] at h
  all_goals
    obtain ⟨rfl, rfl⟩ := h
    cases sd <;> decide

theorem unlock_spec (h : pc.instr = .unlock side next) (sd : Side) :
    holds side pc = true ∧ holds sd next = (if sd = side then false else holds sd pc)
      ∧ owns sd next = owns sd pc ∧ next.plain = true := by
  cases pc <;> simp only [instr, reduceCtorEq, Instr.unlock.injEq] at h
  all_goals
    obtain ⟨rfl, rfl⟩ := h
    cases sd <;> decide

theorem waitWhileTaken_spec (h : pc.instr = .waitWhileTaken wait next) (sd : Side) :
    holds .left pc = true ∧ holds sd wait = (if sd = .left then false else holds sd pc)
      ∧ holds sd next = holds sd pc ∧ owns sd wait = owns sd pc ∧ owns sd next = owns sd pc
      ∧ owns .left pc = false ∧ wait = .waitLeft ∧ next = .takeLeft := by
  cases pc <;> simp only [instr, reduceCtorEq, Instr.waitWhileTaken.injEq] at h
  obtain ⟨rfl, rfl⟩ := h
  cases sd <;> decide

theorem sleep_spec (h : pc.instr = .sleep woken) (sd : Side) :
    holds sd woken = holds sd pc ∧ owns sd woken = owns sd pc ∧ woken.plain = true := by
  cases pc <;> simp only [instr, reduceCtorEq, Instr.sleep.injEq] at h
  subst h
  cases sd <;> decide

theorem take_spec (h : pc.instr = .take side next) (sd : Side) :
    holds side pc = true ∧ holds sd next = holds sd pc
      ∧ owns sd next = (if sd = side then true else owns sd pc) ∧ next.plain = true := by
  cases pc <;> simp only [instr, reduceCtorEq, Instr.take.injEq] at h
  all_goals
    obtain ⟨rfl, rfl⟩ := h
    cases sd <;> decide

theorem clear_spec (h : pc.instr = .clear side next) (sd : Side) :
    holds side pc = true ∧ owns side pc = true ∧ holds sd next = holds sd pc
      ∧ owns sd next = (if sd = side then false else owns sd pc) ∧ next.plain = true := by
  cases pc <;> simp only [instr, reduceCtorEq, Instr.clear.injEq] at h
  all_goals
    obtain ⟨rfl, rfl⟩ := h
    cases sd <;> decide

theorem signal_spec (h : pc.instr = .signal side next) (sd : Side) :
    holds sd next = holds sd pc ∧ owns sd next = owns sd pc ∧ next.plain = true := by
  cases pc <;> simp only [instr, reduceCtorEq, Instr.signal.injEq] at h
  all_goals
    obtain ⟨rfl, rfl⟩ := h
    cases sd <;> decide

theorem assertOwned_spec (h : pc.instr = .assertOwned side next) (sd : Side) :
    owns side pc = true ∧ holds sd next = holds sd pc ∧ owns sd next = owns sd pc
      ∧ next.plain = true := by
  cases pc <;> simp only [instr, reduceCtorEq, Instr.assertOwned.injEq] at h
  all_goals
    obtain ⟨rfl, rfl⟩ := h
    cases sd <;> decide

theorem branchRight_spec (h : pc.instr = .branchRight free other own) (sd : Side) :
    owns .right pc = false ∧ holds sd free = holds sd pc ∧ owns sd free = owns sd pc
      ∧ holds sd other = holds sd pc ∧ owns sd other = owns sd pc
      ∧ free = .takeRight ∧ other.plain = true := by
  cases pc <;> simp only [instr, reduceCtorEq, Instr.branchRight.injEq] at h
  obtain ⟨rfl, rfl, rfl⟩ := h
  cases sd <;> decide

theorem count_spec (h : pc.instr = .count next) (sd : Side) :
    holds sd next = holds sd pc ∧ owns sd next = owns sd pc ∧ next.plain = true := by
  cases pc <;> simp only [instr, reduceCtorEq, Instr.count.injEq] at h
  subst h
  cases sd <;> decide

end Pc

namespace State

def holder (s : State n) (k : Fin n) : Option (Fin n) := (s.spoon k).mutex

def owner (s : State n) (k : Fin n) : Option (Fin n) := (s.spoon k).phil

variable (s : State n) (p q k : Fin n) (pc : Pc) (v : Option (Fin n))
  (b : Bool)

@[simp]
theorem goto_pc : (s.goto p pc).pc = Function.update s.pc p pc := rfl

@[simp]
theorem goto_spoon : (s.goto p pc).spoon = s.spoon := rfl

@[simp]
theorem goto_holder : (s.goto p pc).holder = s.holder := rfl

@[simp]
theorem goto_owner : (s.goto p pc).owner = s.owner := rfl

@[simp]
theorem setMutex_pc : (s.setMutex k v).pc = s.pc := rfl

@[simp]
theorem setMutex_holder : (s.setMutex k v).holder = Function.update s.holder k v := by
  funext k'
  by_cases h : k' = k <;> simp [holder, setMutex, h]

@[simp]
theorem setMutex_owner : (s.setMutex k v).owner = s.owner := by
  funext k'
  by_cases h : k' = k <;> simp [owner, setMutex, h]

@[simp]
theorem setMutex_isUsed : ((s.setMutex k v).spoon q).isUsed = (s.spoon q).isUsed := by
  by_cases h : q = k <;> simp [setMutex, h]

@[simp]
theorem setPhil_pc : (s.setPhil k v).pc = s.pc := rfl

@[simp]
theorem setPhil_holder : (s.setPhil k v).holder = s.holder := by
  funext k'
  by_cases h : k' = k <;> simp [holder, setPhil, h]

@[simp]
theorem setPhil_owner : (s.setPhil k v).owner = Function.update s.owner k v := by
  funext k'
  by_cases h : k' = k <;> simp [owner, setPhil, h]

@[simp]
theorem setPhil_isUsed : ((s.setPhil k v).spoon q).isUsed = (s.spoon q).isUsed := by
  by_cases h : q = k <;> simp [setPhil, h]

@[simp]
theorem setUsed_pc : (s.setUsed k b).pc = s.pc := rfl

@[simp]
theorem setUsed_holder : (s.setUsed k b).holder = s.holder := by
  funext k'
  by_cases h : k' = k <;> simp [holder, setUsed, h]

@[simp]
theorem setUsed_owner : (s.setUsed k b).owner = s.owner := by
  funext k'
  by_cases h : k' = k <;> simp [owner, setUsed, h]

theorem setUsed_isUsed :
    ((s.setUsed k b).spoon q).isUsed = if q = k then b else (s.spoon q).isUsed := by
  by_cases h : q = k <;> simp [setUsed, h]

@[simp]
theorem wake_holder : (s.wake k).holder = s.holder := rfl

@[simp]
theorem wake_owner : (s.wake k).owner = s.owner := rfl

@[simp]
theorem wake_spoon : (s.wake k).spoon = s.spoon := rfl

theorem wake_pc : (s.wake k).pc q = s.pc q
    ∨ ∃ woken, (s.pc q).instr = .sleep woken ∧ (s.wake k).pc q = woken := by
  unfold wake
  dsimp only
  split
  . next woken hpc =>
    split
    . exact .inr ⟨woken, hpc, rfl⟩
    . exact .inl rfl
  . exact .inl rfl

end State

inductive Move (s : State n) (p : Fin n) : State n → Prop where
  | lock {side next} (hpc : (s.pc p).instr = .lock side next)
      (hfree : s.holder (side.spoon p) = none) :
      Move s p ((s.setMutex (side.spoon p) (some p)).goto p next)
  | unlock {side next} (hpc : (s.pc p).instr = .unlock side next) :
      Move s p ((s.setMutex (side.spoon p) none).goto p next)
  | wait {wait next} (hpc : (s.pc p).instr = .waitWhileTaken wait next)
      (hused : (s.spoon (Side.left.spoon p)).isUsed = true)
      (hphil : s.owner (Side.left.spoon p) ≠ some p) :
      Move s p ((s.setMutex (Side.left.spoon p) none).goto p wait)
  | proceed {wait next} (hpc : (s.pc p).instr = .waitWhileTaken wait next)
      (hfree : (s.spoon (Side.left.spoon p)).isUsed = true → s.owner (Side.left.spoon p) = some p) :
      Move s p (s.goto p next)
  | take {side next} (hpc : (s.pc p).instr = .take side next) :
      Move s p (((s.setUsed (side.spoon p) true).setPhil (side.spoon p) (some p)).goto p next)
  | clear {side next} (hpc : (s.pc p).instr = .clear side next) :
      Move s p (((s.setUsed (side.spoon p) false).setPhil (side.spoon p) none).goto p next)
  | signal {side next} (hpc : (s.pc p).instr = .signal side next) :
      Move s p ((s.wake (side.spoon p)).goto p next)
  | assertOk {side next} (hpc : (s.pc p).instr = .assertOwned side next) : Move s p (s.goto p next)
  | assertFail {side next} (hpc : (s.pc p).instr = .assertOwned side next)
      (hassert : ¬((s.spoon (side.spoon p)).isUsed = true ∧ s.owner (side.spoon p) = some p)) :
      Move s p (s.goto p .abort)
  | assertFalse (hpc : (s.pc p).instr = .assertFalse) : Move s p (s.goto p .abort)
  | branchFree {free other own} (hpc : (s.pc p).instr = .branchRight free other own)
      (hused : (s.spoon (Side.right.spoon p)).isUsed = false) : Move s p (s.goto p free)
  | branchOther {free other own} (hpc : (s.pc p).instr = .branchRight free other own) :
      Move s p (s.goto p other)
  | branchOwn {free other own} (hpc : (s.pc p).instr = .branchRight free other own)
      (hphil : s.owner (Side.right.spoon p) = some p) : Move s p (s.goto p own)
  | count {next} (hpc : (s.pc p).instr = .count next) (eatCount : Fin n → Nat) :
      Move s p ({ s with eatCount := eatCount }.goto p next)
  | wake {woken} (hpc : (s.pc p).instr = .sleep woken) : Move s p (s.goto p woken)

theorem Move.of_run {s s' : State n} {p : Fin n} (h : s.run p = some s') : Move s p s' := by
  unfold State.run at h
  split at h
  . next hpc =>
    split at h
    . next hfree =>
      injection h with h
      exact h ▸ .lock hpc hfree
    . contradiction
  . next hpc =>
    injection h with h
    exact h ▸ .unlock hpc
  . next hpc =>
    dsimp only at h
    split at h
    . next htaken =>
      injection h with h
      exact h ▸ .wait hpc htaken.1 htaken.2
    . next hfree =>
      injection h with h
      refine h ▸ .proceed hpc fun hused => ?_
      by_contra hne
      exact hfree ⟨hused, hne⟩
  . contradiction
  . next hpc =>
    injection h with h
    exact h ▸ .take hpc
  . next hpc =>
    injection h with h
    exact h ▸ .clear hpc
  . next hpc =>
    injection h with h
    exact h ▸ .signal hpc
  . next hpc =>
    dsimp only at h
    split at h
    . injection h with h
      exact h ▸ .assertOk hpc
    . next hassert =>
      injection h with h
      exact h ▸ .assertFail hpc hassert
  . next hpc =>
    injection h with h
    exact h ▸ .assertFalse hpc
  . next hpc =>
    dsimp only at h
    split at h
    . next hused =>
      injection h with h
      exact h ▸ .branchFree hpc hused
    . split at h
      . injection h with h
        exact h ▸ .branchOther hpc
      . next hphil =>
        injection h with h
        exact h ▸ .branchOwn hpc (not_not.mp hphil)
  . next hpc =>
    injection h with h
    exact h ▸ .count hpc _
  . contradiction

theorem Move.of_step {s s' : State n} {l : Label n} (h : (system n).step s l s') :
    ∃ p, Move s p s' := by
  cases l with
  | run p => exact ⟨p, .of_run h⟩
  | spurious p =>
    simp only [system, TransitionSystem.ofStep, State.next] at h
    split at h
    . next hpc =>
      injection h with h
      exact ⟨p, h ▸ .wake hpc⟩
    . contradiction

def Tracks (f : Fin n → Option (Fin n)) (a : Side → Pc → Bool) (pc : Fin n → Pc) : Prop :=
  ∀ k q, f k = some q ↔ ∃ side : Side, k = side.spoon q ∧ a side (pc q) = true

namespace Tracks

variable {f : Fin n → Option (Fin n)} {a : Side → Pc → Bool} {pc pc' : Fin n → Pc} {p : Fin n}
variable {side : Side} {next : Pc}

theorem congr (h : Tracks f a pc) (hpc : ∀ q sd, a sd (pc' q) = a sd (pc q)) :
    Tracks f a pc' := by
  intro k q
  simp only [h k q, hpc]

theorem goto (h : Tracks f a pc) (hnext : ∀ sd, a sd next = a sd (pc p)) :
    Tracks f a (Function.update pc p next) := by
  apply h.congr
  intro q sd
  by_cases hq : q = p
  . subst hq
    simp [hnext]
  . simp [hq]

theorem eq_some (h : Tracks f a pc) (hp : a side (pc p) = true) : f (side.spoon p) = some p :=
  (h _ _).mpr ⟨side, rfl, hp⟩

theorem acquire (h : Tracks f a pc) (hfree : f (side.spoon p) = none)
    (hnext : ∀ sd, a sd next = if sd = side then true else a sd (pc p)) :
    Tracks (Function.update f (side.spoon p) (some p)) a (Function.update pc p next) := by
  intro k q
  by_cases hk : k = side.spoon p
  . subst hk
    rw [Function.update_self, Option.some.injEq]
    constructor
    . rintro rfl
      exact ⟨side, rfl, by simp [hnext]⟩
    . rintro ⟨sd, hsd, ha⟩
      by_contra hne
      rw [Function.update_of_ne (Ne.symm hne)] at ha
      rw [hsd, h.eq_some ha] at hfree
      contradiction
  . rw [Function.update_of_ne hk, h k q]
    by_cases hq : q = p
    . subst hq
      simp only [Function.update_self, hnext]
      grind
    . rw [Function.update_of_ne hq]

theorem release (hn : 2 ≤ n) (h : Tracks f a pc) (hp : a side (pc p) = true)
    (hnext : ∀ sd, a sd next = if sd = side then false else a sd (pc p)) :
    Tracks (Function.update f (side.spoon p) none) a (Function.update pc p next) := by
  intro k q
  by_cases hk : k = side.spoon p
  . subst hk
    rw [Function.update_self]
    simp only [reduceCtorEq, false_iff]
    rintro ⟨sd, hsd, ha⟩
    by_cases hq : q = p
    . subst hq
      rw [Function.update_self, hnext, if_pos (Side.eq_of_spoon_eq hn hsd).symm] at ha
      contradiction
    . rw [Function.update_of_ne hq] at ha
      have hfq := h.eq_some ha
      rw [← hsd, h.eq_some hp] at hfq
      injection hfq with hfq
      exact hq hfq.symm
  . rw [Function.update_of_ne hk, h k q]
    by_cases hq : q = p
    . subst hq
      simp only [Function.update_self, hnext]
      grind
    . rw [Function.update_of_ne hq]

end Tracks

end DnPhil
end ThreadSync
