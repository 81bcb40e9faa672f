import BBBLinux.ThreadSync.DnPhil.Invariant

/-!
This module contains the mutual exclusion of the dining philosophers and the validity of their
assertions, which are both read off the owners of the spoons.
-/

namespace ThreadSync
namespace DnPhil

variable {n : Nat} {s : State n} {p q : Fin n}

/--
Between the `return true` of `phil_access_both_spoon` and the clearing in `phil_release_both_spoon`.
-/
def Pc.dining : Pc → Bool
  | .eatLeft | .eatRight | .eat | .releaseLockLeft | .releaseLockRight | .releaseAssertLeft
  | .releaseAssertRight | .releaseClearLeft => true
  | _ => false

def Owns (s : State n) (p : Fin n) (side : Side) : Prop :=
  (s.spoon (side.spoon p)).isUsed = true ∧ (s.spoon (side.spoon p)).phil = some p

def Adjacent (p q : Fin n) : Prop :=
  p ≠ q ∧ ∃ side side' : Side, side.spoon p = side'.spoon q

structure Exclusive (s : State n) : Prop where
  used : ∀ k, (s.spoon k).isUsed = true ↔ (s.spoon k).phil ≠ none
  neighbour : ∀ k q, (s.spoon k).phil = some q → ∃ side : Side, side.spoon q = k
  dining : ∀ p, (s.pc p).dining = true → ∀ side, Owns s p side
  adjacent : ∀ p q, Adjacent p q → ¬((s.pc p).dining = true ∧ (s.pc q).dining = true)
  -- every assertion holds whenever a philosopher stands in front of it
  assertOwned : ∀ p side next, (s.pc p).instr = .assertOwned side next → Owns s p side
  assertFalse : ∀ p, (s.pc p).instr ≠ .assertFalse
  noAbort : ∀ p, s.pc p ≠ .abort

theorem Pc.owns_of_dining {pc : Pc} (h : pc.dining = true) (side : Side) : pc.owns side = true := by
  cases pc <;> simp only [dining, reduceCtorEq] at h
  all_goals
    cases side <;> rfl

theorem Inv.owns (h : Inv s) {side : Side} (hp : (s.pc p).owns side = true) : Owns s p side := by
  have howner := h.owner_eq hp
  refine ⟨?_, howner⟩
  rw [h.isUsed, howner]
  rfl

theorem Inv.not_both_dining (h : Inv s) (hadj : Adjacent p q) :
    ¬((s.pc p).dining = true ∧ (s.pc q).dining = true) := by
  intro ⟨hp, hq⟩
  have ⟨hne, side, side', hspoon⟩ := hadj
  have hpowner := h.owner_eq (Pc.owns_of_dining hp side)
  have hqowner := h.owner_eq (Pc.owns_of_dining hq side')
  rw [hspoon, hqowner] at hpowner
  injection hpowner with heq
  exact hne heq.symm

theorem mutual_exclusion (hn : 2 ≤ n) (h : (system n).Reachable s) : Exclusive s := by
  have hinv := inv_of_reachable hn h
  constructor
  . intro k
    rw [hinv.isUsed, Option.isSome_iff_ne_none]
    rfl
  . intro k q hphil
    have ⟨side, hside, _⟩ := (hinv.owner k q).mp hphil
    exact ⟨side, hside.symm⟩
  . intro p hp side
    apply hinv.owns (Pc.owns_of_dining hp side)
  . exact fun _ _ => hinv.not_both_dining
  . intro p side next hpc
    apply hinv.owns (Pc.assertOwned_spec hpc side).1
  . intro p hpc
    have hfail := Pc.failed_of_assertFalse hpc
    rw [hinv.noFail p] at hfail
    contradiction
  . intro p hpc
    have hfail := hinv.noFail p
    rw [hpc] at hfail
    contradiction

theorem mutual_exclusion_eating : 2 ≤ 5 ∧ ∃ s : State 5, s.pc 2 = .eatLeft ∧ Exclusive s := by
  have hrun : ((TransitionSystem.runSchedule State.next (State.init 5)
      (List.replicate 8 (.run 2))).any fun s => decide (s.pc 2 = .eatLeft)) = true := by
    decide
  rw [Option.any_eq_true] at hrun
  have ⟨s, hs, heat⟩ := hrun
  refine ⟨by decide, s, of_decide_eq_true heat, ?_⟩
  apply mutual_exclusion (by decide)
  exact TransitionSystem.reachable_of_runSchedule (.init rfl) hs

end DnPhil
end ThreadSync
