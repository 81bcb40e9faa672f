import BBBLinux.ThreadSync.DnPhil.Exclusion
import BBBLinux.ThreadSync.DnPhil.Progress
import Mathlib.Data.Fintype.Card

/-!
This module contains who can eat at the same time: any philosophers of whom no two share a spoon, so up to
half of them.
-/

namespace ThreadSync
namespace DnPhil

variable {n : Nat} {s : State n} {p q : Fin n}

-- in `phil_eat`
def Pc.eating : Pc → Bool
  | .eatLeft | .eatRight | .eat => true
  | _ => false

theorem Pc.dining_of_eating {pc : Pc} (h : pc.eating = true) : pc.dining = true := by
  cases pc with
  | eatLeft | eatRight | eat => rfl
  | _ => contradiction

def eating (s : State n) : Finset (Fin n) :=
  Finset.univ.filter fun p => (s.pc p).eating = true

def dining (s : State n) : Finset (Fin n) :=
  Finset.univ.filter fun p => (s.pc p).dining = true

theorem mem_eating : p ∈ eating s ↔ (s.pc p).eating = true := by
  simp [eating]

theorem mem_dining : p ∈ dining s ↔ (s.pc p).dining = true := by
  simp [dining]

theorem eating_subset_dining : eating s ⊆ dining s := by
  intro p hp
  rw [mem_eating] at hp
  rw [mem_dining]
  exact Pc.dining_of_eating hp

def Apart (phils : Finset (Fin n)) : Prop :=
  ∀ p ∈ phils, ∀ q ∈ phils, ¬Adjacent p q

theorem Apart.mono {phils phils' : Finset (Fin n)} (h : Apart phils) (hsub : phils' ⊆ phils) :
    Apart phils' :=
  fun p hp q hq => h p (hsub hp) q (hsub hq)

theorem apart_dining (hinv : Inv s) : Apart (dining s) := by
  intro p hp q hq hadj
  rw [mem_dining] at hp hq
  exact hinv.not_both_dining hadj ⟨hp, hq⟩

theorem Apart.ne_right {phils : Finset (Fin n)} (hn : 2 ≤ n) (h : Apart phils) (hp : p ∈ phils)
    (hq : q ∈ phils) : p ≠ Side.right.spoon q := by
  intro hspoon
  refine h p hp q hq ⟨?_, .left, .right, hspoon⟩
  rintro rfl
  exact right_ne_self hn p hspoon.symm

/--
Each of them has two spoons for itself.
-/
theorem Apart.two_mul_card_le {phils : Finset (Fin n)} (hn : 2 ≤ n) (h : Apart phils) :
    2 * phils.card ≤ n := by
  have hright : (phils.image Side.right.spoon).card = phils.card :=
    Finset.card_image_of_injective _ fun _ _ => Side.spoon_inj
  have hdisjoint : Disjoint phils (phils.image Side.right.spoon) := by
    rw [Finset.disjoint_left]
    intro p hp hspoon
    obtain ⟨q, hq, hspoon⟩ := Finset.mem_image.mp hspoon
    exact h.ne_right hn hp hq hspoon.symm
  have hcard := Finset.card_le_univ (phils ∪ phils.image Side.right.spoon)
  rw [Finset.card_union_of_disjoint hdisjoint, hright, Fintype.card_fin] at hcard
  omega

/--
Everyone in `phils` eats, and everyone else has not begun.
-/
def Seated (s : State n) (phils : Finset (Fin n)) : Prop :=
  ∀ p, s.pc p = if p ∈ phils then .eat else .lockLeft

theorem Seated.eating_eq {phils : Finset (Fin n)} (h : Seated s phils) : eating s = phils := by
  apply Finset.ext
  intro p
  rw [mem_eating, h p]
  split
  . next hp => simp [hp, Pc.eating]
  . next hp => simp [hp, Pc.eating]

theorem Seated.undisturbed {phils : Finset (Fin n)} (h : Seated s phils)
    (hapart : ∀ q ∈ phils, ¬Adjacent p q) : Undisturbed s p := by
  intro q hq side side' hspoon
  have hnot : q ∉ phils := fun hmem => hapart q hmem ⟨Ne.symm hq, side, side', hspoon⟩
  rw [h q, if_neg hnot]
  cases side' <;> exact ⟨rfl, rfl⟩

/--
They come to the table one after the other.
-/
theorem exists_seated (hn : 2 ≤ n) {phils : Finset (Fin n)} (h : Apart phils) :
    ∃ s, (system n).Reachable s ∧ Seated s phils := by
  induction phils using Finset.induction_on with
  | empty =>
    refine ⟨State.init n, .init rfl, ?_⟩
    intro p
    rw [if_neg (Finset.notMem_empty p)]
    rfl
  | insert p phils hp ih =>
    obtain ⟨s, hreach, hseated⟩ := ih (h.mono (Finset.subset_insert p phils))
    have hself := Finset.mem_insert_self p phils
    have hundisturbed : Undisturbed s p :=
      hseated.undisturbed fun q hq => h p hself q (Finset.mem_insert_of_mem hq)
    have hidle : s.pc p = .lockLeft := by
      rw [hseated p, if_neg hp]
    obtain ⟨t, ht, heat, _⟩ :=
      hundisturbed.comes hn (inv_of_reachable hn hreach) (Nat.le_refl 10) hidle
    refine ⟨t, hreach.trans ht, ?_⟩
    intro q
    rw [heat, Function.update_apply]
    split
    . next hq =>
      rw [hq, if_pos hself]
    . next hq =>
      rw [hseated q]
      simp [hq]

/--
Every second philosopher, but for the last one of an odd number, who would be a neighbour of the first.
-/
def everySecond (n : Nat) : Finset (Fin n) :=
  Finset.univ.filter fun p => p.val % 2 = 0 ∧ p.val + 1 < n

theorem apart_everySecond : Apart (everySecond n) := by
  intro p hp q hq ⟨hne, side, side', hspoon⟩
  simp only [everySecond, Finset.mem_filter, Finset.mem_univ, true_and] at hp hq
  have hval := congrArg Fin.val hspoon
  have hneval : p.val ≠ q.val := fun h => hne (Fin.ext h)
  cases side with
  | left =>
    cases side' with
    | left => exact hne hspoon
    | right =>
      simp only [Side.spoon, philGetLeftSpoon, philGetRightSpoon_val] at hval
      split at hval <;> omega
  | right =>
    cases side' with
    | left =>
      simp only [Side.spoon, philGetLeftSpoon, philGetRightSpoon_val] at hval
      split at hval <;> omega
    | right => exact hne (Side.spoon_inj hspoon)

theorem card_everySecond : (everySecond n).card = n / 2 := by
  have himage : everySecond n
      = Finset.univ.image fun i : Fin (n / 2) => (⟨2 * i.val, by omega⟩ : Fin n) := by
    apply Finset.ext
    intro p
    simp only [everySecond, Finset.mem_filter, Finset.mem_univ, true_and, Finset.mem_image]
    constructor
    . intro ⟨heven, hlt⟩
      exact ⟨⟨p.val / 2, by omega⟩, Fin.ext (by dsimp only; omega)⟩
    . rintro ⟨i, rfl⟩
      dsimp only
      omega
  rw [himage, Finset.card_image_of_injective, Finset.card_univ, Fintype.card_fin]
  intro i j hij
  have hval := congrArg Fin.val hij
  dsimp only at hval
  exact Fin.ext (by omega)

/--
Exactly the sets without neighbours eat together in some run, and the largest of them has half of the
philosophers.
-/
theorem eating_together (hn : 2 ≤ n) :
    (∀ phils : Finset (Fin n), (∃ s, (system n).Reachable s ∧ eating s = phils) ↔ Apart phils)
      ∧ (∀ s, (system n).Reachable s → 2 * (dining s).card ≤ n)
      ∧ ∃ s, (system n).Reachable s ∧ (eating s).card = n / 2 := by
  refine ⟨?_, ?_, ?_⟩
  . intro phils
    constructor
    . rintro ⟨s, hreach, rfl⟩
      exact (apart_dining (inv_of_reachable hn hreach)).mono eating_subset_dining
    . intro hapart
      obtain ⟨s, hreach, hseated⟩ := exists_seated hn hapart
      exact ⟨s, hreach, hseated.eating_eq⟩
  . intro s hreach
    exact (apart_dining (inv_of_reachable hn hreach)).two_mul_card_le hn
  . obtain ⟨s, hreach, hseated⟩ := exists_seated hn (apart_everySecond (n := n))
    refine ⟨s, hreach, ?_⟩
    rw [hseated.eating_eq, card_everySecond]

theorem eating_together_five : 2 ≤ 5 ∧ ∃ s, (system 5).Reachable s ∧ (eating s).card = 2 :=
  ⟨by decide, (eating_together (by decide)).2.2⟩

end DnPhil
end ThreadSync
