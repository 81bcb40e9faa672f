import Mathlib.Data.List.Count

/-!
This module contains ledgers of resources that are acquired and released: what is held after a list of
events and the lists of events that balance.
-/

universe u

namespace Ledger

inductive Event (ρ : Type u) where
  | acquire (r : ρ)
  | release (r : ρ)
  deriving DecidableEq

variable {ρ : Type u} [DecidableEq ρ]

/--
What is held after the events, or `none` if one of them releases what is not held.
-/
def settle (held : List ρ) : List (Event ρ) → Option (List ρ)
  | [] => some held
  | .acquire r :: es => settle (r :: held) es
  | .release r :: es => if r ∈ held then settle (held.erase r) es else none

/--
At the end all is held as before, whatever that was. Before may have been nothing, so each release is
for something acquired in the list itself.
-/
def Balanced (es : List (Event ρ)) : Prop :=
  ∀ held, settle held es = some held

variable {held held' : List ρ} {es : List (Event ρ)}

/--
The events do not touch what was held before them.
-/
theorem settle_append (h : settle held es = some held') (before : List ρ) :
    settle (held ++ before) es = some (held' ++ before) := by
  induction es generalizing held with
  | nil =>
    simp only [settle, Option.some.injEq] at h
    simp only [settle, h]
  | cons e es ih =>
    cases e with
    | acquire r => exact ih h
    | release r =>
      simp only [settle, Option.ite_none_right_eq_some] at h
      simp only [settle, List.mem_append, h.1, true_or, if_true, List.erase_append_left before h.1]
      exact ih h.2

theorem balanced_iff : Balanced es ↔ settle [] es = some [] :=
  ⟨fun h => h [], fun h held => settle_append h held⟩

instance (es : List (Event ρ)) : Decidable (Balanced es) :=
  decidable_of_iff' (settle [] es = some []) balanced_iff

theorem count_of_settle (h : settle held es = some held') (r : ρ) :
    held.count r + es.count (.acquire r) = held'.count r + es.count (.release r) := by
  induction es generalizing held with
  | nil =>
    simp only [settle, Option.some.injEq] at h
    simp [h]
  | cons e es ih =>
    cases e with
    | acquire r' =>
      have hcount := ih h
      rw [List.count_cons] at hcount
      simp only [List.count_cons, beq_iff_eq, Event.acquire.injEq, reduceCtorEq, if_false]
      simp only [beq_iff_eq] at hcount
      omega
    | release r' =>
      simp only [settle, Option.ite_none_right_eq_some] at h
      have hcount := ih h.2
      have hmem := List.count_pos_iff.mpr h.1
      rw [List.count_erase] at hcount
      simp only [List.count_cons, beq_iff_eq, Event.release.injEq, reduceCtorEq, if_false]
      simp only [beq_iff_eq] at hcount
      split at hcount
      next heq =>
        subst heq
        rw [if_pos rfl]
        omega
      next hne =>
        rw [if_neg hne]
        omega

theorem Balanced.acquire_mem_iff (h : Balanced es) (r : ρ) : .acquire r ∈ es ↔ .release r ∈ es := by
  have hcount := count_of_settle (h []) r
  simp only [List.count_nil, Nat.zero_add] at hcount
  rw [← List.count_pos_iff, ← List.count_pos_iff, hcount]

end Ledger
