import Mathlib.Data.List.Basic

/-!
This module contains the rule for loops that count an index up to a bound and may fail on the way.
-/

universe u

namespace IndexedLoop

variable {σ : Type u} {body : σ → Nat → Option σ} {s t : σ} {n : Nat}

theorem foldlM_range_succ :
    (List.range (n + 1)).foldlM body s = ((List.range n).foldlM body s).bind fun t => body t n := by
  rw [List.range_succ, List.foldlM_append]
  congr 1
  funext t
  rw [List.foldlM_cons]
  exact bind_pure (body t n)

/--
`P i` holds before the pass with index `i`.
-/
theorem invariant {P : Nat → σ → Prop} (hinit : P 0 s)
    (hstep : ∀ i s t, i < n → P i s → body s i = some t → P (i + 1) t)
    (h : (List.range n).foldlM body s = some t) : P n t := by
  induction n generalizing t with
  | zero =>
    cases h
    exact hinit
  | succ n ih =>
    rw [foldlM_range_succ, Option.bind_eq_some_iff] at h
    have ⟨u, hu, ht⟩ := h
    apply hstep n u t (Nat.lt_succ_self n) _ ht
    apply ih _ hu
    intro i s t hi
    exact hstep i s t (Nat.lt_succ_of_lt hi)

end IndexedLoop
