import Mathlib.Data.List.Nodup

/-!
This module contains lists of entries that carry a key: replacing the entries of a key, removing the
first one, and what these operations keep of the order of the keys.
-/

universe u v

namespace KeyedList

variable {α : Type u} {κ : Type v} {key : α → κ} {l l' : List α} {a : α}

def UniqueKeys (key : α → κ) (l : List α) : Prop :=
  (l.map key).Nodup

def Spread (key : α → κ) (l : List α) : Prop :=
  ∀ a b c, [a, b, c].Sublist l → key a ≠ key c

theorem UniqueKeys.nil : UniqueKeys key [] :=
  List.nodup_nil

theorem UniqueKeys.append_iff : UniqueKeys key (l ++ [a]) ↔ UniqueKeys key l ∧ ∀ e ∈ l, key e ≠ key a := by
  unfold UniqueKeys
  rw [List.map_append, List.map_singleton, List.nodup_append]
  simp

theorem UniqueKeys.sublist (h : UniqueKeys key l) (hsub : l'.Sublist l) : UniqueKeys key l' :=
  List.Nodup.sublist (hsub.map key) h

theorem mem_dropLast_of_sublist {e b : α} (h : [e, b].Sublist l) : e ∈ l.dropLast := by
  induction l with
  | nil => simp at h
  | cons x l ih =>
    have hne : l ≠ [] := by
      intro hnil
      have := h.length_le
      simp [hnil] at this
    rw [List.dropLast_cons_of_ne_nil hne]
    cases h with
    | cons _ h => apply List.mem_cons_of_mem x (ih h)
    | cons_cons _ h => apply List.mem_cons_self

theorem exists_sublist_of_mem_dropLast {e : α} (h : e ∈ l.dropLast) : ∃ b, [e, b].Sublist l := by
  have hne : l ≠ [] := by
    intro hnil
    rw [hnil] at h
    contradiction
  exists l.getLast hne
  conv => rhs; rw [← List.dropLast_append_getLast hne]
  apply (List.singleton_sublist.mpr h).append (List.Sublist.refl [l.getLast hne])

namespace Spread

theorem nil : Spread key [] := by
  intro a b c h
  simp at h

theorem sublist (h : Spread key l) (hsub : l'.Sublist l) : Spread key l' :=
  fun a b c habc => h a b c (habc.trans hsub)

theorem append (h : Spread key l) (ha : ∀ e ∈ l.dropLast, key e ≠ key a) : Spread key (l ++ [a]) := by
  intro x y z hxyz
  rw [List.sublist_append_iff] at hxyz
  have ⟨l₁, l₂, heq, hl₁, hl₂⟩ := hxyz
  rw [List.sublist_singleton] at hl₂
  cases hl₂ with
  | inl hl₂ =>
    rw [hl₂, List.append_nil] at heq
    rw [← heq] at hl₁
    exact h x y z hl₁
  | inr hl₂ =>
    rw [hl₂] at heq
    have ⟨hxy, hz⟩ := List.append_inj' (show [x, y] ++ [z] = l₁ ++ [a] from heq) rfl
    rw [← hxy] at hl₁
    injection hz with hz
    rw [hz]
    exact ha x (mem_dropLast_of_sublist hl₁)

theorem key_ne_of_append (h : Spread key (l ++ [a])) : ∀ e ∈ l.dropLast, key e ≠ key a := by
  intro e he
  have ⟨b, hb⟩ := exists_sublist_of_mem_dropLast he
  exact h e b a (hb.append (List.Sublist.refl [a]))

end Spread

section

variable [DecidableEq κ] {k : κ}

def update (key : α → κ) (a : α) (l : List α) : List α :=
  l.map fun e => if key e = key a then a else e

def remove (key : α → κ) (k : κ) (l : List α) : List α :=
  l.eraseP fun e => key e = k

theorem key_ite (key : α → κ) (e : α) : key (if key e = key a then a else e) = key e := by
  split
  . next h => exact h.symm
  . rfl

theorem map_key_update : (update key a l).map key = l.map key := by
  unfold update
  rw [List.map_map]
  apply List.map_congr_left
  intro e _
  apply key_ite key e

theorem mem_update {e : α} (h : e ∈ update key a l) : e = a ∨ e ∈ l := by
  unfold update at h
  rw [List.mem_map] at h
  have ⟨e', hmem, he⟩ := h
  split at he
  . exact .inl he.symm
  . right
    rw [← he]
    exact hmem

theorem remove_sublist : (remove key k l).Sublist l :=
  List.eraseP_sublist

theorem mem_remove {e : α} (h : e ∈ remove key k l) : e ∈ l :=
  remove_sublist.subset h

theorem countP_remove_of_ne {k' : κ} (hne : k ≠ k') :
    (remove key k' l).countP (fun e => key e = k) = l.countP (fun e => key e = k) := by
  unfold remove
  rcases List.exists_or_eq_self_of_eraseP (fun e => decide (key e = k')) l with
    hself | ⟨a, l₁, l₂, _, ha, hl, heraseP⟩
  . rw [hself]
  . have hk : key a ≠ k := by
      rw [of_decide_eq_true ha]
      exact Ne.symm hne
    rw [heraseP]
    conv => rhs; rw [hl]
    rw [List.countP_append, List.countP_append, List.countP_cons_of_neg (by simpa using hk)]

theorem remove_eq_self_of_countP
    (h : (remove key k l).countP (fun e => key e = k) = l.countP (fun e => key e = k)) :
    remove key k l = l := by
  unfold remove at h ⊢
  rcases List.exists_or_eq_self_of_eraseP (fun e => decide (key e = k)) l with
    hself | ⟨a, l₁, l₂, _, ha, hl, heraseP⟩
  . exact hself
  . rw [heraseP] at h
    conv at h => rhs; rw [hl]
    rw [List.countP_append, List.countP_append, List.countP_cons, if_pos ha] at h
    omega

/--
Removing different keys only has the same outcome where neither of them is there.
-/
theorem eq_self_of_remove_eq {k' : κ} (hne : k ≠ k') (h : remove key k l = remove key k' l) :
    remove key k l = l := by
  apply remove_eq_self_of_countP
  rw [h]
  exact countP_remove_of_ne hne

theorem UniqueKeys.update (h : UniqueKeys key l) : UniqueKeys key (update key a l) := by
  unfold UniqueKeys
  rw [map_key_update]
  exact h

theorem UniqueKeys.remove (h : UniqueKeys key l) : UniqueKeys key (remove key k l) :=
  h.sublist remove_sublist

theorem UniqueKeys.key_ne_of_mem_remove (h : UniqueKeys key l) {e : α} (he : e ∈ KeyedList.remove key k l) :
    key e ≠ k := by
  induction l with
  | nil => contradiction
  | cons x l ih =>
    simp only [UniqueKeys, List.map_cons, List.nodup_cons, List.mem_map, not_exists, not_and] at h
    unfold KeyedList.remove at he
    by_cases hx : key x = k
    . rw [List.eraseP_cons_of_pos (by simp [hx])] at he
      rw [← hx]
      exact h.1 e he
    . rw [List.eraseP_cons_of_neg (by simp [hx]), List.mem_cons] at he
      cases he with
      | inl he =>
        rw [he]
        exact hx
      | inr he => exact ih h.2 he

theorem Spread.remove (h : Spread key l) : Spread key (remove key k l) :=
  h.sublist remove_sublist

theorem Spread.update (h : Spread key l) : Spread key (update key a l) := by
  intro x y z hxyz
  unfold KeyedList.update at hxyz
  rw [List.sublist_map_iff] at hxyz
  have ⟨l', hsub, hl'⟩ := hxyz
  match l' with
  | [x', y', z'] =>
    simp only [List.map_cons, List.map_nil, List.cons.injEq, and_true] at hl'
    rw [hl'.1, hl'.2.2, key_ite key, key_ite key]
    exact h x' y' z' hsub
  | [] | [_] | [_, _] | _ :: _ :: _ :: _ :: _ => simp at hl'

end

end KeyedList
