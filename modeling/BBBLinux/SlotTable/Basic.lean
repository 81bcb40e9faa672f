import Mathlib.Data.Multiset.Basic

/-!
This module contains tables of slots that are kept in two arrays, one for the keys and one for the
values. In which slot a key is found does not matter, so a table is read as the multiset of its slots.
-/

universe u v

namespace SlotTable

variable {α : Type u} {β : Type v} {keys : List α} {values : List β} {i : Nat} {k k' : α} {v v' : β}
  {m : Multiset (α × β)}

def slots (keys : List α) (values : List β) : Multiset (α × β) :=
  keys.zip values

@[simp]
theorem slots_cons : slots (k :: keys) (v :: values) = (k, v) ::ₘ slots keys values := rfl

theorem mem_slots (hk : keys[i]? = some k) (hv : values[i]? = some v) : (k, v) ∈ slots keys values := by
  induction keys generalizing values i with
  | nil => simp at hk
  | cons key keys ih =>
    cases values with
    | nil => simp at hv
    | cons value values =>
      rw [slots_cons, Multiset.mem_cons]
      cases i with
      | zero =>
        left
        simp at hk hv
        rw [hk, hv]
      | succ i =>
        right
        apply ih
        . exact hk
        . exact hv

theorem exchange (h : (k, v) ::ₘ slots keys values = (k', v') ::ₘ (k, v) ::ₘ m) :
    slots keys values = (k', v') ::ₘ m := by
  rw [Multiset.cons_swap, Multiset.cons_inj_right] at h
  exact h

theorem cons_slots_set (hk : keys[i]? = some k) (hv : values[i]? = some v) (v' : β) :
    (k, v) ::ₘ slots keys (values.set i v') = (k, v') ::ₘ slots keys values := by
  induction keys generalizing values i with
  | nil => simp at hk
  | cons key keys ih =>
    cases values with
    | nil => simp at hv
    | cons value values =>
      cases i with
      | zero =>
        simp at hk hv
        rw [hk, hv, List.set_cons_zero, slots_cons, slots_cons, Multiset.cons_swap]
      | succ i =>
        have hrest := ih hk hv
        rw [List.set_cons_succ, slots_cons, slots_cons, Multiset.cons_swap, hrest, Multiset.cons_swap]

theorem slots_set (hk : keys[i]? = some k) (hv : values[i]? = some v)
    (h : slots keys values = (k, v) ::ₘ m) (v' : β) :
    slots keys (values.set i v') = (k, v') ::ₘ m := by
  have hset := cons_slots_set hk hv v'
  rw [h] at hset
  exact exchange hset

variable [DecidableEq α]

theorem cons_slots_replace (hmem : k ∈ keys) (hlength : keys.length ≤ values.length) (k' : α) :
    ∃ v, (k, v) ∈ slots keys values
      ∧ (k, v) ::ₘ slots (keys.replace k k') values = (k', v) ::ₘ slots keys values := by
  induction keys generalizing values with
  | nil => simp at hmem
  | cons key keys ih =>
    cases values with
    | nil => simp at hlength
    | cons value values =>
      by_cases hkey : k = key
      . exists value
        rw [← hkey, List.replace_cons_self, slots_cons, slots_cons, Multiset.cons_swap]
        exact ⟨Multiset.mem_cons_self _ _, rfl⟩
      . have hrest : k ∈ keys := List.mem_of_ne_of_mem hkey hmem
        have ⟨v, hv, hslots⟩ := ih hrest (Nat.le_of_succ_le_succ hlength)
        have hreplace : (key :: keys).replace k k' = key :: keys.replace k k' := by
          have hbeq : (k == key) = false := beq_false_of_ne hkey
          rw [List.replace_cons, hbeq]
        exists v
        rw [hreplace, slots_cons, slots_cons, Multiset.cons_swap, hslots, Multiset.cons_swap]
        exact ⟨Multiset.mem_cons_of_mem hv, rfl⟩

/--
When only one slot has the key, it is the one that changes.
-/
theorem slots_replace (hmem : k ∈ keys) (hlength : keys.length ≤ values.length)
    (h : slots keys values = (k, v) ::ₘ m) (hunique : ∀ v', (k, v') ∈ m → v' = v) (k' : α) :
    slots (keys.replace k k') values = (k', v) ::ₘ m := by
  have ⟨v', hv', hslots⟩ := cons_slots_replace hmem hlength k'
  have hv : v' = v := by
    rw [h, Multiset.mem_cons] at hv'
    rcases hv' with heq | hv'
    . exact (Prod.mk.inj heq).2
    . exact hunique v' hv'
  rw [hv, h] at hslots
  exact exchange hslots

end SlotTable
