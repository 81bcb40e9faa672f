import BBBLinux.RoutingTable.Peers.Impl

/-!
This module contains the arrays of slots in which the server keeps descriptors and PIDs, where -1 marks
a free slot.
-/

namespace RoutingTable

section Slots

variable {old new x : Int} {slots : List Int}

theorem count_replaceFirst (new x : Int) (h : old ∈ slots) :
    (replaceFirst old new slots).count x + (if x = old then 1 else 0)
      = slots.count x + if x = new then 1 else 0 := by
  induction slots with
  | nil => contradiction
  | cons slot slots ih =>
    unfold replaceFirst
    split
    . next heq =>
      rw [heq, List.count_cons, List.count_cons]
      simp only [beq_iff_eq, eq_comm (b := x)]
      omega
    . next hne =>
      rw [List.mem_cons] at h
      specialize ih (h.resolve_left (Ne.symm hne))
      rw [List.count_cons, List.count_cons]
      omega

theorem mem_replaceFirst (h : x ∈ replaceFirst old new slots) : x = new ∨ x ∈ slots := by
  induction slots with
  | nil => contradiction
  | cons slot slots ih =>
    unfold replaceFirst at h
    split at h
    . rw [List.mem_cons] at h ⊢
      apply Or.imp_right Or.inr h
    . rw [List.mem_cons] at h ⊢
      cases h with
      | inl h => exact .inr (.inl h)
      | inr h => apply Or.imp_right Or.inr (ih h)

theorem mem_replaceFirst_of_mem (h : x ∈ slots) (hne : x ≠ old) : x ∈ replaceFirst old new slots := by
  induction slots with
  | nil => contradiction
  | cons slot slots ih =>
    unfold replaceFirst
    rw [List.mem_cons] at h
    split
    . next heq =>
      rw [List.mem_cons]
      exact .inr (h.resolve_left fun hx => hne (hx.trans heq))
    . rw [List.mem_cons]
      apply Or.imp_right ih h

theorem new_mem_replaceFirst (h : old ∈ slots) : new ∈ replaceFirst old new slots := by
  induction slots with
  | nil => contradiction
  | cons slot slots ih =>
    unfold replaceFirst
    split
    . apply List.mem_cons_self
    . next hne =>
      rw [List.mem_cons] at h
      apply List.mem_cons_of_mem
      apply ih (h.resolve_left (Ne.symm hne))

theorem replaceFirst_of_notMem (h : old ∉ slots) : replaceFirst old new slots = slots := by
  induction slots with
  | nil => rfl
  | cons slot slots ih =>
    rw [List.mem_cons, not_or] at h
    rw [replaceFirst, if_neg (Ne.symm h.1), ih h.2]

@[simp]
theorem length_replaceFirst : (replaceFirst old new slots).length = slots.length := by
  induction slots with
  | nil => rfl
  | cons slot slots ih =>
    unfold replaceFirst
    split
    . rfl
    . rw [List.length_cons, ih, List.length_cons]

theorem count_replaceFirst_of_ne (hold : x ≠ old) (hnew : x ≠ new) :
    (replaceFirst old new slots).count x = slots.count x := by
  by_cases h : old ∈ slots
  . have hcount := count_replaceFirst new x h
    rw [if_neg hold, if_neg hnew] at hcount
    exact hcount
  . rw [replaceFirst_of_notMem h]

theorem checkAvailablePid_iff : checkAvailablePid slots x = true ↔ x ∉ slots := by
  simp only [checkAvailablePid, List.all_eq_true, decide_eq_true_eq]
  constructor
  . intro h hmem
    exact h x hmem rfl
  . intro h pid hpid heq
    rw [heq] at hpid
    contradiction

theorem Server.count_clientFds {s : Server} (hpos : 0 < x) (hne : x ≠ s.connectionSocket) :
    s.clientFds.count x = s.monitorFdSet.count x := by
  unfold clientFds
  apply List.count_filter
  simp
  omega

theorem length_clientFds_le {s : Server} (hsocket : 0 < s.connectionSocket) (hzero : 0 ∈ s.monitorFdSet)
    (hmem : s.connectionSocket ∈ s.monitorFdSet) : s.clientFds.length + 2 ≤ s.monitorFdSet.length := by
  have hcounts (l : List Int) :
      (l.filter fun fd => fd ≠ -1 && fd ≠ 0 && fd ≠ s.connectionSocket).length
        + l.count 0 + l.count s.connectionSocket ≤ l.length := by
    induction l with
    | nil => simp
    | cons fd l ih =>
      simp only [List.filter_cons, List.count_cons, List.length_cons, beq_iff_eq, Bool.and_eq_true,
        decide_eq_true_eq, apply_ite List.length]
      split <;> split <;> split <;> omega
  have := hcounts s.monitorFdSet
  rw [← List.count_pos_iff] at hzero hmem
  unfold Server.clientFds
  omega

end Slots

end RoutingTable
