import BBBLinux.IndexedLoop.Basic
import BBBLinux.RoutingTable.Peers.Lemmas
import BBBLinux.RoutingTable.Peers.Slots
import BBBLinux.RoutingTable.Select.Impl
import Mathlib.Algebra.Order.Ring.Int
import Mathlib.Order.Bounds.Defs

/-!
This module contains what the sets of descriptors are made of, and what one pass through the loop of
the server may do.
-/

namespace RoutingTable

section Sets

variable {fd old new : Int} {slots : List Int} {index i : Nat}

theorem mem_fdSet {readFd : Finset Int} : fd ∈ fdSet new readFd ↔ fd = new ∧ HasBit fd ∨ fd ∈ readFd := by
  unfold fdSet
  split
  . next hbit =>
    rw [Finset.mem_insert]
    constructor
    . rintro (heq | hmem)
      . exact .inl ⟨heq, heq ▸ hbit⟩
      . exact .inr hmem
    . exact Or.imp_left And.left
  . next hbit =>
    constructor
    . exact Or.inr
    . rintro (⟨heq, hfd⟩ | hmem)
      . exact absurd (heq ▸ hfd) hbit
      . exact hmem

theorem HasBit.ne (h : HasBit fd) : fd ≠ -1 := by
  have := h.1
  omega

theorem mem_cloneToFdSet : fd ∈ cloneToFdSet slots ↔ fd ∈ slots ∧ HasBit fd := by
  have hfold (readFd : Finset Int) :
      fd ∈ slots.foldl (fun readFd fd => if fd ≠ -1 then fdSet fd readFd else readFd) readFd
        ↔ fd ∈ readFd ∨ fd ∈ slots ∧ HasBit fd := by
    induction slots generalizing readFd with
    | nil => simp
    | cons slot slots ih =>
      rw [List.foldl_cons, ih, List.mem_cons]
      split
      . rw [mem_fdSet]
        grind
      . next hfree =>
        have hne : HasBit fd → fd ≠ slot := by
          intro hbit heq
          rw [not_not] at hfree
          exact hbit.ne (heq.trans hfree)
        grind
  unfold cloneToFdSet
  rw [hfold]
  simp

theorem isGreatest_maxFd : IsGreatest {fd | fd = -1 ∨ fd ∈ slots ∧ -1 < fd} (maxFd slots) := by
  have hfold (max : Int) :
      IsGreatest {fd | fd = max ∨ fd ∈ slots ∧ max < fd}
        (slots.foldl (fun max fd => if fd > max then fd else max) max) := by
    induction slots generalizing max with
    | nil => simp [IsGreatest, upperBounds]
    | cons slot slots ih =>
      have ⟨hmem, hle⟩ := ih (if slot > max then slot else max)
      simp only [upperBounds, Set.mem_ofPred_eq] at hmem hle
      rw [List.foldl_cons]
      constructor
      . simp only [Set.mem_ofPred_eq, List.mem_cons]
        grind
      . intro fd hfd
        simp only [Set.mem_ofPred_eq, List.mem_cons] at hfd
        grind
  exact hfold (-1)

theorem getElem?_replaceFirst_of_lt (hindex : slots[index]? = some old) (hlt : index < i) :
    (replaceFirst old new slots)[i]? = slots[i]? := by
  induction slots generalizing index i with
  | nil => rfl
  | cons slot slots ih =>
    cases i with
    | zero => contradiction
    | succ i =>
      unfold replaceFirst
      split
      . rfl
      . next hne =>
        cases index with
        | zero =>
          rw [List.getElem?_cons_zero, Option.some.injEq] at hindex
          contradiction
        | succ index =>
          rw [List.getElem?_cons_succ] at hindex ⊢
          apply ih hindex (Nat.lt_of_succ_lt_succ hlt)

theorem getElem?_replaceFirst_of_new (hnew : slots[i]? = some new) :
    (replaceFirst old new slots)[i]? = some new := by
  induction slots generalizing i with
  | nil => contradiction
  | cons slot slots ih =>
    unfold replaceFirst
    cases i with
    | zero =>
      split
      . rfl
      . exact hnew
    | succ i =>
      rw [List.getElem?_cons_succ] at hnew
      split
      . exact hnew
      . apply ih hnew

theorem notMem_removeFromMonitorFdSet (hne : fd ≠ -1) (honce : slots.count fd ≤ 1) :
    fd ∉ removeFromMonitorFdSet slots fd := by
  unfold removeFromMonitorFdSet
  by_cases hmem : fd ∈ slots
  . have hcount := count_replaceFirst (-1) fd hmem
    rw [if_pos rfl, if_neg hne] at hcount
    rw [← List.count_eq_zero]
    omega
  . rw [replaceFirst_of_notMem hmem]
    exact hmem

end Sets

namespace SelectLoop

variable {s s' : SelectLoop} {pass : Pass} {readFd : Finset Int} {index : Nat} {fd : Int}

/--
What the loop over the clients may do at a slot that holds `fd`.
-/
inductive Scans (readFd : Finset Int) (s : SelectLoop) (fd : Int) : SelectLoop → Prop where
  | passed : Scans readFd s fd { s with calls := .fdIsset fd :: s.calls }
  | joined (clientPidSet : List Int) (hfd : 0 ≤ fd ∧ fd ∈ readFd) :
      Scans readFd s fd
        { server := { s.server with clientPidSet := clientPidSet }
          calls := .read fd :: .fdIsset fd :: s.calls }
  | left (clientPidSet : List Int) (hfd : 0 ≤ fd ∧ fd ∈ readFd) :
      Scans readFd s fd
        { server :=
            { s.server with
              clientPidSet := clientPidSet
              monitorFdSet := removeFromMonitorFdSet s.server.monitorFdSet fd }
          calls := .removeFromMonitorFdSet fd :: .read fd :: .fdIsset fd :: s.calls }

theorem scans_of_scanSlot (hlt : s.server.monitorFdSet.getD index (-1) < fdSetsize)
    (h : scanSlot pass readFd s index = some s') :
    Scans readFd s (s.server.monitorFdSet.getD index (-1)) s' := by
  simp only [scanSlot] at h
  generalize s.server.monitorFdSet.getD index (-1) = fd at h hlt
  split at h
  . next hset =>
    split at h
    . contradiction
    . next hfd =>
      rw [RoutingTable.fdIsset, if_pos ⟨not_lt.mp hfd, hlt⟩, decide_eq_true_eq] at hset
      cases hreceived : pass.received index with
      | none =>
        rw [hreceived] at h
        contradiction
      | some received =>
        rw [hreceived, Option.some.injEq] at h
        rw [← h]
        unfold clientData Server.clientData
        dsimp only
        split
        . exact .joined _ ⟨not_lt.mp hfd, hset⟩
        . exact .left _ ⟨not_lt.mp hfd, hset⟩
  . cases h
    exact .passed

def accepted (s : SelectLoop) (pass : Pass) : SelectLoop where
  server := (s.server.accept pass.dataSocket pass.buffer pass.bufferMac).1
  calls := .addToMonitorFdSet pass.dataSocket :: s.calls

theorem accept_eq_some (h : s.accept pass = some s') : pass.dataSocket ≠ -1 ∧ s' = s.accepted pass := by
  unfold accept at h
  dsimp only at h
  split at h
  . contradiction
  . next hne =>
    split at h
    . contradiction
    . cases h
      exact ⟨hne, rfl⟩

theorem console_eq_some (h : s.console pass = some s') :
    s' = { s with server := (s.server.console pass.console pass.line).1 } := by
  unfold console at h
  dsimp only at h
  split at h
  . contradiction
  . cases h
    rfl

theorem next_eq_some (h : s.next pass = some s') :
    let readFd := s.readFd pass.pending
    s.server.connectionSocket ∈ readFd ∧ pass.dataSocket ≠ -1 ∧ s' = s.accepted pass
    ∨ s.server.connectionSocket ∉ readFd ∧ 0 ∈ readFd
      ∧ s' = { s with server := (s.server.console pass.console pass.line).1 }
    ∨ s.server.connectionSocket ∉ readFd ∧ 0 ∉ readFd ∧ s.scan pass readFd = some s' := by
  unfold next at h
  dsimp only at h ⊢
  split at h
  . contradiction
  . split at h
    . next hsocket => exact .inl ⟨hsocket, accept_eq_some h⟩
    . next hsocket =>
      split at h
      . next hconsole => exact .inr (.inl ⟨hsocket, hconsole, console_eq_some h⟩)
      . next hconsole => exact .inr (.inr ⟨hsocket, hconsole, h⟩)

end SelectLoop

end RoutingTable
