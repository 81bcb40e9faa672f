import BBBLinux.Transition.Basic
import BBBLinux.RoutingTable.Table.Lemmas

/-!
This module contains the runs of guarded operations on the two tables. The guard of CREATE does not
look at the last node, so the keys of a table stay unique exactly as long as no CREATE repeats the
key of its last node.
-/

namespace RoutingTable

open CString

def tableSystem : TransitionSystem Tables (Opcode × Entry) :=
  .ofStep (· = Tables.empty) fun t op =>
    if t.check op.1 op.2 = true then some (t.perform op.1 op.2) else none

namespace Tables

structure UniqueKeys (t : Tables) : Prop where
  head : KeyedList.UniqueKeys DataInfo.key t.head
  headMac : KeyedList.UniqueKeys Mac.key t.headMac

def Absent (t : Tables) : Entry → Prop
  | .route info => ∀ e ∈ t.head, e.key ≠ info.key
  | .mac info => ∀ e ∈ t.headMac, e.key ≠ info.key

def RepeatsLast (t : Tables) : Opcode × Entry → Prop
  | (.create, .route info) => ∃ e ∈ t.head.getLast?, e.key = info.key
  | (.create, .mac info) => ∃ e ∈ t.headMac.getLast?, e.key = info.key
  | _ => False

end Tables

section Keys

universe u v

variable {α : Type u} {κ : Type v} {key : α → κ} {l : List α} {a : α}

theorem forall_ne_of_last (hguard : ∀ e ∈ l.dropLast, key e ≠ key a)
    (hlast : ¬∃ e ∈ l.getLast?, key e = key a) : ∀ e ∈ l, key e ≠ key a := by
  intro e he
  cases List.eq_nil_or_concat l with
  | inl hnil =>
    rw [hnil] at he
    contradiction
  | inr hconcat =>
    have ⟨l', x, hl⟩ := hconcat
    rw [List.concat_eq_append] at hl
    rw [hl, List.dropLast_concat] at hguard
    rw [hl, List.mem_append, List.mem_singleton] at he
    cases he with
    | inl he => exact hguard e he
    | inr he =>
      intro heq
      apply hlast
      exists x
      rw [hl, ← he]
      simp [heq]

theorem not_unique_of_last (hlast : ∃ e ∈ l.getLast?, key e = key a) : ¬KeyedList.UniqueKeys key (l ++ [a]) := by
  intro h
  rw [KeyedList.UniqueKeys.append_iff] at h
  have ⟨e, he, hkey⟩ := hlast
  exact h.2 e (List.mem_of_getLast? he) hkey

end Keys

namespace Tables

variable {t t' : Tables} {opcode : Opcode} {e : Entry} {op : Opcode × Entry}

theorem step_iff : tableSystem.step t op t' ↔ t.check op.1 op.2 = true ∧ t' = t.perform op.1 op.2 := by
  simp only [tableSystem, TransitionSystem.ofStep]
  split
  . next h => simp [h, eq_comm]
  . next h => simp [h]

theorem UniqueKeys.perform (h : t.UniqueKeys) (hcheck : t.check opcode e = true)
    (hlast : ¬t.RepeatsLast (opcode, e)) : (t.perform opcode e).UniqueKeys := by
  cases opcode with
  | create =>
    cases e with
    | route info =>
      refine ⟨?_, h.headMac⟩
      simp only [check, checkCondition_create_iff] at hcheck
      simp only [Tables.perform, addLastEntryList_eq, KeyedList.UniqueKeys.append_iff]
      exact ⟨h.head, forall_ne_of_last hcheck hlast⟩
    | mac info =>
      refine ⟨h.head, ?_⟩
      simp only [check, checkConditionMac_create_iff] at hcheck
      simp only [Tables.perform, addLastEntryListMac_eq, KeyedList.UniqueKeys.append_iff]
      exact ⟨h.headMac, forall_ne_of_last hcheck hlast⟩
  | update =>
    cases e with
    | route info =>
      refine ⟨?_, h.headMac⟩
      simp only [Tables.perform, updateEntryTable_eq]
      apply h.head.update
    | mac info =>
      refine ⟨h.head, ?_⟩
      simp only [Tables.perform, updateEntryTableMac_eq]
      apply h.headMac.update
  | delete =>
    cases e with
    | route info =>
      refine ⟨?_, h.headMac⟩
      simp only [Tables.perform, removeNodeList_eq]
      apply h.head.remove
    | mac info =>
      refine ⟨h.head, ?_⟩
      simp only [Tables.perform, removeNodeListMac_eq]
      apply h.headMac.remove
  | flush => exact ⟨.nil, .nil⟩
  | «show» => exact h
  | quit => exact h

theorem UniqueKeys.absent_of_delete (h : t.UniqueKeys) : (t.perform .delete e).Absent e := by
  cases e with
  | route info =>
    intro ptr hptr
    simp only [Tables.perform, removeNodeList_eq] at hptr
    apply h.head.key_ne_of_mem_remove hptr
  | mac info =>
    intro ptr hptr
    simp only [Tables.perform, removeNodeListMac_eq] at hptr
    apply h.headMac.key_ne_of_mem_remove hptr

theorem not_uniqueKeys_of_repeatsLast (h : t.RepeatsLast (opcode, e)) :
    ¬(t.perform opcode e).UniqueKeys := by
  intro hunique
  cases opcode with
  | create =>
    cases e with
    | route info =>
      have := hunique.head
      simp only [Tables.perform, addLastEntryList_eq] at this
      apply not_unique_of_last h this
    | mac info =>
      have := hunique.headMac
      simp only [Tables.perform, addLastEntryListMac_eq] at this
      apply not_unique_of_last h this
  | _ => exact h

end Tables

theorem unique_keys_unless_last_repeated (t : Tables) :
    (tableSystem.ReachableVia (fun t op => ¬t.RepeatsLast op) t →
        t.UniqueKeys ∧ ∀ e t', tableSystem.step t (.delete, e) t' → t'.Absent e)
      ∧ ∀ op t', t.RepeatsLast op → tableSystem.step t op t' → ¬t'.UniqueKeys := by
  constructor
  . intro h
    have hunique : t.UniqueKeys := by
      apply h.invariant
      . intro t ht
        have ht : t = Tables.empty := ht
        rw [ht]
        exact ⟨.nil, .nil⟩
      . intro t op t' ht hlast hstep
        rw [Tables.step_iff] at hstep
        rw [hstep.2]
        apply ht.perform hstep.1 hlast
    refine ⟨hunique, ?_⟩
    intro e t' hstep
    rw [Tables.step_iff] at hstep
    rw [hstep.2]
    apply hunique.absent_of_delete
  . intro op t' hlast hstep
    rw [Tables.step_iff] at hstep
    rw [hstep.2]
    apply Tables.not_uniqueKeys_of_repeatsLast hlast

def createRoute : Opcode × Entry :=
  (.create, .route (.ofMem (text "10.0.0.1")))

def oneRoute : Tables :=
  Tables.empty.perform .create createRoute.2

theorem unique_keys_unless_last_repeated_createRoute :
    oneRoute.UniqueKeys ∧ ¬(oneRoute.perform .create createRoute.2).UniqueKeys := by
  constructor
  . apply ((unique_keys_unless_last_repeated oneRoute).1 _).1
    apply TransitionSystem.ReachableVia.step (i := createRoute) (.init rfl)
    . simp [createRoute, Tables.RepeatsLast, Tables.empty]
    . rfl
  . apply (unique_keys_unless_last_repeated oneRoute).2 createRoute
    . exact ⟨.ofMem (text "10.0.0.1"), rfl, rfl⟩
    . rfl

theorem createRoute_twice :
    ¬∀ t, tableSystem.Reachable t →
        t.UniqueKeys ∧ ∀ e t', tableSystem.step t (.delete, e) t' → t'.Absent e := by
  intro h
  have hone : tableSystem.Reachable oneRoute := .step (i := createRoute) (.init rfl) trivial rfl
  have htwo := (h (oneRoute.perform .create createRoute.2) (.step (i := createRoute) hone trivial rfl)).1
  apply Tables.not_uniqueKeys_of_repeatsLast _ htwo
  exact ⟨.ofMem (text "10.0.0.1"), rfl, rfl⟩

end RoutingTable
