import BBBLinux.LinkedList.Surgery
import Mathlib.Tactic.Tauto

/-!
This module contains the account of a memory that holds one linked list: which of its blocks belong to
the list and which are lost, because they are allocated and nothing points to them.
-/

universe u v

namespace LinkedList

variable {α : Type u} {κ : Type v} [DecidableEq κ] {key : α → κ}

/--
The blocks in memory are the nodes of the list with their records, and the records at `lost`.
-/
structure Accounts (h : Heap α) (head : Option Addr) (cs : List (Cell α)) (lost : List Addr) : Prop
    extends Represents h head cs where
  node : ∀ p, h.node p = none ↔ p ∉ cs.map Cell.addr
  record : ∀ r, h.record r = none ↔ r ∉ cs.map Cell.info ∧ r ∉ lost
  nodup : (cs.map Cell.info ++ lost).Nodup

theorem perm_found_rest {β : Type u} {p : β → Bool} {l : List β} :
    l.Perm ((l.find? p).toList ++ l.eraseP p) := by
  induction l with
  | nil => exact .nil
  | cons b l ih =>
    rw [List.find?_cons, List.eraseP_cons]
    cases p b with
    | true => exact List.Perm.refl _
    | false => exact (ih.cons b).trans List.perm_middle.symm

namespace Accounts

variable {h : Heap α} {head : Option Addr} {cs : List (Cell α)} {lost : List Addr} {input : Addr}
  {value : α}

theorem empty : Accounts (Heap.empty : Heap α) none [] [] :=
  ⟨⟨.nil none, List.nodup_nil⟩, by simp [Heap.empty], by simp [Heap.empty], List.nodup_nil⟩

theorem allocate (haccounts : Accounts h head cs lost) (hfresh : h.record input = none) (value : α) :
    Accounts (h.setRecord input value) head cs (input :: lost) := by
  obtain ⟨hnotMem, hlost⟩ := (haccounts.record input).mp hfresh
  refine ⟨⟨haccounts.segment.setRecord hnotMem, haccounts.distinct⟩, haccounts.node, ?_, ?_⟩
  . intro r
    rw [Heap.setRecord_record, List.mem_cons]
    split
    . next heq => simp [heq]
    . next hne => rw [haccounts.record, not_or, and_iff_right hne]
  . rw [List.nodup_middle]
    exact List.nodup_cons.mpr ⟨by simp [hnotMem, hlost], haccounts.nodup⟩

theorem append {add : Nat → Heap α → Option Addr → Addr → Addr → Option (Heap α × Option Addr)}
    (hadd : AppendsLast add) (haccounts : Accounts h head cs (input :: lost))
    (hinput : h.record input = some value) {temp : Addr} (htemp : h.node temp = none) :
    ∃ h' head', Runs (fun fuel => add fuel h head input temp) (h', head')
      ∧ Accounts h' head' (cs ++ [{ addr := temp, info := input, value := value }]) lost := by
  obtain ⟨h', head', hrun, hsegment, hrecord, hnode⟩ :=
    hadd h head cs input temp value haccounts.toRepresents hinput htemp
  have hnodup := haccounts.nodup
  rw [List.nodup_middle, List.nodup_cons, List.mem_append, not_or] at hnodup
  obtain ⟨⟨hnotMem, hlost⟩, hnodup⟩ := hnodup
  have hinfos : (cs ++ [({ addr := temp, info := input, value := value } : Cell α)]).map Cell.info
      = cs.map Cell.info ++ [input] := by
    rw [List.map_append]
    rfl
  have hall : (cs.map Cell.info ++ [input] ++ lost).Nodup := by
    rw [List.append_assoc, List.singleton_append, List.nodup_middle, List.nodup_cons,
      List.mem_append, not_or]
    exact ⟨⟨hnotMem, hlost⟩, hnodup⟩
  refine ⟨h', head', hrun, ⟨hsegment, ?_⟩, ?_, ?_, ?_⟩
  . rw [hinfos]
    exact (List.nodup_append.mp hall).1
  . intro p
    constructor
    . intro hfree hmem
      obtain ⟨c, hc, heq⟩ := List.mem_map.mp hmem
      obtain ⟨⟨next, hused⟩, _⟩ := hsegment.of_mem hc
      rw [heq, hfree] at hused
      contradiction
    . intro hnotMem
      rw [List.map_append, List.mem_append, not_or] at hnotMem
      have htemp : p ≠ temp := fun heq => hnotMem.2 (by simp [heq])
      rw [hnode p htemp hnotMem.1, haccounts.node]
      exact hnotMem.1
  . intro r
    rw [hrecord, haccounts.record, hinfos, List.mem_append, List.mem_singleton, List.mem_cons]
    simp only [not_or, and_assoc]
  . rw [hinfos]
    exact hall

theorem update {change : Nat → Heap α → Option Addr → Addr → Option (Heap α × Option Addr)}
    (hchange : UpdatesAll key change) (haccounts : Accounts h head cs lost)
    (hinput : h.record input = some value) :
    ∃ h' head', Runs (fun fuel => change fuel h head input) (h', head')
      ∧ Accounts h' head' (cs.map (Cell.overwrite key value)) lost := by
  obtain ⟨h', hrun, hlist, _, hnode, hrecord⟩ :=
    hchange h head cs input value haccounts.toRepresents hinput
  have haddrs : (cs.map (Cell.overwrite key value)).map Cell.addr = cs.map Cell.addr := by
    rw [List.map_map]
    exact List.map_congr_left fun c _ => Cell.overwrite_addr
  have hinfos : (cs.map (Cell.overwrite key value)).map Cell.info = cs.map Cell.info := by
    rw [List.map_map]
    exact List.map_congr_left fun c _ => Cell.overwrite_info
  refine ⟨h', head, hrun, hlist, ?_, ?_, ?_⟩
  . rw [hnode, haddrs]
    exact haccounts.node
  . intro r
    rw [hinfos]
    by_cases hmem : r ∈ cs.map Cell.info
    . rw [← hinfos, List.mem_map] at hmem
      obtain ⟨c, hc, heq⟩ := hmem
      obtain ⟨_, hused⟩ := hlist.segment.of_mem hc
      rw [heq] at hused
      rw [hused, ← hinfos, ← heq]
      simp only [reduceCtorEq, false_iff, not_and]
      exact fun hnotMem => absurd (List.mem_map_of_mem hc) hnotMem
    . rw [hrecord r hmem, haccounts.record]
  . rw [hinfos]
    exact haccounts.nodup

/--
What is taken out of a list and freed is no longer in memory.
-/
theorem of_freed {h' : Heap α} {head' : Option Addr} {freed rest : List (Cell α)}
    (haccounts : Accounts h head cs lost) (hperm : cs.Perm (freed ++ rest))
    (hlist : Represents h' head' rest) (hfreed : Freed h h' freed) : Accounts h' head' rest lost := by
  have haddrs := (hperm.map Cell.addr).nodup_iff.mp haccounts.segment.nodup
  have hinfos := ((hperm.map Cell.info).append_right lost).nodup_iff.mp haccounts.nodup
  rw [List.map_append] at haddrs hinfos
  rw [List.append_assoc] at hinfos
  have hmemAddr (p : Addr) : p ∈ cs.map Cell.addr ↔ p ∈ freed.map Cell.addr ∨ p ∈ rest.map Cell.addr := by
    rw [(hperm.map Cell.addr).mem_iff, List.map_append, List.mem_append]
  have hmemInfo (r : Addr) : r ∈ cs.map Cell.info ↔ r ∈ freed.map Cell.info ∨ r ∈ rest.map Cell.info := by
    rw [(hperm.map Cell.info).mem_iff, List.map_append, List.mem_append]
  refine ⟨hlist, ?_, ?_, (List.nodup_append.mp hinfos).2.1⟩
  . intro p
    rw [hfreed.node, haccounts.node, hmemAddr]
    have hdisjoint := (List.nodup_append.mp haddrs).2.2 p
    constructor
    . intro hfree hrest
      cases hfree with
      | inl hnone => exact hnone (.inr hrest)
      | inr hmem => exact hdisjoint hmem p hrest rfl
    . intro hrest
      by_cases hmem : p ∈ freed.map Cell.addr
      . exact .inr hmem
      . exact .inl (not_or.mpr ⟨hmem, hrest⟩)
  . intro r
    have hdisjoint := (List.nodup_append.mp hinfos).2.2 r
    rw [hfreed.record]
    split
    . next hmem =>
      rw [eq_self, true_iff]
      exact ⟨fun hrest => hdisjoint hmem r (List.mem_append_left _ hrest) rfl,
        fun hlost => hdisjoint hmem r (List.mem_append_right _ hlost) rfl⟩
    . next hnotMem => rw [haccounts.record, hmemInfo, not_or, and_iff_right hnotMem]

theorem remove {takeOut : Nat → Heap α → Option Addr → Addr → Option (Heap α × Option Addr)}
    (hremove : RemovesFirst key takeOut) (haccounts : Accounts h head cs lost)
    (hinput : h.record input = some value) :
    ∃ h' head', Runs (fun fuel => takeOut fuel h head input) (h', head')
      ∧ Accounts h' head' (cs.eraseP fun c => decide (key c.value = key value)) lost := by
  obtain ⟨h', head', hrun, hlist, hfreed, _⟩ :=
    hremove h head cs input value haccounts.toRepresents hinput
  exact ⟨h', head', hrun, haccounts.of_freed perm_found_rest hlist hfreed⟩

theorem flush {freeList : Nat → Heap α → Option Addr → Option (Heap α × Option Addr)}
    (hflush : FreesAll freeList) (haccounts : Accounts h head cs lost) :
    ∃ h', Runs (fun fuel => freeList fuel h head) (h', none) ∧ Accounts h' none [] lost := by
  obtain ⟨h', hrun, hfreed, _⟩ := hflush h head cs haccounts.toRepresents
  refine ⟨h', hrun, haccounts.of_freed ?_ ⟨.nil none, List.nodup_nil⟩ hfreed⟩
  rw [List.append_nil]

end Accounts

/--
The memory holds the list and `n` lost records.
-/
def HoldsLost (h : Heap α) (head : Option Addr) (l : List α) (n : Nat) : Prop :=
  ∃ cs lost, Accounts h head cs lost ∧ cs.map Cell.value = l ∧ lost.length = n

/--
Moreover it holds the record at `input`, which has just been allocated.
-/
def Pending (h : Heap α) (head : Option Addr) (l : List α) (n : Nat) (input : Addr) (value : α) : Prop :=
  h.record input = some value
    ∧ ∃ cs lost, Accounts h head cs (input :: lost) ∧ cs.map Cell.value = l ∧ lost.length = n

section

variable {h : Heap α} {head : Option Addr} {l : List α} {n : Nat} {input : Addr} {value : α}

theorem HoldsLost.empty : HoldsLost (Heap.empty : Heap α) none [] 0 :=
  ⟨[], [], .empty, rfl, rfl⟩

theorem HoldsLost.allocate (hholds : HoldsLost h head l n) (hfresh : h.record input = none) (value : α) :
    Pending (h.setRecord input value) head l n input value := by
  obtain ⟨cs, lost, haccounts, hvalues, hlength⟩ := hholds
  refine ⟨?_, cs, lost, haccounts.allocate hfresh value, hvalues, hlength⟩
  rw [Heap.setRecord_record, if_pos rfl]

theorem HoldsLost.flush {freeList : Nat → Heap α → Option Addr → Option (Heap α × Option Addr)}
    (hflush : FreesAll freeList) (hholds : HoldsLost h head l n) :
    ∃ h', Runs (fun fuel => freeList fuel h head) (h', none) ∧ HoldsLost h' none [] n := by
  obtain ⟨cs, lost, haccounts, _, hlength⟩ := hholds
  obtain ⟨h', hrun, haccounts'⟩ := haccounts.flush hflush
  exact ⟨h', hrun, [], lost, haccounts', rfl, hlength⟩

/--
Of every entry the memory has two blocks.
-/
theorem HoldsLost.blocks (hholds : HoldsLost h head l n) : ∃ nodes records : List Addr,
    (nodes.Nodup ∧ ∀ p, p ∈ nodes ↔ h.node p ≠ none) ∧ (records.Nodup ∧ ∀ r, r ∈ records ↔ h.record r ≠ none)
      ∧ nodes.length + records.length = 2 * l.length + n := by
  obtain ⟨cs, lost, haccounts, rfl, rfl⟩ := hholds
  refine ⟨cs.map Cell.addr, cs.map Cell.info ++ lost, ⟨haccounts.segment.nodup, ?_⟩,
    ⟨haccounts.nodup, ?_⟩, ?_⟩
  . intro p
    rw [ne_eq, haccounts.node, not_not]
  . intro r
    rw [ne_eq, haccounts.record, List.mem_append]
    tauto
  . simp only [List.length_append, List.length_map]
    omega

namespace Pending

theorem lose (hpending : Pending h head l n input value) : HoldsLost h head l (n + 1) := by
  obtain ⟨_, cs, lost, haccounts, hvalues, hlength⟩ := hpending
  refine ⟨cs, input :: lost, haccounts, hvalues, ?_⟩
  rw [List.length_cons, hlength]

theorem append {add : Nat → Heap α → Option Addr → Addr → Addr → Option (Heap α × Option Addr)}
    (hadd : AppendsLast add) (hpending : Pending h head l n input value) {temp : Addr}
    (htemp : h.node temp = none) :
    ∃ h' head', Runs (fun fuel => add fuel h head input temp) (h', head')
      ∧ HoldsLost h' head' (l ++ [value]) n := by
  obtain ⟨hinput, cs, lost, haccounts, hvalues, hlength⟩ := hpending
  obtain ⟨h', head', hrun, haccounts'⟩ := haccounts.append hadd hinput htemp
  refine ⟨h', head', hrun, _, lost, haccounts', ?_, hlength⟩
  rw [List.map_append, hvalues]
  rfl

theorem update {change : Nat → Heap α → Option Addr → Addr → Option (Heap α × Option Addr)}
    (hchange : UpdatesAll key change) (hpending : Pending h head l n input value) :
    ∃ h' head', Runs (fun fuel => change fuel h head input) (h', head')
      ∧ HoldsLost h' head' (l.map fun a => if key a = key value then value else a) (n + 1) := by
  obtain ⟨hinput, cs, lost, haccounts, hvalues, hlength⟩ := hpending
  obtain ⟨h', head', hrun, haccounts'⟩ := haccounts.update hchange hinput
  refine ⟨h', head', hrun, _, input :: lost, haccounts', ?_, ?_⟩
  . rw [← hvalues, List.map_map, List.map_map]
    apply List.map_congr_left
    intro c _
    exact Cell.overwrite_value
  . rw [List.length_cons, hlength]

theorem remove {takeOut : Nat → Heap α → Option Addr → Addr → Option (Heap α × Option Addr)}
    (hremove : RemovesFirst key takeOut) (hpending : Pending h head l n input value) :
    ∃ h' head', Runs (fun fuel => takeOut fuel h head input) (h', head')
      ∧ HoldsLost h' head' (l.eraseP fun a => decide (key a = key value)) (n + 1) := by
  obtain ⟨hinput, cs, lost, haccounts, hvalues, hlength⟩ := hpending
  obtain ⟨h', head', hrun, haccounts'⟩ := haccounts.remove hremove hinput
  refine ⟨h', head', hrun, _, input :: lost, haccounts', ?_, ?_⟩
  . rw [← hvalues, List.eraseP_map]
    rfl
  . rw [List.length_cons, hlength]

end Pending

end

end LinkedList
