import Mathlib.Data.List.Nodup
import Mathlib.Logic.Function.Basic

/-!
This module contains linked lists in memory: nodes with the records they own, the segments that nodes
form, and which changes of the memory a segment survives.
-/

universe u

namespace LinkedList

abbrev Addr := Nat

structure Node where
  info : Addr
  -- `none` is the null pointer
  next : Option Addr
  deriving DecidableEq

@[ext]
structure Heap (α : Type u) where
  node : Addr → Option Node
  record : Addr → Option α

/--
A node at its address, with the address of its record and what the record contains.
-/
structure Cell (α : Type u) where
  addr : Addr
  info : Addr
  value : α
  deriving DecidableEq

variable {α : Type u}

namespace Heap

variable (h : Heap α)

def empty : Heap α where
  node := fun _ => none
  record := fun _ => none

def setNode (addr : Addr) (node : Node) : Heap α :=
  { h with node := Function.update h.node addr (some node) }

def setRecord (addr : Addr) (value : α) : Heap α :=
  { h with record := Function.update h.record addr (some value) }

-- what is not allocated cannot be freed
def freeNode (addr : Addr) : Option (Heap α) :=
  if (h.node addr).isSome then some { h with node := Function.update h.node addr none } else none

def freeRecord (addr : Addr) : Option (Heap α) :=
  if (h.record addr).isSome then some { h with record := Function.update h.record addr none } else none

-- with the node and the record of `c` freed
def without (c : Cell α) : Heap α where
  node := Function.update h.node c.addr none
  record := Function.update h.record c.info none

variable {h} {addr addr' : Addr} {node : Node} {value : α} {c : Cell α}

theorem setNode_node : (h.setNode addr node).node addr' = if addr' = addr then some node else h.node addr' := by
  simp only [setNode, Function.update_apply]

theorem setRecord_record :
    (h.setRecord addr value).record addr' = if addr' = addr then some value else h.record addr' := by
  simp only [setRecord, Function.update_apply]

theorem without_node : (h.without c).node addr = if addr = c.addr then none else h.node addr := by
  simp only [without, Function.update_apply]

theorem without_record : (h.without c).record addr = if addr = c.info then none else h.record addr := by
  simp only [without, Function.update_apply]

theorem free_eq (hnode : h.node c.addr = some node) (hrecord : h.record c.info = some value) :
    (h.freeRecord c.info).bind (fun h => h.freeNode c.addr) = some (h.without c) := by
  unfold freeRecord
  rw [hrecord, Option.isSome_some, if_pos rfl, Option.bind_some]
  unfold freeNode
  rw [hnode, Option.isSome_some, if_pos rfl]
  rfl

end Heap

inductive Segment (h : Heap α) : Option Addr → List (Cell α) → Option Addr → Prop where
  | nil (p : Option Addr) : Segment h p [] p
  | cons {c : Cell α} {next q : Option Addr} {cs : List (Cell α)}
      (hnode : h.node c.addr = some { info := c.info, next := next })
      (hrecord : h.record c.info = some c.value) (hrest : Segment h next cs q) :
      Segment h (some c.addr) (c :: cs) q

structure Represents (h : Heap α) (head : Option Addr) (cs : List (Cell α)) : Prop where
  segment : Segment h head cs none
  distinct : (cs.map Cell.info).Nodup

variable {h h' : Heap α} {p q r : Option Addr} {c : Cell α} {cs ds : List (Cell α)}

theorem Cell.ne_of_notMem {f : Cell α → Addr} {a : Addr} (ha : a ∉ cs.map f) (hc : c ∈ cs) :
    f c ≠ a := by
  intro heq
  apply ha
  rw [← heq]
  exact List.mem_map_of_mem hc

namespace Segment

theorem append (hcs : Segment h p cs q) (hds : Segment h q ds r) : Segment h p (cs ++ ds) r := by
  induction hcs with
  | nil => exact hds
  | cons hnode hrecord _ ih => exact cons hnode hrecord (ih hds)

theorem split (hseg : Segment h p (cs ++ ds) r) : ∃ q, Segment h p cs q ∧ Segment h q ds r := by
  induction cs generalizing p with
  | nil => exact ⟨p, nil p, hseg⟩
  | cons c cs ih =>
    cases hseg with
    | cons hnode hrecord hrest =>
      obtain ⟨q, hcs, hds⟩ := ih hrest
      exact ⟨q, cons hnode hrecord hcs, hds⟩

theorem singleton {next : Option Addr} (hnode : h.node c.addr = some { info := c.info, next := next })
    (hrecord : h.record c.info = some c.value) : Segment h (some c.addr) [c] next :=
  cons hnode hrecord (nil next)

theorem concat (hseg : Segment h p (cs ++ [c]) q) :
    Segment h p cs (some c.addr) ∧ h.node c.addr = some { info := c.info, next := q }
      ∧ h.record c.info = some c.value := by
  obtain ⟨m, hcs, hc⟩ := hseg.split
  cases hc with
  | cons hnode hrecord hrest =>
    cases hrest
    exact ⟨hcs, hnode, hrecord⟩

theorem congr (hseg : Segment h p cs q) (hnode : ∀ c ∈ cs, h'.node c.addr = h.node c.addr)
    (hrecord : ∀ c ∈ cs, h'.record c.info = h.record c.info) : Segment h' p cs q := by
  induction hseg with
  | nil p => exact nil p
  | cons hc hvalue _ ih =>
    rw [List.forall_mem_cons] at hnode hrecord
    apply cons
    . rw [hnode.1, hc]
    . rw [hrecord.1, hvalue]
    . exact ih hnode.2 hrecord.2

theorem setNode (hseg : Segment h p cs q) {addr : Addr} (node : Node)
    (haddr : addr ∉ cs.map Cell.addr) : Segment (h.setNode addr node) p cs q := by
  apply hseg.congr
  . intro c hc
    rw [Heap.setNode_node, if_neg (Cell.ne_of_notMem haddr hc)]
  . intro c _
    rfl

theorem setRecord (hseg : Segment h p cs q) {info : Addr} {value : α} (hinfo : info ∉ cs.map Cell.info) :
    Segment (h.setRecord info value) p cs q := by
  apply hseg.congr
  . intro c _
    rfl
  . intro c hc
    rw [Heap.setRecord_record, if_neg (Cell.ne_of_notMem hinfo hc)]

theorem without (hseg : Segment h p cs q) (haddr : c.addr ∉ cs.map Cell.addr)
    (hinfo : c.info ∉ cs.map Cell.info) : Segment (h.without c) p cs q := by
  apply hseg.congr
  . intro d hd
    rw [Heap.without_node, if_neg (Cell.ne_of_notMem haddr hd)]
  . intro d hd
    rw [Heap.without_record, if_neg (Cell.ne_of_notMem hinfo hd)]

theorem of_mem (hseg : Segment h p cs q) (hc : c ∈ cs) :
    (∃ next, h.node c.addr = some { info := c.info, next := next })
      ∧ h.record c.info = some c.value := by
  induction hseg with
  | nil => contradiction
  | cons hnode hrecord _ ih =>
    cases hc with
    | head => exact ⟨⟨_, hnode⟩, hrecord⟩
    | tail _ hc => exact ih hc

theorem notMem_of_node (hseg : Segment h p cs q) {addr : Addr} (haddr : h.node addr = none) :
    addr ∉ cs.map Cell.addr := by
  intro hmem
  obtain ⟨c, hc, heq⟩ := List.mem_map.mp hmem
  obtain ⟨⟨next, hnode⟩, _⟩ := hseg.of_mem hc
  rw [heq, haddr] at hnode
  contradiction

theorem notMem_of_record (hseg : Segment h p cs q) {info : Addr} (hinfo : h.record info = none) :
    info ∉ cs.map Cell.info := by
  intro hmem
  obtain ⟨c, hc, heq⟩ := List.mem_map.mp hmem
  obtain ⟨_, hrecord⟩ := hseg.of_mem hc
  rw [heq, hinfo] at hrecord
  contradiction

theorem length_unique (hcs : Segment h p cs none) (hds : Segment h p ds none) :
    cs.length = ds.length := by
  induction cs generalizing p ds with
  | nil =>
    cases hcs
    cases hds
    rfl
  | cons c cs ih =>
    cases hcs with
    | cons hnode hrecord hrest =>
      generalize haddr : some c.addr = p at hds
      cases hds with
      | nil => contradiction
      | cons hnode' hrecord' hrest' =>
        rw [Option.some.injEq] at haddr
        rw [← haddr, hnode, Option.some.injEq, Node.mk.injEq] at hnode'
        rw [← hnode'.2] at hrest'
        rw [List.length_cons, List.length_cons, ih hrest hrest']

/--
What ends in the null pointer has no cycle.
-/
theorem nodup (hseg : Segment h p cs none) : (cs.map Cell.addr).Nodup := by
  induction cs generalizing p with
  | nil => exact List.nodup_nil
  | cons c cs ih =>
    have hsegment := hseg
    cases hseg with
    | cons hnode hrecord hrest =>
      rw [List.map_cons, List.nodup_cons]
      refine ⟨?_, ih hrest⟩
      intro hmem
      obtain ⟨d, hd, haddr⟩ := List.mem_map.mp hmem
      obtain ⟨before, after, hcs⟩ := List.append_of_mem hd
      rw [hcs] at hrest
      obtain ⟨q, _, hagain⟩ := hrest.split
      have hq : q = some d.addr := by
        cases hagain
        rfl
      rw [hq, haddr] at hagain
      have hlength := hsegment.length_unique hagain
      rw [hcs, List.length_cons, List.length_append, List.length_cons] at hlength
      omega

theorem head_eq (hseg : Segment h p (c :: cs) q) : p = some c.addr := by
  cases hseg
  rfl

theorem relink (hseg : Segment h p (cs ++ [c]) q) (hnodup : ((cs ++ [c]).map Cell.addr).Nodup)
    (r : Option Addr) :
    Segment (h.setNode c.addr { info := c.info, next := r }) p (cs ++ [c]) r := by
  obtain ⟨hcs, _, hrecord⟩ := hseg.concat
  have hnotMem : c.addr ∉ cs.map Cell.addr := by
    rw [List.map_append, List.nodup_append] at hnodup
    intro hmem
    exact hnodup.2.2 _ hmem _ (List.mem_singleton_self _) rfl
  apply (hcs.setNode _ hnotMem).append
  apply singleton
  . rw [Heap.setNode_node, if_pos rfl]
  . exact hrecord

end Segment

end LinkedList
