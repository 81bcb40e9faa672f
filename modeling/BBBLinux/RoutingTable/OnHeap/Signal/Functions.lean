import BBBLinux.RoutingTable.OnHeap.Server.Dispatch
import BBBLinux.RoutingTable.OnHeap.Signal.Impl

/-!
This module shows that without an interruption the functions do what they do in
`RoutingTable.OnHeap.Impl`.
-/

namespace RoutingTable
namespace OnHeap
namespace Signal

open LinkedList

variable {α : Type} (same : α → α → Bool)

theorem toOption_absentBeforeLast (info : α) (h : Heap α) (fuel : Nat) (ptr : Addr) :
    ((absentBeforeLast same info fuel ptr).run h).toOption
      = (OnHeap.absentBeforeLast same info fuel h ptr).map fun result => (h, result) := by
  induction fuel generalizing ptr with
  | zero => rfl
  | succ fuel ih =>
    unfold absentBeforeLast OnHeap.absentBeforeLast
    cases hnode : h.node ptr with
    | none => simp only [Program.run, hnode]; rfl
    | some node =>
      cases hnext : node.next with
      | none =>
        simp only [Program.run, hnode, hnext, Option.bind_eq_bind, Option.bind_some]
        rfl
      | some next =>
        cases hrecord : h.record node.info with
        | none =>
          simp only [Program.run, hnode, hnext, hrecord, Option.bind_eq_bind, Option.bind_some]
          rfl
        | some value =>
          simp only [Program.run, hnode, hnext, hrecord, Option.bind_eq_bind, Option.bind_some]
          split
          . rfl
          . simp only [Program.run, hnode, hnext]
            exact ih next

theorem toOption_search (info : α) (hit miss : Bool) (h : Heap α) (fuel : Nat) (head : Option Addr) :
    ((search (same info) hit miss fuel head).run h).toOption
      = (OnHeap.search same info fuel h head).map fun found => (h, if found = true then hit else miss) := by
  induction fuel generalizing head with
  | zero => cases head <;> rfl
  | succ fuel ih =>
    cases head with
    | none => rfl
    | some ptr =>
      unfold search OnHeap.search
      cases hnode : h.node ptr with
      | none => simp only [Program.run, hnode]; rfl
      | some node =>
        cases hrecord : h.record node.info with
        | none =>
          simp only [Program.run, hnode, hrecord, Option.bind_eq_bind, Option.bind_some]
          rfl
        | some value =>
          simp only [Program.run, hnode, hrecord, Option.bind_eq_bind, Option.bind_some]
          split
          . rfl
          . simp only [Program.run, hnode]
            exact ih node.next

theorem toOption_show (h : Heap α) (fuel : Nat) (head : Option Addr) :
    ((search (fun _ => false) true true fuel head).run h).toOption
      = (entries fuel h head).map fun _ => (h, true) := by
  induction fuel generalizing head with
  | zero => cases head <;> rfl
  | succ fuel ih =>
    cases head with
    | none => rfl
    | some ptr =>
      unfold search entries
      cases hnode : h.node ptr with
      | none => simp only [Program.run, hnode]; rfl
      | some node =>
        cases hrecord : h.record node.info with
        | none =>
          simp only [Program.run, hnode, hrecord, Option.bind_eq_bind, Option.bind_some]
          rfl
        | some value =>
          simp only [Program.run, hnode, hrecord, Option.bind_eq_bind, Option.bind_some,
            Bool.false_eq_true, if_false, ih]
          cases entries fuel h node.next <;> rfl

theorem toOption_condition (info : α) (h : Heap α) (fuel : Nat) (head : Option Addr) (opcode : Opcode) :
    ((condition same fuel head info opcode).run h).toOption
      = (OnHeap.condition same fuel h head info opcode).map fun result => (h, result) := by
  cases opcode with
  | create =>
    cases head with
    | none => rfl
    | some ptr => exact toOption_absentBeforeLast same info h fuel ptr
  | update =>
    have hsearch := toOption_search same info true false h fuel head
    simp only [Bool.if_true_left, Bool.or_false, Bool.decide_eq_true] at hsearch
    exact hsearch
  | delete =>
    cases head with
    | none => rfl
    | some ptr =>
      have hsearch := toOption_search same info true true h fuel (some ptr)
      unfold condition OnHeap.condition
      simp only [ite_self] at hsearch
      dsimp only
      rw [hsearch]
      cases OnHeap.search same info fuel h (some ptr) <;> rfl
  | _ => rfl

theorem toOption_append (head : Option Addr) (temp : Addr) (h : Heap α) (fuel : Nat) (ptr : Addr) :
    ((append head temp fuel ptr).run h).toOption
      = (lastNode h fuel ptr).bind fun ptr => (h.node ptr).map fun node =>
          (h.setNode ptr { node with next := some temp }, head) := by
  induction fuel generalizing ptr with
  | zero => rfl
  | succ fuel ih =>
    unfold append lastNode
    cases hnode : h.node ptr with
    | none => simp only [Program.run, hnode]; rfl
    | some node =>
      cases hnext : node.next with
      | none =>
        simp only [Program.run, hnode, hnext, Option.bind_eq_bind, Option.bind_some]
        rfl
      | some next =>
        simp only [Program.run, hnode, hnext, Option.bind_eq_bind, Option.bind_some]
        exact ih next

theorem toOption_addLast (h : Heap α) (fuel : Nat) (head : Option Addr) (input temp : Addr) :
    ((addLast fuel head input temp).run h).toOption = OnHeap.addLast fuel h head input temp := by
  unfold addLast OnHeap.addLast
  rw [Program.run]
  cases head with
  | none => rfl
  | some ptr =>
    dsimp only
    rw [toOption_append]
    simp only [Option.bind_eq_bind]
    congr 1
    funext ptr
    rw [Option.map_eq_bind]
    rfl

theorem toOption_updateAll (head : Option Addr) (input : Addr) (h : Heap α) (fuel : Nat)
    (ptr : Option Addr) : ((updateAll same head input fuel ptr).run h).toOption
      = (OnHeap.updateAll same input fuel h ptr).map fun h => (h, head) := by
  induction fuel generalizing h ptr with
  | zero => cases ptr <;> rfl
  | succ fuel ih =>
    cases ptr with
    | none => rfl
    | some ptr =>
      unfold updateAll OnHeap.updateAll
      cases hnode : h.node ptr with
      | none => simp only [Program.run, hnode]; rfl
      | some node =>
        cases hrecord : h.record node.info with
        | none =>
          simp only [Program.run, hnode, hrecord, Option.bind_eq_bind, Option.bind_some]
          rfl
        | some info =>
          cases hinput : h.record input with
          | none =>
            simp only [Program.run, hnode, hrecord, hinput, Option.bind_eq_bind, Option.bind_some]
            rfl
          | some value =>
            have hnode' : (h.setRecord node.info value).node ptr = some node := hnode
            simp only [Program.run, hnode, hrecord, hinput, Option.bind_eq_bind, Option.bind_some]
            split
            . simp only [Program.run, hnode, hrecord, hinput, hnode']
              exact ih _ node.next
            . simp only [Program.run, hnode]
              exact ih h node.next

theorem toOption_freeEntry (h : Heap α) (ptr : Addr) (result : Option Addr) :
    ((freeEntry ptr result).run h).toOption = (h.node ptr).bind fun node =>
      (h.freeRecord node.info).bind fun h => (h.freeNode ptr).bind fun h => some (h, result) := by
  unfold freeEntry
  cases hnode : h.node ptr with
  | none => simp only [Program.run, hnode]; rfl
  | some node =>
    cases hrecord : h.freeRecord node.info with
    | none => simp only [Program.run, hnode, hrecord, Option.bind_some]; rfl
    | some h =>
      cases hfree : h.freeNode ptr with
      | none =>
        simp only [Program.run, hnode, hrecord, hfree, Option.bind_some]
        rfl
      | some h' =>
        simp only [Program.run, hnode, hrecord, hfree, Option.bind_some]
        rfl

theorem toOption_removeFirst (input : Addr) (h : Heap α) (fuel : Nat) (head lastPtr : Option Addr)
    (count : Nat) (ptr : Option Addr) :
    ((removeFirst same input fuel head lastPtr count ptr).run h).toOption
      = OnHeap.removeFirst same input fuel h head lastPtr count ptr := by
  induction fuel generalizing lastPtr count ptr with
  | zero => cases ptr <;> rfl
  | succ fuel ih =>
    cases ptr with
    | none => rfl
    | some ptr =>
      unfold removeFirst OnHeap.removeFirst
      cases hnode : h.node ptr with
      | none => simp only [Program.run, hnode]; rfl
      | some node =>
        cases hrecord : h.record node.info with
        | none =>
          simp only [Program.run, hnode, hrecord, Option.bind_eq_bind, Option.bind_some]
          rfl
        | some info =>
          cases hinput : h.record input with
          | none =>
            simp only [Program.run, hnode, hrecord, hinput, Option.bind_eq_bind, Option.bind_some]
            rfl
          | some value =>
            simp only [Program.run, hnode, hrecord, hinput, Option.bind_eq_bind, Option.bind_some]
            split
            . simp only [Program.run, hnode]
              unfold unlink
              split
              . rw [toOption_freeEntry]
                rfl
              . cases lastPtr with
                | none => rfl
                | some last =>
                  simp only [Program.run, hnode, Option.bind_eq_bind, Option.bind_some]
                  cases hlast : h.node last with
                  | none => rfl
                  | some lastNode =>
                    simp only [Option.bind_some]
                    rw [toOption_freeEntry]
            . simp only [Program.run, hnode]
              exact ih _ _ node.next

theorem toOption_freeAll (h : Heap α) (fuel : Nat) (head : Option Addr) :
    ((freeAll fuel head).run h).toOption = (OnHeap.freeAll fuel h head).map fun h => (h, none) := by
  induction fuel generalizing h head with
  | zero => cases head <;> rfl
  | succ fuel ih =>
    cases head with
    | none => rfl
    | some lastPtr =>
      unfold freeAll OnHeap.freeAll
      cases hnode : h.node lastPtr with
      | none => simp only [Program.run, hnode]; rfl
      | some node =>
        simp only [Program.run, hnode, Option.bind_eq_bind, Option.bind_some]
        cases hrecord : h.freeRecord node.info with
        | none => rfl
        | some h' =>
          simp only [Option.bind_some]
          cases hfree : h'.freeNode lastPtr with
          | none => rfl
          | some h'' => exact ih h'' node.next

end Signal
end OnHeap

end RoutingTable
