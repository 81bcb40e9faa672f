import BBBLinux.LinkedList.Surgery
import BBBLinux.RoutingTable.Table.Impl
import BBBLinux.Transition.Basic

/-!
This module contains the operations of `common.c` and `common_mac.c` on the tables as they are in memory:
linked lists whose nodes point to their entries. `RoutingTable.Table.Impl` has them on lists.
-/

namespace RoutingTable
namespace OnHeap

open CString LinkedList

section Loops

variable {α : Type} (same : α → α → Bool)

def lastNode (h : Heap α) : Nat → Addr → Option Addr
  | 0, _ => none
  | fuel + 1, ptr => do
    let node ← h.node ptr
    match node.next with
    | none => some ptr
    | some next => lastNode h fuel next

def addLast (fuel : Nat) (h : Heap α) (head : Option Addr) (inputEntryInfo temp : Addr) :
    Option (Heap α × Option Addr) :=
  -- `create_new_entrydir_node`, where `malloc` returns `temp`
  let h := h.setNode temp { info := inputEntryInfo, next := none }
  match head with
  | none => some (h, some temp)
  | some ptr => do
    let ptr ← lastNode h fuel ptr
    let node ← h.node ptr
    some (h.setNode ptr { node with next := some temp }, head)

def updateAll (inputEntryInfo : Addr) : Nat → Heap α → Option Addr → Option (Heap α)
  | _, h, none => some h
  | 0, _, some _ => none
  | fuel + 1, h, some ptr => do
    let node ← h.node ptr
    let info ← h.record node.info
    let input ← h.record inputEntryInfo
    let h := if same input info = true then h.setRecord node.info input else h
    updateAll inputEntryInfo fuel h node.next

def unlink (h : Heap α) (head lastPtr : Option Addr) (count : Nat) (next : Option Addr) :
    Option (Heap α × Option Addr) :=
  if count = 0 then
    some (h, next)
  else do
    let lastPtr ← lastPtr
    let last ← h.node lastPtr
    some (h.setNode lastPtr { last with next := next }, head)

/--
`last_ptr` has no value until the loop has advanced.
-/
def removeFirst (inputEntryInfo : Addr) :
    Nat → Heap α → (head lastPtr : Option Addr) → (count : Nat) → (ptr : Option Addr) →
      Option (Heap α × Option Addr)
  | _, h, head, _, _, none => some (h, head)
  | 0, _, _, _, _, some _ => none
  | fuel + 1, h, head, lastPtr, count, some ptr => do
    let node ← h.node ptr
    let info ← h.record node.info
    let input ← h.record inputEntryInfo
    if same input info = true then
      let (h, head) ← unlink h head lastPtr count node.next
      let node ← h.node ptr
      let h ← h.freeRecord node.info
      let h ← h.freeNode ptr
      some (h, head)
    else
      removeFirst inputEntryInfo fuel h head (some ptr) (count + 1) node.next

def freeAll : Nat → Heap α → Option Addr → Option (Heap α)
  | _, h, none => some h
  | 0, _, some _ => none
  | fuel + 1, h, some lastPtr => do
    let node ← h.node lastPtr
    let h ← h.freeRecord node.info
    let h ← h.freeNode lastPtr
    freeAll fuel h node.next

def absentBeforeLast (info : α) : Nat → Heap α → Addr → Option Bool
  | 0, _, _ => none
  | fuel + 1, h, ptr => do
    let node ← h.node ptr
    match node.next with
    | none => some true
    | some next => do
      let value ← h.record node.info
      if same info value = true then
        some false
      else
        absentBeforeLast info fuel h next

def search (info : α) : Nat → Heap α → Option Addr → Option Bool
  | _, _, none => some false
  | 0, _, some _ => none
  | fuel + 1, h, some ptr => do
    let node ← h.node ptr
    let value ← h.record node.info
    if same info value = true then
      some true
    else
      search info fuel h node.next

def condition (fuel : Nat) (h : Heap α) (head : Option Addr) (info : α) : Opcode → Option Bool
  | .create =>
    match head with
    | none => some true
    | some ptr => absentBeforeLast same info fuel h ptr
  | .update => search same info fuel h head
  | .delete =>
    match head with
    | none => some false
    | some ptr => do
      -- `ret_val` is true whether the loop finds the entry or not
      let _ ← search same info fuel h (some ptr)
      some true
  | _ => some true

end Loops

def addLastEntryList (fuel : Nat) (h : Heap DataInfo) (head : Option Addr) (inputEntryInfo temp : Addr) :
    Option (Heap DataInfo × Option Addr) :=
  addLast fuel h head inputEntryInfo temp

def updateEntryTable (fuel : Nat) (h : Heap DataInfo) (head : Option Addr) (inputEntryInfo : Addr) :
    Option (Heap DataInfo × Option Addr) := do
  let h ← updateAll sameRoute inputEntryInfo fuel h head
  some (h, head)

def removeNodeList (fuel : Nat) (h : Heap DataInfo) (head : Option Addr) (inputEntryInfo : Addr) :
    Option (Heap DataInfo × Option Addr) :=
  removeFirst sameRoute inputEntryInfo fuel h head none 0 head

def flushRoutingTableInfo (fuel : Nat) (h : Heap DataInfo) (head : Option Addr) :
    Option (Heap DataInfo × Option Addr) := do
  let h ← freeAll fuel h head
  some (h, none)

def checkCondition (fuel : Nat) (h : Heap DataInfo) (head : Option Addr) (msgInfo : DataInfo)
    (opcode : Opcode) : Option Bool :=
  condition sameRoute fuel h head msgInfo opcode

/--
`Mac` without what it says about the end of the string.
-/
structure MacTableStruct where
  mac : Mem
  size : mac.length = macAddrLen

def MacTableStruct.ofMac (m : Mac) : MacTableStruct where
  mac := m.mac
  size := m.size

-- as in `check_condition_mac` and `update_entry_table_mac`
def samePrefix (info ptr : MacTableStruct) : Bool :=
  strncmp (macAddrLen - 1) ptr.mac info.mac = 0

-- as in `remove_node_list_mac`
def sameString (info ptr : MacTableStruct) : Bool :=
  strcmp ptr.mac info.mac = 0

def addLastEntryListMac (fuel : Nat) (h : Heap MacTableStruct) (head : Option Addr)
    (inputEntryInfo temp : Addr) : Option (Heap MacTableStruct × Option Addr) :=
  addLast fuel h head inputEntryInfo temp

def updateEntryTableMac (fuel : Nat) (h : Heap MacTableStruct) (head : Option Addr)
    (inputEntryInfo : Addr) : Option (Heap MacTableStruct × Option Addr) := do
  let h ← updateAll samePrefix inputEntryInfo fuel h head
  some (h, head)

def removeNodeListMac (fuel : Nat) (h : Heap MacTableStruct) (head : Option Addr)
    (inputEntryInfo : Addr) : Option (Heap MacTableStruct × Option Addr) :=
  removeFirst sameString inputEntryInfo fuel h head none 0 head

def flushMacInfo (fuel : Nat) (h : Heap MacTableStruct) (head : Option Addr) :
    Option (Heap MacTableStruct × Option Addr) := do
  let h ← freeAll fuel h head
  some (h, none)

def checkConditionMac (fuel : Nat) (h : Heap MacTableStruct) (head : Option Addr) (mac : MacTableStruct)
    (opcode : Opcode) : Option Bool :=
  condition samePrefix fuel h head mac opcode

-- what `calloc` returns for each line that is read
def MacTableStruct.zero : MacTableStruct :=
  .ofMac .zero

-- what `check_format_input_string` makes of `mac_info`
def MacTableStruct.ofCopyBuffer (copyBuffer : Mem) : MacTableStruct where
  mac := memcpy MacTableStruct.zero.mac 0 copyBuffer (macAddrLen - 1)
  size := by
    rw [memcpy_length _ _ (Nat.zero_le _), MacTableStruct.zero.size]
    decide

/--
A line as the handlers in `server.c` and `client.c` see it. `stored` says whether the server has been
given a valid IP address for the MAC address and has stored it, a client does not ask for one. `temp`
is what `malloc` returns for the node.
-/
inductive Line where
  | create (copyBuffer : Mem) (stored : Bool) (temp : Addr)
  | update (copyBuffer : Mem) (stored : Bool)
  | delete (copyBuffer : Mem)
  | flush
  | other

def Line.macInfo : Line → MacTableStruct
  | .create copyBuffer _ _ => .ofCopyBuffer copyBuffer
  | .update copyBuffer _ => .ofCopyBuffer copyBuffer
  | .delete copyBuffer => .ofCopyBuffer copyBuffer
  | .flush => .zero
  | .other => .zero

inductive Event where
  | line (macInfo : Addr) (line : Line)
  -- `signal_handler` of a client
  | sigusr1

structure MacTable where
  heap : Heap MacTableStruct
  headMac : Option Addr

namespace MacTable

variable (t : MacTable)

def perform (fuel : Nat) (macInfo : Addr) : Line → Option MacTable
  | .create _ stored temp => do
    let info ← t.heap.record macInfo
    let allowed ← checkConditionMac fuel t.heap t.headMac info .create
    if (allowed && stored) = true then
      let (heap, headMac) ← addLastEntryListMac fuel t.heap t.headMac macInfo temp
      some { heap := heap, headMac := headMac }
    else
      some t
  | .update _ stored => do
    let info ← t.heap.record macInfo
    let allowed ← checkConditionMac fuel t.heap t.headMac info .update
    if (allowed && stored) = true then
      let (heap, headMac) ← updateEntryTableMac fuel t.heap t.headMac macInfo
      some { heap := heap, headMac := headMac }
    else
      some t
  | .delete _ => do
    let info ← t.heap.record macInfo
    let allowed ← checkConditionMac fuel t.heap t.headMac info .delete
    if allowed = true then
      let (heap, headMac) ← removeNodeListMac fuel t.heap t.headMac macInfo
      some { heap := heap, headMac := headMac }
    else
      some t
  | .flush => do
    let (heap, headMac) ← flushMacInfo fuel t.heap t.headMac
    some { heap := heap, headMac := headMac }
  | .other => some t

def handle (fuel : Nat) : Event → Option MacTable
  | .line macInfo line =>
    perform { t with heap := t.heap.setRecord macInfo line.macInfo } fuel macInfo line
  | .sigusr1 => do
    let (heap, headMac) ← flushMacInfo fuel t.heap t.headMac
    some { heap := heap, headMac := headMac }

/--
`calloc` and `malloc` return memory that is not in use.
-/
def Possible : Event → Prop
  | .line macInfo (.create _ _ temp) => t.heap.record macInfo = none ∧ t.heap.node temp = none
  | .line macInfo _ => t.heap.record macInfo = none
  | .sigusr1 => True

end MacTable

def macTableSystem : TransitionSystem MacTable Event where
  init := (·.headMac = none)
  step t e t' := t.Possible e ∧ Runs (fun fuel => t.handle fuel e) t'

end OnHeap

end RoutingTable
