import BBBLinux.RoutingTable.Types

/-!
This module contains the operations of `common.c` and `common_mac.c` on the linked lists that hold
the two tables. The functions for routes and for MAC addresses differ in their entries and in how
they compare them, so both are instances of the same loops.
-/

namespace RoutingTable

open CString

universe u

section Loops

variable {α : Type u}

def addLast (inputEntryInfo : α) : List α → List α
  | [] => [inputEntryInfo]
  | ptr :: next => ptr :: addLast inputEntryInfo next

def updateAll (same : α → Bool) (inputEntryInfo : α) : List α → List α
  | [] => []
  | ptr :: next =>
    (if same ptr then inputEntryInfo else ptr) :: updateAll same inputEntryInfo next

def removeFirst (same : α → Bool) : List α → List α
  | [] => []
  | ptr :: next => if same ptr then next else ptr :: removeFirst same next

def absentBeforeLast (same : α → Bool) : List α → Bool
  | [] => true
  -- the loop of the CREATE case stops in front of the last node
  | [_] => true
  | ptr :: next => if same ptr then false else absentBeforeLast same next

def condition (same : α → Bool) (head : List α) : Opcode → Bool
  | .create => absentBeforeLast same head
  | .update => head.any same
  -- the loop over the nodes leaves `ret_val` true whether it finds the entry or not
  | .delete => !head.isEmpty
  | _ => true

end Loops

def sameRoute (info ptr : DataInfo) : Bool :=
  strcmp ptr.destination info.destination = 0 && strcmp ptr.mask info.mask = 0

def addLastEntryList (head : List DataInfo) (inputEntryInfo : DataInfo) : List DataInfo :=
  addLast inputEntryInfo head

def updateEntryTable (head : List DataInfo) (inputEntryInfo : DataInfo) : List DataInfo :=
  updateAll (sameRoute inputEntryInfo) inputEntryInfo head

def removeNodeList (head : List DataInfo) (inputEntryInfo : DataInfo) : List DataInfo :=
  removeFirst (sameRoute inputEntryInfo) head

def flushRoutingTableInfo (_head : List DataInfo) : List DataInfo :=
  []

def checkCondition (head : List DataInfo) (msgInfo : DataInfo) (opcode : Opcode) : Bool :=
  condition (sameRoute msgInfo) head opcode

def sameMac (info ptr : Mac) : Bool :=
  strncmp (macAddrLen - 1) ptr.mac info.mac = 0

def addLastEntryListMac (headMac : List Mac) (inputEntryInfo : Mac) : List Mac :=
  addLast inputEntryInfo headMac

def updateEntryTableMac (headMac : List Mac) (inputEntryInfo : Mac) : List Mac :=
  updateAll (sameMac inputEntryInfo) inputEntryInfo headMac

def removeNodeListMac (headMac : List Mac) (inputEntryInfo : Mac) : List Mac :=
  -- compares whole strings, unlike its siblings
  removeFirst (fun ptr => strcmp ptr.mac inputEntryInfo.mac = 0) headMac

def flushMacInfo (_headMac : List Mac) : List Mac :=
  []

def checkConditionMac (headMac : List Mac) (mac : Mac) (opcode : Opcode) : Bool :=
  condition (sameMac mac) headMac opcode

structure Tables where
  head : List DataInfo
  headMac : List Mac
  deriving DecidableEq

inductive Entry where
  | route (info : DataInfo)
  | mac (info : Mac)
  deriving DecidableEq

namespace Tables

def empty : Tables where
  head := []
  headMac := []

def check (t : Tables) (opcode : Opcode) : Entry → Bool
  | .route info => checkCondition t.head info opcode
  | .mac info => checkConditionMac t.headMac info opcode

def perform (t : Tables) : Opcode → Entry → Tables
  | .create, .route info => { t with head := addLastEntryList t.head info }
  | .create, .mac info => { t with headMac := addLastEntryListMac t.headMac info }
  | .update, .route info => { t with head := updateEntryTable t.head info }
  | .update, .mac info => { t with headMac := updateEntryTableMac t.headMac info }
  | .delete, .route info => { t with head := removeNodeList t.head info }
  | .delete, .mac info => { t with headMac := removeNodeListMac t.headMac info }
  | .flush, _ => { head := flushRoutingTableInfo t.head, headMac := flushMacInfo t.headMac }
  | .show, _ => t
  | .quit, _ => t

def guarded (t : Tables) (opcode : Opcode) (e : Entry) : Tables :=
  if t.check opcode e = true then
    t.perform opcode e
  else
    t

end Tables

end RoutingTable
