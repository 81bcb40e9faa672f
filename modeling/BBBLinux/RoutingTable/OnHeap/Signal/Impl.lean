import BBBLinux.LinkedList.Program
import BBBLinux.RoutingTable.OnHeap.Impl

/-!
This module contains a client with one of its tables, as it works off the messages of the server access by
access, and the handler of SIGUSR1, which can run between any two of them and frees the table. It does not
run in the middle of a function of the C library. `RoutingTable.OnHeap.Impl` has the same functions without
interruption.
-/

namespace RoutingTable
namespace OnHeap
namespace Signal

open LinkedList

section Functions

variable {α : Type} (same : α → α → Bool)

def absentBeforeLast (info : α) : Nat → Addr → Program α Bool
  | 0, _ => .spin
  | fuel + 1, ptr =>
    .readNode ptr fun node =>
      match node.next with
      | none => .done true
      | some _ =>
        .readNode ptr fun node =>
        .readRecord node.info fun value =>
          if same info value = true then
            .done false
          else
            .readNode ptr fun node =>
              match node.next with
              | none => .null
              | some next => absentBeforeLast info fuel next

/--
The loop that reads every entry until it has found one. The result is `hit` then and `miss` otherwise.
-/
def search (found : α → Bool) (hit miss : Bool) : Nat → Option Addr → Program α Bool
  | _, none => .done miss
  | 0, some _ => .spin
  | fuel + 1, some ptr =>
    .readNode ptr fun node =>
    .readRecord node.info fun value =>
      if found value = true then
        .done hit
      else
        .readNode ptr fun node => search found hit miss fuel node.next

def condition (fuel : Nat) (head : Option Addr) (info : α) : Opcode → Program α Bool
  | .create =>
    match head with
    | none => .done true
    | some ptr => absentBeforeLast same info fuel ptr
  | .update => search (same info) true false fuel head
  | .delete =>
    match head with
    | none => .done false
    | some ptr => search (same info) true true fuel (some ptr)
  | _ => .done true

def append (head : Option Addr) (temp : Addr) : Nat → Addr → Program α (Option Addr)
  | 0, _ => .spin
  | fuel + 1, ptr =>
    .readNode ptr fun node =>
      match node.next with
      | none => .setNext ptr (some temp) (.done head)
      | some _ =>
        .readNode ptr fun node =>
          match node.next with
          | none => .null
          | some next => append head temp fuel next

def addLast (fuel : Nat) (head : Option Addr) (inputEntryInfo temp : Addr) : Program α (Option Addr) :=
  .newNode temp { info := inputEntryInfo, next := none }
    (match head with
    | none => .done (some temp)
    | some ptr => append head temp fuel ptr)

def updateAll (head : Option Addr) (inputEntryInfo : Addr) : Nat → Option Addr → Program α (Option Addr)
  | _, none => .done head
  | 0, some _ => .spin
  | fuel + 1, some ptr =>
    .readNode ptr fun node =>
    .readRecord node.info fun info =>
    .readRecord inputEntryInfo fun input =>
      if same input info = true then
        .readNode ptr fun node =>
        .readRecord inputEntryInfo fun input =>
        .setRecord node.info input
        (.readNode ptr fun node => updateAll head inputEntryInfo fuel node.next)
      else
        .readNode ptr fun node => updateAll head inputEntryInfo fuel node.next

def freeEntry (ptr : Addr) (result : Option Addr) : Program α (Option Addr) :=
  .readNode ptr fun node => .freeRecord node.info (.freeNode ptr (.done result))

def removeFirst (inputEntryInfo : Addr) :
    Nat → (head lastPtr : Option Addr) → (count : Nat) → (ptr : Option Addr) → Program α (Option Addr)
  | _, head, _, _, none => .done head
  | 0, _, _, _, some _ => .spin
  | fuel + 1, head, lastPtr, count, some ptr =>
    .readNode ptr fun node =>
    .readRecord node.info fun info =>
    .readRecord inputEntryInfo fun input =>
      if same input info = true then
        .readNode ptr fun node =>
          if count = 0 then
            freeEntry ptr node.next
          else
            match lastPtr with
            | none => .null
            | some last =>
              .readNode ptr fun node => .setNext last node.next (freeEntry ptr head)
      else
        .readNode ptr fun node => removeFirst inputEntryInfo fuel head (some ptr) (count + 1) node.next

def freeAll : Nat → Option Addr → Program α (Option Addr)
  | _, none => .done none
  | 0, some _ => .spin
  | fuel + 1, some lastPtr =>
    .readNode lastPtr fun ptr =>
    .readNode lastPtr fun node =>
    .freeRecord node.info
    (.freeNode lastPtr (freeAll fuel ptr.next))

end Functions

/--
How the functions for a table compare entries: `remove_node_list_mac` does it in its own way.
-/
structure Comparison (α : Type) where
  same : α → α → Bool
  sameRemoved : α → α → Bool

def routes : Comparison DataInfo where
  same := sameRoute
  sameRemoved := sameRoute

def macs : Comparison MacTableStruct where
  same := samePrefix
  sameRemoved := sameString

inductive Change where
  | add (inputEntryInfo : Addr)
  | update (inputEntryInfo : Addr)
  | remove (inputEntryInfo : Addr)
  | flush

inductive Reading (α : Type) where
  | check (opcode : Opcode) (info : α) (change : Change)
  | «show»

inductive Control (α : Type) where
  -- in `read`
  | waiting
  -- before `head` is loaded to be passed to a function that only reads the list
  | toRead (r : Reading α)
  | reading (p : Program α Bool) (r : Reading α)
  -- before `head` is loaded to be passed to a function that returns the new list
  | toChange (c : Change)
  -- `head` is loaded, but the function has not come to its `malloc` or its first access
  | called (c : Change) (head : Option Addr)
  -- until the result is assigned to `head`
  | changing (p : Program α (Option Addr))
  -- the process has accessed memory that is not allocated
  | fault

inductive Command where
  | create
  | update
  | delete
  | show
  | flush
  -- a message that is not accepted, or one that is about the other table
  | other

structure Table (α : Type) where
  heap : Heap α
  head : Option Addr
  control : Control α

inductive Label (α : Type) where
  | message (inputEntryInfo : Addr) (info : α) (command : Command)
  | call
  -- `malloc` returns `temp` if the function calls it
  | enter (fuel : Nat) (temp : Addr)
  | access
  | leave
  | sigusr1

section Steps

variable {α : Type} (f : Comparison α)

def Reading.program (r : Reading α) (fuel : Nat) (head : Option Addr) : Program α Bool :=
  match r with
  | .check opcode info _ => condition f.same fuel head info opcode
  | .show => search (fun _ => false) true true fuel head

def Change.program (c : Change) (temp : Addr) (fuel : Nat) (head : Option Addr) :
    Program α (Option Addr) :=
  match c with
  | .add inputEntryInfo => addLast fuel head inputEntryInfo temp
  | .update inputEntryInfo => updateAll f.same head inputEntryInfo fuel head
  | .remove inputEntryInfo => removeFirst f.sameRemoved inputEntryInfo fuel head none 0 head
  | .flush => freeAll fuel head

-- `malloc` returns nothing that is allocated
def Change.Allocates (heap : Heap α) (temp : Addr) : Change → Prop
  | .add _ => heap.node temp = none
  | _ => True

def Command.control (inputEntryInfo : Addr) (info : α) : Command → Control α
  | .create => .toRead (.check .create info (.add inputEntryInfo))
  | .update => .toRead (.check .update info (.update inputEntryInfo))
  | .delete => .toRead (.check .delete info (.remove inputEntryInfo))
  | .show => .toRead .show
  | .flush => .toChange .flush
  | .other => .waiting

def Reading.continue (r : Reading α) (result : Bool) : Control α :=
  match r with
  | .check _ _ change => if result = true then .toChange change else .waiting
  | .show => .waiting

/--
What is read from the message is kept in memory that `calloc` or `malloc` has just returned. If the handler
runs meanwhile, it does the same as if it had run before.
-/
def Table.receive (s : Table α) (inputEntryInfo : Addr) (info : α) (command : Command) : Table α where
  heap := s.heap.setRecord inputEntryInfo info
  head := s.head
  control := command.control inputEntryInfo info

/--
An access of a function.
-/
def Table.access (s : Table α) : Option (Table α) :=
  match s.control with
  | .reading (.done _) _ | .reading .spin _ | .changing (.done _) | .changing .spin => none
  | .reading p r =>
    match p.access s.heap with
    | some (p, heap) => some { s with heap := heap, control := .reading p r }
    | none => some { s with control := .fault }
  | .changing p =>
    match p.access s.heap with
    | some (p, heap) => some { s with heap := heap, control := .changing p }
    | none => some { s with control := .fault }
  | _ => none

/--
A function returns.
-/
def Table.leave (s : Table α) : Option (Table α) :=
  match s.control with
  | .reading (.done result) r => some { s with control := r.continue result }
  | .changing (.done head) => some { s with head := head, control := .waiting }
  | _ => none

def Table.call (s : Table α) : Option (Table α) :=
  match s.control with
  | .toChange c => some { s with control := .called c s.head }
  | _ => none

def Table.Entered (s : Table α) (fuel : Nat) (temp : Addr) (s' : Table α) : Prop :=
  match s.control with
  | .toRead r => Enough (fun fuel => r.program f fuel s.head) s.heap fuel
    ∧ s' = { s with control := .reading (r.program f fuel s.head) r }
  | .called c head => c.Allocates s.heap temp
    ∧ Enough (fun fuel => c.program f temp fuel head) s.heap fuel
    ∧ s' = { s with control := .changing (c.program f temp fuel head) }
  | _ => False

/--
`signal_handler` runs from its start to its end.
-/
def Table.Handled (s s' : Table α) : Prop :=
  (∃ heap, Ends (fun fuel => freeAll fuel s.head) s.heap (.ok none heap)
      ∧ s' = { s with heap := heap, head := none })
    ∨ (Ends (fun fuel => freeAll fuel s.head) s.heap .fault ∧ s' = { s with control := .fault })

def system : TransitionSystem (Table α) (Label α) where
  init s := s.head = none ∧ s.control = .waiting
  step s label s' :=
    match label with
    | .message inputEntryInfo info command => s.control = .waiting
      ∧ s.heap.record inputEntryInfo = none
      ∧ s' = s.receive inputEntryInfo info command
    | .call => s.call = some s'
    | .enter fuel temp => s.Entered f fuel temp s'
    | .access => s.access = some s'
    | .leave => s.leave = some s'
    | .sigusr1 => s.control ≠ .fault ∧ s.Handled s'

end Steps

end Signal
end OnHeap

end RoutingTable
