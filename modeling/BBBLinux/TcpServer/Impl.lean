import BBBLinux.CString.Basic
import BBBLinux.KeyedList.Basic
import BBBLinux.LittleEndian.Basic
import BBBLinux.Transition.Basic

/-!
This module contains `TCP_server.c`, the server of `IPC_udm/Socket/Network` that adds up pairs of ints,
and the clients of `TCP_client.c`, which may act between any two steps of its loop.
-/

namespace TcpServer

open CString

def bufferSize : Nat := 128
def maxClientsSupport : Nat := 32

structure DataToServer where
  num1 : Int32
  num2 : Int32
  deriving DecidableEq

namespace DataToServer

def bytes (data : DataToServer) : Mem :=
  LittleEndian.int32 data.num1 ++ LittleEndian.int32 data.num2

def ofBuffer (buffer : Mem) : DataToServer where
  num1 := LittleEndian.ofBytes buffer
  num2 := LittleEndian.ofBytes (buffer.drop 4)

def result (data : DataToServer) : Int32 :=
  data.num1 + data.num2

-- both sides take it for the end of the connection
def quit : DataToServer where
  num1 := 0
  num2 := 0

end DataToServer

structure Connection where
  fd : Int
  -- by the client, the first pair first
  sent : List DataToServer
  -- by the server
  answers : List Int32
  unread : Mem
  -- by the client
  closed : Bool
  deriving DecidableEq

inductive Action where
  | send (data : DataToServer)
  | close
  deriving DecidableEq

namespace Connection

def connect (fd : Int) : Connection where
  fd := fd
  sent := []
  answers := []
  unread := []
  closed := false

def act (c : Connection) : Action → Option Connection
  | .send data =>
    -- the client has got the answer to its last pair
    if c.closed = false ∧ c.sent.length ≤ c.answers.length ∧ .quit ∉ c.sent then
      some { c with sent := c.sent ++ [data], unread := c.unread ++ data.bytes }
    else
      none
  | .close => if c.closed = false then some { c with closed := true } else none

def acts (c : Connection) (actions : List Action) : Option Connection :=
  actions.foldlM act c

def Readable (c : Connection) : Prop :=
  c.unread ≠ [] ∨ c.closed = true

instance (c : Connection) : Decidable c.Readable :=
  inferInstanceAs (Decidable (_ ∨ _))

def recvfrom (c : Connection) (count : Nat) : Option (Mem × Connection) :=
  if c.unread = [] then
    -- the end of the stream
    if c.closed = true ∧ count = 0 then some ([], c) else none
  else if 0 < count ∧ count ≤ c.unread.length ∧ count ≤ bufferSize then
    some (c.unread.take count, { c with unread := c.unread.drop count })
  else
    none

end Connection

inductive Phase where
  | select
  -- in the loop over the slots, with what `select` has left in `read_fd`
  | scan (index : Nat) (readFd : List Int)
  deriving DecidableEq

structure State where
  monitorFdSet : List Int
  connections : List Connection
  -- by the server, which has closed them
  finished : List Connection
  phase : Phase
  deriving DecidableEq

inductive Event where
  | client (fd : Int) (action : Action)
  -- `select` returns, and `accept` if it is called, with what the client has done until then
  | select (readFd : List Int) (communicationSocketFd : Int) (early : List Action)
  -- an iteration of the loop over the slots
  | slot (count : Nat)

def initMonitorFdSet : List Int :=
  List.replicate maxClientsSupport (-1)

def addToMonitorFdSet (monitorFdSet : List Int) (fd : Int) : List Int :=
  monitorFdSet.replace (-1) fd

def removeFromMonitorFdSet (monitorFdSet : List Int) (fd : Int) : List Int :=
  monitorFdSet.replace fd (-1)

namespace State

def start (masterSocketFd : Int) : State where
  monitorFdSet := addToMonitorFdSet initMonitorFdSet masterSocketFd
  connections := []
  finished := []
  phase := .select

def find (s : State) (fd : Int) : Option Connection :=
  s.connections.find? fun c => c.fd = fd

def set (s : State) (c : Connection) : State :=
  { s with connections := KeyedList.update Connection.fd c s.connections }

def close (s : State) (c : Connection) : State where
  monitorFdSet := removeFromMonitorFdSet s.monitorFdSet c.fd
  connections := KeyedList.remove Connection.fd c.fd s.connections
  finished := c :: s.finished
  -- `break`
  phase := .select

def serve (s : State) (index : Nat) (readFd : List Int) (c : Connection) (data : Mem) : State :=
  let buffer := memcpy (List.replicate bufferSize 0) 0 data data.length
  let tempData := DataToServer.ofBuffer buffer
  if data.length = 0 then
    s.close c
  else if tempData.num1 = 0 ∧ tempData.num2 = 0 then
    s.close c
  else
    { s.set { c with answers := c.answers ++ [tempData.result] } with
      phase := .scan (index + 1) readFd }

-- the descriptor of the slot, if it is ready
def current (s : State) (index : Nat) (readFd : List Int) : Option Int :=
  let fd := s.monitorFdSet.getD index (-1)
  if fd ∈ readFd then some fd else none

def slot (s : State) (count : Nat) : Option State :=
  match s.phase with
  | .select => none
  | .scan index readFd =>
    if index < maxClientsSupport then
      match s.current index readFd with
      | none => some { s with phase := .scan (index + 1) readFd }
      | some fd =>
        (s.find fd).bind fun c =>
          (c.recvfrom count).map fun (data, c) => s.serve index readFd c data
    else
      some { s with phase := .select }

def select (masterSocketFd : Int) (s : State) (readFd : List Int) (communicationSocketFd : Int)
    (early : List Action) : Option State :=
  if s.phase = .select then
    if masterSocketFd ∈ readFd then
      ((Connection.connect communicationSocketFd).acts early).map fun c =>
        { s with
          monitorFdSet := addToMonitorFdSet s.monitorFdSet communicationSocketFd
          connections := c :: s.connections }
    else
      some { s with phase := .scan 0 readFd }
  else
    none

def next (masterSocketFd : Int) (s : State) : Event → Option State
  | .client fd action => (s.find fd).bind fun c => (c.act action).map s.set
  | .select readFd communicationSocketFd early =>
    s.select masterSocketFd readFd communicationSocketFd early
  | .slot count => s.slot count

/--
`select` leaves descriptors that are ready and none for a free slot, and a client only connects while
fewer than 31 others are, on a descriptor that is not in use.
-/
def Possible (masterSocketFd : Int) (s : State) : Event → Prop
  | .select readFd communicationSocketFd _ =>
    readFd ≠ []
    ∧ (∀ fd ∈ readFd, fd ∈ s.monitorFdSet
      ∧ (fd = masterSocketFd ∨ ∃ c ∈ s.connections, c.fd = fd ∧ c.Readable))
    ∧ (masterSocketFd ∈ readFd → s.connections.length < maxClientsSupport - 1
      ∧ communicationSocketFd ∉ -1 :: masterSocketFd :: s.connections.map Connection.fd)
  | .client _ _ => True
  | .slot _ => True

instance (masterSocketFd : Int) (s : State) (e : Event) : Decidable (s.Possible masterSocketFd e) :=
  match e with
  | .select readFd _ _ => inferInstanceAs (Decidable (readFd ≠ [] ∧ _))
  | .client _ _ => inferInstanceAs (Decidable True)
  | .slot _ => inferInstanceAs (Decidable True)

end State

def server (masterSocketFd : Int) : TransitionSystem State Event :=
  .ofGuarded (State.Possible masterSocketFd) (State.next masterSocketFd)
    fun s => masterSocketFd ≠ -1 ∧ s = .start masterSocketFd

end TcpServer
