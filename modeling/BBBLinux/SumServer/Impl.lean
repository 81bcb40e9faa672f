import BBBLinux.CString.Basic
import BBBLinux.Transition.Basic
import Mathlib.Algebra.Order.Ring.Int

/-!
This module contains the two servers of `IPC_udm/Socket/Unix_domain` that add up the ints of their
clients: `server.c`, which serves one client after the other, and `server_mplexing.c`, which serves
them all at once.
-/

namespace SumServer

open CString

def bufferSize : Nat := 128
def maxClientsSupport : Nat := 32

/--
The buffer with which both servers answer the 0 of a client.
-/
def result (clientResponse : Int32) : Mem :=
  bytes bufferSize (text "Result = " ++ text (toString clientResponse.toInt))

/--
What a client sends, without the 0 at the end.
-/
structure Client where
  ints : List Int32
  zero_notMem : 0 ∉ ints

namespace Client

def sends (c : Client) : List Int32 :=
  c.ints ++ [0]

def total (c : Client) : Int32 :=
  Int32.ofInt (c.ints.map Int32.toInt).sum

end Client

namespace Sequential

-- the body of the inner loop: what is written to the client, if anything, and `client_response`
def handle (clientResponse tempData : Int32) : Option Mem × Int32 :=
  if tempData = 0 then
    (some (result clientResponse), 0)
  else
    (none, clientResponse + tempData)

def serve (clientResponse : Int32) : List Int32 → Option (Mem × Int32)
  -- `read` blocks
  | [] => none
  | tempData :: unread =>
    match handle clientResponse tempData with
    | (some response, clientResponse) => some (response, clientResponse)
    | (none, clientResponse) => serve clientResponse unread

def loop (clientResponse : Int32) : List (List Int32) → List Mem
  | [] => []
  | unread :: clients =>
    match serve clientResponse unread with
    | none => []
    | some (response, clientResponse) => response :: loop clientResponse clients

end Sequential

structure Connection (κ : Type) where
  fd : Int
  client : κ
  unread : List Int32

structure State (κ : Type) where
  monitorFdSet : List Int
  clientResponse : List Int32
  -- the clients at the other end of the descriptors
  connections : List (Connection κ)
  accepted : List κ
  responses : List (κ × Mem)

/--
One pass through the loop of the multiplexed server: what `select` leaves in `read_fd`, and what
`accept` returns if it is called.
-/
structure Round (κ : Type) where
  readFd : List Int
  dataSocket : Int
  client : κ

def initMonitorFdSet : List Int :=
  List.replicate maxClientsSupport (-1)

def addToMonitorFdSet (monitorFdSet : List Int) (fd : Int) : List Int :=
  monitorFdSet.replace (-1) fd

def removeFromMonitorFdSet (monitorFdSet : List Int) (fd : Int) : List Int :=
  monitorFdSet.replace fd (-1)

namespace State

variable {κ : Type}

def start (connectionSocket : Int) : State κ where
  monitorFdSet := addToMonitorFdSet (addToMonitorFdSet initMonitorFdSet 0) connectionSocket
  clientResponse := List.replicate maxClientsSupport 0
  connections := []
  accepted := []
  responses := []

-- each `read` returns one int
def read (s : State κ) (fd : Int) : Option (Connection κ × Int32) :=
  match s.connections.find? fun c => c.fd = fd with
  | some ⟨fd, client, tempData :: unread⟩ => some (⟨fd, client, unread⟩, tempData)
  | _ => none

def scanSlot (readFd : List Int) (s : State κ) (index : Nat) : Option (State κ) :=
  let tempFd := s.monitorFdSet.getD index (-1)
  if tempFd ∈ readFd then
    match s.read tempFd with
    | none => none
    | some (connection, tempData) =>
      let others := s.connections.filter fun c => c.fd ≠ tempFd
      let sum := s.clientResponse.getD index 0
      if tempData = 0 then
        some { s with
          monitorFdSet := removeFromMonitorFdSet s.monitorFdSet tempFd
          clientResponse := s.clientResponse.set index 0
          connections := others
          responses := (connection.client, result sum) :: s.responses }
      else
        some { s with
          clientResponse := s.clientResponse.set index (sum + tempData)
          connections := connection :: others }
  else
    some s

def scan (readFd : List Int) (s : State κ) : Option (State κ) :=
  (List.range maxClientsSupport).foldlM (scanSlot readFd) s

def accept (clients : κ → Client) (s : State κ) (dataSocket : Int) (client : κ) : State κ :=
  { s with
    monitorFdSet := addToMonitorFdSet s.monitorFdSet dataSocket
    connections :=
      { fd := dataSocket, client := client, unread := (clients client).sends } :: s.connections
    accepted := client :: s.accepted }

def next (clients : κ → Client) (connectionSocket : Int) (s : State κ) (round : Round κ) :
    Option (State κ) :=
  if connectionSocket ∈ round.readFd then
    some (s.accept clients round.dataSocket round.client)
  -- a line of the console is printed
  else if 0 ∈ round.readFd then
    some s
  else
    s.scan round.readFd

/--
A free slot is not ready, and a client only connects while fewer than 30 others are, on a descriptor
that is not in use.
-/
structure Possible (connectionSocket : Int) (s : State κ) (round : Round κ) : Prop where
  free_notMem : -1 ∉ round.readFd
  few : connectionSocket ∈ round.readFd → s.connections.length < maxClientsSupport - 2
  unused : connectionSocket ∈ round.readFd →
    round.dataSocket ∉ -1 :: 0 :: connectionSocket :: s.connections.map Connection.fd

instance (connectionSocket : Int) (s : State κ) (round : Round κ) :
    Decidable (Possible connectionSocket s round) :=
  decidable_of_iff (-1 ∉ round.readFd
      ∧ (connectionSocket ∈ round.readFd → s.connections.length < maxClientsSupport - 2)
      ∧ (connectionSocket ∈ round.readFd →
          round.dataSocket ∉ -1 :: 0 :: connectionSocket :: s.connections.map Connection.fd))
    ⟨fun h => ⟨h.1, h.2.1, h.2.2⟩, fun h => ⟨h.1, h.2, h.3⟩⟩

end State

def multiplexed {κ : Type} (clients : κ → Client) (connectionSocket : Int) :
    TransitionSystem (State κ) (Round κ) :=
  .ofGuarded (State.Possible connectionSocket) (State.next clients connectionSocket)
    (· = .start connectionSocket)

end SumServer
