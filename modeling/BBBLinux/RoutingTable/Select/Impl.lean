import BBBLinux.RoutingTable.Connections.Impl
import Mathlib.Data.Finset.Basic
import Mathlib.Data.Finset.Filter

/-!
This module contains the loop of `server.c` with the sets of descriptors it hands to `select`. The state
has a history of what is done to `monitor_fd_set` and of what the loop over the clients looks at.
-/

namespace RoutingTable

open CString

-- `FD_SETSIZE`
def fdSetsize : Int := 1024

/--
The numbers that have a bit in an `fd_set`. For others `FD_SET` and `FD_ISSET` go outside of it.
-/
def HasBit (fd : Int) : Prop :=
  0 ≤ fd ∧ fd < fdSetsize

instance (fd : Int) : Decidable (HasBit fd) :=
  inferInstanceAs (Decidable (_ ∧ _))

-- `FD_SET`
def fdSet (fd : Int) (readFd : Finset Int) : Finset Int :=
  if HasBit fd then insert fd readFd else readFd

def cloneToFdSet (monitorFdSet : List Int) : Finset Int :=
  monitorFdSet.foldl (fun readFd fd => if fd ≠ -1 then fdSet fd readFd else readFd) ∅

def maxFd (monitorFdSet : List Int) : Int :=
  monitorFdSet.foldl (fun max fd => if fd > max then fd else max) (-1)

/--
`select` with nothing but a set of descriptors to read from: those below `nfds` that have data.
-/
def select (nfds : Int) (readFd : Finset Int) (pending : Int → Bool) : Finset Int :=
  readFd.filter fun fd => fd < nfds && pending fd

def fdIsset (fd : Int) (readFd : Finset Int) (outside : Bool) : Bool :=
  if HasBit fd then fd ∈ readFd else outside

inductive Call where
  | addToMonitorFdSet (fd : Int)
  | removeFromMonitorFdSet (fd : Int)
  -- in the loop over the clients
  | fdIsset (fd : Int)
  | read (fd : Int)
  deriving DecidableEq

/--
What one pass through the loop gets from outside: which descriptors have data, what `accept` returns,
at which descriptors the client has ended, what is typed and what the client in each slot has sent, where
`none` stands for a `read` that returns -1.
-/
structure Pass where
  pending : Int → Bool
  dataSocket : Int
  gone : Int → Bool
  buffer : Mem
  bufferMac : Mem
  console : Console
  line : Mem
  received : Nat → Option Mem
  outside : Nat → Bool

/--
A write to a client that has ended raises SIGPIPE.
-/
def Pass.sigpipe (pass : Pass) (writes : List (Int × Mem)) : Bool :=
  writes.any fun write => pass.gone write.1

structure SelectLoop where
  server : Server
  -- the newest first
  calls : List Call

namespace SelectLoop

def start (connectionSocket : Int) (shm : Shm) : SelectLoop where
  server := (Network.start connectionSocket shm).server
  calls := [.addToMonitorFdSet connectionSocket, .addToMonitorFdSet 0]

-- `read_fd` after `select`
def readFd (s : SelectLoop) (pending : Int → Bool) : Finset Int :=
  select (maxFd s.server.monitorFdSet + 1) (cloneToFdSet s.server.monitorFdSet) pending

def accept (s : SelectLoop) (pass : Pass) : Option SelectLoop :=
  if pass.dataSocket = -1 then
    none
  else
    let (server, writes) := s.server.accept pass.dataSocket pass.buffer pass.bufferMac
    if pass.sigpipe writes = true then
      none
    else
      some { server := server, calls := .addToMonitorFdSet pass.dataSocket :: s.calls }

def console (s : SelectLoop) (pass : Pass) : Option SelectLoop :=
  let (server, effects) := s.server.console pass.console pass.line
  if pass.sigpipe effects.writes = true then
    none
  else
    some { s with server := server }

def clientData (s : SelectLoop) (fd pid : Int) : SelectLoop where
  server := s.server.clientData fd pid
  calls :=
    if checkAvailablePid s.server.clientPidSet pid = true then
      s.calls
    else
      .removeFromMonitorFdSet fd :: s.calls

def scanSlot (pass : Pass) (readFd : Finset Int) (s : SelectLoop) (index : Nat) : Option SelectLoop :=
  let fd := s.server.monitorFdSet.getD index (-1)
  let s := { s with calls := .fdIsset fd :: s.calls }
  if fdIsset fd readFd (pass.outside index) = true then
    let s := { s with calls := .read fd :: s.calls }
    if fd < 0 then
      -- `read` returns -1
      none
    else
      match pass.received index with
      | none => none
      | some received => some (s.clientData fd (readPid received))
  else
    some s

def scan (pass : Pass) (readFd : Finset Int) (s : SelectLoop) : Option SelectLoop :=
  (List.range maxClientsSupport).foldlM (scanSlot pass readFd) s

/--
A pass that does not come to its end has `none`: `select` blocks, or the server has ended, by `exit` when
`accept` or `read` fails, or by SIGPIPE.
-/
def next (s : SelectLoop) (pass : Pass) : Option SelectLoop :=
  let readFd := s.readFd pass.pending
  if readFd = ∅ then
    none
  else if s.server.connectionSocket ∈ readFd then
    s.accept pass
  else if 0 ∈ readFd then
    s.console pass
  else
    s.scan pass readFd

/--
`accept` returns no descriptor that is in use, the server closes none, and it may have no more open than
an `fd_set` has bits: `accept` fails before.
-/
def Possible (s : SelectLoop) (pass : Pass) : Prop :=
  s.server.connectionSocket ∈ s.readFd pass.pending → pass.dataSocket = -1
    ∨ HasBit pass.dataSocket ∧ .addToMonitorFdSet pass.dataSocket ∉ s.calls

instance (s : SelectLoop) (pass : Pass) : Decidable (Possible s pass) :=
  inferInstanceAs (Decidable (_ → _ ∨ _ ∧ _))

def system : TransitionSystem SelectLoop Pass :=
  .ofGuarded Possible next fun s => ∃ connectionSocket > 0, connectionSocket < fdSetsize
    ∧ ∃ shm, s = start connectionSocket shm

end SelectLoop

end RoutingTable
