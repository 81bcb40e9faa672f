import BBBLinux.RoutingTable.Network.Impl
import Mathlib.Logic.Function.Basic

/-!
This module contains the connections of the server, from the start of `client.c` to the end of the
process: what a client has written and the server has not read yet is a stream of bytes, of which a
`read` of the server takes as many as it happens to get.
-/

namespace RoutingTable

open CString

inductive Stage where
  | connected
  -- after the `write` of the PID
  | announced
  -- after `signal(SIGINT, ..)`
  | interruptible
  -- after `signal(SIGUSR1, ..)`
  | running
  -- the process has ended and its socket is closed
  | left
  deriving DecidableEq

def pidBytes (pid : Int) : Mem :=
  -- the board is little-endian
  let n := (BitVec.ofInt 32 pid).toNat
  [.ofNat n, .ofNat (n / 256), .ofNat (n / 65536), .ofNat (n / 16777216)]

def pidOfBytes (m : Mem) : Int :=
  (BitVec.ofNat 32 ((m.getD 0 0).toNat + 256 * (m.getD 1 0).toNat + 65536 * (m.getD 2 0).toNat
    + 16777216 * (m.getD 3 0).toNat)).toInt

structure Connection where
  pid : Int
  stage : Stage
  -- `accept` has returned its descriptor
  accepted : Bool
  unread : Mem
  deriving DecidableEq

inductive Action where
  | writePid
  | installSigint
  | installSigusr1
  -- SIGINT from the console of the client
  | interrupt
  -- the process ends in any other way, or on the message QUIT
  | leave
  deriving DecidableEq

namespace Connection

def connect (pid : Int) : Connection where
  pid := pid
  stage := .connected
  accepted := false
  unread := []

def act (c : Connection) : Action → Option Connection
  | .writePid =>
    if c.stage = .connected then
      some { c with stage := .announced, unread := c.unread ++ pidBytes c.pid }
    else
      none
  | .installSigint => if c.stage = .announced then some { c with stage := .interruptible } else none
  | .installSigusr1 => if c.stage = .interruptible then some { c with stage := .running } else none
  | .interrupt =>
    match c.stage with
    -- there is no handler yet
    | .connected | .announced => some { c with stage := .left }
    -- `signal_handler` writes the PID again
    | .interruptible | .running =>
      some { c with stage := .left, unread := c.unread ++ pidBytes c.pid }
    | .left => none
  | .leave => if c.stage = .left then none else some { c with stage := .left }

def sigusr1 (c : Connection) : Connection :=
  match c.stage with
  -- there is no handler yet
  | .connected | .announced | .interruptible => { c with stage := .left }
  | .running | .left => c

def receive (c : Connection) (count : Nat) : Option Mem :=
  if c.unread = [] then
    -- end of file
    if c.stage = .left ∧ count = 0 then some [] else none
  else if 0 < count ∧ count ≤ c.unread.length ∧ count ≤ bufferSize then
    some (c.unread.take count)
  else
    none

end Connection

def readPid (data : Mem) : Int :=
  let buffer := memcpy (List.replicate bufferSize 0) 0 data data.length
  pidOfBytes buffer

structure Connections where
  server : Server
  connections : Int → Option Connection

namespace Connections

inductive Event where
  | connect (fd pid : Int)
  | client (fd : Int) (action : Action)
  -- the iterations of the loop of the server, and one `read` of the last branch
  | accept (fd : Int) (buffer bufferMac : Mem)
  | console (console : Console) (buffer : Mem)
  | read (fd : Int) (count : Nat)

def set (net : Connections) (fd : Int) (c : Connection) : Connections :=
  { net with connections := Function.update net.connections fd (some c) }

def client (net : Connections) (fd : Int) (action : Action) : Option Connections :=
  (net.connections fd).bind fun c => (c.act action).map fun c => net.set fd c

def accept (net : Connections) (fd : Int) (buffer bufferMac : Mem) : Option Connections :=
  match net.connections fd with
  | some c =>
    if c.accepted = false then
      let net := net.set fd { c with accepted := true }
      some { net with server := (net.server.accept fd buffer bufferMac).1 }
    else
      none
  | none => none

def console (net : Connections) (console : Console) (buffer : Mem) : Connections :=
  let (server, effects) := net.server.console console buffer
  { server := server
    connections := fun fd =>
      (net.connections fd).map fun c => if c.pid ∈ effects.kills then c.sigusr1 else c }

def read (net : Connections) (fd : Int) (count : Nat) : Option Connections :=
  match net.connections fd with
  | some c =>
    match c.receive count with
    | some data =>
      if fd ∈ net.server.monitorFdSet then
        let net := net.set fd { c with unread := c.unread.drop count }
        some { net with server := net.server.clientData fd (readPid data) }
      else
        none
    | none => none
  | none => none

def next (net : Connections) : Event → Option Connections
  | .connect fd pid => some (net.set fd (.connect pid))
  | .client fd action => net.client fd action
  | .accept fd buffer bufferMac => net.accept fd buffer bufferMac
  | .console console buffer => some (net.console console buffer)
  | .read fd count => net.read fd count

/--
What the operating system sees to. A descriptor never comes again, since the server closes none.
-/
structure Fresh (net : Connections) (fd pid : Int) : Prop where
  fd_none : net.connections fd = none
  fd_pos : 0 < fd
  fd_ne : fd ≠ net.server.connectionSocket
  pid_pos : 0 < pid
  pid_lt : pid < 2 ^ 31
  pid_ne : ∀ fd' c, net.connections fd' = some c → c.stage ≠ .left → c.pid ≠ pid

def Possible (net : Connections) : Event → Prop
  | .connect fd pid => net.Fresh fd pid
  | _ => True

def start (connectionSocket : Int) (shm : Shm) : Connections where
  server := (Network.start connectionSocket shm).server
  connections := fun _ => none

def system : TransitionSystem Connections Event :=
  .ofGuarded Possible next fun net => ∃ connectionSocket > 0, ∃ shm, net = start connectionSocket shm

end Connections

end RoutingTable
