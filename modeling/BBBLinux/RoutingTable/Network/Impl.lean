import BBBLinux.RoutingTable.Peers.Lemmas
import Mathlib.Logic.Function.Basic

/-!
This module contains the server together with its clients: the sockets between them, on which
messages stay in their order, and the signal that tells a client to flush its tables.
-/

namespace RoutingTable

open CString

inductive Phase where
  | connected
  | announced
  | running
  | exited
  deriving DecidableEq

structure Message where
  text : Mem
  -- how many FLUSH commands the server had run when it wrote the message
  epoch : Nat
  deriving DecidableEq

/--
A client with its end of the socket. The last two fields are there for the specification only: how many
FLUSH commands the last run of the signal handler answered, and since then which route was added for a
message of which epoch.
-/
structure Client where
  pid : Int
  phase : Phase
  toServer : List Int
  inbox : List Message
  buffer : Option Message
  pending : Bool
  tables : Tables
  handled : Nat
  born : List (DataInfo × Nat)

namespace Client

def connected (pid : Int) : Client where
  pid := pid
  phase := .connected
  toServer := []
  inbox := []
  buffer := none
  pending := false
  tables := Tables.empty
  handled := 0
  born := []

def unread (c : Client) : List Message :=
  c.buffer.toList ++ c.inbox

def receive (c : Client) (texts : List Mem) (epoch : Nat) : Client :=
  { c with inbox := c.inbox ++ texts.map fun text => { text := text, epoch := epoch } }

def kill (c : Client) : Client :=
  match c.phase with
  -- SIGUSR1 ends a process that has not installed its handler yet
  | .connected | .announced => { c with phase := .exited }
  | .running => { c with pending := true }
  | .exited => c

def announce (c : Client) : Option Client :=
  if c.phase = .connected then
    some { c with phase := .announced, toServer := c.toServer ++ [c.pid] }
  else
    none

def install (c : Client) : Option Client :=
  if c.phase = .announced then
    some { c with phase := .running }
  else
    none

def read (c : Client) : Option Client :=
  match c.phase, c.buffer, c.inbox with
  | .running, none, message :: inbox => some { c with buffer := some message, inbox := inbox }
  | _, _, _ => none

def request (c : Client) (u : Locals) : Option Client :=
  match c.phase, c.buffer with
  | .running, some message =>
    match RoutingTable.request c.tables u message.text with
    | some tables =>
      let added := tables.head.drop c.tables.head.length
      some { c with
        buffer := none
        tables := tables
        born := c.born ++ added.map fun info => (info, message.epoch) }
    | none => some { c with buffer := none, phase := .exited }
  | _, _ => none

def handle (c : Client) (flushes : Nat) : Option Client :=
  if c.phase = .running ∧ c.pending = true then
    some { c with
      pending := false
      tables := signalHandler c.tables
      handled := flushes
      born := [] }
  else
    none

end Client

structure Network where
  server : Server
  clients : Int → Option Client
  accepted : Nat
  flushes : Nat

inductive Label where
  -- the iterations of the loop of the server
  | accept (fd pid : Int) (buffer bufferMac : Mem)
  | console (console : Console) (buffer : Mem)
  | clientData (fd : Int)
  -- the steps of a client
  | announce (fd : Int)
  | install (fd : Int)
  | read (fd : Int)
  | request (fd : Int) (u : Locals)
  | handle (fd : Int)

def isFlush (console : Console) (buffer : Mem) : Bool :=
  let parsed := parseLine console.locals buffer
  parsed.retVal && parsed.opcode = .flush

namespace Network

def deliver (net : Network) (writes : List (Int × Mem)) : Network :=
  { net with
    clients := fun fd =>
      (net.clients fd).map fun c => c.receive (messagesFor fd writes) net.flushes }

def signal (net : Network) (kills : List Int) : Network :=
  { net with
    clients := fun fd => (net.clients fd).map fun c => if c.pid ∈ kills then c.kill else c }

def setClient (net : Network) (fd : Int) (c : Client) : Network :=
  { net with clients := Function.update net.clients fd (some c) }

def onClient (net : Network) (fd : Int) (step : Client → Option Client) : Option Network :=
  (net.clients fd).bind fun c => (step c).map fun c => net.setClient fd c

def accept (net : Network) (fd pid : Int) (buffer bufferMac : Mem) : Network :=
  let (server, writes) := net.server.accept fd buffer bufferMac
  let net := net.setClient fd (.connected pid)
  { net with server := server, accepted := net.accepted + 1 }.deliver writes

def console (net : Network) (console : Console) (buffer : Mem) : Network :=
  let (server, effects) := net.server.console console buffer
  let net := ({ net with server := server }.signal effects.kills).deliver effects.writes
  { net with flushes := if isFlush console buffer = true then net.flushes + 1 else net.flushes }

def clientData (net : Network) (fd : Int) : Option Network :=
  match net.clients fd with
  | some c =>
    match c.toServer with
    | pid :: toServer =>
      if fd ∈ net.server.monitorFdSet then
        let net := net.setClient fd { c with toServer := toServer }
        some { net with server := net.server.clientData fd pid }
      else
        none
    | [] => none
  | none => none

def next (net : Network) : Label → Option Network
  | .accept fd pid buffer bufferMac => some (net.accept fd pid buffer bufferMac)
  | .console console buffer => some (net.console console buffer)
  | .clientData fd => net.clientData fd
  | .announce fd => net.onClient fd Client.announce
  | .install fd => net.onClient fd Client.install
  | .read fd => net.onClient fd Client.read
  | .request fd u => net.onClient fd fun c => c.request u
  | .handle fd => net.onClient fd fun c => c.handle net.flushes

def run (net : Network) : List Label → Network
  | [] => net
  | l :: ls => ((net.next l).getD net).run ls

structure Fresh (net : Network) (fd pid : Int) : Prop where
  -- the server never closes a descriptor of a client, so none of them comes again
  client : net.clients fd = none
  fd_pos : 0 < fd
  fd_ne : fd ≠ net.server.connectionSocket
  pid_pos : 0 < pid
  pid_ne : ∀ fd' c, net.clients fd' = some c → c.phase ≠ .exited → c.pid ≠ pid

def Possible (net : Network) : Label → Prop
  | .accept fd pid _ _ => net.Fresh fd pid
  | _ => True

def start (connectionSocket : Int) (shm : Shm) : Network where
  server :=
    { head := []
      headMac := []
      shm := shm
      monitorFdSet := addToMonitorFdSet (addToMonitorFdSet initSet 0) connectionSocket
      clientPidSet := initSet
      connectionSocket := connectionSocket }
  clients := fun _ => none
  accepted := 0
  flushes := 0

def system : TransitionSystem Network Label where
  init net := ∃ connectionSocket > 0, ∃ shm, net = start connectionSocket shm
  step net l net' := net.Possible l ∧ net.next l = some net'

end Network

end RoutingTable
