import BBBLinux.RoutingTable.Connections.Impl

/-!
This module contains the server and its clients with sockets that are what `SOCK_STREAM` makes them: one
stream of bytes in each direction, of which a `read` takes as many as there are, up to the size of its
buffer.
-/

namespace RoutingTable

open CString

structure StreamClient where
  pid : Int
  phase : Phase
  toServer : Mem
  inbox : Mem
  buffer : Option Mem
  pending : Bool
  tables : Tables

/--
The buffer after its `memset` and `read(fd, buffer, BUFFER_SIZE)`.
-/
def readBuffer (stream : Mem) : Mem :=
  let data := stream.take bufferSize
  memcpy (List.replicate bufferSize 0) 0 data data.length

namespace StreamClient

def connected (pid : Int) : StreamClient where
  pid := pid
  phase := .connected
  toServer := []
  inbox := []
  buffer := none
  pending := false
  tables := Tables.empty

def receive (c : StreamClient) (texts : List Mem) : StreamClient :=
  { c with inbox := c.inbox ++ texts.flatten }

def kill (c : StreamClient) : StreamClient :=
  match c.phase with
  -- SIGUSR1 ends a process that has not installed its handler yet
  | .connected | .announced => { c with phase := .exited }
  | .running => { c with pending := true }
  | .exited => c

def announce (c : StreamClient) : Option StreamClient :=
  if c.phase = .connected then
    some { c with phase := .announced, toServer := c.toServer ++ pidBytes c.pid }
  else
    none

def install (c : StreamClient) : Option StreamClient :=
  if c.phase = .announced then
    some { c with phase := .running }
  else
    none

def read (c : StreamClient) : Option StreamClient :=
  if c.phase = .running ∧ c.buffer = none ∧ c.inbox ≠ [] then
    some { c with buffer := some (readBuffer c.inbox), inbox := c.inbox.drop bufferSize }
  else
    none

def request (c : StreamClient) (u : Locals) : Option StreamClient :=
  match c.phase, c.buffer with
  | .running, some buffer =>
    match RoutingTable.request c.tables u buffer with
    | some tables => some { c with buffer := none, tables := tables }
    | none => some { c with buffer := none, phase := .exited }
  | _, _ => none

def handle (c : StreamClient) : Option StreamClient :=
  if c.phase = .running ∧ c.pending = true then
    some { c with pending := false, tables := signalHandler c.tables }
  else
    none

end StreamClient

structure Streams where
  server : Server
  clients : Int → Option StreamClient

namespace Streams

def deliver (s : Streams) (writes : List (Int × Mem)) : Streams :=
  { s with clients := fun fd => (s.clients fd).map fun c => c.receive (messagesFor fd writes) }

def signal (s : Streams) (kills : List Int) : Streams :=
  { s with clients := fun fd => (s.clients fd).map fun c => if c.pid ∈ kills then c.kill else c }

def setClient (s : Streams) (fd : Int) (c : StreamClient) : Streams :=
  { s with clients := Function.update s.clients fd (some c) }

def onClient (s : Streams) (fd : Int) (step : StreamClient → Option StreamClient) : Option Streams :=
  (s.clients fd).bind fun c => (step c).map fun c => s.setClient fd c

def accept (s : Streams) (fd pid : Int) (buffer bufferMac : Mem) : Streams :=
  let (server, writes) := s.server.accept fd buffer bufferMac
  { s.setClient fd (.connected pid) with server := server }.deliver writes

def console (s : Streams) (console : Console) (buffer : Mem) : Streams :=
  let (server, effects) := s.server.console console buffer
  ({ s with server := server }.signal effects.kills).deliver effects.writes

def clientData (s : Streams) (fd : Int) : Option Streams :=
  (s.clients fd).bind fun c =>
    if c.toServer ≠ [] ∧ fd ∈ s.server.monitorFdSet then
      some { s.setClient fd { c with toServer := c.toServer.drop bufferSize } with
        server := s.server.clientData fd (readPid (c.toServer.take bufferSize)) }
    else
      none

def next (s : Streams) : Label → Option Streams
  | .accept fd pid buffer bufferMac => some (s.accept fd pid buffer bufferMac)
  | .console console buffer => some (s.console console buffer)
  | .clientData fd => s.clientData fd
  | .announce fd => s.onClient fd StreamClient.announce
  | .install fd => s.onClient fd StreamClient.install
  | .read fd => s.onClient fd StreamClient.read
  | .request fd u => s.onClient fd fun c => c.request u
  | .handle fd => s.onClient fd StreamClient.handle

structure Fresh (s : Streams) (fd pid : Int) : Prop where
  -- the server never closes a descriptor of a client, so none of them comes again
  client : s.clients fd = none
  fd_pos : 0 < fd
  fd_ne : fd ≠ s.server.connectionSocket
  pid_pos : 0 < pid
  pid_ne : ∀ fd' c, s.clients fd' = some c → c.phase ≠ .exited → c.pid ≠ pid

/--
The PID fits a `pid_t`, and the line from the console its buffer.
-/
def Sized : Label → Prop
  | .accept _ pid _ _ => pid < 2 ^ 31
  | .console _ buffer => buffer.length = bufferSize
  | _ => True

def Possible (s : Streams) : Label → Prop
  | .accept fd pid _ _ => s.Fresh fd pid
  | _ => True

def start (connectionSocket : Int) (shm : Shm) : Streams where
  server := (Network.start connectionSocket shm).server
  clients := fun _ => none

def system : TransitionSystem Streams Label :=
  .ofGuarded (fun s l => s.Possible l ∧ Sized l) next
    fun s => ∃ connectionSocket > 0, ∃ shm, s = start connectionSocket shm

end Streams

end RoutingTable
