import BBBLinux.RoutingTable.Network.Impl

/-!
This module contains the end of the server: SIGINT may come at any point of its loop, and the handler
writes a last message to every client it monitors. A write to a client that has ended raises SIGPIPE,
which ends the server without a word.
-/

namespace RoutingTable

open CString

-- the handler sends 128 bytes from where its two bytes are
def quitMessage (after : Mem) : Mem :=
  bytes bufferSize (text "Q" ++ 0 :: after)

namespace Network

def hasReader (net : Network) (fd : Int) : Bool :=
  (net.clients fd).all fun c => decide (c.phase ≠ .exited)

def consoleUpTo (net : Network) (console : Console) (buffer : Mem) (done : Nat) : Network :=
  let (server, effects) := net.server.console console buffer
  ({ net with server := server }.signal (effects.kills.take done)).deliver (effects.writes.take done)

/--
`added` is false if the descriptor was not in `monitor_fd_set` yet.
-/
def acceptUpTo (net : Network) (fd pid : Int) (buffer bufferMac : Mem) (added : Bool) (done : Nat) :
    Network :=
  let (server, writes) := net.server.accept fd buffer bufferMac
  let connected := net.setClient fd (.connected pid)
  if added = true then
    { connected with server := server, accepted := net.accepted + 1 }.deliver (writes.take done)
  else
    connected

/--
The step in which SIGPIPE ends the server. A client that is being accepted has not ended.
-/
def broken (net : Network) : Label → Option Network
  | .console console buffer =>
    let writes := (net.server.console console buffer).2.writes
    let done := (writes.takeWhile fun write => net.hasReader write.1).length
    if done < writes.length then some (net.consoleUpTo console buffer done) else none
  | _ => none

def orphaned (net : Network) : Label → Option Network
  -- the socket is closed at the other end, and SIGPIPE ends the client
  | .announce fd => net.onClient fd fun c =>
      if c.phase = .connected then some { c with phase := .exited } else none
  | .install fd => net.onClient fd Client.install
  | .read fd => net.onClient fd Client.read
  | .request fd u => net.onClient fd fun c => c.request u
  | .handle fd => net.onClient fd fun c => c.handle net.flushes
  | .accept .. | .console .. | .clientData .. => none

end Network

/--
`told` is there for the specification only: the clients that get the last message and live to read it.
-/
structure Service where
  net : Network
  down : Bool
  told : Int → Bool

/--
SIGINT comes between two iterations of the loop or leaves one of them unfinished.
-/
inductive Occurrence where
  | step (l : Label)
  | sigint (after : Mem)
  | sigintConsole (console : Console) (buffer : Mem) (done : Nat) (after : Mem)
  | sigintAccept (fd pid : Int) (buffer bufferMac : Mem) (added : Bool) (done : Nat) (after : Mem)

namespace Service

def reached (net : Network) : List Int :=
  net.server.clientFds.takeWhile net.hasReader

def finish (net : Network) (after : Mem) : Service where
  net := net.deliver ((reached net).map fun fd => (fd, quitMessage after))
  down := true
  told := fun fd => decide (fd ∈ reached net)
    && (net.clients fd).any fun c => decide (c.phase = .announced ∨ c.phase = .running)

def next (st : Service) : Occurrence → Option Service
  | .step l =>
    if st.down = true then
      (st.net.orphaned l).map fun net => { st with net := net }
    else
      match st.net.broken l with
      | some net => some { st with net := net, down := true }
      | none => (st.net.next l).map fun net => { st with net := net }
  | .sigint after => if st.down = true then none else some (finish st.net after)
  | .sigintConsole console buffer done after =>
    let writes := (st.net.server.console console buffer).2.writes.take done
    if st.down = true ∨ ¬writes.all (fun write => st.net.hasReader write.1) = true then
      none
    else
      some (finish (st.net.consoleUpTo console buffer done) after)
  | .sigintAccept fd pid buffer bufferMac added done after =>
    if st.down = true then
      none
    else
      some (finish (st.net.acceptUpTo fd pid buffer bufferMac added done) after)

def Possible (st : Service) : Occurrence → Prop
  | .step l => st.net.Possible l
  | .sigintAccept fd pid .. => st.net.Fresh fd pid
  | _ => True

def system : TransitionSystem Service Occurrence where
  init st := ∃ connectionSocket > 0, ∃ shm,
    st = { net := Network.start connectionSocket shm, down := false, told := fun _ => false }
  step st o st' := st.Possible o ∧ st.next o = some st'

end Service

end RoutingTable
