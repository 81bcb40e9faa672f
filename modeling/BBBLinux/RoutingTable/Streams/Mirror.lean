import BBBLinux.RoutingTable.Network.Mirror
import BBBLinux.RoutingTable.Streams.Refinement

/-!
This module contains that streams of bytes refine a network of messages in which the clients mirror the
server, provided the signals of FLUSH do not come between the messages of a client.
-/

namespace RoutingTable

open CString

variable {U : Locals → Prop} {s : Streams} {net net' : Network} {l : Label} {fd : Int} {c : StreamClient}
  {a a' : Client} {console : Console} {buffer : Mem}

def StreamClient.Idle (c : StreamClient) : Prop :=
  c.inbox = [] ∧ c.buffer = none

namespace Network

end Network

namespace Streams

/--
FLUSH waits until every client has its handler, is known by its PID and has nothing left to work off, and
a client answers the signal before its next request.
-/
def Orderly (U : Locals → Prop) (s : Streams) : Label → Prop
  | .accept _ _ _ _ => -1 ∈ s.server.monitorFdSet
  | .console console buffer =>
    ((parseLine console.locals buffer).retVal = true →
      (parseLine console.locals buffer).opcode.isCommand = true →
        SureLine U console buffer
          ∧ ¬s.server.OneByteReply console (parseLine console.locals buffer))
    ∧ (isFlush console buffer = true → ∀ fd c, s.clients fd = some c →
        (c.phase = .running ∧ c.pid ∈ s.server.clientPidSet) ∧ c.Idle)
  | .request fd u => U u ∧ ∀ c, s.clients fd = some c → c.pending = false
  | _ => True

structure Mirrors (U : Locals → Prop) (s : Streams) (net : Network) : Prop where
  refines : s.Refines net
  mirroring : net.Mirroring U
  workedOff : ∀ fd a, net.clients fd = some a → a.pending = true → Network.WorkedOff net.flushes a

namespace Mirrors

theorem start {connectionSocket : Int} (h : 0 < connectionSocket) (shm : Shm) :
    (Streams.start connectionSocket shm).Mirrors U (Network.start connectionSocket shm) := by
  refine ⟨.start connectionSocket shm, .start h, ?_⟩
  intro fd a ha
  contradiction

end Mirrors

end Streams

end RoutingTable
