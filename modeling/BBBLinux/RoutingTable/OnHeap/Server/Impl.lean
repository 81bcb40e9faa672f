import BBBLinux.RoutingTable.OnHeap.Impl
import BBBLinux.RoutingTable.Peers.Impl

/-!
This module contains the loop of `server.c` with both tables as they are in memory. Each line from the
console gets blocks of its own for what is read from it. `RoutingTable.Peers.Impl` has the loop on lists.
-/

namespace RoutingTable
namespace OnHeap

open CString LinkedList

structure Memory where
  routes : Heap DataInfo
  head : Option Addr
  macs : Heap MacTableStruct
  headMac : Option Addr

/--
What `calloc` and `malloc` return while one line is handled.
-/
structure Blocks where
  copyBuffer : Addr
  msgInf : Addr
  macInfo : Addr
  localData : Addr
  temp : Addr

structure Server extends Memory where
  -- the blocks for `copy_buffer` and `msg_inf` that are in use
  buffers : List Addr
  shm : Shm
  monitorFdSet : List Int
  clientPidSet : List Int
  connectionSocket : Int

structure Turn where
  server : Server
  retVal : Int
  performed : Bool
  kills : List Int

section Walk

variable {α : Type}

/--
The loop of `send_rtable_to_newly_client` and its siblings, which reads every entry.
-/
def entries : Nat → Heap α → Option Addr → Option (List α)
  | _, _, none => some []
  | 0, _, some _ => none
  | fuel + 1, h, some ptr => do
    let node ← h.node ptr
    let info ← h.record node.info
    let rest ← entries fuel h node.next
    some (info :: rest)

end Walk

def macStructLine (ptr : MacTableStruct) : Mem :=
  text "C " ++ cstr ptr.mac ++ text "\n"

def sendRtableToNewlyClient (fuel : Nat) (buffer : Mem) (h : Heap DataInfo) (head : Option Addr) :
    Option (List Mem) := do
  let infos ← entries fuel h head
  some (sendLines buffer (infos.map routeLine))

def sendMacTableToNewlyClient (fuel : Nat) (buffer : Mem) (h : Heap MacTableStruct)
    (headMac : Option Addr) : Option (List Mem) := do
  let infos ← entries fuel h headMac
  some (sendLines buffer (infos.map macStructLine))

namespace Server

def clientFds (s : Server) : List Int :=
  s.monitorFdSet.filter fun fd => fd ≠ -1 && fd ≠ 0 && fd ≠ s.connectionSocket

def refuse (s : Server) (retVal : Int) : Turn where
  server := s
  retVal := retVal
  performed := false
  kills := []

def accomplish (s : Server) : Turn where
  server := s
  retVal := 1
  performed := true
  kills := []

def freeBuffer (s : Server) (addr : Addr) : Option Server :=
  if addr ∈ s.buffers then some { s with buffers := s.buffers.erase addr } else none

def withRoutes (s : Server) (routes : Heap DataInfo × Option Addr) : Server :=
  { s with routes := routes.1, head := routes.2 }

def withMacs (s : Server) (macs : Heap MacTableStruct × Option Addr) : Server :=
  { s with macs := macs.1, headMac := macs.2 }

def promptIP (s : Server) (console : Console) (store : ShmCalls → Shm → Mem → Mem → Bool × Shm)
    (info : MacTableStruct) (operate : Option (Heap MacTableStruct × Option Addr)) : Option Turn :=
  let retVal : Int := console.reply.length
  let ipValue := memcpy console.ipValue 0 console.reply console.reply.length
  if checkDesIPValid console.locals ipValue = true then
    let (stored, shm) := store console.shmCalls s.shm info.mac ipValue
    let s := { s with shm := shm }
    if stored = true then do
      let macs ← operate
      some (s.withMacs macs).accomplish
    else
      some (s.refuse retVal)
  else
    some (s.refuse retVal)

def dispatch (fuel : Nat) (s : Server) (console : Console) (parsed : Parsed) (b : Blocks) :
    Option Turn := do
  let localData := DataInfo.ofMem parsed.msgInfo.data
  let macInfo ← s.macs.record b.macInfo
  match parsed.msgInfo.opcode with
  | .create =>
    if parsed.isRtMac = .isMac then
      let allowed ← checkConditionMac fuel s.macs s.headMac macInfo .create
      if allowed = true then
        s.promptIP console storeIPToShm macInfo
          (addLastEntryListMac fuel s.macs s.headMac b.macInfo b.temp)
      else
        some (s.refuse 0)
    else
      let allowed ← checkCondition fuel s.routes s.head localData .create
      if allowed = true then
        let routes ← addLastEntryList fuel s.routes s.head b.localData b.temp
        some (s.withRoutes routes).accomplish
      else
        some (s.refuse 0)
  | .update =>
    if parsed.isRtMac = .isMac then
      let allowed ← checkConditionMac fuel s.macs s.headMac macInfo .update
      if allowed = true then
        s.promptIP console updateIPInShm macInfo
          (updateEntryTableMac fuel s.macs s.headMac b.macInfo)
      else
        some (s.refuse 0)
    else
      let allowed ← checkCondition fuel s.routes s.head localData .update
      if allowed = true then
        let routes ← updateEntryTable fuel s.routes s.head b.localData
        some (s.withRoutes routes).accomplish
      else
        some (s.refuse 0)
  | .delete =>
    if parsed.isRtMac = .isMac then
      let allowed ← checkConditionMac fuel s.macs s.headMac macInfo .delete
      if allowed = true then
        let macs ← removeNodeListMac fuel s.macs s.headMac b.macInfo
        some (s.withMacs macs).accomplish
      else
        some (s.refuse 0)
    else
      let allowed ← checkCondition fuel s.routes s.head localData .delete
      if allowed = true then
        let routes ← removeNodeList fuel s.routes s.head b.localData
        some (s.withRoutes routes).accomplish
      else
        some (s.refuse 0)
  | .show => do
    -- `show_routing_table_info` and `show_mac_info`
    let _ ← entries fuel s.routes s.head
    let _ ← entries fuel s.macs s.headMac
    some (s.refuse 1)
  | .flush =>
    let routes ← flushRoutingTableInfo fuel s.routes s.head
    let macs ← flushMacInfo fuel s.macs s.headMac
    some
      { server := (s.withRoutes routes).withMacs macs
        retVal := 0
        performed := true
        kills := s.clientPidSet.filter (· ≠ -1) }
  | .quit => some (s.refuse 0)

def console (fuel : Nat) (s : Server) (console : Console) (buffer : Mem) (b : Blocks) :
    Option (Server × Effects) :=
  let copyBuffer := cstr buffer ++ 0 :: console.afterCopyBuffer
  let parsed := parseLine console.locals copyBuffer
  let s :=
    { s with
      macs := s.macs.setRecord b.macInfo (.ofMac parsed.macAddr)
      buffers := b.msgInf :: b.copyBuffer :: s.buffers }
  if parsed.retVal = true then do
    let s := { s with routes := s.routes.setRecord b.localData (.ofMem parsed.msgInfo.data) }
    let turn ← dispatch fuel s console parsed b
    let s ← turn.server.freeBuffer b.msgInf
    let s ← s.freeBuffer b.copyBuffer
    some (s,
      { writes :=
          if turn.retVal = 1 then turn.server.clientFds.map fun fd => (fd, buffer) else []
        kills := turn.kills
        performed := turn.performed })
  else
    some (s, { writes := [], kills := [], performed := false })

def accept (fuel : Nat) (s : Server) (dataSocket : Int) (buffer bufferMac : Mem) :
    Option (Server × Effects) := do
  let routes ← sendRtableToNewlyClient fuel buffer s.routes s.head
  let macs ← sendMacTableToNewlyClient fuel bufferMac s.macs s.headMac
  some ({ s with monitorFdSet := addToMonitorFdSet s.monitorFdSet dataSocket },
    { writes := (routes ++ macs).map fun message => (dataSocket, message)
      kills := []
      performed := false })

def clientData (s : Server) (fd pid : Int) : Server :=
  if checkAvailablePid s.clientPidSet pid = true then
    { s with clientPidSet := addToPidSet s.clientPidSet pid }
  else
    { s with
      clientPidSet := removeFromClientPidSet s.clientPidSet pid
      monitorFdSet := removeFromMonitorFdSet s.monitorFdSet fd }

end Server

inductive Iteration where
  | accept (dataSocket : Int) (buffer bufferMac : Mem)
  | console (console : Console) (buffer : Mem) (b : Blocks)
  | clientData (fd pid : Int)

namespace Server

def handle (fuel : Nat) (s : Server) : Iteration → Option (Server × Effects)
  | .accept dataSocket buffer bufferMac => s.accept fuel dataSocket buffer bufferMac
  | .console console buffer b => s.console fuel console buffer b
  | .clientData fd pid => some (s.clientData fd pid, { writes := [], kills := [], performed := false })

/--
`calloc` and `malloc` return memory that is not in use.
-/
def Possible (s : Server) : Iteration → Prop
  | .console _ _ b => (s.routes.record b.localData = none ∧ s.macs.record b.macInfo = none)
      ∧ (s.routes.node b.temp = none ∧ s.macs.node b.temp = none)
      ∧ (b.msgInf :: b.copyBuffer :: s.buffers).Nodup
  | _ => True

def start (connectionSocket : Int) (shm : Shm) : Server where
  routes := .empty
  head := none
  macs := .empty
  headMac := none
  buffers := []
  shm := shm
  monitorFdSet := addToMonitorFdSet (addToMonitorFdSet initSet 0) connectionSocket
  clientPidSet := initSet
  connectionSocket := connectionSocket

def system : TransitionSystem Server Iteration where
  init s := ∃ connectionSocket shm, s = start connectionSocket shm
  step s i s' := s.Possible i ∧ ∃ effects, Runs (fun fuel => s.handle fuel i) (s', effects)

end Server

end OnHeap

end RoutingTable
