import BBBLinux.RoutingTable.Parser.Impl
import BBBLinux.RoutingTable.Table.Impl
import BBBLinux.Transition.Basic

/-!
This module contains the main loops of `server.c` and `client.c`: what the server does for a new
connection, for a line from its console and for data from a client, and what a client does with a
message from the server.
-/

namespace RoutingTable

open CString

def replaceFirst (old new : Int) : List Int → List Int
  | [] => []
  | x :: slots => if x = old then new :: slots else x :: replaceFirst old new slots

def initSet : List Int :=
  List.replicate maxClientsSupport (-1)

def addToMonitorFdSet (monitorFdSet : List Int) (fd : Int) : List Int :=
  replaceFirst (-1) fd monitorFdSet

def removeFromMonitorFdSet (monitorFdSet : List Int) (fd : Int) : List Int :=
  replaceFirst fd (-1) monitorFdSet

def checkAvailablePid (clientPidSet : List Int) (pid : Int) : Bool :=
  clientPidSet.all (· ≠ pid)

def addToPidSet (clientPidSet : List Int) (pid : Int) : List Int :=
  replaceFirst (-1) pid clientPidSet

def removeFromClientPidSet (clientPidSet : List Int) (pid : Int) : List Int :=
  replaceFirst pid (-1) clientPidSet

abbrev Shm := Mem → Option Mem

structure ShmCalls where
  shmOpen : Bool
  ftruncate : Bool
  mmap : Bool
  munmap : Bool

def writeIPToShm (calls : ShmCalls) (shm : Shm) (mac ip : Mem) : Bool × Shm :=
  let set (contents : Mem) : Shm := fun name => if name = cstr mac then some contents else shm name
  if calls.shmOpen = false then
    (false, shm)
  else if calls.ftruncate = false then
    (false, set [])
  else if calls.mmap = false then
    (false, set (List.replicate ipAddrLen 0))
  else if calls.munmap = false then
    (false, set (bytes ipAddrLen ip))
  else
    (true, set (bytes ipAddrLen ip))

def storeIPToShm (calls : ShmCalls) (shm : Shm) (mac ip : Mem) : Bool × Shm :=
  writeIPToShm calls shm mac ip

def updateIPInShm (calls : ShmCalls) (shm : Shm) (mac ip : Mem) : Bool × Shm :=
  writeIPToShm calls shm mac ip

def sendLines (buffer : Mem) : List Mem → List Mem
  | [] => []
  | line :: lines =>
    -- the buffer keeps what the earlier lines left behind its end
    let buffer := memcpy buffer 0 (line ++ [0]) (line.length + 1)
    bytes bufferSize buffer :: sendLines buffer lines

def routeLine (ptr : DataInfo) : Mem :=
  text "C " ++ cstr ptr.destination ++ text " " ++ cstr ptr.mask ++ text " " ++ cstr ptr.gatewayIp
    ++ text " " ++ cstr ptr.oif ++ text "\n"

def macLine (ptr : Mac) : Mem :=
  text "C " ++ cstr ptr.mac ++ text "\n"

def sendRtableToNewlyClient (buffer : Mem) (head : List DataInfo) : List Mem :=
  sendLines buffer (head.map routeLine)

def sendMacTableToNewlyClient (buffer : Mem) (headMac : List Mac) : List Mem :=
  sendLines buffer (headMac.map macLine)

structure Server extends Tables where
  shm : Shm
  monitorFdSet : List Int
  clientPidSet : List Int
  connectionSocket : Int

structure Console where
  locals : Locals
  afterCopyBuffer : Mem
  ipValue : Mem
  reply : Mem
  shmCalls : ShmCalls

structure Turn where
  server : Server
  retVal : Int
  -- an operation on a table was executed
  performed : Bool
  kills : List Int

structure Effects where
  writes : List (Int × Mem)
  kills : List Int
  performed : Bool

namespace Server

def clientFds (s : Server) : List Int :=
  s.monitorFdSet.filter fun fd => fd ≠ -1 && fd ≠ 0 && fd ≠ s.connectionSocket

def refuse (s : Server) (retVal : Int) : Turn where
  server := s
  retVal := retVal
  performed := false
  kills := []

def accomplish (s : Server) (tables : Tables) : Turn where
  server := { s with toTables := tables }
  retVal := 1
  performed := true
  kills := []

def promptIP (s : Server) (console : Console)
    (store : ShmCalls → Shm → Mem → Mem → Bool × Shm) (mac : Mac) (tables : Tables) : Turn :=
  -- until an operation is performed `ret_val` is the number of bytes read
  let retVal : Int := console.reply.length
  let ipValue := memcpy console.ipValue 0 console.reply console.reply.length
  if checkDesIPValid console.locals ipValue = true then
    let (stored, shm) := store console.shmCalls s.shm mac.mac ipValue
    let s := { s with shm := shm }
    if stored = true then
      s.accomplish tables
    else
      s.refuse retVal
  else
    s.refuse retVal

def dispatch (s : Server) (console : Console) (parsed : Parsed) : Turn :=
  let localData := DataInfo.ofMem parsed.msgInfo.data
  let macInfo := parsed.macAddr
  match parsed.msgInfo.opcode with
  | .create =>
    if parsed.isRtMac = .isMac then
      if checkConditionMac s.headMac macInfo .create = true then
        s.promptIP console storeIPToShm macInfo
          { s.toTables with headMac := addLastEntryListMac s.headMac macInfo }
      else
        s.refuse 0
    else if checkCondition s.head localData .create = true then
      s.accomplish { s.toTables with head := addLastEntryList s.head localData }
    else
      s.refuse 0
  | .update =>
    if parsed.isRtMac = .isMac then
      if checkConditionMac s.headMac macInfo .update = true then
        s.promptIP console updateIPInShm macInfo
          { s.toTables with headMac := updateEntryTableMac s.headMac macInfo }
      else
        s.refuse 0
    else if checkCondition s.head localData .update = true then
      s.accomplish { s.toTables with head := updateEntryTable s.head localData }
    else
      s.refuse 0
  | .delete =>
    if parsed.isRtMac = .isMac then
      if checkConditionMac s.headMac macInfo .delete = true then
        s.accomplish { s.toTables with headMac := removeNodeListMac s.headMac macInfo }
      else
        s.refuse 0
    else if checkCondition s.head localData .delete = true then
      s.accomplish { s.toTables with head := removeNodeList s.head localData }
    else
      s.refuse 0
  | .show => s.refuse 1
  | .flush =>
    { server :=
        { s with head := flushRoutingTableInfo s.head, headMac := flushMacInfo s.headMac }
      retVal := 0
      performed := true
      kills := s.clientPidSet.filter (· ≠ -1) }
  | .quit => s.refuse 0

def console (s : Server) (console : Console) (buffer : Mem) : Server × Effects :=
  -- `strcpy` to memory from `malloc`
  let copyBuffer := cstr buffer ++ 0 :: console.afterCopyBuffer
  let parsed := parseLine console.locals copyBuffer
  if parsed.retVal = true then
    let turn := s.dispatch console parsed
    (turn.server,
      { writes :=
          if turn.retVal = 1 then turn.server.clientFds.map fun fd => (fd, buffer) else []
        kills := turn.kills
        performed := turn.performed })
  else
    (s, { writes := [], kills := [], performed := false })

def accept (s : Server) (dataSocket : Int) (buffer bufferMac : Mem) : Server × List (Int × Mem) :=
  ({ s with monitorFdSet := addToMonitorFdSet s.monitorFdSet dataSocket },
    (sendRtableToNewlyClient buffer s.head ++ sendMacTableToNewlyClient bufferMac s.headMac).map
      fun message => (dataSocket, message))

def clientData (s : Server) (fd pid : Int) : Server :=
  if checkAvailablePid s.clientPidSet pid = true then
    { s with clientPidSet := addToPidSet s.clientPidSet pid }
  else
    { s with
      clientPidSet := removeFromClientPidSet s.clientPidSet pid
      monitorFdSet := removeFromMonitorFdSet s.monitorFdSet fd }

end Server

def consoleSystem : TransitionSystem Server (Console × Mem) :=
  .ofStep (·.toTables = Tables.empty) fun s line => some (s.console line.1 line.2).1

def messagesFor (fd : Int) (writes : List (Int × Mem)) : List Mem :=
  (writes.filter fun write => write.1 = fd).map fun write => write.2

def request (t : Tables) (u : Locals) (buffer : Mem) : Option Tables :=
  let parsed := parseLine u buffer
  if parsed.retVal = true then
    let localData := DataInfo.ofMem parsed.msgInfo.data
    let macInfo := parsed.macAddr
    match parsed.msgInfo.opcode with
    | .create =>
      if parsed.isRtMac = .isMac then
        if checkConditionMac t.headMac macInfo .create = true then
          some { t with headMac := addLastEntryListMac t.headMac macInfo }
        else
          some t
      else if checkCondition t.head localData .create = true then
        some { t with head := addLastEntryList t.head localData }
      else
        some t
    | .update =>
      if parsed.isRtMac = .isMac then
        if checkConditionMac t.headMac macInfo .update = true then
          some { t with headMac := updateEntryTableMac t.headMac macInfo }
        else
          some t
      else if checkCondition t.head localData .update = true then
        some { t with head := updateEntryTable t.head localData }
      else
        some t
    | .delete =>
      if parsed.isRtMac = .isMac then
        if checkConditionMac t.headMac macInfo .delete = true then
          some { t with headMac := removeNodeListMac t.headMac macInfo }
        else
          some t
      else if checkCondition t.head localData .delete = true then
        some { t with head := removeNodeList t.head localData }
      else
        some t
    | .show => some t
    | .flush => some { head := flushRoutingTableInfo t.head, headMac := flushMacInfo t.headMac }
    -- the client exits
    | .quit => none
  else
    some t

def requests (t : Tables) (messages : List (Locals × Mem)) : Option Tables :=
  messages.foldlM (fun t message => request t message.1 message.2) t

def signalHandler (t : Tables) : Tables where
  head := flushRoutingTableInfo t.head
  headMac := flushMacInfo t.headMac

end RoutingTable
