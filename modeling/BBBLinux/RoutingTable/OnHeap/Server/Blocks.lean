import BBBLinux.RoutingTable.OnHeap.Server.Dispatch
import BBBLinux.RoutingTable.Peers.Snapshot

/-!
This module contains the runs of the server with its tables in memory: they are runs of the server with
lists, and which blocks of the memory are in use in them.
-/

namespace RoutingTable
namespace OnHeap

open CString LinkedList

def Iteration.onLists (s : RoutingTable.Server) : Iteration → RoutingTable.Server × Effects
  | .accept dataSocket buffer bufferMac =>
    ((s.accept dataSocket buffer bufferMac).1,
      { writes := (s.accept dataSocket buffer bufferMac).2, kills := [], performed := false })
  | .console input buffer _ => s.console input buffer
  | .clientData fd pid => (s.clientData fd pid, { writes := [], kills := [], performed := false })

def listStart (connectionSocket : Int) (shm : Shm) : RoutingTable.Server where
  toTables := .empty
  shm := shm
  monitorFdSet := addToMonitorFdSet (addToMonitorFdSet initSet 0) connectionSocket
  clientPidSet := initSet
  connectionSocket := connectionSocket

def Iteration.lines : Iteration → Nat
  | .console _ _ _ => 1
  | _ => 0

def linesOf : List Iteration → Nat
  | [] => 0
  | i :: is => i.lines + linesOf is

/--
How many of the blocks for a line are lost. `msg_inf` and `copy_buffer` are freed if the line is accepted
only.
-/
def Iteration.loss (s : RoutingTable.Server) : Iteration → Nat
  | .console input buffer _ =>
    let parsed := parseLine input.locals (cstr buffer ++ 0 :: input.afterCopyBuffer)
    if parsed.retVal = true then
      lossOf parsed.msgInfo.opcode (s.dispatch input parsed).performed
    else
      3
  | _ => 0

/--
The runs of one server. The last iteration is the first of the list.
-/
def recorded (connectionSocket : Int) (shm : Shm) :
    TransitionSystem (Server × List Iteration) Iteration :=
  (Server.system.startingAt (.start connectionSocket shm)).withHistory fun _ i => [i]

def after (s : RoutingTable.Server) : List Iteration → RoutingTable.Server
  | [] => s
  | i :: is => (i.onLists (after s is)).1

def lossAfter (s : RoutingTable.Server) : List Iteration → Nat
  | [] => 0
  | i :: is => i.loss (after s is) + lossAfter s is

inductive Block where
  | routeNode (addr : Addr)
  | route (addr : Addr)
  | macNode (addr : Addr)
  | mac (addr : Addr)
  | buffer (addr : Addr)

namespace Server

def InUse (m : Server) : Block → Prop
  | .routeNode addr => m.routes.node addr ≠ none
  | .route addr => m.routes.record addr ≠ none
  | .macNode addr => m.macs.node addr ≠ none
  | .mac addr => m.macs.record addr ≠ none
  | .buffer addr => addr ∈ m.buffers

/--
The memory holds the tables of `s` and `n` blocks that are lost.
-/
def Loses (m : Server) (s : RoutingTable.Server) (n : Nat) : Prop :=
  ∃ r k, m.Stores s r k ∧ m.buffers.Nodup ∧ r + k + m.buffers.length = n

variable {m m' : Server} {s : RoutingTable.Server} {r k n : Nat} {i : Iteration} {console : Console}
  {buffer : Mem} {b : Blocks}

theorem freeBuffer_cons {addr : Addr} {buffers : List Addr} (hbuffers : m.buffers = addr :: buffers) :
    m.freeBuffer addr = some { m with buffers := buffers } := by
  unfold freeBuffer
  rw [hbuffers, if_pos List.mem_cons_self, List.erase_cons_head]

theorem Stores.withBuffers (hstores : m.Stores s r k) (buffers : List Addr) :
    ({ m with buffers := buffers } : Server).Stores s r k :=
  ⟨⟨hstores.shm, hstores.monitorFdSet, hstores.clientPidSet, hstores.connectionSocket⟩, hstores.routes,
    hstores.macs⟩

theorem Stores.ready (hstores : m.Stores s r k) (hpossible : m.Possible (.console console buffer b))
    (info : DataInfo) (mac : Mac) :
    ({ m with
        macs := m.macs.setRecord b.macInfo (.ofMac mac)
        buffers := b.msgInf :: b.copyBuffer :: m.buffers
        routes := m.routes.setRecord b.localData info } : Server).Ready s r k b info mac :=
  ⟨⟨hstores.shm, hstores.monitorFdSet, hstores.clientPidSet, hstores.connectionSocket⟩,
    hstores.routes.allocate hpossible.1.1 info, hstores.macs.allocate hpossible.1.2 (.ofMac mac),
    hpossible.2.1.1, hpossible.2.1.2⟩

theorem console_loses (hloses : m.Loses s n) (hpossible : m.Possible (.console console buffer b)) :
    ∃ m', Runs (fun fuel => m.console fuel console buffer b) (m', (s.console console buffer).2)
      ∧ m'.Loses (s.console console buffer).1 (n + (Iteration.console console buffer b).loss s) := by
  obtain ⟨r, k, hstores, hnodup, hn⟩ := hloses
  unfold Server.console RoutingTable.Server.console Iteration.loss
  dsimp only
  split
  . obtain ⟨t, hrun, hfollows⟩ := dispatch_follows console (hstores.ready hpossible _ _)
    obtain ⟨r', k', hstores', hn'⟩ := hfollows.stores
    have hmsgInf := freeBuffer_cons hfollows.buffers
    have hcopyBuffer := freeBuffer_cons
      (m := { t.server with buffers := b.copyBuffer :: m.buffers }) rfl
    refine ⟨{ t.server with buffers := m.buffers }, ?_, r', k', hstores'.withBuffers _, hnodup, ?_⟩
    . apply hrun.bind
      rw [hmsgInf]
      simp only [Option.bind_eq_bind, Option.bind_some, hcopyBuffer, hfollows.retVal, hfollows.kills,
        hfollows.performed, hstores'.clientFds]
      exact .pure _
    . rw [hn', ← hn, Nat.add_right_comm]
  . have hpending := hstores.macs.allocate hpossible.1.2
      (.ofMac (parseLine console.locals (cstr buffer ++ 0 :: console.afterCopyBuffer)).macAddr)
    refine ⟨_, .pure _, r, k + 1, ⟨?_, hstores.routes, hpending.lose⟩, hpossible.2.2, ?_⟩
    . exact ⟨hstores.shm, hstores.monitorFdSet, hstores.clientPidSet, hstores.connectionSocket⟩
    . simp only [List.length_cons]
      omega

theorem sendMacTable_runs (bufferMac : Mem) (hstores : m.Stores s r k) :
    Runs (fun fuel => sendMacTableToNewlyClient fuel bufferMac m.macs m.headMac)
      (RoutingTable.sendMacTableToNewlyClient bufferMac s.headMac) := by
  have hlines : s.headMac.map macLine = (s.headMac.map MacTableStruct.ofMac).map macStructLine := by
    rw [List.map_map]
    rfl
  unfold RoutingTable.sendMacTableToNewlyClient
  rw [hlines]
  exact (entries_runs hstores.macsHold).bind (.pure _)

theorem accept_loses (dataSocket : Int) (buffer bufferMac : Mem) (hloses : m.Loses s n) :
    ∃ m', Runs (fun fuel => m.accept fuel dataSocket buffer bufferMac)
        (m', ((Iteration.accept dataSocket buffer bufferMac).onLists s).2)
      ∧ m'.Loses (s.accept dataSocket buffer bufferMac).1 n := by
  obtain ⟨r, k, hstores, hlength⟩ := hloses
  have hroutes : Runs (fun fuel => sendRtableToNewlyClient fuel buffer m.routes m.head)
      (RoutingTable.sendRtableToNewlyClient buffer s.head) :=
    (entries_runs hstores.routesHold).bind (.pure _)
  refine ⟨_, hroutes.bind ((sendMacTable_runs bufferMac hstores).bind (.pure _)), r, k, ?_, hlength⟩
  refine ⟨⟨hstores.shm, ?_, hstores.clientPidSet, hstores.connectionSocket⟩, hstores.routes, hstores.macs⟩
  unfold RoutingTable.Server.accept
  rw [hstores.monitorFdSet]

theorem clientData_loses (fd pid : Int) (hloses : m.Loses s n) :
    (m.clientData fd pid).Loses (s.clientData fd pid) n := by
  obtain ⟨r, k, hstores, hlength⟩ := hloses
  unfold Server.clientData RoutingTable.Server.clientData
  rw [hstores.clientPidSet, hstores.monitorFdSet]
  split
  . exact ⟨r, k, ⟨⟨hstores.shm, rfl, rfl, hstores.connectionSocket⟩, hstores.routes, hstores.macs⟩, hlength⟩
  . exact ⟨r, k, ⟨⟨hstores.shm, rfl, rfl, hstores.connectionSocket⟩, hstores.routes, hstores.macs⟩, hlength⟩

/--
No iteration of the loop reads or frees what is not there.
-/
theorem handle_loses (hloses : m.Loses s n) (hpossible : m.Possible i) :
    ∃ m', Runs (fun fuel => m.handle fuel i) (m', (i.onLists s).2)
      ∧ m'.Loses (i.onLists s).1 (n + i.loss s) := by
  cases i with
  | accept dataSocket buffer bufferMac => exact accept_loses dataSocket buffer bufferMac hloses
  | console console buffer b => exact console_loses hloses hpossible
  | clientData fd pid => exact ⟨_, .pure _, clientData_loses fd pid hloses⟩

theorem step_loses (hloses : m.Loses s n) (hstep : system.step m i m') :
    m'.Loses (i.onLists s).1 (n + i.loss s) := by
  obtain ⟨hpossible, effects, hruns⟩ := hstep
  obtain ⟨m'', hruns', hloses'⟩ := handle_loses hloses hpossible
  have heq := hruns.unique hruns'
  rw [Prod.mk.injEq] at heq
  rw [heq.1]
  exact hloses'

/--
There are two blocks for each entry of the tables, and those that are lost.
-/
theorem Loses.blocks (hloses : m.Loses s n) : ∃ blocks : List Block,
    blocks.Nodup ∧ (∀ block, block ∈ blocks ↔ m.InUse block)
      ∧ blocks.length = 2 * (s.head.length + s.headMac.length) + n := by
  obtain ⟨r, k, hstores, hnodup, hn⟩ := hloses
  obtain ⟨routeNodes, routes, ⟨hrouteNodes, hrouteNode⟩, ⟨hroutes, hroute⟩, hroutesLength⟩ :=
    hstores.routes.blocks
  obtain ⟨macNodes, macs, ⟨hmacNodes, hmacNode⟩, ⟨hmacs, hmac⟩, hmacsLength⟩ := hstores.macs.blocks
  refine ⟨routeNodes.map Block.routeNode ++ (routes.map Block.route ++ (macNodes.map Block.macNode
    ++ (macs.map Block.mac ++ m.buffers.map Block.buffer))), ?_, ?_, ?_⟩
  . refine List.nodup_append.mpr ⟨hrouteNodes.map fun _ _ => Block.routeNode.inj, ?_, by grind⟩
    refine List.nodup_append.mpr ⟨hroutes.map fun _ _ => Block.route.inj, ?_, by grind⟩
    refine List.nodup_append.mpr ⟨hmacNodes.map fun _ _ => Block.macNode.inj, ?_, by grind⟩
    refine List.nodup_append.mpr ⟨hmacs.map fun _ _ => Block.mac.inj, ?_, by grind⟩
    exact hnodup.map fun _ _ => Block.buffer.inj
  . intro block
    simp only [List.mem_append, List.mem_map]
    cases block <;> simp [InUse, *]
  . simp only [List.length_append, List.length_map] at hmacsLength ⊢
    omega

theorem start_loses (connectionSocket : Int) (shm : Shm) :
    (start connectionSocket shm).Loses (listStart connectionSocket shm) 0 :=
  ⟨0, 0, ⟨⟨rfl, rfl, rfl, rfl⟩, .empty, .empty⟩, List.nodup_nil, rfl⟩

theorem recorded_loses {connectionSocket : Int} {shm : Shm} {p : Server × List Iteration}
    (h : (recorded connectionSocket shm).Reachable p) :
    p.1.Loses (after (listStart connectionSocket shm) p.2) (lossAfter (listStart connectionSocket shm) p.2) := by
  apply h.invariant
  . intro p hinit
    obtain ⟨hstart, hempty⟩ := hinit
    rw [hstart, hempty]
    exact start_loses connectionSocket shm
  . intro p i q hloses _ hstep
    rw [hstep.2, List.singleton_append, after, lossAfter, Nat.add_comm]
    exact step_loses hloses hstep.1

end Server

theorem lossOf_pos (opcode : Opcode) (performed : Bool) : 1 ≤ lossOf opcode performed ∧ lossOf opcode performed ≤ 3 := by
  unfold lossOf
  split <;> omega

theorem Iteration.loss_bounds (s : RoutingTable.Server) (i : Iteration) :
    i.lines ≤ i.loss s ∧ i.loss s ≤ 3 * i.lines := by
  cases i with
  | console input buffer b =>
    unfold Iteration.loss Iteration.lines
    dsimp only
    split
    . exact lossOf_pos _ _
    . omega
  | _ => exact ⟨Nat.le_refl _, Nat.le_refl _⟩

theorem lossAfter_bounds (s : RoutingTable.Server) (is : List Iteration) :
    linesOf is ≤ lossAfter s is ∧ lossAfter s is ≤ 3 * linesOf is := by
  induction is with
  | nil => exact ⟨Nat.le_refl _, Nat.le_refl _⟩
  | cons i is ih =>
    have hstep := i.loss_bounds (after s is)
    unfold lossAfter linesOf
    omega

theorem recorded_next {connectionSocket : Int} {shm : Shm} {m : Server} {is : List Iteration}
    {i : Iteration} (h : (recorded connectionSocket shm).Reachable (m, is)) (hpossible : m.Possible i) :
    ∃ m', Runs (fun fuel => m.handle fuel i) (m', (i.onLists (after (listStart connectionSocket shm) is)).2)
      ∧ (recorded connectionSocket shm).Reachable (m', i :: is) := by
  obtain ⟨m', hruns, _⟩ := Server.handle_loses (Server.recorded_loses h) hpossible
  exact ⟨m', hruns, h.step trivial ⟨⟨hpossible, _, hruns⟩, rfl⟩⟩

theorem tables_stored {connectionSocket : Int} {shm : Shm} {m : Server} {is : List Iteration}
    (h : (recorded connectionSocket shm).Reachable (m, is)) :
    m.Loses (after (listStart connectionSocket shm) is) (lossAfter (listStart connectionSocket shm) is)
      ∧ ∀ i, m.Possible i → ∃ m',
        Runs (fun fuel => m.handle fuel i) (m', (i.onLists (after (listStart connectionSocket shm) is)).2)
          ∧ (recorded connectionSocket shm).Reachable (m', i :: is) := by
  constructor
  . exact Server.recorded_loses h
  . intro i hpossible
    exact recorded_next h hpossible

def firstLine : Iteration :=
  .console (.replying "") createRouteLine { copyBuffer := 0, msgInf := 1, macInfo := 2, localData := 3, temp := 4 }

theorem reachable_firstLine : ∃ m, (recorded 3 fun _ => none).Reachable (m, [firstLine]) := by
  have hstart : (recorded 3 fun _ => none).Reachable (.start 3 fun _ => none, []) := .init ⟨rfl, rfl⟩
  obtain ⟨m, _, hreachable⟩ :=
    recorded_next (i := firstLine) hstart ⟨⟨rfl, rfl⟩, ⟨rfl, rfl⟩, by decide⟩
  exact ⟨m, hreachable⟩

theorem tables_stored_firstLine : ∃ m, (recorded 3 fun _ => none).Reachable (m, [firstLine])
    ∧ m.Loses (after (listStart 3 fun _ => none) [firstLine]) 1
    ∧ (after (listStart 3 fun _ => none) [firstLine]).head.length = 1 := by
  obtain ⟨m, hreachable⟩ := reachable_firstLine
  have hloss : lossAfter (listStart 3 fun _ => none) [firstLine] = 1 := by decide +kernel
  have hstored := (tables_stored hreachable).1
  rw [hloss] at hstored
  exact ⟨m, hreachable, hstored, by decide +kernel⟩

theorem blocks_exact {connectionSocket : Int} {shm : Shm} {m : Server} {is : List Iteration}
    (h : (recorded connectionSocket shm).Reachable (m, is)) : ∃ blocks : List Block,
    (blocks.Nodup ∧ ∀ block, block ∈ blocks ↔ m.InUse block)
      ∧ blocks.length = 2 * ((after (listStart connectionSocket shm) is).head.length
          + (after (listStart connectionSocket shm) is).headMac.length)
        + lossAfter (listStart connectionSocket shm) is
      ∧ linesOf is ≤ lossAfter (listStart connectionSocket shm) is
      ∧ lossAfter (listStart connectionSocket shm) is ≤ 3 * linesOf is := by
  obtain ⟨blocks, hnodup, hmem, hlength⟩ := (Server.recorded_loses h).blocks
  exact ⟨blocks, ⟨hnodup, hmem⟩, hlength, lossAfter_bounds _ is⟩

theorem blocks_exact_firstLine : ∃ m, (recorded 3 fun _ => none).Reachable (m, [firstLine])
    ∧ ∃ blocks : List Block, (∀ block, block ∈ blocks ↔ m.InUse block) ∧ blocks.length = 3 := by
  obtain ⟨m, hreachable⟩ := reachable_firstLine
  obtain ⟨blocks, ⟨_, hmem⟩, hlength, _⟩ := blocks_exact hreachable
  refine ⟨m, hreachable, blocks, hmem, ?_⟩
  rw [hlength]
  decide +kernel

end OnHeap

end RoutingTable
