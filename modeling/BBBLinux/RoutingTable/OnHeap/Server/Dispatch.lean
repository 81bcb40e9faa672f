import BBBLinux.LinkedList.Account
import BBBLinux.RoutingTable.OnHeap.Tables
import BBBLinux.RoutingTable.OnHeap.Server.Impl

/-!
This module shows that what the server does with its tables in memory for a line from the console is
what `RoutingTable.Server.dispatch` does with lists, and how many of the records that are allocated for
the line are lost.
-/

namespace RoutingTable
namespace OnHeap

open CString LinkedList

section Walk

variable {α : Type} {h : Heap α} {p : Option Addr} {cs : List (Cell α)} {l : List α}

theorem entries_eq {fuel : Nat} (hseg : Segment h p cs none) (hfuel : cs.length ≤ fuel) :
    entries fuel h p = some (cs.map Cell.value) := by
  induction cs generalizing p fuel with
  | nil =>
    cases hseg
    unfold entries
    rfl
  | cons c cs ih =>
    obtain ⟨fuel, rfl⟩ := Nat.exists_eq_succ_of_ne_zero (Nat.ne_of_gt (Nat.zero_lt_of_lt hfuel))
    cases hseg with
    | cons hnode hrecord hrest =>
      have hnext := ih hrest (Nat.le_of_succ_le_succ hfuel)
      simp only [entries, hnode, hrecord, hnext, Option.bind_eq_bind, Option.bind_some, List.map_cons]

theorem entries_runs (hholds : Holds h p l) : Runs (fun fuel => entries fuel h p) l := by
  obtain ⟨cs, hlist, rfl⟩ := hholds
  exact ⟨cs.length, fun _ hfuel => entries_eq hlist.segment hfuel⟩

end Walk

theorem map_updateEntryTableMac (l : List Mac) (info : Mac) :
    (RoutingTable.updateEntryTableMac l info).map MacTableStruct.ofMac
      = (l.map .ofMac).map fun a =>
          if a.prefixKey = (MacTableStruct.ofMac info).prefixKey then .ofMac info else a := by
  rw [RoutingTable.updateEntryTableMac_eq, KeyedList.update, List.map_map, List.map_map]
  apply List.map_congr_left
  intro m _
  simp only [Function.comp_apply, MacTableStruct.prefixKey_ofMac, apply_ite MacTableStruct.ofMac]

theorem map_removeNodeListMac (l : List Mac) (info : Mac) :
    (RoutingTable.removeNodeListMac l info).map MacTableStruct.ofMac
      = (l.map .ofMac).eraseP fun a => decide (a.stringKey = (MacTableStruct.ofMac info).stringKey) := by
  rw [RoutingTable.removeNodeListMac_eq, List.eraseP_map]
  rfl

/--
What is not a table is the same.
-/
structure Server.Agrees (m : Server) (s : RoutingTable.Server) : Prop where
  shm : m.shm = s.shm
  monitorFdSet : m.monitorFdSet = s.monitorFdSet
  clientPidSet : m.clientPidSet = s.clientPidSet
  connectionSocket : m.connectionSocket = s.connectionSocket

/--
The memory holds the tables of `s`, and `r` routes and `k` MAC addresses that are lost.
-/
structure Server.Stores (m : Server) (s : RoutingTable.Server) (r k : Nat) : Prop
    extends Server.Agrees m s where
  routes : HoldsLost m.routes m.head s.head r
  macs : HoldsLost m.macs m.headMac (s.headMac.map .ofMac) k

/--
`local_data` and `mac_info` have been allocated and filled in.
-/
structure Server.Ready (m : Server) (s : RoutingTable.Server) (r k : Nat) (b : Blocks) (info : DataInfo)
    (mac : Mac) : Prop extends Server.Agrees m s where
  routes : Pending m.routes m.head s.head r b.localData info
  macs : Pending m.macs m.headMac (s.headMac.map .ofMac) k b.macInfo (.ofMac mac)
  routesTemp : m.routes.node b.temp = none
  macsTemp : m.macs.node b.temp = none

def lossOf (opcode : Opcode) (performed : Bool) : Nat :=
  if opcode = .create ∧ performed = true then 1 else 2

structure Turn.Follows (t : Turn) (t' : RoutingTable.Turn) (buffers : List Addr) (n : Nat) : Prop where
  stores : ∃ r k, t.server.Stores t'.server r k ∧ r + k = n
  buffers : t.server.buffers = buffers
  retVal : t.retVal = t'.retVal
  performed : t.performed = t'.performed
  kills : t.kills = t'.kills

theorem guarded_follows {check : Nat → Option Bool} {allowed : Bool} {op : Nat → Option Turn}
    {refused : Turn} {t' refused' : RoutingTable.Turn} {buffers : List Addr} {n : Nat} {loss : Bool → Nat}
    (hcheck : Runs check allowed)
    (hop : ∃ t, Runs op t ∧ t.Follows t' buffers (n + loss t'.performed))
    (hrefused : refused.Follows refused' buffers (n + loss refused'.performed)) :
    ∃ t, Runs (fun fuel => (check fuel).bind fun allowed =>
          if allowed = true then op fuel else some refused) t
      ∧ t.Follows (if allowed = true then t' else refused') buffers
          (n + loss (if allowed = true then t' else refused').performed) := by
  cases allowed with
  | false => exact ⟨refused, hcheck.bind (.pure _), hrefused⟩
  | true =>
    obtain ⟨t, hrun, hfollows⟩ := hop
    exact ⟨t, hcheck.bind hrun, hfollows⟩

namespace Server

variable {m : Server} {s : RoutingTable.Server} {r k : Nat} {b : Blocks} {info : DataInfo} {mac : Mac}

theorem Agrees.clientFds (hagrees : m.Agrees s) : m.clientFds = s.clientFds := by
  unfold Server.clientFds RoutingTable.Server.clientFds
  rw [hagrees.monitorFdSet, hagrees.connectionSocket]

theorem Stores.routesHold (hstores : m.Stores s r k) : Holds m.routes m.head s.head := by
  obtain ⟨cs, _, haccounts, hvalues, _⟩ := hstores.routes
  exact ⟨cs, haccounts.toRepresents, hvalues⟩

theorem Stores.macsHold (hstores : m.Stores s r k) : Holds m.macs m.headMac (s.headMac.map .ofMac) := by
  obtain ⟨cs, _, haccounts, hvalues, _⟩ := hstores.macs
  exact ⟨cs, haccounts.toRepresents, hvalues⟩

namespace Ready

variable (hready : m.Ready s r k b info mac)
include hready

theorem stores : m.Stores s (r + 1) (k + 1) :=
  ⟨hready.toAgrees, hready.routes.lose, hready.macs.lose⟩

theorem refuse {opcode : Opcode} (retVal : Int) : (m.refuse retVal).Follows (s.refuse retVal) m.buffers
    (r + k + lossOf opcode false) := by
  refine ⟨⟨r + 1, k + 1, hready.stores, ?_⟩, rfl, rfl, rfl, rfl⟩
  unfold lossOf
  rw [if_neg (by simp)]
  omega

theorem withRoutes {routes : Heap DataInfo × Option Addr} {head : List DataInfo} {r' : Nat}
    (hroutes : HoldsLost routes.1 routes.2 head r') :
    (m.withRoutes routes).Stores { s with head := head } r' (k + 1) :=
  ⟨⟨hready.shm, hready.monitorFdSet, hready.clientPidSet, hready.connectionSocket⟩, hroutes,
    hready.macs.lose⟩

theorem withMacs {macs : Heap MacTableStruct × Option Addr} {headMac : List Mac} {k' : Nat}
    (hmacs : HoldsLost macs.1 macs.2 (headMac.map .ofMac) k') :
    (m.withMacs macs).Stores { s with headMac := headMac } (r + 1) k' :=
  ⟨⟨hready.shm, hready.monitorFdSet, hready.clientPidSet, hready.connectionSocket⟩, hready.routes.lose,
    hmacs⟩

theorem accomplishRoutes {op : Nat → Option (Heap DataInfo × Option Addr)} {head : List DataInfo}
    {r' loss : Nat}
    (hop : ∃ h' head', Runs op (h', head') ∧ HoldsLost h' head' head r') (hloss : r' + 1 = r + loss) :
    ∃ t, Runs (fun fuel => (op fuel).bind fun routes => some (m.withRoutes routes).accomplish) t
      ∧ t.Follows (s.accomplish { s.toTables with head := head }) m.buffers (r + k + loss) := by
  obtain ⟨h', head', hrun, hholds⟩ := hop
  refine ⟨_, hrun.bind (.pure _), ⟨r', k + 1, hready.withRoutes hholds, ?_⟩, rfl, rfl, rfl, rfl⟩
  omega

theorem accomplishMacs {op : Nat → Option (Heap MacTableStruct × Option Addr)} {headMac : List Mac}
    {k' loss : Nat}
    (hop : ∃ h' head', Runs op (h', head') ∧ HoldsLost h' head' (headMac.map .ofMac) k')
    (hloss : k' + 1 = k + loss) :
    ∃ t, Runs (fun fuel => (op fuel).bind fun macs => some (m.withMacs macs).accomplish) t
      ∧ t.Follows (s.accomplish { s.toTables with headMac := headMac }) m.buffers (r + k + loss) := by
  obtain ⟨h', head', hrun, hholds⟩ := hop
  refine ⟨_, hrun.bind (.pure _), ⟨r + 1, k', hready.withMacs hholds, ?_⟩, rfl, rfl, rfl, rfl⟩
  omega

theorem withShm (shm : Shm) : ({ m with shm := shm } : Server).Ready { s with shm := shm } r k b info mac :=
  ⟨⟨rfl, hready.monitorFdSet, hready.clientPidSet, hready.connectionSocket⟩, hready.routes, hready.macs,
    hready.routesTemp, hready.macsTemp⟩

theorem promptIP {opcode : Opcode} {op : Nat → Option (Heap MacTableStruct × Option Addr)}
    {headMac : List Mac} {k' : Nat} (console : Console)
    (store : ShmCalls → Shm → Mem → Mem → Bool × Shm)
    (hop : ∃ h' head', Runs op (h', head') ∧ HoldsLost h' head' (headMac.map .ofMac) k')
    (hloss : k' + 1 = k + lossOf opcode true) :
    ∃ t, Runs (fun fuel => m.promptIP console store (.ofMac mac) (op fuel)) t
      ∧ t.Follows (s.promptIP console store mac { s.toTables with headMac := headMac }) m.buffers
          (r + k + lossOf opcode
            (s.promptIP console store mac { s.toTables with headMac := headMac }).performed) := by
  unfold Server.promptIP RoutingTable.Server.promptIP
  dsimp only
  rw [hready.shm]
  split
  . have hwith := hready.withShm
      (store console.shmCalls s.shm mac.mac
        (memcpy console.ipValue 0 console.reply console.reply.length)).2
    cases hstored : (store console.shmCalls s.shm mac.mac
        (memcpy console.ipValue 0 console.reply console.reply.length)).1 with
    | false =>
      simp only [MacTableStruct.ofMac, hstored, Bool.false_eq_true, if_false]
      exact ⟨_, .pure _, hwith.refuse _⟩
    | true =>
      simp only [MacTableStruct.ofMac, hstored, if_true]
      exact hwith.accomplishMacs hop hloss
  . exact ⟨_, .pure _, hready.refuse _⟩

theorem checkRoute (opcode : Opcode) :
    Runs (fun fuel => checkCondition fuel m.routes m.head info opcode)
      (RoutingTable.checkCondition s.head info opcode) := by
  obtain ⟨cs, hlist, hvalues⟩ := hready.stores.routesHold
  rw [← hvalues]
  exact checkCondition_runs hlist opcode

theorem checkMac (opcode : Opcode) :
    Runs (fun fuel => checkConditionMac fuel m.macs m.headMac (.ofMac mac) opcode)
      (RoutingTable.checkConditionMac s.headMac mac opcode) := by
  obtain ⟨cs, hlist, hvalues⟩ := hready.stores.macsHold
  exact checkConditionMac_runs mac hlist hvalues opcode

theorem addRoute : ∃ h' head',
    Runs (fun fuel => addLastEntryList fuel m.routes m.head b.localData b.temp) (h', head')
      ∧ HoldsLost h' head' (RoutingTable.addLastEntryList s.head info) r := by
  rw [RoutingTable.addLastEntryList_eq]
  exact hready.routes.append appendsLast_addLastEntryList hready.routesTemp

theorem updateRoute : ∃ h' head',
    Runs (fun fuel => updateEntryTable fuel m.routes m.head b.localData) (h', head')
      ∧ HoldsLost h' head' (RoutingTable.updateEntryTable s.head info) (r + 1) := by
  rw [RoutingTable.updateEntryTable_eq]
  exact hready.routes.update updatesAll_updateEntryTable

theorem removeRoute : ∃ h' head',
    Runs (fun fuel => removeNodeList fuel m.routes m.head b.localData) (h', head')
      ∧ HoldsLost h' head' (RoutingTable.removeNodeList s.head info) (r + 1) := by
  rw [RoutingTable.removeNodeList_eq]
  exact hready.routes.remove removesFirst_removeNodeList

theorem addMac : ∃ h' head',
    Runs (fun fuel => addLastEntryListMac fuel m.macs m.headMac b.macInfo b.temp) (h', head')
      ∧ HoldsLost h' head' ((RoutingTable.addLastEntryListMac s.headMac mac).map .ofMac) k := by
  rw [RoutingTable.addLastEntryListMac_eq, List.map_append]
  exact hready.macs.append appendsLast_addLastEntryListMac hready.macsTemp

theorem updateMac : ∃ h' head',
    Runs (fun fuel => updateEntryTableMac fuel m.macs m.headMac b.macInfo) (h', head')
      ∧ HoldsLost h' head' ((RoutingTable.updateEntryTableMac s.headMac mac).map .ofMac) (k + 1) := by
  rw [map_updateEntryTableMac]
  exact hready.macs.update updatesAll_updateEntryTableMac

theorem removeMac : ∃ h' head',
    Runs (fun fuel => removeNodeListMac fuel m.macs m.headMac b.macInfo) (h', head')
      ∧ HoldsLost h' head' ((RoutingTable.removeNodeListMac s.headMac mac).map .ofMac) (k + 1) := by
  rw [map_removeNodeListMac]
  exact hready.macs.remove removesFirst_removeNodeListMac

end Ready

theorem dispatch_follows (console : Console) {parsed : Parsed}
    (hready : m.Ready s r k b (.ofMem parsed.msgInfo.data) parsed.macAddr) :
    ∃ t, Runs (fun fuel => m.dispatch fuel console parsed b) t
      ∧ t.Follows (s.dispatch console parsed) m.buffers
          (r + k + lossOf parsed.msgInfo.opcode (s.dispatch console parsed).performed) := by
  have hmac := hready.macs.1
  unfold Server.dispatch RoutingTable.Server.dispatch
  simp only [hmac, Option.bind_eq_bind, Option.bind_some]
  cases parsed.msgInfo.opcode with
  | create =>
    dsimp only
    split
    . exact guarded_follows (hready.checkMac .create)
        (hready.promptIP console storeIPToShm hready.addMac rfl) (hready.refuse 0)
    . exact guarded_follows (hready.checkRoute .create) (hready.accomplishRoutes hready.addRoute rfl)
        (hready.refuse 0)
  | update =>
    dsimp only
    split
    . exact guarded_follows (hready.checkMac .update)
        (hready.promptIP console updateIPInShm hready.updateMac rfl) (hready.refuse 0)
    . exact guarded_follows (hready.checkRoute .update) (hready.accomplishRoutes hready.updateRoute rfl)
        (hready.refuse 0)
  | delete =>
    dsimp only
    split
    . exact guarded_follows (hready.checkMac .delete) (hready.accomplishMacs hready.removeMac rfl)
        (hready.refuse 0)
    . exact guarded_follows (hready.checkRoute .delete) (hready.accomplishRoutes hready.removeRoute rfl)
        (hready.refuse 0)
  | «show» =>
    have hroutes := entries_runs hready.stores.routesHold
    have hmacs := entries_runs hready.stores.macsHold
    exact ⟨_, hroutes.bind (hmacs.bind (.pure _)), hready.refuse 1⟩
  | flush =>
    obtain ⟨routes, hroutes, hroutesHold⟩ :=
      hready.routes.lose.flush freesAll_flushRoutingTableInfo
    obtain ⟨macs, hmacs, hmacsHold⟩ := hready.macs.lose.flush freesAll_flushMacInfo
    refine ⟨_, hroutes.bind (hmacs.bind (.pure _)), ⟨r + 1, k + 1, ⟨?_, hroutesHold, hmacsHold⟩, ?_⟩, rfl,
      rfl, rfl, ?_⟩
    . exact ⟨hready.shm, hready.monitorFdSet, hready.clientPidSet, hready.connectionSocket⟩
    . rw [show lossOf .flush true = 2 from rfl]
      omega
    . rw [hready.clientPidSet]
  | quit => exact ⟨_, .pure _, hready.refuse 0⟩

end Server

end OnHeap

end RoutingTable
