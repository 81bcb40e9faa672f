import BBBLinux.Transition.Basic
import BBBLinux.RoutingTable.OnHeap.Tables

/-!
This module contains the runs of the MAC table in memory and the lists it holds in them, and what the
operations do with the two tables.
-/

namespace RoutingTable
namespace OnHeap

open CString LinkedList

def Line.onList (l : List Mac) : Line → List Mac
  | .create copyBuffer stored _ =>
    if (RoutingTable.checkConditionMac l (.ofChars copyBuffer) .create && stored) = true then
      RoutingTable.addLastEntryListMac l (.ofChars copyBuffer)
    else
      l
  | .update copyBuffer stored =>
    if (RoutingTable.checkConditionMac l (.ofChars copyBuffer) .update && stored) = true then
      RoutingTable.updateEntryTableMac l (.ofChars copyBuffer)
    else
      l
  | .delete copyBuffer =>
    if RoutingTable.checkConditionMac l (.ofChars copyBuffer) .delete = true then
      RoutingTable.removeNodeListMac l (.ofChars copyBuffer)
    else
      l
  | .flush => RoutingTable.flushMacInfo l
  | .other => l

def Event.onList (l : List Mac) : Event → List Mac
  | .line _ received => received.onList l
  | .sigusr1 => RoutingTable.flushMacInfo l

def macListSystem : TransitionSystem (List Mac) Event where
  init := (· = [])
  step l e l' := l' = e.onList l

namespace MacTable

def Stores (t : MacTable) (l : List Mac) : Prop :=
  Holds t.heap t.headMac (l.map .ofMac)

variable {t t' : MacTable} {l : List Mac} {e : Event} {macInfo : Addr} {line : Line}

theorem guarded_stores (allowed : Bool) {op : Nat → Option (Heap MacTableStruct × Option Addr)}
    {l' : List Mac} (hsame : t.Stores l)
    (hop : ∃ heap headMac, Runs op (heap, headMac) ∧ Holds heap headMac (l'.map .ofMac)) :
    ∃ t', Runs (fun fuel => if allowed = true then
          (op fuel).bind fun (heap, headMac) => some { heap := heap, headMac := headMac }
        else some t) t'
      ∧ t'.Stores (if allowed = true then l' else l) := by
  cases allowed with
  | false => exact ⟨t, .pure t, hsame⟩
  | true =>
    obtain ⟨heap, headMac, hrun, hholds⟩ := hop
    exact ⟨{ heap := heap, headMac := headMac }, hrun.bind (.pure _), hholds⟩

theorem perform_stores {cs : List (Cell MacTableStruct)} (hlist : Represents t.heap t.headMac cs)
    (hvalues : cs.map Cell.value = l.map .ofMac) (hinfo : t.heap.record macInfo = some line.macInfo)
    (hnotMem : macInfo ∉ cs.map Cell.info)
    (htemp : ∀ copyBuffer stored temp, line = .create copyBuffer stored temp → t.heap.node temp = none) :
    ∃ t', Runs (fun fuel => t.perform fuel macInfo line) t' ∧ t'.Stores (line.onList l) := by
  have hsame : t.Stores l := ⟨cs, hlist, hvalues⟩
  have hcheck := fun copyBuffer => checkConditionMac_runs (.ofChars copyBuffer) hlist hvalues
  cases line with
  | create copyBuffer stored temp =>
    have hrecord : t.heap.record macInfo = some (.ofMac (.ofChars copyBuffer)) := hinfo
    have hadd := addLastEntryListMac_holds hlist hvalues hrecord hnotMem (htemp copyBuffer stored temp rfl)
    obtain ⟨t', hrun, hstores⟩ := guarded_stores _ hsame hadd
    refine ⟨t', ?_, hstores⟩
    simp only [perform, hinfo, Option.bind_eq_bind, Option.bind_some]
    exact (hcheck copyBuffer .create).bind hrun
  | update copyBuffer stored =>
    have hrecord : t.heap.record macInfo = some (.ofMac (.ofChars copyBuffer)) := hinfo
    obtain ⟨t', hrun, hstores⟩ := guarded_stores _ hsame (updateEntryTableMac_holds hlist hvalues hrecord)
    refine ⟨t', ?_, hstores⟩
    simp only [perform, hinfo, Option.bind_eq_bind, Option.bind_some]
    exact (hcheck copyBuffer .update).bind hrun
  | delete copyBuffer =>
    have hrecord : t.heap.record macInfo = some (.ofMac (.ofChars copyBuffer)) := hinfo
    obtain ⟨t', hrun, hstores⟩ := guarded_stores _ hsame (removeNodeListMac_holds hlist hvalues hrecord)
    refine ⟨t', ?_, hstores⟩
    simp only [perform, hinfo, Option.bind_eq_bind, Option.bind_some]
    exact (hcheck copyBuffer .delete).bind hrun
  | flush =>
    obtain ⟨heap, headMac, hrun, hholds⟩ := flushMacInfo_holds l hlist
    exact ⟨{ heap := heap, headMac := headMac }, hrun.bind (.pure _), hholds⟩
  | other => exact ⟨t, .pure t, hsame⟩

theorem Possible.fresh (h : t.Possible (.line macInfo line)) : t.heap.record macInfo = none
    ∧ ∀ copyBuffer stored temp, line = .create copyBuffer stored temp → t.heap.node temp = none := by
  cases line with
  | create copyBuffer stored temp =>
    refine ⟨h.1, ?_⟩
    intro _ _ _ heq
    cases heq
    exact h.2
  | _ =>
    refine ⟨h, ?_⟩
    intro _ _ _ heq
    contradiction

/--
No line and no signal makes the table read or free what is not there.
-/
theorem handle_stores (hstores : t.Stores l) (hpossible : t.Possible e) :
    ∃ t', Runs (fun fuel => t.handle fuel e) t' ∧ t'.Stores (e.onList l) := by
  obtain ⟨cs, hlist, hvalues⟩ := hstores
  cases e with
  | line macInfo line =>
    obtain ⟨hrecord, htemp⟩ := hpossible.fresh
    have hnotMem := hlist.segment.notMem_of_record hrecord
    have hlist' : Represents (t.heap.setRecord macInfo line.macInfo) t.headMac cs :=
      ⟨hlist.segment.setRecord hnotMem, hlist.distinct⟩
    have hinfo : (t.heap.setRecord macInfo line.macInfo).record macInfo = some line.macInfo := by
      rw [Heap.setRecord_record, if_pos rfl]
    exact perform_stores (t := { t with heap := t.heap.setRecord macInfo line.macInfo }) hlist' hvalues
      hinfo hnotMem htemp
  | sigusr1 =>
    obtain ⟨heap, headMac, hrun, hholds⟩ := flushMacInfo_holds l hlist
    exact ⟨{ heap := heap, headMac := headMac }, hrun.bind (.pure _), hholds⟩

theorem step_stores (hstores : t.Stores l) (hstep : macTableSystem.step t e t') : t'.Stores (e.onList l) := by
  obtain ⟨hpossible, hruns⟩ := hstep
  obtain ⟨t'', hruns', hstores'⟩ := handle_stores hstores hpossible
  rw [hruns.unique hruns']
  exact hstores'

theorem reachable_stores (h : macTableSystem.Reachable t) :
    ∃ l, macListSystem.Reachable l ∧ t.Stores l := by
  apply h.exists_simulated
  . intro t hinit
    refine ⟨[], rfl, [], ⟨?_, List.nodup_nil⟩, rfl⟩
    rw [hinit]
    exact .nil none
  . intro t l e t' hstores _ hstep
    exact ⟨trivial, e.onList l, rfl, step_stores hstores hstep⟩

theorem Stores.samePrefix_eq (hstores : t.Stores l) : ∃ cs, Represents t.heap t.headMac cs
    ∧ ∀ copyBuffer, ∀ c ∈ cs,
      samePrefix (.ofCopyBuffer copyBuffer) c.value = sameString (.ofCopyBuffer copyBuffer) c.value := by
  obtain ⟨cs, hlist, hvalues⟩ := hstores
  refine ⟨cs, hlist, ?_⟩
  intro copyBuffer c hc
  have hmem : c.value ∈ l.map .ofMac := by
    rw [← hvalues]
    exact List.mem_map_of_mem hc
  obtain ⟨m, _, hm⟩ := List.mem_map.mp hmem
  rw [← hm]
  exact samePrefix_ofMac (.ofChars copyBuffer) m

end MacTable

theorem list_surgery_exact :
    (AppendsLast addLastEntryList ∧ UpdatesAll DataInfo.key updateEntryTable
      ∧ RemovesFirst DataInfo.key removeNodeList ∧ FreesAll flushRoutingTableInfo)
    ∧ (AppendsLast addLastEntryListMac ∧ UpdatesAll MacTableStruct.prefixKey updateEntryTableMac
      ∧ RemovesFirst MacTableStruct.stringKey removeNodeListMac ∧ FreesAll flushMacInfo)
    ∧ ∀ t, macTableSystem.Reachable t → ∃ cs, Represents t.heap t.headMac cs
      ∧ ∀ copyBuffer, ∀ c ∈ cs,
        samePrefix (.ofCopyBuffer copyBuffer) c.value = sameString (.ofCopyBuffer copyBuffer) c.value := by
  refine ⟨⟨?_, ?_, ?_, ?_⟩, ⟨?_, ?_, ?_, ?_⟩, ?_⟩
  . exact appendsLast_addLastEntryList
  . exact updatesAll_updateEntryTable
  . exact removesFirst_removeNodeList
  . exact freesAll_flushRoutingTableInfo
  . exact appendsLast_addLastEntryListMac
  . exact updatesAll_updateEntryTableMac
  . exact removesFirst_removeNodeListMac
  . exact freesAll_flushMacInfo
  . intro t h
    obtain ⟨l, _, hstores⟩ := MacTable.reachable_stores h
    exact hstores.samePrefix_eq

def twoRoutes : Heap DataInfo :=
  (((Heap.empty.setRecord 10 (.ofMem (text "10.0.0.0"))).setRecord 11 (.ofMem (text "10.0.1.0"))).setNode 0
    { info := 10, next := some 1 }).setNode 1 { info := 11, next := none }

theorem list_surgery_exact_twoRoutes : ∃ h' head',
    Runs (fun fuel => removeNodeList fuel twoRoutes (some 0) 11) (h', head')
      ∧ Represents h' head' [{ addr := 0, info := 10, value := .ofMem (text "10.0.0.0") }] := by
  have hlist : Represents twoRoutes (some 0)
      [{ addr := 0, info := 10, value := .ofMem (text "10.0.0.0") },
        { addr := 1, info := 11, value := .ofMem (text "10.0.1.0") }] := by
    refine ⟨?_, by decide⟩
    apply Segment.cons (c := { addr := 0, info := 10, value := _ }) rfl rfl
    exact Segment.cons (c := { addr := 1, info := 11, value := _ }) rfl rfl (.nil none)
  obtain ⟨h', head', hrun, hlist', _⟩ := list_surgery_exact.1.2.2.1 twoRoutes (some 0) _ 11 _ hlist rfl
  refine ⟨h', head', hrun, ?_⟩
  exact hlist'

end OnHeap

end RoutingTable
