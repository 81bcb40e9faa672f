import BBBLinux.RoutingTable.OnHeap.Loops
import BBBLinux.RoutingTable.Table.Lemmas

/-!
This module shows that the operations on the tables in memory are those of `RoutingTable.Table.Impl` on
the lists they hold.
-/

namespace RoutingTable
namespace OnHeap

open CString LinkedList

section Conditions

variable {α : Type} (same : α → α → Bool) {h : Heap α} {p : Option Addr} {cs : List (Cell α)}

theorem absentBeforeLast_eq (info : α) {ptr : Addr} {fuel : Nat} (hseg : Segment h (some ptr) cs none)
    (hfuel : cs.length ≤ fuel) : absentBeforeLast same info fuel h ptr
      = some (RoutingTable.absentBeforeLast (same info) (cs.map Cell.value)) := by
  induction cs generalizing ptr fuel with
  | nil => cases hseg
  | cons c cs ih =>
    obtain ⟨fuel, rfl⟩ := Nat.exists_eq_succ_of_ne_zero (Nat.ne_of_gt (Nat.zero_lt_of_lt hfuel))
    cases hseg with
    | @cons _ next _ _ hnode hrecord hrest =>
      cases next with
      | none =>
        cases hrest
        simp only [absentBeforeLast, hnode, Option.bind_eq_bind, Option.bind_some]
        rfl
      | some next =>
        have hnext := ih hrest (Nat.le_of_succ_le_succ hfuel)
        cases cs with
        | nil => cases hrest
        | cons d cs =>
          rw [List.map_cons] at hnext
          rw [List.map_cons, List.map_cons, absentBeforeLast_cons_cons]
          simp only [absentBeforeLast, hnode, hrecord, hnext, Option.bind_eq_bind, Option.bind_some]
          split
          . rfl
          . rfl

theorem search_eq (info : α) {fuel : Nat} (hseg : Segment h p cs none) (hfuel : cs.length ≤ fuel) :
    search same info fuel h p = some ((cs.map Cell.value).any (same info)) := by
  induction cs generalizing p fuel with
  | nil =>
    cases hseg
    unfold search
    rfl
  | cons c cs ih =>
    obtain ⟨fuel, rfl⟩ := Nat.exists_eq_succ_of_ne_zero (Nat.ne_of_gt (Nat.zero_lt_of_lt hfuel))
    cases hseg with
    | cons hnode hrecord hrest =>
      have hnext := ih hrest (Nat.le_of_succ_le_succ hfuel)
      simp only [search, hnode, hrecord, hnext, Option.bind_eq_bind, Option.bind_some, List.map_cons,
        List.any_cons]
      split
      . next hsame => rw [hsame, Bool.true_or]
      . next hsame =>
        rw [Bool.not_eq_true] at hsame
        rw [hsame, Bool.false_or]

theorem condition_runs (info : α) (opcode : Opcode) (hseg : Segment h p cs none) :
    Runs (fun fuel => condition same fuel h p info opcode)
      (RoutingTable.condition (same info) (cs.map Cell.value) opcode) := by
  exists cs.length
  intro fuel hfuel
  cases opcode with
  | create =>
    cases p with
    | none =>
      cases hseg
      rfl
    | some ptr => exact absentBeforeLast_eq same info hseg hfuel
  | update => exact search_eq same info hseg hfuel
  | delete =>
    cases p with
    | none =>
      cases hseg
      rfl
    | some ptr =>
      have hsearch := search_eq same info hseg hfuel
      cases hseg with
      | cons => simp only [condition, hsearch, Option.bind_eq_bind, Option.bind_some]; rfl
  | _ => rfl

end Conditions

section Routes

variable {h : Heap DataInfo} {head : Option Addr} {cs : List (Cell DataInfo)} {input : Addr}
variable {info : DataInfo}

theorem appendsLast_addLastEntryList : AppendsLast addLastEntryList :=
  appendsLast_addLast

theorem updatesAll_updateEntryTable : UpdatesAll DataInfo.key updateEntryTable :=
  updatesAll_updateAll sameRoute_iff

theorem removesFirst_removeNodeList : RemovesFirst DataInfo.key removeNodeList :=
  removesFirst_removeFirst sameRoute_iff

theorem freesAll_flushRoutingTableInfo : FreesAll flushRoutingTableInfo :=
  freesAll_freeAll

theorem checkCondition_runs (hlist : Represents h head cs) (opcode : Opcode) :
    Runs (fun fuel => checkCondition fuel h head info opcode)
      (RoutingTable.checkCondition (cs.map Cell.value) info opcode) :=
  condition_runs sameRoute info opcode hlist.segment

end Routes

namespace MacTableStruct

def prefixKey (info : MacTableStruct) : Mem :=
  cstr (info.mac.take (macAddrLen - 1))

def stringKey (info : MacTableStruct) : Mem :=
  cstr info.mac

theorem prefixKey_ofMac (m : Mac) : (ofMac m).prefixKey = m.key :=
  m.cstr_take

end MacTableStruct

theorem samePrefix_iff (info ptr : MacTableStruct) :
    samePrefix info ptr = true ↔ ptr.prefixKey = info.prefixKey := by
  simp only [samePrefix, decide_eq_true_eq, strncmp_eq_zero_iff, MacTableStruct.prefixKey]

theorem sameString_iff (info ptr : MacTableStruct) :
    sameString info ptr = true ↔ ptr.stringKey = info.stringKey := by
  simp only [sameString, decide_eq_true_eq, strcmp_eq_zero_iff, MacTableStruct.stringKey]

/--
Both comparisons are about the whole address as long as the byte behind it is zero.
-/
theorem samePrefix_ofMac (info ptr : Mac) :
    samePrefix (.ofMac info) (.ofMac ptr) = sameString (.ofMac info) (.ofMac ptr) := by
  rw [Bool.eq_iff_iff, samePrefix_iff, sameString_iff, MacTableStruct.prefixKey_ofMac,
    MacTableStruct.prefixKey_ofMac]
  rfl

section Macs

variable {h : Heap MacTableStruct} {headMac : Option Addr} {cs : List (Cell MacTableStruct)}
variable {input : Addr} {l : List Mac} {info : Mac}

theorem appendsLast_addLastEntryListMac : AppendsLast addLastEntryListMac :=
  appendsLast_addLast

theorem updatesAll_updateEntryTableMac : UpdatesAll MacTableStruct.prefixKey updateEntryTableMac :=
  updatesAll_updateAll samePrefix_iff

theorem removesFirst_removeNodeListMac : RemovesFirst MacTableStruct.stringKey removeNodeListMac :=
  removesFirst_removeFirst sameString_iff

theorem freesAll_flushMacInfo : FreesAll flushMacInfo :=
  freesAll_freeAll

theorem addLastEntryListMac_holds (hlist : Represents h headMac cs)
    (hvalues : cs.map Cell.value = l.map .ofMac) (hinput : h.record input = some (.ofMac info))
    (hnotMem : input ∉ cs.map Cell.info) {temp : Addr} (htemp : h.node temp = none) :
    ∃ h' head', Runs (fun fuel => addLastEntryListMac fuel h headMac input temp) (h', head')
      ∧ Holds h' head' ((RoutingTable.addLastEntryListMac l info).map .ofMac) := by
  rw [RoutingTable.addLastEntryListMac_eq, List.map_append, ← hvalues]
  exact appendsLast_addLastEntryListMac.holds hlist hinput hnotMem htemp

theorem updateEntryTableMac_holds (hlist : Represents h headMac cs)
    (hvalues : cs.map Cell.value = l.map .ofMac) (hinput : h.record input = some (.ofMac info)) :
    ∃ h' head', Runs (fun fuel => updateEntryTableMac fuel h headMac input) (h', head')
      ∧ Holds h' head' ((RoutingTable.updateEntryTableMac l info).map .ofMac) := by
  have hholds := updatesAll_updateEntryTableMac.holds hlist hinput
  rw [hvalues, List.map_map] at hholds
  have hmap : MacTableStruct.ofMac ∘ (fun m => if m.key = info.key then info else m)
      = (fun a => if a.prefixKey = (MacTableStruct.ofMac info).prefixKey then .ofMac info else a)
        ∘ MacTableStruct.ofMac := by
    funext m
    simp only [Function.comp_apply, MacTableStruct.prefixKey_ofMac, apply_ite MacTableStruct.ofMac]
  rw [RoutingTable.updateEntryTableMac_eq, KeyedList.update, List.map_map, hmap]
  exact hholds

theorem removeNodeListMac_holds (hlist : Represents h headMac cs)
    (hvalues : cs.map Cell.value = l.map .ofMac) (hinput : h.record input = some (.ofMac info)) :
    ∃ h' head', Runs (fun fuel => removeNodeListMac fuel h headMac input) (h', head')
      ∧ Holds h' head' ((RoutingTable.removeNodeListMac l info).map .ofMac) := by
  have hholds := removesFirst_removeNodeListMac.holds hlist hinput
  rw [hvalues, List.eraseP_map] at hholds
  rw [RoutingTable.removeNodeListMac_eq]
  exact hholds

theorem flushMacInfo_holds (l : List Mac) (hlist : Represents h headMac cs) :
    ∃ h' head', Runs (fun fuel => flushMacInfo fuel h headMac) (h', head')
      ∧ Holds h' head' ((RoutingTable.flushMacInfo l).map .ofMac) :=
  freesAll_flushMacInfo.holds hlist

theorem checkConditionMac_runs (info : Mac) (hlist : Represents h headMac cs)
    (hvalues : cs.map Cell.value = l.map .ofMac) (opcode : Opcode) :
    Runs (fun fuel => checkConditionMac fuel h headMac (.ofMac info) opcode)
      (RoutingTable.checkConditionMac l info opcode) := by
  have hruns := condition_runs samePrefix (.ofMac info) opcode hlist.segment
  rw [hvalues, condition_map] at hruns
  exact hruns

end Macs

end OnHeap

end RoutingTable
