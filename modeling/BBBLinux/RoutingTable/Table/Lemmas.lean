import BBBLinux.KeyedList.Basic
import BBBLinux.RoutingTable.Table.Impl

/-!
This module contains the keys of the two tables and shows that the list functions are the operations
of `KeyedList` on them.
-/

namespace RoutingTable

open CString

universe u v

section Loops

variable {α : Type u} {κ : Type v} {key : α → κ} {same : α → Bool} {a : α}

theorem addLast_eq (a : α) (l : List α) : addLast a l = l ++ [a] := by
  induction l with
  | nil => rfl
  | cons x l ih => rw [addLast, ih, List.cons_append]

theorem absentBeforeLast_iff (hsame : ∀ e, same e = true ↔ key e = key a) (l : List α) :
    absentBeforeLast same l = true ↔ ∀ e ∈ l.dropLast, key e ≠ key a := by
  fun_induction absentBeforeLast same l with
  | case1 => simp
  | case2 => simp
  | case3 x l hne hx =>
    have hnil : l ≠ [] := fun h => hne h
    rw [hsame] at hx
    simp [List.dropLast_cons_of_ne_nil hnil, hx]
  | case4 x l hne hx ih =>
    have hnil : l ≠ [] := fun h => hne h
    rw [hsame] at hx
    rw [ih, List.dropLast_cons_of_ne_nil hnil]
    simp [hx]

theorem absentBeforeLast_cons_cons (same : α → Bool) (a b : α) (l : List α) :
    absentBeforeLast same (a :: b :: l)
      = if same a = true then false else absentBeforeLast same (b :: l) := rfl

theorem absentBeforeLast_map {β : Type v} (f : α → β) (same : β → Bool) (l : List α) :
    absentBeforeLast same (l.map f) = absentBeforeLast (same ∘ f) l := by
  induction l with
  | nil => rfl
  | cons a l ih =>
    cases l with
    | nil => rfl
    | cons b l =>
      rw [absentBeforeLast_cons_cons, ← ih, List.map_cons, List.map_cons, absentBeforeLast_cons_cons]
      rfl

theorem condition_map {β : Type v} (f : α → β) (same : β → Bool) (l : List α) (opcode : Opcode) :
    condition same (l.map f) opcode = condition (same ∘ f) l opcode := by
  cases opcode with
  | create => exact absentBeforeLast_map f same l
  | update => exact List.any_map
  | delete => simp only [condition, List.isEmpty_map]
  | _ => rfl

variable [DecidableEq κ]

theorem updateAll_eq (hsame : ∀ e, same e = true ↔ key e = key a) (l : List α) :
    updateAll same a l = KeyedList.update key a l := by
  induction l with
  | nil => rfl
  | cons x l ih => simp only [updateAll, ih, KeyedList.update, List.map_cons, hsame]

theorem removeFirst_eq {k : κ} (hsame : ∀ e, same e = true ↔ key e = k) (l : List α) :
    removeFirst same l = KeyedList.remove key k l := by
  induction l with
  | nil => rfl
  | cons x l ih =>
    unfold removeFirst KeyedList.remove
    split
    . next hx =>
      rw [List.eraseP_cons_of_pos]
      simp [← hsame, hx]
    . next hx =>
      rw [List.eraseP_cons_of_neg, ih]
      . rfl
      . simp [← hsame, hx]

end Loops

def DataInfo.key (info : DataInfo) : Mem × Mem :=
  (cstr info.destination, cstr info.mask)

def Mac.key (info : Mac) : Mem :=
  cstr info.mac

theorem sameRoute_iff (info ptr : DataInfo) : sameRoute info ptr = true ↔ ptr.key = info.key := by
  simp only [sameRoute, Bool.and_eq_true, decide_eq_true_eq, strcmp_eq_zero_iff, DataInfo.key,
    Prod.mk.injEq]

theorem Mac.eq_take_append (m : Mac) : m.mac = m.mac.take (macAddrLen - 1) ++ [0] := by
  conv => lhs; rw [← List.take_append_drop (macAddrLen - 1) m.mac, m.nul]

theorem Mac.cstr_take (m : Mac) : cstr (m.mac.take (macAddrLen - 1)) = m.key := by
  unfold Mac.key
  conv => rhs; rw [m.eq_take_append, cstr_append_zero_cons]

theorem sameMac_iff (info ptr : Mac) : sameMac info ptr = true ↔ ptr.key = info.key := by
  simp only [sameMac, decide_eq_true_eq, strncmp_eq_zero_iff, Mac.cstr_take]

theorem addLastEntryList_eq (head : List DataInfo) (info : DataInfo) :
    addLastEntryList head info = head ++ [info] :=
  addLast_eq info head

theorem updateEntryTable_eq (head : List DataInfo) (info : DataInfo) :
    updateEntryTable head info = KeyedList.update DataInfo.key info head :=
  updateAll_eq (sameRoute_iff info) head

theorem removeNodeList_eq (head : List DataInfo) (info : DataInfo) :
    removeNodeList head info = KeyedList.remove DataInfo.key info.key head :=
  removeFirst_eq (sameRoute_iff info) head

theorem addLastEntryListMac_eq (headMac : List Mac) (info : Mac) :
    addLastEntryListMac headMac info = headMac ++ [info] :=
  addLast_eq info headMac

theorem updateEntryTableMac_eq (headMac : List Mac) (info : Mac) :
    updateEntryTableMac headMac info = KeyedList.update Mac.key info headMac :=
  updateAll_eq (sameMac_iff info) headMac

theorem removeNodeListMac_eq (headMac : List Mac) (info : Mac) :
    removeNodeListMac headMac info = KeyedList.remove Mac.key info.key headMac := by
  apply removeFirst_eq
  intro e
  simp only [decide_eq_true_eq, strcmp_eq_zero_iff, Mac.key]

theorem checkCondition_create_iff (head : List DataInfo) (info : DataInfo) :
    checkCondition head info .create = true ↔ ∀ e ∈ head.dropLast, e.key ≠ info.key :=
  absentBeforeLast_iff (sameRoute_iff info) head

theorem checkConditionMac_create_iff (headMac : List Mac) (info : Mac) :
    checkConditionMac headMac info .create = true ↔ ∀ e ∈ headMac.dropLast, e.key ≠ info.key :=
  absentBeforeLast_iff (sameMac_iff info) headMac

namespace Tables

variable {t : Tables} {opcode : Opcode} {e : Entry}

theorem guarded_of_check (h : t.check opcode e = true) : t.guarded opcode e = t.perform opcode e := by
  unfold guarded
  rw [if_pos h]

theorem guarded_of_not_check (h : ¬t.check opcode e = true) : t.guarded opcode e = t := by
  unfold guarded
  rw [if_neg h]

end Tables

end RoutingTable
