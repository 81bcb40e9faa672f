import BBBLinux.RoutingTable.OnHeap.Impl

/-!
This module shows that the loops over the lists in memory do what `LinkedList.Surgery` asks of them.
-/

namespace RoutingTable
namespace OnHeap

open LinkedList

section Append

variable {α : Type} {h : Heap α} {p : Option Addr} {c : Cell α} {cs : List (Cell α)}

theorem lastNode_eq {fuel : Nat} (hseg : Segment h p (cs ++ [c]) none) (hfuel : cs.length < fuel) :
    p.bind (lastNode h fuel) = some c.addr := by
  induction cs generalizing p fuel with
  | nil =>
    obtain ⟨fuel, rfl⟩ := Nat.exists_eq_succ_of_ne_zero (Nat.ne_of_gt hfuel)
    cases hseg with
    | cons hnode _ hrest =>
      cases hrest
      simp only [Option.bind_some, lastNode, hnode]
      rfl
  | cons d cs ih =>
    obtain ⟨fuel, rfl⟩ := Nat.exists_eq_succ_of_ne_zero (Nat.ne_of_gt (Nat.zero_lt_of_lt hfuel))
    cases hseg with
    | @cons _ next _ _ hnode _ hrest =>
      rw [List.length_cons, Nat.succ_lt_succ_iff] at hfuel
      have hlast := ih hrest hfuel
      cases next with
      | none => contradiction
      | some next =>
        simp only [Option.bind_some, lastNode, hnode]
        exact hlast

theorem appendsLast_addLast : AppendsLast (addLast (α := α)) := by
  intro h head cs input temp value hlist hinput htemp
  have htempNotMem := hlist.segment.notMem_of_node htemp
  have hcs := hlist.segment.setNode { info := input, next := none } htempNotMem
  have hnew : (h.setNode temp { info := input, next := none }).node temp
      = some { info := input, next := none } := by
    rw [Heap.setNode_node, if_pos rfl]
  cases List.eq_nil_or_concat cs with
  | inl hnil =>
    rw [hnil] at hcs
    cases hcs
    refine ⟨_, _, ⟨0, fun _ _ => rfl⟩, ?_, rfl, ?_⟩
    . rw [hnil]
      apply Segment.singleton (c := { addr := temp, info := input, value := value })
      . exact hnew
      . exact hinput
    . intro p hp _
      rw [Heap.setNode_node, if_neg hp]
  | inr hconcat =>
    obtain ⟨ds, d, hds⟩ := hconcat
    rw [List.concat_eq_append] at hds
    have hd : d ∈ cs := by
      rw [hds]
      exact List.mem_append_right ds (List.mem_singleton_self d)
    rw [hds] at hcs
    obtain ⟨_, hlast, _⟩ := hcs.concat
    exists (h.setNode temp { info := input, next := none }).setNode d.addr
      { info := d.info, next := some temp }, head
    refine ⟨⟨ds.length + 1, ?_⟩, ?_, rfl, ?_⟩
    . intro fuel hfuel
      have hend := lastNode_eq hcs hfuel
      cases head with
      | none => contradiction
      | some ptr =>
        rw [Option.bind_some] at hend
        simp only [addLast, hend, hlast, Option.bind_eq_bind, Option.bind_some]
    . rw [hds]
      apply (hcs.relink hcs.nodup (some temp)).append
      apply Segment.singleton (c := { addr := temp, info := input, value := value })
      . rw [Heap.setNode_node, if_neg (Cell.ne_of_notMem htempNotMem hd).symm, hnew]
      . exact hinput
    . intro p hp hmem
      rw [Heap.setNode_node, if_neg (Cell.ne_of_notMem hmem hd).symm, Heap.setNode_node, if_neg hp]

end Append

section Keys

variable {α : Type} {κ : Type} [DecidableEq κ] {key : α → κ} {same : α → α → Bool}
variable {h : Heap α} {head p q lastPtr : Option Addr} {c : Cell α} {cs ds : List (Cell α)}
variable {input : Addr} {value : α} {count fuel : Nat}

theorem overwrite_record (hsame : ∀ info ptr, same info ptr = true ↔ key ptr = key info)
    (hrest : Segment h q cs none) (hnotMem : c.info ∉ cs.map Cell.info)
    (hrecord : h.record c.info = some c.value) (hinput : h.record input = some value) :
    ∃ h', (if same value c.value = true then h.setRecord c.info value else h) = h'
      ∧ Segment h' q cs none
      ∧ h'.record input = some value
      ∧ h'.record c.info = some (c.overwrite key value).value
      ∧ h'.node = h.node
      ∧ ∀ r, r ≠ c.info → h'.record r = h.record r := by
  rw [Cell.overwrite_value]
  by_cases hkey : key c.value = key value
  . rw [if_pos ((hsame _ _).mpr hkey), if_pos hkey]
    refine ⟨_, rfl, hrest.setRecord hnotMem, ?_, ?_, rfl, ?_⟩
    . rw [Heap.setRecord_record, hinput, ite_self]
    . rw [Heap.setRecord_record, if_pos rfl]
    . intro r hr
      rw [Heap.setRecord_record, if_neg hr]
  . rw [if_neg (mt (hsame _ _).mp hkey), if_neg hkey]
    exact ⟨_, rfl, hrest, hinput, hrecord, rfl, fun _ _ => rfl⟩

theorem updateAll_segment (hsame : ∀ info ptr, same info ptr = true ↔ key ptr = key info)
    (hseg : Segment h p cs none) (hdistinct : (cs.map Cell.info).Nodup)
    (hinput : h.record input = some value) :
    ∃ h', (∀ fuel ≥ cs.length, updateAll same input fuel h p = some h')
      ∧ Segment h' p (cs.map (Cell.overwrite key value)) none
      ∧ h'.node = h.node
      ∧ ∀ r, r ∉ cs.map Cell.info → h'.record r = h.record r := by
  induction cs generalizing h p with
  | nil =>
    cases hseg
    refine ⟨h, ?_, .nil none, rfl, fun _ _ => rfl⟩
    intro fuel _
    unfold updateAll
    rfl
  | cons c cs ih =>
    rw [List.map_cons, List.nodup_cons] at hdistinct
    cases hseg with
    | @cons _ next _ _ hnode hrecord hrest =>
      obtain ⟨h₁, hset, hrest₁, hinput₁, hrecord₁, hnode₁, hframe₁⟩ :=
        overwrite_record hsame hrest hdistinct.1 hrecord hinput
      obtain ⟨h', hrun, hseg', hnode', hframe'⟩ := ih hrest₁ hdistinct.2 hinput₁
      refine ⟨h', ?_, ?_, ?_, ?_⟩
      . intro fuel hfuel
        obtain ⟨fuel, rfl⟩ := Nat.exists_eq_succ_of_ne_zero (Nat.ne_of_gt (Nat.zero_lt_of_lt hfuel))
        simp only [updateAll, hnode, hrecord, hinput, hset, Option.bind_eq_bind, Option.bind_some]
        exact hrun fuel (Nat.le_of_succ_le_succ hfuel)
      . have haddr : (c.overwrite key value).addr = c.addr := Cell.overwrite_addr
        rw [List.map_cons, ← haddr]
        apply Segment.cons _ _ hseg'
        . rw [Cell.overwrite_addr, Cell.overwrite_info, hnode', hnode₁, hnode]
        . rw [Cell.overwrite_info, hframe' _ hdistinct.1, hrecord₁]
      . rw [hnode', hnode₁]
      . intro r hr
        rw [List.map_cons, List.mem_cons, not_or] at hr
        rw [hframe' r hr.2, hframe₁ r hr.1]

theorem updatesAll_updateAll (hsame : ∀ info ptr, same info ptr = true ↔ key ptr = key info) :
    UpdatesAll key (fun fuel h head input => do
      let h ← updateAll same input fuel h head
      some (h, head)) := by
  intro h head cs input value hlist hinput
  obtain ⟨h', hrun, hseg, hnode, hframe⟩ := updateAll_segment hsame hlist.segment hlist.distinct hinput
  refine ⟨h', ⟨cs.length, ?_⟩, ⟨hseg, ?_⟩, ?_, hnode, hframe⟩
  . intro fuel hfuel
    simp only [hrun fuel hfuel, Option.bind_eq_bind, Option.bind_some]
  . rw [List.map_map]
    have hinfo : Cell.info ∘ Cell.overwrite key value = Cell.info := by
      funext c
      exact Cell.overwrite_info
    rw [hinfo]
    exact hlist.distinct
  . rw [List.map_map]
    apply List.map_congr_left
    intro c _
    exact Cell.key_overwrite

def lastAfter (lastPtr : Option Addr) (cs : List (Cell α)) : Option Addr :=
  cs.foldl (fun _ c => some c.addr) lastPtr

theorem lastAfter_concat : lastAfter lastPtr (cs ++ [c]) = some c.addr := by
  unfold lastAfter
  rw [List.foldl_append]
  rfl

/--
The loop goes on from the node where it is to the first one that is to be removed, or to the end.
-/
theorem removeFirst_skip (hsame : ∀ info ptr, same info ptr = true ↔ key ptr = key info)
    (hseg : Segment h p cs q) (hcs : ∀ c ∈ cs, key c.value ≠ key value)
    (hinput : h.record input = some value) :
    removeFirst same input (fuel + cs.length) h head lastPtr count p
      = removeFirst same input fuel h head (lastAfter lastPtr cs) (count + cs.length) q := by
  induction cs generalizing p lastPtr count with
  | nil =>
    cases hseg
    rfl
  | cons c cs ih =>
    cases hseg with
    | cons hnode hrecord hrest =>
      have hc := hcs c List.mem_cons_self
      rw [List.length_cons, ← Nat.add_assoc]
      simp only [removeFirst, hnode, hrecord, hinput, hsame, hc, if_false, Option.bind_eq_bind,
        Option.bind_some]
      rw [ih hrest fun d hd => hcs d (List.mem_cons_of_mem c hd), Nat.add_right_comm, Nat.add_assoc count]
      rfl

theorem unlink_segment (hseg : Segment h head cs q) (hnodup : (cs.map Cell.addr).Nodup)
    (next : Option Addr) :
    ∃ h' head', unlink h head (lastAfter none cs) cs.length next = some (h', head')
      ∧ Segment h' head' cs next
      ∧ h'.record = h.record
      ∧ (∀ p, p ∉ cs.map Cell.addr → h'.node p = h.node p)
      ∧ ∀ p, h'.node p = none ↔ h.node p = none := by
  cases List.eq_nil_or_concat cs with
  | inl hnil =>
    rw [hnil]
    exact ⟨h, next, rfl, .nil next, rfl, fun _ _ => rfl, fun _ => Iff.rfl⟩
  | inr hconcat =>
    obtain ⟨ds, d, hds⟩ := hconcat
    rw [List.concat_eq_append] at hds
    rw [hds] at hseg
    obtain ⟨_, hnode, _⟩ := hseg.concat
    refine ⟨h.setNode d.addr { info := d.info, next := next }, head, ?_, ?_, rfl, ?_, ?_⟩
    . rw [hds, lastAfter_concat, List.length_append]
      simp only [unlink, List.length_singleton, Nat.add_eq_zero_iff, Nat.one_ne_zero, and_false,
        if_false, hnode, Option.bind_eq_bind, Option.bind_some]
    . rw [hds] at hnodup ⊢
      exact hseg.relink hnodup next
    . intro p hp
      have hd : d ∈ cs := by
        rw [hds]
        exact List.mem_append_right ds (List.mem_singleton_self d)
      rw [Heap.setNode_node, if_neg (Cell.ne_of_notMem hp hd).symm]
    . intro p
      rw [Heap.setNode_node]
      split
      . next heq =>
        rw [heq, hnode]
        simp
      . rfl

theorem removeFirst_found (hsame : ∀ info ptr, same info ptr = true ↔ key ptr = key info)
    (hlist : Represents h head (cs ++ c :: ds)) (hc : key c.value = key value)
    (hinput : h.record input = some value) :
    ∃ h' head', (∀ fuel, removeFirst same input (fuel + 1) h head (lastAfter none cs) cs.length
          (some c.addr) = some (h', head'))
      ∧ Represents h' head' (cs ++ ds)
      ∧ Freed h h' [c]
      ∧ ∀ p, p ∉ (cs ++ c :: ds).map Cell.addr → h'.node p = h.node p := by
  have haddr := hlist.segment.nodup
  have hinfo := hlist.distinct
  rw [List.map_append, List.map_cons, List.nodup_middle, List.nodup_cons, ← List.map_append] at haddr hinfo
  have hdisjoint := haddr.2
  rw [List.map_append, List.nodup_append] at hdisjoint
  obtain ⟨q, hcs, hrest⟩ := hlist.segment.split
  cases hrest with
  | @cons _ next _ _ hnode hrecord hds =>
    obtain ⟨h₁, head', hunlink, hcs₁, hrecord₁, hframe₁, hnone₁⟩ :=
      unlink_segment hcs hdisjoint.1 next
    have hnode₁ : h₁.node c.addr = some { info := c.info, next := next } := by
      rw [hframe₁, hnode]
      intro hmem
      apply haddr.1
      rw [List.map_append]
      exact List.mem_append_left _ hmem
    have hds₁ : Segment h₁ next ds none := by
      apply hds.congr
      . intro d hd
        apply hframe₁
        intro hmem
        exact hdisjoint.2.2 _ hmem _ (List.mem_map_of_mem hd) rfl
      . intro d _
        rw [hrecord₁]
    refine ⟨h₁.without c, head', ?_, ⟨?_, hinfo.2⟩, ⟨?_, ?_⟩, ?_⟩
    . intro fuel
      have hrecord' : h₁.record c.info = some c.value := by
        rw [hrecord₁, hrecord]
      have hfree := Heap.free_eq hnode₁ hrecord'
      simp only [removeFirst, hnode, hrecord, hinput, hsame, hc, if_true, hunlink, hnode₁,
        Option.bind_eq_bind, Option.bind_some]
      rw [← Option.bind_assoc, hfree, Option.bind_some]
    . exact (hcs₁.append hds₁).without haddr.1 hinfo.1
    . intro p
      rw [Heap.without_node, List.map_singleton, List.mem_singleton, ← hnone₁]
      split
      . next heq => simp [heq]
      . next hne => simp [hne]
    . intro r
      rw [Heap.without_record, hrecord₁, List.map_singleton]
      simp only [List.mem_singleton]
    . intro p hp
      rw [List.map_append, List.map_cons, List.mem_append, List.mem_cons, not_or, not_or] at hp
      rw [Heap.without_node, if_neg hp.2.1, hframe₁ p hp.1]

theorem removesFirst_removeFirst (hsame : ∀ info ptr, same info ptr = true ↔ key ptr = key info) :
    RemovesFirst key fun fuel h head input => removeFirst same input fuel h head none 0 head := by
  intro h head cs input value hlist hinput
  by_cases hcs : ∀ c ∈ cs, key c.value ≠ key value
  . refine ⟨h, head, ⟨cs.length, ?_⟩, ?_, ?_, fun _ _ => rfl, fun _ => ⟨rfl, rfl⟩⟩
    . intro fuel hfuel
      obtain ⟨fuel, rfl⟩ := Nat.exists_eq_add_of_le' hfuel
      simp only [removeFirst_skip hsame hlist.segment hcs hinput]
      unfold removeFirst
      rfl
    . rw [List.eraseP_of_forall_not]
      . exact hlist
      . simpa using hcs
    . rw [List.find?_eq_none.mpr]
      . exact Freed.nil h
      . simpa using hcs
  . have hfirst : (cs.find? fun c => decide (key c.value = key value)).isSome = true := by
      rw [List.find?_isSome]
      simpa using hcs
    obtain ⟨c, hfind⟩ := Option.isSome_iff_exists.mp hfirst
    obtain ⟨hc, before, after, hsplit, hbefore⟩ := List.find?_eq_some_iff_append.mp hfind
    simp only [decide_eq_true_eq] at hc
    simp only [Bool.not_eq_true', decide_eq_false_iff_not] at hbefore
    rw [hsplit] at hlist
    obtain ⟨q, hcs, hrest⟩ := hlist.segment.split
    obtain ⟨h', head', hrun, hlist', hfreed, hframe⟩ := removeFirst_found hsame hlist hc hinput
    refine ⟨h', head', ⟨before.length + 1, ?_⟩, ?_, ?_, ?_, ?_⟩
    . intro fuel hfuel
      obtain ⟨fuel, rfl⟩ := Nat.exists_eq_add_of_le' hfuel
      rw [hrest.head_eq] at hcs
      simp only [← Nat.add_assoc, Nat.add_right_comm fuel before.length 1]
      rw [removeFirst_skip hsame hcs hbefore hinput, Nat.zero_add, hrun]
    . rw [hsplit, List.eraseP_append_right, List.eraseP_cons_of_pos]
      . exact hlist'
      . simpa using hc
      . simpa using hbefore
    . rw [hfind]
      exact hfreed
    . rw [hsplit]
      exact hframe
    . intro habsent
      contradiction

end Keys

section Flush

variable {α : Type} {h : Heap α} {p : Option Addr} {cs : List (Cell α)}

theorem freeAll_segment (hseg : Segment h p cs none) (hdistinct : (cs.map Cell.info).Nodup) :
    ∃ h', (∀ fuel ≥ cs.length, freeAll fuel h p = some h')
      ∧ Freed h h' cs
      ∧ ∀ p, p ∉ cs.map Cell.addr → h'.node p = h.node p := by
  induction cs generalizing h p with
  | nil =>
    cases hseg
    refine ⟨h, ?_, Freed.nil h, fun _ _ => rfl⟩
    intro fuel _
    unfold freeAll
    rfl
  | cons c cs ih =>
    have haddr := hseg.nodup
    rw [List.map_cons, List.nodup_cons] at haddr hdistinct
    cases hseg with
    | @cons _ next _ _ hnode hrecord hrest =>
      obtain ⟨h', hrun, hfreed, hframe⟩ := ih (hrest.without haddr.1 hdistinct.1) hdistinct.2
      refine ⟨h', ?_, hfreed.cons, ?_⟩
      . intro fuel hfuel
        obtain ⟨fuel, rfl⟩ := Nat.exists_eq_succ_of_ne_zero (Nat.ne_of_gt (Nat.zero_lt_of_lt hfuel))
        have hfree := Heap.free_eq hnode hrecord
        simp only [freeAll, hnode, Option.bind_eq_bind, Option.bind_some]
        rw [← Option.bind_assoc, hfree, Option.bind_some]
        exact hrun fuel (Nat.le_of_succ_le_succ hfuel)
      . intro p hp
        rw [List.map_cons, List.mem_cons, not_or] at hp
        rw [hframe p hp.2, Heap.without_node, if_neg hp.1]

theorem freesAll_freeAll :
    FreesAll (fun fuel (h : Heap α) head => do
      let h ← freeAll fuel h head
      some (h, none)) := by
  intro h head cs hlist
  obtain ⟨h', hrun, hfreed, hframe⟩ := freeAll_segment hlist.segment hlist.distinct
  refine ⟨h', ⟨cs.length, ?_⟩, hfreed, hframe⟩
  intro fuel hfuel
  simp only [hrun fuel hfuel, Option.bind_eq_bind, Option.bind_some]

end Flush

end OnHeap

end RoutingTable
