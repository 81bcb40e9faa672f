import BBBLinux.RoutingTable.OnHeap.Signal.Functions

/-!
This module shows that the functions go wrong if the list is freed while they are at work on it: they access
memory that is not allocated any more, or they return a pointer to it.
-/

namespace RoutingTable
namespace OnHeap
namespace Signal

open LinkedList

section Blocks

variable {α : Type} {h h' : Heap α} {a ptr : Addr} {p q : Option Addr} {as is : List Addr}
  {cs ds : List (Cell α)}

/--
The list at `a` consists of the nodes at `as` with the records at `is`.
-/
def Owned (h : Heap α) (a : Addr) (as is : List Addr) : Prop :=
  ∃ cs, Represents h (some a) cs ∧ cs.map Cell.addr = as ∧ cs.map Cell.info = is

structure FreedBlocks (h h' : Heap α) (as is : List Addr) : Prop where
  node : ∀ p, h'.node p = if p ∈ as then none else h.node p
  record : ∀ r, h'.record r = if r ∈ is then none else h.record r

def Cell.setValue (info : Addr) (value : α) (c : Cell α) : Cell α :=
  if c.info = info then { c with value := value } else c

theorem Cell.setValue_addr (info : Addr) (value : α) (c : Cell α) :
    (Cell.setValue info value c).addr = c.addr := by
  unfold Cell.setValue
  split <;> rfl

theorem Cell.setValue_info (info : Addr) (value : α) (c : Cell α) :
    (Cell.setValue info value c).info = c.info := by
  unfold Cell.setValue
  split <;> rfl

theorem Cell.setValue_value (info : Addr) (value : α) (c : Cell α) :
    (Cell.setValue info value c).value = if c.info = info then value else c.value := by
  unfold Cell.setValue
  split <;> rfl

theorem map_setValue (f : Cell α → Addr) (info : Addr) (value : α)
    (hf : ∀ c, f (Cell.setValue info value c) = f c) (cs : List (Cell α)) :
    (cs.map (Cell.setValue info value)).map f = cs.map f := by
  rw [List.map_map]
  exact List.map_congr_left fun c _ => hf c

theorem segment_setRecord (hseg : Segment h p cs q) (info : Addr) (value : α) :
    Segment (h.setRecord info value) p (cs.map (Cell.setValue info value)) q := by
  induction hseg with
  | nil p => exact .nil p
  | @cons c next q cs hnode hrecord _ ih =>
    rw [List.map_cons, ← Cell.setValue_addr info value c]
    apply Segment.cons _ _ ih
    . rw [Cell.setValue_addr, Cell.setValue_info]
      exact hnode
    . rw [Heap.setRecord_record, Cell.setValue_info, Cell.setValue_value, hrecord]
      split <;> rfl

theorem Owned.setRecord (howned : Owned h a as is) (info : Addr) (value : α) :
    Owned (h.setRecord info value) a as is := by
  obtain ⟨cs, hlist, rfl, rfl⟩ := howned
  refine ⟨cs.map (Cell.setValue info value), ⟨segment_setRecord hlist.segment info value, ?_⟩, ?_, ?_⟩
  . rw [map_setValue Cell.info info value (Cell.setValue_info info value)]
    exact hlist.distinct
  . exact map_setValue Cell.addr info value (Cell.setValue_addr info value) cs
  . exact map_setValue Cell.info info value (Cell.setValue_info info value) cs

theorem Owned.head_mem (howned : Owned h a as is) : a ∈ as := by
  obtain ⟨cs, hlist, rfl, rfl⟩ := howned
  cases cs with
  | nil => cases hlist.segment
  | cons c cs =>
    have heq := hlist.segment.head_eq
    rw [Option.some.injEq] at heq
    rw [heq]
    exact List.mem_cons_self

theorem ends_freeAll (hlist : Represents h p cs) : ∃ h',
    Ends (fun fuel => freeAll fuel p) h (.ok none h')
      ∧ FreedBlocks h h' (cs.map Cell.addr) (cs.map Cell.info) := by
  obtain ⟨h', hrun, hfreed, hframe⟩ := freeAll_segment hlist.segment hlist.distinct
  refine ⟨h', ?_, ?_, hfreed.record⟩
  . exists cs.length
    intro fuel hfuel
    apply Outcome.toOption_eq_some
    rw [toOption_freeAll, hrun fuel hfuel]
    rfl
  . intro p
    split
    . next hmem => exact (hfreed.node p).mpr (.inr hmem)
    . next hnotMem => exact hframe p hnotMem

end Blocks

section Reading

variable {α : Type} {same : α → α → Bool} {h : Heap α} {a ptr : Addr} {p : Option Addr} {as is : List Addr}
  {ds : List (Cell α)}

/--
If the list is freed now the program accesses memory that is not allocated.
-/
def Blocked (as is : List Addr) (p : Program α Bool) (h : Heap α) : Prop :=
  p.Running → ∀ h', FreedBlocks h h' as is → p.run h' = .fault

theorem blocked_readNode {next : Node → Program α Bool} (hptr : ptr ∈ as) :
    Blocked as is (.readNode ptr next) h := by
  intro _ h' hfreed
  rw [Program.run, hfreed.node, if_pos hptr]

theorem blocked_readRecord {info : Addr} {next : α → Program α Bool} (hinfo : info ∈ is) :
    Blocked as is (.readRecord info next) h := by
  intro _ h' hfreed
  rw [Program.run, hfreed.record, if_pos hinfo]

theorem blocked_search {found : α → Bool} {hit miss : Bool} {fuel : Nat} (hseg : Segment h p ds none)
    (hds : ∀ d ∈ ds, d.addr ∈ as ∧ d.info ∈ is) :
    Program.Always (Blocked as is) (search found hit miss fuel p) h := by
  induction fuel generalizing p ds with
  | zero =>
    cases p with
    | none => exact fun hrunning => absurd hrunning id
    | some ptr => exact fun hrunning => absurd hrunning id
  | succ fuel ih =>
    cases hseg with
    | nil => exact fun hrunning => absurd hrunning id
    | @cons c next _ ds hnode hrecord hrest =>
      have hc := hds c List.mem_cons_self
      refine ⟨blocked_readNode hc.1, ?_⟩
      intro node hnode'
      rw [hnode, Option.some.injEq] at hnode'
      rw [← hnode']
      refine ⟨blocked_readRecord hc.2, ?_⟩
      intro value _
      dsimp only
      split
      . exact fun hrunning => absurd hrunning id
      . refine ⟨blocked_readNode hc.1, ?_⟩
        intro node hnode'
        rw [hnode, Option.some.injEq] at hnode'
        rw [← hnode']
        exact ih hrest fun d hd => hds d (List.mem_cons_of_mem c hd)

theorem blocked_absentBeforeLast {info : α} {fuel : Nat} (hseg : Segment h (some ptr) ds none)
    (hds : ∀ d ∈ ds, d.addr ∈ as ∧ d.info ∈ is) :
    Program.Always (Blocked as is) (absentBeforeLast same info fuel ptr) h := by
  induction fuel generalizing ptr ds with
  | zero => exact fun hrunning => absurd hrunning id
  | succ fuel ih =>
    cases hseg with
    | @cons c next _ ds hnode hrecord hrest =>
      have hc := hds c List.mem_cons_self
      refine ⟨blocked_readNode hc.1, ?_⟩
      intro node hnode'
      rw [hnode, Option.some.injEq] at hnode'
      rw [← hnode']
      cases next with
      | none => exact fun hrunning => absurd hrunning id
      | some next =>
        refine ⟨blocked_readNode hc.1, ?_⟩
        intro node hnode'
        rw [hnode, Option.some.injEq] at hnode'
        rw [← hnode']
        refine ⟨blocked_readRecord hc.2, ?_⟩
        intro value _
        dsimp only
        split
        . exact fun hrunning => absurd hrunning id
        . refine ⟨blocked_readNode hc.1, ?_⟩
          intro node hnode'
          rw [hnode, Option.some.injEq] at hnode'
          rw [← hnode']
          exact ih hrest fun d hd => hds d (List.mem_cons_of_mem c hd)

theorem blocked_program {f : Comparison α} {r : Reading α} {fuel : Nat} (hseg : Segment h p ds none)
    (hds : ∀ d ∈ ds, d.addr ∈ as ∧ d.info ∈ is) :
    Program.Always (Blocked as is) (r.program f fuel p) h := by
  cases r with
  | check opcode info change =>
    cases opcode with
    | create =>
      cases p with
      | none => exact fun hrunning => absurd hrunning id
      | some ptr => exact blocked_absentBeforeLast hseg hds
    | update => exact blocked_search hseg hds
    | delete =>
      cases p with
      | none => exact fun hrunning => absurd hrunning id
      | some ptr => exact blocked_search hseg hds
    | _ => exact fun hrunning => absurd hrunning id
  | «show» => exact blocked_search hseg hds

end Reading

section Changing

variable {α : Type} {same : α → α → Bool} {h h' : Heap α} {a ptr : Addr} {p : Option Addr}
  {as is : List Addr} {cs ds : List (Cell α)}

def GoesWrong (p : Program α (Option Addr)) (h : Heap α) : Prop :=
  p.run h = .fault ∨ ∃ q h', p.run h = .ok (some q) h' ∧ h'.node q = none

/--
The handler cannot free the list at `a`, or it frees it and the program goes wrong.
-/
def Doomed (a : Addr) (p : Program α (Option Addr)) (h : Heap α) : Prop :=
  p.Running → Ends (fun fuel => freeAll fuel (some a)) h .fault
    ∨ ∃ as is, Owned h a as is ∧ ∀ h', FreedBlocks h h' as is → GoesWrong p h'

theorem Doomed.done (a : Addr) (result : Option Addr) (h : Heap α) : Doomed a (.done result) h :=
  fun hrunning => absurd hrunning id

theorem Doomed.spin (a : Addr) (h : Heap α) : Doomed a .spin h :=
  fun hrunning => absurd hrunning id

theorem Owned.doomed {p : Program α (Option Addr)} (howned : Owned h a as is)
    (hfault : ∀ h', FreedBlocks h h' as is → p.run h' = .fault) : Doomed a p h :=
  fun _ => .inr ⟨as, is, howned, fun h' hfreed => .inl (hfault h' hfreed)⟩

theorem Owned.doomed_readNode {next : Node → Program α (Option Addr)} (howned : Owned h a as is)
    (hptr : ptr ∈ as) : Doomed a (.readNode ptr next) h := by
  apply howned.doomed
  intro h' hfreed
  rw [Program.run, hfreed.node, if_pos hptr]

theorem Owned.doomed_readRecord {info : Addr} {next : α → Program α (Option Addr)}
    (howned : Owned h a as is) (hinfo : info ∈ is) : Doomed a (.readRecord info next) h := by
  apply howned.doomed
  intro h' hfreed
  rw [Program.run, hfreed.record, if_pos hinfo]

/--
What the other accesses go to does not matter if the next one behind them is to the list.
-/
theorem Owned.doomed_readRecord_then {info : Addr} {next : α → Program α (Option Addr)}
    (howned : Owned h a as is)
    (hnext : ∀ value h', FreedBlocks h h' as is → (next value).run h' = .fault) :
    Doomed a (.readRecord info next) h := by
  apply howned.doomed
  intro h' hfreed
  rw [Program.run]
  split
  . next value _ => exact hnext value h' hfreed
  . rfl

theorem doomed_updateAll {input : Addr} {fuel : Nat} (howned : Owned h a as is)
    (hseg : Segment h p ds none) (hds : ∀ d ∈ ds, d.addr ∈ as ∧ d.info ∈ is) :
    Program.Always (Doomed a) (updateAll same (some a) input fuel p) h := by
  induction fuel generalizing h p ds with
  | zero =>
    cases p with
    | none => exact Doomed.done a _ h
    | some ptr => exact Doomed.spin a h
  | succ fuel ih =>
    cases hseg with
    | nil => exact Doomed.done a _ h
    | @cons c next _ ds hnode hrecord hrest =>
      have hc := hds c List.mem_cons_self
      have hblocked (next : Node → Program α (Option Addr)) (h' : Heap α) (hfreed : FreedBlocks h h' as is) :
          (Program.readNode c.addr next).run h' = .fault := by
        rw [Program.run, hfreed.node, if_pos hc.1]
      refine ⟨howned.doomed_readNode hc.1, ?_⟩
      intro node hnode'
      rw [hnode, Option.some.injEq] at hnode'
      rw [← hnode']
      refine ⟨howned.doomed_readRecord hc.2, ?_⟩
      intro info _
      refine ⟨?_, ?_⟩
      . apply howned.doomed_readRecord_then
        intro value h' hfreed
        split
        . exact hblocked _ h' hfreed
        . exact hblocked _ h' hfreed
      . intro value _
        dsimp only
        split
        . refine ⟨howned.doomed_readNode hc.1, ?_⟩
          intro node hnode'
          rw [hnode, Option.some.injEq] at hnode'
          rw [← hnode']
          refine ⟨?_, ?_⟩
          . apply howned.doomed_readRecord_then
            intro value h' hfreed
            rw [Program.run, hfreed.record, if_pos hc.2]
          . intro value _
            refine ⟨?_, ?_⟩
            . apply howned.doomed
              intro h' hfreed
              rw [Program.run, hfreed.record, if_pos hc.2]
            . refine ⟨(howned.setRecord c.info value).doomed_readNode hc.1, ?_⟩
              intro node hnode'
              rw [show (h.setRecord c.info value).node c.addr = h.node c.addr from rfl, hnode,
                Option.some.injEq] at hnode'
              rw [← hnode']
              apply ih (howned.setRecord c.info value) (segment_setRecord hrest c.info value)
              intro d hd
              obtain ⟨d', hd', rfl⟩ := List.mem_map.mp hd
              rw [Cell.setValue_addr, Cell.setValue_info]
              exact hds d' (List.mem_cons_of_mem c hd')
        . refine ⟨howned.doomed_readNode hc.1, ?_⟩
          intro node hnode'
          rw [hnode, Option.some.injEq] at hnode'
          rw [← hnode']
          exact ih howned hrest fun d hd => hds d (List.mem_cons_of_mem c hd)

theorem doomed_append {temp : Addr} {fuel : Nat} (howned : Owned h a as is)
    (hseg : Segment h (some ptr) ds none) (hds : ∀ d ∈ ds, d.addr ∈ as ∧ d.info ∈ is) :
    Program.Always (Doomed a) (append (some a) temp fuel ptr) h := by
  induction fuel generalizing ptr ds with
  | zero => exact Doomed.spin a h
  | succ fuel ih =>
    cases hseg with
    | @cons c next _ ds hnode hrecord hrest =>
      have hc := hds c List.mem_cons_self
      refine ⟨howned.doomed_readNode hc.1, ?_⟩
      intro node hnode'
      rw [hnode, Option.some.injEq] at hnode'
      rw [← hnode']
      cases next with
      | none =>
        refine ⟨?_, fun _ _ => Doomed.done a _ _⟩
        apply howned.doomed
        intro h' hfreed
        rw [Program.run, hfreed.node, if_pos hc.1]
      | some next =>
        refine ⟨howned.doomed_readNode hc.1, ?_⟩
        intro node hnode'
        rw [hnode, Option.some.injEq] at hnode'
        rw [← hnode']
        exact ih hrest fun d hd => hds d (List.mem_cons_of_mem c hd)

theorem doomed_addLast {input temp : Addr} {fuel : Nat} (hlist : Represents h (some a) cs)
    (htemp : h.node temp = none) (hfuel : fuel ≠ 0) :
    Program.Always (Doomed a) (addLast fuel (some a) input temp) h := by
  have hnotMem := hlist.segment.notMem_of_node htemp
  have howned : Owned h a (cs.map Cell.addr) (cs.map Cell.info) := ⟨cs, hlist, rfl, rfl⟩
  have hseg := hlist.segment.setNode { info := input, next := none } hnotMem
  obtain ⟨fuel, rfl⟩ := Nat.exists_eq_succ_of_ne_zero hfuel
  refine ⟨?_, ?_⟩
  . apply howned.doomed
    intro h' hfreed
    have hne : a ≠ temp := fun heq => hnotMem (heq ▸ howned.head_mem)
    dsimp only
    rw [Program.run, append, Program.run, Heap.setNode_node, if_neg hne, hfreed.node,
      if_pos howned.head_mem]
  . apply doomed_append ⟨cs, ⟨hseg, hlist.distinct⟩, rfl, rfl⟩ hseg
    intro d hd
    exact ⟨List.mem_map_of_mem hd, List.mem_map_of_mem hd⟩

theorem ends_fault_of_node (hnode : h.node a = none) :
    Ends (fun fuel => freeAll fuel (some a)) h (.fault : Outcome α (Option Addr)) := by
  exists 1
  intro fuel hfuel
  obtain ⟨fuel, rfl⟩ := Nat.exists_eq_succ_of_ne_zero (Nat.ne_of_gt hfuel)
  simp only [freeAll, Program.run, hnode]

theorem ends_fault_of_record {node : Node} (hnode : h.node a = some node)
    (hrecord : h.record node.info = none) :
    Ends (fun fuel => freeAll fuel (some a)) h (.fault : Outcome α (Option Addr)) := by
  exists 1
  intro fuel hfuel
  obtain ⟨fuel, rfl⟩ := Nat.exists_eq_succ_of_ne_zero (Nat.ne_of_gt hfuel)
  simp [freeAll, Program.run, hnode, Heap.freeRecord, hrecord]

theorem freeRecord_eq_some {info : Addr} (hfree : h.freeRecord info = some h') :
    (h.record info).isSome = true ∧ h' = { h with record := Function.update h.record info none } := by
  unfold Heap.freeRecord at hfree
  split at hfree
  . next hsome =>
    rw [Option.some.injEq] at hfree
    exact ⟨hsome, hfree.symm⟩
  . contradiction

theorem freeNode_eq_some {addr : Addr} (hfree : h.freeNode addr = some h') :
    (h.node addr).isSome = true ∧ h' = { h with node := Function.update h.node addr none } := by
  unfold Heap.freeNode at hfree
  split at hfree
  . next hsome =>
    rw [Option.some.injEq] at hfree
    exact ⟨hsome, hfree.symm⟩
  . contradiction

/--
Once the first node has been freed the handler frees it again.
-/
theorem doomed_freeAll_of_node {fuel : Nat} (hnode : h.node a = none) :
    Program.Always (Doomed a) (freeAll fuel p) h := by
  have hfault (p : Program α (Option Addr)) {h : Heap α} (hnode : h.node a = none) : Doomed a p h :=
    fun _ => .inl (ends_fault_of_node hnode)
  induction fuel generalizing h p with
  | zero =>
    cases p with
    | none => exact hfault _ hnode
    | some ptr => exact hfault _ hnode
  | succ fuel ih =>
    cases p with
    | none => exact hfault _ hnode
    | some lastPtr =>
      refine ⟨hfault _ hnode, fun ptr _ => ⟨hfault _ hnode, fun node _ => ⟨hfault _ hnode, ?_⟩⟩⟩
      intro h₁ hrecord
      obtain ⟨_, rfl⟩ := freeRecord_eq_some hrecord
      refine ⟨hfault _ hnode, ?_⟩
      intro h₂ hfree
      obtain ⟨_, rfl⟩ := freeNode_eq_some hfree
      apply ih
      dsimp only
      rw [Function.update_apply]
      split
      . rfl
      . exact hnode

theorem doomed_freeAll {fuel : Nat} (hlist : Represents h (some a) cs) :
    Program.Always (Doomed a) (freeAll fuel (some a)) h := by
  have howned : Owned h a (cs.map Cell.addr) (cs.map Cell.info) := ⟨cs, hlist, rfl, rfl⟩
  cases fuel with
  | zero => exact Doomed.spin a h
  | succ fuel =>
    have hseg := hlist.segment
    generalize hhead : some a = p at hseg
    cases hseg with
    | nil => contradiction
    | @cons c next _ cs hnode hrecord hrest =>
      rw [Option.some.injEq] at hhead
      subst hhead
      refine ⟨howned.doomed_readNode howned.head_mem, fun ptr _ =>
        ⟨howned.doomed_readNode howned.head_mem, ?_⟩⟩
      intro node hnode'
      rw [hnode, Option.some.injEq] at hnode'
      rw [← hnode']
      refine ⟨?_, ?_⟩
      . apply howned.doomed
        intro h' hfreed
        have hrecord' : h'.record c.info = none := by
          rw [hfreed.record, if_pos (List.mem_map_of_mem List.mem_cons_self)]
        simp only [Program.run, Heap.freeRecord, hrecord', Option.isSome_none, Bool.false_eq_true, if_false]
      . intro h₁ hfree
        obtain ⟨_, rfl⟩ := freeRecord_eq_some hfree
        refine ⟨fun _ => .inl (ends_fault_of_record hnode ?_), ?_⟩
        . exact Function.update_self c.info none h.record
        . intro h₂ hfree
          obtain ⟨_, rfl⟩ := freeNode_eq_some hfree
          apply doomed_freeAll_of_node
          exact Function.update_self c.addr none h.node

theorem goesWrong_freeNode {x : Addr} (hx : (h.node x).isSome = true) (ha : h.node a = none) :
    GoesWrong (.freeNode x (.done (some a))) h := by
  right
  refine ⟨a, { h with node := Function.update h.node x none }, ?_, ?_⟩
  . simp only [Program.run, Heap.freeNode, hx, if_true]
  . dsimp only
    rw [Function.update_apply, ha, ite_self]

theorem goesWrong_freeRecord {x info : Addr} (hinfo : (h.record info).isSome = true)
    (hx : (h.node x).isSome = true) (ha : h.node a = none) :
    GoesWrong (.freeRecord info (.freeNode x (.done (some a)))) h := by
  have hrest : GoesWrong (.freeNode x (.done (some a)))
      { h with record := Function.update h.record info none } := goesWrong_freeNode hx ha
  unfold GoesWrong at hrest ⊢
  rw [Program.run, Heap.freeRecord, if_pos hinfo]
  exact hrest

theorem goesWrong_freeEntry {x : Addr} {node : Node} (hx : h.node x = some node)
    (hinfo : (h.record node.info).isSome = true) (ha : h.node a = none) :
    GoesWrong (freeEntry x (some a)) h := by
  have hrest : GoesWrong (.freeRecord node.info (.freeNode x (.done (some a)))) h := by
    apply goesWrong_freeRecord hinfo _ ha
    rw [hx]
    rfl
  unfold GoesWrong at hrest ⊢
  rw [freeEntry, Program.run, hx]
  exact hrest

/--
The entry has been taken out of the list, so the handler does not free it, and the result points to the
list that the handler has freed.
-/
theorem doomed_freeEntry {c : Cell α} {next : Option Addr} (howned : Owned h a as is)
    (hnode : h.node c.addr = some { info := c.info, next := next }) (hrecord : h.record c.info = some c.value)
    (haddr : c.addr ∉ as) (hinfo : c.info ∉ is) :
    Program.Always (Doomed a) (freeEntry c.addr (some a)) h := by
  have hfreedNode {h h' : Heap α} (hnode : h.node c.addr = some { info := c.info, next := next })
      (hfreed : FreedBlocks h h' as is) : h'.node c.addr = some { info := c.info, next := next } := by
    rw [hfreed.node, if_neg haddr, hnode]
  have hfreedHead {h h' : Heap α} (hfreed : FreedBlocks h h' as is) : h'.node a = none := by
    rw [hfreed.node, if_pos howned.head_mem]
  have hfreedRecord {h' : Heap α} (hfreed : FreedBlocks h h' as is) : (h'.record c.info).isSome = true := by
    rw [hfreed.record, if_neg hinfo, hrecord]
    rfl
  refine ⟨fun _ => .inr ⟨as, is, howned, ?_⟩, ?_⟩
  . intro h' hfreed
    exact goesWrong_freeEntry (hfreedNode hnode hfreed) (hfreedRecord hfreed) (hfreedHead hfreed)
  . intro node hnode'
    rw [hnode, Option.some.injEq] at hnode'
    rw [← hnode']
    refine ⟨fun _ => .inr ⟨as, is, howned, ?_⟩, ?_⟩
    . intro h' hfreed
      apply goesWrong_freeRecord (hfreedRecord hfreed) _ (hfreedHead hfreed)
      rw [hfreedNode hnode hfreed]
      rfl
    . intro h₁ hfree
      obtain ⟨_, rfl⟩ := freeRecord_eq_some hfree
      refine ⟨fun _ => .inr ⟨as, is, ?_, ?_⟩, fun _ _ => Doomed.done a _ _⟩
      . obtain ⟨cs, hlist, haddrs, hinfos⟩ := howned
        refine ⟨cs, ⟨?_, hlist.distinct⟩, haddrs, hinfos⟩
        apply hlist.segment.congr
        . intro d _
          rfl
        . intro d hd
          dsimp only
          rw [Function.update_of_ne]
          intro heq
          apply hinfo
          rw [← hinfos, ← heq]
          exact List.mem_map_of_mem hd
      . intro h' hfreed
        apply goesWrong_freeNode _ (hfreedHead hfreed)
        rw [hfreed.node, if_neg haddr, hnode]
        rfl

theorem doomed_freeEntry_first {result : Option Addr} {c : Cell α}
    (hlist : Represents h (some c.addr) (c :: cs)) :
    Program.Always (Doomed c.addr) (freeEntry c.addr result) h := by
  have howned : Owned h c.addr ((c :: cs).map Cell.addr) ((c :: cs).map Cell.info) := ⟨_, hlist, rfl, rfl⟩
  obtain ⟨⟨next, hnode⟩, hrecord⟩ := hlist.segment.of_mem List.mem_cons_self
  refine ⟨howned.doomed_readNode howned.head_mem, ?_⟩
  intro node hnode'
  rw [hnode, Option.some.injEq] at hnode'
  rw [← hnode']
  refine ⟨?_, ?_⟩
  . apply howned.doomed
    intro h' hfreed
    have hrecord' : h'.record c.info = none := by
      rw [hfreed.record, if_pos (List.mem_map_of_mem List.mem_cons_self)]
    simp only [Program.run, Heap.freeRecord, hrecord', Option.isSome_none, Bool.false_eq_true, if_false]
  . intro h₁ hfree
    obtain ⟨_, rfl⟩ := freeRecord_eq_some hfree
    refine ⟨fun _ => .inl (ends_fault_of_record hnode ?_), fun _ _ => Doomed.done _ _ _⟩
    exact Function.update_self c.info none h.record

/--
`cs` is in front of `p`, the last node of it is `last`.
-/
theorem doomed_unlink {c d : Cell α} {es : List (Cell α)} {next : Option Addr}
    (hlist : Represents h (some a) (es ++ [d] ++ c :: ds)) (hes : Segment h (some a) (es ++ [d]) (some c.addr))
    (hnode : h.node c.addr = some { info := c.info, next := next }) (hds : Segment h next ds none) :
    Program.Always (Doomed a) (.readNode c.addr fun node => .setNext d.addr node.next (freeEntry c.addr (some a)))
      h := by
  have howned : Owned h a ((es ++ [d] ++ c :: ds).map Cell.addr) ((es ++ [d] ++ c :: ds).map Cell.info) :=
    ⟨_, hlist, rfl, rfl⟩
  have hmem : c.addr ∈ (es ++ [d] ++ c :: ds).map Cell.addr := List.mem_map_of_mem (by simp)
  have hmem' : d.addr ∈ (es ++ [d] ++ c :: ds).map Cell.addr := List.mem_map_of_mem (by simp)
  have hnodup : ((es ++ [d]).map Cell.addr ++ c.addr :: ds.map Cell.addr).Nodup := by
    have hnodup := hlist.segment.nodup
    rw [List.map_append] at hnodup
    exact hnodup
  have hdistinct : ((es ++ [d]).map Cell.info ++ c.info :: ds.map Cell.info).Nodup := by
    have hdistinct := hlist.distinct
    rw [List.map_append] at hdistinct
    exact hdistinct
  rw [List.nodup_middle, List.nodup_cons, ← List.map_append] at hnodup hdistinct
  obtain ⟨_, hrecord⟩ := hlist.segment.of_mem (show c ∈ es ++ [d] ++ c :: ds by simp)
  refine ⟨howned.doomed_readNode hmem, ?_⟩
  intro node hnode'
  rw [hnode, Option.some.injEq] at hnode'
  rw [← hnode']
  refine ⟨?_, ?_⟩
  . apply howned.doomed
    intro h' hfreed
    rw [Program.run, hfreed.node, if_pos hmem']
  . intro node hlast
    obtain ⟨_, hlast', _⟩ := hes.concat
    rw [hlast', Option.some.injEq] at hlast
    rw [← hlast]
    have hfront := (List.map_append (f := Cell.addr) ▸ hnodup.2).of_append_left
    have hback : d.addr ∉ ds.map Cell.addr := by
      have hnodup := hnodup.2
      rw [List.map_append, List.nodup_append] at hnodup
      intro hd
      exact hnodup.2.2 d.addr (List.mem_map_of_mem (by simp)) d.addr hd rfl
    have hseg := (hes.relink hfront next).append (hds.setNode { info := d.info, next := next } hback)
    apply doomed_freeEntry ⟨_, ⟨hseg, hdistinct.2⟩, rfl, rfl⟩ _ hrecord hnodup.1 hdistinct.1
    . exact next
    . rw [Heap.setNode_node, if_neg, hnode]
      intro heq
      apply hnodup.1
      rw [heq]
      exact List.mem_map_of_mem (by simp)

theorem doomed_removeFirst {input : Addr} {fuel : Nat} (hlist : Represents h (some a) (cs ++ ds))
    (hcs : Segment h (some a) cs p) (hseg : Segment h p ds none) :
    Program.Always (Doomed a) (removeFirst same input fuel (some a) (lastAfter none cs) cs.length p) h := by
  induction fuel generalizing cs ds p with
  | zero =>
    cases p with
    | none => exact Doomed.done a _ h
    | some ptr => exact Doomed.spin a h
  | succ fuel ih =>
    cases hseg with
    | nil => exact Doomed.done a _ h
    | @cons c next _ ds hnode hrecord hrest =>
      have howned : Owned h a ((cs ++ c :: ds).map Cell.addr) ((cs ++ c :: ds).map Cell.info) :=
        ⟨_, hlist, rfl, rfl⟩
      have hmem : c ∈ cs ++ c :: ds := List.mem_append_right cs List.mem_cons_self
      have haddr : c.addr ∈ (cs ++ c :: ds).map Cell.addr := List.mem_map_of_mem hmem
      have hblocked (next : Node → Program α (Option Addr)) (h' : Heap α)
          (hfreed : FreedBlocks h h' ((cs ++ c :: ds).map Cell.addr) ((cs ++ c :: ds).map Cell.info)) :
          (Program.readNode c.addr next).run h' = .fault := by
        rw [Program.run, hfreed.node, if_pos haddr]
      refine ⟨howned.doomed_readNode haddr, ?_⟩
      intro node hnode'
      rw [hnode, Option.some.injEq] at hnode'
      rw [← hnode']
      refine ⟨howned.doomed_readRecord (List.mem_map_of_mem hmem), ?_⟩
      intro info _
      refine ⟨?_, ?_⟩
      . apply howned.doomed_readRecord_then
        intro value h' hfreed
        split
        . exact hblocked _ h' hfreed
        . exact hblocked _ h' hfreed
      . intro value _
        dsimp only
        split
        . refine ⟨howned.doomed_readNode haddr, ?_⟩
          intro node hnode'
          rw [hnode, Option.some.injEq] at hnode'
          rw [← hnode']
          rcases List.eq_nil_or_concat cs with rfl | ⟨es, d, rfl⟩
          . dsimp only
            rw [List.length_nil, if_pos rfl]
            have heq := hlist.segment.head_eq
            rw [Option.some.injEq] at heq
            rw [heq] at hlist ⊢
            exact doomed_freeEntry_first hlist
          . rw [List.concat_eq_append] at hlist hcs ⊢
            dsimp only
            rw [lastAfter_concat, List.length_append, List.length_singleton,
              if_neg (Nat.add_one_ne_zero es.length)]
            exact doomed_unlink hlist hcs hnode hrest
        . refine ⟨howned.doomed_readNode haddr, ?_⟩
          intro node hnode'
          rw [hnode, Option.some.injEq] at hnode'
          rw [← hnode']
          have hlist' : Represents h (some a) (cs ++ [c] ++ ds) := by
            rw [List.append_assoc]
            exact hlist
          have hih := ih hlist' (hcs.append (.singleton hnode hrecord)) hrest
          rw [lastAfter_concat, List.length_append] at hih
          exact hih

end Changing

end Signal
end OnHeap

end RoutingTable
