import BBBLinux.RoutingTable.OnHeap.Signal.Doomed

/-!
This module shows that a client in which SIGUSR1 never comes while a function is at work on the list accesses
nothing but memory that is allocated. For `RoutingTable.OnHeap.Signal.Lost` the invariant also says in
what danger the list is in each of the other states.
-/

namespace RoutingTable
namespace OnHeap
namespace Signal

open LinkedList

def Keyed {α : Type} (same : α → α → Bool) : Prop :=
  ∃ (κ : Type) (_ : DecidableEq κ) (key : α → κ), ∀ info ptr, same info ptr = true ↔ key ptr = key info

structure Comparison.Keyed {α : Type} (f : Comparison α) : Prop where
  same : Signal.Keyed f.same
  sameRemoved : Signal.Keyed f.sameRemoved

theorem keyed_routes : routes.Keyed where
  same := ⟨_, inferInstance, DataInfo.key, sameRoute_iff⟩
  sameRemoved := ⟨_, inferInstance, DataInfo.key, sameRoute_iff⟩

theorem keyed_macs : macs.Keyed where
  same := ⟨_, inferInstance, MacTableStruct.prefixKey, samePrefix_iff⟩
  sameRemoved := ⟨_, inferInstance, MacTableStruct.stringKey, sameString_iff⟩

section Programs

variable {α : Type} {f : Comparison α} {h h' : Heap α} {head : Option Addr} {a : Addr} {cs : List (Cell α)}

theorem readOnly_absentBeforeLast (same : α → α → Bool) (info : α) (fuel : Nat) (ptr : Addr) :
    (absentBeforeLast same info fuel ptr).ReadOnly := by
  induction fuel generalizing ptr with
  | zero => trivial
  | succ fuel ih =>
    intro node
    dsimp only
    cases node.next with
    | none => trivial
    | some next =>
      intro node value
      dsimp only
      split
      . trivial
      . intro node
        dsimp only
        cases node.next with
        | none => trivial
        | some next => exact ih next

theorem readOnly_search (found : α → Bool) (hit miss : Bool) (fuel : Nat) (head : Option Addr) :
    (search found hit miss fuel head).ReadOnly := by
  induction fuel generalizing head with
  | zero => cases head <;> trivial
  | succ fuel ih =>
    cases head with
    | none => trivial
    | some ptr =>
      intro node value
      dsimp only
      split
      . trivial
      . exact fun node => ih node.next

theorem Reading.readOnly (r : Reading α) (fuel : Nat) (head : Option Addr) :
    (r.program f fuel head).ReadOnly := by
  cases r with
  | check opcode info change =>
    cases opcode with
    | create =>
      cases head with
      | none => trivial
      | some ptr => exact readOnly_absentBeforeLast f.same info fuel ptr
    | update => exact readOnly_search (f.same info) true false fuel head
    | delete =>
      cases head with
      | none => trivial
      | some ptr => exact readOnly_search (f.same info) true true fuel (some ptr)
    | _ => trivial
  | «show» => exact readOnly_search _ _ _ fuel head

theorem Reading.ends (r : Reading α) (hlist : Represents h head cs) :
    ∃ result, Ends (fun fuel => r.program f fuel head) h (.ok result h) := by
  cases r with
  | check opcode info change =>
    have hruns := (condition_runs f.same info opcode hlist.segment).map fun result => (h, result)
    exact ⟨_, .of_runs (fun fuel => toOption_condition f.same info h fuel head opcode) hruns⟩
  | «show» =>
    have hruns := (entries_runs ⟨cs, hlist, rfl⟩).map fun _ => (h, true)
    exact ⟨_, .of_runs (fun fuel => toOption_show h fuel head) hruns⟩

def Change.Ready (h : Heap α) (cs : List (Cell α)) : Change → Prop
  | .add inputEntryInfo | .update inputEntryInfo | .remove inputEntryInfo =>
    (h.record inputEntryInfo).isSome ∧ inputEntryInfo ∉ cs.map Cell.info
  | .flush => True

def Reading.Ready (h : Heap α) (cs : List (Cell α)) : Reading α → Prop
  | .check _ _ change => change.Ready h cs
  | .show => True

/--
The list is at `result` now, and what was its first node still is or has been freed.
-/
structure Changed (head : Option Addr) (result : Option Addr) (h' : Heap α) : Prop where
  list : ∃ cs, Represents h' result cs
  first : ∀ a, head = some a → result = some a ∨ h'.node a = none

theorem add_ends {input temp : Addr} (hlist : Represents h head cs)
    (hready : Change.Ready h cs (.add input)) (htemp : h.node temp = none) : ∃ result h',
    Ends (fun fuel => addLast fuel head input temp) h (.ok result h') ∧ Changed head result h' := by
  obtain ⟨hsome, hnotMem⟩ := hready
  obtain ⟨value, hinput⟩ := Option.isSome_iff_exists.mp hsome
  obtain ⟨h', result, hruns, hseg, _⟩ := appendsLast_addLast h head cs input temp value hlist hinput htemp
  refine ⟨result, h', .of_runs (fun fuel => toOption_addLast h fuel head input temp) hruns, ?_, ?_⟩
  . refine ⟨_, hseg, ?_⟩
    rw [List.map_append, List.nodup_append]
    refine ⟨hlist.distinct, List.nodup_singleton _, ?_⟩
    intro r hr r' hr' heq
    rw [List.map_singleton, List.mem_singleton] at hr'
    rw [heq, hr'] at hr
    contradiction
  . rintro a rfl
    left
    cases cs with
    | nil => cases hlist.segment
    | cons c cs => rw [hlist.segment.head_eq, hseg.head_eq]

theorem update_ends {input : Addr} (hkeyed : Keyed f.same) (hlist : Represents h head cs)
    (hready : Change.Ready h cs (.update input)) : ∃ result h',
    Ends (fun fuel => updateAll f.same head input fuel head) h (.ok result h') ∧ Changed head result h' := by
  obtain ⟨κ, _, key, hkey⟩ := hkeyed
  obtain ⟨value, hinput⟩ := Option.isSome_iff_exists.mp hready.1
  obtain ⟨h', hruns, hlist', _⟩ := updatesAll_updateAll hkey h head cs input value hlist hinput
  refine ⟨head, h', .of_runs (fun fuel => ?_) hruns, ⟨_, hlist'⟩, fun a ha => .inl ha⟩
  rw [toOption_updateAll, Option.map_eq_bind]
  rfl

theorem remove_ends {input : Addr} (hkeyed : Keyed f.sameRemoved) (hlist : Represents h head cs)
    (hready : Change.Ready h cs (.remove input)) : ∃ result h',
    Ends (fun fuel => removeFirst f.sameRemoved input fuel head none 0 head) h (.ok result h')
      ∧ Changed head result h' := by
  obtain ⟨κ, _, key, hkey⟩ := hkeyed
  obtain ⟨value, hinput⟩ := Option.isSome_iff_exists.mp hready.1
  obtain ⟨h', result, hruns, hlist', hfreed, _⟩ := removesFirst_removeFirst hkey h head cs input value hlist hinput
  refine ⟨result, h', .of_runs (fun fuel => toOption_removeFirst f.sameRemoved input h fuel head none 0 head) hruns,
    ⟨_, hlist'⟩, ?_⟩
  rintro a rfl
  cases cs with
  | nil => cases hlist.segment
  | cons c cs =>
    have heq := hlist.segment.head_eq
    rw [Option.some.injEq] at heq
    by_cases hc : key c.value = key value
    . right
      rw [hfreed.node, heq]
      right
      rw [List.find?_cons_of_pos (by simpa using hc)]
      exact List.mem_cons_self
    . left
      rw [List.eraseP_cons_of_neg (by simpa using hc)] at hlist'
      rw [hlist'.segment.head_eq, heq]

theorem flush_ends (hlist : Represents h head cs) : ∃ result h',
    Ends (fun fuel => freeAll fuel head) h (.ok result h') ∧ Changed head result h' := by
  obtain ⟨h', hends, hfreed⟩ := ends_freeAll hlist
  refine ⟨none, h', hends, ⟨[], .nil none, List.nodup_nil⟩, ?_⟩
  rintro a rfl
  right
  rw [hfreed.node, if_pos (Owned.head_mem ⟨cs, hlist, rfl, rfl⟩)]

theorem Change.ends {temp : Addr} (hkeyed : f.Keyed) (c : Change) (hlist : Represents h head cs)
    (hready : c.Ready h cs) (htemp : c.Allocates h temp) : ∃ result h',
    Ends (fun fuel => c.program f temp fuel head) h (.ok result h') ∧ Changed head result h' := by
  cases c with
  | add input => exact add_ends hlist hready htemp
  | update input => exact update_ends hkeyed.same hlist hready
  | remove input => exact remove_ends hkeyed.sameRemoved hlist hready
  | flush => exact flush_ends hlist

theorem Change.doomed {temp : Addr} {fuel : Nat} {result : Option Addr} (c : Change)
    (hlist : Represents h (some a) cs) (htemp : c.Allocates h temp)
    (hrun : (c.program f temp fuel (some a)).run h = .ok result h') :
    Program.Always (Doomed a) (c.program f temp fuel (some a)) h := by
  have howned : Owned h a (cs.map Cell.addr) (cs.map Cell.info) := ⟨cs, hlist, rfl, rfl⟩
  cases c with
  | add input =>
    apply doomed_addLast hlist htemp
    rintro rfl
    contradiction
  | update input =>
    apply doomed_updateAll howned hlist.segment
    intro c hc
    exact ⟨List.mem_map_of_mem hc, List.mem_map_of_mem hc⟩
  | remove input =>
    have hempty : Represents h (some a) ([] ++ cs) := hlist
    exact doomed_removeFirst hempty (.nil (some a)) hlist.segment
  | flush => exact doomed_freeAll hlist

theorem Change.Ready.freed {c : Change} (hready : c.Ready h cs)
    (hfreed : FreedBlocks h h' (cs.map Cell.addr) (cs.map Cell.info)) : c.Ready h' ([] : List (Cell α)) := by
  have hrecord {input : Addr} (hsome : (h.record input).isSome = true) (hnotMem : input ∉ cs.map Cell.info) :
      (h'.record input).isSome = true := by
    rw [hfreed.record, if_neg hnotMem]
    exact hsome
  cases c with
  | add | update | remove => exact ⟨hrecord hready.1 hready.2, List.not_mem_nil⟩
  | flush => trivial

theorem Reading.Ready.freed {r : Reading α} (hready : r.Ready h cs)
    (hfreed : FreedBlocks h h' (cs.map Cell.addr) (cs.map Cell.info)) : r.Ready h' [] := by
  cases r with
  | check => exact Change.Ready.freed hready hfreed
  | «show» => trivial

end Programs

namespace Table

variable {α : Type} {f : Comparison α} {s s' : Table α} {cs : List (Cell α)}

/--
A function has loaded `head`, there is a list and the function has not read the last of it.
-/
def Busy (s : Table α) : Prop :=
  s.head ≠ none ∧ match s.control with
    | .reading p _ => p.Running
    | .called _ _ | .changing _ => True
    | _ => False

def Intact (s : Table α) : Prop :=
  ∃ cs, Represents s.heap s.head cs

structure Reads (s : Table α) (p : Program α Bool) (cs : List (Cell α)) : Prop where
  readOnly : p.ReadOnly
  blocked : Program.Always (Blocked (cs.map Cell.addr) (cs.map Cell.info)) p s.heap
  run : ∃ result, p.run s.heap = .ok result s.heap

structure Changes (s : Table α) (p : Program α (Option Addr)) : Prop where
  doomed : ∀ a, s.head = some a → Program.Always (Doomed a) p s.heap
  run : ∃ result heap, p.run s.heap = .ok result heap ∧ Changed s.head result heap

def Sound (s : Table α) : Prop :=
  match s.control with
  | .waiting => s.Intact
  | .toRead r => ∃ cs, Represents s.heap s.head cs ∧ r.Ready s.heap cs
  | .reading p r => ∃ cs, Represents s.heap s.head cs ∧ r.Ready s.heap cs ∧ s.Reads p cs
  | .toChange c => ∃ cs, Represents s.heap s.head cs ∧ c.Ready s.heap cs
  | .called c head => head = s.head ∧ ∃ cs, Represents s.heap s.head cs ∧ c.Ready s.heap cs
  | .changing p => s.Changes p
  | .fault => False

theorem Sound.receive {input : Addr} {info : α} {command : Command} (hsound : s.Sound)
    (hcontrol : s.control = .waiting) (hinput : s.heap.record input = none) :
    (s.receive input info command).Sound := by
  unfold Sound at hsound
  rw [hcontrol] at hsound
  obtain ⟨cs, hlist⟩ := hsound
  have hnotMem := hlist.segment.notMem_of_record hinput
  have hlist' : Represents (s.heap.setRecord input info) s.head cs :=
    ⟨hlist.segment.setRecord hnotMem, hlist.distinct⟩
  have hsome : ((s.heap.setRecord input info).record input).isSome = true := by
    rw [Heap.setRecord_record, if_pos rfl]
    rfl
  cases command with
  | create => exact ⟨cs, hlist', hsome, hnotMem⟩
  | update => exact ⟨cs, hlist', hsome, hnotMem⟩
  | delete => exact ⟨cs, hlist', hsome, hnotMem⟩
  | «show» => exact ⟨cs, hlist', trivial⟩
  | flush => exact ⟨cs, hlist', trivial⟩
  | other => exact ⟨cs, hlist'⟩

theorem Sound.call (hsound : s.Sound) (hcall : s.call = some s') : s'.Sound := by
  unfold Sound at hsound
  unfold Table.call at hcall
  cases hcontrol : s.control with
  | toChange c =>
    rw [hcontrol] at hsound hcall
    rw [Option.some.injEq] at hcall
    rw [← hcall]
    exact ⟨rfl, hsound⟩
  | _ =>
    rw [hcontrol] at hcall
    contradiction

theorem Sound.enter {fuel : Nat} {temp : Addr} (hkeyed : f.Keyed) (hsound : s.Sound)
    (hentered : s.Entered f fuel temp s') : s'.Sound := by
  unfold Sound at hsound
  unfold Entered at hentered
  cases hcontrol : s.control with
  | toRead r =>
    rw [hcontrol] at hsound hentered
    obtain ⟨cs, hlist, hready⟩ := hsound
    obtain ⟨henough, rfl⟩ := hentered
    obtain ⟨result, hends⟩ := r.ends hlist
    refine ⟨cs, hlist, hready, r.readOnly fuel s.head, ?_, result, hends.of_enough henough⟩
    apply blocked_program hlist.segment
    intro c hc
    exact ⟨List.mem_map_of_mem hc, List.mem_map_of_mem hc⟩
  | called c head =>
    rw [hcontrol] at hsound hentered
    obtain ⟨rfl, cs, hlist, hready⟩ := hsound
    obtain ⟨htemp, henough, rfl⟩ := hentered
    obtain ⟨result, heap, hends, hchanged⟩ := c.ends hkeyed hlist hready htemp
    have hrun := hends.of_enough henough
    refine ⟨?_, result, heap, hrun, hchanged⟩
    intro a ha
    dsimp only at ha ⊢
    rw [ha] at hlist hrun ⊢
    exact c.doomed hlist htemp hrun
  | _ =>
    rw [hcontrol] at hentered
    contradiction

theorem access_reading {p : Program α Bool} {r : Reading α} (hcontrol : s.control = .reading p r)
    (hrunning : p.Running) : s.access = match p.access s.heap with
      | some (p, heap) => some { s with heap := heap, control := .reading p r }
      | none => some { s with control := .fault } := by
  unfold access
  rw [hcontrol]
  cases p with
  | done => contradiction
  | spin => contradiction
  | _ => rfl

theorem access_changing {p : Program α (Option Addr)} (hcontrol : s.control = .changing p)
    (hrunning : p.Running) : s.access = match p.access s.heap with
      | some (p, heap) => some { s with heap := heap, control := .changing p }
      | none => some { s with control := .fault } := by
  unfold access
  rw [hcontrol]
  cases p with
  | done => contradiction
  | spin => contradiction
  | _ => rfl

theorem running_of_access (haccess : s.access = some s') :
    (∃ p r, s.control = .reading p r ∧ p.Running) ∨ ∃ p, s.control = .changing p ∧ p.Running := by
  unfold access at haccess
  cases hcontrol : s.control with
  | reading p r =>
    refine .inl ⟨p, r, rfl, ?_⟩
    rw [hcontrol] at haccess
    cases p with
    | done => contradiction
    | spin => contradiction
    | _ => trivial
  | changing p =>
    refine .inr ⟨p, rfl, ?_⟩
    rw [hcontrol] at haccess
    cases p with
    | done => contradiction
    | spin => contradiction
    | _ => trivial
  | _ =>
    rw [hcontrol] at haccess
    contradiction

theorem Sound.access (hsound : s.Sound) (haccess : s.access = some s') : s'.Sound := by
  unfold Sound at hsound
  obtain ⟨p, r, hcontrol, hrunning⟩ | ⟨p, hcontrol, hrunning⟩ := running_of_access haccess
  . rw [hcontrol] at hsound
    obtain ⟨cs, hlist, hready, hreads⟩ := hsound
    obtain ⟨result, hrun⟩ := hreads.run
    rw [access_reading hcontrol hrunning] at haccess
    cases hnext : p.access s.heap with
    | none =>
      rw [Program.fault_of_access hrunning hnext] at hrun
      contradiction
    | some next =>
      rw [hnext, Option.some.injEq] at haccess
      rw [← haccess]
      obtain ⟨hreadOnly, hheap⟩ := hreads.readOnly.access hnext
      have hblocked := hreads.blocked.access hnext
      rw [Program.run_of_access hnext] at hrun
      rw [hheap] at hrun hblocked
      refine ⟨cs, ?_⟩
      dsimp only
      rw [hheap]
      exact ⟨hlist, hready, hreadOnly, hheap ▸ hblocked, result, hheap ▸ hrun⟩
  . rw [hcontrol] at hsound
    obtain ⟨result, heap, hrun, hchanged⟩ := hsound.run
    rw [access_changing hcontrol hrunning] at haccess
    cases hnext : p.access s.heap with
    | none =>
      rw [Program.fault_of_access hrunning hnext] at hrun
      contradiction
    | some next =>
      rw [hnext, Option.some.injEq] at haccess
      rw [← haccess]
      rw [Program.run_of_access hnext] at hrun
      exact ⟨fun a ha => (hsound.doomed a ha).access hnext, result, heap, hrun, hchanged⟩

theorem Sound.leave (hsound : s.Sound) (hleave : s.leave = some s') : s'.Sound := by
  unfold Sound at hsound
  unfold Table.leave at hleave
  cases hcontrol : s.control with
  | reading p r =>
    rw [hcontrol] at hsound hleave
    cases p with
    | done result =>
      rw [Option.some.injEq] at hleave
      rw [← hleave]
      obtain ⟨cs, hlist, hready, _⟩ := hsound
      cases r with
      | check opcode info change =>
        cases result with
        | true => exact ⟨cs, hlist, hready⟩
        | false => exact ⟨cs, hlist⟩
      | «show» => exact ⟨cs, hlist⟩
    | _ => contradiction
  | changing p =>
    rw [hcontrol] at hsound hleave
    cases p with
    | done head =>
      rw [Option.some.injEq] at hleave
      rw [← hleave]
      obtain ⟨result, heap, hrun, hchanged⟩ := hsound.run
      rw [Program.run, Outcome.ok.injEq] at hrun
      rw [← hrun.1, ← hrun.2] at hchanged
      exact hchanged.list
    | _ => contradiction
  | _ =>
    rw [hcontrol] at hleave
    contradiction

theorem Handled.of_none (hhandled : s.Handled s') (hhead : s.head = none) : s' = s := by
  have hends : Ends (fun fuel => freeAll fuel s.head) s.heap (.ok none s.heap) := by
    rw [hhead]
    exists 0
    intro fuel _
    cases fuel <;> rfl
  obtain ⟨heap, hends', rfl⟩ | ⟨hends', _⟩ := hhandled
  . have heq := hends'.unique hends
    rw [Outcome.ok.injEq] at heq
    rw [heq.2, ← hhead]
  . have heq := hends'.unique hends
    contradiction

theorem Handled.of_list (hhandled : s.Handled s') (hlist : Represents s.heap s.head cs) :
    ∃ heap, FreedBlocks s.heap heap (cs.map Cell.addr) (cs.map Cell.info)
      ∧ s' = { s with heap := heap, head := none } := by
  obtain ⟨heap, hends, hfreed⟩ := ends_freeAll hlist
  obtain ⟨heap', hends', rfl⟩ | ⟨hends', _⟩ := hhandled
  . have heq := hends'.unique hends
    rw [Outcome.ok.injEq] at heq
    exact ⟨heap, hfreed, by rw [heq.2]⟩
  . have heq := hends'.unique hends
    contradiction

theorem Sound.sigusr1 (hsound : s.Sound) (hbusy : ¬s.Busy) (hhandled : s.Handled s') : s'.Sound := by
  by_cases hhead : s.head = none
  . rw [hhandled.of_none hhead]
    exact hsound
  . have hempty (heap : Heap α) : Represents heap none [] := ⟨.nil none, List.nodup_nil⟩
    unfold Busy at hbusy
    have hsound' := hsound
    unfold Sound at hsound'
    cases hcontrol : s.control with
    | waiting =>
      rw [hcontrol] at hsound'
      obtain ⟨cs, hlist⟩ := hsound'
      obtain ⟨heap, hfreed, rfl⟩ := hhandled.of_list hlist
      unfold Sound
      rw [hcontrol]
      exact ⟨[], hempty heap⟩
    | toRead r =>
      rw [hcontrol] at hsound'
      obtain ⟨cs, hlist, hready⟩ := hsound'
      obtain ⟨heap, hfreed, rfl⟩ := hhandled.of_list hlist
      unfold Sound
      rw [hcontrol]
      exact ⟨[], hempty heap, hready.freed hfreed⟩
    | reading p r =>
      rw [hcontrol] at hsound' hbusy
      obtain ⟨cs, hlist, hready, hreads⟩ := hsound'
      obtain ⟨result, hrun⟩ := hreads.run
      obtain ⟨heap, hfreed, rfl⟩ := hhandled.of_list hlist
      have hdone := Program.eq_done_of_run hrun fun hrunning => hbusy ⟨hhead, hrunning⟩
      unfold Sound
      rw [hcontrol, hdone]
      exact ⟨[], hempty heap, hready.freed hfreed, trivial, fun hrunning => absurd hrunning id, result, rfl⟩
    | toChange c =>
      rw [hcontrol] at hsound'
      obtain ⟨cs, hlist, hready⟩ := hsound'
      obtain ⟨heap, hfreed, rfl⟩ := hhandled.of_list hlist
      unfold Sound
      rw [hcontrol]
      exact ⟨[], hempty heap, hready.freed hfreed⟩
    | called | changing =>
      rw [hcontrol] at hbusy
      exact absurd ⟨hhead, trivial⟩ hbusy
    | fault =>
      rw [hcontrol] at hsound'
      contradiction

end Table

/--
The runs in which SIGUSR1 does not come while the client is busy with a list.
-/
def Uninterrupted {α : Type} (f : Comparison α) : Table α → Prop :=
  (system f).ReachableVia fun s label => label = .sigusr1 → ¬s.Busy

theorem Uninterrupted.sound {α : Type} {f : Comparison α} {s : Table α} (hkeyed : f.Keyed)
    (h : Uninterrupted f s) : s.Sound := by
  apply h.invariant
  . intro s hinit
    obtain ⟨hhead, hcontrol⟩ := hinit
    unfold Table.Sound
    rw [hcontrol]
    refine ⟨[], ?_, List.nodup_nil⟩
    rw [hhead]
    exact .nil none
  . intro s label s' hsound hok hstep
    cases label with
    | message input info command =>
      obtain ⟨hcontrol, hinput, rfl⟩ := hstep
      exact hsound.receive hcontrol hinput
    | call => exact hsound.call hstep
    | enter fuel temp => exact hsound.enter hkeyed hstep
    | access => exact hsound.access hstep
    | leave => exact hsound.leave hstep
    | sigusr1 => exact hsound.sigusr1 (hok rfl) hstep.2

def SafeBetween {α : Type} (f : Comparison α) : Prop :=
  ∀ s, Uninterrupted f s → s.control ≠ .fault ∧ (s.control = .waiting → s.Intact)

theorem safeBetween {α : Type} {f : Comparison α} (hkeyed : f.Keyed) : SafeBetween f := by
  intro s h
  have hsound := h.sound hkeyed
  unfold Table.Sound at hsound
  constructor
  . intro hcontrol
    rw [hcontrol] at hsound
    exact hsound
  . intro hcontrol
    rw [hcontrol] at hsound
    exact hsound

theorem tables_safe_between : SafeBetween routes ∧ SafeBetween macs :=
  ⟨safeBetween keyed_routes, safeBetween keyed_macs⟩

def firstRoute : DataInfo :=
  .ofMem (CString.text "10.0.0.0")

/--
The first CREATE has been carried out.
-/
def stored : Table DataInfo where
  heap := (Heap.empty.setRecord 0 firstRoute).setNode 0 { info := 0, next := none }
  head := some 0
  control := .waiting

theorem uninterrupted_stored : Uninterrupted routes stored := by
  have hinit : Uninterrupted routes { heap := .empty, head := none, control := .waiting } := .init ⟨rfl, rfl⟩
  have hcreate : Uninterrupted routes _ :=
    hinit.step (i := .message 0 firstRoute .create) (by simp) ⟨rfl, rfl, rfl⟩
  have hchecking : Uninterrupted routes _ :=
    hcreate.step (i := .enter 0 0) (by simp) ⟨fun _ _ => rfl, rfl⟩
  have hchecked : Uninterrupted routes _ := hchecking.step (i := .leave) (by simp) rfl
  have hcalled : Uninterrupted routes _ := hchecked.step (i := .call) (by simp) rfl
  have hadding : Uninterrupted routes _ :=
    hcalled.step (i := .enter 0 0) (by simp) ⟨rfl, fun _ _ => rfl, rfl⟩
  have hadded : Uninterrupted routes _ := hadding.step (i := .access) (by simp) rfl
  exact hadded.step (i := .leave) (by simp) rfl

theorem represents_stored :
    Represents stored.heap stored.head [{ addr := 0, info := 0, value := firstRoute }] where
  segment := Segment.cons (c := { addr := 0, info := 0, value := firstRoute }) rfl rfl (.nil none)
  distinct := List.nodup_singleton 0

theorem tables_safe_between_stored : ∃ s, (system routes).step stored .sigusr1 s ∧ s.head = none
    ∧ s.control ≠ .fault ∧ s.Intact := by
  obtain ⟨heap, hends, _⟩ := ends_freeAll represents_stored
  have hstep : (system routes).step stored .sigusr1 { stored with heap := heap, head := none } :=
    ⟨nofun, .inl ⟨heap, hends, rfl⟩⟩
  have hsafe := tables_safe_between.1 _ (uninterrupted_stored.step (fun _ => And.right) hstep)
  exact ⟨_, hstep, rfl, hsafe.1, hsafe.2 rfl⟩

end Signal
end OnHeap

end RoutingTable
