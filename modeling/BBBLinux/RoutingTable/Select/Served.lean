import BBBLinux.RoutingTable.Peers.EndOfFile
import BBBLinux.RoutingTable.Select.Sound

/-!
This module contains whom the server serves. A pass through the loop reads from each client that has data,
once and in the order of the slots, unless a new client or the console comes first. At the end of its file
the console always does, and no client is read any more.
-/

namespace RoutingTable

open CString

def Call.descriptorRead : Call → Option Int
  | .read fd => some fd
  | .addToMonitorFdSet _ | .removeFromMonitorFdSet _ | .fdIsset _ => none

namespace SelectLoop

variable {s t : SelectLoop} {pass : Pass} {passes : List Pass} {readFd : Finset Int} {k : Nat} {fd : Int}

def reads (s : SelectLoop) : List Int :=
  -- the calls are a history with the newest first
  (s.calls.filterMap Call.descriptorRead).reverse

def Busy (s : SelectLoop) (pass : Pass) : Prop :=
  s.server.connectionSocket ∈ s.readFd pass.pending ∨ 0 ∈ s.readFd pass.pending

instance (s : SelectLoop) (pass : Pass) : Decidable (s.Busy pass) :=
  inferInstanceAs (Decidable (_ ∨ _))

def served (s : SelectLoop) (pass : Pass) : List Int :=
  if s.Busy pass then
    []
  else
    s.server.monitorFdSet.filter fun fd => decide (fd ∈ s.readFd pass.pending)

/--
`read` returns -1 at the slot: for a free slot `FD_ISSET` has found a bit outside of the set, or the
connection of a client that is ready has an error.
-/
def ReadFails (pass : Pass) (readFd : Finset Int) (s : SelectLoop) (index : Nat) : Prop :=
  ∃ fd, s.server.monitorFdSet[index]? = some fd
    ∧ (fd = -1 ∧ pass.outside index = true ∨ fd ∈ readFd ∧ pass.received index = none)

section Scan

theorem readFails_iff (hfd : s.server.monitorFdSet[k]? = some fd) : ReadFails pass readFd s k
    ↔ fd = -1 ∧ pass.outside k = true ∨ fd ∈ readFd ∧ pass.received k = none := by
  unfold ReadFails
  rw [hfd]
  simp

theorem scanSlot_of_free (hfd : s.server.monitorFdSet[k]? = some (-1)) :
    scanSlot pass readFd s k
      = if pass.outside k = true then none else some { s with calls := .fdIsset (-1) :: s.calls } := by
  have hbit : ¬HasBit (-1) := by decide
  have hneg : (-1 : Int) < 0 := by decide
  unfold scanSlot
  rw [List.getD_eq_getElem?_getD, hfd, Option.getD_some]
  dsimp only
  rw [RoutingTable.fdIsset, if_neg hbit]
  by_cases houtside : pass.outside k = true
  . rw [if_pos houtside, if_pos houtside]
    exact if_pos hneg
  . rw [if_neg houtside, if_neg houtside]

theorem scanSlot_of_hasBit (hfd : s.server.monitorFdSet[k]? = some fd) (hbit : HasBit fd) :
    scanSlot pass readFd s k
      = if fd ∈ readFd then
          (pass.received k).map fun received =>
            clientData { s with calls := .read fd :: .fdIsset fd :: s.calls } fd (readPid received)
        else
          some { s with calls := .fdIsset fd :: s.calls } := by
  unfold scanSlot
  rw [List.getD_eq_getElem?_getD, hfd, Option.getD_some]
  dsimp only
  rw [RoutingTable.fdIsset, if_pos hbit, if_neg (not_lt.mpr hbit.1)]
  by_cases hmem : fd ∈ readFd
  . rw [if_pos hmem, if_pos (decide_eq_true hmem)]
    cases pass.received k <;> rfl
  . rw [if_neg hmem, if_neg (by simpa using hmem)]

theorem reads_clientData {pid : Int} : (s.clientData fd pid).reads = s.reads := by
  unfold clientData reads
  dsimp only
  split <;> rfl

theorem monitorFdSet_clientData {pid : Int} (hfd : s.server.monitorFdSet[k]? = some fd) {j : Nat}
    (hj : k < j) : (s.clientData fd pid).server.monitorFdSet[j]? = s.server.monitorFdSet[j]? := by
  unfold clientData Server.clientData
  dsimp only
  split
  . rfl
  . exact getElem?_replaceFirst_of_lt hfd hj

/--
The loop over the clients has come to slot `k`.
-/
structure Scanning (s : SelectLoop) (readFd : Finset Int) (k : Nat) (t : SelectLoop) : Prop where
  rest : ∀ j, k ≤ j → t.server.monitorFdSet[j]? = s.server.monitorFdSet[j]?
  reads : t.reads = s.reads ++ (s.server.monitorFdSet.take k).filter fun fd => decide (fd ∈ readFd)

theorem take_filter_succ (hfd : s.server.monitorFdSet[k]? = some fd) :
    (s.server.monitorFdSet.take (k + 1)).filter (fun fd => decide (fd ∈ readFd))
      = (s.server.monitorFdSet.take k).filter (fun fd => decide (fd ∈ readFd))
        ++ if fd ∈ readFd then [fd] else [] := by
  rw [List.take_add_one, hfd, List.filter_append]
  congr 1
  simp [List.filter_cons]

theorem Scanning.ready (h : s.Scanning readFd k t) (hfd : s.server.monitorFdSet[k]? = some fd)
    (hmem : fd ∈ readFd) (received : Mem) : s.Scanning readFd (k + 1)
      (clientData { t with calls := .read fd :: .fdIsset fd :: t.calls } fd (readPid received)) := by
  have hslot : t.server.monitorFdSet[k]? = some fd := (h.rest k (Nat.le_refl k)).trans hfd
  constructor
  . intro j hj
    refine (monitorFdSet_clientData hslot hj).trans ?_
    exact h.rest j (Nat.le_of_succ_le hj)
  . rw [reads_clientData, take_filter_succ hfd, if_pos hmem, ← List.append_assoc, ← h.reads]
    exact List.reverse_cons

theorem Scanning.idle (h : s.Scanning readFd k t) (hfd : s.server.monitorFdSet[k]? = some fd)
    (hset : fd ∉ readFd) : s.Scanning readFd (k + 1) { t with calls := .fdIsset fd :: t.calls } := by
  constructor
  . intro j hj
    exact h.rest j (Nat.le_of_succ_le hj)
  . rw [take_filter_succ hfd, if_neg hset, List.append_nil, ← h.reads]
    rfl

/--
At a slot either `read` fails, which ends the server, or the loop goes on to the next one.
-/
theorem Scanning.slot_cases (pass : Pass) (h : s.Scanning readFd k t) (hset : -1 ∉ readFd)
    (hfd : s.server.monitorFdSet[k]? = some fd) (hslot : fd = -1 ∨ HasBit fd) :
    scanSlot pass readFd t k = none ∧ ReadFails pass readFd s k
      ∨ ∃ t', scanSlot pass readFd t k = some t' ∧ ¬ReadFails pass readFd s k
        ∧ s.Scanning readFd (k + 1) t' := by
  have htfd : t.server.monitorFdSet[k]? = some fd := (h.rest k (Nat.le_refl k)).trans hfd
  rw [readFails_iff hfd]
  rcases hslot with rfl | hbit
  . rw [scanSlot_of_free htfd]
    by_cases houtside : pass.outside k = true
    . rw [if_pos houtside]
      exact .inl ⟨rfl, .inl ⟨rfl, houtside⟩⟩
    . rw [if_neg houtside]
      refine .inr ⟨_, rfl, ?_, h.idle hfd hset⟩
      rintro (⟨_, hbad⟩ | ⟨hmem, _⟩)
      . exact houtside hbad
      . exact hset hmem
  . rw [scanSlot_of_hasBit htfd hbit]
    by_cases hmem : fd ∈ readFd
    . rw [if_pos hmem]
      cases hreceived : pass.received k with
      | none => exact .inl ⟨rfl, .inr ⟨hmem, rfl⟩⟩
      | some received =>
        refine .inr ⟨_, rfl, ?_, h.ready hfd hmem received⟩
        rintro (⟨hfree, _⟩ | ⟨_, hnone⟩)
        . exact hbit.ne hfree
        . contradiction
    . rw [if_neg hmem]
      refine .inr ⟨_, rfl, ?_, h.idle hfd hmem⟩
      rintro (⟨hfree, _⟩ | ⟨hready, _⟩)
      . exact hbit.ne hfree
      . exact hmem hready

/--
The loop over the clients ends the server if a `read` fails, and otherwise reads all that is ready.
-/
theorem Slots.scan_cases (pass : Pass) (h : s.Slots) (hset : -1 ∉ readFd) (hk : k ≤ maxClientsSupport) :
    ((List.range k).foldlM (scanSlot pass readFd) s = none ∧ ∃ i < k, ReadFails pass readFd s i)
      ∨ ∃ t, (List.range k).foldlM (scanSlot pass readFd) s = some t
        ∧ (∀ i < k, ¬ReadFails pass readFd s i) ∧ s.Scanning readFd k t := by
  induction k with
  | zero =>
    refine .inr ⟨s, rfl, fun i hi => absurd hi (Nat.not_lt_zero i), fun _ _ => rfl, ?_⟩
    simp
  | succ k ih =>
    rw [IndexedLoop.foldlM_range_succ]
    have hlt : k < s.server.monitorFdSet.length := by
      rw [h.length]
      exact hk
    have hfd := List.getElem?_eq_getElem hlt
    have hslot := h.slot (List.getElem_mem hlt)
    generalize s.server.monitorFdSet[k] = fd at hfd hslot
    rcases ih (Nat.le_of_succ_le hk) with ⟨hnone, i, hi, hfails⟩ | ⟨t, hsome, hnot, hscanning⟩
    . rw [hnone]
      exact .inl ⟨rfl, i, Nat.lt_succ_of_lt hi, hfails⟩
    . rw [hsome, Option.bind_some]
      rcases hscanning.slot_cases pass hset hfd hslot with ⟨hnone, hfails⟩ | ⟨t', hnext, hgoes, hscanning'⟩
      . exact .inl ⟨hnone, k, Nat.lt_succ_self k, hfails⟩
      . refine .inr ⟨t', hnext, ?_, hscanning'⟩
        intro i hi
        rcases Nat.lt_succ_iff_lt_or_eq.mp hi with hi | rfl
        . exact hnot i hi
        . exact hgoes

end Scan

theorem notMem_readFd (pending : Int → Bool) : -1 ∉ s.readFd pending := by
  unfold SelectLoop.readFd select
  rw [Finset.mem_filter, mem_cloneToFdSet]
  exact fun h => h.1.2.ne rfl

/--
What a pass does for the clients: it reads from all that are ready, or from none.
-/
structure Serves (s : SelectLoop) (pass : Pass) : Prop where
  reads : ∀ t, s.next pass = some t → t.reads = s.reads ++ s.served pass
  -- `select` blocks, or a `read` fails and the server ends
  none_iff : ¬s.Busy pass → (s.next pass = none ↔ s.readFd pass.pending = ∅
    ∨ ∃ i < maxClientsSupport, ReadFails pass (s.readFd pass.pending) s i)

theorem Busy.reads_eq (h : s.Busy pass) (hnext : s.next pass = some t) : t.reads = s.reads := by
  rcases next_eq_some hnext with ⟨_, _, ht⟩ | ⟨_, _, ht⟩ | ⟨hsocket, hzero, _⟩
  . rw [ht]
    rfl
  . rw [ht]
    rfl
  . exact absurd h (not_or.mpr ⟨hsocket, hzero⟩)

theorem next_of_not_busy (h : ¬s.Busy pass) :
    s.next pass
      = if s.readFd pass.pending = ∅ then none else s.scan pass (s.readFd pass.pending) := by
  unfold Busy at h
  rw [not_or] at h
  unfold SelectLoop.next
  dsimp only
  rw [if_neg h.1, if_neg h.2]

theorem served_exactly (h : system.Reachable s) (pass : Pass) : s.Serves pass := by
  have hslots := slots_of_reachable h
  by_cases hbusy : s.Busy pass
  . refine ⟨?_, fun hnot => absurd hbusy hnot⟩
    intro t hnext
    rw [hbusy.reads_eq hnext, served, if_pos hbusy, List.append_nil]
  . have hnext := next_of_not_busy hbusy
    by_cases hempty : s.readFd pass.pending = ∅
    . rw [if_pos hempty] at hnext
      constructor
      . intro t hsome
        rw [hnext] at hsome
        contradiction
      . intro _
        rw [hnext]
        exact ⟨fun _ => .inl hempty, fun _ => rfl⟩
    . rw [if_neg hempty] at hnext
      unfold scan at hnext
      rcases hslots.scan_cases pass (notMem_readFd pass.pending) (Nat.le_refl _) with
        ⟨hnone, hfails⟩ | ⟨t, hsome, hnot, hscanning⟩
      . rw [hnone] at hnext
        constructor
        . intro t hsome
          rw [hnext] at hsome
          contradiction
        . intro _
          rw [hnext]
          exact ⟨fun _ => .inr hfails, fun _ => rfl⟩
      . rw [hsome] at hnext
        constructor
        . intro t' hnext'
          rw [hnext, Option.some.injEq] at hnext'
          rw [← hnext', hscanning.reads, served, if_neg hbusy, ← hslots.length, List.take_length]
        . intro _
          rw [hnext]
          simp only [reduceCtorEq, false_iff, not_or]
          refine ⟨hempty, ?_⟩
          rintro ⟨i, hi, hfails⟩
          exact hnot i hi hfails

def connected : SelectLoop :=
  TransitionSystem.runFrom next (start 3 fun _ => none) [connecting 4]

theorem served_exactly_connected :
    ∃ t, connected.next (announcing 4 100) = some t ∧ t.reads = connected.reads ++ [4] := by
  have hreach : system.Reachable connected := by
    apply TransitionSystem.reachableVia_runFrom
    . exact .init ⟨3, by decide, by decide, _, rfl⟩
    . decide +kernel
  have hserved : connected.served (announcing 4 100) = [4] := by
    decide +kernel
  obtain ⟨t, hnext⟩ := Option.isSome_iff_exists.mp
    (show (connected.next (announcing 4 100)).isSome = true by decide +kernel)
  refine ⟨t, hnext, ?_⟩
  rw [(served_exactly hreach (announcing 4 100)).reads t hnext, hserved]

section EndOfFile

/--
The console is at the end of its file: `select` reports it at once, and `read` leaves the zeroed buffer.
Nothing else ends the server: no client has ended, and `accept` does not fail.
-/
structure AtEnd (pass : Pass) : Prop where
  pending : pass.pending 0 = true
  blank : Blank pass.line
  alive : ∀ fd, pass.gone fd = false
  accepts : pass.dataSocket ≠ -1

/--
How many of the passes come to the console, because no client connects.
-/
def typed (s : SelectLoop) (passes : List Pass) : Nat :=
  passes.countP fun pass => !pass.pending s.server.connectionSocket

structure Watched (s : SelectLoop) : Prop where
  console : 0 ∈ s.server.monitorFdSet
  socket : s.server.connectionSocket ∈ s.server.monitorFdSet
  socket_pos : 0 < s.server.connectionSocket
  socket_lt : s.server.connectionSocket < fdSetsize

theorem mem_readFd {pending : Int → Bool} (hmem : fd ∈ s.server.monitorFdSet) (hbit : HasBit fd) :
    fd ∈ s.readFd pending ↔ pending fd = true := by
  have hnonneg := hbit.1
  have hmax : fd ≤ maxFd s.server.monitorFdSet := isGreatest_maxFd.2 (.inr ⟨hmem, by omega⟩)
  unfold SelectLoop.readFd select
  rw [Finset.mem_filter, mem_cloneToFdSet, Bool.and_eq_true, decide_eq_true_eq]
  constructor
  . exact fun h => h.2.2
  . intro h
    exact ⟨⟨hmem, hbit⟩, by omega, h⟩

theorem AtEnd.sigpipe (h : AtEnd pass) (writes : List (Int × Mem)) : pass.sigpipe writes = false := by
  unfold Pass.sigpipe
  rw [List.any_eq_false]
  intro write _
  rw [h.alive]
  decide

theorem AtEnd.accept (h : AtEnd pass) : s.accept pass = some (s.accepted pass) := by
  unfold SelectLoop.accept
  dsimp only
  rw [if_neg h.accepts, h.sigpipe, if_neg (by decide)]
  rfl

theorem AtEnd.console (h : AtEnd pass) : s.console pass
    = some { s with server := (s.server.console pass.console pass.line).1 } := by
  unfold SelectLoop.console
  dsimp only
  rw [h.sigpipe, if_neg (by decide)]

theorem Watched.exists_next (h : s.Watched) (hend : AtEnd pass) :
    ∃ t, s.next pass = some t ∧ t.Watched ∧ t.reads = s.reads
      ∧ t.server.clientPidSet = s.server.clientPidSet
      ∧ t.server.connectionSocket = s.server.connectionSocket
      ∧ t.server.toTables = s.server.toTables.afterBlank (s.typed [pass]) := by
  have hzero : 0 ∈ s.readFd pass.pending :=
    (mem_readFd h.console ⟨Int.le_refl 0, by decide⟩).mpr hend.pending
  have hsocket : s.server.connectionSocket ∈ s.readFd pass.pending
      ↔ pass.pending s.server.connectionSocket = true :=
    mem_readFd h.socket ⟨Int.le_of_lt h.socket_pos, h.socket_lt⟩
  have hnonempty : s.readFd pass.pending ≠ ∅ := Finset.ne_empty_of_mem hzero
  unfold SelectLoop.next
  dsimp only
  rw [if_neg hnonempty]
  by_cases hpending : pass.pending s.server.connectionSocket = true
  . have htyped : s.typed [pass] = 0 := by
      simp [typed, hpending]
    rw [if_pos (hsocket.mpr hpending), htyped, hend.accept]
    refine ⟨_, rfl, ⟨?_, ?_, h.socket_pos, h.socket_lt⟩, rfl, rfl, rfl, ?_⟩
    . exact mem_replaceFirst_of_mem h.console (by decide)
    . have hne : s.server.connectionSocket ≠ -1 := by
        have hpos := h.socket_pos
        omega
      exact mem_replaceFirst_of_mem h.socket hne
    . simp [Tables.afterBlank, accepted, Server.accept]
  . have htyped : s.typed [pass] = 1 := by
      simp [typed, hpending]
    have hclients : s.server.SameClients (s.server.console pass.console pass.line).1 :=
      Server.console_sameClients
    rw [if_neg (mt hsocket.mp hpending), if_pos hzero, htyped, hend.console]
    refine ⟨_, rfl, ⟨?_, ?_, ?_, ?_⟩, rfl, hclients.clientPidSet, hclients.connectionSocket, ?_⟩
    . rw [hclients.monitorFdSet]
      exact h.console
    . rw [hclients.monitorFdSet, hclients.connectionSocket]
      exact h.socket
    . rw [hclients.connectionSocket]
      exact h.socket_pos
    . rw [hclients.connectionSocket]
      exact h.socket_lt
    . exact (Server.console_blank hend.blank).1

theorem Watched.run (h : s.Watched) (hend : ∀ pass ∈ passes, AtEnd pass) :
    ∃ t, TransitionSystem.runSchedule next s passes = some t ∧ t.reads = s.reads
      ∧ t.server.clientPidSet = s.server.clientPidSet
      ∧ t.server.toTables = s.server.toTables.afterBlank (s.typed passes) := by
  induction passes generalizing s with
  | nil => exact ⟨s, rfl, rfl, rfl, by simp [typed, Tables.afterBlank]⟩
  | cons pass passes ih =>
    rw [List.forall_mem_cons] at hend
    obtain ⟨s', hnext, hwatched, hreads, hpids, hsocket, htables⟩ := h.exists_next hend.1
    obtain ⟨t, hrun, hreads', hpids', htables'⟩ := ih hwatched hend.2
    have htyped : s.typed (pass :: passes) = s.typed [pass] + s'.typed passes := by
      unfold typed
      rw [hsocket, ← List.singleton_append, List.countP_append]
    refine ⟨t, ?_, hreads'.trans hreads, hpids'.trans hpids, ?_⟩
    . rw [TransitionSystem.runSchedule, hnext, Option.bind_some, hrun]
    . rw [htables', htables, Tables.afterBlank_afterBlank, htyped]

def ended : Pass :=
  { quiet with pending := (· = 0), line := List.replicate bufferSize 0 }

end EndOfFile

end SelectLoop

end RoutingTable
