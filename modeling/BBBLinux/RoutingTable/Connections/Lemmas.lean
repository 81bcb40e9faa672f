import BBBLinux.RoutingTable.Connections.Impl
import BBBLinux.RoutingTable.Peers.Slots

/-!
This module contains what an event may do to the connections, and what holds of them in every run.
-/

namespace RoutingTable

open CString

theorem pidOfBytes_pidBytes {pid : Int} (hpos : 0 < pid) (hlt : pid < 2 ^ 31) (rest : Mem) :
    pidOfBytes (pidBytes pid ++ rest) = pid := by
  have hn : (BitVec.ofInt 32 pid).toNat = pid.toNat := by
    rw [BitVec.toNat_ofInt, Int.emod_eq_of_lt]
    . omega
    . omega
  unfold pidOfBytes pidBytes
  simp only [List.cons_append, List.nil_append, List.getD_cons_zero, List.getD_cons_succ, hn,
    UInt8.toNat_ofNat']
  have hsum : pid.toNat % 2 ^ 8 + 256 * (pid.toNat / 256 % 2 ^ 8)
      + 65536 * (pid.toNat / 65536 % 2 ^ 8) + 16777216 * (pid.toNat / 16777216 % 2 ^ 8)
      = pid.toNat := by
    omega
  rw [hsum, BitVec.toInt_eq_toNat_cond, BitVec.toNat_ofNat]
  omega

@[simp]
theorem pidBytes_length (pid : Int) : (pidBytes pid).length = 4 := rfl

theorem readPid_pidBytes {pid : Int} (hpos : 0 < pid) (hlt : pid < 2 ^ 31) :
    readPid (pidBytes pid) = pid := by
  unfold readPid
  simp only [memcpy, List.take_zero, List.nil_append]
  rw [bytes_self, pidOfBytes_pidBytes hpos hlt]

theorem readPid_nil : readPid [] = 0 := by
  decide

namespace Connection

variable {c c' : Connection} {action : Action}

inductive Acts (c : Connection) : Connection → Prop where
  | announced (hstage : c.stage = .connected) :
      Acts c { c with stage := .announced, unread := c.unread ++ pidBytes c.pid }
  | installed (stage : Stage) (hstage : c.stage = .announced ∧ stage = .interruptible
      ∨ c.stage = .interruptible ∧ stage = .running) : Acts c { c with stage := stage }
  | goodbye (hstage : c.stage = .interruptible ∨ c.stage = .running) :
      Acts c { c with stage := .left, unread := c.unread ++ pidBytes c.pid }
  | gone (hstage : c.stage ≠ .left) : Acts c { c with stage := .left }

theorem acts_of_act (h : c.act action = some c') : c.Acts c' := by
  cases action with
  | writePid =>
    simp only [act, Option.ite_none_right_eq_some, Option.some.injEq] at h
    exact h.2 ▸ .announced h.1
  | installSigint =>
    simp only [act, Option.ite_none_right_eq_some, Option.some.injEq] at h
    exact h.2 ▸ .installed .interruptible (.inl ⟨h.1, rfl⟩)
  | installSigusr1 =>
    simp only [act, Option.ite_none_right_eq_some, Option.some.injEq] at h
    exact h.2 ▸ .installed .running (.inr ⟨h.1, rfl⟩)
  | interrupt =>
    simp only [act] at h
    split at h
    . next hstage =>
      injection h with h
      exact h ▸ .gone (by simp [hstage])
    . next hstage =>
      injection h with h
      exact h ▸ .gone (by simp [hstage])
    . next hstage =>
      injection h with h
      exact h ▸ .goodbye (.inl hstage)
    . next hstage =>
      injection h with h
      exact h ▸ .goodbye (.inr hstage)
    . contradiction
  | leave =>
    simp only [act, Option.ite_none_left_eq_some, Option.some.injEq] at h
    exact h.2 ▸ .gone h.1

theorem Acts.pid (h : c.Acts c') : c'.pid = c.pid := by
  cases h <;> rfl

theorem Acts.accepted (h : c.Acts c') : c'.accepted = c.accepted := by
  cases h <;> rfl

theorem Acts.not_left (h : c.Acts c') : c.stage ≠ .left := by
  cases h with
  | announced hstage => simp [hstage]
  | installed stage hstage => cases hstage <;> simp [*]
  | goodbye hstage => cases hstage <;> simp [*]
  | gone hstage => exact hstage

theorem sigusr1_eq (c : Connection) :
    c.sigusr1 = c ∨ c.stage ≠ .left ∧ c.stage ≠ .running ∧ c.sigusr1 = { c with stage := .left } := by
  unfold sigusr1
  split
  . next hstage => simp [hstage]
  . next hstage => simp [hstage]
  . next hstage => simp [hstage]
  . exact .inl rfl
  . exact .inl rfl

@[simp]
theorem sigusr1_pid (c : Connection) : c.sigusr1.pid = c.pid := by
  rcases c.sigusr1_eq with hsame | ⟨_, _, hleft⟩
  . rw [hsame]
  . rw [hleft]

@[simp]
theorem sigusr1_accepted (c : Connection) : c.sigusr1.accepted = c.accepted := by
  rcases c.sigusr1_eq with hsame | ⟨_, _, hleft⟩
  . rw [hsame]
  . rw [hleft]

theorem sigusr1_of_live (hlive : c.sigusr1.stage ≠ .left) : c.sigusr1 = c := by
  rcases c.sigusr1_eq with hsame | ⟨_, _, hleft⟩
  . exact hsame
  . rw [hleft] at hlive
    contradiction

end Connection

namespace Connections

variable {net net' : Connections} {fd fd' : Int} {c : Connection} {action : Action} {count : Nat}
  {buffer bufferMac : Mem}

theorem set_connections (c : Connection) :
    (net.set fd c).connections fd' = if fd' = fd then some c else net.connections fd' := by
  simp only [set, Function.update_apply]

theorem client_eq_some (h : net.client fd action = some net') :
    ∃ c c', net.connections fd = some c ∧ c.Acts c' ∧ net' = net.set fd c' := by
  unfold client at h
  rw [Option.bind_eq_some_iff] at h
  have ⟨c, hc, h⟩ := h
  rw [Option.map_eq_some_iff] at h
  have ⟨c', hact, hnet'⟩ := h
  exact ⟨c, c', hc, Connection.acts_of_act hact, hnet'.symm⟩

theorem accept_eq_some (h : net.accept fd buffer bufferMac = some net') :
    ∃ c, net.connections fd = some c ∧ c.accepted = false ∧ net' =
      { net.set fd { c with accepted := true } with
        server :=
          { net.server with monitorFdSet := addToMonitorFdSet net.server.monitorFdSet fd } } := by
  unfold accept at h
  split at h
  . next c hc =>
    simp only [Option.ite_none_right_eq_some, Option.some.injEq] at h
    exact ⟨c, hc, h.1, h.2.symm⟩
  . contradiction

theorem read_eq_some (h : net.read fd count = some net') :
    ∃ c data, net.connections fd = some c ∧ c.receive count = some data
      ∧ fd ∈ net.server.monitorFdSet ∧ net' =
        { net.set fd { c with unread := c.unread.drop count } with
          server := net.server.clientData fd (readPid data) } := by
  unfold read at h
  split at h
  . next c hc =>
    split at h
    . next data hdata =>
      simp only [Option.ite_none_right_eq_some, Option.some.injEq] at h
      exact ⟨c, data, hc, hdata, h.1, h.2.symm⟩
    . contradiction
  . contradiction

/--
A client that is there after a line of the console is as it was.
-/
theorem console_live {console : RoutingTable.Console}
    (h : (net.console console buffer).connections fd = some c) (hlive : c.stage ≠ .left) :
    net.connections fd = some c := by
  simp only [Connections.console, Option.map_eq_some_iff] at h
  have ⟨c', hc', hc⟩ := h
  split at hc
  . rw [← hc] at hlive
    rw [hc', ← hc, Connection.sigusr1_of_live hlive]
  . rw [hc', hc]

theorem rel_console {R : Connection → Connection → Prop} (hrefl : ∀ c, R c c)
    (hR : ∀ c, R c c.sigusr1) (console : RoutingTable.Console) (buffer : Mem) (fd : Int) :
    Option.Rel R (net.connections fd) ((net.console console buffer).connections fd) := by
  simp only [Connections.console]
  cases net.connections fd with
  | none => exact .none
  | some c =>
    apply Option.Rel.some
    dsimp only
    split
    . exact hR c
    . exact hrefl c

theorem rel_set {R : Connection → Connection → Prop} {c' : Connection} (hrefl : ∀ c, R c c)
    (hc : net.connections fd = some c) (hR : R c c') (fd' : Int) :
    Option.Rel R (net.connections fd') ((net.set fd c').connections fd') := by
  rw [set_connections]
  split
  . next heq =>
    rw [heq, hc]
    exact .some hR
  . cases net.connections fd' with
    | none => exact .none
    | some c => exact .some (hrefl c)

structure Sound (net : Connections) : Prop where
  socket_pos : 0 < net.server.connectionSocket
  descriptor : ∀ fd c, net.connections fd = some c → 0 < fd ∧ fd ≠ net.server.connectionSocket
  pid : ∀ fd c, net.connections fd = some c → 0 < c.pid ∧ c.pid < 2 ^ 31
  -- the descriptors of the server itself stay in their slots
  own : 0 ∈ net.server.monitorFdSet ∧ net.server.connectionSocket ∈ net.server.monitorFdSet
  length : net.server.monitorFdSet.length = maxClientsSupport
    ∧ net.server.clientPidSet.length = maxClientsSupport
  once : ∀ fd, 0 < fd → fd ≠ net.server.connectionSocket → net.server.monitorFdSet.count fd ≤ 1
  monitored : ∀ fd ∈ net.server.monitorFdSet, 0 < fd → fd ≠ net.server.connectionSocket →
    ∃ c, net.connections fd = some c ∧ c.accepted = true

namespace Sound

def Alike (c c' : Connection) : Prop :=
  c'.pid = c.pid ∧ c'.accepted = c.accepted

theorem start {connectionSocket : Int} {shm : Shm} (h : 0 < connectionSocket) :
    (Connections.start connectionSocket shm).Sound := by
  have hset : (Connections.start connectionSocket shm).server.monitorFdSet
      = 0 :: connectionSocket :: List.replicate 30 (-1) := rfl
  have hnotMem {fd : Int} (hfd : 0 < fd) (hne : fd ≠ connectionSocket) :
      fd ∉ (Connections.start connectionSocket shm).server.monitorFdSet := by
    rw [hset]
    simp only [List.mem_cons, List.mem_replicate]
    omega
  constructor
  . exact h
  . intro fd c hc
    contradiction
  . intro fd c hc
    contradiction
  . rw [hset]
    exact ⟨List.mem_cons_self, List.mem_cons_of_mem _ List.mem_cons_self⟩
  . exact ⟨by rw [hset]; rfl, rfl⟩
  . intro fd hfd hne
    rw [List.count_eq_zero_of_not_mem (hnotMem hfd hne)]
    omega
  . intro fd hmem hfd hne
    exact absurd hmem (hnotMem hfd hne)

theorem of_alike (h : net.Sound) (hserver : net.server.SameClients net'.server)
    (hconnections : ∀ fd, Option.Rel Alike (net.connections fd) (net'.connections fd)) :
    net'.Sound := by
  have hback {fd : Int} {c' : Connection} (hc' : net'.connections fd = some c') :
      ∃ c, net.connections fd = some c ∧ Alike c c' := by
    have hrel := hconnections fd
    rw [hc'] at hrel
    generalize net.connections fd = oc at hrel ⊢
    cases hrel with
    | some halike => exact ⟨_, rfl, halike⟩
  constructor
  . rw [hserver.connectionSocket]
    exact h.socket_pos
  . intro fd c' hc'
    have ⟨c, hc, _⟩ := hback hc'
    rw [hserver.connectionSocket]
    exact h.descriptor fd c hc
  . intro fd c' hc'
    have ⟨c, hc, halike⟩ := hback hc'
    rw [halike.1]
    exact h.pid fd c hc
  . rw [hserver.monitorFdSet, hserver.connectionSocket]
    exact h.own
  . rw [hserver.monitorFdSet, hserver.clientPidSet]
    exact h.length
  . rw [hserver.monitorFdSet, hserver.connectionSocket]
    exact h.once
  . rw [hserver.monitorFdSet, hserver.connectionSocket]
    intro fd hmem hpos hne
    have ⟨c, hc, haccepted⟩ := h.monitored fd hmem hpos hne
    have hrel := hconnections fd
    rw [hc] at hrel
    generalize hoc : net'.connections fd = oc' at hrel
    cases hrel with
    | some halike => exact ⟨_, rfl, halike.2.trans haccepted⟩

theorem connect {pid : Int} (h : net.Sound) (hfresh : net.Fresh fd pid) :
    (net.set fd (.connect pid)).Sound := by
  have hcases {fd' : Int} {c : Connection}
      (hc : (net.set fd (.connect pid)).connections fd' = some c) :
      fd' = fd ∧ c = .connect pid ∨ net.connections fd' = some c := by
    rw [set_connections] at hc
    split at hc
    . next heq => exact .inl ⟨heq, (Option.some.inj hc).symm⟩
    . exact .inr hc
  refine ⟨h.socket_pos, ?_, ?_, h.own, h.length, h.once, ?_⟩
  . intro fd' c hc
    cases hcases hc with
    | inl hnew =>
      rw [hnew.1]
      exact ⟨hfresh.fd_pos, hfresh.fd_ne⟩
    | inr hold => exact h.descriptor fd' c hold
  . intro fd' c hc
    cases hcases hc with
    | inl hnew =>
      rw [hnew.2]
      exact ⟨hfresh.pid_pos, hfresh.pid_lt⟩
    | inr hold => exact h.pid fd' c hold
  . intro fd' hmem hpos hne
    have ⟨c, hc, haccepted⟩ := h.monitored fd' hmem hpos hne
    refine ⟨c, ?_, haccepted⟩
    rw [set_connections, if_neg]
    . exact hc
    . intro heq
      rw [heq, hfresh.fd_none] at hc
      contradiction

theorem accept (h : net.Sound) (hc : net.connections fd = some c) (haccepted : c.accepted = false) :
    Sound { net.set fd { c with accepted := true } with
      server :=
        { net.server with monitorFdSet := addToMonitorFdSet net.server.monitorFdSet fd } } := by
  have hdescriptor := h.descriptor fd c hc
  have hsocket := h.socket_pos
  have hnew : fd ∉ net.server.monitorFdSet := by
    intro hmem
    have ⟨c', hc', haccepted'⟩ := h.monitored fd hmem hdescriptor.1 hdescriptor.2
    rw [hc] at hc'
    cases hc'
    rw [haccepted] at haccepted'
    contradiction
  refine ⟨h.socket_pos, ?_, ?_, ?_, ?_, ?_, ?_⟩
  . intro fd' c' hc'
    rw [set_connections] at hc'
    split at hc'
    . next heq =>
      rw [heq]
      exact hdescriptor
    . exact h.descriptor fd' c' hc'
  . intro fd' c' hc'
    rw [set_connections] at hc'
    split at hc'
    . cases hc'
      exact h.pid fd c hc
    . exact h.pid fd' c' hc'
  . have hne : net.server.connectionSocket ≠ -1 := by omega
    exact ⟨mem_replaceFirst_of_mem h.own.1 (by omega), mem_replaceFirst_of_mem h.own.2 hne⟩
  . refine ⟨?_, h.length.2⟩
    rw [addToMonitorFdSet, length_replaceFirst]
    exact h.length.1
  . intro fd' hpos hne
    simp only [addToMonitorFdSet]
    by_cases hfd : fd' = fd
    . rw [hfd]
      by_cases hslot : -1 ∈ net.server.monitorFdSet
      . have hcount := count_replaceFirst fd fd hslot
        rw [List.count_eq_zero_of_not_mem hnew] at hcount
        split at hcount <;> simp at hcount <;> omega
      . rw [replaceFirst_of_notMem hslot, List.count_eq_zero_of_not_mem hnew]
        omega
    . rw [count_replaceFirst_of_ne (by omega) hfd]
      exact h.once fd' hpos hne
  . intro fd' hmem hpos hne
    simp only [set_connections]
    split
    . exact ⟨_, rfl, rfl⟩
    . next hfd =>
      cases mem_replaceFirst hmem with
      | inl heq => exact absurd heq hfd
      | inr hmem => exact h.monitored fd' hmem hpos hne

theorem clientData (h : net.Sound) (hc : net.connections fd = some c) (pid : Int) :
    Sound { net with server := net.server.clientData fd pid } := by
  have hdescriptor := h.descriptor fd c hc
  have hsocket := h.socket_pos
  unfold Server.clientData
  split
  . refine ⟨h.socket_pos, h.descriptor, h.pid, h.own, ⟨h.length.1, ?_⟩, h.once, h.monitored⟩
    rw [addToPidSet, length_replaceFirst]
    exact h.length.2
  . refine ⟨h.socket_pos, h.descriptor, h.pid, ?_, ?_, ?_, ?_⟩
    . exact ⟨mem_replaceFirst_of_mem h.own.1 (by omega), mem_replaceFirst_of_mem h.own.2 hdescriptor.2.symm⟩
    . rw [removeFromMonitorFdSet, removeFromClientPidSet, length_replaceFirst, length_replaceFirst]
      exact h.length
    . intro fd' hpos hne
      simp only [removeFromMonitorFdSet]
      by_cases hmem : fd ∈ net.server.monitorFdSet
      . have hcount := count_replaceFirst (-1) fd' hmem
        have honce := h.once fd' hpos hne
        split at hcount <;> split at hcount <;> omega
      . rw [replaceFirst_of_notMem hmem]
        exact h.once fd' hpos hne
    . intro fd' hmem hpos hne
      apply h.monitored fd' _ hpos hne
      apply (mem_replaceFirst hmem).resolve_left
      omega

theorem next {e : Event} (h : net.Sound) (hpossible : net.Possible e) (hnext : net.next e = some net') :
    net'.Sound := by
  cases e with
  | connect fd pid =>
    simp only [Connections.next, Option.some.injEq] at hnext
    rw [← hnext]
    apply h.connect hpossible
  | client fd action =>
    have ⟨c, c', hc, hacts, hnet'⟩ := client_eq_some hnext
    rw [hnet']
    exact h.of_alike .refl (rel_set (fun c => ⟨rfl, rfl⟩) hc ⟨hacts.pid, hacts.accepted⟩)
  | accept fd buffer bufferMac =>
    have ⟨c, hc, haccepted, hnet'⟩ := accept_eq_some hnext
    rw [hnet']
    apply h.accept hc haccepted
  | console console buffer =>
    simp only [Connections.next, Option.some.injEq] at hnext
    rw [← hnext]
    apply h.of_alike
    . apply Server.console_sameClients
    . apply rel_console
      . exact fun _ => ⟨rfl, rfl⟩
      . exact fun c => ⟨c.sigusr1_pid, c.sigusr1_accepted⟩
  | read fd count =>
    have ⟨c, data, hc, _, _, hnet'⟩ := read_eq_some hnext
    rw [hnet']
    have hread : (net.set fd { c with unread := c.unread.drop count }).Sound :=
      h.of_alike .refl (rel_set (fun c => ⟨rfl, rfl⟩) hc ⟨rfl, rfl⟩)
    apply hread.clientData
    apply (set_connections _).trans (if_pos rfl)

end Sound

theorem sound_of_reachable {ok : Connections → Event → Prop} (h : system.ReachableVia ok net) :
    net.Sound := by
  apply h.invariant (P := fun net => net.Sound)
  . intro net ⟨connectionSocket, hpos, shm, hnet⟩
    rw [hnet]
    exact .start hpos
  . intro net e net' hnet _ ⟨hpossible, hnext⟩
    apply hnet.next hpossible hnext

def oneClient : List Event :=
  [.connect 4 100, .accept 4 [] [], .client 4 .writePid, .read 4 4]

theorem fresh_start : (start 3 fun _ => none).Fresh 4 100 := by
  refine ⟨rfl, by decide, by decide, by decide, by decide, ?_⟩
  intro fd c hc
  cases hc

theorem reachable_oneClient :
    system.Reachable (TransitionSystem.runFrom next (start 3 fun _ => none) oneClient) := by
  apply TransitionSystem.reachableVia_runFrom
  . exact .init ⟨3, by decide, _, rfl⟩
  . refine ⟨trivial, fresh_start, rfl, ?_⟩
    refine ⟨trivial, trivial, rfl, ?_⟩
    refine ⟨trivial, trivial, rfl, ?_⟩
    exact ⟨trivial, trivial, by decide, trivial⟩

end Connections

end RoutingTable
