import BBBLinux.RoutingTable.Connections.Lemmas

/-!
This module contains how the server notices that clients have left. Until it has noticed all of them
every line that it writes to its clients raises SIGPIPE, which ends it. The clients have read what they
were sent before they left, so the `read` at the end of their streams returns 0.
-/

namespace RoutingTable

open CString

namespace Connections

def hasLeft (net : Connections) (fd : Int) : Bool :=
  (net.connections fd).any fun c => decide (c.stage = .left)

/--
The descriptors that are still monitored although their clients have left.
-/
def unnoticed (net : Connections) : List Int :=
  net.server.monitorFdSet.filter net.hasLeft

def RaisesSigpipe (net : Connections) (console : RoutingTable.Console) (buffer : Mem) : Prop :=
  ∃ write ∈ (net.server.console console buffer).2.writes, net.hasLeft write.1 = true

def AllRead (net : Connections) : Prop :=
  ∀ fd ∈ net.server.monitorFdSet, ∀ c, net.connections fd = some c → c.unread = []

def reads (net : Connections) (rs : List (Int × Nat)) : Option Connections :=
  TransitionSystem.runSchedule next net (rs.map fun r => .read r.1 r.2)

/--
The client has left, the descriptor is still monitored, and there is nothing more to read.
-/
def AtEndOfStream (net : Connections) (fd : Int) (count : Nat) : Prop :=
  fd ∈ net.unnoticed ∧ count = 0 ∧ ∀ c, net.connections fd = some c → c.unread = []

/--
The end of a stream reads as the PID 0: the first time it is registered, the second time it is removed
and the descriptor with it.
-/
def readsToNotice (net : Connections) : Nat :=
  2 * net.unnoticed.length - if 0 ∈ net.server.clientPidSet then 1 else 0

variable {net net' : Connections} {fd pid : Int} {count : Nat} {c : Connection} {slots : List Int}

theorem hasLeft_iff : net.hasLeft fd = true ↔ ∃ c, net.connections fd = some c ∧ c.stage = .left := by
  unfold hasLeft
  rw [Option.any_eq_true]
  simp only [decide_eq_true_eq]

theorem mem_unnoticed_iff : fd ∈ net.unnoticed ↔
    fd ∈ net.server.monitorFdSet ∧ ∃ c, net.connections fd = some c ∧ c.stage = .left := by
  unfold unnoticed
  rw [List.mem_filter, hasLeft_iff]

theorem length_filter_replaceFirst {p : Int → Bool} (hmem : fd ∈ slots) (hfd : p fd = true)
    (hfree : p (-1) = false) :
    ((replaceFirst fd (-1) slots).filter p).length + 1 = (slots.filter p).length := by
  induction slots with
  | nil => contradiction
  | cons slot slots ih =>
    unfold replaceFirst
    split
    . next heq =>
      rw [heq, List.filter_cons_of_pos hfd, List.filter_cons_of_neg (by simp [hfree]), List.length_cons]
    . next hne =>
      rw [List.mem_cons] at hmem
      specialize ih (hmem.resolve_left (Ne.symm hne))
      rw [List.filter_cons, List.filter_cons]
      split
      . rw [List.length_cons, List.length_cons, ih]
      . exact ih

theorem count_clientData_le {s : Server} {pid' : Int} (hne : pid' ≠ -1)
    (h : s.clientPidSet.count pid' ≤ 1) : (s.clientData fd pid).clientPidSet.count pid' ≤ 1 := by
  unfold Server.clientData
  split
  . next havailable =>
    rw [checkAvailablePid_iff] at havailable
    dsimp only
    unfold addToPidSet
    by_cases hslot : -1 ∈ s.clientPidSet
    . have hcount := count_replaceFirst pid pid' hslot
      rw [if_neg hne] at hcount
      split at hcount
      . next heq =>
        rw [heq] at hcount ⊢
        rw [List.count_eq_zero_of_not_mem havailable] at hcount
        omega
      . omega
    . rw [replaceFirst_of_notMem hslot]
      exact h
  . dsimp only
    unfold removeFromClientPidSet
    by_cases hmem : pid ∈ s.clientPidSet
    . have hcount := count_replaceFirst (-1) pid' hmem
      rw [if_neg hne] at hcount
      omega
    . rw [replaceFirst_of_notMem hmem]
      exact h

theorem count_clientPidSet_le (h : system.Reachable net) (hne : pid ≠ -1) :
    net.server.clientPidSet.count pid ≤ 1 := by
  apply h.invariant (P := fun net => net.server.clientPidSet.count pid ≤ 1)
  . intro net ⟨connectionSocket, _, shm, hnet⟩
    have hset : net.server.clientPidSet = List.replicate maxClientsSupport (-1) := by
      rw [hnet]
      rfl
    rw [hset, List.count_replicate, if_neg]
    . omega
    . simpa using Ne.symm hne
  . intro net e net' hcount _ ⟨_, hnext⟩
    cases e with
    | connect fd pid =>
      simp only [Connections.next, Option.some.injEq] at hnext
      rw [← hnext]
      exact hcount
    | client fd action =>
      obtain ⟨_, _, _, _, hnet'⟩ := client_eq_some hnext
      rw [hnet']
      exact hcount
    | accept fd buffer bufferMac =>
      obtain ⟨_, _, _, hnet'⟩ := accept_eq_some hnext
      rw [hnet']
      exact hcount
    | console console buffer =>
      simp only [Connections.next, Option.some.injEq] at hnext
      have hserver : net.server.SameClients (net.console console buffer).server :=
        Server.console_sameClients
      rw [← hnext, hserver.clientPidSet]
      exact hcount
    | read fd count =>
      obtain ⟨_, _, _, _, _, hnet'⟩ := read_eq_some hnext
      rw [hnet']
      exact count_clientData_le hne hcount

section Reads

theorem reachable_read (h : system.Reachable net) (hnext : net.read fd count = some net') :
    system.Reachable net' :=
  h.step (i := .read fd count) trivial ⟨trivial, hnext⟩

theorem read_of_allRead (hread : net.AllRead) (hnext : net.read fd count = some net') :
    net.AtEndOfStream fd count ∧ net' = { net with server := net.server.clientData fd 0 } := by
  obtain ⟨c, data, hc, hdata, hmem, hnet'⟩ := read_eq_some hnext
  have hunread := hread fd hmem c hc
  unfold Connection.receive at hdata
  rw [if_pos hunread, Option.ite_none_right_eq_some, Option.some.injEq] at hdata
  obtain ⟨⟨hleft, hcount⟩, hdata⟩ := hdata
  refine ⟨⟨mem_unnoticed_iff.mpr ⟨hmem, c, hc, hleft⟩, hcount, hread fd hmem⟩, ?_⟩
  have hsame : { c with unread := c.unread.drop count } = c := by
    rw [hcount, List.drop_zero]
  rw [hnet', hsame, ← hdata, readPid_nil]
  unfold set
  rw [← hc, Function.update_eq_self]

theorem exists_read (hread : net.AllRead) (hmem : fd ∈ net.unnoticed) :
    net.read fd 0 = some { net with server := net.server.clientData fd 0 } := by
  obtain ⟨hmonitored, c, hc, hleft⟩ := mem_unnoticed_iff.mp hmem
  have hunread := hread fd hmonitored c hc
  have hdata : c.receive 0 = some [] := by
    unfold Connection.receive
    rw [if_pos hunread, if_pos ⟨hleft, rfl⟩]
  have hsome : (net.read fd 0).isSome = true := by
    unfold read
    rw [hc]
    dsimp only
    rw [hdata]
    dsimp only
    rw [if_pos hmonitored]
    rfl
  obtain ⟨net', hnet'⟩ := Option.isSome_iff_exists.mp hsome
  rw [hnet', (read_of_allRead hread hnet').2]

theorem read_isSome_iff (hread : net.AllRead) :
    (net.read fd count).isSome = true ↔ net.AtEndOfStream fd count := by
  constructor
  . intro hsome
    obtain ⟨net', hnet'⟩ := Option.isSome_iff_exists.mp hsome
    exact (read_of_allRead hread hnet').1
  . intro ⟨hmem, hcount, _⟩
    rw [hcount, exists_read hread hmem]
    rfl

/--
Whether the end of a stream can be registered or removed.
-/
def Notices (net : Connections) : Prop :=
  net.unnoticed = [] ∨ 0 ∈ net.server.clientPidSet ∨ -1 ∈ net.server.clientPidSet

theorem readsToNotice_eq_zero_iff : net.readsToNotice = 0 ↔ net.unnoticed = [] := by
  unfold readsToNotice
  rw [← List.length_eq_zero_iff]
  split <;> omega

theorem not_hasLeft_free (hsound : net.Sound) : net.hasLeft (-1) = false := by
  rw [Bool.eq_false_iff, Ne, hasLeft_iff]
  rintro ⟨c, hc, _⟩
  have hpos := (hsound.descriptor _ c hc).1
  omega

/--
Every read at the end of a stream is one step on the way.
-/
theorem read_progress (hreach : system.Reachable net) (hread : net.AllRead) (hnotices : net.Notices)
    (hnext : net.read fd count = some net') :
    net'.AllRead ∧ net'.Notices ∧ net'.readsToNotice + 1 = net.readsToNotice := by
  obtain ⟨⟨hmem, _⟩, hnet'⟩ := read_of_allRead hread hnext
  have hsound := sound_of_reachable hreach
  have hlength := List.length_pos_of_mem hmem
  have hmonitored := (mem_unnoticed_iff.mp hmem).1
  rw [hnet']
  unfold Server.clientData
  split
  . next havailable =>
    rw [checkAvailablePid_iff] at havailable
    have hslot : -1 ∈ net.server.clientPidSet := by
      rcases hnotices with hnil | hzero | hslot
      . rw [hnil] at hmem
        contradiction
      . exact absurd hzero havailable
      . exact hslot
    have hzero : 0 ∈ addToPidSet net.server.clientPidSet 0 := new_mem_replaceFirst hslot
    refine ⟨hread, .inr (.inl hzero), ?_⟩
    have hsame : unnoticed { net with
        server := { net.server with clientPidSet := addToPidSet net.server.clientPidSet 0 } }
        = net.unnoticed := rfl
    unfold readsToNotice
    rw [hsame, if_pos hzero, if_neg havailable]
    omega
  . next havailable =>
    rw [checkAvailablePid_iff, not_not] at havailable
    have hslot : -1 ∈ removeFromClientPidSet net.server.clientPidSet 0 := new_mem_replaceFirst havailable
    have hgone : 0 ∉ removeFromClientPidSet net.server.clientPidSet 0 := by
      have honce : net.server.clientPidSet.count 0 ≤ 1 := count_clientPidSet_le hreach (by omega)
      have hcount := count_replaceFirst (-1) 0 havailable
      rw [if_pos rfl, if_neg (by omega)] at hcount
      rw [← List.count_eq_zero]
      unfold removeFromClientPidSet
      omega
    have hleft := (List.mem_filter.mp hmem).2
    have hfilter := length_filter_replaceFirst hmonitored hleft (not_hasLeft_free hsound)
    refine ⟨?_, .inr (.inr hslot), ?_⟩
    . intro fd' hmem' c hc
      cases mem_replaceFirst hmem' with
      | inl hfree =>
        rw [hfree] at hc
        have hpos := (hsound.descriptor _ c hc).1
        omega
      | inr hmem' => exact hread fd' hmem' c hc
    . unfold readsToNotice
      rw [if_neg hgone, if_pos havailable]
      unfold unnoticed at hlength ⊢
      dsimp only
      unfold removeFromMonitorFdSet
      have hsame : hasLeft { net with
          server :=
            { net.server with
              clientPidSet := removeFromClientPidSet net.server.clientPidSet 0
              monitorFdSet := replaceFirst fd (-1) net.server.monitorFdSet } }
          = net.hasLeft := rfl
      rw [hsame]
      omega

theorem reads_progress {rs : List (Int × Nat)} (hreach : system.Reachable net) (hread : net.AllRead)
    (hnotices : net.Notices) (hrs : net.reads rs = some net') :
    system.Reachable net' ∧ net'.AllRead ∧ rs.length + net'.readsToNotice = net.readsToNotice := by
  induction rs generalizing net with
  | nil =>
    simp only [reads, List.map_nil, TransitionSystem.runSchedule, Option.some.injEq] at hrs
    rw [← hrs]
    exact ⟨hreach, hread, by simp⟩
  | cons r rs ih =>
    simp only [reads, List.map_cons, TransitionSystem.runSchedule, Option.bind_eq_some_iff] at hrs
    obtain ⟨net₁, hnext, hrs⟩ := hrs
    have hreach₁ := reachable_read hreach hnext
    obtain ⟨hread₁, hnotices₁, hstep⟩ := read_progress hreach hread hnotices hnext
    obtain ⟨hreach', hread', hlength⟩ := ih hreach₁ hread₁ hnotices₁ hrs
    refine ⟨hreach', hread', ?_⟩
    rw [List.length_cons]
    omega

/--
With all slots taken by other PIDs a read at the end of a stream changes nothing.
-/
theorem read_stuck (hread : net.AllRead) (hstuck : ¬net.Notices)
    (hnext : net.read fd count = some net') : net' = net := by
  unfold Notices at hstuck
  rw [not_or, not_or] at hstuck
  rw [(read_of_allRead hread hnext).2]
  unfold Server.clientData
  rw [if_pos (checkAvailablePid_iff.mpr hstuck.2.1)]
  unfold addToPidSet
  rw [replaceFirst_of_notMem hstuck.2.2]

theorem reads_stuck {rs : List (Int × Nat)} (hread : net.AllRead) (hstuck : ¬net.Notices)
    (hrs : net.reads rs = some net') : net' = net := by
  induction rs with
  | nil =>
    simp only [reads, List.map_nil, TransitionSystem.runSchedule, Option.some.injEq] at hrs
    exact hrs.symm
  | cons r rs ih =>
    simp only [reads, List.map_cons, TransitionSystem.runSchedule, Option.bind_eq_some_iff] at hrs
    obtain ⟨net₁, hnext, hrs⟩ := hrs
    rw [read_stuck hread hstuck hnext] at hrs
    exact ih hrs

end Reads

section Broadcast

variable {s : Server} {console : RoutingTable.Console} {buffer : Mem}

theorem mem_clientFds (hsound : net.Sound) (hmem : fd ∈ net.unnoticed) : fd ∈ net.server.clientFds := by
  obtain ⟨hmonitored, c, hc, _⟩ := mem_unnoticed_iff.mp hmem
  obtain ⟨hpos, hne⟩ := hsound.descriptor fd c hc
  unfold Server.clientFds
  rw [List.mem_filter]
  refine ⟨hmonitored, ?_⟩
  simp only [Bool.and_eq_true, decide_eq_true_eq]
  omega

/--
A line that is written at all is written to everyone.
-/
theorem raisesSigpipe_iff (hsound : net.Sound)
    (hwrites : (net.server.console console buffer).2.writes ≠ []) :
    net.RaisesSigpipe console buffer ↔ net.unnoticed ≠ [] := by
  have hall := Server.console_writes_cases.resolve_left hwrites
  unfold RaisesSigpipe
  rw [hall]
  constructor
  . intro ⟨write, hwrite, hleft⟩
    obtain ⟨fd, hfd, hwrite⟩ := List.mem_map.mp hwrite
    rw [← hwrite] at hleft
    exact List.ne_nil_of_mem (List.mem_filter.mpr ⟨(List.mem_filter.mp hfd).1, hleft⟩)
  . intro hne
    obtain ⟨fd, hmem⟩ := List.exists_mem_of_ne_nil _ hne
    refine ⟨(fd, buffer), List.mem_map.mpr ⟨fd, mem_clientFds hsound hmem, rfl⟩, ?_⟩
    exact (List.mem_filter.mp hmem).2

end Broadcast

section Stale

variable {old new : Int} {a b : List Int} {k : Nat}

theorem replaceFirst_append (h : old ∉ a) : replaceFirst old new (a ++ old :: b) = a ++ new :: b := by
  induction a with
  | nil => rw [List.nil_append, replaceFirst, if_pos rfl, List.nil_append]
  | cons slot a ih =>
    rw [List.mem_cons, not_or] at h
    rw [List.cons_append, replaceFirst, if_neg (Ne.symm h.1), ih h.2, List.cons_append]

/--
`k` clients have left without a word, and their PIDs are still registered.
-/
structure Stale (net : Connections) (k : Nat) (monitorFdSet known : List Int) : Prop where
  reachable : system.Reachable net
  socket : net.server.connectionSocket = 3
  monitor : net.server.monitorFdSet = monitorFdSet
  pids : net.server.clientPidSet = known ++ List.replicate (32 - k) (-1)
  length : known.length = k
  known : ∀ pid ∈ known, 0 < pid ∧ pid < 4 + k
  gone : ∀ fd c, net.connections fd = some c → fd < 4 + k ∧ c.stage = .left ∧ c.unread = []

def freeMonitor : List Int :=
  0 :: 3 :: List.replicate 30 (-1)

def busyMonitor (fd : Int) : List Int :=
  0 :: 3 :: fd :: List.replicate 29 (-1)

theorem Stale.allRead {monitorFdSet known : List Int} (h : net.Stale k monitorFdSet known) : net.AllRead :=
  fun fd _ c hc => (h.gone fd c hc).2.2

def goneClient (pid : Int) (accepted : Bool) (unread : Mem) : Connection where
  pid := pid
  stage := .left
  accepted := accepted
  unread := unread

theorem set_set (c c' : Connection) : (net.set fd c).set fd c' = net.set fd c' := by
  unfold set
  simp only [Function.update_idem]

/--
A client connects, writes its PID and ends, all before the server looks.
-/
theorem reachable_goneClient (hreach : system.Reachable net) (hfresh : net.Fresh fd pid) :
    system.Reachable (net.set fd (goneClient pid false (pidBytes pid))) := by
  have hconnect : system.Reachable (net.set fd (.connect pid)) :=
    hreach.step (i := .connect fd pid) trivial ⟨hfresh, rfl⟩
  have hwrite : system.Reachable ((net.set fd (.connect pid)).set fd
      { Connection.connect pid with stage := .announced, unread := pidBytes pid }) := by
    refine hconnect.step (i := .client fd .writePid) trivial ⟨trivial, ?_⟩
    simp only [Connections.next, client, set_connections, if_true, Option.bind_some]
    rfl
  rw [set_set] at hwrite
  have hleave : system.Reachable ((net.set fd
      { Connection.connect pid with stage := .announced, unread := pidBytes pid }).set fd
      (goneClient pid false (pidBytes pid))) := by
    refine hwrite.step (i := .client fd .leave) trivial ⟨trivial, ?_⟩
    simp only [Connections.next, client, set_connections, if_true, Option.bind_some]
    rfl
  rw [set_set] at hleave
  exact hleave

theorem reachable_accept {buffer bufferMac : Mem} (h : system.Reachable net)
    (hnext : net.accept fd buffer bufferMac = some net') : system.Reachable net' :=
  h.step (i := .accept fd buffer bufferMac) trivial ⟨trivial, hnext⟩

theorem accept_goneClient {unread : Mem} :
    (net.set fd (goneClient pid false unread)).accept fd [] []
      = some { net.set fd (goneClient pid true unread) with
          server :=
            { net.server with monitorFdSet := addToMonitorFdSet net.server.monitorFdSet fd } } := by
  unfold accept
  rw [set_connections, if_pos rfl]
  simp [goneClient, set, Server.accept]

theorem read_goneClient {s : Server} (hmem : fd ∈ s.monitorFdSet) (hpos : 0 < pid) (hlt : pid < 2 ^ 31) :
    ({ net.set fd (goneClient pid true (pidBytes pid)) with server := s } : Connections).read fd 4
      = some { net.set fd (goneClient pid true []) with server := s.clientData fd pid } := by
  have hreceive : (goneClient pid true (pidBytes pid)).receive 4 = some (pidBytes pid) := rfl
  have hc : Connections.connections
      { net.set fd (goneClient pid true (pidBytes pid)) with server := s } fd
      = some (goneClient pid true (pidBytes pid)) := (set_connections _).trans (if_pos rfl)
  have hdrop : (pidBytes pid).drop 4 = [] := rfl
  unfold read
  rw [hc]
  dsimp only
  rw [hreceive]
  dsimp only
  rw [if_pos hmem, readPid_pidBytes hpos hlt]
  simp [goneClient, set, hdrop]

theorem Stale.fresh {known : List Int} (h : net.Stale k freeMonitor known) (hk : k < 32)
    (hfd : fd = 4 + k) : net.Fresh fd fd := by
  constructor
  . rw [Option.eq_none_iff_forall_ne_some]
    intro c hc
    have := (h.gone _ c hc).1
    omega
  . omega
  . rw [h.socket]
    omega
  . omega
  . omega
  . intro fd' c' hc' hlive
    exact absurd (h.gone fd' c' hc').2.1 hlive

theorem replicate_free (hk : k < 32) :
    List.replicate (32 - k) (-1 : Int) = -1 :: List.replicate (32 - (k + 1)) (-1) := by
  have hlength : 32 - k = 32 - (k + 1) + 1 := by omega
  rw [hlength, List.replicate_succ]

theorem Stale.arrive {known : List Int} (h : net.Stale k freeMonitor known) (hk : k < 32)
    (hfd : fd = 4 + k) : ∃ net' : Connections, net'.Stale (k + 1) (busyMonitor fd) (known ++ [fd]) := by
  have hfree : -1 ∉ known := by
    intro hmem
    have := (h.known _ hmem).1
    omega
  have hunknown : fd ∉ net.server.clientPidSet := by
    rw [h.pids, List.mem_append, not_or]
    constructor
    . intro hmem
      have := (h.known _ hmem).2
      omega
    . rw [List.mem_replicate]
      omega
  have hmonitor : addToMonitorFdSet net.server.monitorFdSet fd = busyMonitor fd := by
    rw [h.monitor]
    exact replaceFirst_append (a := [0, 3]) (by decide)
  have hpids : addToPidSet net.server.clientPidSet fd
      = known ++ fd :: List.replicate (32 - (k + 1)) (-1) := by
    rw [h.pids, replicate_free hk]
    exact replaceFirst_append hfree
  have hgone := reachable_goneClient h.reachable (h.fresh hk hfd)
  have haccept := reachable_accept hgone accept_goneClient
  rw [hmonitor] at haccept
  have hmem : fd ∈ busyMonitor fd := by simp [busyMonitor]
  have hread := reachable_read haccept (read_goneClient hmem (by omega) (by omega))
  unfold Server.clientData at hread
  rw [if_pos (checkAvailablePid_iff.mpr hunknown), hpids] at hread
  refine ⟨_, hread, h.socket, rfl, ?_, ?_, ?_, ?_⟩
  . dsimp only
    rw [List.append_assoc, List.singleton_append]
  . rw [List.length_append, h.length, List.length_singleton]
  . intro pid hmem
    rw [List.mem_append, List.mem_singleton] at hmem
    cases hmem with
    | inl hmem =>
      have := h.known pid hmem
      omega
    | inr heq =>
      rw [heq]
      omega
  . intro fd' c hc
    have hc := (set_connections _).symm.trans hc
    split at hc
    . next heq =>
      rw [Option.some.injEq] at hc
      rw [heq, ← hc]
      exact ⟨by omega, rfl, rfl⟩
    . have hold := h.gone fd' c hc
      exact ⟨by omega, hold.2⟩

/--
Two reads at the end of the stream make the server forget the descriptor, but not the PID.
-/
theorem Stale.forget {known : List Int} (h : net.Stale k (busyMonitor fd) known) (hk : k < 32)
    (hfd : 3 < fd) : ∃ net' : Connections, net'.Stale k freeMonitor known := by
  have hsound := sound_of_reachable h.reachable
  have hmonitored : fd ∈ net.server.monitorFdSet := by
    rw [h.monitor]
    simp [busyMonitor]
  have hmem : fd ∈ net.unnoticed := by
    obtain ⟨c, hc, _⟩ := hsound.monitored fd hmonitored (by omega) (by rw [h.socket]; omega)
    exact mem_unnoticed_iff.mpr ⟨hmonitored, c, hc, (h.gone fd c hc).2.1⟩
  have hfree : -1 ∉ known ∧ 0 ∉ known := by
    constructor
    . intro hmem
      have := (h.known _ hmem).1
      omega
    . intro hmem
      have := (h.known _ hmem).1
      omega
  have hunknown : 0 ∉ net.server.clientPidSet := by
    rw [h.pids, List.mem_append, List.mem_replicate]
    simp [hfree.2]
  have hadd : addToPidSet net.server.clientPidSet 0 = known ++ 0 :: List.replicate (32 - (k + 1)) (-1) := by
    rw [h.pids, replicate_free hk]
    exact replaceFirst_append hfree.1
  have hfirst := reachable_read h.reachable (exists_read h.allRead hmem)
  unfold Server.clientData at hfirst
  rw [if_pos (checkAvailablePid_iff.mpr hunknown), hadd] at hfirst
  have hread : AllRead { net with server := { net.server with
      clientPidSet := known ++ 0 :: List.replicate (32 - (k + 1)) (-1) } } := h.allRead
  have hsecond := reachable_read hfirst (exists_read hread hmem)
  have hknown : ¬checkAvailablePid (known ++ 0 :: List.replicate (32 - (k + 1)) (-1)) 0 = true := by
    rw [checkAvailablePid_iff]
    simp
  have hpids : removeFromClientPidSet (known ++ 0 :: List.replicate (32 - (k + 1)) (-1)) 0
      = known ++ List.replicate (32 - k) (-1) := by
    rw [replicate_free hk]
    exact replaceFirst_append hfree.2
  have hmonitor : removeFromMonitorFdSet net.server.monitorFdSet fd = freeMonitor := by
    rw [h.monitor]
    refine replaceFirst_append (a := [0, 3]) ?_
    simp
    omega
  unfold Server.clientData at hsecond
  rw [if_neg hknown, hpids] at hsecond
  dsimp only at hsecond
  rw [hmonitor] at hsecond
  exact ⟨_, hsecond, h.socket, rfl, rfl, h.length, h.known, h.gone⟩

theorem exists_stale (hk : k < 32) :
    ∃ (net : Connections) (known : List Int), net.Stale k freeMonitor known := by
  induction k with
  | zero =>
    refine ⟨start 3 fun _ => none, [], .init ⟨3, by decide, _, rfl⟩, rfl, rfl, rfl, rfl, nofun, ?_⟩
    intro fd c hc
    contradiction
  | succ k ih =>
    obtain ⟨net, known, hstale⟩ := ih (by omega)
    obtain ⟨net₁, harrived⟩ := hstale.arrive (by omega) rfl
    obtain ⟨net₂, hforgot⟩ := harrived.forget hk (by omega)
    exact ⟨net₂, _, hforgot⟩

/--
The 32nd client that leaves without a word is never noticed.
-/
theorem exists_never_noticed :
    ∃ net : Connections, system.Reachable net ∧ net.AllRead ∧ ¬net.Notices := by
  obtain ⟨net, known, hstale⟩ := exists_stale (k := 31) (by omega)
  obtain ⟨net', hfull⟩ := hstale.arrive (by omega) rfl
  refine ⟨net', hfull.reachable, hfull.allRead, ?_⟩
  have hmonitored : (4 + (31 : Nat) : Int) ∈ net'.server.monitorFdSet := by
    rw [hfull.monitor]
    simp [busyMonitor]
  obtain ⟨c, hc, _⟩ := (sound_of_reachable hfull.reachable).monitored _ hmonitored (by omega)
    (by rw [hfull.socket]; omega)
  have hmem := mem_unnoticed_iff.mpr ⟨hmonitored, c, hc, (hfull.gone _ c hc).2.1⟩
  have hpids : ∀ pid ∈ net'.server.clientPidSet, 0 < pid := by
    rw [hfull.pids]
    intro pid hpid
    rw [List.mem_append] at hpid
    cases hpid with
    | inl hknown => exact (hfull.known pid hknown).1
    | inr hfree => contradiction
  rintro (hnil | hzero | hslot)
  . rw [hnil] at hmem
    contradiction
  . exact absurd (hpids 0 hzero) (by omega)
  . exact absurd (hpids (-1) hslot) (by omega)

end Stale

/--
How the reads `rs` change what the server has to notice. The next one is at the end of a stream as well.
-/
structure Progress (net : Connections) (rs : List (Int × Nat)) (net' : Connections) : Prop where
  reads_iff : ∀ fd count, (net'.read fd count).isSome = true ↔ net'.AtEndOfStream fd count
  length_le : rs.length ≤ net.readsToNotice
  noticed : rs.length = net.readsToNotice ↔ net'.unnoticed = []
  resting : rs.length = net.readsToNotice ↔ ∀ fd count, net'.read fd count = none
  sigpipe : ∀ console buffer, (net'.server.console console buffer).2.writes ≠ [] →
    (net'.RaisesSigpipe console buffer ↔ rs.length < net.readsToNotice)

structure Stuck (net net' : Connections) : Prop where
  reads_iff : ∀ fd count, (net'.read fd count).isSome = true ↔ net'.AtEndOfStream fd count
  same : net' = net
  ready : ∃ fd, (net'.read fd 0).isSome = true
  sigpipe : ∀ console buffer, (net'.server.console console buffer).2.writes ≠ [] →
    net'.RaisesSigpipe console buffer

theorem progress_or_stuck {rs : List (Int × Nat)} (hreach : system.Reachable net) (hread : net.AllRead)
    (hrs : net.reads rs = some net') :
    (net.Notices → net.Progress rs net') ∧ (¬net.Notices → net.Stuck net') := by
  constructor
  . intro hnotices
    obtain ⟨hreach', hread', hlength⟩ := reads_progress hreach hread hnotices hrs
    have hzero : net'.readsToNotice = 0 ↔ net'.unnoticed = [] := readsToNotice_eq_zero_iff
    have hnil : rs.length = net.readsToNotice ↔ net'.unnoticed = [] := by
      rw [← hzero]
      omega
    refine ⟨fun _ _ => read_isSome_iff hread', by omega, hnil, ?_, ?_⟩
    . rw [hnil]
      constructor
      . intro hnil fd count
        rw [← Option.not_isSome_iff_eq_none, read_isSome_iff hread']
        intro ⟨hmem, _⟩
        rw [hnil] at hmem
        contradiction
      . intro hnone
        by_contra hne
        obtain ⟨fd, hmem⟩ := List.exists_mem_of_ne_nil _ hne
        have hsome := exists_read hread' hmem
        rw [hnone] at hsome
        contradiction
    . intro console buffer hwrites
      rw [raisesSigpipe_iff (sound_of_reachable hreach') hwrites, Ne, ← hnil]
      omega
  . intro hstuck
    have hne : net.unnoticed ≠ [] := fun hnil => hstuck (.inl hnil)
    obtain ⟨fd, hmem⟩ := List.exists_mem_of_ne_nil _ hne
    rw [reads_stuck hread hstuck hrs]
    refine ⟨fun _ _ => read_isSome_iff hread, rfl, ⟨fd, ?_⟩, ?_⟩
    . rw [exists_read hread hmem]
      rfl
    . intro console buffer hwrites
      exact (raisesSigpipe_iff (sound_of_reachable hreach) hwrites).mpr hne

/--
When all that the clients have written is read, the server needs exactly `readsToNotice` reads, in whatever
order they come, and before the last of them each line that it writes to its clients ends it. With all slots
for PIDs taken it reads forever, and such a state is reached.
-/
theorem departures_noticed :
    (∀ net rs net', system.Reachable net → net.AllRead → net.reads rs = some net' →
        (net.Notices → net.Progress rs net') ∧ (¬net.Notices → net.Stuck net'))
      ∧ ∃ net, system.Reachable net ∧ net.AllRead ∧ ¬net.Notices :=
  ⟨fun _ _ _ => progress_or_stuck, exists_never_noticed⟩

def goneAway : Connections :=
  TransitionSystem.runFrom next (start 3 fun _ => none) (oneClient ++ [.client 4 .leave])

theorem departures_noticed_goneAway :
    ∃ net, goneAway.reads [(4, 0), (4, 0)] = some net ∧ net.unnoticed = [] := by
  have hreach : system.Reachable goneAway := by
    apply TransitionSystem.reachableVia_runFrom
    . exact .init ⟨3, by decide, _, rfl⟩
    . refine ⟨trivial, fresh_start, rfl, ?_⟩
      refine ⟨trivial, trivial, rfl, ?_⟩
      refine ⟨trivial, trivial, rfl, ?_⟩
      refine ⟨trivial, trivial, by decide, ?_⟩
      exact ⟨trivial, trivial, rfl, trivial⟩
  have hread : goneAway.AllRead := by
    have hall : ∀ fd ∈ goneAway.server.monitorFdSet,
        (goneAway.connections fd).all (fun c => decide (c.unread = [])) = true := by
      decide
    intro fd hfd c hc
    have hunread := hall fd hfd
    rw [hc, Option.all_some, decide_eq_true_eq] at hunread
    exact hunread
  obtain ⟨net, hnet⟩ := Option.isSome_iff_exists.mp
    (show (goneAway.reads [(4, 0), (4, 0)]).isSome = true by decide)
  refine ⟨net, hnet, ?_⟩
  have hnotices : goneAway.Notices := .inr (.inr (by decide))
  have hprogress := (departures_noticed.1 _ _ _ hreach hread hnet).1 hnotices
  exact hprogress.noticed.mp (by decide)

end Connections

end RoutingTable
