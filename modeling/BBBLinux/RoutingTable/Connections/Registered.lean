import BBBLinux.RoutingTable.Connections.Lemmas
import Mathlib.Data.List.Perm.Subperm

/-!
This module contains the PIDs that the server knows. Announcement and farewell are the same message, so
the set is right as long as every `read` returns exactly one of them.
-/

namespace RoutingTable

namespace Connection

variable {c c' : Connection} {known : Nat}

/--
The PIDs that `c` has written: some are still unread, and `known` of them are in the set.
-/
def Told (c : Connection) (known : Nat) : Prop :=
  ∃ unread, c.unread = (List.replicate unread (pidBytes c.pid)).flatten ∧
    match c.stage with
    | .connected => unread + known = 0
    | .announced | .interruptible | .running => unread + known = 1
    | .left => unread + known ≤ 2

def Present (c : Connection) : Prop :=
  c.stage ≠ .connected ∧ c.stage ≠ .left

theorem Told.left (h : c.Told known) : Told { c with stage := .left } known := by
  have ⟨unread, hunread, htold⟩ := h
  refine ⟨unread, hunread, ?_⟩
  split at htold <;> omega

theorem flatten_append_pidBytes (unread : Nat) (pid : Int) :
    (List.replicate unread (pidBytes pid)).flatten ++ pidBytes pid
      = (List.replicate (unread + 1) (pidBytes pid)).flatten := by
  rw [List.replicate_succ', List.flatten_append]
  simp

theorem flatten_eq_nil {unread : Nat} {pid : Int}
    (h : (List.replicate unread (pidBytes pid)).flatten = []) : unread = 0 := by
  cases unread with
  | zero => rfl
  | succ unread =>
    rw [List.replicate_succ, List.flatten_cons] at h
    have hlength := congrArg List.length h
    rw [List.length_append, pidBytes_length, List.length_nil] at hlength
    omega

theorem Told.act (h : c.Told known) (hacts : c.Acts c') : c'.Told known := by
  have ⟨unread, hunread, htold⟩ := h
  cases hacts with
  | announced hstage =>
    refine ⟨unread + 1, ?_, ?_⟩
    . simp only [hunread, flatten_append_pidBytes]
    . rw [hstage] at htold
      simp only at htold ⊢
      omega
  | installed stage hstage =>
    refine ⟨unread, hunread, ?_⟩
    cases hstage with
    | inl hstage =>
      rw [hstage.1] at htold
      rw [hstage.2]
      exact htold
    | inr hstage =>
      rw [hstage.1] at htold
      rw [hstage.2]
      exact htold
  | goodbye hstage =>
    refine ⟨unread + 1, ?_, ?_⟩
    . simp only [hunread, flatten_append_pidBytes]
    . cases hstage with
      | inl hstage =>
        rw [hstage] at htold
        simp only at htold ⊢
        omega
      | inr hstage =>
        rw [hstage] at htold
        simp only at htold ⊢
        omega
  | gone hstage => exact h.left

theorem Told.sigusr1 (h : c.Told known) : c.sigusr1.Told known := by
  rcases c.sigusr1_eq with hsame | ⟨_, _, hleft⟩
  . rw [hsame]
    exact h
  . rw [hleft]
    exact h.left

theorem Told.connect {pid : Int} : (Connection.connect pid).Told 0 :=
  ⟨0, rfl, rfl⟩

/--
A `read` of four bytes takes one PID off what is unread.
-/
theorem Told.receive {data : CString.Mem} (h : c.Told known) (hdata : c.receive 4 = some data) :
    data = pidBytes c.pid ∧ (known = 0 → Told { c with unread := c.unread.drop 4 } 1)
      ∧ (0 < known → Told { c with unread := c.unread.drop 4 } 0) := by
  have ⟨unread, hunread, htold⟩ := h
  cases unread with
  | zero =>
    rw [List.replicate_zero, List.flatten_nil] at hunread
    simp [Connection.receive, hunread] at hdata
  | succ unread =>
    rw [List.replicate_succ, List.flatten_cons] at hunread
    have hdrop : c.unread.drop 4 = (List.replicate unread (pidBytes c.pid)).flatten := by
      rw [hunread]
      rfl
    refine ⟨?_, ?_, ?_⟩
    . unfold Connection.receive at hdata
      split at hdata
      . next hnil =>
        rw [hunread] at hnil
        contradiction
      . simp only [Option.ite_none_right_eq_some, Option.some.injEq] at hdata
        rw [← hdata.2, hunread]
        rfl
    . intro hknown
      refine ⟨unread, hdrop, ?_⟩
      split at htold <;> simp [*] at htold ⊢ <;> omega
    . intro hknown
      refine ⟨unread, hdrop, ?_⟩
      split at htold <;> simp [*] at htold ⊢ <;> omega

end Connection

namespace Connections

variable {net net' : Connections} {fd pid : Int} {c : Connection} {e : Event}

def Settled (net : Connections) : Prop :=
  ∀ fd c, net.connections fd = some c →
    c.unread = [] ∧ (c.stage = .left → fd ∉ net.server.monitorFdSet)

structure MatchesClients (net : Connections) : Prop where
  settled : net.Settled → ∀ pid, pid ≠ -1 → net.server.clientPidSet.count pid ≤ 1
    ∧ (pid ∈ net.server.clientPidSet ↔ ∃ fd c, net.connections fd = some c ∧ c.pid = pid ∧ c.Present)
  noZero : 0 ∉ net.server.clientPidSet

def DistinctPids (net : Connections) : Event → Prop
  | .connect _ pid => ∀ fd c, net.connections fd = some c → c.pid ≠ pid
  | _ => True

def Wholly : Event → Prop
  | .read _ count => count = (pidBytes 0).length
  | _ => True

structure Books (net : Connections) : Prop where
  told : ∀ fd c, net.connections fd = some c → c.Told (net.server.clientPidSet.count c.pid)
  monitored : ∀ fd c, net.connections fd = some c → c.pid ∈ net.server.clientPidSet →
    fd ∈ net.server.monitorFdSet
  known : ∀ pid ∈ net.server.clientPidSet, pid ≠ -1 → ∃ fd c, net.connections fd = some c ∧ c.pid = pid
  once : ∀ pid, pid ≠ -1 → net.server.clientPidSet.count pid ≤ 1
  pid_inj : ∀ fd fd' c c', net.connections fd = some c → net.connections fd' = some c' →
    c.pid = c'.pid → fd = fd'

namespace Books

theorem slot_free (hsound : net.Sound) (h : net.Books) : -1 ∈ net.server.clientPidSet := by
  by_contra hslot
  have hnodup : net.server.clientPidSet.Nodup := by
    rw [List.nodup_iff_count_le_one]
    intro pid
    by_cases hpid : pid = -1
    . rw [hpid, List.count_eq_zero_of_not_mem hslot]
      omega
    . exact h.once pid hpid
  have hsub : net.server.clientPidSet ⊆ net.server.clientFds.filterMap fun fd =>
      (net.connections fd).map Connection.pid := by
    intro pid hpid
    have hne : pid ≠ -1 := by
      intro heq
      rw [heq] at hpid
      contradiction
    have ⟨fd, c, hc, heq⟩ := h.known pid hpid hne
    have ⟨hpos, hfd⟩ := hsound.descriptor fd c hc
    rw [← heq] at hpid
    simp only [List.mem_filterMap, Server.clientFds, List.mem_filter, Bool.and_eq_true,
      decide_eq_true_eq]
    refine ⟨fd, ⟨h.monitored fd c hc hpid, by omega⟩, ?_⟩
    rw [hc]
    exact congrArg some heq
  have hlength := (hnodup.subperm hsub).length_le
  have hmap := List.length_filterMap_le (fun fd => (net.connections fd).map Connection.pid)
    net.server.clientFds
  have hfds := length_clientFds_le hsound.socket_pos hsound.own.1 hsound.own.2
  have hboth := hsound.length
  omega

theorem matchesClients (hsound : net.Sound) (h : net.Books) : net.MatchesClients := by
  constructor
  . intro hsettled pid hpid
    refine ⟨h.once pid hpid, ?_⟩
    constructor
    . intro hmem
      have ⟨fd, c, hc, heq⟩ := h.known pid hmem hpid
      rw [← heq] at hmem
      refine ⟨fd, c, hc, heq, ?_, ?_⟩
      . intro hstage
        have ⟨unread, _, htold⟩ := h.told fd c hc
        rw [hstage] at htold
        rw [← List.count_pos_iff] at hmem
        simp only at htold
        omega
      . intro hstage
        exact (hsettled fd c hc).2 hstage (h.monitored fd c hc hmem)
    . intro ⟨fd, c, hc, heq, hstage⟩
      have ⟨unread, hunread, htold⟩ := h.told fd c hc
      rw [(hsettled fd c hc).1] at hunread
      have hzero := Connection.flatten_eq_nil hunread.symm
      rw [← heq, ← List.count_pos_iff]
      split at htold
      . next hconnected => exact absurd hconnected hstage.1
      . omega
      . omega
      . omega
      . next hleft => exact absurd hleft hstage.2
  . intro hmem
    have ⟨fd, c, hc, heq⟩ := h.known 0 hmem (by omega)
    have := hsound.pid fd c hc
    omega

theorem start {connectionSocket : Int} {shm : Shm} : (Connections.start connectionSocket shm).Books := by
  have hset : (Connections.start connectionSocket shm).server.clientPidSet
      = List.replicate maxClientsSupport (-1) := rfl
  constructor
  . intro fd c hc
    contradiction
  . intro fd c hc
    contradiction
  . intro pid hpid hne
    rw [hset] at hpid
    exact absurd (List.eq_of_mem_replicate hpid) hne
  . intro pid hpid
    rw [hset, List.count_replicate, if_neg]
    . omega
    . simpa using hpid.symm
  . intro fd fd' c c' hc
    contradiction

theorem of_told (h : net.Books) (hmonitored : ∀ fd ∈ net.server.monitorFdSet, 0 < fd →
      fd ∈ net'.server.monitorFdSet)
    (hserver : net'.server.clientPidSet = net.server.clientPidSet) (hsound : net.Sound)
    (hconnections : ∀ fd, Option.Rel (fun c c' => c'.pid = c.pid
      ∧ ∀ known, c.Told known → c'.Told known) (net.connections fd) (net'.connections fd)) :
    net'.Books := by
  have hback {fd : Int} {c' : Connection} (hc' : net'.connections fd = some c') :
      ∃ c, net.connections fd = some c ∧ c'.pid = c.pid ∧ ∀ known, c.Told known → c'.Told known := by
    have hrel := hconnections fd
    rw [hc'] at hrel
    generalize net.connections fd = oc at hrel ⊢
    cases hrel with
    | some hc => exact ⟨_, rfl, hc⟩
  constructor
  . intro fd c' hc'
    have ⟨c, hc, hpid, htold⟩ := hback hc'
    rw [hserver, hpid]
    apply htold _ (h.told fd c hc)
  . intro fd c' hc'
    have ⟨c, hc, hpid, _⟩ := hback hc'
    rw [hserver, hpid]
    intro hmem
    apply hmonitored fd (h.monitored fd c hc hmem) (hsound.descriptor fd c hc).1
  . rw [hserver]
    intro pid hmem hne
    have ⟨fd, c, hc, hpid⟩ := h.known pid hmem hne
    have hrel := hconnections fd
    rw [hc] at hrel
    generalize hoc : net'.connections fd = oc' at hrel
    cases hrel with
    | some hc' => exact ⟨fd, _, hoc, hc'.1.trans hpid⟩
  . rw [hserver]
    exact h.once
  . intro fd fd' c₁' c₂' hc₁' hc₂' heq
    have ⟨c₁, hc₁, hpid₁, _⟩ := hback hc₁'
    have ⟨c₂, hc₂, hpid₂, _⟩ := hback hc₂'
    rw [hpid₁, hpid₂] at heq
    exact h.pid_inj fd fd' c₁ c₂ hc₁ hc₂ heq

theorem connect (h : net.Books) (hfresh : net.Fresh fd pid) (hdistinct : net.DistinctPids (.connect fd pid)) :
    (net.set fd (.connect pid)).Books := by
  have hunknown : pid ∉ net.server.clientPidSet := by
    intro hmem
    have hpos := hfresh.pid_pos
    have ⟨fd, c, hc, hpid⟩ := h.known pid hmem (by omega)
    exact hdistinct fd c hc hpid
  have hcases {fd' : Int} {c : Connection} (hc : (net.set fd (.connect pid)).connections fd' = some c) :
      fd' = fd ∧ c = .connect pid ∨ fd' ≠ fd ∧ net.connections fd' = some c := by
    rw [set_connections] at hc
    split at hc
    . next heq => exact .inl ⟨heq, (Option.some.inj hc).symm⟩
    . next hne => exact .inr ⟨hne, hc⟩
  constructor
  . intro fd' c hc
    cases hcases hc with
    | inl hnew =>
      have hcount : net.server.clientPidSet.count pid = 0 := List.count_eq_zero_of_not_mem hunknown
      rw [hnew.2]
      have htold : (Connection.connect pid).Told 0 := .connect
      rw [← hcount] at htold
      exact htold
    | inr hold => exact h.told fd' c hold.2
  . intro fd' c hc hmem
    cases hcases hc with
    | inl hnew =>
      rw [hnew.2] at hmem
      exact absurd hmem hunknown
    | inr hold => exact h.monitored fd' c hold.2 hmem
  . intro pid' hmem hne
    have ⟨fd', c, hc, hpid⟩ := h.known pid' hmem hne
    refine ⟨fd', c, ?_, hpid⟩
    rw [set_connections, if_neg]
    . exact hc
    . intro heq
      rw [heq, hfresh.fd_none] at hc
      contradiction
  . exact h.once
  . intro fd₁ fd₂ c₁ c₂ hc₁ hc₂ heq
    cases hcases hc₁ with
    | inl hnew₁ =>
      cases hcases hc₂ with
      | inl hnew₂ => apply hnew₁.1.trans hnew₂.1.symm
      | inr hold₂ =>
        rw [hnew₁.2] at heq
        exact absurd heq.symm (hdistinct fd₂ c₂ hold₂.2)
    | inr hold₁ =>
      cases hcases hc₂ with
      | inl hnew₂ =>
        rw [hnew₂.2] at heq
        exact absurd heq (hdistinct fd₁ c₁ hold₁.2)
      | inr hold₂ => exact h.pid_inj fd₁ fd₂ c₁ c₂ hold₁.2 hold₂.2 heq

theorem receive {unread : CString.Mem} {server : Server} (h : net.Books) (hsound : net.Sound)
    (hc : net.connections fd = some c)
    (hcount : ∀ pid, pid ≠ -1 → pid ≠ c.pid →
      server.clientPidSet.count pid = net.server.clientPidSet.count pid)
    (hmonitored : ∀ fd' ∈ net.server.monitorFdSet, 0 < fd' → fd' ≠ fd → fd' ∈ server.monitorFdSet)
    (htold : Connection.Told { c with unread := unread } (server.clientPidSet.count c.pid))
    (honce : server.clientPidSet.count c.pid ≤ 1)
    (hown : c.pid ∈ server.clientPidSet → fd ∈ server.monitorFdSet) :
    Books { net.set fd { c with unread := unread } with server := server } := by
  have hcases {fd' : Int} {c' : Connection}
      (hc' : (net.set fd { c with unread := unread }).connections fd' = some c') :
      fd' = fd ∧ c' = { c with unread := unread }
        ∨ fd' ≠ fd ∧ net.connections fd' = some c' ∧ c'.pid ≠ -1 ∧ c'.pid ≠ c.pid := by
    rw [set_connections] at hc'
    split at hc'
    . next heq => exact .inl ⟨heq, (Option.some.inj hc').symm⟩
    . next hne =>
      have hpos := (hsound.pid fd' c' hc').1
      refine .inr ⟨hne, hc', by omega, ?_⟩
      intro heq
      exact hne (h.pid_inj fd' fd c' c hc' hc heq)
  constructor
  . intro fd' c' hc'
    rcases hcases hc' with ⟨_, hself⟩ | ⟨_, hc', hpos, hpid⟩
    . rw [hself]
      exact htold
    . rw [hcount _ hpos hpid]
      exact h.told fd' c' hc'
  . intro fd' c' hc' hmem
    rcases hcases hc' with ⟨hfd, hself⟩ | ⟨hfd, hc', hpos, hpid⟩
    . rw [hself] at hmem
      rw [hfd]
      exact hown hmem
    . rw [← List.count_pos_iff, hcount _ hpos hpid, List.count_pos_iff] at hmem
      exact hmonitored fd' (h.monitored fd' c' hc' hmem) (hsound.descriptor fd' c' hc').1 hfd
  . intro pid hmem hne
    by_cases hpid : pid = c.pid
    . exact ⟨fd, _, (set_connections _).trans (if_pos rfl), hpid.symm⟩
    . rw [← List.count_pos_iff, hcount pid hne hpid, List.count_pos_iff] at hmem
      have ⟨fd', c', hc', heq⟩ := h.known pid hmem hne
      refine ⟨fd', c', ?_, heq⟩
      apply ((set_connections _).trans (if_neg ?_)).trans hc'
      intro hfd
      rw [hfd, hc] at hc'
      cases hc'
      exact hpid heq.symm
  . intro pid hne
    by_cases hpid : pid = c.pid
    . rw [hpid]
      exact honce
    . rw [hcount pid hne hpid]
      exact h.once pid hne
  . intro fd₁ fd₂ c₁ c₂ hc₁ hc₂ heq
    rcases hcases hc₁ with ⟨hfd₁, hself₁⟩ | ⟨_, hc₁, _, hpid₁⟩
    . rcases hcases hc₂ with ⟨hfd₂, _⟩ | ⟨_, _, _, hpid₂⟩
      . exact hfd₁.trans hfd₂.symm
      . rw [hself₁] at heq
        exact absurd heq.symm hpid₂
    . rcases hcases hc₂ with ⟨_, hself₂⟩ | ⟨_, hc₂, _, _⟩
      . rw [hself₂] at heq
        exact absurd heq hpid₁
      . exact h.pid_inj fd₁ fd₂ c₁ c₂ hc₁ hc₂ heq

theorem read {data : CString.Mem} (h : net.Books) (hsound : net.Sound) (hc : net.connections fd = some c)
    (hdata : c.receive 4 = some data) (hfd : fd ∈ net.server.monitorFdSet) :
    Books { net.set fd { c with unread := c.unread.drop 4 } with
      server := net.server.clientData fd (readPid data) } := by
  have ⟨hpid, hnew, hknown⟩ := (h.told fd c hc).receive hdata
  have ⟨hpos, hlt⟩ := hsound.pid fd c hc
  rw [hpid, readPid_pidBytes hpos hlt]
  unfold Server.clientData
  split
  . -- the client announces itself
    next havailable =>
    rw [checkAvailablePid_iff] at havailable
    have hzero : net.server.clientPidSet.count c.pid = 0 := List.count_eq_zero_of_not_mem havailable
    have hone : (addToPidSet net.server.clientPidSet c.pid).count c.pid = 1 := by
      have hcount := count_replaceFirst c.pid c.pid (h.slot_free hsound)
      rw [if_neg (by omega), if_pos rfl, hzero] at hcount
      exact hcount
    apply h.receive hsound hc
    . intro pid hne hpid
      apply count_replaceFirst_of_ne hne hpid
    . intro fd' hmem _ _
      exact hmem
    . simp only [hone]
      exact hnew hzero
    . simp only [hone]
      omega
    . intro _
      exact hfd
  . -- the client says goodbye
    next havailable =>
    rw [checkAvailablePid_iff, not_not] at havailable
    have hone := h.once c.pid (by omega)
    have hzero : (removeFromClientPidSet net.server.clientPidSet c.pid).count c.pid = 0 := by
      have hcount := count_replaceFirst (-1) c.pid havailable
      rw [if_pos rfl, if_neg (by omega)] at hcount
      unfold removeFromClientPidSet
      omega
    apply h.receive hsound hc
    . intro pid hne hpid
      apply count_replaceFirst_of_ne hpid hne
    . intro fd' hmem _ hne
      apply mem_replaceFirst_of_mem hmem hne
    . simp only [hzero]
      apply hknown
      rw [List.count_pos_iff]
      exact havailable
    . simp only [hzero]
      omega
    . intro hmem
      rw [← List.count_pos_iff, hzero] at hmem
      contradiction

theorem next (hsound : net.Sound) (h : net.Books) (hpossible : net.Possible e)
    (hok : net.DistinctPids e ∧ Wholly e) (hnext : net.next e = some net') : net'.Books := by
  cases e with
  | connect fd pid =>
    simp only [Connections.next, Option.some.injEq] at hnext
    rw [← hnext]
    exact h.connect hpossible hok.1
  | client fd action =>
    obtain ⟨c, c', hc, hacts, hnet'⟩ := client_eq_some hnext
    rw [hnet']
    refine h.of_told (fun fd' hmem _ => hmem) rfl hsound ?_
    exact rel_set (fun c => ⟨rfl, fun _ => id⟩) hc ⟨hacts.pid, fun known htold => htold.act hacts⟩
  | accept fd buffer bufferMac =>
    obtain ⟨c, hc, _, hnet'⟩ := accept_eq_some hnext
    rw [hnet']
    refine h.of_told ?_ rfl hsound ?_
    . intro fd' hmem hpos
      apply mem_replaceFirst_of_mem hmem
      omega
    . exact rel_set (fun c => ⟨rfl, fun _ => id⟩) hc ⟨rfl, fun known htold => htold⟩
  | console console buffer =>
    simp only [Connections.next, Option.some.injEq] at hnext
    rw [← hnext]
    have hserver : net.server.SameClients (net.console console buffer).server :=
      Server.console_sameClients
    refine h.of_told ?_ hserver.clientPidSet hsound ?_
    . intro fd hmem _
      rw [hserver.monitorFdSet]
      exact hmem
    . apply rel_console
      . exact fun _ => ⟨rfl, fun known htold => htold⟩
      . exact fun c => ⟨c.sigusr1_pid, fun known htold => htold.sigusr1⟩
  | read fd count =>
    obtain ⟨c, data, hc, hdata, hmem, hnet'⟩ := read_eq_some hnext
    have hcount : count = 4 := hok.2
    rw [hnet', hcount]
    rw [hcount] at hdata
    exact h.read hsound hc hdata hmem

end Books

theorem zero_mem_of_read_nothing (h : net.Books) (hsound : net.Sound) (hread : net.read fd 0 = some net') :
    0 ∈ net'.server.clientPidSet := by
  have ⟨c, data, _, hdata, _, hnet'⟩ := read_eq_some hread
  have hnil : data = [] := by
    unfold Connection.receive at hdata
    split at hdata
    . simp only [Option.ite_none_right_eq_some, Option.some.injEq] at hdata
      exact hdata.2.symm
    . simp at hdata
  rw [hnet', hnil, readPid_nil]
  have havailable : checkAvailablePid net.server.clientPidSet 0 = true := by
    rw [checkAvailablePid_iff]
    exact (h.matchesClients hsound).noZero
  simp only [Server.clientData, if_pos havailable]
  apply new_mem_replaceFirst (h.slot_free hsound)

theorem registry_matches_unless_torn (net : Connections) :
    system.ReachableVia (fun net e => net.DistinctPids e ∧ Wholly e) net → net.MatchesClients
      -- the end of a file breaks it at once
      ∧ ∀ fd net', net.read fd 0 = some net' → ¬net'.MatchesClients := by
  intro h
  have hsound := sound_of_reachable h
  have hbooks : net.Books := by
    have hboth : net.Sound ∧ net.Books := by
      apply h.invariant (P := fun net => net.Sound ∧ net.Books)
      . intro net ⟨connectionSocket, hpos, shm, hnet⟩
        rw [hnet]
        exact ⟨.start hpos, .start⟩
      . intro net e net' ⟨hsound, hbooks⟩ hok ⟨hpossible, hnext⟩
        exact ⟨hsound.next hpossible hnext, hbooks.next hsound hpossible hok hnext⟩
    exact hboth.2
  refine ⟨hbooks.matchesClients hsound, ?_⟩
  intro fd net' hread hmatches
  exact hmatches.noZero (zero_mem_of_read_nothing hbooks hsound hread)

theorem registry_matches_unless_torn_oneClient :
    let net := TransitionSystem.runFrom next (start 3 fun _ => none) oneClient
    net.Settled ∧ net.MatchesClients ∧ net.server.clientPidSet.count 100 = 1 := by
  refine ⟨?_, ?_, by decide⟩
  . intro fd c hc
    by_cases hfd : fd = 4
    . rw [hfd] at hc
      cases hc
      exact ⟨rfl, fun hstage => by contradiction⟩
    . have hnone : (TransitionSystem.runFrom next (start 3 fun _ => none) oneClient).connections fd
          = none := by
        iterate 4 refine (Function.update_of_ne hfd _ _).trans ?_
        rfl
      rw [hnone] at hc
      contradiction
  . apply ((registry_matches_unless_torn _) _).1
    apply TransitionSystem.reachableVia_runFrom
    . exact .init ⟨3, by decide, _, rfl⟩
    . refine ⟨⟨?_, trivial⟩, fresh_start, rfl, ?_⟩
      . intro fd c hc
        contradiction
      . refine ⟨⟨trivial, trivial⟩, trivial, rfl, ?_⟩
        refine ⟨⟨trivial, trivial⟩, trivial, rfl, ?_⟩
        exact ⟨⟨trivial, rfl⟩, trivial, by decide, trivial⟩

def crashedClient : List Event :=
  [.client 4 .leave, .read 4 0]

theorem not_matchesClients_of_crashedClient :
    ¬∀ net, system.ReachableVia (fun net e => net.DistinctPids e) net → net.MatchesClients := by
  intro h
  have hzero : 0 ∈ (TransitionSystem.runFrom next (start 3 fun _ => none)
      (oneClient ++ crashedClient)).server.clientPidSet := by
    decide
  refine (h _ ?_).noZero hzero
  apply TransitionSystem.reachableVia_runFrom
  . exact .init ⟨3, by decide, _, rfl⟩
  . refine ⟨?_, fresh_start, rfl, ?_⟩
    . intro fd c hc
      contradiction
    . refine ⟨trivial, trivial, rfl, ?_⟩
      refine ⟨trivial, trivial, rfl, ?_⟩
      refine ⟨trivial, trivial, by decide, ?_⟩
      refine ⟨trivial, trivial, rfl, ?_⟩
      exact ⟨trivial, trivial, by decide, trivial⟩

end Connections

end RoutingTable
