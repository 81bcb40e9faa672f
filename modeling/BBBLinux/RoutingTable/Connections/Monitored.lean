import BBBLinux.RoutingTable.Connections.Lemmas

/-!
This module contains the clients that the server forgets. `add_to_monitor_fd_set` does nothing when
there is no slot, and a known PID is taken for a farewell whoever it comes from.
-/

namespace RoutingTable
namespace Connections

variable {net net' : Connections} {fd : Int} {c : Connection} {e : Event}

def MonitorsAll (net : Connections) : Prop :=
  ∀ fd c, net.connections fd = some c → c.accepted = true → c.stage ≠ .left →
    fd ∈ net.server.monitorFdSet ∧ net.server.clientFds.count fd = 1

def Keeps (net : Connections) : Event → Prop
  | .accept fd _ _ =>
    ∀ c, net.connections fd = some c → c.stage ≠ .left → -1 ∈ net.server.monitorFdSet
  | .read fd count =>
    ∀ c data, net.connections fd = some c → c.receive count = some data → c.stage ≠ .left →
      checkAvailablePid net.server.clientPidSet (readPid data) = true
  | _ => True

def Monitored (net : Connections) : Prop :=
  ∀ fd c, net.connections fd = some c → c.accepted = true → c.stage ≠ .left →
    fd ∈ net.server.monitorFdSet

theorem monitorsAll_iff (h : net.Sound) : net.MonitorsAll ↔ net.Monitored := by
  constructor
  . exact fun hall fd c hc haccepted hlive => (hall fd c hc haccepted hlive).1
  . intro hmonitored fd c hc haccepted hlive
    have hmem := hmonitored fd c hc haccepted hlive
    have ⟨hpos, hne⟩ := h.descriptor fd c hc
    refine ⟨hmem, ?_⟩
    rw [Server.count_clientFds hpos hne]
    have honce := h.once fd hpos hne
    rw [← List.count_pos_iff] at hmem
    omega

namespace Monitored

theorem clientData {pid : Int} (h : net.Monitored) (hc : net.connections fd = some c)
    (hpid : c.stage ≠ .left → checkAvailablePid net.server.clientPidSet pid = true) :
    Monitored { net with server := net.server.clientData fd pid } := by
  intro fd' c' hc' haccepted hlive
  have hmem := h fd' c' hc' haccepted hlive
  unfold Server.clientData
  split
  . exact hmem
  . next hknown =>
    apply mem_replaceFirst_of_mem hmem
    intro heq
    rw [heq, hc] at hc'
    cases hc'
    exact hknown (hpid hlive)

theorem next (hsound : net.Sound) (h : net.Monitored) (hok : net.Keeps e)
    (hnext : net.next e = some net') : net'.Monitored := by
  cases e with
  | connect fd pid =>
    simp only [Connections.next, Option.some.injEq] at hnext
    rw [← hnext]
    intro fd' c' hc' haccepted hlive
    rw [set_connections] at hc'
    split at hc'
    . cases hc'
      contradiction
    . exact h fd' c' hc' haccepted hlive
  | client fd action =>
    obtain ⟨c, c', hc, hacts, hnet'⟩ := client_eq_some hnext
    rw [hnet']
    intro fd' c'' hc'' haccepted _
    rw [set_connections] at hc''
    split at hc''
    . next heq =>
      cases hc''
      rw [hacts.accepted] at haccepted
      rw [heq]
      exact h fd c hc haccepted hacts.not_left
    . next hlive _ => exact h fd' c'' hc'' haccepted hlive
  | accept fd buffer bufferMac =>
    obtain ⟨c, hc, _, hnet'⟩ := accept_eq_some hnext
    rw [hnet']
    intro fd' c' hc' haccepted hlive
    rw [set_connections] at hc'
    split at hc'
    . next heq =>
      cases hc'
      rw [heq]
      apply new_mem_replaceFirst (hok c hc hlive)
    . have hpos := (hsound.descriptor fd' c' hc').1
      apply mem_replaceFirst_of_mem (h fd' c' hc' haccepted hlive)
      omega
  | console console buffer =>
    simp only [Connections.next, Option.some.injEq] at hnext
    rw [← hnext]
    intro fd c hc haccepted hlive
    have hserver : net.server.SameClients (net.console console buffer).server :=
      Server.console_sameClients
    rw [hserver.monitorFdSet]
    exact h fd c (console_live hc hlive) haccepted hlive
  | read fd count =>
    obtain ⟨c, data, hc, hdata, _, hnet'⟩ := read_eq_some hnext
    rw [hnet']
    have hread : (net.set fd { c with unread := c.unread.drop count }).Monitored := by
      intro fd' c' hc' haccepted hlive
      rw [set_connections] at hc'
      split at hc'
      . next heq =>
        cases hc'
        rw [heq]
        exact h fd c hc haccepted hlive
      . exact h fd' c' hc' haccepted hlive
    apply hread.clientData ((set_connections _).trans (if_pos rfl))
    exact hok c data hc hdata

end Monitored

theorem not_monitored_of_not_keeps (h : net.Sound) (hok : ¬net.Keeps e)
    (hnext : net.next e = some net') : ¬net'.Monitored := by
  intro hmonitored
  cases e with
  | accept fd buffer bufferMac =>
    simp only [Keeps, not_forall] at hok
    obtain ⟨c, hc, hlive, hslot⟩ := hok
    obtain ⟨c', hc', haccepted, hnet'⟩ := accept_eq_some hnext
    rw [hc] at hc'
    cases hc'
    rw [hnet'] at hmonitored
    have hmem := hmonitored fd { c with accepted := true } ((set_connections _).trans (if_pos rfl)) rfl hlive
    simp only [addToMonitorFdSet, replaceFirst_of_notMem hslot] at hmem
    obtain ⟨hpos, hne⟩ := h.descriptor fd c hc
    obtain ⟨c', hc', haccepted'⟩ := h.monitored fd hmem hpos hne
    rw [hc] at hc'
    cases hc'
    rw [haccepted] at haccepted'
    contradiction
  | read fd count =>
    simp only [Keeps, not_forall] at hok
    obtain ⟨c, data, hc, hdata, hlive, hknown⟩ := hok
    obtain ⟨c', data', hc', hdata', hmem, hnet'⟩ := read_eq_some hnext
    rw [hc] at hc'
    cases hc'
    rw [hdata] at hdata'
    cases hdata'
    obtain ⟨hpos, hne⟩ := h.descriptor fd c hc
    obtain ⟨c', hc', haccepted⟩ := h.monitored fd hmem hpos hne
    rw [hc] at hc'
    cases hc'
    rw [hnet'] at hmonitored
    have hstill := hmonitored fd { c with unread := c.unread.drop count }
      ((set_connections _).trans (if_pos rfl)) haccepted hlive
    simp only [Server.clientData, if_neg hknown, removeFromMonitorFdSet] at hstill
    have hcount := count_replaceFirst (-1) fd hmem
    have honce := h.once fd hpos hne
    rw [if_pos rfl, if_neg (by omega)] at hcount
    rw [← List.count_pos_iff] at hstill
    omega
  | _ => exact hok trivial

theorem monitors_all_unless_no_slot_or_known_pid (net : Connections) :
    (system.ReachableVia Keeps net → net.MonitorsAll)
      ∧ ∀ e net', system.Reachable net → ¬net.Keeps e → system.step net e net' →
          ¬net'.MonitorsAll := by
  apply TransitionSystem.ReachableVia.kept_unless (Q := Sound) (R := Monitored)
  . exact fun _ => sound_of_reachable
  . exact fun _ => monitorsAll_iff
  . intro net ⟨connectionSocket, _, shm, hnet⟩ fd c hc
    rw [hnet] at hc
    contradiction
  . intro net e net' hsound hmonitored hok ⟨_, hnext⟩
    apply hmonitored.next hsound hok hnext
  . intro net e net' hsound hok ⟨_, hnext⟩
    apply not_monitored_of_not_keeps hsound hok hnext

theorem monitors_all_unless_no_slot_or_known_pid_oneClient :
    (TransitionSystem.runFrom next (start 3 fun _ => none) oneClient).MonitorsAll := by
  apply (monitors_all_unless_no_slot_or_known_pid _).1
  apply TransitionSystem.reachableVia_runFrom
  . exact .init ⟨3, by decide, _, rfl⟩
  . refine ⟨trivial, fresh_start, rfl, ?_⟩
    refine ⟨fun _ _ _ => by decide, trivial, rfl, ?_⟩
    refine ⟨trivial, trivial, rfl, ?_⟩
    refine ⟨?_, trivial, by decide, trivial⟩
    intro c data hc hdata _
    cases hc
    cases hdata
    decide

structure Crowd (net : Connections) (k : Nat) : Prop where
  socket : net.server.connectionSocket = 3
  free : net.server.monitorFdSet.count (-1) + k = 30
  pid : ∀ fd c, net.connections fd = some c → fd < 4 + k ∧ c.pid = fd

variable {k : Nat}

theorem Crowd.fresh (h : net.Crowd k) : net.Fresh (4 + k) (4 + k) := by
  have hfree := h.free
  constructor
  . rw [Option.eq_none_iff_forall_ne_some]
    intro c hc
    have := (h.pid _ c hc).1
    omega
  . omega
  . rw [h.socket]
    omega
  . omega
  . omega
  . intro fd c hc _
    have := h.pid fd c hc
    omega

def join (net : Connections) (fd : Int) : Connections :=
  { net.set fd { Connection.connect fd with accepted := true } with
    server := { net.server with monitorFdSet := addToMonitorFdSet net.server.monitorFdSet fd } }

theorem accept_connect (net : Connections) (fd : Int) :
    (net.set fd (.connect fd)).accept fd [] [] = some (net.join fd) := by
  unfold accept
  rw [set_connections, if_pos rfl]
  simp [Connection.connect, set, join, Server.accept]

theorem Crowd.join (h : net.Crowd k) (hk : k < 30) : (net.join (4 + k)).Crowd (k + 1) := by
  have hfree := h.free
  constructor
  . exact h.socket
  . have hslot : -1 ∈ net.server.monitorFdSet := by
      rw [← List.count_pos_iff]
      omega
    have hcount := count_replaceFirst (4 + k) (-1) hslot
    rw [if_pos rfl, if_neg (by omega)] at hcount
    simp only [Connections.join, addToMonitorFdSet]
    omega
  . intro fd c hc
    simp only [Connections.join, set_connections] at hc
    split at hc
    . cases hc
      simp only [Connection.connect]
      omega
    . have := h.pid fd c hc
      omega

theorem Crowd.reachable_connect (h : net.Crowd k) (hreach : system.Reachable net) :
    system.Reachable (net.set (4 + k) (.connect (4 + k))) :=
  .step (i := .connect (4 + k) (4 + k)) hreach trivial ⟨h.fresh, rfl⟩

theorem Crowd.reachable_join (h : net.Crowd k) (hreach : system.Reachable net) :
    system.Reachable (net.join (4 + k)) :=
  .step (i := .accept (4 + k) [] []) (h.reachable_connect hreach) trivial
    ⟨trivial, accept_connect net (4 + k)⟩

theorem exists_crowd (hk : k ≤ 30) : ∃ net, system.Reachable net ∧ net.Crowd k := by
  induction k with
  | zero =>
    refine ⟨start 3 fun _ => none, .init ⟨3, by decide, _, rfl⟩, rfl, rfl, ?_⟩
    intro fd c hc
    cases hc
  | succ k ih =>
    have ⟨net, hreach, hcrowd⟩ := ih (by omega)
    exact ⟨_, hcrowd.reachable_join hreach, hcrowd.join (by omega)⟩

theorem Crowd.not_monitored (h : net.Crowd k) (hreach : system.Reachable net) (hk : k = 30) :
    ¬(net.join (4 + k)).Monitored := by
  have hnext : (net.set (4 + k) (.connect (4 + k))).next (.accept (4 + k) [] [])
      = some (net.join (4 + k)) := accept_connect net (4 + k)
  apply not_monitored_of_not_keeps (sound_of_reachable (h.reachable_connect hreach)) _ hnext
  intro hok
  have hslot : -1 ∈ net.server.monitorFdSet :=
    hok (.connect (4 + k)) ((set_connections _).trans (if_pos rfl)) (by simp [Connection.connect])
  rw [← List.count_pos_iff] at hslot
  have hfree := h.free
  omega

theorem not_monitorsAll_of_crowd : ¬∀ net, system.Reachable net → net.MonitorsAll := by
  intro h
  have ⟨net, hreach, hcrowd⟩ := exists_crowd (Nat.le_refl 30)
  have hall := h _ (hcrowd.reachable_join hreach)
  rw [monitorsAll_iff (sound_of_reachable (hcrowd.reachable_join hreach))] at hall
  apply hcrowd.not_monitored hreach rfl hall

end Connections

end RoutingTable
