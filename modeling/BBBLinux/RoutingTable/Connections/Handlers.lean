import BBBLinux.RoutingTable.Connections.Lemmas

/-!
This module contains the signals that FLUSH sends. A client writes its PID before it installs its
handlers, so SIGUSR1 may arrive while it still ends the process.
-/

namespace RoutingTable

open CString

theorem Server.console_kills (s : Server) (console : Console) (buffer : Mem) :
    (s.console console buffer).2.kills =
      if isFlush console buffer = true then s.clientPidSet.filter (· ≠ -1) else [] := by
  unfold Server.console isFlush
  dsimp only
  rw [parseLine_copy]
  generalize parseLine console.locals buffer = parsed
  split
  . next hret =>
    simp only [hret, Bool.true_and, decide_eq_true_eq]
    by_cases hcmd : parsed.opcode.isCommand = true
    . rw [dispatch_kills hcmd, if_neg]
      intro hflush
      rw [hflush] at hcmd
      contradiction
    . have ⟨retVal, isRtMac, ⟨opcode, data⟩, macAddr⟩ := parsed
      cases opcode with
      | «show» => rfl
      | flush => rfl
      | quit => rfl
      | _ => exact absurd rfl hcmd
  . next hret =>
    rw [if_neg]
    simp [hret]

namespace Connections

variable {net net' : Connections} {fd pid : Int} {c : Connection} {e : Event}

def Handles (net : Connections) (pid : Int) : Prop :=
  ∀ fd c, net.connections fd = some c → c.stage ≠ .left → c.pid = pid → c.stage = .running

def SparesClients (net : Connections) (console : Console) (buffer : Mem) : Prop :=
  ∀ pid ∈ (net.server.console console buffer).2.kills, net.Handles pid

def Ready (net : Connections) : Event → Prop
  | .connect _ pid => pid ∉ net.server.clientPidSet
  | .read fd count => ∀ c data, net.connections fd = some c → c.receive count = some data →
    -- the PID is new and finds a slot
    checkAvailablePid net.server.clientPidSet (readPid data) = true →
    -1 ∈ net.server.clientPidSet → net.Handles (readPid data)
  | _ => True

def FlushSafe (net : Connections) : Prop :=
  ∀ pid ∈ net.server.clientPidSet, pid ≠ -1 → net.Handles pid

theorem FlushSafe.sparesClients (h : net.FlushSafe) (console : Console) (buffer : Mem) :
    net.SparesClients console buffer := by
  intro pid hpid
  rw [Server.console_kills] at hpid
  split at hpid
  . simp only [List.mem_filter, decide_eq_true_eq] at hpid
    exact h pid hpid.1 hpid.2
  . contradiction

def flushLine : Mem :=
  text "F\n"

theorem flushSafe_of_sparesClients (h : net.SparesClients (.replying "") flushLine) :
    net.FlushSafe := by
  intro pid hpid hne
  apply h pid
  have hflush : isFlush (.replying "") flushLine = true := by decide
  rw [Server.console_kills, if_pos hflush]
  simp [hpid, hne]

namespace FlushSafe

theorem of_server (h : net.FlushSafe) (hserver : net'.server.clientPidSet = net.server.clientPidSet)
    (hhandles : ∀ pid ∈ net.server.clientPidSet, net.Handles pid → net'.Handles pid) :
    net'.FlushSafe := by
  intro pid hpid hne
  rw [hserver] at hpid
  apply hhandles pid hpid (h pid hpid hne)

theorem handles_set (c' : Connection) (hc : net.connections fd = some c) (hpid : c'.pid = c.pid)
    (hstage : c'.stage ≠ .left → c.stage ≠ .left ∧ (c.stage = .running → c'.stage = .running))
    (h : net.Handles pid) : (net.set fd c').Handles pid := by
  intro fd' c'' hc'' hlive heq
  rw [set_connections] at hc''
  split at hc''
  . cases hc''
    have ⟨hlive, hrunning⟩ := hstage hlive
    rw [hpid] at heq
    exact hrunning (h fd c hc hlive heq)
  . exact h fd' c'' hc'' hlive heq

theorem next (h : net.FlushSafe) (hok : net.Ready e) (hnext : net.next e = some net') :
    net'.FlushSafe := by
  cases e with
  | connect fd pid =>
    simp only [Connections.next, Option.some.injEq] at hnext
    rw [← hnext]
    refine h.of_server rfl ?_
    intro pid' hpid' hhandles fd' c hc hlive heq
    rw [set_connections] at hc
    split at hc
    . cases hc
      have heq : pid = pid' := heq
      rw [heq] at hok
      exact absurd hpid' hok
    . exact hhandles fd' c hc hlive heq
  | client fd action =>
    obtain ⟨c, c', hc, hacts, hnet'⟩ := client_eq_some hnext
    rw [hnet']
    refine h.of_server rfl ?_
    intro pid _
    apply handles_set c' hc hacts.pid
    intro hlive
    refine ⟨hacts.not_left, ?_⟩
    intro hrunning
    cases hacts with
    | announced hstage => simp [hstage] at hrunning
    | installed stage hstage => cases hstage <;> simp_all
    | goodbye hstage => contradiction
    | gone hstage => contradiction
  | accept fd buffer bufferMac =>
    obtain ⟨c, hc, _, hnet'⟩ := accept_eq_some hnext
    rw [hnet']
    refine h.of_server rfl ?_
    intro pid _ hhandles
    exact handles_set { c with accepted := true } hc rfl (fun hlive => ⟨hlive, id⟩) hhandles
  | console console buffer =>
    simp only [Connections.next, Option.some.injEq] at hnext
    rw [← hnext]
    have hserver : net.server.SameClients (net.console console buffer).server :=
      Server.console_sameClients
    refine h.of_server hserver.clientPidSet ?_
    intro pid _ hhandles fd c hc hlive heq
    exact hhandles fd c (console_live hc hlive) hlive heq
  | read fd count =>
    obtain ⟨c, data, hc, hdata, _, hnet'⟩ := read_eq_some hnext
    rw [hnet']
    have hread {pid : Int} (hhandles : net.Handles pid) :
        (net.set fd { c with unread := c.unread.drop count }).Handles pid :=
      handles_set { c with unread := c.unread.drop count } hc rfl (fun hlive => ⟨hlive, id⟩) hhandles
    intro pid hpid hne
    apply hread
    simp only [Server.clientData] at hpid
    split at hpid
    . next havailable =>
      by_cases hslot : -1 ∈ net.server.clientPidSet
      . cases mem_replaceFirst hpid with
        | inl heq =>
          rw [heq]
          apply hok c data hc hdata havailable hslot
        | inr hmem => exact h pid hmem hne
      . simp only [addToPidSet, replaceFirst_of_notMem hslot] at hpid
        exact h pid hpid hne
    . exact h pid ((mem_replaceFirst hpid).resolve_left hne) hne

end FlushSafe

theorem not_flushSafe_of_not_ready (h : net.Sound) (hpossible : net.Possible e) (hok : ¬net.Ready e)
    (hnext : net.next e = some net') : ¬net'.FlushSafe := by
  intro hsafe
  cases e with
  | connect fd pid =>
    simp only [Ready, not_not] at hok
    simp only [Connections.next, Option.some.injEq] at hnext
    rw [← hnext] at hsafe
    have hpos := hpossible.pid_pos
    have hstage := hsafe pid hok (by omega) fd (.connect pid) ((set_connections _).trans (if_pos rfl))
    simp [Connection.connect] at hstage
  | read fd count =>
    simp only [Ready, not_forall] at hok
    obtain ⟨c, data, hc, hdata, havailable, hslot, hhandles⟩ := hok
    obtain ⟨c', data', hc', hdata', hmem, hnet'⟩ := read_eq_some hnext
    rw [hc] at hc'
    cases hc'
    rw [hdata] at hdata'
    cases hdata'
    apply hhandles
    intro fd' c' hc' hlive hpid
    have hknown : readPid data ∈ net'.server.clientPidSet := by
      rw [hnet']
      simp only [Server.clientData, if_pos havailable]
      apply new_mem_replaceFirst hslot
    have hne : readPid data ≠ -1 := by
      have := h.pid fd' c' hc'
      omega
    by_cases hfd : fd' = fd
    . rw [hfd, hc] at hc'
      cases hc'
      have hset : net'.connections fd = some { c with unread := c.unread.drop count } := by
        rw [hnet']
        apply (set_connections _).trans (if_pos rfl)
      exact hsafe _ hknown hne fd { c with unread := c.unread.drop count } hset hlive hpid
    . have hset : net'.connections fd' = some c' := by
        rw [hnet']
        apply ((set_connections _).trans (if_neg hfd)).trans hc'
      exact hsafe _ hknown hne fd' c' hset hlive hpid
  | _ => exact hok trivial

theorem flush_spares_clients_unless_not_ready (net : Connections) :
    (system.ReachableVia Ready net → ∀ console buffer, net.SparesClients console buffer)
      ∧ ∀ e net', system.Reachable net → ¬net.Ready e → system.step net e net' →
          ∃ console buffer, ¬net'.SparesClients console buffer := by
  constructor
  . intro h
    have hsafe : net.FlushSafe := by
      apply h.invariant (P := FlushSafe)
      . intro net ⟨connectionSocket, _, shm, hnet⟩ pid _ _ fd c hc
        rw [hnet] at hc
        contradiction
      . intro net e net' hsafe hok ⟨_, hnext⟩
        apply hsafe.next hok hnext
    apply hsafe.sparesClients
  . intro e net' h hok hstep
    refine ⟨.replying "", flushLine, ?_⟩
    intro hspares
    apply not_flushSafe_of_not_ready (sound_of_reachable h) hstep.1 hok hstep.2
    apply flushSafe_of_sparesClients hspares

def readyClient : List Event :=
  [.connect 4 100, .accept 4 [] [], .client 4 .writePid, .client 4 .installSigint,
    .client 4 .installSigusr1, .read 4 4]

theorem flush_spares_clients_unless_not_ready_readyClient :
    let net := TransitionSystem.runFrom next (start 3 fun _ => none) readyClient
    (net.server.console (.replying "") flushLine).2.kills = [100]
      ∧ net.SparesClients (.replying "") flushLine := by
  refine ⟨by decide +kernel, ?_⟩
  apply (flush_spares_clients_unless_not_ready _).1
  apply TransitionSystem.reachableVia_runFrom
  . exact .init ⟨3, by decide, _, rfl⟩
  . have hnew : 100 ∉ initSet := by decide
    refine ⟨hnew, fresh_start, rfl, ?_⟩
    refine ⟨trivial, trivial, rfl, ?_⟩
    refine ⟨trivial, trivial, rfl, ?_⟩
    refine ⟨trivial, trivial, rfl, ?_⟩
    refine ⟨trivial, trivial, rfl, ?_⟩
    refine ⟨?_, trivial, by decide, trivial⟩
    intro _ _ _ _ _ _ fd c hc _ _
    by_cases hfd : fd = 4
    . rw [hfd] at hc
      cases hc
      rfl
    . simp [Connections.next, client, accept, Connection.act, set, start, Connection.connect, hfd] at hc

theorem not_sparesClients_of_oneClient :
    ¬∀ net, system.Reachable net → ∀ console buffer, net.SparesClients console buffer := by
  intro h
  have hkill : 100 ∈ ((TransitionSystem.runFrom next (start 3 fun _ => none) oneClient).server.console
      (.replying "") flushLine).2.kills := by
    decide +kernel
  have hstage := h _ reachable_oneClient (.replying "") flushLine 100 hkill 4
    { pid := 100, stage := .announced, accepted := true, unread := [] } rfl (by decide) rfl
  contradiction

end Connections

end RoutingTable
