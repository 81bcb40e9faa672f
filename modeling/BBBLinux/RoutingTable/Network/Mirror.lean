import BBBLinux.RoutingTable.Network.Replication
import BBBLinux.RoutingTable.Network.Flush
import BBBLinux.RoutingTable.Network.Tells

/-!
This module contains the replication of both tables under every command of the console. FLUSH reaches
the clients beside their messages, so a client that still has to answer the signal mirrors the server by
the messages from after the last FLUSH alone.
-/

namespace RoutingTable

open CString

variable {U : Locals → Prop} {console : Console} {buffer line : Mem} {t t' : Tables} {c c' : Client}
  {u : Locals} {f : Tables → Tables} {flushes : Nat}

namespace Client

structure Mirrors (U : Locals → Prop) (flushes : Nat) (t : Tables) (c : Client) : Prop where
  alive : c.phase ≠ .exited
  tells : ∀ message ∈ c.unread, ∃ f, Tells U message.text f
  le : ∀ message ∈ c.unread, message.epoch ≤ flushes
  brings : c.pending = false → Brings U (c.unread.map Message.text) c.tables t
  bringsLater : c.pending = true →
    Brings U ((c.unread.filter (flushes ≤ ·.epoch)).map Message.text) .empty t

namespace Mirrors

theorem joined (ht : t.Reproducible U) (pid : Int) (bufferMac : Mem) (flushes : Nat) :
    ((Client.connected pid).receive (snapshot buffer bufferMac t) flushes).Mirrors U flushes t := by
  have hbrings := brings_snapshot ht buffer bufferMac
  have hunread : ((Client.connected pid).receive (snapshot buffer bufferMac t) flushes).unread
      = (snapshot buffer bufferMac t).map fun text => { text := text, epoch := flushes } :=
    unread_receive _ _
  constructor
  . simp [receive, connected]
  . intro message hmessage
    rw [hunread, List.mem_map] at hmessage
    obtain ⟨text, htext, heq⟩ := hmessage
    rw [← heq]
    exact hbrings.tells text htext
  . intro message hmessage
    rw [hunread, List.mem_map] at hmessage
    obtain ⟨text, _, heq⟩ := hmessage
    rw [← heq]
  . intro _
    have htexts : ((snapshot buffer bufferMac t).map
        fun text => ({ text := text, epoch := flushes } : Message)).map Message.text
          = snapshot buffer bufferMac t := by
      rw [List.map_map]
      exact List.map_id _
    rw [hunread, htexts]
    exact hbrings
  . intro hpending
    contradiction

theorem told (h : c.Mirrors U flushes t) (htells : Tells U line f) :
    (c.receive [line] flushes).Mirrors U flushes (f t) := by
  have hunread : (c.receive [line] flushes).unread = c.unread ++ [{ text := line, epoch := flushes }] :=
    unread_receive _ _
  constructor
  . exact h.alive
  . intro message hmessage
    rw [hunread, List.mem_append, List.mem_singleton] at hmessage
    cases hmessage with
    | inl hold => exact h.tells message hold
    | inr hnew =>
      rw [hnew]
      exact ⟨f, htells⟩
  . intro message hmessage
    rw [hunread, List.mem_append, List.mem_singleton] at hmessage
    cases hmessage with
    | inl hold => exact h.le message hold
    | inr hnew => rw [hnew]
  . intro hpending
    rw [hunread, List.map_append]
    exact (h.brings hpending).append htells
  . intro hpending
    rw [hunread, List.filter_append, List.map_append]
    have hlast : List.filter (fun message : Message => decide (flushes ≤ message.epoch))
        [{ text := line, epoch := flushes }] = [{ text := line, epoch := flushes }] := by
      simp
    rw [hlast]
    exact (h.bringsLater hpending).append htells

theorem kill (h : c.Mirrors U flushes t) (hrunning : c.phase = .running) :
    c.kill.Mirrors U (flushes + 1) .empty := by
  have hkill : c.kill = { c with pending := true } := by
    unfold Client.kill
    rw [hrunning]
  rw [hkill]
  constructor
  . exact h.alive
  . exact h.tells
  . intro message hmessage
    have hle := h.le message hmessage
    omega
  . intro hpending
    contradiction
  . intro _
    -- nothing was written after this FLUSH yet
    have hnone : c.unread.filter (fun message => decide (flushes + 1 ≤ message.epoch)) = [] := by
      rw [List.filter_eq_nil_iff]
      intro message hmessage
      have hle := h.le message hmessage
      simp only [decide_eq_true_eq]
      omega
    have hunread : { c with pending := true }.unread = c.unread := rfl
    rw [hunread, hnone]
    rfl

theorem of_eq (h : c.Mirrors U flushes t) (halive : c'.phase ≠ .exited)
    (hpending : c'.pending = c.pending) (hunread : c'.unread = c.unread)
    (htables : c'.tables = c.tables) : c'.Mirrors U flushes t := by
  constructor
  . exact halive
  . rw [hunread]
    exact h.tells
  . rw [hunread]
    exact h.le
  . rw [hunread, htables, hpending]
    exact h.brings
  . rw [hunread, hpending]
    exact h.bringsLater

theorem request (h : c.Mirrors U flushes t) (hu : U u)
    (hold : ∀ message, c.buffer = some message → c.pending = true → message.epoch < flushes)
    (hrequest : c.request u = some c') : c'.Mirrors U flushes t := by
  obtain ⟨message, hbuffer, hc'⟩ := request_eq_some hrequest
  have hunread := unread_eq_cons hbuffer
  obtain ⟨f, htells⟩ := h.tells message (by simp [hunread])
  rw [htells u hu] at hc'
  cases hc' with
  | inr hnone =>
    have hnone := hnone.1
    contradiction
  | inl hsome =>
    obtain ⟨tables, htables, hc'⟩ := hsome
    have hinbox : c'.unread = c.inbox := by
      rw [hc']
      rfl
    have hbrings := h.brings
    have hbringsLater := h.bringsLater
    rw [hunread] at hbrings hbringsLater
    constructor
    . rw [hc']
      exact h.alive
    . intro message' hmem
      rw [hinbox] at hmem
      apply h.tells
      simp [hunread, hmem]
    . intro message' hmem
      rw [hinbox] at hmem
      apply h.le
      simp [hunread, hmem]
    . intro hpending
      rw [hc'] at hpending
      obtain ⟨g, hg, hrest⟩ := hbrings hpending
      have hstep : tables = g c.tables := by
        have hsame := hg u hu c.tables
        rw [htells u hu] at hsame
        rw [← Option.some.inj htables, Option.some.inj hsame]
      rw [hinbox, hc', hstep]
      exact hrest
    . intro hpending
      rw [hc'] at hpending
      have hlt := hold message hbuffer hpending
      have hlater := hbringsLater hpending
      rw [List.filter_cons_of_neg (by simpa using hlt)] at hlater
      rw [hinbox]
      exact hlater

theorem handle (h : c.Mirrors U flushes t) (hworked : ∀ message ∈ c.unread, flushes ≤ message.epoch)
    (hhandle : c.handle flushes = some c') : c'.Mirrors U flushes t := by
  obtain ⟨_, hpending, hc'⟩ := handle_eq_some hhandle
  have hbrings := h.bringsLater hpending
  rw [List.filter_eq_self.mpr (by simpa using hworked)] at hbrings
  rw [hc']
  refine ⟨h.alive, h.tells, h.le, fun _ => hbrings, ?_⟩
  intro hpending
  contradiction

end Mirrors

end Client

namespace Network

variable {net net' : Network} {l : Label} {fd : Int}

/--
FLUSH waits until every client has its handler and is known by its PID, and a client answers the signal
between the messages from before it and those from after it.
-/
def Orderly (U : Locals → Prop) (net : Network) : Label → Prop
  | .accept _ _ _ _ => net.accepted < 30
  | .console console buffer =>
    ((parseLine console.locals buffer).retVal = true →
      (parseLine console.locals buffer).opcode.isCommand = true →
        SureLine U console buffer
          ∧ ¬net.server.OneByteReply console (parseLine console.locals buffer))
    ∧ (isFlush console buffer = true → ∀ fd c, net.clients fd = some c →
        c.phase = .running ∧ c.pid ∈ net.server.clientPidSet)
  | .request fd u => U u ∧ ∀ c message, net.clients fd = some c → c.buffer = some message →
      c.pending = true → message.epoch < net.flushes
  | .handle fd => ∀ c, net.clients fd = some c → WorkedOff net.flushes c
  | _ => True

structure Mirroring (U : Locals → Prop) (net : Network) : Prop where
  reproducible : net.server.Reproducible U
  registry : net.Registry
  mirrors : ∀ fd c, net.clients fd = some c → c.Mirrors U net.flushes net.server.toTables

namespace Mirroring

theorem start {connectionSocket : Int} {shm : Shm} (h : 0 < connectionSocket) :
    (Network.start connectionSocket shm).Mirroring U := by
  refine ⟨.empty, .start h, ?_⟩
  intro fd c hc
  contradiction

theorem messagesFor_told (h : net.Registry) (hc : net.clients fd = some c) :
    messagesFor fd (net.server.clientFds.map fun fd => (fd, buffer)) = [buffer] := by
  obtain ⟨hpos, hne⟩ := h.descriptor fd c hc
  apply Server.messagesFor_clientFds
  rw [Server.count_clientFds hpos hne, h.monitored fd hpos hne, hc]
  rfl

theorem reproducible_next (hU : MaskByText U) (h : net.Mirroring U) (hok : net.Orderly U l)
    (hnext : net.next l = some net') : net'.server.Reproducible U := by
  cases l with
  | console console buffer =>
    simp only [Network.next, Option.some.injEq] at hnext
    have hserver : net'.server = (net.server.console console buffer).1 := by
      rw [← hnext]
      rfl
    rw [hserver]
    cases net.server.ran hU hok.1 with
    | quiet htables =>
      rw [htables]
      exact h.reproducible
    | told _ _ hkeeps => exact hkeeps h.reproducible
    | flushed htables =>
      rw [htables]
      exact .empty
  | _ =>
    rw [(quiet_of_next hnext (by simp)).1]
    exact h.reproducible

theorem mirrors_console (hU : MaskByText U) (h : net.Mirroring U)
    (hok : net.Orderly U (.console console buffer)) (hc : net.clients fd = some c) :
    let net' := net.console console buffer
    Client.Mirrors U net'.flushes net'.server.toTables
      (Client.receive (if c.pid ∈ (net.server.console console buffer).2.kills then c.kill else c)
        (messagesFor fd (net.server.console console buffer).2.writes) net.flushes) := by
  have hmirrors := h.mirrors fd c hc
  have hserver : (net.console console buffer).server = (net.server.console console buffer).1 := rfl
  have hflushes : (net.console console buffer).flushes
      = if isFlush console buffer = true then net.flushes + 1 else net.flushes := rfl
  dsimp only
  rw [hserver, hflushes]
  cases net.server.ran hU hok.1 with
  | quiet htables hwrites hkills hflush =>
    rw [htables, hwrites, hkills, hflush, if_neg List.not_mem_nil, if_neg Bool.false_ne_true]
    exact (Client.receive_nil net.flushes).symm ▸ hmirrors
  | told f htells _ htables hwrites hkills hflush =>
    rw [htables, hwrites, hkills, hflush, if_neg List.not_mem_nil, if_neg Bool.false_ne_true]
    rw [messagesFor_told h.registry hc]
    exact hmirrors.told htells
  | flushed htables hwrites hkills hflush =>
    obtain ⟨hrunning, hpid⟩ := hok.2 hflush fd c hc
    have hsignalled : c.pid ∈ net.server.clientPidSet.filter (· ≠ -1) := by
      rw [List.mem_filter]
      have hpos := h.registry.pid_pos fd c hc
      refine ⟨hpid, ?_⟩
      simp only [decide_eq_true_eq]
      omega
    rw [htables, hwrites, hkills, hflush, if_pos hsignalled, if_pos rfl]
    exact (Client.receive_nil net.flushes).symm ▸ hmirrors.kill hrunning

theorem mirrors_next (hU : MaskByText U) (h : net.Mirroring U) (hok : net.Orderly U l)
    (hnext : net.next l = some net') (hc' : net'.clients fd = some c') :
    c'.Mirrors U net'.flushes net'.server.toTables := by
  have hquiet (hl : ∀ console buffer, l ≠ .console console buffer)
      (hmirrors : c'.Mirrors U net.flushes net.server.toTables) :
      c'.Mirrors U net'.flushes net'.server.toTables := by
    obtain ⟨htables, hflushes⟩ := quiet_of_next hnext hl
    rw [htables, hflushes]
    exact hmirrors
  cases evolves hnext hc' with
  | joined pid buffer bufferMac hc' =>
    apply hquiet (by simp)
    rw [hc']
    exact .joined h.reproducible pid bufferMac net.flushes
  | informed console buffer c hc hc' =>
    simp only [Network.next, Option.some.injEq] at hnext
    rw [← hnext, hc']
    exact h.mirrors_console hU hok hc
  | registered c pid toServer hc htoServer hc' =>
    apply hquiet (by simp)
    rw [hc']
    exact (h.mirrors fd c hc).of_eq (h.mirrors fd c hc).alive rfl rfl rfl
  | announced c hc hc' =>
    obtain ⟨_, heq⟩ := Client.announce_eq_some hc'
    apply hquiet (by simp)
    rw [heq]
    exact (h.mirrors fd c hc).of_eq (by simp) rfl rfl rfl
  | installed c hc hc' =>
    obtain ⟨_, heq⟩ := Client.install_eq_some hc'
    apply hquiet (by simp)
    rw [heq]
    exact (h.mirrors fd c hc).of_eq (by simp) rfl rfl rfl
  | read c hc hc' =>
    obtain ⟨_, _, _, _, heq⟩ := Client.read_eq_some hc'
    have hunread := Client.unread_of_read hc'
    apply hquiet (by simp)
    rw [heq] at hunread ⊢
    exact (h.mirrors fd c hc).of_eq (h.mirrors fd c hc).alive rfl hunread rfl
  | requested c u hc hc' =>
    apply hquiet (by simp)
    exact (h.mirrors fd c hc).request hok.1 (fun message => hok.2 c message hc) hc'
  | handled c hc hc' =>
    apply hquiet (by simp)
    exact (h.mirrors fd c hc).handle (hok c hc) hc'
  | same hc hl => exact hquiet hl (h.mirrors fd c' hc)

theorem next (hU : MaskByText U) (h : net.Mirroring U) (hok : net.Orderly U l)
    (hpossible : net.Possible l) (hnext : net.next l = some net') : net'.Mirroring U := by
  constructor
  . apply h.reproducible_next hU hok hnext
  . apply h.registry.next (fun fd c hc => (h.mirrors fd c hc).alive) hpossible hnext
    . intro fd pid buffer bufferMac hl
      rw [hl] at hok
      exact hok
    . intro console buffer _
      apply Server.console_sameClients
  . intro fd c' hc'
    apply h.mirrors_next hU hok hnext hc'

end Mirroring

section Flushed

theorem Registry.mem_clientFds (h : net.Registry) (hc : net.clients fd = some c) :
    fd ∈ net.server.clientFds := by
  obtain ⟨hpos, hne⟩ := h.descriptor fd c hc
  rw [← List.count_pos_iff, Server.count_clientFds hpos hne, h.monitored fd hpos hne, hc]
  exact Nat.zero_lt_one

end Flushed

end Network

end RoutingTable
