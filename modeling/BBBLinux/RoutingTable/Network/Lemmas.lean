import BBBLinux.RoutingTable.Network.Impl
import BBBLinux.RoutingTable.Peers.Snapshot

/-!
This module contains what a step of the network may do to the server and to a single client.
-/

namespace RoutingTable

open CString

namespace Client

variable {c c' : Client} {u : Locals} {flushes : Nat}

theorem unread_receive (texts : List Mem) (epoch : Nat) :
    (c.receive texts epoch).unread
      = c.unread ++ texts.map fun text => { text := text, epoch := epoch } := by
  simp [unread, receive]

theorem receive_nil (epoch : Nat) : c.receive [] epoch = c := by
  simp [receive]

theorem announce_eq_some (h : c.announce = some c') : c.phase = .connected ∧
    c' = { c with phase := .announced, toServer := c.toServer ++ [c.pid] } := by
  unfold announce at h
  split at h
  . next hphase => exact ⟨hphase, (Option.some.inj h).symm⟩
  . contradiction

theorem install_eq_some (h : c.install = some c') :
    c.phase = .announced ∧ c' = { c with phase := .running } := by
  unfold install at h
  split at h
  . next hphase => exact ⟨hphase, (Option.some.inj h).symm⟩
  . contradiction

theorem read_eq_some (h : c.read = some c') : ∃ message inbox, c.buffer = none
    ∧ c.inbox = message :: inbox ∧ c' = { c with buffer := some message, inbox := inbox } := by
  unfold read at h
  split at h
  . next message inbox _ hbuffer hinbox =>
    exact ⟨message, inbox, hbuffer, hinbox, (Option.some.inj h).symm⟩
  . contradiction

theorem unread_of_read (h : c.read = some c') : c'.unread = c.unread := by
  have ⟨message, inbox, hbuffer, hinbox, hc'⟩ := read_eq_some h
  rw [hc']
  simp [unread, hbuffer, hinbox]

theorem request_eq_some (h : c.request u = some c') : ∃ message, c.buffer = some message ∧
    ((∃ tables, RoutingTable.request c.tables u message.text = some tables ∧ c' =
        { c with
          buffer := none
          tables := tables
          born := c.born ++ (tables.head.drop c.tables.head.length).map fun info =>
            (info, message.epoch) })
      ∨ RoutingTable.request c.tables u message.text = none
        ∧ c' = { c with buffer := none, phase := .exited }) := by
  unfold request at h
  split at h
  . next message _ hbuffer =>
    refine ⟨message, hbuffer, ?_⟩
    split at h
    . next tables htables => exact .inl ⟨tables, htables, (Option.some.inj h).symm⟩
    . next htables => exact .inr ⟨htables, (Option.some.inj h).symm⟩
  . contradiction

theorem handle_eq_some (h : c.handle flushes = some c') : c.phase = .running ∧ c.pending = true ∧
    c' = { c with
      pending := false, tables := signalHandler c.tables, handled := flushes, born := [] } := by
  unfold handle at h
  split at h
  . next hpending => exact ⟨hpending.1, hpending.2, (Option.some.inj h).symm⟩
  . contradiction

end Client

namespace Network

variable {net net' : Network} {l : Label} {fd fd' pid : Int} {c c' : Client} {console : Console}
  {buffer bufferMac : Mem}

theorem setClient_clients (c : Client) :
    (net.setClient fd c).clients fd' = if fd' = fd then some c else net.clients fd' := by
  simp only [setClient, Function.update_apply]

theorem onClient_eq_some {step : Client → Option Client} (h : net.onClient fd step = some net') :
    ∃ c c', net.clients fd = some c ∧ step c = some c' ∧ net' = net.setClient fd c' := by
  unfold onClient at h
  rw [Option.bind_eq_some_iff] at h
  have ⟨c, hc, h⟩ := h
  rw [Option.map_eq_some_iff] at h
  have ⟨c', hstep, hnet⟩ := h
  exact ⟨c, c', hc, hstep, hnet.symm⟩

theorem clientData_eq_some (h : net.clientData fd = some net') :
    ∃ c pid toServer, net.clients fd = some c ∧ c.toServer = pid :: toServer ∧ net' =
      { net.setClient fd { c with toServer := toServer } with
        server := net.server.clientData fd pid } := by
  unfold clientData at h
  split at h
  . next c hc =>
    split at h
    . next pid toServer htoServer =>
      split at h
      . exact ⟨c, pid, toServer, hc, htoServer, (Option.some.inj h).symm⟩
      . contradiction
    . contradiction
  . contradiction

theorem messagesFor_map (fd fd' : Int) (texts : List Mem) :
    messagesFor fd' (texts.map fun text => (fd, text)) = if fd' = fd then texts else [] := by
  unfold messagesFor
  split
  . next heq =>
    rw [heq, List.filter_eq_self.mpr, List.map_map]
    . apply List.map_id _
    . simp
  . next hne =>
    rw [List.filter_eq_nil_iff.mpr]
    . rfl
    . simp
      omega

inductive Evolves (net : Network) (fd : Int) (c' : Client) : Label → Prop where
  | joined (pid : Int) (buffer bufferMac : Mem) (hc' : c' = (Client.connected pid).receive
      (snapshot buffer bufferMac net.server.toTables) net.flushes) :
      Evolves net fd c' (.accept fd pid buffer bufferMac)
  | informed (console : Console) (buffer : Mem) (c : Client) (hc : net.clients fd = some c)
      (hc' : c' = Client.receive
        (if c.pid ∈ (net.server.console console buffer).2.kills then c.kill else c)
        (messagesFor fd (net.server.console console buffer).2.writes) net.flushes) :
      Evolves net fd c' (.console console buffer)
  | registered (c : Client) (pid : Int) (toServer : List Int) (hc : net.clients fd = some c)
      (htoServer : c.toServer = pid :: toServer) (hc' : c' = { c with toServer := toServer }) :
      Evolves net fd c' (.clientData fd)
  | announced (c : Client) (hc : net.clients fd = some c) (hc' : c.announce = some c') :
      Evolves net fd c' (.announce fd)
  | installed (c : Client) (hc : net.clients fd = some c) (hc' : c.install = some c') :
      Evolves net fd c' (.install fd)
  | read (c : Client) (hc : net.clients fd = some c) (hc' : c.read = some c') :
      Evolves net fd c' (.read fd)
  | requested (c : Client) (u : Locals) (hc : net.clients fd = some c)
      (hc' : c.request u = some c') : Evolves net fd c' (.request fd u)
  | handled (c : Client) (hc : net.clients fd = some c) (hc' : c.handle net.flushes = some c') :
      Evolves net fd c' (.handle fd)
  | same {l : Label} (hc : net.clients fd = some c')
      (hl : ∀ console buffer, l ≠ .console console buffer) : Evolves net fd c' l

theorem evolves_of_onClient {step : Client → Option Client}
    (h : net.onClient fd' step = some net') (hc' : net'.clients fd = some c')
    (hl : ∀ console buffer, l ≠ .console console buffer)
    (hstep : ∀ c, fd = fd' → net.clients fd = some c → step c = some c' → Evolves net fd c' l) :
    Evolves net fd c' l := by
  have ⟨c, c'', hc, hc'', hnet'⟩ := onClient_eq_some h
  rw [hnet', setClient_clients] at hc'
  split at hc'
  . next heq =>
    rw [← heq] at hc
    apply hstep c heq hc
    rw [hc'', hc']
  . exact .same hc' hl

theorem evolves (h : net.next l = some net') (hc' : net'.clients fd = some c') :
    Evolves net fd c' l := by
  cases l with
  | accept fd' pid buffer bufferMac =>
    simp only [next, Option.some.injEq] at h
    rw [← h] at hc'
    simp only [accept, deliver, Option.map_eq_some_iff, setClient_clients] at hc'
    have ⟨c, hc, hc'⟩ := hc'
    simp only [Server.accept] at hc'
    rw [messagesFor_map] at hc'
    split at hc
    . next heq =>
      cases heq
      rw [if_pos rfl] at hc'
      cases hc
      exact .joined pid buffer bufferMac hc'.symm
    . next hne =>
      rw [if_neg hne, Client.receive_nil] at hc'
      cases hc'
      exact .same hc (by simp)
  | console console buffer =>
    simp only [next, Option.some.injEq] at h
    rw [← h] at hc'
    simp only [Network.console, deliver, signal, Option.map_map, Option.map_eq_some_iff] at hc'
    have ⟨c, hc, hc'⟩ := hc'
    exact .informed console buffer c hc hc'.symm
  | clientData fd' =>
    have ⟨c, pid, toServer, hc, htoServer, hnet'⟩ := clientData_eq_some h
    rw [hnet'] at hc'
    simp only [setClient_clients] at hc'
    split at hc'
    . next heq =>
      cases heq
      exact .registered c pid toServer hc htoServer (Option.some.inj hc').symm
    . exact .same hc' (by simp)
  | announce fd' =>
    apply evolves_of_onClient h hc' (by simp)
    intro c heq hc hstep
    cases heq
    exact .announced c hc hstep
  | install fd' =>
    apply evolves_of_onClient h hc' (by simp)
    intro c heq hc hstep
    cases heq
    exact .installed c hc hstep
  | read fd' =>
    apply evolves_of_onClient h hc' (by simp)
    intro c heq hc hstep
    cases heq
    exact .read c hc hstep
  | request fd' u =>
    apply evolves_of_onClient h hc' (by simp)
    intro c heq hc hstep
    cases heq
    exact .requested c u hc hstep
  | handle fd' =>
    apply evolves_of_onClient h hc' (by simp)
    intro c heq hc hstep
    cases heq
    exact .handled c hc hstep

theorem quiet_of_next (h : net.next l = some net')
    (hl : ∀ console buffer, l ≠ .console console buffer) :
    net'.server.toTables = net.server.toTables ∧ net'.flushes = net.flushes := by
  have hclient {fd : Int} {step : Client → Option Client} (h : net.onClient fd step = some net') :
      net'.server.toTables = net.server.toTables ∧ net'.flushes = net.flushes := by
    have ⟨_, _, _, _, hnet'⟩ := onClient_eq_some h
    rw [hnet']
    exact ⟨rfl, rfl⟩
  cases l with
  | accept fd' pid buffer bufferMac =>
    simp only [next, Option.some.injEq] at h
    rw [← h]
    exact ⟨rfl, rfl⟩
  | console console buffer => exact absurd rfl (hl console buffer)
  | clientData fd' =>
    have ⟨_, _, _, _, _, hnet'⟩ := clientData_eq_some h
    rw [hnet']
    simp only [Server.clientData]
    split <;> exact ⟨rfl, rfl⟩
  | announce fd' => exact hclient h
  | install fd' => exact hclient h
  | read fd' => exact hclient h
  | request fd' u => exact hclient h
  | handle fd' => exact hclient h

def Scheduled (ok : Network → Label → Prop) (net : Network) : List Label → Prop
  | [] => True
  | l :: ls => ok net l ∧ net.Possible l ∧ (net.next l).isSome = true
    ∧ Scheduled ok ((net.next l).getD net) ls

theorem reachableVia_run {ok : Network → Label → Prop} {ls : List Label}
    (h : system.ReachableVia ok net) (hls : Scheduled ok net ls) :
    system.ReachableVia ok (net.run ls) := by
  induction ls generalizing net with
  | nil => exact h
  | cons l ls ih =>
    have ⟨hok, hpossible, hsome, hls⟩ := hls
    unfold run
    apply ih _ hls
    apply TransitionSystem.ReachableVia.step h hok
    refine ⟨hpossible, ?_⟩
    rw [Option.isSome_iff_exists] at hsome
    have ⟨net', hnext⟩ := hsome
    rw [hnext, Option.getD_some]

end Network

end RoutingTable
