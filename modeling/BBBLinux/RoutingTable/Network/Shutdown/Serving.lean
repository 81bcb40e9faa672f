import BBBLinux.RoutingTable.Network.Shutdown.Impl
import BBBLinux.RoutingTable.Network.Flush
import BBBLinux.RoutingTable.Network.Tells

/-!
This module contains the service before SIGINT: no message that the server writes ends a client or
empties its tables, and no client is monitored at two slots.
-/

namespace RoutingTable

open CString

/--
A message that neither ends a client nor empties its tables.
-/
def Ordinary (line : Mem) : Prop :=
  ∀ u, (parseLine u line).opcode ≠ .quit ∧ (parseLine u line).opcode ≠ .flush

variable {u v : Locals} {line buffer after : Mem} {t : Tables} {s : Server} {console : Console}
  {write : Int × Mem} {c c' : Client}

section Messages

theorem ordinary_of (h : (parseLine u line).opcode ≠ .quit) (h' : (parseLine u line).opcode ≠ .flush) :
    Ordinary line := by
  intro v
  rw [opcode_parseLine v u]
  exact ⟨h, h'⟩

theorem ordinary_of_create (h : firstLetter line = 'C'.toUInt8) : Ordinary line := by
  intro u
  rw [opcode_of_create h]
  simp

theorem request_isSome (h : Ordinary line) : (request t u line).isSome = true := by
  have hquit : (parseLine u line).msgInfo.opcode ≠ .quit := (h u).1
  unfold request
  dsimp only
  split
  . cases hop : (parseLine u line).msgInfo.opcode with
    | quit => exact absurd hop hquit
    | «show» => rfl
    | flush => rfl
    | _ =>
      dsimp only
      split
      . split <;> rfl
      . split <;> rfl
  . rfl

theorem ordinary_of_writes (h : write ∈ (s.console console buffer).2.writes) : Ordinary write.2 := by
  rw [Server.console_writes h]
  by_cases hret : (parseLine console.locals buffer).retVal = true
  . rw [Server.console_eq hret] at h
    dsimp only at h
    split at h
    . next hretVal =>
      apply ordinary_of (u := console.locals)
      . intro hop
        have hopcode : (parseLine console.locals buffer).msgInfo.opcode = .quit := hop
        simp only [Server.dispatch, hopcode] at hretVal
        exact absurd (show (0 : Int) = 1 from hretVal) (by decide)
      . intro hop
        have hopcode : (parseLine console.locals buffer).msgInfo.opcode = .flush := hop
        simp only [Server.dispatch, hopcode] at hretVal
        exact absurd (show (0 : Int) = 1 from hretVal) (by decide)
    . contradiction
  . unfold Server.console at h
    dsimp only at h
    rw [parseLine_copy, if_neg hret] at h
    contradiction

theorem cstr_quitMessage : cstr (quitMessage after) = text "Q" := by
  unfold quitMessage
  rw [cstr_bytes, cstr_append_zero (by decide)]
  rfl

theorem request_quitMessage : request t u (quitMessage after) = none := by
  have hline : parseLine u (quitMessage after) = parseRoute .quit true (.start u) .zero := by
    rw [parseLine_eq, cstr_quitMessage]
    rfl
  unfold request
  rw [hline]
  rfl

end Messages
namespace Network

variable {net net' : Network} {l : Label} {fd fd' pid : Int} {done : Nat}

/--
Every message so far leaves its client running, and no client is monitored at two slots.
-/
structure Serving (net : Network) : Prop where
  ordinary : ∀ fd c, net.clients fd = some c → ∀ message ∈ c.unread, Ordinary message.text
  single : ∀ fd, fd ≠ -1 → fd ≠ 0 → fd ≠ net.server.connectionSocket →
    net.server.monitorFdSet.count fd ≤ 1
  absent : ∀ fd, fd ≠ -1 → fd ≠ 0 → fd ≠ net.server.connectionSocket → net.clients fd = none →
    net.server.monitorFdSet.count fd = 0

theorem count_replaceFirst_le {slots : List Int} (hne : fd ≠ -1) :
    (replaceFirst fd' (-1) slots).count fd ≤ slots.count fd := by
  by_cases hmem : fd' ∈ slots
  . have hcount := count_replaceFirst (-1) fd hmem
    rw [if_neg hne] at hcount
    omega
  . rw [replaceFirst_of_notMem hmem]

theorem count_addToMonitorFdSet_le (slots : List Int) (fd' : Int) (hne : fd ≠ -1) :
    (addToMonitorFdSet slots fd').count fd ≤ slots.count fd + if fd = fd' then 1 else 0 := by
  unfold addToMonitorFdSet
  by_cases hmem : -1 ∈ slots
  . have hcount := count_replaceFirst fd' fd hmem
    rw [if_neg hne] at hcount
    omega
  . rw [replaceFirst_of_notMem hmem]
    omega

theorem clientData_monitorFdSet (s : Server) (fd' pid : Int) (hne : fd ≠ -1) :
    (s.clientData fd' pid).monitorFdSet.count fd ≤ s.monitorFdSet.count fd
      ∧ (s.clientData fd' pid).connectionSocket = s.connectionSocket := by
  unfold Server.clientData
  split
  . exact ⟨Nat.le_refl _, rfl⟩
  . exact ⟨count_replaceFirst_le hne, rfl⟩

namespace Serving

theorem of_clients (h : net.Serving) (hmonitor : net'.server.monitorFdSet = net.server.monitorFdSet)
    (hsocket : net'.server.connectionSocket = net.server.connectionSocket)
    (hnone : ∀ fd, net'.clients fd = none → net.clients fd = none)
    (hordinary : ∀ fd c, net'.clients fd = some c → ∀ message ∈ c.unread, Ordinary message.text) :
    net'.Serving := by
  constructor
  . exact hordinary
  . rw [hmonitor, hsocket]
    exact h.single
  . rw [hmonitor, hsocket]
    intro fd hfree hconsole hsocket hclient
    exact h.absent fd hfree hconsole hsocket (hnone fd hclient)

theorem deliver {writes : List (Int × Mem)} (h : net.Serving)
    (hwrites : ∀ write ∈ writes, Ordinary write.2) : (net.deliver writes).Serving := by
  apply h.of_clients
  . rfl
  . rfl
  . intro fd hnone
    simpa only [Network.deliver, Option.map_eq_none_iff] using hnone
  . intro fd c hc message hmessage
    simp only [Network.deliver, Option.map_eq_some_iff] at hc
    obtain ⟨c₀, hc₀, hc⟩ := hc
    rw [← hc, Client.unread_receive, List.mem_append, List.mem_map] at hmessage
    cases hmessage with
    | inl hold => exact h.ordinary fd c₀ hc₀ message hold
    | inr hnew =>
      obtain ⟨text, htext, heq⟩ := hnew
      obtain ⟨write, hwrite, htext⟩ := mem_messagesFor htext
      rw [← heq, ← htext]
      exact hwrites write hwrite

theorem signal (h : net.Serving) (kills : List Int) : (net.signal kills).Serving := by
  apply h.of_clients
  . rfl
  . rfl
  . intro fd hnone
    simpa only [Network.signal, Option.map_eq_none_iff] using hnone
  . intro fd c hc message hmessage
    simp only [Network.signal, Option.map_eq_some_iff] at hc
    obtain ⟨c₀, hc₀, hc⟩ := hc
    apply h.ordinary fd c₀ hc₀
    rw [← hc] at hmessage
    split at hmessage
    . unfold Client.kill at hmessage
      split at hmessage <;> exact hmessage
    . exact hmessage

theorem setClient (h : net.Serving) (hc : net.clients fd = some c)
    (hunread : ∀ message ∈ c'.unread, message ∈ c.unread) : (net.setClient fd c').Serving := by
  apply h.of_clients
  . rfl
  . rfl
  . intro fd' hnone
    rw [setClient_clients] at hnone
    split at hnone
    . contradiction
    . exact hnone
  . intro fd' c₀ hc₀ message hmessage
    rw [setClient_clients] at hc₀
    split at hc₀
    . rw [← Option.some.inj hc₀] at hmessage
      exact h.ordinary fd c hc message (hunread message hmessage)
    . exact h.ordinary fd' c₀ hc₀ message hmessage

theorem onClient {step : Client → Option Client} (h : net.Serving)
    (hnext : net.onClient fd step = some net')
    (hstep : ∀ c c', step c = some c' → ∀ message ∈ c'.unread, message ∈ c.unread) : net'.Serving := by
  obtain ⟨c, c', hc, hc', hnet'⟩ := onClient_eq_some hnext
  rw [hnet']
  exact h.setClient hc (hstep c c' hc')

theorem consoleUpTo (h : net.Serving) (console : Console) (buffer : Mem) (done : Nat) :
    (net.consoleUpTo console buffer done).Serving := by
  have hserver : { net with server := (net.server.console console buffer).1 }.Serving := by
    have hsame : net.server.SameClients (net.server.console console buffer).1 :=
      Server.console_sameClients
    exact h.of_clients hsame.monitorFdSet hsame.connectionSocket (fun _ => id) h.ordinary
  apply (hserver.signal _).deliver
  intro write hwrite
  exact ordinary_of_writes (List.mem_of_mem_take hwrite)

theorem connected (h : net.Serving) (hfresh : net.Fresh fd pid) :
    (net.setClient fd (.connected pid)).Serving
      ∧ Serving { net.setClient fd (.connected pid) with
        server :=
          { net.server with monitorFdSet := addToMonitorFdSet net.server.monitorFdSet fd }
        accepted := net.accepted + 1 } := by
  have hordinary (fd' : Int) (c : Client) (hc : (net.setClient fd (.connected pid)).clients fd' = some c) :
      ∀ message ∈ c.unread, Ordinary message.text := by
    rw [setClient_clients] at hc
    split at hc
    . rw [← Option.some.inj hc]
      intro message hmessage
      contradiction
    . exact h.ordinary fd' c hc
  have hnone (fd' : Int) (hclient : (net.setClient fd (.connected pid)).clients fd' = none) :
      fd' ≠ fd ∧ net.clients fd' = none := by
    rw [setClient_clients] at hclient
    split at hclient
    . contradiction
    . next hne => exact ⟨hne, hclient⟩
  constructor
  . exact h.of_clients rfl rfl (fun fd' hclient => (hnone fd' hclient).2) hordinary
  . refine ⟨hordinary, ?_, ?_⟩
    . intro fd' hfree hconsole hsocket
      have hcount := count_addToMonitorFdSet_le net.server.monitorFdSet fd hfree
      have hsingle := h.single fd' hfree hconsole hsocket
      dsimp only
      split at hcount
      . next heq =>
        have habsent := h.absent fd' hfree hconsole hsocket (by rw [heq]; exact hfresh.client)
        omega
      . omega
    . intro fd' hfree hconsole hsocket hclient
      obtain ⟨hne, hclient⟩ := hnone fd' hclient
      have hcount := count_addToMonitorFdSet_le net.server.monitorFdSet fd hfree
      have habsent := h.absent fd' hfree hconsole hsocket hclient
      rw [if_neg hne] at hcount
      dsimp only
      omega

theorem ordinary_accept (s : Server) (fd : Int) (buffer bufferMac : Mem) :
    ∀ write ∈ (s.accept fd buffer bufferMac).2, Ordinary write.2 := by
  intro write hwrite
  simp only [Server.accept, List.mem_map] at hwrite
  obtain ⟨message, hmessage, heq⟩ := hwrite
  rw [← heq]
  exact ordinary_of_create (firstLetter_snapshot message hmessage)

theorem acceptUpTo (h : net.Serving) (hfresh : net.Fresh fd pid) (buffer bufferMac : Mem)
    (added : Bool) (done : Nat) : (net.acceptUpTo fd pid buffer bufferMac added done).Serving := by
  unfold Network.acceptUpTo
  dsimp only
  split
  . apply (h.connected hfresh).2.deliver
    intro write hwrite
    exact ordinary_accept net.server fd buffer bufferMac write (List.mem_of_mem_take hwrite)
  . exact (h.connected hfresh).1

theorem next (h : net.Serving) (hpossible : net.Possible l) (hnext : net.next l = some net') :
    net'.Serving := by
  cases l with
  | accept fd pid buffer bufferMac =>
    simp only [Network.next, Option.some.injEq] at hnext
    rw [← hnext]
    apply (h.connected hpossible).2.deliver
    exact ordinary_accept net.server fd buffer bufferMac
  | console console buffer =>
    simp only [Network.next, Option.some.injEq] at hnext
    have hall := h.consoleUpTo console buffer
      (max (net.server.console console buffer).2.kills.length
        (net.server.console console buffer).2.writes.length)
    unfold Network.consoleUpTo at hall
    dsimp only at hall
    rw [List.take_of_length_le (Nat.le_max_left _ _), List.take_of_length_le (Nat.le_max_right _ _)] at hall
    rw [← hnext]
    exact ⟨hall.ordinary, hall.single, hall.absent⟩
  | clientData fd =>
    obtain ⟨c, pid, toServer, hc, _, hnet'⟩ := clientData_eq_some hnext
    have hclient : (net.setClient fd { c with toServer := toServer }).Serving :=
      h.setClient hc fun _ => id
    rw [hnet']
    refine ⟨hclient.ordinary, ?_, ?_⟩
    . intro fd' hfree hconsole hsocket
      obtain ⟨hcount, hsame⟩ := clientData_monitorFdSet net.server fd pid hfree
      dsimp only at hsocket ⊢
      rw [hsame] at hsocket
      have hsingle := h.single fd' hfree hconsole hsocket
      omega
    . intro fd' hfree hconsole hsocket hnone
      obtain ⟨hcount, hsame⟩ := clientData_monitorFdSet net.server fd pid hfree
      dsimp only at hsocket ⊢
      rw [hsame] at hsocket
      have habsent := hclient.absent fd' hfree hconsole hsocket hnone
      have hserver : (net.setClient fd { c with toServer := toServer }).server = net.server := rfl
      rw [hserver] at habsent
      omega
  | announce fd =>
    apply h.onClient hnext
    intro c c' hc'
    rw [(Client.announce_eq_some hc').2]
    exact fun _ => id
  | install fd =>
    apply h.onClient hnext
    intro c c' hc'
    rw [(Client.install_eq_some hc').2]
    exact fun _ => id
  | read fd =>
    apply h.onClient hnext
    intro c c' hc'
    rw [Client.unread_of_read hc']
    exact fun _ => id
  | request fd u =>
    apply h.onClient hnext
    intro c c' hc' message hmessage
    obtain ⟨first, hunread⟩ := Client.inbox_of_request hc'
    rw [hunread]
    exact List.mem_cons_of_mem first hmessage
  | handle fd =>
    apply h.onClient hnext
    intro c c' hc'
    obtain ⟨_, _, heq⟩ := Client.handle_eq_some hc'
    rw [heq]
    exact fun _ => id

theorem start {connectionSocket : Int} {shm : Shm} : (Network.start connectionSocket shm).Serving := by
  have hcount (fd : Int) (hfree : fd ≠ -1) (hconsole : fd ≠ 0) (hsocket : fd ≠ connectionSocket) :
      (Network.start connectionSocket shm).server.monitorFdSet.count fd = 0 := by
    have hset : (Network.start connectionSocket shm).server.monitorFdSet
        = 0 :: connectionSocket :: List.replicate 30 (-1) := rfl
    rw [hset, List.count_cons_of_ne (Ne.symm hconsole), List.count_cons_of_ne (Ne.symm hsocket),
      List.count_replicate, if_neg]
    simpa using Ne.symm hfree
  constructor
  . intro fd c hc
    contradiction
  . intro fd hfree hconsole hsocket
    rw [hcount fd hfree hconsole hsocket]
    exact Nat.zero_le 1
  . intro fd hfree hconsole hsocket _
    exact hcount fd hfree hconsole hsocket

end Serving

end Network

end RoutingTable
