import BBBLinux.RoutingTable.Network.Lemmas
import BBBLinux.RoutingTable.Peers.Slots

/-!
This module contains the books that the server keeps about its clients. While no client has left and no
slot is missing, every client is monitored at exactly one slot, and no PID is known before it arrives.
-/

namespace RoutingTable

namespace Client

def Sound (c : Client) : Prop :=
  c.toServer = [] ∨ c.phase ≠ .connected ∧ c.toServer = [c.pid]

def Registered (c : Client) : Prop :=
  c.phase ≠ .connected ∧ c.toServer = []

structure Keeps (c c' : Client) : Prop where
  pid : c'.pid = c.pid
  sound : c.Sound → c'.Sound
  registered : c.Registered → c'.Registered

variable {c c' : Client} {u : Locals} {flushes : Nat}

theorem keeps_of_eq (hpid : c'.pid = c.pid) (htoServer : c'.toServer = c.toServer)
    (hphase : c.phase ≠ .connected → c'.phase ≠ .connected) : c.Keeps c' := by
  constructor
  . exact hpid
  . unfold Sound
    rw [htoServer, hpid]
    apply Or.imp_right (And.imp_left hphase)
  . unfold Registered
    rw [htoServer]
    apply And.imp_left hphase

theorem Keeps.trans {c'' : Client} (h : c.Keeps c') (h' : c'.Keeps c'') : c.Keeps c'' :=
  ⟨h'.pid.trans h.pid, fun hc => h'.sound (h.sound hc), fun hc => h'.registered (h.registered hc)⟩

theorem keeps_announce (h : c.announce = some c') : c.Keeps c' := by
  have ⟨hphase, hc'⟩ := announce_eq_some h
  rw [hc']
  constructor
  . rfl
  . intro hsound
    cases hsound with
    | inl hnil => exact .inr ⟨by simp, by simp [hnil]⟩
    | inr h => exact absurd hphase h.1
  . intro hregistered
    exact absurd hphase hregistered.1

theorem keeps_install (h : c.install = some c') : c.Keeps c' := by
  have ⟨_, hc'⟩ := install_eq_some h
  rw [hc']
  apply keeps_of_eq
  . rfl
  . rfl
  . simp

theorem keeps_read (h : c.read = some c') : c.Keeps c' := by
  have ⟨_, _, _, _, hc'⟩ := read_eq_some h
  rw [hc']
  exact keeps_of_eq rfl rfl id

theorem keeps_request (h : c.request u = some c') : c.Keeps c' := by
  have ⟨_, _, hc'⟩ := request_eq_some h
  cases hc' with
  | inl h =>
    have ⟨_, _, hc'⟩ := h
    rw [hc']
    exact keeps_of_eq rfl rfl id
  | inr h =>
    rw [h.2]
    apply keeps_of_eq
    . rfl
    . rfl
    . simp

theorem keeps_handle (h : c.handle flushes = some c') : c.Keeps c' := by
  have ⟨_, _, hc'⟩ := handle_eq_some h
  rw [hc']
  exact keeps_of_eq rfl rfl id

theorem keeps_kill : c.Keeps c.kill := by
  unfold kill
  split
  . apply keeps_of_eq
    . rfl
    . rfl
    . simp
  . apply keeps_of_eq
    . rfl
    . rfl
    . simp
  . exact keeps_of_eq rfl rfl id
  . exact keeps_of_eq rfl rfl id

theorem keeps_receive (texts : List CString.Mem) (epoch : Nat) : c.Keeps (c.receive texts epoch) :=
  keeps_of_eq rfl rfl id

end Client

namespace Network

structure Registry (net : Network) : Prop where
  free : net.server.monitorFdSet.count (-1) + net.accepted = 30
  descriptor : ∀ fd c, net.clients fd = some c → 0 < fd ∧ fd ≠ net.server.connectionSocket
  monitored : ∀ fd, 0 < fd → fd ≠ net.server.connectionSocket →
    net.server.monitorFdSet.count fd = if (net.clients fd).isSome = true then 1 else 0
  pid_pos : ∀ fd c, net.clients fd = some c → 0 < c.pid
  pid_inj : ∀ fd fd' c c', net.clients fd = some c → net.clients fd' = some c' → c.pid = c'.pid →
    fd = fd'
  sound : ∀ fd c, net.clients fd = some c → c.Sound
  registered : ∀ pid ∈ net.server.clientPidSet, pid = -1
    ∨ ∃ fd c, net.clients fd = some c ∧ c.pid = pid ∧ c.Registered

namespace Registry

variable {net net' : Network} {l : Label} {fd pid : Int} {c : Client} {buffer bufferMac : CString.Mem}

theorem start {connectionSocket : Int} {shm : Shm} (h : 0 < connectionSocket) :
    (Network.start connectionSocket shm).Registry := by
  have hset : (Network.start connectionSocket shm).server.monitorFdSet
      = 0 :: connectionSocket :: List.replicate 30 (-1) := rfl
  constructor
  . rw [hset, List.count_cons_of_ne, List.count_cons_of_ne, List.count_replicate_self]
    . rfl
    . omega
    . omega
  . intro fd c hc
    contradiction
  . intro fd hfd hne
    have hne : fd ≠ connectionSocket := hne
    rw [hset, List.count_cons_of_ne, List.count_cons_of_ne, List.count_replicate, if_neg]
    . rfl
    . simp
      omega
    . omega
    . omega
  . intro fd c hc
    contradiction
  . intro fd fd' c c' hc
    contradiction
  . intro fd c hc
    contradiction
  . intro pid hpid
    exact .inl (List.eq_of_mem_replicate hpid)

theorem of_keeps (h : net.Registry) (hserver : net.server.SameClients net'.server)
    (haccepted : net'.accepted = net.accepted)
    (hclients : ∀ fd, Option.Rel Client.Keeps (net.clients fd) (net'.clients fd)) : net'.Registry := by
  have hback {fd : Int} {c' : Client} (hc' : net'.clients fd = some c') :
      ∃ c, net.clients fd = some c ∧ c.Keeps c' := by
    have hrel := hclients fd
    rw [hc'] at hrel
    generalize net.clients fd = oc at hrel ⊢
    cases hrel with
    | some hkeeps => exact ⟨_, rfl, hkeeps⟩
  constructor
  . rw [hserver.monitorFdSet, haccepted]
    exact h.free
  . intro fd c' hc'
    have ⟨c, hc, _⟩ := hback hc'
    rw [hserver.connectionSocket]
    exact h.descriptor fd c hc
  . intro fd hpos hne
    rw [hserver.connectionSocket] at hne
    rw [hserver.monitorFdSet, h.monitored fd hpos hne]
    have hrel := hclients fd
    generalize net.clients fd = oc at hrel ⊢
    generalize net'.clients fd = oc' at hrel ⊢
    cases hrel <;> rfl
  . intro fd c' hc'
    have ⟨c, hc, hkeeps⟩ := hback hc'
    rw [hkeeps.pid]
    exact h.pid_pos fd c hc
  . intro fd fd' c₁' c₂' hc₁' hc₂' hpid
    have ⟨c₁, hc₁, hkeeps₁⟩ := hback hc₁'
    have ⟨c₂, hc₂, hkeeps₂⟩ := hback hc₂'
    rw [hkeeps₁.pid, hkeeps₂.pid] at hpid
    exact h.pid_inj fd fd' c₁ c₂ hc₁ hc₂ hpid
  . intro fd c' hc'
    have ⟨c, hc, hkeeps⟩ := hback hc'
    exact hkeeps.sound (h.sound fd c hc)
  . intro pid hpid
    rw [hserver.clientPidSet] at hpid
    cases h.registered pid hpid with
    | inl hfree => exact .inl hfree
    | inr hknown =>
      right
      have ⟨fd, c, hc, hpid, hregistered⟩ := hknown
      have hrel := hclients fd
      rw [hc] at hrel
      generalize hoc : net'.clients fd = oc' at hrel
      cases hrel with
      | some hkeeps => exact ⟨fd, _, hoc, hkeeps.pid.trans hpid, hkeeps.registered hregistered⟩

theorem keeps_refl : c.Keeps c :=
  Client.keeps_of_eq rfl rfl id

theorem rel_setClient {c' : Client} (hc : net.clients fd = some c) (hkeeps : c.Keeps c') (fd' : Int) :
    Option.Rel Client.Keeps (net.clients fd') ((net.setClient fd c').clients fd') := by
  rw [setClient_clients]
  split
  . next heq =>
    rw [heq, hc]
    exact .some hkeeps
  . cases net.clients fd' with
    | none => exact .none
    | some c => exact .some keeps_refl

theorem onClient {step : Client → Option Client} (h : net.Registry)
    (hnext : net.onClient fd step = some net')
    (hstep : ∀ c c', step c = some c' → c.Keeps c') : net'.Registry := by
  have ⟨c, c', hc, hc', hnet'⟩ := onClient_eq_some hnext
  rw [hnet']
  exact h.of_keeps .refl rfl (rel_setClient hc (hstep c c' hc'))

theorem console {console : RoutingTable.Console} (h : net.Registry)
    (hserver : net.server.SameClients (net.server.console console buffer).1) :
    (net.console console buffer).Registry := by
  apply h.of_keeps
  . exact hserver
  . rfl
  . intro fd
    simp only [Network.console, deliver, signal, Option.map_map]
    cases net.clients fd with
    | none => exact .none
    | some c =>
      apply Option.Rel.some
      simp only [Function.comp_apply]
      split
      . exact Client.keeps_kill.trans (Client.keeps_receive _ _)
      . exact Client.keeps_receive _ _

theorem pid_notMem {toServer : List Int} (h : net.Registry) (hc : net.clients fd = some c)
    (htoServer : c.toServer = pid :: toServer) : pid ∉ net.server.clientPidSet := by
  intro hmem
  have hpid : c.pid = pid := by
    cases h.sound fd c hc with
    | inl hnil =>
      rw [hnil] at htoServer
      contradiction
    | inr hsound =>
      rw [hsound.2] at htoServer
      exact (List.cons.inj htoServer).1
  cases h.registered pid hmem with
  | inl hfree =>
    have hpos := h.pid_pos fd c hc
    omega
  | inr hknown =>
    have ⟨fd', c', hc', hpid', hregistered⟩ := hknown
    have heq := h.pid_inj fd fd' c c' hc hc' (hpid.trans hpid'.symm)
    rw [← heq, hc] at hc'
    cases hc'
    rw [hregistered.2] at htoServer
    contradiction

theorem clientData (h : net.Registry) (hnext : net.clientData fd = some net') : net'.Registry := by
  have ⟨c, pid, toServer, hc, htoServer, hnet'⟩ := clientData_eq_some hnext
  have hnotMem := h.pid_notMem hc htoServer
  have ⟨hphase, hpid, hnil⟩ : c.phase ≠ .connected ∧ c.pid = pid ∧ toServer = [] := by
    cases h.sound fd c hc with
    | inl hnil =>
      rw [hnil] at htoServer
      contradiction
    | inr hsound =>
      rw [hsound.2, List.cons.injEq] at htoServer
      exact ⟨hsound.1, htoServer.1, htoServer.2.symm⟩
  have hread : (net.setClient fd { c with toServer := toServer }).Registry := by
    apply h.of_keeps
    . exact .refl
    . rfl
    . apply rel_setClient hc
      exact ⟨rfl, fun _ => .inl hnil, fun hregistered => ⟨hregistered.1, hnil⟩⟩
  have hserver : net.server.clientData fd pid
      = { net.server with clientPidSet := addToPidSet net.server.clientPidSet pid } := by
    unfold Server.clientData
    rw [if_pos (checkAvailablePid_iff.mpr hnotMem)]
  rw [hnet', hserver]
  refine ⟨hread.free, hread.descriptor, hread.monitored, hread.pid_pos, hread.pid_inj, hread.sound, ?_⟩
  intro pid' hpid'
  cases mem_replaceFirst hpid' with
  | inl heq =>
    right
    refine ⟨fd, { c with toServer := toServer }, ?_, ?_, hphase, hnil⟩
    . apply (setClient_clients _).trans (if_pos rfl)
    . rw [heq]
      exact hpid
  | inr hmem => exact hread.registered pid' hmem

theorem setClient_connected (h : net.Registry) (hfresh : net.Fresh fd pid)
    (halive : ∀ fd c, net.clients fd = some c → c.phase ≠ .exited) (haccepted : net.accepted < 30) :
    Registry { net.setClient fd (.connected pid) with
      server :=
        { net.server with monitorFdSet := addToMonitorFdSet net.server.monitorFdSet fd }
      accepted := net.accepted + 1 } := by
  have hslot : -1 ∈ net.server.monitorFdSet := by
    rw [← List.count_pos_iff]
    have hfree := h.free
    omega
  have hclients {fd' : Int} {c : Client}
      (hc : (net.setClient fd (.connected pid)).clients fd' = some c) :
      fd' = fd ∧ c = .connected pid ∨ fd' ≠ fd ∧ net.clients fd' = some c := by
    rw [setClient_clients] at hc
    split at hc
    . next heq => exact .inl ⟨heq, (Option.some.inj hc).symm⟩
    . next hne => exact .inr ⟨hne, hc⟩
  have hpid {fd' : Int} {c : Client} (hc : net.clients fd' = some c) : c.pid ≠ pid :=
    hfresh.pid_ne fd' c hc (halive fd' c hc)
  constructor
  . have hcount := count_replaceFirst fd (-1) hslot
    have hfree := h.free
    have hpos := hfresh.fd_pos
    rw [if_pos rfl, if_neg (by omega)] at hcount
    simp only [addToMonitorFdSet]
    omega
  . intro fd' c hc
    cases hclients hc with
    | inl hnew =>
      rw [hnew.1]
      exact ⟨hfresh.fd_pos, hfresh.fd_ne⟩
    | inr hold => exact h.descriptor fd' c hold.2
  . intro fd' hpos hne
    have hcount := count_replaceFirst fd fd' hslot
    have hold := h.monitored fd' hpos hne
    rw [if_neg (by omega)] at hcount
    simp only [addToMonitorFdSet, setClient_clients]
    split
    . next heq =>
      rw [heq, hfresh.client] at hold
      rw [if_pos heq, heq, hold] at hcount
      simp only [Option.isSome_some, if_true]
      rw [heq]
      exact hcount
    . next hne =>
      rw [if_neg hne] at hcount
      rw [← hold]
      exact hcount
  . intro fd' c hc
    cases hclients hc with
    | inl hnew =>
      rw [hnew.2]
      exact hfresh.pid_pos
    | inr hold => exact h.pid_pos fd' c hold.2
  . intro fd₁ fd₂ c₁ c₂ hc₁ hc₂ heq
    cases hclients hc₁ with
    | inl hnew₁ =>
      cases hclients hc₂ with
      | inl hnew₂ => apply hnew₁.1.trans hnew₂.1.symm
      | inr hold₂ =>
        rw [hnew₁.2] at heq
        exact absurd heq.symm (hpid hold₂.2)
    | inr hold₁ =>
      cases hclients hc₂ with
      | inl hnew₂ =>
        rw [hnew₂.2] at heq
        exact absurd heq (hpid hold₁.2)
      | inr hold₂ => exact h.pid_inj fd₁ fd₂ c₁ c₂ hold₁.2 hold₂.2 heq
  . intro fd' c hc
    cases hclients hc with
    | inl hnew =>
      rw [hnew.2]
      exact .inl rfl
    | inr hold => exact h.sound fd' c hold.2
  . intro pid' hpid'
    cases h.registered pid' hpid' with
    | inl hfree => exact .inl hfree
    | inr hknown =>
      right
      have ⟨fd', c, hc, hknown⟩ := hknown
      refine ⟨fd', c, ?_, hknown⟩
      have hne : fd' ≠ fd := by
        intro heq
        rw [heq, hfresh.client] at hc
        contradiction
      exact ((setClient_clients _).trans (if_neg hne)).trans hc

theorem deliver (h : net.Registry) (writes : List (Int × CString.Mem)) :
    (net.deliver writes).Registry := by
  apply h.of_keeps
  . exact .refl
  . rfl
  . intro fd
    simp only [Network.deliver]
    cases net.clients fd with
    | none => exact .none
    | some c => exact .some (Client.keeps_receive _ _)

theorem next (h : net.Registry) (halive : ∀ fd c, net.clients fd = some c → c.phase ≠ .exited)
    (hpossible : net.Possible l) (hnext : net.next l = some net')
    (haccept : ∀ fd pid buffer bufferMac, l = .accept fd pid buffer bufferMac → net.accepted < 30)
    (hserver : ∀ console buffer, l = .console console buffer →
      net.server.SameClients (net.server.console console buffer).1) : net'.Registry := by
  cases l with
  | accept fd pid buffer bufferMac =>
    simp only [Network.next, Option.some.injEq] at hnext
    rw [← hnext]
    apply deliver
    apply h.setClient_connected hpossible halive (haccept _ _ _ _ rfl)
  | console console buffer =>
    simp only [Network.next, Option.some.injEq] at hnext
    rw [← hnext]
    apply h.console (hserver _ _ rfl)
  | clientData fd => apply h.clientData hnext
  | announce fd => apply h.onClient hnext fun _ _ => Client.keeps_announce
  | install fd => apply h.onClient hnext fun _ _ => Client.keeps_install
  | read fd => apply h.onClient hnext fun _ _ => Client.keeps_read
  | request fd u => apply h.onClient hnext fun _ _ => Client.keeps_request
  | handle fd => apply h.onClient hnext fun _ _ => Client.keeps_handle

end Registry

end Network

end RoutingTable
