import BBBLinux.Framing.Basic
import BBBLinux.RoutingTable.Connections.Lemmas
import BBBLinux.RoutingTable.Network.Lemmas
import BBBLinux.RoutingTable.Peers.Snapshot
import BBBLinux.RoutingTable.Streams.Impl

/-!
This module contains that the streams between the server and its clients keep the messages apart: each
`write` of the server puts one full buffer into a stream and each `read` of a client takes one out, and the
PID is the only thing a client writes. So they do exactly what sockets for whole messages do.
-/

namespace RoutingTable

open CString Framing

section Relations

variable {α β γ δ : Type} {R : α → β → Prop} {Q : γ → δ → Prop} {x : Option α} {y : Option β}

theorem rel_map {f : α → γ} {g : β → δ} (h : Option.Rel R x y) (hmap : ∀ a b, R a b → Q (f a) (g b)) :
    Option.Rel Q (x.map f) (y.map g) := by
  cases h with
  | some h => exact .some (hmap _ _ h)
  | none => exact .none

theorem rel_bind {f : α → Option γ} {g : β → Option δ} (h : Option.Rel R x y)
    (hbind : ∀ a b, R a b → Option.Rel Q (f a) (g b)) : Option.Rel Q (x.bind f) (y.bind g) := by
  cases h with
  | some h => exact hbind _ _ h
  | none => exact .none

end Relations

structure StreamClient.Refines (c : StreamClient) (a : Client) : Prop where
  pid : c.pid = a.pid
  phase : c.phase = a.phase
  pending : c.pending = a.pending
  tables : c.tables = a.tables
  buffer : c.buffer = a.buffer.map Message.text
  inbox : Framed bufferSize c.inbox (a.inbox.map Message.text)
  toServer : c.toServer = a.toServer.flatMap pidBytes
  once : a.toServer = [] ∨ a.phase ≠ .connected ∧ a.toServer = [a.pid]
  pid_pos : 0 < a.pid
  pid_lt : a.pid < 2 ^ 31

namespace StreamClient.Refines

variable {c : StreamClient} {a : Client} {pid : Int} {texts : List Mem}

theorem connected (hpos : 0 < pid) (hlt : pid < 2 ^ 31) :
    (StreamClient.connected pid).Refines (Client.connected pid) :=
  ⟨rfl, rfl, rfl, rfl, rfl, .nil, rfl, .inl rfl, hpos, hlt⟩

theorem receive (h : c.Refines a) (hsize : ∀ text ∈ texts, text.length = bufferSize) (epoch : Nat) :
    (c.receive texts).Refines (a.receive texts epoch) := by
  refine ⟨h.pid, h.phase, h.pending, h.tables, h.buffer, ?_, h.toServer, h.once, h.pid_pos, h.pid_lt⟩
  have hframes : (a.receive texts epoch).inbox.map Message.text = a.inbox.map Message.text ++ texts := by
    simp [Client.receive, Function.comp_def]
  rw [hframes]
  exact h.inbox.append ⟨rfl, hsize⟩

theorem advance (h : c.Refines a) {phase : Phase} (hphase : phase ≠ .connected) :
    StreamClient.Refines { c with phase := phase } { a with phase := phase } := by
  refine ⟨h.pid, rfl, h.pending, h.tables, h.buffer, h.inbox, h.toServer, ?_, h.pid_pos, h.pid_lt⟩
  exact h.once.imp_right fun honce => ⟨hphase, honce.2⟩

theorem kill (h : c.Refines a) : c.kill.Refines a.kill := by
  unfold StreamClient.kill Client.kill
  rw [h.phase]
  cases hphase : a.phase with
  | connected => exact h.advance Phase.noConfusion
  | announced => exact h.advance Phase.noConfusion
  | running =>
    have hrunning := h.advance (Phase.noConfusion : Phase.running ≠ .connected)
    exact ⟨h.pid, rfl, rfl, h.tables, h.buffer, h.inbox, h.toServer, hrunning.once, h.pid_pos, h.pid_lt⟩
  | exited => exact h

theorem announce (h : c.Refines a) : Option.Rel Refines c.announce a.announce := by
  unfold StreamClient.announce Client.announce
  rw [h.phase]
  split
  . next hphase =>
    have hnone : a.toServer = [] := h.once.resolve_right fun honce => honce.1 hphase
    refine .some ⟨h.pid, rfl, h.pending, h.tables, h.buffer, h.inbox, ?_, .inr ⟨by simp, ?_⟩, h.pid_pos,
      h.pid_lt⟩
    . dsimp only
      rw [h.toServer, h.pid, List.flatMap_append, List.flatMap_singleton]
    . dsimp only
      rw [hnone, List.nil_append]
  . exact .none

theorem install (h : c.Refines a) : Option.Rel Refines c.install a.install := by
  unfold StreamClient.install Client.install
  rw [h.phase]
  split
  . exact .some (h.advance Phase.noConfusion)
  . exact .none

theorem readBuffer_eq {stream frame : Mem} {frames : List Mem}
    (h : Framed bufferSize stream (frame :: frames)) : readBuffer stream = frame := by
  have hlength := h.length frame List.mem_cons_self
  unfold readBuffer memcpy
  dsimp only
  rw [h.take, bytes_self, List.take_zero, List.nil_append, List.drop_of_length_le, List.append_nil]
  rw [List.length_replicate, hlength, Nat.zero_add]

theorem read (h : c.Refines a) : Option.Rel Refines c.read a.read := by
  have hbuffer := h.buffer
  have hinbox := h.inbox
  have hnil := hinbox.eq_nil_iff (by decide)
  unfold StreamClient.read Client.read
  rw [h.phase]
  cases hphase : a.phase with
  | running =>
    cases habuffer : a.buffer with
    | some message =>
      rw [habuffer] at hbuffer
      simp only [hbuffer, Option.map_some, reduceCtorEq, false_and, and_false, if_false]
      exact .none
    | none =>
      rw [habuffer] at hbuffer
      cases hainbox : a.inbox with
      | nil =>
        rw [hainbox] at hnil
        rw [if_neg fun hread => hread.2.2 (hnil.mpr rfl)]
        exact .none
      | cons message inbox =>
        rw [hainbox, List.map_cons] at hinbox hnil
        rw [if_pos ⟨rfl, hbuffer, fun hempty => by simp at hnil; exact hnil hempty⟩]
        have hrunning := h.advance (Phase.noConfusion : Phase.running ≠ .connected)
        exact .some ⟨h.pid, rfl, h.pending, h.tables, congrArg some (readBuffer_eq hinbox), hinbox.drop,
          h.toServer, hrunning.once, h.pid_pos, h.pid_lt⟩
  | _ =>
    rw [if_neg (by simp)]
    exact .none

theorem request (h : c.Refines a) (u : Locals) : Option.Rel Refines (c.request u) (a.request u) := by
  unfold StreamClient.request Client.request
  rw [h.phase, h.buffer, h.tables]
  cases hphase : a.phase with
  | running =>
    have hrunning := h.advance (Phase.noConfusion : Phase.running ≠ .connected)
    have hexited := h.advance (Phase.noConfusion : Phase.exited ≠ .connected)
    cases a.buffer with
    | none => exact .none
    | some message =>
      dsimp only [Option.map_some]
      cases RoutingTable.request a.tables u message.text with
      | some tables =>
        exact .some ⟨h.pid, rfl, h.pending, rfl, rfl, h.inbox, h.toServer, hrunning.once, h.pid_pos,
          h.pid_lt⟩
      | none =>
        exact .some ⟨h.pid, rfl, h.pending, rfl, rfl, h.inbox, h.toServer, hexited.once, h.pid_pos,
          h.pid_lt⟩
  | _ => exact .none

theorem handle (h : c.Refines a) (flushes : Nat) : Option.Rel Refines c.handle (a.handle flushes) := by
  unfold StreamClient.handle Client.handle
  rw [h.phase, h.pending, h.tables]
  split
  . exact .some ⟨h.pid, rfl, rfl, rfl, h.buffer, h.inbox, h.toServer, h.once, h.pid_pos, h.pid_lt⟩
  . exact .none

/--
What the server finds in the stream of a client is its PID, or nothing.
-/
theorem toServer_cases (h : c.Refines a) : c.toServer = [] ∧ a.toServer = []
    ∨ c.toServer = pidBytes a.pid ∧ a.toServer = [a.pid] := by
  have htoServer := h.toServer
  cases h.once with
  | inl hnone =>
    rw [hnone, List.flatMap_nil] at htoServer
    exact .inl ⟨htoServer, hnone⟩
  | inr honce =>
    rw [honce.2, List.flatMap_singleton] at htoServer
    exact .inr ⟨htoServer, honce.2⟩

theorem drop_toServer (h : c.Refines a) :
    StreamClient.Refines { c with toServer := [] } { a with toServer := [] } :=
  ⟨h.pid, h.phase, h.pending, h.tables, h.buffer, h.inbox, rfl, .inl rfl, h.pid_pos, h.pid_lt⟩

end StreamClient.Refines

theorem length_sendLines {buffer : Mem} {lines : List Mem} {message : Mem}
    (h : message ∈ sendLines buffer lines) : message.length = bufferSize := by
  induction lines generalizing buffer with
  | nil => contradiction
  | cons line lines ih =>
    unfold sendLines at h
    dsimp only at h
    rw [List.mem_cons] at h
    cases h with
    | inl heq =>
      rw [heq]
      exact bytes_length
    | inr hmem => exact ih hmem

namespace Streams

structure Refines (s : Streams) (net : Network) : Prop where
  server : s.server = net.server
  clients : ∀ fd, Option.Rel StreamClient.Refines (s.clients fd) (net.clients fd)

namespace Refines

variable {s s' : Streams} {net net' : Network} {l : Label} {fd pid : Int} {c : StreamClient} {a : Client}
  {writes : List (Int × Mem)} {buffer bufferMac : Mem}

theorem start (connectionSocket : Int) (shm : Shm) :
    (Streams.start connectionSocket shm).Refines (Network.start connectionSocket shm) :=
  ⟨rfl, fun _ => .none⟩

theorem setClient (h : s.Refines net) (fd : Int) (hc : c.Refines a) :
    (s.setClient fd c).Refines (net.setClient fd a) := by
  refine ⟨h.server, fun fd' => ?_⟩
  unfold Streams.setClient Network.setClient
  dsimp only
  rw [Function.update_apply, Function.update_apply]
  split
  . exact .some hc
  . exact h.clients fd'

theorem onClient {step : StreamClient → Option StreamClient} {step' : Client → Option Client}
    (h : s.Refines net) (hstep : ∀ c a, c.Refines a → Option.Rel StreamClient.Refines (step c) (step' a)) :
    Option.Rel Refines (s.onClient fd step) (net.onClient fd step') := by
  unfold Streams.onClient Network.onClient
  apply rel_bind (h.clients fd)
  intro c a hc
  exact rel_map (hstep c a hc) fun _ _ hc' => h.setClient fd hc'

theorem deliver (h : s.Refines net) (hsize : ∀ write ∈ writes, write.2.length = bufferSize) :
    (s.deliver writes).Refines (net.deliver writes) := by
  refine ⟨h.server, fun fd => rel_map (h.clients fd) ?_⟩
  intro c a hc
  apply hc.receive
  intro text htext
  obtain ⟨write, hwrite, htext⟩ := List.mem_map.mp htext
  rw [← htext]
  exact hsize write (List.mem_of_mem_filter hwrite)

theorem signal (h : s.Refines net) (kills : List Int) : (s.signal kills).Refines (net.signal kills) := by
  refine ⟨h.server, fun fd => rel_map (h.clients fd) ?_⟩
  intro c a hc
  rw [hc.pid]
  split
  . exact hc.kill
  . exact hc

theorem accept (h : s.Refines net) (hpos : 0 < pid) (hlt : pid < 2 ^ 31) :
    (s.accept fd pid buffer bufferMac).Refines (net.accept fd pid buffer bufferMac) := by
  have hnew := h.setClient fd (.connected hpos hlt)
  unfold Streams.accept Network.accept
  rw [h.server]
  apply Refines.deliver
  . exact ⟨rfl, hnew.clients⟩
  . intro write hwrite
    obtain ⟨message, hmessage, hwrite⟩ := List.mem_map.mp hwrite
    rw [← hwrite]
    cases List.mem_append.mp hmessage with
    | inl hroute => exact length_sendLines hroute
    | inr hmac => exact length_sendLines hmac

theorem console (h : s.Refines net) (console : Console) (hlength : buffer.length = bufferSize) :
    (s.console console buffer).Refines (net.console console buffer) := by
  have hsame : Refines { s with server := (net.server.console console buffer).1 }
      { net with server := (net.server.console console buffer).1 } := ⟨rfl, h.clients⟩
  have hsize : ∀ write ∈ (net.server.console console buffer).2.writes, write.2.length = bufferSize := by
    have hcases : (net.server.console console buffer).2.writes = [] ∨ _ := Server.console_writes_cases
    intro write hwrite
    cases hcases with
    | inl hnone =>
      rw [hnone] at hwrite
      contradiction
    | inr hall =>
      rw [hall] at hwrite
      obtain ⟨fd, _, hwrite⟩ := List.mem_map.mp hwrite
      rw [← hwrite]
      exact hlength
  have htold := (hsame.signal (net.server.console console buffer).2.kills).deliver hsize
  unfold Streams.console Network.console
  rw [h.server]
  exact ⟨rfl, htold.clients⟩

theorem clientData (h : s.Refines net) : Option.Rel Refines (s.clientData fd) (net.clientData fd) := by
  unfold Streams.clientData Network.clientData
  rw [h.server]
  have hclients := h.clients fd
  generalize s.clients fd = x at hclients
  generalize net.clients fd = y at hclients
  cases hclients with
  | none => exact .none
  | @some c a hc =>
    rw [Option.bind_some]
    dsimp only
    cases hc.toServer_cases with
    | inl hnone =>
      rw [if_neg fun hread => hread.1 hnone.1, hnone.2]
      exact .none
    | inr honce =>
      rw [honce.2]
      dsimp only
      have hnonempty : pidBytes a.pid ≠ [] := List.cons_ne_nil _ _
      have htake : (pidBytes a.pid).take bufferSize = pidBytes a.pid := rfl
      have hdrop : (pidBytes a.pid).drop bufferSize = [] := rfl
      rw [honce.1, htake, hdrop, readPid_pidBytes hc.pid_pos hc.pid_lt]
      by_cases hmem : fd ∈ net.server.monitorFdSet
      . rw [if_pos hmem, if_pos ⟨hnonempty, hmem⟩]
        exact .some ⟨rfl, (h.setClient fd hc.drop_toServer).clients⟩
      . rw [if_neg hmem, if_neg fun hread => hmem hread.2]
        exact .none

theorem next (h : s.Refines net) (hpossible : s.Possible l) (hsized : Sized l) :
    Option.Rel Refines (s.next l) (net.next l) := by
  cases l with
  | accept fd pid buffer bufferMac => exact .some (h.accept hpossible.pid_pos hsized)
  | console console buffer => exact .some (h.console console hsized)
  | clientData fd => exact h.clientData
  | announce fd => exact h.onClient fun _ _ hc => hc.announce
  | install fd => exact h.onClient fun _ _ hc => hc.install
  | read fd => exact h.onClient fun _ _ hc => hc.read
  | request fd u => exact h.onClient fun _ _ hc => hc.request u
  | handle fd => exact h.onClient fun _ _ hc => hc.handle net.flushes

end Refines

end Streams

end RoutingTable
