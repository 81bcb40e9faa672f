import BBBLinux.RoutingTable.Network.Mirror
import BBBLinux.RoutingTable.Network.Shutdown.Serving

/-!
This module contains the service after SIGINT: every client that the handler writes to works off what it
was sent before, and ends at the last message.
-/

namespace RoutingTable

open CString

variable {u : Locals} {after : Mem} {c c' : Client} {flushes : Nat}

namespace Client

/--
The last thing that waits for the client is the message that ends it.
-/
inductive Ending (c : Client) : Prop where
  | ended (hphase : c.phase = .exited) (hunread : c.unread = [])
  | going (hphase : c.phase = .announced ∨ c.phase = .running) (rest : List Message) (last : Message)
      (after : Mem) (hunread : c.unread = rest ++ [last])
      (hrest : ∀ message ∈ rest, Ordinary message.text) (hlast : last.text = quitMessage after)

/--
How many steps a client can take before it has to wait for the server.
-/
def work (c : Client) : Nat :=
  (if c.phase = .announced then 1 else 0) + 2 * c.inbox.length
    + (if c.buffer.isSome = true then 1 else 0) + (if c.pending = true then 1 else 0)

namespace Ending

theorem of_eq (h : c.Ending) (hphase : c'.phase = c.phase) (hunread : c'.unread = c.unread) :
    c'.Ending := by
  cases h with
  | ended hexited hnil => exact .ended (hphase.trans hexited) (hunread.trans hnil)
  | going halive rest last after heq hrest hlast =>
    rw [← hphase] at halive
    exact .going halive rest last after (hunread.trans heq) hrest hlast

theorem install (h : c.Ending) (hinstall : c.install = some c') : c'.Ending := by
  obtain ⟨hphase, hc'⟩ := install_eq_some hinstall
  rw [hc']
  cases h with
  | ended hexited =>
    rw [hphase] at hexited
    contradiction
  | going _ rest last after heq hrest hlast => exact .going (.inr rfl) rest last after heq hrest hlast

theorem request (h : c.Ending) (hrequest : c.request u = some c') : c'.Ending := by
  obtain ⟨message, hbuffer, hc'⟩ := request_eq_some hrequest
  have hmessage := unread_eq_cons hbuffer
  cases h with
  | ended _ hnil =>
    rw [hnil] at hmessage
    contradiction
  | going halive rest last after heq hrest hlast =>
    rw [hmessage] at heq
    cases rest with
    | nil =>
      rw [List.nil_append, List.cons.injEq] at heq
      rw [heq.1, hlast, request_quitMessage] at hc'
      cases hc' with
      | inl hsome =>
        obtain ⟨_, hnone, _⟩ := hsome
        contradiction
      | inr hnone =>
        rw [hnone.2]
        exact .ended rfl heq.2
    | cons first rest =>
      rw [List.cons_append, List.cons.injEq] at heq
      rw [List.forall_mem_cons] at hrest
      have hsome := request_isSome (u := u) (t := c.tables) hrest.1
      rw [heq.1] at hc'
      cases hc' with
      | inl hdone =>
        obtain ⟨_, _, hc'⟩ := hdone
        rw [hc']
        exact .going halive rest last after heq.2 hrest.2 hlast
      | inr hnone =>
        rw [hnone.1] at hsome
        contradiction

theorem handle (h : c.Ending) (hhandle : c.handle flushes = some c') : c'.Ending := by
  obtain ⟨_, _, hc'⟩ := handle_eq_some hhandle
  rw [hc']
  exact h.of_eq rfl rfl

end Ending

end Client

def Label.client : Label → Option Int
  | .announce fd | .install fd | .read fd | .request fd _ | .handle fd => some fd
  | .accept .. | .console .. | .clientData .. => none

def Occurrence.client : Occurrence → Option Int
  | .step l => l.client
  | .sigint _ | .sigintConsole .. | .sigintAccept .. => none

namespace Service

open Network

variable {st st' : Service} {net net' : Network} {l : Label} {fd : Int} {o : Occurrence}

theorem ending_finish (h : net.Serving) (hfd : (finish net after).told fd = true) :
    ∃ c, (finish net after).net.clients fd = some c ∧ c.Ending := by
  simp only [finish, Bool.and_eq_true, decide_eq_true_eq, Option.any_eq_true] at hfd
  obtain ⟨hmem, c, hc, hphase⟩ := hfd
  have hslots := List.mem_filter.mp ((List.takeWhile_prefix _).subset hmem)
  simp only [Bool.and_eq_true, decide_eq_true_eq] at hslots
  obtain ⟨_, ⟨hfree, hconsole⟩, hsocket⟩ := hslots
  have hcount : (reached net).count fd = 1 := by
    have hsingle := h.single fd hfree hconsole hsocket
    have hpos := List.count_pos_iff.mpr hmem
    have hsame : net.server.clientFds.count fd = net.server.monitorFdSet.count fd := by
      unfold Server.clientFds
      apply List.count_filter
      simp [hfree, hconsole, hsocket]
    have hle : (reached net).count fd ≤ net.server.clientFds.count fd :=
      (List.takeWhile_sublist _).count_le fd
    omega
  refine ⟨c.receive [quitMessage after] net.flushes, ?_, ?_⟩
  . simp only [finish, deliver, hc, Option.map_some]
    rw [Server.messagesFor_map hcount]
  . exact .going hphase c.unread { text := quitMessage after, epoch := net.flushes } after
      (Client.unread_receive _ _) (h.ordinary fd c hc) rfl

structure Inv (st : Service) : Prop where
  serving : st.down = false → st.net.Serving
  untold : st.down = false → ∀ fd, st.told fd = false
  ending : ∀ fd, st.told fd = true → ∃ c, st.net.clients fd = some c ∧ c.Ending

theorem inv_finish (h : net.Serving) : (finish net after).Inv :=
  ⟨nofun, nofun, fun _ => ending_finish h⟩

/--
What a client does at the closed socket as long as its last message waits there.
-/
theorem ending_onClient {fd' : Int} {step : Client → Option Client} {c : Client}
    (hnext : net.onClient fd' step = some net') (hc : net.clients fd = some c) (hending : c.Ending)
    (hstep : ∀ c', step c = some c' → c'.Ending) : ∃ c', net'.clients fd = some c' ∧ c'.Ending := by
  obtain ⟨c₀, c', hc₀, hc', hnet'⟩ := onClient_eq_some hnext
  rw [hnet', setClient_clients]
  split
  . next heq =>
    rw [← heq, hc, Option.some.injEq] at hc₀
    rw [← hc₀] at hc'
    exact ⟨c', rfl, hstep c' hc'⟩
  . exact ⟨c, hc, hending⟩

theorem ending_orphaned (hnext : net.orphaned l = some net') (hc : net.clients fd = some c)
    (hending : c.Ending) : ∃ c', net'.clients fd = some c' ∧ c'.Ending := by
  cases l with
  | announce fd' =>
    apply ending_onClient hnext hc hending
    intro c' hc'
    split at hc'
    . next hconnected =>
      cases hending with
      | ended hexited =>
        rw [hconnected] at hexited
        contradiction
      | going halive =>
        rw [hconnected] at halive
        exact absurd halive (by simp)
    . contradiction
  | install fd' => exact ending_onClient hnext hc hending fun _ => hending.install
  | read fd' =>
    apply ending_onClient hnext hc hending
    intro c' hc'
    have hunread := Client.unread_of_read hc'
    obtain ⟨_, _, _, _, heq⟩ := Client.read_eq_some hc'
    apply hending.of_eq _ hunread
    rw [heq]
  | request fd' u => exact ending_onClient hnext hc hending fun _ => hending.request
  | handle fd' => exact ending_onClient hnext hc hending fun _ => hending.handle
  | accept | console | clientData => contradiction

theorem Inv.next (h : st.Inv) (hpossible : st.Possible o) (hnext : st.next o = some st') : st'.Inv := by
  cases hdown : st.down with
  | true =>
    cases o with
    | step l =>
      simp only [Service.next, hdown, if_true, Option.map_eq_some_iff] at hnext
      obtain ⟨net', hnet', hst'⟩ := hnext
      rw [← hst']
      refine ⟨nofun, nofun, ?_⟩
      intro fd hfd
      obtain ⟨c, hc, hending⟩ := h.ending fd hfd
      exact ending_orphaned hnet' hc hending
    | _ =>
      simp only [Service.next, hdown, if_true] at hnext
      contradiction
  | false =>
    have hserving := h.serving hdown
    cases o with
    | step l =>
      have hending (fd : Int) (hfd : st.told fd = true) :
          ∃ c, st'.net.clients fd = some c ∧ c.Ending := by
        rw [h.untold hdown fd] at hfd
        contradiction
      simp only [Service.next, hdown, Bool.false_eq_true, if_false] at hnext
      split at hnext
      . -- SIGPIPE
        rw [Option.some.injEq] at hnext
        rw [← hnext] at hending ⊢
        exact ⟨nofun, nofun, hending⟩
      . rw [Option.map_eq_some_iff] at hnext
        obtain ⟨net', hnet', hst'⟩ := hnext
        rw [← hst'] at hending ⊢
        exact ⟨fun _ => hserving.next hpossible hnet', fun _ => h.untold hdown, hending⟩
    | sigint after =>
      simp only [Service.next, hdown, Bool.false_eq_true, if_false, Option.some.injEq] at hnext
      rw [← hnext]
      exact inv_finish hserving
    | sigintConsole console buffer done after =>
      simp only [Service.next, Option.ite_none_left_eq_some, Option.some.injEq] at hnext
      rw [← hnext.2]
      exact inv_finish (hserving.consoleUpTo console buffer done)
    | sigintAccept fd pid buffer bufferMac added done after =>
      simp only [Service.next, hdown, Bool.false_eq_true, if_false, Option.some.injEq] at hnext
      rw [← hnext]
      exact inv_finish (hserving.acceptUpTo hpossible buffer bufferMac added done)

theorem inv_of_reachable (h : system.Reachable st) : st.Inv := by
  apply h.invariant (P := Inv)
  . intro st ⟨connectionSocket, _, shm, hst⟩
    rw [hst]
    refine ⟨fun _ => .start, fun _ _ => rfl, ?_⟩
    intro fd hfd
    contradiction
  . intro st o st' hinv _ ⟨hpossible, hnext⟩
    exact hinv.next hpossible hnext

section Interrupted

end Interrupted

end Service

end RoutingTable
