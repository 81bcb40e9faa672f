import BBBLinux.RoutingTable.Network.Shutdown.Ending
import BBBLinux.RoutingTable.Streams.Mirror

/-!
This module contains the convergence of the tables over streams of bytes: once nobody types any more, every
client has only so many steps left, and the tables of the server when it has taken them. That the tables
agree then is not proved about bytes, but comes from the network of messages that the streams refine.
-/

namespace RoutingTable

open CString

variable {U : Locals → Prop} {s s' : Streams} {l : Label} {fd fd' : Int} {c c' : StreamClient} {u : Locals}
  {console : Console} {buffer : Mem}

namespace StreamClient

/--
How many steps a client can take before it has to wait for the server.
-/
def work (c : StreamClient) : Nat :=
  (if c.phase = .connected then 2 else if c.phase = .announced then 1 else 0)
    + 2 * ((c.inbox.length + (bufferSize - 1)) / bufferSize)
    + (if c.buffer.isSome = true then 1 else 0) + (if c.pending = true then 1 else 0)

end StreamClient

namespace Streams

variable {ls : List Label} {step : StreamClient → Option StreamClient}

theorem onClient_eq_some (h : s.onClient fd step = some s') :
    ∃ c c', s.clients fd = some c ∧ step c = some c' ∧ s' = s.setClient fd c' := by
  unfold onClient at h
  rw [Option.bind_eq_some_iff] at h
  obtain ⟨c, hc, h⟩ := h
  rw [Option.map_eq_some_iff] at h
  obtain ⟨c', hstep, hs'⟩ := h
  exact ⟨c, c', hc, hstep, hs'.symm⟩

theorem exists_onClient (hc : s.clients fd = some c) (hstep : (step c).isSome = true) :
    ∃ s', s.onClient fd step = some s' := by
  obtain ⟨c', hc'⟩ := Option.isSome_iff_exists.mp hstep
  unfold onClient
  rw [hc, Option.bind_some, hc', Option.map_some]
  exact ⟨_, rfl⟩

theorem possible_of_client (hl : l.client = some fd) : s.Possible l ∧ Sized l := by
  cases l with
  | accept fd' pid buffer bufferMac => contradiction
  | console console buffer => contradiction
  | _ => exact ⟨trivial, trivial⟩

theorem exists_next (hu : U u) (hc : s.clients fd = some c) (halive : c.phase ≠ .exited)
    (hwork : 0 < c.work) : ∃ l s', l.client = some fd ∧ s.Orderly U l ∧ system.step s l s' := by
  have hstep {l : Label} {step : StreamClient → Option StreamClient} (hl : l.client = some fd)
      (hok : s.Orderly U l) (heq : s.next l = s.onClient fd step) (hsome : (step c).isSome = true) :
      ∃ l s', l.client = some fd ∧ s.Orderly U l ∧ system.step s l s' := by
    obtain ⟨s', hs'⟩ := exists_onClient hc hsome
    exact ⟨l, s', hl, hok, possible_of_client hl, heq.trans hs'⟩
  cases hphase : c.phase with
  | connected => exact hstep (l := .announce fd) rfl trivial rfl (by simp [StreamClient.announce, hphase])
  | announced => exact hstep (l := .install fd) rfl trivial rfl (by simp [StreamClient.install, hphase])
  | exited => contradiction
  | running =>
    cases hpending : c.pending with
    | true =>
      exact hstep (l := .handle fd) rfl trivial rfl (by simp [StreamClient.handle, hphase, hpending])
    | false =>
      cases hbuffer : c.buffer with
      | some buffer =>
        have hok : s.Orderly U (.request fd u) := by
          refine ⟨hu, ?_⟩
          intro c₁ hc₁
          rw [← Option.some.inj (hc.symm.trans hc₁)]
          exact hpending
        apply hstep (l := .request fd u) rfl hok rfl
        unfold StreamClient.request
        rw [hphase, hbuffer]
        dsimp only
        split <;> rfl
      | none =>
        have hinbox : c.inbox ≠ [] := by
          intro hempty
          simp [StreamClient.work, hphase, hpending, hbuffer, hempty, bufferSize] at hwork
        exact hstep (l := .read fd) rfl trivial rfl (by simp [StreamClient.read, hphase, hbuffer, hinbox])

end Streams

end RoutingTable
