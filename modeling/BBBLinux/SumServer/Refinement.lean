import BBBLinux.SlotTable.Basic
import BBBLinux.SumServer.Sessions
import Mathlib.Data.Multiset.Filter
import Mathlib.Data.Multiset.Replicate

/-!
This module contains the refinement of the sessions by the multiplexed server: up to their order its
slots are one for each session, holding what the sequential server of that session has in
`client_response`, and apart from them nothing but 0.
-/

namespace SumServer

open CString

open SlotTable

variable {κ : Type} {clients : κ → Client} {connectionSocket : Int} {s s' : State κ} {a : Sessions κ}

def Session.slot (session : Session κ) : Int × Int32 :=
  (session.fd, session.clientResponse)

/--
The slots of the console and of the master socket, of the sessions and the free ones.
-/
def table (connectionSocket : Int) (used : Multiset (Int × Int32)) (free : Nat) :
    Multiset (Int × Int32) :=
  (0, 0) ::ₘ (connectionSocket, 0) ::ₘ (used + Multiset.replicate free (-1, 0))

section Table

variable {slot : Int × Int32} {used : Multiset (Int × Int32)} {free : Nat}

theorem table_cons :
    table connectionSocket (slot ::ₘ used) free = slot ::ₘ table connectionSocket used free := by
  unfold table
  rw [Multiset.cons_add, Multiset.cons_swap _ slot, Multiset.cons_swap _ slot]

theorem table_succ :
    table connectionSocket used (free + 1) = (-1, 0) ::ₘ table connectionSocket used free := by
  unfold table
  rw [Multiset.replicate_succ, Multiset.add_cons, Multiset.cons_swap _ (-1, 0),
    Multiset.cons_swap _ (-1, 0)]

theorem mem_table (h : slot ∈ table connectionSocket used free) :
    slot ∈ used ∨ slot.1 ∈ [-1, 0, connectionSocket] ∧ slot.2 = 0 := by
  unfold table at h
  rw [Multiset.mem_cons, Multiset.mem_cons, Multiset.mem_add] at h
  rcases h with h | h | h | h
  . simp [h]
  . simp [h]
  . exact .inl h
  . simp [Multiset.eq_of_mem_replicate h]

theorem eq_zero_of_mem_table {sessions : Multiset (Session κ)} {fd : Int} {sum : Int32}
    (hne : ∀ session ∈ sessions, session.fd ≠ fd)
    (h : (fd, sum) ∈ table connectionSocket (sessions.map Session.slot) free) : sum = 0 := by
  rcases mem_table h with hmem | ⟨_, hzero⟩
  . have ⟨session, hsession, hslot⟩ := Multiset.mem_map.mp hmem
    exact absurd (Prod.mk.inj hslot).1 (hne session hsession)
  . exact hzero

end Table

structure Represents (connectionSocket : Int) (s : State κ) (a : Sessions κ) : Prop where
  slots : ∃ free, a.sessions.card + free = maxClientsSupport - 2
    ∧ slots s.monitorFdSet s.clientResponse
      = table connectionSocket (a.sessions.map Session.slot) free
  length_monitorFdSet : s.monitorFdSet.length = maxClientsSupport
  length_clientResponse : s.clientResponse.length = maxClientsSupport
  connections : (s.connections : Multiset (Connection κ)) = a.sessions.map Session.toConnection
  used : ∀ session ∈ a.sessions, session.fd ∉ [-1, 0, connectionSocket]
  nodup : (a.sessions.map fun session => session.fd).Nodup
  accepted : s.accepted = a.accepted
  responses : s.responses = a.responses

theorem represents_start :
    Represents connectionSocket (.start connectionSocket) (.start : Sessions κ) where
  slots := ⟨30, rfl, rfl⟩
  length_monitorFdSet := by simp [State.start, addToMonitorFdSet, initMonitorFdSet]
  length_clientResponse := List.length_replicate
  connections := rfl
  used := by
    intro session hsession
    exact absurd hsession (Multiset.notMem_zero _)
  nodup := Multiset.nodup_zero
  accepted := rfl
  responses := rfl

namespace Represents

variable {session : Session κ} {others : Multiset (Session κ)} {tempData : Int32}
  {unread : List Int32} {readFd : List Int} {index : Nat} {tempFd : Int}

theorem nodup_cons (h : Represents connectionSocket s a) (hsessions : a.sessions = session ::ₘ others) :
    (session.fd ::ₘ others.map fun session => session.fd).Nodup := by
  have hnodup := h.nodup
  rw [hsessions, Multiset.map_cons] at hnodup
  exact hnodup

theorem fd_ne (h : Represents connectionSocket s a) (hsessions : a.sessions = session ::ₘ others)
    {other : Session κ} (hother : other ∈ others) : other.fd ≠ session.fd := by
  have ⟨hnotMem, _⟩ := Multiset.nodup_cons.mp (h.nodup_cons hsessions)
  intro heq
  exact hnotMem (heq ▸ Multiset.mem_map_of_mem _ hother)

theorem filter_connections (h : Represents connectionSocket s a)
    (hsessions : a.sessions = session ::ₘ others) :
    ((s.connections.filter fun c => c.fd ≠ session.fd : List (Connection κ)) : Multiset (Connection κ))
      = others.map Session.toConnection := by
  have hconnections := h.connections
  rw [hsessions, Multiset.map_cons] at hconnections
  rw [← Multiset.filter_coe, hconnections, Multiset.filter_cons_of_neg, Multiset.filter_eq_self]
  . intro c hc
    have ⟨other, hother, heq⟩ := Multiset.mem_map.mp hc
    rw [← heq]
    exact h.fd_ne hsessions hother
  . exact not_not_intro rfl

theorem read_eq (h : Represents connectionSocket s a) (hsessions : a.sessions = session ::ₘ others)
    (hunread : session.unread = tempData :: unread) :
    s.read session.fd = some ({ session.toConnection with unread := unread }, tempData) := by
  have hmem : session.toConnection ∈ s.connections := by
    rw [← Multiset.mem_coe, h.connections, hsessions, Multiset.map_cons]
    exact Multiset.mem_cons_self _ _
  have hfind : s.connections.find? (fun c => c.fd = session.fd) = some session.toConnection := by
    cases hfound : s.connections.find? fun c => c.fd = session.fd with
    | none =>
      rw [List.find?_eq_none] at hfound
      have := hfound _ hmem
      simp at this
    | some c =>
      have hc := List.mem_of_find?_eq_some hfound
      have hfd := List.find?_some hfound
      simp only [decide_eq_true_eq] at hfd
      rw [← Multiset.mem_coe, h.connections, hsessions, Multiset.map_cons, Multiset.mem_cons] at hc
      rcases hc with heq | hc
      . rw [heq]
      . have ⟨other, hother, heq⟩ := Multiset.mem_map.mp hc
        rw [← heq] at hfd
        exact absurd hfd (h.fd_ne hsessions hother)
  have hconnection : session.toConnection = ⟨session.fd, session.client, tempData :: unread⟩ := by
    rw [← hunread]
  rw [State.read, hfind, hconnection]

theorem exists_session (h : Represents connectionSocket s a) (hindex : index < maxClientsSupport)
    (hfd : s.monitorFdSet.getD index (-1) ∉ [-1, 0, connectionSocket]) :
    ∃ session others, a.sessions = session ::ₘ others
      ∧ s.monitorFdSet[index]? = some session.fd
      ∧ s.clientResponse[index]? = some session.clientResponse := by
  have hfds : index < s.monitorFdSet.length := by
    rw [h.length_monitorFdSet]
    exact hindex
  have hsums : index < s.clientResponse.length := by
    rw [h.length_clientResponse]
    exact hindex
  have hfd' := List.getElem?_eq_getElem hfds
  have hsum := List.getElem?_eq_getElem hsums
  rw [List.getD_eq_getElem?_getD, hfd', Option.getD_some] at hfd
  have ⟨free, _, hslots⟩ := h.slots
  have hmem := mem_slots hfd' hsum
  rw [hslots] at hmem
  rcases mem_table hmem with hmem | ⟨hother, _⟩
  . have ⟨session, hsession, hslot⟩ := Multiset.mem_map.mp hmem
    have ⟨others, hsessions⟩ := Multiset.exists_cons_of_mem hsession
    have ⟨hslotFd, hslotSum⟩ := Prod.mk.inj hslot
    refine ⟨session, others, hsessions, ?_, ?_⟩
    . rw [hfd', hslotFd]
    . rw [hsum, hslotSum]
  . contradiction

theorem slots_cons (h : Represents connectionSocket s a) (hsessions : a.sessions = session ::ₘ others) :
    ∃ free, others.card + 1 + free = maxClientsSupport - 2
      ∧ SlotTable.slots s.monitorFdSet s.clientResponse
        = session.slot ::ₘ table connectionSocket (others.map Session.slot) free := by
  have ⟨free, hfree, hslots⟩ := h.slots
  rw [hsessions, Multiset.card_cons] at hfree
  rw [hsessions, Multiset.map_cons, table_cons] at hslots
  exact ⟨free, hfree, hslots⟩

theorem add (h : Represents connectionSocket s a) (hsessions : a.sessions = session ::ₘ others)
    (hfd : s.monitorFdSet[index]? = some session.fd)
    (hsum : s.clientResponse[index]? = some session.clientResponse) :
    Represents connectionSocket
      { s with
        clientResponse := s.clientResponse.set index (session.clientResponse + tempData)
        connections := { session.toConnection with unread := unread }
          :: s.connections.filter fun c => c.fd ≠ session.fd }
      { a with
        sessions := ⟨{ session.toConnection with unread := unread },
          session.clientResponse + tempData⟩ ::ₘ others } where
  slots := by
    have ⟨free, hfree, hslots⟩ := h.slots_cons hsessions
    refine ⟨free, ?_, ?_⟩
    . rw [Multiset.card_cons]
      exact hfree
    . rw [Multiset.map_cons, table_cons]
      exact slots_set hfd hsum hslots _
  length_monitorFdSet := h.length_monitorFdSet
  length_clientResponse := by
    rw [List.length_set]
    exact h.length_clientResponse
  connections := by
    rw [← Multiset.cons_coe, h.filter_connections hsessions, Multiset.map_cons]
  used := by
    intro other hother
    rcases Multiset.mem_cons.mp hother with heq | hold
    . rw [heq]
      exact h.used session (hsessions ▸ Multiset.mem_cons_self _ _)
    . exact h.used other (hsessions ▸ Multiset.mem_cons_of_mem hold)
  nodup := by
    have hnodup := h.nodup_cons hsessions
    rw [Multiset.map_cons]
    exact hnodup
  accepted := h.accepted
  responses := h.responses

theorem finish (h : Represents connectionSocket s a) (hsessions : a.sessions = session ::ₘ others)
    (hfd : s.monitorFdSet[index]? = some session.fd)
    (hsum : s.clientResponse[index]? = some session.clientResponse) :
    Represents connectionSocket
      { s with
        monitorFdSet := removeFromMonitorFdSet s.monitorFdSet session.fd
        clientResponse := s.clientResponse.set index 0
        connections := s.connections.filter fun c => c.fd ≠ session.fd
        responses := (session.client, result session.clientResponse) :: s.responses }
      { a with
        sessions := others
        responses := (session.client, result session.clientResponse) :: a.responses } where
  slots := by
    have ⟨free, hfree, hslots⟩ := h.slots_cons hsessions
    have hcleared := slots_set hfd hsum hslots 0
    have hunique : ∀ sum, (session.fd, sum) ∈ table connectionSocket (others.map Session.slot) free →
        sum = 0 := fun _ hmem =>
      eq_zero_of_mem_table (fun _ hother => h.fd_ne hsessions hother) hmem
    refine ⟨free + 1, ?_, ?_⟩
    . dsimp only
      omega
    . rw [table_succ]
      apply slots_replace (List.mem_of_getElem? hfd) _ hcleared hunique
      rw [List.length_set, h.length_monitorFdSet, h.length_clientResponse]
  length_monitorFdSet := by
    unfold removeFromMonitorFdSet
    rw [List.length_replace]
    exact h.length_monitorFdSet
  length_clientResponse := by
    rw [List.length_set]
    exact h.length_clientResponse
  connections := h.filter_connections hsessions
  used := fun other hother => h.used other (hsessions ▸ Multiset.mem_cons_of_mem hother)
  nodup := (Multiset.nodup_cons.mp (h.nodup_cons hsessions)).2
  accepted := h.accepted
  responses := by
    rw [h.responses]

theorem accept {dataSocket : Int} (h : Represents connectionSocket s a)
    (hfew : s.connections.length < maxClientsSupport - 2)
    (hunused : dataSocket ∉ -1 :: 0 :: connectionSocket :: s.connections.map Connection.fd)
    (client : κ) : Represents connectionSocket (s.accept clients dataSocket client)
      { a with
        sessions := ⟨⟨dataSocket, client, (clients client).sends⟩, 0⟩ ::ₘ a.sessions
        accepted := client :: a.accepted } where
  slots := by
    have ⟨free, hfree, hslots⟩ := h.slots
    have hcard : s.connections.length = a.sessions.card := by
      rw [← Multiset.coe_card, h.connections, Multiset.card_map]
    obtain ⟨rest, hrest⟩ : ∃ rest, free = rest + 1 := Nat.exists_eq_succ_of_ne_zero (by omega)
    rw [hrest, table_succ] at hslots
    have hmem : (-1, 0) ∈ SlotTable.slots s.monitorFdSet s.clientResponse :=
      hslots ▸ Multiset.mem_cons_self _ _
    have hused : ∀ session ∈ a.sessions, session.fd ≠ -1 := by
      intro session hsession hfd
      exact h.used session hsession (by simp [hfd])
    have hunique : ∀ sum, (-1, sum) ∈ table connectionSocket (a.sessions.map Session.slot) rest →
        sum = 0 := fun _ hmem => eq_zero_of_mem_table hused hmem
    refine ⟨rest, ?_, ?_⟩
    . rw [Multiset.card_cons]
      omega
    . rw [Multiset.map_cons, table_cons]
      apply slots_replace (List.of_mem_zip hmem).1 _ hslots hunique
      rw [h.length_monitorFdSet, h.length_clientResponse]
  length_monitorFdSet := by
    unfold State.accept addToMonitorFdSet
    rw [List.length_replace]
    exact h.length_monitorFdSet
  length_clientResponse := h.length_clientResponse
  connections := by
    unfold State.accept
    rw [← Multiset.cons_coe, h.connections, Multiset.map_cons]
  used := by
    intro session hsession
    rcases Multiset.mem_cons.mp hsession with heq | hold
    . rw [heq]
      simp only [List.mem_cons, not_or] at hunused
      simp [hunused]
    . exact h.used session hold
  nodup := by
    have hfds : a.sessions.map (fun session => session.fd) = s.connections.map Connection.fd := by
      rw [← Multiset.map_coe, h.connections, Multiset.map_map]
      rfl
    rw [Multiset.map_cons, Multiset.nodup_cons]
    refine ⟨?_, h.nodup⟩
    rw [hfds, Multiset.mem_coe]
    simp only [List.mem_cons, not_or] at hunused
    exact hunused.2.2.2
  accepted := by
    unfold State.accept
    rw [h.accepted]
  responses := h.responses

theorem scanSlot (h : Represents connectionSocket s a) (hinv : a.Inv clients)
    (hready : ∀ fd ∈ [-1, 0, connectionSocket], fd ∉ readFd) (hindex : index < maxClientsSupport) :
    ∃ s' a', State.scanSlot readFd s index = some s' ∧ Sessions.Steps clients a a'
      ∧ Represents connectionSocket s' a' := by
  unfold State.scanSlot
  by_cases hset : s.monitorFdSet.getD index (-1) ∈ readFd
  . have hfd : s.monitorFdSet.getD index (-1) ∉ [-1, 0, connectionSocket] := fun hmem =>
      hready _ hmem hset
    obtain ⟨session, others, hsessions, hfd, hsum⟩ := h.exists_session hindex hfd
    have hmem : session ∈ a.sessions := hsessions ▸ Multiset.mem_cons_self _ _
    have htempFd : s.monitorFdSet.getD index (-1) = session.fd := by
      rw [List.getD_eq_getElem?_getD, hfd, Option.getD_some]
    have hsumD : s.clientResponse.getD index 0 = session.clientResponse := by
      rw [List.getD_eq_getElem?_getD, hsum, Option.getD_some]
    rw [htempFd] at hset
    cases hunread : session.unread with
    | nil => exact absurd hunread (hinv.unread_ne_nil hmem)
    | cons tempData unread =>
      dsimp only
      rw [htempFd, if_pos hset, h.read_eq hsessions hunread, hsumD]
      dsimp only
      by_cases hzero : tempData = 0
      . have hhandle : Sequential.handle session.clientResponse tempData
            = (some (result session.clientResponse), 0) := if_pos hzero
        rw [if_pos hzero]
        exact ⟨_, _, rfl, .single (.finish hsessions hunread hhandle), h.finish hsessions hfd hsum⟩
      . have hhandle : Sequential.handle session.clientResponse tempData
            = (none, session.clientResponse + tempData) := if_neg hzero
        rw [if_neg hzero]
        exact ⟨_, _, rfl, .single (.add hsessions hunread hhandle), h.add hsessions hfd hsum⟩
  . dsimp only
    rw [if_neg hset]
    exact ⟨s, a, rfl, .refl, h⟩

theorem scan (h : Represents connectionSocket s a) (hinv : a.Inv clients)
    (hready : ∀ fd ∈ [-1, 0, connectionSocket], fd ∉ readFd) :
    ∃ s' a', s.scan readFd = some s' ∧ Sessions.Steps clients a a'
      ∧ Represents connectionSocket s' a' := by
  unfold State.scan
  have hlt : ∀ index ∈ List.range maxClientsSupport, index < maxClientsSupport := by
    intro index
    exact List.mem_range.mp
  revert hlt
  generalize List.range maxClientsSupport = indices
  intro hlt
  induction indices generalizing s a with
  | nil => exact ⟨s, a, rfl, .refl, h⟩
  | cons index indices ih =>
    rw [List.forall_mem_cons] at hlt
    obtain ⟨s', a', hslot, hsteps, h'⟩ := h.scanSlot hinv hready hlt.1
    obtain ⟨s'', a'', hrest, hsteps', h''⟩ := ih h' (hinv.steps hsteps) hlt.2
    refine ⟨s'', a'', ?_, hsteps.trans hsteps', h''⟩
    rw [List.foldlM_cons, hslot]
    exact hrest

theorem next {round : Round κ} (h : Represents connectionSocket s a) (hinv : a.Inv clients)
    (hpossible : State.Possible connectionSocket s round) :
    ∃ s' a', s.next clients connectionSocket round = some s' ∧ Sessions.Steps clients a a'
      ∧ Represents connectionSocket s' a' := by
  unfold State.next
  by_cases hsocket : connectionSocket ∈ round.readFd
  . rw [if_pos hsocket]
    exact ⟨_, _, rfl, .single (.accept _ _),
      h.accept (hpossible.few hsocket) (hpossible.unused hsocket) _⟩
  rw [if_neg hsocket]
  by_cases hconsole : 0 ∈ round.readFd
  . rw [if_pos hconsole]
    exact ⟨s, a, rfl, .refl, h⟩
  rw [if_neg hconsole]
  apply h.scan hinv
  intro fd hfd
  simp only [List.mem_cons, List.not_mem_nil, or_false] at hfd
  rcases hfd with heq | heq | heq
  . exact heq ▸ hpossible.free_notMem
  . exact heq ▸ hconsole
  . exact heq ▸ hsocket

end Represents

theorem exists_sessions (h : (multiplexed clients connectionSocket).Reachable s) :
    ∃ a, Sessions.Steps clients .start a ∧ Represents connectionSocket s a := by
  apply h.invariant
    (P := fun s => ∃ a, Sessions.Steps clients .start a ∧ Represents connectionSocket s a)
  . intro s hs
    have hs : s = .start connectionSocket := hs
    rw [hs]
    exact ⟨.start, .refl, represents_start⟩
  . intro s round t ⟨a, hsteps, h⟩ _ ⟨hpossible, hnext⟩
    have ⟨s', a', hnext', hsteps', h'⟩ := h.next (Sessions.Inv.start.steps hsteps) hpossible
    rw [hnext, Option.some.injEq] at hnext'
    rw [hnext']
    exact ⟨a', hsteps.trans hsteps', h'⟩

/--
Every client that was accepted is either still connected or has had one response, which is the one that
the sequential server gives it, and no pass through the loop fails. The number in the response is the
wrapped sum of what the client sent.
-/
theorem multiplexed_refines_sequential (h : (multiplexed clients connectionSocket).Reachable s) :
    (∀ response ∈ s.responses,
        Sequential.loop 0 [(clients response.1).sends] = [response.2]
          ∧ response.2 = result (clients response.1).total
          ∧ number response.2
            = (((clients response.1).ints.map Int32.toInt).sum).bmod (2 ^ 32))
      ∧ s.accepted.Perm (s.connections.map Connection.client ++ s.responses.map Prod.fst)
      ∧ ∀ round, State.Possible connectionSocket s round →
          (s.next clients connectionSocket round).isSome = true := by
  have ⟨a, hsteps, hrepresents⟩ := exists_sessions h
  have hinv : a.Inv clients := Sessions.Inv.start.steps hsteps
  refine ⟨?_, ?_, ?_⟩
  . intro response hresponse
    rw [hrepresents.responses] at hresponse
    have heq := hinv.response_eq hresponse
    have hloop := Sequential.loop_sends [clients response.1]
    rw [List.map_singleton, List.map_singleton, ← heq] at hloop
    refine ⟨hloop, heq, ?_⟩
    rw [heq, number_result, Client.toInt_total]
  . have haccepted := hinv.accepted
    have hclients : a.sessions.map (fun session => session.client)
        = s.connections.map Connection.client := by
      rw [← Multiset.map_coe, hrepresents.connections, Multiset.map_map]
      rfl
    rw [hclients, ← hrepresents.accepted, ← hrepresents.responses, Multiset.coe_add,
      Multiset.coe_eq_coe] at haccepted
    exact haccepted
  . intro round hpossible
    have ⟨s', _, hnext, _⟩ := hrepresents.next hinv hpossible
    rw [hnext]
    rfl

def twoClients : Bool → Client
  | false => ⟨[5], by decide⟩
  | true => ⟨[2147483647, 1], by decide⟩

-- a client comes back on the descriptor and in the slot that it had before
def reuseRounds : List (Round Bool) :=
  [⟨[3], 4, false⟩, ⟨[3], 5, true⟩, ⟨[4, 5], 0, false⟩, ⟨[5, 4], 0, false⟩, ⟨[3, 5], 4, false⟩,
    ⟨[4, 5], 0, false⟩]

def reused : State Bool :=
  TransitionSystem.runFrom (State.next twoClients 3) (.start 3) reuseRounds

theorem scheduled_reuseRounds : TransitionSystem.Scheduled (State.Possible 3)
    (State.next twoClients 3) (fun _ _ => True) (.start 3) reuseRounds := by
  refine ⟨trivial, by decide +kernel, by decide +kernel, ?_⟩
  refine ⟨trivial, by decide +kernel, by decide +kernel, ?_⟩
  refine ⟨trivial, by decide +kernel, by decide +kernel, ?_⟩
  refine ⟨trivial, by decide +kernel, by decide +kernel, ?_⟩
  refine ⟨trivial, by decide +kernel, by decide +kernel, ?_⟩
  exact ⟨trivial, by decide +kernel, by decide +kernel, trivial⟩

theorem multiplexed_refines_sequential_reused :
    reused.responses.map (fun response => (response.1, cstr response.2, number response.2))
        = [(true, text "Result = -2147483648", -2147483648), (false, text "Result = 5", 5)]
      ∧ ∀ response ∈ reused.responses,
        Sequential.loop 0 [(twoClients response.1).sends] = [response.2]
          ∧ number response.2
            = (((twoClients response.1).ints.map Int32.toInt).sum).bmod (2 ^ 32) := by
  have hreachable : (multiplexed twoClients 3).Reachable reused :=
    TransitionSystem.reachableVia_runFrom (.init rfl) scheduled_reuseRounds
  refine ⟨by decide +kernel, ?_⟩
  intro response hresponse
  obtain ⟨hloop, _, hnumber⟩ := (multiplexed_refines_sequential hreachable).1 response hresponse
  exact ⟨hloop, hnumber⟩

end SumServer
