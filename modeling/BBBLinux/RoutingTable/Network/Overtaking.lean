import BBBLinux.RoutingTable.Network.Flush

/-!
This module contains what happens when FLUSH overtakes a route. The signal keeps no order with the
messages, so the handler may run while the message of an older route is still on its way, and once the
client has worked this message off it has a route from before the FLUSH.
-/

namespace RoutingTable

open CString

variable {line : Mem} {u : Locals} {t t' : Tables} {info : DataInfo} {c c' : Client}
  {message : Message} {messages rest : List Message}

theorem request_route_ne_nil (hroute : (parseLine u line).command = some (.create, .route info))
    (h : request t u line = some t') : t'.head ≠ [] := by
  rw [request_eq hroute rfl, Option.some.injEq] at h
  rw [← h]
  unfold Tables.guarded
  split
  . simp [Tables.perform, addLastEntryList_eq]
  . next hcheck =>
    intro hnil
    simp only [Tables.check, checkCondition_create_iff, hnil] at hcheck
    simp at hcheck

namespace Client

/--
`c'` is `c` after it has worked off some messages.
-/
structure WorksOff (c c' : Client) (messages rest : List Message) : Prop where
  running : c'.phase = .running
  unread : c'.unread = rest
  handled : c'.handled = c.handled
  aligned : c'.born.map Prod.fst = c'.tables.head
  born : ∃ new, c'.born = c.born ++ new
    ∧ ∀ entry ∈ new, ∃ message ∈ messages, entry.2 = message.epoch

theorem exists_request (hrun : c.phase = .running) (hbuffer : c.buffer = some message)
    (hcreate : firstLetter message.text = 'C'.toUInt8) (u : Locals) :
    ∃ c', c.request u = some c' := by
  have ⟨t', ht', _⟩ := request_of_create (t := c.tables) (u := u) hcreate
  unfold request
  rw [hrun, hbuffer]
  dsimp only
  rw [ht']
  exact ⟨_, rfl⟩

end Client

namespace Network

variable {net net' : Network} {l : Label} {fd : Int}

theorem step_of_onClient {step : Client → Option Client} (hl : net.next l = net.onClient fd step)
    (hpossible : net.Possible l) (hc : net.clients fd = some c) (hstep : step c = some c') :
    system.step net l (net.setClient fd c') := by
  refine ⟨hpossible, ?_⟩
  rw [hl]
  unfold onClient
  rw [hc, Option.bind_some, hstep, Option.map_some]

theorem setClient_self (net : Network) (fd : Int) (c : Client) :
    (net.setClient fd c).clients fd = some c := by
  rw [setClient_clients, if_pos rfl]

/--
A client that has something to read gets it into its buffer.
-/
theorem exists_read (hc : net.clients fd = some c) (hrun : c.phase = .running)
    (hunread : c.unread = message :: rest) :
    ∃ net' c', (system.startingAt net).ReachableVia (fun _ l => CreateOrFlush l) net'
      ∧ net'.clients fd = some c'
      ∧ c' = { c with buffer := some message, inbox := rest } := by
  unfold Client.unread at hunread
  cases hbuffer : c.buffer with
  | some message' =>
    rw [hbuffer] at hunread
    injection hunread with hmessage hrest
    refine ⟨net, c, .init rfl, hc, ?_⟩
    rw [← hmessage, ← hrest, ← hbuffer]
    rfl
  | none =>
    rw [hbuffer] at hunread
    have hinbox : c.inbox = message :: rest := hunread
    have hread : c.read = some { c with buffer := some message, inbox := rest } := by
      unfold Client.read
      rw [hrun, hbuffer, hinbox]
    refine ⟨net.setClient fd { c with buffer := some message, inbox := rest }, _, ?_,
      setClient_self _ _ _, rfl⟩
    apply TransitionSystem.ReachableVia.step (i := .read fd) (.init rfl) trivial
    exact step_of_onClient rfl trivial hc hread

theorem exists_worksOff_one (hc : net.clients fd = some c) (hrun : c.phase = .running)
    (haligned : c.born.map Prod.fst = c.tables.head) (hunread : c.unread = message :: rest)
    (hcreate : firstLetter message.text = 'C'.toUInt8) (u : Locals) :
    ∃ net' c', (system.startingAt net).ReachableVia (fun _ l => CreateOrFlush l) net'
      ∧ net'.clients fd = some c' ∧ c.WorksOff c' [message] rest
      ∧ RoutingTable.request c.tables u message.text = some c'.tables := by
  have ⟨net₁, c₁, hreach, hc₁, heq⟩ := exists_read hc hrun hunread
  have hrun₁ : c₁.phase = .running := by
    rw [heq]
    exact hrun
  have hbuffer₁ : c₁.buffer = some message := by rw [heq]
  have haligned₁ : c₁.born.map Prod.fst = c₁.tables.head := by
    rw [heq]
    exact haligned
  have ⟨c', hrequest⟩ := Client.exists_request hrun₁ hbuffer₁ hcreate u
  have ⟨hhandled, hphase, haligned', htables, new, hborn, hnew⟩ :=
    Client.born_of_request hbuffer₁ hcreate haligned₁ hrequest
  have ⟨_, hunread'⟩ := Client.inbox_of_request hrequest
  rw [Client.unread_eq_cons hbuffer₁] at hunread'
  injection hunread' with _ hrest
  rw [heq] at hhandled htables hborn hrest
  refine ⟨net₁.setClient fd c', c', ?_, setClient_self net₁ fd c', ?_, htables⟩
  . have hok : CreateOrFlush (.request fd u) := trivial
    apply hreach.step hok
    exact step_of_onClient rfl trivial hc₁ hrequest
  . refine ⟨hphase.trans hrun₁, hrest.symm, hhandled, haligned', new, hborn, ?_⟩
    intro entry hentry
    exact ⟨message, List.mem_singleton_self message, hnew entry hentry⟩

theorem exists_worksOff (hc : net.clients fd = some c) (hrun : c.phase = .running)
    (haligned : c.born.map Prod.fst = c.tables.head) (hunread : c.unread = messages ++ rest)
    (hcreate : ∀ message ∈ messages, firstLetter message.text = 'C'.toUInt8) (u : Locals) :
    ∃ net' c', (system.startingAt net).ReachableVia (fun _ l => CreateOrFlush l) net'
      ∧ net'.clients fd = some c' ∧ c.WorksOff c' messages rest := by
  induction messages generalizing net c with
  | nil =>
    refine ⟨net, c, .init rfl, hc, hrun, hunread, rfl, haligned, [], by simp, ?_⟩
    intro entry hentry
    contradiction
  | cons message messages ih =>
    have ⟨net₁, c₁, hreach₁, hc₁, hworks₁, _⟩ :=
      exists_worksOff_one hc hrun haligned hunread (hcreate message List.mem_cons_self) u
    have ⟨net', c', hreach, hc', hworks⟩ := ih hc₁ hworks₁.running hworks₁.aligned hworks₁.unread
      fun message' hmem => hcreate message' (List.mem_cons_of_mem message hmem)
    have ⟨new₁, hborn₁, hnew₁⟩ := hworks₁.born
    have ⟨new, hborn, hnew⟩ := hworks.born
    refine ⟨net', c', hreach₁.trans hreach, hc', hworks.running, hworks.unread,
      hworks.handled.trans hworks₁.handled, hworks.aligned, new₁ ++ new, ?_, ?_⟩
    . rw [hborn, hborn₁, List.append_assoc]
    . intro entry hentry
      rw [List.mem_append] at hentry
      cases hentry with
      | inl hmem =>
        have ⟨message', hmessage, hepoch⟩ := hnew₁ entry hmem
        rw [List.mem_singleton] at hmessage
        exact ⟨message, List.mem_cons_self, by rw [hepoch, hmessage]⟩
      | inr hmem =>
        have ⟨message', hmessage, hepoch⟩ := hnew entry hmem
        exact ⟨message', List.mem_cons_of_mem message hmessage, hepoch⟩

theorem queued_of_reachable (h : system.ReachableVia (fun _ l => CreateOrFlush l) net)
    (hc : net.clients fd = some c) : c.Queued net.flushes := by
  apply stable_of_reachable Client.Queued.stable _ fd c hc
  apply h.mono
  intro net l hok
  refine ⟨hok, ?_⟩
  cases l with
  | handle fd =>
    intro _ _
    trivial
  | _ => trivial

/--
Once the handler has run in front of an older route, the client only has to go on reading.
-/
theorem exists_overtaken (hreach : system.ReachableVia (fun _ l => CreateOrFlush l) net)
    (hc : net.clients fd = some c) (hhandle : c.handle net.flushes = some c')
    (hmem : message ∈ c.unread) (hold : message.epoch < net.flushes)
    (hroute : (parseLine u message.text).command = some (.create, .route info)) :
    ∃ net' c'', (system.startingAt (net.setClient fd c')).ReachableVia (fun _ l => CreateOrFlush l) net'
      ∧ net'.clients fd = some c'' ∧ ¬c''.FlushKept := by
  have hqueued := queued_of_reachable hreach hc
  have ⟨hrun, _, hc'⟩ := Client.handle_eq_some hhandle
  have hrun' : c'.phase = .running := by
    rw [hc']
    exact hrun
  have hborn' : c'.born = [] := by rw [hc']
  have hhandled' : c'.handled = net.flushes := by rw [hc']
  have haligned' : c'.born.map Prod.fst = c'.tables.head := by
    rw [hc']
    rfl
  have hunread' : c'.unread = c.unread := by
    rw [hc']
    rfl
  have ⟨before, rest, hsplit⟩ := List.append_of_mem hmem
  have hcreate (m : Message) (hm : m ∈ before ∨ m = message ∨ m ∈ rest) :
      firstLetter m.text = 'C'.toUInt8 := by
    apply hqueued.create
    rw [hsplit, List.mem_append, List.mem_cons]
    exact hm
  have hbefore : ∀ m ∈ before, m.epoch ≤ message.epoch := by
    have hsorted := hqueued.sorted
    rw [hsplit, List.pairwise_append] at hsorted
    intro m hm
    exact hsorted.2.2 m hm message List.mem_cons_self
  rw [hsplit] at hunread'
  -- first all messages in front of the one about the route, then this one, then the others
  have ⟨net₁, c₁, hreach₁, hc₁, hworks₁⟩ := exists_worksOff (setClient_self net fd c') hrun' haligned'
    hunread' (fun m hm => hcreate m (.inl hm)) u
  have ⟨net₂, c₂, hreach₂, hc₂, hworks₂, htables⟩ := exists_worksOff_one hc₁ hworks₁.running
    hworks₁.aligned hworks₁.unread (hcreate message (.inr (.inl rfl))) u
  have hunread₂ : c₂.unread = rest ++ [] := by rw [hworks₂.unread, List.append_nil]
  have ⟨net₃, c₃, hreach₃, hc₃, hworks₃⟩ := exists_worksOff hc₂ hworks₂.running hworks₂.aligned hunread₂
    (fun m hm => hcreate m (.inr (.inr hm))) u
  refine ⟨net₃, c₃, (hreach₁.trans hreach₂).trans hreach₃, hc₃, ?_⟩
  have ⟨new₁, hborn₁, hnew₁⟩ := hworks₁.born
  have ⟨new₂, hborn₂, hnew₂⟩ := hworks₂.born
  have ⟨new₃, hborn₃, _⟩ := hworks₃.born
  have hne : c₂.born ≠ [] := by
    intro hnil
    have haligned := hworks₂.aligned
    rw [hnil] at haligned
    exact request_route_ne_nil hroute htables haligned.symm
  have ⟨entry, hentry⟩ := List.exists_mem_of_ne_nil c₂.born hne
  have hepoch : entry.2 ≤ message.epoch := by
    rw [hborn₂, hborn₁, hborn', List.nil_append, List.mem_append] at hentry
    cases hentry with
    | inl hmem =>
      have ⟨m, hm, heq⟩ := hnew₁ entry hmem
      rw [heq]
      exact hbefore m hm
    | inr hmem =>
      have ⟨m, hm, heq⟩ := hnew₂ entry hmem
      rw [List.mem_singleton] at hm
      rw [heq, hm]
  intro hkept
  have hhandled₃ : c₃.handled = net.flushes := by
    rw [hworks₃.handled, hworks₂.handled, hworks₁.handled, hhandled']
  have hunread₃ : ∀ m ∈ c₃.unread, net.flushes ≤ m.epoch := by
    rw [hworks₃.unread]
    intro m hm
    contradiction
  have hentry₃ : entry ∈ c₃.born := by
    rw [hborn₃]
    exact List.mem_append_left new₃ hentry
  have hle := (hkept net.flushes hhandled₃.ge hunread₃).2 entry hentry₃
  omega

/--
FLUSH is not overtaken in runs in which the handler only runs when the older messages are worked off.
Where it runs before a client has worked off an older route, this route comes back.
-/
theorem flushKept_unless_overtaken (hc : net.clients fd = some c) :
    (system.ReachableVia (fun net l => CreateOrFlush l ∧ net.HandledIf WorkedOff l) net → c.FlushKept)
      ∧ ∀ c' message u info, system.ReachableVia (fun _ l => CreateOrFlush l) net →
        c.handle net.flushes = some c' → message ∈ c.unread → message.epoch < net.flushes →
        (parseLine u message.text).command = some (.create, .route info) →
        ∃ net' c'', (system.startingAt (net.setClient fd c')).ReachableVia
            (fun _ l => CreateOrFlush l) net'
          ∧ net'.clients fd = some c'' ∧ ¬c''.FlushKept := by
  constructor
  . intro hreach
    exact flushKept_of_workedOff hreach hc
  . intro c' message u info hreach hhandle hmem hold hroute
    exact exists_overtaken hreach hc hhandle hmem hold hroute

def flushLine : Mem :=
  bytes bufferSize (text "F\n")

def createThenFlush : List Label :=
  let console := Console.replying ""
  [.accept 4 100 [] [], .announce 4, .clientData 4, .install 4, .console console createRouteLine,
    .console console flushLine]

theorem createOrFlush_of_mem (net : Network) (h : l ∈ createThenFlush) :
    CreateOrFlush l ∧ net.HandledIf WorkedOff l := by
  have hroute : firstLetter createRouteLine = 'C'.toUInt8 := by decide +kernel
  have hflush : firstLetter flushLine = 'F'.toUInt8 := by decide +kernel
  simp only [createThenFlush, List.mem_cons, List.not_mem_nil, or_false] at h
  obtain rfl | rfl | rfl | rfl | rfl | rfl := h
  . exact ⟨trivial, trivial⟩
  . exact ⟨trivial, trivial⟩
  . exact ⟨trivial, trivial⟩
  . exact ⟨trivial, trivial⟩
  . exact ⟨.inl hroute, trivial⟩
  . exact ⟨.inr hflush, trivial⟩

theorem scheduled_createThenFlush {ok : Network → Label → Prop} {ls : List Label}
    (hok : ∀ net l, CreateOrFlush l → net.HandledIf WorkedOff l → ok net l)
    (hls : Scheduled ok ((start 3 fun _ => none).run createThenFlush) ls) :
    Scheduled ok (start 3 fun _ => none) (createThenFlush ++ ls) := by
  have hok (net : Network) (l : Label) (hl : l ∈ createThenFlush) : ok net l :=
    hok net l (createOrFlush_of_mem net hl).1 (createOrFlush_of_mem net hl).2
  refine ⟨hok _ _ (by simp [createThenFlush]), ?_, rfl, ?_⟩
  . refine ⟨rfl, by decide, by decide, by decide, ?_⟩
    intro fd c hc
    contradiction
  refine ⟨hok _ _ (by simp [createThenFlush]), trivial, rfl, ?_⟩
  refine ⟨hok _ _ (by simp [createThenFlush]), trivial, rfl, ?_⟩
  refine ⟨hok _ _ (by simp [createThenFlush]), trivial, rfl, ?_⟩
  refine ⟨hok _ _ (by simp [createThenFlush]), trivial, rfl, ?_⟩
  exact ⟨hok _ _ (by simp [createThenFlush]), trivial, rfl, hls⟩

def routeRead : Network :=
  (start 3 fun _ => none).run (createThenFlush ++ [.read 4, .request 4 .zero])

theorem flushKept_unless_overtaken_routeRead :
    ∃ c, (routeRead.run [.handle 4]).clients 4 = some c ∧ c.handled = 1 ∧ c.FlushKept := by
  have hread : system.ReachableVia (fun net l => CreateOrFlush l ∧ net.HandledIf WorkedOff l) routeRead := by
    apply reachableVia_run
    . exact .init ⟨3, by decide, _, rfl⟩
    . apply scheduled_createThenFlush
      . intro net l hok hworked
        exact ⟨hok, hworked⟩
      . refine ⟨⟨trivial, trivial⟩, trivial, by decide +kernel, ?_⟩
        exact ⟨⟨trivial, trivial⟩, trivial, by decide +kernel, trivial⟩
  have hunread : (routeRead.clients 4).map Client.unread = some [] := by
    decide +kernel
  have hreach : system.ReachableVia (fun net l => CreateOrFlush l ∧ net.HandledIf WorkedOff l)
      (routeRead.run [.handle 4]) := by
    apply reachableVia_run hread
    refine ⟨⟨trivial, ?_⟩, trivial, by decide +kernel, trivial⟩
    intro c hc message hmessage
    rw [hc, Option.map_some, Option.some.injEq] at hunread
    rw [hunread] at hmessage
    exact absurd hmessage List.not_mem_nil
  have hhandled : ((routeRead.run [.handle 4]).clients 4).map Client.handled = some 1 := by
    decide +kernel
  rw [Option.map_eq_some_iff] at hhandled
  have ⟨c, hc, hhandled⟩ := hhandled
  exact ⟨c, hc, hhandled, (flushKept_unless_overtaken hc).1 hreach⟩

def handleThenRead : Network :=
  (start 3 fun _ => none).run (createThenFlush ++ [.handle 4, .read 4, .request 4 .zero])

theorem handleThenRead_overtaken : ¬∀ (net : Network) (fd : Int) (c : Client),
    system.ReachableVia (fun _ l => CreateOrFlush l) net → net.clients fd = some c → c.FlushKept := by
  intro h
  have hreach : system.ReachableVia (fun _ l => CreateOrFlush l) handleThenRead := by
    apply reachableVia_run
    . exact .init ⟨3, by decide, _, rfl⟩
    . apply scheduled_createThenFlush
      . intro net l hok _
        exact hok
      . refine ⟨trivial, trivial, by decide +kernel, ?_⟩
        refine ⟨trivial, trivial, by decide +kernel, ?_⟩
        exact ⟨trivial, trivial, by decide +kernel, trivial⟩
  have hend : (handleThenRead.clients 4).map
      (fun c => (c.handled, c.unread, c.born.map Prod.snd)) = some (1, [], [0]) := by
    decide +kernel
  rw [Option.map_eq_some_iff] at hend
  have ⟨c, hc, hend⟩ := hend
  simp only [Prod.mk.injEq] at hend
  have hkept := (h handleThenRead 4 c hreach hc 1 (by omega) (by simp [hend.2.1])).2
  have hzero : 0 ∈ c.born.map Prod.snd := by simp [hend.2.2]
  rw [List.mem_map] at hzero
  have ⟨entry, hentry, heq⟩ := hzero
  specialize hkept entry hentry
  omega

end Network

end RoutingTable
