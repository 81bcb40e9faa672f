import BBBLinux.TcpServer.Impl

/-!
This module contains when the answers of the server are those to the pairs that its clients have sent: a
pair has to arrive in one piece.
-/

namespace TcpServer

open CString

namespace DataToServer

variable {data : DataToServer}

@[simp]
theorem length_bytes (data : DataToServer) : data.bytes.length = 8 := rfl

theorem bytes_ne_nil : data.bytes ≠ [] := by
  intro hnil
  have hlength := length_bytes data
  rw [hnil] at hlength
  contradiction

theorem ofBuffer_bytes (data : DataToServer) (k : Nat) :
    ofBuffer (data.bytes ++ List.replicate k 0) = data := by
  have hdrop : (data.bytes ++ List.replicate k 0).drop 4
      = LittleEndian.int32 data.num2 ++ List.replicate k 0 := rfl
  unfold ofBuffer
  rw [hdrop, LittleEndian.ofBytes_int32_append, bytes, List.append_assoc,
    LittleEndian.ofBytes_int32_append]

theorem quit_bytes : quit.bytes = List.replicate 8 0 := by
  decide

theorem ofBuffer_zeros (k : Nat) : ofBuffer (List.replicate k 0) = quit := by
  unfold ofBuffer
  rw [List.drop_replicate, LittleEndian.ofBytes_zeros, LittleEndian.ofBytes_zeros]
  rfl

theorem map_result (pairs : List DataToServer) : (pairs.map result).map Int32.toInt
    = pairs.map fun data => (data.num1.toInt + data.num2.toInt).bmod (2 ^ 32) := by
  rw [List.map_map]
  apply List.map_congr_left
  intro data _
  exact Int32.toInt_add data.num1 data.num2

theorem eq_quit_iff : data.num1 = 0 ∧ data.num2 = 0 ↔ data = quit := by
  cases data
  simp [quit]

end DataToServer

namespace Connection

variable {c c' : Connection} {action : Action} {count : Nat} {data : Mem}

/--
What the server may still read of a connection is nothing or the whole of the last pair.
-/
inductive Whole (c : Connection) : Prop where
  | idle (hunread : c.unread = []) (hquit : .quit ∉ c.sent)
      (hanswers : c.answers = c.sent.map DataToServer.result)
  | asked (earlier : List DataToServer) (last : DataToServer) (hunread : c.unread = last.bytes)
      (hsent : c.sent = earlier ++ [last]) (hquit : .quit ∉ earlier)
      (hanswers : c.answers = earlier.map DataToServer.result)

namespace Whole

theorem prefix_answers (h : c.Whole) : c.answers <+: c.sent.map DataToServer.result := by
  cases h with
  | idle hunread hquit hanswers =>
    exact hanswers ▸ List.prefix_refl _
  | asked earlier last hunread hsent hquit hanswers =>
    rw [hanswers, hsent, List.map_append]
    exact List.prefix_append _ _

theorem answers_eq (h : c.Whole) (hunread : c.unread = []) :
    c.answers = c.sent.map DataToServer.result := by
  cases h with
  | idle _ hquit hanswers => exact hanswers
  | asked earlier last hbytes hsent hquit hanswers =>
    rw [hbytes] at hunread
    exact absurd hunread DataToServer.bytes_ne_nil

theorem act (h : c.Whole) (hact : c.act action = some c') : c'.Whole := by
  cases action with
  | send data =>
    simp only [Connection.act, Option.ite_none_right_eq_some, Option.some.injEq] at hact
    obtain ⟨⟨_, hlength, hquit⟩, hc'⟩ := hact
    rw [← hc']
    cases h with
    | idle hunread _ hanswers =>
      refine asked c.sent data ?_ rfl hquit hanswers
      dsimp only
      rw [hunread, List.nil_append]
    | asked earlier last hunread hsent _ hanswers =>
      rw [hsent, hanswers, List.length_append, List.length_map, List.length_singleton] at hlength
      omega
  | close =>
    simp only [Connection.act, Option.ite_none_right_eq_some, Option.some.injEq] at hact
    rw [← hact.2]
    cases h with
    | idle hunread hquit hanswers => exact idle hunread hquit hanswers
    | asked earlier last hunread hsent hquit hanswers =>
      exact asked earlier last hunread hsent hquit hanswers

theorem acts {actions : List Action} (h : c.Whole) (hacts : c.acts actions = some c') : c'.Whole := by
  unfold Connection.acts at hacts
  induction actions generalizing c with
  | nil =>
    cases hacts
    exact h
  | cons action actions ih =>
    rw [List.foldlM_cons, Option.bind_eq_bind, Option.bind_eq_some_iff] at hacts
    obtain ⟨d, hact, hrest⟩ := hacts
    exact ih (h.act hact) hrest

end Whole

theorem act_fd (h : c.act action = some c') : c'.fd = c.fd := by
  cases action <;> simp only [act, Option.ite_none_right_eq_some, Option.some.injEq] at h <;>
    rw [← h.2]

theorem acts_fd {actions : List Action} (h : c.acts actions = some c') : c'.fd = c.fd := by
  unfold acts at h
  induction actions generalizing c with
  | nil =>
    cases h
    rfl
  | cons action actions ih =>
    rw [List.foldlM_cons, Option.bind_eq_bind, Option.bind_eq_some_iff] at h
    obtain ⟨d, hact, hrest⟩ := h
    exact (ih hrest).trans (act_fd hact)

theorem recvfrom_eq_some (h : c.recvfrom count = some (data, c')) :
    c.unread = [] ∧ c.closed = true ∧ data = [] ∧ c' = c
    ∨ c.unread ≠ [] ∧ 0 < count ∧ count ≤ c.unread.length ∧ count ≤ bufferSize
      ∧ data = c.unread.take count ∧ c' = { c with unread := c.unread.drop count } := by
  unfold recvfrom at h
  split at h
  . next hunread =>
    simp only [Option.ite_none_right_eq_some, Option.some.injEq, Prod.mk.injEq] at h
    exact .inl ⟨hunread, h.1.1, h.2.1.symm, h.2.2.symm⟩
  . next hunread =>
    simp only [Option.ite_none_right_eq_some, Option.some.injEq, Prod.mk.injEq] at h
    exact .inr ⟨hunread, h.1.1, h.1.2.1, h.1.2.2, h.2.1.symm, h.2.2.symm⟩

end Connection

namespace State

variable {masterSocketFd : Int} {s t : State} {e : Event} {c c' : Connection} {index count : Nat}
  {readFd : List Int} {data : Mem}

/--
The answers are the sums of the pairs in their order, wrapped to 32 bits.
-/
structure Correct (s : State) : Prop where
  right : ∀ c ∈ s.connections ++ s.finished, c.answers.map Int32.toInt
    <+: c.sent.map fun data => (data.num1.toInt + data.num2.toInt).bmod (2 ^ 32)
  -- what was read is answered
  answered : ∀ c ∈ s.connections, c.unread = [] → c.answers.map Int32.toInt
    = c.sent.map fun data => (data.num1.toInt + data.num2.toInt).bmod (2 ^ 32)
  monitored : ∀ c ∈ s.connections, c.fd ∈ s.monitorFdSet
  finished : ∀ c ∈ s.finished, .quit ∈ c.sent ∨ c.closed = true

-- the connection in whose slot the loop is
def reading (s : State) : Option Connection :=
  match s.phase with
  | .select => none
  | .scan index readFd => (s.current index readFd).bind s.find

/--
`recvfrom` returns all of a pair, unless it is the one that ends the connection.
-/
def Keeps (s : State) : Event → Prop
  | .slot count => ∀ c ∈ s.reading, c.unread ≠ [] → .quit ∉ c.sent → count = 8
  | .client _ _ => True
  | .select _ _ _ => True

instance (s : State) (e : Event) : Decidable (s.Keeps e) :=
  match e with
  | .slot _ => inferInstanceAs (Decidable (∀ c ∈ s.reading, _))
  | .client _ _ => inferInstanceAs (Decidable True)
  | .select _ _ _ => inferInstanceAs (Decidable True)

/--
The slots are one for the master socket, one for each connection and the free ones.
-/
structure Slots (masterSocketFd : Int) (s : State) : Prop where
  master_ne : masterSocketFd ≠ -1
  fd_ne : ∀ c ∈ s.connections, c.fd ≠ -1
  slots : ∃ free, s.connections.length + free = maxClientsSupport - 1
    ∧ s.monitorFdSet.Perm
        (masterSocketFd :: s.connections.map Connection.fd ++ List.replicate free (-1))

structure Whole (s : State) : Prop where
  connections : ∀ c ∈ s.connections, c.Whole
  finished : ∀ c ∈ s.finished, c.answers <+: c.sent.map DataToServer.result
    ∧ (.quit ∈ c.sent ∨ c.closed = true)

theorem correct_of_whole (hslots : s.Slots masterSocketFd) (h : s.Whole) : s.Correct where
  right := by
    intro c hc
    rw [← DataToServer.map_result]
    apply List.IsPrefix.map
    rcases List.mem_append.mp hc with hc | hc
    . exact (h.connections c hc).prefix_answers
    . exact (h.finished c hc).1
  answered := by
    intro c hc hunread
    rw [(h.connections c hc).answers_eq hunread, DataToServer.map_result]
  monitored := by
    intro c hc
    have ⟨free, _, hperm⟩ := hslots.slots
    rw [hperm.mem_iff]
    apply List.mem_append_left
    exact List.mem_cons_of_mem _ (List.mem_map_of_mem hc)
  finished := fun c hc => (h.finished c hc).2

theorem find_eq_some {fd : Int} (h : s.find fd = some c) : c ∈ s.connections ∧ c.fd = fd := by
  have hfd := List.find?_some h
  simp only [decide_eq_true_eq] at hfd
  exact ⟨List.mem_of_find?_eq_some h, hfd⟩

/--
What the server does with the data of a connection.
-/
inductive Serves (s : State) (index : Nat) (readFd : List Int) (c : Connection) (data : Mem) :
    State → Prop where
  | closes (hdata : data = [] ∨ DataToServer.ofBuffer (bytes bufferSize data) = .quit) :
      Serves s index readFd c data (s.close c)
  | answers (hdata : DataToServer.ofBuffer (bytes bufferSize data) ≠ .quit) :
      Serves s index readFd c data
        { s.set { c with
            answers := c.answers ++ [(DataToServer.ofBuffer (bytes bufferSize data)).result] } with
          phase := .scan (index + 1) readFd }

theorem serves_serve (hlength : data.length ≤ bufferSize) :
    Serves s index readFd c data (s.serve index readFd c data) := by
  have hbuffer : memcpy (List.replicate bufferSize 0) 0 data data.length = bytes bufferSize data := by
    rw [memcpy, bytes_self, List.take_zero, List.nil_append, Nat.zero_add, List.drop_replicate, bytes,
      List.take_of_length_le hlength]
  simp only [serve, hbuffer, DataToServer.eq_quit_iff]
  split
  . next hnil => exact .closes (.inl (List.length_eq_zero_iff.mp hnil))
  . split
    . next hquit => exact .closes (.inr hquit)
    . next hquit => exact .answers hquit

theorem slot_eq_some (h : s.slot count = some t) :
    (∃ phase, t = { s with phase := phase })
    ∨ ∃ index readFd c data c', s.reading = some c ∧ c ∈ s.connections
      ∧ c.recvfrom count = some (data, c') ∧ Serves s index readFd c' data t := by
  unfold slot at h
  split at h
  . contradiction
  . next index readFd hphase =>
    split at h
    . split at h
      . exact .inl ⟨_, (Option.some.inj h).symm⟩
      . next fd hcurrent =>
        rw [Option.bind_eq_some_iff] at h
        obtain ⟨c, hc, h⟩ := h
        rw [Option.map_eq_some_iff] at h
        obtain ⟨⟨data, c'⟩, hrecv, ht⟩ := h
        have hlength : data.length ≤ bufferSize := by
          rcases Connection.recvfrom_eq_some hrecv with ⟨_, _, hdata, _⟩ | ⟨_, _, _, hsize, hdata, _⟩
          . rw [hdata]
            exact Nat.zero_le _
          . rw [hdata]
            exact (List.length_take_le _ _).trans hsize
        have hreading : s.reading = some c := by
          simp only [reading, hphase, hcurrent, Option.bind_some, hc]
        right
        refine ⟨index, readFd, c, data, c', hreading, (find_eq_some hc).1, hrecv, ?_⟩
        rw [← ht]
        exact serves_serve hlength
    . exact .inl ⟨_, (Option.some.inj h).symm⟩

theorem select_eq_some {fd : Int} {early : List Action}
    (h : s.select masterSocketFd readFd fd early = some t) :
    (∃ phase, t = { s with phase := phase })
    ∨ masterSocketFd ∈ readFd ∧ ∃ c, (Connection.connect fd).acts early = some c
      ∧ t = { s with
          monitorFdSet := addToMonitorFdSet s.monitorFdSet fd
          connections := c :: s.connections } := by
  unfold select at h
  split at h
  . split at h
    . next hmaster =>
      rw [Option.map_eq_some_iff] at h
      obtain ⟨c, hc, ht⟩ := h
      exact .inr ⟨hmaster, c, hc, ht.symm⟩
    . exact .inl ⟨_, (Option.some.inj h).symm⟩
  . contradiction

theorem client_eq_some {fd : Int} {action : Action}
    (h : s.next masterSocketFd (.client fd action) = some t) :
    ∃ c c', c ∈ s.connections ∧ c.act action = some c' ∧ t = s.set c' := by
  rw [next, Option.bind_eq_some_iff] at h
  obtain ⟨c, hc, h⟩ := h
  rw [Option.map_eq_some_iff] at h
  obtain ⟨c', hact, ht⟩ := h
  exact ⟨c, c', (find_eq_some hc).1, hact, ht.symm⟩

namespace Slots

theorem start (h : masterSocketFd ≠ -1) : (State.start masterSocketFd).Slots masterSocketFd where
  master_ne := h
  fd_ne := by
    intro c hc
    contradiction
  slots := ⟨31, rfl, List.Perm.refl _⟩

theorem set (h : s.Slots masterSocketFd) (hmem : c ∈ s.connections) (hfd : c'.fd = c.fd) :
    (s.set c').Slots masterSocketFd where
  master_ne := h.master_ne
  fd_ne := by
    intro d hd
    rcases KeyedList.mem_update hd with heq | hd
    . rw [heq, hfd]
      exact h.fd_ne c hmem
    . exact h.fd_ne d hd
  slots := by
    have ⟨free, hfree, hperm⟩ := h.slots
    refine ⟨free, ?_, ?_⟩
    . simp only [State.set, KeyedList.update, List.length_map]
      exact hfree
    . simp only [State.set, KeyedList.map_key_update]
      exact hperm

theorem phase (h : s.Slots masterSocketFd) (phase : Phase) :
    Slots masterSocketFd { s with phase := phase } :=
  ⟨h.master_ne, h.fd_ne, h.slots⟩

theorem accept (h : s.Slots masterSocketFd) (hfew : s.connections.length < maxClientsSupport - 1)
    (hfd : c.fd ≠ -1) :
    Slots masterSocketFd
      { s with
        monitorFdSet := addToMonitorFdSet s.monitorFdSet c.fd
        connections := c :: s.connections } where
  master_ne := h.master_ne
  fd_ne := List.forall_mem_cons.mpr ⟨hfd, h.fd_ne⟩
  slots := by
    have ⟨free, hfree, hperm⟩ := h.slots
    have hslot : -1 ∈ s.monitorFdSet := by
      rw [hperm.mem_iff]
      apply List.mem_append_right
      rw [List.mem_replicate]
      exact ⟨by omega, rfl⟩
    refine ⟨free - 1, ?_, ?_⟩
    . rw [List.length_cons]
      omega
    . rw [List.perm_iff_count] at hperm ⊢
      intro fd
      have hcount := hperm fd
      rw [addToMonitorFdSet, List.count_replace]
      simp only [List.cons_append, List.map_cons, List.count_cons, List.count_append,
        List.count_replicate, beq_iff_eq] at hcount ⊢
      rw [List.contains_iff_mem.mpr hslot]
      grind

theorem close (h : s.Slots masterSocketFd) (hmem : c ∈ s.connections) (hfd : c'.fd = c.fd) :
    (s.close c').Slots masterSocketFd where
  master_ne := h.master_ne
  fd_ne := fun d hd => h.fd_ne d (KeyedList.mem_remove hd)
  slots := by
    have ⟨free, hfree, hperm⟩ := h.slots
    have hslot : c'.fd ∈ s.monitorFdSet := by
      rw [hperm.mem_iff, hfd]
      apply List.mem_append_left
      exact List.mem_cons_of_mem _ (List.mem_map_of_mem hmem)
    have ⟨d, l₁, l₂, _, hd, hconnections, hrest⟩ := List.exists_of_eraseP hmem
      (p := fun e => e.fd = c'.fd) (by simp [hfd])
    simp only [decide_eq_true_eq] at hd
    have hremove : KeyedList.remove Connection.fd c'.fd s.connections = l₁ ++ l₂ := hrest
    refine ⟨free + 1, ?_, ?_⟩
    . simp only [State.close, hremove]
      rw [hconnections, List.length_append, List.length_cons] at hfree
      rw [List.length_append]
      omega
    . simp only [State.close, hremove]
      rw [List.perm_iff_count] at hperm ⊢
      intro fd
      have hcount := hperm fd
      have hne := h.fd_ne c hmem
      rw [removeFromMonitorFdSet, List.count_replace]
      rw [hconnections] at hcount
      simp only [List.cons_append, List.map_append, List.map_cons, List.count_cons, List.count_append,
        List.count_replicate, beq_iff_eq, hd] at hcount ⊢
      rw [List.contains_iff_mem.mpr hslot]
      grind

end Slots

theorem Slots.serves (h : s.Slots masterSocketFd) (hmem : c ∈ s.connections) (hfd : c'.fd = c.fd)
    (hserves : Serves s index readFd c' data t) : t.Slots masterSocketFd := by
  cases hserves with
  | closes hdata => exact h.close hmem hfd
  | answers hdata =>
    apply phase
    apply h.set hmem
    exact hfd

theorem Slots.next (h : s.Slots masterSocketFd) (hpossible : s.Possible masterSocketFd e)
    (hnext : s.next masterSocketFd e = some t) : t.Slots masterSocketFd := by
  cases e with
  | client fd action =>
    obtain ⟨c, c', hmem, hact, ht⟩ := client_eq_some hnext
    rw [ht]
    exact h.set hmem (Connection.act_fd hact)
  | select readFd fd early =>
    rcases select_eq_some hnext with ⟨phase, ht⟩ | ⟨hmaster, c, hacts, ht⟩
    . rw [ht]
      exact h.phase phase
    . obtain ⟨hfew, hunused⟩ := hpossible.2.2 hmaster
      have hfd : c.fd = fd := Connection.acts_fd hacts
      rw [← hfd] at hunused ht
      rw [ht]
      exact h.accept hfew (List.ne_of_not_mem_cons hunused)
  | slot count =>
    rcases slot_eq_some hnext with ⟨phase, ht⟩ | ⟨index, readFd, c, data, c', _, hmem, hrecv, hserves⟩
    . rw [ht]
      exact h.phase phase
    . have hfd : c'.fd = c.fd := by
        rcases Connection.recvfrom_eq_some hrecv with ⟨_, _, _, hc'⟩ | ⟨_, _, _, _, _, hc'⟩
        . rw [hc']
        . rw [hc']
      exact h.serves hmem hfd hserves

namespace Whole

theorem start : (State.start masterSocketFd).Whole where
  connections := by
    intro c hc
    contradiction
  finished := by
    intro c hc
    contradiction

theorem phase (h : s.Whole) (phase : Phase) : Whole { s with phase := phase } :=
  ⟨h.connections, h.finished⟩

theorem set (h : s.Whole) (hc : c.Whole) : (s.set c).Whole where
  connections := by
    intro d hd
    rcases KeyedList.mem_update hd with heq | hd
    . rw [heq]
      exact hc
    . exact h.connections d hd
  finished := h.finished

theorem close (h : s.Whole) (hanswers : c.answers <+: c.sent.map DataToServer.result)
    (hend : .quit ∈ c.sent ∨ c.closed = true) : (s.close c).Whole where
  connections := fun d hd => h.connections d (KeyedList.mem_remove hd)
  finished := List.forall_mem_cons.mpr ⟨⟨hanswers, hend⟩, h.finished⟩

/--
The last pair arrives in one piece, or ends the connection with any piece of it.
-/
theorem serves (h : s.Whole) (hc : c.Whole) (hrecv : c.recvfrom count = some (data, c'))
    (hok : c.unread ≠ [] → .quit ∉ c.sent → count = 8)
    (hserves : Serves s index readFd c' data t) : t.Whole := by
  rcases Connection.recvfrom_eq_some hrecv with
    ⟨hunread, hclosed, hdata, hc'⟩ | ⟨hunread, hpos, hcount, hsize, hdata, hc'⟩
  . rw [hdata, hc'] at hserves
    cases hserves with
    | closes => exact h.close hc.prefix_answers (.inr hclosed)
    | answers hne => exact absurd (DataToServer.ofBuffer_zeros bufferSize) hne
  . cases hc with
    | idle hnil _ _ => exact absurd hnil hunread
    | asked earlier last hbytes hsent hquit hanswers =>
      rw [hbytes] at hdata hcount
      by_cases hlast : last = .quit
      . have hprefix : c'.answers <+: c'.sent.map DataToServer.result := by
          rw [hc']
          exact (Connection.Whole.asked earlier last hbytes hsent hquit hanswers).prefix_answers
        have hend : .quit ∈ c'.sent := by
          rw [hc', hsent, hlast]
          exact List.mem_append_right _ List.mem_cons_self
        have hzeros : DataToServer.ofBuffer (bytes bufferSize data) = .quit := by
          rw [hdata, hlast, DataToServer.quit_bytes, List.take_replicate, bytes, List.take_replicate,
            List.replicate_append_replicate, DataToServer.ofBuffer_zeros]
        cases hserves with
        | closes => exact h.close hprefix (.inl hend)
        | answers hne => exact absurd hzeros hne
      . have hnotMem : .quit ∉ c.sent := by
          rw [hsent, List.mem_append, List.mem_singleton, not_or]
          exact ⟨hquit, Ne.symm hlast⟩
        have hwhole : data = last.bytes := by
          rw [hdata, hok hunread hnotMem]
          rfl
        have hpair : DataToServer.ofBuffer (bytes bufferSize data) = last := by
          rw [hwhole]
          exact DataToServer.ofBuffer_bytes last 120
        cases hserves with
        | closes hcloses =>
          rcases hcloses with hnil | hcloses
          . rw [hwhole] at hnil
            exact absurd hnil DataToServer.bytes_ne_nil
          . rw [hpair] at hcloses
            exact absurd hcloses hlast
        | answers hne =>
          apply phase
          apply h.set
          apply Connection.Whole.idle
          . rw [hc', hbytes, hok hunread hnotMem]
            rfl
          . rw [hc']
            exact hnotMem
          . rw [hpair, hc', hsent, hanswers, List.map_append]
            rfl

theorem next (h : s.Whole) (hok : s.Keeps e) (hnext : s.next masterSocketFd e = some t) : t.Whole := by
  cases e with
  | client fd action =>
    obtain ⟨c, c', hmem, hact, ht⟩ := client_eq_some hnext
    rw [ht]
    exact h.set ((h.connections c hmem).act hact)
  | select readFd fd early =>
    rcases select_eq_some hnext with ⟨phase, ht⟩ | ⟨_, c, hacts, ht⟩
    . rw [ht]
      exact h.phase phase
    . have hnew : c.Whole := by
        apply Connection.Whole.acts _ hacts
        exact .idle rfl (List.not_mem_nil) rfl
      rw [ht]
      exact ⟨List.forall_mem_cons.mpr ⟨hnew, h.connections⟩, h.finished⟩
  | slot count =>
    rcases slot_eq_some hnext with
      ⟨phase, ht⟩ | ⟨index, readFd, c, data, c', hreading, hmem, hrecv, hserves⟩
    . rw [ht]
      exact h.phase phase
    . exact h.serves (h.connections c hmem) hrecv (hok c hreading) hserves

end Whole

theorem pairs_answered_when_received_whole (masterSocketFd : Int) (s : State)
    (h : (server masterSocketFd).ReachableVia Keeps s) : s.Correct := by
  have ⟨hslots, hwhole⟩ : s.Slots masterSocketFd ∧ s.Whole := by
    apply h.invariant (P := fun s => s.Slots masterSocketFd ∧ s.Whole)
    . intro s ⟨hmaster, hs⟩
      rw [hs]
      exact ⟨.start hmaster, .start⟩
    . intro s e t ⟨hslots, hwhole⟩ hok ⟨hpossible, hnext⟩
      exact ⟨hslots.next hpossible hnext, hwhole.next hok hnext⟩
  exact correct_of_whole hslots hwhole

-- the only client sends 5 and 7 while it waits to be accepted
def fiveSeven (count : Nat) : List Event :=
  [.select [3] 4 [.send ⟨5, 7⟩], .select [4] 0 [], .slot 0, .slot count]

theorem pairs_answered_when_received_whole_fiveSeven :
    (TransitionSystem.runFrom (next 3) (start 3) (fiveSeven 8)).connections.map Connection.answers
        = [[12]]
      ∧ (TransitionSystem.runFrom (next 3) (start 3) (fiveSeven 8)).Correct := by
  refine ⟨by decide +kernel, ?_⟩
  apply pairs_answered_when_received_whole 3
  apply TransitionSystem.reachableVia_runFrom
  . exact .init ⟨by decide, rfl⟩
  . decide +kernel

theorem not_correct_of_split_pair :
    ¬∀ masterSocketFd s, (server masterSocketFd).Reachable s → s.Correct := by
  intro h
  have hreach : (server 3).Reachable (TransitionSystem.runFrom (next 3) (start 3) (fiveSeven 4)) := by
    apply TransitionSystem.reachableVia_runFrom
    . exact .init ⟨by decide, rfl⟩
    . decide +kernel
  have hanswers : ¬∀ c ∈ (TransitionSystem.runFrom (next 3) (start 3) (fiveSeven 4)).connections,
      c.answers.map Int32.toInt
        <+: c.sent.map fun data => (data.num1.toInt + data.num2.toInt).bmod (2 ^ 32) := by
    decide +kernel
  apply hanswers
  intro c hc
  exact (h 3 _ hreach).right c (List.mem_append_left _ hc)

end State

end TcpServer
