import BBBLinux.RoutingTable.Network.Lemmas

/-!
This module contains FLUSH, which reaches the clients as a signal while routes reach them as messages.
As long as a client has worked off the messages from before a FLUSH when its handler runs, no route from
that time is left behind.
-/

namespace RoutingTable

open CString

variable {line buffer : Mem} {x : UInt8} {u : Locals} {t : Tables} {s : Server} {console : Console}
  {write : Int × Mem} {c c' : Client} {flushes : Nat}

def firstLetter (line : Mem) : UInt8 :=
  ((words space (cstr line)).headD []).headD 0

theorem firstLetter_of_headD (h : line.headD 0 = x) (hzero : x ≠ 0) (hspace : x ≠ space) :
    firstLetter line = x := by
  unfold firstLetter
  have hline := cstr_eq_of_headD h hzero
  by_cases hmem : space ∈ cstr line
  . have ⟨w, rest, heq, hnotMem⟩ := List.eq_append_cons_of_mem hmem
    rw [heq] at hline
    cases w with
    | nil =>
      rw [List.nil_append, List.cons.injEq] at hline
      exact absurd hline.1.symm hspace
    | cons y w =>
      rw [heq, words_append_cons (List.cons_ne_nil y w) hnotMem]
      rw [List.cons_append, List.cons.injEq] at hline
      exact hline.1
  . rw [words_of_notMem (by simp [hline]) hmem, hline]
    rfl

theorem opcode_of_create (h : firstLetter line = 'C'.toUInt8) :
    (parseLine u line).opcode = .create := by
  unfold firstLetter at h
  rw [parseLine_eq]
  cases hwords : words space (cstr line) with
  | nil =>
    rw [hwords] at h
    contradiction
  | cons c ws =>
    rw [hwords] at h
    have hc : c.headD 0 = 'C'.toUInt8 := h
    rw [parseWords_create hc]
    unfold createUpdateWords
    split
    . unfold parseMac
      split <;> rfl
    . rfl

theorem parseLine_flush (h : firstLetter line = 'F'.toUInt8) :
    (parseLine u line).retVal = true ∧ (parseLine u line).opcode = .flush := by
  unfold firstLetter at h
  rw [parseLine_eq]
  cases hwords : words space (cstr line) with
  | nil =>
    rw [hwords] at h
    contradiction
  | cons c ws =>
    rw [hwords] at h
    have hc : c.headD 0 = 'F'.toUInt8 := h
    unfold parseWords
    dsimp only
    rw [hc, if_neg (by decide), if_neg (by decide), if_neg (by decide), if_neg (by decide), if_pos rfl]
    exact ⟨rfl, rfl⟩

theorem request_of_create (h : firstLetter line = 'C'.toUInt8) :
    ∃ t', request t u line = some t' ∧ (t'.head = t.head ∨ ∃ info, t'.head = t.head ++ [info]) := by
  by_cases hret : (parseLine u line).retVal = true
  . have hcommand : (parseLine u line).command = some (.create, (parseLine u line).entry) := by
      rw [Parsed.command_eq_some_iff]
      exact ⟨hret, opcode_of_create h, rfl⟩
    refine ⟨_, request_eq hcommand rfl, ?_⟩
    unfold Tables.guarded
    split
    . cases (parseLine u line).entry with
      | route info =>
        right
        exact ⟨info, addLastEntryList_eq t.head info⟩
      | mac info => exact .inl rfl
    . exact .inl rfl
  . refine ⟨t, ?_, .inl rfl⟩
    unfold request
    exact if_neg hret

section Writes

theorem Server.console_writes (h : write ∈ (s.console console buffer).2.writes) :
    write.2 = buffer := by
  unfold Server.console at h
  dsimp only at h
  split at h
  . dsimp only at h
    split at h
    . rw [List.mem_map] at h
      have ⟨_, _, heq⟩ := h
      rw [← heq]
    . contradiction
  . contradiction

theorem Server.console_writes_flush (h : firstLetter buffer = 'F'.toUInt8) :
    (s.console console buffer).2.writes = [] := by
  have ⟨hret, hop⟩ := parseLine_flush (u := console.locals) h
  rw [Server.console_eq hret]
  have hopcode : (parseLine console.locals buffer).msgInfo.opcode = .flush := hop
  simp only [Server.dispatch, hopcode]
  rfl

theorem mem_messagesFor {fd : Int} {writes : List (Int × Mem)} {text : Mem}
    (h : text ∈ messagesFor fd writes) : ∃ write ∈ writes, write.2 = text := by
  unfold messagesFor at h
  rw [List.mem_map] at h
  have ⟨write, hwrite, heq⟩ := h
  exact ⟨write, (List.mem_filter.mp hwrite).1, heq⟩

theorem firstLetter_sendLines {lines : List Mem} (h : ∀ line ∈ lines, line.headD 0 = 'C'.toUInt8)
    (buffer : Mem) : ∀ message ∈ sendLines buffer lines, firstLetter message = 'C'.toUInt8 := by
  induction lines generalizing buffer with
  | nil => simp [sendLines]
  | cons line lines ih =>
    intro message hmessage
    unfold sendLines at hmessage
    rw [List.mem_cons] at hmessage
    cases hmessage with
    | inl heq =>
      have hline := h line List.mem_cons_self
      apply firstLetter_of_headD _ (by decide) (by decide)
      rw [heq]
      cases line with
      | nil => contradiction
      | cons y line => exact hline
    | inr hmem =>
      apply ih _ _ message hmem
      intro line hline
      exact h line (List.mem_cons_of_mem _ hline)

theorem firstLetter_snapshot {bufferMac : Mem} :
    ∀ message ∈ snapshot buffer bufferMac t, firstLetter message = 'C'.toUInt8 := by
  intro message hmessage
  unfold snapshot sendRtableToNewlyClient sendMacTableToNewlyClient at hmessage
  rw [List.mem_append] at hmessage
  have hroutes : ∀ line ∈ t.head.map routeLine, line.headD 0 = 'C'.toUInt8 := by
    intro line hline
    rw [List.mem_map] at hline
    have ⟨ptr, _, heq⟩ := hline
    rw [← heq]
    rfl
  have hmacs : ∀ line ∈ t.headMac.map macLine, line.headD 0 = 'C'.toUInt8 := by
    intro line hline
    rw [List.mem_map] at hline
    have ⟨ptr, _, heq⟩ := hline
    rw [← heq]
    rfl
  cases hmessage with
  | inl hmem => apply firstLetter_sendLines hroutes _ message hmem
  | inr hmem => apply firstLetter_sendLines hmacs _ message hmem

end Writes

namespace Client

/--
For every FLUSH whose signal the client has handled: once it has worked off all messages that the server
wrote before, none of its routes comes from a message of that time.
-/
def FlushKept (c : Client) : Prop :=
  ∀ k ≤ c.handled, (∀ message ∈ c.unread, k ≤ message.epoch) →
    c.born.map Prod.fst = c.tables.head ∧ ∀ entry ∈ c.born, k ≤ entry.2

structure Queued (flushes : Nat) (c : Client) : Prop where
  create : ∀ message ∈ c.unread, firstLetter message.text = 'C'.toUInt8
  le : ∀ message ∈ c.unread, message.epoch ≤ flushes
  sorted : c.unread.Pairwise fun message message' => message.epoch ≤ message'.epoch

structure Clean (flushes : Nat) (c : Client) : Prop extends c.Queued flushes where
  handled_le : c.handled ≤ flushes
  unread : ∀ message ∈ c.unread, c.handled ≤ message.epoch
  aligned : c.born.map Prod.fst = c.tables.head
  born : ∀ entry ∈ c.born, c.handled ≤ entry.2

/--
A property of the clients that every step keeps. `H` says when their handler may run.
-/
structure Stable (H P : Nat → Client → Prop) : Prop where
  connected (flushes : Nat) (pid : Int) : P flushes (connected pid)
  receive {flushes : Nat} {c : Client} {texts : List Mem} (h : P flushes c)
    (htexts : ∀ text ∈ texts, firstLetter text = 'C'.toUInt8) : P flushes (c.receive texts flushes)
  of_eq {flushes : Nat} {c c' : Client} (h : P flushes c) (hhandled : c'.handled = c.handled)
    (hunread : c'.unread = c.unread) (htables : c'.tables = c.tables) (hborn : c'.born = c.born) :
    P flushes c'
  request {flushes : Nat} {c c' : Client} {u : Locals} (h : P flushes c)
    (hrequest : c.request u = some c') : P flushes c'
  handle {flushes : Nat} {c c' : Client} (h : P flushes c) (hrun : H flushes c)
    (hhandle : c.handle flushes = some c') : P flushes c'
  mono {flushes flushes' : Nat} {c : Client} (h : P flushes c) (hle : flushes ≤ flushes') :
    P flushes' c

theorem unread_eq_cons {message : Message} (hbuffer : c.buffer = some message) :
    c.unread = message :: c.inbox := by
  unfold unread
  rw [hbuffer]
  rfl

theorem inbox_of_request (h : c.request u = some c') :
    ∃ message, c.unread = message :: c'.unread := by
  have ⟨message, hbuffer, hc'⟩ := request_eq_some h
  refine ⟨message, ?_⟩
  rw [unread_eq_cons hbuffer]
  cases hc' with
  | inl hsome =>
    have ⟨_, _, hc'⟩ := hsome
    rw [hc']
    rfl
  | inr hnone =>
    rw [hnone.2]
    rfl

namespace Queued

theorem stable : Stable (fun _ _ => True) Queued where
  connected flushes pid := by
    constructor
    . intro message hmessage
      contradiction
    . intro message hmessage
      contradiction
    . exact .nil
  receive {flushes c texts} h htexts := by
    have hnew : ∀ message ∈ texts.map fun text => ({ text := text, epoch := flushes } : Message),
        firstLetter message.text = 'C'.toUInt8 ∧ message.epoch = flushes := by
      intro message hmessage
      rw [List.mem_map] at hmessage
      have ⟨text, htext, heq⟩ := hmessage
      rw [← heq]
      exact ⟨htexts text htext, rfl⟩
    constructor
    . intro message hmessage
      rw [unread_receive, List.mem_append] at hmessage
      cases hmessage with
      | inl hold => exact h.create message hold
      | inr hmem => exact (hnew message hmem).1
    . intro message hmessage
      rw [unread_receive, List.mem_append] at hmessage
      cases hmessage with
      | inl hold => exact h.le message hold
      | inr hmem => rw [(hnew message hmem).2]
    . rw [unread_receive, List.pairwise_append]
      refine ⟨h.sorted, ?_, ?_⟩
      . rw [List.pairwise_map]
        apply List.pairwise_of_forall
        intro _ _
        exact Nat.le_refl flushes
      . intro message hold message' hmem
        rw [(hnew message' hmem).2]
        exact h.le message hold
  of_eq h _ hunread _ _ := by
    constructor
    . rw [hunread]
      exact h.create
    . rw [hunread]
      exact h.le
    . rw [hunread]
      exact h.sorted
  request {flushes c c' u} h hrequest := by
    have ⟨message, hunread⟩ := inbox_of_request hrequest
    have hsorted := h.sorted
    rw [hunread, List.pairwise_cons] at hsorted
    constructor
    . intro message hmem
      apply h.create
      rw [hunread]
      apply List.mem_cons_of_mem _ hmem
    . intro message hmem
      apply h.le
      rw [hunread]
      apply List.mem_cons_of_mem _ hmem
    . exact hsorted.2
  handle h _ hhandle := by
    have ⟨_, _, hc'⟩ := handle_eq_some hhandle
    rw [hc']
    exact ⟨h.create, h.le, h.sorted⟩
  mono h hle := ⟨h.create, fun message hmem => (h.le message hmem).trans hle, h.sorted⟩

end Queued

/--
What a client adds to its routes comes from the message it works off.
-/
theorem born_of_request {message : Message} (hmessage : c.buffer = some message)
    (hcreate : firstLetter message.text = 'C'.toUInt8)
    (haligned : c.born.map Prod.fst = c.tables.head) (h : c.request u = some c') :
    c'.handled = c.handled ∧ c'.phase = c.phase ∧ c'.born.map Prod.fst = c'.tables.head
      ∧ RoutingTable.request c.tables u message.text = some c'.tables
      ∧ ∃ new, c'.born = c.born ++ new ∧ ∀ entry ∈ new, entry.2 = message.epoch := by
  have ⟨message', hbuffer, hc'⟩ := request_eq_some h
  rw [hmessage, Option.some.injEq] at hbuffer
  rw [← hbuffer] at hc'
  have ⟨t', ht', hhead⟩ := request_of_create (t := c.tables) (u := u) hcreate
  cases hc' with
  | inl hsome =>
    have ⟨tables, htables, hc'⟩ := hsome
    rw [ht', Option.some.injEq] at htables
    rw [hc', ← htables]
    refine ⟨rfl, rfl, ?_, ht', _, rfl, ?_⟩
    . simp only [List.map_append, List.map_map, haligned]
      have hadded : List.map (Prod.fst ∘ fun info => (info, message.epoch))
          (t'.head.drop c.tables.head.length) = t'.head.drop c.tables.head.length := List.map_id _
      rw [hadded]
      cases hhead with
      | inl heq => rw [heq, List.drop_length, List.append_nil]
      | inr happend =>
        have ⟨info, heq⟩ := happend
        rw [heq, List.drop_left]
    . intro entry hentry
      rw [List.mem_map] at hentry
      have ⟨_, _, heq⟩ := hentry
      rw [← heq]
  | inr hnone =>
    rw [ht'] at hnone
    exact absurd hnone.1 (by simp)

namespace Clean

theorem flushKept (h : c.Clean flushes) : c.FlushKept := by
  intro k hk _
  refine ⟨h.aligned, ?_⟩
  intro entry hentry
  have hborn := h.born entry hentry
  omega

theorem stable : Stable (fun flushes c => ∀ message ∈ c.unread, flushes ≤ message.epoch) Clean where
  connected flushes pid := by
    refine ⟨Queued.stable.connected flushes pid, Nat.zero_le _, ?_, rfl, ?_⟩
    . intro message hmessage
      contradiction
    . intro entry hentry
      contradiction
  receive {flushes c texts} h htexts := by
    refine ⟨Queued.stable.receive h.toQueued htexts, h.handled_le, ?_, h.aligned, h.born⟩
    intro message hmessage
    rw [unread_receive, List.mem_append, List.mem_map] at hmessage
    cases hmessage with
    | inl hold => exact h.unread message hold
    | inr hnew =>
      have ⟨text, _, heq⟩ := hnew
      rw [← heq]
      exact h.handled_le
  of_eq h hhandled hunread htables hborn := by
    refine ⟨Queued.stable.of_eq h.toQueued hhandled hunread htables hborn, ?_, ?_, ?_, ?_⟩
    . rw [hhandled]
      exact h.handled_le
    . rw [hunread, hhandled]
      exact h.unread
    . rw [hborn, htables]
      exact h.aligned
    . rw [hborn, hhandled]
      exact h.born
  request {flushes c c' u} h hrequest := by
    have ⟨message, hbuffer, _⟩ := request_eq_some hrequest
    have hmem : message ∈ c.unread := by simp [unread_eq_cons hbuffer]
    have ⟨hhandled, _, haligned, _, new, hborn, hnew⟩ :=
      born_of_request hbuffer (h.create message hmem) h.aligned hrequest
    have ⟨_, hunread⟩ := inbox_of_request hrequest
    refine ⟨Queued.stable.request h.toQueued hrequest, ?_, ?_, haligned, ?_⟩
    . rw [hhandled]
      exact h.handled_le
    . intro message' hmem'
      rw [hhandled]
      apply h.unread
      rw [hunread]
      apply List.mem_cons_of_mem _ hmem'
    . intro entry hentry
      rw [hborn, List.mem_append] at hentry
      rw [hhandled]
      cases hentry with
      | inl hold => exact h.born entry hold
      | inr hmem' =>
        rw [hnew entry hmem']
        exact h.unread message hmem
  handle {flushes c c'} h hworked hhandle := by
    have hqueued := Queued.stable.handle h.toQueued trivial hhandle
    have ⟨_, _, hc'⟩ := handle_eq_some hhandle
    rw [hc'] at hqueued ⊢
    refine ⟨hqueued, Nat.le_refl _, hworked, rfl, ?_⟩
    intro entry hentry
    contradiction
  mono h hle :=
    ⟨Queued.stable.mono h.toQueued hle, h.handled_le.trans hle, h.unread, h.aligned, h.born⟩

end Clean

end Client

namespace Network

variable {net net' : Network} {l : Label} {fd : Int} {H P : Nat → Client → Prop}

def CreateOrFlush : Label → Prop
  | .console _ buffer => firstLetter buffer = 'C'.toUInt8 ∨ firstLetter buffer = 'F'.toUInt8
  | _ => True

/--
The clients whose handler runs satisfy `H`.
-/
def HandledIf (H : Nat → Client → Prop) (net : Network) : Label → Prop
  | .handle fd => ∀ c, net.clients fd = some c → H net.flushes c
  | _ => True

def WorkedOff (flushes : Nat) (c : Client) : Prop :=
  ∀ message ∈ c.unread, flushes ≤ message.epoch

theorem flushes_le (hnext : net.next l = some net') : net.flushes ≤ net'.flushes := by
  cases l with
  | console console buffer =>
    simp only [next, Option.some.injEq] at hnext
    rw [← hnext]
    simp only [Network.console, deliver, signal]
    split <;> omega
  | _ => rw [(quiet_of_next hnext (by simp)).2]

theorem stable_next (hstable : Client.Stable H P)
    (h : ∀ fd c, net.clients fd = some c → P net.flushes c) (hok : CreateOrFlush l)
    (hhandle : net.HandledIf H l) (hnext : net.next l = some net')
    (hc' : net'.clients fd = some c') : P net.flushes c' := by
  cases evolves hnext hc' with
  | joined pid buffer bufferMac hc' =>
    rw [hc']
    apply hstable.receive (hstable.connected net.flushes pid) firstLetter_snapshot
  | informed console buffer c hc hc' =>
    have hkilled : P net.flushes
        (if c.pid ∈ (net.server.console console buffer).2.kills then c.kill else c) := by
      split
      . unfold Client.kill
        split <;> exact hstable.of_eq (h fd c hc) rfl rfl rfl rfl
      . exact h fd c hc
    rw [hc']
    apply hstable.receive hkilled
    intro text htext
    have ⟨write, hwrite, heq⟩ := mem_messagesFor htext
    rw [← heq, Server.console_writes hwrite]
    cases hok with
    | inl hcreate => exact hcreate
    | inr hflush =>
      rw [Server.console_writes_flush hflush] at hwrite
      contradiction
  | registered c pid toServer hc htoServer hc' =>
    rw [hc']
    exact hstable.of_eq (h fd c hc) rfl rfl rfl rfl
  | announced c hc hc' =>
    rw [(Client.announce_eq_some hc').2]
    exact hstable.of_eq (h fd c hc) rfl rfl rfl rfl
  | installed c hc hc' =>
    rw [(Client.install_eq_some hc').2]
    exact hstable.of_eq (h fd c hc) rfl rfl rfl rfl
  | read c hc hc' =>
    obtain ⟨_, _, _, _, heq⟩ := Client.read_eq_some hc'
    have hunread := Client.unread_of_read hc'
    rw [heq] at hunread ⊢
    exact hstable.of_eq (h fd c hc) rfl hunread rfl rfl
  | requested c u hc hc' => exact hstable.request (h fd c hc) hc'
  | handled c hc hc' => exact hstable.handle (h fd c hc) (hhandle c hc) hc'
  | same hc hl => exact h fd c' hc

theorem stable_of_reachable (hstable : Client.Stable H P)
    (h : system.ReachableVia (fun net l => CreateOrFlush l ∧ net.HandledIf H l) net) :
    ∀ fd c, net.clients fd = some c → P net.flushes c := by
  apply h.invariant (P := fun net => ∀ fd c, net.clients fd = some c → P net.flushes c)
  . intro net ⟨connectionSocket, _, shm, hnet⟩ fd c hc
    rw [hnet] at hc
    contradiction
  . intro net l net' hnet ⟨hok, hhandle⟩ ⟨_, hnext⟩ fd c hc
    apply hstable.mono (stable_next hstable hnet hok hhandle hnext hc) (flushes_le hnext)

theorem flushKept_of_workedOff
    (h : system.ReachableVia (fun net l => CreateOrFlush l ∧ net.HandledIf WorkedOff l) net)
    (hc : net.clients fd = some c) : c.FlushKept :=
  (stable_of_reachable Client.Clean.stable h fd c hc).flushKept

end Network

end RoutingTable
