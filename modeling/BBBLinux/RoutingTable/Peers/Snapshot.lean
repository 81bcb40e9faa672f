import BBBLinux.RoutingTable.Peers.Lines

/-!
This module contains the transfer of both tables to a new client. The lines stand for the commands
that create the entries in their order. These pass their guards as long as only neighbours carry the
same key, which the server keeps.
-/

namespace RoutingTable

open CString KeyedList

variable {U : Locals → Prop} {u : Locals} {op : Opcode} {e : Entry} {t : Tables} {s : Server}
  {console : Console} {buffer bufferMac : Mem} {cs cs' : List (Opcode × Entry)}

namespace Tables

def replay (t : Tables) (cs : List (Opcode × Entry)) : Tables :=
  cs.foldl (fun t command => t.guarded command.1 command.2) t

def commands (t : Tables) : List (Opcode × Entry) :=
  t.head.map (fun info => (.create, .route info)) ++ t.headMac.map (fun info => (.create, .mac info))

theorem replay_append : t.replay (cs ++ cs') = (t.replay cs).replay cs' :=
  List.foldl_append

theorem replay_routes {head rest : List DataInfo} {headMac : List Mac}
    (h : Spread DataInfo.key (head ++ rest)) :
    replay { head := head, headMac := headMac } (rest.map fun info => (.create, .route info))
      = { head := head ++ rest, headMac := headMac } := by
  induction rest generalizing head with
  | nil => simp [replay]
  | cons info rest ih =>
    have hassoc : head ++ info :: rest = (head ++ [info]) ++ rest := by simp
    rw [hassoc] at h ⊢
    have hcheck : check { head := head, headMac := headMac } .create (.route info) = true := by
      simp only [check, checkCondition_create_iff]
      apply (h.sublist (List.sublist_append_left _ _)).key_ne_of_append
    have hperform : perform { head := head, headMac := headMac } .create (.route info)
        = { head := head ++ [info], headMac := headMac } := by
      simp only [perform, addLastEntryList_eq]
    rw [← ih h]
    unfold replay
    rw [List.map_cons, List.foldl_cons, guarded_of_check hcheck, hperform]

theorem replay_macs {head : List DataInfo} {headMac rest : List Mac}
    (h : Spread Mac.key (headMac ++ rest)) :
    replay { head := head, headMac := headMac } (rest.map fun info => (.create, .mac info))
      = { head := head, headMac := headMac ++ rest } := by
  induction rest generalizing headMac with
  | nil => simp [replay]
  | cons info rest ih =>
    have hassoc : headMac ++ info :: rest = (headMac ++ [info]) ++ rest := by simp
    rw [hassoc] at h ⊢
    have hcheck : check { head := head, headMac := headMac } .create (.mac info) = true := by
      simp only [check, checkConditionMac_create_iff]
      apply (h.sublist (List.sublist_append_left _ _)).key_ne_of_append
    have hperform : perform { head := head, headMac := headMac } .create (.mac info)
        = { head := head, headMac := headMac ++ [info] } := by
      simp only [perform, addLastEntryListMac_eq]
    rw [← ih h]
    unfold replay
    rw [List.map_cons, List.foldl_cons, guarded_of_check hcheck, hperform]

theorem replay_commands (h : Spread DataInfo.key t.head) (hmac : Spread Mac.key t.headMac) :
    empty.replay t.commands = t := by
  unfold commands empty
  rw [replay_append, replay_routes, List.nil_append, replay_macs, List.nil_append]
  . exact hmac
  . exact h

end Tables

def Entry.Stored (U : Locals → Prop) : Entry → Prop
  | .route info => ∃ r : Route, info = r.info ∧ ∀ u, U u → r.MaskAccepted u
  | .mac info => info.Valid

structure Tables.Reproducible (U : Locals → Prop) (t : Tables) : Prop where
  routes : ∀ info ∈ t.head, Entry.Stored U (.route info)
  macs : ∀ info ∈ t.headMac, Entry.Stored U (.mac info)
  spread : Spread DataInfo.key t.head
  spreadMac : Spread Mac.key t.headMac

namespace Tables.Reproducible

theorem empty : Tables.empty.Reproducible U :=
  ⟨by simp [Tables.empty], by simp [Tables.empty], .nil, .nil⟩

theorem create (h : t.Reproducible U) (he : e.Stored U) (hcheck : t.check .create e = true) :
    (t.perform .create e).Reproducible U := by
  cases e with
  | route info =>
    simp only [check, checkCondition_create_iff] at hcheck
    simp only [perform, addLastEntryList_eq]
    refine ⟨?_, h.macs, h.spread.append hcheck, h.spreadMac⟩
    intro ptr hptr
    rw [List.mem_append, List.mem_singleton] at hptr
    cases hptr with
    | inl hptr => exact h.routes ptr hptr
    | inr hptr =>
      rw [hptr]
      exact he
  | mac info =>
    simp only [check, checkConditionMac_create_iff] at hcheck
    simp only [perform, addLastEntryListMac_eq]
    refine ⟨h.routes, ?_, h.spread, h.spreadMac.append hcheck⟩
    intro ptr hptr
    rw [List.mem_append, List.mem_singleton] at hptr
    cases hptr with
    | inl hptr => exact h.macs ptr hptr
    | inr hptr =>
      rw [hptr]
      exact he

theorem update (h : t.Reproducible U) (he : e.Stored U) : (t.perform .update e).Reproducible U := by
  cases e with
  | route info =>
    simp only [perform, updateEntryTable_eq]
    refine ⟨?_, h.macs, h.spread.update, h.spreadMac⟩
    intro ptr hptr
    cases mem_update hptr with
    | inl hptr =>
      rw [hptr]
      exact he
    | inr hptr => exact h.routes ptr hptr
  | mac info =>
    simp only [perform, updateEntryTableMac_eq]
    refine ⟨h.routes, ?_, h.spread, h.spreadMac.update⟩
    intro ptr hptr
    cases mem_update hptr with
    | inl hptr =>
      rw [hptr]
      exact he
    | inr hptr => exact h.macs ptr hptr

theorem delete (h : t.Reproducible U) : (t.perform .delete e).Reproducible U := by
  cases e with
  | route info =>
    simp only [perform, removeNodeList_eq]
    exact ⟨fun ptr hptr => h.routes ptr (mem_remove hptr), h.macs, h.spread.remove, h.spreadMac⟩
  | mac info =>
    simp only [perform, removeNodeListMac_eq]
    exact ⟨h.routes, fun ptr hptr => h.macs ptr (mem_remove hptr), h.spread, h.spreadMac.remove⟩

theorem perform (h : t.Reproducible U) (hcmd : op.isCommand = true)
    (he : op ≠ .delete → e.Stored U) (hcheck : t.check op e = true) :
    (t.perform op e).Reproducible U := by
  cases op with
  | create => apply h.create (he (by simp)) hcheck
  | update => apply h.update (he (by simp))
  | delete => apply h.delete
  | _ => contradiction

end Tables.Reproducible

section Messages

theorem cstr_message {line : Mem} (hline : 0 ∉ line) (hlen : line.length < bufferSize) (buffer : Mem) :
    cstr (bytes bufferSize (memcpy buffer 0 (line ++ [0]) (line.length + 1))) = line := by
  have hcopy : memcpy buffer 0 (line ++ [0]) (line.length + 1)
      = line ++ 0 :: buffer.drop (line.length + 1) := by
    have hself := bytes_self (line ++ [0])
    rw [List.length_append] at hself
    unfold memcpy
    rw [List.take_zero, List.nil_append]
    conv => lhs; lhs; rw [show line.length + 1 = line.length + [(0 : UInt8)].length from rfl, hself]
    simp
  rw [cstr_bytes, hcopy, cstr_append_zero hline]
  apply List.take_of_length_le
  omega

theorem sendLines_spec {lines : List Mem} (h : ∀ line ∈ lines, 0 ∉ line ∧ line.length < bufferSize)
    (buffer : Mem) :
    List.Forall₂ (fun message line => cstr message = line) (sendLines buffer lines) lines := by
  induction lines generalizing buffer with
  | nil => exact .nil
  | cons line lines ih =>
    have hline := h line List.mem_cons_self
    apply List.Forall₂.cons
    . apply cstr_message hline.1 hline.2 buffer
    . apply ih
      exact fun line hmem => h line (List.mem_cons_of_mem _ hmem)

theorem forall₂_map_of_sendLines {α : Type} {entries : List α} {print : α → Mem}
    {command : α → Opcode × Entry}
    (hprint : ∀ a ∈ entries, 0 ∉ print a ∧ (print a).length < bufferSize)
    (hmeans : ∀ a ∈ entries, ∀ message, cstr message = print a → Means U message (command a))
    (buffer : Mem) :
    List.Forall₂ (Means U) (sendLines buffer (entries.map print)) (entries.map command) := by
  have hlines : ∀ line ∈ entries.map print, 0 ∉ line ∧ line.length < bufferSize := by
    intro line hline
    rw [List.mem_map] at hline
    have ⟨a, ha, hline⟩ := hline
    rw [← hline]
    exact hprint a ha
  have hspec := sendLines_spec hlines buffer
  clear hprint hlines
  generalize sendLines buffer (entries.map print) = messages at *
  induction entries generalizing messages with
  | nil =>
    cases hspec
    exact .nil
  | cons a entries ih =>
    cases hspec with
    | cons hmessage hrest =>
      apply List.Forall₂.cons
      . exact hmeans a List.mem_cons_self _ hmessage
      . exact ih (fun a ha => hmeans a (List.mem_cons_of_mem _ ha)) _ hrest

def snapshot (buffer bufferMac : Mem) (t : Tables) : List Mem :=
  sendRtableToNewlyClient buffer t.head ++ sendMacTableToNewlyClient bufferMac t.headMac

theorem means_snapshot (h : t.Reproducible U) (buffer bufferMac : Mem) :
    List.Forall₂ (Means U) (snapshot buffer bufferMac t) t.commands := by
  apply List.rel_append
  . apply forall₂_map_of_sendLines
    . intro info hinfo
      have ⟨r, hr, _⟩ := h.routes info hinfo
      rw [hr]
      exact ⟨r.zero_notMem_routeLine, r.length_routeLine⟩
    . intro info hinfo message hmessage
      have ⟨r, hr, hmask⟩ := h.routes info hinfo
      rw [hr] at hmessage ⊢
      apply r.means_routeLine hmask hmessage
  . apply forall₂_map_of_sendLines
    . intro info hinfo
      exact ⟨(h.macs info hinfo).zero_notMem_macLine, (h.macs info hinfo).length_macLine⟩
    . intro info hinfo message hmessage
      exact (h.macs info hinfo).means_macLine hmessage

theorem isCommand_of_mem_commands {command : Opcode × Entry} (h : command ∈ t.commands) :
    command.1.isCommand = true := by
  unfold Tables.commands at h
  rw [List.mem_append, List.mem_map, List.mem_map] at h
  cases h with
  | inl h =>
    have ⟨_, _, hcommand⟩ := h
    rw [← hcommand]
    rfl
  | inr h =>
    have ⟨_, _, hcommand⟩ := h
    rw [← hcommand]
    rfl

theorem requests_eq_replay {messages : List (Locals × Mem)}
    (hmeans : List.Forall₂ (Means U) (messages.map Prod.snd) cs)
    (hcmd : ∀ command ∈ cs, command.1.isCommand = true)
    (hlocals : ∀ message ∈ messages, U message.1) :
    requests t messages = some (t.replay cs) := by
  induction messages generalizing t cs with
  | nil =>
    cases hmeans
    rfl
  | cons message messages ih =>
    cases hmeans with
    | cons hmessage hrest =>
      rename_i command cs
      have hrequest := request_eq (t := t) (hmessage message.1 (hlocals message List.mem_cons_self))
        (hcmd command List.mem_cons_self)
      simp only [requests, List.foldlM_cons, hrequest]
      apply ih hrest
      . exact fun command h => hcmd command (List.mem_cons_of_mem _ h)
      . exact fun message h => hlocals message (List.mem_cons_of_mem _ h)

end Messages

structure CommandLine (U : Locals → Prop) (console : Console) (buffer : Mem) : Prop where
  locals : U console.locals
  nonblank : words space (cstr buffer) ≠ []
  retVal : (parseLine console.locals buffer).retVal = true
  isCommand : (parseLine console.locals buffer).opcode.isCommand = true
  fits : (parseLine console.locals buffer).isRtMac = .isRt → Fits (words space (cstr buffer))

theorem CommandLine.command (h : CommandLine U console buffer) :
    (parseLine console.locals buffer).command
      = some ((parseLine console.locals buffer).opcode, (parseLine console.locals buffer).entry) := by
  rw [Parsed.command_eq_some_iff]
  exact ⟨h.retVal, rfl, rfl⟩

theorem CommandLine.stored (hU : MaskByText U) (h : CommandLine U console buffer)
    (hop : (parseLine console.locals buffer).opcode ≠ .delete) :
    (parseLine console.locals buffer).entry.Stored U := by
  have hcommand := h.command
  have hcmd := h.isCommand
  generalize (parseLine console.locals buffer).opcode = op at hcommand hcmd hop
  generalize he : (parseLine console.locals buffer).entry = e at hcommand ⊢
  cases e with
  | route info =>
    have hisRt : (parseLine console.locals buffer).isRtMac = .isRt := by
      unfold Parsed.entry at he
      split at he
      . next hisRt => exact hisRt
      . contradiction
    rw [parseLine_eq] at hcommand
    have hwords := command_parseWords isWord_words (h.fits hisRt) h.nonblank hcmd hcommand
    cases hwords with
    | inl hroute =>
      have ⟨r, hinfo, hmask, _⟩ := hroute
      refine ⟨r, hinfo, ?_⟩
      intro u hu
      unfold RouteKey.MaskAccepted at hmask ⊢
      rw [hU u console.locals hu h.locals]
      exact hmask
    | inr hkey => exact absurd hkey.1 hop
  | mac info => apply valid_of_command hcommand

theorem CommandLine.reproducible (hU : MaskByText U) (h : CommandLine U console buffer)
    (hs : s.Reproducible U) : (s.console console buffer).1.Reproducible U := by
  rw [Server.console_eq h.retVal]
  dsimp only
  cases s.dispatched console h.isCommand with
  | performed hcheck _ _ _ htables =>
    rw [htables]
    apply hs.perform h.isCommand (h.stored hU) hcheck
  | refused _ _ _ htables =>
    rw [htables]
    exact hs
  | noIP _ _ _ _ _ htables =>
    rw [htables]
    exact hs

theorem reproducible_of_reachable (hU : MaskByText U)
    (h : consoleSystem.ReachableVia (fun _ line => CommandLine U line.1 line.2) s) :
    s.Reproducible U := by
  apply h.invariant (P := fun s => s.Reproducible U)
  . intro s hs
    have hs : s.toTables = Tables.empty := hs
    rw [hs]
    exact .empty
  . intro s line s' hs hline hstep
    simp only [consoleSystem, TransitionSystem.ofStep, Option.some.injEq] at hstep
    rw [← hstep]
    apply hline.reproducible hU hs

theorem snapshot_faithful (hU : MaskByText U)
    (h : consoleSystem.ReachableVia (fun _ line => CommandLine U line.1 line.2) s)
    {messages : List (Locals × Mem)}
    (hmessages : messages.map Prod.snd =
      sendRtableToNewlyClient buffer s.head ++ sendMacTableToNewlyClient bufferMac s.headMac)
    (hlocals : ∀ message ∈ messages, U message.1) :
    requests Tables.empty messages = some s.toTables := by
  have hs := reproducible_of_reachable hU h
  have hmeans := means_snapshot hs buffer bufferMac
  unfold snapshot at hmeans
  rw [← hmessages] at hmeans
  rw [requests_eq_replay hmeans (fun _ => isCommand_of_mem_commands) hlocals]
  rw [Tables.replay_commands hs.spread hs.spreadMac]

def createRouteLine : Mem :=
  bytes bufferSize (text "C 10.0.0.0 8 10.0.0.1 eth0\n")

def createMacLine : Mem :=
  bytes bufferSize (text "C 00:11:22:33:44:55\n")

theorem maskByText_zero : MaskByText (· = Locals.zero) := by
  intro u v hu hv mask size
  rw [hu, hv]

theorem commandLine_createRouteLine :
    CommandLine (· = Locals.zero) (.replying "10.0.0.2\n") createRouteLine := by
  constructor
  . rfl
  . decide +kernel
  . decide +kernel
  . decide +kernel
  . intro _
    constructor <;> decide +kernel

def threeEntries : Server :=
  let console := Console.replying "10.0.0.2\n"
  let s := (Server.oneClient.console console createRouteLine).1
  let s := (s.console console createRouteLine).1
  (s.console console createMacLine).1

theorem snapshot_faithful_threeEntries :
    requests Tables.empty
        ((sendRtableToNewlyClient [] threeEntries.head
            ++ sendMacTableToNewlyClient [] threeEntries.headMac).map
          fun message => (Locals.zero, message))
      = some threeEntries.toTables := by
  have hroute := commandLine_createRouteLine
  have hmac : CommandLine (· = Locals.zero) (.replying "10.0.0.2\n") createMacLine :=
    { locals := rfl
      nonblank := by decide +kernel
      retVal := by decide +kernel
      isCommand := by decide +kernel
      fits := fun h => absurd h (by decide +kernel) }
  apply snapshot_faithful (s := threeEntries) maskByText_zero
  . apply TransitionSystem.ReachableVia.step (i := (.replying "10.0.0.2\n", createMacLine)) _ hmac rfl
    apply TransitionSystem.ReachableVia.step (i := (.replying "10.0.0.2\n", createRouteLine)) _ hroute rfl
    apply TransitionSystem.ReachableVia.step (i := (.replying "10.0.0.2\n", createRouteLine)) _ hroute rfl
    exact .init rfl
  . rw [List.map_map]
    apply List.map_id _
  . intro message hmessage
    rw [List.mem_map] at hmessage
    have ⟨_, _, heq⟩ := hmessage
    rw [← heq]

end RoutingTable
