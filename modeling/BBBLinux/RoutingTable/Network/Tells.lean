import BBBLinux.RoutingTable.Peers.Broadcast
import BBBLinux.RoutingTable.Peers.Validated
import BBBLinux.RoutingTable.Parser.MacLine
import BBBLinux.RoutingTable.Network.Replication

/-!
This module contains what a message tells a client, whatever the client finds in its memory, and what a
line from the console comes to at the server and in the messages it sends.
-/

namespace RoutingTable

open CString

variable {U : Locals → Prop} {console : Console} {buffer line : Mem} {s : Server} {t t' : Tables}
  {u : Locals} {op : Opcode} {texts : List Mem} {f : Tables → Tables}

/--
A MAC line without its MAC would be judged by what the parser finds in its buffer.
-/
structure SureLine (U : Locals → Prop) (console : Console) (buffer : Mem) : Prop
    extends CommandLine U console buffer where
  argument : (parseLine console.locals buffer).isRtMac = .isMac →
    2 ≤ (words space (cstr buffer)).length

section Lines

variable {p p' : Parse} {w w' : Mem} {ws : List Mem}

theorem command_parseMac (h : p'.copyBuffer = p.copyBuffer) :
    (parseMac op p' .zero).command = (parseMac op p .zero).command := by
  unfold parseMac
  rw [h]
  split <;> rfl

theorem command_parseWords_singleton (hletter : (parseWords u [w', w]).isRtMac = .isMac)
    (v : Locals) : (parseWords v [w', w]).command = (parseWords u [w', w]).command := by
  cases letter w' [w] with
  | createUpdate opcode _ _ heq =>
    rw [heq, heq, createUpdateWords_singleton, createUpdateWords_singleton]
    exact command_parseMac rfl
  | delete _ heq =>
    rw [heq, heq, deleteWords_singleton, deleteWords_singleton]
    exact command_parseMac rfl
  | plain _ _ _ heq =>
    rw [heq] at hletter
    contradiction
  | invalid _ heq =>
    rw [heq] at hletter
    contradiction

theorem SureLine.means_mac (h : SureLine U console buffer)
    (hisMac : (parseLine console.locals buffer).isRtMac = .isMac) :
    Means U buffer
      ((parseLine console.locals buffer).opcode, (parseLine console.locals buffer).entry) := by
  intro v _
  rw [← h.command]
  have hlength := h.argument hisMac
  rw [parseLine_eq] at hisMac
  rw [parseLine_eq, parseLine_eq]
  match hwords : words space (cstr buffer) with
  | [] | [_] => simp [hwords] at hlength
  | [letter, w] =>
    rw [hwords] at hisMac
    exact command_parseWords_singleton hisMac v
  | _ :: _ :: _ :: _ =>
    rw [hwords, isRtMac_arguments] at hisMac
    contradiction

theorem SureLine.means (hU : MaskByText U) (h : SureLine U console buffer) :
    Means U buffer
      ((parseLine console.locals buffer).opcode, (parseLine console.locals buffer).entry) := by
  cases hkind : (parseLine console.locals buffer).isRtMac with
  | isRt => exact h.toCommandLine.means hU hkind
  | isMac => exact h.means_mac hkind

theorem show_of_show (hret : (parseLine u buffer).retVal = true)
    (hop : (parseLine u buffer).opcode = .show) (v : Locals) :
    (parseLine v buffer).retVal = true ∧ (parseLine v buffer).opcode = .show := by
  rw [parseLine_eq] at hret hop ⊢
  cases hwords : words space (cstr buffer) with
  | nil =>
    rw [hwords] at hop
    contradiction
  | cons w ws =>
    rw [hwords] at hret hop
    cases letter w ws with
    | createUpdate opcode hopcode _ heq =>
      rw [heq, opcode_createUpdateWords] at hop
      cases hopcode with
      | inl hcreate =>
        rw [hcreate] at hop
        contradiction
      | inr hupdate =>
        rw [hupdate] at hop
        contradiction
    | delete _ heq =>
      rw [heq, opcode_deleteWords] at hop
      contradiction
    | plain opcode _ _ heq =>
      rw [heq] at hop ⊢
      exact ⟨rfl, hop⟩
    | invalid _ heq =>
      rw [heq] at hret
      contradiction

end Lines

/--
Whatever memory a client finds, the message does `f` to its tables.
-/
def Tells (U : Locals → Prop) (line : Mem) (f : Tables → Tables) : Prop :=
  ∀ u, U u → ∀ t, request t u line = some (f t)

theorem Means.tells {e : Entry} (h : Means U line (op, e)) (hcmd : op.isCommand = true) :
    Tells U line fun t => t.guarded op e :=
  fun u hu _ => request_eq (h u hu) hcmd

theorem tells_show (hret : (parseLine u line).retVal = true)
    (hop : (parseLine u line).opcode = .show) : Tells U line id := by
  intro v _ t
  obtain ⟨hret, hop⟩ := show_of_show hret hop v
  have hopcode : (parseLine v line).msgInfo.opcode = .show := hop
  unfold request
  simp only [hret, hopcode, if_true]
  rfl

def Brings (U : Locals → Prop) : List Mem → Tables → Tables → Prop
  | [], t, t' => t = t'
  | line :: texts, t, t' => ∃ f, Tells U line f ∧ Brings U texts (f t) t'

namespace Brings

theorem append (h : Brings U texts t t') (htells : Tells U line f) :
    Brings U (texts ++ [line]) t (f t') := by
  induction texts generalizing t with
  | nil =>
    unfold Brings at h
    rw [h]
    exact ⟨f, htells, rfl⟩
  | cons first texts ih =>
    obtain ⟨g, hfirst, hrest⟩ := h
    exact ⟨g, hfirst, ih hrest⟩

theorem tells (h : Brings U texts t t') : ∀ line ∈ texts, ∃ f, Tells U line f := by
  induction texts generalizing t with
  | nil => simp
  | cons first texts ih =>
    obtain ⟨f, hfirst, hrest⟩ := h
    rw [List.forall_mem_cons]
    exact ⟨⟨f, hfirst⟩, ih hrest⟩

theorem of_means {cs : List (Opcode × Entry)} (hmeans : List.Forall₂ (Means U) texts cs)
    (hcmd : ∀ command ∈ cs, command.1.isCommand = true) : Brings U texts t (t.replay cs) := by
  induction hmeans generalizing t with
  | nil => rfl
  | @cons line command texts cs hmeans _ ih =>
    rw [List.forall_mem_cons] at hcmd
    exact ⟨_, hmeans.tells hcmd.1, ih hcmd.2⟩

end Brings

theorem brings_snapshot (ht : t.Reproducible U) (buffer bufferMac : Mem) :
    Brings U (snapshot buffer bufferMac t) .empty t := by
  have hbrings := Brings.of_means (t := .empty) (means_snapshot ht buffer bufferMac)
    fun _ => isCommand_of_mem_commands
  rw [Tables.replay_commands ht.spread ht.spreadMac] at hbrings
  exact hbrings

namespace Server

/--
What a line from the console comes to: `told` is for what the clients hear about, `flushed` for what
they are signalled.
-/
inductive Ran (U : Locals → Prop) (s : Server) (console : Console) (buffer : Mem) : Prop where
  | quiet (htables : (s.console console buffer).1.toTables = s.toTables)
      (hwrites : (s.console console buffer).2.writes = [])
      (hkills : (s.console console buffer).2.kills = []) (hflush : isFlush console buffer = false)
  | told (f : Tables → Tables) (htells : Tells U buffer f)
      (hkeeps : s.Reproducible U → (s.console console buffer).1.Reproducible U)
      (htables : (s.console console buffer).1.toTables = f s.toTables)
      (hwrites : (s.console console buffer).2.writes = s.clientFds.map fun fd => (fd, buffer))
      (hkills : (s.console console buffer).2.kills = []) (hflush : isFlush console buffer = false)
  | flushed (htables : (s.console console buffer).1.toTables = Tables.empty)
      (hwrites : (s.console console buffer).2.writes = [])
      (hkills : (s.console console buffer).2.kills = s.clientPidSet.filter (· ≠ -1))
      (hflush : isFlush console buffer = true)

theorem ran_command (hU : MaskByText U) (h : SureLine U console buffer)
    (hreply : ¬s.OneByteReply console (parseLine console.locals buffer)) : s.Ran U console buffer := by
  have htells := (h.means hU).tells h.isCommand
  have hkills : (s.console console buffer).2.kills = [] := by
    rw [console_eq h.retVal]
    exact dispatch_kills h.isCommand
  have hflush : isFlush console buffer = false := by
    have hcmd := h.isCommand
    unfold isFlush
    cases hop : (parseLine console.locals buffer).opcode with
    | flush =>
      rw [hop] at hcmd
      contradiction
    | _ => simp [hop]
  cases s.dispatched console h.isCommand with
  | performed hcheck _ hretVal _ htables =>
    apply Ran.told _ htells (h.toCommandLine.reproducible hU) _ _ hkills hflush
    . rw [console_eq h.retVal, Tables.guarded_of_check hcheck]
      exact htables
    . simp only [console_eq h.retVal, hretVal, if_true]
  | refused _ hretVal _ htables =>
    apply Ran.quiet _ _ hkills hflush
    . rw [console_eq h.retVal]
      exact htables
    . simp only [console_eq h.retVal, hretVal]
      rfl
  | noIP hcheck hprompts hip hretVal _ htables =>
    have hlength : ¬(console.reply.length : Int) = 1 := by
      intro hone
      exact hreply ⟨hprompts, hcheck, hip, by omega⟩
    apply Ran.quiet _ _ hkills hflush
    . rw [console_eq h.retVal]
      exact htables
    . simp only [console_eq h.retVal, hretVal, hlength, if_false]

theorem ran (hU : MaskByText U)
    (hline : (parseLine console.locals buffer).retVal = true →
      (parseLine console.locals buffer).opcode.isCommand = true →
        SureLine U console buffer ∧ ¬s.OneByteReply console (parseLine console.locals buffer)) :
    s.Ran U console buffer := by
  by_cases hret : (parseLine console.locals buffer).retVal = true
  . cases hop : (parseLine console.locals buffer).opcode with
    | «show» =>
      have hopcode : (parseLine console.locals buffer).msgInfo.opcode = .show := hop
      apply Ran.told id (tells_show hret hop)
      . intro hs
        simp only [console_eq hret, dispatch, hopcode]
        exact hs
      . simp only [console_eq hret, dispatch, hopcode]
        rfl
      . simp only [console_eq hret, dispatch, hopcode]
        rfl
      . simp only [console_eq hret, dispatch, hopcode]
        rfl
      . simp [isFlush, hop]
    | flush =>
      have hopcode : (parseLine console.locals buffer).msgInfo.opcode = .flush := hop
      apply Ran.flushed
      . simp only [console_eq hret, dispatch, hopcode]
        rfl
      . simp only [console_eq hret, dispatch, hopcode]
        rfl
      . simp only [console_eq hret, dispatch, hopcode]
      . simp [isFlush, hret, hop]
    | quit =>
      have hopcode : (parseLine console.locals buffer).msgInfo.opcode = .quit := hop
      apply Ran.quiet
      . simp only [console_eq hret, dispatch, hopcode]
        rfl
      . simp only [console_eq hret, dispatch, hopcode]
        rfl
      . simp only [console_eq hret, dispatch, hopcode]
        rfl
      . simp [isFlush, hop]
    | _ =>
      have hcmd : (parseLine console.locals buffer).opcode.isCommand = true := by
        rw [hop]
        rfl
      exact ran_command hU (hline hret hcmd).1 (hline hret hcmd).2
  . have hconsole : s.console console buffer = (s, { writes := [], kills := [], performed := false }) := by
      unfold Server.console
      dsimp only
      rw [parseLine_copy, if_neg hret]
    apply Ran.quiet
    . rw [hconsole]
    . rw [hconsole]
    . rw [hconsole]
    . simp [isFlush, hret]

end Server

end RoutingTable
