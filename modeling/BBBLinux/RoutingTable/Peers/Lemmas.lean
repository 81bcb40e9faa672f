import BBBLinux.RoutingTable.Parser.Route
import BBBLinux.RoutingTable.Peers.Impl
import BBBLinux.RoutingTable.Table.Lemmas

/-!
This module contains what a line comes to at the server and at a client. Both run the same operation
behind the same guard, but the server may also ask for an IP in between.
-/

namespace RoutingTable

open CString

namespace Parsed

def prompts (parsed : Parsed) : Bool :=
  parsed.isRtMac = .isMac && parsed.opcode ≠ .delete

end Parsed

namespace Console

def acceptsIP (console : Console) : Bool :=
  checkDesIPValid console.locals (memcpy console.ipValue 0 console.reply console.reply.length)
    && console.shmCalls.shmOpen && console.shmCalls.ftruncate && console.shmCalls.mmap
    && console.shmCalls.munmap

end Console

variable {t : Tables} {u : Locals} {buffer : Mem} {s : Server} {console : Console} {parsed : Parsed}

theorem parseLine_copy (u : Locals) (buffer after : Mem) :
    parseLine u (cstr buffer ++ 0 :: after) = parseLine u buffer := by
  rw [parseLine_eq, parseLine_eq, cstr_append_zero zero_notMem_cstr]

theorem request_eq {op : Opcode} {e : Entry} (h : (parseLine u buffer).command = some (op, e))
    (hcmd : op.isCommand = true) : request t u buffer = some (t.guarded op e) := by
  rw [Parsed.command_eq_some_iff] at h
  have ⟨hret, hop, he⟩ := h
  unfold request
  rw [← he]
  generalize parseLine u buffer = parsed at *
  have ⟨retVal, isRtMac, ⟨opcode, data⟩, macAddr⟩ := parsed
  have hopcode : opcode = op := hop
  simp only at hret
  simp only [hret, hopcode, if_true]
  cases op with
  | «show» => contradiction
  | flush => contradiction
  | quit => contradiction
  | _ =>
    cases isRtMac with
    | isRt =>
      simp only [reduceCtorEq, if_false]
      split
      . next h =>
        rw [Tables.guarded_of_check]
        . rfl
        . exact h
      . next h =>
        rw [Tables.guarded_of_not_check]
        exact h
    | isMac =>
      simp only [if_true]
      split
      . next h =>
        rw [Tables.guarded_of_check]
        . rfl
        . exact h
      . next h =>
        rw [Tables.guarded_of_not_check]
        exact h

namespace Server

inductive Dispatched (s : Server) (console : Console) (parsed : Parsed) (turn : Turn) : Prop where
  | performed (hcheck : s.check parsed.opcode parsed.entry = true)
      (hip : parsed.prompts = true → console.acceptsIP = true) (hretVal : turn.retVal = 1)
      (hperformed : turn.performed = true)
      (htables : turn.server.toTables = s.perform parsed.opcode parsed.entry)
  | refused (hcheck : s.check parsed.opcode parsed.entry = false) (hretVal : turn.retVal = 0)
      (hperformed : turn.performed = false) (htables : turn.server.toTables = s.toTables)
  | noIP (hcheck : s.check parsed.opcode parsed.entry = true) (hprompts : parsed.prompts = true)
      (hip : console.acceptsIP = false) (hretVal : turn.retVal = console.reply.length)
      (hperformed : turn.performed = false) (htables : turn.server.toTables = s.toTables)

theorem writeIPToShm_fst (calls : ShmCalls) (shm : Shm) (mac ip : Mem) :
    (writeIPToShm calls shm mac ip).1
      = (calls.shmOpen && calls.ftruncate && calls.mmap && calls.munmap) := by
  unfold writeIPToShm
  cases calls.shmOpen <;> cases calls.ftruncate <;> cases calls.mmap <;> cases calls.munmap <;> rfl

theorem dispatched_promptIP (hcheck : s.check parsed.opcode parsed.entry = true)
    (hprompts : parsed.prompts = true) :
    s.Dispatched console parsed
      (s.promptIP console writeIPToShm parsed.macAddr (s.perform parsed.opcode parsed.entry)) := by
  unfold promptIP
  simp only
  split
  . next hip =>
    split
    . next hstored =>
      rw [writeIPToShm_fst] at hstored
      apply Dispatched.performed hcheck
      . intro _
        simp only [Console.acceptsIP, hip, Bool.true_and]
        exact hstored
      . rfl
      . rfl
      . rfl
    . next hstored =>
      rw [writeIPToShm_fst, Bool.not_eq_true] at hstored
      apply Dispatched.noIP hcheck hprompts
      . simp only [Console.acceptsIP, hip, Bool.true_and]
        exact hstored
      . rfl
      . rfl
      . rfl
  . next hip =>
    apply Dispatched.noIP hcheck hprompts
    . simp [Console.acceptsIP, hip]
    . rfl
    . rfl
    . rfl

theorem dispatched_accomplish (hcheck : s.check parsed.opcode parsed.entry = true)
    (hprompts : parsed.prompts = false) :
    s.Dispatched console parsed (s.accomplish (s.perform parsed.opcode parsed.entry)) := by
  apply Dispatched.performed hcheck
  . simp [hprompts]
  . rfl
  . rfl
  . rfl

theorem dispatched_refuse (hcheck : ¬s.check parsed.opcode parsed.entry = true) :
    s.Dispatched console parsed (s.refuse 0) := by
  rw [Bool.not_eq_true] at hcheck
  exact .refused hcheck rfl rfl rfl

theorem dispatched (s : Server) (console : Console) (hcmd : parsed.opcode.isCommand = true) :
    s.Dispatched console parsed (s.dispatch console parsed) := by
  have ⟨retVal, isRtMac, ⟨opcode, data⟩, macAddr⟩ := parsed
  unfold dispatch
  cases opcode with
  | «show» => contradiction
  | flush => contradiction
  | quit => contradiction
  | create =>
    cases isRtMac with
    | isRt =>
      simp only [reduceCtorEq, if_false]
      split
      . next hcheck => exact dispatched_accomplish hcheck rfl
      . next hcheck => exact dispatched_refuse hcheck
    | isMac =>
      simp only [if_true]
      split
      . next hcheck => exact dispatched_promptIP hcheck rfl
      . next hcheck => exact dispatched_refuse hcheck
  | update =>
    cases isRtMac with
    | isRt =>
      simp only [reduceCtorEq, if_false]
      split
      . next hcheck => exact dispatched_accomplish hcheck rfl
      . next hcheck => exact dispatched_refuse hcheck
    | isMac =>
      simp only [if_true]
      split
      . next hcheck => exact dispatched_promptIP hcheck rfl
      . next hcheck => exact dispatched_refuse hcheck
  | delete =>
    cases isRtMac with
    | isRt =>
      simp only [reduceCtorEq, if_false]
      split
      . next hcheck => exact dispatched_accomplish hcheck rfl
      . next hcheck => exact dispatched_refuse hcheck
    | isMac =>
      simp only [if_true]
      split
      . next hcheck => exact dispatched_accomplish hcheck rfl
      . next hcheck => exact dispatched_refuse hcheck

structure SameClients (s s' : Server) : Prop where
  monitorFdSet : s'.monitorFdSet = s.monitorFdSet
  clientPidSet : s'.clientPidSet = s.clientPidSet
  connectionSocket : s'.connectionSocket = s.connectionSocket

theorem SameClients.refl : s.SameClients s :=
  ⟨rfl, rfl, rfl⟩

theorem SameClients.clientFds {s' : Server} (h : s.SameClients s') : s'.clientFds = s.clientFds := by
  unfold Server.clientFds
  rw [h.monitorFdSet, h.connectionSocket]

theorem promptIP_sameClients (store : ShmCalls → Shm → Mem → Mem → Bool × Shm) (mac : Mac)
    (tables : Tables) : s.SameClients (s.promptIP console store mac tables).server := by
  unfold promptIP
  dsimp only
  split
  . split <;> exact ⟨rfl, rfl, rfl⟩
  . exact .refl

theorem dispatch_sameClients : s.SameClients (s.dispatch console parsed).server := by
  unfold dispatch
  dsimp only
  split
  . split
    . split
      . apply promptIP_sameClients
      . exact .refl
    . split <;> exact ⟨rfl, rfl, rfl⟩
  . split
    . split
      . apply promptIP_sameClients
      . exact .refl
    . split <;> exact ⟨rfl, rfl, rfl⟩
  . split
    . split <;> exact ⟨rfl, rfl, rfl⟩
    . split <;> exact ⟨rfl, rfl, rfl⟩
  . exact .refl
  . exact ⟨rfl, rfl, rfl⟩
  . exact .refl

theorem promptIP_kills (store : ShmCalls → Shm → Mem → Mem → Bool × Shm) (mac : Mac) (tables : Tables) :
    (s.promptIP console store mac tables).kills = [] := by
  unfold promptIP
  dsimp only
  split
  . split <;> rfl
  . rfl

theorem dispatch_kills (hcmd : parsed.opcode.isCommand = true) :
    (s.dispatch console parsed).kills = [] := by
  have ⟨retVal, isRtMac, ⟨opcode, data⟩, macAddr⟩ := parsed
  unfold dispatch
  dsimp only
  cases opcode with
  | «show» => contradiction
  | flush => contradiction
  | quit => contradiction
  | delete =>
    dsimp only
    split
    . split <;> rfl
    . split <;> rfl
  | _ =>
    dsimp only
    split
    . split
      . apply promptIP_kills
      . rfl
    . split <;> rfl

theorem console_sameClients : s.SameClients (s.console console buffer).1 := by
  unfold Server.console
  dsimp only
  split
  . apply dispatch_sameClients
  . exact .refl

theorem messagesFor_map {fds : List Int} {fd : Int} (hfd : fds.count fd = 1) :
    messagesFor fd (fds.map fun fd => (fd, buffer)) = [buffer] := by
  unfold messagesFor
  rw [List.filter_map, List.map_map]
  have heq : ((fun write : Int × Mem => decide (write.1 = fd)) ∘ fun fd => (fd, buffer))
      = (· == fd) := by
    funext x
    rfl
  rw [heq, List.filter_beq, hfd]
  rfl

theorem messagesFor_clientFds {fd : Int} (hfd : s.clientFds.count fd = 1) :
    messagesFor fd (s.clientFds.map fun fd => (fd, buffer)) = [buffer] :=
  messagesFor_map hfd

theorem console_eq (hret : (parseLine console.locals buffer).retVal = true) :
    s.console console buffer =
      let turn := s.dispatch console (parseLine console.locals buffer)
      (turn.server,
        { writes := if turn.retVal = 1 then s.clientFds.map fun fd => (fd, buffer) else []
          kills := turn.kills
          performed := turn.performed }) := by
  unfold Server.console
  dsimp only
  rw [parseLine_copy, if_pos hret, dispatch_sameClients.clientFds]

theorem console_writes_cases : (s.console console buffer).2.writes = []
    ∨ (s.console console buffer).2.writes = s.clientFds.map fun fd => (fd, buffer) := by
  by_cases hret : (parseLine console.locals buffer).retVal = true
  . rw [console_eq hret]
    dsimp only
    split
    . exact .inr rfl
    . exact .inl rfl
  . left
    unfold Server.console
    dsimp only
    rw [parseLine_copy, if_neg hret]

end Server

def Server.oneClient : Server where
  head := []
  headMac := []
  shm := fun _ => none
  monitorFdSet := [0, 3, 4] ++ List.replicate 29 (-1)
  clientPidSet := 100 :: List.replicate 31 (-1)
  connectionSocket := 3

def Console.replying (reply : String) : Console where
  locals := .zero
  afterCopyBuffer := []
  ipValue := List.replicate ipAddrLen 0
  reply := text reply
  shmCalls := { shmOpen := true, ftruncate := true, mmap := true, munmap := true }

end RoutingTable
