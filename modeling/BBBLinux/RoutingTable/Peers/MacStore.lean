import BBBLinux.RoutingTable.Peers.Validated

/-!
This module contains the IPs that are stored in shared memory under the MAC addresses of the table. The
object is truncated before anything can fail that comes later, and `munmap` comes after the copy.
-/

namespace RoutingTable

open CString

variable {calls : ShmCalls} {shm : Shm} {mac info : Mac} {ip name : Mem} {s s' : Server}
  {console : Console} {buffer : Mem}

def ShmCalls.Succeed (calls : ShmCalls) : Prop :=
  calls.shmOpen = true ∧ calls.ftruncate = true ∧ calls.mmap = true ∧ calls.munmap = true

/--
A call that fails can only leave the stored bytes as they were if it does not get to the object, or if
what it puts there was there before.
-/
def ShmCalls.Harmless (calls : ShmCalls) (shm : Shm) (mac : Mac) (ip : Mem) : Prop :=
  calls.Succeed ∨ calls.shmOpen = false
    ∨ calls.ftruncate = false ∧ shm mac.key = some []
    ∨ calls.ftruncate = true ∧ calls.mmap = false ∧ shm mac.key = some (List.replicate ipAddrLen 0)
    ∨ calls.ftruncate = true ∧ calls.mmap = true ∧ calls.munmap = false
      ∧ shm mac.key = some (bytes ipAddrLen ip)

theorem succeed_iff : (writeIPToShm calls shm mac.mac ip).1 = true ↔ calls.Succeed := by
  simp only [Server.writeIPToShm_fst, ShmCalls.Succeed, Bool.and_eq_true, and_assoc]

theorem writeIPToShm_of_succeed (h : calls.Succeed) : (writeIPToShm calls shm mac.mac ip).2
    = fun name => if name = mac.key then some (bytes ipAddrLen ip) else shm name := by
  have ⟨hopen, htruncate, hmmap, hmunmap⟩ := h
  unfold writeIPToShm
  simp [hopen, htruncate, hmmap, hmunmap]
  rfl

theorem set_eq_self_iff {contents : Mem} :
    (fun name => if name = cstr mac.mac then some contents else shm name) = shm
      ↔ shm mac.key = some contents := by
  constructor
  . intro h
    have hname := congrFun h mac.key
    unfold Mac.key at hname ⊢
    rw [if_pos rfl] at hname
    exact hname.symm
  . intro h
    funext name
    split
    . next hname =>
      rw [hname]
      exact h.symm
    . rfl

theorem writeIPToShm_eq_self_iff (hfail : ¬calls.Succeed) :
    (writeIPToShm calls shm mac.mac ip).2 = shm ↔ calls.Harmless shm mac ip := by
  unfold writeIPToShm ShmCalls.Harmless
  unfold ShmCalls.Succeed at hfail ⊢
  dsimp only
  split
  . next hopen => simp [hopen]
  . next hopen =>
    rw [Bool.not_eq_false] at hopen
    split
    . next htruncate => simp [set_eq_self_iff, hopen, htruncate]
    . next htruncate =>
      rw [Bool.not_eq_false] at htruncate
      split
      . next hmmap => simp [set_eq_self_iff, hopen, htruncate, hmmap]
      . next hmmap =>
        rw [Bool.not_eq_false] at hmmap
        split
        . next hmunmap => simp [set_eq_self_iff, hopen, htruncate, hmmap, hmunmap]
        . next hmunmap => simp [hopen, htruncate, hmmap, hmunmap] at hfail

def Console.ipRead (console : Console) : Mem :=
  memcpy console.ipValue 0 console.reply console.reply.length

namespace Server

/--
The call of `store_IP_to_Shm` or `update_IP_in_Shm` that a line leads to.
-/
def storeCall (s : Server) (console : Console) (buffer : Mem) : Option (Mac × Mem) :=
  match (parseLine console.locals buffer).command with
  | some (op, .mac mac) =>
    if (op = .create ∨ op = .update) ∧ s.check op (.mac mac) = true
        ∧ checkDesIPValid console.locals console.ipRead = true then
      some (mac, console.ipRead)
    else
      none
  | _ => none

theorem promptIP_shm (mac : Mac) (tables : Tables) :
    (s.promptIP console writeIPToShm mac tables).server.shm =
      if checkDesIPValid console.locals console.ipRead = true then
        (writeIPToShm console.shmCalls s.shm mac.mac console.ipRead).2
      else
        s.shm := by
  unfold promptIP Console.ipRead
  dsimp only
  split
  . split <;> rfl
  . rfl

theorem prompted_shm {op : Opcode} {tables : Tables} (hop : op = .create ∨ op = .update) :
    (if s.check op (.mac mac) = true then s.promptIP console writeIPToShm mac tables
        else s.refuse 0).server.shm =
      match (if (op = .create ∨ op = .update) ∧ s.check op (.mac mac) = true
          ∧ checkDesIPValid console.locals console.ipRead = true then some (mac, console.ipRead) else none) with
      | some (mac, ip) => (writeIPToShm console.shmCalls s.shm mac.mac ip).2
      | none => s.shm := by
  simp only [hop, true_and]
  split
  . next hcheck =>
    rw [promptIP_shm]
    simp only [hcheck, true_and]
    split <;> rfl
  . next hcheck =>
    rw [if_neg (fun h => hcheck h.1)]
    rfl

theorem console_shm (s : Server) (console : Console) (buffer : Mem) :
    (s.console console buffer).1.shm =
      match s.storeCall console buffer with
      | some (mac, ip) => (writeIPToShm console.shmCalls s.shm mac.mac ip).2
      | none => s.shm := by
  unfold Server.console storeCall
  dsimp only
  rw [parseLine_copy]
  generalize parseLine console.locals buffer = parsed
  have ⟨retVal, isRtMac, ⟨opcode, data⟩, macAddr⟩ := parsed
  cases retVal with
  | false => rfl
  | true =>
    rw [if_pos rfl]
    dsimp only
    unfold dispatch
    cases isRtMac with
    | isRt =>
      cases opcode with
      | «show» => rfl
      | flush => rfl
      | quit => rfl
      | _ =>
        dsimp only
        rw [if_neg (by decide)]
        split <;> rfl
    | isMac =>
      cases opcode with
      | create => exact prompted_shm (.inl rfl)
      | update => exact prompted_shm (.inr rfl)
      | delete =>
        dsimp only
        rw [if_pos rfl]
        split <;> rfl
      | «show» => rfl
      | flush => rfl
      | quit => rfl

theorem storeCall_of_performed {op : Opcode} (hop : op = .create ∨ op = .update)
    (hcommand : (parseLine console.locals buffer).command = some (op, .mac mac))
    (hcheck : s.check op (.mac mac) = true) (hip : console.acceptsIP = true) :
    s.storeCall console buffer = some (mac, console.ipRead) ∧ console.shmCalls.Succeed := by
  simp only [Console.acceptsIP, Bool.and_eq_true, and_assoc] at hip
  refine ⟨?_, hip.2⟩
  unfold storeCall
  rw [hcommand]
  dsimp only
  rw [if_pos ⟨hop, hcheck, hip.1⟩]

end Server

theorem mem_headMac_perform {t : Tables} {op : Opcode} {e : Entry} (hinfo : info ∈ (t.perform op e).headMac) :
    info ∈ t.headMac ∨ (op = .create ∨ op = .update) ∧ e = .mac info := by
  cases e with
  | route ptr =>
    cases op with
    | flush => contradiction
    | _ => exact .inl hinfo
  | mac ptr =>
    cases op with
    | create =>
      simp only [Tables.perform, addLastEntryListMac_eq, List.mem_append, List.mem_singleton] at hinfo
      cases hinfo with
      | inl hinfo => exact .inl hinfo
      | inr hinfo => exact .inr ⟨.inl rfl, congrArg Entry.mac hinfo.symm⟩
    | update =>
      simp only [Tables.perform, updateEntryTableMac_eq] at hinfo
      cases KeyedList.mem_update hinfo with
      | inl hinfo => exact .inr ⟨.inr rfl, congrArg Entry.mac hinfo.symm⟩
      | inr hinfo => exact .inl hinfo
    | delete =>
      simp only [Tables.perform, removeNodeListMac_eq] at hinfo
      exact .inl (KeyedList.mem_remove hinfo)
    | flush => contradiction
    | «show» => exact .inl hinfo
    | quit => exact .inl hinfo

/--
The entries that a line brings into the table have been stored before.
-/
theorem Server.mem_headMac_console (hinfo : info ∈ (s.console console buffer).1.headMac) :
    info ∈ s.headMac
      ∨ s.storeCall console buffer = some (info, console.ipRead) ∧ console.shmCalls.Succeed := by
  by_cases hret : (parseLine console.locals buffer).retVal = true
  . have hcommand : (parseLine console.locals buffer).command = some
        ((parseLine console.locals buffer).opcode, (parseLine console.locals buffer).entry) := by
      rw [Parsed.command_eq_some_iff]
      exact ⟨hret, rfl, rfl⟩
    rw [Server.console_eq hret] at hinfo
    dsimp only at hinfo
    by_cases hcmd : (parseLine console.locals buffer).opcode.isCommand = true
    . cases s.dispatched console hcmd with
      | performed hcheck hip _ _ htables =>
        rw [htables] at hinfo
        rcases mem_headMac_perform hinfo with hold | ⟨hop, he⟩
        . exact .inl hold
        . right
          rw [he] at hcheck hcommand
          apply storeCall_of_performed hop hcommand hcheck
          apply hip
          unfold Parsed.entry at he
          split at he
          . contradiction
          . next hmac =>
            simp only [Parsed.prompts, hmac, decide_true, Bool.true_and]
            cases hop with
            | inl hop => simp [hop]
            | inr hop => simp [hop]
      | refused _ _ _ htables =>
        rw [htables] at hinfo
        exact .inl hinfo
      | noIP _ _ _ _ _ htables =>
        rw [htables] at hinfo
        exact .inl hinfo
    . left
      generalize parseLine console.locals buffer = parsed at hcmd hinfo
      obtain ⟨retVal, isRtMac, ⟨opcode, data⟩, macAddr⟩ := parsed
      cases opcode with
      | «show» => exact hinfo
      | flush => contradiction
      | quit => exact hinfo
      | _ => exact absurd rfl hcmd
  . left
    unfold Server.console at hinfo
    dsimp only at hinfo
    rw [parseLine_copy, if_neg hret] at hinfo
    exact hinfo

/--
The server together with what its calls have last reported as stored.
-/
structure MacStore where
  server : Server
  reported : Shm

namespace MacStore

variable {st st' : MacStore}

def next (st : MacStore) (console : Console) (buffer : Mem) : MacStore where
  server := (st.server.console console buffer).1
  reported :=
    match st.server.storeCall console buffer with
    | some (mac, ip) =>
      if (writeIPToShm console.shmCalls st.server.shm mac.mac ip).1 = true then
        fun name => if name = mac.key then some (bytes ipAddrLen ip) else st.reported name
      else
        st.reported
    | none => st.reported

def system : TransitionSystem MacStore (Console × Mem) :=
  .ofStep (·.server.toTables = Tables.empty) fun st line => some (st.next line.1 line.2)

def HoldsReported (st : MacStore) : Prop :=
  ∀ info ∈ st.server.headMac, ∃ ip, ip.length = ipAddrLen ∧ st.reported info.key = some ip
    ∧ st.server.shm info.key = some ip

def KeptOnFailure (st : MacStore) (console : Console) (buffer : Mem) : Prop :=
  ∀ mac ip, st.server.storeCall console buffer = some (mac, ip) →
    (writeIPToShm console.shmCalls st.server.shm mac.mac ip).1 = false →
    (st.next console buffer).server.shm = st.server.shm

def Harmless (st : MacStore) (console : Console) (buffer : Mem) : Prop :=
  ∀ mac ip, st.server.storeCall console buffer = some (mac, ip) →
    console.shmCalls.Harmless st.server.shm mac ip

theorem keptOnFailure_iff : st.KeptOnFailure console buffer ↔ st.Harmless console buffer := by
  unfold KeptOnFailure Harmless next
  apply forall_congr'
  intro mac
  apply forall_congr'
  intro ip
  apply imp_congr_right
  intro hcall
  rw [Server.console_shm, hcall]
  dsimp only
  by_cases hsucceed : console.shmCalls.Succeed
  . rw [succeed_iff.mpr hsucceed]
    apply iff_of_true
    . intro hfail
      contradiction
    . exact .inl hsucceed
  . have hfail : (writeIPToShm console.shmCalls st.server.shm mac.mac ip).1 = false := by
      rw [Bool.eq_false_iff]
      exact fun h => hsucceed (succeed_iff.mp h)
    rw [← writeIPToShm_eq_self_iff hsucceed]
    exact ⟨fun h => h hfail, fun h _ => h⟩

theorem HoldsReported.next (h : st.HoldsReported) (hok : st.Harmless console buffer) :
    (st.next console buffer).HoldsReported := by
  intro info hinfo
  simp only [MacStore.next] at hinfo ⊢
  rw [Server.console_shm]
  cases hcall : st.server.storeCall console buffer with
  | none =>
    rcases Server.mem_headMac_console hinfo with hold | ⟨hnew, _⟩
    . exact h info hold
    . rw [hcall] at hnew
      contradiction
  | some call =>
    have ⟨mac, ip⟩ := call
    dsimp only
    by_cases hsucceed : console.shmCalls.Succeed
    . rw [succeed_iff.mpr hsucceed, if_pos rfl, writeIPToShm_of_succeed hsucceed]
      dsimp only
      by_cases hkey : info.key = mac.key
      . rw [if_pos hkey, if_pos hkey]
        exact ⟨_, bytes_length, rfl, rfl⟩
      . rw [if_neg hkey, if_neg hkey]
        rcases Server.mem_headMac_console hinfo with hold | ⟨hnew, _⟩
        . exact h info hold
        . rw [hcall, Option.some.injEq, Prod.mk.injEq] at hnew
          rw [hnew.1] at hkey
          exact absurd rfl hkey
    . rw [if_neg (fun h => hsucceed (succeed_iff.mp h))]
      rw [(writeIPToShm_eq_self_iff hsucceed).mpr (hok mac ip hcall)]
      rcases Server.mem_headMac_console hinfo with hold | ⟨_, hnew⟩
      . exact h info hold
      . exact absurd hnew hsucceed

theorem holds_reported_unless_harmed (st : MacStore) :
    (system.ReachableVia (fun st line => st.Harmless line.1 line.2) st → st.HoldsReported)
      ∧ ∀ console buffer, st.KeptOnFailure console buffer ↔ st.Harmless console buffer := by
  constructor
  . intro h
    apply h.invariant (P := HoldsReported)
    . intro st hst info hinfo
      have hst : st.server.toTables = Tables.empty := hst
      rw [hst] at hinfo
      contradiction
    . intro st line st' hst hok hstep
      simp only [system, TransitionSystem.ofStep, Option.some.injEq] at hstep
      rw [← hstep]
      exact hst.next hok
  . intro console buffer
    exact keptOnFailure_iff

def start : MacStore where
  server := .oneClient
  reported := fun _ => none

def updateMacLine : Mem :=
  bytes bufferSize (text "U 00:11:22:33:44:55\n")

theorem step_next (st : MacStore) (console : Console) (buffer : Mem) :
    system.step st (console, buffer) (st.next console buffer) := rfl

def created : MacStore :=
  start.next (.replying "10.0.0.1\n") createMacLine

theorem reachable_created {ok : MacStore → Console × Mem → Prop}
    (hok : ok start (.replying "10.0.0.1\n", createMacLine)) : system.ReachableVia ok created := by
  apply TransitionSystem.ReachableVia.step (s := start) _ hok (step_next _ _ _)
  exact .init rfl

def notOpened : Console :=
  { Console.replying "10.0.0.2\n" with
    shmCalls := { shmOpen := false, ftruncate := true, mmap := true, munmap := true } }

theorem holds_reported_unless_harmed_notOpened :
    created.server.headMac.length = 1 ∧ (created.next notOpened updateMacLine).HoldsReported
      ∧ created.KeptOnFailure notOpened updateMacLine := by
  have hharmless : created.Harmless notOpened updateMacLine := fun _ _ _ => .inr (.inl rfl)
  refine ⟨by decide +kernel, ?_, ((holds_reported_unless_harmed created).2 _ _).mpr hharmless⟩
  apply (holds_reported_unless_harmed _).1
  apply TransitionSystem.ReachableVia.step (i := (notOpened, updateMacLine)) _ hharmless (step_next _ _ _)
  apply reachable_created
  exact fun _ _ _ => .inl ⟨rfl, rfl, rfl, rfl⟩

def notTruncated : Console :=
  { Console.replying "10.0.0.2\n" with
    shmCalls := { shmOpen := true, ftruncate := false, mmap := true, munmap := true } }

theorem not_holdsReported_of_notTruncated : ¬∀ st, system.Reachable st →
    st.HoldsReported ∧ ∀ console buffer, st.KeptOnFailure console buffer := by
  intro h
  have hreachable : system.Reachable (created.next notTruncated updateMacLine) :=
    .step (reachable_created trivial) trivial (step_next _ _ _)
  have hempty : ∃ info ∈ (created.next notTruncated updateMacLine).server.headMac,
      (created.next notTruncated updateMacLine).server.shm info.key = some [] := by
    decide +kernel
  have ⟨info, hinfo, hshm⟩ := hempty
  have ⟨ip, hlength, _, hip⟩ := (h _ hreachable).1 info hinfo
  rw [hshm, Option.some.injEq] at hip
  rw [← hip] at hlength
  contradiction

end MacStore

end RoutingTable
