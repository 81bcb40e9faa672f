import BBBLinux.RoutingTable.Peers.Snapshot

/-!
This module contains the checks that the stored routes have passed. A line without a word is accepted
although nothing of it was checked, and creates the route of the zeroed message.
-/

namespace RoutingTable

open CString

variable {U : Locals → Prop} {u : Locals} {buffer : Mem} {t t' : Tables} {s s' : Server}
  {op : Opcode} {info : DataInfo} {console : Console} {ws : List Mem}

/--
`U` is what the calls may find in their memory: `check_mask_valid` reads on behind its copy of the mask.
-/
structure DataInfo.Validated (U : Locals → Prop) (info : DataInfo) : Prop where
  destination : ∀ u, checkDesIPValid u info.destination = true
  gatewayIp : ∀ u, checkGatewayValid u info.gatewayIp = true
  mask_length : strlen info.mask = 1 ∨ strlen info.mask = 2
  mask : ∃ u, U u ∧ checkMaskValid u info.mask (strlen info.mask) = true
  oif : checkOIFValid info.oif = true

def Tables.OnlyValidated (U : Locals → Prop) (t : Tables) : Prop :=
  ∀ info ∈ t.head, info.Validated U

def Blank (buffer : Mem) : Prop :=
  words space (cstr buffer) = []

theorem Route.validated (r : Route) (hu : U u) (hmask : r.MaskAccepted u) : r.info.Validated U := by
  have hlength : strlen r.info.mask = r.mask.length := by
    unfold strlen
    rw [r.cstr_mask]
  constructor
  . intro u
    unfold DataInfo.destination
    rw [r.mem_info, checkDesIPValid_layout r.isWord_destination.zero_notMem r.destination_lt]
    exact decide_eq_true r.isAddress_destination
  . intro u
    unfold DataInfo.gatewayIp
    rw [r.mem_info, checkGatewayValid_layout r.isWord_gatewayIp.zero_notMem r.gatewayIp_lt]
    exact decide_eq_true r.isAddress_gatewayIp
  . have hpos := List.length_pos_iff.mpr r.isWord_mask.ne_nil
    have hlt := r.mask_lt
    unfold maskSize at hlt
    omega
  . refine ⟨u, hu, ?_⟩
    rw [hlength]
    unfold DataInfo.mask
    rw [r.mem_info, checkMaskValid_layout r.mask_lt]
    exact hmask
  . unfold DataInfo.oif
    rw [r.mem_info, checkOIFValid_layout r.zero_notMem_oif r.oif_lt]

theorem validated_of_parseWords (hws : ∀ w ∈ ws, IsWord space w) (hne : ws ≠ []) (hfit : TokensFit ws)
    (hu : U u) (hcmd : op.isCommand = true) (hop : op ≠ .delete)
    (h : (parseWords u ws).command = some (op, .route info)) : info.Validated U := by
  cases ws with
  | nil => contradiction
  | cons c ws =>
    have hargs : ∀ w ∈ ws, IsWord space w := fun w hw => hws w (List.mem_cons_of_mem c hw)
    cases letter c ws with
    | createUpdate opcode _ hletter hparse =>
      rw [hparse] at h
      have ⟨_, r, _, _, _, _, _, _, hinfo, hmask⟩ := exists_route hargs (hfit.1 hletter) h
      rw [hinfo]
      exact r.validated hu hmask
    | delete _ hparse =>
      rw [hparse, Parsed.command_eq_some_iff, opcode_deleteWords] at h
      exact absurd h.2.1.symm hop
    | plain opcode hopcode _ hparse =>
      rw [hparse, Parsed.command_eq_some_iff] at h
      have hop : opcode = op := h.2.1
      rw [← hop] at hcmd
      rcases hopcode with hopcode | hopcode | hopcode <;> rw [hopcode] at hcmd <;> contradiction
    | invalid _ hparse =>
      rw [hparse] at h
      contradiction

def Entered (U : Locals → Prop) (u : Locals) (buffer : Mem) : Prop :=
  U u ∧ TokensFit (words space (cstr buffer))

section Routes

variable {P : DataInfo → Prop}

/--
`info` is what the line puts into the routing table if it is carried out.
-/
def Enters (u : Locals) (buffer : Mem) (info : DataInfo) : Prop :=
  ∃ op : Opcode, (parseLine u buffer).command = some (op, .route info) ∧ op.isCommand = true ∧ op ≠ .delete

theorem Tables.forall_perform {e : Entry} (h : ∀ ptr ∈ t.head, P ptr)
    (he : ∀ info, e = .route info → op.isCommand = true → op ≠ .delete → P info) :
    ∀ ptr ∈ (t.perform op e).head, P ptr := by
  intro ptr hptr
  cases e with
  | mac info =>
    cases op with
    | flush => contradiction
    | _ => exact h ptr hptr
  | route info =>
    cases op with
    | create =>
      simp only [Tables.perform, addLastEntryList_eq, List.mem_append, List.mem_singleton] at hptr
      cases hptr with
      | inl hptr => exact h ptr hptr
      | inr hptr =>
        rw [hptr]
        exact he info rfl rfl (by decide)
    | update =>
      simp only [Tables.perform, updateEntryTable_eq] at hptr
      cases KeyedList.mem_update hptr with
      | inl hptr =>
        rw [hptr]
        exact he info rfl rfl (by decide)
      | inr hptr => exact h ptr hptr
    | delete =>
      simp only [Tables.perform, removeNodeList_eq] at hptr
      exact h ptr (KeyedList.mem_remove hptr)
    | flush => contradiction
    | «show» => exact h ptr hptr
    | quit => exact h ptr hptr

theorem Tables.forall_command {e : Entry} (h : ∀ ptr ∈ t.head, P ptr)
    (henters : ∀ info, Enters u buffer info → P info)
    (hcommand : (parseLine u buffer).command = some (op, e)) : ∀ ptr ∈ (t.perform op e).head, P ptr := by
  apply forall_perform h
  intro info he hcmd hop
  rw [he] at hcommand
  exact henters info ⟨op, hcommand, hcmd, hop⟩

end Routes

theorem Entered.validated (h : Entered U u buffer) (hblank : ¬Blank buffer) (henters : Enters u buffer info) :
    info.Validated U := by
  obtain ⟨op, hcommand, hcmd, hop⟩ := henters
  rw [parseLine_eq] at hcommand
  exact validated_of_parseWords isWord_words hblank h.2 h.1 hcmd hop hcommand

theorem Server.console_toTables (s : Server) (console : Console) (buffer : Mem) :
    (s.console console buffer).1.toTables = s.toTables
      ∨ ∃ op e, (parseLine console.locals buffer).command = some (op, e)
        ∧ (s.console console buffer).1.toTables = s.perform op e := by
  by_cases hret : (parseLine console.locals buffer).retVal = true
  . have hcommand : (parseLine console.locals buffer).command = some
        ((parseLine console.locals buffer).opcode, (parseLine console.locals buffer).entry) := by
      rw [Parsed.command_eq_some_iff]
      exact ⟨hret, rfl, rfl⟩
    rw [Server.console_eq hret, hcommand]
    dsimp only
    generalize parseLine console.locals buffer = parsed
    by_cases hcmd : parsed.opcode.isCommand = true
    . cases s.dispatched console hcmd with
      | performed _ _ _ _ htables => exact .inr ⟨_, _, rfl, htables⟩
      | refused _ _ _ htables => exact .inl htables
      | noIP _ _ _ _ _ htables => exact .inl htables
    . have ⟨retVal, isRtMac, ⟨opcode, data⟩, macAddr⟩ := parsed
      cases opcode with
      | «show» => exact .inl rfl
      | flush => exact .inr ⟨_, _, rfl, rfl⟩
      | quit => exact .inl rfl
      | _ => exact absurd rfl hcmd
  . left
    unfold Server.console
    dsimp only
    rw [parseLine_copy, if_neg hret]

theorem request_eq_some (h : request t u buffer = some t') :
    t' = t ∨ ∃ op e, (parseLine u buffer).command = some (op, e) ∧ t' = t.perform op e := by
  by_cases hret : (parseLine u buffer).retVal = true
  . have hcommand : (parseLine u buffer).command
        = some ((parseLine u buffer).opcode, (parseLine u buffer).entry) := by
      rw [Parsed.command_eq_some_iff]
      exact ⟨hret, rfl, rfl⟩
    by_cases hcmd : (parseLine u buffer).opcode.isCommand = true
    . rw [request_eq hcommand hcmd, Option.some.injEq] at h
      rw [← h]
      unfold Tables.guarded
      split
      . exact .inr ⟨_, _, hcommand, rfl⟩
      . exact .inl rfl
    . unfold request at h
      rw [hcommand]
      dsimp only at h
      rw [if_pos hret] at h
      generalize parseLine u buffer = parsed at hcmd h
      have ⟨retVal, isRtMac, ⟨opcode, data⟩, macAddr⟩ := parsed
      cases opcode with
      | «show» =>
        injection h with h
        exact .inl h.symm
      | flush =>
        injection h with h
        exact .inr ⟨_, _, rfl, h.symm⟩
      | quit => contradiction
      | _ => exact absurd rfl hcmd
  . unfold request at h
    dsimp only at h
    rw [if_neg hret, Option.some.injEq] at h
    exact .inl h.symm

section Loops

namespace Server

-- an iteration of the loop of the server
inductive Input where
  | accept (dataSocket : Int) (buffer bufferMac : Mem)
  | console (console : Console) (buffer : Mem)
  | clientData (fd pid : Int)

def next (s : Server) : Input → Server
  | .accept dataSocket buffer bufferMac => (s.accept dataSocket buffer bufferMac).1
  | .console console buffer => (s.console console buffer).1
  | .clientData fd pid => s.clientData fd pid

def loop : TransitionSystem Server Input :=
  .ofStep (·.toTables = Tables.empty) fun s input => some (s.next input)

def Input.Entered (U : Locals → Prop) : Input → Prop
  | .console console buffer => RoutingTable.Entered U console.locals buffer
  | _ => True

def Input.Nonblank : Input → Prop
  | .console _ buffer => ¬Blank buffer
  | _ => True

end Server

namespace Tables

-- what moves a client on: a message, or SIGUSR1
inductive Input where
  | message (u : Locals) (buffer : Mem)
  | sigusr1

def next (t : Tables) : Input → Option Tables
  | .message u buffer => request t u buffer
  | .sigusr1 => some (signalHandler t)

def loop : TransitionSystem Tables Input :=
  .ofStep (· = Tables.empty) next

def Input.Entered (U : Locals → Prop) : Input → Prop
  | .message u buffer => RoutingTable.Entered U u buffer
  | .sigusr1 => True

def Input.Nonblank : Input → Prop
  | .message _ buffer => ¬Blank buffer
  | .sigusr1 => True

end Tables

end Loops

section Routes

variable {P : DataInfo → Prop}

/--
What holds of all routes that are entered holds of all routes that are stored.
-/
theorem Server.forall_next {input : Input} (h : ∀ ptr ∈ s.head, P ptr)
    (henters : ∀ console buffer, input = .console console buffer →
      ∀ info, Enters console.locals buffer info → P info) : ∀ ptr ∈ (s.next input).head, P ptr := by
  cases input with
  | accept dataSocket buffer bufferMac => exact h
  | console console buffer =>
    unfold Server.next
    dsimp only
    rcases s.console_toTables console buffer with hsame | ⟨op, e, hcommand, hperform⟩
    . rw [hsame]
      exact h
    . rw [hperform]
      exact Tables.forall_command h (henters console buffer rfl) hcommand
  | clientData fd pid =>
    unfold Server.next Server.clientData
    dsimp only
    split <;> exact h

theorem Tables.forall_next {input : Input} (h : ∀ ptr ∈ t.head, P ptr)
    (henters : ∀ u buffer, input = .message u buffer → ∀ info, Enters u buffer info → P info)
    (hnext : t.next input = some t') : ∀ ptr ∈ t'.head, P ptr := by
  cases input with
  | message u buffer =>
    rcases request_eq_some hnext with hsame | ⟨op, e, hcommand, hperform⟩
    . rw [hsame]
      exact h
    . rw [hperform]
      exact Tables.forall_command h (henters u buffer rfl) hcommand
  | sigusr1 =>
    simp only [Tables.next, Option.some.injEq] at hnext
    rw [← hnext]
    intro info hinfo
    contradiction

theorem Server.forall_of_reachable {ok : Input → Prop} (henters : ∀ console buffer,
      ok (.console console buffer) → ∀ info, Enters console.locals buffer info → P info)
    (h : loop.ReachableVia (fun _ input => ok input) s) : ∀ ptr ∈ s.head, P ptr := by
  apply h.invariant (P := fun s => ∀ ptr ∈ s.head, P ptr)
  . intro s hs ptr hptr
    have hs : s.toTables = Tables.empty := hs
    rw [hs] at hptr
    contradiction
  . intro s input s' hs hok hstep
    simp only [loop, TransitionSystem.ofStep, Option.some.injEq] at hstep
    rw [← hstep]
    apply Server.forall_next hs
    intro console buffer hinput
    rw [hinput] at hok
    exact henters console buffer hok

theorem Tables.forall_of_reachable {ok : Input → Prop}
    (henters : ∀ u buffer, ok (.message u buffer) → ∀ info, Enters u buffer info → P info)
    (h : loop.ReachableVia (fun _ input => ok input) t) : ∀ ptr ∈ t.head, P ptr := by
  apply h.invariant (P := fun t => ∀ ptr ∈ t.head, P ptr)
  . intro t ht ptr hptr
    have ht : t = Tables.empty := ht
    rw [ht] at hptr
    contradiction
  . intro t input t' ht hok hstep
    refine Tables.forall_next ht ?_ hstep
    intro u buffer hinput
    rw [hinput] at hok
    exact henters u buffer hok

end Routes

section Blank

def DataInfo.zero : DataInfo :=
  .ofFields [] [] [] []

theorem command_of_blank (hblank : Blank buffer) :
    (parseLine u buffer).command = some (.create, .route .zero) := by
  unfold Blank at hblank
  rw [parseLine_eq, hblank]
  unfold parseWords
  rw [command_parseRoute, if_pos rfl]
  simp only [Parse.start, calloc_data, ofMem_layout]
  rfl

theorem not_validated_zero : ¬DataInfo.zero.Validated U := by
  intro h
  have hdestination := h.destination .zero
  revert hdestination
  decide

theorem Tables.OnlyValidated.check_zero (h : t.OnlyValidated U) :
    t.check .create (.route .zero) = true := by
  simp only [Tables.check, checkCondition_create_iff]
  intro info hinfo hkey
  have hmask : cstr info.mask = [] := congrArg Prod.snd hkey
  have hlength := (h info (List.dropLast_subset t.head hinfo)).mask_length
  unfold strlen at hlength
  rw [hmask] at hlength
  contradiction

theorem Tables.not_onlyValidated_create_zero : ¬(t.perform .create (.route .zero)).OnlyValidated U := by
  intro h
  apply not_validated_zero (U := U)
  apply h
  simp [Tables.perform, addLastEntryList_eq]

theorem Server.not_onlyValidated_of_blank (h : s.OnlyValidated U) (hblank : Blank buffer) :
    ¬(s.next (.console console buffer)).OnlyValidated U := by
  have hcommand := command_of_blank (u := console.locals) hblank
  rw [Parsed.command_eq_some_iff] at hcommand
  have ⟨hret, hop, he⟩ := hcommand
  have hcheck := h.check_zero
  rw [← hop, ← he] at hcheck
  have hcmd : (parseLine console.locals buffer).opcode.isCommand = true := by
    rw [hop]
    rfl
  unfold Server.next
  dsimp only
  rw [Server.console_eq hret]
  dsimp only
  cases s.dispatched console hcmd with
  | performed _ _ _ _ htables =>
    rw [htables, hop, he]
    apply Tables.not_onlyValidated_create_zero
  | refused hrefused _ _ _ =>
    rw [hrefused] at hcheck
    contradiction
  | noIP _ hprompts _ _ _ _ =>
    unfold Parsed.entry at he
    simp only [Parsed.prompts, Bool.and_eq_true, decide_eq_true_eq] at hprompts
    rw [hprompts.1] at he
    contradiction

theorem Tables.not_onlyValidated_of_blank (h : t.OnlyValidated U) (hblank : Blank buffer)
    (hnext : t.next (.message u buffer) = some t') : ¬t'.OnlyValidated U := by
  unfold Tables.next at hnext
  dsimp only at hnext
  rw [request_eq (command_of_blank hblank) rfl, Tables.guarded_of_check h.check_zero,
    Option.some.injEq] at hnext
  rw [← hnext]
  apply Tables.not_onlyValidated_create_zero

end Blank

theorem only_validated_unless_blank (U : Locals → Prop) (s : Server) (t : Tables) :
    (Server.loop.ReachableVia (fun _ input => input.Entered U ∧ input.Nonblank) s →
        s.OnlyValidated U
          ∧ ∀ console buffer, Blank buffer → ¬(s.next (.console console buffer)).OnlyValidated U)
      ∧ (Tables.loop.ReachableVia (fun _ input => input.Entered U ∧ input.Nonblank) t →
        t.OnlyValidated U
          ∧ ∀ u buffer t', Blank buffer → t.next (.message u buffer) = some t' →
            ¬t'.OnlyValidated U) := by
  constructor
  . intro h
    have hvalidated : s.OnlyValidated U := by
      refine Server.forall_of_reachable ?_ h
      intro console buffer ⟨hentered, hnonblank⟩ info
      exact Entered.validated hentered hnonblank
    exact ⟨hvalidated, fun _ _ hblank => Server.not_onlyValidated_of_blank hvalidated hblank⟩
  . intro h
    have hvalidated : t.OnlyValidated U := by
      refine Tables.forall_of_reachable ?_ h
      intro u buffer ⟨hentered, hnonblank⟩ info
      exact Entered.validated hentered hnonblank
    exact ⟨hvalidated, fun _ _ _ hblank => Tables.not_onlyValidated_of_blank hvalidated hblank⟩

theorem entered_createRouteLine : Entered (· = Locals.zero) .zero createRouteLine := by
  refine ⟨rfl, ?_⟩
  have hfits := commandLine_createRouteLine.fits (by decide +kernel)
  have hwords : words space (cstr createRouteLine)
      = text "C" :: [text "10.0.0.0", text "8", text "10.0.0.1", text "eth0\n"] := by
    decide +kernel
  rw [hwords] at hfits ⊢
  exact ⟨fun _ _ => hfits, fun _ _ => hfits⟩

theorem only_validated_unless_blank_createRouteLine :
    (Server.oneClient.next (.console (.replying "") createRouteLine)).OnlyValidated (· = Locals.zero)
      ∧ ((Tables.empty.next (.message .zero createRouteLine)).getD Tables.empty).OnlyValidated
        (· = Locals.zero) := by
  have hnonblank := commandLine_createRouteLine.nonblank
  constructor
  . apply ((only_validated_unless_blank (· = Locals.zero) _ Tables.empty).1 _).1
    apply TransitionSystem.ReachableVia.step (s := Server.oneClient)
      (i := .console (.replying "") createRouteLine) (.init rfl)
    . exact ⟨entered_createRouteLine, hnonblank⟩
    . rfl
  . have hsome : (Tables.empty.next (.message .zero createRouteLine)).isSome = true := by
      decide +kernel
    rw [Option.isSome_iff_exists] at hsome
    have ⟨t, hnext⟩ := hsome
    rw [hnext]
    apply ((only_validated_unless_blank (· = Locals.zero) Server.oneClient _).2 _).1
    exact .step (i := .message .zero createRouteLine) (.init rfl) ⟨entered_createRouteLine, hnonblank⟩
      hnext

theorem end_of_file_stored :
    (¬∀ s, Server.loop.ReachableVia (fun _ input => input.Entered fun _ => True) s →
        s.OnlyValidated fun _ => True)
      ∧ ¬∀ t, Tables.loop.ReachableVia (fun _ input => input.Entered fun _ => True) t →
        t.OnlyValidated fun _ => True := by
  have hempty : Tables.empty.OnlyValidated fun _ => True := by
    intro info hinfo
    contradiction
  have hentered : Entered (fun _ => True) .zero (List.replicate bufferSize 0) := ⟨trivial, trivial⟩
  have hblank : Blank (List.replicate bufferSize 0) := rfl
  constructor
  . intro h
    have hvalidated := h _ (.step (s := Server.oneClient)
      (i := .console (.replying "") (List.replicate bufferSize 0)) (.init rfl) hentered rfl)
    exact Server.not_onlyValidated_of_blank hempty hblank hvalidated
  . intro h
    have hvalidated := h _ (.step (i := .message .zero (List.replicate bufferSize 0)) (.init rfl)
      hentered rfl)
    exact Tables.not_onlyValidated_of_blank hempty hblank rfl hvalidated

end RoutingTable
