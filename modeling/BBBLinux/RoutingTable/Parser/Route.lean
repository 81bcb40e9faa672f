import BBBLinux.RoutingTable.Parser.Command

/-!
This module contains the lines about routes whose words fit their fields. They stand for the same
command wherever they are read, as far as the mask is judged by its text alone.
-/

namespace RoutingTable

open CString

/--
`check_mask_valid` depends on the text of the mask, not on what `U` allows behind its copy.
-/
def MaskByText (U : Locals → Prop) : Prop :=
  ∀ u v, U u → U v → ∀ mask size, checkMaskValid u mask size = checkMaskValid v mask size

structure RouteKey where
  destination : Mem
  mask : Mem
  isWord_destination : IsWord space destination
  isWord_mask : IsWord space mask
  destination_lt : destination.length < destSize
  mask_lt : mask.length < maskSize
  isAddress_destination : IsAddress destination

structure Route extends RouteKey where
  gatewayIp : Mem
  oif : Mem
  isWord_gatewayIp : IsWord space gatewayIp
  space_notMem_oif : space ∉ oif
  zero_notMem_oif : 0 ∉ oif
  gatewayIp_lt : gatewayIp.length < gatewSize
  oif_lt : oif.length < oifSize
  isAddress_gatewayIp : IsAddress gatewayIp

def RouteKey.info (k : RouteKey) : DataInfo :=
  .ofFields k.destination k.mask [] []

def Route.info (r : Route) : DataInfo :=
  .ofFields r.destination r.mask r.gatewayIp r.oif

def RouteKey.MaskAccepted (k : RouteKey) (u : Locals) : Prop :=
  checkMaskValid u k.mask k.mask.length = true

structure Fits (ws : List Mem) : Prop where
  destination : ∀ w ∈ ws[1]?, w.length < destSize
  gatewayIp : ∀ w ∈ ws[3]?, w.length < gatewSize
  oif : ∀ w ∈ ws[4]?, w.dropLast.length < oifSize

/--
Only CREATE and UPDATE have more than two arguments, and a single argument is a MAC.
-/
def TokensFit : List Mem → Prop
  | [] => True
  | c :: ws =>
    (c.headD 0 ∈ text "CU" → 2 ≤ ws.length → Fits (c :: ws))
      ∧ (c.headD 0 ∈ text "D" → ws.length = 2 → Fits (c :: ws))

variable {u v : Locals} {p : Parse} {w d m g o rest : Mem} {ws : List Mem} {index : Nat}
  {op opcode : Opcode} {info : DataInfo}

theorem Parsed.command_eq_some_iff {parsed : Parsed} {e : Entry} :
    parsed.command = some (op, e) ↔ parsed.retVal = true ∧ parsed.opcode = op ∧ parsed.entry = e := by
  unfold command
  split
  . next h => simp [h]
  . next h => simp [h]

theorem strlen_of_notMem (h : 0 ∉ w) : strlen w = w.length := by
  unfold strlen
  rw [cstr_of_notMem h]

theorem copyArgument_mask (h : (copyArgument p 1 m).retVal = true) :
    strlen m ≤ 2 ∧ p.retVal = true := by
  simp only [copyArgument] at h
  split at h
  . contradiction
  . next hlen => exact ⟨by omega, h⟩

theorem mask_lt_of_copyArgument (hm : 0 ∉ m) (h : (copyArgument p 1 m).retVal = true) :
    m.length < maskSize := by
  have hlen := (copyArgument_mask h).1
  rw [strlen_of_notMem hm] at hlen
  unfold maskSize
  omega

theorem copyArgument_oif (h : (copyArgument p 3 o).retVal = true) :
    newline ∈ cstr o ∧ p.retVal = true := by
  simp only [copyArgument] at h
  split at h
  . contradiction
  . next hchr =>
    rw [← strchr_isSome_iff newline_ne_zero, hchr]
    exact ⟨rfl, h⟩

theorem length_start (u : Locals) : dataInfoSize ≤ (Parse.start u).data.length := by
  simp only [Parse.start, Msg.calloc, List.length_append, List.length_replicate]
  omega

theorem length_copyArgument (index : Nat) (h : dataInfoSize ≤ p.data.length) :
    dataInfoSize ≤ (copyArgument p index w).data.length := by
  have hmemcpy {off n : Nat} (hoff : off ≤ dataInfoSize) :
      dataInfoSize ≤ (memcpy p.data off w n).length := by
    rw [memcpy_length _ _ (by omega)]
    omega
  unfold copyArgument
  split
  . exact hmemcpy (by decide)
  . dsimp only
    split
    . exact h
    . exact hmemcpy (by decide)
  . exact hmemcpy (by decide)
  . split
    . exact h
    . exact hmemcpy (by decide)
  . exact h

theorem copyArgument_key (hd : 0 ∉ d) (hm : 0 ∉ m) (hdlt : d.length < destSize)
    (hmlt : m.length < maskSize) :
    copyArgument (copyArgument (.start u) 0 d) 1 m =
      { retVal := true
        maskSize := m.length
        copyBuffer := bytes macAddrLen d
        data := layout d m [] [] (0 :: u.afterMsgInfo)
        save := [] } := by
  have hdlen := strlen_of_notMem hd
  have hmlen := strlen_of_notMem hm
  have hle : ¬strlen m > 2 := by
    unfold maskSize at hmlt
    omega
  simp only [copyArgument, Parse.start, calloc_data, if_neg hle]
  rw [memcpy_destination (by omega), memcpy_mask (by omega), hmlen, cstr_of_notMem hd,
    cstr_of_notMem hm]

theorem copyArgument_route (hd : 0 ∉ d) (hm : 0 ∉ m) (hg : 0 ∉ g) (ho : 0 ∉ o)
    (hdlt : d.length < destSize) (hmlt : m.length < maskSize) (hglt : g.length < gatewSize)
    (holt : o.dropLast.length ≤ oifSize) (hnewline : newline ∈ o) :
    copyArgument (copyArgument (copyArgument (copyArgument (.start u) 0 d) 1 m) 2 g) 3 o =
      { retVal := true
        maskSize := m.length
        copyBuffer := bytes macAddrLen d
        data := layout d m g o.dropLast (0 :: u.afterMsgInfo)
        save := [] } := by
  have hglen := strlen_of_notMem hg
  have hchr : (strchr newline o).isSome = true := by
    rw [strchr_isSome_iff newline_ne_zero, cstr_of_notMem ho]
    exact hnewline
  rw [Option.isSome_iff_exists] at hchr
  have ⟨_, hchr⟩ := hchr
  rw [List.length_dropLast] at holt
  rw [copyArgument_key hd hm hdlt hmlt]
  simp only [copyArgument, hchr]
  rw [memcpy_gatewayIp (by omega), memcpy_oif ho (by omega), cstr_of_notMem hg]

section Checks

variable {retVal : Bool} {copyBuffer save : Mem}

theorem checkDesIPValid_layout (hd : 0 ∉ d) (hdlt : d.length < destSize) :
    checkDesIPValid u ((layout d m g o rest).drop destinationOff) = decide (IsAddress d) := by
  unfold checkDesIPValid layout destinationOff
  rw [List.drop_zero, bytes_bytes_append]
  apply checkGroups_eq hd hdlt

theorem checkMaskValid_layout (hmlt : m.length < maskSize) :
    checkMaskValid u ((layout d m g o rest).drop maskOff) m.length
      = checkMaskValid u m m.length := by
  unfold checkMaskValid
  rw [drop_maskOff, bytes_of_length_lt hmlt, List.append_assoc, bytes_append, bytes_self]

theorem checkGatewayValid_layout (hg : 0 ∉ g) (hglt : g.length < gatewSize) :
    checkGatewayValid u ((layout d m g o rest).drop gatewayIpOff) = decide (IsAddress g) := by
  unfold checkGatewayValid
  rw [drop_gatewayIpOff, bytes_bytes_append]
  apply checkGroups_eq hg hglt

theorem checkOIFValid_layout (ho : 0 ∉ o) (holt : o.length < oifSize) :
    checkOIFValid ((layout d m g o rest).drop oifOff) = true := by
  unfold checkOIFValid strlen
  rw [drop_oifOff, cstr_field ho holt, if_neg (by omega)]

/--
A name that fills its field ends at the padding behind it.
-/
theorem checkOIFValid_layout_padded (ho : 0 ∉ o) (hle : o.length ≤ oifSize) :
    checkOIFValid ((layout d m g o (0 :: rest)).drop oifOff) = true := by
  by_cases hlt : o.length < oifSize
  . exact checkOIFValid_layout ho hlt
  . have heq : oifSize = o.length := by omega
    unfold checkOIFValid strlen
    rw [drop_oifOff, heq, bytes_self, cstr_append_zero ho, if_neg (by omega)]

theorem checkKey_layout (hd : 0 ∉ d) (hdlt : d.length < destSize) (hmlt : m.length < maskSize) :
    checkKey u
        { retVal := true, maskSize := m.length, copyBuffer := copyBuffer
          data := layout d m g o rest, save := save } = true
      ↔ IsAddress d ∧ checkMaskValid u m m.length = true := by
  simp only [checkKey, checkDesIPValid_layout hd hdlt, checkMaskValid_layout hmlt, Bool.true_and,
    Bool.and_eq_true, decide_eq_true_eq]

theorem checkRoute_layout (hd : 0 ∉ d) (hg : 0 ∉ g) (ho : 0 ∉ o) (hdlt : d.length < destSize)
    (hmlt : m.length < maskSize) (hglt : g.length < gatewSize) (holt : o.length ≤ oifSize) :
    checkRoute u
        { retVal := true, maskSize := m.length, copyBuffer := copyBuffer
          data := layout d m g o (0 :: rest), save := save } = true
      ↔ IsAddress d ∧ checkMaskValid u m m.length = true ∧ IsAddress g := by
  simp only [checkRoute, checkDesIPValid_layout hd hdlt, checkMaskValid_layout hmlt,
    checkGatewayValid_layout hg hglt, checkOIFValid_layout_padded ho holt, Bool.true_and, Bool.and_true,
    Bool.and_eq_true, decide_eq_true_eq, and_assoc]

end Checks

theorem command_parseRoute {retVal : Bool} : (parseRoute opcode retVal p .zero).command =
    if retVal = true then some (opcode, .route (.ofMem p.data)) else none :=
  rfl

theorem not_route_of_parseMac : (parseMac opcode p .zero).command ≠ some (op, .route info) := by
  unfold parseMac
  split
  . simp [Parsed.command, Parsed.entry]
  . simp [Parsed.command]

theorem retVal_of_checkKey (h : checkKey u p = true) : p.retVal = true := by
  unfold checkKey at h
  simp only [Bool.and_eq_true, and_assoc] at h
  exact h.1

theorem retVal_of_checkRoute (h : checkRoute u p = true) : p.retVal = true := by
  unfold checkRoute at h
  simp only [Bool.and_eq_true, and_assoc] at h
  exact h.1

theorem checkKey_of_not_retVal (h : p.retVal = false) : checkKey u p = false := by
  simp [checkKey, h]

theorem exists_route (hws : ∀ w ∈ ws, IsWord space w) (hfit : 2 ≤ ws.length → Fits (w :: ws))
    (h : (createUpdateWords u opcode (.start u) ws).command = some (op, .route info)) :
    op = opcode ∧ ∃ (r : Route) (o : Mem) (rest : List Mem),
      ws = r.destination :: r.mask :: r.gatewayIp :: o :: rest ∧ 0 ∉ o ∧ newline ∈ o
        ∧ o.dropLast = r.oif ∧ info = r.info ∧ r.MaskAccepted u := by
  unfold createUpdateWords at h
  match ws with
  | [] => exact absurd h not_route_of_parseMac
  | [_] => exact absurd h not_route_of_parseMac
  | [_, _] | [_, _, _] =>
    simp only [readWords] at h
    contradiction
  | d :: m :: g :: o :: rest =>
    have hd := hws d (by simp)
    have hm := hws m (by simp)
    have hg := hws g (by simp)
    have ho := hws o (by simp)
    have hfit := hfit (by simp)
    have hdlt := hfit.destination d rfl
    have hglt := hfit.gatewayIp g rfl
    have holt := hfit.oif o rfl
    simp only [readWords, command_parseRoute] at h
    split at h
    . next hcheck =>
      obtain ⟨hnewline, hretVal⟩ := copyArgument_oif (retVal_of_checkRoute hcheck)
      have hmlt := mask_lt_of_copyArgument hm.zero_notMem hretVal
      rw [cstr_of_notMem ho.zero_notMem] at hnewline
      have hzero : 0 ∉ o.dropLast := fun h => ho.zero_notMem (List.dropLast_subset o h)
      rw [copyArgument_route hd.zero_notMem hm.zero_notMem hg.zero_notMem ho.zero_notMem hdlt hmlt
        hglt holt.le hnewline] at h hcheck
      rw [checkRoute_layout hd.zero_notMem hg.zero_notMem hzero hdlt hmlt hglt holt.le] at hcheck
      simp only [Option.some.injEq, Prod.mk.injEq, Entry.route.injEq] at h
      refine ⟨h.1.symm, ?_⟩
      let r : Route :=
        { destination := d
          mask := m
          gatewayIp := g
          oif := o.dropLast
          isWord_destination := hd
          isWord_mask := hm
          isWord_gatewayIp := hg
          space_notMem_oif := fun h => ho.delim_notMem (List.dropLast_subset o h)
          zero_notMem_oif := hzero
          destination_lt := hdlt
          mask_lt := hmlt
          gatewayIp_lt := hglt
          oif_lt := holt
          isAddress_destination := hcheck.1
          isAddress_gatewayIp := hcheck.2.2 }
      refine ⟨r, o, rest, rfl, ho.zero_notMem, hnewline, rfl, ?_, hcheck.2.1⟩
      rw [← h.2, ofMem_layout]
      rfl
    . contradiction

theorem command_createUpdateWords (r : Route) (ho : 0 ∉ o) (hnewline : newline ∈ o)
    (hoif : o.dropLast = r.oif) (hmask : r.MaskAccepted u) (ws : List Mem) :
    (createUpdateWords u opcode (.start u)
        (r.destination :: r.mask :: r.gatewayIp :: o :: ws)).command
      = some (opcode, .route r.info) := by
  have hd := r.isWord_destination.zero_notMem
  have hm := r.isWord_mask.zero_notMem
  have hg := r.isWord_gatewayIp.zero_notMem
  have holt := r.oif_lt
  rw [← hoif] at holt
  simp only [createUpdateWords, readWords, command_parseRoute]
  rw [copyArgument_route hd hm hg ho r.destination_lt r.mask_lt r.gatewayIp_lt holt.le hnewline]
  rw [if_pos, ofMem_layout, hoif]
  . rfl
  . rw [hoif, checkRoute_layout hd hg r.zero_notMem_oif r.destination_lt r.mask_lt r.gatewayIp_lt
      r.oif_lt.le]
    exact ⟨r.isAddress_destination, hmask, r.isAddress_gatewayIp⟩

theorem exists_routeKey (hws : ∀ w ∈ ws, IsWord space w) (hfit : Fits (w :: ws))
    (h : (deleteWords u (.start u) ws).command = some (op, .route info)) :
    op = .delete ∧ ∃ k : RouteKey,
      ws = [k.destination, k.mask] ∧ info = k.info ∧ k.MaskAccepted u := by
  unfold deleteWords at h
  match ws with
  | [] => exact absurd h not_route_of_parseMac
  | [_] => exact absurd h not_route_of_parseMac
  | _ :: _ :: _ :: _ =>
    simp [readWords, command_parseRoute, checkKey_of_not_retVal] at h
  | [d, m] =>
    have hd := hws d (by simp)
    have hm := hws m (by simp)
    have hdlt := hfit.destination d rfl
    simp only [readWords, if_true, command_parseRoute] at h
    split at h
    . next hcheck =>
      have hmlt := mask_lt_of_copyArgument hm.zero_notMem (retVal_of_checkKey hcheck)
      rw [copyArgument_key hd.zero_notMem hm.zero_notMem hdlt hmlt] at h hcheck
      rw [checkKey_layout hd.zero_notMem hdlt hmlt] at hcheck
      simp only [Option.some.injEq, Prod.mk.injEq, Entry.route.injEq] at h
      refine ⟨h.1.symm, ?_⟩
      let k : RouteKey :=
        { destination := d
          mask := m
          isWord_destination := hd
          isWord_mask := hm
          destination_lt := hdlt
          mask_lt := hmlt
          isAddress_destination := hcheck.1 }
      refine ⟨k, rfl, ?_, hcheck.2⟩
      rw [← h.2, ofMem_layout]
      rfl
    . contradiction

theorem command_deleteWords (k : RouteKey) (hmask : k.MaskAccepted u) :
    (deleteWords u (.start u) [k.destination, k.mask]).command = some (.delete, .route k.info) := by
  have hd := k.isWord_destination.zero_notMem
  have hm := k.isWord_mask.zero_notMem
  simp only [deleteWords, readWords, if_true, command_parseRoute]
  rw [copyArgument_key hd hm k.destination_lt k.mask_lt, if_pos, ofMem_layout]
  . rfl
  . rw [checkKey_layout hd k.destination_lt k.mask_lt]
    exact ⟨k.isAddress_destination, hmask⟩

def Means (U : Locals → Prop) (line : Mem) (command : Opcode × Entry) : Prop :=
  ∀ u, U u → (parseLine u line).command = some command

theorem isWord_words {line : Mem} : ∀ w ∈ words space (cstr line), IsWord space w :=
  fun _ => isWord_of_mem_words

theorem command_parseWords (hws : ∀ w ∈ ws, IsWord space w) (hfit : Fits ws) (hne : ws ≠ [])
    (hcmd : op.isCommand = true) (h : (parseWords u ws).command = some (op, .route info)) :
    (∃ r : Route, info = r.info ∧ r.MaskAccepted u ∧
        ∀ v, r.MaskAccepted v → (parseWords v ws).command = some (op, .route info))
      ∨ op = .delete ∧ ∃ k : RouteKey, info = k.info ∧ k.MaskAccepted u ∧
        ∀ v, k.MaskAccepted v → (parseWords v ws).command = some (op, .route info) := by
  cases ws with
  | nil => contradiction
  | cons c ws =>
    have hargs : ∀ w ∈ ws, IsWord space w := fun w hw => hws w (List.mem_cons_of_mem c hw)
    cases letter c ws with
    | createUpdate opcode _ _ hparse =>
      left
      rw [hparse] at h
      have ⟨hop, r, o, rest, hlist, ho, hnewline, hoif, hinfo, hmask⟩ :=
        exists_route hargs (fun _ => hfit) h
      refine ⟨r, hinfo, hmask, ?_⟩
      intro v hv
      rw [hparse, hlist, hop, hinfo]
      apply command_createUpdateWords r ho hnewline hoif hv rest
    | delete _ hparse =>
      right
      rw [hparse] at h
      have ⟨hop, k, hlist, hinfo, hmask⟩ := exists_routeKey hargs hfit h
      refine ⟨hop, k, hinfo, hmask, ?_⟩
      intro v hv
      rw [hparse, hlist, hop, hinfo]
      apply command_deleteWords k hv
    | plain opcode hopcode _ hparse =>
      rw [hparse, Parsed.command_eq_some_iff] at h
      have hop : opcode = op := h.2.1
      rw [← hop] at hcmd
      rcases hopcode with hopcode | hopcode | hopcode <;> rw [hopcode] at hcmd <;> contradiction
    | invalid _ hparse =>
      rw [hparse] at h
      contradiction

end RoutingTable
