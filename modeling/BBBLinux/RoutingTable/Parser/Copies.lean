import BBBLinux.RoutingTable.Parser.Accepted

/-!
This module contains the calls of `memcpy` that `check_format_input_string` makes for a line, and the
lines for which they all fit into the fields they are meant for.
-/

namespace RoutingTable

open CString

inductive Field where
  | destination
  | mask
  | gatewayIp
  | oif
  | copyBuffer
  | mac
  deriving DecidableEq, Repr

namespace Field

def size : Field → Nat
  | .destination => destSize
  | .mask => maskSize
  | .gatewayIp => gatewSize
  | .oif => oifSize
  | .copyBuffer => macAddrLen
  | .mac => macAddrLen

def offset : Field → Option Nat
  | .destination => some destinationOff
  | .mask => some maskOff
  | .gatewayIp => some gatewayIpOff
  | .oif => some oifOff
  -- not in the message
  | .copyBuffer => none
  | .mac => none

end Field

structure Copy where
  field : Field
  src : Mem
  length : Nat
  deriving DecidableEq, Repr

namespace Copy

def Fits (c : Copy) : Prop :=
  c.length ≤ c.field.size

instance (c : Copy) : Decidable c.Fits :=
  inferInstanceAs (Decidable (_ ≤ _))

def apply (data : Mem) (c : Copy) : Mem :=
  match c.field.offset with
  | some off => memcpy data off c.src c.length
  | none => data

end Copy

def argumentCopies (index : Nat) (token : Mem) : List Copy :=
  match index with
  | 0 => [⟨.destination, token, strlen token + 1⟩, ⟨.copyBuffer, token, macAddrLen⟩]
  | 1 => if strlen token > 2 then [] else [⟨.mask, token, strlen token + 1⟩]
  | 2 => [⟨.gatewayIp, token, strlen token + 1⟩]
  | 3 =>
    match strchr newline token with
    | none => []
    | some _ => [⟨.oif, token, strlen token - 1⟩]
  | _ => []

def readCopies (save : Mem) (index : Nat) : Nat → List Copy
  | 0 => []
  | count + 1 =>
    match strtok space save with
    | none => if index = 1 then [] else readCopies save (index + 1) count
    | some (token, save) => argumentCopies index token ++ readCopies save (index + 1) count

def macCopies : Arguments → List Copy
  | .read _ => []
  | .noSecond p =>
    if checkFormatMACAddress p.copyBuffer = true then
      [⟨.mac, p.copyBuffer, macAddrLen - 1⟩]
    else
      []

def lineCopies (u : Locals) (line : Mem) : List Copy :=
  match strtok space line with
  | none => []
  | some (token, save) =>
    let p : Parse :=
      { retVal := true
        maskSize := u.maskSize
        copyBuffer := u.copyBuffer
        data := (Msg.calloc u).data
        save := save }
    let c := token.headD 0
    if c = 'C'.toUInt8 ∨ c = 'U'.toUInt8 then
      readCopies save 0 4 ++ macCopies (readArguments p 0 4)
    else if c = 'D'.toUInt8 then
      readCopies save 0 2 ++ macCopies (readArguments p 0 2)
    else
      []

section Replay

variable {u : Locals} {p : Parse} {t line save : Mem} {index count : Nat} {opcode : Opcode}

def replay (data : Mem) (copies : List Copy) : Mem :=
  copies.foldl Copy.apply data

theorem replay_append (data : Mem) (l l' : List Copy) :
    replay data (l ++ l') = replay (replay data l) l' :=
  List.foldl_append

theorem replay_macCopies (data : Mem) (args : Arguments) : replay data (macCopies args) = data := by
  unfold macCopies
  split
  . rfl
  . split <;> rfl

theorem data_copyArgument : (copyArgument p index t).data = replay p.data (argumentCopies index t) := by
  match index with
  | 0 => rfl
  | 1 =>
    simp only [copyArgument, argumentCopies]
    split <;> rfl
  | 2 => rfl
  | 3 =>
    simp only [copyArgument, argumentCopies]
    cases strchr newline t <;> rfl
  | _ + 4 => rfl

def Arguments.parse : Arguments → Parse
  | .read p => p
  | .noSecond p => p

theorem data_readArguments :
    (readArguments p index count).parse.data = replay p.data (readCopies p.save index count) := by
  induction count generalizing p index with
  | zero => rfl
  | succ count ih =>
    unfold readArguments readCopies
    cases htok : strtok space p.save with
    | none =>
      dsimp only
      split
      . rfl
      . exact ih
    | some next =>
      obtain ⟨token, save⟩ := next
      dsimp only
      rw [ih, save_copyArgument, data_copyArgument, replay_append]

theorem data_parseCreateUpdate :
    (parseCreateUpdate u opcode p .zero).msgInfo.data = (readArguments p 0 4).parse.data := by
  unfold parseCreateUpdate
  split
  next heq =>
    rw [heq]
    unfold parseMac
    split <;> rfl
  next heq =>
    rw [heq]
    rfl

theorem data_parseDelete :
    (parseDelete u p .zero).msgInfo.data = (readArguments p 0 2).parse.data := by
  unfold parseDelete
  split
  next heq =>
    rw [heq]
    unfold parseMac
    split <;> rfl
  next heq =>
    rw [heq]
    dsimp only [parseRoute]
    split <;> rfl

/--
The message that a line ends up as consists of what its copies wrote, and of nothing else.
-/
theorem data_parseLine (u : Locals) (line : Mem) :
    (parseLine u line).msgInfo.data = replay (Msg.calloc u).data (lineCopies u line) := by
  unfold parseLine checkFormatInputString lineCopies
  cases strtok space line with
  | none => rfl
  | some next =>
    obtain ⟨token, save⟩ := next
    dsimp only
    by_cases hc : token.headD 0 = 'C'.toUInt8
    . rw [if_pos hc, if_pos (.inl hc), data_parseCreateUpdate, data_readArguments, replay_append,
        replay_macCopies]
    rw [if_neg hc]
    by_cases hu : token.headD 0 = 'U'.toUInt8
    . rw [if_pos hu, if_pos (.inr hu), data_parseCreateUpdate, data_readArguments, replay_append,
        replay_macCopies]
    rw [if_neg hu, if_neg (not_or.mpr ⟨hc, hu⟩)]
    by_cases hd : token.headD 0 = 'D'.toUInt8
    . rw [if_pos hd, if_pos hd, data_parseDelete, data_readArguments, replay_append,
        replay_macCopies]
    rw [if_neg hd, if_neg hd]
    split
    . rfl
    . split
      . rfl
      . split <;> rfl

end Replay

section Fits

variable {u : Locals} {t line save w d m g o : Mem} {index count k : Nat} {ws rest : List Mem}
  {op opcode : Opcode} {info : DataInfo}

def ArgumentFits (index : Nat) (w : Mem) : Prop :=
  match index with
  | 0 => w.length < destSize
  | 2 => w.length < gatewSize
  | 3 => newline ∈ w → w.length - 1 ≤ oifSize
  | _ => True

def CopiesFit : List Mem → Prop
  | [] => True
  | c :: ws =>
    (c.headD 0 ∈ text "CU" → ∀ i < 4, ∀ w ∈ ws[i]?, ArgumentFits i w)
      ∧ (c.headD 0 ∈ text "D" → ∀ i < 2, ∀ w ∈ ws[i]?, ArgumentFits i w)

theorem forall_argumentCopies_fits_iff :
    (∀ c ∈ argumentCopies index t, c.Fits) ↔ ArgumentFits index (cstr t) := by
  have hlen : (cstr t).length = strlen t := rfl
  match index with
  | 0 =>
    simp only [argumentCopies, List.forall_mem_cons, List.not_mem_nil, false_implies, implies_true,
      Copy.Fits, Field.size, ArgumentFits, hlen, le_refl, and_true]
    exact Nat.succ_le_iff
  | 1 =>
    simp only [argumentCopies, ArgumentFits, iff_true]
    split
    . simp
    . next hle =>
      simp only [List.mem_singleton, forall_eq, Copy.Fits, Field.size, maskSize]
      omega
  | 2 =>
    simp only [argumentCopies, List.mem_singleton, forall_eq, Copy.Fits, Field.size, ArgumentFits,
      hlen]
    omega
  | 3 =>
    have hchr := strchr_isSome_iff (m := t) newline_ne_zero
    simp only [argumentCopies, ArgumentFits, ← hchr, hlen]
    cases strchr newline t with
    | none => simp
    | some _ => simp [Copy.Fits, Field.size]
  | _ + 4 => simp [argumentCopies, ArgumentFits]

theorem forall_readCopies_fits_iff :
    (∀ c ∈ readCopies save index count, c.Fits)
      ↔ ∀ i < count, ∀ w ∈ (words space (cstr save))[i]?, ArgumentFits (index + i) w := by
  induction count generalizing save index with
  | zero => simp [readCopies]
  | succ count ih =>
    unfold readCopies
    cases strtok_spec space_ne_zero save with
    | inl hnone =>
      have hrest := @ih save (index + 1)
      rw [hnone.2] at hrest
      rw [hnone.1, hnone.2]
      dsimp only
      split
      . simp
      . simp at hrest
        simpa using hrest
    | inr hsome =>
      have ⟨token, save', htok, _, hwords⟩ := hsome
      rw [htok, hwords]
      dsimp only
      rw [List.forall_mem_append, forall_argumentCopies_fits_iff, ih]
      constructor
      . intro ⟨hfirst, hrest⟩ i hi
        cases i with
        | zero => simpa using hfirst
        | succ i =>
          have := hrest i (by omega)
          simpa [Nat.add_assoc, Nat.add_comm 1 i] using this
      . intro h
        refine ⟨by simpa using h 0 (by omega), ?_⟩
        intro i hi
        have := h (i + 1) (by omega)
        simpa [Nat.add_assoc, Nat.add_comm 1 i] using this

theorem macCopies_fit (args : Arguments) : ∀ c ∈ macCopies args, c.Fits := by
  unfold macCopies
  split
  . simp
  . split
    . simp [Copy.Fits, Field.size]
    . simp

theorem forall_lineCopies_fits_iff :
    (∀ c ∈ lineCopies u line, c.Fits) ↔ CopiesFit (words space (cstr line)) := by
  unfold lineCopies
  cases strtok_spec space_ne_zero line with
  | inl hnone =>
    rw [hnone.1, hnone.2]
    simp [CopiesFit]
  | inr hsome =>
    have ⟨token, save, htok, _, hwords⟩ := hsome
    have hcu (x : UInt8) : x ∈ text "CU" ↔ x = 'C'.toUInt8 ∨ x = 'U'.toUInt8 := by
      have htext : text "CU" = ['C'.toUInt8, 'U'.toUInt8] := by decide
      simp [htext]
    have hd (x : UInt8) : x ∈ text "D" ↔ x = 'D'.toUInt8 := by
      have htext : text "D" = ['D'.toUInt8] := by decide
      simp [htext]
    rw [htok, hwords]
    dsimp only [CopiesFit]
    rw [cstr_headD, hcu, hd]
    generalize token.headD 0 = x
    by_cases hletter : x = 'C'.toUInt8 ∨ x = 'U'.toUInt8
    . have hne : x ≠ 'D'.toUInt8 := by
        rcases hletter with h | h <;> rw [h] <;> decide
      rw [if_pos hletter, List.forall_mem_append, and_iff_left (macCopies_fit _),
        forall_readCopies_fits_iff]
      simp [hletter, hne]
    rw [if_neg hletter]
    by_cases hdelete : x = 'D'.toUInt8
    . rw [if_pos hdelete, List.forall_mem_append, and_iff_left (macCopies_fit _),
        forall_readCopies_fits_iff, and_iff_right (fun h => absurd h hletter)]
      simp [hdelete]
    . simp [hletter, hdelete]

end Fits

section Terminated

variable {u : Locals} {line w d m g o : Mem} {k : Nat} {c : Mem} {ws rest : List Mem}
  {op opcode : Opcode} {info : DataInfo}

structure DataInfo.Terminated (info : DataInfo) : Prop where
  destination : 0 ∈ info.destination.take destSize
  mask : 0 ∈ info.mask.take maskSize
  gatewayIp : 0 ∈ info.gatewayIp.take gatewSize
  oif : 0 ∈ info.oif.take oifSize

theorem zero_mem_take_bytes_iff (hw : 0 ∉ w) (rest : Mem) :
    0 ∈ (bytes k w ++ rest).take k ↔ w.length < k := by
  have hlength : (bytes k w).length = k := bytes_length
  have hmem : 0 ∉ w.take k := fun h => hw (List.mem_of_mem_take h)
  rw [List.take_append_of_le_length (by omega), List.take_of_length_le (by omega)]
  simp [bytes, hmem, Nat.sub_eq_zero_iff_le]

theorem terminated_ofFields_iff (hd : 0 ∉ d) (hm : 0 ∉ m) (hg : 0 ∉ g) (ho : 0 ∉ o) :
    (DataInfo.ofFields d m g o).Terminated ↔
      d.length < destSize ∧ m.length < maskSize ∧ g.length < gatewSize ∧ o.length < oifSize := by
  have hmem : (DataInfo.ofFields d m g o).mem = layout d m g o [] := by
    simp [layout, DataInfo.ofFields]
  have hdest : 0 ∈ (DataInfo.ofFields d m g o).destination.take destSize ↔ d.length < destSize := by
    rw [DataInfo.destination, hmem, destinationOff, List.drop_zero, layout,
      zero_mem_take_bytes_iff hd]
  have hmask : 0 ∈ (DataInfo.ofFields d m g o).mask.take maskSize ↔ m.length < maskSize := by
    rw [DataInfo.mask, hmem, drop_maskOff, zero_mem_take_bytes_iff hm]
  have hgateway : 0 ∈ (DataInfo.ofFields d m g o).gatewayIp.take gatewSize
      ↔ g.length < gatewSize := by
    rw [DataInfo.gatewayIp, hmem, drop_gatewayIpOff, zero_mem_take_bytes_iff hg]
  have hoif : 0 ∈ (DataInfo.ofFields d m g o).oif.take oifSize ↔ o.length < oifSize := by
    rw [DataInfo.oif, hmem, drop_oifOff, zero_mem_take_bytes_iff ho]
  rw [← hdest, ← hmask, ← hgateway, ← hoif]
  exact ⟨fun h => ⟨h.1, h.2, h.3, h.4⟩, fun h => ⟨h.1, h.2.1, h.2.2.1, h.2.2.2⟩⟩

structure FieldsFit (u : Locals) (line : Mem) : Prop where
  copies : ∀ c ∈ lineCopies u line, c.Fits
  terminated : ∀ op info, (parseLine u line).command = some (op, .route info) → info.Terminated

/--
An accepted name of an interface that leaves no room for a terminating NUL.
-/
def FillsOif (u : Locals) (ws : List Mem) : Prop :=
  ∃ c d m g o rest, ws = c :: d :: m :: g :: o :: rest ∧ c.headD 0 ∈ text "CU"
    ∧ AcceptsRoute u d m g o ∧ o.length - 1 = oifSize

theorem FillsOif.length (h : FillsOif u ws) : 5 ≤ ws.length := by
  have ⟨_, _, _, _, _, _, heq, _⟩ := h
  simp [heq]

theorem terminated_start (h : (parseRoute opcode true (.start u) .zero).command
    = some (op, .route info)) : info.Terminated := by
  simp only [command_parseRoute, if_true, Option.some.injEq, Prod.mk.injEq, Entry.route.injEq] at h
  rw [← h.2]
  have hdata : (Parse.start u).data = layout [] [] [] [] (0 :: u.afterMsgInfo) := calloc_data u
  have hzero : (0 : UInt8) ∉ ([] : Mem) := List.not_mem_nil
  rw [hdata, ofMem_layout, terminated_ofFields_iff hzero hzero hzero hzero]
  decide

theorem terminated_delete (hws : ∀ w ∈ ws, IsWord space w)
    (hfit : ∀ i < 2, ∀ w ∈ ws[i]?, ArgumentFits i w)
    (h : (deleteWords u (.start u) ws).command = some (op, .route info)) : info.Terminated := by
  match ws with
  | [] => exact absurd h not_route_of_parseMac
  | [_] => exact absurd h not_route_of_parseMac
  | _ :: _ :: _ :: _ =>
    rw [deleteWords_more, command_parseRoute] at h
    contradiction
  | [d, m] =>
    have hd := hws d (by simp)
    have hm := hws m (by simp)
    have hdlt : d.length < destSize := hfit 0 (by omega) d rfl
    rw [Parsed.command_eq_some_iff] at h
    have haccepts := (retVal_deleteWords hd hm hdlt).mp h.1
    have hinfo : (DataInfo.ofMem (deleteWords u (.start u) [d, m]).msgInfo.data) = info :=
      Entry.route.inj h.2.2
    rw [deleteWords_key] at hinfo
    dsimp only [parseRoute] at hinfo
    rw [copyArgument_key hd.zero_notMem hm.zero_notMem hdlt haccepts.mask_lt, ofMem_layout] at hinfo
    rw [← hinfo, terminated_ofFields_iff hd.zero_notMem hm.zero_notMem List.not_mem_nil
      List.not_mem_nil]
    exact ⟨hdlt, haccepts.mask_lt, by decide, by decide⟩

theorem terminated_createUpdate_iff (hws : ∀ w ∈ ws, IsWord space w)
    (hletter : c.headD 0 ∈ text "CU") (hfit : ∀ i < 4, ∀ w ∈ ws[i]?, ArgumentFits i w) :
    (∀ op info, (createUpdateWords u opcode (.start u) ws).command = some (op, .route info) →
        info.Terminated) ↔ ¬FillsOif u (c :: ws) := by
  match ws with
  | [] | [_] =>
    refine iff_of_true (fun _ _ h => absurd h not_route_of_parseMac) ?_
    intro hfill
    simpa using hfill.length
  | [_, _] =>
    rw [createUpdateWords_two]
    refine iff_of_true (fun _ _ h => by contradiction) ?_
    intro hfill
    simpa using hfill.length
  | [_, _, _] =>
    rw [createUpdateWords_three]
    refine iff_of_true (fun _ _ h => by contradiction) ?_
    intro hfill
    simpa using hfill.length
  | d :: m :: g :: o :: rest =>
    have hd := hws d (by simp)
    have hm := hws m (by simp)
    have hg := hws g (by simp)
    have ho := hws o (by simp)
    have hoif : 0 ∉ o.dropLast := fun h => ho.zero_notMem (List.dropLast_subset o h)
    have hdlt : d.length < destSize := hfit 0 (by omega) d rfl
    have hglt : g.length < gatewSize := hfit 2 (by omega) g rfl
    have holt : newline ∈ o → o.dropLast.length ≤ oifSize := by
      rw [List.length_dropLast]
      exact hfit 3 (by omega) o rfl
    have haccepts := @retVal_createUpdateWords u d m g o rest opcode hws hdlt hglt holt
    have hinfo (h : AcceptsRoute u d m g o) : DataInfo.ofMem
        (createUpdateWords u opcode (.start u) (d :: m :: g :: o :: rest)).msgInfo.data
          = .ofFields d m g o.dropLast := by
      rw [createUpdateWords_route]
      dsimp only [parseRoute]
      rw [copyArgument_route hd.zero_notMem hm.zero_notMem hg.zero_notMem ho.zero_notMem hdlt
        h.mask_lt hglt (holt h.oif) h.oif, ofMem_layout]
    have hterminated (h : AcceptsRoute u d m g o) :
        (DataInfo.ofFields d m g o.dropLast).Terminated ↔ o.length - 1 < oifSize := by
      rw [terminated_ofFields_iff hd.zero_notMem hm.zero_notMem hg.zero_notMem hoif,
        List.length_dropLast]
      simp [hdlt, hglt, h.mask_lt]
    constructor
    . rintro h ⟨_, _, _, _, _, _, heq, _, hroute, hfull⟩
      simp only [List.cons.injEq] at heq
      obtain ⟨_, hd', hm', hg', ho', _⟩ := heq
      rw [← hd', ← hm', ← hg', ← ho'] at hroute
      rw [← ho'] at hfull
      have hall := h opcode (.ofFields d m g o.dropLast) <| by
        rw [Parsed.command_eq_some_iff, ← hinfo hroute]
        exact ⟨haccepts.mpr hroute, rfl, rfl⟩
      rw [hterminated hroute] at hall
      omega
    . intro hfill op info h
      rw [Parsed.command_eq_some_iff] at h
      have hroute := haccepts.mp h.1
      have heq := Entry.route.inj h.2.2
      rw [hinfo hroute] at heq
      rw [← heq, hterminated hroute]
      have hle := holt hroute.oif
      rw [List.length_dropLast] at hle
      have hne : o.length - 1 ≠ oifSize := fun hfull =>
        hfill ⟨c, d, m, g, o, rest, rfl, hletter, hroute, hfull⟩
      omega

end Terminated

theorem fieldsFit_words (u : Locals) (line : Mem) : FieldsFit u line ↔
    CopiesFit (words space (cstr line)) ∧ ¬FillsOif u (words space (cstr line)) := by
  have hsplit : FieldsFit u line ↔ CopiesFit (words space (cstr line))
      ∧ ∀ op info, (parseWords u (words space (cstr line))).command = some (op, .route info) →
          info.Terminated := by
    rw [← forall_lineCopies_fits_iff (u := u), ← parseLine_eq]
    exact ⟨fun h => ⟨h.1, h.2⟩, fun h => ⟨h.1, h.2⟩⟩
  rw [hsplit]
  apply and_congr_right
  intro hfit
  have hws : ∀ w ∈ words space (cstr line), IsWord space w := isWord_words
  revert hfit hws
  generalize words space (cstr line) = ws
  intro hfit hws
  have hempty {c : Mem} {ws : List Mem} (hletter : c.headD 0 ∉ text "CU") : ¬FillsOif u (c :: ws) := by
    rintro ⟨_, _, _, _, _, _, heq, hcu, _⟩
    rw [List.cons.injEq] at heq
    rw [← heq.1] at hcu
    exact hletter hcu
  cases ws with
  | nil =>
    refine iff_of_true (fun _ _ h => terminated_start h) ?_
    intro hfill
    simpa using hfill.length
  | cons c ws =>
    have hargs : ∀ w ∈ ws, IsWord space w := fun w hw => hws w (List.mem_cons_of_mem c hw)
    cases letter c ws with
    | createUpdate opcode _ hletter heq =>
      rw [heq]
      exact terminated_createUpdate_iff hargs hletter (hfit.1 hletter)
    | delete hletter heq =>
      rw [heq]
      exact iff_of_true (fun _ _ h => terminated_delete hargs (hfit.2 hletter) h)
        (hempty (letters_delete hletter).2.1)
    | plain opcode _ hletter heq =>
      rw [heq]
      refine iff_of_true (fun _ _ h => terminated_start h) (hempty fun hcu => ?_)
      exact (letters_createUpdate hcu).2.2 hletter
    | invalid hletter heq =>
      rw [heq]
      refine iff_of_true (fun _ _ h => ?_) (hempty (letters_invalid hletter).2.1)
      rw [command_parseRoute] at h
      contradiction

/--
The copies, of which the message consists, all fit just if the words of the line are short enough.
-/
theorem fieldsFit_iff (u : Locals) (line : Mem) :
    (parseLine u line).msgInfo.data = replay (Msg.calloc u).data (lineCopies u line)
      ∧ (FieldsFit u line ↔
        CopiesFit (words space (cstr line)) ∧ ¬FillsOif u (words space (cstr line))) :=
  ⟨data_parseLine u line, fieldsFit_words u line⟩

def wideMacLine : Mem :=
  text "C 00:11:22:33:44:55\n"

def wideOifLine : Mem :=
  text "C 10.0.0.0 24 10.0.0.1 abcdefghijklmnop\n"

/--
19 bytes are copied to the 16 of the destination for a MAC address, and an interface whose name has 16
characters is accepted without a NUL behind it.
-/
theorem fields_overflow :
    (¬∀ c ∈ lineCopies .zero wideMacLine, c.Fits)
    ∧ ((∀ c ∈ lineCopies .zero wideOifLine, c.Fits) ∧ (parseLine .zero wideOifLine).retVal = true
      ∧ 0 ∉ (DataInfo.ofMem (parseLine .zero wideOifLine).msgInfo.data).oif.take oifSize)
    ∧ ¬∀ u line, strlen line ≤ 127 → FieldsFit u line := by
  have hmac : ¬∀ c ∈ lineCopies .zero wideMacLine, c.Fits := by decide +kernel
  refine ⟨hmac, by decide +kernel, ?_⟩
  intro h
  exact hmac (h .zero wideMacLine (by decide +kernel)).copies

end RoutingTable
