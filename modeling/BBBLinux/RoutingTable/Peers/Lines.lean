import BBBLinux.RoutingTable.Peers.Lemmas

/-!
This module contains the lines that a new client is sent. A line that is printed from a stored entry
is read as the command that creates this entry.
-/

namespace RoutingTable

open CString

def Mac.Valid (info : Mac) : Prop :=
  ∃ c, checkFormatMACAddress c = true ∧ info = .ofChars c

variable {U : Locals → Prop} {u : Locals} {line : Mem} {op opcode : Opcode} {info : DataInfo}
  {mac : Mac}

section Commands

variable {p : Parse} {ws : List Mem}

theorem valid_of_parseMac (h : (parseMac opcode p .zero).command = some (op, .mac mac)) : mac.Valid := by
  unfold parseMac at h
  split at h
  . next hmac =>
    rw [Parsed.command_eq_some_iff] at h
    have hentry := h.2.2
    injection hentry with hentry
    exact ⟨p.copyBuffer, hmac, hentry.symm⟩
  . contradiction

theorem not_mac_of_parseRoute {retVal : Bool} :
    (parseRoute opcode retVal p .zero).command ≠ some (op, .mac mac) := by
  intro h
  rw [Parsed.command_eq_some_iff] at h
  have hentry := h.2.2
  contradiction

theorem valid_of_createUpdateWords
    (h : (createUpdateWords u opcode p ws).command = some (op, .mac mac)) : mac.Valid := by
  unfold createUpdateWords at h
  split at h
  . apply valid_of_parseMac h
  . exact absurd h not_mac_of_parseRoute

theorem valid_of_deleteWords (h : (deleteWords u p ws).command = some (op, .mac mac)) : mac.Valid := by
  unfold deleteWords at h
  split at h
  . apply valid_of_parseMac h
  . exact absurd h not_mac_of_parseRoute

theorem valid_of_command (h : (parseLine u line).command = some (op, .mac mac)) : mac.Valid := by
  rw [parseLine_eq] at h
  unfold parseWords at h
  split at h
  . exact absurd h not_mac_of_parseRoute
  . dsimp only at h
    split at h
    . apply valid_of_createUpdateWords h
    . split at h
      . apply valid_of_createUpdateWords h
      . split at h
        . apply valid_of_deleteWords h
        . split at h
          . exact absurd h not_mac_of_parseRoute
          . split at h
            . exact absurd h not_mac_of_parseRoute
            . split at h
              . exact absurd h not_mac_of_parseRoute
              . exact absurd h not_mac_of_parseRoute

end Commands

section Lines

theorem text_command : text "C " = text "C" ++ [space] := by
  decide

theorem text_space : text " " = [space] := by
  decide

theorem text_newline : text "\n" = [newline] := by
  decide

theorem isWord_text_command : IsWord space (text "C") :=
  ⟨by decide, by decide, by decide⟩

theorem notMem_append_newline {c : UInt8} {w : Mem} (h : c ∉ w) (hc : c ≠ newline) :
    c ∉ w ++ [newline] := by
  rw [List.mem_append, List.mem_singleton]
  exact not_or_intro h hc

theorem isWord_append_newline {w : Mem} (h : IsWord space w) : IsWord space (w ++ [newline]) := by
  constructor
  . simp
  . apply notMem_append_newline h.delim_notMem (by decide)
  . apply notMem_append_newline h.zero_notMem (by decide)

namespace Route

variable (r : Route)

theorem mem_info : r.info.mem = layout r.destination r.mask r.gatewayIp r.oif [] := by
  simp [info, DataInfo.ofFields, layout]

theorem cstr_destination : cstr r.info.destination = r.destination := by
  unfold DataInfo.destination destinationOff
  rw [mem_info, List.drop_zero]
  apply cstr_field r.isWord_destination.zero_notMem r.destination_lt

theorem cstr_mask : cstr r.info.mask = r.mask := by
  unfold DataInfo.mask
  rw [mem_info, drop_maskOff]
  apply cstr_field r.isWord_mask.zero_notMem r.mask_lt

theorem cstr_gatewayIp : cstr r.info.gatewayIp = r.gatewayIp := by
  unfold DataInfo.gatewayIp
  rw [mem_info, drop_gatewayIpOff]
  apply cstr_field r.isWord_gatewayIp.zero_notMem r.gatewayIp_lt

theorem cstr_oif : cstr r.info.oif = r.oif := by
  unfold DataInfo.oif
  rw [mem_info, drop_oifOff]
  apply cstr_field r.zero_notMem_oif r.oif_lt

theorem routeLine_info : routeLine r.info =
    text "C" ++ space :: (r.destination ++ space :: (r.mask ++ space :: (r.gatewayIp
      ++ space :: (r.oif ++ [newline])))) := by
  unfold routeLine
  rw [cstr_destination, cstr_mask, cstr_gatewayIp, cstr_oif, text_command, text_space, text_newline]
  simp

theorem words_routeLine : words space (routeLine r.info)
    = [text "C", r.destination, r.mask, r.gatewayIp, r.oif ++ [newline]] := by
  have hoif := notMem_append_newline r.space_notMem_oif (by decide)
  rw [routeLine_info, words_append_cons isWord_text_command.ne_nil isWord_text_command.delim_notMem]
  rw [words_append_cons r.isWord_destination.ne_nil r.isWord_destination.delim_notMem]
  rw [words_append_cons r.isWord_mask.ne_nil r.isWord_mask.delim_notMem]
  rw [words_append_cons r.isWord_gatewayIp.ne_nil r.isWord_gatewayIp.delim_notMem]
  rw [words_of_notMem (by simp) hoif]

theorem zero_notMem_routeLine : 0 ∉ routeLine r.info := by
  have hspace := space_ne_zero.symm
  rw [routeLine_info]
  simp only [List.mem_append, List.mem_cons, hspace, false_or, not_or]
  exact ⟨isWord_text_command.zero_notMem, r.isWord_destination.zero_notMem,
    r.isWord_mask.zero_notMem, r.isWord_gatewayIp.zero_notMem, r.zero_notMem_oif,
    newline_ne_zero.symm, List.not_mem_nil⟩

theorem length_routeLine : (routeLine r.info).length < bufferSize := by
  have hd := r.destination_lt
  have hm := r.mask_lt
  have hg := r.gatewayIp_lt
  have ho := r.oif_lt
  have htext : (text "C").length = 1 := by decide
  rw [routeLine_info]
  simp only [List.length_append, List.length_cons, List.length_nil, htext]
  unfold destSize maskSize gatewSize oifSize at *
  unfold bufferSize
  omega

theorem means_routeLine (hmask : ∀ u, U u → r.MaskAccepted u) (hline : cstr line = routeLine r.info) :
    Means U line (.create, .route r.info) := by
  intro u hu
  have hzero := notMem_append_newline r.zero_notMem_oif (by decide)
  rw [parseLine_eq, hline, words_routeLine, parseWords_create (by decide)]
  apply command_createUpdateWords r hzero
  . simp
  . simp
  . exact hmask u hu

end Route

namespace Mac

theorem getD_ne (h : checkFormatMACAddress line = true) {i : Nat} (hi : i < macAddrLen - 1) :
    line.getD i 0 ≠ space ∧ line.getD i 0 ≠ 0 := by
  rw [checkFormatMACAddress_iff] at h
  have hchar := h.1 i hi
  split at hchar
  . constructor
    . intro heq
      rw [heq] at hchar
      exact absurd hchar (by decide)
    . intro heq
      rw [heq] at hchar
      exact absurd hchar (by decide)
  . rw [hchar]
    decide

theorem Valid.exists_word (h : mac.Valid) : ∃ w : Mem, w.length = macAddrLen - 1 ∧ space ∉ w ∧ 0 ∉ w
    ∧ checkFormatMACAddress (w ++ [newline]) = true ∧ mac = .ofChars (w ++ [newline])
    ∧ cstr mac.mac = w := by
  have ⟨c, hc, hmac⟩ := h
  have hmem (x : UInt8) (hx : x ∈ bytes (macAddrLen - 1) c) : x ≠ space ∧ x ≠ 0 := by
    rw [List.mem_iff_getElem] at hx
    have ⟨i, hi, hx⟩ := hx
    have hget : (bytes (macAddrLen - 1) c).getD i 0 = x := by
      rw [List.getD_eq_getElem?_getD, List.getElem?_eq_getElem hi, hx]
      rfl
    rw [bytes_length] at hi
    rw [bytes_getD hi] at hget
    rw [← hget]
    apply getD_ne hc hi
  have hzero : 0 ∉ bytes (macAddrLen - 1) c := fun h => (hmem 0 h).2 rfl
  refine ⟨bytes (macAddrLen - 1) c, bytes_length, fun h => (hmem space h).1 rfl, hzero, ?_, ?_, ?_⟩
  . rw [checkFormatMACAddress_iff] at hc ⊢
    constructor
    . intro i hi
      have hget : (bytes (macAddrLen - 1) c ++ [newline]).getD i 0 = c.getD i 0 := by
        rw [← bytes_getD hi, bytes_bytes_append, bytes_getD hi]
      rw [hget]
      exact hc.1 i hi
    . rw [List.getD_eq_getElem?_getD, List.getElem?_append_right]
      . rw [bytes_length, Nat.sub_self]
        rfl
      . rw [bytes_length]
  . rw [hmac]
    unfold ofChars
    simp only [bytes_bytes_append]
  . rw [hmac]
    unfold ofChars
    rw [cstr_append_zero hzero]

theorem macLine_eq : macLine mac = text "C" ++ space :: (cstr mac.mac ++ [newline]) := by
  unfold macLine
  rw [text_command, text_newline]
  simp

theorem Valid.zero_notMem_macLine (h : mac.Valid) : 0 ∉ macLine mac := by
  have ⟨w, _, _, hzero, _, _, hw⟩ := h.exists_word
  have hspace := space_ne_zero.symm
  rw [macLine_eq, hw]
  simp only [List.mem_append, List.mem_cons, hspace, false_or, not_or]
  exact ⟨isWord_text_command.zero_notMem, hzero, newline_ne_zero.symm, List.not_mem_nil⟩

theorem Valid.length_macLine (h : mac.Valid) : (macLine mac).length < bufferSize := by
  have ⟨w, hlen, _, _, _, _, hw⟩ := h.exists_word
  have htext : (text "C").length = 1 := by decide
  rw [macLine_eq, hw]
  simp only [List.length_append, List.length_cons, List.length_nil, htext, hlen]
  unfold macAddrLen bufferSize
  omega

theorem Valid.means_macLine (h : mac.Valid) (hline : cstr line = macLine mac) :
    Means U line (.create, .mac mac) := by
  intro u hu
  have ⟨w, hlen, hspace, _, hcheck, hmac, hw⟩ := h.exists_word
  have hdelim := notMem_append_newline hspace (by decide)
  have hcopy : bytes macAddrLen (w ++ [newline]) = w ++ [newline] := by
    have hsize : (w ++ [newline]).length = macAddrLen := by
      rw [List.length_append, hlen]
      rfl
    rw [← hsize, bytes_self]
  rw [parseLine_eq, hline, macLine_eq, hw]
  rw [words_append_cons isWord_text_command.ne_nil isWord_text_command.delim_notMem]
  rw [words_of_notMem (by simp) hdelim, parseWords_create (by decide)]
  have hbuffer : (copyArgument (.start u) 0 (w ++ [newline])).copyBuffer = w ++ [newline] := hcopy
  simp only [createUpdateWords, readWords, parseMac, if_true, hbuffer, hcheck]
  rw [Parsed.command_eq_some_iff]
  refine ⟨rfl, rfl, ?_⟩
  rw [hmac]
  rfl

end Mac

end Lines

end RoutingTable
