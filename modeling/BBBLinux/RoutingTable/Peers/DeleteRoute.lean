import BBBLinux.RoutingTable.Peers.Lines

/-!
This module contains the lines that delete a route. Their mask is the last word, and other than the
interface of a route it keeps the newline behind it, so it is never the mask that was typed.
-/

namespace RoutingTable

open CString

def createLine (d m g o : Mem) : Mem :=
  text "C " ++ d ++ text " " ++ m ++ text " " ++ g ++ text " " ++ o ++ text "\n"

def deleteLine (d m : Mem) : Mem :=
  text "D " ++ d ++ text " " ++ m ++ text "\n"

variable {u : Locals} {d m after : Mem} {s : Server} {console : Console}

/--
The line that deletes a destination and a mask is accepted with these, and removes an entry with this
key while all others stay in their order.
-/
structure Server.DeletesRoute (s : Server) (console : Console) (d m after : Mem) : Prop where
  accepted : (parseLine console.locals (deleteLine d m ++ 0 :: after)).retVal = true
  destination : cstr (DataInfo.ofMem
    (parseLine console.locals (deleteLine d m ++ 0 :: after)).msgInfo.data).destination = d
  mask : cstr (DataInfo.ofMem
    (parseLine console.locals (deleteLine d m ++ 0 :: after)).msgInfo.data).mask = m
  removed : ∃ l₁ e l₂, s.head = l₁ ++ e :: l₂ ∧ e.key = (d, m)
    ∧ (s.console console (deleteLine d m ++ 0 :: after)).1.head = l₁ ++ l₂

theorem words_deleteLine (hd : IsWord space d) (hm : IsWord space m) :
    words space (cstr (deleteLine d m ++ 0 :: after)) = [text "D", d, m ++ [newline]] := by
  have htext : text "D " = text "D" ++ [space] := by decide
  have hword : IsWord space (text "D") := ⟨by decide, by decide, by decide⟩
  have hlast := isWord_append_newline hm
  have hline : deleteLine d m = text "D" ++ space :: (d ++ space :: (m ++ [newline])) := by
    unfold deleteLine
    rw [htext, text_space, text_newline]
    simp
  have hzero : 0 ∉ deleteLine d m := by
    have hspace := space_ne_zero.symm
    rw [hline]
    simp only [List.mem_append, List.mem_cons, hspace, false_or, not_or]
    exact ⟨hword.zero_notMem, hd.zero_notMem, hm.zero_notMem, newline_ne_zero.symm,
      List.not_mem_nil⟩
  rw [cstr_append_zero hzero, hline, words_append_cons hword.ne_nil hword.delim_notMem]
  rw [words_append_cons hd.ne_nil hd.delim_notMem]
  rw [words_of_notMem hlast.ne_nil hlast.delim_notMem]

theorem cstr_mask_ofMem (data : Mem) : cstr (DataInfo.ofMem data).mask
    = (cstr (data.drop maskOff)).take (dataInfoSize - maskOff) := by
  unfold DataInfo.mask DataInfo.ofMem
  rw [bytes_drop (by decide), cstr_bytes]

theorem mask_deleteWords (hm : 0 ∉ m)
    (h : (deleteWords u (.start u) [d, m]).retVal = true) :
    cstr (DataInfo.ofMem (deleteWords u (.start u) [d, m]).msgInfo.data).mask = m := by
  simp only [deleteWords, readWords, if_true, parseRoute] at h ⊢
  obtain ⟨hlen, _⟩ := copyArgument_mask (retVal_of_checkKey h)
  have hle : ¬strlen m > 2 := by omega
  have hdata : maskOff ≤ (copyArgument (.start u) 0 d).data.length := by
    have hoff : maskOff ≤ dataInfoSize := by decide
    exact hoff.trans (length_copyArgument 0 (length_start u))
  generalize copyArgument (.start u) 0 d = p at *
  simp only [copyArgument, if_neg hle]
  rw [cstr_mask_ofMem, drop_memcpy hdata, bytes_strlen_succ, cstr_of_notMem hm, List.append_assoc]
  rw [List.singleton_append, cstr_append_zero hm, List.take_of_length_le]
  rw [strlen_of_notMem hm] at hlen
  unfold dataInfoSize oifOff gatewayIpOff maskSize gatewSize oifSize
  omega

theorem not_deletesRoute (hd : IsWord space d) (hm : IsWord space m) :
    ¬s.DeletesRoute console d m after := by
  intro h
  have hretVal := h.accepted
  have hmask := h.mask
  rw [parseLine_eq, words_deleteLine hd hm, parseWords_delete (by decide)] at hretVal hmask
  rw [mask_deleteWords (isWord_append_newline hm).zero_notMem hretVal] at hmask
  have hlength := congrArg List.length hmask
  simp at hlength

theorem not_deletesRoute_slash24 :
    ¬Server.oneClient.DeletesRoute (.replying "") (text "1.1.1.1") (text "24") [] :=
  not_deletesRoute ⟨by decide, by decide, by decide⟩ ⟨by decide, by decide, by decide⟩

theorem slash24_not_deleted :
    ¬∀ (s : Server) (console console' : Console) (d m g o after after' : Mem),
      IsWord space d → IsWord space m →
      (s.console console (createLine d m g o ++ 0 :: after)).2.performed = true →
      ∀ s', (consoleSystem.startingAt
          (s.console console (createLine d m g o ++ 0 :: after)).1).Reachable s' →
        (∃ e ∈ s'.head, e.key = (d, m)) → s'.DeletesRoute console' d m after' := by
  intro h
  have hdeletes := h .oneClient (.replying "") (.replying "") (text "1.1.1.1") (text "24")
    (text "2.2.2.2") (text "eth0") [] [] ⟨by decide, by decide, by decide⟩
    ⟨by decide, by decide, by decide⟩ (by decide +kernel) _ (.init rfl) (by decide +kernel)
  have haccepted := hdeletes.accepted
  revert haccepted
  decide +kernel

end RoutingTable
