import BBBLinux.RoutingTable.Parser.Copies
import BBBLinux.RoutingTable.Peers.Lines

/-!
This module contains what the readers of one line have in common. They find different bytes in memory that
nobody has written, so one of them may accept the line and the other not, and a line without a MAC
address may even be read as two different ones. The operation and the route are the same for all.
-/

namespace RoutingTable

open CString

variable {u v : Locals} {line : Mem} {op : Opcode} {e : Entry} {mac mac' : Mac} {t : Tables}

section Message

variable {a : Mem}

theorem replay_lineCopies (u v : Locals) (line data : Mem) :
    replay data (lineCopies v line) = replay data (lineCopies u line) := by
  unfold lineCopies
  cases strtok space line with
  | none => rfl
  | some next =>
    dsimp only
    split
    . rw [replay_append, replay_append, replay_macCopies, replay_macCopies]
    . split
      . rw [replay_append, replay_append, replay_macCopies, replay_macCopies]
      . rfl

theorem Copy.apply_append (c : Copy) (ha : dataInfoSize ≤ a.length) :
    ∃ a' k, dataInfoSize ≤ a'.length ∧ ∀ rest, c.apply (a ++ rest) = a' ++ rest.drop k := by
  unfold Copy.apply
  cases hoff : c.field.offset with
  | none => exact ⟨a, 0, ha, fun rest => rfl⟩
  | some off =>
    have hle : off ≤ dataInfoSize := by
      cases hfield : c.field <;> rw [hfield] at hoff <;> cases hoff <;> decide
    refine ⟨a.take off ++ (bytes c.length c.src ++ a.drop (off + c.length)), off + c.length - a.length,
      ?_, ?_⟩
    . simp only [List.length_append, List.length_take, bytes_length, List.length_drop]
      omega
    . intro rest
      dsimp only
      unfold memcpy
      rw [List.take_append_of_le_length (by omega), List.drop_append]
      simp only [List.append_assoc]

/--
No copy takes the end of the message, which nobody has written, into the part that is kept.
-/
theorem replay_append_rest (copies : List Copy) (ha : dataInfoSize ≤ a.length) :
    ∃ a' k, dataInfoSize ≤ a'.length ∧ ∀ rest, replay (a ++ rest) copies = a' ++ rest.drop k := by
  induction copies generalizing a with
  | nil => exact ⟨a, 0, ha, fun rest => rfl⟩
  | cons c copies ih =>
    obtain ⟨a', k, ha', happly⟩ := c.apply_append ha
    obtain ⟨a'', k', ha'', hreplay⟩ := ih ha'
    refine ⟨a'', k + k', ha'', ?_⟩
    intro rest
    have hcons : replay (a ++ rest) (c :: copies) = replay (c.apply (a ++ rest)) copies := rfl
    rw [hcons, happly, hreplay, List.drop_drop]

theorem DataInfo.ofMem_append (ha : dataInfoSize ≤ a.length) (rest rest' : Mem) :
    DataInfo.ofMem (a ++ rest') = DataInfo.ofMem (a ++ rest) := by
  apply DataInfo.ext
  have hbytes (rest : Mem) : bytes dataInfoSize (a ++ rest) = a.take dataInfoSize := by
    have hnone : dataInfoSize - (a ++ rest).length = 0 := by
      rw [List.length_append]
      omega
    unfold bytes
    rw [List.take_append_of_le_length ha, hnone, List.replicate_zero, List.append_nil]
  unfold DataInfo.ofMem
  dsimp only
  rw [hbytes, hbytes]

theorem route_parseLine (u v : Locals) (line : Mem) :
    DataInfo.ofMem (parseLine v line).msgInfo.data = DataInfo.ofMem (parseLine u line).msgInfo.data := by
  rw [data_parseLine, data_parseLine, replay_lineCopies u v]
  obtain ⟨a, k, ha, hreplay⟩ := replay_append_rest (lineCopies u line)
    (a := List.replicate (dataInfoSize + 1) 0) (by rw [List.length_replicate]; omega)
  unfold Msg.calloc
  dsimp only
  rw [hreplay, hreplay]
  apply DataInfo.ofMem_append ha

end Message

section Macs

theorem Mac.Valid.eq_of_key (h : mac.Valid) (hkey : mac'.key = mac.key) : mac' = mac := by
  obtain ⟨w, hlen, _, _, _, _, hw⟩ := h.exists_word
  have hchars {m : Mac} (hm : m.key = w) : m.mac = w ++ [0] := by
    have htake := m.cstr_take
    rw [hm] at htake
    have hlength : (m.mac.take (macAddrLen - 1)).length = macAddrLen - 1 := by
      rw [List.length_take, m.size]
      rfl
    rw [m.eq_take_append]
    congr 1
    rcases eq_cstr_append (m.mac.take (macAddrLen - 1)) with heq | ⟨rest, heq⟩
    . rw [heq, htake]
    . have := congrArg List.length heq
      rw [hlength, htake, List.length_append, List.length_cons, hlen] at this
      omega
  apply Mac.ext
  rw [hchars hw, hchars (hkey.trans hw)]

theorem updateEntryTableMac_of_valid (h : mac.Valid) (headMac : List Mac) :
    updateEntryTableMac headMac mac = headMac := by
  rw [updateEntryTableMac_eq]
  unfold KeyedList.update
  conv => rhs; rw [← List.map_id headMac]
  apply List.map_congr_left
  intro mac' _
  split
  . next hkey => exact (h.eq_of_key hkey).symm
  . rfl

end Macs

namespace Tables

def Unchanged (t : Tables) (command : Option (Opcode × Entry)) : Prop :=
  ∀ op e, command = some (op, e) → t.guarded op e = t

/--
The two commands are the same, or there is nothing to be done for either of them.
-/
def SameEffect (t : Tables) (command command' : Option (Opcode × Entry)) : Prop :=
  command' = command ∨ t.Unchanged command ∧ t.Unchanged command'

theorem unchanged_some_iff : t.Unchanged (some (op, e)) ↔ t.guarded op e = t := by
  unfold Unchanged
  constructor
  . intro h
    exact h op e rfl
  . rintro h op' e' hcommand
    cases hcommand
    exact h

theorem unchanged_none : t.Unchanged none := by
  intro op e h
  contradiction

theorem guarded_route_headMac (hcmd : op.isCommand = true) (info : DataInfo) :
    (t.guarded op (.route info)).headMac = t.headMac := by
  unfold guarded
  split
  . cases op <;> first | rfl | contradiction
  . rfl

theorem guarded_mac_head (hcmd : op.isCommand = true) (mac : Mac) :
    (t.guarded op (.mac mac)).head = t.head := by
  unfold guarded
  split
  . cases op <;> first | rfl | contradiction
  . rfl

theorem guarded_create_mac (mac : Mac) : t.guarded .create (.mac mac) = t
    ∨ t.guarded .create (.mac mac) = { t with headMac := t.headMac ++ [mac] } := by
  unfold guarded
  split
  . right
    simp only [perform, addLastEntryListMac_eq]
  . exact .inl rfl

theorem guarded_update_mac (h : mac.Valid) : t.guarded .update (.mac mac) = t := by
  unfold guarded
  split
  . simp only [perform, updateEntryTableMac_of_valid h]
  . rfl

theorem guarded_delete_mac (mac : Mac) :
    t.guarded .delete (.mac mac) = { t with headMac := KeyedList.remove Mac.key mac.key t.headMac } := by
  unfold guarded
  split
  . simp only [perform, removeNodeListMac_eq]
  . next hcheck =>
    obtain ⟨head, headMac⟩ := t
    cases headMac with
    | nil => rfl
    | cons ptr next => exact absurd rfl hcheck

/--
A MAC address that is added or removed does not get mixed up with another one.
-/
theorem unchanged_of_guarded_mac_eq (hcmd : op.isCommand = true) (hmac : mac.Valid) (hne : mac' ≠ mac)
    (h : t.guarded op (.mac mac') = t.guarded op (.mac mac)) :
    t.guarded op (.mac mac) = t := by
  cases op with
  | create =>
    rcases t.guarded_create_mac mac with hself | hadds
    . exact hself
    . rcases t.guarded_create_mac mac' with hself' | hadds'
      . rw [← h, hself']
      . rw [hadds, hadds'] at h
        injection h with _ hmacs
        rw [List.append_cancel_left_eq, List.singleton_inj] at hmacs
        exact absurd hmacs hne
  | update => exact guarded_update_mac hmac
  | delete =>
    rw [guarded_delete_mac, guarded_delete_mac] at h
    rw [guarded_delete_mac]
    injection h with _ hmacs
    have hkey : mac.key ≠ mac'.key := fun hkey => hne (hmac.eq_of_key hkey.symm)
    rw [KeyedList.eq_self_of_remove_eq hkey hmacs.symm]
  | _ => contradiction

theorem unchanged_of_guarded_route_eq (hcmd : op.isCommand = true) {info : DataInfo}
    (h : t.guarded op (.route info) = t.guarded op (.mac mac)) : t.guarded op (.mac mac) = t := by
  have hhead := guarded_mac_head (t := t) hcmd mac
  have hheadMac := guarded_route_headMac (t := t) hcmd info
  rw [h] at hheadMac
  generalize t.guarded op (.mac mac) = t' at hhead hheadMac
  cases t'
  cases t
  cases hhead
  cases hheadMac
  rfl

end Tables

theorem entry_eq_route {parsed : Parsed} {info : DataInfo} (h : parsed.entry = .route info) :
    info = .ofMem parsed.msgInfo.data := by
  unfold Parsed.entry at h
  split at h
  . injection h with h
    exact h.symm
  . contradiction

/--
Two readers that take a line for different entries can do the same only if they do nothing.
-/
theorem unchanged_of_guarded_eq (hcmd : op.isCommand = true) {e' : Entry}
    (h : (parseLine u line).command = some (op, e)) (h' : (parseLine v line).command = some (op, e'))
    (hne : e' ≠ e) (hguarded : t.guarded op e' = t.guarded op e) : t.guarded op e = t := by
  cases e with
  | route info =>
    cases e' with
    | route info' =>
      rw [Parsed.command_eq_some_iff] at h h'
      have hinfo := entry_eq_route h.2.2
      rw [← route_parseLine u v, ← entry_eq_route h'.2.2] at hinfo
      rw [hinfo] at hne
      exact absurd rfl hne
    | mac mac => rw [← hguarded, Tables.unchanged_of_guarded_route_eq hcmd hguarded.symm]
  | mac mac =>
    cases e' with
    | route info' => exact Tables.unchanged_of_guarded_route_eq hcmd hguarded
    | mac mac' =>
      apply Tables.unchanged_of_guarded_mac_eq hcmd (valid_of_command h) _ hguarded
      exact fun heq => hne (congrArg Entry.mac heq)

theorem request_of_not_retVal (h : (parseLine u line).retVal = false) : request t u line = some t := by
  unfold request
  dsimp only
  rw [h, if_neg (by decide)]

/--
What a reader makes of a line is what another one makes of it, just if they read it as the same command or
if both leave the tables as they are.
-/
theorem request_eq_guarded_iff (hcmd : op.isCommand = true)
    (h : (parseLine u line).command = some (op, e)) :
    request t v line = some (t.guarded op e)
      ↔ t.SameEffect (parseLine u line).command (parseLine v line).command := by
  have hu := h
  rw [Parsed.command_eq_some_iff] at hu
  obtain ⟨_, hop, he⟩ := hu
  have hopcode := opcode_parseLine v u line
  rw [hop] at hopcode
  by_cases hret : (parseLine v line).retVal = true
  . have hv : (parseLine v line).command = some (op, (parseLine v line).entry) := by
      rw [Parsed.command_eq_some_iff]
      exact ⟨hret, hopcode, rfl⟩
    rw [request_eq hv hcmd, Option.some.injEq, h, hv, Tables.SameEffect, Option.some.injEq,
      Prod.mk.injEq, Tables.unchanged_some_iff, Tables.unchanged_some_iff]
    constructor
    . intro hguarded
      by_cases hsame : (parseLine v line).entry = e
      . exact .inl ⟨rfl, hsame⟩
      . have hunchanged := unchanged_of_guarded_eq hcmd h hv hsame hguarded
        exact .inr ⟨hunchanged, hguarded.trans hunchanged⟩
    . rintro (⟨_, hsame⟩ | ⟨hsame, hsame'⟩)
      . rw [hsame]
      . rw [hsame, hsame']
  . have hnone : (parseLine v line).command = none := if_neg hret
    rw [Bool.not_eq_true] at hret
    rw [request_of_not_retVal hret, Option.some.injEq, h, hnone, Tables.SameEffect,
      Tables.unchanged_some_iff]
    constructor
    . intro hself
      exact .inr ⟨hself.symm, Tables.unchanged_none⟩
    . rintro (hsame | ⟨hself, _⟩)
      . contradiction
      . exact hself.symm

end RoutingTable
