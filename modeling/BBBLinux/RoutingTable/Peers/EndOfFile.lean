import BBBLinux.RoutingTable.Peers.Validated

/-!
This module contains what a line without a word does again and again. At the end of a file every `read`
returns such a line, the zeroed buffer. Each creates the route of the zeroed message, until the check of
the key, which does not look at the last entry, finds one: so there are never more than two of them.
-/

namespace RoutingTable

open CString

variable {t : Tables} {s : Server} {console : Console} {buffer : Mem} {k : Nat}

/--
How many routes lines without a word can still create.
-/
def Tables.blankRoom (t : Tables) : Nat :=
  if ∃ info ∈ t.head.dropLast, info.key = DataInfo.zero.key then
    0
  else if ∃ info ∈ t.head, info.key = DataInfo.zero.key then
    1
  else
    2

/--
The tables after `k` lines without a word.
-/
def Tables.afterBlank (t : Tables) (k : Nat) : Tables :=
  { t with head := t.head ++ List.replicate (min k t.blankRoom) .zero }

namespace Tables

theorem check_zero_iff : t.check .create (.route .zero) = true ↔ 0 < t.blankRoom := by
  unfold check blankRoom
  rw [checkCondition_create_iff]
  split
  . next hblank =>
    obtain ⟨info, hinfo, hkey⟩ := hblank
    constructor
    . intro h
      exact absurd hkey (h info hinfo)
    . intro h
      contradiction
  . next hblank =>
    constructor
    . intro _
      split <;> decide
    . intro _ info hinfo hkey
      exact hblank ⟨info, hinfo, hkey⟩

theorem blankRoom_addLast :
    blankRoom { t with head := t.head ++ [.zero] } = t.blankRoom - 1 := by
  have hself : ∃ info ∈ t.head ++ [DataInfo.zero], info.key = DataInfo.zero.key :=
    ⟨.zero, List.mem_append_right _ (List.mem_singleton_self _), rfl⟩
  unfold blankRoom
  dsimp only
  rw [List.dropLast_concat, if_pos hself]
  by_cases hblank : ∃ info ∈ t.head, info.key = DataInfo.zero.key
  . rw [if_pos hblank]
    split <;> rfl
  . have hdrop : ¬∃ info ∈ t.head.dropLast, info.key = DataInfo.zero.key := by
      rintro ⟨info, hinfo, hkey⟩
      exact hblank ⟨info, List.dropLast_subset t.head hinfo, hkey⟩
    rw [if_neg hblank, if_neg hdrop, if_neg hblank]

theorem guarded_zero : t.guarded .create (.route .zero) = t.afterBlank 1 := by
  unfold guarded afterBlank
  split
  . next hcheck =>
    rw [check_zero_iff] at hcheck
    rw [Nat.min_eq_left hcheck]
    unfold perform
    dsimp only
    rw [addLastEntryList_eq]
    rfl
  . next hcheck =>
    rw [check_zero_iff, Nat.not_lt, Nat.le_zero] at hcheck
    rw [hcheck, Nat.min_zero, List.replicate_zero, List.append_nil]

theorem blankRoom_afterBlank : (t.afterBlank k).blankRoom = t.blankRoom - k := by
  unfold afterBlank
  have hadded (j : Nat) :
      blankRoom { t with head := t.head ++ List.replicate j .zero } = t.blankRoom - j := by
    induction j with
    | zero => rw [List.replicate_zero, List.append_nil, Nat.sub_zero]
    | succ j ih =>
      have hlast := blankRoom_addLast (t := { t with head := t.head ++ List.replicate j .zero })
      dsimp only at hlast
      rw [List.replicate_succ', ← List.append_assoc, hlast, ih]
      omega
  rw [hadded]
  omega

theorem afterBlank_afterBlank (j : Nat) : (t.afterBlank j).afterBlank k = t.afterBlank (j + k) := by
  have hroom := blankRoom_afterBlank (t := t) (k := j)
  unfold afterBlank at hroom ⊢
  dsimp only
  rw [hroom, List.append_assoc, List.replicate_append_replicate]
  congr 3
  omega

end Tables

theorem Server.console_blank (h : Blank buffer) :
    (s.console console buffer).1.toTables = s.toTables.afterBlank 1
      ∧ (s.console console buffer).2.writes
        = if 0 < s.blankRoom then s.clientFds.map fun fd => (fd, buffer) else [] := by
  have hcommand := command_of_blank (u := console.locals) h
  rw [Parsed.command_eq_some_iff] at hcommand
  obtain ⟨hret, hop, he⟩ := hcommand
  have hcmd : (parseLine console.locals buffer).opcode.isCommand = true := by
    rw [hop]
    rfl
  rw [console_eq hret, ← Tables.guarded_zero]
  dsimp only
  cases s.dispatched console hcmd with
  | performed hcheck _ hretVal _ htables =>
    rw [hop, he] at hcheck htables
    rw [htables, Tables.guarded_of_check hcheck, hretVal, if_pos rfl,
      if_pos (Tables.check_zero_iff.mp hcheck)]
    exact ⟨rfl, rfl⟩
  | refused hcheck hretVal _ htables =>
    rw [hop, he] at hcheck
    have hnot : ¬s.check .create (.route .zero) = true := by
      rw [hcheck]
      exact Bool.false_ne_true
    rw [htables, Tables.guarded_of_not_check hnot, hretVal, if_neg (by decide),
      if_neg (mt Tables.check_zero_iff.mpr hnot)]
    exact ⟨rfl, rfl⟩
  | noIP _ hprompts =>
    unfold Parsed.entry at he
    simp only [Parsed.prompts, Bool.and_eq_true, decide_eq_true_eq] at hprompts
    rw [hprompts.1] at he
    contradiction

end RoutingTable
