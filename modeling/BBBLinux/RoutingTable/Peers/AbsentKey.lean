import BBBLinux.RoutingTable.Peers.Lemmas
import BBBLinux.RoutingTable.Table.Unique

/-!
This module contains what the server does with lines that update or delete what is not there. An update
is refused, but a delete passes its guard as soon as the table contains anything at all.
-/

namespace RoutingTable

open CString

namespace Tables

variable {t : Tables} {e : Entry}

def NoneOf (t : Tables) : Entry → Prop
  | .route _ => t.head = []
  | .mac _ => t.headMac = []

theorem check_update_of_absent (h : t.Absent e) : t.check .update e = false := by
  cases e with
  | route info =>
    simp only [check, checkCondition, condition, List.any_eq_false, sameRoute_iff]
    exact h
  | mac info =>
    simp only [check, checkConditionMac, condition, List.any_eq_false, sameMac_iff]
    exact h

theorem check_delete_eq_false_iff : t.check .delete e = false ↔ t.NoneOf e := by
  cases e with
  | route info => simp [check, checkCondition, condition, NoneOf]
  | mac info => simp [check, checkConditionMac, condition, NoneOf]

end Tables

namespace Server

variable {s : Server} {console : Console} {buffer : Mem} {parsed : Parsed} {op : Opcode} {e : Entry}

theorem dispatch_of_not_check (console : Console) (hcmd : parsed.opcode.isCommand = true)
    (h : s.check parsed.opcode parsed.entry = false) : s.dispatch console parsed = s.refuse 0 := by
  have ⟨retVal, isRtMac, ⟨opcode, data⟩, macAddr⟩ := parsed
  cases opcode with
  | «show» => contradiction
  | flush => contradiction
  | quit => contradiction
  | _ =>
    cases isRtMac with
    | isRt =>
      simp only [dispatch, reduceCtorEq, if_false]
      apply if_neg
      rw [Bool.not_eq_true]
      exact h
    | isMac =>
      simp only [dispatch, if_true]
      apply if_neg
      rw [Bool.not_eq_true]
      exact h

/--
The guard says no, the server stays as it is and nothing is written to anyone.
-/
structure NoEffect (s : Server) (console : Console) (buffer : Mem) : Prop where
  refused : s.check (parseLine console.locals buffer).opcode
    (parseLine console.locals buffer).entry = false
  unchanged : (s.console console buffer).1 = s
  silent : (s.console console buffer).2.writes = []

theorem noEffect_iff_check (hret : (parseLine console.locals buffer).retVal = true)
    (hcmd : (parseLine console.locals buffer).opcode.isCommand = true) :
    s.NoEffect console buffer ↔ s.check (parseLine console.locals buffer).opcode
      (parseLine console.locals buffer).entry = false := by
  constructor
  . intro h
    exact h.refused
  . intro h
    have hdispatch := dispatch_of_not_check console hcmd h
    refine ⟨h, ?_, ?_⟩
    . rw [console_eq hret, hdispatch]
      rfl
    . rw [console_eq hret, hdispatch]
      rfl

theorem noEffect_of_absent_iff
    (hcommand : (parseLine console.locals buffer).command = some (op, e))
    (hop : op = .update ∨ op = .delete) (habsent : s.Absent e) :
    s.NoEffect console buffer ↔ op = .update ∨ s.NoneOf e := by
  rw [Parsed.command_eq_some_iff] at hcommand
  have ⟨hret, hopcode, hentry⟩ := hcommand
  have hcmd : (parseLine console.locals buffer).opcode.isCommand = true := by
    rw [hopcode]
    rcases hop with rfl | rfl <;> rfl
  rw [noEffect_iff_check hret hcmd, hopcode, hentry]
  rcases hop with rfl | rfl
  . simp [Tables.check_update_of_absent habsent]
  . simp [Tables.check_delete_eq_false_iff]

def updateRoute : Mem :=
  bytes bufferSize (text "U 9.9.9.9 24 2.2.2.2 eth0\n")

def deleteRoute : Mem :=
  bytes bufferSize (text "D 9.9.9.9 8\n")

def oneRoute : Server :=
  (oneClient.console (.replying "") (bytes bufferSize (text "C 1.1.1.1 24 2.2.2.2 eth0\n"))).1

theorem head_oneRoute : oneRoute.head
    = [.ofFields (text "1.1.1.1") (text "24") (text "2.2.2.2") (text "eth0")] := by
  decide +kernel

theorem absent_oneRoute {d m g o : Mem}
    (h : (DataInfo.ofFields (text "1.1.1.1") (text "24") (text "2.2.2.2") (text "eth0")).key
      ≠ (DataInfo.ofFields d m g o).key) : oneRoute.Absent (.route (.ofFields d m g o)) := by
  intro ptr hptr
  rw [head_oneRoute] at hptr
  rw [List.mem_singleton.mp hptr]
  exact h

theorem noEffect_of_absent_iff_updateRoute : oneRoute.NoEffect (.replying "") updateRoute := by
  have hcommand : (parseLine (Console.replying "").locals updateRoute).command =
      some (.update, .route (.ofFields (text "9.9.9.9") (text "24") (text "2.2.2.2")
        (text "eth0"))) := by
    decide +kernel
  have habsent : oneRoute.Absent (.route (.ofFields (text "9.9.9.9") (text "24") (text "2.2.2.2")
      (text "eth0"))) := absent_oneRoute (by decide +kernel)
  exact (noEffect_of_absent_iff hcommand (.inl rfl) habsent).mpr (.inl rfl)

/--
The only route is another one, yet the line that deletes goes out to the client.
-/
theorem deleteRoute_broadcast :
    oneRoute.check .delete (.route (.ofFields (text "9.9.9.9") (text "8\n") [] [])) = true
      ∧ (oneRoute.console (.replying "") deleteRoute).2.writes = [(4, deleteRoute)]
      ∧ ¬∀ s console buffer op e, consoleSystem.Reachable s →
          (parseLine console.locals buffer).command = some (op, e) → op = .update ∨ op = .delete →
          s.Absent e → s.NoEffect console buffer := by
  have hcheck : oneRoute.check .delete (.route (.ofFields (text "9.9.9.9") (text "8\n") [] []))
      = true := by
    decide +kernel
  have hwrites : (oneRoute.console (.replying "") deleteRoute).2.writes = [(4, deleteRoute)] := by
    decide +kernel
  refine ⟨hcheck, hwrites, ?_⟩
  intro h
  have hreachable : consoleSystem.Reachable oneRoute :=
    .step (s := oneClient) (i := (.replying "", bytes bufferSize
      (text "C 1.1.1.1 24 2.2.2.2 eth0\n"))) (.init rfl) trivial rfl
  have hcommand : (parseLine (Console.replying "").locals deleteRoute).command =
      some (.delete, .route (.ofFields (text "9.9.9.9") (text "8\n") [] [])) := by
    decide +kernel
  have habsent : oneRoute.Absent (.route (.ofFields (text "9.9.9.9") (text "8\n") [] [])) :=
    absent_oneRoute (by decide +kernel)
  have hsilent := (h _ _ _ _ _ hreachable hcommand (.inr rfl) habsent).silent
  rw [hwrites] at hsilent
  exact List.cons_ne_nil _ _ hsilent

end Server

end RoutingTable
