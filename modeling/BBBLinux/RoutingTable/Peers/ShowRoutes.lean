import BBBLinux.CString.Copy
import BBBLinux.RoutingTable.Peers.Validated

/-!
This module contains `show_routing_table_info`. In every run its `dest_mask` is large enough, and the
columns of the screen can be read back as the table.
-/

namespace RoutingTable

open CString

-- the size of `dest_mask`
def destMaskSize : Nat := 24

def columnWidth : Nat := 22

def slash : UInt8 := '/'.toUInt8

def writeDestMask (destMask : Mem) (ptr : DataInfo) : Mem :=
  strcat (strcat (strcpy destMask ptr.destination) [slash]) ptr.mask

/--
Where `strcpy` and the two `strcat` begin to write in `dest_mask` and how many bytes they write.
-/
def destMaskCopies (destMask : Mem) (ptr : DataInfo) : List (Nat × Nat) :=
  let copied := strcpy destMask ptr.destination
  let separated := strcat copied [slash]
  [(0, strlen ptr.destination + 1), (strlen copied, strlen [slash] + 1),
    (strlen separated, strlen ptr.mask + 1)]

def printColumns (first second third : Mem) : Mem :=
  leftJustified space columnWidth first ++ text "| " ++ leftJustified space columnWidth second ++ text "| "
    ++ leftJustified space columnWidth third ++ text "|\n"

def printHeader (first second third : Mem) : Mem :=
  leftJustified space 24 first ++ leftJustified space 24 second ++ leftJustified space 24 third ++ text "\n"

def showRouteRows (destMask : Mem) : List DataInfo → Mem
  | [] => []
  | ptr :: rest =>
    let destMask := writeDestMask destMask ptr
    printColumns destMask ptr.gatewayIp ptr.oif ++ showRouteRows destMask rest

/--
What comes on the screen. `destMask` is what the local variable and the memory behind it contain.
-/
def showRoutingTableInfo (destMask : Mem) (head : List DataInfo) : Mem :=
  if head = [] then
    text "------> The routing table is empty, there's nothing to show\n"
  else
    printHeader (text "Destination/Mask      |") (text "GatewayIP             |")
        (text "OIF                   |")
      ++ (printHeader (text "----------------------|") (text "----------------------|")
          (text "----------------------|")
        ++ showRouteRows destMask head)

/--
The rows of the screen, each of which ends with a newline.
-/
def screenRows (screen : Mem) : List Mem :=
  (screen.splitOnP (· == newline)).dropLast

def readColumn (row : Mem) (start : Nat) : Mem :=
  ((row.drop start).take columnWidth).takeWhile (· ≠ space)

def readRow (row : Mem) : Mem × Mem × Mem :=
  (readColumn row 0, readColumn row 24, readColumn row 48)

def readScreen (screen : Mem) : List (Mem × Mem × Mem) :=
  match screenRows screen with
  | _ :: _ :: rows => rows.map readRow
  | _ => []

def DataInfo.shown (info : DataInfo) : Mem × Mem × Mem :=
  (cstr info.destination ++ slash :: cstr info.mask, cstr info.gatewayIp, cstr info.oif)

def CopiesInBounds (head : List DataInfo) : Prop :=
  ∀ ptr ∈ head, ∀ before, ∀ copy ∈ destMaskCopies before ptr, copy.1 + copy.2 ≤ destMaskSize

def ShowsRoutes (destMask : Mem) (head : List DataInfo) : Prop :=
  readScreen (showRoutingTableInfo destMask head) = head.map DataInfo.shown

/--
The line has no newline but the one at its end.
-/
def OneLine (buffer : Mem) : Prop :=
  newline ∉ (cstr buffer).dropLast

instance (buffer : Mem) : Decidable (OneLine buffer) :=
  inferInstanceAs (Decidable (_ ∉ _))

def Server.Input.OneLine : Server.Input → Prop
  | .console _ buffer => RoutingTable.OneLine buffer
  | _ => True

def Tables.Input.OneLine : Tables.Input → Prop
  | .message _ buffer => RoutingTable.OneLine buffer
  | .sigusr1 => True

structure IsColumn (size : Nat) (field : Mem) : Prop where
  strlen_lt : strlen field < size
  space_notMem : space ∉ cstr field
  newline_notMem : newline ∉ cstr field

structure DataInfo.Legible (info : DataInfo) : Prop where
  destination : IsColumn destSize info.destination
  mask : IsColumn maskSize info.mask
  gatewayIp : IsColumn gatewSize info.gatewayIp
  oif : IsColumn oifSize info.oif

structure DataInfo.KeyFits (info : DataInfo) : Prop where
  destination : strlen info.destination < destSize
  mask : strlen info.mask < maskSize

section Rows

variable {first second third destMask : Mem} {ptr info : DataInfo} {head : List DataInfo}

theorem strlen_append_of_cstr {s a b : Mem} (h : cstr s = cstr a ++ cstr b) :
    strlen s = strlen a + strlen b := by
  unfold strlen
  rw [h, List.length_append]

theorem cstr_slash : cstr [slash] = [slash] := by
  decide

theorem cstr_writeDestMask : cstr (writeDestMask destMask ptr)
    = cstr ptr.destination ++ slash :: cstr ptr.mask := by
  unfold writeDestMask
  rw [cstr_strcat, cstr_strcat, cstr_strcpy, cstr_slash, List.append_assoc, List.singleton_append]

theorem destMaskCopies_eq : destMaskCopies destMask ptr =
    [(0, strlen ptr.destination + 1), (strlen ptr.destination, 2),
      (strlen ptr.destination + 1, strlen ptr.mask + 1)] := by
  have hslash : strlen [slash] = 1 := by decide
  have hcopied : strlen (strcpy destMask ptr.destination) = strlen ptr.destination := by
    unfold strlen
    rw [cstr_strcpy]
  have hseparated : strlen (strcat (strcpy destMask ptr.destination) [slash])
      = strlen (strcpy destMask ptr.destination) + strlen [slash] := strlen_append_of_cstr cstr_strcat
  unfold destMaskCopies
  dsimp only
  rw [hseparated, hcopied, hslash]

theorem copiesInBounds (h : ∀ ptr ∈ head, ptr.KeyFits) : CopiesInBounds head := by
  intro ptr hptr before
  obtain ⟨hdestination, hmask⟩ := h ptr hptr
  rw [destMaskCopies_eq]
  unfold destSize at hdestination
  unfold maskSize at hmask
  simp only [List.forall_mem_cons, destMaskSize]
  exact ⟨by omega, by omega, by omega, by simp⟩

theorem readColumn_of_eq {row front back field : Mem} {start : Nat}
    (hrow : row = front ++ leftJustified space columnWidth field ++ back) (hstart : front.length = start)
    (hfield : IsColumn (columnWidth + 1) field) : readColumn row start = cstr field := by
  have hlength : (leftJustified space columnWidth field).length = columnWidth :=
    length_leftJustified (Nat.le_of_lt_succ hfield.strlen_lt)
  unfold readColumn
  rw [hrow, List.append_assoc, List.drop_left' hstart, List.take_left' hlength]
  exact takeWhile_leftJustified hfield.space_notMem

theorem IsColumn.newline_notMem_leftJustified {size width : Nat} {field : Mem} (h : IsColumn size field) :
    newline ∉ leftJustified space width field := by
  unfold leftJustified
  rw [List.mem_append, List.mem_replicate, not_or]
  refine ⟨h.newline_notMem, ?_⟩
  rintro ⟨_, heq⟩
  revert heq
  decide

/--
What `printf` writes is one row, and its columns are what `printf` was given.
-/
theorem exists_row (hfirst : IsColumn (columnWidth + 1) first) (hsecond : IsColumn (columnWidth + 1) second)
    (hthird : IsColumn (columnWidth + 1) third) :
    ∃ row, printColumns first second third = row ++ [newline] ∧ newline ∉ row
      ∧ readRow row = (cstr first, cstr second, cstr third) := by
  have hlength {field : Mem} (h : IsColumn (columnWidth + 1) field) :
      (leftJustified space columnWidth field).length = columnWidth :=
    length_leftJustified (Nat.le_of_lt_succ h.strlen_lt)
  have hbar : (text "| ").length = 2 := by decide
  have hnewline : newline ∉ text "| " ∧ newline ∉ text "|" := by decide
  refine ⟨leftJustified space columnWidth first ++ text "| " ++ leftJustified space columnWidth second
    ++ text "| " ++ leftJustified space columnWidth third ++ text "|", ?_, ?_, ?_⟩
  . have hend : text "|\n" = text "|" ++ [newline] := by decide
    unfold printColumns
    rw [hend, List.append_assoc _ (text "|")]
  . simp only [List.mem_append, not_or]
    exact ⟨⟨⟨⟨⟨hfirst.newline_notMem_leftJustified, hnewline.1⟩, hsecond.newline_notMem_leftJustified⟩,
      hnewline.1⟩, hthird.newline_notMem_leftJustified⟩, hnewline.2⟩
  . generalize hrow : leftJustified space columnWidth first ++ text "| "
      ++ leftJustified space columnWidth second ++ text "| " ++ leftJustified space columnWidth third
      ++ text "|" = row
    have hrow₁ : row = [] ++ leftJustified space columnWidth first
        ++ (text "| " ++ leftJustified space columnWidth second ++ text "| "
          ++ leftJustified space columnWidth third ++ text "|") := by
      simp only [← hrow, List.nil_append, List.append_assoc]
    have hrow₂ : row = (leftJustified space columnWidth first ++ text "| ")
        ++ leftJustified space columnWidth second
        ++ (text "| " ++ leftJustified space columnWidth third ++ text "|") := by
      simp only [← hrow, List.append_assoc]
    have hstart : (leftJustified space columnWidth first ++ text "| ").length = 24 := by
      rw [List.length_append, hlength hfirst, hbar]
      rfl
    have hstart' : (leftJustified space columnWidth first ++ text "| "
        ++ leftJustified space columnWidth second ++ text "| ").length = 48 := by
      rw [List.length_append, List.length_append, hstart, hlength hsecond, hbar]
      rfl
    have hnil : ([] : Mem).length = 0 := rfl
    unfold readRow
    rw [readColumn_of_eq hrow₁ hnil hfirst, readColumn_of_eq hrow₂ hstart hsecond,
      readColumn_of_eq hrow.symm hstart' hthird]

theorem IsColumn.mono {size size' : Nat} {field : Mem} (h : IsColumn size field) (hle : size ≤ size') :
    IsColumn size' field :=
  ⟨Nat.lt_of_lt_of_le h.strlen_lt hle, h.space_notMem, h.newline_notMem⟩

theorem DataInfo.Legible.column (h : ptr.Legible) :
    IsColumn (columnWidth + 1) (writeDestMask destMask ptr) := by
  have hdestination := h.destination.strlen_lt
  have hmask := h.mask.strlen_lt
  have hslash : space ≠ slash ∧ newline ≠ slash := by decide
  constructor
  . unfold strlen at *
    rw [cstr_writeDestMask, List.length_append, List.length_cons]
    unfold destSize at hdestination
    unfold maskSize at hmask
    unfold columnWidth
    omega
  . rw [cstr_writeDestMask, List.mem_append, List.mem_cons]
    rintro (hmem | heq | hmem)
    . exact h.destination.space_notMem hmem
    . exact hslash.1 heq
    . exact h.mask.space_notMem hmem
  . rw [cstr_writeDestMask, List.mem_append, List.mem_cons]
    rintro (hmem | heq | hmem)
    . exact h.destination.newline_notMem hmem
    . exact hslash.2 heq
    . exact h.mask.newline_notMem hmem

theorem screenRows_append {row screen : Mem} (h : newline ∉ row) :
    screenRows (row ++ [newline] ++ screen) = row :: screenRows screen := by
  unfold screenRows
  rw [List.append_assoc, List.singleton_append, List.splitOnP_append_cons_of_forall_mem]
  . exact List.dropLast_cons_of_ne_nil (List.splitOnP_ne_nil _ _)
  . intro c hc
    simp only [beq_eq_false_iff_ne]
    intro heq
    rw [heq] at hc
    exact h hc
  . exact beq_self_eq_true newline

theorem readRow_showRouteRows (h : ∀ ptr ∈ head, ptr.Legible) :
    (screenRows (showRouteRows destMask head)).map readRow = head.map DataInfo.shown := by
  induction head generalizing destMask with
  | nil => rfl
  | cons ptr rest ih =>
    rw [List.forall_mem_cons] at h
    have hptr := h.1
    have hcolumn : IsColumn (columnWidth + 1) (writeDestMask destMask ptr) := hptr.column
    obtain ⟨row, hrow, hnewline, hread⟩ :=
      exists_row hcolumn (hptr.gatewayIp.mono (by decide)) (hptr.oif.mono (by decide))
    rw [showRouteRows, hrow, screenRows_append hnewline, List.map_cons, List.map_cons, ih h.2, hread]
    rw [cstr_writeDestMask]
    rfl

theorem showsRoutes (destMask : Mem) (h : ∀ ptr ∈ head, ptr.Legible) : ShowsRoutes destMask head := by
  unfold ShowsRoutes showRoutingTableInfo
  split
  . next hnil =>
    rw [hnil]
    decide
  . have hheader : ∀ header ∈
        [printHeader (text "Destination/Mask      |") (text "GatewayIP             |")
            (text "OIF                   |"),
          printHeader (text "----------------------|") (text "----------------------|")
            (text "----------------------|")],
        header = header.dropLast ++ [newline] ∧ newline ∉ header.dropLast := by
      decide
    simp only [List.forall_mem_cons] at hheader
    obtain ⟨⟨hfirst, hfirst'⟩, ⟨hsecond, hsecond'⟩, _⟩ := hheader
    unfold readScreen
    rw [hfirst, screenRows_append hfirst', hsecond, screenRows_append hsecond']
    exact readRow_showRouteRows h

end Rows

section Entered

variable {U : Locals → Prop} {u : Locals} {buffer : Mem} {op : Opcode} {info : DataInfo} {ws : List Mem}

theorem Route.keyFits (r : Route) : r.info.KeyFits where
  destination := by
    unfold strlen
    rw [r.cstr_destination]
    exact r.destination_lt
  mask := by
    unfold strlen
    rw [r.cstr_mask]
    exact r.mask_lt

theorem Route.legible (r : Route) (hdestination : newline ∉ r.destination) (hmask : newline ∉ r.mask)
    (hgatewayIp : newline ∉ r.gatewayIp) (hoif : newline ∉ r.oif) : r.info.Legible where
  destination := ⟨r.keyFits.destination, by rw [r.cstr_destination]; exact r.isWord_destination.delim_notMem,
    by rw [r.cstr_destination]; exact hdestination⟩
  mask := ⟨r.keyFits.mask, by rw [r.cstr_mask]; exact r.isWord_mask.delim_notMem,
    by rw [r.cstr_mask]; exact hmask⟩
  gatewayIp := ⟨by unfold strlen; rw [r.cstr_gatewayIp]; exact r.gatewayIp_lt,
    by rw [r.cstr_gatewayIp]; exact r.isWord_gatewayIp.delim_notMem, by rw [r.cstr_gatewayIp]; exact hgatewayIp⟩
  oif := ⟨by unfold strlen; rw [r.cstr_oif]; exact r.oif_lt, by rw [r.cstr_oif]; exact r.space_notMem_oif,
    by rw [r.cstr_oif]; exact hoif⟩

theorem legible_zero : DataInfo.zero.Legible where
  destination := ⟨by decide, by decide, by decide⟩
  mask := ⟨by decide, by decide, by decide⟩
  gatewayIp := ⟨by decide, by decide, by decide⟩
  oif := ⟨by decide, by decide, by decide⟩

/--
A line without a word enters the zeroed message, and every other line the words behind its first one. Of the
fourth of them the last character is left out.
-/
inductive EntersWords (ws : List Mem) (info : DataInfo) : Prop where
  | zero (hinfo : info = .zero)
  | words (r : Route) (c o : Mem) (rest : List Mem)
      (hws : ws = [c, r.destination, r.mask, r.gatewayIp] ++ o :: rest) (ho : o ≠ [])
      (hoif : o.dropLast = r.oif) (hinfo : info = r.info)

theorem entersWords_of_parseWords (hws : ∀ w ∈ ws, IsWord space w) (hfit : TokensFit ws)
    (hcmd : op.isCommand = true) (hop : op ≠ .delete)
    (h : (parseWords u ws).command = some (op, .route info)) : EntersWords ws info := by
  cases ws with
  | nil =>
    unfold parseWords at h
    rw [command_parseRoute, if_pos rfl, Option.some.injEq, Prod.mk.injEq, Entry.route.injEq] at h
    apply EntersWords.zero
    rw [← h.2]
    simp only [Parse.start, calloc_data, ofMem_layout]
    rfl
  | cons c ws =>
    have hargs : ∀ w ∈ ws, IsWord space w := fun w hw => hws w (List.mem_cons_of_mem c hw)
    cases letter c ws with
    | createUpdate opcode _ hletter hparse =>
      rw [hparse] at h
      obtain ⟨_, r, o, rest, hlist, _, hnewline, hoif, hinfo, _⟩ :=
        exists_route hargs (hfit.1 hletter) h
      exact .words r c o rest (by rw [hlist]; rfl) (List.ne_nil_of_mem hnewline) hoif hinfo
    | delete _ hparse =>
      rw [hparse, Parsed.command_eq_some_iff, opcode_deleteWords] at h
      exact absurd h.2.1.symm hop
    | plain opcode hopcode _ hparse =>
      rw [hparse, Parsed.command_eq_some_iff] at h
      have hop : opcode = op := h.2.1
      rw [← hop] at hcmd
      rcases hopcode with hopcode | hopcode | hopcode <;> rw [hopcode] at hcmd <;> contradiction
    | invalid _ hparse =>
      rw [hparse] at h
      contradiction

theorem Entered.entersWords (h : Entered U u buffer) (henters : Enters u buffer info) :
    EntersWords (words space (cstr buffer)) info := by
  obtain ⟨op, hcommand, hcmd, hop⟩ := henters
  rw [parseLine_eq] at hcommand
  exact entersWords_of_parseWords isWord_words h.2 hcmd hop hcommand

theorem EntersWords.keyFits (h : EntersWords ws info) : info.KeyFits := by
  cases h with
  | zero hinfo =>
    rw [hinfo]
    exact ⟨by decide, by decide⟩
  | words r c o rest _ _ _ hinfo =>
    rw [hinfo]
    exact r.keyFits

theorem OneLine.notMem_words {front rest : List Mem} {o : Mem} (h : OneLine buffer)
    (hws : words space (cstr buffer) = front ++ o :: rest) (ho : o ≠ []) :
    (∀ w ∈ front, newline ∉ w) ∧ newline ∉ o.dropLast := by
  have hflatten := flatten_words space (cstr buffer)
  have hsublist : ((cstr buffer).filter (· ≠ space)).dropLast.Sublist (cstr buffer).dropLast := by
    rw [← List.reverse_sublist, ← List.tail_reverse, ← List.tail_reverse]
    exact (List.filter_sublist.reverse).tail
  have hnotMem := mt (fun hmem => hsublist.subset hmem) h
  rw [← hflatten, hws, List.flatten_append, List.flatten_cons,
    List.dropLast_append_of_ne_nil (by simp [ho]), List.mem_append, not_or] at hnotMem
  constructor
  . intro w hw hmem
    exact hnotMem.1 (List.mem_flatten.mpr ⟨w, hw, hmem⟩)
  . intro hmem
    apply hnotMem.2
    cases hrest : rest.flatten with
    | nil =>
      rw [List.append_nil]
      exact hmem
    | cons c rest' =>
      rw [List.dropLast_append_of_ne_nil (List.cons_ne_nil c rest')]
      exact List.mem_append_left _ (List.dropLast_subset o hmem)

theorem OneLine.legible (h : OneLine buffer) (henters : EntersWords (words space (cstr buffer)) info) :
    info.Legible := by
  cases henters with
  | zero hinfo =>
    rw [hinfo]
    exact legible_zero
  | words r c o rest hws ho hoif hinfo =>
    obtain ⟨hfront, hlast⟩ := h.notMem_words hws ho
    simp only [List.forall_mem_cons] at hfront
    rw [hoif] at hlast
    rw [hinfo]
    exact r.legible hfront.2.1 hfront.2.2.1 hfront.2.2.2.1 hlast

end Entered

/--
On the server and on a client, in every run with lines whose tokens fit their fields. If each of the lines has
no newline but its last character, the screen can be read back.
-/
theorem routes_shown (U : Locals → Prop) (destMask : Mem) :
    (∀ s, (Server.loop.ReachableVia (fun _ input => input.Entered U) s → CopiesInBounds s.head)
        ∧ (Server.loop.ReachableVia (fun _ input => input.Entered U ∧ input.OneLine) s →
          ShowsRoutes destMask s.head))
      ∧ ∀ t, (Tables.loop.ReachableVia (fun _ input => input.Entered U) t → CopiesInBounds t.head)
        ∧ (Tables.loop.ReachableVia (fun _ input => input.Entered U ∧ input.OneLine) t →
          ShowsRoutes destMask t.head) := by
  have hfits {u : Locals} {buffer : Mem} (hentered : Entered U u buffer) (info : DataInfo)
      (henters : Enters u buffer info) : info.KeyFits :=
    (hentered.entersWords henters).keyFits
  have hlegible {u : Locals} {buffer : Mem} (hok : Entered U u buffer ∧ OneLine buffer) (info : DataInfo)
      (henters : Enters u buffer info) : info.Legible :=
    hok.2.legible (hok.1.entersWords henters)
  refine ⟨fun s => ⟨?_, ?_⟩, fun t => ⟨?_, ?_⟩⟩
  . intro h
    exact copiesInBounds (Server.forall_of_reachable (fun _ _ => hfits) h)
  . intro h
    exact showsRoutes destMask (Server.forall_of_reachable (fun _ _ => hlegible) h)
  . intro h
    exact copiesInBounds (Tables.forall_of_reachable (fun _ _ => hfits) h)
  . intro h
    exact showsRoutes destMask (Tables.forall_of_reachable (fun _ _ => hlegible) h)

def withRoute : Server :=
  Server.oneClient.next (.console (.replying "") createRouteLine)

theorem routes_shown_createRouteLine :
    withRoute.head.length = 1 ∧ CopiesInBounds withRoute.head ∧ ShowsRoutes (text "left over") withRoute.head
      ∧ ∃ t, Tables.empty.next (.message .zero createRouteLine) = some t
        ∧ ShowsRoutes (text "left over") t.head := by
  have hline : OneLine createRouteLine := by decide +kernel
  have hserver : Server.loop.ReachableVia
      (fun _ input => input.Entered (· = Locals.zero) ∧ input.OneLine) withRoute :=
    .step (s := Server.oneClient) (i := .console (.replying "") createRouteLine) (.init rfl)
      ⟨entered_createRouteLine, hline⟩ rfl
  obtain ⟨t, ht⟩ := Option.isSome_iff_exists.mp
    (show (Tables.empty.next (.message .zero createRouteLine)).isSome = true by decide +kernel)
  have hclient : Tables.loop.ReachableVia
      (fun _ input => input.Entered (· = Locals.zero) ∧ input.OneLine) t :=
    .step (i := .message .zero createRouteLine) (.init rfl) ⟨entered_createRouteLine, hline⟩ ht
  obtain ⟨hshown, hshown'⟩ := routes_shown (· = Locals.zero) (text "left over")
  exact ⟨by decide +kernel, (hshown _).1 (hserver.mono fun _ _ hok => hok.1), (hshown _).2 hserver, t, ht,
    (hshown' t).2 hclient⟩

end RoutingTable
