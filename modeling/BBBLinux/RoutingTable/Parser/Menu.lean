import BBBLinux.RoutingTable.Parser.Grammar
import BBBLinux.RoutingTable.Parser.Uninitialized

/-!
This module contains what `check_format_input_string` makes of the lines of the menu: some are read as
what they say, some are read as something else and the others are rejected.
-/

namespace RoutingTable

open CString

def letterOpcode (x : UInt8) : Opcode :=
  if x = 'C'.toUInt8 then
    .create
  else if x = 'U'.toUInt8 then
    .update
  else if x = 'D'.toUInt8 then
    .delete
  else if x = 'S'.toUInt8 then
    .show
  else if x = 'F'.toUInt8 then
    .flush
  else
    .quit

/--
What a line of the menu says, given its words as they were typed.
-/
def meaning : List Mem → Option (Opcode × Entry)
  | [[x]] => some (letterOpcode x, .route (.ofFields [] [] [] []))
  | [[x], w] => some (letterOpcode x, .mac (.ofChars w))
  | [[x], d, m] => some (letterOpcode x, .route (.ofFields d m [] []))
  | [[x], d, m, g, o] => some (letterOpcode x, .route (.ofFields d m g o))
  | _ => none

/--
A MAC and an interface need the newline behind them, a mask that is the last word must not have it.
-/
inductive ReadRight (u : Locals) : List Mem → Prop where
  | mac {c w : Mem} (hletter : c.headD 0 ∈ text "CUD") : ReadRight u [c, w ++ [newline]]
  | route {c d m g o : Mem} (hletter : c.headD 0 ∈ text "CU") (hlt : m.length < maskSize)
      (hmask : checkMaskValid u m m.length = true) : ReadRight u [c, d, m, g, o ++ [newline]]
  | key {c d m : Mem} (hletter : c.headD 0 ∈ text "D") (hlast : m.getLast? ≠ some newline)
      (hlt : m.length < maskSize) (hmask : checkMaskValid u m m.length = true) : ReadRight u [c, d, m]
  | plain {c : Mem} {ws : List Mem} (hletter : c.headD 0 ∈ text "SFQ") : ReadRight u (c :: ws)

inductive ReadOtherwise (u : Locals) : List Mem → Prop where
  -- the last character of an interface is dropped although it is not the newline
  | route {c d m g o : Mem} {rest : List Mem} (hletter : c.headD 0 ∈ text "CU") (hlt : m.length < maskSize)
      (hmask : checkMaskValid u m m.length = true) (hnewline : newline ∈ o)
      (hend : o.getLast? = some newline → rest ≠ []) : ReadOtherwise u (c :: d :: m :: g :: o :: rest)
  -- the newline becomes a part of the mask
  | key {c d m : Mem} (hletter : c.headD 0 ∈ text "D") (hlength : m.length = 1) :
      ReadOtherwise u [c, d, m ++ [newline]]

variable {u : Locals} {c w d m g o : Mem} {ws rest : List Mem} {x : UInt8}

section Typed

theorem chomp_append_newline : chomp (w ++ [newline]) = w := by
  unfold chomp
  rw [if_pos (by simp), List.dropLast_concat]

theorem chomp_of_getLast (h : w.getLast? ≠ some newline) : chomp w = w := by
  unfold chomp
  rw [if_neg h]

theorem eq_append_newline (h : w.getLast? = some newline) : w = chomp w ++ [newline] := by
  cases chomp_cases w with
  | inl hsame => exact absurd h hsame.2
  | inr hchomp => exact hchomp

theorem typed_of_ne_nil (h : chomp w ≠ []) : typed [w] = [chomp w] := by
  rw [typed_singleton, if_neg h]

theorem typed_append_newline (h : w ≠ []) : typed [w ++ [newline]] = [w] := by
  rw [typed_of_ne_nil, chomp_append_newline]
  rw [chomp_append_newline]
  exact h

theorem typed_of_getLast (hne : w ≠ []) (h : w.getLast? ≠ some newline) : typed [w] = [w] := by
  have hchomp := chomp_of_getLast h
  rw [typed_of_ne_nil, hchomp]
  rw [hchomp]
  exact hne

end Typed

section Letters

theorem parseWords_createUpdate (hx : x ∈ text "CU") :
    parseWords u ([x] :: ws) = createUpdateWords u (letterOpcode x) (.start u) ws := by
  have hx : x ∈ [67, 85] := hx
  rw [List.mem_cons, List.mem_singleton] at hx
  rcases hx with hx | hx <;> rw [hx] <;> rfl

theorem parseWords_plain (hx : c.headD 0 ∈ text "SFQ") :
    parseWords u (c :: ws) = parseRoute (letterOpcode (c.headD 0)) true (.start u) .zero := by
  have hx : c.headD 0 ∈ [83, 70, 81] := hx
  rw [List.mem_cons, List.mem_cons, List.mem_singleton] at hx
  unfold parseWords
  dsimp only
  rcases hx with hx | hx | hx <;> rw [hx] <;> rfl

theorem letterOpcode_delete (hx : x ∈ text "D") : x = 'D'.toUInt8 ∧ letterOpcode x = .delete := by
  have hx : x ∈ [68] := hx
  rw [List.mem_singleton] at hx
  rw [hx]
  decide

theorem parseWords_singleArgument (hx : x ∈ text "CUD") :
    parseWords u [[x], w] = parseMac (letterOpcode x) (copyArgument (.start u) 0 w) .zero := by
  have hx : x ∈ [67, 85, 68] := hx
  rw [List.mem_cons, List.mem_cons, List.mem_singleton] at hx
  rcases hx with hx | hx | hx <;> rw [hx] <;> rfl

end Letters

section Words

theorem checkFormatMACAddress_append (h : IsMac w) : checkFormatMACAddress (w ++ [newline]) = true := by
  have ⟨hlength, hchars⟩ := h
  rw [checkFormatMACAddress_iff]
  constructor
  . intro i hi
    have hget : (w ++ [newline]).getD i 0 = w.getD i 0 := by
      rw [List.getD_eq_getElem?_getD, List.getD_eq_getElem?_getD, List.getElem?_append_left (by omega)]
    rw [hget]
    exact hchars i hi
  . rw [List.getD_eq_getElem?_getD, List.getElem?_append_right hlength.le, hlength, Nat.sub_self]
    rfl

theorem ofChars_append (h : w.length = macAddrLen - 1) :
    Mac.ofChars (bytes macAddrLen (w ++ [newline])) = .ofChars w := by
  have hcopy : bytes macAddrLen (w ++ [newline]) = w ++ [newline] := by
    have hsize : (w ++ [newline]).length = macAddrLen := by
      rw [List.length_append, h]
      rfl
    rw [← hsize, bytes_self]
  apply Mac.ext
  unfold Mac.ofChars
  dsimp only
  rw [hcopy, ← h, bytes_append, bytes_self]

theorem command_mac (hx : x ∈ text "CUD") (h : IsMac w) :
    (parseWords u [[x], w ++ [newline]]).command = some (letterOpcode x, .mac (.ofChars w)) := by
  have hcheck : checkFormatMACAddress (bytes macAddrLen (w ++ [newline])) = true := by
    rw [checkFormatMACAddress_bytes]
    exact checkFormatMACAddress_append h
  have hbuffer : (copyArgument (.start u) 0 (w ++ [newline])).copyBuffer
      = bytes macAddrLen (w ++ [newline]) := rfl
  rw [parseWords_singleArgument hx]
  unfold parseMac
  rw [hbuffer, if_pos hcheck, ofChars_append h.1]
  rfl

theorem command_route (hws : ∀ w ∈ [d, m, g, o], IsWord space w)
    (hfit : Fits (c :: d :: m :: g :: o :: rest)) (hx : x ∈ text "CU") (hlt : m.length < maskSize) (hmask : checkMaskValid u m m.length = true)
    (hd : IsAddress d) (hg : IsAddress g) (hnewline : newline ∈ o) :
    (parseWords u ([x] :: d :: m :: g :: o :: rest)).command
      = some (letterOpcode x, .route (.ofFields d m g o.dropLast)) := by
  have ho := hws o (by simp)
  let r : Route :=
    { destination := d
      mask := m
      gatewayIp := g
      oif := o.dropLast
      isWord_destination := hws d (by simp)
      isWord_mask := hws m (by simp)
      isWord_gatewayIp := hws g (by simp)
      space_notMem_oif := fun h => ho.delim_notMem (List.dropLast_subset o h)
      zero_notMem_oif := fun h => ho.zero_notMem (List.dropLast_subset o h)
      destination_lt := hfit.destination d rfl
      mask_lt := hlt
      gatewayIp_lt := hfit.gatewayIp g rfl
      oif_lt := hfit.oif o rfl
      isAddress_destination := hd
      isAddress_gatewayIp := hg }
  rw [parseWords_createUpdate hx]
  exact command_createUpdateWords r ho.zero_notMem hnewline rfl hmask rest

theorem command_key (hd : IsWord space d) (hm : IsWord space m) (hdlt : d.length < destSize)
    (hlt : m.length < maskSize) (haddress : IsAddress d) (hmask : checkMaskValid u m m.length = true) :
    (parseWords u [text "D", d, m]).command = some (.delete, .route (.ofFields d m [] [])) := by
  let k : RouteKey :=
    { destination := d
      mask := m
      isWord_destination := hd
      isWord_mask := hm
      destination_lt := hdlt
      mask_lt := hlt
      isAddress_destination := haddress }
  rw [parseWords_delete (by decide)]
  exact command_deleteWords k hmask

theorem isdigit_eq {x : UInt8} (h : isdigit x = true) : ∃ n < 10, x = .ofNat (48 + n) := by
  have hzero : '0'.toUInt8.toNat = 48 := rfl
  have hnine : '9'.toUInt8.toNat = 57 := rfl
  simp only [isdigit, Bool.and_eq_true, decide_eq_true_eq, UInt8.le_iff_toNat_le, hzero, hnine] at h
  refine ⟨x.toNat - 48, by omega, ?_⟩
  rw [← UInt8.toNat_inj, UInt8.toNat_ofNat']
  omega

/--
The newline keeps `atoi` from reading on.
-/
theorem checkMaskValid_digit (h : IsMask m) (hlength : m.length = 1) :
    checkMaskValid u (m ++ [newline]) (m ++ [newline]).length = true := by
  rw [List.length_eq_one_iff] at hlength
  obtain ⟨c, hm⟩ := hlength
  rw [hm] at h ⊢
  obtain ⟨n, hn, hc⟩ := isdigit_eq (h.2.1 c List.mem_cons_self)
  have hends : ∀ n < 10, ¬OpenEnded ([.ofNat (48 + n)] ++ [newline]) := by decide
  have hvalid : ∀ n < 10, checkMaskValid .zero ([.ofNat (48 + n)] ++ [newline]) 2 = true := by
    decide +kernel
  rw [hc, checkMaskValid_of_not_openEnded (u := .zero) (hends n hn)]
  exact hvalid n hn

theorem bytes_append_ne {z : UInt8} {k : Nat} (hlt : m.length < k) (hz : z ≠ 0) :
    bytes k (m ++ [z]) ≠ bytes k m := by
  intro h
  have hget : (bytes k (m ++ [z])).getD m.length 0 = (bytes k m).getD m.length 0 := by rw [h]
  rw [bytes_getD hlt, bytes_getD hlt, List.getD_eq_getElem?_getD, List.getD_eq_getElem?_getD] at hget
  rw [List.getElem?_append_right (Nat.le_refl _), Nat.sub_self] at hget
  rw [List.getElem?_eq_none (Nat.le_refl _)] at hget
  exact hz hget

theorem ofFields_inj {d' m' g' o' : Mem} (h : DataInfo.ofFields d m g o = .ofFields d' m' g' o') :
    bytes maskSize m = bytes maskSize m' ∧ bytes oifSize o = bytes oifSize o' := by
  have hmem := congrArg DataInfo.mem h
  unfold DataInfo.ofFields at hmem
  have ⟨_, hmem⟩ := List.append_inj hmem (by rw [bytes_length, bytes_length])
  have ⟨hmask, hmem⟩ := List.append_inj hmem (by rw [bytes_length, bytes_length])
  have ⟨_, hoif⟩ := List.append_inj hmem (by rw [bytes_length, bytes_length])
  exact ⟨hmask, hoif⟩

theorem Grammar.exists_meaning (h : Grammar ws) : ∃ command, meaning ws = some command := by
  cases h with
  | mac => exact ⟨_, rfl⟩
  | route => exact ⟨_, rfl⟩
  | key => exact ⟨_, rfl⟩
  | plain => exact ⟨_, rfl⟩

end Words

theorem ReadRight.command (h : ReadRight u ws) (hws : ∀ w ∈ ws, IsWord space w) (hfit : TokensFit ws)
    (hgrammar : Grammar (typed ws)) : (parseWords u ws).command = meaning (typed ws) := by
  cases h with
  | @mac c w hletter =>
    rw [typed_cons (by simp)] at hgrammar ⊢
    by_cases hw : w = []
    . rw [hw, List.nil_append, typed_singleton] at hgrammar
      cases hgrammar with
      | plain hx => exact absurd hletter (letters_plain hx)
    . rw [typed_append_newline hw] at hgrammar ⊢
      cases hgrammar with
      | mac hx hmac => exact command_mac hx hmac
  | @route c d m g o hletter hlt hmask =>
    have hfit := hfit.1 hletter (by simp)
    rw [typed_cons (by simp), typed_cons (by simp), typed_cons (by simp), typed_cons (by simp)] at hgrammar ⊢
    by_cases ho : o = []
    . rw [ho, List.nil_append, typed_singleton] at hgrammar
      cases hgrammar
    . rw [typed_append_newline ho] at hgrammar ⊢
      cases hgrammar with
      | route hx hd hm hg =>
        have hcommand := command_route (u := u) (fun w hw => hws w (List.mem_cons_of_mem _ hw)) hfit hx hlt
          hmask (isDotted_iff.mp hd).1 (isDotted_iff.mp hg).1 (by simp)
        rw [List.dropLast_concat] at hcommand
        exact hcommand
  | @key c d m hletter hlast hlt hmask =>
    have hfit := hfit.2 hletter rfl
    have hm := hws m (by simp)
    rw [typed_cons (by simp), typed_cons (by simp), typed_of_getLast hm.ne_nil hlast] at hgrammar ⊢
    cases hgrammar with
    | @key x _ _ hx hd =>
      have ⟨hx, hopcode⟩ := letterOpcode_delete hx
      have hcommand := command_key (hws d (by simp)) hm (hfit.destination d rfl) hlt (isDotted_iff.mp hd).1
        hmask
      have hmeaning : meaning [[x], d, m] = some (letterOpcode x, .route (.ofFields d m [] [])) := rfl
      rw [hmeaning, hopcode, hx]
      exact hcommand
  | plain hletter =>
    rw [(grammar_plain_iff hletter).mp hgrammar, parseWords_plain hletter, command_parseRoute, if_pos rfl]
    simp only [Parse.start, calloc_data, ofMem_layout]
    rfl

theorem typed_eq_singleton {v : Mem} (h : typed (o :: rest) = [v])
    (hend : o.getLast? = some newline → rest ≠ []) (ho : o ≠ []) : v = o := by
  cases rest with
  | nil =>
    have hlast : o.getLast? ≠ some newline := fun hlast => hend hlast rfl
    rw [typed_of_getLast ho hlast, List.cons.injEq] at h
    exact h.1.symm
  | cons w rest =>
    rw [typed_cons (by simp), List.cons.injEq] at h
    exact h.1.symm

theorem ReadOtherwise.command (h : ReadOtherwise u ws) (hws : ∀ w ∈ ws, IsWord space w)
    (hfit : TokensFit ws) (hgrammar : Grammar (typed ws)) :
    ∃ command, (parseWords u ws).command = some command ∧ meaning (typed ws) ≠ some command := by
  cases h with
  | @route c d m g o rest hletter hlt hmask hnewline hend =>
    have hfit := hfit.1 hletter (by simp)
    have ho := hws o (by simp)
    rw [typed_cons (by simp), typed_cons (by simp), typed_cons (by simp), typed_cons (by simp)] at hgrammar ⊢
    generalize htyped : typed (o :: rest) = vs at hgrammar
    cases hgrammar with
    | @route x _ _ _ v hx hd hm hg =>
      have hv := typed_eq_singleton htyped hend ho.ne_nil
      have hwords : ∀ w ∈ [d, m, g, o], IsWord space w := by
        intro w hw
        apply hws
        simp only [List.mem_cons, List.not_mem_nil, or_false] at hw ⊢
        tauto
      have hcommand := command_route hwords hfit hx hlt hmask (isDotted_iff.mp hd).1 (isDotted_iff.mp hg).1
        hnewline
      refine ⟨_, hcommand, ?_⟩
      rw [hv]
      intro heq
      simp only [meaning, Option.some.injEq, Prod.mk.injEq, Entry.route.injEq, true_and] at heq
      have hoif := (ofFields_inj heq).2
      have hsplit := List.dropLast_append_getLast ho.ne_nil
      have hlast : o.getLast ho.ne_nil ≠ 0 := by
        intro hzero
        apply ho.zero_notMem
        rw [← hzero]
        exact List.getLast_mem ho.ne_nil
      conv at hoif => lhs; rw [← hsplit]
      exact bytes_append_ne (hfit.oif o rfl) hlast hoif
  | @key c d m hletter hlength =>
    have hfit := hfit.2 hletter rfl
    have hne : m ≠ [] := List.ne_nil_of_length_pos (by omega)
    rw [typed_cons (by simp), typed_cons (by simp), typed_append_newline hne] at hgrammar ⊢
    cases hgrammar with
    | key hx hd hm =>
      have ⟨hx, hopcode⟩ := letterOpcode_delete hx
      have hlt : (m ++ [newline]).length < maskSize := by
        rw [List.length_append, hlength]
        decide
      have hcommand := command_key (hws d (by simp)) (hws _ (by simp)) (hfit.destination d rfl) hlt
        (isDotted_iff.mp hd).1 (checkMaskValid_digit (u := u) hm hlength)
      rw [hx]
      refine ⟨_, hcommand, ?_⟩
      intro heq
      simp only [meaning, Option.some.injEq, Prod.mk.injEq, Entry.route.injEq] at heq
      have hmlt : m.length < maskSize := by
        rw [hlength]
        decide
      exact bytes_append_ne hmlt newline_ne_zero (ofFields_inj heq.2).1.symm

theorem Accepted.read (h : Accepted u ws) (hfit : TokensFit ws) (hgrammar : Grammar (typed ws)) :
    ReadRight u ws ∨ ReadOtherwise u ws := by
  cases h with
  | blank => cases hgrammar
  | unread hletter => exact absurd hgrammar (not_grammar_unread hletter)
  | @mac c w hletter hmac =>
    left
    have hlength := ((grammar_mac_iff hletter hmac).mp hgrammar).2
    have hchomp := (isMac_chomp_iff hmac).mpr hlength
    rcases chomp_cases w with ⟨hsame, _⟩ | hw
    . have hlength' := hchomp.1
      rw [hsame, hlength] at hlength'
      contradiction
    . rw [hw]
      exact .mac hletter
  | @route c d m g o rest hletter hroute =>
    by_cases hend : o.getLast? = some newline → rest ≠ []
    . right
      exact .route hletter hroute.mask_lt hroute.mask hroute.oif hend
    . left
      rw [Classical.not_imp, not_not] at hend
      rw [hend.2, eq_append_newline hend.1]
      exact .route hletter hroute.mask_lt hroute.mask
  | @key c d m hletter hkey =>
    by_cases hlast : m.getLast? = some newline
    . right
      have hdlt := (hfit.2 hletter rfl).destination _ rfl
      have hmask := ((grammar_key_iff hletter hkey hdlt).mp hgrammar).2.2
      have hm := eq_append_newline hlast
      have hlt := hkey.mask_lt
      have hpos := List.length_pos_iff.mpr hmask.1
      rw [hm, List.length_append, List.length_singleton] at hlt
      rw [hm]
      unfold maskSize at hlt
      exact .key hletter (by omega)
    . left
      exact .key hletter hlast hkey.mask_lt hkey.mask
  | plain hletter =>
    left
    exact .plain hletter

theorem words_read (hws : ∀ w ∈ ws, IsWord space w) (hfit : TokensFit ws) (hgrammar : Grammar (typed ws)) :
    ((parseWords u ws).command = meaning (typed ws) ↔ ReadRight u ws)
      ∧ ((parseWords u ws).retVal = true ↔ ReadRight u ws ∨ ReadOtherwise u ws) := by
  have hread (h : (parseWords u ws).retVal = true) : ReadRight u ws ∨ ReadOtherwise u ws :=
    ((accepted_iff hws hfit).mp h).read hfit hgrammar
  have hright (h : ReadRight u ws) := h.command hws hfit hgrammar
  have hotherwise (h : ReadOtherwise u ws) := h.command hws hfit hgrammar
  obtain ⟨⟨op, e⟩, hmeaning⟩ := hgrammar.exists_meaning
  rw [hmeaning] at hright hotherwise ⊢
  constructor
  . constructor
    . intro h
      cases hread (Parsed.command_eq_some_iff.mp h).1 with
      | inl hread => exact hread
      | inr hread =>
        obtain ⟨command, hcommand, hne⟩ := hotherwise hread
        exact absurd (h.symm.trans hcommand) hne
    . exact hright
  . constructor
    . exact hread
    . rintro (h | h)
      . exact (Parsed.command_eq_some_iff.mp (hright h)).1
      . obtain ⟨⟨op, e⟩, hcommand, _⟩ := hotherwise h
        exact (Parsed.command_eq_some_iff.mp hcommand).1

/--
Which lines of the menu are read as what they say, and which are accepted at all.
-/
theorem menu_line_read (u : Locals) (line : Mem) (hfit : TokensFit (words space (cstr line)))
    (hgrammar : Grammar (typed (words space (cstr line)))) :
    ((parseLine u line).command = meaning (typed (words space (cstr line)))
        ↔ ReadRight u (words space (cstr line)))
      ∧ ((parseLine u line).retVal = true
        ↔ ReadRight u (words space (cstr line)) ∨ ReadOtherwise u (words space (cstr line))) := by
  rw [parseLine_eq]
  exact words_read isWord_words hfit hgrammar

theorem ReadRight.newline_not_last (h : ReadRight u [c, d, m]) (hletter : c.headD 0 ∈ text "D") :
    m.getLast? ≠ some newline := by
  cases h with
  | key _ hlast => exact hlast
  | plain hplain => exact absurd (letters_delete hletter).1 (letters_plain hplain)

theorem ReadOtherwise.length_eq_two (h : ReadOtherwise u [c, d, m]) : m.length = 2 := by
  generalize hm : m = m' at h
  cases h with
  | key _ hlength =>
    rw [List.length_append, hlength]
    rfl

def deleteTwoDigits : Mem :=
  text "D 10.0.0.0 24\n"

theorem menu_line_read_deleteTwoDigits : ¬(parseLine .zero deleteTwoDigits).retVal = true
    ∧ (parseLine .zero deleteTwoDigits).command
      ≠ some (.delete, .route (.ofFields (text "10.0.0.0") (text "24") [] [])) := by
  have hwords : words space (cstr deleteTwoDigits) = [text "D", text "10.0.0.0", text "24\n"] := by
    decide +kernel
  have htyped : typed [text "D", text "10.0.0.0", text "24\n"] = [text "D", text "10.0.0.0", text "24"] := by
    decide
  have hfit : TokensFit (words space (cstr deleteTwoDigits)) := by
    rw [hwords]
    have hfits : Fits [text "D", text "10.0.0.0", text "24\n"] := by
      constructor <;> decide
    exact ⟨fun _ _ => hfits, fun _ _ => hfits⟩
  have hgrammar : Grammar (typed (words space (cstr deleteTwoDigits))) := by
    rw [hwords, htyped]
    exact .key (by decide) (isDotted_iff.mpr (by decide +kernel)) (by decide +kernel)
  have hread := menu_line_read .zero deleteTwoDigits hfit hgrammar
  have hright : ¬ReadRight .zero [text "D", text "10.0.0.0", text "24\n"] := fun h =>
    h.newline_not_last (by decide) (by decide)
  have hotherwise : ¬ReadOtherwise .zero [text "D", text "10.0.0.0", text "24\n"] := fun h =>
    absurd h.length_eq_two (by decide)
  rw [hwords, htyped] at hread
  exact ⟨fun h => (hread.2.mp h).elim hright hotherwise, fun h => hright (hread.1.mp h)⟩

end RoutingTable
