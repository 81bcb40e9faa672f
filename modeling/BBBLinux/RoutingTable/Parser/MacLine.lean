import BBBLinux.RoutingTable.Parser.Grammar
import Mathlib.Data.List.GetD

/-!
This module contains the lines that `check_format_input_string` takes for a MAC address: those with a
single argument that consists of six pairs of hexadecimal digits.
-/

namespace RoutingTable

open CString

def colon : UInt8 :=
  ':'.toUInt8

def IsPair (pair : Mem) : Prop :=
  pair.length = 2 ∧ ∀ c ∈ pair, isxdigit c = true

def IsMacToken (w : Mem) : Prop :=
  ∃ pairs chars, pairs.length = 6 ∧ (∀ pair ∈ pairs, IsPair pair) ∧ Joined colon pairs chars
    ∧ w = chars ++ [newline]

section Pairs

variable {pair w rest : Mem} {n : Nat} {a b : UInt8}

def InPairs (n : Nat) (w : Mem) : Prop :=
  ∃ pairs, pairs.length = n ∧ (∀ pair ∈ pairs, IsPair pair) ∧ Joined colon pairs w

def GroupedAt (w : Mem) (i : Nat) : Prop :=
  if i % 3 ≠ 2 then isxdigit (w.getD i 0) = true else w.getD i 0 = colon

theorem isPair_iff : IsPair pair ↔ ∃ a b, pair = [a, b] ∧ isxdigit a = true ∧ isxdigit b = true := by
  constructor
  . intro ⟨hlength, hdigits⟩
    rw [List.length_eq_two] at hlength
    have ⟨a, b, hpair⟩ := hlength
    rw [hpair] at hdigits
    exact ⟨a, b, hpair, hdigits a (by simp), hdigits b (by simp)⟩
  . intro ⟨a, b, hpair, ha, hb⟩
    rw [hpair]
    refine ⟨rfl, ?_⟩
    simp [ha, hb]

theorem IsPair.colon_notMem (h : IsPair pair) : colon ∉ pair := by
  intro hmem
  have hdigit := h.2 colon hmem
  revert hdigit
  decide

theorem IsPair.ne_nil (h : IsPair pair) : pair ≠ [] := by
  intro hnil
  have hlength := h.1
  rw [hnil] at hlength
  contradiction

theorem inPairs_one_iff :
    InPairs 1 w ↔ ∃ a b, w = [a, b] ∧ isxdigit a = true ∧ isxdigit b = true := by
  constructor
  . intro ⟨pairs, hlength, hpairs, hjoined⟩
    rw [List.length_eq_one_iff] at hlength
    have ⟨pair, hpair⟩ := hlength
    rw [hpair, joined_singleton] at hjoined
    rw [hjoined.1]
    exact isPair_iff.mp (hpairs pair (by simp [hpair]))
  . intro h
    have hpair : IsPair w := isPair_iff.mpr h
    refine ⟨[w], rfl, by simpa using hpair, ?_⟩
    rw [joined_singleton]
    exact ⟨rfl, hpair.ne_nil, hpair.colon_notMem⟩

theorem inPairs_succ_iff : InPairs (n + 2) w ↔ ∃ a b rest, w = a :: b :: colon :: rest
    ∧ isxdigit a = true ∧ isxdigit b = true ∧ InPairs (n + 1) rest := by
  constructor
  . intro ⟨pairs, hlength, hpairs, hjoined⟩
    cases pairs with
    | nil => contradiction
    | cons pair pairs =>
      have hrest : pairs.length = n + 1 := Nat.succ.inj hlength
      have hne : pairs ≠ [] := by
        intro hnil
        rw [hnil] at hrest
        contradiction
      rw [joined_cons hne] at hjoined
      have ⟨_, rest, hw, hjoined⟩ := hjoined
      have ⟨a, b, hpair, ha, hb⟩ := isPair_iff.mp (hpairs pair List.mem_cons_self)
      rw [hpair] at hw
      refine ⟨a, b, rest, hw, ha, hb, pairs, hrest, ?_, hjoined⟩
      exact fun pair hmem => hpairs pair (List.mem_cons_of_mem _ hmem)
  . intro ⟨a, b, rest, hw, ha, hb, pairs, hlength, hpairs, hjoined⟩
    have hpair : IsPair [a, b] := isPair_iff.mpr ⟨a, b, rfl, ha, hb⟩
    have hne : pairs ≠ [] := by
      intro hnil
      rw [hnil] at hlength
      contradiction
    refine ⟨[a, b] :: pairs, by simp [hlength], ?_, ?_⟩
    . rw [List.forall_mem_cons]
      exact ⟨hpair, hpairs⟩
    . rw [joined_cons hne]
      exact ⟨⟨hpair.ne_nil, hpair.colon_notMem⟩, rest, hw, hjoined⟩

theorem groupedAt_add_three : GroupedAt (a :: b :: colon :: rest) (n + 3) ↔ GroupedAt rest n := by
  unfold GroupedAt
  rw [Nat.add_mod_right]
  rfl

/--
The positions that the check goes through one by one are those of the digits and colons.
-/
theorem inPairs_iff :
    InPairs (n + 1) w ↔ w.length = 3 * n + 2 ∧ ∀ i < 3 * n + 2, GroupedAt w i := by
  induction n generalizing w with
  | zero =>
    rw [inPairs_one_iff]
    constructor
    . intro ⟨a, b, hw, ha, hb⟩
      rw [hw]
      refine ⟨rfl, ?_⟩
      intro i hi
      match i with
      | 0 => exact ha
      | 1 => exact hb
    . intro ⟨hlength, hgrouped⟩
      have ⟨a, b, hw⟩ := List.length_eq_two.mp hlength
      rw [hw] at hgrouped
      exact ⟨a, b, hw, hgrouped 0 (by omega), hgrouped 1 (by omega)⟩
  | succ n ih =>
    rw [inPairs_succ_iff]
    constructor
    . intro ⟨a, b, rest, hw, ha, hb, hrest⟩
      have ⟨hlength, hgrouped⟩ := ih.mp hrest
      rw [hw]
      refine ⟨by simp [hlength, Nat.mul_add], ?_⟩
      intro i hi
      match i with
      | 0 => exact ha
      | 1 => exact hb
      | 2 => rfl
      | i + 3 => exact groupedAt_add_three.mpr (hgrouped i (by omega))
    . intro ⟨hlength, hgrouped⟩
      match w with
      | [] | [_] | [_, _] =>
        simp only [List.length_cons, List.length_nil] at hlength
        omega
      | a :: b :: c :: rest =>
        have hcolon : c = colon := hgrouped 2 (by omega)
        rw [hcolon] at hgrouped ⊢
        refine ⟨a, b, rest, rfl, hgrouped 0 (by omega), hgrouped 1 (by omega), ih.mpr ?_⟩
        constructor
        . simp only [List.length_cons] at hlength
          omega
        . intro i hi
          exact groupedAt_add_three.mp (hgrouped (i + 3) (by omega))

end Pairs

variable {u : Locals} {line c w w' : Mem} {ws : List Mem} {opcode : Opcode} {p : Parse}

theorem isMacToken_iff :
    IsMacToken w ↔ checkFormatMACAddress w = true ∧ w.length = macAddrLen := by
  have hchars (chars : Mem) : InPairs 6 chars ↔ chars.length = macAddrLen - 1
      ∧ ∀ i < macAddrLen - 1, GroupedAt chars i := inPairs_iff
  have hgrouped {chars : Mem} (hlength : chars.length = macAddrLen - 1) :
      checkFormatMACAddress (chars ++ [newline]) = true ↔ ∀ i < macAddrLen - 1, GroupedAt chars i := by
    have hlast : (chars ++ [newline]).getD (macAddrLen - 1) 0 = newline := by
      rw [← hlength, List.getD_append_right _ _ _ _ (Nat.le_refl _), Nat.sub_self]
      rfl
    rw [checkFormatMACAddress_iff, and_iff_left hlast]
    apply forall_congr'
    intro i
    apply imp_congr_right
    intro hi
    rw [List.getD_append _ _ _ _ (by omega)]
    rfl
  constructor
  . intro ⟨pairs, chars, hlength, hpairs, hjoined, hw⟩
    have ⟨hsize, hall⟩ := (hchars chars).mp ⟨pairs, hlength, hpairs, hjoined⟩
    rw [hw, hgrouped hsize, List.length_append, hsize]
    exact ⟨hall, rfl⟩
  . intro ⟨hcheck, hlength⟩
    have hsize := ((isMac_chomp_iff hcheck).mpr hlength).1
    have hw : w = chomp w ++ [newline] := by
      rcases chomp_cases w with ⟨hsame, _⟩ | hchomp
      . rw [hsame] at hsize
        exact absurd (hlength.symm.trans hsize) (by decide)
      . exact hchomp
    rw [hw, hgrouped hsize] at hcheck
    have ⟨pairs, hlength, hpairs, hjoined⟩ := (hchars (chomp w)).mpr ⟨hsize, hcheck⟩
    exact ⟨pairs, chomp w, hlength, hpairs, hjoined, hw⟩

/--
Where the check finds its newline the line ends.
-/
theorem length_of_checkFormatMACAddress (hnewline : newline ∉ (cstr line).dropLast)
    (hw : w ∈ words space (cstr line)) (hcheck : checkFormatMACAddress w = true) :
    w.length = macAddrLen := by
  have hle := lt_length_of_checkFormatMACAddress hcheck
  have hlast := (checkFormatMACAddress_iff.mp hcheck).2
  have ⟨_, _, a, b, hline⟩ := mem_words hw
  have hindex : macAddrLen - 1 < w.length := by
    unfold macAddrLen at hle ⊢
    omega
  rw [List.getD_eq_getElem _ _ hindex] at hlast
  have hdrop : w.drop (macAddrLen - 1) = newline :: w.drop macAddrLen := by
    rw [List.drop_eq_getElem_cons hindex, hlast]
    rfl
  have hsplit := List.take_append_drop (macAddrLen - 1) w
  rw [hdrop] at hsplit
  cases hrest : w.drop macAddrLen with
  | nil =>
    rw [List.drop_eq_nil_iff] at hrest
    omega
  | cons x rest =>
    refine absurd ?_ hnewline
    rw [hline, ← hsplit, hrest]
    have hshape : a ++ (w.take (macAddrLen - 1) ++ newline :: x :: rest) ++ b
        = (a ++ w.take (macAddrLen - 1) ++ [newline]) ++ (x :: (rest ++ b)) := by simp
    rw [hshape, List.dropLast_append_of_ne_nil (by simp)]
    simp

theorem bytes_eq_take {n : Nat} (h : n ≤ w.length) : bytes n w = w.take n := by
  rw [bytes, Nat.sub_eq_zero_of_le h, List.replicate_zero, List.append_nil]

theorem mac_ofChars_bytes (h : macAddrLen ≤ w.length) :
    (Mac.ofChars (bytes macAddrLen w)).mac = w.take (macAddrLen - 1) ++ [0] := by
  have hlength : macAddrLen - 1 ≤ (w.take macAddrLen).length := by
    rw [List.length_take]
    omega
  rw [bytes_eq_take h, Mac.ofChars]
  dsimp only
  rw [bytes_eq_take hlength, List.take_take]
  rfl

theorem parseMac_spec : (parseMac opcode p .zero).isRtMac = .isMac
    ∧ (parseMac opcode p .zero).retVal = checkFormatMACAddress p.copyBuffer
    ∧ (checkFormatMACAddress p.copyBuffer = true →
        (parseMac opcode p .zero).macAddr = .ofChars p.copyBuffer) := by
  unfold parseMac
  cases checkFormatMACAddress p.copyBuffer with
  | true => exact ⟨rfl, rfl, fun _ => rfl⟩
  | false => exact ⟨rfl, rfl, fun h => absurd h Bool.false_ne_true⟩

theorem parseWords_argument (hletter : c.headD 0 ∈ text "CUD") :
    ∃ opcode, parseWords u [c, w] = parseMac opcode (copyArgument (.start u) 0 w) .zero := by
  cases letter c [w] with
  | createUpdate opcode _ _ heq => exact ⟨opcode, (heq u).trans createUpdateWords_singleton⟩
  | delete _ heq => exact ⟨.delete, (heq u).trans deleteWords_singleton⟩
  | plain _ _ hplain _ => exact absurd hletter (letters_plain hplain)
  | invalid hinvalid _ => exact absurd hletter (letters_invalid hinvalid).1

theorem isRtMac_arguments : (parseWords u (c :: w :: w' :: ws)).isRtMac = .isRt := by
  cases letter c (w :: w' :: ws) with
  | createUpdate opcode _ _ heq =>
    rw [heq]
    match ws with
    | [] =>
      rw [createUpdateWords_two]
      rfl
    | [_] =>
      rw [createUpdateWords_three]
      rfl
    | _ :: _ :: _ =>
      rw [createUpdateWords_route]
      rfl
  | delete _ heq =>
    rw [heq]
    match ws with
    | [] =>
      rw [deleteWords_key]
      rfl
    | _ :: _ =>
      rw [deleteWords_more]
      rfl
  | plain _ _ _ heq =>
    rw [heq]
    rfl
  | invalid _ heq =>
    rw [heq]
    rfl

theorem mac_lines_recognised (hnewline : newline ∉ (cstr line).dropLast) :
    (∀ c w, words space (cstr line) = [c, w] → c.headD 0 ∈ text "CUD" →
        ((parseLine u line).isRtMac = .isMac ∧ (parseLine u line).retVal = true ↔ IsMacToken w)
          ∧ (IsMacToken w → (parseLine u line).macAddr.mac = w.take (macAddrLen - 1) ++ [0]))
      ∧ ∀ c w w' ws, words space (cstr line) = c :: w :: w' :: ws →
          (parseLine u line).isRtMac ≠ .isMac := by
  rw [parseLine_eq]
  constructor
  . intro c w hwords hletter
    have hmem : w ∈ words space (cstr line) := by simp [hwords]
    have hcopy : checkFormatMACAddress (copyArgument (.start u) 0 w).copyBuffer
        = checkFormatMACAddress w := checkFormatMACAddress_bytes
    have ⟨opcode, hparse⟩ := @parseWords_argument u c w hletter
    have ⟨hisMac, hret, hmac⟩ := @parseMac_spec opcode (copyArgument (.start u) 0 w)
    have htoken : IsMacToken w ↔ checkFormatMACAddress w = true := by
      rw [isMacToken_iff]
      exact and_iff_left_of_imp (length_of_checkFormatMACAddress hnewline hmem)
    rw [hwords, hparse, hisMac, hret, hcopy, htoken]
    refine ⟨and_iff_right rfl, ?_⟩
    intro hcheck
    have hle := lt_length_of_checkFormatMACAddress hcheck
    rw [hmac (hcopy.trans hcheck)]
    exact mac_ofChars_bytes hle
  . intro c w w' ws hwords
    rw [hwords, isRtMac_arguments]
    exact RtMac.noConfusion

def spacedMacLine : Mem :=
  text "U  00:aA:22:33:44:5F\n"

theorem mac_lines_recognised_spacedMacLine :
    (parseLine .zero spacedMacLine).isRtMac = .isMac ∧ (parseLine .zero spacedMacLine).retVal = true
      ∧ (parseLine .zero spacedMacLine).macAddr.mac = text "00:aA:22:33:44:5F" ++ [0] := by
  have hwords : words space (cstr spacedMacLine) = [text "U", text "00:aA:22:33:44:5F\n"] := by
    decide +kernel
  have htoken : IsMacToken (text "00:aA:22:33:44:5F\n") :=
    isMacToken_iff.mpr ⟨by decide +kernel, by decide⟩
  have hnewline : newline ∉ (cstr spacedMacLine).dropLast := by decide +kernel
  have ⟨hiff, hmac⟩ := (@mac_lines_recognised .zero _ hnewline).1 _ _ hwords (by decide)
  have ⟨hisMac, hret⟩ := hiff.mpr htoken
  exact ⟨hisMac, hret, hmac htoken⟩

end RoutingTable
