import BBBLinux.RoutingTable.Parser.Impl

/-!
This module contains the command lines as lists of words. `check_format_input_string` only depends on
the words of its line: neither the blanks between them nor what lies behind the terminating NUL
matter.
-/

namespace RoutingTable

open CString

def readWords (p : Parse) (index : Nat) (ws : List Mem) : Nat → Arguments × List Mem
  | 0 => (.read p, ws)
  | count + 1 =>
    match ws with
    | [] =>
      if index = 1 then
        (.noSecond p, [])
      else
        readWords { p with retVal := false } (index + 1) [] count
    | w :: ws => readWords (copyArgument p index w) (index + 1) ws count

def createUpdateWords (u : Locals) (opcode : Opcode) (p : Parse) (ws : List Mem) : Parsed :=
  match readWords p 0 ws 4 with
  | (.noSecond p, _) => parseMac opcode p .zero
  | (.read p, _) => parseRoute opcode (checkRoute u p) p .zero

def deleteWords (u : Locals) (p : Parse) (ws : List Mem) : Parsed :=
  match readWords p 0 ws 2 with
  | (.noSecond p, _) => parseMac .delete p .zero
  | (.read p, rest) =>
    let p := if rest = [] then p else { p with retVal := false }
    parseRoute .delete (checkKey u p) p .zero

def Parse.start (u : Locals) : Parse where
  retVal := true
  maskSize := u.maskSize
  copyBuffer := u.copyBuffer
  data := (Msg.calloc u).data
  save := []

def parseWords (u : Locals) : List Mem → Parsed
  | [] => parseRoute .create true (.start u) .zero
  | w :: ws =>
    let c := w.headD 0
    if c = 'C'.toUInt8 then
      createUpdateWords u .create (.start u) ws
    else if c = 'U'.toUInt8 then
      createUpdateWords u .update (.start u) ws
    else if c = 'D'.toUInt8 then
      deleteWords u (.start u) ws
    else if c = 'S'.toUInt8 then
      parseRoute .show true (.start u) .zero
    else if c = 'F'.toUInt8 then
      parseRoute .flush true (.start u) .zero
    else if c = 'Q'.toUInt8 then
      parseRoute .quit true (.start u) .zero
    else
      parseRoute .create false (.start u) .zero

section Letters

variable {u : Locals} {c : Mem} {ws : List Mem}

theorem parseWords_create (h : c.headD 0 = 'C'.toUInt8) :
    parseWords u (c :: ws) = createUpdateWords u .create (.start u) ws := by
  unfold parseWords
  dsimp only
  rw [if_pos h]

theorem parseWords_update (h : c.headD 0 = 'U'.toUInt8) :
    parseWords u (c :: ws) = createUpdateWords u .update (.start u) ws := by
  unfold parseWords
  dsimp only
  rw [h, if_neg (by decide), if_pos rfl]

theorem parseWords_delete (h : c.headD 0 = 'D'.toUInt8) :
    parseWords u (c :: ws) = deleteWords u (.start u) ws := by
  unfold parseWords
  dsimp only
  rw [h, if_neg (by decide), if_neg (by decide), if_pos rfl]

/--
The first letter of a line decides how its arguments are read.
-/
inductive Letter (c : Mem) (ws : List Mem) : Prop where
  | createUpdate (opcode : Opcode) (hopcode : opcode = .create ∨ opcode = .update)
      (hletter : c.headD 0 ∈ text "CU")
      (heq : ∀ u, parseWords u (c :: ws) = createUpdateWords u opcode (.start u) ws) : Letter c ws
  | delete (hletter : c.headD 0 ∈ text "D")
      (heq : ∀ u, parseWords u (c :: ws) = deleteWords u (.start u) ws) : Letter c ws
  | plain (opcode : Opcode) (hopcode : opcode = .show ∨ opcode = .flush ∨ opcode = .quit)
      (hletter : c.headD 0 ∈ text "SFQ")
      (heq : ∀ u, parseWords u (c :: ws) = parseRoute opcode true (.start u) .zero) : Letter c ws
  | invalid (hletter : c.headD 0 ∉ text "CUDSFQ")
      (heq : ∀ u, parseWords u (c :: ws) = parseRoute .create false (.start u) .zero) : Letter c ws

theorem letter (c : Mem) (ws : List Mem) : Letter c ws := by
  by_cases hc : c.headD 0 = 'C'.toUInt8
  . exact .createUpdate .create (.inl rfl) (by rw [hc]; decide) fun u => parseWords_create hc
  by_cases hu : c.headD 0 = 'U'.toUInt8
  . exact .createUpdate .update (.inr rfl) (by rw [hu]; decide) fun u => parseWords_update hu
  by_cases hd : c.headD 0 = 'D'.toUInt8
  . exact .delete (by rw [hd]; decide) fun u => parseWords_delete hd
  by_cases hs : c.headD 0 = 'S'.toUInt8
  . refine .plain .show (.inl rfl) (by rw [hs]; decide) fun u => ?_
    unfold parseWords
    dsimp only
    rw [if_neg hc, if_neg hu, if_neg hd, if_pos hs]
  by_cases hf : c.headD 0 = 'F'.toUInt8
  . refine .plain .flush (.inr (.inl rfl)) (by rw [hf]; decide) fun u => ?_
    unfold parseWords
    dsimp only
    rw [if_neg hc, if_neg hu, if_neg hd, if_neg hs, if_pos hf]
  by_cases hq : c.headD 0 = 'Q'.toUInt8
  . refine .plain .quit (.inr (.inr rfl)) (by rw [hq]; decide) fun u => ?_
    unfold parseWords
    dsimp only
    rw [if_neg hc, if_neg hu, if_neg hd, if_neg hs, if_neg hf, if_pos hq]
  . apply Letter.invalid
    . have htext : text "CUDSFQ" = ['C'.toUInt8, 'U'.toUInt8, 'D'.toUInt8, 'S'.toUInt8, 'F'.toUInt8,
          'Q'.toUInt8] := by decide
      rw [htext]
      simp only [List.mem_cons, List.not_mem_nil, or_false, not_or]
      exact ⟨hc, hu, hd, hs, hf, hq⟩
    . intro u
      unfold parseWords
      dsimp only
      rw [if_neg hc, if_neg hu, if_neg hd, if_neg hs, if_neg hf, if_neg hq]

end Letters

theorem space_ne_zero : space ≠ 0 := by
  decide

theorem dot_ne_zero : dot ≠ 0 := by
  decide

theorem newline_ne_zero : newline ≠ 0 := by
  decide

section MAC

variable {a b m : Mem} {i : Nat}

theorem getD_cstr (h : i < strlen m) : (cstr m).getD i 0 = m.getD i 0 := by
  unfold strlen at h
  cases eq_cstr_append m with
  | inl heq => rw [← heq]
  | inr heq =>
    have ⟨rest, heq⟩ := heq
    generalize cstr m = w at h heq ⊢
    rw [heq, List.getD_eq_getElem?_getD, List.getD_eq_getElem?_getD, List.getElem?_append_left h]

theorem isxdigit_zero : isxdigit 0 = false := by
  decide

theorem le_strlen_of_nonzero {n : Nat} (h : ∀ i < n, m.getD i 0 ≠ 0) : n ≤ strlen m := by
  induction n generalizing m with
  | zero => omega
  | succ n ih =>
    have hhead := h 0 (by omega)
    cases m with
    | nil => simp at hhead
    | cons x m =>
      simp only [List.getD_cons_zero] at hhead
      unfold strlen
      rw [cstr_cons hhead, List.length_cons]
      apply Nat.succ_le_succ
      apply ih
      intro i hi
      have := h (i + 1) (by omega)
      simpa using this

theorem checkFormatMACAddress_iff : checkFormatMACAddress m = true ↔
    (∀ i < macAddrLen - 1, (if i % 3 ≠ 2 then isxdigit (m.getD i 0) = true
        else m.getD i 0 = ':'.toUInt8)) ∧ m.getD (macAddrLen - 1) 0 = newline := by
  simp only [checkFormatMACAddress, Bool.and_eq_true, List.all_eq_true, List.mem_range,
    decide_eq_true_eq]
  apply and_congr_left'
  apply forall_congr'
  intro i
  apply imp_congr_right
  intro _
  split <;> simp

theorem le_strlen_of_checkFormatMACAddress (h : checkFormatMACAddress m = true) :
    macAddrLen ≤ strlen m := by
  rw [checkFormatMACAddress_iff] at h
  apply le_strlen_of_nonzero
  intro i hi heq
  by_cases hlast : i = macAddrLen - 1
  . rw [← hlast, heq] at h
    exact absurd h.2.symm newline_ne_zero
  . have hlt : i < macAddrLen - 1 := by
      unfold macAddrLen at hi hlast ⊢
      omega
    have := h.1 i hlt
    rw [heq] at this
    split at this
    . rw [isxdigit_zero] at this
      contradiction
    . have hcolon : (0 : UInt8) ≠ ':'.toUInt8 := by decide
      contradiction

theorem checkFormatMACAddress_cstr : checkFormatMACAddress (cstr m) = checkFormatMACAddress m := by
  have hof (m n : Mem) (hlen : macAddrLen ≤ strlen m) (hn : ∀ i < strlen m, n.getD i 0 = m.getD i 0)
      (h : checkFormatMACAddress m = true) : checkFormatMACAddress n = true := by
    rw [checkFormatMACAddress_iff] at h ⊢
    unfold macAddrLen at *
    constructor
    . intro i hi
      rw [hn i (by omega)]
      exact h.1 i hi
    . rw [hn _ (by omega)]
      exact h.2
  rw [Bool.eq_iff_iff]
  constructor
  . intro h
    have hlen := le_strlen_of_checkFormatMACAddress h
    apply hof _ _ hlen _ h
    intro i hi
    rw [strlen_cstr] at hi
    rw [getD_cstr hi]
  . intro h
    have hlen := le_strlen_of_checkFormatMACAddress h
    exact hof _ _ hlen (fun i hi => getD_cstr hi) h

theorem checkFormatMACAddress_congr (h : cstr a = cstr b) :
    checkFormatMACAddress a = checkFormatMACAddress b := by
  rw [← checkFormatMACAddress_cstr, h, checkFormatMACAddress_cstr]

theorem Mac.ofChars_congr (h : cstr a = cstr b) (ha : macAddrLen ≤ strlen a) :
    Mac.ofChars a = Mac.ofChars b := by
  have hb : macAddrLen ≤ strlen b := by
    unfold strlen at ha ⊢
    rw [← h]
    exact ha
  unfold macAddrLen at ha hb
  apply Mac.ext
  unfold ofChars
  simp only
  rw [bytes_of_le_strlen, bytes_of_le_strlen, h]
  . unfold macAddrLen
    omega
  . unfold macAddrLen
    omega

end MAC

/--
Two states of the parser that differ in nothing that matters: the position of `strtok`, and the bytes
of the copied argument behind its end.
-/
structure Parse.Same (p q : Parse) : Prop where
  retVal : p.retVal = q.retVal
  maskSize : p.maskSize = q.maskSize
  copyBuffer : cstr p.copyBuffer = cstr q.copyBuffer
  data : p.data = q.data

inductive Arguments.Same : Arguments → Arguments × List Mem → Prop where
  | read {p q : Parse} (h : p.Same q) :
      Arguments.Same (.read p) (.read q, words space (cstr p.save))
  | noSecond {p q : Parse} (h : p.Same q) (rest : List Mem) :
      Arguments.Same (.noSecond p) (.noSecond q, rest)

variable {u : Locals} {p q : Parse} {t w : Mem} {index count : Nat} {opcode : Opcode}

theorem bytes_congr (h : cstr t = cstr w) : bytes (strlen t + 1) t = bytes (strlen w + 1) w := by
  rw [bytes_strlen_succ, bytes_strlen_succ, h]

theorem strlen_congr (h : cstr t = cstr w) : strlen t = strlen w := by
  unfold strlen
  rw [h]

theorem memcpy_congr {dst : Mem} {off n : Nat} (h : bytes n t = bytes n w) :
    memcpy dst off t n = memcpy dst off w n := by
  unfold memcpy
  rw [h]

theorem Parse.Same.copyArgument (h : p.Same q) (ht : cstr t = cstr w) :
    (copyArgument p index t).Same (copyArgument q index w) := by
  have hlen := strlen_congr ht
  have hbytes : bytes (strlen w + 1) t = bytes (strlen w + 1) w := by
    rw [← hlen, bytes_congr ht, hlen]
  unfold RoutingTable.copyArgument
  split
  . constructor
    . exact h.retVal
    . exact h.maskSize
    . simp only [cstr_bytes, ht]
    . simp only [hlen, h.data, memcpy_congr hbytes]
  . simp only [hlen]
    split
    . exact ⟨rfl, rfl, h.copyBuffer, h.data⟩
    . constructor
      . exact h.retVal
      . rfl
      . exact h.copyBuffer
      . simp only [h.data, memcpy_congr hbytes]
  . constructor
    . exact h.retVal
    . exact h.maskSize
    . exact h.copyBuffer
    . simp only [hlen, h.data, memcpy_congr hbytes]
  . have hchr : (strchr newline t).isSome = (strchr newline w).isSome := by
      rw [Bool.eq_iff_iff, strchr_isSome_iff newline_ne_zero, strchr_isSome_iff newline_ne_zero, ht]
    cases htchr : strchr newline t with
    | none =>
      rw [htchr, Option.isSome_none, eq_comm, Option.isSome_eq_false_iff] at hchr
      rw [Option.isNone_iff_eq_none] at hchr
      rw [hchr]
      exact ⟨rfl, h.maskSize, h.copyBuffer, h.data⟩
    | some _ =>
      rw [htchr, Option.isSome_some, eq_comm, Option.isSome_iff_exists] at hchr
      have ⟨_, hwchr⟩ := hchr
      have htake : bytes (strlen w - 1) t = bytes (strlen w - 1) w := by
        rw [bytes_of_le_strlen, bytes_of_le_strlen, ht]
        . omega
        . omega
      rw [hwchr]
      constructor
      . exact h.retVal
      . exact h.maskSize
      . exact h.copyBuffer
      . simp only [hlen, h.data, memcpy_congr htake]
  . exact h

theorem save_copyArgument : (copyArgument p index t).save = p.save := by
  unfold copyArgument
  split
  . rfl
  . simp only
    split <;> rfl
  . rfl
  . split <;> rfl
  . rfl

theorem readArguments_same (h : p.Same q) (index count : Nat) :
    (readArguments p index count).Same (readWords q index (words space (cstr p.save)) count) := by
  induction count generalizing p q index with
  | zero => exact .read h
  | succ count ih =>
    unfold readArguments
    cases strtok_spec space_ne_zero p.save with
    | inl hnone =>
      rw [hnone.1, hnone.2]
      unfold readWords
      simp only
      split
      . exact .noSecond h []
      . rw [← hnone.2]
        apply ih
        exact ⟨rfl, h.maskSize, h.copyBuffer, h.data⟩
    | inr hsome =>
      have ⟨t, save, htok, _, hwords⟩ := hsome
      rw [htok, hwords]
      unfold readWords
      simp only
      have hsave : (copyArgument { p with save := save } index t).save = save := save_copyArgument
      conv => rhs; rw [← hsave]
      apply ih
      have hsame : Parse.Same { p with save := save } q := ⟨h.retVal, h.maskSize, h.copyBuffer, h.data⟩
      apply hsame.copyArgument
      rw [cstr_cstr]

theorem parseMac_congr (h : p.Same q) : parseMac opcode p .zero = parseMac opcode q .zero := by
  unfold parseMac
  rw [checkFormatMACAddress_congr h.copyBuffer, h.data]
  split
  . next hmac =>
    rw [← checkFormatMACAddress_congr h.copyBuffer] at hmac
    rw [Mac.ofChars_congr h.copyBuffer (le_strlen_of_checkFormatMACAddress hmac)]
  . rfl

theorem checkRoute_congr (h : p.Same q) : checkRoute u p = checkRoute u q := by
  unfold checkRoute
  rw [h.retVal, h.data, h.maskSize]

theorem checkKey_congr (h : p.Same q) : checkKey u p = checkKey u q := by
  unfold checkKey
  rw [h.retVal, h.data, h.maskSize]

theorem parseRoute_congr {retVal : Bool} (h : p.Same q) :
    parseRoute opcode retVal p .zero = parseRoute opcode retVal q .zero := by
  unfold parseRoute
  rw [h.data]

theorem parseCreateUpdate_eq (h : p.Same q) : parseCreateUpdate u opcode p .zero
    = createUpdateWords u opcode q (words space (cstr p.save)) := by
  unfold parseCreateUpdate createUpdateWords
  have hsame := readArguments_same h 0 4
  revert hsame
  generalize readArguments p 0 4 = args
  generalize readWords q 0 (words space (cstr p.save)) 4 = args'
  intro hsame
  cases hsame with
  | read h =>
    simp only
    rw [checkRoute_congr h, parseRoute_congr h]
  | noSecond h rest => apply parseMac_congr h

theorem parseDelete_eq (h : p.Same q) :
    parseDelete u p .zero = deleteWords u q (words space (cstr p.save)) := by
  unfold parseDelete deleteWords
  have hsame := readArguments_same h 0 2
  revert hsame
  generalize readArguments p 0 2 = args
  generalize readWords q 0 (words space (cstr p.save)) 2 = args'
  intro hsame
  cases hsame with
  | @read p q h =>
    simp only
    cases strtok_spec space_ne_zero p.save with
    | inl hnone =>
      rw [if_pos hnone.1, if_pos hnone.2, checkKey_congr h, parseRoute_congr h]
    | inr hsome =>
      have ⟨t, save, htok, _, hwords⟩ := hsome
      have hsame : Parse.Same { p with retVal := false } { q with retVal := false } :=
        ⟨rfl, h.maskSize, h.copyBuffer, h.data⟩
      rw [if_neg (by simp [htok]), if_neg (by simp [hwords])]
      rw [checkKey_congr hsame, parseRoute_congr hsame]
  | noSecond h rest => apply parseMac_congr h

theorem parseLine_eq (u : Locals) (line : Mem) :
    parseLine u line = parseWords u (words space (cstr line)) := by
  unfold parseLine checkFormatInputString
  simp only
  cases strtok_spec space_ne_zero line with
  | inl hnone =>
    rw [hnone.1, hnone.2]
    rfl
  | inr hsome =>
    have ⟨t, save, htok, _, hwords⟩ := hsome
    rw [htok, hwords]
    unfold parseWords
    simp only [cstr_headD]
    have hsame : Parse.Same
        { retVal := true, maskSize := u.maskSize, copyBuffer := u.copyBuffer
          data := (Msg.calloc u).data, save := save } (.start u) := ⟨rfl, rfl, rfl, rfl⟩
    rw [parseCreateUpdate_eq hsame, parseCreateUpdate_eq hsame, parseDelete_eq hsame]
    rfl

end RoutingTable
