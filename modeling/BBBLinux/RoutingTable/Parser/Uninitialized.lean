import BBBLinux.CString.Numeral
import BBBLinux.RoutingTable.Parser.Accepted

/-!
This module contains the lines for which `check_format_input_string` uses memory that nobody has written: the
buffer for the first argument where there is none, and what lies behind the copy of the mask where the
mask ends in the middle of a number.
-/

namespace RoutingTable

open CString

/--
Two runs that may only differ in `copy_buffer`, in `mask_size` and behind `mask_check`.
-/
structure Locals.Alike (u v : Locals) : Prop where
  afterDestTest : v.afterDestTest = u.afterDestTest
  afterGatewayTest : v.afterGatewayTest = u.afterGatewayTest
  afterMsgInfo : v.afterMsgInfo = u.afterMsgInfo

def keyParse (u : Locals) (d m : Mem) : Parse :=
  copyArgument (copyArgument (.start u) 0 d) 1 m

def routeParse (u : Locals) (d m g o : Mem) : Parse :=
  copyArgument (copyArgument (keyParse u d m) 2 g) 3 o

def checkKeyButMask (u : Locals) (p : Parse) : Bool :=
  p.retVal && checkDesIPValid u (p.data.drop destinationOff)

def checkRouteButMask (u : Locals) (p : Parse) : Bool :=
  p.retVal && checkDesIPValid u (p.data.drop destinationOff)
    && checkGatewayValid u (p.data.drop gatewayIpOff) && checkOIFValid (p.data.drop oifOff)

inductive ReadsGarbage (u : Locals) : List Mem → Prop where
  | unread {c : Mem} (hletter : c.headD 0 ∈ text "CUD") : ReadsGarbage u [c]
  | route {c d m g o : Mem} {rest : List Mem} (hletter : c.headD 0 ∈ text "CU") (hmask : OpenEnded m)
      (hchecks : checkRouteButMask u (routeParse u d m g o) = true) :
      ReadsGarbage u (c :: d :: m :: g :: o :: rest)
  | key {c d m : Mem} (hletter : c.headD 0 ∈ text "D") (hmask : OpenEnded m)
      (hchecks : checkKeyButMask u (keyParse u d m) = true) : ReadsGarbage u [c, d, m]

variable {u v : Locals} {p q : Parse} {c w d m g o : Mem} {ws rest : List Mem} {opcode : Opcode}

section Mask

theorem bytes_drop_memcpy {dst src : Mem} {off n k a : Nat} (hk : a + k ≤ off) (hoff : off ≤ dst.length) :
    bytes k ((memcpy dst off src n).drop a) = bytes k (dst.drop a) := by
  have hsplit : dst = dst.take off ++ dst.drop off := (List.take_append_drop off dst).symm
  have hlength : (dst.take off).length = off := by
    rw [List.length_take]
    omega
  have hbytes (x : Mem) : bytes k ((dst.take off ++ x).drop a) = ((dst.take off).drop a).take k := by
    rw [List.drop_append_of_le_length (by omega)]
    unfold bytes
    rw [List.take_append_of_le_length (by rw [List.length_drop]; omega)]
    rw [List.length_append, List.length_drop, hlength, Nat.sub_eq_zero_of_le (by omega)]
    simp
  unfold memcpy
  rw [hbytes]
  conv => rhs; rw [hsplit, hbytes]

theorem checkMaskValid_congr {x y : Mem} {n : Nat} (h : bytes n x = bytes n y) :
    checkMaskValid u x n = checkMaskValid u y n := by
  unfold checkMaskValid
  rw [h]

theorem mask_keyParse (hm : 0 ∉ m) (hretVal : (keyParse u d m).retVal = true) :
    m.length ≤ 2 ∧ (keyParse u d m).maskSize = m.length
      ∧ bytes m.length ((keyParse u d m).data.drop maskOff) = m := by
  obtain ⟨hlen, _⟩ := copyArgument_mask hretVal
  have hlength := length_copyArgument (w := d) 0 (length_start u)
  have hoff : maskOff ≤ (copyArgument (.start u) 0 d).data.length := by
    have : maskOff ≤ dataInfoSize := by decide
    omega
  have hstrlen := strlen_of_notMem hm
  rw [hstrlen] at hlen
  have hnot : ¬m.length > 2 := by omega
  unfold keyParse
  generalize copyArgument (.start u) 0 d = p at *
  simp only [copyArgument, hstrlen, if_neg hnot]
  refine ⟨hlen, trivial, ?_⟩
  rw [drop_memcpy hoff, ← hstrlen, bytes_strlen_succ, cstr_of_notMem hm, List.append_assoc, hstrlen,
    bytes_append]

theorem mask_routeParse (hm : 0 ∉ m) (hretVal : (routeParse u d m g o).retVal = true) :
    m.length ≤ 2 ∧ (routeParse u d m g o).maskSize = m.length
      ∧ bytes m.length ((routeParse u d m g o).data.drop maskOff) = m := by
  obtain ⟨hnewline, hretVal⟩ := copyArgument_oif hretVal
  have ⟨hlen, hsize, hbytes⟩ := mask_keyParse hm hretVal
  have hkey : dataInfoSize ≤ (keyParse u d m).data.length :=
    length_copyArgument 1 (length_copyArgument 0 (length_start u))
  have hgateway := length_copyArgument (w := g) 2 hkey
  have hchr : (strchr newline o).isSome = true := (strchr_isSome_iff newline_ne_zero).mpr hnewline
  rw [Option.isSome_iff_exists] at hchr
  have ⟨_, hchr⟩ := hchr
  refine ⟨hlen, ?_, ?_⟩
  . simp only [routeParse, copyArgument, hchr]
    exact hsize
  . have hoff : maskOff + 3 = gatewayIpOff ∧ gatewayIpOff ≤ oifOff ∧ oifOff ≤ dataInfoSize := by decide
    simp only [routeParse, copyArgument, hchr] at hgateway ⊢
    rw [bytes_drop_memcpy (by omega) (by omega), bytes_drop_memcpy (by omega) (by omega), hbytes]

end Mask

section Alike

theorem Locals.Alike.start (h : u.Alike v) : (Parse.start v).data = (Parse.start u).data := by
  simp only [Parse.start, Msg.calloc, h.afterMsgInfo]

theorem copyArgument_mask_congr (hretVal : p.retVal = q.retVal) (hcopyBuffer : p.copyBuffer = q.copyBuffer)
    (hdata : p.data = q.data) (hsave : p.save = q.save) : copyArgument p 1 m = copyArgument q 1 m := by
  simp only [copyArgument, hretVal, hcopyBuffer, hdata, hsave]

theorem Locals.Alike.keyParse (h : u.Alike v) : keyParse v d m = keyParse u d m := by
  apply copyArgument_mask_congr
  . rfl
  . rfl
  . simp only [copyArgument, h.start]
  . rfl

theorem Locals.Alike.routeParse (h : u.Alike v) : routeParse v d m g o = routeParse u d m g o := by
  unfold RoutingTable.routeParse
  rw [h.keyParse]

theorem Locals.Alike.checkKeyButMask (h : u.Alike v) : checkKeyButMask v p = checkKeyButMask u p := by
  unfold RoutingTable.checkKeyButMask checkDesIPValid
  rw [h.afterDestTest]

theorem Locals.Alike.checkRouteButMask (h : u.Alike v) :
    checkRouteButMask v p = checkRouteButMask u p := by
  unfold RoutingTable.checkRouteButMask checkDesIPValid checkGatewayValid
  rw [h.afterDestTest, h.afterGatewayTest]

end Alike

theorem checkKey_keyParse (hm : 0 ∉ m) : checkKey u (keyParse u d m)
    = (checkKeyButMask u (keyParse u d m) && checkMaskValid u m m.length) := by
  unfold checkKey checkKeyButMask
  cases hretVal : (keyParse u d m).retVal with
  | false => simp only [Bool.false_and]
  | true =>
    have ⟨_, hsize, hbytes⟩ := mask_keyParse hm hretVal
    rw [hsize, checkMaskValid_congr (hbytes.trans (bytes_self m).symm)]

theorem checkRoute_routeParse (hm : 0 ∉ m) : checkRoute u (routeParse u d m g o)
    = (checkRouteButMask u (routeParse u d m g o) && checkMaskValid u m m.length) := by
  unfold checkRoute checkRouteButMask
  cases hretVal : (routeParse u d m g o).retVal with
  | false => simp only [Bool.false_and]
  | true =>
    have ⟨_, hsize, hbytes⟩ := mask_routeParse hm hretVal
    rw [hsize, checkMaskValid_congr (hbytes.trans (bytes_self m).symm)]
    ac_rfl

theorem createUpdateWords_eq_routeParse (hm : 0 ∉ m) :
    createUpdateWords u opcode (.start u) (d :: m :: g :: o :: rest)
      = parseRoute opcode (checkRouteButMask u (routeParse u d m g o) && checkMaskValid u m m.length)
        (routeParse u d m g o) .zero := by
  rw [← checkRoute_routeParse hm]
  exact createUpdateWords_route

theorem deleteWords_eq_keyParse (hm : 0 ∉ m) : deleteWords u (.start u) [d, m]
    = parseRoute .delete (checkKeyButMask u (keyParse u d m) && checkMaskValid u m m.length)
      (keyParse u d m) .zero := by
  rw [← checkKey_keyParse hm]
  exact deleteWords_key

theorem checkMaskValid_of_not_openEnded (hm : ¬OpenEnded m) :
    checkMaskValid v m m.length = checkMaskValid u m m.length := by
  unfold checkMaskValid atoi
  rw [bytes_self, strtol_append hm, strtol_append hm]

theorem checkMaskValid_iff : checkMaskValid u m m.length = true
    ↔ 0 ≤ atoi (m ++ u.afterMaskCheck) ∧ atoi (m ++ u.afterMaskCheck) ≤ 32 := by
  unfold checkMaskValid
  rw [bytes_self]
  dsimp only
  split
  . next h =>
    simp only [Bool.or_eq_true, decide_eq_true_eq] at h
    apply iff_of_false Bool.false_ne_true
    omega
  . next h =>
    simp only [Bool.or_eq_true, decide_eq_true_eq] at h
    apply iff_of_true rfl
    omega

/--
What lies behind the mask can make it pass and can make it fail.
-/
theorem exists_checkMaskValid (u : Locals) (hmask : OpenEnded m) (hlength : m.length ≤ 2) :
    (∃ rest, checkMaskValid { u with afterMaskCheck := rest } m m.length = true)
      ∧ ∃ rest, checkMaskValid { u with afterMaskCheck := rest } m m.length = false := by
  constructor
  . have ⟨rest, hzero⟩ := hmask.exists_atoi_eq_zero (by omega)
    refine ⟨rest, checkMaskValid_iff.mpr ?_⟩
    dsimp only
    rw [hzero]
    omega
  . refine ⟨padded 2 99, ?_⟩
    rw [Bool.eq_false_iff, Ne, checkMaskValid_iff]
    have hout := hmask.atoi_append_99 (by omega)
    dsimp only
    omega

theorem parseMac_congr_of_data (hcopyBuffer : p.copyBuffer = q.copyBuffer) (hdata : p.data = q.data) :
    parseMac opcode p .zero = parseMac opcode q .zero := by
  unfold parseMac
  rw [hcopyBuffer, hdata]

theorem parseRoute_congr_of_data {retVal : Bool} (hdata : p.data = q.data) :
    parseRoute opcode retVal p .zero = parseRoute opcode retVal q .zero := by
  unfold parseRoute
  rw [hdata]

theorem createUpdateWords_alike (halike : u.Alike v) (hws : ∀ w ∈ ws, IsWord space w)
    (hletter : c.headD 0 ∈ text "CU") (hno : ¬ReadsGarbage u (c :: ws)) :
    createUpdateWords v opcode (.start v) ws = createUpdateWords u opcode (.start u) ws := by
  match ws with
  | [] => exact absurd (.unread (letters_createUpdate hletter).1) hno
  | [w] =>
    rw [createUpdateWords_singleton, createUpdateWords_singleton]
    apply parseMac_congr_of_data
    . rfl
    . simp only [copyArgument, halike.start]
  | [d, m] =>
    have hkey : keyParse v d m = keyParse u d m := halike.keyParse
    unfold keyParse at hkey
    rw [createUpdateWords_two, createUpdateWords_two, hkey]
  | [d, m, g] =>
    have hkey : keyParse v d m = keyParse u d m := halike.keyParse
    unfold keyParse at hkey
    rw [createUpdateWords_three, createUpdateWords_three, hkey]
  | d :: m :: g :: o :: rest =>
    have hm := (hws m (by simp)).zero_notMem
    rw [createUpdateWords_eq_routeParse hm, createUpdateWords_eq_routeParse hm, halike.routeParse,
      halike.checkRouteButMask]
    cases hchecks : checkRouteButMask u (routeParse u d m g o) with
    | false => simp only [Bool.false_and]
    | true =>
      have hmask : ¬OpenEnded m := fun hmask => hno (.route hletter hmask hchecks)
      rw [checkMaskValid_of_not_openEnded (u := u) hmask]

theorem deleteWords_alike (halike : u.Alike v) (hws : ∀ w ∈ ws, IsWord space w)
    (hletter : c.headD 0 ∈ text "D") (hno : ¬ReadsGarbage u (c :: ws)) :
    deleteWords v (.start v) ws = deleteWords u (.start u) ws := by
  match ws with
  | [] => exact absurd (.unread (letters_delete hletter).1) hno
  | [w] =>
    rw [deleteWords_singleton, deleteWords_singleton]
    apply parseMac_congr_of_data
    . rfl
    . simp only [copyArgument, halike.start]
  | [d, m] =>
    have hm := (hws m (by simp)).zero_notMem
    rw [deleteWords_eq_keyParse hm, deleteWords_eq_keyParse hm, halike.keyParse,
      halike.checkKeyButMask]
    cases hchecks : checkKeyButMask u (keyParse u d m) with
    | false => simp only [Bool.false_and]
    | true =>
      have hmask : ¬OpenEnded m := fun hmask => hno (.key hletter hmask hchecks)
      rw [checkMaskValid_of_not_openEnded (u := u) hmask]
  | d :: m :: _ :: _ =>
    have hkey : keyParse v d m = keyParse u d m := halike.keyParse
    unfold keyParse at hkey
    rw [deleteWords_more, deleteWords_more, hkey]

theorem parseWords_alike (halike : u.Alike v) (hws : ∀ w ∈ ws, IsWord space w)
    (hno : ¬ReadsGarbage u ws) : parseWords v ws = parseWords u ws := by
  cases ws with
  | nil => exact parseRoute_congr_of_data halike.start
  | cons c ws =>
    have hargs : ∀ w ∈ ws, IsWord space w := fun w hw => hws w (List.mem_cons_of_mem c hw)
    cases letter c ws with
    | createUpdate opcode _ hletter heq =>
      rw [heq, heq]
      exact createUpdateWords_alike halike hargs hletter hno
    | delete hletter heq =>
      rw [heq, heq]
      exact deleteWords_alike halike hargs hletter hno
    | plain opcode _ _ heq =>
      rw [heq, heq]
      exact parseRoute_congr_of_data halike.start
    | invalid _ heq =>
      rw [heq, heq]
      exact parseRoute_congr_of_data halike.start

theorem exists_alike_ne_of_unread (hletter : c.headD 0 ∈ text "CUD") :
    ∃ v v', u.Alike v ∧ u.Alike v' ∧ parseWords v [c] ≠ parseWords v' [c] := by
  have hretVal (v : Locals) : (parseWords v [c]).retVal = checkFormatMACAddress v.copyBuffer := by
    cases letter c [] with
    | createUpdate opcode _ _ heq =>
      rw [heq, createUpdateWords_nil, retVal_parseMac]
      rfl
    | delete _ heq =>
      rw [heq, deleteWords_nil, retVal_parseMac]
      rfl
    | plain _ _ hplain _ => exact absurd hletter (letters_plain hplain)
    | invalid hinvalid _ => exact absurd hletter (letters_invalid hinvalid).1
  refine ⟨{ u with copyBuffer := text "00:11:22:33:44:55\n" }, { u with copyBuffer := [] },
    ⟨rfl, rfl, rfl⟩, ⟨rfl, rfl, rfl⟩, ?_⟩
  intro heq
  have hsame := congrArg Parsed.retVal heq
  rw [hretVal, hretVal] at hsame
  dsimp only at hsame
  revert hsame
  decide

theorem exists_alike_ne_of_openEnded (hmask : OpenEnded m) (hlength : m.length ≤ 2)
    (hretVal : ∀ v, u.Alike v → (parseWords v ws).retVal = checkMaskValid v m m.length) :
    ∃ v v', u.Alike v ∧ u.Alike v' ∧ parseWords v ws ≠ parseWords v' ws := by
  have ⟨⟨passes, hpass⟩, ⟨fails, hfail⟩⟩ := exists_checkMaskValid u hmask hlength
  have hpasses : u.Alike { u with afterMaskCheck := passes } := ⟨rfl, rfl, rfl⟩
  have hfails : u.Alike { u with afterMaskCheck := fails } := ⟨rfl, rfl, rfl⟩
  refine ⟨_, _, hpasses, hfails, ?_⟩
  intro heq
  have hsame := congrArg Parsed.retVal heq
  rw [hretVal _ hpasses, hretVal _ hfails, hpass, hfail] at hsame
  contradiction

theorem ReadsGarbage.exists_alike_ne (h : ReadsGarbage u ws) (hws : ∀ w ∈ ws, IsWord space w) :
    ∃ v v', u.Alike v ∧ u.Alike v' ∧ parseWords v ws ≠ parseWords v' ws := by
  cases h with
  | unread hletter => exact exists_alike_ne_of_unread hletter
  | @route c d m g o rest hletter hmask hchecks =>
    have hm := (hws m (by simp)).zero_notMem
    have hretVal : (routeParse u d m g o).retVal = true := by
      simp only [checkRouteButMask, Bool.and_eq_true] at hchecks
      exact hchecks.1.1.1
    apply exists_alike_ne_of_openEnded hmask (mask_routeParse hm hretVal).1
    intro v halike
    cases letter c (d :: m :: g :: o :: rest) with
    | createUpdate opcode _ _ heq =>
      rw [heq, createUpdateWords_eq_routeParse hm, halike.routeParse, halike.checkRouteButMask, hchecks]
      exact Bool.true_and _
    | delete hdelete _ => exact absurd hdelete (letters_createUpdate hletter).2.1
    | plain _ _ hplain _ => exact absurd hplain (letters_createUpdate hletter).2.2
    | invalid hinvalid _ => exact absurd hletter (letters_invalid hinvalid).2.1
  | @key c d m hletter hmask hchecks =>
    have hm := (hws m (by simp)).zero_notMem
    have hretVal : (keyParse u d m).retVal = true := by
      simp only [checkKeyButMask, Bool.and_eq_true] at hchecks
      exact hchecks.1
    apply exists_alike_ne_of_openEnded hmask (mask_keyParse hm hretVal).1
    intro v halike
    cases letter c [d, m] with
    | createUpdate _ _ hcreate _ => exact absurd hcreate (letters_delete hletter).2.1
    | delete _ heq =>
      rw [heq, deleteWords_eq_keyParse hm, halike.keyParse, halike.checkKeyButMask, hchecks]
      exact Bool.true_and _
    | plain _ _ hplain _ => exact absurd hplain (letters_delete hletter).2.2
    | invalid hinvalid _ => exact absurd hletter (letters_invalid hinvalid).2.2.1

theorem parser_deterministic_unless_reads_garbage (u : Locals) (line : Mem) :
    (∀ v v', u.Alike v → u.Alike v' → parseLine v line = parseLine v' line)
      ↔ ¬ReadsGarbage u (words space (cstr line)) := by
  simp only [parseLine_eq]
  constructor
  . intro h hgarbage
    have ⟨v, v', hv, hv', hne⟩ := hgarbage.exists_alike_ne isWord_words
    exact hne (h v v' hv hv')
  . intro hno v v' hv hv'
    rw [parseWords_alike hv isWord_words hno, parseWords_alike hv' isWord_words hno]

def openMask : Mem :=
  text "C 10.0.0.0 8 10.0.0.1 eth0\n"

theorem parseLine_openMask_ne :
    ¬∀ u v line, u.Alike v → parseLine u line = parseLine v line := by
  intro h
  have heq := h .zero { Locals.zero with afterMaskCheck := text "9" } openMask ⟨rfl, rfl, rfl⟩
  have hsame := congrArg Parsed.retVal heq
  revert hsame
  decide +kernel

end RoutingTable
