import BBBLinux.RoutingTable.Parser.Route

/-!
This module contains the lines that `check_format_input_string` accepts, case by case.
-/

namespace RoutingTable

open CString

/--
What a route is checked for, in the order of its words: the destination, the mask, the gateway and the
interface.
-/
structure AcceptsRoute (u : Locals) (d m g o : Mem) : Prop where
  destination : IsAddress d
  mask_lt : m.length < maskSize
  mask : checkMaskValid u m m.length = true
  gatewayIp : IsAddress g
  oif : newline ∈ o

structure AcceptsKey (u : Locals) (d m : Mem) : Prop where
  destination : IsAddress d
  mask_lt : m.length < maskSize
  mask : checkMaskValid u m m.length = true

inductive Accepted (u : Locals) : List Mem → Prop where
  | blank : Accepted u []
  -- the buffer for the first argument is checked although nothing was copied to it
  | unread {c : Mem} (hletter : c.headD 0 ∈ text "CUD")
      (hmac : checkFormatMACAddress u.copyBuffer = true) : Accepted u [c]
  | mac {c w : Mem} (hletter : c.headD 0 ∈ text "CUD") (hmac : checkFormatMACAddress w = true) :
      Accepted u [c, w]
  | route {c d m g o : Mem} {rest : List Mem} (hletter : c.headD 0 ∈ text "CU")
      (hroute : AcceptsRoute u d m g o) : Accepted u (c :: d :: m :: g :: o :: rest)
  | key {c d m : Mem} (hletter : c.headD 0 ∈ text "D") (hkey : AcceptsKey u d m) :
      Accepted u [c, d, m]
  | plain {c : Mem} {ws : List Mem} (hletter : c.headD 0 ∈ text "SFQ") : Accepted u (c :: ws)

variable {u : Locals} {c w d m g o : Mem} {ws rest : List Mem} {opcode : Opcode}

theorem checkFormatMACAddress_bytes :
    checkFormatMACAddress (bytes macAddrLen w) = checkFormatMACAddress w := by
  have hget {i : Nat} (hi : i < macAddrLen) : (bytes macAddrLen w).getD i 0 = w.getD i 0 :=
    bytes_getD hi
  rw [Bool.eq_iff_iff, checkFormatMACAddress_iff, checkFormatMACAddress_iff, hget (by decide)]
  apply and_congr_left
  intro _
  apply forall_congr'
  intro i
  apply imp_congr_right
  intro hi
  rw [hget (by unfold macAddrLen at hi ⊢; omega)]

theorem retVal_parseMac {p : Parse} :
    (parseMac opcode p .zero).retVal = checkFormatMACAddress p.copyBuffer := by
  unfold parseMac
  split
  . next h => exact h.symm
  . next h => simpa using h

section Arguments

theorem createUpdateWords_nil : createUpdateWords u opcode (.start u) []
    = parseMac opcode { Parse.start u with retVal := false } .zero := rfl

theorem createUpdateWords_singleton : createUpdateWords u opcode (.start u) [w]
    = parseMac opcode (copyArgument (.start u) 0 w) .zero := rfl

theorem deleteWords_nil : deleteWords u (.start u) []
    = parseMac .delete { Parse.start u with retVal := false } .zero := rfl

theorem deleteWords_singleton : deleteWords u (.start u) [w]
    = parseMac .delete (copyArgument (.start u) 0 w) .zero := rfl

theorem createUpdateWords_route : createUpdateWords u opcode (.start u) (d :: m :: g :: o :: rest) =
    let p := copyArgument (copyArgument (copyArgument (copyArgument (.start u) 0 d) 1 m) 2 g) 3 o
    parseRoute opcode (checkRoute u p) p .zero := rfl

theorem deleteWords_key : deleteWords u (.start u) [d, m] =
    let p := copyArgument (copyArgument (.start u) 0 d) 1 m
    parseRoute .delete (checkKey u p) p .zero := rfl

theorem createUpdateWords_two : createUpdateWords u opcode (.start u) [d, m] =
    let p := copyArgument (copyArgument (.start u) 0 d) 1 m
    parseRoute opcode false { p with retVal := false } .zero := by
  simp only [createUpdateWords, readWords]
  rfl

theorem createUpdateWords_three : createUpdateWords u opcode (.start u) [d, m, g] =
    let p := copyArgument (copyArgument (copyArgument (.start u) 0 d) 1 m) 2 g
    parseRoute opcode false { p with retVal := false } .zero := by
  simp only [createUpdateWords, readWords]
  rfl

theorem deleteWords_more : deleteWords u (.start u) (d :: m :: w :: ws) =
    let p := copyArgument (copyArgument (.start u) 0 d) 1 m
    parseRoute .delete false { p with retVal := false } .zero := by
  have hchecks (p : Parse) : checkKey u { p with retVal := false } = false :=
    checkKey_of_not_retVal rfl
  simp only [deleteWords, readWords, hchecks, reduceCtorEq, if_false]

theorem retVal_copied : (parseMac opcode (copyArgument (.start u) 0 w) .zero).retVal
    = checkFormatMACAddress w := by
  rw [retVal_parseMac]
  exact checkFormatMACAddress_bytes

theorem retVal_createUpdateWords (hws : ∀ w ∈ d :: m :: g :: o :: rest, IsWord space w)
    (hdlt : d.length < destSize) (hglt : g.length < gatewSize)
    (holt : newline ∈ o → o.dropLast.length ≤ oifSize) :
    (createUpdateWords u opcode (.start u) (d :: m :: g :: o :: rest)).retVal = true
      ↔ AcceptsRoute u d m g o := by
  have hd := hws d (by simp)
  have hm := hws m (by simp)
  have hg := hws g (by simp)
  have ho := hws o (by simp)
  have hoif : 0 ∉ o.dropLast := fun h => ho.zero_notMem (List.dropLast_subset o h)
  rw [createUpdateWords_route]
  dsimp only [parseRoute]
  constructor
  . intro h
    obtain ⟨hnewline, hretVal⟩ := copyArgument_oif (retVal_of_checkRoute h)
    have hmlt := mask_lt_of_copyArgument hm.zero_notMem hretVal
    rw [cstr_of_notMem ho.zero_notMem] at hnewline
    rw [copyArgument_route hd.zero_notMem hm.zero_notMem hg.zero_notMem ho.zero_notMem hdlt hmlt hglt
      (holt hnewline) hnewline] at h
    rw [checkRoute_layout hd.zero_notMem hg.zero_notMem hoif hdlt hmlt hglt (holt hnewline)] at h
    exact ⟨h.1, hmlt, h.2.1, h.2.2, hnewline⟩
  . intro h
    rw [copyArgument_route hd.zero_notMem hm.zero_notMem hg.zero_notMem ho.zero_notMem hdlt h.mask_lt
      hglt (holt h.oif) h.oif]
    rw [checkRoute_layout hd.zero_notMem hg.zero_notMem hoif hdlt h.mask_lt hglt (holt h.oif)]
    exact ⟨h.destination, h.mask, h.gatewayIp⟩

theorem retVal_deleteWords (hd : IsWord space d) (hm : IsWord space m) (hdlt : d.length < destSize) :
    (deleteWords u (.start u) [d, m]).retVal = true ↔ AcceptsKey u d m := by
  rw [deleteWords_key]
  dsimp only [parseRoute]
  constructor
  . intro h
    have hmlt := mask_lt_of_copyArgument hm.zero_notMem (retVal_of_checkKey h)
    rw [copyArgument_key hd.zero_notMem hm.zero_notMem hdlt hmlt] at h
    rw [checkKey_layout hd.zero_notMem hdlt hmlt] at h
    exact ⟨h.1, hmlt, h.2⟩
  . intro h
    rw [copyArgument_key hd.zero_notMem hm.zero_notMem hdlt h.mask_lt]
    rw [checkKey_layout hd.zero_notMem hdlt h.mask_lt]
    exact ⟨h.destination, h.mask⟩

end Arguments

theorem letters_createUpdate {x : UInt8} (h : x ∈ text "CU") :
    x ∈ text "CUD" ∧ x ∉ text "D" ∧ x ∉ text "SFQ" := by
  have h : x ∈ [67, 85] := h
  rw [List.mem_cons, List.mem_singleton] at h
  rcases h with hx | hx <;> rw [hx] <;> decide

theorem letters_delete {x : UInt8} (h : x ∈ text "D") :
    x ∈ text "CUD" ∧ x ∉ text "CU" ∧ x ∉ text "SFQ" := by
  have h : x ∈ [68] := h
  rw [List.mem_singleton] at h
  rw [h]
  decide

theorem letters_plain {x : UInt8} (h : x ∈ text "SFQ") : x ∉ text "CUD" := by
  have h : x ∈ [83, 70, 81] := h
  rw [List.mem_cons, List.mem_cons, List.mem_singleton] at h
  rcases h with hx | hx | hx <;> rw [hx] <;> decide

theorem accepted_createUpdate_iff (hws : ∀ w ∈ ws, IsWord space w) (hfit : 2 ≤ ws.length → Fits (c :: ws))
    (hletter : c.headD 0 ∈ text "CU") :
    (createUpdateWords u opcode (.start u) ws).retVal = true ↔ Accepted u (c :: ws) := by
  have ⟨hany, hdelete, hplain⟩ := letters_createUpdate hletter
  match ws with
  | [] =>
    rw [createUpdateWords_nil, retVal_parseMac]
    constructor
    . exact .unread hany
    . intro h
      cases h with
      | unread _ hmac => exact hmac
      | plain hletter => exact absurd hletter hplain
  | [w] =>
    rw [createUpdateWords_singleton, retVal_copied]
    constructor
    . exact .mac hany
    . intro h
      cases h with
      | mac _ hmac => exact hmac
      | plain hletter => exact absurd hletter hplain
  | [_, _] =>
    rw [createUpdateWords_two]
    apply iff_of_false Bool.false_ne_true
    intro h
    cases h with
    | key hletter => exact hdelete hletter
    | plain hletter => exact hplain hletter
  | [_, _, _] =>
    rw [createUpdateWords_three]
    apply iff_of_false Bool.false_ne_true
    intro h
    cases h with
    | plain hletter => exact hplain hletter
  | d :: m :: g :: o :: rest =>
    have hfit := hfit (by simp)
    rw [retVal_createUpdateWords hws (hfit.destination d rfl) (hfit.gatewayIp g rfl)
      fun _ => (hfit.oif o rfl).le]
    constructor
    . exact .route hletter
    . intro h
      cases h with
      | route _ hroute => exact hroute
      | plain hletter => exact absurd hletter hplain

theorem accepted_delete_iff (hws : ∀ w ∈ ws, IsWord space w) (hfit : ws.length = 2 → Fits (c :: ws))
    (hletter : c.headD 0 ∈ text "D") :
    (deleteWords u (.start u) ws).retVal = true ↔ Accepted u (c :: ws) := by
  have ⟨hany, hroute, hplain⟩ := letters_delete hletter
  match ws with
  | [] =>
    rw [deleteWords_nil, retVal_parseMac]
    constructor
    . exact .unread hany
    . intro h
      cases h with
      | unread _ hmac => exact hmac
      | plain hletter => exact absurd hletter hplain
  | [w] =>
    rw [deleteWords_singleton, retVal_copied]
    constructor
    . exact .mac hany
    . intro h
      cases h with
      | mac _ hmac => exact hmac
      | plain hletter => exact absurd hletter hplain
  | [d, m] =>
    rw [retVal_deleteWords (hws d (by simp)) (hws m (by simp)) ((hfit rfl).destination d rfl)]
    constructor
    . exact .key hletter
    . intro h
      cases h with
      | key _ hkey => exact hkey
      | plain hletter => exact absurd hletter hplain
  | _ :: _ :: _ :: _ =>
    rw [deleteWords_more]
    apply iff_of_false Bool.false_ne_true
    intro h
    cases h with
    | route hletter => exact hroute hletter
    | plain hletter => exact hplain hletter

theorem letters_invalid {x : UInt8} (h : x ∉ text "CUDSFQ") :
    x ∉ text "CUD" ∧ x ∉ text "CU" ∧ x ∉ text "D" ∧ x ∉ text "SFQ" := by
  have hsub {l : Mem} (hl : l ⊆ text "CUDSFQ") : x ∉ l := fun hx => h (hl hx)
  exact ⟨hsub (by decide), hsub (by decide), hsub (by decide), hsub (by decide)⟩

theorem accepted_iff (hws : ∀ w ∈ ws, IsWord space w) (hfit : TokensFit ws) :
    (parseWords u ws).retVal = true ↔ Accepted u ws := by
  cases ws with
  | nil => exact iff_of_true rfl .blank
  | cons c ws =>
    have hargs : ∀ w ∈ ws, IsWord space w := fun w hw => hws w (List.mem_cons_of_mem c hw)
    cases letter c ws with
    | createUpdate opcode _ hletter heq =>
      rw [heq]
      apply accepted_createUpdate_iff hargs (hfit.1 hletter) hletter
    | delete hletter heq =>
      rw [heq]
      apply accepted_delete_iff hargs (hfit.2 hletter) hletter
    | plain opcode _ hletter heq =>
      rw [heq]
      exact iff_of_true rfl (.plain hletter)
    | invalid hletter heq =>
      rw [heq]
      have ⟨hany, hroute, hdelete, hplain⟩ := letters_invalid hletter
      apply iff_of_false Bool.false_ne_true
      intro h
      cases h with
      | unread hletter => exact hany hletter
      | mac hletter => exact hany hletter
      | route hletter => exact hroute hletter
      | key hletter => exact hdelete hletter
      | plain hletter => exact hplain hletter

end RoutingTable
