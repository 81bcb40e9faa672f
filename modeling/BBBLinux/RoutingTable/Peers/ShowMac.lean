import BBBLinux.RoutingTable.Peers.Impl
import Mathlib.Algebra.Order.Ring.Int
import Mathlib.Data.List.GetD

/-!
This module contains `show_mac_info`, which looks the IPs of the MAC table up in the shared memory, and
the tables for which it prints the right ones.
-/

namespace RoutingTable

open CString

def getIPFromShm (calls : ShmCalls) (shm : Shm) (mac ip : Mem) : Option (Bool × Mem × Shm) :=
  if calls.shmOpen = false then
    some (false, ip, shm)
  else
    -- O_CREAT
    let contents := (shm (cstr mac)).getD []
    let shm : Shm := fun name => if name = cstr mac then some contents else shm name
    if calls.mmap = false then
      some (false, ip, shm)
    else if contents = [] then
      -- SIGBUS, there is no page behind the end of an empty object
      none
    else if calls.munmap = false then
      some (false, memcpy ip 0 contents ipAddrLen, shm)
    else
      some (true, memcpy ip 0 contents ipAddrLen, shm)

/--
`strlen(ip_value) - 1` in a `size_t` of this many bits.
-/
def copiedLength (bits ipLength : Nat) : Nat :=
  (ipLength + (2 ^ bits - 1)) % 2 ^ bits

-- what a row meets: how the calls end and what lies behind its two buffers
structure RowLocals where
  calls : ShmCalls
  afterIPValue : Mem
  afterCopyIPValue : Mem

structure MacRow where
  found : Bool
  ipLength : Nat
  copied : Nat
  -- nothing when the copy runs over its buffers
  printed : Option (Mem × Mem)
  deriving DecidableEq

def showRows (bits : Nat) (locals : Nat → RowLocals) (shm : Shm) (copyIPValue : Mem) :
    List Mac → List MacRow
  | [] => []
  | ptr :: rest =>
    let ipValue := List.replicate ipAddrLen 0
    match getIPFromShm (locals 0).calls shm ptr.mac ipValue with
    | none => []
    | some (found, ipValue, shm) =>
      let ipLength := strlen (ipValue ++ (locals 0).afterIPValue)
      let copied := copiedLength bits ipLength
      if copied > ipAddrLen then
        [{ found := found, ipLength := ipLength, copied := copied, printed := none }]
      else
        let copyIPValue := memcpy copyIPValue 0 ipValue copied
        let printed := cstr (copyIPValue ++ (locals 0).afterCopyIPValue)
        { found := found
          ipLength := ipLength
          copied := copied
          printed := some (cstr ptr.mac, printed) }
          :: showRows bits (fun i => locals (i + 1)) shm copyIPValue rest

def showMacInfo (bits : Nat) (locals : Nat → RowLocals) (shm : Shm) (copyIPValue : Mem)
    (head : List Mac) : List MacRow :=
  showRows bits locals shm (bytes ipAddrLen copyIPValue) head

def storedIP (shm : Shm) (ptr : Mac) : Mem :=
  cstr ((shm (cstr ptr.mac)).getD [])

structure IsStored (shm : Shm) (ptr : Mac) : Prop where
  isSome : (shm (cstr ptr.mac)).isSome = true
  pos : 0 < (storedIP shm ptr).length
  length_lt : (storedIP shm ptr).length < ipAddrLen
  newline : (storedIP shm ptr).getLast? = some newline

structure ShowsOwnIP (shm : Shm) (head : List Mac) (rows : List MacRow) : Prop where
  printed : rows.map MacRow.printed
    = head.map fun ptr => some (cstr ptr.mac, (storedIP shm ptr).dropLast)
  notWrapped : ∀ row ∈ rows, row.found = false → (row.copied : Int) = row.ipLength - 1

def RowLocals.LooksUp (l : RowLocals) : Prop :=
  l.calls.shmOpen = true ∧ l.calls.mmap = true

section Lookup

variable {calls : ShmCalls} {shm : Shm} {ptr : Mac} {ip m rest : Mem} {bits : Nat} {l : RowLocals}

theorem copiedLength_pos {ipLength : Nat} (hpos : 0 < ipLength) (hlt : ipLength ≤ 2 ^ bits) :
    copiedLength bits ipLength = ipLength - 1 := by
  have hsum : ipLength + (2 ^ bits - 1) = ipLength - 1 + 2 ^ bits := by omega
  unfold copiedLength
  rw [hsum, Nat.add_mod_right]
  apply Nat.mod_eq_of_lt
  omega

theorem copiedLength_zero : copiedLength bits 0 = 2 ^ bits - 1 := by
  have hpos : 0 < 2 ^ bits := Nat.two_pow_pos bits
  unfold copiedLength
  rw [Nat.zero_add]
  apply Nat.mod_eq_of_lt
  omega

theorem cstr_bytes_append (h : strlen m < ipAddrLen) : cstr (bytes ipAddrLen m ++ rest) = cstr m := by
  have hcstr : cstr (bytes ipAddrLen m) = cstr m := by
    rw [cstr_bytes]
    exact List.take_of_length_le h.le
  rcases eq_cstr_append (bytes ipAddrLen m) with heq | ⟨_, heq⟩
  . have hlength := congrArg List.length heq
    rw [bytes_length, hcstr] at hlength
    exact absurd hlength h.ne'
  . rw [heq, hcstr, List.append_assoc, List.cons_append, cstr_append_zero zero_notMem_cstr]

theorem shm_of_open {name contents : Mem} (h : shm name = some contents) :
    (fun name' => if name' = name then some contents else shm name') = shm := by
  funext name'
  split
  . next heq => rw [heq, h]
  . rfl

theorem getIPFromShm_of_looksUp (hstored : IsStored shm ptr) (hopen : calls.shmOpen = true)
    (hmap : calls.mmap = true) : getIPFromShm calls shm ptr.mac (List.replicate ipAddrLen 0)
      = some (calls.munmap, bytes ipAddrLen ((shm (cstr ptr.mac)).getD []), shm) := by
  have ⟨contents, hcontents⟩ := Option.isSome_iff_exists.mp hstored.isSome
  have hshm := shm_of_open hcontents
  have hne : contents ≠ [] := by
    intro hnil
    have hpos := hstored.pos
    simp [storedIP, hcontents, hnil] at hpos
  have hcopy : memcpy (List.replicate ipAddrLen 0) 0 contents ipAddrLen = bytes ipAddrLen contents := by
    simp [memcpy]
  unfold getIPFromShm
  simp only [hopen, hmap, hcontents, Option.getD_some, hshm, hne, hcopy, Bool.true_eq_false, if_false]
  cases calls.munmap <;> rfl

theorem getIPFromShm_of_not_looksUp (hisSome : (shm (cstr ptr.mac)).isSome = true)
    (h : ¬(calls.shmOpen = true ∧ calls.mmap = true)) :
    getIPFromShm calls shm ptr.mac ip = some (false, ip, shm) := by
  have ⟨contents, hcontents⟩ := Option.isSome_iff_exists.mp hisSome
  have hshm := shm_of_open hcontents
  unfold getIPFromShm
  cases hopen : calls.shmOpen with
  | false => rfl
  | true =>
    have hmap : calls.mmap = false := by
      rw [Bool.eq_false_iff]
      exact fun hmap => h ⟨hopen, hmap⟩
    simp only [hmap, hcontents, Option.getD_some, hshm, Bool.true_eq_false, if_false, if_true]

end Lookup

section Rows

variable {shm : Shm} {ptr : Mac} {head rest : List Mac} {bits : Nat} {locals : Nat → RowLocals}
  {copyIPValue : Mem}

theorem showRows_cons_of_looksUp (hbits : 16 ≤ bits) (hstored : IsStored shm ptr)
    (hlookup : (locals 0).LooksUp) : showRows bits locals shm copyIPValue (ptr :: rest) =
      let copyIPValue := (storedIP shm ptr).dropLast
        ++ copyIPValue.drop ((storedIP shm ptr).length - 1)
      { found := (locals 0).calls.munmap
        ipLength := (storedIP shm ptr).length
        copied := (storedIP shm ptr).length - 1
        printed := some (cstr ptr.mac, cstr (copyIPValue ++ (locals 0).afterCopyIPValue)) }
        :: showRows bits (fun i => locals (i + 1)) shm copyIPValue rest := by
  have hlt := hstored.length_lt
  have hlength : strlen (bytes ipAddrLen ((shm (cstr ptr.mac)).getD [])
      ++ (locals 0).afterIPValue) = (storedIP shm ptr).length :=
    congrArg List.length (cstr_bytes_append hlt)
  have hsize : (storedIP shm ptr).length ≤ 2 ^ bits := by
    have hpow : 2 ^ 16 ≤ 2 ^ bits := Nat.pow_le_pow_right (by decide) hbits
    unfold ipAddrLen at hlt
    omega
  have hcopy : memcpy copyIPValue 0 (bytes ipAddrLen ((shm (cstr ptr.mac)).getD []))
      ((storedIP shm ptr).length - 1) = (storedIP shm ptr).dropLast
        ++ copyIPValue.drop ((storedIP shm ptr).length - 1) := by
    have hcstr : cstr (bytes ipAddrLen ((shm (cstr ptr.mac)).getD [])) = storedIP shm ptr := by
      rw [cstr_bytes]
      exact List.take_of_length_le hlt.le
    have hle : (storedIP shm ptr).length - 1
        ≤ strlen (bytes ipAddrLen ((shm (cstr ptr.mac)).getD [])) := by
      unfold strlen
      rw [hcstr]
      omega
    unfold memcpy
    rw [List.take_zero, List.nil_append, Nat.zero_add, bytes_of_le_strlen hle, hcstr,
      List.dropLast_eq_take]
  have hfits : ¬(storedIP shm ptr).length - 1 > ipAddrLen := by omega
  rw [showRows, getIPFromShm_of_looksUp hstored hlookup.1 hlookup.2]
  dsimp only
  rw [hlength, copiedLength_pos hstored.pos hsize, if_neg hfits, hcopy]

theorem showRows_cons_of_not_looksUp (hbits : 16 ≤ bits) (hstored : IsStored shm ptr)
    (hlookup : ¬(locals 0).LooksUp) : showRows bits locals shm copyIPValue (ptr :: rest) =
      [{ found := false, ipLength := 0, copied := 2 ^ bits - 1, printed := none }] := by
  have hwrapped : 2 ^ bits - 1 > ipAddrLen := by
    have hpow : 2 ^ 16 ≤ 2 ^ bits := Nat.pow_le_pow_right (by decide) hbits
    unfold ipAddrLen
    omega
  have hempty : strlen (List.replicate ipAddrLen 0 ++ (locals 0).afterIPValue) = 0 := rfl
  rw [showRows, getIPFromShm_of_not_looksUp hstored.isSome hlookup]
  dsimp only
  rw [hempty, copiedLength_zero, if_pos hwrapped]

theorem zero_notMem_own : 0 ∉ (storedIP shm ptr).dropLast :=
  fun h => zero_notMem_cstr (List.dropLast_subset _ h)

theorem cstr_append_drop_eq_iff {own after : Mem} (hown : 0 ∉ own)
    (hlt : own.length < copyIPValue.length) :
    cstr (own ++ copyIPValue.drop own.length ++ after) = own
      ↔ copyIPValue.getD own.length 0 = 0 := by
  have hdrop : copyIPValue.drop own.length
      = copyIPValue[own.length] :: copyIPValue.drop (own.length + 1) := List.drop_eq_getElem_cons hlt
  rw [List.append_assoc, cstr_append hown, List.append_right_eq_self, cstr_eq_nil_iff, hdrop,
    List.getD_eq_getElem _ _ hlt]
  rfl

/--
Where the text of a row is written, a row that is shorter finds no NUL any more.
-/
theorem getD_append_drop_eq_zero_iff {own : Mem} {k : Nat} (hown : 0 ∉ own) :
    (own ++ copyIPValue.drop own.length).getD k 0 = 0
      ↔ own.length ≤ k ∧ copyIPValue.getD k 0 = 0 := by
  by_cases hk : k < own.length
  . rw [List.getD_append _ _ _ _ hk, List.getD_eq_getElem _ _ hk]
    apply iff_of_false
    . exact fun h => hown (h ▸ List.getElem_mem hk)
    . omega
  . rw [List.getD_append_right _ _ _ _ (by omega), List.getD_eq_getElem?_getD,
      List.getD_eq_getElem?_getD, List.getElem?_drop]
    have hsum : own.length + (k - own.length) = k := by omega
    rw [hsum]
    exact (and_iff_right (by omega)).symm

structure RightBehind (shm : Shm) (copyIPValue : Mem) (head : List Mac) : Prop where
  pairwise : head.Pairwise fun earlier later =>
    (storedIP shm earlier).length ≤ (storedIP shm later).length
  nul : ∀ ptr ∈ head, copyIPValue.getD ((storedIP shm ptr).length - 1) 0 = 0

theorem rightBehind_cons_iff (hstored : ∀ other ∈ ptr :: rest, IsStored shm other) :
    RightBehind shm copyIPValue (ptr :: rest) ↔ copyIPValue.getD ((storedIP shm ptr).length - 1) 0 = 0
        ∧ RightBehind shm ((storedIP shm ptr).dropLast
            ++ copyIPValue.drop ((storedIP shm ptr).length - 1)) rest := by
  have hptr := hstored ptr List.mem_cons_self
  have hpos := hptr.pos
  have hlength : (storedIP shm ptr).dropLast.length = (storedIP shm ptr).length - 1 :=
    List.length_dropLast
  have hnul (other : Mac) (hother : other ∈ rest) : ((storedIP shm ptr).dropLast
      ++ copyIPValue.drop ((storedIP shm ptr).length - 1)).getD ((storedIP shm other).length - 1) 0 = 0
        ↔ (storedIP shm ptr).length ≤ (storedIP shm other).length
          ∧ copyIPValue.getD ((storedIP shm other).length - 1) 0 = 0 := by
    have hpos' := (hstored other (List.mem_cons_of_mem ptr hother)).pos
    rw [← hlength, getD_append_drop_eq_zero_iff zero_notMem_own, hlength]
    apply and_congr_left
    intro _
    omega
  constructor
  . intro h
    have ⟨hlonger, hpairwise⟩ := List.pairwise_cons.mp h.pairwise
    refine ⟨h.nul ptr List.mem_cons_self, hpairwise, ?_⟩
    intro other hother
    rw [hnul other hother]
    exact ⟨hlonger other hother, h.nul other (List.mem_cons_of_mem ptr hother)⟩
  . intro ⟨hfirst, h⟩
    have hboth (other : Mac) (hother : other ∈ rest) := (hnul other hother).mp (h.nul other hother)
    refine ⟨List.pairwise_cons.mpr ⟨fun other hother => (hboth other hother).1, h.pairwise⟩, ?_⟩
    intro other hother
    rcases List.mem_cons.mp hother with heq | hother
    . rw [heq]
      exact hfirst
    . exact (hboth other hother).2

theorem showsOwnIP_cons_of_looksUp (hbits : 16 ≤ bits) (hstored : IsStored shm ptr)
    (hsize : copyIPValue.length = ipAddrLen) (hlookup : (locals 0).LooksUp) :
    ShowsOwnIP shm (ptr :: rest) (showRows bits locals shm copyIPValue (ptr :: rest)) ↔
      copyIPValue.getD ((storedIP shm ptr).length - 1) 0 = 0
        ∧ ShowsOwnIP shm rest (showRows bits (fun i => locals (i + 1)) shm
            ((storedIP shm ptr).dropLast ++ copyIPValue.drop ((storedIP shm ptr).length - 1))
            rest) := by
  have hlt := hstored.length_lt
  have hpos := hstored.pos
  have hlength : (storedIP shm ptr).dropLast.length = (storedIP shm ptr).length - 1 :=
    List.length_dropLast
  have hprinted : cstr ((storedIP shm ptr).dropLast
      ++ copyIPValue.drop ((storedIP shm ptr).length - 1) ++ (locals 0).afterCopyIPValue)
        = (storedIP shm ptr).dropLast ↔ copyIPValue.getD ((storedIP shm ptr).length - 1) 0 = 0 := by
    rw [← hlength]
    exact cstr_append_drop_eq_iff zero_notMem_own (by omega)
  rw [showRows_cons_of_looksUp hbits hstored hlookup]
  dsimp only
  constructor
  . intro h
    have hrows := h.printed
    rw [List.map_cons, List.map_cons, List.cons.injEq, Option.some.injEq, Prod.mk.injEq] at hrows
    refine ⟨hprinted.mp hrows.1.2, hrows.2, ?_⟩
    intro row hrow
    exact h.notWrapped row (List.mem_cons_of_mem _ hrow)
  . intro ⟨hnul, h⟩
    constructor
    . rw [List.map_cons, List.map_cons, h.printed, hprinted.mpr hnul]
    . intro row hrow hfound
      rcases List.mem_cons.mp hrow with heq | hrow
      . rw [heq]
        dsimp only
        omega
      . exact h.notWrapped row hrow hfound

theorem showsOwnIP_rows_iff (hbits : 16 ≤ bits) (hstored : ∀ ptr ∈ head, IsStored shm ptr)
    (hsize : copyIPValue.length = ipAddrLen) :
    ShowsOwnIP shm head (showRows bits locals shm copyIPValue head) ↔
      (∀ i < head.length, (locals i).LooksUp) ∧ RightBehind shm copyIPValue head := by
  induction head generalizing locals copyIPValue with
  | nil =>
    refine iff_of_true ⟨rfl, by simp [showRows]⟩ ⟨by simp, .nil, by simp⟩
  | cons ptr rest ih =>
    have hptr := hstored ptr List.mem_cons_self
    have hrest := fun other hother => hstored other (List.mem_cons_of_mem ptr hother)
    by_cases hlookup : (locals 0).LooksUp
    . have hsize' : ((storedIP shm ptr).dropLast
          ++ copyIPValue.drop ((storedIP shm ptr).length - 1)).length = ipAddrLen := by
        have := hptr.length_lt
        simp only [List.length_append, List.length_dropLast, List.length_drop]
        omega
      have hall : (∀ i < (ptr :: rest).length, (locals i).LooksUp)
          ↔ ∀ i < rest.length, (locals (i + 1)).LooksUp := by
        rw [List.length_cons, Nat.forall_lt_succ_left, and_iff_right hlookup]
      rw [showsOwnIP_cons_of_looksUp hbits hptr hsize hlookup, ih hrest hsize',
        rightBehind_cons_iff hstored, hall, and_left_comm]
    . rw [showRows_cons_of_not_looksUp hbits hptr hlookup]
      apply iff_of_false
      . intro h
        have hrows := h.printed
        simp at hrows
      . intro h
        exact hlookup (h.1 0 (by simp))

end Rows

theorem showMacInfo_showsOwnIP_iff {bits : Nat} {shm : Shm} {head : List Mac} (hbits : 16 ≤ bits)
    (hstored : ∀ ptr ∈ head, IsStored shm ptr) (locals : Nat → RowLocals) (copyIPValue : Mem) :
    ShowsOwnIP shm head (showMacInfo bits locals shm copyIPValue head) ↔
      (∀ i < head.length, (locals i).LooksUp)
        ∧ (head.Pairwise fun earlier later =>
            (storedIP shm earlier).length ≤ (storedIP shm later).length)
        ∧ ∀ ptr ∈ head, copyIPValue.getD ((storedIP shm ptr).length - 1) 0 = 0 := by
  have hnul : (∀ ptr ∈ head, (bytes ipAddrLen copyIPValue).getD ((storedIP shm ptr).length - 1) 0 = 0)
      ↔ ∀ ptr ∈ head, copyIPValue.getD ((storedIP shm ptr).length - 1) 0 = 0 := by
    apply forall_congr'
    intro ptr
    apply imp_congr_right
    intro hptr
    have hlt := (hstored ptr hptr).length_lt
    rw [bytes_getD (by omega)]
  unfold showMacInfo
  rw [showsOwnIP_rows_iff hbits hstored bytes_length, ← hnul]
  apply and_congr_right
  intro _
  exact ⟨fun h => ⟨h.1, h.2⟩, fun h => ⟨h.1, h.2⟩⟩

def longMac : Mac :=
  .ofChars (text "00:11:22:33:44:55")

def shortMac : Mac :=
  .ofChars (text "66:77:88:99:aa:bb")

def twoIPs : Shm := fun name =>
  if name = cstr longMac.mac then
    some (bytes ipAddrLen (text "192.168.100.10\n"))
  else if name = cstr shortMac.mac then
    some (bytes ipAddrLen (text "10.0.0.1\n"))
  else
    none

def allSucceed : RowLocals where
  calls := { shmOpen := true, ftruncate := true, mmap := true, munmap := true }
  afterIPValue := []
  afterCopyIPValue := []

def noShm : RowLocals :=
  { allSucceed with calls := { allSucceed.calls with shmOpen := false } }

theorem isStored_longMac : IsStored twoIPs longMac :=
  ⟨by decide, by decide, by decide, by decide⟩

theorem isStored_shortMac : IsStored twoIPs shortMac :=
  ⟨by decide, by decide, by decide, by decide⟩

theorem showMacInfo_showsOwnIP_iff_longer_last : ShowsOwnIP twoIPs [shortMac, longMac]
    (showMacInfo 32 (fun _ => allSucceed) twoIPs [] [shortMac, longMac]) := by
  have hstored : ∀ ptr ∈ [shortMac, longMac], IsStored twoIPs ptr := by
    intro ptr hptr
    simp only [List.mem_cons, List.not_mem_nil, or_false] at hptr
    rcases hptr with heq | heq
    . exact heq ▸ isStored_shortMac
    . exact heq ▸ isStored_longMac
  apply (showMacInfo_showsOwnIP_iff (by decide) hstored _ _).mpr
  refine ⟨fun _ _ => ⟨rfl, rfl⟩, by decide, ?_⟩
  intro ptr _
  rfl

/--
The row of the short IP ends in the rest of the long one, and a failed lookup copies as much as a
`size_t` can count.
-/
theorem shorter_ip_shows_rest :
    (showMacInfo 32 (fun _ => allSucceed) twoIPs [] [longMac, shortMac]).map MacRow.printed
        = [some (text "00:11:22:33:44:55", text "192.168.100.10"),
          some (text "66:77:88:99:aa:bb", text "10.0.0.1100.10")]
      ∧ (showMacInfo 32 (fun _ => noShm) twoIPs [] [shortMac]).map MacRow.copied = [4294967295]
      ∧ ¬∀ bits shm head locals copyIPValue, 16 ≤ bits → (∀ ptr ∈ head, IsStored shm ptr) →
          ShowsOwnIP shm head (showMacInfo bits locals shm copyIPValue head) := by
  refine ⟨by decide +kernel, by decide +kernel, ?_⟩
  intro h
  have hstored : ∀ ptr ∈ [shortMac], IsStored twoIPs ptr := by
    intro ptr hptr
    rw [List.mem_singleton.mp hptr]
    exact isStored_shortMac
  have hprinted := (h 32 twoIPs [shortMac] (fun _ => noShm) [] (by decide) hstored).printed
  revert hprinted
  decide +kernel

end RoutingTable
