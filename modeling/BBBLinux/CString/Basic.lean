import Mathlib.Algebra.Group.Int.Defs
import Mathlib.Data.List.Basic
import Mathlib.Data.List.TakeWhile

/-!
This module contains NUL-terminated strings in byte addressed memory and the functions of the C
library on them. A pointer is the memory from its address on, and the bytes behind the end of the
list read as NUL.
-/

namespace CString

abbrev Mem := List UInt8

def text (s : String) : Mem :=
  s.toList.map fun c => c.toUInt8

def cstr (m : Mem) : Mem :=
  m.takeWhile (· ≠ 0)

def strlen (m : Mem) : Nat :=
  (cstr m).length

def strcmp : Mem → Mem → Int
  | [], b => -(b.headD 0).toNat
  | x :: a, b =>
    let y := b.headD 0
    if x ≠ y then
      x.toNat - y.toNat
    else if x = 0 then
      0
    else
      strcmp a b.tail

def strncmp : Nat → Mem → Mem → Int
  | 0, _, _ => 0
  | n + 1, a, b =>
    let x := a.headD 0
    let y := b.headD 0
    if x ≠ y then
      x.toNat - y.toNat
    else if x = 0 then
      0
    else
      strncmp n a.tail b.tail

def strchr (c : UInt8) : Mem → Option Mem
  | [] => none
  | x :: m => if x = c then some (x :: m) else if x = 0 then none else strchr c m

def bytes (n : Nat) (m : Mem) : Mem :=
  m.take n ++ List.replicate (n - m.length) 0

def memcpy (dst : Mem) (off : Nat) (src : Mem) (n : Nat) : Mem :=
  dst.take off ++ (bytes n src ++ dst.drop (off + n))

def isdigit (c : UInt8) : Bool :=
  '0'.toUInt8 ≤ c && c ≤ '9'.toUInt8

def isxdigit (c : UInt8) : Bool :=
  isdigit c || ('a'.toUInt8 ≤ c && c ≤ 'f'.toUInt8) || ('A'.toUInt8 ≤ c && c ≤ 'F'.toUInt8)

def isspace (c : UInt8) : Bool :=
  c = ' '.toUInt8 || (9 ≤ c && c ≤ 13)

def decimal (m : Mem) : Nat :=
  (m.takeWhile isdigit).foldl (fun acc c => 10 * acc + (c.toNat - 48)) 0

def strtol (m : Mem) : Int :=
  match m.dropWhile isspace with
  | [] => 0
  | c :: rest =>
    -- a `long` of 64 bits, which is clamped to its range
    if c = '-'.toUInt8 then
      max (-(decimal rest)) (-2 ^ 63)
    else if c = '+'.toUInt8 then
      min (decimal rest) (2 ^ 63 - 1)
    else
      min (decimal (c :: rest)) (2 ^ 63 - 1)

def atoi (m : Mem) : Int :=
  (BitVec.ofInt 32 (strtol m)).toInt

variable {a b m src dst : Mem} {c x : UInt8} {n off : Nat}

@[simp]
theorem cstr_nil : cstr [] = [] := rfl

@[simp]
theorem cstr_zero_cons : cstr (0 :: m) = [] := rfl

theorem cstr_cons (hx : x ≠ 0) : cstr (x :: m) = x :: cstr m := by
  unfold cstr
  rw [List.takeWhile_cons_of_pos]
  simp [hx]

theorem zero_notMem_cstr : 0 ∉ cstr m := by
  intro h
  have := List.mem_takeWhile_imp h
  simp at this

theorem cstr_append (h : 0 ∉ a) : cstr (a ++ b) = a ++ cstr b := by
  unfold cstr
  apply List.takeWhile_append_of_pos
  intro x hx
  have hx0 : x ≠ 0 := by
    intro heq
    rw [heq] at hx
    exact h hx
  simp [hx0]

theorem cstr_of_notMem (h : 0 ∉ a) : cstr a = a := by
  have := cstr_append (b := []) h
  simpa using this

theorem cstr_append_zero_cons (a m : Mem) : cstr (a ++ 0 :: m) = cstr a := by
  induction a with
  | nil => rfl
  | cons x a ih =>
    by_cases hx : x = 0
    . simp [hx]
    . rw [List.cons_append, cstr_cons hx, cstr_cons hx, ih]

theorem cstr_append_zero (h : 0 ∉ a) : cstr (a ++ 0 :: m) = a := by
  rw [cstr_append_zero_cons, cstr_of_notMem h]

@[simp]
theorem cstr_cstr : cstr (cstr m) = cstr m :=
  cstr_of_notMem zero_notMem_cstr

theorem cstr_length_le : (cstr m).length ≤ m.length :=
  (List.takeWhile_sublist _).length_le

@[simp]
theorem strlen_cstr : strlen (cstr m) = strlen m := by
  unfold strlen
  rw [cstr_cstr]

theorem eq_cstr_append (m : Mem) : m = cstr m ∨ ∃ rest, m = cstr m ++ 0 :: rest := by
  induction m with
  | nil =>
    left
    rfl
  | cons x m ih =>
    by_cases hx : x = 0
    . right
      exists m
      simp [hx]
    . rw [cstr_cons hx]
      cases ih with
      | inl ih =>
        left
        rw [← ih]
      | inr ih =>
        have ⟨rest, ih⟩ := ih
        right
        exists rest
        rw [List.cons_append, ← ih]

theorem cstr_headD (m : Mem) : (cstr m).headD 0 = m.headD 0 := by
  cases m with
  | nil => rfl
  | cons x m =>
    by_cases hx : x = 0
    . simp [hx]
    . simp [cstr_cons hx]

theorem toNat_sub_eq_zero {x y : UInt8} : (x.toNat : Int) - y.toNat = 0 ↔ x = y := by
  rw [← UInt8.toNat_inj]
  omega

theorem cstr_eq_of_headD (h : m.headD 0 = x) (hx : x ≠ 0) : cstr m = x :: cstr m.tail := by
  cases m with
  | nil =>
    simp only [List.headD_nil] at h
    exact absurd h.symm hx
  | cons y m =>
    simp only [List.headD_cons] at h
    rw [h, cstr_cons hx, List.tail_cons]

theorem cstr_eq_nil_iff : cstr m = [] ↔ m.headD 0 = 0 := by
  cases m with
  | nil => simp
  | cons x m =>
    by_cases hx : x = 0
    . simp [hx]
    . simp [cstr_cons hx, hx]

theorem strcmp_eq_zero_iff : strcmp a b = 0 ↔ cstr a = cstr b := by
  induction a generalizing b with
  | nil =>
    simp only [strcmp, cstr_nil]
    rw [eq_comm (a := ([] : Mem)), cstr_eq_nil_iff, ← UInt8.toNat_inj]
    simp
  | cons x a ih =>
    simp only [strcmp]
    split
    . next hne =>
      rw [toNat_sub_eq_zero]
      constructor
      . intro heq
        contradiction
      . intro heq
        have hhead := cstr_headD (x :: a)
        rw [heq, cstr_headD] at hhead
        exact absurd hhead.symm hne
    . next heq =>
      rw [ne_eq, Decidable.not_not] at heq
      split
      . next hx =>
        have hnil : cstr b = [] := by
          rw [cstr_eq_nil_iff, ← heq, hx]
        simp [hx, hnil]
      . next hx =>
        rw [ih, cstr_cons hx, cstr_eq_of_headD heq.symm hx]
        simp

theorem strncmp_eq_zero_iff : strncmp n a b = 0 ↔ cstr (a.take n) = cstr (b.take n) := by
  induction n generalizing a b with
  | zero => simp [strncmp]
  | succ n ih =>
    have htake (m : Mem) : (m.take (n + 1)).headD 0 = m.headD 0 ∧
        (m.take (n + 1)).tail = m.tail.take n := by
      cases m <;> simp
    simp only [strncmp]
    split
    . next hne =>
      rw [toNat_sub_eq_zero]
      constructor
      . intro heq
        contradiction
      . intro heq
        have hhead := cstr_headD (a.take (n + 1))
        rw [heq, cstr_headD, (htake a).1, (htake b).1] at hhead
        exact absurd hhead.symm hne
    . next heq =>
      rw [ne_eq, Decidable.not_not] at heq
      split
      . next ha =>
        have hb : b.headD 0 = 0 := by
          rw [← heq, ha]
        rw [← (htake a).1, ← cstr_eq_nil_iff] at ha
        rw [← (htake b).1, ← cstr_eq_nil_iff] at hb
        simp [ha, hb]
      . next ha =>
        rw [ih, cstr_eq_of_headD (htake a).1 ha, (htake a).2]
        rw [cstr_eq_of_headD ((htake b).1.trans heq.symm) ha, (htake b).2]
        simp

theorem strchr_isSome_iff (hc : c ≠ 0) : (strchr c m).isSome ↔ c ∈ cstr m := by
  induction m with
  | nil => simp [strchr]
  | cons x m ih =>
    unfold strchr
    by_cases hx : x = c
    . simp [hx, cstr_cons hc]
    . by_cases hzero : x = 0
      . simp [hzero, Ne.symm hc]
      . rw [if_neg hx, if_neg hzero, ih, cstr_cons hzero]
        simp [Ne.symm hx]

@[simp]
theorem bytes_length : (bytes n m).length = n := by
  simp only [bytes, List.length_append, List.length_take, List.length_replicate]
  omega

theorem bytes_append (a b : Mem) : bytes a.length (a ++ b) = a := by
  simp [bytes]

theorem bytes_self (a : Mem) : bytes a.length a = a := by
  simp [bytes]

theorem bytes_getD {i : Nat} (h : i < n) : (bytes n m).getD i 0 = m.getD i 0 := by
  simp only [bytes, List.getD_eq_getElem?_getD]
  by_cases hi : i < m.length
  . rw [List.getElem?_append_left]
    . rw [List.getElem?_take_of_lt h]
    . rw [List.length_take]
      omega
  . have hnone : m[i]? = none := by
      rw [List.getElem?_eq_none_iff]
      omega
    rw [List.getElem?_append_right]
    . rw [hnone, List.getElem?_replicate]
      split <;> rfl
    . rw [List.length_take]
      omega

theorem bytes_bytes_append (n : Nat) (a b : Mem) : bytes n (bytes n a ++ b) = bytes n a := by
  have h := bytes_append (bytes n a) b
  rw [bytes_length] at h
  exact h

theorem bytes_strlen_succ : bytes (strlen m + 1) m = cstr m ++ [0] := by
  unfold strlen
  cases eq_cstr_append m with
  | inl h =>
    rw [← h]
    simp [bytes, List.take_of_length_le]
  | inr h =>
    have ⟨rest, h⟩ := h
    generalize cstr m = w at h ⊢
    rw [h]
    simp [bytes, List.take_append, List.take_of_length_le]

theorem bytes_of_le_strlen (h : n ≤ strlen m) : bytes n m = (cstr m).take n := by
  unfold strlen at h
  cases eq_cstr_append m with
  | inl heq =>
    rw [← heq] at h ⊢
    have : n - m.length = 0 := by omega
    simp [bytes, this]
  | inr heq =>
    have ⟨rest, heq⟩ := heq
    generalize cstr m = w at h heq ⊢
    rw [heq]
    have h0 : n - w.length = 0 := by omega
    have h1 : n - (w.length + (rest.length + 1)) = 0 := by omega
    simp [bytes, List.take_append, h0, h1]

theorem cstr_bytes : cstr (bytes n m) = (cstr m).take n := by
  induction n generalizing m with
  | zero => simp [bytes]
  | succ n ih =>
    cases m with
    | nil => simp [bytes, List.replicate_succ]
    | cons x m =>
      have hbytes : bytes (n + 1) (x :: m) = x :: bytes n m := by
        simp [bytes]
      rw [hbytes]
      by_cases hx : x = 0
      . simp [hx]
      . rw [cstr_cons hx, cstr_cons hx, ih, List.take_succ_cons]

theorem memcpy_length (src : Mem) (n : Nat) (h : off ≤ dst.length) :
    (memcpy dst off src n).length = max dst.length (off + n) := by
  simp only [memcpy, List.length_append, List.length_take, bytes_length, List.length_drop]
  omega

theorem drop_memcpy (h : off ≤ dst.length) :
    (memcpy dst off src n).drop off = bytes n src ++ dst.drop (off + n) := by
  unfold memcpy
  rw [List.drop_append_of_le_length, List.drop_take, Nat.sub_self, List.take_zero, List.nil_append]
  simp [h]

theorem memcpy_append_right {k : Nat} (hoff : off = a.length + k) :
    memcpy (a ++ b) off src n = a ++ memcpy b k src n := by
  subst hoff
  simp [memcpy, List.take_append, List.drop_append, Nat.add_assoc, List.take_of_length_le,
    List.drop_of_length_le]

theorem memcpy_append_left (h : n ≤ a.length) : memcpy (a ++ b) 0 src n = memcpy a 0 src n ++ b := by
  have hzero : n - a.length = 0 := by omega
  simp [memcpy, List.drop_append, hzero]

theorem bytes_drop {k : Nat} (h : k ≤ n) : (bytes n m).drop k = bytes (n - k) (m.drop k) := by
  simp only [bytes, List.drop_append, List.drop_take, List.length_take, List.drop_replicate,
    List.length_drop]
  congr 2
  omega

theorem bytes_of_length_le {k : Nat} (h : m.length ≤ k) :
    bytes k m = m ++ bytes (k - m.length) [] := by
  simp [bytes, List.take_of_length_le h]

theorem bytes_of_length_lt {k : Nat} (h : m.length < k) :
    bytes k m = m ++ 0 :: bytes (k - (m.length + 1)) [] := by
  have hrest : k - m.length = k - (m.length + 1) + 1 := by omega
  rw [bytes_of_length_le (by omega), hrest]
  simp [bytes, List.replicate_succ]

theorem memcpy_bytes_nil {k : Nat} :
    memcpy (bytes k []) 0 src n = bytes n src ++ bytes (k - n) [] := by
  simp [memcpy, bytes]

theorem memcpy_field {k : Nat} (h : strlen m < k) :
    memcpy (bytes k []) 0 m (strlen m + 1) = bytes k (cstr m) := by
  rw [memcpy_bytes_nil, bytes_strlen_succ, bytes_of_length_lt h, List.append_assoc]
  rfl

end CString
