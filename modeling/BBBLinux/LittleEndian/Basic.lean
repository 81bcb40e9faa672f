import Mathlib.Algebra.Order.Ring.Int
import Mathlib.Data.List.GetD

/-!
This module contains ints as the four bytes they take up in memory, the lowest first, and the streams of
bytes that are written piece by piece.
-/

universe u v

namespace LittleEndian

def int32 (x : Int32) : List UInt8 :=
  let n := x.toUInt32.toNat
  [.ofNat n, .ofNat (n / 256), .ofNat (n / 65536), .ofNat (n / 16777216)]

/--
The int in the first four bytes, where what is missing counts as 0.
-/
def ofBytes (bytes : List UInt8) : Int32 :=
  (UInt32.ofNat ((bytes.getD 0 0).toNat + 256 * (bytes.getD 1 0).toNat
    + 65536 * (bytes.getD 2 0).toNat + 16777216 * (bytes.getD 3 0).toNat)).toInt32

variable {bytes : List UInt8} {x : Int32}

@[simp]
theorem length_int32 (x : Int32) : (int32 x).length = 4 := rfl

theorem ofBytes_int32_append (x : Int32) (rest : List UInt8) : ofBytes (int32 x ++ rest) = x := by
  have hlt := x.toUInt32.toNat_lt
  unfold ofBytes int32
  simp only [List.cons_append, List.nil_append, List.getD_cons_zero, List.getD_cons_succ,
    UInt8.toNat_ofNat']
  have hsum : x.toUInt32.toNat % 2 ^ 8 + 256 * (x.toUInt32.toNat / 256 % 2 ^ 8)
      + 65536 * (x.toUInt32.toNat / 65536 % 2 ^ 8) + 16777216 * (x.toUInt32.toNat / 16777216 % 2 ^ 8)
      = x.toUInt32.toNat := by
    omega
  rw [hsum, UInt32.ofNat_toNat]
  rfl

theorem ofBytes_append_zeros (bytes : List UInt8) (k : Nat) :
    ofBytes (bytes ++ List.replicate k 0) = ofBytes bytes := by
  have hgetD (i : Nat) : (bytes ++ List.replicate k 0).getD i 0 = bytes.getD i 0 := by
    by_cases hi : i < bytes.length
    . rw [List.getD_append _ _ _ _ hi]
    . rw [List.getD_append_right _ _ _ _ (not_lt.mp hi), List.getD_eq_default _ _ (not_lt.mp hi)]
      simp [List.getD_eq_getElem?_getD, List.getElem?_replicate]
      split <;> rfl
  simp only [ofBytes, hgetD]

theorem ofBytes_zeros (k : Nat) : ofBytes (List.replicate k 0) = 0 := by
  have h := ofBytes_append_zeros [] k
  rw [List.nil_append] at h
  rw [h]
  rfl

section Streams

variable {α : Type u} {β : Type v} {encode : α → List β} {w : Nat} {xs : List α}

theorem length_flatMap (h : ∀ x, (encode x).length = w) : (xs.flatMap encode).length = w * xs.length := by
  induction xs with
  | nil => rfl
  | cons x xs ih =>
    rw [List.flatMap_cons, List.length_append, h, ih, List.length_cons, Nat.mul_succ, Nat.add_comm]

theorem drop_flatMap (h : ∀ x, (encode x).length = w) (k : Nat) :
    (xs.flatMap encode).drop (w * k) = (xs.drop k).flatMap encode := by
  induction xs generalizing k with
  | nil => simp
  | cons x xs ih =>
    cases k with
    | zero => rfl
    | succ k =>
      rw [List.flatMap_cons, List.drop_succ_cons, Nat.mul_succ, Nat.add_comm, ← h x, List.drop_append,
        List.drop_eq_nil_of_le (Nat.le_add_right _ _), List.nil_append, Nat.add_sub_cancel_left, h x, ih]

end Streams

end LittleEndian
