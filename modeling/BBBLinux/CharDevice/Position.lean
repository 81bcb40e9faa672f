import BBBLinux.CharDevice.Lemmas

/-!
This module contains what `pcd_lseek`, `pcd_read` and `pcd_write` do over the whole range of the 64 bit
positions: which positions `pcd_lseek` accepts and from which ones a transfer stays in the device.
-/

namespace CharDevice

variable {maxsize : Int32} {fPos : Int64}

section Seek

def seekTarget (size pos offset : Int) : Int → Option Int
  | seekSet => some offset
  | seekCur => some (pos + offset)
  | seekEnd => some (size - offset)
  | _ => none

/--
A sum or a difference that wraps around turns negative, so it is refused as its exact value is.
-/
theorem seekTo_eq {temp : Int64} {t : Int} (htemp : temp.toInt = Int.bmod t (2 ^ 64))
    (hlow : -2 ^ 63 ≤ t) (hhigh : t < 2 ^ 63 + 2 ^ 31) :
    seekTo maxsize fPos temp =
      if 0 ≤ t ∧ t ≤ maxsize.toInt then (t, Int64.ofInt t) else (-einval, fPos) := by
  have hmax := maxsize.toInt_lt
  unfold seekTo
  simp only [GT.gt, Int64.lt_iff_toInt_lt, Int32.toInt_toInt64, Int64.toInt_zero]
  by_cases ht : t < 2 ^ 63
  . have hexact : temp.toInt = t := by
      rw [htemp]
      apply Int.bmod_eq_of_le <;> omega
    rw [hexact]
    by_cases hin : 0 ≤ t ∧ t ≤ maxsize.toInt
    . rw [if_neg (by omega), if_pos hin, ← hexact, Int64.ofInt_toInt]
    . rw [if_pos (by omega), if_neg hin]
  . have hwrapped : temp.toInt = t - 2 ^ 64 := by
      rw [htemp, Int.bmod_def]
      split <;> omega
    rw [if_pos (by omega), if_neg (by omega)]

theorem lseek_eq (hpos : 0 ≤ fPos.toInt) (hle : fPos.toInt ≤ maxsize.toInt) {offset : Int64}
    {whence t : Int} (ht : seekTarget maxsize.toInt fPos.toInt offset.toInt whence = some t) :
    lseek maxsize fPos offset whence =
      if 0 ≤ t ∧ t ≤ maxsize.toInt then (t, Int64.ofInt t) else (-einval, fPos) := by
  have hmax := maxsize.toInt_lt
  have hlow := offset.le_toInt
  have hhigh := offset.toInt_lt
  unfold seekTarget at ht
  unfold lseek
  split at ht
  . rw [Option.some.injEq] at ht
    subst ht
    apply seekTo_eq
    . symm
      apply Int.bmod_eq_of_le <;> omega
    . omega
    . omega
  . rw [Option.some.injEq] at ht
    subst ht
    apply seekTo_eq
    . exact Int64.toInt_add fPos offset
    . omega
    . omega
  . rw [Option.some.injEq] at ht
    subst ht
    apply seekTo_eq
    . rw [Int64.toInt_sub, Int32.toInt_toInt64]
    . omega
    . omega
  . contradiction

theorem lseek_of_seekTarget_eq_none {offset : Int64} {whence : Int}
    (h : seekTarget maxsize.toInt fPos.toInt offset.toInt whence = none) :
    lseek maxsize fPos offset whence = (-einval, fPos) := by
  unfold seekTarget at h
  split at h
  . contradiction
  . contradiction
  . contradiction
  next hset hcur hend =>
    unfold lseek
    split
    . exact absurd rfl hset
    . exact absurd rfl hcur
    . exact absurd rfl hend
    . rfl

theorem lseek_exact (hpos : 0 ≤ fPos.toInt) (hle : fPos.toInt ≤ maxsize.toInt) (offset : Int64)
    (whence : Int) :
    (∀ t, seekTarget maxsize.toInt fPos.toInt offset.toInt whence = some t →
        0 ≤ t → t ≤ maxsize.toInt →
        lseek maxsize fPos offset whence = (t, Int64.ofInt t) ∧ (Int64.ofInt t).toInt = t)
      ∧ ((∀ t, seekTarget maxsize.toInt fPos.toInt offset.toInt whence = some t →
          t < 0 ∨ maxsize.toInt < t) →
        lseek maxsize fPos offset whence = (-einval, fPos)) := by
  have hmax := maxsize.toInt_lt
  refine ⟨?_, ?_⟩
  . intro t ht hnonneg hsize
    rw [lseek_eq hpos hle ht, if_pos ⟨hnonneg, hsize⟩]
    refine ⟨rfl, ?_⟩
    apply Int64.toInt_ofInt_of_le <;> omega
  . intro hout
    match ht : seekTarget maxsize.toInt fPos.toInt offset.toInt whence with
    | none => exact lseek_of_seekTarget_eq_none ht
    | some t =>
      rw [lseek_eq hpos hle ht, if_neg]
      have := hout t ht
      omega

/--
The end of the device is reached with `SEEK_END` and the smallest offset of all wraps around.
-/
theorem lseek_exact_min :
    lseek 512 100 0 seekEnd = (512, 512)
      ∧ lseek 512 100 Int64.minValue seekEnd = (-einval, 100) := by
  refine ⟨?_, ?_⟩
  . exact ((lseek_exact (by decide) (by decide) _ _).1 512 rfl (by decide)
      (by decide)).1
  . apply (lseek_exact (by decide) (by decide) _ _).2
    intro t ht
    have ht : (512 : Int) - -2 ^ 63 = t := Option.some.inj ht
    have hsize : Int32.toInt 512 = 512 := by decide
    omega

end Seek

section Transfers

variable {abi : Abi} {count : Nat}

namespace Abi

theorem toInt_toInt64_sub (hsize : 0 ≤ maxsize.toInt) (hpos : 0 ≤ fPos.toInt) :
    (maxsize.toInt64 - fPos).toInt = maxsize.toInt - fPos.toInt := by
  have hmax := maxsize.toInt_lt
  have hhigh := fPos.toInt_lt
  rw [Int64.toInt_sub, Int32.toInt_toInt64]
  apply Int.bmod_eq_of_le <;> omega

theorem clip_ilp32 (hsize : 0 ≤ maxsize.toInt) (hpos : 0 ≤ fPos.toInt) (hcount : count < 2 ^ 32) :
    ((clip .ilp32 maxsize fPos count : Nat) : Int) =
      if maxsize.toInt < fPos.toInt + count ∧ fPos.toInt + count < 2 ^ 63 then
        (maxsize.toInt - fPos.toInt) % 2 ^ 32
      else
        (count : Int) := by
  have hhigh := fPos.toInt_lt
  have hsum : (fPos + Int64.ofNat count).toInt =
      if fPos.toInt + count < 2 ^ 63 then fPos.toInt + count else fPos.toInt + count - 2 ^ 64 := by
    rw [Int64.toInt_add, Int64.toInt_ofNat_of_lt (by omega), Int.bmod_def]
    split <;> split <;> omega
  have hexceeds : exceeds .ilp32 fPos count maxsize = true ↔
      maxsize.toInt < fPos.toInt + count ∧ fPos.toInt + count < 2 ^ 63 := by
    simp only [exceeds, decide_eq_true_eq, GT.gt, Int64.lt_iff_toInt_lt, Int32.toInt_toInt64]
    rw [hsum]
    split <;> omega
  have hdiff := toNat_toUInt64 (maxsize.toInt64 - fPos)
  rw [toInt_toInt64_sub hsize hpos] at hdiff
  simp only [clip, hexceeds, toSizeT, bits]
  split <;> omega

theorem clip_lp64 (hsize : 0 ≤ maxsize.toInt) (hpos : 0 ≤ fPos.toInt) :
    ((clip .lp64 maxsize fPos count : Nat) : Int) =
      if maxsize.toInt < (fPos.toInt + count) % 2 ^ 64 then
        (maxsize.toInt - fPos.toInt) % 2 ^ 64
      else
        (count : Int) := by
  have hmax := maxsize.toInt_lt
  have hhigh := fPos.toInt_lt
  have hfPos := toNat_toUInt64 fPos
  have hmaxsize := toNat_toUInt64 maxsize.toInt64
  rw [Int32.toInt_toInt64] at hmaxsize
  have hexceeds : exceeds .lp64 fPos count maxsize = true ↔
      maxsize.toInt < (fPos.toInt + count) % 2 ^ 64 := by
    simp only [exceeds, decide_eq_true_eq, GT.gt, UInt64.lt_iff_toNat_lt, UInt64.toNat_add,
      UInt64.toNat_ofNat']
    omega
  have hdiff := toNat_toUInt64 (maxsize.toInt64 - fPos)
  rw [toInt_toInt64_sub hsize hpos] at hdiff
  simp only [clip, hexceeds, toSizeT, bits]
  split <;> omega

end Abi

/--
The bytes of the device that `pcd_read` passes to `copy_to_user`: the first one and their number.
-/
def readCopy (abi : Abi) (maxsize : Int32) (count : Nat) (fPos : Int64) : Int × Nat :=
  (fPos.toInt, abi.clip maxsize fPos count)

def writeCopy (abi : Abi) (maxsize : Int32) (count : Nat) (fPos : Int64) : Option (Int × Nat) :=
  let count := abi.clip maxsize fPos count
  if count = 0 then
    none
  else
    some (fPos.toInt, count)

theorem read_eq_readCopy (mem : Memory) (left : Nat) :
    read abi maxsize mem count fPos left =
      let (src, count) := readCopy abi maxsize count fPos
      let (left, out) := copyToUser mem src count left
      if left ≠ 0 then
        ⟨-efault, fPos, out⟩
      else
        ⟨abi.toSsizeT count, fPos + Int64.ofNat count, out⟩ := rfl

theorem write_eq_writeCopy (mem : Memory) (buff : Nat → UInt8) (left : Nat) :
    write abi maxsize mem buff count fPos left =
      match writeCopy abi maxsize count fPos with
      | none => ⟨-enomem, fPos, mem⟩
      | some (dst, count) =>
        let (left, mem) := copyFromUser dst buff count left mem
        if left ≠ 0 then
          ⟨-efault, fPos, mem⟩
        else
          ⟨abi.toSsizeT count, fPos + Int64.ofNat count, mem⟩ := by
  unfold write writeCopy
  simp only
  split <;> rfl

def Within (size start : Int) (n : Nat) : Prop :=
  ∀ i, start ≤ i → i < start + n → 0 ≤ i ∧ i < size

theorem within_iff {size start : Int} {n : Nat} (hstart : 0 ≤ start) :
    Within size start n ↔ n = 0 ∨ start + n ≤ size := by
  constructor
  . intro h
    by_cases hn : n = 0
    . exact .inl hn
    . have := h (start + n - 1) (by omega) (by omega)
      omega
  . intro h i hlow hhigh
    omega

structure StaysInside (abi : Abi) (maxsize : Int32) (fPos : Int64) (count : Nat) : Prop where
  read : Within maxsize.toInt (readCopy abi maxsize count fPos).1 (readCopy abi maxsize count fPos).2
  write : ∀ dst n, writeCopy abi maxsize count fPos = some (dst, n) → Within maxsize.toInt dst n
  readAtEnd : maxsize.toInt ≤ fPos.toInt → ∀ mem left,
    CharDevice.read abi maxsize mem count fPos left = ⟨0, fPos, []⟩
  writeAtEnd : maxsize.toInt ≤ fPos.toInt → ∀ mem buff left,
    CharDevice.write abi maxsize mem buff count fPos left = ⟨-enomem, fPos, mem⟩

/--
The position does not lie behind the end and the sum with the count does not wrap around. With 32
bits the difference to the end may also be one that is cut off to 0.
-/
def Fits (abi : Abi) (maxsize : Int32) (fPos : Int64) (count : Nat) : Prop :=
  match abi with
  | .ilp32 => fPos.toInt ≤ maxsize.toInt
      ∨ fPos.toInt + count < 2 ^ 63 ∧ (2 ^ 32 : Int) ∣ fPos.toInt - maxsize.toInt
  | .lp64 => fPos.toInt ≤ maxsize.toInt ∧ fPos.toInt + count < 2 ^ 64

theorem fits_iff (hsize : 0 < maxsize.toInt) (hpos : 0 ≤ fPos.toInt) (hcount : count < 2 ^ abi.bits) :
    Fits abi maxsize fPos count ↔
      abi.clip maxsize fPos count = 0
        ∨ fPos.toInt + (abi.clip maxsize fPos count : Nat) ≤ maxsize.toInt := by
  have hmax := maxsize.toInt_lt
  have hhigh := fPos.toInt_lt
  cases abi with
  | ilp32 =>
    have hclip := Abi.clip_ilp32 (Int.le_of_lt hsize) hpos hcount
    simp only [Abi.bits] at hcount
    simp only [Fits]
    split at hclip <;> omega
  | lp64 =>
    have hclip := @Abi.clip_lp64 maxsize fPos count (Int.le_of_lt hsize) hpos
    simp only [Abi.bits] at hcount
    simp only [Fits]
    split at hclip <;> omega

theorem transfers_inside_iff (hsize : 0 < maxsize.toInt) (hpos : 0 ≤ fPos.toInt)
    (hcount : count < 2 ^ abi.bits) :
    StaysInside abi maxsize fPos count ↔ Fits abi maxsize fPos count := by
  constructor
  . intro h
    rw [fits_iff hsize hpos hcount]
    exact (within_iff hpos).mp h.read
  . intro h
    have hfits := (fits_iff hsize hpos hcount).mp h
    have hend : maxsize.toInt ≤ fPos.toInt → abi.clip maxsize fPos count = 0 := by omega
    refine ⟨?_, ?_, ?_, ?_⟩
    . exact (within_iff hpos).mpr hfits
    . intro dst n hcopy
      simp only [writeCopy, Option.ite_none_left_eq_some, Option.some.injEq, Prod.mk.injEq] at hcopy
      rw [← hcopy.2.1, ← hcopy.2.2]
      exact (within_iff hpos).mpr hfits
    . intro hle mem left
      simp [read_eq_readCopy, readCopy, copyToUser, hend hle, Abi.toSsizeT]
    . intro hle mem buff left
      simp [write_eq_writeCopy, writeCopy, hend hle]

theorem transfers_inside_iff_near_end : StaysInside .ilp32 Pcd.devMemSize 500 600 := by
  rw [transfers_inside_iff (by decide) (by decide) (by decide)]
  exact .inl (by decide)

/--
A `pread` or a `pwrite` of one byte behind the end of the device of `pcd.c` turns into a copy of nearly
4 GiB.
-/
theorem not_staysInside_behind_end :
    ¬StaysInside .ilp32 Pcd.devMemSize 600 1
      ∧ readCopy .ilp32 Pcd.devMemSize 1 600 = (600, 4294967208)
      ∧ writeCopy .ilp32 Pcd.devMemSize 1 600 = some (600, 4294967208) := by
  refine ⟨?_, by decide, by decide⟩
  intro h
  have := (h.read 600 (by decide) (by decide)).2
  revert this
  decide

end Transfers

end CharDevice
