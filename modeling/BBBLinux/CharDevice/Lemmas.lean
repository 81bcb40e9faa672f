import BBBLinux.CharDevice.Impl

/-!
This module contains the arithmetic of the character devices and what their calls do as long as the
cursor lies within the device and no copy faults.
-/

namespace CharDevice

theorem toNat_toUInt64 (x : Int64) : (x.toUInt64.toNat : Int) = x.toInt % 2 ^ 64 := by
  have htoInt : x.toInt = Int.bmod x.toUInt64.toNat (2 ^ 64) := x.toBitVec.toInt_eq_toNat_bmod
  have := x.toUInt64.toNat_lt
  rw [htoInt, Int.bmod_def]
  split <;> omega

section Arithmetic

variable {abi : Abi} {maxsize : Int32} {fPos : Int64} {count : Nat}

theorem toInt_add_ofNat (hpos : 0 ≤ fPos.toInt) (h : fPos.toInt + count < 2 ^ 63) :
    (fPos + Int64.ofNat count).toInt = fPos.toInt + count := by
  rw [Int64.toInt_add, Int64.toInt_ofNat_of_lt (by omega)]
  apply Int.bmod_eq_of_le <;> omega

namespace Abi

theorem toSizeT_of_nonneg {x : Int64} (h : 0 ≤ x.toInt) (hx : x.toInt < 2 ^ 31) :
    (abi.toSizeT x : Int) = x.toInt := by
  have := toNat_toUInt64 x
  cases abi <;> simp only [toSizeT, bits] <;> omega

theorem toSsizeT_of_lt (h : count < 2 ^ 31) : abi.toSsizeT count = count := by
  unfold toSsizeT
  cases abi <;> simp only [bits] <;> apply Int.bmod_eq_of_le <;> omega

theorem exceeds_iff (hpos : 0 ≤ fPos.toInt) (hle : fPos.toInt ≤ maxsize.toInt)
    (hcount : count ≤ abi.countMax) :
    abi.exceeds fPos count maxsize = true ↔ maxsize.toInt < fPos.toInt + count := by
  have hmax := maxsize.toInt_lt
  cases abi with
  | ilp32 =>
    simp only [countMax] at hcount
    simp only [exceeds, decide_eq_true_eq, GT.gt, Int64.lt_iff_toInt_lt, Int32.toInt_toInt64]
    rw [toInt_add_ofNat hpos (by omega)]
  | lp64 =>
    simp only [countMax] at hcount
    have hfPos := toNat_toUInt64 fPos
    have hmaxsize := toNat_toUInt64 maxsize.toInt64
    rw [Int32.toInt_toInt64] at hmaxsize
    simp only [exceeds, decide_eq_true_eq, GT.gt, UInt64.lt_iff_toNat_lt, UInt64.toNat_add,
      UInt64.toNat_ofNat']
    omega

theorem clip_eq (hpos : 0 ≤ fPos.toInt) (hle : fPos.toInt ≤ maxsize.toInt)
    (hcount : count ≤ abi.countMax) :
    abi.clip maxsize fPos count = min count (maxsize.toInt.toNat - fPos.toInt.toNat) := by
  have hmax := maxsize.toInt_lt
  unfold clip
  split
  next h =>
    rw [exceeds_iff hpos hle hcount] at h
    have hsub : (maxsize.toInt64 - fPos).toInt = maxsize.toInt - fPos.toInt := by
      rw [Int64.toInt_sub, Int32.toInt_toInt64]
      apply Int.bmod_eq_of_le <;> omega
    have htoSizeT : (abi.toSizeT (maxsize.toInt64 - fPos) : Int) = maxsize.toInt - fPos.toInt := by
      rw [toSizeT_of_nonneg (by omega) (by omega), hsub]
    omega
  next h =>
    rw [exceeds_iff hpos hle hcount] at h
    omega

end Abi

theorem seekTo_inBounds (hpos : 0 ≤ fPos.toInt) (hle : fPos.toInt ≤ maxsize.toInt) (temp : Int64) :
    0 ≤ (seekTo maxsize fPos temp).2.toInt ∧ (seekTo maxsize fPos temp).2.toInt ≤ maxsize.toInt := by
  unfold seekTo
  split
  next => exact ⟨hpos, hle⟩
  next h =>
    simp only [GT.gt, Int64.lt_iff_toInt_lt, Int32.toInt_toInt64, Int64.toInt_zero, not_or,
      Int.not_lt] at h
    exact h.symm

theorem lseek_inBounds (hpos : 0 ≤ fPos.toInt) (hle : fPos.toInt ≤ maxsize.toInt) (offset : Int64)
    (whence : Int) :
    0 ≤ (lseek maxsize fPos offset whence).2.toInt ∧
      (lseek maxsize fPos offset whence).2.toInt ≤ maxsize.toInt := by
  unfold lseek
  split
  . exact seekTo_inBounds hpos hle offset
  . exact seekTo_inBounds hpos hle (fPos + offset)
  . exact seekTo_inBounds hpos hle (maxsize.toInt64 - offset)
  . exact ⟨hpos, hle⟩

theorem add_ofNat (hpos : 0 ≤ fPos.toInt) (h : fPos.toInt + count < 2 ^ 63) :
    fPos + Int64.ofNat count = Int64.ofNat (fPos.toInt.toNat + count) := by
  apply Int64.toInt.inj
  rw [toInt_add_ofNat hpos h, Int64.toInt_ofNat_of_lt (by omega)]
  omega

end Arithmetic

section Transfers

variable {abi : Abi} {maxsize : Int32} (mem : Memory) (buff : Nat → UInt8) {fPos : Int64}
  {count : Nat}

def Memory.store (mem : Memory) (pos : Nat) (buff : Nat → UInt8) (k : Nat) : Memory :=
  fun i => if pos ≤ i ∧ i < pos + k then buff (i - pos).toNat else mem i

variable {mem buff} in
theorem Memory.store_of_mem {pos i k : Nat} (hpos : pos ≤ i) (hi : i < pos + k) :
    mem.store pos buff k i = buff (i - pos) := by
  unfold Memory.store
  rw [if_pos (by omega)]
  congr
  omega

variable {mem buff} in
theorem Memory.store_of_not_mem {pos i k : Nat} (h : i < pos ∨ pos + k ≤ i) :
    mem.store pos buff k i = mem i := by
  unfold Memory.store
  rw [if_neg (by omega)]

theorem copyFromUser_zero {dst : Int} {pos : Nat} (h : dst = pos) (k : Nat) :
    copyFromUser dst buff k 0 mem = (0, mem.store pos buff k) := by
  simp only [copyFromUser, Nat.zero_min, Nat.sub_zero, Prod.mk.injEq, true_and]
  funext i
  unfold Memory.store
  subst h
  split
  next h => rw [if_pos h.2]
  next => rfl

theorem copyToUser_zero {src : Int} {pos : Nat} (h : src = pos) (k : Nat) :
    copyToUser mem src k 0 = (0, (List.range k).map fun i => mem (pos + i : Nat)) := by
  simp [copyToUser, h]

theorem read_eq (hpos : 0 ≤ fPos.toInt) (hle : fPos.toInt ≤ maxsize.toInt)
    (hcount : count ≤ abi.countMax) :
    let pos := fPos.toInt.toNat
    let k := min count (maxsize.toInt.toNat - pos)
    read abi maxsize mem count fPos 0
      = ⟨k, Int64.ofNat (pos + k), (List.range k).map fun i => mem (pos + i : Nat)⟩ := by
  intro pos k
  have hmax := maxsize.toInt_lt
  have hclip : abi.clip maxsize fPos count = k := Abi.clip_eq hpos hle hcount
  have hcopy := copyToUser_zero mem (show fPos.toInt = pos by omega) k
  simp only [read, hclip, hcopy, ne_eq, not_true_eq_false, if_false]
  rw [Abi.toSsizeT_of_lt (by omega), add_ofNat hpos (by omega)]

theorem write_eq (hpos : 0 ≤ fPos.toInt) (hle : fPos.toInt ≤ maxsize.toInt)
    (hcount : count ≤ abi.countMax) :
    let pos := fPos.toInt.toNat
    let k := min count (maxsize.toInt.toNat - pos)
    write abi maxsize mem buff count fPos 0
      = if k = 0 then ⟨-enomem, fPos, mem⟩
        else ⟨k, Int64.ofNat (pos + k), mem.store pos buff k⟩ := by
  intro pos k
  have hmax := maxsize.toInt_lt
  have hclip : abi.clip maxsize fPos count = k := Abi.clip_eq hpos hle hcount
  have hcopy := copyFromUser_zero mem buff (show fPos.toInt = pos by omega) k
  simp only [write, hclip, hcopy, ne_eq, not_true_eq_false, if_false]
  rw [Abi.toSsizeT_of_lt (by omega), add_ofNat hpos (by omega)]

end Transfers

namespace Driver

variable {abi : Abi} {drv : Driver} (dev : Fin drv.numDevices)

@[simp]
theorem pcdOpen_eq (fMode : Nat) : drv.pcdOpen dev fMode = 0 := by
  cases drv <;> rfl

theorem pcdRead_eq : drv.pcdRead abi dev = CharDevice.read abi (drv.maxsize dev) := by
  cases drv <;> rfl

theorem pcdWrite_eq : drv.pcdWrite abi dev = CharDevice.write abi (drv.maxsize dev) := by
  cases drv <;> rfl

theorem pcdLseek_eq : drv.pcdLseek dev = CharDevice.lseek (drv.maxsize dev) := by
  cases drv <;> rfl

def size (drv : Driver) (dev : Fin drv.numDevices) : Nat :=
  (drv.maxsize dev).toInt.toNat

theorem maxsize_eq_size : (drv.maxsize dev).toInt = drv.size dev := by
  have : 0 ≤ (drv.maxsize dev).toInt := by
    revert dev
    cases drv <;> decide
  unfold size
  omega

end Driver

namespace File

variable {drv : Driver} {f : File drv}

def pos (f : File drv) : Nat :=
  f.fPos.toInt.toNat

def size (f : File drv) : Nat :=
  drv.size f.privateData

def InBounds (f : File drv) : Prop :=
  0 ≤ f.fPos.toInt ∧ f.fPos.toInt ≤ f.size

theorem InBounds.le_maxsize (h : f.InBounds) : f.fPos.toInt ≤ (drv.maxsize f.privateData).toInt := by
  rw [Driver.maxsize_eq_size]
  exact h.2

theorem InBounds.pos_le (h : f.InBounds) : f.pos ≤ f.size := by
  have := h.2
  unfold pos
  omega

theorem size_lt : f.size < 2 ^ 31 := by
  have := (drv.maxsize f.privateData).toInt_lt
  unfold size Driver.size
  omega

theorem inBounds_of_eq_zero (h : f.fPos = 0) : f.InBounds := by
  unfold InBounds
  rw [h, Int64.toInt_zero]
  exact ⟨Int.le_refl 0, Int.natCast_nonneg _⟩

theorem inBounds_ofNat {n : Nat} (h : n ≤ f.size) :
    InBounds { f with fPos := Int64.ofNat n } := by
  have hsize := f.size_lt
  have htoInt : (Int64.ofNat n).toInt = n := Int64.toInt_ofNat_of_lt (by omega)
  constructor
  . simp only [htoInt]
    omega
  . simp only [htoInt]
    exact_mod_cast h

end File

namespace State

variable {abi : Abi} {drv : Driver} {s : State drv} {fd : Nat} {f : File drv}

theorem setPos_self (hf : s.files[fd]? = some f) : s.setPos fd f f.fPos = s := by
  have ⟨_, hget⟩ := List.getElem?_eq_some_iff.mp hf
  have hset : s.files.set fd f = s.files := by
    rw [← hget, List.set_getElem_self]
  simp only [setPos, hset]

theorem setMem_self (dev : Fin drv.numDevices) : s.setMem dev (s.mem dev) = s := by
  have hmem : (fun d => if d = dev then s.mem dev else s.mem d) = s.mem := by
    funext d
    split
    next h => rw [h]
    next => rfl
  simp only [setMem, hmem]

theorem call_read (hf : s.files[fd]? = some f) (h : f.InBounds) {count : Nat}
    (hcount : count ≤ abi.countMax) :
    let k := min count (f.size - f.pos)
    s.call abi (.pcdRead fd count 0) = some
      (⟨k, (List.range k).map fun i => s.mem f.privateData (f.pos + i : Nat)⟩,
        s.setPos fd f (Int64.ofNat (f.pos + k))) := by
  intro k
  have hread := read_eq (s.mem f.privateData) h.1 h.le_maxsize hcount
  simp only [call, hf, Driver.pcdRead_eq, hread, Option.bind_eq_bind, Option.bind_some]
  rfl

theorem call_write (hf : s.files[fd]? = some f) (h : f.InBounds) {count : Nat}
    (hcount : count ≤ abi.countMax) (buff : Nat → UInt8) :
    let k := min count (f.size - f.pos)
    s.call abi (.pcdWrite fd buff count 0) =
      if k = 0 then
        some (⟨-enomem, []⟩, s)
      else
        some (⟨k, []⟩, (s.setMem f.privateData ((s.mem f.privateData).store f.pos buff k)).setPos
          fd f (Int64.ofNat (f.pos + k))) := by
  intro k
  have hwrite := write_eq (s.mem f.privateData) buff h.1 h.le_maxsize hcount
  simp only [call, hf, Driver.pcdWrite_eq, hwrite, Option.bind_eq_bind, Option.bind_some]
  split
  next hk =>
    have hk : k = 0 := hk
    simp only [hk, if_true, setMem_self, setPos_self hf]
    rfl
  next hk =>
    have hk : k ≠ 0 := hk
    simp only [hk, if_false]
    rfl

theorem call_lseek (hf : s.files[fd]? = some f) (offset : Int64) (whence : Int) :
    s.call abi (.pcdLseek fd offset whence) =
      let (ret, fPos) := lseek (drv.maxsize f.privateData) f.fPos offset whence
      some (⟨ret, []⟩, s.setPos fd f fPos) := by
  simp only [call, hf, Driver.pcdLseek_eq, Option.bind_eq_bind, Option.bind_some]
  rfl

end State

end CharDevice
