import BBBLinux.Transition.Basic
import Mathlib.Algebra.Order.Ring.Int

/-!
This module contains the character device drivers `PCD/pcd.c` and
`PCD_multiple_devices/pcd_mul_devs.c` and the calls that processes make to them.
-/

namespace CharDevice

def eperm : Int := 1
def enomem : Int := 12
def efault : Int := 14
def einval : Int := 22

/--
The error of a call to the kernel, which returns the code with a minus.
-/
structure Errno where
  code : Nat
  pos : 0 < code

def fmodeRead : Nat := 0x1
def fmodeWrite : Nat := 0x2

@[match_pattern] abbrev seekSet : Int := 0
@[match_pattern] abbrev seekCur : Int := 1
@[match_pattern] abbrev seekEnd : Int := 2

/--
The integer types of the kernel: `size_t` has 32 bits on the BeagleBone and 64 on larger machines,
`int` always has 32 and `loff_t` 64.
-/
inductive Abi where
  | ilp32
  | lp64
  deriving DecidableEq, Repr

namespace Abi

def bits : Abi → Nat
  | .ilp32 => 32
  | .lp64 => 64

def toSizeT (abi : Abi) (x : Int64) : Nat :=
  x.toUInt64.toNat % 2 ^ abi.bits

def toSsizeT (abi : Abi) (count : Nat) : Int :=
  Int.bmod count (2 ^ abi.bits)

/--
The largest count the VFS passes on: any `size_t` of 32 bits, while of the 64 bit ones it refuses
those that are negative as `ssize_t`.
-/
def countMax : Abi → Nat
  | .ilp32 => 2 ^ 32 - 1
  | .lp64 => 2 ^ 63 - 1

/--
`(*f_pos + count) > maxsize`. With 32 bits `count` turns into a `loff_t`, with 64 bits both
operands of the sum turn into the unsigned type and so does `maxsize`.
-/
def exceeds (abi : Abi) (fPos : Int64) (count : Nat) (maxsize : Int32) : Bool :=
  match abi with
  | .ilp32 => fPos + Int64.ofNat count > maxsize.toInt64
  | .lp64 => fPos.toUInt64 + UInt64.ofNat count > maxsize.toInt64.toUInt64

def clip (abi : Abi) (maxsize : Int32) (fPos : Int64) (count : Nat) : Nat :=
  if abi.exceeds fPos count maxsize then
    abi.toSizeT (maxsize.toInt64 - fPos)
  else
    count

end Abi

/--
The kernel memory around the buffer of a device, by the distance from the start of the buffer.
-/
abbrev Memory := Int → UInt8

/--
`copy_from_user` when it cannot read the last `left` of the `n` bytes: it stores zeros for them.
-/
def copyFromUser (dst : Int) (buff : Nat → UInt8) (n left : Nat) (mem : Memory) : Nat × Memory :=
  (min left n, fun i =>
    if dst ≤ i ∧ i < dst + n then
      if i < dst + (n - left : Nat) then buff (i - dst).toNat else 0
    else
      mem i)

def copyToUser (mem : Memory) (src : Int) (n left : Nat) : Nat × List UInt8 :=
  (min left n, (List.range (n - left)).map fun (i : Nat) => mem (src + i))

structure Transfer (α : Type) where
  ret : Int
  fPos : Int64
  filled : α

/--
`pcd_write`, with `left` the number of bytes that the copy cannot read.
-/
def write (abi : Abi) (maxsize : Int32) (mem : Memory) (buff : Nat → UInt8) (count : Nat)
    (fPos : Int64) (left : Nat) : Transfer Memory :=
  let count := abi.clip maxsize fPos count
  if count = 0 then
    ⟨-enomem, fPos, mem⟩
  else
    let (left, mem) := copyFromUser fPos.toInt buff count left mem
    if left ≠ 0 then
      ⟨-efault, fPos, mem⟩
    else
      ⟨abi.toSsizeT count, fPos + Int64.ofNat count, mem⟩

/--
`pcd_read`, with `left` the number of bytes that the copy cannot store.
-/
def read (abi : Abi) (maxsize : Int32) (mem : Memory) (count : Nat) (fPos : Int64) (left : Nat) :
    Transfer (List UInt8) :=
  let count := abi.clip maxsize fPos count
  let (left, out) := copyToUser mem fPos.toInt count left
  if left ≠ 0 then
    ⟨-efault, fPos, out⟩
  else
    ⟨abi.toSsizeT count, fPos + Int64.ofNat count, out⟩

def seekTo (maxsize : Int32) (fPos temp : Int64) : Int × Int64 :=
  if temp > maxsize.toInt64 ∨ temp < 0 then
    (-einval, fPos)
  else
    (temp.toInt, temp)

/--
`pcd_lseek`: what it returns and what it leaves in `filp->f_pos`.
-/
def lseek (maxsize : Int32) (fPos offset : Int64) (whence : Int) : Int × Int64 :=
  match whence with
  | seekSet => seekTo maxsize fPos offset
  | seekCur => seekTo maxsize fPos (fPos + offset)
  | seekEnd => seekTo maxsize fPos (maxsize.toInt64 - offset)
  | _ => (-einval, fPos)

namespace Pcd

def devMemSize : Int32 := 512

def pcdOpen : Int := 0

def pcdWrite (abi : Abi) : Memory → (Nat → UInt8) → Nat → Int64 → Nat → Transfer Memory :=
  write abi devMemSize

def pcdRead (abi : Abi) : Memory → Nat → Int64 → Nat → Transfer (List UInt8) :=
  read abi devMemSize

def pcdLseek : Int64 → Int64 → Int → Int × Int64 :=
  lseek devMemSize

end Pcd

namespace PcdMulDevs

def maxDevices : Nat := 4

def devMemSizePcd1 : UInt32 := 1024
def devMemSizePcd2 : UInt32 := 512
def devMemSizePcd3 : UInt32 := 1024
def devMemSizePcd4 : UInt32 := 512

def rdonly : Int := 0x1
def wronly : Int := 0x10
def rdwr : Int := 0x11

structure PcddeviceData where
  size : UInt32
  perm : Int

def devData : Fin maxDevices → PcddeviceData
  | ⟨0, _⟩ => ⟨devMemSizePcd1, rdonly⟩
  | ⟨1, _⟩ => ⟨devMemSizePcd2, wronly⟩
  | ⟨2, _⟩ => ⟨devMemSizePcd3, rdwr⟩
  | ⟨_ + 3, _⟩ => ⟨devMemSizePcd4, rdwr⟩

def checkPermission (devPerm : Int) (accMode : Nat) : Int :=
  if devPerm = rdwr then
    0
  else if devPerm = rdonly ∧ accMode &&& fmodeRead ≠ 0 ∧ accMode &&& fmodeWrite = 0 then
    0
  else if devPerm = wronly ∧ accMode &&& fmodeRead = 0 ∧ accMode &&& fmodeWrite ≠ 0 then
    0
  else
    -eperm

/--
`pcd_open`: what it logs and returns. It stores the device in `filp->private_data` in any case.
-/
def pcdOpen (dev : Fin maxDevices) (fMode : Nat) : String × Int :=
  let ret := checkPermission (devData dev).perm fMode
  (if ret = 0 then "Open successful \n" else "Open failed \n", 0)

def maxsize (dev : Fin maxDevices) : Int32 :=
  (devData dev).size.toInt32

def pcdWrite (abi : Abi) (dev : Fin maxDevices) :
    Memory → (Nat → UInt8) → Nat → Int64 → Nat → Transfer Memory :=
  write abi (maxsize dev)

def pcdRead (abi : Abi) (dev : Fin maxDevices) :
    Memory → Nat → Int64 → Nat → Transfer (List UInt8) :=
  read abi (maxsize dev)

def pcdLseek (dev : Fin maxDevices) : Int64 → Int64 → Int → Int × Int64 :=
  lseek (maxsize dev)

end PcdMulDevs

inductive Driver where
  | pcd
  | pcdMulDevs
  deriving DecidableEq, Repr

namespace Driver

def numDevices : Driver → Nat
  | .pcd => 1
  | .pcdMulDevs => PcdMulDevs.maxDevices

instance (drv : Driver) : NeZero drv.numDevices where
  out := by cases drv <;> decide

def maxsize : (drv : Driver) → Fin drv.numDevices → Int32
  | .pcd, _ => Pcd.devMemSize
  | .pcdMulDevs, dev => PcdMulDevs.maxsize dev

def pcdOpen : (drv : Driver) → Fin drv.numDevices → Nat → Int
  | .pcd, _, _ => Pcd.pcdOpen
  | .pcdMulDevs, dev, fMode => (PcdMulDevs.pcdOpen dev fMode).2

def pcdWrite (abi : Abi) : (drv : Driver) → Fin drv.numDevices →
    Memory → (Nat → UInt8) → Nat → Int64 → Nat → Transfer Memory
  | .pcd, _ => Pcd.pcdWrite abi
  | .pcdMulDevs, dev => PcdMulDevs.pcdWrite abi dev

def pcdRead (abi : Abi) : (drv : Driver) → Fin drv.numDevices →
    Memory → Nat → Int64 → Nat → Transfer (List UInt8)
  | .pcd, _ => Pcd.pcdRead abi
  | .pcdMulDevs, dev => PcdMulDevs.pcdRead abi dev

def pcdLseek : (drv : Driver) → Fin drv.numDevices → Int64 → Int64 → Int → Int × Int64
  | .pcd, _ => Pcd.pcdLseek
  | .pcdMulDevs, dev => PcdMulDevs.pcdLseek dev

end Driver

/--
`struct file`, with the device in `private_data` for both drivers although `pcd.c`, which has only
one, stores none there.
-/
structure File (drv : Driver) where
  privateData : Fin drv.numDevices
  fMode : Nat
  fPos : Int64

structure State (drv : Driver) where
  mem : Fin drv.numDevices → Memory
  files : List (File drv)

inductive Call (drv : Driver) where
  | pcdOpen (dev : Fin drv.numDevices) (fMode : Nat)
  | pcdRead (fd : Nat) (count : Nat) (left : Nat)
  | pcdWrite (fd : Nat) (buff : Nat → UInt8) (count : Nat) (left : Nat)
  | pcdLseek (fd : Nat) (offset : Int64) (whence : Int)

structure Reply where
  ret : Int
  out : List UInt8
  deriving DecidableEq, Repr

namespace State

variable {drv : Driver}

def setPos (s : State drv) (fd : Nat) (f : File drv) (fPos : Int64) : State drv :=
  { s with files := s.files.set fd { f with fPos := fPos } }

def setMem (s : State drv) (dev : Fin drv.numDevices) (mem : Memory) : State drv :=
  { s with mem := fun d => if d = dev then mem else s.mem d }

/--
A call to the driver by way of the VFS, which starts the cursor of an opened file at 0 and hands
`pcd_read` and `pcd_write` the cursor of the file as `*f_pos`.
-/
def call (abi : Abi) (s : State drv) : Call drv → Option (Reply × State drv)
  | .pcdOpen dev fMode =>
    let ret := drv.pcdOpen dev fMode
    if ret = 0 then
      some (⟨ret, []⟩, { s with files := s.files ++ [⟨dev, fMode, 0⟩] })
    else
      some (⟨ret, []⟩, s)
  | .pcdRead fd count left => do
    let f ← s.files[fd]?
    let t := drv.pcdRead abi f.privateData (s.mem f.privateData) count f.fPos left
    return (⟨t.ret, t.filled⟩, s.setPos fd f t.fPos)
  | .pcdWrite fd buff count left => do
    let f ← s.files[fd]?
    let t := drv.pcdWrite abi f.privateData (s.mem f.privateData) buff count f.fPos left
    return (⟨t.ret, []⟩, (s.setMem f.privateData t.filled).setPos fd f t.fPos)
  | .pcdLseek fd offset whence => do
    let f ← s.files[fd]?
    let (ret, fPos) := drv.pcdLseek f.privateData f.fPos offset whence
    return (⟨ret, []⟩, s.setPos fd f fPos)

end State

def Call.Possible (abi : Abi) : Call drv → Prop
  | .pcdRead _ count _ => count ≤ abi.countMax
  | .pcdWrite _ _ count _ => count ≤ abi.countMax
  | _ => True

/--
The buffers of the devices are zero when the driver is loaded, the memory around them need not be.
-/
def system (drv : Driver) (abi : Abi) : TransitionSystem (State drv) (Call drv) where
  init s := s.files = [] ∧
    ∀ dev (i : Int), 0 ≤ i → i < (drv.maxsize dev).toInt → s.mem dev i = 0
  step s c t := c.Possible abi ∧ ∃ r, s.call abi c = some (r, t)

end CharDevice
