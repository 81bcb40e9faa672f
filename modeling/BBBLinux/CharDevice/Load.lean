import BBBLinux.CharDevice.Impl
import BBBLinux.Ledger.Basic

/-!
This module contains the loading and unloading of `pcd_mul_devs.c` for any number of devices and any
outcome of the calls to the kernel, together with the resources that these calls acquire and release.
-/

namespace CharDevice

namespace PcdMulDevs

/--
What the kernel hands out: device numbers by the first one and their count, a `cdev` by the index of
its device, device nodes by their number.
-/
inductive Resource where
  | region (first count : Nat)
  | classPcd
  | cdev (index : Nat)
  | device (number : Nat)
  deriving DecidableEq, Repr

abbrev Events := List (Ledger.Event Resource)

/--
How the calls of `pcd_init` end: the number that `alloc_chrdev_region` finds or an error, and the error
of each other call, if there is one.
-/
structure Outcomes where
  allocChrdevRegion : Except Errno Nat
  classCreate : Option Errno
  cdevAdd : Nat → Option Errno
  deviceCreate : Nat → Option Errno

inductive Label where
  | cdevDel
  | classDel
  | unregisterChrdev
  deriving DecidableEq, Repr

section Cleanup

variable (maxDevices deviceNumber : Nat)

def cdevDelAll : Events :=
  (List.range maxDevices).map fun index => .release (.cdev index)

def deviceDestroyAll : Events :=
  (List.range maxDevices).map fun index => .release (.device (deviceNumber + index))

def Label.cleanup : Label → Events
  | .cdevDel => cdevDelAll maxDevices ++ deviceDestroyAll maxDevices deviceNumber
      ++ [.release .classPcd, .release (.region deviceNumber maxDevices)]
  | .classDel => deviceDestroyAll maxDevices deviceNumber
      ++ [.release .classPcd, .release (.region deviceNumber maxDevices)]
  | .unregisterChrdev => [.release (.region deviceNumber maxDevices)]

end Cleanup

/--
The loop of `pcd_init` that registers the devices, from `index` on with `left` of them to go: the label
it jumps to and the error, if a call fails, and what it acquires.
-/
def registerDevices (o : Outcomes) (deviceNumber : Nat) : Nat → Nat → Option (Label × Errno) × Events
  | _, 0 => (none, [])
  | index, left + 1 =>
    match o.cdevAdd index with
    | some e => (some (.cdevDel, e), [])
    | none =>
      match o.deviceCreate index with
      | some e => (some (.classDel, e), [.acquire (.cdev index)])
      | none =>
        let (failure, events) := registerDevices o deviceNumber (index + 1) left
        (failure, .acquire (.cdev index) :: .acquire (.device (deviceNumber + index)) :: events)

structure Loaded where
  retVal : Int
  deviceNumber : Nat
  events : Events

/--
`pcd_init`. The count of `alloc_chrdev_region` is a literal, the other counts are `MAX_DEVICES`.
-/
def pcdInit (maxDevices : Nat) (o : Outcomes) : Loaded :=
  match o.allocChrdevRegion with
  | .error e => ⟨-e.code, 0, []⟩
  | .ok deviceNumber =>
    let region := .acquire (.region deviceNumber 4)
    match o.classCreate with
    | some e =>
      ⟨-e.code, deviceNumber, region :: Label.unregisterChrdev.cleanup maxDevices deviceNumber⟩
    | none =>
      let (failure, events) := registerDevices o deviceNumber 0 maxDevices
      let events := region :: .acquire .classPcd :: events
      match failure with
      | some (label, e) =>
        ⟨-e.code, deviceNumber, events ++ label.cleanup maxDevices deviceNumber⟩
      | none => ⟨0, deviceNumber, events⟩

/--
`pcd_exit`. At `unregister_chrdev_region` the index still counts the devices of the loops above.
-/
def pcdExit (maxDevices deviceNumber : Nat) : Events :=
  deviceDestroyAll maxDevices deviceNumber ++ [.release .classPcd] ++ cdevDelAll maxDevices
    ++ [.release (.region (deviceNumber + maxDevices) maxDevices)]

/--
A load that fails gives back all it acquired, a load that succeeds leaves just what the unload releases.
-/
def LoadBalanced (maxDevices : Nat) (o : Outcomes) : Prop :=
  let loaded := pcdInit maxDevices o
  if loaded.retVal < 0 then
    Ledger.Balanced loaded.events
  else
    Ledger.Balanced (loaded.events ++ pcdExit maxDevices loaded.deviceNumber)

instance (maxDevices : Nat) (o : Outcomes) : Decidable (LoadBalanced maxDevices o) :=
  inferInstanceAs (Decidable (ite _ _ _))

section Lemmas

variable {n deviceNumber index left : Nat} {o : Outcomes} {label : Label} {e : Errno}
  {events : Events} {r : Resource}

theorem release_mem_cdevDelAll : .release r ∈ cdevDelAll n ↔ ∃ i < n, r = .cdev i := by
  simp [cdevDelAll, eq_comm]

theorem release_mem_deviceDestroyAll :
    .release r ∈ deviceDestroyAll n deviceNumber ↔ ∃ i < n, r = .device (deviceNumber + i) := by
  simp [deviceDestroyAll, eq_comm]

theorem acquire_notMem_cdevDelAll : .acquire r ∉ cdevDelAll n := by
  simp [cdevDelAll]

theorem acquire_notMem_deviceDestroyAll : .acquire r ∉ deviceDestroyAll n deviceNumber := by
  simp [deviceDestroyAll]

theorem acquire_notMem_cleanup : .acquire r ∉ label.cleanup n deviceNumber := by
  cases label <;>
    simp [Label.cleanup, acquire_notMem_cdevDelAll, acquire_notMem_deviceDestroyAll]

theorem release_notMem_registerDevices :
    .release r ∉ (registerDevices o deviceNumber index left).2 := by
  induction left generalizing index with
  | zero => simp [registerDevices]
  | succ left ih =>
    simp only [registerDevices]
    split
    . simp
    . split
      . simp
      . simpa using ih

/--
When the loop jumps to a label that deletes for all devices, one of them has nothing to delete yet.
-/
theorem exists_missing
    (h : registerDevices o deviceNumber index left = (some (label, e), events)) :
    ∃ i, index ≤ i ∧ i < index + left
      ∧ (label = .cdevDel ∧ .acquire (.cdev i) ∉ events
        ∨ label = .classDel ∧ .acquire (.device (deviceNumber + i)) ∉ events) := by
  induction left generalizing index events with
  | zero => simp [registerDevices] at h
  | succ left ih =>
    simp only [registerDevices] at h
    split at h
    next =>
      simp only [Prod.mk.injEq, Option.some.injEq] at h
      exact ⟨index, by omega, by omega, .inl ⟨h.1.1.symm, by simp [← h.2]⟩⟩
    next =>
      split at h
      next =>
        simp only [Prod.mk.injEq, Option.some.injEq] at h
        exact ⟨index, by omega, by omega, .inr ⟨h.1.1.symm, by simp [← h.2]⟩⟩
      next =>
        simp only [Prod.mk.injEq] at h
        obtain ⟨i, hlow, hhigh, hmissing⟩ := ih (Prod.ext h.1 rfl)
        refine ⟨i, by omega, by omega, ?_⟩
        have hne : i ≠ index := by omega
        rw [← h.2]
        simpa [hne] using hmissing

theorem balanced_unregisterChrdev_iff :
    Ledger.Balanced (.acquire (.region deviceNumber 4)
        :: Label.unregisterChrdev.cleanup n deviceNumber) ↔ n = 4 := by
  constructor
  . intro h
    have hrelease := (h.acquire_mem_iff (.region deviceNumber 4)).mp List.mem_cons_self
    simp only [Label.cleanup, List.mem_cons, reduceCtorEq, false_or, Ledger.Event.release.injEq,
      Resource.region.injEq, true_and, List.not_mem_nil, or_false] at hrelease
    exact hrelease.symm
  . intro h
    simp [h, Ledger.Balanced, Ledger.settle, Label.cleanup]

theorem not_balanced_of_failure
    (h : registerDevices o deviceNumber 0 n = (some (label, e), events)) :
    ¬Ledger.Balanced (.acquire (.region deviceNumber 4) :: .acquire .classPcd :: events
        ++ label.cleanup n deviceNumber) := by
  intro hbalanced
  have ⟨i, _, hi, hmissing⟩ := exists_missing h
  rw [Nat.zero_add] at hi
  rcases hmissing with ⟨hlabel, hmissing⟩ | ⟨hlabel, hmissing⟩
  . have hacquire := (hbalanced.acquire_mem_iff (.cdev i)).mpr (by
      simp [hlabel, Label.cleanup, release_mem_cdevDelAll, hi])
    simp [acquire_notMem_cleanup, hmissing] at hacquire
  . have hacquire := (hbalanced.acquire_mem_iff (.device (deviceNumber + i))).mpr (by
      simp [hlabel, Label.cleanup, release_mem_deviceDestroyAll, hi])
    simp [acquire_notMem_cleanup, hmissing] at hacquire

theorem not_balanced_of_success (hn : 1 ≤ n) (o : Outcomes) (deviceNumber index left : Nat) :
    ¬Ledger.Balanced (.acquire (.region deviceNumber 4) :: .acquire .classPcd
        :: (registerDevices o deviceNumber index left).2 ++ pcdExit n deviceNumber) := by
  intro hbalanced
  have hrelease := (hbalanced.acquire_mem_iff (.region deviceNumber 4)).mp (by simp)
  simp [release_notMem_registerDevices, pcdExit, release_mem_cdevDelAll,
    release_mem_deviceDestroyAll] at hrelease
  omega

end Lemmas

theorem load_balanced_iff {n : Nat} (hn : 1 ≤ n) (o : Outcomes) :
    LoadBalanced n o ↔
      (∃ e, o.allocChrdevRegion = .error e) ∨ (n = 4 ∧ ∃ e, o.classCreate = some e) := by
  unfold LoadBalanced pcdInit
  cases halloc : o.allocChrdevRegion with
  | error e => simp [e.pos, Ledger.Balanced, Ledger.settle]
  | ok deviceNumber =>
    cases hclass : o.classCreate with
    | some e => simp [e.pos, balanced_unregisterChrdev_iff]
    | none =>
      simp only [reduceCtorEq, exists_false, and_false, or_false, iff_false]
      cases hregister : registerDevices o deviceNumber 0 n with
      | mk failure events =>
        cases failure with
        | none =>
          have hsuccess := not_balanced_of_success hn o deviceNumber 0 n
          rw [hregister] at hsuccess
          simpa using hsuccess
        | some failure =>
          simpa [failure.2.pos] using not_balanced_of_failure hregister

def allSucceed : Outcomes :=
  ⟨.ok 0, none, fun _ => none, fun _ => none⟩

theorem not_loadBalanced_allSucceed :
    ¬LoadBalanced maxDevices allSucceed
      ∧ (pcdInit maxDevices allSucceed).retVal = 0
      ∧ .acquire (.region 0 4) ∈ (pcdInit maxDevices allSucceed).events
      ∧ .release (.region 4 4) ∈ pcdExit maxDevices 0 := by
  decide

theorem load_balanced_iff_noClass :
    LoadBalanced maxDevices ⟨.ok 0, some ⟨12, by decide⟩, fun _ => none, fun _ => none⟩ :=
  (load_balanced_iff (by decide) _).mpr (.inr ⟨rfl, _, rfl⟩)

end PcdMulDevs

end CharDevice
