import BBBLinux.CharDevice.Impl
import Mathlib.Data.List.Perm.Basic

/-!
This module contains the platform driver `Platform_device/pcd_platform_driver.c` with the driver core
that probes and removes its devices: a probe is all or nothing unless one of two late calls fails.
-/

namespace CharDevice

namespace Platform

def enodev : Errno :=
  ⟨19, by decide⟩

def enomem : Errno :=
  ⟨12, by decide⟩

structure PlatformData where
  size : Int
  perm : Int
  serialNumber : String
  deriving DecidableEq, Repr

/--
`struct platform_device`, told from all others by its address.
-/
structure PlatformDevice where
  addr : Nat
  id : Int
  platformData : Option PlatformData
  deriving DecidableEq, Repr

/--
`struct pcd_dev_private_data` with its address. Of the buffer it has the number of bytes, or `none` for
the null pointer.
-/
structure PrivateData where
  addr : Nat
  pdata : PlatformData
  buffer : Option Nat
  deviceNumber : Int
  deriving DecidableEq, Repr

/--
What is registered with the kernel: a `cdev` by the address of the private data it is in, and a device
node by its number.
-/
inductive Registration where
  | cdev (addr : Nat)
  | device (number : Int)
  deriving DecidableEq, Repr

/--
`struct pcd_drv_private_data` beside the registrations made so far.
-/
structure DrvData where
  totalDevices : Int
  deviceNumberBase : Int
  registered : List Registration

/--
How the calls of a probe end: the address of the private data, unless that allocation fails, whether
there is memory for the buffer and the errors of the other two.
-/
structure Outcomes where
  privateData : Option Nat
  bufferMemory : Bool
  cdevAdd : Option Errno
  deviceCreate : Option Errno

/--
`devm_kzalloc` for a size that is an `int`: as a `size_t` a negative one is larger than all memory.
-/
def devmKzalloc (size : Int) (memory : Bool) : Option Nat :=
  if memory ∧ 0 ≤ size then
    some size.toNat
  else
    none

/--
`pcd_platform_driver_probe`: the error it returns or, for 0, what it stores with `dev_set_drvdata`.
-/
def probe (d : DrvData) (pdev : PlatformDevice) (o : Outcomes) : Except Errno PrivateData × DrvData :=
  match pdev.platformData with
  | none => (.error enodev, d)
  | some pdata =>
    match o.privateData with
    | none => (.error enomem, d)
    | some addr =>
      -- The test behind this allocation is for the private data once more, so it never fails.
      let buffer := devmKzalloc pdata.size o.bufferMemory
      let deviceNumber := d.deviceNumberBase + pdev.id
      match o.cdevAdd with
      | some e => (.error e, d)
      | none =>
        let d := { d with registered := .cdev addr :: d.registered }
        match o.deviceCreate with
        | some e => (.error e, d)
        | none =>
          let d := { d with registered := .device deviceNumber :: d.registered }
          (.ok ⟨addr, pdata, buffer, deviceNumber⟩, { d with totalDevices := d.totalDevices + 1 })

def remove (d : DrvData) (pdev : PlatformDevice) (priv : PrivateData) : DrvData :=
  let d := { d with registered := d.registered.erase (.device (d.deviceNumberBase + pdev.id)) }
  let d := { d with registered := d.registered.erase (.cdev priv.addr) }
  { d with totalDevices := d.totalDevices - 1 }

structure State where
  drv : DrvData
  bound : List (PlatformDevice × PrivateData)

inductive Event where
  | probe (pdev : PlatformDevice) (o : Outcomes)
  | remove (pdev : PlatformDevice)

/--
The driver core probes devices that are not bound, binds them if the probe returns 0 and removes only
what is bound.
-/
def next (s : State) : Event → Option State
  | .probe pdev o =>
    if pdev ∈ s.bound.map Prod.fst then
      none
    else
      match probe s.drv pdev o with
      | (.error _, drv) => some { s with drv := drv }
      | (.ok priv, drv) => some ⟨drv, (pdev, priv) :: s.bound⟩
  | .remove pdev =>
    (s.bound.find? (·.1 = pdev)).map fun b =>
      ⟨CharDevice.Platform.remove s.drv pdev b.2, s.bound.erase b⟩

def system : TransitionSystem State Event :=
  .ofStep (fun s => s.drv.registered = [] ∧ s.drv.totalDevices = 0 ∧ s.bound = []) next

def registrations (base : Int) (b : PlatformDevice × PrivateData) : List Registration :=
  [.device (base + b.1.id), .cdev b.2.addr]

structure Consistent (s : State) : Prop where
  registered : s.drv.registered.Perm (s.bound.flatMap (registrations s.drv.deviceNumberBase))
  total : s.drv.totalDevices = s.bound.length
  buffer : ∀ b ∈ s.bound, b.1.platformData = some b.2.pdata
    ∧ ∃ n : Nat, b.2.buffer = some n ∧ n = b.2.pdata.size

structure AllOrNothing (s : State) (ev : Event) (t : State) : Prop where
  consistent : Consistent t
  noTrace : ∀ pdev o e, ev = .probe pdev o → (Platform.probe s.drv pdev o).1 = .error e →
    t.drv.registered = s.drv.registered ∧ t.bound = s.bound

/--
Behind a `cdev_add` that goes well neither `device_create` fails nor has the allocation of the buffer.
-/
def Event.Sound : Event → Prop
  | .probe pdev o => ∀ pdata, pdev.platformData = some pdata → o.privateData.isSome →
      o.cdevAdd.isNone → o.deviceCreate.isNone ∧ (devmKzalloc pdata.size o.bufferMemory).isSome
  | .remove _ => True

section Lemmas

variable {s t : State} {d : DrvData} {pdev : PlatformDevice} {o : Outcomes} {ev : Event}

theorem probe_cases (d : DrvData) (pdev : PlatformDevice) (o : Outcomes) :
    (∃ e, probe d pdev o = (.error e, d) ∧ (Event.probe pdev o).Sound)
      ∨ (∃ e addr, probe d pdev o = (.error e, { d with registered := .cdev addr :: d.registered })
          ∧ ¬(Event.probe pdev o).Sound)
      ∨ ∃ addr pdata, pdev.platformData = some pdata
          ∧ probe d pdev o =
            (.ok ⟨addr, pdata, devmKzalloc pdata.size o.bufferMemory,
                d.deviceNumberBase + pdev.id⟩,
              { d with
                registered := .device (d.deviceNumberBase + pdev.id) :: .cdev addr :: d.registered
                totalDevices := d.totalDevices + 1 })
          ∧ ((Event.probe pdev o).Sound ↔ (devmKzalloc pdata.size o.bufferMemory).isSome) := by
  unfold probe
  cases hpdata : pdev.platformData with
  | none => exact .inl ⟨enodev, rfl, by simp [Event.Sound, hpdata]⟩
  | some pdata =>
    cases hpriv : o.privateData with
    | none => exact .inl ⟨enomem, rfl, by simp [Event.Sound, hpriv]⟩
    | some addr =>
      cases hadd : o.cdevAdd with
      | some e => exact .inl ⟨e, rfl, by simp [Event.Sound, hadd]⟩
      | none =>
        cases hcreate : o.deviceCreate with
        | some e =>
          exact .inr (.inl ⟨e, addr, rfl, by simp [Event.Sound, hpdata, hpriv, hadd, hcreate]⟩)
        | none =>
          exact .inr (.inr ⟨addr, pdata, rfl, rfl, by
            simp [Event.Sound, hpdata, hpriv, hadd, hcreate]⟩)

theorem devmKzalloc_eq_some_iff {size : Int} {memory : Bool} :
    (devmKzalloc size memory).isSome ↔
      ∃ n : Nat, devmKzalloc size memory = some n ∧ n = size := by
  unfold devmKzalloc
  split
  next h => simp [h.2]
  next => simp

namespace Consistent

theorem not_registered_cons (h : Consistent s) (r : Registration) :
    ¬Consistent ⟨{ s.drv with registered := r :: s.drv.registered }, s.bound⟩ := by
  intro hcons
  have hlength := hcons.registered.length_eq
  rw [← h.registered.length_eq, List.length_cons] at hlength
  omega

theorem bind_iff (h : Consistent s) (priv : PrivateData)
    (hpdata : pdev.platformData = some priv.pdata) :
    Consistent ⟨{ s.drv with
        registered := .device (s.drv.deviceNumberBase + pdev.id) :: .cdev priv.addr
          :: s.drv.registered
        totalDevices := s.drv.totalDevices + 1 }, (pdev, priv) :: s.bound⟩
      ↔ ∃ n : Nat, priv.buffer = some n ∧ n = priv.pdata.size := by
  constructor
  . intro hbound
    exact (hbound.buffer _ List.mem_cons_self).2
  . intro hbuffer
    refine ⟨?_, ?_, ?_⟩
    . exact (h.registered.cons _).cons _
    . simp [h.total]
    . intro b hb
      cases List.mem_cons.mp hb with
      | inl heq =>
        rw [heq]
        exact ⟨hpdata, hbuffer⟩
      | inr hmem => exact h.buffer b hmem

theorem remove (h : Consistent s) {b : PlatformDevice × PrivateData} (hb : b ∈ s.bound) :
    Consistent ⟨Platform.remove s.drv b.1 b.2, s.bound.erase b⟩ := by
  have hperm : s.drv.registered.Perm
      (registrations s.drv.deviceNumberBase b
        ++ (s.bound.erase b).flatMap (registrations s.drv.deviceNumberBase)) :=
    h.registered.trans ((List.perm_cons_erase hb).flatMap_right _)
  refine ⟨?_, ?_, ?_⟩
  . have herase := (hperm.erase (.device (s.drv.deviceNumberBase + b.1.id))).erase (.cdev b.2.addr)
    simpa [Platform.remove, registrations] using herase
  . have hlength := List.length_erase_of_mem hb
    have hpos := List.length_pos_of_mem hb
    have htotal := h.total
    simp only [Platform.remove, hlength]
    omega
  . intro b' hb'
    exact h.buffer b' (List.mem_of_mem_erase hb')

theorem allOrNothing_iff (h : Consistent s) (hnext : next s ev = some t) :
    AllOrNothing s ev t ↔ ev.Sound := by
  cases ev with
  | probe pdev o =>
    simp only [next, Option.ite_none_left_eq_some] at hnext
    rcases probe_cases s.drv pdev o with ⟨e, hprobe, hsound⟩ | ⟨e, addr, hprobe, hsound⟩ |
      ⟨addr, pdata, hpdata, hprobe, hsound⟩
    . simp only [hprobe, Option.some.injEq] at hnext
      rw [← hnext.2]
      refine ⟨fun _ => hsound, fun _ => ⟨h, fun _ _ _ _ _ => ⟨rfl, rfl⟩⟩⟩
    . simp only [hprobe, Option.some.injEq] at hnext
      rw [← hnext.2]
      exact ⟨fun hall => absurd hall.consistent (h.not_registered_cons _),
        fun hs => absurd hs hsound⟩
    . simp only [hprobe, Option.some.injEq] at hnext
      have hbind := h.bind_iff
        ⟨addr, pdata, devmKzalloc pdata.size o.bufferMemory, s.drv.deviceNumberBase + pdev.id⟩ hpdata
      rw [← hnext.2, hsound, devmKzalloc_eq_some_iff, ← hbind]
      refine ⟨fun hall => hall.consistent, fun hcons => ⟨hcons, ?_⟩⟩
      intro pdev' o' e' hev herror
      cases hev
      rw [hprobe] at herror
      contradiction
  | remove pdev =>
    simp only [next, Option.map_eq_some_iff] at hnext
    obtain ⟨b, hfind, ht⟩ := hnext
    have hpdev : b.1 = pdev := by simpa using List.find?_some hfind
    rw [← ht, ← hpdev]
    exact ⟨fun _ => trivial,
      fun _ => ⟨h.remove (List.mem_of_find?_eq_some hfind), fun _ _ _ hev => by contradiction⟩⟩

end Consistent

end Lemmas

theorem probe_all_or_nothing_iff {s : State}
    (h : system.ReachableVia (fun _ ev => ev.Sound) s) :
    Consistent s ∧ ∀ ev t, next s ev = some t → (AllOrNothing s ev t ↔ ev.Sound) := by
  have hcons : Consistent s := by
    apply h.invariant
    . rintro s ⟨hregistered, htotal, hbound⟩
      exact ⟨by simp [hregistered, hbound], by simp [htotal, hbound], by simp [hbound]⟩
    . intro s ev t hs hsound hstep
      exact ((hs.allOrNothing_iff hstep).mpr hsound).consistent
  exact ⟨hcons, fun ev t hnext => hcons.allOrNothing_iff hnext⟩

def unloaded : State :=
  ⟨⟨0, 0, []⟩, []⟩

def pcdev1 : PlatformDevice :=
  ⟨0, 0, some ⟨512, 0x11, "PCD1111"⟩⟩

theorem probe_all_or_nothing_iff_bound :
    Consistent ⟨⟨1, 0, [.device 0, .cdev 64]⟩,
      [(pcdev1, ⟨64, ⟨512, 0x11, "PCD1111"⟩, some 512, 0⟩)]⟩ := by
  have hunloaded : system.ReachableVia (fun _ ev => ev.Sound) unloaded := .init ⟨rfl, rfl, rfl⟩
  have hsound : (Event.probe pcdev1 ⟨some 64, true, none, none⟩).Sound := by
    intro pdata hpdata _ _
    rw [← Option.some.inj hpdata]
    exact ⟨rfl, rfl⟩
  exact (probe_all_or_nothing_iff (.step hunloaded hsound rfl)).1

theorem failed_probe_leaves_cdev :
    ∃ t, next unloaded (.probe pcdev1 ⟨some 64, true, none, some enomem⟩) = some t
      ∧ (probe unloaded.drv pcdev1 ⟨some 64, true, none, some enomem⟩).1 = .error enomem
      ∧ t.bound = [] ∧ t.drv.registered = [.cdev 64] ∧ ¬Consistent t := by
  refine ⟨⟨⟨0, 0, [.cdev 64]⟩, []⟩, rfl, rfl, rfl, rfl, ?_⟩
  intro h
  have hlength := h.registered.length_eq
  contradiction

end Platform

end CharDevice
