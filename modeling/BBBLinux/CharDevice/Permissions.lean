import BBBLinux.CharDevice.Bounded

/-!
This module contains the permissions of the devices of `pcd_mul_devs.c` over whole runs: they are
enforced up to the first `pcd_open` whose verdict of `check_permission` is dropped.
-/

namespace CharDevice

namespace PcdMulDevs

variable {abi : Abi} {s t : State .pcdMulDevs} {c : Call .pcdMulDevs} {r : Reply}

/--
The VFS calls `pcd_read` and `pcd_write` only for files opened with the mode they need.
-/
def Gated (s : State .pcdMulDevs) : Call .pcdMulDevs → Prop
  | .pcdRead fd _ _ => ∀ f, s.files[fd]? = some f → f.fMode &&& fmodeRead ≠ 0
  | .pcdWrite fd _ _ _ => ∀ f, s.files[fd]? = some f → f.fMode &&& fmodeWrite ≠ 0
  | _ => True

def Permitted : Call .pcdMulDevs → Prop
  | .pcdOpen dev fMode => checkPermission (devData dev).perm fMode = 0
  | _ => True

/--
What the permissions ask of a call with the reply `r` and the next state `t`.
-/
structure Enforced (s : State .pcdMulDevs) (c : Call .pcdMulDevs) (r : Reply)
    (t : State .pcdMulDevs) : Prop where
  rdonly_unchanged : ∀ dev, (devData dev).perm = rdonly → t.mem dev = s.mem dev
  wronly_silent : ∀ fd f count left, c = .pcdRead fd count left → s.files[fd]? = some f →
    (devData f.privateData).perm = wronly → r.out = []
  refused_fails : ∀ dev fMode, c = .pcdOpen dev fMode →
    checkPermission (devData dev).perm fMode ≠ 0 → r.ret ≠ 0

def FilesPermitted (s : State .pcdMulDevs) : Prop :=
  ∀ f ∈ s.files, checkPermission (devData f.privateData).perm f.fMode = 0

theorem fMode_of_rdonly {fMode : Nat} (h : checkPermission rdonly fMode = 0) :
    fMode &&& fmodeWrite = 0 := by
  by_contra hwrite
  simp [checkPermission, rdonly, wronly, rdwr, eperm, hwrite] at h

theorem fMode_of_wronly {fMode : Nat} (h : checkPermission wronly fMode = 0) :
    fMode &&& fmodeRead = 0 := by
  by_contra hread
  simp [checkPermission, rdonly, wronly, rdwr, eperm, hread] at h

namespace FilesPermitted

theorem step (h : FilesPermitted s) (hperm : Permitted c) (hcall : s.call abi c = some (r, t)) :
    FilesPermitted t := by
  rcases State.call_cases hcall with ⟨hfd, _⟩ | ⟨fd, f, mem, fPos, _, hf, ht⟩
  . cases c with
    | pcdOpen dev fMode =>
      simp only [State.call, Driver.pcdOpen_eq, if_true, Option.some.injEq, Prod.mk.injEq] at hcall
      rw [← hcall.2]
      intro g hg
      cases List.mem_append.mp hg with
      | inl hold => exact h g hold
      | inr hnew =>
        rw [List.mem_singleton.mp hnew]
        exact hperm
    | pcdRead | pcdWrite | pcdLseek => contradiction
  . rw [ht]
    intro g hg
    cases List.mem_or_eq_of_mem_set hg with
    | inl hold => exact h g hold
    | inr hnew =>
      rw [hnew]
      exact h f (List.mem_of_getElem? hf)

theorem rdonly_unchanged (h : FilesPermitted s) (hgated : Gated s c)
    (hcall : s.call abi c = some (r, t)) {dev : Fin maxDevices}
    (hdev : (devData dev).perm = rdonly) : t.mem dev = s.mem dev := by
  cases c with
  | pcdOpen => exact State.call_mem hcall fun _ _ hfd => by contradiction
  | pcdRead | pcdLseek =>
    simp only [State.call, Option.bind_eq_bind, Option.bind_eq_some_iff, Option.pure_def,
      Option.some.injEq, Prod.mk.injEq] at hcall
    obtain ⟨f, _, _, ht⟩ := hcall
    rw [← ht]
    rfl
  | pcdWrite fd buff count left =>
    apply State.call_mem hcall
    rintro fd' f hfd hf rfl
    rw [← Option.some.inj hfd] at hf
    have hperm := h f (List.mem_of_getElem? hf)
    rw [hdev] at hperm
    exact hgated f hf (fMode_of_rdonly hperm)

theorem enforced (h : FilesPermitted s) (hperm : Permitted c) (hgated : Gated s c)
    (hcall : s.call abi c = some (r, t)) : Enforced s c r t where
  rdonly_unchanged _ hdev := h.rdonly_unchanged hgated hcall hdev
  wronly_silent fd f count left hc hf hdev := by
    subst hc
    have hopened := h f (List.mem_of_getElem? hf)
    rw [hdev] at hopened
    exact absurd (fMode_of_wronly hopened) (hgated f hf)
  refused_fails dev fMode hc hrefused := by
    subst hc
    exact absurd hperm hrefused

end FilesPermitted

theorem permitted_of_enforced (h : Enforced s c r t) (hcall : s.call abi c = some (r, t)) :
    Permitted c := by
  cases c with
  | pcdOpen dev fMode =>
    simp only [State.call, Driver.pcdOpen_eq, if_true, Option.some.injEq, Prod.mk.injEq] at hcall
    by_contra hrefused
    apply h.refused_fails dev fMode rfl hrefused
    rw [← hcall.1]
  | pcdRead | pcdWrite | pcdLseek => trivial

theorem permissions_enforced_iff {s₀ s : State .pcdMulDevs} (h₀ : (system .pcdMulDevs abi).init s₀)
    (h : ((system .pcdMulDevs abi).startingAt s₀).ReachableVia
      (fun s c => Gated s c ∧ Permitted c) s) :
    (∀ dev, (devData dev).perm = rdonly → s.mem dev = s₀.mem dev)
      ∧ ∀ c r t, Gated s c → s.call abi c = some (r, t) → (Enforced s c r t ↔ Permitted c) := by
  have hinv : FilesPermitted s ∧
      ∀ dev, (devData dev).perm = rdonly → s.mem dev = s₀.mem dev := by
    apply h.invariant
    . rintro s rfl
      refine ⟨?_, fun _ _ => rfl⟩
      intro f hf
      rw [h₀.1] at hf
      exact absurd hf List.not_mem_nil
    . rintro s c t ⟨hfiles, hmem⟩ ⟨hgated, hperm⟩ ⟨_, r, hcall⟩
      refine ⟨hfiles.step hperm hcall, ?_⟩
      intro dev hdev
      rw [hfiles.rdonly_unchanged hgated hcall hdev, hmem dev hdev]
  refine ⟨hinv.2, ?_⟩
  intro c r t hgated hcall
  exact ⟨fun henforced => permitted_of_enforced henforced hcall,
    fun hperm => hinv.1.enforced hperm hgated hcall⟩

def pcd1 : Fin maxDevices :=
  ⟨0, by decide⟩

def opened (fMode : Nat) : State .pcdMulDevs :=
  ⟨fun _ _ => 0, [⟨pcd1, fMode, 0⟩]⟩

theorem opened_reachable {fMode : Nat}
    (hperm : checkPermission (devData pcd1).perm fMode = 0) :
    ((system .pcdMulDevs .ilp32).startingAt ⟨fun _ _ => 0, []⟩).ReachableVia
      (fun s c => Gated s c ∧ Permitted c) (opened fMode) :=
  .step (i := .pcdOpen pcd1 fMode) (.init rfl) ⟨trivial, hperm⟩ ⟨trivial, ⟨0, []⟩, rfl⟩

def pcd3 : Fin maxDevices :=
  ⟨2, by decide⟩

def openedBoth : State .pcdMulDevs :=
  ⟨fun _ _ => 0, [⟨pcd1, fmodeRead, 0⟩, ⟨pcd3, fmodeRead ||| fmodeWrite, 0⟩]⟩

/--
The read-only device is read and a read-write one is written.
-/
theorem permissions_enforced_iff_readWrite :
    ∃ t u : State .pcdMulDevs,
      (openedBoth.call .ilp32 (.pcdRead 0 3 0) = some (⟨3, [0, 0, 0]⟩, t)
        ∧ Enforced openedBoth (.pcdRead 0 3 0) ⟨3, [0, 0, 0]⟩ t)
      ∧ openedBoth.call .ilp32 (.pcdWrite 1 (fun _ => 65) 1 0) = some (⟨1, []⟩, u)
        ∧ u.mem pcd3 0 = 65 ∧ Enforced openedBoth (.pcdWrite 1 (fun _ => 65) 1 0) ⟨1, []⟩ u := by
  have hreach : ((system .pcdMulDevs .ilp32).startingAt ⟨fun _ _ => 0, []⟩).ReachableVia
      (fun s c => Gated s c ∧ Permitted c) openedBoth :=
    .step (i := .pcdOpen pcd3 (fmodeRead ||| fmodeWrite)) (opened_reachable rfl) ⟨trivial, rfl⟩
      ⟨trivial, ⟨0, []⟩, rfl⟩
  have henforced := (permissions_enforced_iff ⟨rfl, fun _ _ _ _ => rfl⟩ hreach).2
  have hread := State.call_read (show openedBoth.files[0]? = some ⟨pcd1, fmodeRead, 0⟩ from rfl)
    (File.inBounds_of_eq_zero rfl) (show 3 ≤ Abi.ilp32.countMax by decide)
  have hwrite := State.call_write
    (show openedBoth.files[1]? = some ⟨pcd3, fmodeRead ||| fmodeWrite, 0⟩ from rfl)
    (File.inBounds_of_eq_zero rfl) (show 1 ≤ Abi.ilp32.countMax by decide) (fun _ => 65)
  refine ⟨_, _, ⟨hread.trans rfl, ?_⟩, hwrite.trans rfl, rfl, ?_⟩
  . apply (henforced (.pcdRead 0 3 0) _ _ _ (hread.trans rfl)).mpr trivial
    intro f hf
    cases hf
    decide
  . apply (henforced (.pcdWrite 1 (fun _ => 65) 1 0) _ _ _ (hwrite.trans rfl)).mpr trivial
    intro f hf
    cases hf
    decide

/--
`pcd_open` logs "Open failed" for a read-only device opened for writing, but the file it leaves behind
can be written.
-/
theorem rdonly_device_written :
    ∃ s t u : State .pcdMulDevs, (system .pcdMulDevs .ilp32).init s
      ∧ checkPermission (devData pcd1).perm fmodeWrite = -eperm
      ∧ pcdOpen pcd1 fmodeWrite = ("Open failed \n", 0)
      ∧ s.call .ilp32 (.pcdOpen pcd1 fmodeWrite) = some (⟨0, []⟩, t)
      ∧ Gated t (.pcdWrite 0 (fun _ => 65) 1 0)
      ∧ t.call .ilp32 (.pcdWrite 0 (fun _ => 65) 1 0) = some (⟨1, []⟩, u)
      ∧ (devData pcd1).perm = rdonly ∧ s.mem pcd1 0 = 0 ∧ u.mem pcd1 0 = 65 := by
  have hf : (opened fmodeWrite).files[0]? = some ⟨pcd1, fmodeWrite, 0⟩ := rfl
  have hcall := State.call_write hf (File.inBounds_of_eq_zero rfl)
    (show 1 ≤ Abi.ilp32.countMax by decide) (fun _ => 65)
  refine ⟨⟨fun _ _ => 0, []⟩, opened fmodeWrite, _, ⟨rfl, fun _ _ _ _ => rfl⟩, rfl, rfl, rfl,
    ?_, hcall.trans rfl, rfl, rfl, rfl⟩
  intro f hf
  rw [← Option.some.inj hf]
  decide

end PcdMulDevs

end CharDevice
