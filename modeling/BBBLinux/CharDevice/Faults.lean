import BBBLinux.CharDevice.Bounded

/-!
This module contains the runs in which copies from and to user space may fault: calls that fail are
invisible to all others except for the bytes that a faulting `pcd_write` leaves behind.
-/

namespace CharDevice

variable {abi : Abi}

section Transfers

variable {maxsize : Int32} {mem : Memory} {buff : Nat → UInt8} {fPos : Int64} {count left : Nat}

def leftBehind (buff : Nat → UInt8) (n left i : Nat) : UInt8 :=
  if i < n - left then buff i else 0

theorem copyFromUser_eq_self_iff {dst : Int} {pos : Nat} (hdst : dst = pos) {n : Nat} :
    (copyFromUser dst buff n left mem).2 = mem
      ↔ ∀ i < n, mem (pos + i : Nat) = leftBehind buff n left i := by
  subst hdst
  simp only [copyFromUser, funext_iff, leftBehind]
  constructor
  . intro h i hi
    have hcopied := h (pos + i : Nat)
    rw [if_pos (by omega)] at hcopied
    rw [← hcopied]
    by_cases hread : i < n - left
    . rw [if_pos (by omega), if_pos hread]
      congr
      omega
    . rw [if_neg (by omega), if_neg hread]
  . intro h i
    by_cases hi : (pos : Int) ≤ i ∧ i < pos + n
    . have hleft := h (i - pos).toNat (by omega)
      have hpos : ((pos + (i - pos).toNat : Nat) : Int) = i := by omega
      rw [hpos] at hleft
      rw [if_pos hi, hleft]
      by_cases hread : (i - pos).toNat < n - left
      . rw [if_pos (by omega), if_pos hread]
      . rw [if_neg (by omega), if_neg hread]
    . rw [if_neg hi]

variable (hpos : 0 ≤ fPos.toInt) (hle : fPos.toInt ≤ maxsize.toInt) (hcount : count ≤ abi.countMax)

section
include hpos hle hcount

theorem read_cases (mem : Memory) (left : Nat) :
    let pos := fPos.toInt.toNat
    let k := min count (maxsize.toInt.toNat - pos)
    let t := read abi maxsize mem count fPos left
    t.ret = -efault ∧ t.fPos = fPos ∨ t.ret = k ∧ t.fPos = Int64.ofNat (pos + k) := by
  intro pos k t
  have hmax := maxsize.toInt_lt
  have hclip : abi.clip maxsize fPos count = k := Abi.clip_eq hpos hle hcount
  by_cases hfault : min left k ≠ 0
  . left
    simp only [t, read, copyToUser, hclip, hfault, ne_eq, not_false_eq_true, if_true, and_self]
  . right
    simp only [t, read, copyToUser, hclip, hfault, if_false]
    rw [Abi.toSsizeT_of_lt (by omega), add_ofNat hpos (by omega)]
    exact ⟨rfl, rfl⟩

theorem write_cases (mem : Memory) (buff : Nat → UInt8) (left : Nat) :
    let pos := fPos.toInt.toNat
    let k := min count (maxsize.toInt.toNat - pos)
    let t := write abi maxsize mem buff count fPos left
    (k = 0 ∧ t = ⟨-enomem, fPos, mem⟩)
      ∨ (k ≠ 0 ∧ left ≠ 0
          ∧ t = ⟨-efault, fPos, (copyFromUser fPos.toInt buff k left mem).2⟩)
      ∨ (k ≠ 0 ∧ left = 0 ∧ t.ret = k ∧ t.fPos = Int64.ofNat (pos + k)) := by
  intro pos k t
  have hmax := maxsize.toInt_lt
  have hclip : abi.clip maxsize fPos count = k := Abi.clip_eq hpos hle hcount
  by_cases hk : k = 0
  . exact .inl ⟨hk, by simp [t, write, hclip, hk]⟩
  . by_cases hleft : left = 0
    . refine .inr (.inr ⟨hk, hleft, ?_⟩)
      have hwrite := write_eq mem buff hpos hle hcount
      simp only [t, hleft, hwrite]
      rw [if_neg hk]
      exact ⟨rfl, rfl⟩
    . refine .inr (.inl ⟨hk, hleft, ?_⟩)
      have hfault : min left k ≠ 0 := by omega
      simp [t, write, hclip, hk, copyFromUser, hfault]

end

theorem lseek_cases (maxsize : Int32) (fPos offset : Int64) (whence : Int) :
    let r := lseek maxsize fPos offset whence
    r = (-einval, fPos) ∨ 0 ≤ r.1 := by
  have hseekTo : ∀ temp, seekTo maxsize fPos temp = (-einval, fPos)
      ∨ 0 ≤ (seekTo maxsize fPos temp).1 := by
    intro temp
    unfold seekTo
    split
    next => exact .inl rfl
    next h =>
      simp only [not_or, Int64.lt_iff_toInt_lt, Int64.toInt_zero, Int.not_lt] at h
      exact .inr h.2
  intro r
  simp only [r]
  unfold lseek
  split
  . exact hseekTo offset
  . exact hseekTo (fPos + offset)
  . exact hseekTo (maxsize.toInt64 - offset)
  . exact .inl rfl

end Transfers

variable {drv : Driver}

def ebadf : Int := 9

/--
The calls of a run: for a file that is not open the VFS answers itself.
-/
def machine (drv : Driver) (abi : Abi) : CallMachine (State drv) (Call drv) Reply :=
  fun s c => (s.call abi c).getD (⟨-ebadf, []⟩, s)

def failed (r : Reply) : Bool :=
  r.ret < 0

/--
A `pcd_write` that faults finds the bytes that it leaves behind already there.
-/
def Harmless (s : State drv) : Call drv → Prop
  | .pcdWrite fd buff count left => ∀ f, s.files[fd]? = some f → left ≠ 0 →
      ∀ i < min count (f.size - f.pos),
        s.mem f.privateData (f.pos + i : Nat)
          = leftBehind buff (min count (f.size - f.pos)) left i
  | _ => True

namespace State

variable {s : State drv} {fd : Nat} {f : File drv} {c : Call drv}

def InBounds (s : State drv) : Prop :=
  ∀ f ∈ s.files, f.InBounds

theorem machine_of_eq_none (hf : s.files[fd]? = none) (hfd : c.fd? = some fd) :
    machine drv abi s c = (⟨-ebadf, []⟩, s) := by
  cases c with
  | pcdOpen => contradiction
  | pcdRead | pcdWrite | pcdLseek =>
    simp only [Call.fd?, Option.some.injEq] at hfd
    simp [machine, call, hfd, hf]

theorem machine_read (hf : s.files[fd]? = some f) {count left : Nat} {t : Transfer (List UInt8)}
    (ht : read abi (drv.maxsize f.privateData) (s.mem f.privateData) count f.fPos left = t) :
    machine drv abi s (.pcdRead fd count left) = (⟨t.ret, t.filled⟩, s.setPos fd f t.fPos) := by
  simp only [machine, call, hf, Driver.pcdRead_eq, ht, Option.bind_eq_bind, Option.bind_some]
  rfl

theorem machine_write (hf : s.files[fd]? = some f) {buff : Nat → UInt8} {count left : Nat}
    {t : Transfer Memory}
    (ht : write abi (drv.maxsize f.privateData) (s.mem f.privateData) buff count f.fPos left = t) :
    machine drv abi s (.pcdWrite fd buff count left) =
      (⟨t.ret, []⟩, (s.setMem f.privateData t.filled).setPos fd f t.fPos) := by
  simp only [machine, call, hf, Driver.pcdWrite_eq, ht, Option.bind_eq_bind, Option.bind_some]
  rfl

theorem machine_lseek (hf : s.files[fd]? = some f) {offset : Int64} {whence : Int}
    {r : Int × Int64} (hr : lseek (drv.maxsize f.privateData) f.fPos offset whence = r) :
    machine drv abi s (.pcdLseek fd offset whence) = (⟨r.1, []⟩, s.setPos fd f r.2) := by
  simp only [machine, call_lseek hf, hr]
  rfl

namespace InBounds

theorem file (h : s.InBounds) (hf : s.files[fd]? = some f) : f.InBounds :=
  h f (List.mem_of_getElem? hf)

theorem machine (h : s.InBounds) (hpossible : c.Possible abi) :
    (machine drv abi s c).2.InBounds := by
  cases c with
  | pcdOpen dev fMode =>
    intro f hf
    simp only [CharDevice.machine, call, Driver.pcdOpen_eq, if_true, Option.getD_some] at hf
    cases List.mem_append.mp hf with
    | inl hmem => exact h f hmem
    | inr hnew =>
      rw [List.mem_singleton.mp hnew]
      exact File.inBounds_of_eq_zero rfl
  | pcdRead fd count left =>
    cases hf : s.files[fd]? with
    | none =>
      rw [machine_of_eq_none hf rfl]
      exact h
    | some f =>
      have hfile := h.file hf
      have hpos := hfile.pos_le
      rw [machine_read hf rfl]
      apply forall_inBounds_setPos h
      have hcases := read_cases hfile.1 hfile.le_maxsize hpossible (s.mem f.privateData) left
      rcases hcases with ⟨_, hfPos⟩ | ⟨_, hfPos⟩
      . rw [hfPos]
        exact hfile
      . rw [hfPos]
        exact File.inBounds_ofNat
          (show f.pos + min count (f.size - f.pos) ≤ f.size by omega)
  | pcdWrite fd buff count left =>
    cases hf : s.files[fd]? with
    | none =>
      rw [machine_of_eq_none hf rfl]
      exact h
    | some f =>
      have hfile := h.file hf
      have hpos := hfile.pos_le
      rw [machine_write hf rfl]
      apply forall_inBounds_setPos h
      have hcases := write_cases hfile.1 hfile.le_maxsize hpossible (s.mem f.privateData) buff left
      rcases hcases with ⟨_, ht⟩ | ⟨_, _, ht⟩ | ⟨_, _, _, hfPos⟩
      . rw [ht]
        exact hfile
      . rw [ht]
        exact hfile
      . rw [hfPos]
        exact File.inBounds_ofNat
          (show f.pos + min count (f.size - f.pos) ≤ f.size by omega)
  | pcdLseek fd offset whence =>
    cases hf : s.files[fd]? with
    | none =>
      rw [machine_of_eq_none hf rfl]
      exact h
    | some f =>
      have hfile := h.file hf
      have hseek := lseek_inBounds hfile.1 hfile.le_maxsize offset whence
      rw [Driver.maxsize_eq_size] at hseek
      rw [machine_lseek hf rfl]
      exact forall_inBounds_setPos h hseek

theorem run (h : s.InBounds) {cs : List (Call drv)} (hcs : ∀ c ∈ cs, c.Possible abi) :
    ((CharDevice.machine drv abi).run s cs).2.InBounds := by
  induction cs generalizing s with
  | nil => exact h
  | cons c cs ih =>
    apply ih (h.machine (hcs c List.mem_cons_self))
    intro c' hc'
    exact hcs c' (List.mem_cons_of_mem c hc')

theorem of_reachable (h : (system drv abi).Reachable s) : s.InBounds := by
  apply h.invariant
  . rintro s ⟨hfiles, _⟩ f hf
    rw [hfiles] at hf
    exact absurd hf List.not_mem_nil
  . rintro s c t hs _ ⟨hpossible, r, hcall⟩
    have hmachine := hs.machine hpossible
    simp only [CharDevice.machine, hcall, Option.getD_some] at hmachine
    exact hmachine

end InBounds

theorem setMem_setPos_eq_self_iff (hf : s.files[fd]? = some f) (mem : Memory) :
    (s.setMem f.privateData mem).setPos fd f f.fPos = s ↔ mem = s.mem f.privateData := by
  constructor
  . intro h
    have hmem := congrArg (fun s => s.mem f.privateData) h
    simpa [setPos, setMem] using hmem
  . intro h
    rw [h, setMem_self, setPos_self hf]

theorem quiet_of_eq_none (hf : s.files[fd]? = none) (hfd : c.fd? = some fd) :
    (CharDevice.machine drv abi).Quiet failed s c := by
  intro _
  rw [machine_of_eq_none hf hfd]

theorem quiet_read (hf : s.files[fd]? = some f) (hfile : f.InBounds) {count : Nat}
    (hcount : count ≤ abi.countMax) (left : Nat) :
    (CharDevice.machine drv abi).Quiet failed s (.pcdRead fd count left) := by
  rw [CallMachine.Quiet, machine_read hf rfl]
  intro hfailed
  rcases read_cases hfile.1 hfile.le_maxsize hcount (s.mem f.privateData) left with
    ⟨_, hfPos⟩ | ⟨hret, _⟩
  . simp only [hfPos, setPos_self hf]
  . simp only [failed, hret, decide_eq_true_eq] at hfailed
    omega

theorem quiet_lseek (hf : s.files[fd]? = some f) (offset : Int64) (whence : Int) :
    (CharDevice.machine drv abi).Quiet failed s (.pcdLseek fd offset whence) := by
  rw [CallMachine.Quiet, machine_lseek hf rfl]
  intro hfailed
  rcases lseek_cases (drv.maxsize f.privateData) f.fPos offset whence with hr | hnonneg
  . simp only [hr, setPos_self hf]
  . simp only [failed, decide_eq_true_eq] at hfailed
    omega

theorem quiet_write_iff (hf : s.files[fd]? = some f) (hfile : f.InBounds) (buff : Nat → UInt8)
    {count : Nat} (hcount : count ≤ abi.countMax) (left : Nat) :
    (CharDevice.machine drv abi).Quiet failed s (.pcdWrite fd buff count left)
      ↔ Harmless s (.pcdWrite fd buff count left) := by
  have hpos : f.fPos.toInt = f.pos := by
    have := hfile.1
    unfold File.pos
    omega
  rw [CallMachine.Quiet, machine_write hf rfl]
  simp only [Harmless, hf, Option.some.injEq, forall_eq']
  rcases write_cases hfile.1 hfile.le_maxsize hcount (s.mem f.privateData) buff left with
    ⟨hk, ht⟩ | ⟨_, hleft, ht⟩ | ⟨_, hleft, hret, _⟩
  . have hk : min count (f.size - f.pos) = 0 := hk
    simp [ht, hk, setMem_self, setPos_self hf]
  . have hfailed : failed ⟨-efault, []⟩ = true := by decide
    rw [ht]
    simp only [hfailed, true_implies, setMem_setPos_eq_self_iff hf]
    rw [copyFromUser_eq_self_iff hpos]
    exact ⟨fun h _ => h, fun h => h hleft⟩
  . refine ⟨fun _ h => absurd hleft h, ?_⟩
    intro _ hfailed
    simp only [failed, hret, decide_eq_true_eq] at hfailed
    omega

/--
Of the calls that fail only a `pcd_write` with a fault can leave something behind.
-/
theorem quiet_iff (h : s.InBounds) (hpossible : c.Possible abi) :
    (CharDevice.machine drv abi).Quiet failed s c ↔ Harmless s c := by
  cases c with
  | pcdOpen dev fMode => simp [CallMachine.Quiet, machine, call, failed, Harmless]
  | pcdRead fd count left =>
    refine ⟨fun _ => trivial, fun _ => ?_⟩
    cases hf : s.files[fd]? with
    | none => exact quiet_of_eq_none hf rfl
    | some f => exact quiet_read hf (h.file hf) hpossible left
  | pcdWrite fd buff count left =>
    cases hf : s.files[fd]? with
    | none =>
      refine ⟨fun _ f hf' => ?_, fun _ => quiet_of_eq_none hf rfl⟩
      rw [hf] at hf'
      contradiction
    | some f => exact quiet_write_iff hf (h.file hf) buff hpossible left
  | pcdLseek fd offset whence =>
    refine ⟨fun _ => trivial, fun _ => ?_⟩
    cases hf : s.files[fd]? with
    | none => exact quiet_of_eq_none hf rfl
    | some f => exact quiet_lseek hf offset whence

end State

theorem failed_calls_invisible_iff {s : State drv} (hs : (system drv abi).Reachable s)
    {cs : List (Call drv)} (hcs : ∀ c ∈ cs, c.Possible abi) :
    (∀ cs', cs' <+: cs → (machine drv abi).Invisible failed s cs')
      ↔ ∀ cs' c, cs' ++ [c] <+: cs → Harmless ((machine drv abi).run s cs').2 c := by
  rw [CallMachine.forall_invisible_iff]
  have hquiet : ∀ cs' c, cs' ++ [c] <+: cs →
      ((machine drv abi).Quiet failed ((machine drv abi).run s cs').2 c
        ↔ Harmless ((machine drv abi).run s cs').2 c) := by
    intro cs' c hpre
    apply State.quiet_iff
    . apply (State.InBounds.of_reachable hs).run
      intro c' hc'
      exact hcs c' (hpre.subset (List.mem_append_left [c] hc'))
    . exact hcs c (hpre.subset (List.mem_append_right cs' List.mem_cons_self))
  exact forall₂_congr fun cs' c => forall_congr' fun hpre => hquiet cs' c hpre

def openedPcd : State .pcd :=
  ⟨fun _ _ => 0, [⟨0, 3, 0⟩]⟩

theorem openedPcd_reachable : (system .pcd .ilp32).Reachable openedPcd :=
  .step (i := .pcdOpen 0 3) (.init (s := ⟨fun _ _ => 0, []⟩) ⟨rfl, fun _ _ _ _ => rfl⟩) trivial
    ⟨trivial, ⟨0, []⟩, rfl⟩

/--
A write faults over zeros that it writes again, a read faults and a seek is refused.
-/
theorem failed_calls_invisible_iff_zeros :
    let cs : List (Call .pcd) := [.pcdWrite 0 (fun _ => 104) 2 0, .pcdWrite 0 (fun _ => 0) 2 1,
      .pcdRead 0 1 1, .pcdLseek 0 513 seekSet]
    ((machine .pcd .ilp32).run openedPcd cs).1
        = [⟨2, []⟩, ⟨-efault, []⟩, ⟨-efault, []⟩, ⟨-einval, []⟩]
      ∧ (machine .pcd .ilp32).Invisible failed openedPcd cs := by
  intro cs
  refine ⟨by decide +kernel, ?_⟩
  have hcs : ∀ c ∈ cs, c.Possible .ilp32 := by
    simp [cs, Call.Possible, Abi.countMax]
  apply (failed_calls_invisible_iff openedPcd_reachable hcs).mpr ?_ cs (List.prefix_refl cs)
  rintro cs' c ⟨rest, hrest⟩
  dsimp only [cs] at hrest
  rcases cs' with _ | ⟨_, _ | ⟨_, _ | ⟨_, cs'⟩⟩⟩
  . cases hrest
    exact fun _ _ hleft => absurd rfl hleft
  . cases hrest
    intro f hf _ i hi
    cases hf
    revert i
    decide +kernel
  . cases hrest
    trivial
  . have hc : c ∈ [Call.pcdLseek 0 513 seekSet] := by
      have hlast : cs' ++ [c] ++ rest = [Call.pcdLseek 0 513 seekSet] := by
        injections
      rw [← hlast]
      simp
    rw [List.mem_singleton.mp hc]
    trivial

theorem faulting_write_seen :
    let cs : List (Call .pcd) := [.pcdWrite 0 (fun _ => 104) 2 1, .pcdRead 0 1 0]
    ¬(machine .pcd .ilp32).Invisible failed openedPcd cs
      ∧ ((machine .pcd .ilp32).run openedPcd cs).1 = [⟨-efault, []⟩, ⟨1, [104]⟩]
      ∧ ((machine .pcd .ilp32).run openedPcd [.pcdRead 0 1 0]).1 = [⟨1, [0]⟩] := by
  intro cs
  have hrun : ((machine .pcd .ilp32).run openedPcd cs).1 = [⟨-efault, []⟩, ⟨1, [104]⟩] := by
    decide
  have hrest : ((machine .pcd .ilp32).run openedPcd [.pcdRead 0 1 0]).1 = [⟨1, [0]⟩] := by
    decide
  refine ⟨?_, hrun, hrest⟩
  intro h
  have hsuccesses : (machine .pcd .ilp32).successes failed openedPcd cs = [.pcdRead 0 1 0] := rfl
  have hreplies := h.1
  rw [hsuccesses, hrest, hrun] at hreplies
  revert hreplies
  decide

end CharDevice
