import BBBLinux.CharDevice.Lemmas
import BBBLinux.WriteLog.Basic

/-!
This module contains the proof that the character devices are bounded arrays of bytes: over every run
the cursors stay within the devices and a device contains what was written to it last.
-/

namespace CharDevice

variable {abi : Abi} {drv : Driver}

def Call.fd? : Call drv → Option Nat
  | .pcdOpen _ _ => none
  | .pcdRead fd _ _ => some fd
  | .pcdWrite fd _ _ _ => some fd
  | .pcdLseek fd _ _ => some fd

def Call.NoFault : Call drv → Prop
  | .pcdRead _ _ left => left = 0
  | .pcdWrite _ _ _ left => left = 0
  | _ => True

namespace State

variable {s t : State drv} {fd : Nat} {f : File drv} {fPos : Int64} {c : Call drv} {r : Reply}

/--
What a call writes: a successful `pcd_write` stores as many bytes as it returns, at the cursor of its
file.
-/
def written (abi : Abi) (s : State drv) : Call drv → WriteLog (Fin drv.numDevices) UInt8
  | .pcdWrite fd buff count left =>
    match s.files[fd]?, s.call abi (.pcdWrite fd buff count left) with
    | some f, some (r, _) =>
      if 0 ≤ r.ret then
        [⟨f.privateData, f.pos, (List.range r.ret.toNat).map buff⟩]
      else
        []
    | _, _ => []
  | _ => []

def contents (s : State drv) (dev : Fin drv.numDevices) (i : Nat) : UInt8 :=
  s.mem dev i

/--
Everything that a call can do: `pcd_open` adds a file, the other calls change the cursor of their
file and the memory of its device at most.
-/
theorem call_cases (h : s.call abi c = some (r, t)) :
    (c.fd? = none ∧ ∃ f, t = { s with files := s.files ++ [f] })
      ∨ ∃ fd f mem fPos, c.fd? = some fd ∧ s.files[fd]? = some f
        ∧ t = (s.setMem f.privateData mem).setPos fd f fPos := by
  cases c with
  | pcdOpen dev fMode =>
    simp only [call, Driver.pcdOpen_eq, if_true, Option.some.injEq, Prod.mk.injEq] at h
    exact .inl ⟨rfl, _, h.2.symm⟩
  | pcdRead fd count left =>
    simp only [call, Option.bind_eq_bind, Option.bind_eq_some_iff, Option.pure_def,
      Option.some.injEq, Prod.mk.injEq] at h
    obtain ⟨f, hf, _, ht⟩ := h
    refine .inr ⟨fd, f, s.mem f.privateData,
      (drv.pcdRead abi f.privateData (s.mem f.privateData) count f.fPos left).fPos, rfl, hf, ?_⟩
    rw [setMem_self]
    exact ht.symm
  | pcdWrite fd buff count left =>
    simp only [call, Option.bind_eq_bind, Option.bind_eq_some_iff, Option.pure_def,
      Option.some.injEq, Prod.mk.injEq] at h
    obtain ⟨f, hf, _, ht⟩ := h
    exact .inr ⟨fd, f, _, _, rfl, hf, ht.symm⟩
  | pcdLseek fd offset whence =>
    simp only [call, Option.bind_eq_bind, Option.bind_eq_some_iff, Option.pure_def,
      Option.some.injEq, Prod.mk.injEq] at h
    obtain ⟨f, hf, _, ht⟩ := h
    refine .inr ⟨fd, f, s.mem f.privateData, (drv.pcdLseek f.privateData f.fPos offset whence).2,
      rfl, hf, ?_⟩
    rw [setMem_self]
    exact ht.symm

theorem exists_file (h : s.call abi c = some (r, t)) (hfd : c.fd? = some fd) :
    ∃ f, s.files[fd]? = some f := by
  rcases call_cases h with ⟨hnone, _⟩ | ⟨fd', f, _, _, hfd', hf, _⟩
  . rw [hfd] at hnone
    contradiction
  . rw [hfd, Option.some.injEq] at hfd'
    rw [hfd']
    exact ⟨f, hf⟩

theorem call_files (h : s.call abi c = some (r, t)) (hfd : fd < s.files.length)
    (hne : c.fd? ≠ some fd) : t.files[fd]? = s.files[fd]? := by
  rcases call_cases h with ⟨_, f, ht⟩ | ⟨fd', f, mem, fPos, hfd', _, ht⟩
  . rw [ht]
    exact List.getElem?_append_left hfd
  . rw [ht]
    apply List.getElem?_set_ne
    rw [hfd'] at hne
    exact fun heq => hne (congrArg some heq)

theorem call_mem (h : s.call abi c = some (r, t)) {dev : Fin drv.numDevices}
    (hdev : ∀ fd f, c.fd? = some fd → s.files[fd]? = some f → f.privateData ≠ dev) :
    t.mem dev = s.mem dev := by
  rcases call_cases h with ⟨_, f, ht⟩ | ⟨fd, f, mem, fPos, hfd, hf, ht⟩
  . rw [ht]
  . have hne := hdev fd f hfd hf
    simp only [ht, setPos, setMem, Ne.symm hne, if_false]

theorem forall_inBounds_setPos (h : ∀ g ∈ s.files, g.InBounds)
    (hf : File.InBounds { f with fPos := fPos }) : ∀ g ∈ (s.setPos fd f fPos).files, g.InBounds := by
  intro g hg
  cases List.mem_or_eq_of_mem_set hg with
  | inl hmem => exact h g hmem
  | inr heq =>
    rw [heq]
    exact hf

end State

/--
What holds of every state and of the log of the writes so far.
-/
structure Inv (s : State drv) (log : WriteLog (Fin drv.numDevices) UInt8) : Prop where
  inBounds : ∀ f ∈ s.files, f.InBounds
  agrees : WriteLog.Agrees 0 drv.size s.contents log

namespace Inv

variable {s t : State drv} {log : WriteLog (Fin drv.numDevices) UInt8} {fd : Nat} {f : File drv}
  {c : Call drv}

theorem file_inBounds (h : Inv s log) (hf : s.files[fd]? = some f) : f.InBounds :=
  h.inBounds f (List.mem_of_getElem? hf)

theorem setPos (h : Inv s log) {fPos : Int64} (hf : File.InBounds { f with fPos := fPos }) :
    Inv (s.setPos fd f fPos) log where
  inBounds := State.forall_inBounds_setPos h.inBounds hf
  agrees := h.agrees

/--
A write of `k` bytes that fit into the device is the newest entry of the log.
-/
theorem setMem (h : Inv s log) (buff : Nat → UInt8) {k : Nat} :
    Inv (s.setMem f.privateData ((s.mem f.privateData).store f.pos buff k))
      (⟨f.privateData, f.pos, (List.range k).map buff⟩ :: log) where
  inBounds := h.inBounds
  agrees := by
    apply h.agrees.cons
    intro dev i _
    simp only [State.contents, State.setMem]
    by_cases hdev : f.privateData = dev
    . subst hdev
      rw [if_pos rfl]
      by_cases hi : f.pos ≤ i ∧ i < f.pos + k
      . rw [Memory.store_of_mem hi.1 hi.2, WriteLog.Entry.at?_of_mem hi.1 (by simpa using hi.2)]
        simp
      . have hi : i < f.pos ∨ f.pos + k ≤ i := by omega
        rw [Memory.store_of_not_mem hi, WriteLog.Entry.at?_of_not_mem (by simpa using hi),
          Option.getD_none]
    . rw [WriteLog.Entry.at?_of_ne hdev, if_neg (Ne.symm hdev), Option.getD_none]

theorem step (h : Inv s log) (hfault : c.NoFault) (hstep : (system drv abi).step s c t) :
    Inv t (s.written abi c ++ log) := by
  have ⟨hpossible, r, hcall⟩ := hstep
  cases c with
  | pcdOpen dev fMode =>
    simp only [State.call, Driver.pcdOpen_eq, if_true, Option.some.injEq, Prod.mk.injEq] at hcall
    rw [← hcall.2]
    refine ⟨?_, h.agrees⟩
    intro f hf
    cases List.mem_append.mp hf with
    | inl hmem => exact h.inBounds f hmem
    | inr hnew =>
      rw [List.mem_singleton.mp hnew]
      exact File.inBounds_of_eq_zero rfl
  | pcdRead fd count left =>
    obtain ⟨f, hf⟩ := State.exists_file hcall rfl
    have hbounds := h.file_inBounds hf
    have hpos := hbounds.pos_le
    simp only [Call.NoFault] at hfault
    rw [hfault, State.call_read hf hbounds hpossible, Option.some.injEq, Prod.mk.injEq] at hcall
    rw [← hcall.2]
    exact h.setPos (File.inBounds_ofNat (by omega))
  | pcdWrite fd buff count left =>
    obtain ⟨f, hf⟩ := State.exists_file hcall rfl
    have hbounds := h.file_inBounds hf
    have hpos := hbounds.pos_le
    have hwrite := State.call_write hf hbounds hpossible buff
    simp only [Call.NoFault] at hfault
    subst hfault
    simp only [State.written, hf, hwrite]
    rw [hwrite] at hcall
    split at hcall
    next hk =>
      rw [Option.some.injEq, Prod.mk.injEq] at hcall
      rw [← hcall.2]
      simpa [hk, enomem] using h
    next hk =>
      rw [Option.some.injEq, Prod.mk.injEq] at hcall
      rw [← hcall.2]
      simp only [hk, if_false, Int.natCast_nonneg, if_true, Int.toNat_natCast,
        List.singleton_append]
      exact (h.setMem buff).setPos (File.inBounds_ofNat (by omega))
  | pcdLseek fd offset whence =>
    obtain ⟨f, hf⟩ := State.exists_file hcall rfl
    have hbounds := h.file_inBounds hf
    have hseek := lseek_inBounds hbounds.1 hbounds.le_maxsize offset whence
    rw [Driver.maxsize_eq_size] at hseek
    rw [State.call_lseek hf, Option.some.injEq, Prod.mk.injEq] at hcall
    rw [← hcall.2]
    exact h.setPos hseek

end Inv

/--
The runs of the system with the log of what they wrote.
-/
abbrev history (drv : Driver) (abi : Abi) :
    TransitionSystem (State drv × WriteLog (Fin drv.numDevices) UInt8) (Call drv) :=
  (system drv abi).withHistory (State.written abi)

theorem Inv.of_reachable {p : State drv × WriteLog (Fin drv.numDevices) UInt8}
    (h : (history drv abi).ReachableVia (fun _ c => c.NoFault) p) : Inv p.1 p.2 := by
  apply h.invariant
  . rintro ⟨s, log⟩ ⟨⟨hfiles, hmem⟩, rfl⟩
    refine ⟨?_, ?_⟩
    . intro f hf
      simp only at hfiles
      rw [hfiles] at hf
      exact absurd hf List.not_mem_nil
    . intro dev i hi
      apply hmem dev i (Int.natCast_nonneg i)
      rw [Driver.maxsize_eq_size]
      exact_mod_cast hi
  . rintro ⟨s, log⟩ c ⟨t, log'⟩ h hfault ⟨hstep, rfl⟩
    exact h.step hfault hstep

/--
From `s` to `t` the cursor of the file moves on by `k`, and no other file changes.
-/
structure State.Advances (s t : State drv) (fd : Nat) (f : File drv) (k : Nat) : Prop where
  file : ∃ fPos, t.files[fd]? = some { f with fPos := fPos } ∧ fPos.toInt = f.fPos.toInt + k
  others : ∀ fd', fd' ≠ fd → t.files[fd']? = s.files[fd']?

/--
From `s` to `t` the first `k` bytes of `buff` are stored at `pos`, and nothing else.
-/
structure State.Stores (s t : State drv) (dev : Fin drv.numDevices) (pos : Nat) (buff : Nat → UInt8)
    (k : Nat) : Prop where
  stored : ∀ i < k, t.mem dev (pos + i : Nat) = buff i
  rest : ∀ i : Int, i < pos ∨ pos + k ≤ i → t.mem dev i = s.mem dev i
  others : ∀ dev', dev' ≠ dev → t.mem dev' = s.mem dev'

theorem State.advances_setPos {s : State drv} {fd : Nat} {f : File drv} (mem : Memory)
    (hf : s.files[fd]? = some f) (hbounds : f.InBounds) {k : Nat} (hk : k ≤ f.size - f.pos) :
    s.Advances ((s.setMem f.privateData mem).setPos fd f (Int64.ofNat (f.pos + k))) fd f k where
  file := by
    have hlt : fd < s.files.length := (List.getElem?_eq_some_iff.mp hf).1
    refine ⟨Int64.ofNat (f.pos + k), List.getElem?_set_self hlt, ?_⟩
    have hpos := hbounds.pos_le
    have hsize := f.size_lt
    have hnonneg := hbounds.1
    rw [Int64.toInt_ofNat_of_lt (by omega)]
    unfold File.pos
    omega
  others := by
    intro fd' hne
    exact List.getElem?_set_ne (Ne.symm hne)

theorem State.stores_setMem (s : State drv) (dev : Fin drv.numDevices) (pos : Nat) (buff : Nat → UInt8)
    (k fd : Nat) (f : File drv) (fPos : Int64) :
    s.Stores ((s.setMem dev ((s.mem dev).store pos buff k)).setPos fd f fPos) dev pos buff k where
  stored := by
    intro i hi
    simp only [State.setPos, State.setMem, if_true]
    rw [Memory.store_of_mem (Nat.le_add_right pos i) (by omega), Nat.add_sub_cancel_left]
  rest := by
    intro i hi
    simp only [State.setPos, State.setMem, if_true, Memory.store]
    rw [if_neg (by omega)]
  others := by
    intro dev' hne
    simp only [State.setPos, State.setMem, if_neg hne]

theorem bounded_byte_arrays {s : State drv} {log : WriteLog (Fin drv.numDevices) UInt8}
    (h : (history drv abi).ReachableVia (fun _ c => c.NoFault) (s, log)) :
    (∀ f ∈ s.files, 0 ≤ f.fPos.toInt ∧ f.fPos.toInt ≤ f.size)
      ∧ (∀ dev fMode, ∃ t, s.call abi (.pcdOpen dev fMode) = some (⟨0, []⟩, t)
          ∧ t.files = s.files ++ [⟨dev, fMode, 0⟩] ∧ t.mem = s.mem)
      ∧ (∀ fd f count, s.files[fd]? = some f → count ≤ abi.countMax →
          let k := min count (f.size - f.pos)
          ∃ t, s.call abi (.pcdRead fd count 0) = some
              (⟨k, (List.range k).map fun i => log.lastWritten 0 f.privateData (f.pos + i)⟩, t)
            ∧ s.Advances t fd f k ∧ t.mem = s.mem)
      ∧ (∀ fd f buff count, s.files[fd]? = some f → count ≤ abi.countMax →
          let k := min count (f.size - f.pos)
          if k = 0 then
            s.call abi (.pcdWrite fd buff count 0) = some (⟨-enomem, []⟩, s)
          else
            ∃ t, s.call abi (.pcdWrite fd buff count 0) = some (⟨k, []⟩, t)
              ∧ s.Advances t fd f k ∧ s.Stores t f.privateData f.pos buff k)
      ∧ ∀ c r t, s.call abi c = some (r, t) →
          (∀ fd < s.files.length, c.fd? ≠ some fd → t.files[fd]? = s.files[fd]?)
            ∧ ∀ dev, (∀ fd f, c.fd? = some fd → s.files[fd]? = some f → f.privateData ≠ dev) →
              t.mem dev = s.mem dev := by
  have hinv : Inv s log := Inv.of_reachable h
  refine ⟨hinv.inBounds, ?_, ?_, ?_, ?_⟩
  . intro dev fMode
    exact ⟨{ s with files := s.files ++ [⟨dev, fMode, 0⟩] }, by simp [State.call], rfl, rfl⟩
  . intro fd f count hf hcount k
    have hbounds := hinv.file_inBounds hf
    have hpos := hbounds.pos_le
    have hout : ∀ i ∈ List.range k,
        s.mem f.privateData (f.pos + i : Nat) = log.lastWritten 0 f.privateData (f.pos + i) := by
      intro i hi
      rw [List.mem_range] at hi
      apply hinv.agrees f.privateData (f.pos + i)
      have hsize : drv.size f.privateData = f.size := rfl
      omega
    have hadvances := State.advances_setPos (s.mem f.privateData) hf hbounds (Nat.min_le_right count _)
    rw [State.setMem_self] at hadvances
    refine ⟨_, ?_, hadvances, rfl⟩
    rw [State.call_read hf hbounds hcount, List.map_congr_left hout]
  . intro fd f buff count hf hcount k
    have hbounds := hinv.file_inBounds hf
    have hcall := State.call_write hf hbounds hcount buff
    dsimp only at hcall
    split
    . next hk =>
      rw [if_pos hk] at hcall
      exact hcall
    . next hk =>
      rw [if_neg hk] at hcall
      exact ⟨_, hcall, State.advances_setPos _ hf hbounds (Nat.min_le_right count _),
        State.stores_setMem s f.privateData f.pos buff k fd f _⟩
  . intro c r t hcall
    exact ⟨fun _ hfd hne => State.call_files hcall hfd hne, fun _ hdev => State.call_mem hcall hdev⟩

theorem reachable_call {s t : State drv} {log : WriteLog (Fin drv.numDevices) UInt8} {r : Reply}
    (c : Call drv) (h : (history drv abi).ReachableVia (fun _ c => c.NoFault) (s, log))
    (hfault : c.NoFault) (hpossible : c.Possible abi) (hcall : s.call abi c = some (r, t)) :
    (history drv abi).ReachableVia (fun _ c => c.NoFault) (t, s.written abi c ++ log) :=
  .step h hfault ⟨⟨hpossible, r, hcall⟩, rfl⟩

/--
One file writes "hi" and "!", another one reads two bytes and then three.
-/
theorem bounded_byte_arrays_twice :
    ∃ (s t : State .pcd) (log : WriteLog (Fin (Driver.numDevices .pcd)) UInt8),
      (history .pcd .ilp32).ReachableVia (fun _ c => c.NoFault) (s, log)
        ∧ s.files.map (fun f => f.fPos.toInt) = [3, 2]
        ∧ s.call .ilp32 (.pcdRead 1 3 0) = some (⟨3, [33, 0, 0]⟩, t)
        ∧ t.files[0]?.map (fun f => f.fPos.toInt) = some 3
        ∧ t.files[1]?.map (fun f => f.fPos.toInt) = some 5 := by
  have hinit : (history .pcd .ilp32).ReachableVia (fun _ c => c.NoFault) (⟨fun _ _ => 0, []⟩, []) :=
    .init ⟨⟨rfl, fun _ _ _ _ => rfl⟩, rfl⟩
  have hopen := reachable_call (.pcdOpen 0 3) hinit trivial trivial rfl
  have hopen' := reachable_call (.pcdOpen 0 1) hopen trivial trivial rfl
  have hcount : ∀ count < 4, count ≤ Abi.ilp32.countMax := by decide
  have hwrite := reachable_call (.pcdWrite 0 (fun i => if i = 0 then 104 else 105) 2 0) hopen' rfl
    (hcount 2 (by decide)) rfl
  have hwrite' := reachable_call (.pcdWrite 0 (fun _ => 33) 1 0) hwrite rfl (hcount 1 (by decide)) rfl
  have hread := reachable_call (.pcdRead 1 2 0) hwrite' rfl (hcount 2 (by decide)) rfl
  obtain ⟨t, hcall, hadvances, _⟩ :=
    (bounded_byte_arrays hread).2.2.1 1 ⟨0, 1, 2⟩ 3 rfl (by decide)
  refine ⟨_, t, _, hread, by decide +kernel, ?_, ?_, ?_⟩
  . rw [hcall]
    rfl
  . rw [hadvances.others 0 (by decide)]
    rfl
  . obtain ⟨fPos, hfile, hpos⟩ := hadvances.file
    rw [hfile, Option.map_some, hpos]
    rfl

end CharDevice
