import BBBLinux.ThreadSync.ProCon.Impl
import BBBLinux.ThreadSync.Queue.Lemmas

/-!
This module contains the safety of the producers and consumers: their assertions hold and the items
leave the queue in the order in which they were made.
-/

namespace ThreadSync
namespace ProCon

variable {p c : Nat}

namespace State

variable (s : State p c) (t u : Thread p c) (pc : Pc)

@[simp]
theorem goto_pc : (s.goto t pc).pc u = if u = t then pc else s.pc u := by
  simp [goto, Function.update_apply]

@[simp]
theorem goto_mutex : (s.goto t pc).mutex = s.mutex := rfl

@[simp]
theorem goto_queue : (s.goto t pc).queue = s.queue := rfl

@[simp]
theorem unlock_pc : (s.unlock t pc).pc u = if u = t then pc else s.pc u :=
  goto_pc s t u pc

@[simp]
theorem unlock_mutex : (s.unlock t pc).mutex = none := rfl

@[simp]
theorem unlock_queue : (s.unlock t pc).queue = s.queue := rfl

@[simp]
theorem broadcast_pc : s.broadcast.pc t = if s.pc t = .wait then .woken else s.pc t := rfl

@[simp]
theorem broadcast_mutex : s.broadcast.mutex = s.mutex := rfl

@[simp]
theorem broadcast_queue : s.broadcast.queue = s.queue := rfl

@[simp]
theorem round_pc (r : Role) : (s.round r).pc = s.pc := by
  cases r <;> rfl

@[simp]
theorem round_mutex (r : Role) : (s.round r).mutex = s.mutex := by
  cases r <;> rfl

end State

inductive Move (s : State p c) (t : Thread p c) : State p c → Prop where
  | lock (hpc : s.pc t = .lock ∨ s.pc t = .woken) (hfree : s.mutex = none) :
      Move s t { s.goto t .check with mutex := some t }
  | wait (hpc : s.pc t = .check) (hwait : mustWait t.role s.queue = true) :
      Move s t (s.unlock t .wait)
  | proceed (hpc : s.pc t = .check) (hwait : mustWait t.role s.queue = false) :
      Move s t (s.goto t .assert)
  | assertOk (hpc : s.pc t = .assert) (hassert : asserted t.role s.queue = true) :
      Move s t (s.goto t .loop)
  | assertFail (hpc : s.pc t = .assert) (hassert : asserted t.role s.queue = false) :
      Move s t (s.goto t .abort)
  | round (hpc : s.pc t = .loop) (hends : loopEnds t.role s.queue = false) :
      Move s t (s.round t.role)
  | leave (hpc : s.pc t = .loop) (hends : loopEnds t.role s.queue = true) :
      Move s t (s.goto t .broadcast)
  | broadcast (hpc : s.pc t = .broadcast) : Move s t (s.broadcast.goto t .unlock)
  | unlock (hpc : s.pc t = .unlock) : Move s t (s.unlock t .done)
  | wake (hpc : s.pc t = .wait) : Move s t (s.goto t .woken)

theorem Move.of_lock {s s' : State p c} {t : Thread p c} (hpc : s.pc t = .lock ∨ s.pc t = .woken)
    (h : s.lock t = some s') : Move s t s' := by
  unfold State.lock at h
  split at h
  . next hfree =>
    injection h with h
    exact h ▸ .lock hpc hfree
  . contradiction

theorem Move.of_run {s s' : State p c} {t : Thread p c} (h : s.run t = some s') : Move s t s' := by
  unfold State.run at h
  split at h
  . next hpc => exact .of_lock (.inl hpc) h
  . next hpc =>
    split at h
    . next hwait =>
      injection h with h
      exact h ▸ .wait hpc hwait
    . next hwait =>
      injection h with h
      exact h ▸ .proceed hpc (by simpa using hwait)
  . contradiction
  . next hpc => exact .of_lock (.inr hpc) h
  . next hpc =>
    split at h
    . next hassert =>
      injection h with h
      exact h ▸ .assertOk hpc hassert
    . next hassert =>
      injection h with h
      exact h ▸ .assertFail hpc (by simpa using hassert)
  . next hpc =>
    split at h
    . next hends =>
      injection h with h
      exact h ▸ .leave hpc hends
    . next hends =>
      injection h with h
      exact h ▸ .round hpc (by simpa using hends)
  . next hpc =>
    injection h with h
    exact h ▸ .broadcast hpc
  . next hpc =>
    injection h with h
    exact h ▸ .unlock hpc
  . contradiction
  . contradiction

theorem Move.of_step {s s' : State p c} {l : Label p c} (h : (system p c).step s l s') :
    ∃ t, Move s t s' := by
  cases l with
  | run t => exact ⟨t, .of_run h⟩
  | spurious t =>
    simp only [system, TransitionSystem.ofStep, State.next] at h
    split at h
    . next hpc =>
      injection h with h
      exact ⟨t, h ▸ .wake hpc⟩
    . contradiction

theorem invariant_of_move {P : State p c → Prop} (hinit : P (State.init p c))
    (hmove : ∀ s s' t, P s → Move s t s' → P s') {s : State p c} (h : (system p c).Reachable s) :
    P s := by
  apply h.invariant
  . intro s hs
    exact hs ▸ hinit
  . intro s l s' hP _ hstep
    obtain ⟨t, hmove'⟩ := Move.of_step hstep
    exact hmove s s' t hP hmove'

def Pc.Holds : Pc → Prop
  | .check | .assert | .loop | .broadcast | .unlock | .abort => True
  | .lock | .wait | .woken | .done => False

instance : DecidablePred Pc.Holds := fun pc => by
  cases pc <;> unfold Pc.Holds <;> infer_instance

def MutexInv (s : State p c) : Prop :=
  ∀ t, (s.pc t).Holds ↔ s.mutex = some t

namespace MutexInv

variable {s s' : State p c} {t u : Thread p c}

theorem unique (h : MutexInv s) (ht : (s.pc t).Holds) (hu : (s.pc u).Holds) : u = t := by
  have htm := (h t).mp ht
  have hum := (h u).mp hu
  rw [htm] at hum
  injection hum with heq
  exact heq.symm

theorem goto (h : MutexInv s) (ht : (s.pc t).Holds) {pc : Pc} (hpc : pc.Holds) :
    MutexInv (s.goto t pc) := by
  intro u
  rw [State.goto_pc, State.goto_mutex, ← h u]
  split
  . next hu =>
    subst hu
    exact iff_of_true hpc ht
  . rfl

theorem unlock (h : MutexInv s) (ht : (s.pc t).Holds) {pc : Pc} (hpc : ¬pc.Holds) :
    MutexInv (s.unlock t pc) := by
  intro u
  rw [State.unlock_pc, State.unlock_mutex]
  split
  . simpa using hpc
  . next hu =>
    simp only [reduceCtorEq, iff_false]
    intro hholds
    exact hu (h.unique ht hholds)

theorem lock (h : MutexInv s) (hfree : s.mutex = none) :
    MutexInv { s.goto t .check with mutex := some t } := by
  intro u
  have hu : ¬(s.pc u).Holds := by
    rw [h u, hfree]
    simp
  dsimp only
  rw [State.goto_pc]
  split
  . next heq => simp [heq, Pc.Holds]
  . next hne => simp [hu, Ne.symm hne]

theorem broadcast (h : MutexInv s) : MutexInv s.broadcast := by
  intro u
  rw [State.broadcast_pc, State.broadcast_mutex, ← h u]
  split
  . next hwait => simp [hwait, Pc.Holds]
  . rfl

theorem wake (h : MutexInv s) (hpc : s.pc t = .wait) : MutexInv (s.goto t .woken) := by
  intro u
  rw [State.goto_pc, State.goto_mutex, ← h u]
  split
  . next hu => simp [hu, hpc, Pc.Holds]
  . rfl

theorem move (h : MutexInv s) (hmove : Move s t s') : MutexInv s' := by
  cases hmove with
  | lock _ hfree => apply h.lock hfree
  | wait hpc => apply h.unlock (by simp [hpc, Pc.Holds]) (by simp [Pc.Holds])
  | proceed hpc => apply h.goto (by simp [hpc, Pc.Holds]) (by simp [Pc.Holds])
  | assertOk hpc => apply h.goto (by simp [hpc, Pc.Holds]) (by simp [Pc.Holds])
  | assertFail hpc => apply h.goto (by simp [hpc, Pc.Holds]) (by simp [Pc.Holds])
  | round =>
    intro u
    rw [State.round_pc, State.round_mutex]
    exact h u
  | leave hpc => apply h.goto (by simp [hpc, Pc.Holds]) (by simp [Pc.Holds])
  | broadcast hpc => apply h.broadcast.goto (by simp [hpc, Pc.Holds]) (by simp [Pc.Holds])
  | unlock hpc => apply h.unlock (by simp [hpc, Pc.Holds]) (by simp [Pc.Holds])
  | wake hpc => apply h.wake hpc

end MutexInv

theorem mutexInv_of_reachable {s : State p c} (h : (system p c).Reachable s) : MutexInv s := by
  apply invariant_of_move (P := MutexInv) _ (fun _ _ _ => MutexInv.move) h
  intro t
  simp [State.init, Pc.Holds]

end ProCon
end ThreadSync
