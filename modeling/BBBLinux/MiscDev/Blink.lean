import BBBLinux.MiscDev.Config
import Mathlib.Algebra.Order.Ring.Int

/-!
This module contains what the timer makes of the configured number of blinks. Each call of
`timer_function` starts its count anew from that number, so all calls of a chain do the same.
-/

namespace MiscDev

variable {s t u : State} {times : Int32} {timer calls : Nat} {fresh : Option Int32}
  {buf : CString.Mem}

/--
The LED after each of the first calls of `timer_function` while the timer is running.
-/
def chain (s : State) (timer : Nat) : Nat → List Bool
  | 0 => []
  | calls + 1 =>
    match s.expire timer with
    | some s => s.led :: chain s timer calls
    | none => []

structure Blinks (times : Int32) (s : State) (timer calls : Nat) : Prop where
  ended : (chain s timer calls).length < calls
  alternates : (chain s timer calls).IsChain (· ≠ ·)
  on : (chain s timer calls).count true = times.toInt

theorem length_chain_of_rearmed (htimer : timer ∈ s.running) (htimes : s.times[timer]? = some times)
    (hrearmed : times + 1 < 20) : (chain s timer calls).length = calls := by
  induction calls generalizing s with
  | zero => rfl
  | succ calls ih =>
    have htimer' : timer ∈ timer :: s.running.erase timer := List.mem_cons_self
    have hexpire : s.expire timer = some
        { s with
          running := timer :: s.running.erase timer
          count := times + 1
          led := times % 2 = 0 } := by
      rw [State.expire, if_pos htimer]
      simp [State.timerFunction, List.getD_eq_getElem?_getD, htimes, hrearmed]
    rw [chain, hexpire, List.length_cons]
    congr 1
    exact ih htimer' htimes

theorem length_chain_of_not_rearmed (honce : s.running.count timer = 1)
    (htimes : s.times[timer]? = some times) (hended : ¬times + 1 < 20) :
    (chain s timer calls).length ≤ 1 := by
  have htimer : timer ∈ s.running := by
    rw [← List.count_pos_iff]
    omega
  have hexpire : s.expire timer = some
      { s with
        running := s.running.erase timer
        count := times + 1
        led := times % 2 = 0 } := by
    rw [State.expire, if_pos htimer]
    simp [State.timerFunction, List.getD_eq_getElem?_getD, htimes, hended]
  have hstopped : timer ∉ s.running.erase timer := by
    rw [← List.count_eq_zero, List.count_erase_self, honce]
  cases calls with
  | zero => exact Nat.zero_le 1
  | succ calls =>
    rw [chain, hexpire, List.length_cons]
    cases calls with
    | zero => exact Nat.le_refl 1
    | succ calls =>
      rw [chain, State.expire, if_neg hstopped]
      exact Nat.le_refl 1

theorem toInt_ge_of_not_rearmed (hpos : 1 ≤ times.toInt) (hended : ¬times + 1 < 20) :
    19 ≤ times.toInt := by
  rw [Int32.lt_iff_toInt_lt, Int32.toInt_add] at hended
  have hbmod : times.toInt < 19 → (times.toInt + (1 : Int32).toInt).bmod (2 ^ 32) = times.toInt + 1 := by
    intro hlt
    have hone : (1 : Int32).toInt = 1 := rfl
    rw [hone]
    apply Int.bmod_eq_of_le <;> omega
  have htwenty : (20 : Int32).toInt = 20 := rfl
  rw [htwenty] at hended
  by_contra hlt
  rw [hbmod (by omega)] at hended
  omega

theorem not_blinks (honce : s.running.count timer = 1) (htimes : s.times[timer]? = some times)
    (hpos : 1 ≤ times.toInt) : ¬Blinks times s timer calls := by
  intro h
  by_cases hrearmed : times + 1 < 20
  . have htimer : timer ∈ s.running := by
      rw [← List.count_pos_iff]
      omega
    have hended := h.ended
    rw [length_chain_of_rearmed htimer htimes hrearmed] at hended
    omega
  . have hlength := @length_chain_of_not_rearmed s times timer calls honce htimes hrearmed
    have hge := toInt_ge_of_not_rearmed hpos hrearmed
    have hcount : (chain s timer calls).count true ≤ (chain s timer calls).length := List.count_le_length
    have hon := h.on
    omega

theorem never_blinks_as_configured (hs : driver.Reachable s) (hpos : 1 ≤ times.toInt)
    (hsend : s.next (.ioctl sendDataCmd times fresh) = some t)
    (hbuf : (localData buf).getD 0 0 = '1'.toUInt8) (hwrite : t.next (.write buf) = some u) :
    ∃ timer, u.gTimerData = some timer ∧ ∀ calls, ¬Blinks times u timer calls := by
  have ⟨log, hlog⟩ := hs.exists_history record
  have hsound := sound_of_reachable hlog
  have hioctl : (s.miscIoctl sendDataCmd times fresh).map Prod.snd = some t := hsend
  cases fresh with
  | none =>
    rw [miscIoctl_null (.inl rfl)] at hioctl
    contradiction
  | some garbage =>
    rw [miscIoctl_send, Option.map_some, Option.some.injEq] at hioctl
    rcases miscWrite_cases hwrite with ⟨_, block, hblock, hu⟩ | ⟨hother, _⟩
    . rw [← hioctl, Option.some.injEq] at hblock
      have hnew : block ∉ s.running := by
        intro hmem
        have hlt : block < s.times.length := hsound.running_lt block hmem
        omega
      have honce : u.running.count block = 1 := by
        rw [hu, ← hioctl, List.count_cons_self, List.count_eq_zero.mpr hnew]
      have htimes : u.times[block]? = some times := by
        rw [hu, ← hioctl, ← hblock]
        exact List.getElem?_concat_length
      refine ⟨block, ?_, fun calls => not_blinks honce htimes hpos⟩
      rw [hu, ← hioctl, ← hblock]
    . contradiction

theorem never_blinks_as_configured_ten :
    ∃ timer, blinking.gTimerData = some timer ∧ ∀ calls, ¬Blinks 10 blinking timer calls :=
  never_blinks_as_configured (.init ⟨false, rfl⟩) (by decide) next_start_configured (by decide)
    next_configured_blinking

theorem not_blinks_ten : ¬∀ times fresh buf s t u, driver.Reachable s → 1 ≤ times.toInt →
    s.next (.ioctl sendDataCmd times fresh) = some t → (localData buf).getD 0 0 = '1'.toUInt8 →
    t.next (.write buf) = some u →
    ∃ timer, u.gTimerData = some timer ∧ ∃ calls, Blinks times u timer calls := by
  intro h
  have ⟨timer, htimer, calls, hblinks⟩ := h 10 (some 0) (CString.text "1") _ _ _ (.init ⟨false, rfl⟩)
    (by decide) next_start_configured (by decide) next_configured_blinking
  cases htimer
  have hended := hblinks.ended
  rw [@length_chain_of_rearmed blinking 10 0 calls (by decide) rfl (by decide)] at hended
  omega

end MiscDev
