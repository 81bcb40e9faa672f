import BBBLinux.MiscDev.Impl

/-!
This module contains when the configuration of the LED round-trips. Every `ioctl` call allocates a new
block for it, so what is in `g_timer_data` afterwards depends on that call alone.
-/

namespace MiscDev

inductive Entry where
  | sent (times : Int32)
  | got (times : Int32)
  -- an unknown command, with `times` of its block
  | invalid (fresh : Option Int32)
  | started (timer : Nat)
  -- by `timer_function`
  | used (timer : Nat) (times : Int32)
  deriving DecidableEq

def record (s : State) : Event → List Entry
  | .ioctl cmd arg fresh =>
    if cmd = sendDataCmd then
      [.sent arg]
    else if cmd = getDataCmd then
      ((s.miscIoctl cmd arg fresh).bind fun call => call.1.config).toList.map Entry.got
    else
      [.invalid fresh]
  | .write buf =>
    if (localData buf).getD 0 0 = '1'.toUInt8 then s.gTimerData.toList.map Entry.started else []
  | .expire timer => s.times[timer]?.toList.map (Entry.used timer)

def lastSent : List Entry → Option Int32
  | [] => none
  | .sent times :: _ => some times
  | .got _ :: log => lastSent log
  | .invalid _ :: log => lastSent log
  | .started _ :: log => lastSent log
  | .used _ _ :: log => lastSent log

/--
What was sent last when the timer was started.
-/
def startedWith (timer : Nat) : List Entry → Option Int32
  | [] => none
  | .started timer' :: log => if timer' = timer then lastSent log else startedWith timer log
  | .sent _ :: log => startedWith timer log
  | .got _ :: log => startedWith timer log
  | .invalid _ :: log => startedWith timer log
  | .used _ _ :: log => startedWith timer log

/--
What came last into `g_timer_data`: by SEND or in the block of another call.
-/
def lastBlock : List Entry → Option Int32
  | [] => none
  | .sent times :: _ => some times
  | .got times :: _ => some times
  | .invalid fresh :: _ => fresh
  | .started _ :: log => lastBlock log
  | .used _ _ :: log => lastBlock log

def Returned : List Entry → Prop
  | [] => True
  | .got times :: log => (∀ sent, lastSent log = some sent → times = sent) ∧ Returned log
  | .used timer times :: log =>
    (∀ sent, startedWith timer log = some sent → times = sent) ∧ Returned log
  | .sent _ :: log => Returned log
  | .invalid _ :: log => Returned log
  | .started _ :: log => Returned log

def loggedDriver : TransitionSystem (State × List Entry) Event :=
  driver.withHistory record

structure RoundTrips (p : State × List Entry) : Prop where
  returned : Returned p.2
  -- what `timer_function` is going to find
  running : ∀ timer ∈ p.1.running, ∀ sent, startedWith timer p.2 = some sent →
    p.1.times[timer]? = some sent

/--
After a SEND, GET gets a block that happens to hold what was sent, and a timer is started right after
a SEND or on such a block.
-/
def Keeps (p : State × List Entry) : Event → Prop
  | .ioctl cmd _ fresh =>
    cmd = getDataCmd → ∀ sent times, lastSent p.2 = some sent → fresh = some times → times = sent
  | .write buf =>
    (localData buf).getD 0 0 = '1'.toUInt8 → ∀ sent times, lastSent p.2 = some sent →
      lastBlock p.2 = some times → times = sent
  | .expire _ => True

inductive Logged (p : State × List Entry) : Event → State × List Entry → Prop where
  | send (arg times : Int32) :
      Logged p (.ioctl sendDataCmd arg (some times))
        ({ p.1 with times := p.1.times ++ [arg], gTimerData := some p.1.times.length },
          .sent arg :: p.2)
  | get (arg times : Int32) :
      Logged p (.ioctl getDataCmd arg (some times))
        ({ p.1 with times := p.1.times ++ [times], gTimerData := some p.1.times.length },
          .got times :: p.2)
  | unknown (cmd : UInt32) (arg : Int32) (fresh : Option Int32) (hcmd : cmd ≠ getDataCmd) :
      Logged p (.ioctl cmd arg fresh) (p.1.kmalloc fresh, .invalid fresh :: p.2)
  | start (buf : CString.Mem) (block : Nat) (hbuf : (localData buf).getD 0 0 = '1'.toUInt8)
      (hblock : p.1.gTimerData = some block) :
      Logged p (.write buf) ({ p.1 with running := block :: p.1.running }, .started block :: p.2)
  | other (buf : CString.Mem) (led : Bool) (hbuf : (localData buf).getD 0 0 ≠ '1'.toUInt8) :
      Logged p (.write buf) ({ p.1 with led := led }, p.2)
  | tick (timer : Nat) (running : List Nat) (count : Int32) (led : Bool)
      (htimer : timer ∈ p.1.running) (hrunning : running ⊆ p.1.running) :
      Logged p (.expire timer)
        ({ p.1 with running := running, count := count, led := led },
          p.1.times[timer]?.toList.map (Entry.used timer) ++ p.2)

section Calls

variable {s s' : State} {cmd : UInt32} {arg times : Int32} {fresh : Option Int32} {buf : CString.Mem}
  {timer : Nat}

theorem miscIoctl_send :
    s.miscIoctl sendDataCmd arg (some times)
      = some ({ ret := 0, config := none },
          { s with times := s.times ++ [arg], gTimerData := some s.times.length }) := by
  simp [State.miscIoctl, State.kmalloc]

theorem miscIoctl_get :
    s.miscIoctl getDataCmd arg (some times)
      = some ({ ret := 0, config := some times },
          { s with times := s.times ++ [times], gTimerData := some s.times.length }) := by
  have hne : getDataCmd ≠ sendDataCmd := by decide
  simp [State.miscIoctl, State.kmalloc, hne]

theorem miscIoctl_null (hcmd : cmd = sendDataCmd ∨ cmd = getDataCmd) :
    s.miscIoctl cmd arg none = none := by
  unfold State.miscIoctl
  dsimp only [State.kmalloc, Option.map_none]
  split
  . rfl
  . next hsend => rw [if_pos (hcmd.resolve_left hsend)]

theorem miscIoctl_unknown (hsend : cmd ≠ sendDataCmd) (hget : cmd ≠ getDataCmd) :
    s.miscIoctl cmd arg fresh = some ({ ret := -1, config := none }, s.kmalloc fresh) := by
  simp only [State.miscIoctl, if_neg hsend, if_neg hget]

theorem miscWrite_cases (h : s.miscWrite buf = some s') :
    (localData buf).getD 0 0 = '1'.toUInt8
      ∧ (∃ block, s.gTimerData = some block ∧ s' = { s with running := block :: s.running })
    ∨ (localData buf).getD 0 0 ≠ '1'.toUInt8 ∧ ∃ led, s' = { s with led := led } := by
  unfold State.miscWrite at h
  dsimp only at h
  split at h
  . next hstart =>
    rw [Option.map_eq_some_iff] at h
    have ⟨block, hblock, hs'⟩ := h
    exact .inl ⟨hstart, block, hblock, hs'.symm⟩
  . next hstart =>
    right
    refine ⟨hstart, ?_⟩
    split at h
    . exact ⟨false, (Option.some.inj h).symm⟩
    . exact ⟨s.led, (Option.some.inj h).symm⟩

theorem expire_eq_some (h : s.expire timer = some s') :
    timer ∈ s.running ∧ ∃ running count led, running ⊆ s.running
      ∧ s' = { s with running := running, count := count, led := led } := by
  unfold State.expire at h
  rw [Option.ite_none_right_eq_some] at h
  have ⟨hmem, hs'⟩ := h
  have herase : s.running.erase timer ⊆ s.running := List.erase_subset
  rw [Option.some.injEq] at hs'
  rw [← hs']
  refine ⟨hmem, ?_⟩
  unfold State.timerFunction
  dsimp only
  split
  . exact ⟨_, _, _, List.cons_subset.mpr ⟨hmem, herase⟩, rfl⟩
  . exact ⟨_, _, _, herase, rfl⟩

end Calls

variable {p q : State × List Entry} {e : Event}

theorem logged_of_step (h : loggedDriver.step p e q) : Logged p e q := by
  have ⟨hnext, hlog⟩ := h
  have hq : q = (q.1, record p.1 e ++ p.2) := by
    rw [← hlog]
  rw [hq]
  cases e with
  | ioctl cmd arg fresh =>
    have hioctl : (p.1.miscIoctl cmd arg fresh).map Prod.snd = some q.1 := hnext
    by_cases hknown : cmd = sendDataCmd ∨ cmd = getDataCmd
    . cases fresh with
      | none =>
        rw [miscIoctl_null hknown] at hioctl
        contradiction
      | some times =>
        rcases hknown with hsend | hget
        . rw [hsend, miscIoctl_send, Option.map_some, Option.some.injEq] at hioctl
          rw [← hioctl, hsend]
          exact .send arg times
        . have hrecord : record p.1 (.ioctl cmd arg (some times)) = [.got times] := by
            rw [hget, record, if_neg (by decide), if_pos rfl, miscIoctl_get]
            rfl
          rw [hget, miscIoctl_get, Option.map_some, Option.some.injEq] at hioctl
          rw [← hioctl, hrecord, hget]
          exact .get arg times
    . rw [not_or] at hknown
      rw [miscIoctl_unknown hknown.1 hknown.2, Option.map_some, Option.some.injEq] at hioctl
      rw [← hioctl, record, if_neg hknown.1, if_neg hknown.2]
      exact .unknown cmd arg fresh hknown.2
  | write buf =>
    rcases miscWrite_cases hnext with ⟨hbuf, block, hblock, hs'⟩ | ⟨hbuf, led, hs'⟩
    . have hrecord : record p.1 (.write buf) = [.started block] := by
        rw [record, if_pos hbuf, hblock]
        rfl
      rw [hs', hrecord]
      exact .start buf block hbuf hblock
    . rw [hs', record, if_neg hbuf]
      exact .other buf led hbuf
  | expire timer =>
    have ⟨hmem, running, count, led, hrunning, hs'⟩ := expire_eq_some hnext
    rw [hs']
    exact .tick timer running count led hmem hrunning

structure Sound (p : State × List Entry) : Prop where
  block : p.1.gTimerData.bind (fun block => p.1.times[block]?) = lastBlock p.2
  block_lt : ∀ block, p.1.gTimerData = some block → block < p.1.times.length
  running_lt : ∀ timer ∈ p.1.running, timer < p.1.times.length

theorem lastBlock_used {log : List Entry} (timer : Nat) (times : Option Int32) :
    lastBlock (times.toList.map (Entry.used timer) ++ log) = lastBlock log := by
  cases times <;> rfl

theorem startedWith_used {log : List Entry} (timer timer' : Nat) (times : Option Int32) :
    startedWith timer (times.toList.map (Entry.used timer') ++ log) = startedWith timer log := by
  cases times <;> rfl

namespace Sound

theorem allocated (h : Sound p) (times : Int32) :
    let s : State := { p.1 with times := p.1.times ++ [times], gTimerData := some p.1.times.length }
    s.gTimerData.bind (fun block => s.times[block]?) = some times
      ∧ (∀ block, s.gTimerData = some block → block < s.times.length)
      ∧ ∀ timer ∈ s.running, timer < s.times.length := by
  intro s
  have hlength : s.times.length = p.1.times.length + 1 := by
    simp only [s, List.length_append, List.length_singleton]
  refine ⟨?_, ?_, ?_⟩
  . simp [s]
  . intro block hblock
    cases hblock
    omega
  . intro timer htimer
    have := h.running_lt timer htimer
    omega

theorem logged (h : Sound p) (hlogged : Logged p e q) : Sound q := by
  cases hlogged with
  | send arg times =>
    have ⟨hblock, hlt, hrunning⟩ := h.allocated arg
    exact ⟨hblock, hlt, hrunning⟩
  | get arg times =>
    have ⟨hblock, hlt, hrunning⟩ := h.allocated times
    exact ⟨hblock, hlt, hrunning⟩
  | unknown cmd arg fresh hcmd =>
    cases fresh with
    | none => exact ⟨rfl, fun _ hblock => by contradiction, h.running_lt⟩
    | some times =>
      have ⟨hblock, hlt, hrunning⟩ := h.allocated times
      exact ⟨hblock, hlt, hrunning⟩
  | start buf block hbuf hblock =>
    refine ⟨h.block, h.block_lt, ?_⟩
    intro timer htimer
    rcases List.mem_cons.mp htimer with heq | hmem
    . rw [heq]
      exact h.block_lt block hblock
    . exact h.running_lt timer hmem
  | other buf led hbuf => exact ⟨h.block, h.block_lt, h.running_lt⟩
  | tick timer running count led htimer hrunning =>
    refine ⟨?_, h.block_lt, ?_⟩
    . rw [lastBlock_used]
      exact h.block
    . intro timer' htimer'
      exact h.running_lt timer' (hrunning htimer')

end Sound

theorem sound_of_reachable {ok : State × List Entry → Event → Prop}
    (h : loggedDriver.ReachableVia ok p) : Sound p := by
  apply h.invariant (P := Sound)
  . intro p ⟨⟨led, hs⟩, hlog⟩
    have hp : p = (.start led, []) := by
      rw [← hs, ← hlog]
    rw [hp]
    exact ⟨rfl, fun _ hblock => by contradiction, fun _ htimer => by contradiction⟩
  . intro p e q hp _ hstep
    exact hp.logged (logged_of_step hstep)

namespace RoundTrips

theorem allocated (hsound : Sound p) (h : RoundTrips p) (times : Int32) :
    ∀ timer ∈ p.1.running, ∀ sent, startedWith timer p.2 = some sent →
      (p.1.times ++ [times])[timer]? = some sent := by
  intro timer htimer sent hsent
  rw [List.getElem?_append_left (hsound.running_lt timer htimer)]
  exact h.running timer htimer sent hsent

theorem logged (hsound : Sound p) (h : RoundTrips p) (hok : Keeps p e) (hlogged : Logged p e q) :
    RoundTrips q := by
  cases hlogged with
  | send arg times => exact ⟨h.returned, allocated hsound h arg⟩
  | get arg times =>
    refine ⟨⟨?_, h.returned⟩, allocated hsound h times⟩
    intro sent hsent
    exact hok rfl sent times hsent rfl
  | unknown cmd arg fresh hcmd =>
    cases fresh with
    | none => exact ⟨h.returned, h.running⟩
    | some times => exact ⟨h.returned, allocated hsound h times⟩
  | start buf block hbuf hblock =>
    refine ⟨h.returned, ?_⟩
    intro timer htimer sent hsent
    rw [startedWith] at hsent
    split at hsent
    . next heq =>
      have htimes := List.getElem?_eq_getElem (hsound.block_lt block hblock)
      have hlast := hsound.block
      rw [hblock, Option.bind_some, htimes] at hlast
      have hsame := hok hbuf sent _ hsent hlast.symm
      rw [← heq, ← hsame]
      exact htimes
    . next hne =>
      rcases List.mem_cons.mp htimer with heq | hmem
      . exact absurd heq.symm hne
      . exact h.running timer hmem sent hsent
  | other buf led hbuf => exact ⟨h.returned, h.running⟩
  | tick timer running count led htimer hrunning =>
    have htimes := List.getElem?_eq_getElem (hsound.running_lt timer htimer)
    constructor
    . rw [htimes]
      refine ⟨?_, h.returned⟩
      intro sent hsent
      have hrun := h.running timer htimer sent hsent
      rw [htimes, Option.some.injEq] at hrun
      exact hrun
    . intro timer' htimer' sent hsent
      rw [startedWith_used] at hsent
      exact h.running timer' (hrunning htimer') sent hsent

end RoundTrips

theorem not_roundTrips_of_not_keeps (hsound : Sound p) (hok : ¬Keeps p e) (hlogged : Logged p e q) :
    ¬RoundTrips q := by
  intro h
  apply hok
  cases hlogged with
  | send arg times =>
    intro hget
    contradiction
  | get arg times =>
    intro _ sent times' hsent htimes
    cases htimes
    exact h.returned.1 sent hsent
  | unknown cmd arg fresh hcmd =>
    intro hget
    contradiction
  | start buf block hbuf hblock =>
    intro _ sent times hsent hlast
    have hstarted : startedWith block (.started block :: p.2) = some sent := by
      rw [startedWith, if_pos rfl, hsent]
    have hrun := h.running block List.mem_cons_self sent hstarted
    rw [← hsound.block, hblock, Option.bind_some] at hlast
    rw [hlast, Option.some.injEq] at hrun
    exact hrun
  | other buf led hbuf =>
    intro hstart
    contradiction
  | tick timer running count led htimer hrunning => trivial

theorem config_round_trips_unless_reallocated (p : State × List Entry) :
    (loggedDriver.ReachableVia Keeps p → RoundTrips p)
      ∧ ∀ e q, loggedDriver.Reachable p → ¬Keeps p e → loggedDriver.step p e q → ¬RoundTrips q := by
  apply TransitionSystem.ReachableVia.kept_unless (Q := Sound) (R := RoundTrips)
  . exact fun _ => sound_of_reachable
  . exact fun _ _ => Iff.rfl
  . intro p ⟨⟨led, hs⟩, hlog⟩
    constructor
    . rw [hlog]
      trivial
    . rw [hs]
      intro timer htimer
      contradiction
  . intro p e q hsound hp hok hstep
    exact hp.logged hsound hok (logged_of_step hstep)
  . intro p e q hsound hok hstep
    exact not_roundTrips_of_not_keeps hsound hok (logged_of_step hstep)

def configured : State where
  times := [10]
  gTimerData := some 0
  running := []
  count := 0
  led := false

def blinking : State :=
  { configured with running := [0] }

theorem next_start_configured :
    (State.start false).next (.ioctl sendDataCmd 10 (some 0)) = some configured := by
  decide

theorem next_configured_blinking : configured.next (.write (CString.text "1")) = some blinking := by
  decide

theorem reachable_configured : loggedDriver.ReachableVia Keeps (configured, [.sent 10]) := by
  have hinit : loggedDriver.init (.start false, []) := ⟨⟨false, rfl⟩, rfl⟩
  have hstep : loggedDriver.step (.start false, []) (.ioctl sendDataCmd 10 (some 0))
      (configured, [.sent 10]) := ⟨next_start_configured, by decide⟩
  apply TransitionSystem.ReachableVia.step (.init hinit) _ hstep
  intro hget
  contradiction

theorem config_round_trips_unless_reallocated_blinking :
    RoundTrips (blinking, [.started 0, .sent 10]) := by
  have hstep : loggedDriver.step (configured, [.sent 10]) (.write (CString.text "1"))
      (blinking, [.started 0, .sent 10]) := ⟨next_configured_blinking, by decide⟩
  apply (config_round_trips_unless_reallocated _).1
  apply reachable_configured.step _ hstep
  intro _ sent times hsent hlast
  cases hsent
  cases hlast
  rfl

theorem not_roundTrips_get_after_send : ¬∀ p, loggedDriver.Reachable p → RoundTrips p := by
  have hnext : configured.next (.ioctl getDataCmd 0 (some 0))
      = some { configured with times := [10, 0], gTimerData := some 1 } := by
    decide
  have hstep : loggedDriver.step (configured, [.sent 10]) (.ioctl getDataCmd 0 (some 0))
      ({ configured with times := [10, 0], gTimerData := some 1 }, [.got 0, .sent 10]) :=
    ⟨hnext, by decide⟩
  intro h
  have hroundTrips := h _ (reachable_configured.reachable.step trivial hstep)
  have hsame := hroundTrips.returned.1 10 rfl
  contradiction

end MiscDev
