import BBBLinux.RoutingTable.Select.Lemmas

/-!
This module contains when the rounds of the server are sound: `monitor_fd_set` against the descriptors
that were added and not removed again, and the loop over the clients against both.
-/

namespace RoutingTable

/--
The descriptors that were added and not removed since.
-/
def members : List Call → Finset Int
  | [] => ∅
  | .addToMonitorFdSet fd :: calls => insert fd (members calls)
  | .removeFromMonitorFdSet fd :: calls => (members calls).erase fd
  | .fdIsset _ :: calls => members calls
  | .read _ :: calls => members calls

/--
The loop over the clients has only looked at members.
-/
def Scanned : List Call → Prop
  | [] => True
  | .addToMonitorFdSet _ :: calls => Scanned calls
  | .removeFromMonitorFdSet _ :: calls => Scanned calls
  | .fdIsset fd :: calls => fd ∈ members calls ∧ Scanned calls
  | .read fd :: calls => fd ∈ members calls ∧ Scanned calls

instance decidableScanned : ∀ calls, Decidable (Scanned calls)
  | [] => inferInstanceAs (Decidable True)
  | .addToMonitorFdSet _ :: calls => decidableScanned calls
  | .removeFromMonitorFdSet _ :: calls => decidableScanned calls
  | .fdIsset fd :: calls =>
    have := decidableScanned calls
    inferInstanceAs (Decidable (fd ∈ members calls ∧ Scanned calls))
  | .read fd :: calls =>
    have := decidableScanned calls
    inferInstanceAs (Decidable (fd ∈ members calls ∧ Scanned calls))

theorem add_mem_of_mem_members {fd : Int} {calls : List Call} (h : fd ∈ members calls) :
    .addToMonitorFdSet fd ∈ calls := by
  induction calls with
  | nil => contradiction
  | cons call calls ih =>
    cases call with
    | addToMonitorFdSet fd' =>
      rw [members, Finset.mem_insert] at h
      rcases h with heq | hmem
      . rw [heq]
        exact List.mem_cons_self
      . exact List.mem_cons_of_mem _ (ih hmem)
    | removeFromMonitorFdSet fd' =>
      rw [members] at h
      exact List.mem_cons_of_mem _ (ih (Finset.mem_of_mem_erase h))
    | fdIsset fd' => exact List.mem_cons_of_mem _ (ih h)
    | read fd' => exact List.mem_cons_of_mem _ (ih h)

namespace SelectLoop

variable {s s' : SelectLoop} {pass : Pass} {readFd : Finset Int} {index : Nat} {fd : Int}

def descriptors (s : SelectLoop) : List Int :=
  s.server.monitorFdSet.filter (· ≠ -1)

structure Sound (s : SelectLoop) : Prop where
  nodup : s.descriptors.Nodup
  members : s.descriptors.toFinset = members s.calls
  cloned : cloneToFdSet s.server.monitorFdSet = RoutingTable.members s.calls
  maximum : IsGreatest (RoutingTable.members s.calls : Set Int) (maxFd s.server.monitorFdSet)
  covered : ∀ pending, s.readFd pending = (RoutingTable.members s.calls).filter (pending · = true)
  scanned : Scanned s.calls
  nonneg : ∀ fd ∈ RoutingTable.members s.calls, 0 ≤ fd

/--
A new client finds a free slot, and there is none when the loop over the clients begins.
-/
def Keeps (s : SelectLoop) (pass : Pass) : Prop :=
  if s.server.connectionSocket ∈ s.readFd pass.pending then
    -1 ∈ s.server.monitorFdSet
  else if 0 ∈ s.readFd pass.pending then
    True
  else
    -1 ∉ s.server.monitorFdSet

instance (s : SelectLoop) (pass : Pass) : Decidable (s.Keeps pass) :=
  inferInstanceAs (Decidable (ite _ _ _))

structure Slots (s : SelectLoop) : Prop where
  -- the descriptors of the server itself stay in their slots
  own : 0 ∈ s.server.monitorFdSet ∧ s.server.connectionSocket ∈ s.server.monitorFdSet
  socket_pos : 0 < s.server.connectionSocket
  length : s.server.monitorFdSet.length = maxClientsSupport
  once : ∀ fd, fd ≠ -1 → s.server.monitorFdSet.count fd ≤ 1
  mem : ∀ fd ∈ s.server.monitorFdSet, fd ≠ -1 → fd ∈ members s.calls
  bit : ∀ fd, .addToMonitorFdSet fd ∈ s.calls → HasBit fd

structure Tracked (s : SelectLoop) : Prop where
  mem : ∀ fd ∈ members s.calls, fd ∈ s.server.monitorFdSet
  scanned : Scanned s.calls

namespace Slots

theorem start {connectionSocket : Int} {shm : Shm} (h : 0 < connectionSocket)
    (hlt : connectionSocket < fdSetsize) : (SelectLoop.start connectionSocket shm).Slots := by
  have hset : (SelectLoop.start connectionSocket shm).server.monitorFdSet
      = 0 :: connectionSocket :: List.replicate 30 (-1) := rfl
  have hcalls : (SelectLoop.start connectionSocket shm).calls
      = [.addToMonitorFdSet connectionSocket, .addToMonitorFdSet 0] := rfl
  constructor
  . rw [hset]
    exact ⟨List.mem_cons_self, List.mem_cons_of_mem _ List.mem_cons_self⟩
  . exact h
  . rw [hset]
    rfl
  . intro fd hfd
    have hfree : (List.replicate 30 (-1 : Int)).count fd = 0 := by
      rw [List.count_eq_zero]
      intro hmem
      exact hfd (List.eq_of_mem_replicate hmem)
    rw [hset, List.count_cons, List.count_cons, hfree]
    simp only [beq_iff_eq]
    split <;> split <;> omega
  . intro fd hmem hfd
    rw [hset] at hmem
    rw [hcalls, members, members, Finset.mem_insert, Finset.mem_insert]
    simp only [List.mem_cons, List.mem_replicate] at hmem
    omega
  . intro fd hmem
    rw [hcalls] at hmem
    simp only [List.mem_cons, Call.addToMonitorFdSet.injEq, List.not_mem_nil, or_false] at hmem
    rcases hmem with heq | heq
    . rw [heq]
      exact ⟨Int.le_of_lt h, hlt⟩
    . rw [heq]
      exact ⟨Int.le_refl 0, by decide⟩

theorem members_hasBit (h : s.Slots) (hmem : fd ∈ members s.calls) : HasBit fd :=
  h.bit fd (add_mem_of_mem_members hmem)

theorem members_nonneg (h : s.Slots) (hmem : fd ∈ members s.calls) : 0 ≤ fd :=
  (h.members_hasBit hmem).1

theorem slot (h : s.Slots) (hmem : fd ∈ s.server.monitorFdSet) : fd = -1 ∨ HasBit fd := by
  by_cases hfree : fd = -1
  . exact .inl hfree
  . exact .inr (h.members_hasBit (h.mem fd hmem hfree))

theorem slot_lt (h : s.Slots) (index : Nat) : s.server.monitorFdSet.getD index (-1) < fdSetsize := by
  rw [List.getD_eq_getElem?_getD]
  cases hfd : s.server.monitorFdSet[index]? with
  | none => decide
  | some fd =>
    rw [Option.getD_some]
    rcases h.slot (List.mem_of_getElem? hfd) with heq | hbit
    . rw [heq]
      decide
    . exact hbit.2

theorem free_notMem_members (h : s.Slots) : -1 ∉ members s.calls := by
  intro hmem
  have := h.members_nonneg hmem
  omega

theorem accepted (h : s.Slots) (hbit : HasBit pass.dataSocket)
    (hfresh : .addToMonitorFdSet pass.dataSocket ∉ s.calls) : (s.accepted pass).Slots := by
  have hnonneg := hbit.1
  have hsocket := h.socket_pos
  have hnew : pass.dataSocket ∉ s.server.monitorFdSet := by
    intro hmem
    exact hfresh (add_mem_of_mem_members (h.mem _ hmem (by omega)))
  have hset : (s.accepted pass).server.monitorFdSet
      = replaceFirst (-1) pass.dataSocket s.server.monitorFdSet := rfl
  constructor
  . have hne : s.server.connectionSocket ≠ -1 := by omega
    rw [hset]
    exact ⟨mem_replaceFirst_of_mem h.own.1 (by omega), mem_replaceFirst_of_mem h.own.2 hne⟩
  . exact hsocket
  . rw [hset, length_replaceFirst]
    exact h.length
  . intro fd hfd
    rw [hset]
    by_cases hfree : -1 ∈ s.server.monitorFdSet
    . have hcount := count_replaceFirst pass.dataSocket fd hfree
      have honce := h.once fd hfd
      rw [if_neg hfd] at hcount
      split at hcount
      . next heq =>
        rw [heq, List.count_eq_zero.mpr hnew] at hcount
        rw [heq]
        omega
      . omega
    . rw [replaceFirst_of_notMem hfree]
      exact h.once fd hfd
  . intro fd hmem hfd
    rw [hset] at hmem
    simp only [SelectLoop.accepted, members, Finset.mem_insert]
    apply Or.imp_right _ (mem_replaceFirst hmem)
    intro hold
    exact h.mem fd hold hfd
  . intro fd hmem
    simp only [SelectLoop.accepted, List.mem_cons, Call.addToMonitorFdSet.injEq] at hmem
    rcases hmem with heq | hmem
    . rw [heq]
      exact hbit
    . exact h.bit fd hmem

theorem scans (h : s.Slots) (hsocket : s.server.connectionSocket ∉ readFd) (hzero : 0 ∉ readFd)
    (hscans : Scans readFd s fd s') : s'.Slots := by
  have hown := h.own
  cases hscans with
  | passed => exact ⟨hown, h.socket_pos, h.length, h.once, h.mem, by simpa using h.bit⟩
  | joined clientPidSet hfd =>
    exact ⟨hown, h.socket_pos, h.length, h.once, h.mem, by simpa using h.bit⟩
  | left clientPidSet hfd =>
    have hne : fd ≠ -1 := by omega
    refine ⟨⟨?_, ?_⟩, h.socket_pos, ?_, ?_, ?_, by simpa using h.bit⟩
    . apply mem_replaceFirst_of_mem hown.1
      intro heq
      exact hzero (heq ▸ hfd.2)
    . apply mem_replaceFirst_of_mem hown.2
      intro heq
      exact hsocket (heq ▸ hfd.2)
    . rw [removeFromMonitorFdSet, length_replaceFirst]
      exact h.length
    . intro fd' hfd'
      dsimp only
      by_cases heq : fd' = fd
      . rw [heq, List.count_eq_zero.mpr (notMem_removeFromMonitorFdSet hne (h.once fd hne))]
        omega
      . rw [removeFromMonitorFdSet, count_replaceFirst_of_ne heq hfd']
        exact h.once fd' hfd'
    . intro fd' hmem hfd'
      have hold := h.mem fd' ((mem_replaceFirst hmem).resolve_left hfd') hfd'
      apply Finset.mem_erase_of_ne_of_mem _ hold
      intro heq
      rw [heq] at hmem
      exact notMem_removeFromMonitorFdSet hne (h.once fd hne) hmem

theorem scan (h : s.Slots) (hsocket : s.server.connectionSocket ∉ readFd) (hzero : 0 ∉ readFd)
    (hscan : s.scan pass readFd = some s') : s'.Slots := by
  have hinv : s'.Slots ∧ s'.server.connectionSocket = s.server.connectionSocket := by
    apply IndexedLoop.invariant (P := fun _ t => t.Slots
      ∧ t.server.connectionSocket = s.server.connectionSocket) _ _ hscan
    . exact ⟨h, rfl⟩
    . intro index t t' _ ⟨ht, heq⟩ hslot
      have hscans := scans_of_scanSlot (ht.slot_lt index) hslot
      rw [← heq] at hsocket
      refine ⟨ht.scans hsocket hzero hscans, ?_⟩
      rw [← heq]
      cases hscans <;> rfl
  exact hinv.1

theorem next (h : s.Slots) (hpossible : s.Possible pass) (hnext : s.next pass = some s') :
    s'.Slots := by
  rcases next_eq_some hnext with ⟨hsocket, hne, hs'⟩ | ⟨_, _, hs'⟩ | ⟨hsocket, hzero, hscan⟩
  . have ⟨hbit, hfresh⟩ := (hpossible hsocket).resolve_left hne
    rw [hs']
    exact h.accepted hbit hfresh
  . have hclients : s.server.SameClients (s.server.console pass.console pass.line).1 :=
      Server.console_sameClients
    rw [hs']
    constructor
    . rw [hclients.monitorFdSet, hclients.connectionSocket]
      exact h.own
    . rw [hclients.connectionSocket]
      exact h.socket_pos
    . rw [hclients.monitorFdSet]
      exact h.length
    . rw [hclients.monitorFdSet]
      exact h.once
    . rw [hclients.monitorFdSet]
      exact h.mem
    . exact h.bit
  . exact h.scan hsocket hzero hscan

end Slots

theorem slots_of_reachable {ok : SelectLoop → Pass → Prop} (h : system.ReachableVia ok s) : s.Slots := by
  apply h.invariant (P := Slots)
  . intro s ⟨connectionSocket, hpos, hlt, shm, hs⟩
    rw [hs]
    exact .start hpos hlt
  . intro s pass s' hs _ ⟨hpossible, hnext⟩
    exact hs.next hpossible hnext

namespace Tracked

theorem mem_members_iff (h : s.Tracked) (hslots : s.Slots) :
    fd ∈ members s.calls ↔ fd ∈ s.server.monitorFdSet ∧ fd ≠ -1 := by
  constructor
  . intro hfd
    exact ⟨h.mem fd hfd, (hslots.members_hasBit hfd).ne⟩
  . intro ⟨hfd, hne⟩
    exact hslots.mem fd hfd hne

theorem mem_members_iff_hasBit (h : s.Tracked) (hslots : s.Slots) :
    fd ∈ members s.calls ↔ fd ∈ s.server.monitorFdSet ∧ HasBit fd := by
  constructor
  . intro hfd
    exact ⟨h.mem fd hfd, hslots.members_hasBit hfd⟩
  . intro ⟨hfd, hbit⟩
    exact hslots.mem fd hfd hbit.ne

theorem isGreatest_members (h : s.Tracked) (hslots : s.Slots) :
    IsGreatest (members s.calls : Set Int) (maxFd s.server.monitorFdSet) := by
  have hgreatest : IsGreatest _ (maxFd s.server.monitorFdSet) := isGreatest_maxFd
  have ⟨hmax, hle⟩ := hgreatest
  constructor
  . have hnonneg := hle (.inr ⟨hslots.own.1, by omega⟩)
    rw [Finset.mem_coe, h.mem_members_iff hslots]
    rcases hmax with heq | ⟨hmax, hlt⟩
    . omega
    . exact ⟨hmax, by omega⟩
  . intro fd hfd
    have := hslots.members_nonneg hfd
    rw [Finset.mem_coe, h.mem_members_iff hslots] at hfd
    exact hle (.inr ⟨hfd.1, by omega⟩)

theorem sound (h : s.Tracked) (hslots : s.Slots) : s.Sound := by
  have hcloned : cloneToFdSet s.server.monitorFdSet = members s.calls := by
    ext fd
    rw [mem_cloneToFdSet, h.mem_members_iff_hasBit hslots]
  have hmaximum := h.isGreatest_members hslots
  constructor
  . rw [List.nodup_iff_count_le_one]
    intro fd
    by_cases hfd : fd = -1
    . rw [hfd, List.count_eq_zero.mpr]
      . omega
      . simp [descriptors]
    . rw [descriptors, List.count_filter (by simpa using hfd)]
      exact hslots.once fd hfd
  . ext fd
    rw [List.mem_toFinset, h.mem_members_iff hslots]
    simp [descriptors]
  . exact hcloned
  . exact hmaximum
  . intro pending
    ext fd
    rw [readFd, select, hcloned, Finset.mem_filter, Finset.mem_filter, Bool.and_eq_true,
      decide_eq_true_eq]
    constructor
    . intro ⟨hfd, _, hpending⟩
      exact ⟨hfd, hpending⟩
    . intro ⟨hfd, hpending⟩
      have := hmaximum.2 hfd
      exact ⟨hfd, by omega, hpending⟩
  . exact h.scanned
  . intro fd hfd
    exact hslots.members_nonneg hfd

end Tracked

theorem sound_iff (h : s.Slots) : s.Sound ↔ s.Tracked := by
  constructor
  . intro hsound
    refine ⟨?_, hsound.scanned⟩
    intro fd hmem
    rw [← hsound.members, List.mem_toFinset] at hmem
    exact List.mem_of_mem_filter hmem
  . intro htracked
    exact htracked.sound h

namespace Tracked

theorem start (connectionSocket : Int) (shm : Shm) : (SelectLoop.start connectionSocket shm).Tracked := by
  refine ⟨?_, trivial⟩
  have hset : (SelectLoop.start connectionSocket shm).server.monitorFdSet
      = 0 :: connectionSocket :: List.replicate 30 (-1) := rfl
  intro fd hfd
  simp only [SelectLoop.start, members, Finset.mem_insert, Finset.notMem_empty, or_false] at hfd
  rw [hset]
  simp only [List.mem_cons]
  omega

theorem accepted (h : s.Tracked) (hslot : -1 ∈ s.server.monitorFdSet) (hslots : s.Slots) :
    (s.accepted pass).Tracked := by
  refine ⟨?_, h.scanned⟩
  intro fd hfd
  simp only [SelectLoop.accepted, members, Finset.mem_insert] at hfd
  rcases hfd with heq | hfd
  . rw [heq]
    exact new_mem_replaceFirst hslot
  . have := hslots.members_nonneg hfd
    exact mem_replaceFirst_of_mem (h.mem fd hfd) (by omega)

theorem scans (h : s.Tracked) (hmem : fd ∈ members s.calls) (hscans : Scans readFd s fd s') :
    s'.Tracked := by
  cases hscans with
  | passed => exact ⟨h.mem, hmem, h.scanned⟩
  | joined clientPidSet hfd => exact ⟨h.mem, hmem, hmem, h.scanned⟩
  | left clientPidSet hfd =>
    refine ⟨?_, hmem, hmem, h.scanned⟩
    intro fd' hfd'
    rw [members, Finset.mem_erase] at hfd'
    exact mem_replaceFirst_of_mem (h.mem fd' hfd'.2) hfd'.1

-- no slot from `index` on is free
def Taken (index : Nat) (s : SelectLoop) : Prop :=
  ∀ i fd, index ≤ i → s.server.monitorFdSet[i]? = some fd → fd ≠ -1

theorem taken_scans (hindex : s.server.monitorFdSet[index]? = some fd) (h : Taken index s)
    (hscans : Scans readFd s fd s') : Taken (index + 1) s' := by
  intro i fd' hi hfd'
  cases hscans with
  | passed => exact h i fd' (by omega) hfd'
  | joined clientPidSet hfd => exact h i fd' (by omega) hfd'
  | left clientPidSet hfd =>
    dsimp only at hfd'
    rw [removeFromMonitorFdSet, getElem?_replaceFirst_of_lt hindex (by omega)] at hfd'
    exact h i fd' (by omega) hfd'

theorem scan (h : s.Tracked) (hslots : s.Slots) (hsocket : s.server.connectionSocket ∉ readFd)
    (hzero : 0 ∉ readFd) (hslot : -1 ∉ s.server.monitorFdSet) (hscan : s.scan pass readFd = some s') :
    s'.Tracked := by
  have hinv : s'.Tracked ∧ s'.Slots ∧ s'.server.connectionSocket ∉ readFd
      ∧ Taken maxClientsSupport s' := by
    apply IndexedLoop.invariant (P := fun index t => t.Tracked ∧ t.Slots
      ∧ t.server.connectionSocket ∉ readFd ∧ Taken index t) _ _ hscan
    . refine ⟨h, hslots, hsocket, ?_⟩
      intro i fd _ hfd heq
      rw [heq] at hfd
      exact hslot (List.mem_of_getElem? hfd)
    . intro index t t' hindex ⟨ht, htslots, htsocket, htaken⟩ hslot
      have hscans := scans_of_scanSlot (htslots.slot_lt index) hslot
      have hlt : index < t.server.monitorFdSet.length := by
        rw [htslots.length]
        exact hindex
      have hfd := List.getElem?_eq_getElem hlt
      rw [List.getD_eq_getElem?_getD, hfd, Option.getD_some] at hscans
      have hmem : t.server.monitorFdSet[index] ∈ members t.calls :=
        htslots.mem _ (List.getElem_mem hlt) (htaken index _ (Nat.le_refl index) hfd)
      have hkept : t'.server.connectionSocket = t.server.connectionSocket := by
        cases hscans <;> rfl
      refine ⟨ht.scans hmem hscans, htslots.scans htsocket hzero hscans, ?_, ?_⟩
      . rw [hkept]
        exact htsocket
      . exact taken_scans hfd htaken hscans
  exact hinv.1

theorem next (hslots : s.Slots) (h : s.Tracked) (hok : s.Keeps pass) (hnext : s.next pass = some s') :
    s'.Tracked := by
  unfold Keeps at hok
  rcases next_eq_some hnext with ⟨hsocket, hne, hs'⟩ | ⟨_, _, hs'⟩ | ⟨hsocket, hzero, hscan⟩
  . rw [if_pos hsocket] at hok
    rw [hs']
    exact h.accepted hok hslots
  . have hclients : s.server.SameClients (s.server.console pass.console pass.line).1 :=
      Server.console_sameClients
    rw [hs']
    refine ⟨?_, h.scanned⟩
    rw [hclients.monitorFdSet]
    exact h.mem
  . rw [if_neg hsocket, if_neg hzero] at hok
    exact h.scan hslots hsocket hzero hok hscan

end Tracked

theorem not_scanned_of_free (h : s.Slots) (hsocket : s.server.connectionSocket ∉ readFd)
    (hzero : 0 ∉ readFd) (hslot : -1 ∈ s.server.monitorFdSet) (hscan : s.scan pass readFd = some s') :
    ¬Scanned s'.calls := by
  have hinv : (∃ i, maxClientsSupport ≤ i ∧ s'.server.monitorFdSet[i]? = some (-1)
        ∨ ¬Scanned s'.calls)
      ∧ s'.Slots ∧ s'.server.connectionSocket ∉ readFd := by
    apply IndexedLoop.invariant (P := fun index t =>
      (∃ i, index ≤ i ∧ t.server.monitorFdSet[i]? = some (-1) ∨ ¬Scanned t.calls)
        ∧ t.Slots ∧ t.server.connectionSocket ∉ readFd) _ _ hscan
    . have ⟨i, hi⟩ := List.mem_iff_getElem?.mp hslot
      exact ⟨⟨i, .inl ⟨Nat.zero_le i, hi⟩⟩, h, hsocket⟩
    . intro index t t' hindex ⟨⟨i, hfree⟩, htslots, htsocket⟩ hslot
      have hscans := scans_of_scanSlot (htslots.slot_lt index) hslot
      have hkept : t'.server.connectionSocket = t.server.connectionSocket := by
        cases hscans <;> rfl
      refine ⟨⟨i, ?_⟩, htslots.scans htsocket hzero hscans, ?_⟩
      . rcases hfree with ⟨hle, hi⟩ | hbad
        . by_cases heq : i = index
          -- the scan is at the free slot
          . right
            rw [← heq, List.getD_eq_getElem?_getD, hi, Option.getD_some] at hscans
            cases hscans with
            | passed => exact fun hall => htslots.free_notMem_members hall.1
            | joined clientPidSet hfd => omega
            | left clientPidSet hfd => omega
          . left
            refine ⟨by omega, ?_⟩
            cases hscans with
            | passed => exact hi
            | joined clientPidSet hfd => exact hi
            | left clientPidSet hfd => exact getElem?_replaceFirst_of_new hi
        . right
          intro hall
          apply hbad
          cases hscans with
          | passed => exact hall.2
          | joined clientPidSet hfd => exact hall.2.2
          | left clientPidSet hfd => exact hall.2.2
      . rw [hkept]
        exact htsocket
  have ⟨⟨i, hfree⟩, hslots, _⟩ := hinv
  rcases hfree with ⟨hle, hi⟩ | hbad
  . have hlt := (List.getElem?_eq_some_iff.mp hi).1
    rw [hslots.length] at hlt
    omega
  . exact hbad

theorem not_tracked_of_not_keeps (hslots : s.Slots) (hok : ¬s.Keeps pass)
    (hpossible : s.Possible pass) (hnext : s.next pass = some s') : ¬s'.Tracked := by
  unfold Keeps at hok
  intro htracked
  rcases next_eq_some hnext with ⟨hsocket, hne, hs'⟩ | ⟨hsocket, hzero, hs'⟩ | ⟨hsocket, hzero, hscan⟩
  . rw [if_pos hsocket] at hok
    have ⟨hbit, hfresh⟩ := (hpossible hsocket).resolve_left hne
    have hmem : pass.dataSocket ∈ s'.server.monitorFdSet := by
      apply htracked.mem
      rw [hs']
      exact Finset.mem_insert_self _ _
    have hset : s'.server.monitorFdSet = s.server.monitorFdSet := by
      rw [hs']
      exact replaceFirst_of_notMem hok
    rw [hset] at hmem
    exact hfresh (add_mem_of_mem_members (hslots.mem _ hmem hne))
  . rw [if_neg hsocket, if_pos hzero] at hok
    exact hok trivial
  . rw [if_neg hsocket, if_neg hzero, not_not] at hok
    exact not_scanned_of_free hslots hsocket hzero hok hscan htracked.scanned

theorem rounds_sound_unless_dropped_or_free_slot (s : SelectLoop) :
    (system.ReachableVia Keeps s → s.Sound)
      ∧ ∀ pass s', system.Reachable s → ¬s.Keeps pass → system.step s pass s' → ¬s'.Sound := by
  apply TransitionSystem.ReachableVia.kept_unless (Q := Slots) (R := Tracked)
  . exact fun _ => slots_of_reachable
  . exact fun _ => sound_iff
  . intro s ⟨connectionSocket, _, _, shm, hs⟩
    rw [hs]
    exact .start connectionSocket shm
  . intro s pass s' hslots htracked hok ⟨_, hnext⟩
    exact htracked.next hslots hok hnext
  . intro s pass s' hslots hok ⟨hpossible, hnext⟩
    exact not_tracked_of_not_keeps hslots hok hpossible hnext

def quiet : Pass where
  pending := fun _ => false
  dataSocket := 0
  gone := fun _ => false
  buffer := []
  bufferMac := []
  console := .replying ""
  line := []
  received := fun _ => some []
  outside := fun _ => false

def connecting (fd : Int) : Pass :=
  { quiet with pending := (· = 3), dataSocket := fd }

def announcing (fd pid : Int) : Pass :=
  { quiet with pending := (· = fd), received := fun _ => some (pidBytes pid) }

def crowd : List Pass :=
  (List.range 30).map (fun i => connecting (4 + i)) ++ [announcing 4 100]

theorem rounds_sound_unless_dropped_or_free_slot_crowd :
    (TransitionSystem.runFrom next (start 3 fun _ => none) crowd).Sound := by
  apply (rounds_sound_unless_dropped_or_free_slot _).1
  apply TransitionSystem.reachableVia_runFrom
  . exact .init ⟨3, by decide, by decide, _, rfl⟩
  . decide +kernel

def oneClient : SelectLoop :=
  TransitionSystem.runFrom next (start 3 fun _ => none) [connecting 4, announcing 4 100]

theorem not_sound_oneClient : ¬∀ s, system.Reachable s → s.Sound := by
  intro h
  have hreach : system.Reachable oneClient := by
    apply TransitionSystem.reachableVia_runFrom
    . exact .init ⟨3, by decide, by decide, _, rfl⟩
    . decide +kernel
  have hscanned : ¬Scanned oneClient.calls := by
    decide +kernel
  exact mt Sound.scanned hscanned (h oneClient hreach)

end SelectLoop

end RoutingTable
