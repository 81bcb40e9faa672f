import BBBLinux.LittleEndian.Basic
import BBBLinux.SumServer.Sessions

/-!
This module contains one client of `server.c` as a stream of bytes: a `read` returns some of the bytes
that were written and not read yet, and the server takes what it got for one int.
-/

namespace SumServer

open CString

structure Stream where
  -- the ints that the client has written
  written : Nat
  -- the bytes that the server has read
  consumed : Nat
  clientResponse : Int32
  answer : Option Mem
  deriving DecidableEq

inductive StreamEvent where
  | write
  | read (count : Nat)

namespace Stream

variable (c : Client)

def start : Stream where
  written := 0
  consumed := 0
  clientResponse := 0
  answer := none

def unread (s : Stream) : Mem :=
  ((c.sends.take s.written).flatMap LittleEndian.int32).drop s.consumed

def read (s : Stream) (count : Nat) : Stream :=
  let data := (s.unread c).take count
  let buffer := memcpy (List.replicate bufferSize 0) 0 data data.length
  let tempData := LittleEndian.ofBytes buffer
  let (answer, clientResponse) := Sequential.handle s.clientResponse tempData
  { s with consumed := s.consumed + count, clientResponse := clientResponse, answer := answer }

def next (s : Stream) : StreamEvent → Option Stream
  | .write => some { s with written := s.written + 1 }
  | .read count => some (s.read c count)

/--
The server closes the connection when it has answered.
-/
def Possible (s : Stream) : StreamEvent → Prop
  | .write => s.answer = none ∧ s.written < c.sends.length
  | .read count =>
    s.answer = none ∧ 0 < count ∧ count ≤ (s.unread c).length ∧ count ≤ bufferSize

instance (s : Stream) (e : StreamEvent) : Decidable (s.Possible c e) :=
  match e with
  | .write => inferInstanceAs (Decidable (_ ∧ _))
  | .read _ => inferInstanceAs (Decidable (_ ∧ _))

def system : TransitionSystem Stream StreamEvent :=
  .ofGuarded (Possible c) (next c) (· = start)

/--
The answer is the one with the wrapped sum of what the client sent, and comes behind the 0.
-/
structure Answered (s : Stream) : Prop where
  right : ∀ response, s.answer = some response →
    response = result c.total ∧ number response = ((c.ints.map Int32.toInt).sum).bmod (2 ^ 32)
      ∧ s.written = c.sends.length
  -- until then the client or the server can go on
  live : s.answer = none → ∃ e t, (system c).step s e t

/--
A `read` returns one int, behind the last of which there may be a part of the 0, or only bytes of the 0.
-/
def Keeps (s : Stream) : StreamEvent → Prop
  | .write => True
  | .read count =>
    4 * c.ints.length ≤ s.consumed
    ∨ s.consumed % 4 = 0
      ∧ (count = 4 ∨ 4 ≤ count ∧ count < 8 ∧ s.consumed + 4 = 4 * c.ints.length)

instance (s : Stream) (e : StreamEvent) : Decidable (s.Keeps c e) :=
  match e with
  | .write => inferInstanceAs (Decidable True)
  | .read _ => inferInstanceAs (Decidable (_ ∨ _))

variable {c} {s t : Stream} {e : StreamEvent} {count k : Nat} {x : Int32} {rest : List Int32}

theorem length_sends : c.sends.length = c.ints.length + 1 := by
  rw [Client.sends, List.length_append, List.length_singleton]

theorem length_unread : (s.unread c).length = 4 * min s.written (c.ints.length + 1) - s.consumed := by
  unfold unread
  rw [List.length_drop, LittleEndian.length_flatMap LittleEndian.length_int32, List.length_take,
    length_sends]

theorem read_eq : s.read c count =
      let call := Sequential.handle s.clientResponse (LittleEndian.ofBytes ((s.unread c).take count))
      { s with consumed := s.consumed + count, clientResponse := call.2, answer := call.1 } := by
  unfold read
  simp only [memcpy, List.take_zero, List.nil_append, Nat.zero_add, bytes_self, List.drop_replicate,
    LittleEndian.ofBytes_append_zeros]

theorem unread_of_aligned (hconsumed : s.consumed = 4 * k) (hk : k < s.written)
    (hsends : c.sends.drop k = x :: rest) :
    s.unread c = LittleEndian.int32 x
      ++ (rest.take (s.written - (k + 1))).flatMap LittleEndian.int32 := by
  unfold unread
  have hwritten : s.written - k = s.written - (k + 1) + 1 := by omega
  rw [hconsumed, LittleEndian.drop_flatMap LittleEndian.length_int32, List.drop_take, hsends, hwritten,
    List.take_succ_cons, List.flatMap_cons]

theorem drop_sends (hk : k < c.ints.length) :
    ∃ x, x ≠ 0 ∧ c.sends.drop k = x :: c.sends.drop (k + 1) := by
  refine ⟨c.ints[k], ?_, ?_⟩
  . intro hzero
    apply c.zero_notMem
    rw [← hzero]
    exact List.getElem_mem hk
  . have hlt : k < c.sends.length := by
      rw [length_sends]
      omega
    have hx : c.sends[k] = c.ints[k] := List.getElem_append_left hk
    rw [List.drop_eq_getElem_cons hlt, hx]

theorem unread_of_last (hconsumed : 4 * c.ints.length ≤ s.consumed) :
    ∃ k, s.unread c = List.replicate k 0 := by
  unfold unread
  by_cases hwritten : s.written ≤ c.ints.length
  . refine ⟨0, ?_⟩
    apply List.drop_eq_nil_of_le
    rw [LittleEndian.length_flatMap LittleEndian.length_int32]
    have := List.length_take_le s.written c.sends
    omega
  . have htake : c.sends.take s.written = c.sends := by
      apply List.take_of_length_le
      rw [length_sends]
      omega
    have hlength := @LittleEndian.length_flatMap _ _ _ _ c.ints LittleEndian.length_int32
    have hzero : [0].flatMap LittleEndian.int32 = List.replicate 4 0 := rfl
    refine ⟨4 - (s.consumed - 4 * c.ints.length), ?_⟩
    rw [htake, Client.sends, List.flatMap_append, List.drop_append, hlength, hzero, List.drop_replicate,
      List.drop_eq_nil_of_le]
    . rfl
    . rw [hlength]
      exact hconsumed

structure Sound (c : Client) (s : Stream) : Prop where
  written_le : s.written ≤ c.sends.length
  consumed_le : s.consumed ≤ 4 * s.written

/--
What is left is served as the ints are by the sequential server.
-/
structure Whole (c : Client) (s : Stream) : Prop where
  right : ∀ response, s.answer = some response →
    response = result c.total ∧ s.written = c.sends.length
  consumed_lt : s.answer = none → s.consumed < 4 * c.sends.length
  aligned : s.consumed % 4 = 0 ∨ 4 * c.ints.length ≤ s.consumed
  serve : s.answer = none →
    Sequential.serve s.clientResponse (c.sends.drop (min (s.consumed / 4) c.ints.length))
      = some (result c.total, 0)

theorem sound_next (h : s.Sound c) (hpossible : s.Possible c e) (hnext : s.next c e = some t) :
    t.Sound c := by
  have hwritten := h.written_le
  have hconsumed := h.consumed_le
  cases e with
  | write =>
    cases hnext
    refine ⟨hpossible.2, ?_⟩
    dsimp only
    omega
  | read count =>
    obtain ⟨_, _, hcount, _⟩ := hpossible
    rw [length_unread] at hcount
    simp only [next, read_eq, Option.some.injEq] at hnext
    rw [← hnext]
    refine ⟨h.written_le, ?_⟩
    dsimp only
    omega

namespace Whole

theorem start : Stream.start.Whole c where
  right := by
    intro response hresponse
    contradiction
  consumed_lt := by
    intro _
    rw [length_sends]
    exact Nat.mul_pos (by decide) (Nat.succ_pos _)
  aligned := .inl rfl
  serve := by
    intro _
    have hserve := Sequential.serve_sends c 0
    rw [Int32.zero_add] at hserve
    exact hserve

theorem read_int (h : s.Whole c) (hanswer : s.answer = none)
    (hunread : count ≤ (s.unread c).length) (hfour : s.consumed % 4 = 0)
    (hlt : s.consumed < 4 * c.ints.length)
    (hcount : count = 4 ∨ 4 ≤ count ∧ count < 8 ∧ s.consumed + 4 = 4 * c.ints.length) :
    (s.read c count).Whole c := by
  obtain ⟨k, hk⟩ : ∃ k, s.consumed = 4 * k := ⟨s.consumed / 4, by omega⟩
  obtain ⟨x, hx, hsends⟩ := drop_sends (by omega : k < c.ints.length)
  have hdata : LittleEndian.ofBytes ((s.unread c).take count) = x := by
    rw [length_unread] at hunread
    have hfirst : count = (LittleEndian.int32 x).length + (count - 4) := by
      rw [LittleEndian.length_int32]
      omega
    rw [unread_of_aligned hk (by omega) hsends, hfirst, List.take_length_add_append,
      LittleEndian.ofBytes_int32_append]
  have hserve := h.serve hanswer
  have hpart : min (s.consumed / 4) c.ints.length = k := by omega
  have hpart' : min ((s.consumed + count) / 4) c.ints.length = k + 1 := by omega
  rw [hpart, hsends, Sequential.serve_add hx] at hserve
  rw [read_eq, hdata, Sequential.handle, if_neg hx]
  refine ⟨?_, ?_, ?_, ?_⟩
  . intro response hresponse
    contradiction
  . intro _
    rw [length_sends]
    dsimp only
    omega
  . dsimp only
    omega
  . intro _
    dsimp only
    rw [hpart']
    exact hserve

theorem read_zero (h : s.Whole c) (hsound : s.Sound c) (hanswer : s.answer = none)
    (hpos : 0 < count) (hunread : count ≤ (s.unread c).length)
    (hlast : 4 * c.ints.length ≤ s.consumed) : (s.read c count).Whole c := by
  obtain ⟨k, hzeros⟩ := unread_of_last hlast
  have hdata : LittleEndian.ofBytes ((s.unread c).take count) = 0 := by
    rw [hzeros, List.take_replicate, LittleEndian.ofBytes_zeros]
  have hserve := h.serve hanswer
  have hwritten := hsound.written_le
  have hpart : min (s.consumed / 4) c.ints.length = c.ints.length := by omega
  rw [hpart, Client.sends, List.drop_left, Sequential.serve_zero, Option.some.injEq, Prod.mk.injEq]
    at hserve
  rw [length_unread] at hunread
  rw [length_sends] at hwritten
  rw [read_eq, hdata, Sequential.handle, if_pos rfl]
  refine ⟨?_, ?_, ?_, ?_⟩
  . intro response hresponse
    cases hresponse
    refine ⟨hserve.1, ?_⟩
    rw [length_sends]
    dsimp only
    omega
  . intro hnone
    contradiction
  . dsimp only
    omega
  . intro hnone
    contradiction

theorem next (h : s.Whole c) (hsound : s.Sound c) (hpossible : s.Possible c e) (hok : s.Keeps c e)
    (hnext : s.next c e = some t) : t.Whole c := by
  cases e with
  | write =>
    cases hnext
    refine ⟨?_, h.consumed_lt, h.aligned, h.serve⟩
    intro response hresponse
    have hanswer : s.answer = some response := hresponse
    rw [hpossible.1] at hanswer
    contradiction
  | read count =>
    cases hnext
    obtain ⟨hanswer, hpos, hunread, _⟩ := hpossible
    by_cases hlast : 4 * c.ints.length ≤ s.consumed
    . exact h.read_zero hsound hanswer hpos hunread hlast
    . obtain ⟨hfour, hcount⟩ := hok.resolve_left hlast
      exact h.read_int hanswer hunread hfour (not_le.mp hlast) hcount

theorem live (h : s.Whole c) (hanswer : s.answer = none) :
    ∃ e t, s.Keeps c e ∧ (system c).step s e t := by
  by_cases hwritten : s.written < c.sends.length
  . exact ⟨.write, _, trivial, ⟨hanswer, hwritten⟩, rfl⟩
  . have hlt := h.consumed_lt hanswer
    have hunread := @length_unread c s
    rw [length_sends] at hwritten hlt
    by_cases hlast : 4 * c.ints.length ≤ s.consumed
    . refine ⟨.read 1, _, .inl hlast, ⟨hanswer, by decide, ?_, by decide⟩, rfl⟩
      omega
    . have hfour := h.aligned.resolve_right hlast
      refine ⟨.read 4, _, .inr ⟨hfour, .inl rfl⟩, ⟨hanswer, by decide, ?_, by decide⟩, rfl⟩
      omega

end Whole

theorem length_run_le {es : List StreamEvent} (hsound : s.Sound c)
    (hrun : TransitionSystem.Scheduled (Possible c) (next c) (fun _ _ => True) s es) :
    s.written + s.consumed + es.length ≤ 5 * c.sends.length := by
  have hwritten := hsound.written_le
  have hconsumed := hsound.consumed_le
  induction es generalizing s with
  | nil =>
    rw [List.length_nil]
    omega
  | cons e es ih =>
    obtain ⟨_, hpossible, hsome, hrest⟩ := hrun
    obtain ⟨t, hnext⟩ := Option.isSome_iff_exists.mp hsome
    rw [hnext, Option.getD_some] at hrest
    have ht := sound_next hsound hpossible hnext
    have hle := ih ht hrest ht.written_le ht.consumed_le
    rw [List.length_cons]
    cases e with
    | write =>
      cases hnext
      dsimp only at hle
      omega
    | read count =>
      simp only [next, read_eq, Option.some.injEq] at hnext
      have hpos := hpossible.2.1
      rw [← hnext] at hle
      dsimp only at hle
      omega

theorem answered_when_ints_read_whole (c : Client) :
    (∀ s, (system c).ReachableVia (Keeps c) s →
      s.Answered c ∧ (s.answer = none → ∃ e t, s.Keeps c e ∧ (system c).step s e t))
    ∧ ∀ es, TransitionSystem.Scheduled (Possible c) (next c) (fun _ _ => True) start es →
        es.length ≤ 5 * c.sends.length := by
  have hstart : Stream.start.Sound c := ⟨Nat.zero_le _, Nat.zero_le _⟩
  constructor
  . intro s h
    have ⟨_, hwhole⟩ : s.Sound c ∧ s.Whole c := by
      apply h.invariant (P := fun s => s.Sound c ∧ s.Whole c)
      . intro s hs
        rw [hs]
        exact ⟨hstart, .start⟩
      . intro s e t ⟨hsound, hwhole⟩ hok ⟨hpossible, hnext⟩
        exact ⟨sound_next hsound hpossible hnext, hwhole.next hsound hpossible hok hnext⟩
    have hlive := hwhole.live
    refine ⟨⟨?_, ?_⟩, hlive⟩
    . intro response hresponse
      obtain ⟨hresult, hwritten⟩ := hwhole.right response hresponse
      refine ⟨hresult, ?_, hwritten⟩
      rw [hresult, number_result, Client.toInt_total]
    intro hanswer
    obtain ⟨e, t, _, hstep⟩ := hlive hanswer
    exact ⟨e, t, hstep⟩
  . intro es hrun
    have hle := length_run_le hstart hrun
    omega

def fiveSeven : Client where
  ints := [5, 7]
  zero_notMem := by decide

-- the second `read` gets the 7 and two bytes of the 0
def wholeReads : List StreamEvent :=
  [.write, .read 4, .write, .write, .read 6, .read 2]

theorem answered_when_ints_read_whole_fiveSeven :
    (TransitionSystem.runFrom (next fiveSeven) start wholeReads).answer.map cstr
        = some (text "Result = 12")
      ∧ (TransitionSystem.runFrom (next fiveSeven) start wholeReads).Answered fiveSeven := by
  refine ⟨by decide +kernel, ?_⟩
  apply And.left
  apply (answered_when_ints_read_whole fiveSeven).1
  apply TransitionSystem.reachableVia_runFrom
  . exact .init rfl
  . decide +kernel

theorem not_answered_in_one_read : ¬∀ c s, (system c).Reachable s → s.Answered c := by
  intro h
  have hreach : (system fiveSeven).Reachable (TransitionSystem.runFrom (next fiveSeven) start
      [.write, .write, .write, .read 12]) := by
    apply TransitionSystem.reachableVia_runFrom
    . exact .init rfl
    . decide +kernel
  have hstuck : TransitionSystem.runFrom (next fiveSeven) start [.write, .write, .write, .read 12]
      = { written := 3, consumed := 12, clientResponse := 5, answer := none } := by
    decide +kernel
  rw [hstuck] at hreach
  obtain ⟨e, t, hpossible, _⟩ := (h fiveSeven _ hreach).live rfl
  cases e with
  | write => exact absurd hpossible.2 (by decide)
  | read count =>
    have hle : count ≤ 0 := hpossible.2.2.1
    have hpos := hpossible.2.1
    omega

end Stream

end SumServer
