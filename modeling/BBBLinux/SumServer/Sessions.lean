import BBBLinux.CString.Numeral
import BBBLinux.SumServer.Impl
import Mathlib.Data.Multiset.MapFold
import Mathlib.Logic.Relation

/-!
This module contains sessions: every client has a sequential server of its own, with a
`client_response` that no other client shares, and the sessions take turns in any order. The responses
are those of the sequential server.
-/

namespace SumServer

open CString

structure Session (κ : Type) extends Connection κ where
  clientResponse : Int32

structure Sessions (κ : Type) where
  sessions : Multiset (Session κ)
  accepted : List κ
  responses : List (κ × Mem)

/--
The number that stands in a response.
-/
def number (response : Mem) : Int :=
  atoi (response.drop (text "Result = ").length)

theorem number_result (clientResponse : Int32) : number (result clientResponse) = clientResponse.toInt := by
  have hlength := length_text_toString clientResponse
  have htitle : (text "Result = ").length = 9 := by decide
  have hfits : (text "Result = " ++ text (toString clientResponse.toInt)).length < bufferSize := by
    rw [List.length_append, bufferSize]
    omega
  unfold number result
  rw [bytes_of_length_lt hfits, List.append_assoc, List.drop_left, atoi_text_toString]

theorem Client.toInt_total (c : Client) :
    c.total.toInt = ((c.ints.map Int32.toInt).sum).bmod (2 ^ 32) :=
  Int32.toInt_ofInt

namespace Sequential

variable {r tempData : Int32} {unread : List Int32}

theorem serve_add (h : tempData ≠ 0) : serve r (tempData :: unread) = serve (r + tempData) unread := by
  rw [serve, handle, if_neg h]

theorem serve_zero : serve r (0 :: unread) = some (result r, 0) := by
  rw [serve, handle, if_pos rfl]

theorem serve_sends (c : Client) (r : Int32) :
    serve r c.sends = some (result (r + c.total), 0) := by
  have ⟨ints, hzero⟩ := c
  unfold Client.sends Client.total
  dsimp only
  induction ints generalizing r with
  | nil =>
    rw [List.nil_append, serve_zero]
    have hsum : r + Int32.ofInt (List.map Int32.toInt []).sum = r := Int32.add_zero r
    rw [hsum]
  | cons tempData ints ih =>
    rw [List.mem_cons, not_or] at hzero
    rw [List.cons_append, serve_add (Ne.symm hzero.1), ih _ hzero.2]
    rw [List.map_cons, List.sum_cons, Int32.ofInt_add, Int32.ofInt_toInt, Int32.add_assoc]

/--
The sequential server answers every client with its own total, since `client_response` is 0 again when
the next one is accepted.
-/
theorem loop_sends (clients : List Client) :
    loop 0 (clients.map Client.sends) = clients.map fun c => result c.total := by
  induction clients with
  | nil => rfl
  | cons c clients ih =>
    rw [List.map_cons, loop, serve_sends]
    dsimp only
    rw [ih, List.map_cons, Int32.zero_add]

end Sequential

namespace Sessions

variable {κ : Type} {clients : κ → Client} {a b : Sessions κ}

def start : Sessions κ where
  sessions := 0
  accepted := []
  responses := []

inductive Step (clients : κ → Client) : Sessions κ → Sessions κ → Prop where
  | accept {a : Sessions κ} (fd : Int) (client : κ) : Step clients a
      { a with
        sessions := ⟨⟨fd, client, (clients client).sends⟩, 0⟩ ::ₘ a.sessions
        accepted := client :: a.accepted }
  | add {a : Sessions κ} {session : Session κ} {others : Multiset (Session κ)} {tempData r : Int32}
      {unread : List Int32} (hsessions : a.sessions = session ::ₘ others)
      (hunread : session.unread = tempData :: unread)
      (hhandle : Sequential.handle session.clientResponse tempData = (none, r)) : Step clients a
        { a with
          sessions := ⟨{ session.toConnection with unread := unread }, r⟩ ::ₘ others }
  | finish {a : Sessions κ} {session : Session κ} {others : Multiset (Session κ)}
      {tempData r : Int32} {unread : List Int32} {response : Mem}
      (hsessions : a.sessions = session ::ₘ others) (hunread : session.unread = tempData :: unread)
      (hhandle : Sequential.handle session.clientResponse tempData = (some response, r)) :
      Step clients a
        { a with
          sessions := others
          responses := (session.client, response) :: a.responses }

abbrev Steps (clients : κ → Client) : Sessions κ → Sessions κ → Prop :=
  Relation.ReflTransGen (Step clients)

structure Inv (clients : κ → Client) (a : Sessions κ) : Prop where
  sessions : ∀ session ∈ a.sessions,
    Sequential.serve session.clientResponse session.unread
      = Sequential.serve 0 (clients session.client).sends
  responses : ∀ response ∈ a.responses,
    Sequential.serve 0 (clients response.1).sends = some (response.2, 0)
  accepted : (a.accepted : Multiset κ)
    = a.sessions.map (fun session => session.client) + (a.responses.map Prod.fst : List κ)

theorem Inv.start : (start : Sessions κ).Inv clients where
  sessions := by
    intro session hsession
    exact absurd hsession (Multiset.notMem_zero _)
  responses := by
    intro response hresponse
    exact absurd hresponse List.not_mem_nil
  accepted := rfl

theorem Inv.step (h : a.Inv clients) (hstep : Step clients a b) : b.Inv clients := by
  cases hstep with
  | accept fd client =>
    constructor
    . intro session hsession
      rcases Multiset.mem_cons.mp hsession with heq | hold
      . rw [heq]
      . exact h.sessions session hold
    . exact h.responses
    . dsimp only
      rw [← Multiset.cons_coe, h.accepted, Multiset.map_cons, Multiset.cons_add]
  | @add session others tempData r unread hsessions hunread hhandle =>
    have hmem : session ∈ a.sessions := hsessions ▸ Multiset.mem_cons_self session others
    constructor
    . intro other hother
      rcases Multiset.mem_cons.mp hother with heq | hold
      . have hserve := h.sessions session hmem
        rw [hunread, Sequential.serve, hhandle] at hserve
        rw [heq]
        exact hserve
      . exact h.sessions other (hsessions ▸ Multiset.mem_cons_of_mem hold)
    . exact h.responses
    . have haccepted := h.accepted
      rw [hsessions, Multiset.map_cons] at haccepted
      dsimp only
      rw [haccepted, Multiset.map_cons]
  | @finish session others tempData r unread response hsessions hunread hhandle =>
    have hmem : session ∈ a.sessions := hsessions ▸ Multiset.mem_cons_self session others
    have hzero : r = 0 := by
      unfold Sequential.handle at hhandle
      split at hhandle
      . exact (Prod.mk.inj hhandle).2.symm
      . have hnone := (Prod.mk.inj hhandle).1
        contradiction
    constructor
    . intro other hother
      exact h.sessions other (hsessions ▸ Multiset.mem_cons_of_mem hother)
    . intro answer hanswer
      rcases List.mem_cons.mp hanswer with heq | hold
      . have hserve := h.sessions session hmem
        rw [hunread, Sequential.serve, hhandle] at hserve
        rw [heq, ← hserve, hzero]
      . exact h.responses answer hold
    . have haccepted := h.accepted
      rw [hsessions, Multiset.map_cons, Multiset.cons_add] at haccepted
      dsimp only
      rw [haccepted, List.map_cons, ← Multiset.cons_coe, Multiset.add_cons]

theorem Inv.steps (h : a.Inv clients) (hsteps : Steps clients a b) : b.Inv clients := by
  induction hsteps with
  | refl => exact h
  | tail _ hstep ih => exact ih.step hstep

theorem Inv.unread_ne_nil {session : Session κ} (h : a.Inv clients) (hmem : session ∈ a.sessions) :
    session.unread ≠ [] := by
  intro hnil
  have hserve := h.sessions session hmem
  rw [hnil, Sequential.serve_sends] at hserve
  contradiction

theorem Inv.response_eq {response : κ × Mem} (h : a.Inv clients) (hmem : response ∈ a.responses) :
    response.2 = result (clients response.1).total := by
  have hserve := h.responses response hmem
  rw [Sequential.serve_sends, Int32.zero_add, Option.some.injEq, Prod.mk.injEq] at hserve
  exact hserve.1.symm

end Sessions

end SumServer
