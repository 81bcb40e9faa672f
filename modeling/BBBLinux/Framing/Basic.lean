import Mathlib.Data.List.Basic

/-!
This module contains streams that are written in frames of one size. A reader that always takes as much as
one frame gets them back one by one, although the stream does not keep their bounds.
-/

universe u

namespace Framing

variable {α : Type u} {k : Nat} {stream stream' frame : List α} {frames frames' : List (List α)}

/--
The unread part of the stream is what the unread frames of size `k` have in them.
-/
structure Framed (k : Nat) (stream : List α) (frames : List (List α)) : Prop where
  flatten : stream = frames.flatten
  length : ∀ frame ∈ frames, frame.length = k

namespace Framed

theorem nil : Framed k ([] : List α) [] :=
  ⟨rfl, nofun⟩

theorem append (h : Framed k stream frames) (h' : Framed k stream' frames') :
    Framed k (stream ++ stream') (frames ++ frames') := by
  constructor
  . rw [h.flatten, h'.flatten, List.flatten_append]
  . intro frame hframe
    cases List.mem_append.mp hframe with
    | inl hframe => exact h.length frame hframe
    | inr hframe => exact h'.length frame hframe

theorem take (h : Framed k stream (frame :: frames)) : stream.take k = frame := by
  rw [h.flatten, List.flatten_cons]
  exact List.take_left' (h.length frame List.mem_cons_self)

theorem drop (h : Framed k stream (frame :: frames)) : Framed k (stream.drop k) frames := by
  constructor
  . rw [h.flatten, List.flatten_cons]
    exact List.drop_left' (h.length frame List.mem_cons_self)
  . intro frame' hframe'
    exact h.length frame' (List.mem_cons_of_mem frame hframe')

theorem eq_nil_iff (hk : 0 < k) (h : Framed k stream frames) : stream = [] ↔ frames = [] := by
  rw [h.flatten]
  cases frames with
  | nil => simp
  | cons frame frames =>
    have hlength := h.length frame List.mem_cons_self
    rw [List.flatten_cons]
    simp only [List.append_eq_nil_iff, reduceCtorEq, iff_false, not_and]
    intro hnil
    rw [hnil, List.length_nil] at hlength
    omega

end Framed

end Framing
