import Mathlib.Data.List.Basic

/-!
This module contains logs of the writes to a family of arrays, newest first, and the contents that
the writes of a log leave behind.
-/

universe u v

structure WriteLog.Entry (ι : Type u) (α : Type v) where
  array : ι
  pos : Nat
  data : List α

abbrev WriteLog (ι : Type u) (α : Type v) :=
  List (WriteLog.Entry ι α)

namespace WriteLog

variable {ι : Type u} {α : Type v} [DecidableEq ι] {j : ι} {i : Nat} {blank : α}

namespace Entry

variable {e : Entry ι α}

def at? (e : Entry ι α) (j : ι) (i : Nat) : Option α :=
  if e.array = j ∧ e.pos ≤ i then
    e.data[i - e.pos]?
  else
    none

theorem at?_of_ne (h : e.array ≠ j) : e.at? j i = none := by
  simp [at?, h]

theorem at?_of_mem (hpos : e.pos ≤ i) (hi : i < e.pos + e.data.length) :
    e.at? e.array i = some (e.data.get ⟨i - e.pos, by omega⟩) := by
  simp [at?, hpos, show i - e.pos < e.data.length by omega]

theorem at?_of_not_mem (h : i < e.pos ∨ e.pos + e.data.length ≤ i) : e.at? j i = none := by
  simp only [at?, ite_eq_right_iff, and_imp, List.getElem?_eq_none_iff]
  omega

end Entry

/--
The value that the last write to cover `i` in the array `j` stored there, `blank` if none has.
-/
def lastWritten (blank : α) : WriteLog ι α → ι → Nat → α
  | [], _, _ => blank
  | e :: log, j, i => (e.at? j i).getD (lastWritten blank log j i)

/--
The arrays `mem`, of the lengths `size`, contain what was written last.
-/
def Agrees (blank : α) (size : ι → Nat) (mem : ι → Nat → α) (log : WriteLog ι α) : Prop :=
  ∀ j i, i < size j → mem j i = lastWritten blank log j i

variable {size : ι → Nat} {mem mem' : ι → Nat → α} {log : WriteLog ι α}

theorem Agrees.cons (h : Agrees blank size mem log) (e : Entry ι α)
    (hmem : ∀ j i, i < size j → mem' j i = (e.at? j i).getD (mem j i)) :
    Agrees blank size mem' (e :: log) := by
  intro j i hi
  rw [hmem j i hi, h j i hi, lastWritten]

end WriteLog
