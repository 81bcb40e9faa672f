import BBBLinux.LinkedList.Basic
import Mathlib.Data.List.Basic

/-!
This module contains what functions on linked lists are to do with the memory: append a node, update the
records of a key, take out the first node of a key and free all. The functions may run out of fuel.
-/

universe u v w

namespace LinkedList

variable {α : Type u} {β : Type v}

/--
With enough fuel `f` gives `b`.
-/
def Runs (f : Nat → Option β) (b : β) : Prop :=
  ∃ n, ∀ fuel ≥ n, f fuel = some b

theorem Runs.pure (b : β) : Runs (fun _ => some b) b :=
  ⟨0, fun _ _ => rfl⟩

theorem Runs.bind {γ : Type w} {f : Nat → Option β} {g : Nat → β → Option γ} {b : β} {c : γ}
    (hf : Runs f b) (hg : Runs (fun fuel => g fuel b) c) :
    Runs (fun fuel => (f fuel).bind (g fuel)) c := by
  obtain ⟨n, hn⟩ := hf
  obtain ⟨m, hm⟩ := hg
  exists max n m
  intro fuel hfuel
  simp only [hn fuel (Nat.le_trans (Nat.le_max_left n m) hfuel), Option.bind_some]
  exact hm fuel (Nat.le_trans (Nat.le_max_right n m) hfuel)

theorem Runs.map {γ : Type w} {f : Nat → Option β} {b : β} (hf : Runs f b) (g : β → γ) :
    Runs (fun fuel => (f fuel).map g) (g b) := by
  obtain ⟨n, hn⟩ := hf
  exists n
  intro fuel hfuel
  simp only [hn fuel hfuel, Option.map_some]

theorem Runs.unique {f : Nat → Option β} {b b' : β} (h : Runs f b) (h' : Runs f b') : b = b' := by
  obtain ⟨n, hn⟩ := h
  obtain ⟨n', hn'⟩ := h'
  have heq := hn (max n n') (Nat.le_max_left n n')
  rw [hn' (max n n') (Nat.le_max_right n n'), Option.some.injEq] at heq
  exact heq.symm

/--
The nodes of `cs` and their records have been freed and nothing else.
-/
structure Freed (h h' : Heap α) (cs : List (Cell α)) : Prop where
  node : ∀ p, h'.node p = none ↔ h.node p = none ∨ p ∈ cs.map Cell.addr
  record : ∀ r, h'.record r = if r ∈ cs.map Cell.info then none else h.record r

theorem Freed.nil (h : Heap α) : Freed h h [] where
  node := by simp
  record := by simp

theorem Freed.cons {h h' : Heap α} {c : Cell α} {cs : List (Cell α)} (hfreed : Freed (h.without c) h' cs) :
    Freed h h' (c :: cs) where
  node := by
    intro p
    rw [hfreed.node, Heap.without_node, List.map_cons, List.mem_cons]
    split
    . next heq => simp [heq]
    . next hne => simp [hne]
  record := by
    intro r
    rw [hfreed.record, Heap.without_record, List.map_cons]
    by_cases hr : r ∈ cs.map Cell.info
    . rw [if_pos hr, if_pos (List.mem_cons_of_mem c.info hr)]
    . rw [if_neg hr]
      simp only [List.mem_cons, hr, or_false]

section Functions

variable {κ : Type w} [DecidableEq κ] (key : α → κ)

def Cell.overwrite (value : α) (c : Cell α) : Cell α :=
  if key c.value = key value then { c with value := value } else c

section

variable {key} {value : α} {c : Cell α}

@[simp]
theorem Cell.overwrite_addr : (c.overwrite key value).addr = c.addr := by
  unfold Cell.overwrite
  split <;> rfl

@[simp]
theorem Cell.overwrite_info : (c.overwrite key value).info = c.info := by
  unfold Cell.overwrite
  split <;> rfl

theorem Cell.overwrite_value :
    (c.overwrite key value).value = if key c.value = key value then value else c.value := by
  unfold Cell.overwrite
  split <;> rfl

theorem Cell.key_overwrite : key (c.overwrite key value).value = key c.value := by
  rw [Cell.overwrite_value]
  split
  . next heq => rw [heq]
  . rfl

end

def AppendsLast (add : Nat → Heap α → Option Addr → Addr → Addr → Option (Heap α × Option Addr)) :
    Prop :=
  ∀ h head cs input temp value, Represents h head cs → h.record input = some value →
    h.node temp = none → ∃ h' head', Runs (fun fuel => add fuel h head input temp) (h', head')
      ∧ Segment h' head' (cs ++ [{ addr := temp, info := input, value := value }]) none
      ∧ h'.record = h.record
      ∧ ∀ p, p ≠ temp → p ∉ cs.map Cell.addr → h'.node p = h.node p

def UpdatesAll (update : Nat → Heap α → Option Addr → Addr → Option (Heap α × Option Addr)) : Prop :=
  ∀ h head cs input value, Represents h head cs → h.record input = some value →
    ∃ h', Runs (fun fuel => update fuel h head input) (h', head)
      ∧ Represents h' head (cs.map (Cell.overwrite key value))
      ∧ (cs.map (Cell.overwrite key value)).map (fun c => key c.value) = cs.map (fun c => key c.value)
      ∧ h'.node = h.node
      ∧ ∀ r, r ∉ cs.map Cell.info → h'.record r = h.record r

def RemovesFirst (remove : Nat → Heap α → Option Addr → Addr → Option (Heap α × Option Addr)) : Prop :=
  ∀ h head cs input value, Represents h head cs → h.record input = some value →
    ∃ h' head', Runs (fun fuel => remove fuel h head input) (h', head')
      ∧ Represents h' head' (cs.eraseP fun c => decide (key c.value = key value))
      ∧ Freed h h' (cs.find? fun c => decide (key c.value = key value)).toList
      ∧ (∀ p, p ∉ cs.map Cell.addr → h'.node p = h.node p)
      ∧ ((∀ c ∈ cs, key c.value ≠ key value) → h' = h ∧ head' = head)

/--
A block that was freed cannot be freed again, so each of them is freed exactly once.
-/
def FreesAll (flush : Nat → Heap α → Option Addr → Option (Heap α × Option Addr)) : Prop :=
  ∀ h head cs, Represents h head cs →
    ∃ h', Runs (fun fuel => flush fuel h head) (h', none)
      ∧ Freed h h' cs
      ∧ ∀ p, p ∉ cs.map Cell.addr → h'.node p = h.node p

end Functions

def Holds (h : Heap α) (head : Option Addr) (l : List α) : Prop :=
  ∃ cs, Represents h head cs ∧ cs.map Cell.value = l

section Holds

variable {κ : Type w} [DecidableEq κ] {key : α → κ}
variable {h : Heap α} {head : Option Addr} {cs : List (Cell α)} {input : Addr} {value : α}

theorem AppendsLast.holds {add : Nat → Heap α → Option Addr → Addr → Addr → Option (Heap α × Option Addr)}
    (hadd : AppendsLast add) (hlist : Represents h head cs) (hinput : h.record input = some value)
    (hnotMem : input ∉ cs.map Cell.info) {temp : Addr} (htemp : h.node temp = none) :
    ∃ h' head', Runs (fun fuel => add fuel h head input temp) (h', head')
      ∧ Holds h' head' (cs.map Cell.value ++ [value]) := by
  obtain ⟨h', head', hrun, hseg, _, _⟩ := hadd h head cs input temp value hlist hinput htemp
  refine ⟨h', head', hrun, _, ⟨hseg, ?_⟩, ?_⟩
  . rw [List.map_append, List.nodup_append]
    refine ⟨hlist.distinct, List.nodup_singleton _, ?_⟩
    intro r hr r' hr' heq
    rw [List.map_singleton, List.mem_singleton] at hr'
    rw [heq, hr'] at hr
    contradiction
  . rw [List.map_append]
    rfl

theorem UpdatesAll.holds {update : Nat → Heap α → Option Addr → Addr → Option (Heap α × Option Addr)}
    (hupdate : UpdatesAll key update) (hlist : Represents h head cs) (hinput : h.record input = some value) :
    ∃ h' head', Runs (fun fuel => update fuel h head input) (h', head')
      ∧ Holds h' head' ((cs.map Cell.value).map fun a => if key a = key value then value else a) := by
  obtain ⟨h', hrun, hlist', _⟩ := hupdate h head cs input value hlist hinput
  refine ⟨h', head, hrun, _, hlist', ?_⟩
  rw [List.map_map, List.map_map]
  apply List.map_congr_left
  intro c _
  exact Cell.overwrite_value

theorem RemovesFirst.holds {remove : Nat → Heap α → Option Addr → Addr → Option (Heap α × Option Addr)}
    (hremove : RemovesFirst key remove) (hlist : Represents h head cs) (hinput : h.record input = some value) :
    ∃ h' head', Runs (fun fuel => remove fuel h head input) (h', head')
      ∧ Holds h' head' ((cs.map Cell.value).eraseP fun a => decide (key a = key value)) := by
  obtain ⟨h', head', hrun, hlist', _⟩ := hremove h head cs input value hlist hinput
  refine ⟨h', head', hrun, _, hlist', ?_⟩
  rw [List.eraseP_map]
  rfl

theorem FreesAll.holds {flush : Nat → Heap α → Option Addr → Option (Heap α × Option Addr)}
    (hflush : FreesAll flush) (hlist : Represents h head cs) :
    ∃ h' head', Runs (fun fuel => flush fuel h head) (h', head') ∧ Holds h' head' [] := by
  obtain ⟨h', hrun, _⟩ := hflush h head cs hlist
  exact ⟨h', none, hrun, [], ⟨.nil none, List.nodup_nil⟩, rfl⟩

end Holds

end LinkedList
