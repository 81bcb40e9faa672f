import BBBLinux.LinkedList.Surgery

/-!
This module contains programs as the accesses to the memory that they make one after the other. Something
else can happen to the memory between two of them.
-/

namespace LinkedList

variable {α β : Type}

inductive Program (α β : Type) where
  | done (result : β)
  | readNode (addr : Addr) (next : Node → Program α β)
  | readRecord (addr : Addr) (next : α → Program α β)
  | setNext (addr : Addr) (value : Option Addr) (next : Program α β)
  | setRecord (addr : Addr) (value : α) (next : Program α β)
  | freeNode (addr : Addr) (next : Program α β)
  | freeRecord (addr : Addr) (next : Program α β)
  -- `malloc`, and the node is filled in
  | newNode (addr : Addr) (node : Node) (next : Program α β)
  -- the null pointer is dereferenced
  | null
  -- a loop has run out of fuel
  | spin

inductive Outcome (α β : Type) where
  | ok (result : β) (h : Heap α)
  | fault
  | spin

def Outcome.toOption : Outcome α β → Option (Heap α × β)
  | .ok result h => some (h, result)
  | .fault => none
  | .spin => none

namespace Program

/--
The first access, `none` if it is to memory that is not allocated.
-/
def access : Program α β → Heap α → Option (Program α β × Heap α)
  | .done _, _ => none
  | .readNode addr next, h => (h.node addr).map fun node => (next node, h)
  | .readRecord addr next, h => (h.record addr).map fun value => (next value, h)
  | .setNext addr value next, h =>
    (h.node addr).map fun node => (next, h.setNode addr { node with next := value })
  | .setRecord addr value next, h => (h.record addr).map fun _ => (next, h.setRecord addr value)
  | .freeNode addr next, h => (h.freeNode addr).map fun h => (next, h)
  | .freeRecord addr next, h => (h.freeRecord addr).map fun h => (next, h)
  | .newNode addr node next, h => some (next, h.setNode addr node)
  | .null, _ => none
  | .spin, _ => none

def Running : Program α β → Prop
  | .done _ => False
  | .spin => False
  | _ => True

def run : Program α β → Heap α → Outcome α β
  | .done result, h => .ok result h
  | .readNode addr next, h =>
    match h.node addr with
    | some node => (next node).run h
    | none => .fault
  | .readRecord addr next, h =>
    match h.record addr with
    | some value => (next value).run h
    | none => .fault
  | .setNext addr value next, h =>
    match h.node addr with
    | some node => next.run (h.setNode addr { node with next := value })
    | none => .fault
  | .setRecord addr value next, h =>
    match h.record addr with
    | some _ => next.run (h.setRecord addr value)
    | none => .fault
  | .freeNode addr next, h =>
    match h.freeNode addr with
    | some h => next.run h
    | none => .fault
  | .freeRecord addr next, h =>
    match h.freeRecord addr with
    | some h => next.run h
    | none => .fault
  | .newNode addr node next, h => next.run (h.setNode addr node)
  | .null, _ => .fault
  | .spin, _ => .spin

variable {p p' : Program α β} {h h' : Heap α} {result : β}

theorem run_of_access (haccess : p.access h = some (p', h')) : p.run h = p'.run h' := by
  cases p with
  | done => contradiction
  | null => contradiction
  | spin => contradiction
  | newNode addr node next =>
    rw [access, Option.some.injEq, Prod.mk.injEq] at haccess
    rw [run, haccess.1, haccess.2]
  | _ =>
    rw [access, Option.map_eq_some_iff] at haccess
    obtain ⟨_, heq, hnext⟩ := haccess
    rw [Prod.mk.injEq] at hnext
    rw [run, heq, ← hnext.1, ← hnext.2]

theorem fault_of_access (hrunning : p.Running) (haccess : p.access h = none) : p.run h = .fault := by
  cases p with
  | done => contradiction
  | spin => contradiction
  | newNode => contradiction
  | null => rfl
  | _ =>
    rw [access, Option.map_eq_none_iff] at haccess
    rw [run, haccess]

theorem eq_done_of_run (hrun : p.run h = .ok result h') (hrunning : ¬p.Running) : p = .done result := by
  cases p with
  | done =>
    rw [run, Outcome.ok.injEq] at hrun
    rw [hrun.1]
  | spin => contradiction
  | _ => exact absurd trivial hrunning

/--
`P` holds before each access of the program and behind the last.
-/
def Always (P : Program α β → Heap α → Prop) : Program α β → Heap α → Prop
  | .done result, h => P (.done result) h
  | .readNode addr next, h =>
    P (.readNode addr next) h ∧ ∀ node, h.node addr = some node → Always P (next node) h
  | .readRecord addr next, h =>
    P (.readRecord addr next) h ∧ ∀ value, h.record addr = some value → Always P (next value) h
  | .setNext addr value next, h =>
    P (.setNext addr value next) h
      ∧ ∀ node, h.node addr = some node → Always P next (h.setNode addr { node with next := value })
  | .setRecord addr value next, h =>
    P (.setRecord addr value next) h ∧ Always P next (h.setRecord addr value)
  | .freeNode addr next, h =>
    P (.freeNode addr next) h ∧ ∀ h', h.freeNode addr = some h' → Always P next h'
  | .freeRecord addr next, h =>
    P (.freeRecord addr next) h ∧ ∀ h', h.freeRecord addr = some h' → Always P next h'
  | .newNode addr node next, h =>
    P (.newNode addr node next) h ∧ Always P next (h.setNode addr node)
  | .null, h => P .null h
  | .spin, h => P .spin h

variable {P : Program α β → Heap α → Prop}

theorem Always.here (halways : Always P p h) : P p h := by
  cases p with
  | done => exact halways
  | null => exact halways
  | spin => exact halways
  | _ => exact halways.1

theorem Always.access (halways : Always P p h) (haccess : p.access h = some (p', h')) :
    Always P p' h' := by
  cases p with
  | done => contradiction
  | null => contradiction
  | spin => contradiction
  | newNode addr node next =>
    rw [Program.access, Option.some.injEq, Prod.mk.injEq] at haccess
    rw [← haccess.1, ← haccess.2]
    exact halways.2
  | setRecord addr value next =>
    rw [Program.access, Option.map_eq_some_iff] at haccess
    obtain ⟨_, _, hnext⟩ := haccess
    rw [Prod.mk.injEq] at hnext
    rw [← hnext.1, ← hnext.2]
    exact halways.2
  | _ =>
    rw [Program.access, Option.map_eq_some_iff] at haccess
    obtain ⟨_, heq, hnext⟩ := haccess
    rw [Prod.mk.injEq] at hnext
    rw [← hnext.1, ← hnext.2]
    exact halways.2 _ heq

/--
The program only reads.
-/
def ReadOnly : Program α β → Prop
  | .done _ => True
  | .readNode _ next => ∀ node, (next node).ReadOnly
  | .readRecord _ next => ∀ value, (next value).ReadOnly
  | .null => True
  | .spin => True
  | _ => False

theorem ReadOnly.access (hread : p.ReadOnly) (haccess : p.access h = some (p', h')) :
    p'.ReadOnly ∧ h' = h := by
  cases p with
  | readNode =>
    obtain ⟨node, _, hnext⟩ := Option.map_eq_some_iff.mp haccess
    rw [Prod.mk.injEq] at hnext
    rw [← hnext.1, ← hnext.2]
    exact ⟨hread node, rfl⟩
  | readRecord =>
    obtain ⟨value, _, hnext⟩ := Option.map_eq_some_iff.mp haccess
    rw [Prod.mk.injEq] at hnext
    rw [← hnext.1, ← hnext.2]
    exact ⟨hread value, rfl⟩
  | _ => contradiction

end Program

/--
With enough fuel the outcome is the same as with more.
-/
def Enough (f : Nat → Program α β) (h : Heap α) (fuel : Nat) : Prop :=
  ∀ more ≥ fuel, (f more).run h = (f fuel).run h

def Ends (f : Nat → Program α β) (h : Heap α) (outcome : Outcome α β) : Prop :=
  ∃ n, ∀ fuel ≥ n, (f fuel).run h = outcome

section

variable {f : Nat → Program α β} {g : Nat → Option (Heap α × β)} {h h' : Heap α} {fuel : Nat} {result : β}
  {outcome outcome' : Outcome α β}

theorem Ends.unique (hends : Ends f h outcome) (hends' : Ends f h outcome') : outcome = outcome' := by
  obtain ⟨n, hn⟩ := hends
  obtain ⟨n', hn'⟩ := hends'
  rw [← hn (max n n') (Nat.le_max_left n n'), hn' (max n n') (Nat.le_max_right n n')]

theorem Ends.of_enough (hends : Ends f h outcome) (henough : Enough f h fuel) :
    (f fuel).run h = outcome := by
  obtain ⟨n, hn⟩ := hends
  rw [← henough (max n fuel) (Nat.le_max_right n fuel), hn (max n fuel) (Nat.le_max_left n fuel)]

theorem Outcome.toOption_eq_some (heq : outcome.toOption = some (h, result)) : outcome = .ok result h := by
  cases outcome with
  | ok =>
    rw [toOption, Option.some.injEq, Prod.mk.injEq] at heq
    rw [heq.1, heq.2]
  | fault => contradiction
  | spin => contradiction

theorem Ends.of_runs (hsame : ∀ fuel, ((f fuel).run h).toOption = g fuel) (hruns : Runs g (h', result)) :
    Ends f h (.ok result h') := by
  obtain ⟨n, hn⟩ := hruns
  exists n
  intro fuel hfuel
  apply Outcome.toOption_eq_some
  rw [hsame, hn fuel hfuel]

end

end LinkedList
