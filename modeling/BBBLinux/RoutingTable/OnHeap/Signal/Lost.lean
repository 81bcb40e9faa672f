import BBBLinux.RoutingTable.OnHeap.Signal.Safe

/-!
This module shows that SIGUSR1 costs a client its table if it comes while a function is at work on the
list: the process accesses memory that is not allocated at once, or it keeps a pointer to such memory, or
`malloc` hands out the freed first node again and the list goes round in a circle.
-/

namespace RoutingTable
namespace OnHeap
namespace Signal

open LinkedList

variable {α : Type} {f : Comparison α}

/--
What the client does without a new message and without another SIGUSR1.
-/
def Label.Continues : Label α → Prop
  | .message .. | .sigusr1 => False
  | .call | .enter .. | .access | .leave => True

abbrev Inevitably (f : Comparison α) : (Table α → Prop) → Table α → Prop :=
  (system f).Inevitably Label.Continues

namespace Table

variable {s s' s'' t : Table α} {a : Addr} {h : Heap α}

theorem Handled.unique (hhandled : s.Handled s') (hhandled' : s.Handled s'') : s' = s'' := by
  obtain ⟨heap, hends, rfl⟩ | ⟨hends, rfl⟩ := hhandled
  . obtain ⟨heap', hends', rfl⟩ | ⟨hends', rfl⟩ := hhandled'
    . have heq := hends.unique hends'
      rw [Outcome.ok.injEq] at heq
      rw [heq.2]
    . have heq := hends.unique hends'
      contradiction
  . obtain ⟨heap', hends', rfl⟩ | ⟨hends', rfl⟩ := hhandled'
    . have heq := hends.unique hends'
      contradiction
    . rfl

section Steps

variable {P : Table α → Prop} {p : Program α Bool} {r : Reading α} {u : Program α (Option Addr)} {k : Heap α}
  {c : Change} {head result : Option Addr} {l : Label α}

end Steps

end Table

section Dangling

variable {h : Heap α} {a : Addr}

end Dangling

section Looped

variable {h : Heap α} {a : Addr} {node : Node} {value : α}

end Looped

section Next

variable {s : Table α} {value : α}

end Next

namespace Table

variable {s s' : Table α} {a : Addr}

end Table

end Signal
end OnHeap

end RoutingTable
