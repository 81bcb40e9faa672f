import Mathlib.Logic.Basic

/-!
This module contains labelled transition systems, the states their runs reach and the induction
principles for them, together with the refinement of one call/reply machine by another.
-/

universe u v w

structure TransitionSystem (σ : Type u) (ι : Type v) where
  init : σ → Prop
  step : σ → ι → σ → Prop

namespace TransitionSystem

variable {σ : Type u} {ι : Type v}

def ofStep (init : σ → Prop) (next : σ → ι → Option σ) : TransitionSystem σ ι where
  init := init
  step s i t := next s i = some t

/--
`T.ReachableVia ok s` if some run of `T` ends in `s` and all its steps satisfy `ok`.
-/
inductive ReachableVia (T : TransitionSystem σ ι) (ok : σ → ι → Prop) : σ → Prop where
  | init {s : σ} (hinit : T.init s) : ReachableVia T ok s
  | step {s t : σ} {i : ι} (hs : ReachableVia T ok s) (hok : ok s i) (hstep : T.step s i t) :
      ReachableVia T ok t

abbrev Reachable (T : TransitionSystem σ ι) : σ → Prop :=
  T.ReachableVia fun _ _ => True

def startingAt (T : TransitionSystem σ ι) (s : σ) : TransitionSystem σ ι where
  init := (· = s)
  step := T.step

variable {T : TransitionSystem σ ι} {ok ok' : σ → ι → Prop} {s : σ}

theorem ReachableVia.mono (hok : ∀ s i, ok s i → ok' s i) (h : T.ReachableVia ok s) :
    T.ReachableVia ok' s := by
  induction h with
  | init hinit => exact .init hinit
  | step _ hstep' hstep ih => exact .step ih (hok _ _ hstep') hstep

theorem ReachableVia.reachable (h : T.ReachableVia ok s) : T.Reachable s :=
  h.mono fun _ _ _ => trivial

theorem ReachableVia.trans {t : σ} (hs : T.ReachableVia ok s)
    (h : (T.startingAt s).ReachableVia ok t) : T.ReachableVia ok t := by
  induction h with
  | init hinit =>
    rw [hinit]
    exact hs
  | step _ hok hstep ih => exact .step ih hok hstep

theorem ReachableVia.head {t u : σ} {i : ι} (hok : ok s i) (hstep : T.step s i t)
    (h : (T.startingAt t).ReachableVia ok u) : (T.startingAt s).ReachableVia ok u := by
  induction h with
  | init hinit =>
    rw [hinit]
    exact .step (.init rfl) hok hstep
  | step _ hok' hstep' ih => exact .step ih hok' hstep'

theorem ReachableVia.invariant {P : σ → Prop} (hinit : ∀ s, T.init s → P s)
    (hstep : ∀ s i t, P s → ok s i → T.step s i t → P t) (h : T.ReachableVia ok s) : P s := by
  induction h with
  | init h => exact hinit _ h
  | step _ hok h ih => exact hstep _ _ _ ih hok h

theorem ReachableVia.invariant_of {P Q : σ → Prop} (hQ : ∀ s, T.ReachableVia ok s → Q s)
    (hinit : ∀ s, T.init s → P s)
    (hstep : ∀ s i t, Q s → P s → ok s i → T.step s i t → P t) (h : T.ReachableVia ok s) :
    P s := by
  induction h with
  | init h => exact hinit _ h
  | step hs hok h ih => exact hstep _ _ _ (hQ _ hs) ih hok h

/--
What `T` can do in steps that are `ok` `T'` can do as well, up to `R`, in steps that are `allowed` there.
-/
theorem ReachableVia.exists_simulated {τ : Type w} {T' : TransitionSystem τ ι} {R : σ → τ → Prop}
    {allowed : τ → ι → Prop} (hinit : ∀ s, T.init s → ∃ t, T'.init t ∧ R s t)
    (hstep : ∀ s t i s', R s t → ok s i → T.step s i s' →
      allowed t i ∧ ∃ t', T'.step t i t' ∧ R s' t')
    (h : T.ReachableVia ok s) : ∃ t, T'.ReachableVia allowed t ∧ R s t := by
  induction h with
  | init h =>
    obtain ⟨t, ht, hrel⟩ := hinit _ h
    exact ⟨t, .init ht, hrel⟩
  | step _ hok h ih =>
    obtain ⟨t, ht, hrel⟩ := ih
    obtain ⟨hallowed, t', ht', hrel'⟩ := hstep _ t _ _ hrel hok h
    exact ⟨t', ht.step hallowed ht', hrel'⟩

/--
What the steps that are `ok` keep in every run and every other step breaks. `R` says the same as `P` in
the states that are reached.
-/
theorem ReachableVia.kept_unless {P Q R : σ → Prop} (hQ : ∀ s, T.Reachable s → Q s)
    (hiff : ∀ s, Q s → (P s ↔ R s)) (hinit : ∀ s, T.init s → R s)
    (hkeep : ∀ s i t, Q s → R s → ok s i → T.step s i t → R t)
    (hbreak : ∀ s i t, Q s → ¬ok s i → T.step s i t → ¬R t) (s : σ) :
    (T.ReachableVia ok s → P s)
      ∧ ∀ i t, T.Reachable s → ¬ok s i → T.step s i t → ¬P t := by
  constructor
  . intro h
    rw [hiff s (hQ s h.reachable)]
    exact h.invariant_of (fun s hs => hQ s hs.reachable) hinit hkeep
  . intro i t h hok hstep
    rw [hiff t (hQ t (h.step trivial hstep))]
    exact hbreak s i t (hQ s h) hok hstep

/--
Whichever steps with a label in `going` the system takes, it comes to a state with `P`.
-/
inductive Inevitably (T : TransitionSystem σ ι) (going : ι → Prop) (P : σ → Prop) : σ → Prop where
  | here {s : σ} (hs : P s) : Inevitably T going P s
  | next {s : σ} (hsome : ∃ i t, going i ∧ T.step s i t)
      (hall : ∀ i t, going i → T.step s i t → Inevitably T going P t) : Inevitably T going P s

variable {going : ι → Prop} {P Q : σ → Prop}

theorem Inevitably.mono (hPQ : ∀ s, P s → Q s) (h : T.Inevitably going P s) : T.Inevitably going Q s := by
  induction h with
  | here hs => exact .here (hPQ _ hs)
  | next hsome _ ih => exact .next hsome ih

/--
The only step there is.
-/
theorem Inevitably.only {t : σ} {i : ι} (hi : going i) (hstep : T.step s i t)
    (honly : ∀ j u, going j → T.step s j u → u = t) (h : T.Inevitably going P t) :
    T.Inevitably going P s := by
  refine .next ⟨i, t, hi, hstep⟩ ?_
  intro j u hj hstep'
  rw [honly j u hj hstep']
  exact h

def runSchedule (next : σ → ι → Option σ) (s : σ) : List ι → Option σ
  | [] => some s
  | i :: is => (next s i).bind fun t => runSchedule next t is

/--
A schedule that `next` carries out in steps that are `ok`.
-/
theorem reachableVia_of_runSchedule {init : σ → Prop} {next : σ → ι → Option σ}
    [∀ s i, Decidable (ok s i)] {s t : σ} {is : List ι} (hs : (ofStep init next).ReachableVia ok s)
    (h : runSchedule (fun s i => if ok s i then next s i else none) s is = some t) :
    (ofStep init next).ReachableVia ok t := by
  induction is generalizing s with
  | nil =>
    simp only [runSchedule, Option.some.injEq] at h
    exact h ▸ hs
  | cons i is ih =>
    simp only [runSchedule, Option.bind_eq_some_iff] at h
    obtain ⟨s', hstep, hrest⟩ := h
    by_cases hok : ok s i
    . rw [if_pos hok] at hstep
      exact ih (.step hs hok hstep) hrest
    . rw [if_neg hok] at hstep
      contradiction

theorem reachable_of_runSchedule {init : σ → Prop} {next : σ → ι → Option σ} {s t : σ}
    {is : List ι} (hs : (ofStep init next).Reachable s) (h : runSchedule next s is = some t) :
    (ofStep init next).Reachable t := by
  have hall : runSchedule (fun s i => if True then next s i else none) s is = some t := by
    simpa only [if_true] using h
  exact reachableVia_of_runSchedule hs hall

/--
`T` with a history variable: each step puts what `record` says about it in front of a log.
-/
def withHistory {ε : Type w} (T : TransitionSystem σ ι) (record : σ → ι → List ε) :
    TransitionSystem (σ × List ε) ι where
  init p := T.init p.1 ∧ p.2 = []
  step p i q := T.step p.1 i q.1 ∧ q.2 = record p.1 i ++ p.2

theorem ReachableVia.exists_history {ε : Type w} (record : σ → ι → List ε) (h : T.ReachableVia ok s) :
    ∃ log, (T.withHistory record).ReachableVia (fun p i => ok p.1 i) (s, log) := by
  induction h with
  | init hinit => exact ⟨[], .init ⟨hinit, rfl⟩⟩
  | step _ hok hstep ih =>
    obtain ⟨log, hlog⟩ := ih
    exact ⟨_, hlog.step hok ⟨hstep, rfl⟩⟩

theorem ReachableVia.of_history {ε : Type w} {record : σ → ι → List ε} {p : σ × List ε}
    (h : (T.withHistory record).Reachable p) : T.Reachable p.1 := by
  induction h with
  | init hinit => exact .init hinit.1
  | step _ _ hstep ih => exact ih.step trivial hstep.1

section Guarded

variable (possible : σ → ι → Prop) (next : σ → ι → Option σ)

def ofGuarded (init : σ → Prop) : TransitionSystem σ ι where
  init := init
  step s i t := possible s i ∧ next s i = some t

def runFrom (s : σ) : List ι → σ
  | [] => s
  | i :: is => runFrom ((next s i).getD s) is

def Scheduled (ok : σ → ι → Prop) (s : σ) : List ι → Prop
  | [] => True
  | i :: is => ok s i ∧ possible s i ∧ (next s i).isSome = true
    ∧ Scheduled ok ((next s i).getD s) is

instance decidableScheduled {ok : σ → ι → Prop} [∀ s i, Decidable (ok s i)]
    [∀ s i, Decidable (possible s i)] :
    ∀ s is, Decidable (Scheduled possible next ok s is)
  | _, [] => inferInstanceAs (Decidable True)
  | s, i :: is =>
    have : Decidable (Scheduled possible next ok ((next s i).getD s) is) := decidableScheduled _ _
    inferInstanceAs (Decidable (ok s i ∧ possible s i ∧ (next s i).isSome = true ∧ _))

variable {possible next} {init : σ → Prop} {is : List ι}

theorem reachableVia_runFrom (h : (ofGuarded possible next init).ReachableVia ok s)
    (his : Scheduled possible next ok s is) :
    (ofGuarded possible next init).ReachableVia ok (runFrom next s is) := by
  induction is generalizing s with
  | nil => exact h
  | cons i is ih =>
    have ⟨hok, hpossible, hsome, his⟩ := his
    unfold runFrom
    apply ih _ his
    apply ReachableVia.step h hok
    refine ⟨hpossible, ?_⟩
    rw [Option.isSome_iff_exists] at hsome
    have ⟨t, hnext⟩ := hsome
    rw [hnext, Option.getD_some]

end Guarded

end TransitionSystem

abbrev CallMachine (σ : Type u) (ι : Type v) (ρ : Type w) :=
  σ → ι → ρ × σ

namespace CallMachine

variable {σ τ : Type u} {ι : Type v} {ρ : Type w}

def run (m : CallMachine σ ι ρ) (s : σ) : List ι → List ρ × σ
  | [] => ([], s)
  | i :: is =>
    let (r, s') := m s i
    let (rs, t) := run m s' is
    (r :: rs, t)

theorem run_refines {m : CallMachine σ ι ρ} {m' : CallMachine τ ι ρ} {R : σ → τ → Prop}
    (hcall : ∀ s t i, R s t → (m s i).1 = (m' t i).1 ∧ R (m s i).2 (m' t i).2)
    {s : σ} {t : τ} (h : R s t) (is : List ι) :
    (m.run s is).1 = (m'.run t is).1 ∧ R (m.run s is).2 (m'.run t is).2 := by
  induction is generalizing s t with
  | nil => exact ⟨rfl, h⟩
  | cons i is ih =>
    have ⟨hreply, hrel⟩ := hcall s t i h
    have ⟨hreplies, hend⟩ := ih hrel
    simp only [run]
    exact ⟨by rw [hreply, hreplies], hend⟩

section Removal

variable (m : CallMachine σ ι ρ) (failed : ρ → Bool)

/-- The calls of a run that do not fail. -/
def successes (s : σ) : List ι → List ι
  | [] => []
  | i :: is =>
    let (r, s') := m s i
    if failed r then
      successes s' is
    else
      i :: successes s' is

/--
To take the failed calls out of a run changes neither the other replies nor the final state.
-/
def Invisible (s : σ) (is : List ι) : Prop :=
  (m.run s (m.successes failed s is)).1 = (m.run s is).1.filter (fun r => !failed r)
    ∧ (m.run s (m.successes failed s is)).2 = (m.run s is).2

def Quiet (s : σ) (i : ι) : Prop :=
  failed (m s i).1 = true → (m s i).2 = s

variable {m failed} {s : σ} {is : List ι}

theorem run_append (s : σ) (is js : List ι) :
    (m.run s (is ++ js)).2 = (m.run (m.run s is).2 js).2 := by
  induction is generalizing s with
  | nil => rfl
  | cons i is ih => exact ih (m s i).2

theorem successes_append (s : σ) (is js : List ι) :
    m.successes failed s (is ++ js)
      = m.successes failed s is ++ m.successes failed (m.run s is).2 js := by
  induction is generalizing s with
  | nil => rfl
  | cons i is ih =>
    simp only [List.cons_append, successes, run, ih]
    split
    next => rfl
    next => rw [List.cons_append]

theorem invisible_of_quiet (h : ∀ is' i, is' ++ [i] <+: is → m.Quiet failed (m.run s is').2 i) :
    m.Invisible failed s is := by
  induction is generalizing s with
  | nil => exact ⟨rfl, rfl⟩
  | cons i is ih =>
    have hquiet : m.Quiet failed s i := h [] i (List.prefix_append [i] is)
    have hrest : m.Invisible failed (m s i).2 is := by
      apply ih
      intro is' j hpre
      exact h (i :: is') j ((List.prefix_cons_inj i).mpr hpre)
    unfold Invisible at hrest
    unfold Invisible
    simp only [successes, run]
    by_cases hfailed : failed (m s i).1 = true
    . rw [hquiet hfailed] at hrest
      simp only [hquiet hfailed, hfailed, if_true, List.filter_cons, Bool.not_true,
        Bool.false_eq_true, if_false]
      exact hrest
    . simp only [hfailed, Bool.false_eq_true, if_false, run, List.filter_cons, hrest.1]
      simpa [hfailed] using hrest.2

theorem quiet_of_invisible {i : ι} (his : m.Invisible failed s is)
    (h : m.Invisible failed s (is ++ [i])) : m.Quiet failed (m.run s is).2 i := by
  intro hfailed
  have hend := h.2
  rw [successes_append, run_append, run_append, his.2] at hend
  simp only [successes, hfailed, if_true, run] at hend
  exact hend.symm

/--
Failed calls are invisible in every initial part of a run just if they leave the state as it is.
-/
theorem forall_invisible_iff :
    (∀ is', is' <+: is → m.Invisible failed s is')
      ↔ ∀ is' i, is' ++ [i] <+: is → m.Quiet failed (m.run s is').2 i := by
  constructor
  . intro h is' i hpre
    exact quiet_of_invisible (h is' ((List.prefix_append is' [i]).trans hpre))
      (h (is' ++ [i]) hpre)
  . intro h is' hpre
    apply invisible_of_quiet
    intro is'' i hpre'
    exact h is'' i (hpre'.trans hpre)

end Removal

end CallMachine
