import BBBLinux.CString.Basic

/-!
This module contains `strtok` with a single delimiter. Calling it until it returns `NULL` goes
through the words of a string, the nonempty pieces between its delimiters.
-/

namespace CString

/--
The token that a call of `strtok` returns, and where the next call goes on. The delimiter behind the
token is overwritten by a NUL.
-/
def strtok (delim : UInt8) (m : Mem) : Option (Mem × Mem) :=
  let m := m.dropWhile (· = delim)
  let token := m.takeWhile fun c => c ≠ delim ∧ c ≠ 0
  if token = [] then
    none
  else
    match m.drop token.length with
    | [] => some (token, [])
    | c :: rest => some (token ++ 0 :: rest, if c = 0 then 0 :: rest else rest)

def words (delim : UInt8) (s : Mem) : List Mem :=
  (s.splitOnP (· == delim)).filter (· ≠ [])

def countTokens (delim : UInt8) : Nat → Mem → Nat
  | 0, _ => 0
  | fuel + 1, m =>
    match strtok delim m with
    | none => 0
    | some (_, save) => countTokens delim fuel save + 1

structure IsWord (delim : UInt8) (w : Mem) : Prop where
  ne_nil : w ≠ []
  delim_notMem : delim ∉ w
  zero_notMem : 0 ∉ w

variable {delim : UInt8} {m w s t save rest : Mem}

@[simp]
theorem words_nil : words delim [] = [] := by
  simp [words]

theorem words_append_cons (hw : w ≠ []) (h : delim ∉ w) :
    words delim (w ++ delim :: s) = w :: words delim s := by
  unfold words
  rw [List.splitOnP_append_cons_of_forall_mem]
  . simp [hw]
  . intro c hc
    simp only [beq_eq_false_iff_ne]
    intro heq
    rw [heq] at hc
    exact h hc
  . simp

@[simp]
theorem words_delim_cons : words delim (delim :: s) = words delim s := by
  unfold words
  rw [← List.nil_append (delim :: s), List.splitOnP_append_cons_of_forall_mem]
  . simp
  . intro c hc
    contradiction
  . simp

theorem words_of_notMem (hw : w ≠ []) (h : delim ∉ w) : words delim w = [w] := by
  unfold words
  rw [List.splitOnP_eq_singleton]
  . simp [hw]
  . intro c hc
    simp only [beq_eq_false_iff_ne]
    intro heq
    rw [heq] at hc
    exact h hc

theorem eq_takeWhile_append (s : Mem) (p : UInt8 → Bool) :
    s = s.takeWhile p ∨ ∃ c rest, s = s.takeWhile p ++ c :: rest ∧ p c = false := by
  have hsplit := List.takeWhile_append_dropWhile (p := p) (l := s)
  cases hdrop : s.dropWhile p with
  | nil =>
    left
    rw [hdrop, List.append_nil] at hsplit
    exact hsplit.symm
  | cons c rest =>
    right
    exists c, rest
    rw [hdrop] at hsplit
    refine ⟨hsplit.symm, ?_⟩
    have hne : s.dropWhile p ≠ [] := by simp [hdrop]
    have := List.head_dropWhile_not p hne
    simpa [hdrop] using this

/--
How a string goes on: with a delimiter, or with a word.
-/
inductive Pieces (delim : UInt8) : Mem → Prop where
  | nil : Pieces delim []
  | delim (s : Mem) : Pieces delim (delim :: s)
  | word {w : Mem} (hw : w ≠ []) (h : delim ∉ w) : Pieces delim w
  | append {w : Mem} (hw : w ≠ []) (h : delim ∉ w) (s : Mem) : Pieces delim (w ++ delim :: s)

theorem pieces (delim : UInt8) (s : Mem) : Pieces delim s := by
  cases s with
  | nil => exact .nil
  | cons c s =>
    by_cases hc : c = delim
    . rw [hc]
      exact .delim s
    . have hnil : (c :: s).takeWhile (· ≠ delim) ≠ [] := by
        rw [List.takeWhile_cons_of_pos (by simp [hc])]
        simp
      have hdelim : delim ∉ (c :: s).takeWhile (· ≠ delim) := by
        intro hmem
        have := List.mem_takeWhile_imp hmem
        simp at this
      cases eq_takeWhile_append (c :: s) (· ≠ delim) with
      | inl heq =>
        rw [heq]
        exact .word hnil hdelim
      | inr heq =>
        have ⟨d, rest, heq, hd⟩ := heq
        have hd : d = delim := by simpa using hd
        rw [heq, hd]
        exact .append hnil hdelim rest

theorem mem_words (h : w ∈ words delim s) : w ≠ [] ∧ delim ∉ w ∧ ∃ a b, s = a ++ w ++ b := by
  induction hn : s.length using Nat.strongRecOn generalizing s with
  | _ n ih =>
    cases pieces delim s with
    | nil => simp at h
    | delim s =>
      rw [words_delim_cons] at h
      have ⟨hnil, hdelim, a, b, hs⟩ := ih s.length (by simp [← hn]) h rfl
      refine ⟨hnil, hdelim, delim :: a, b, ?_⟩
      rw [hs]
      rfl
    | word hnil hdelim =>
      rw [words_of_notMem hnil hdelim, List.mem_singleton] at h
      rw [h]
      exact ⟨hnil, hdelim, [], [], by simp⟩
    | @append w' hnil hdelim rest =>
      rw [words_append_cons hnil hdelim, List.mem_cons] at h
      cases h with
      | inl h =>
        rw [h]
        exact ⟨hnil, hdelim, [], delim :: rest, rfl⟩
      | inr h =>
        have hlt : rest.length < n := by
          simp only [List.length_append, List.length_cons] at hn
          omega
        have ⟨hnil, hdelim, a, b, hs⟩ := ih rest.length hlt h rfl
        refine ⟨hnil, hdelim, w' ++ delim :: a, b, ?_⟩
        rw [hs]
        simp

theorem length_words_le (delim : UInt8) (s : Mem) : (words delim s).length ≤ s.count delim + 1 := by
  induction hn : s.length using Nat.strongRecOn generalizing s with
  | _ n ih =>
    cases pieces delim s with
    | nil => simp
    | delim s =>
      have hrest := ih s.length (by simp [← hn]) s rfl
      rw [words_delim_cons, List.count_cons_self]
      omega
    | word hnil hdelim =>
      rw [words_of_notMem hnil hdelim, List.length_singleton]
      omega
    | append hnil hdelim rest =>
      have hlt : rest.length < n := by
        simp only [List.length_append, List.length_cons] at hn
        omega
      have hrest := ih rest.length hlt rest rfl
      rw [words_append_cons hnil hdelim, List.length_cons, List.count_append, List.count_cons_self]
      omega

theorem flatten_words (delim : UInt8) (s : Mem) : (words delim s).flatten = s.filter (· ≠ delim) := by
  have hfilter {w : Mem} (h : delim ∉ w) : w.filter (· ≠ delim) = w := by
    rw [List.filter_eq_self]
    intro c hc
    rw [decide_eq_true_eq]
    exact ne_of_mem_of_not_mem hc h
  induction hn : s.length using Nat.strongRecOn generalizing s with
  | _ n ih =>
    cases pieces delim s with
    | nil => simp
    | delim s =>
      rw [words_delim_cons, ih s.length (by simp [← hn]) s rfl, List.filter_cons_of_neg (by simp)]
    | word hnil hdelim =>
      rw [words_of_notMem hnil hdelim, List.flatten_singleton, hfilter hdelim]
    | append hnil hdelim rest =>
      have hlt : rest.length < n := by
        simp only [List.length_append, List.length_cons] at hn
        omega
      rw [words_append_cons hnil hdelim, List.flatten_cons, ih rest.length hlt rest rfl,
        List.filter_append, hfilter hdelim, List.filter_cons_of_neg (by simp)]

/--
`groups` are joined by single delimiters.
-/
structure Joined (delim : UInt8) (groups : List Mem) (s : Mem) : Prop where
  eq_intercalate : s = [delim].intercalate groups
  ne_nil : ∀ w ∈ groups, w ≠ []
  delim_notMem : ∀ w ∈ groups, delim ∉ w

theorem joined_cons {g : Mem} {groups : List Mem} (hgroups : groups ≠ []) :
    Joined delim (g :: groups) s
      ↔ (g ≠ [] ∧ delim ∉ g) ∧ ∃ rest, s = g ++ delim :: rest ∧ Joined delim groups rest := by
  have hcons : [delim].intercalate (g :: groups) = g ++ delim :: [delim].intercalate groups := by
    cases groups with
    | nil => contradiction
    | cons g' groups => simp [List.intercalate, List.intersperse]
  constructor
  . intro h
    refine ⟨⟨h.ne_nil g List.mem_cons_self, h.delim_notMem g List.mem_cons_self⟩, _,
      h.eq_intercalate.trans hcons, rfl, ?_, ?_⟩
    . exact fun w hw => h.ne_nil w (List.mem_cons_of_mem g hw)
    . exact fun w hw => h.delim_notMem w (List.mem_cons_of_mem g hw)
  . intro ⟨hg, rest, hs, h⟩
    constructor
    . rw [hcons, ← h.eq_intercalate, hs]
    . intro w hw
      rw [List.mem_cons] at hw
      cases hw with
      | inl hw => exact hw ▸ hg.1
      | inr hw => exact h.ne_nil w hw
    . intro w hw
      rw [List.mem_cons] at hw
      cases hw with
      | inl hw => exact hw ▸ hg.2
      | inr hw => exact h.delim_notMem w hw

theorem joined_singleton {g : Mem} : Joined delim [g] s ↔ s = g ∧ g ≠ [] ∧ delim ∉ g := by
  constructor
  . intro h
    have hs := h.eq_intercalate
    simp only [List.intercalate, List.intersperse, List.flatten_cons, List.flatten_nil,
      List.append_nil] at hs
    exact ⟨hs, h.ne_nil g List.mem_cons_self, h.delim_notMem g List.mem_cons_self⟩
  . intro ⟨hs, hne, hdelim⟩
    constructor
    . simp [hs, List.intercalate, List.intersperse]
    . simp [hne]
    . simp [hdelim]

theorem exists_joined_iff {n : Nat} : (∃ groups, groups.length = n + 1 ∧ Joined delim groups s)
    ↔ (words delim s).length = n + 1 ∧ s.count delim = n := by
  induction n generalizing s with
  | zero =>
    constructor
    . intro ⟨groups, hlength, h⟩
      rw [List.length_eq_one_iff] at hlength
      have ⟨g, hg⟩ := hlength
      rw [hg, joined_singleton] at h
      have ⟨hs, hne, hdelim⟩ := h
      rw [hs, words_of_notMem hne hdelim]
      exact ⟨rfl, List.count_eq_zero_of_not_mem hdelim⟩
    . intro ⟨hlength, hcount⟩
      refine ⟨[s], rfl, joined_singleton.mpr ⟨rfl, ?_, List.count_eq_zero.mp hcount⟩⟩
      intro hs
      rw [hs] at hlength
      contradiction
  | succ n ih =>
    constructor
    . intro ⟨groups, hlength, h⟩
      cases groups with
      | nil => contradiction
      | cons g groups =>
        rw [List.length_cons, Nat.add_right_cancel_iff] at hlength
        have hgroups : groups ≠ [] := by
          intro hnil
          rw [hnil] at hlength
          contradiction
        rw [joined_cons hgroups] at h
        have ⟨⟨hne, hdelim⟩, rest, hs, h⟩ := h
        have ⟨hwords, hcount⟩ := ih.mp ⟨groups, hlength, h⟩
        rw [hs, words_append_cons hne hdelim, List.length_cons, hwords, List.count_append,
          List.count_cons_self, hcount, List.count_eq_zero_of_not_mem hdelim]
        omega
    . intro ⟨hlength, hcount⟩
      cases pieces delim s with
      | nil => contradiction
      | delim s =>
        have hle := length_words_le delim s
        rw [words_delim_cons] at hlength
        rw [List.count_cons_self] at hcount
        omega
      | word hne hdelim =>
        rw [words_of_notMem hne hdelim, List.length_singleton] at hlength
        omega
      | append hne hdelim rest =>
        rw [words_append_cons hne hdelim, List.length_cons] at hlength
        rw [List.count_append, List.count_cons_self, List.count_eq_zero_of_not_mem hdelim] at hcount
        have ⟨groups, hgroups, h⟩ := (ih (s := rest)).mpr ⟨by omega, by omega⟩
        refine ⟨_ :: groups, by simp [hgroups], (joined_cons ?_).mpr ⟨⟨hne, hdelim⟩, rest, rfl, h⟩⟩
        intro hnil
        rw [hnil] at hgroups
        contradiction

theorem isWord_of_mem_words (h : w ∈ words delim (cstr m)) : IsWord delim w := by
  have ⟨hnil, hdelim, a, b, hs⟩ := mem_words h
  refine ⟨hnil, hdelim, ?_⟩
  intro hzero
  have hmem : 0 ∈ cstr m := by
    rw [hs]
    exact List.mem_append_left b (List.mem_append_right a hzero)
  exact zero_notMem_cstr hmem

theorem strtok_delim_cons : strtok delim (delim :: m) = strtok delim m := by
  simp [strtok]

theorem takeWhile_word (hw : IsWord delim w) (rest : Mem) (hrest : ∀ c ∈ rest.head?, c = delim ∨ c = 0) :
    (w ++ rest).takeWhile (fun c => c ≠ delim ∧ c ≠ 0) = w := by
  rw [List.takeWhile_append_of_pos]
  . cases rest with
    | nil => simp
    | cons c rest =>
      have := hrest c rfl
      rw [List.takeWhile_cons_of_neg, List.append_nil]
      simp only [decide_eq_true_eq]
      intro ⟨hdelim, hzero⟩
      cases this <;> contradiction
  . intro c hc
    simp only [decide_eq_true_eq]
    constructor
    . intro heq
      rw [heq] at hc
      exact hw.delim_notMem hc
    . intro heq
      rw [heq] at hc
      exact hw.zero_notMem hc

theorem dropWhile_word (hw : IsWord delim w) (rest : Mem) :
    (w ++ rest).dropWhile (· = delim) = w ++ rest := by
  cases w with
  | nil => exact absurd rfl hw.ne_nil
  | cons c w =>
    rw [List.cons_append, List.dropWhile_cons_of_neg]
    intro heq
    apply hw.delim_notMem
    simp only [decide_eq_true_eq] at heq
    simp [heq]

theorem strtok_word (hw : IsWord delim w) : strtok delim w = some (w, []) := by
  have hdrop := dropWhile_word hw []
  have htake := takeWhile_word hw [] (by simp)
  rw [List.append_nil] at hdrop htake
  simp only [strtok, hdrop, htake, if_neg hw.ne_nil, List.drop_length]

theorem strtok_word_append (hw : IsWord delim w) {c : UInt8} (hc : c = delim ∨ c = 0) :
    strtok delim (w ++ c :: rest) = some (w ++ 0 :: rest, if c = 0 then 0 :: rest else rest) := by
  have hdrop := dropWhile_word hw (c :: rest)
  have htake := takeWhile_word hw (c :: rest) (by simpa using hc)
  simp only [strtok, hdrop, htake, if_neg hw.ne_nil, List.drop_left]

theorem strtok_spec (hdelim : delim ≠ 0) (m : Mem) :
    strtok delim m = none ∧ words delim (cstr m) = []
      ∨ ∃ t save, strtok delim m = some (t, save) ∧ save.length < m.length
          ∧ words delim (cstr m) = cstr t :: words delim (cstr save) := by
  induction m with
  | nil =>
    left
    simp [strtok]
  | cons c m ih =>
    by_cases hc : c = delim
    . rw [hc, strtok_delim_cons, cstr_cons hdelim, words_delim_cons]
      cases ih with
      | inl ih => exact .inl ih
      | inr ih =>
        have ⟨t, save, hsome, hlt, hwords⟩ := ih
        right
        exact ⟨t, save, hsome, by simp; omega, hwords⟩
    . by_cases hzero : c = 0
      . left
        simp [strtok, hzero, Ne.symm hdelim]
      . right
        have hword : IsWord delim ((c :: m).takeWhile fun c => c ≠ delim ∧ c ≠ 0) := by
          constructor
          . rw [List.takeWhile_cons_of_pos (by simp [hc, hzero])]
            simp
          . intro hmem
            have := List.mem_takeWhile_imp hmem
            simp at this
          . intro hmem
            have := List.mem_takeWhile_imp hmem
            simp at this
        cases eq_takeWhile_append (c :: m) (fun c => c ≠ delim ∧ c ≠ 0) with
        | inl heq =>
          rw [← heq] at hword
          refine ⟨c :: m, [], strtok_word hword, by simp, ?_⟩
          rw [cstr_of_notMem hword.zero_notMem, cstr_nil, words_nil]
          apply words_of_notMem hword.ne_nil hword.delim_notMem
        | inr heq =>
          have ⟨d, rest, heq, hd⟩ := heq
          generalize (c :: m).takeWhile (fun c => c ≠ delim ∧ c ≠ 0) = w at heq hword
          have hd : d = delim ∨ d = 0 := by
            simp only [ne_eq, decide_eq_false_iff_not, not_and, Decidable.not_not] at hd
            by_cases hdd : d = delim
            . exact .inl hdd
            . exact .inr (hd hdd)
          rw [heq]
          refine ⟨_, _, strtok_word_append hword hd, ?_, ?_⟩
          . have := List.length_pos_iff.mpr hword.ne_nil
            split
            . simp
              omega
            . simp
              omega
          . rw [cstr_append_zero hword.zero_notMem]
            cases hd with
            | inl hd =>
              rw [hd, if_neg hdelim, cstr_append hword.zero_notMem, cstr_cons hdelim]
              apply words_append_cons hword.ne_nil hword.delim_notMem
            | inr hd =>
              rw [hd, if_pos rfl, cstr_append_zero hword.zero_notMem, cstr_zero_cons, words_nil]
              apply words_of_notMem hword.ne_nil hword.delim_notMem

theorem countTokens_eq (hdelim : delim ≠ 0) {fuel : Nat} (hfuel : m.length < fuel) :
    countTokens delim fuel m = (words delim (cstr m)).length := by
  induction fuel generalizing m with
  | zero => contradiction
  | succ fuel ih =>
    unfold countTokens
    cases strtok_spec hdelim m with
    | inl h => rw [h.1, h.2, List.length_nil]
    | inr h =>
      have ⟨t, save, hsome, hlt, hwords⟩ := h
      have hrest : save.length < fuel := by omega
      rw [hsome, hwords, List.length_cons, ← ih hrest]

end CString
