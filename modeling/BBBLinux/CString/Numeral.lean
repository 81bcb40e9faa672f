import BBBLinux.CString.Basic
import Mathlib.Algebra.Order.Ring.Int

/-!
This module contains what `atoi` makes of a text that does not end where it should: the digits behind it
count as its own, unless something in the text has stopped the number before.
-/

namespace CString

def unsigned : Mem → Mem
  | [] => []
  | c :: m => if c = '-'.toUInt8 ∨ c = '+'.toUInt8 then m else c :: m

def IsNegative (m : Mem) : Prop :=
  m.head? = some '-'.toUInt8

instance (m : Mem) : Decidable (IsNegative m) :=
  inferInstanceAs (Decidable (_ = _))

/--
White space, a sign and digits up to the end of the text.
-/
def OpenEnded (m : Mem) : Prop :=
  ∀ c ∈ unsigned (m.dropWhile isspace), isdigit c = true

instance (m : Mem) : Decidable (OpenEnded m) :=
  inferInstanceAs (Decidable (∀ _ ∈ _, _))

def padded : Nat → Nat → Mem
  | 0, _ => []
  | k + 1, n => padded k (n / 10) ++ [.ofNat (48 + n % 10)]

variable {m s t rest : Mem} {c : UInt8} {k n : Nat}

theorem strtol_eq (m : Mem) : strtol m =
    let s := m.dropWhile isspace
    let n : Int := decimal (unsigned s)
    if IsNegative s then max (-n) (-2 ^ 63) else min n (2 ^ 63 - 1) := by
  unfold strtol
  cases m.dropWhile isspace with
  | nil => decide
  | cons c rest =>
    simp only [IsNegative, unsigned, List.head?_cons, Option.some.injEq]
    split
    . next hminus => simp only [hminus, true_or, if_true]
    . next hminus =>
      split
      . next hplus => simp only [hplus, or_true, if_true]
      . next hplus => simp only [hminus, hplus, or_self, if_false]

theorem isspace_of_isdigit (h : isdigit c = true) :
    isspace c = false ∧ c ≠ '-'.toUInt8 ∧ c ≠ '+'.toUInt8 := by
  have hzero : '0'.toUInt8.toNat = 48 := rfl
  have hnine : '9'.toUInt8.toNat = 57 := rfl
  simp only [isdigit, Bool.and_eq_true, decide_eq_true_eq, UInt8.le_iff_toNat_le, hzero, hnine] at h
  have hne {d : UInt8} (hd : d.toNat < 48) : c ≠ d := by
    intro heq
    rw [heq] at h
    omega
  refine ⟨?_, hne (by decide), hne (by decide)⟩
  have hblank : ¬c ≤ 13 := by
    rw [UInt8.le_iff_toNat_le]
    have hthirteen : (13 : UInt8).toNat = 13 := rfl
    omega
  simp only [isspace, hne (show ' '.toUInt8.toNat < 48 by decide), hblank, decide_false, Bool.and_false,
    Bool.or_self]

theorem unsigned_append (hs : s ≠ []) : unsigned (s ++ t) = unsigned s ++ t := by
  cases s with
  | nil => contradiction
  | cons c s =>
    unfold unsigned
    simp only [List.cons_append]
    split <;> rfl

theorem dropWhile_isspace_append (hs : m.dropWhile isspace ≠ []) :
    (m ++ t).dropWhile isspace = m.dropWhile isspace ++ t := by
  rw [List.dropWhile_append, if_neg]
  simp [hs]

theorem strtol_congr (hneg : IsNegative (s.dropWhile isspace) ↔ IsNegative (t.dropWhile isspace))
    (hdec : decimal (unsigned (s.dropWhile isspace)) = decimal (unsigned (t.dropWhile isspace))) :
    strtol s = strtol t := by
  rw [strtol_eq, strtol_eq]
  simp only [hneg, hdec]

theorem decimal_append (h : ¬∀ c ∈ s, isdigit c = true) : decimal (s ++ t) = decimal s := by
  unfold decimal
  rw [List.takeWhile_append, if_neg]
  intro hlength
  apply h
  have hsame : s.takeWhile isdigit = s := (List.takeWhile_prefix isdigit).eq_of_length hlength
  rw [← hsame]
  exact fun c hc => List.mem_takeWhile_imp hc

theorem strtol_append (h : ¬OpenEnded m) : strtol (m ++ rest) = strtol m := by
  have hs : m.dropWhile isspace ≠ [] := by
    intro hnil
    apply h
    unfold OpenEnded
    rw [hnil]
    intro c hc
    contradiction
  apply strtol_congr
  . rw [dropWhile_isspace_append hs]
    unfold IsNegative
    rw [List.head?_append_of_ne_nil _ hs]
  . rw [dropWhile_isspace_append hs, unsigned_append hs]
    exact decimal_append h

section Digits

theorem decimal_of_digits (h : ∀ c ∈ s, isdigit c = true) :
    decimal s = s.foldl (fun acc c => 10 * acc + (c.toNat - 48)) 0 := by
  unfold decimal
  rw [List.takeWhile_eq_self_iff.mpr h]

theorem isdigit_padded : ∀ c ∈ padded k n, isdigit c = true := by
  induction k generalizing n with
  | zero =>
    intro c hc
    contradiction
  | succ k ih =>
    intro c hc
    simp only [padded, List.mem_append, List.mem_singleton] at hc
    cases hc with
    | inl hc => exact ih c hc
    | inr hc =>
      have hmod : n % 10 < 10 := Nat.mod_lt _ (by omega)
      rw [hc]
      generalize n % 10 = d at hmod
      revert d
      decide

theorem foldl_padded (acc : Nat) (h : n < 10 ^ k) :
    (padded k n).foldl (fun acc c => 10 * acc + (c.toNat - 48)) acc = acc * 10 ^ k + n := by
  induction k generalizing n with
  | zero =>
    rw [Nat.pow_zero] at h
    simp only [padded, List.foldl_nil]
    omega
  | succ k ih =>
    rw [Nat.pow_succ] at h
    have hmod : n % 10 < 10 := Nat.mod_lt _ (by omega)
    have hdigit : (UInt8.ofNat (48 + n % 10)).toNat - 48 = n % 10 := by
      rw [UInt8.toNat_ofNat']
      omega
    simp only [padded, List.foldl_append, List.foldl_cons, List.foldl_nil]
    rw [ih (by omega), hdigit, Nat.pow_succ, Nat.mul_add, ← Nat.mul_assoc, Nat.mul_comm 10,
      Nat.mul_assoc acc, Nat.mul_comm 10]
    omega

theorem decimal_append_padded (hs : ∀ c ∈ s, isdigit c = true) (h : n < 10 ^ k) :
    decimal (s ++ padded k n) = decimal s * 10 ^ k + n := by
  have hall : ∀ c ∈ s ++ padded k n, isdigit c = true := by
    intro c hc
    rw [List.mem_append] at hc
    cases hc with
    | inl hc => exact hs c hc
    | inr hc => exact isdigit_padded c hc
  rw [decimal_of_digits hall, decimal_of_digits hs, List.foldl_append, foldl_padded _ h]

theorem foldl_lt (hs : ∀ c ∈ s, isdigit c = true) (acc : Nat) :
    s.foldl (fun acc c => 10 * acc + (c.toNat - 48)) acc < (acc + 1) * 10 ^ s.length := by
  induction s generalizing acc with
  | nil => simp
  | cons c s ih =>
    have hdigit := hs c List.mem_cons_self
    have hnine : '9'.toUInt8.toNat = 57 := rfl
    simp only [isdigit, Bool.and_eq_true, decide_eq_true_eq, UInt8.le_iff_toNat_le, hnine] at hdigit
    rw [List.foldl_cons, List.length_cons, Nat.pow_succ, Nat.mul_comm (10 ^ s.length), ← Nat.mul_assoc]
    apply Nat.lt_of_lt_of_le (ih (fun c hc => hs c (List.mem_cons_of_mem _ hc)) _)
    apply Nat.mul_le_mul_right
    omega

theorem decimal_lt (hs : ∀ c ∈ s, isdigit c = true) : decimal s < 10 ^ s.length := by
  rw [decimal_of_digits hs]
  have hlt := foldl_lt hs 0
  omega

theorem dropWhile_append_digits (ht : ∀ c ∈ t, isdigit c = true) :
    (m ++ t).dropWhile isspace = m.dropWhile isspace ++ t := by
  rw [List.dropWhile_append]
  split
  . next hnil =>
    rw [List.isEmpty_iff] at hnil
    rw [hnil, List.nil_append]
    cases t with
    | nil => rfl
    | cons c t =>
      rw [List.dropWhile_cons_of_neg]
      simp [(isspace_of_isdigit (ht c List.mem_cons_self)).1]
  . rfl

theorem unsigned_append_digits (ht : ∀ c ∈ t, isdigit c = true) :
    unsigned (s ++ t) = unsigned s ++ t := by
  cases s with
  | nil =>
    cases t with
    | nil => rfl
    | cons c t =>
      have ⟨_, hminus, hplus⟩ := isspace_of_isdigit (ht c List.mem_cons_self)
      simp only [List.nil_append, unsigned, hminus, hplus, or_self, if_false]
  | cons c s => exact unsigned_append (by simp)

theorem isNegative_append_digits (ht : ∀ c ∈ t, isdigit c = true) :
    IsNegative (s ++ t) ↔ IsNegative s := by
  cases s with
  | nil =>
    cases t with
    | nil => rfl
    | cons c t =>
      have ⟨_, hminus, _⟩ := isspace_of_isdigit (ht c List.mem_cons_self)
      simp [IsNegative, hminus]
  | cons c s => simp [IsNegative]

theorem length_unsigned_le (s : Mem) : (unsigned s).length ≤ s.length := by
  cases s with
  | nil => rfl
  | cons c s =>
    simp only [unsigned]
    split
    . simp
    . rfl

def magnitude (m : Mem) : Nat :=
  decimal (unsigned (m.dropWhile isspace))

theorem OpenEnded.magnitude_lt (h : OpenEnded m) : magnitude m < 10 ^ m.length := by
  have hlt := decimal_lt h
  have hle := length_unsigned_le (m.dropWhile isspace)
  have hdrop := (List.dropWhile_suffix isspace (l := m)).length_le
  apply Nat.lt_of_lt_of_le hlt
  exact Nat.pow_le_pow_right (by omega) (hle.trans hdrop)

theorem OpenEnded.strtol_append_padded (h : OpenEnded m) (hn : n < 10 ^ k) (hk : m.length + k ≤ 18) :
    strtol (m ++ padded k n) =
      if IsNegative (m.dropWhile isspace) then
        -((magnitude m * 10 ^ k + n : Nat) : Int)
      else
        ((magnitude m * 10 ^ k + n : Nat) : Int) := by
  have hlt : magnitude m * 10 ^ k + n < 10 ^ 18 := by
    have hle : (magnitude m + 1) * 10 ^ k ≤ 10 ^ m.length * 10 ^ k :=
      Nat.mul_le_mul_right _ h.magnitude_lt
    rw [← Nat.pow_add] at hle
    have hmono : 10 ^ (m.length + k) ≤ 10 ^ 18 := Nat.pow_le_pow_right (by omega) hk
    rw [Nat.add_mul] at hle
    omega
  rw [strtol_eq, dropWhile_append_digits isdigit_padded]
  simp only [isNegative_append_digits isdigit_padded, unsigned_append_digits isdigit_padded,
    decimal_append_padded h hn]
  change (if _ then max (-((magnitude m * 10 ^ k + n : Nat) : Int)) (-2 ^ 63)
    else min ((magnitude m * 10 ^ k + n : Nat) : Int) (2 ^ 63 - 1)) = _
  split
  . apply Int.max_eq_left
    omega
  . apply Int.min_eq_left
    omega

/--
Digits behind an open ended text may turn it into a multiple of 2^32, which an `int` takes for 0.
-/
theorem OpenEnded.exists_atoi_eq_zero (h : OpenEnded m) (hm : m.length ≤ 8) :
    ∃ rest, atoi (m ++ rest) = 0 := by
  let n := (2 ^ 32 - magnitude m * 10 ^ 10 % 2 ^ 32) % 2 ^ 32
  refine ⟨padded 10 n, ?_⟩
  have hdvd : 2 ^ 32 ∣ magnitude m * 10 ^ 10 + n := by
    dsimp only [n]
    omega
  unfold atoi
  rw [h.strtol_append_padded (by dsimp only [n]; omega) (by omega), BitVec.toInt_ofInt]
  apply Int.bmod_eq_zero_of_dvd
  split
  . rw [Int.dvd_neg]
    exact_mod_cast hdvd
  . exact_mod_cast hdvd

/--
They may also turn it into a number that is too large or too small.
-/
theorem OpenEnded.atoi_append_99 (h : OpenEnded m) (hm : m.length ≤ 6) :
    atoi (m ++ padded 2 99) < 0 ∨ 32 < atoi (m ++ padded 2 99) := by
  have hlt := h.magnitude_lt
  have hmono : 10 ^ m.length ≤ 10 ^ 6 := Nat.pow_le_pow_right (by omega) hm
  unfold atoi
  rw [h.strtol_append_padded (by omega) (by omega), BitVec.toInt_ofInt]
  split
  . left
    rw [Int.bmod_eq_of_le (by omega) (by omega)]
    omega
  . right
    rw [Int.bmod_eq_of_le (by omega) (by omega)]
    omega

end Digits

section Printing

theorem decimal_digits_append (hs : ∀ c ∈ s, isdigit c = true) (rest : Mem) :
    decimal (s ++ 0 :: rest) = decimal s := by
  unfold decimal
  rw [List.takeWhile_append_of_pos hs, List.takeWhile_cons_of_neg (by decide), List.append_nil,
    List.takeWhile_eq_self_iff.mpr hs]

theorem strtol_digits (hs : ∀ c ∈ s, isdigit c = true) (hne : s ≠ []) (rest : Mem) :
    strtol (s ++ 0 :: rest) = min (decimal s : Int) (2 ^ 63 - 1) := by
  rw [← decimal_digits_append hs rest]
  cases s with
  | nil => exact absurd rfl hne
  | cons c s =>
    have ⟨hblank, hminus, hplus⟩ := isspace_of_isdigit (hs c List.mem_cons_self)
    unfold strtol
    rw [List.cons_append, List.dropWhile_cons_of_neg (by simp [hblank])]
    dsimp only
    rw [if_neg hminus, if_neg hplus]

theorem strtol_minus_digits (hs : ∀ c ∈ s, isdigit c = true) (rest : Mem) :
    strtol ('-'.toUInt8 :: (s ++ 0 :: rest)) = max (-(decimal s : Int)) (-2 ^ 63) := by
  unfold strtol
  rw [List.dropWhile_cons_of_neg (by decide)]
  dsimp only
  rw [if_pos rfl, decimal_digits_append hs]

theorem isdigit_toUInt8 {c : Char} (h : c.isDigit = true) :
    isdigit c.toUInt8 = true ∧ c.toUInt8.toNat = c.toNat := by
  simp only [Char.isDigit, Bool.and_eq_true, decide_eq_true_eq, ge_iff_le, UInt32.le_iff_toNat_le] at h
  have hlow : '0'.val.toNat = 48 := rfl
  have hhigh : '9'.val.toNat = 57 := rfl
  rw [hlow, hhigh] at h
  have hnat : c.toUInt8.toNat = c.toNat := by
    have hmod : c.toUInt8.toNat = c.val.toNat % 256 := rfl
    have hval : c.toNat = c.val.toNat := rfl
    omega
  refine ⟨?_, hnat⟩
  have hzero : '0'.toUInt8.toNat = 48 := rfl
  have hnine : '9'.toUInt8.toNat = 57 := rfl
  have hval : c.toNat = c.val.toNat := rfl
  simp only [isdigit, Bool.and_eq_true, decide_eq_true_eq, UInt8.le_iff_toNat_le, hzero, hnine]
  omega

theorem isdigit_repr : ∀ c ∈ text n.repr, isdigit c = true := by
  unfold text
  rw [Nat.toList_repr, List.forall_mem_map]
  intro c hc
  exact (isdigit_toUInt8 (Nat.isDigit_of_mem_toDigits (by decide) (by decide) hc)).1

theorem decimal_repr (n : Nat) : decimal (text n.repr) = n := by
  rw [decimal_of_digits isdigit_repr]
  unfold text
  rw [Nat.toList_repr, List.foldl_map]
  conv => rhs; rw [← Nat.ofDigitChars_ten_toDigits (n := n), Nat.ofDigitChars_eq_foldl]
  apply List.foldl_ext
  intro acc c hc
  rw [(isdigit_toUInt8 (Nat.isDigit_of_mem_toDigits (by decide) (by decide) hc)).2]
  rfl

theorem repr_ne_nil (n : Nat) : text n.repr ≠ [] := by
  unfold text
  rw [Nat.toList_repr]
  intro hnil
  rw [List.map_eq_nil_iff] at hnil
  have hpos := Nat.length_toDigits_pos (b := 10) (n := n)
  rw [hnil] at hpos
  contradiction

theorem strtol_text_toString (z : Int) (rest : Mem) :
    strtol (text (toString z) ++ 0 :: rest) = max (min z (2 ^ 63 - 1)) (-2 ^ 63) := by
  cases z with
  | ofNat n =>
    have htext : text (toString (Int.ofNat n)) = text n.repr := rfl
    rw [htext, strtol_digits isdigit_repr (repr_ne_nil n), decimal_repr]
    simp only [Int.ofNat_eq_natCast]
    omega
  | negSucc n =>
    have htext : text (toString (Int.negSucc n)) = '-'.toUInt8 :: text (n + 1).repr := by
      have hstring : toString (Int.negSucc n) = "-" ++ (n + 1).repr := rfl
      rw [hstring]
      unfold text
      rw [String.toList_append, List.map_append]
      rfl
    rw [htext, List.cons_append, strtol_minus_digits isdigit_repr, decimal_repr]
    omega

theorem length_text_toString (x : Int32) : (text (toString x.toInt)).length ≤ 11 := by
  have hlow := x.le_toInt
  have hhigh := x.toInt_lt
  have hlength {n : Nat} (h : n < 10 ^ 10) : n.repr.length ≤ 10 :=
    (Nat.length_repr_le_iff (by decide)).mpr h
  unfold text
  rw [List.length_map, String.length_toList]
  cases hx : x.toInt with
  | ofNat n =>
    rw [hx] at hhigh
    have hrepr : (toString (Int.ofNat n)).length = n.repr.length := rfl
    rw [hrepr]
    have := @hlength n (by simp only [Int.ofNat_eq_natCast] at hhigh; omega)
    omega
  | negSucc n =>
    rw [hx] at hlow
    have hrepr : toString (Int.negSucc n) = "-" ++ (n + 1).repr := rfl
    rw [hrepr, String.length_append]
    have := @hlength (n + 1) (by omega)
    have hminus : "-".length = 1 := rfl
    omega

/--
What `sprintf` prints for an `int` `atoi` reads back.
-/
theorem atoi_text_toString (x : Int32) (rest : Mem) :
    atoi (text (toString x.toInt) ++ 0 :: rest) = x.toInt := by
  have hlow := x.le_toInt
  have hhigh := x.toInt_lt
  unfold atoi
  rw [strtol_text_toString, BitVec.toInt_ofInt]
  rw [Int.bmod_eq_of_le (by omega) (by omega)]
  omega

end Printing

end CString
