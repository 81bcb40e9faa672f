import BBBLinux.CString.Basic

/-!
This module contains `strcpy` and `strcat`, and the `%-*s` of `printf`.
-/

namespace CString

def strcpy (dst src : Mem) : Mem :=
  memcpy dst 0 src (strlen src + 1)

def strcat (dst src : Mem) : Mem :=
  memcpy dst (strlen dst) src (strlen src + 1)

def leftJustified (pad : UInt8) (width : Nat) (s : Mem) : Mem :=
  cstr s ++ List.replicate (width - strlen s) pad

variable {dst src s rest : Mem} {pad : UInt8} {width : Nat}

theorem take_strlen : s.take (strlen s) = cstr s := by
  unfold strlen
  cases eq_cstr_append s with
  | inl h =>
    rw [← h]
    exact List.take_length
  | inr h =>
    obtain ⟨rest, hs⟩ := h
    conv => lhs; arg 2; rw [hs]
    exact List.take_left

theorem cstr_strcpy : cstr (strcpy dst src) = cstr src := by
  unfold strcpy memcpy
  rw [bytes_strlen_succ, List.take_zero, List.nil_append, List.append_assoc, List.singleton_append,
    cstr_append_zero zero_notMem_cstr]

theorem cstr_strcat : cstr (strcat dst src) = cstr dst ++ cstr src := by
  unfold strcat memcpy
  rw [take_strlen, cstr_append zero_notMem_cstr, bytes_strlen_succ, List.append_assoc,
    List.singleton_append, cstr_append_zero zero_notMem_cstr]

theorem length_leftJustified (h : strlen s ≤ width) : (leftJustified pad width s).length = width := by
  unfold leftJustified
  rw [List.length_append, List.length_replicate]
  unfold strlen at h ⊢
  omega

/--
What has no padding in it can be read back.
-/
theorem takeWhile_leftJustified (h : pad ∉ cstr s) :
    (leftJustified pad width s).takeWhile (· ≠ pad) = cstr s := by
  unfold leftJustified
  rw [List.takeWhile_append_of_pos]
  . cases width - strlen s with
    | zero => simp
    | succ n => simp [List.replicate_succ]
  . intro c hc
    simp only [ne_eq, decide_not, Bool.not_eq_true', decide_eq_false_iff_not]
    rintro rfl
    exact h hc

end CString
