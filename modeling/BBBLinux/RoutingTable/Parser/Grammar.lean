import BBBLinux.RoutingTable.Parser.Accepted

/-!
This module contains the grammar of the menu, and the lines outside of it that
`check_format_input_string` accepts all the same.
-/

namespace RoutingTable

open CString

def chomp (w : Mem) : Mem :=
  if w.getLast? = some newline then w.dropLast else w

/--
The words of a line without the newline at its end.
-/
def typed : List Mem → List Mem
  | [] => []
  | [w] => if chomp w = [] then [] else [chomp w]
  | w :: w' :: ws => w :: typed (w' :: ws)

def IsMac (w : Mem) : Prop :=
  w.length = macAddrLen - 1 ∧ ∀ i < macAddrLen - 1,
    if i % 3 ≠ 2 then isxdigit (w.getD i 0) = true else w.getD i 0 = ':'.toUInt8

def IsDotted (w : Mem) : Prop :=
  ∃ groups, groups.length = 4 ∧ Joined dot groups w

def IsMask (w : Mem) : Prop :=
  w ≠ [] ∧ (∀ c ∈ w, isdigit c = true) ∧ decimal w ≤ 32

instance (w : Mem) : Decidable (IsMask w) :=
  inferInstanceAs (Decidable (_ ∧ _))

inductive Grammar : List Mem → Prop where
  | mac {x : UInt8} {w : Mem} (hx : x ∈ text "CUD") (hmac : IsMac w) : Grammar [[x], w]
  | route {x : UInt8} {d m g o : Mem} (hx : x ∈ text "CU") (hd : IsDotted d) (hm : IsMask m)
      (hg : IsDotted g) : Grammar [[x], d, m, g, o]
  | key {x : UInt8} {d m : Mem} (hx : x ∈ text "D") (hd : IsDotted d) (hm : IsMask m) :
      Grammar [[x], d, m]
  | plain {x : UInt8} (hx : x ∈ text "SFQ") : Grammar [[x]]

/--
The accepted lines outside the grammar: `strtok` merges dots, `atoi` takes any text for a number, only the
first character of the first word is looked at, and nobody asks for more words than there should be.
-/
inductive Fault (u : Locals) : List Mem → Prop where
  | blank : Fault u []
  | unread {c : Mem} (hletter : c.headD 0 ∈ text "CUD")
      (hmac : checkFormatMACAddress u.copyBuffer = true) : Fault u [c]
  | mac {c w : Mem} (hletter : c.headD 0 ∈ text "CUD") (hmac : checkFormatMACAddress w = true)
      (h : ¬(c.length = 1 ∧ w.length = macAddrLen)) : Fault u [c, w]
  | route {c d m g o : Mem} {rest : List Mem} (hletter : c.headD 0 ∈ text "CU")
      (hroute : AcceptsRoute u d m g o)
      (h : ¬(c.length = 1 ∧ d.count dot = 3 ∧ IsMask m ∧ g.count dot = 3
        ∧ (typed (o :: rest)).length = 1)) : Fault u (c :: d :: m :: g :: o :: rest)
  | key {c d m : Mem} (hletter : c.headD 0 ∈ text "D") (hkey : AcceptsKey u d m)
      (h : ¬(c.length = 1 ∧ d.count dot = 3 ∧ IsMask (chomp m))) : Fault u [c, d, m]
  | plain {c : Mem} {ws : List Mem} (hletter : c.headD 0 ∈ text "SFQ")
      (h : typed (c :: ws) ≠ [[c.headD 0]]) : Fault u (c :: ws)

variable {u : Locals} {c w d m g o : Mem} {ws rest : List Mem}

theorem isDotted_iff : IsDotted w ↔ IsAddress w ∧ w.count dot = 3 :=
  exists_joined_iff

theorem chomp_cases (w : Mem) : chomp w = w ∧ w.getLast? ≠ some newline
    ∨ w = chomp w ++ [newline] := by
  unfold chomp
  split
  . next hlast =>
    right
    have hne : w ≠ [] := by
      intro hnil
      rw [hnil] at hlast
      contradiction
    rw [List.getLast?_eq_some_getLast hne, Option.some.injEq] at hlast
    have hw := List.dropLast_append_getLast hne
    rw [hlast] at hw
    exact hw.symm
  . next hlast => exact .inl ⟨rfl, hlast⟩

theorem headD_chomp (h : chomp w ≠ []) : (chomp w).headD 0 = w.headD 0 := by
  rcases chomp_cases w with ⟨hsame, _⟩ | hchomp
  . rw [hsame]
  . generalize chomp w = x at h hchomp
    rw [hchomp]
    cases x with
    | nil => contradiction
    | cons c x => rfl

theorem typed_singleton : typed [w] = if chomp w = [] then [] else [chomp w] := rfl

theorem typed_cons (h : ws ≠ []) : typed (w :: ws) = w :: typed ws := by
  cases ws with
  | nil => contradiction
  | cons w' ws => rfl

theorem eq_singleton_iff : c.length = 1 ↔ c = [c.headD 0] := by
  cases c with
  | nil => simp
  | cons x c => simp

/--
The newline may only be missing from the first word if there is no other.
-/
theorem headD_typed {v : Mem} {vs : List Mem} (h : typed (c :: ws) = v :: vs) :
    v.headD 0 = c.headD 0 := by
  cases ws with
  | nil =>
    rw [typed_singleton] at h
    split at h
    . contradiction
    . next hne =>
      rw [List.cons.injEq] at h
      rw [← h.1, headD_chomp hne]
  | cons w ws =>
    rw [typed_cons (by simp), List.cons.injEq] at h
    rw [h.1]

section Cases

theorem not_grammar_unread (hletter : c.headD 0 ∈ text "CUD") : ¬Grammar (typed [c]) := by
  intro h
  generalize htyped : typed [c] = ws at h
  have hhead {x : UInt8} {vs : List Mem} (h : ws = [x] :: vs) : x = c.headD 0 := by
    rw [h] at htyped
    exact headD_typed htyped
  have hlength : ws.length ≤ 1 := by
    rw [← htyped, typed_singleton]
    split <;> simp
  cases h with
  | plain hx =>
    rw [hhead rfl] at hx
    exact letters_plain hx hletter
  | _ => simp at hlength

theorem grammar_plain_iff (hletter : c.headD 0 ∈ text "SFQ") :
    Grammar (typed (c :: ws)) ↔ typed (c :: ws) = [[c.headD 0]] := by
  generalize htyped : typed (c :: ws) = vs
  have hhead {x : UInt8} {rest : List Mem} (h : vs = [x] :: rest) : x = c.headD 0 := by
    rw [h] at htyped
    exact headD_typed htyped
  constructor
  . intro h
    cases h with
    | plain hx => rw [hhead rfl]
    | mac hx =>
      rw [hhead rfl] at hx
      exact absurd hx (letters_plain hletter)
    | route hx =>
      rw [hhead rfl] at hx
      exact absurd (letters_createUpdate hx).1 (letters_plain hletter)
    | key hx =>
      rw [hhead rfl] at hx
      exact absurd (letters_delete hx).1 (letters_plain hletter)
  . intro h
    rw [h]
    exact .plain hletter

theorem lt_length_of_checkFormatMACAddress (hmac : checkFormatMACAddress w = true) :
    macAddrLen ≤ w.length := by
  have hle := le_strlen_of_checkFormatMACAddress hmac
  have hlength := cstr_length_le (m := w)
  unfold strlen at hle
  omega

theorem isMac_chomp_iff (hmac : checkFormatMACAddress w = true) :
    IsMac (chomp w) ↔ w.length = macAddrLen := by
  have hle := lt_length_of_checkFormatMACAddress hmac
  have hnewline : w.length = macAddrLen → w.getLast? = some newline := by
    intro hlength
    have hlast := (checkFormatMACAddress_iff.mp hmac).2
    have hlt : macAddrLen - 1 < w.length := by
      unfold macAddrLen at hlength ⊢
      omega
    rw [List.getD_eq_getElem?_getD, List.getElem?_eq_getElem hlt, Option.getD_some] at hlast
    rw [List.getLast?_eq_getElem?, hlength, List.getElem?_eq_getElem hlt, hlast]
  rcases chomp_cases w with ⟨hsame, hlast⟩ | hchomp
  . apply iff_of_false
    . intro h
      have hlength := h.1
      rw [hsame] at hlength
      unfold macAddrLen at hle hlength
      omega
    . exact fun hlength => hlast (hnewline hlength)
  . have hlength := congrArg List.length hchomp
    rw [List.length_append, List.length_singleton] at hlength
    constructor
    . intro h
      rw [hlength, h.1]
      rfl
    . intro hw
      rw [hw] at hlength
      have hchars : (chomp w).length = macAddrLen - 1 := by omega
      refine ⟨hchars, ?_⟩
      intro i hi
      have hget : w.getD i 0 = (chomp w).getD i 0 := by
        conv => lhs; rw [hchomp]
        rw [List.getD_eq_getElem?_getD, List.getD_eq_getElem?_getD,
          List.getElem?_append_left (by omega)]
      rw [← hget]
      exact (checkFormatMACAddress_iff.mp hmac).1 i hi

theorem grammar_mac_iff (hletter : c.headD 0 ∈ text "CUD") (hmac : checkFormatMACAddress w = true) :
    Grammar (typed [c, w]) ↔ c.length = 1 ∧ w.length = macAddrLen := by
  have hne : chomp w ≠ [] := by
    intro hnil
    have hle := lt_length_of_checkFormatMACAddress hmac
    rcases chomp_cases w with ⟨hsame, _⟩ | hchomp
    . rw [← hsame, hnil] at hle
      contradiction
    . rw [hchomp, hnil] at hle
      contradiction
  rw [typed_cons (by simp), typed_singleton, if_neg hne, ← isMac_chomp_iff hmac]
  generalize chomp w = w'
  constructor
  . intro h
    cases h with
    | mac _ hmac => exact ⟨rfl, hmac⟩
  . intro ⟨hc, hmac⟩
    rw [eq_singleton_iff] at hc
    rw [hc]
    exact .mac hletter hmac

theorem grammar_route_iff (hletter : c.headD 0 ∈ text "CU") (hroute : AcceptsRoute u d m g o) :
    Grammar (typed (c :: d :: m :: g :: o :: rest))
      ↔ c.length = 1 ∧ d.count dot = 3 ∧ IsMask m ∧ g.count dot = 3
        ∧ (typed (o :: rest)).length = 1 := by
  rw [typed_cons (by simp), typed_cons (by simp), typed_cons (by simp), typed_cons (by simp)]
  generalize typed (o :: rest) = vs
  constructor
  . intro h
    cases h with
    | route _ hd hm hg => exact ⟨rfl, (isDotted_iff.mp hd).2, hm, (isDotted_iff.mp hg).2, rfl⟩
  . intro ⟨hc, hd, hm, hg, hlength⟩
    rw [eq_singleton_iff] at hc
    rw [List.length_eq_one_iff] at hlength
    have ⟨v, hv⟩ := hlength
    rw [hc, hv]
    exact .route hletter (isDotted_iff.mpr ⟨hroute.destination, hd⟩) hm
      (isDotted_iff.mpr ⟨hroute.gatewayIp, hg⟩)

theorem grammar_key_iff (hletter : c.headD 0 ∈ text "D") (hkey : AcceptsKey u d m)
    (hd : d.length < destSize) :
    Grammar (typed [c, d, m]) ↔ c.length = 1 ∧ d.count dot = 3 ∧ IsMask (chomp m) := by
  rw [typed_cons (by simp), typed_cons (by simp), typed_singleton]
  split
  . next hnil =>
    rw [hnil]
    apply iff_of_false
    . intro h
      cases h with
      | mac _ hmac =>
        have hlength := hmac.1
        unfold destSize at hd
        unfold macAddrLen at hlength
        omega
    . exact fun h => h.2.2.1 rfl
  . generalize chomp m = m'
    constructor
    . intro h
      cases h with
      | key _ hd hm => exact ⟨rfl, (isDotted_iff.mp hd).2, hm⟩
    . intro ⟨hc, hd, hm⟩
      rw [eq_singleton_iff] at hc
      rw [hc]
      exact .key hletter (isDotted_iff.mpr ⟨hkey.destination, hd⟩) hm

end Cases

theorem Fault.accepted (h : Fault u ws) : Accepted u ws := by
  cases h with
  | blank => exact .blank
  | unread hletter hmac => exact .unread hletter hmac
  | mac hletter hmac => exact .mac hletter hmac
  | route hletter hroute => exact .route hletter hroute
  | key hletter hkey => exact .key hletter hkey
  | plain hletter => exact .plain hletter

theorem Fault.not_grammar (h : Fault u ws) (hfit : TokensFit ws) : ¬Grammar (typed ws) := by
  cases h with
  | blank =>
    intro h
    cases h
  | unread hletter => exact not_grammar_unread hletter
  | mac hletter hmac h =>
    rw [grammar_mac_iff hletter hmac]
    exact h
  | route hletter hroute h =>
    rw [grammar_route_iff hletter hroute]
    exact h
  | key hletter hkey h =>
    rw [grammar_key_iff hletter hkey ((hfit.2 hletter rfl).destination _ rfl)]
    exact h
  | plain hletter h =>
    rw [grammar_plain_iff hletter]
    exact h

theorem Accepted.grammar (h : Accepted u ws) (hfit : TokensFit ws) (hfault : ¬Fault u ws) :
    Grammar (typed ws) := by
  cases h with
  | blank => exact absurd .blank hfault
  | unread hletter hmac => exact absurd (.unread hletter hmac) hfault
  | mac hletter hmac =>
    rw [grammar_mac_iff hletter hmac]
    by_contra h
    exact hfault (.mac hletter hmac h)
  | route hletter hroute =>
    rw [grammar_route_iff hletter hroute]
    by_contra h
    exact hfault (.route hletter hroute h)
  | key hletter hkey =>
    rw [grammar_key_iff hletter hkey ((hfit.2 hletter rfl).destination _ rfl)]
    by_contra h
    exact hfault (.key hletter hkey h)
  | plain hletter =>
    rw [grammar_plain_iff hletter]
    by_contra h
    exact hfault (.plain hletter h)

theorem parser_sound_unless_fault (u : Locals) (line : Mem) (hfit : TokensFit (words space (cstr line))) :
    ((parseLine u line).retVal = true → Grammar (typed (words space (cstr line))))
      ↔ ¬Fault u (words space (cstr line)) := by
  rw [parseLine_eq, accepted_iff isWord_words hfit]
  constructor
  . intro h hfault
    exact hfault.not_grammar hfit (h hfault.accepted)
  . intro hfault h
    exact h.grammar hfit hfault

def createEth0 : Mem :=
  text "C 10.0.0.0 8 10.0.0.1 eth0\n"

theorem words_createEth0 : words space (cstr createEth0)
    = [text "C", text "10.0.0.0", text "8", text "10.0.0.1", text "eth0\n"] := by
  decide +kernel

theorem parser_sound_unless_fault_createEth0 : (parseLine .zero createEth0).retVal = true
    ∧ Grammar [text "C", text "10.0.0.0", text "8", text "10.0.0.1", text "eth0"] := by
  have hret : (parseLine .zero createEth0).retVal = true := by decide +kernel
  have hfit : TokensFit (words space (cstr createEth0)) := by
    rw [words_createEth0]
    have hfits : Fits [text "C", text "10.0.0.0", text "8", text "10.0.0.1", text "eth0\n"] := by
      constructor <;> decide
    exact ⟨fun _ _ => hfits, fun _ _ => hfits⟩
  have hsound := (parser_sound_unless_fault .zero createEth0 hfit).mpr
  rw [words_createEth0] at hsound
  refine ⟨hret, hsound ?_ hret⟩
  intro h
  cases h with
  | route _ _ h => exact h (by decide +kernel)
  | plain hletter => exact absurd hletter (by decide)

def flushNow : Mem :=
  text "F now\n"

theorem not_grammar_flushNow : ¬∀ u line, TokensFit (words space (cstr line)) →
    (parseLine u line).retVal = true → Grammar (typed (words space (cstr line))) := by
  intro h
  have hwords : words space (cstr flushNow) = [text "F", text "now\n"] := by decide +kernel
  have hfit : TokensFit [text "F", text "now\n"] :=
    ⟨fun hletter => absurd hletter (by decide), fun hletter => absurd hletter (by decide)⟩
  rw [← hwords] at hfit
  have hgrammar := h .zero flushNow hfit (by decide +kernel)
  rw [hwords] at hgrammar
  have htyped : typed [text "F", text "now\n"] = [[70], text "now"] := by decide
  rw [htyped] at hgrammar
  cases hgrammar with
  | mac hx => exact absurd hx (by decide)

end RoutingTable
