import PjProject.JsonRoundTrip

/-! The escapes of URIs (`string.c` of pjlib-util). A percent sign that is not followed by two hex digits stands for
itself in `pj_str_unescape`; `pj_strcpy_unescape` takes whatever two characters follow for digits. -/

namespace PjProject.UriEscape

open Scan (isxdigit hexDigitToVal)
open Json (hexDigit)

/-- The character of two digits. -/
def decoded (a b : UInt8) : UInt8 := (hexDigitToVal a <<< 4) + hexDigitToVal b

/-- The loop of `pj_str_unescape`. -/
def strUnescapeLoop : List UInt8 → List UInt8
  | [] => []
  | [c] => [c]
  | [c, d] => [c, d]
  | c :: a :: b :: rest =>
    if c = 37 ∧ isxdigit a ∧ isxdigit b then decoded a b :: strUnescapeLoop rest
    else c :: strUnescapeLoop (a :: b :: rest)

/-- `pj_str_unescape`. -/
def strUnescape (srcStr : List UInt8) : List UInt8 := if 37 ∉ srcStr then srcStr else strUnescapeLoop srcStr

/-- `pj_strcpy_unescape`. -/
def strcpyUnescape : List UInt8 → List UInt8
  | [] => []
  | [c] => [c]
  | [c, d] => [c, d]
  | c :: a :: b :: rest =>
    if c = 37 then decoded a b :: strcpyUnescape rest else c :: strcpyUnescape (a :: b :: rest)

/-- `pj_val_to_hex_digit`. -/
def valToHexDigit (value : UInt8) : List UInt8 := [hexDigit (value >>> 4), hexDigit (value &&& 0x0F)]

/-- The loop of `pj_strncpy2_escape`, with the room in front of `dst_end`. -/
def escapeLoop (unres : UInt8 → Bool) : List UInt8 → Nat → Option (List UInt8)
  | [], _ => some []
  | c :: more, room =>
    if room = 0 then none
    else if unres c then (escapeLoop unres more (room - 1)).map (c :: ·)
    else if 2 < room then (escapeLoop unres more (room - 3)).map (37 :: valToHexDigit c ++ ·)
    else none

/-- `pj_strncpy2_escape`: what it has put into the destination, or `none` for -1. -/
def strncpy2Escape (unres : UInt8 → Bool) (srcStr : List UInt8) (max : Int) : Option (List UInt8) :=
  if max < srcStr.length then none else escapeLoop unres srcStr max.toNat

def escapeByte (unres : UInt8 → Bool) (c : UInt8) : List UInt8 := if unres c then [c] else 37 :: valToHexDigit c

def escaped (unres : UInt8 → Bool) (srcStr : List UInt8) : List UInt8 := srcStr.flatMap (escapeByte unres)

/-- Every percent sign that a scan comes to, with two characters behind it, is followed by two hex digits. -/
def wellEscaped : List UInt8 → Bool
  | [] => true
  | [_] => true
  | [_, _] => true
  | c :: a :: b :: rest =>
    if c = 37 then isxdigit a && isxdigit b && wellEscaped rest else wellEscaped (a :: b :: rest)

/-! Escaping. -/

theorem length_escapeByte_pos (unres : UInt8 → Bool) (c : UInt8) : 0 < (escapeByte unres c).length := by
  unfold escapeByte
  split
  · exact Nat.one_pos
  · exact Nat.succ_pos _

theorem length_le_escaped (unres : UInt8 → Bool) (s : List UInt8) : s.length ≤ (escaped unres s).length := by
  induction s with
  | nil => exact Nat.le_refl 0
  | cons c more ih =>
    have hpos := length_escapeByte_pos unres c
    rw [escaped, List.flatMap_cons, List.length_append, List.length_cons]
    unfold escaped at ih
    omega

theorem escapeLoop_eq (unres : UInt8 → Bool) (s : List UInt8) (room : Nat) :
    escapeLoop unres s room = if room < (escaped unres s).length then none else some (escaped unres s) := by
  induction s generalizing room with
  | nil => rfl
  | cons c more ih =>
    have hescaped : escaped unres (c :: more) = escapeByte unres c ++ escaped unres more := List.flatMap_cons
    rw [escapeLoop, hescaped, List.length_append]
    by_cases hroom : room = 0
    · have hpos := length_escapeByte_pos unres c
      rw [if_pos hroom, if_pos (by omega)]
    rw [if_neg hroom]
    unfold escapeByte
    cases hunres : unres c with
    | true =>
      simp only [if_true, ih, List.length_singleton]
      by_cases hlt : room - 1 < (escaped unres more).length
      · rw [if_pos hlt, if_pos (by omega)]
        rfl
      · rw [if_neg hlt, if_neg (by omega)]
        rfl
    | false =>
      have hthree : (37 :: valToHexDigit c).length = 3 := rfl
      simp only [Bool.false_eq_true, if_false, ih, hthree]
      by_cases htwo : 2 < room
      · rw [if_pos htwo]
        by_cases hlt : room - 3 < (escaped unres more).length
        · rw [if_pos hlt, if_pos (by omega)]
          rfl
        · rw [if_neg hlt, if_neg (by omega)]
          rfl
      · rw [if_neg htwo, if_pos (by omega)]

theorem strncpy2Escape_eq (unres : UInt8 → Bool) (s : List UInt8) (max : Int) :
    strncpy2Escape unres s max = if max < (escaped unres s).length then none else some (escaped unres s) := by
  have hle := length_le_escaped unres s
  unfold strncpy2Escape
  rw [escapeLoop_eq]
  by_cases hshort : max < s.length
  · rw [if_pos hshort, if_pos (by omega)]
  · rw [if_neg hshort]
    by_cases hlt : max < (escaped unres s).length
    · rw [if_pos (by omega), if_pos hlt]
    · rw [if_neg (by omega), if_neg hlt]

/-! Unescaping. -/

theorem decoded_valToHexDigit (c : UInt8) : decoded (hexDigit (c >>> 4)) (hexDigit (c &&& 0x0F)) = c :=
  forall_uint8 (p := fun c => decoded (hexDigit (c >>> 4)) (hexDigit (c &&& 0x0F)) = c) (by decide +kernel) c

theorem isxdigit_hexDigit (c : UInt8) :
    isxdigit (hexDigit (c >>> 4)) = true ∧ isxdigit (hexDigit (c &&& 0x0F)) = true :=
  forall_uint8 (p := fun c => isxdigit (hexDigit (c >>> 4)) = true ∧ isxdigit (hexDigit (c &&& 0x0F)) = true)
    (by decide +kernel) c

theorem ne_percent_of_isxdigit {c : UInt8} (h : isxdigit c = true) : c ≠ 37 := by
  rintro rfl
  exact absurd h (by decide)

/-- Another character stands for itself. -/
theorem strUnescapeLoop_cons {c : UInt8} (h : c ≠ 37) (more : List UInt8) :
    strUnescapeLoop (c :: more) = c :: strUnescapeLoop more := by
  match more with
  | [] => rfl
  | [_] => rfl
  | a :: b :: rest => rw [strUnescapeLoop, if_neg fun hc => h hc.1]

theorem strcpyUnescape_cons {c : UInt8} (h : c ≠ 37) (more : List UInt8) :
    strcpyUnescape (c :: more) = c :: strcpyUnescape more := by
  match more with
  | [] => rfl
  | [_] => rfl
  | a :: b :: rest => rw [strcpyUnescape, if_neg h]

theorem strUnescapeLoop_percent (more : List UInt8) :
    (∃ a b rest, more = a :: b :: rest ∧ isxdigit a = true ∧ isxdigit b = true ∧
      strUnescapeLoop (37 :: more) = decoded a b :: strUnescapeLoop rest) ∨
      strUnescapeLoop (37 :: more) = 37 :: strUnescapeLoop more := by
  match more with
  | [] => exact .inr rfl
  | [_] => exact .inr rfl
  | a :: b :: rest =>
    rw [strUnescapeLoop]
    by_cases hdigits : isxdigit a ∧ isxdigit b
    · exact .inl ⟨a, b, rest, rfl, hdigits.1, hdigits.2, if_pos ⟨rfl, hdigits⟩⟩
    · exact .inr (if_neg fun h => hdigits h.2)

theorem strUnescape_eq (s : List UInt8) : strUnescape s = strUnescapeLoop s := by
  unfold strUnescape
  split
  case isTrue hnone =>
    induction s with
    | nil => rfl
    | cons c more ih =>
      rw [strUnescapeLoop_cons (fun h => hnone (h ▸ List.mem_cons_self)),
        ← ih fun h => hnone (List.mem_cons_of_mem c h)]
  case isFalse => rfl

/-- What was escaped comes back, from both functions. -/
theorem unescape_escaped {unres : UInt8 → Bool} (hpercent : unres 37 = false) (s : List UInt8) :
    strUnescapeLoop (escaped unres s) = s ∧ strcpyUnescape (escaped unres s) = s := by
  induction s with
  | nil => exact ⟨rfl, rfl⟩
  | cons c more ih =>
    have hescaped : escaped unres (c :: more) = escapeByte unres c ++ escaped unres more := List.flatMap_cons
    rw [hescaped]
    unfold escapeByte
    cases hunres : unres c with
    | true =>
      have hc : c ≠ 37 := by
        rintro rfl
        exact absurd hunres (by rw [hpercent]; exact Bool.false_ne_true)
      simp only [if_true, List.singleton_append]
      rw [strUnescapeLoop_cons hc, strcpyUnescape_cons hc, ih.1, ih.2]
      exact ⟨rfl, rfl⟩
    | false =>
      simp only [Bool.false_eq_true, if_false, valToHexDigit, List.cons_append, List.nil_append]
      rw [strUnescapeLoop, strcpyUnescape, if_pos ⟨rfl, isxdigit_hexDigit c⟩, if_pos rfl, decoded_valToHexDigit,
        ih.1, ih.2]
      exact ⟨rfl, rfl⟩

/-! Where the two functions differ. -/

/-- Behind a percent sign that `pj_str_unescape` keeps, `pj_strcpy_unescape` has nothing to catch up with. -/
theorem length_le_of_skipped {rest : List UInt8} (a b : UInt8)
    (ih : ∀ l : List UInt8, l.length ≤ rest.length → (strcpyUnescape l).length ≤ (strUnescapeLoop l).length) :
    (strcpyUnescape rest).length ≤ (strUnescapeLoop (a :: b :: rest)).length := by
  have hrest := ih rest le_rfl
  -- two hex digits that are left over were taken together by the other function
  have hlate (h1 h2 : UInt8) (more : List UInt8) (heq : rest = h1 :: h2 :: more) (hd1 : isxdigit h1 = true)
      (hd2 : isxdigit h2 = true) : (strcpyUnescape rest).length ≤ (strUnescapeLoop more).length + 2 := by
    have hmore := ih more (by rw [heq, List.length_cons, List.length_cons]; omega)
    rw [heq, strcpyUnescape_cons (ne_percent_of_isxdigit hd1), strcpyUnescape_cons (ne_percent_of_isxdigit hd2),
      List.length_cons, List.length_cons]
    omega
  by_cases ha : a = 37
  · subst ha
    rcases strUnescapeLoop_percent (b :: rest) with ⟨b', h, more, heq, -, hdigit, hloop⟩ | hloop
    · obtain ⟨rfl, rfl⟩ := List.cons.inj heq
      have hmore := ih more (Nat.le_succ _)
      rw [hloop, strcpyUnescape_cons (ne_percent_of_isxdigit hdigit), List.length_cons, List.length_cons]
      omega
    · rw [hloop, List.length_cons]
      by_cases hb : b = 37
      · subst hb
        rcases strUnescapeLoop_percent rest with ⟨h1, h2, more, heq, hd1, hd2, hloop'⟩ | hloop'
        · have hle := hlate h1 h2 more heq hd1 hd2
          rw [hloop', List.length_cons]
          omega
        · rw [hloop', List.length_cons]
          omega
      · rw [strUnescapeLoop_cons hb, List.length_cons]
        omega
  · rw [strUnescapeLoop_cons ha, List.length_cons]
    by_cases hb : b = 37
    · subst hb
      rcases strUnescapeLoop_percent rest with ⟨h1, h2, more, heq, hd1, hd2, hloop⟩ | hloop
      · have hle := hlate h1 h2 more heq hd1 hd2
        rw [hloop, List.length_cons]
        omega
      · rw [hloop, List.length_cons]
        omega
    · rw [strUnescapeLoop_cons hb, List.length_cons]
      omega

theorem length_strcpyUnescape_le (s : List UInt8) : (strcpyUnescape s).length ≤ (strUnescapeLoop s).length := by
  induction hn : s.length using Nat.strong_induction_on generalizing s with
  | _ n ih =>
    match s with
    | [] => exact le_rfl
    | [_] => exact le_rfl
    | [_, _] => exact le_rfl
    | c :: a :: b :: rest =>
      have hall : ∀ l : List UInt8, l.length ≤ rest.length + 2 →
          (strcpyUnescape l).length ≤ (strUnescapeLoop l).length := by
        intro l hl
        refine ih l.length ?_ l rfl
        simp only [List.length_cons] at hn
        omega
      have hskipped : (strcpyUnescape rest).length ≤ (strUnescapeLoop (a :: b :: rest)).length :=
        length_le_of_skipped a b fun l hl => hall l (Nat.le_add_right_of_le hl)
      have hrest := hall rest (by omega)
      have hmore := hall (a :: b :: rest) le_rfl
      rw [strcpyUnescape, strUnescapeLoop]
      by_cases hc : c = 37
      · rw [if_pos hc, List.length_cons]
        split <;> rw [List.length_cons] <;> omega
      · rw [if_neg hc, if_neg fun h => hc h.1, List.length_cons, List.length_cons]
        omega

theorem decoded_percent (b : UInt8) : decoded 37 b ≠ 37 :=
  forall_uint8 (p := fun b => decoded 37 b ≠ 37) (by decide +kernel) b

theorem add_hexDigitToVal_ne (b : UInt8) : isxdigit b = true → 32 + hexDigitToVal b ≠ b :=
  forall_uint8 (p := fun b => isxdigit b = true → 32 + hexDigitToVal b ≠ b) (by decide +kernel) b

/-- A digit for which the percent sign as a second one gives a percent sign is followed by another character. -/
theorem decoded_ne {a b : UInt8} (ha : decoded a 37 = 37) (hb : isxdigit b = true) : decoded a b ≠ b := by
  have hhigh : hexDigitToVal a <<< 4 = 32 := by
    have hfive : hexDigitToVal 37 = 5 := by decide
    rw [decoded, hfive] at ha
    have hsub : hexDigitToVal a <<< 4 + 5 - 5 = (37 : UInt8) - 5 := congrArg (· - 5) ha
    rwa [UInt8.add_sub_cancel] at hsub
  have hlow := add_hexDigitToVal_ne b
  rw [decoded, hhigh]
  exact hlow hb

/-- A percent sign that only one function takes for an escape makes the results differ. -/
theorem ne_of_kept (a b : UInt8) (rest : List UInt8) :
    37 :: strUnescapeLoop (a :: b :: rest) ≠ decoded a b :: strcpyUnescape rest := by
  intro heq
  obtain ⟨hfirst, hrest⟩ := List.cons.inj heq
  have hlength := length_strcpyUnescape_le rest
  by_cases ha : a = 37
  · rw [ha] at hfirst
    exact decoded_percent b hfirst.symm
  rw [strUnescapeLoop_cons ha] at hrest
  by_cases hb : b = 37
  · rw [hb] at hrest hfirst
    rcases strUnescapeLoop_percent rest with ⟨h1, h2, more, rfl, hd1, hd2, hloop⟩ | hloop
    · rw [hloop, strcpyUnescape_cons (ne_percent_of_isxdigit hd1),
        strcpyUnescape_cons (ne_percent_of_isxdigit hd2)] at hrest
      obtain ⟨rfl, hrest⟩ := List.cons.inj hrest
      exact decoded_ne hfirst.symm hd2 (List.cons.inj hrest).1
    · rw [hloop] at hrest
      have hlen := congrArg List.length hrest
      rw [List.length_cons, List.length_cons] at hlen
      omega
  · rw [strUnescapeLoop_cons hb] at hrest
    have hlen := congrArg List.length hrest
    rw [List.length_cons, List.length_cons] at hlen
    omega

theorem unescape_agree_iff (s : List UInt8) : strUnescapeLoop s = strcpyUnescape s ↔ wellEscaped s = true := by
  induction hn : s.length using Nat.strong_induction_on generalizing s with
  | _ n ih =>
    match s with
    | [] => exact iff_of_true rfl rfl
    | [_] => exact iff_of_true rfl rfl
    | [_, _] => exact iff_of_true rfl rfl
    | c :: a :: b :: rest =>
      rw [strcpyUnescape, strUnescapeLoop, wellEscaped]
      simp only [List.length_cons] at hn
      by_cases hc : c = 37
      · rw [if_pos hc, if_pos hc]
        by_cases hdigits : isxdigit a = true ∧ isxdigit b = true
        · have hrest := ih rest.length (by omega) rest rfl
          rw [if_pos ⟨hc, hdigits⟩, hdigits.1, hdigits.2, Bool.true_and, Bool.true_and, ← hrest]
          exact ⟨fun h => (List.cons.inj h).2, fun h => congrArg _ h⟩
        · rw [if_neg fun h => hdigits h.2, hc]
          refine iff_of_false (ne_of_kept a b rest) fun hwell => hdigits ?_
          rw [Bool.and_eq_true, Bool.and_eq_true] at hwell
          exact hwell.1
      · have hmore := ih (a :: b :: rest).length (by simp only [List.length_cons]; omega) (a :: b :: rest) rfl
        rw [if_neg hc, if_neg hc, if_neg fun h => hc h.1, ← hmore]
        exact ⟨fun h => (List.cons.inj h).2, fun h => congrArg _ h⟩

/-- Escaped text comes back, the escape fails just when the escaped text is too long, and the two functions agree just
on the texts in which two hex digits follow the percent signs. -/
theorem uri_escape_spec {unres : UInt8 → Bool} (hpercent : unres 37 = false) (s : List UInt8) (max : Int) :
    (∀ text, strncpy2Escape unres s max = some text → strUnescape text = s ∧ strcpyUnescape text = s) ∧
      (strncpy2Escape unres s max = none ↔ max < (escaped unres s).length) ∧
      (strUnescape s = strcpyUnescape s ↔ wellEscaped s = true) := by
  rw [strncpy2Escape_eq]
  refine ⟨fun text htext => ?_, ?_, by rw [strUnescape_eq]; exact unescape_agree_iff s⟩
  · split at htext
    case isTrue => cases htext
    case isFalse =>
      cases htext
      rw [strUnescape_eq]
      exact unescape_escaped hpercent s
  · split
    case isTrue hlt => exact iff_of_true rfl hlt
    case isFalse hlt => exact iff_of_false (fun h => by cases h) hlt

def letters (c : UInt8) : Bool := 97 ≤ c && c ≤ 122

theorem uri_escape_spec_space :
    letters 37 = false ∧ strncpy2Escape letters (ascii "a b%") 8 = some (ascii "a%20b%25") ∧
      strUnescape (ascii "a%20b%25") = ascii "a b%" := by
  have hescape : strncpy2Escape letters (ascii "a b%") 8 = some (ascii "a%20b%25") := by decide
  exact ⟨by decide, hescape, ((uri_escape_spec (by decide) (ascii "a b%") 8).1 _ hescape).1⟩

/-- Letters that are no digits are kept by one function only. -/
theorem unescape_no_digits : strUnescape (ascii "%zz") = ascii "%zz" ∧ strcpyUnescape (ascii "%zz") = ascii "3" := by
  decide

end PjProject.UriEscape
