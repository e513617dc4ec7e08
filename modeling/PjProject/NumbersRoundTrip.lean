import PjProject.NumbersText
import Mathlib.Data.List.GetD

/-! The text of a number, and what the conversions make of it. `pj_utoa_pad` puts the digits down from the last one and
then turns them around. Padding that is taken for a digit, or that is neither a digit nor white space, changes the number
or hides it. -/

namespace PjProject.Numbers

open Sdp (isspace)

/-! The digits, the last one first. -/

def lowDigits (val : Nat) : List Nat := if val = 0 then [0] else Nat.digits 10 val

def digitChar (d : Nat) : UInt8 := .ofNat (d + 48)

theorem putDigits_eq (val : Nat) : putDigits val = (lowDigits val).map digitChar := by
  induction val using Nat.strongRecOn with
  | ind val ih =>
    rw [putDigits, lowDigits]
    by_cases hmore : 0 < val / 10
    · have hne : val ≠ 0 := by omega
      rw [if_pos hmore, ih (val / 10) (by omega), if_neg hne, lowDigits, if_neg (by omega),
        Nat.digits_eq_cons_digits_div (by decide) hne]
      rfl
    · rw [if_neg hmore]
      by_cases hzero : val = 0
      · rw [if_pos hzero, hzero]
        rfl
      · have hlast : val / 10 = 0 := by omega
        rw [if_neg hzero, Nat.digits_eq_cons_digits_div (by decide) hzero, hlast, Nat.digits_zero]
        rfl

theorem lowDigits_lt {val d : Nat} (hd : d ∈ lowDigits val) : d < 10 := by
  unfold lowDigits at hd
  split_ifs at hd
  · rw [List.mem_singleton.mp hd]
    decide
  · exact Nat.digits_lt_base (by decide) hd

theorem lowDigits_ne_nil (val : Nat) : lowDigits val ≠ [] := by
  unfold lowDigits
  split_ifs with hzero
  · exact List.cons_ne_nil _ _
  · exact Nat.digits_ne_nil_iff_ne_zero.mpr hzero

theorem numeral_lowDigits (val : Nat) : numeral 10 (lowDigits val).reverse = val := by
  rw [numeral, List.reverse_reverse, lowDigits]
  split_ifs with hzero
  · rw [hzero]
    rfl
  · exact Nat.ofDigits_digits 10 val

/-! The buffer is turned around in place. -/

@[simp] theorem length_exchange (bytes : List UInt8) (buf p : Nat) : (exchange bytes buf p).length = bytes.length := by
  fun_induction exchange bytes buf p with
  | case1 bytes buf p temp swapped hmore ih => rw [ih, List.length_set, List.length_set]
  | case2 bytes buf p temp swapped hend => rw [List.length_set, List.length_set]

theorem getD_swap {bytes : List UInt8} {i j : Nat} (hi : i < bytes.length) (hj : j < bytes.length) (k : Nat) :
    ((bytes.set j (bytes.getD i 0)).set i (bytes.getD j 0)).getD k 0 =
      bytes.getD (if k = i then j else if k = j then i else k) 0 := by
  rw [List.getD_eq_getElem?_getD, List.getElem?_set, List.getElem?_set, List.length_set]
  by_cases hki : k = i
  · rw [if_pos hki.symm, if_pos (hki ▸ hi), if_pos hki]
    rfl
  · rw [if_neg (Ne.symm hki), if_neg hki]
    by_cases hkj : k = j
    · rw [if_pos hkj.symm, if_pos (hkj ▸ hj), if_pos hkj]
      rfl
    · rw [if_neg (Ne.symm hkj), if_neg hkj, List.getD_eq_getElem?_getD]

/-- What lies between the two pointers is turned around, and the rest stays. -/
theorem getD_exchange {bytes : List UInt8} {buf p : Nat} (hle : buf ≤ p) (hp : p < bytes.length) (k : Nat) :
    (exchange bytes buf p).getD k 0 = bytes.getD (if buf ≤ k ∧ k ≤ p then buf + p - k else k) 0 := by
  fun_induction exchange bytes buf p with
  | case1 bytes buf p temp swapped hmore ih =>
    rw [ih (by omega) (by rw [List.length_set, List.length_set]; omega), getD_swap (by omega) hp]
    congr 1
    split_ifs <;> omega
  | case2 bytes buf p temp swapped hend =>
    rw [getD_swap (by omega) hp]
    congr 1
    split_ifs <;> omega

theorem exchange_eq {text : List UInt8} (hne : text ≠ []) :
    exchange (text ++ [0]) 0 (text.length - 1) = text.reverse ++ [0] := by
  have hpos := List.length_pos_of_ne_nil hne
  apply List.ext_getElem
  · simp
  · intro k hk hk'
    rw [length_exchange, List.length_append, List.length_singleton] at hk
    rw [← List.getD_eq_getElem (d := 0), ← List.getD_eq_getElem (d := 0),
      getD_exchange (Nat.zero_le _) (by rw [List.length_append, List.length_singleton]; omega)]
    by_cases hin : k < text.length
    · rw [if_pos ⟨Nat.zero_le k, by omega⟩, List.getD_append _ _ _ _ (by omega),
        List.getD_append _ _ _ _ (by rw [List.length_reverse]; exact hin), List.getD_reverse _ hin]
      congr 1
      omega
    · obtain rfl : k = text.length := by omega
      rw [if_neg (by omega)]
      simp

/-- The padding and the digits, in the order in which they are read. -/
theorem written_utoaPad (val : Nat) (minDig pad : Int) :
    written (utoaPad val minDig pad) =
      List.replicate (minDig.toNat - (lowDigits val).length) (.ofInt pad) ++ (lowDigits val).reverse.map digitChar := by
  have hne : putDigits val ++ List.replicate (minDig.toNat - (putDigits val).length) (.ofInt pad) ≠ [] := by
    rw [putDigits_eq]
    simp [lowDigits_ne_nil]
  unfold written utoaPad
  simp only [exchange_eq hne]
  rw [← List.length_reverse, List.take_left, List.reverse_append, List.reverse_replicate, putDigits_eq,
    List.length_map, List.map_reverse]

/-! Reading the text again. -/

theorem digitValue_digitChar {d : Nat} (hd : d < 10) : digitValue (digitChar d) = some d := by
  interval_cases d <;> rfl

theorem isspace_digitChar {d : Nat} (hd : d < 10) : isspace (digitChar d) = false := by
  interval_cases d <;> rfl

theorem leadingDigits_append {l : List UInt8} {ds : List Nat} (h : l.map digitValue = ds.map some)
    (hlt : ∀ d ∈ ds, d < 10) (more : List UInt8) : leadingDigits 10 (l ++ more) = ds ++ leadingDigits 10 more := by
  induction l generalizing ds with
  | nil =>
    rw [List.map_nil, eq_comm, List.map_eq_nil_iff] at h
    rw [h]
    rfl
  | cons c l ih =>
    cases ds with
    | nil => cases h
    | cons d ds =>
      obtain ⟨hc, hl⟩ := List.cons.inj h
      have hmore := ih hl fun e he => hlt e (List.mem_cons_of_mem d he)
      rw [List.cons_append, leadingDigits, hc]
      simp only [hlt d List.mem_cons_self, if_true, hmore, List.cons_append]

theorem digits_of_not_isspace {c : UInt8} (hc : isspace c = false) (more : List UInt8) :
    digits 10 (c :: more) = leadingDigits 10 (c :: more) := by
  rw [digits, List.dropWhile_cons_of_neg (Bool.eq_false_iff.mp hc)]

theorem leadingDigits_text (val : Nat) :
    leadingDigits 10 ((lowDigits val).reverse.map digitChar) = (lowDigits val).reverse := by
  have hlt : ∀ d ∈ (lowDigits val).reverse, d < 10 := fun d hd => lowDigits_lt (List.mem_reverse.mp hd)
  have hvalues : ((lowDigits val).reverse.map digitChar).map digitValue = (lowDigits val).reverse.map some := by
    rw [List.map_map]
    exact List.map_congr_left fun d hd => digitValue_digitChar (hlt d hd)
  have happend := leadingDigits_append hvalues hlt []
  rwa [List.append_nil, leadingDigits, List.append_nil] at happend

theorem dropWhile_text (val : Nat) :
    ((lowDigits val).reverse.map digitChar).dropWhile isspace = (lowDigits val).reverse.map digitChar := by
  cases hds : (lowDigits val).reverse with
  | nil => rfl
  | cons d ds =>
    have hd : d < 10 := lowDigits_lt (List.mem_reverse.mp (hds ▸ List.mem_cons_self))
    rw [List.map_cons, List.dropWhile_cons_of_neg (Bool.eq_false_iff.mp (isspace_digitChar hd))]

section Padding

variable (val count : Nat) {c : UInt8}

def padded (val count : Nat) (c : UInt8) : List UInt8 := List.replicate count c ++ (lowDigits val).reverse.map digitChar

theorem digits_unpadded : digits 10 (padded val 0 c) = (lowDigits val).reverse :=
  (congrArg (leadingDigits 10) (dropWhile_text val)).trans (leadingDigits_text val)

theorem digits_padded_space (hc : isspace c = true) : digits 10 (padded val count c) = (lowDigits val).reverse := by
  unfold digits padded
  rw [List.dropWhile_append, List.dropWhile_replicate, if_pos hc]
  exact (congrArg (leadingDigits 10) (dropWhile_text val)).trans (leadingDigits_text val)

theorem digits_padded_other (hspace : isspace c = false) (hc : ∀ d, digitValue c = some d → 10 ≤ d) :
    digits 10 (padded val (count + 1) c) = [] := by
  rw [padded, List.replicate_succ, List.cons_append, digits_of_not_isspace hspace, leadingDigits]
  cases hd : digitValue c with
  | none => rfl
  | some d => exact if_neg (Nat.not_lt.mpr (hc d hd))

theorem digits_padded_digit {d : Nat} (hspace : isspace c = false) (hc : digitValue c = some d) (hd : d < 10) :
    digits 10 (padded val (count + 1) c) = List.replicate (count + 1) d ++ (lowDigits val).reverse := by
  have hvalues : (List.replicate (count + 1) c).map digitValue = (List.replicate (count + 1) d).map some := by
    rw [List.map_replicate, List.map_replicate, hc]
  have hlt : ∀ e ∈ List.replicate (count + 1) d, e < 10 := fun e he => (List.mem_replicate.mp he).2 ▸ hd
  calc digits 10 (padded val (count + 1) c)
      = leadingDigits 10 (padded val (count + 1) c) := digits_of_not_isspace hspace _
    _ = List.replicate (count + 1) d ++ leadingDigits 10 ((lowDigits val).reverse.map digitChar) :=
        leadingDigits_append hvalues hlt _
    _ = List.replicate (count + 1) d ++ (lowDigits val).reverse := by rw [leadingDigits_text]

theorem numeral_padded_zero : numeral 10 (List.replicate count 0 ++ (lowDigits val).reverse) = val := by
  rw [numeral, List.reverse_append, List.reverse_replicate, Nat.ofDigits_append_replicate_zero]
  exact numeral_lowDigits val

theorem lt_numeral_padded {d : Nat} (hd : 0 < d) :
    val < numeral 10 (List.replicate (count + 1) d ++ (lowDigits val).reverse) := by
  have hval : Nat.ofDigits 10 (lowDigits val).reverse.reverse = val := numeral_lowDigits val
  have hpad : 0 < Nat.ofDigits 10 (List.replicate (count + 1) d) := by
    rw [List.replicate_succ, Nat.ofDigits_cons]
    omega
  rw [numeral, List.reverse_append, List.reverse_replicate, Nat.ofDigits_append, hval]
  exact Nat.lt_add_of_pos_right (Nat.mul_pos (Nat.pow_pos (by decide)) hpad)

end Padding

theorem eq_zero_char {c : UInt8} (hc : digitValue c = some 0) : c = 48 :=
  forall_uint8 (p := fun c => digitValue c = some 0 → c = 48) (by decide +kernel) c hc

/-- The digits of a padded number stand for the number itself if and only if there is no padding, or the padding is zeros or
white space. -/
theorem numeral_padded_iff (val count : Nat) (c : UInt8) :
    (digits 10 (padded val count c) ≠ [] ∧ numeral 10 (digits 10 (padded val count c)) = val) ↔
      count = 0 ∨ c = 48 ∨ isspace c = true := by
  have hne : (lowDigits val).reverse ≠ [] := mt List.reverse_eq_nil_iff.mp (lowDigits_ne_nil val)
  cases count with
  | zero =>
    rw [digits_unpadded]
    exact iff_of_true ⟨hne, numeral_lowDigits val⟩ (.inl rfl)
  | succ count =>
    cases hspace : isspace c with
    | true =>
      rw [digits_padded_space val _ hspace]
      exact iff_of_true ⟨hne, numeral_lowDigits val⟩ (.inr (.inr rfl))
    | false =>
      by_cases hdigit : ∃ d, digitValue c = some d ∧ d < 10
      · obtain ⟨d, hc, hd⟩ := hdigit
        rw [digits_padded_digit val count hspace hc hd]
        by_cases hzero : d = 0
        · subst hzero
          rw [numeral_padded_zero]
          exact iff_of_true ⟨by simp [hne], rfl⟩ (.inr (.inl (eq_zero_char hc)))
        · have hlarge := lt_numeral_padded val count (Nat.pos_of_ne_zero hzero)
          refine iff_of_false (fun h => absurd h.2 (by omega)) ?_
          rintro (hnone | rfl | hfalse)
          · exact Nat.succ_ne_zero count hnone
          · exact hzero (Option.some.inj hc).symm
          · cases hfalse
      · have hother : ∀ d, digitValue c = some d → 10 ≤ d := fun d hc => not_lt.mp fun hd => hdigit ⟨d, hc, hd⟩
        rw [digits_padded_other val count hspace hother]
        refine iff_of_false (fun h => h.1 rfl) ?_
        rintro (hnone | rfl | hfalse)
        · exact Nat.succ_ne_zero count hnone
        · exact hdigit ⟨0, rfl, by decide⟩
        · cases hfalse

/-- No padding is put in, or it is zeros or white space. -/
def Readable (val : Nat) (minDig pad : Int) : Prop :=
  minDig ≤ (utoa val).2 ∨ UInt8.ofInt pad = 48 ∨ isspace (.ofInt pad) = true

theorem utoa_length (val : Nat) : (utoa val).2 = (lowDigits val).length := by
  simp [utoa, utoaPad, putDigits_eq]

theorem strtoulMax_written {max val : Nat} (hval : val ≤ max) (minDig pad : Int) :
    strtoulMax max (written (utoaPad val minDig pad)) 10 = (.success, some val) ↔ Readable val minDig pad := by
  have hpadded : written (utoaPad val minDig pad) =
      padded val (minDig.toNat - (lowDigits val).length) (.ofInt pad) := written_utoaPad val minDig pad
  have hcount : minDig.toNat - (lowDigits val).length = 0 ↔ minDig ≤ (utoa val).2 := by
    rw [utoa_length]
    omega
  rw [hpadded, strtoulMax_eq max (.inl ⟨by decide, le_rfl⟩), Readable, ← hcount, ← numeral_padded_iff]
  generalize digits 10 (padded val (minDig.toNat - (lowDigits val).length) (.ofInt pad)) = ds
  by_cases hds : ds = []
  · simp [hds]
  by_cases hmax : numeral 10 ds ≤ max
  · simp [hds, hmax]
  · have hdiff : numeral 10 ds ≠ val := by omega
    simp [hds, hmax, hdiff]

theorem readable_utoa (val : Nat) : Readable val 0 0 := .inl (Int.natCast_nonneg _)

/-- The conversions are exact for every text. The text of a number is read back, and a padded text if and only if no padding
is put in or the padding is zeros or white space. -/
theorem text_conversion {base : Nat} (hbase : Supported base) (maxLong : Nat) (str : List UInt8) (val : Nat)
    (minDig pad : Int) :
    Converted (2 * maxLong + 1) base (digits base str) (strtoul3 maxLong str base) ∧
      Converted maxUint base (digits base str) (strtoul4 str base) ∧
      SignedConverted maxLong (signedDigits str) (signedNumeral str) (strtol2 maxLong str) ∧
      (val ≤ 2 * maxLong + 1 →
        strtoul3 maxLong (written (utoa val)) 10 = (.success, some val) ∧
          (strtoul3 maxLong (written (utoaPad val minDig pad)) 10 = (.success, some val) ↔ Readable val minDig pad)) ∧
      (val ≤ maxUint →
        strtoul4 (written (utoa val)) 10 = (.success, some val) ∧
          (strtoul4 (written (utoaPad val minDig pad)) 10 = (.success, some val) ↔ Readable val minDig pad)) := by
  refine ⟨strtoulMax_converted _ hbase str, strtoulMax_converted _ hbase str, strtol2_converted maxLong str, ?_, ?_⟩
  · intro hval
    exact ⟨(strtoulMax_written hval 0 0).mpr (readable_utoa val), strtoulMax_written hval minDig pad⟩
  · intro hval
    exact ⟨(strtoulMax_written hval 0 0).mpr (readable_utoa val), strtoulMax_written hval minDig pad⟩

/-- Minus 12 behind white space, and 7 with two zeros in front. -/
theorem text_conversion_twelve :
    strtol2 0x7fffffff (ascii " -12x") = (.success, some (-12)) ∧
      strtoul4 (written (utoaPad 7 3 48)) 10 = (.success, some 7) := by
  obtain ⟨-, -, hsigned, -, htext⟩ :=
    @text_conversion 10 (.inl ⟨by decide, le_rfl⟩) 0x7fffffff (ascii " -12x") 7 3 48
  have hvalue : signedNumeral (ascii " -12x") = -12 := by decide
  have hdigits : signedDigits (ascii " -12x") ≠ [] := by decide
  have hstatus := hsigned.success_iff.mpr ⟨hdigits, by rw [hvalue]; decide, by rw [hvalue]; decide⟩
  have hresult := hsigned.value
  rw [if_neg hdigits, hvalue] at hresult
  exact ⟨Prod.ext hstatus (hresult.trans (by decide)), (htext (by decide)).2.mpr (.inr (.inl (by decide)))⟩

/-- Padded with the digit 1, the number 7 is read as 17. -/
theorem text_conversion_seventeen : strtoul3 0x7fffffff (written (utoaPad 7 2 49)) 10 = (.success, some 17) := by
  rw [written_utoaPad]
  decide

end PjProject.Numbers
