import PjProject.Numbers
import Mathlib.Data.Nat.Digits.Lemmas

/-! What the functions of `string.c` make of a text. The comparisons in the loop over the digits are exact: the loop stops
as soon as what it has read is above the largest value, and never before. -/

namespace PjProject.Numbers

open Sdp (isspace)

def Supported (base : Nat) : Prop := 2 ≤ base ∧ base ≤ 10 ∨ base = 16

theorem Supported.two_le {base : Nat} (h : Supported base) : 2 ≤ base := by
  unfold Supported at h
  omega

/-! The digits. -/

theorem hexDigit_eq (c : UInt8) :
    digitValue c = if Scan.isxdigit c then some (Scan.hexDigitToVal c).toNat else none :=
  forall_uint8 (p := fun c => digitValue c = if Scan.isxdigit c then some (Scan.hexDigitToVal c).toNat else none)
    (by decide +kernel) c

theorem hexDigit_lt (c : UInt8) : Scan.isxdigit c = true → (Scan.hexDigitToVal c).toNat < 16 :=
  forall_uint8 (p := fun c => Scan.isxdigit c = true → (Scan.hexDigitToVal c).toNat < 16) (by decide +kernel) c

theorem le_of_isxdigit (c : UInt8) : Scan.isxdigit c = true → ¬c < 48 :=
  forall_uint8 (p := fun c => Scan.isxdigit c = true → ¬c < 48) (by decide +kernel) c

theorem continues_eq {base : Nat} (hbase : Supported base) (c : UInt8) :
    continues base c = (digitValue c).any (· < base) := by
  unfold continues
  rcases hbase with ⟨hlow, hhigh⟩ | rfl
  · rw [if_pos hhigh]
    unfold digitValue
    simp only [UInt8.le_iff_toNat_le, UInt8.lt_iff_toNat_lt]
    have h48 : (48 : UInt8).toNat = 48 := rfl
    have h57 : (57 : UInt8).toNat = 57 := rfl
    have h65 : (65 : UInt8).toNat = 65 := rfl
    have h97 : (97 : UInt8).toNat = 97 := rfl
    rw [Bool.eq_iff_iff]
    split_ifs <;> simp <;> omega
  · rw [if_neg (by decide), hexDigit_eq]
    by_cases hdigit : Scan.isxdigit c = true
    · rw [if_pos hdigit, hdigit, Option.any_some, decide_eq_true (hexDigit_lt c hdigit)]
    · rw [if_neg hdigit, Option.any_none]
      exact Bool.eq_false_iff.mpr hdigit

theorem digit_eq {base d : Nat} {c : UInt8} (hbase : Supported base) (hc : digitValue c = some d) (hd : d < base) :
    digit base c = d := by
  unfold digit
  rcases hbase with ⟨hlow, hhigh⟩ | rfl
  · rw [if_pos hhigh]
    unfold digitValue at hc
    split_ifs at hc with hdec hupper hlower
    · exact Option.some.inj hc
    · have hle := UInt8.le_iff_toNat_le.mp hupper.1
      have h65 : (65 : UInt8).toNat = 65 := rfl
      have := Option.some.inj hc
      omega
    · have hle := UInt8.le_iff_toNat_le.mp hlower.1
      have h97 : (97 : UInt8).toNat = 97 := rfl
      have := Option.some.inj hc
      omega
  · rw [hexDigit_eq] at hc
    rw [if_neg (by decide)]
    split_ifs at hc
    exact Option.some.inj hc

/-! The number, digit by digit. -/

theorem numeral_eq (base : Nat) (ds : List Nat) : numeral base ds = ds.foldl (fun value d => d + base * value) 0 := by
  rw [numeral, Nat.ofDigits_eq_foldr, List.foldr_reverse]
  rfl

/-- More digits do not make the number smaller. -/
theorem le_foldl {base : Nat} (hbase : 0 < base) (ds : List Nat) (value : Nat) :
    value ≤ ds.foldl (fun value d => d + base * value) value := by
  induction ds generalizing value with
  | nil => exact le_rfl
  | cons d ds ih =>
    have hstep : value ≤ d + base * value := (Nat.le_mul_of_pos_left value hbase).trans (Nat.le_add_left _ _)
    exact hstep.trans (ih (d + base * value))

/-- The guards are exact: the loop gives the number of the digits when the type holds it, and else the largest value. -/
theorem digitLoop_eq {max base : Nat} (hbase : Supported base) (s : List UInt8) {value : Nat} (hvalue : value ≤ max) :
    digitLoop max base s value =
      if (leadingDigits base s).foldl (fun value d => d + base * value) value ≤ max then
        (.success, (leadingDigits base s).foldl (fun value d => d + base * value) value)
      else (.etoobig, max) := by
  have hpos : 0 < base := (Nat.zero_lt_two).trans_le hbase.two_le
  induction s generalizing value with
  | nil => exact (if_pos hvalue).symm
  | cons c more ih =>
    rw [digitLoop, leadingDigits, continues_eq hbase]
    cases hc : digitValue c with
    | none => exact (if_pos hvalue).symm
    | some d =>
      by_cases hd : d < base
      case neg =>
        simp only [hd, Option.any_some, decide_false, if_true, if_false]
        exact (if_pos hvalue).symm
      simp only [hd, Option.any_some, decide_true, if_true, digit_eq hbase hc hd, List.foldl_cons]
      rw [if_neg (by decide)]
      have htotal := le_foldl hpos (leadingDigits base more) (d + base * value)
      by_cases hmul : max / base < value
      · rw [Nat.div_lt_iff_lt_mul hpos, Nat.mul_comm] at hmul
        rw [if_pos ((Nat.div_lt_iff_lt_mul hpos).mpr (Nat.mul_comm base value ▸ hmul)), if_neg (by omega)]
      rw [if_neg hmul]
      rw [Nat.div_lt_iff_lt_mul hpos, not_lt, Nat.mul_comm] at hmul
      rw [Nat.mul_comm value base, Nat.mod_eq_of_lt (by omega : base * value < max + 1)]
      by_cases hadd : max - base * value < d
      · rw [if_pos hadd, if_neg (by omega)]
      · rw [if_neg hadd, Nat.mod_eq_of_lt (by omega : base * value + d < max + 1), Nat.add_comm _ d]
        exact ih (by omega)

/-! The whole text. -/

theorem first_iff {base : Nat} (hbase : Supported base) (c : UInt8) (more : List UInt8) :
    (c < 48 ∨ base ≤ 10 ∧ 48 - 1 + base < c.toNat ∨ base = 16 ∧ Scan.isxdigit c = false) ↔
      leadingDigits base (c :: more) = [] := by
  have hdigit : leadingDigits base (c :: more) = [] ↔ continues base c = false := by
    rw [leadingDigits, continues_eq hbase]
    cases digitValue c with
    | none => simp
    | some d => by_cases hd : d < base <;> simp [hd]
  rw [hdigit]
  unfold continues
  rcases hbase with ⟨hlow, hhigh⟩ | rfl
  · rw [if_pos hhigh]
    simp only [Bool.not_eq_false', Bool.or_eq_true, decide_eq_true_eq, hhigh, true_and,
      show base ≠ 16 by omega, false_and, or_false]
  · rw [if_neg (by decide)]
    constructor
    · rintro (hlt | ⟨hle, -⟩ | ⟨-, hnot⟩)
      · exact Bool.eq_false_iff.mpr fun hdigit => le_of_isxdigit c hdigit hlt
      · exact absurd hle (by decide)
      · exact hnot
    · intro hnot
      exact .inr (.inr ⟨rfl, hnot⟩)

theorem strtoulMax_eq (max : Nat) {base : Nat} (hbase : Supported base) (str : List UInt8) :
    strtoulMax max str base =
      if digits base str = [] then (.einval, none)
      else if numeral base (digits base str) ≤ max then (.success, some (numeral base (digits base str)))
      else (.etoobig, some max) := by
  rw [numeral_eq]
  unfold strtoulMax digits strltrim
  cases hs : str.dropWhile isspace with
  | nil => rfl
  | cons c more =>
    by_cases hfirst : leadingDigits base (c :: more) = []
    · simp only [(first_iff hbase c more).mpr hfirst, if_true, hfirst]
    · have hcheck := mt (first_iff hbase c more).mp hfirst
      have hbases : base ≤ 10 ∨ base = 16 := by
        unfold Supported at hbase
        omega
      simp only [hcheck, hfirst, hbases, if_true, if_false]
      rw [digitLoop_eq hbase (c :: more) (Nat.zero_le max)]
      split <;> rfl

/-- What an unsigned conversion gives for the digits that it finds. -/
structure Converted (max : Nat) (base : Nat) (ds : List Nat) (result : Status × Option Nat) : Prop where
  einval_iff : result.1 = .einval ↔ ds = []
  success_iff : result.1 = .success ↔ ds ≠ [] ∧ numeral base ds ≤ max
  etoobig_iff : result.1 = .etoobig ↔ ds ≠ [] ∧ max < numeral base ds
  value : result.2 = if ds = [] then none else some (min (numeral base ds) max)

theorem strtoulMax_converted (max : Nat) {base : Nat} (hbase : Supported base) (str : List UInt8) :
    Converted max base (digits base str) (strtoulMax max str base) := by
  rw [strtoulMax_eq max hbase]
  by_cases hds : digits base str = []
  · rw [if_pos hds]
    constructor <;> simp [hds]
  rw [if_neg hds]
  by_cases hmax : numeral base (digits base str) ≤ max
  · rw [if_pos hmax]
    constructor <;> simp [hds, hmax]
  · rw [if_neg hmax]
    rw [not_le] at hmax
    constructor <;> simp [hds, hmax, hmax.le]

structure SignedConverted (maxLong : Nat) (ds : List Nat) (value : Int) (result : Status × Option Int) : Prop where
  einval_iff : result.1 = .einval ↔ ds = []
  success_iff : result.1 = .success ↔ ds ≠ [] ∧ minLong maxLong ≤ value ∧ value ≤ maxLong
  etoobig_iff : result.1 = .etoobig ↔ ds ≠ [] ∧ maxLong < value
  etoosmall_iff : result.1 = .etoosmall ↔ ds ≠ [] ∧ value < minLong maxLong
  value : result.2 = if ds = [] then none else some (max (minLong maxLong) (min value maxLong))

theorem strtol2_eq (maxLong : Nat) (str : List UInt8) :
    strtol2 maxLong str =
      if signedDigits str = [] then (.einval, none)
      else if signedNumeral str < minLong maxLong then (.etoosmall, some (minLong maxLong))
      else if maxLong < signedNumeral str then (.etoobig, some maxLong)
      else (.success, some (signedNumeral str)) := by
  unfold signedNumeral strtol2 signedDigits negative strltrim
  cases hs : str.dropWhile isspace with
  | nil => rfl
  | cons c more =>
    have hbase : Supported 10 := .inl ⟨by decide, le_rfl⟩
    simp only [strtoul3, strtoulMax_eq _ hbase, List.head?_cons, Option.some_beq_some, beq_iff_eq]
    generalize digits 10 (if c = 43 ∨ c = 45 then more else c :: more) = ds
    generalize numeral 10 ds = n
    have hmin : minLong maxLong = -(maxLong + 1) := rfl
    by_cases hds : ds = []
    · simp only [hds, if_true]
    by_cases hmax : n ≤ 2 * maxLong + 1
    · simp only [hds, hmax, if_true, if_false, Option.getD_some, reduceCtorEq, ne_eq, not_true_eq_false]
      by_cases hneg : c = 45
      · simp only [hneg, if_true, not_true_eq_false, and_false, if_false, and_true, true_and]
        by_cases hlow : maxLong + 1 < n
        · rw [if_pos hlow, if_pos (by omega)]
        have hinside : ¬-(n : Int) < minLong maxLong ∧ ¬(maxLong : Int) < -n := by omega
        rw [if_neg hlow, if_neg hinside.1, if_neg hinside.2]
        by_cases hlast : n = maxLong + 1
        · rw [if_pos hlast, hlast, hmin]
          rfl
        · rw [if_neg hlast]
      · simp only [hneg, if_false, not_false_eq_true, and_true, and_false, false_and]
        rw [if_neg (by omega : ¬(n : Int) < minLong maxLong)]
        by_cases hhigh : maxLong < n
        · rw [if_pos hhigh, if_pos (by omega)]
        · rw [if_neg hhigh, if_neg (by omega)]
    · simp only [hds, hmax, if_false, reduceCtorEq, ne_eq, not_false_eq_true, if_true]
      by_cases hneg : c = 45
      · rw [if_pos hneg, if_pos hneg, if_pos (by omega)]
      · rw [if_neg hneg, if_neg hneg, if_neg (by omega), if_pos (by omega)]

theorem strtol2_converted (maxLong : Nat) (str : List UInt8) :
    SignedConverted maxLong (signedDigits str) (signedNumeral str) (strtol2 maxLong str) := by
  rw [strtol2_eq]
  have hmin : minLong maxLong = -(maxLong + 1) := rfl
  by_cases hds : signedDigits str = []
  · rw [if_pos hds]
    constructor <;> simp [hds]
  rw [if_neg hds]
  generalize signedNumeral str = value
  by_cases hlow : value < minLong maxLong
  · rw [if_pos hlow]
    constructor <;> simp [hds, hlow] <;> omega
  rw [if_neg hlow]
  by_cases hhigh : (maxLong : Int) < value
  · rw [if_pos hhigh]
    constructor <;> simp [hds, hhigh] <;> omega
  · rw [if_neg hhigh]
    constructor <;> simp [hds] <;> omega

end PjProject.Numbers
