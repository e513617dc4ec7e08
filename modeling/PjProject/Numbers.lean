import PjProject.Scanner
import PjProject.Sdp
import Mathlib.Data.Nat.Digits.Defs

/-! Numbers as text (`string.c`). The functions for `unsigned long` and for `pj_uint_t` differ in the largest value of
the type only. `maxLong` is `PJ_MAXLONG`, so that `PJ_MAXULONG` is twice as much and one more. -/

namespace PjProject.Numbers

open Sdp (isspace)

inductive Status
  | success
  | einval
  | etoobig
  | etoosmall
  deriving DecidableEq, Repr

/-- `pj_strltrim`. -/
def strltrim (str : List UInt8) : List UInt8 := str.dropWhile isspace

/-- The loops go on at this byte. -/
def continues (base : Nat) (c : UInt8) : Bool :=
  if base ≤ 10 then !(c < 48 || 48 - 1 + base < c.toNat) else Scan.isxdigit c

/-- The digit `c` of the loops. -/
def digit (base : Nat) (c : UInt8) : Nat := if base ≤ 10 then c.toNat - 48 else (Scan.hexDigitToVal c).toNat

/-- The loops over the digits, with `*value`. -/
def digitLoop (max base : Nat) : List UInt8 → Nat → Status × Nat
  | [], value => (.success, value)
  | c :: more, value =>
    if continues base c = false then (.success, value)
    else if max / base < value then (.etoobig, max)
    else
      let value := value * base % (max + 1)
      if max - value < digit base c then (.etoobig, max)
      else digitLoop max base more ((value + digit base c) % (max + 1))

/-- `pj_strtoul3` and `pj_strtoul4` for a type whose largest value is `max`; `none` leaves `*value` as it was. -/
def strtoulMax (max : Nat) (str : List UInt8) (base : Nat) : Status × Option Nat :=
  let s := strltrim str
  match s with
  | [] => (.einval, none)
  | c :: _ =>
    if c < 48 ∨ base ≤ 10 ∧ 48 - 1 + base < c.toNat ∨ base = 16 ∧ Scan.isxdigit c = false then (.einval, none)
    else if base ≤ 10 ∨ base = 16 then
      let (status, value) := digitLoop max base s 0
      (status, some value)
    else (.einval, some 0)

/-- `pj_strtoul3`. -/
def strtoul3 (maxLong : Nat) (str : List UInt8) (base : Nat) : Status × Option Nat :=
  strtoulMax (2 * maxLong + 1) str base

/-- `PJ_MAXUINT`. -/
def maxUint : Nat := 0xffffffffffffffff

/-- `pj_strtoul4`. -/
def strtoul4 (str : List UInt8) (base : Nat) : Status × Option Nat := strtoulMax maxUint str base

/-- `PJ_MINLONG`. -/
def minLong (maxLong : Nat) : Int := -(maxLong + 1)

/-- `pj_strtol2`. -/
def strtol2 (maxLong : Nat) (str : List UInt8) : Status × Option Int :=
  match strltrim str with
  | [] => (.einval, none)
  | c :: more =>
    let isNegative := c = 45
    let (rc, value) := strtoul3 maxLong (if c = 43 ∨ c = 45 then more else c :: more) 10
    let retval := value.getD 0
    if rc = .einval then (rc, none)
    else if rc ≠ .success then
      if isNegative then (.etoosmall, some (minLong maxLong)) else (.etoobig, some maxLong)
    else if maxLong < retval ∧ ¬isNegative then (.etoobig, some maxLong)
    else if maxLong + 1 < retval ∧ isNegative then (.etoosmall, some (minLong maxLong))
    else if isNegative ∧ retval = maxLong + 1 then (.success, some (minLong maxLong))
    else (.success, some (if isNegative then -(retval : Int) else retval))

/-- The digits that `pj_utoa_pad` puts down, the last one first. -/
def putDigits (val : Nat) : List UInt8 :=
  .ofNat (val % 10 + 48) :: if 0 < val / 10 then putDigits (val / 10) else []
termination_by val

/-- The loop that turns the digits around: it exchanges two bytes of the buffer and goes on until `buf` meets `p`. -/
def exchange (bytes : List UInt8) (buf p : Nat) : List UInt8 :=
  let temp := bytes.getD p 0
  let bytes := (bytes.set p (bytes.getD buf 0)).set buf temp
  if buf + 1 < p - 1 then exchange bytes (buf + 1) (p - 1) else bytes
termination_by p - buf

/-- `pj_utoa_pad` and `pj_utoa_pad2`: the bytes of the buffer, and the number of characters in front of the zero. -/
def utoaPad (val : Nat) (minDig pad : Int) : List UInt8 × Nat :=
  let digits := putDigits val
  let padded := digits ++ List.replicate (minDig.toNat - digits.length) (.ofInt pad)
  (exchange (padded ++ [0]) 0 (padded.length - 1), padded.length)

/-- `pj_utoa` and `pj_utoa2`. -/
def utoa (val : Nat) : List UInt8 × Nat := utoaPad val 0 0

def written (output : List UInt8 × Nat) : List UInt8 := output.1.take output.2

/-! What a text stands for. -/

def digitValue (c : UInt8) : Option Nat :=
  if 48 ≤ c ∧ c ≤ 57 then some (c.toNat - 48)
  else if 65 ≤ c ∧ c ≤ 70 then some (c.toNat - 55)
  else if 97 ≤ c ∧ c ≤ 102 then some (c.toNat - 87)
  else none

def leadingDigits (base : Nat) : List UInt8 → List Nat
  | [] => []
  | c :: more =>
    match digitValue c with
    | some d => if d < base then d :: leadingDigits base more else []
    | none => []

/-- The longest prefix of digits behind white space. -/
def digits (base : Nat) (str : List UInt8) : List Nat := leadingDigits base (str.dropWhile isspace)

/-- The number that the digits stand for, the first one the highest. -/
def numeral (base : Nat) (ds : List Nat) : Nat := Nat.ofDigits base ds.reverse

/-- The text behind white space has a minus sign. -/
def negative (str : List UInt8) : Bool := (str.dropWhile isspace).head? == some 45

def signedDigits (str : List UInt8) : List Nat :=
  match str.dropWhile isspace with
  | [] => []
  | c :: more => digits 10 (if c = 43 ∨ c = 45 then more else c :: more)

def signedNumeral (str : List UInt8) : Int :=
  if negative str then -(numeral 10 (signedDigits str) : Int) else numeral 10 (signedDigits str)

end PjProject.Numbers
