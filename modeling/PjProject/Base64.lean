import PjProject.Bytes
import Mathlib.Data.List.DropRight
import Mathlib.Tactic.IntervalCases

/-! Base64 (`base64.c`): the encoder and the decoder for the standard and the URL alphabet, with the
length macros that both check against, computed in `int` as the compiler does. -/

namespace PjProject.Base64

/-- The value of an `int` expression: two's complement in 32 bits. -/
def int32 (v : Int) : Int := v.bmod (2 ^ 32)

/-- `PJ_BASE256_TO_BASE64_LEN`. -/
def base256ToBase64Len (len : Int) : Int := int32 ((int32 (len * 4)).tdiv 3 + 3)

/-- `PJ_BASE64_TO_BASE256_LEN`. -/
def base64ToBase256Len (len : Int) : Int := (int32 (len * 3)).tdiv 4

/-- `INV`. Only the low eight bits of -1 reach the output. -/
def inv : UInt8 := 0xFF

def padding : UInt8 := 61

def base64Char : List UInt8 := ascii "ABCDEFGHIJKLMNOPQRSTUVWXYZabcdefghijklmnopqrstuvwxyz0123456789+/"

def base64urlChar : List UInt8 := ascii "ABCDEFGHIJKLMNOPQRSTUVWXYZabcdefghijklmnopqrstuvwxyz0123456789-_"

/-- `b64` of `base256to64`. -/
def alphabet (url : Bool) : List UInt8 := if url then base64urlChar else base64Char

def base256Char (url : Bool) (c : UInt8) : UInt8 :=
  if 65 ≤ c ∧ c ≤ 90 then c - 65
  else if 97 ≤ c ∧ c ≤ 122 then c - 97 + 26
  else if 48 ≤ c ∧ c ≤ 57 then c - 48 + 52
  else if (url = false ∧ c = 43) ∨ (url = true ∧ c = 45) then 62
  else if (url = false ∧ c = 47) ∨ (url = true ∧ c = 95) then 63
  else inv

/-- `base256to64`: the four characters written. -/
def base256to64 (url : Bool) (c1 c2 c3 : UInt8) (pad : Nat) : List UInt8 :=
  let b64 (i : UInt8) : UInt8 := byteAt (alphabet url) i.toNat
  [b64 (c1 >>> 2), b64 (((c1 &&& 0x3) <<< 4) ||| ((c2 &&& 0xF0) >>> 4))] ++
    match pad with
    | 0 => [b64 (((c2 &&& 0xF) <<< 2) ||| ((c3 &&& 0xC0) >>> 6)), b64 (c3 &&& 0x3F)]
    | 1 => [b64 (((c2 &&& 0xF) <<< 2) ||| ((c3 &&& 0xC0) >>> 6)), padding]
    | _ => [padding, padding]

/-- The loop of `b64_encode`. -/
def encodeGroups (url : Bool) : List UInt8 → List UInt8
  | [] => []
  | [c1] => base256to64 url c1 0 0 2
  | [c1, c2] => base256to64 url c1 c2 0 1
  | c1 :: c2 :: c3 :: rest => base256to64 url c1 c2 c3 0 ++ encodeGroups url rest

/-- `b64_encode` into a buffer of `outLen` bytes: what it writes, or `none` for `PJ_ETOOSMALL`. -/
def b64Encode (url : Bool) (input : List UInt8) (outLen : Int) : Option (List UInt8) :=
  if base256ToBase64Len input.length ≤ outLen then some (encodeGroups url input) else none

/-- `while (len && buf[len-1] == '=') --len`. -/
def stripPadding (text : List UInt8) : List UInt8 := text.rdropWhile (· == padding)

/-- The `do` loop for one `c[k]`: invalid characters are passed over, but for one at the end. -/
def takeChar (url : Bool) : List UInt8 → UInt8 × List UInt8
  | [] => (inv, [])
  | b :: rest =>
    if base256Char url b = inv ∧ rest ≠ [] then takeChar url rest else (base256Char url b, rest)

/-- The `for` loop over `k`, with `n` of its turns left. -/
def fill (url : Bool) : Nat → List UInt8 → List UInt8 × List UInt8
  | 0, rest => ([], rest)
  | n + 1, rest =>
    if rest = [] then ([], rest)
    else
      let (c, rest) := takeChar url rest
      let (cs, rest) := fill url n rest
      (c :: cs, rest)

/-- What the decoder writes for the characters of one round. -/
def decodeGroup : List UInt8 → List UInt8
  | [c0, c1] => [(c0 <<< 2) ||| ((c1 &&& 0x30) >>> 4)]
  | [c0, c1, c2] => [(c0 <<< 2) ||| ((c1 &&& 0x30) >>> 4), ((c1 &&& 0x0F) <<< 4) ||| ((c2 &&& 0x3C) >>> 2)]
  | [c0, c1, c2, c3] =>
    [(c0 <<< 2) ||| ((c1 &&& 0x30) >>> 4), ((c1 &&& 0x0F) <<< 4) ||| ((c2 &&& 0x3C) >>> 2),
      ((c2 &&& 0x03) <<< 6) ||| (c3 &&& 0x3F)]
  | _ => []

/-- The outer loop of `b64_decode`, in at most `bound` rounds. -/
def decodeGroups (url : Bool) : Nat → List UInt8 → List UInt8
  | 0, _ => []
  | bound + 1, rest =>
    if rest = [] then []
    else
      let (c, rest) := fill url 4 rest
      if c.length < 4 then decodeGroup c else decodeGroup c ++ decodeGroups url bound rest

/-- `b64_decode` into a buffer of `outLen` bytes. Each round takes a character, so `len` rounds are
enough. -/
def b64Decode (url : Bool) (text : List UInt8) (outLen : Int) : Option (List UInt8) :=
  let buf := stripPadding text
  if base64ToBase256Len buf.length ≤ outLen then some (decodeGroups url buf.length buf) else none

theorem base64Char_eq : base64Char =
    [65, 66, 67, 68, 69, 70, 71, 72, 73, 74, 75, 76, 77, 78, 79, 80, 81, 82, 83, 84, 85, 86, 87, 88, 89, 90, 97,
     98, 99, 100, 101, 102, 103, 104, 105, 106, 107, 108, 109, 110, 111, 112, 113, 114, 115, 116, 117, 118, 119,
     120, 121, 122, 48, 49, 50, 51, 52, 53, 54, 55, 56, 57, 43, 47] :=
  (ascii_ofList _).trans rfl

theorem base64urlChar_eq : base64urlChar =
    [65, 66, 67, 68, 69, 70, 71, 72, 73, 74, 75, 76, 77, 78, 79, 80, 81, 82, 83, 84, 85, 86, 87, 88, 89, 90, 97,
     98, 99, 100, 101, 102, 103, 104, 105, 106, 107, 108, 109, 110, 111, 112, 113, 114, 115, 116, 117, 118, 119,
     120, 121, 122, 48, 49, 50, 51, 52, 53, 54, 55, 56, 57, 45, 95] :=
  (ascii_ofList _).trans rfl

theorem base256Char_byteAt (url : Bool) : ∀ i : Fin 64, base256Char url (byteAt (alphabet url) i) = .ofNat i := by
  unfold alphabet
  rw [base64Char_eq, base64urlChar_eq]
  revert url
  decide +kernel

theorem byteAt_ne_padding (url : Bool) : ∀ i : Fin 64, byteAt (alphabet url) i ≠ padding := by
  unfold alphabet
  rw [base64Char_eq, base64urlChar_eq]
  revert url
  decide +kernel

/-- `b64[i]` for an index below 64. -/
structure Digit (url : Bool) (i b : UInt8) : Prop where
  value : base256Char url b = i
  valid : base256Char url b ≠ inv
  ne_padding : b ≠ padding

theorem digit_byteAt (url : Bool) {i : UInt8} (h : i.toNat < 64) : Digit url i (byteAt (alphabet url) i.toNat) := by
  have hvalue : base256Char url (byteAt (alphabet url) i.toNat) = i := by
    rw [base256Char_byteAt url ⟨i.toNat, h⟩, UInt8.ofNat_toNat]
  refine ⟨hvalue, ?_, byteAt_ne_padding url ⟨i.toNat, h⟩⟩
  rw [hvalue]
  rintro rfl
  exact absurd h (by decide)

theorem takeChar_of_digit {url : Bool} {i b : UInt8} (h : Digit url i b) (rest : List UInt8) :
    takeChar url (b :: rest) = (i, rest) := by
  rw [takeChar, if_neg fun hskip => h.valid hskip.1, h.value]

theorem fill_of_digit {url : Bool} {i b : UInt8} (h : Digit url i b) (n : Nat) (rest : List UInt8) :
    fill url (n + 1) (b :: rest) = (i :: (fill url n rest).1, (fill url n rest).2) := by
  rw [fill, if_neg (List.cons_ne_nil b rest), takeChar_of_digit h]

theorem fill_nil (url : Bool) (n : Nat) : fill url n [] = ([], []) := by
  cases n with
  | zero => rfl
  | succ n => rw [fill, if_pos rfl]

theorem toNat_lt_of_and_eq {x : UInt8} (h : x &&& 0x3F = x) : x.toNat < 64 := by
  rw [← h, UInt8.toNat_and]
  exact Nat.lt_succ_of_le Nat.and_le_right

/-! The six-bit pieces of the bytes `a`, `b` and `c`. -/

section SixBits

variable (a b c : UInt8)

theorem piece0_lt : (a >>> 2).toNat < 64 := by
  apply toNat_lt_of_and_eq
  apply UInt8.eq_of_toBitVec_eq
  ext i hi
  simp only [UInt8.toBitVec_and, UInt8.toBitVec_shiftRight]
  interval_cases i <;> simp

theorem piece1_lt : (((a &&& 0x3) <<< 4) ||| ((b &&& 0xF0) >>> 4)).toNat < 64 := by
  apply toNat_lt_of_and_eq
  apply UInt8.eq_of_toBitVec_eq
  ext i hi
  interval_cases i <;> simp

theorem piece2_lt : (((b &&& 0xF) <<< 2) ||| ((c &&& 0xC0) >>> 6)).toNat < 64 := by
  apply toNat_lt_of_and_eq
  apply UInt8.eq_of_toBitVec_eq
  ext i hi
  interval_cases i <;> simp

theorem piece3_lt : (c &&& 0x3F).toNat < 64 := by
  apply toNat_lt_of_and_eq
  rw [UInt8.and_assoc, UInt8.and_self]

/-- The decoder puts the bytes together again. -/
theorem join0 : ((a >>> 2) <<< 2) ||| (((((a &&& 0x3) <<< 4) ||| ((b &&& 0xF0) >>> 4)) &&& 0x30) >>> 4) = a := by
  apply UInt8.eq_of_toBitVec_eq
  ext i hi
  interval_cases i <;> simp

theorem join1 : (((((a &&& 0x3) <<< 4) ||| ((b &&& 0xF0) >>> 4)) &&& 0x0F) <<< 4) |||
    (((((b &&& 0xF) <<< 2) ||| ((c &&& 0xC0) >>> 6)) &&& 0x3C) >>> 2) = b := by
  apply UInt8.eq_of_toBitVec_eq
  ext i hi
  interval_cases i <;> simp

theorem join2 : (((((b &&& 0xF) <<< 2) ||| ((c &&& 0xC0) >>> 6)) &&& 0x03) <<< 6) |||
    ((c &&& 0x3F) &&& 0x3F) = c := by
  apply UInt8.eq_of_toBitVec_eq
  ext i hi
  interval_cases i <;> simp

variable (url : Bool)

theorem padding_notMem_group : padding ∉ base256to64 url a b c 0 := by
  intro hmem
  have h0 := (digit_byteAt url (piece0_lt a)).ne_padding
  have h1 := (digit_byteAt url (piece1_lt a b)).ne_padding
  have h2 := (digit_byteAt url (piece2_lt b c)).ne_padding
  have h3 := (digit_byteAt url (piece3_lt c)).ne_padding
  simp only [base256to64, List.cons_append, List.nil_append, List.mem_cons, List.not_mem_nil, or_false] at hmem
  rcases hmem with h | h | h | h
  · exact h0 h.symm
  · exact h1 h.symm
  · exact h2 h.symm
  · exact h3 h.symm

theorem decodeGroups_group (bound : Nat) (rest : List UInt8) :
    decodeGroups url (bound + 1) (base256to64 url a b c 0 ++ rest) = [a, b, c] ++ decodeGroups url bound rest := by
  have hfill : fill url 4 (base256to64 url a b c 0 ++ rest) =
      ([a >>> 2, ((a &&& 0x3) <<< 4) ||| ((b &&& 0xF0) >>> 4), ((b &&& 0xF) <<< 2) ||| ((c &&& 0xC0) >>> 6),
        c &&& 0x3F], rest) := by
    simp only [base256to64, List.cons_append, List.nil_append]
    rw [fill_of_digit (digit_byteAt url (piece0_lt a)), fill_of_digit (digit_byteAt url (piece1_lt a b)),
      fill_of_digit (digit_byteAt url (piece2_lt b c)), fill_of_digit (digit_byteAt url (piece3_lt c))]
    rfl
  rw [decodeGroups, if_neg (by simp [base256to64]), hfill]
  show decodeGroup [_, _, _, _] ++ _ = _
  rw [decodeGroup, join0, join1, join2]

theorem decodeGroups_pair (bound : Nat) : decodeGroups url (bound + 1) ((base256to64 url a 0 0 2).take 2) = [a] := by
  have hfill : fill url 4 ((base256to64 url a 0 0 2).take 2) =
      ([a >>> 2, ((a &&& 0x3) <<< 4) ||| (((0 : UInt8) &&& 0xF0) >>> 4)], []) := by
    simp only [base256to64, List.cons_append, List.nil_append, List.take_succ_cons, List.take_zero]
    rw [fill_of_digit (digit_byteAt url (piece0_lt a)), fill_of_digit (digit_byteAt url (piece1_lt a 0)), fill_nil]
  rw [decodeGroups, if_neg (by simp [base256to64]), hfill]
  show decodeGroup [_, _] = _
  rw [decodeGroup, join0]

theorem decodeGroups_triple (bound : Nat) :
    decodeGroups url (bound + 1) ((base256to64 url a b 0 1).take 3) = [a, b] := by
  have hfill : fill url 4 ((base256to64 url a b 0 1).take 3) =
      ([a >>> 2, ((a &&& 0x3) <<< 4) ||| ((b &&& 0xF0) >>> 4), ((b &&& 0xF) <<< 2) ||| (((0 : UInt8) &&& 0xC0) >>> 6)],
        []) := by
    simp only [base256to64, List.cons_append, List.nil_append, List.take_succ_cons, List.take_zero]
    rw [fill_of_digit (digit_byteAt url (piece0_lt a)), fill_of_digit (digit_byteAt url (piece1_lt a b)),
      fill_of_digit (digit_byteAt url (piece2_lt b 0)), fill_nil]
  rw [decodeGroups, if_neg (by simp [base256to64]), hfill]
  show decodeGroup [_, _, _] = _
  rw [decodeGroup, join0, join1]

end SixBits

theorem stripPadding_append {front : List UInt8} (h : padding ∉ front) (rest : List UInt8) :
    stripPadding (front ++ rest) = front ++ stripPadding rest := by
  induction rest using List.reverseRecOn with
  | nil =>
    rw [List.append_nil, stripPadding, List.rdropWhile_eq_self_iff.mpr, stripPadding, List.rdropWhile_nil,
      List.append_nil]
    intro hne heq
    exact h (beq_iff_eq.mp heq ▸ List.getLast_mem hne)
  | append_singleton rest b ih =>
    rw [← List.append_assoc]
    by_cases hb : b == padding
    · rw [stripPadding, List.rdropWhile_concat_pos (· == padding) _ b hb, stripPadding,
        List.rdropWhile_concat_pos (· == padding) _ b hb]
      exact ih
    · rw [stripPadding, List.rdropWhile_concat_neg (· == padding) _ b hb, stripPadding,
        List.rdropWhile_concat_neg (· == padding) _ b hb, List.append_assoc]

theorem stripPadding_pair (url : Bool) (a : UInt8) :
    stripPadding (base256to64 url a 0 0 2) = (base256to64 url a 0 0 2).take 2 := by
  have hfront : padding ∉ (base256to64 url a 0 0 2).take 2 := fun hmem =>
    padding_notMem_group a 0 0 url (List.mem_append_left _ hmem)
  have hpad : stripPadding [padding, padding] = [] := by decide
  calc stripPadding (base256to64 url a 0 0 2)
      = stripPadding ((base256to64 url a 0 0 2).take 2 ++ [padding, padding]) := rfl
    _ = (base256to64 url a 0 0 2).take 2 := by rw [stripPadding_append hfront, hpad, List.append_nil]

theorem stripPadding_triple (url : Bool) (a b : UInt8) :
    stripPadding (base256to64 url a b 0 1) = (base256to64 url a b 0 1).take 3 := by
  have hfront : padding ∉ (base256to64 url a b 0 1).take 3 := fun hmem =>
    padding_notMem_group a b 0 url (List.mem_of_mem_take (i := 3) hmem)
  have hpad : stripPadding [padding] = [] := by decide
  calc stripPadding (base256to64 url a b 0 1)
      = stripPadding ((base256to64 url a b 0 1).take 3 ++ [padding]) := rfl
    _ = (base256to64 url a b 0 1).take 3 := by rw [stripPadding_append hfront, hpad, List.append_nil]

theorem decodeGroups_encodeGroups (url : Bool) (input : List UInt8) {bound : Nat}
    (hbound : (stripPadding (encodeGroups url input)).length ≤ bound) :
    decodeGroups url bound (stripPadding (encodeGroups url input)) = input := by
  fun_induction encodeGroups url input generalizing bound with
  | case1 => cases bound <;> rfl
  | case2 c1 =>
    rw [stripPadding_pair] at hbound ⊢
    have hlen : ((base256to64 url c1 0 0 2).take 2).length = 2 := rfl
    obtain ⟨bound, rfl⟩ : ∃ n, bound = n + 1 := ⟨bound - 1, by omega⟩
    exact decodeGroups_pair c1 url bound
  | case3 c1 c2 =>
    rw [stripPadding_triple] at hbound ⊢
    have hlen : ((base256to64 url c1 c2 0 1).take 3).length = 3 := rfl
    obtain ⟨bound, rfl⟩ : ∃ n, bound = n + 1 := ⟨bound - 1, by omega⟩
    exact decodeGroups_triple c1 c2 url bound
  | case4 c1 c2 c3 rest ih =>
    have hstrip := stripPadding_append (padding_notMem_group c1 c2 c3 url) (encodeGroups url rest)
    rw [hstrip] at hbound ⊢
    have hlen : (base256to64 url c1 c2 c3 0).length = 4 := rfl
    rw [List.length_append, hlen] at hbound
    obtain ⟨bound, rfl⟩ : ∃ n, bound = n + 1 := ⟨bound - 1, by omega⟩
    rw [decodeGroups_group, ih (by omega)]
    rfl

theorem length_encodeGroups (url : Bool) (input : List UInt8) :
    (encodeGroups url input).length = (input.length + 2) / 3 * 4 := by
  fun_induction encodeGroups url input with
  | case1 => rfl
  | case2 c1 => simp [base256to64]
  | case3 c1 c2 => simp [base256to64]
  | case4 c1 c2 c3 rest ih =>
    have hlen : (base256to64 url c1 c2 c3 0).length = 4 := rfl
    simp only [List.length_append, List.length_cons, hlen, ih]
    omega

theorem length_takeChar (url : Bool) {rest : List UInt8} (h : rest ≠ []) :
    (takeChar url rest).2.length < rest.length := by
  induction rest with
  | nil => exact absurd rfl h
  | cons b rest ih =>
    rw [takeChar]
    split
    · rename_i hskip
      exact Nat.lt_succ_of_lt (ih hskip.2)
    · exact Nat.lt_succ_self _

theorem length_fill (url : Bool) (n : Nat) (rest : List UInt8) :
    (fill url n rest).1.length ≤ n ∧ (fill url n rest).1.length + (fill url n rest).2.length ≤ rest.length := by
  induction n generalizing rest with
  | zero => exact ⟨Nat.le_refl 0, by rw [fill, List.length_nil, Nat.zero_add]⟩
  | succ n ih =>
    rw [fill]
    split
    · exact ⟨Nat.zero_le _, by rw [List.length_nil, Nat.zero_add]⟩
    · rename_i hne
      have hone := length_takeChar url hne
      obtain ⟨hcount, hrest⟩ := ih (takeChar url rest).2
      simp only [List.length_cons]
      exact ⟨by omega, by omega⟩

theorem length_decodeGroup {c : List UInt8} (h : c.length ≤ 4) : (decodeGroup c).length ≤ c.length * 3 / 4 := by
  rcases c with _ | ⟨c0, _ | ⟨c1, _ | ⟨c2, _ | ⟨c3, _ | ⟨c4, more⟩⟩⟩⟩⟩
  · decide
  · exact Nat.zero_le _
  · simp [decodeGroup]
  · simp [decodeGroup]
  · simp [decodeGroup]
  · simp only [List.length_cons] at h
    omega

/-- The decoder writes three bytes for four characters, on every text. -/
theorem length_decodeGroups_le (url : Bool) (bound : Nat) (rest : List UInt8) :
    (decodeGroups url bound rest).length ≤ rest.length * 3 / 4 := by
  induction bound generalizing rest with
  | zero => exact Nat.zero_le _
  | succ bound ih =>
    obtain ⟨hfour, hrest⟩ := length_fill url 4 rest
    have hgroup := length_decodeGroup hfour
    have hmore := ih (fill url 4 rest).2
    rw [decodeGroups]
    split
    · exact Nat.zero_le _
    · simp only []
      split
      · omega
      · rw [List.length_append]
        omega

/-- Encoding and then decoding: both calls succeed when the buffers are as large as the macros say, no call
writes more than its macro says, and the bytes come back. The decoder takes the macro of the length
without the padding. -/
def RoundTrips (url : Bool) (input : List UInt8) : Prop :=
  ∀ outLen, base256ToBase64Len input.length ≤ outLen →
    ∃ text, b64Encode url input outLen = some text ∧ text.length ≤ base256ToBase64Len input.length ∧
      ∀ outLen', base64ToBase256Len (stripPadding text).length ≤ outLen' →
        ∃ output, b64Decode url text outLen' = some output ∧
          output.length ≤ base64ToBase256Len (stripPadding text).length ∧ output = input

theorem int32_of_lt {v : Int} (hlow : -2 ^ 31 ≤ v) (hhigh : v < 2 ^ 31) : int32 v = v :=
  Int.bmod_eq_of_le (by omega) (by omega)

theorem base256ToBase64Len_of_lt {len : Nat} (h : len < 2 ^ 29) :
    base256ToBase64Len len = (len * 4 / 3 + 3 : Nat) := by
  have hfour : int32 ((len : Int) * 4) = (len * 4 : Nat) := by
    rw [int32_of_lt (by omega) (by omega)]
    omega
  rw [base256ToBase64Len, hfour, Int.tdiv_eq_ediv_of_nonneg (by omega), int32_of_lt (by omega) (by omega)]
  omega

/-- Where the product in the macro leaves `int`, the macro is smaller than what is written. -/
theorem base256ToBase64Len_lt {len : Nat} (hint : len < 2 ^ 31) (h : 2 ^ 29 ≤ len) :
    base256ToBase64Len len < ((len + 2) / 3 * 4 : Nat) := by
  obtain ⟨x, hx⟩ : ∃ x, int32 ((len : Int) * 4) = x := ⟨_, rfl⟩
  have hcases : -2 ^ 31 ≤ x ∧ x < 2 ^ 31 ∧ (len < 2 ^ 30 → x < 0) := by
    rw [← hx, int32, Int.bmod_def]
    split <;> omega
  have hthird : x.tdiv 3 * 3 + x.tmod 3 = x := Int.tdiv_mul_add_tmod x 3
  have hmod := Int.tmod_lt_of_pos x (show (0 : Int) < 3 by decide)
  have hmod' : -3 < x.tmod 3 := Int.lt_tmod_of_pos x (by decide)
  rw [base256ToBase64Len, hx, int32_of_lt (by omega) (by omega)]
  omega

theorem base64ToBase256Len_of_le {len : Nat} (h : len * 3 < 2 ^ 31) :
    base64ToBase256Len len = (len * 3 / 4 : Nat) := by
  have hthree : int32 ((len : Int) * 3) = (len * 3 : Nat) := by
    rw [int32_of_lt (by omega) (by omega)]
    omega
  rw [base64ToBase256Len, hthree, Int.tdiv_eq_ediv_of_nonneg (by omega)]
  omega

theorem length_stripPadding_encodeGroups (url : Bool) (input : List UInt8) :
    (stripPadding (encodeGroups url input)).length = (input.length * 4 + 2) / 3 := by
  fun_induction encodeGroups url input with
  | case1 => rfl
  | case2 c1 =>
    rw [stripPadding_pair]
    simp [base256to64]
  | case3 c1 c2 =>
    rw [stripPadding_triple]
    simp [base256to64]
  | case4 c1 c2 c3 rest ih =>
    have hlen : (base256to64 url c1 c2 c3 0).length = 4 := rfl
    rw [stripPadding_append (padding_notMem_group c1 c2 c3 url), List.length_append, hlen, ih]
    simp only [List.length_cons]
    omega

theorem roundTrips_of_lt (url : Bool) {input : List UInt8} (h : input.length < 2 ^ 29) : RoundTrips url input := by
  intro outLen hout
  refine ⟨encodeGroups url input, by rw [b64Encode, if_pos hout], ?_, ?_⟩
  · rw [base256ToBase64Len_of_lt h, length_encodeGroups]
    omega
  · intro outLen' hout'
    have hlen := length_stripPadding_encodeGroups url input
    refine ⟨_, by rw [b64Decode, if_pos hout'], ?_, decodeGroups_encodeGroups url input le_rfl⟩
    have hle := length_decodeGroups_le url (stripPadding (encodeGroups url input)).length
      (stripPadding (encodeGroups url input))
    rw [base64ToBase256Len_of_le (by omega)]
    omega

theorem not_roundTrips (url : Bool) {input : List UInt8} (hint : input.length < 2 ^ 31)
    (h : 2 ^ 29 ≤ input.length) : ¬ RoundTrips url input := by
  intro hround
  obtain ⟨text, htext, hlen, -⟩ := hround _ (Int.le_refl _)
  rw [b64Encode, if_pos (Int.le_refl _)] at htext
  have hlt := base256ToBase64Len_lt hint h
  rw [← Option.some.inj htext, length_encodeGroups] at hlen
  omega

/-- The length of the input is an `int`. The bytes come back within the bounds when four times the length
is an `int` too, and only then. -/
theorem base64_roundTrips_iff (url : Bool) (input : List UInt8) (hint : input.length < 2 ^ 31) :
    RoundTrips url input ↔ input.length < 2 ^ 29 := by
  constructor
  · intro hround
    by_contra hlarge
    exact not_roundTrips url hint (Nat.not_lt.mp hlarge) hround
  · exact roundTrips_of_lt url

theorem base64_roundTrips_hello :
    (ascii "Hello").length < 2 ^ 31 ∧ (RoundTrips true (ascii "Hello") ↔ (ascii "Hello").length < 2 ^ 29) :=
  ⟨by decide, base64_roundTrips_iff true (ascii "Hello") (by decide)⟩

/-- 2^29 zero bytes: the macro is negative, so a buffer of no bytes passes the check. -/
theorem base64_overflow : ¬ RoundTrips false (List.replicate (2 ^ 29) 0) := by
  apply not_roundTrips
  · rw [List.length_replicate]
    decide
  · rw [List.length_replicate]

end PjProject.Base64
