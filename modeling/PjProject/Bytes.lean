import Mathlib.Data.List.Basic
import Mathlib.Data.Nat.Basic
import Mathlib.Tactic.Ring

/-! Numbers in network byte order, and the bytes at an offset of a buffer. -/

namespace PjProject

/-- The `n` low bytes of the number, most significant first. -/
def toBytes : Nat → Nat → List UInt8
  | 0, _ => []
  | n + 1, v => .ofNat (v / 256 ^ n) :: toBytes n v

def ofBytes (l : List UInt8) : Nat := l.foldl (fun acc b => acc * 256 + b.toNat) 0

@[simp] theorem length_toBytes (n v : Nat) : (toBytes n v).length = n := by
  induction n with
  | zero => rfl
  | succ n ih => rw [toBytes, List.length_cons, ih]

theorem foldl_toBytes (n v acc : Nat) :
    (toBytes n v).foldl (fun acc b => acc * 256 + b.toNat) acc = acc * 256 ^ n + v % 256 ^ n := by
  induction n generalizing acc with
  | zero => simp [toBytes, Nat.mod_one]
  | succ n ih =>
    have hbyte : (UInt8.ofNat (v / 256 ^ n)).toNat = v / 256 ^ n % 256 := UInt8.toNat_ofNat'
    have hmod : v % 256 ^ (n + 1) = v % 256 ^ n + 256 ^ n * (v / 256 ^ n % 256) := by
      rw [Nat.pow_succ, Nat.mod_mul]
    rw [toBytes, List.foldl_cons, ih, hbyte, hmod, Nat.pow_succ]
    ring

/-- What was written is read back. -/
theorem ofBytes_toBytes {n v : Nat} (h : v < 256 ^ n) : ofBytes (toBytes n v) = v := by
  rw [ofBytes, foldl_toBytes, Nat.zero_mul, Nat.zero_add, Nat.mod_eq_of_lt h]

/-- The `n` bytes of the buffer from offset `p` on. -/
def slice (buf : List UInt8) (p n : Nat) : List UInt8 := (buf.drop p).take n

/-- The byte at offset `p`; zero behind the end. -/
def byteAt (buf : List UInt8) (p : Nat) : UInt8 := buf.getD p 0

/-- The characters of a string literal of the source. -/
def ascii (s : String) : List UInt8 := s.toList.map fun c => .ofNat c.toNat

/-- The bytes of a literal, without a detour through its encoding. -/
theorem ascii_ofList (l : List Char) : ascii (String.ofList l) = l.map fun c => .ofNat c.toNat := by
  rw [ascii, String.toList_ofList]

/-- `tolower` of the C locale: the letters `A` to `Z` in lower case. -/
def toLower (b : UInt8) : UInt8 := if 65 ≤ b ∧ b ≤ 90 then b + 32 else b

theorem byteAt_of_le {buf : List UInt8} {p : Nat} (h : buf.length ≤ p) : byteAt buf p = 0 := by
  rw [byteAt, List.getD_eq_getElem?_getD, List.getElem?_eq_none h]
  rfl

@[simp] theorem slice_append (front part rest : List UInt8) :
    slice (front ++ (part ++ rest)) front.length part.length = part := by
  rw [slice, List.drop_left, List.take_left]

@[simp] theorem byteAt_append (front : List UInt8) (b : UInt8) (rest : List UInt8) :
    byteAt (front ++ b :: rest) front.length = b := by
  simp [byteAt, List.getD_eq_getElem?_getD]

theorem byteAt_append_left {buf : List UInt8} {p : Nat} (more : List UInt8) (h : p < buf.length) :
    byteAt (buf ++ more) p = byteAt buf p := by
  rw [byteAt, byteAt, List.getD_eq_getElem?_getD, List.getElem?_append_left h, List.getD_eq_getElem?_getD]

theorem slice_append_left {buf : List UInt8} {p n : Nat} (more : List UInt8) (h : p + n ≤ buf.length) :
    slice (buf ++ more) p n = slice buf p n := by
  rw [slice, slice, List.drop_append_of_le_length (by omega), List.take_append_of_le_length]
  rw [List.length_drop]
  omega

/-- A statement about a byte, byte by byte. -/
theorem forall_uint8 {p : UInt8 → Prop} (h : ∀ n : Fin 256, p (.ofNat n.val)) (o : UInt8) : p o := by
  have ho := h ⟨o.toNat, o.toNat_lt⟩
  rw [UInt8.ofNat_toNat] at ho
  exact ho

end PjProject
