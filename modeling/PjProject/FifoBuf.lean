import PjProject.Runs
import PjProject.Intervals

/-! The FIFO buffer (`fifobuf.c`): blocks with a size header are carved from a byte region that wraps,
and are given back in the order they were allocated. Addresses are numbers; `unsigned` has 32 bits. The
memory is part of the state, since the buffer reads the size of a block back from the header it wrote in
front of it, and the application writes into the blocks it holds. -/

namespace PjProject.FifoBuf

/-- The range of `unsigned`. -/
def wordSize : Nat := 2 ^ 32

/-- `SZ`, the bytes of the size header. -/
def headerSize : Nat := 4

/-- `pj_fifobuf_t`. -/
structure Fifobuf where
  first : Nat
  last : Nat
  ubegin : Nat
  uend : Nat
  full : Bool
  deriving DecidableEq

abbrev Memory := Nat → UInt8

/-- `put_size`: the four bytes of an `unsigned`, least significant first. -/
def putSize (mem : Memory) (ptr size : Nat) : Memory := fun a =>
  if a = ptr then .ofNat size
  else if a = ptr + 1 then .ofNat (size / 2 ^ 8)
  else if a = ptr + 2 then .ofNat (size / 2 ^ 16)
  else if a = ptr + 3 then .ofNat (size / 2 ^ 24)
  else mem a

def getSize (mem : Memory) (ptr : Nat) : Nat :=
  (mem ptr).toNat + 2 ^ 8 * (mem (ptr + 1)).toNat + 2 ^ 16 * (mem (ptr + 2)).toNat +
    2 ^ 24 * (mem (ptr + 3)).toNat

theorem getSize_putSize (mem : Memory) (ptr : Nat) {size : Nat} (h : size < wordSize) :
    getSize (putSize mem ptr size) ptr = size := by
  simp only [getSize, putSize, if_true, Nat.add_eq_left, Nat.add_left_cancel_iff,
    UInt8.toNat_ofNat', wordSize] at *
  norm_num
  omega

/-- A header outside the four bytes written is read as before. -/
theorem getSize_congr {mem mem' : Memory} {ptr : Nat}
    (h : ∀ a, ptr ≤ a → a < ptr + headerSize → mem' a = mem a) : getSize mem' ptr = getSize mem ptr := by
  simp only [headerSize] at h
  rw [getSize, getSize, h ptr (by omega) (by omega), h (ptr + 1) (by omega) (by omega),
    h (ptr + 2) (by omega) (by omega), h (ptr + 3) (by omega) (by omega)]

theorem putSize_of_outside {mem : Memory} {ptr size a : Nat} (h : a < ptr ∨ ptr + headerSize ≤ a) :
    putSize mem ptr size a = mem a := by
  simp only [headerSize] at h
  rw [putSize, if_neg (by omega), if_neg (by omega), if_neg (by omega), if_neg (by omega)]

/-- `pj_fifobuf_init`. -/
def fifobufInit (buffer size : Nat) : Fifobuf :=
  { first := buffer
    last := buffer + size
    ubegin := buffer
    uend := buffer
    full := decide (buffer + size = buffer) }

/-- `pj_fifobuf_capacity`; the subtraction is of `unsigned` values. -/
def fifobufCapacity (f : Fifobuf) : Nat :=
  let cap := f.last - f.first
  if 0 < cap then (wordSize + cap - headerSize) % wordSize else 0

/-- `pj_fifobuf_available_size`. -/
def fifobufAvailableSize (f : Fifobuf) : Nat :=
  if f.full then 0
  else if f.ubegin ≤ f.uend then
    let s1 := f.last - f.uend
    let s2 := f.ubegin - f.first
    let s := if s1 ≤ headerSize then s2 else if s2 ≤ headerSize then s1 else if s1 < s2 then s2 else s1
    if headerSize ≤ s then s - headerSize else 0
  else
    let s := f.ubegin - f.uend
    if headerSize ≤ s then s - headerSize else 0

/-- `size+SZ`, of `unsigned` and a 32-bit `sizeof`. -/
def blockSize (size : Nat) : Nat := (size + headerSize) % wordSize

/-- The first attempt of `pj_fifobuf_alloc`: a block at the end of the used part. It gives the address
of the block's header and the buffer after it. -/
def allocTail (f : Fifobuf) (size : Nat) : Option (Nat × Fifobuf) :=
  if f.ubegin ≤ f.uend ∧ blockSize size ≤ f.last - f.uend then
    let moved := f.uend + blockSize size
    let uend := if moved = f.last then f.first else moved
    some (f.uend, { f with uend := uend, full := if uend = f.ubegin then true else f.full })
  else none

/-- The second attempt: a block in front of the used part, or between the two used parts. -/
def allocFront (f : Fifobuf) (size : Nat) : Option (Nat × Fifobuf) :=
  let start := if f.uend ≤ f.ubegin then f.uend else f.first
  if blockSize size ≤ f.ubegin - start then
    let uend := start + blockSize size
    some (start, { f with uend := uend, full := if uend = f.ubegin then true else f.full })
  else none

/-- Where `pj_fifobuf_alloc` puts the block: its header's address and the buffer afterwards. -/
def allocPlace (f : Fifobuf) (size : Nat) : Option (Nat × Fifobuf) :=
  if f.full then none else (allocTail f size).or (allocFront f size)

/-- `pj_fifobuf_alloc`: the pointer returned (`NULL` is `none`), the buffer and the memory. -/
def fifobufAlloc (f : Fifobuf) (mem : Memory) (size : Nat) : Option Nat × Fifobuf × Memory :=
  match allocPlace f size with
  | none => (none, f, mem)
  | some (ptr, f') => (some (ptr + headerSize), f', putSize mem ptr (blockSize size))

/-- `PJ_SUCCESS`, or `PJ_EINVAL` with the text of the assertion in front of it. -/
inductive Status
  | success
  | invalid (assertion : String)
  deriving DecidableEq

/-- `pj_fifobuf_free`. -/
def fifobufFree (f : Fifobuf) (mem : Memory) (buf : Nat) : Status × Fifobuf :=
  let ptr := (wordSize + buf - headerSize) % wordSize
  if ptr < f.first ∨ f.last ≤ ptr then (.invalid "Invalid pointer to free", f)
  else if ptr ≠ f.ubegin ∧ ptr ≠ f.first then (.invalid "Invalid free() sequence!", f)
  else
    let stop := if f.ubegin < f.uend then f.uend else f.last
    let sz := getSize mem ptr
    if stop < ptr + sz then (.invalid "Invalid size!", f)
    else
      let moved := ptr + sz
      let ubegin := if moved = f.last then f.first else moved
      if ubegin = f.uend then (.success, { f with ubegin := f.first, uend := f.first, full := false })
      else (.success, { f with ubegin := ubegin, full := false })

/-- The buffer in use: its memory and the live blocks, headers included, oldest first. -/
structure State where
  buf : Fifobuf
  mem : Memory
  live : List Interval

/-- The application asks for a block, gives back the oldest one, or writes a byte into a block. -/
inductive Action
  | alloc (size : Nat)
  | free
  | write (addr : Nat) (byte : UInt8)
  deriving DecidableEq

/-- The block whose payload the pointer starts. -/
def blockAt (ptr size : Nat) : Interval := ⟨ptr - headerSize, ptr - headerSize + (size + headerSize)⟩

/-- Sizes are `unsigned` values, blocks are given back in allocation order, and the application writes
only into the payload of a block it holds. -/
def step (s : State) : Action → Option State
  | .alloc size =>
    if size < wordSize then
      match fifobufAlloc s.buf s.mem size with
      | (none, f, mem) => some ⟨f, mem, s.live⟩
      | (some ptr, f, mem) => some ⟨f, mem, s.live ++ [blockAt ptr size]⟩
    else none
  | .free =>
    match s.live with
    | [] => none
    | b :: rest =>
      match fifobufFree s.buf s.mem (b.lo + headerSize) with
      | (.success, f) => some ⟨f, s.mem, rest⟩
      | (.invalid _, f) => some ⟨f, s.mem, b :: rest⟩
  | .write addr byte =>
    if ∃ b ∈ s.live, b.lo + headerSize ≤ addr ∧ addr < b.hi then
      some { s with mem := Function.update s.mem addr byte }
    else none

/-- A buffer just initialised over memory of any content. -/
def start (buffer size : Nat) (mem : Memory) : State := ⟨fifobufInit buffer size, mem, []⟩

/-- The size of the block with its header is an `unsigned` value. -/
def Fits : Action → Prop
  | .alloc size => size + headerSize < wordSize
  | _ => True

instance : DecidablePred Fits
  | .alloc _ => inferInstanceAs (Decidable (_ < _))
  | .free => .isTrue trivial
  | .write _ _ => .isTrue trivial

end PjProject.FifoBuf
