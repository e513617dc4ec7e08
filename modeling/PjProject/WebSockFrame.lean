import PjProject.Bytes
import PjProject.Framing

/-! WebSocket frames (`websock.c`): `encode_frame` writes masked frames in three length encodings, and
`parse_frame_header` and `decode_frame_header` read frames with and without a mask. -/

namespace PjProject.WebSock

/-- The four opcode bits of a frame; `pj_websock_opcode` names six of the values. -/
abbrev Opcode := Fin 16

def Opcode.cont : Opcode := 0x0
def Opcode.text : Opcode := 0x1
def Opcode.bin : Opcode := 0x2
def Opcode.close : Opcode := 0x8
def Opcode.ping : Opcode := 0x9
def Opcode.pong : Opcode := 0xA

/-- `mask_key[4]`. -/
structure MaskKey where
  k0 : UInt8
  k1 : UInt8
  k2 : UInt8
  k3 : UInt8
  deriving DecidableEq, Repr

def MaskKey.bytes (key : MaskKey) : List UInt8 := [key.k0, key.k1, key.k2, key.k3]

/-- The four bytes of the buffer from `pos` on, as `pj_memcpy` takes them for a key. -/
def MaskKey.read (data : List UInt8) (pos : Nat) : MaskKey :=
  ⟨byteAt data pos, byteAt data (pos + 1), byteAt data (pos + 2), byteAt data (pos + 3)⟩

/-- `[i] ^= mask[i & 3]` over the payload. -/
def applyMask (key : MaskKey) (payload : List UInt8) : List UInt8 :=
  payload.mapIdx fun i b => b ^^^ byteAt key.bytes (i &&& 3)

def firstByte (opcode : Opcode) (fin : Bool) : UInt8 :=
  (if fin then 0x80 else 0) ||| .ofNat opcode

/-- Byte 1, MASK=1 and the payload length, with the extended length behind it. -/
def encodeLen (payloadLen : Nat) : List UInt8 :=
  if payloadLen < 126 then [0x80 ||| .ofNat payloadLen]
  else if payloadLen ≤ 0xFFFF then (0x80 ||| 126) :: toBytes 2 payloadLen
  else (0x80 ||| 127) :: ([0, 0, 0, 0] ++ toBytes 4 payloadLen)

/-- `encode_frame` with the masking key that `pj_rand` gave. -/
def encodeFrame (opcode : Opcode) (fin : Bool) (key : MaskKey) (payload : List UInt8) : List UInt8 :=
  firstByte opcode fin :: (encodeLen payload.length ++ (key.bytes ++ applyMask key payload))

/-- What `parse_frame_header` reports: its out parameters and the size of the header. -/
structure Header where
  fin : Bool
  opcode : Opcode
  mask : Option MaskKey
  payloadLen : Nat
  hdrLen : Nat
  deriving DecidableEq, Repr

/-- The payload length of the frame with the offset behind it. `wide` says that `pj_size_t` has eight
bytes or more. -/
def parseLen (wide : Bool) (data : List UInt8) : Option (Nat × Nat) :=
  let plen := (byteAt data 1 &&& 0x7F).toNat
  if plen = 126 then
    if data.length < 4 then none else some (ofBytes (slice data 2 2), 4)
  else if plen = 127 then
    if data.length < 10 then none
    else if ofBytes (slice data 2 4) ≠ 0 then none
    else if wide = false ∧ 0x7FFFFFFF < ofBytes (slice data 6 4) then none
    else some (ofBytes (slice data 6 4), 10)
  else some (plen, 2)

/-- `parse_frame_header`; `none` where it returns 0. -/
def parseFrameHeader (wide : Bool) (data : List UInt8) : Option Header :=
  if data.length < 2 then none
  else
    let fin := byteAt data 0 &&& 0x80 != 0
    let opcode : Opcode := .ofNat 16 (byteAt data 0 &&& 0x0F).toNat
    (parseLen wide data).bind fun (plen, pos) =>
      if byteAt data 1 &&& 0x80 = 0 then some ⟨fin, opcode, none, plen, pos⟩
      else if data.length < pos + 4 then none
      else some ⟨fin, opcode, some (.read data pos), plen, pos + 4⟩

def unmask : Option MaskKey → List UInt8 → List UInt8
  | none, payload => payload
  | some key, payload => applyMask key payload

/-- `decode_frame_header`: the header and the payload, unmasked; `none` where it returns 0. The bytes
consumed are `hdrLen + payloadLen`. -/
def decodeFrameHeader (wide : Bool) (data : List UInt8) : Option (Header × List UInt8) :=
  (parseFrameHeader wide data).bind fun h =>
    if data.length < h.hdrLen + h.payloadLen then none
    else if data.length < h.payloadLen then none
    else some (h, unmask h.mask (slice data h.hdrLen h.payloadLen))

@[simp] theorem length_applyMask (key : MaskKey) (payload : List UInt8) :
    (applyMask key payload).length = payload.length := List.length_mapIdx

@[simp] theorem applyMask_applyMask (key : MaskKey) (payload : List UInt8) :
    applyMask key (applyMask key payload) = payload := by
  rw [applyMask, applyMask, List.mapIdx_mapIdx]
  apply List.ext_getElem
  · rw [List.length_mapIdx]
  · intro i _ _
    rw [List.getElem_mapIdx, Function.comp_apply, UInt8.xor_assoc, UInt8.xor_self, UInt8.xor_zero]

theorem fin_firstByte (opcode : Opcode) (fin : Bool) : (firstByte opcode fin &&& 0x80 != 0) = fin := by
  revert opcode fin
  decide

theorem opcode_firstByte (opcode : Opcode) (fin : Bool) :
    Fin.ofNat 16 (firstByte opcode fin &&& 0x0F).toNat = opcode := by
  revert opcode fin
  decide

theorem shortLen_bits : ∀ len : Fin 126,
    (0x80 ||| UInt8.ofNat len) &&& 0x80 ≠ 0 ∧ ((0x80 ||| UInt8.ofNat len) &&& 0x7F).toNat = len := by
  decide

theorem read_append (front : List UInt8) (key : MaskKey) (rest : List UInt8) :
    MaskKey.read (front ++ (key.bytes ++ rest)) front.length = key := by
  simp [MaskKey.read, MaskKey.bytes, byteAt, List.getD_eq_getElem?_getD]

/-- The second byte of the encoding has the mask bit. -/
theorem encodeLen_eq_cons (len : Nat) : ∃ b1 more, encodeLen len = b1 :: more ∧ b1 &&& 0x80 ≠ 0 := by
  rw [encodeLen]
  split
  · exact ⟨_, _, rfl, (shortLen_bits ⟨len, ‹_›⟩).1⟩
  · split
    · exact ⟨_, _, rfl, by decide⟩
    · exact ⟨_, _, rfl, by decide⟩

theorem parseLen_encodeLen {wide : Bool} {len : Nat} (hlen : len < 2 ^ 32)
    (hnarrow : wide = false → len ≤ 0x7FFFFFFF) (b0 : UInt8) (rest : List UInt8) :
    parseLen wide (b0 :: (encodeLen len ++ rest)) = some (len, 1 + (encodeLen len).length) := by
  rw [encodeLen]
  split
  · have hbits := (shortLen_bits ⟨len, ‹_›⟩).2
    have hbyte : byteAt (b0 :: ([0x80 ||| UInt8.ofNat len] ++ rest)) 1 = 0x80 ||| UInt8.ofNat len := rfl
    simp only [parseLen, hbyte, hbits]
    rw [if_neg (by omega), if_neg (by omega)]
    rfl
  · split
    · have hbyte : byteAt (b0 :: ((0x80 ||| 126) :: toBytes 2 len ++ rest)) 1 = 0x80 ||| 126 := rfl
      have hslice : slice (b0 :: ((0x80 ||| 126) :: toBytes 2 len ++ rest)) 2 2 = toBytes 2 len :=
        slice_append [b0, 0x80 ||| 126] (toBytes 2 len) rest
      have hvalue : ofBytes (toBytes 2 len) = len := ofBytes_toBytes (by omega)
      simp only [parseLen, hbyte, hslice, hvalue]
      rw [if_pos (by decide), if_neg (by simp)]
      simp
    · have hbyte : byteAt (b0 :: ((0x80 ||| 127) :: ([0, 0, 0, 0] ++ toBytes 4 len) ++ rest)) 1 =
          0x80 ||| 127 := rfl
      have hhigh : slice (b0 :: ((0x80 ||| 127) :: ([0, 0, 0, 0] ++ toBytes 4 len) ++ rest)) 2 4 =
          [0, 0, 0, 0] := rfl
      have hslice : slice (b0 :: ((0x80 ||| 127) :: ([0, 0, 0, 0] ++ toBytes 4 len) ++ rest)) 6 4 =
          toBytes 4 len := slice_append [b0, 0x80 ||| 127, 0, 0, 0, 0] (toBytes 4 len) rest
      have hvalue : ofBytes (toBytes 4 len) = len := ofBytes_toBytes (by omega)
      simp only [parseLen, hbyte, hhigh, hslice, hvalue]
      rw [if_neg (by decide), if_pos (by decide), if_neg (by simp), if_neg (by decide), if_neg]
      · simp
      · rintro ⟨hw, hbig⟩
        exact absurd (hnarrow hw) (by omega)

theorem parseFrameHeader_encodeLen {wide : Bool} {len : Nat} (hlen : len < 2 ^ 32)
    (hnarrow : wide = false → len ≤ 0x7FFFFFFF) (opcode : Opcode) (fin : Bool) (key : MaskKey) (rest : List UInt8) :
    parseFrameHeader wide (firstByte opcode fin :: (encodeLen len ++ (key.bytes ++ rest))) =
      some ⟨fin, opcode, some key, len, 1 + (encodeLen len).length + 4⟩ := by
  obtain ⟨b1, more, hcons, hmask⟩ := encodeLen_eq_cons len
  have hparse := parseLen_encodeLen hlen hnarrow (firstByte opcode fin) (key.bytes ++ rest)
  have hread : MaskKey.read (firstByte opcode fin :: (encodeLen len ++ (key.bytes ++ rest)))
      (1 + (encodeLen len).length) = key := by
    have := read_append (firstByte opcode fin :: encodeLen len) key rest
    rwa [List.length_cons, Nat.add_comm] at this
  have hfirst : byteAt (firstByte opcode fin :: (encodeLen len ++ (key.bytes ++ rest))) 0 =
      firstByte opcode fin := rfl
  have hsecond : byteAt (firstByte opcode fin :: (encodeLen len ++ (key.bytes ++ rest))) 1 = b1 := by
    rw [hcons]
    rfl
  have hlong : 1 + (encodeLen len).length + 4 ≤
      (firstByte opcode fin :: (encodeLen len ++ (key.bytes ++ rest))).length := by
    simp [MaskKey.bytes]
    omega
  simp only [parseFrameHeader, hparse, Option.bind_some, hfirst, hsecond, fin_firstByte, opcode_firstByte,
    hread]
  rw [if_neg (by omega), if_neg hmask, if_neg (by omega)]

/-- The length has a place in the frame format, and where addresses have 32 bits the payload and the
frame are two buffers of one address space. -/
def Fits (wide : Bool) (payload frame : List UInt8) : Prop :=
  payload.length < 2 ^ 32 ∧ (wide = false → payload.length + frame.length ≤ 2 ^ 32)

instance (wide : Bool) (payload frame : List UInt8) : Decidable (Fits wide payload frame) :=
  inferInstanceAs (Decidable (_ ∧ _))

theorem length_encodeFrame (opcode : Opcode) (fin : Bool) (key : MaskKey) (payload : List UInt8) :
    (encodeFrame opcode fin key payload).length = 1 + (encodeLen payload.length).length + 4 + payload.length := by
  simp [encodeFrame, MaskKey.bytes]
  omega

/-- A frame that was encoded is parsed with its opcode, fin flag, key and payload, and takes all the bytes
that were produced. -/
theorem decodeFrameHeader_encodeFrame (wide : Bool) (opcode : Opcode) (fin : Bool) (key : MaskKey)
    (payload : List UInt8) (hfits : Fits wide payload (encodeFrame opcode fin key payload)) :
    ∃ h, parseFrameHeader wide (encodeFrame opcode fin key payload) = some h ∧
      h.opcode = opcode ∧ h.fin = fin ∧ h.mask = some key ∧ h.payloadLen = payload.length ∧
      h.hdrLen + h.payloadLen = (encodeFrame opcode fin key payload).length ∧
      unmask h.mask (slice (encodeFrame opcode fin key payload) h.hdrLen h.payloadLen) = payload ∧
      decodeFrameHeader wide (encodeFrame opcode fin key payload) = some (h, payload) := by
  have hlength := length_encodeFrame opcode fin key payload
  have hnarrow : wide = false → payload.length ≤ 0x7FFFFFFF := by
    intro hw
    have := hfits.2 hw
    omega
  have hparse := parseFrameHeader_encodeLen hfits.1 hnarrow opcode fin key (applyMask key payload)
  have hslice : slice (encodeFrame opcode fin key payload) (1 + (encodeLen payload.length).length + 4)
      payload.length = applyMask key payload := by
    have hpart := slice_append (firstByte opcode fin :: (encodeLen payload.length ++ key.bytes))
      (applyMask key payload) []
    simp only [List.append_nil, length_applyMask, List.cons_append, List.append_assoc] at hpart
    rw [encodeFrame]
    convert hpart using 2
    simp [MaskKey.bytes]
    omega
  have hpayload : unmask (some key) (slice (encodeFrame opcode fin key payload)
      (1 + (encodeLen payload.length).length + 4) payload.length) = payload := by
    rw [hslice, unmask, applyMask_applyMask]
  refine ⟨_, hparse, rfl, rfl, rfl, rfl, hlength.symm, hpayload, ?_⟩
  rw [decodeFrameHeader, encodeFrame, hparse, ← encodeFrame]
  simp only [Option.bind_some, hpayload, hlength]
  rw [if_neg (by omega), if_neg (by omega)]

/-- A text frame with a payload in the short encoding. -/
theorem decodeFrameHeader_encodeFrame_text :
    ∃ h, parseFrameHeader false (encodeFrame .text true ⟨1, 2, 3, 4⟩ [72, 105]) = some h ∧
      decodeFrameHeader false (encodeFrame .text true ⟨1, 2, 3, 4⟩ [72, 105]) = some (h, [72, 105]) := by
  obtain ⟨h, hparse, -, -, -, -, -, -, hdecode⟩ :=
    decodeFrameHeader_encodeFrame false .text true ⟨1, 2, 3, 4⟩ [72, 105] (by decide)
  exact ⟨h, hparse, hdecode⟩

theorem parseLen_bounds {wide : Bool} {data : List UInt8} {plen pos : Nat} (hdata : 2 ≤ data.length)
    (h : parseLen wide data = some (plen, pos)) : 2 ≤ pos ∧ pos ≤ data.length := by
  simp only [parseLen] at h
  split at h
  · split at h <;> cases h
    exact ⟨by omega, by omega⟩
  · split at h
    · split at h
      · cases h
      · split at h
        · cases h
        · split at h <;> cases h
          exact ⟨by omega, by omega⟩
    · cases h
      exact ⟨by omega, hdata⟩

theorem parseLen_append {wide : Bool} {data : List UInt8} {x : Nat × Nat} (hdata : 2 ≤ data.length)
    (h : parseLen wide data = some x) (more : List UInt8) : parseLen wide (data ++ more) = some x := by
  simp only [parseLen, byteAt_append_left more (by omega : 1 < data.length)] at h ⊢
  split at h
  · split at h
    · cases h
    · rw [if_pos ‹_›, if_neg (by rw [List.length_append]; omega),
        slice_append_left more (by omega : 2 + 2 ≤ data.length)]
      exact h
  · split at h
    · split at h
      · cases h
      · rw [if_neg ‹_›, if_pos ‹_›, if_neg (by rw [List.length_append]; omega),
          slice_append_left more (by omega : 2 + 4 ≤ data.length),
          slice_append_left more (by omega : 6 + 4 ≤ data.length)]
        exact h
    · rw [if_neg ‹_›, if_neg ‹_›]
      exact h

theorem parseFrameHeader_bounds {wide : Bool} {data : List UInt8} {h : Header}
    (hparse : parseFrameHeader wide data = some h) : 2 ≤ h.hdrLen ∧ h.hdrLen ≤ data.length := by
  rw [parseFrameHeader] at hparse
  split at hparse
  · cases hparse
  · obtain ⟨⟨plen, pos⟩, hlen, hparse⟩ := Option.bind_eq_some_iff.mp hparse
    have hbounds := parseLen_bounds (by omega) hlen
    simp only at hparse
    split at hparse
    · cases hparse
      exact hbounds
    · split at hparse <;> cases hparse
      exact ⟨by simp only; omega, by simp only; omega⟩

/-- A header does not depend on the bytes behind it. -/
theorem parseFrameHeader_append {wide : Bool} {data : List UInt8} {h : Header}
    (hparse : parseFrameHeader wide data = some h) (more : List UInt8) :
    parseFrameHeader wide (data ++ more) = some h := by
  rw [parseFrameHeader] at hparse ⊢
  split at hparse
  · cases hparse
  · obtain ⟨⟨plen, pos⟩, hlen, hparse⟩ := Option.bind_eq_some_iff.mp hparse
    have hbounds := parseLen_bounds (by omega) hlen
    rw [if_neg (by rw [List.length_append]; omega), parseLen_append (by omega) hlen]
    simp only [Option.bind_some, byteAt_append_left more (by omega : 0 < data.length),
      byteAt_append_left more (by omega : 1 < data.length)]
    simp only at hparse
    split at hparse
    · rw [if_pos ‹_›]
      exact hparse
    · split at hparse
      · cases hparse
      · rw [if_neg ‹_›, if_neg (by rw [List.length_append]; omega), MaskKey.read,
          byteAt_append_left more (by omega), byteAt_append_left more (by omega),
          byteAt_append_left more (by omega), byteAt_append_left more (by omega), ← MaskKey.read]
        exact hparse

theorem decodeFrameHeader_eq_some {wide : Bool} {data : List UInt8} {h : Header} {payload : List UInt8} :
    decodeFrameHeader wide data = some (h, payload) ↔
      parseFrameHeader wide data = some h ∧ h.hdrLen + h.payloadLen ≤ data.length ∧
        payload = unmask h.mask (slice data h.hdrLen h.payloadLen) := by
  rw [decodeFrameHeader, Option.bind_eq_some_iff]
  constructor
  · rintro ⟨h', hparse, hsome⟩
    split at hsome
    · cases hsome
    · split at hsome <;> cases hsome
      exact ⟨hparse, by omega, rfl⟩
  · rintro ⟨hparse, hlen, rfl⟩
    refine ⟨h, hparse, ?_⟩
    rw [if_neg (by omega), if_neg (by omega)]

theorem decodeFrameHeader_append {wide : Bool} {data : List UInt8} {x : Header × List UInt8}
    (hdecode : decodeFrameHeader wide data = some x) (more : List UInt8) :
    decodeFrameHeader wide (data ++ more) = some x := by
  obtain ⟨hparse, hlen, hpayload⟩ := decodeFrameHeader_eq_some.mp hdecode
  refine decodeFrameHeader_eq_some.mpr ⟨parseFrameHeader_append hparse more, ?_, ?_⟩
  · rw [List.length_append]
    omega
  · rw [hpayload, slice_append_left more hlen]

/-- The frames of the stream that a connection receives. -/
def frameDecoder (wide : Bool) : Decoder UInt8 (Header × List UInt8) where
  decode data := (decodeFrameHeader wide data).map fun x => (x, x.1.hdrLen + x.1.payloadLen)
  pos := by
    intro data x n hdecode
    obtain ⟨y, hy, heq⟩ := Option.map_eq_some_iff.mp hdecode
    cases heq
    have := parseFrameHeader_bounds (decodeFrameHeader_eq_some.mp hy).1
    omega
  le := by
    intro data x n hdecode
    obtain ⟨y, hy, heq⟩ := Option.map_eq_some_iff.mp hdecode
    cases heq
    exact (decodeFrameHeader_eq_some.mp hy).2.1
  append := by
    intro data x n hdecode more
    obtain ⟨y, hy, heq⟩ := Option.map_eq_some_iff.mp hdecode
    cases heq
    rw [decodeFrameHeader_append hy, Option.map_some]

end PjProject.WebSock
