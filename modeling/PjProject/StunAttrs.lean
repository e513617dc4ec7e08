import PjProject.Stun

/-! The attributes on the wire. Every one is its type, the length of a value, the value and padding; what a decoder
makes of that is the attribute that was encoded, but for the padding of SOFTWARE and the signature of DATA. -/

namespace PjProject.Stun

open Sock (Sockaddr htons htons_htons)

/-! Numbers and copies. -/

theorem joined16 (n : Nat) : (UInt8.ofNat (n / 256)).toNat * 256 + (UInt8.ofNat n).toNat = n % 65536 := by
  rw [UInt8.toNat_ofNat', UInt8.toNat_ofNat']
  omega

theorem getVal16_putVal16 (front rest : List UInt8) (n : Nat) :
    getVal16 (front ++ (putVal16 n ++ rest)) front.length = n % 65536 := by
  have hfirst : byteAt (front ++ (putVal16 n ++ rest)) front.length = .ofNat (n / 256) := byteAt_append front _ _
  have hsplit : front ++ (putVal16 n ++ rest) = (front ++ [.ofNat (n / 256)]) ++ .ofNat n :: rest := by
    simp [putVal16]
  have hsecond : byteAt (front ++ (putVal16 n ++ rest)) (front.length + 1) = .ofNat n := by
    have hlen : front.length + 1 = (front ++ [UInt8.ofNat (n / 256)]).length := by simp
    rw [hsplit, hlen, byteAt_append]
  rw [getVal16, hfirst, hsecond, joined16]

theorem getVal32_putVal32 (front rest : List UInt8) {n : Nat} (hn : n < 0x100000000) :
    getVal32 (front ++ (putVal32 n ++ rest)) front.length = n := by
  have hsplit : front ++ (putVal32 n ++ rest) = (front ++ putVal16 (n / 0x10000)) ++ (putVal16 n ++ rest) := by
    simp [putVal32]
  have hhigh : getVal16 (front ++ (putVal32 n ++ rest)) front.length = n / 0x10000 % 65536 := by
    rw [putVal32, List.append_assoc]
    exact getVal16_putVal16 front _ _
  have hlow : getVal16 (front ++ (putVal32 n ++ rest)) (front.length + 2) = n % 65536 := by
    have hlen : front.length + 2 = (front ++ putVal16 (n / 0x10000)).length := by simp [putVal16]
    rw [hsplit, hlen]
    exact getVal16_putVal16 _ rest n
  rw [getVal32, hhigh, hlow]
  omega

theorem copyOf_append {n : Nat} (front : List UInt8) (v : Vector UInt8 n) (rest : List UInt8) :
    copyOf n (front ++ (v.toList ++ rest)) front.length = v := by
  apply Vector.ext
  intro i hi
  rw [copyOf, Vector.getElem_ofFn]
  have hlt : i < v.toList.length := by simpa using hi
  rw [byteAt, List.getD_eq_getElem?_getD, List.getElem?_append_right (Nat.le_add_right _ _), Nat.add_sub_cancel_left,
    List.getElem?_append_left hlt, List.getElem?_eq_getElem hlt, Option.getD_some, Vector.getElem_toList]

theorem memory16_htons (n : UInt16) : memory16 (htons n) = putVal16 n.toNat := by
  have hn : n.toNat < 65536 := n.toNat_lt
  have hval : (htons n).toNat = n.toNat % 256 * 256 + n.toNat / 256 :=
    UInt16.toNat_ofNat_of_lt' (show _ < 65536 by omega)
  have hlow : UInt8.ofNat (htons n).toNat = UInt8.ofNat (n.toNat / 256) := by
    apply UInt8.toNat_inj.mp
    rw [UInt8.toNat_ofNat', UInt8.toNat_ofNat', hval]
    omega
  have hhigh : UInt8.ofNat ((htons n).toNat / 256) = UInt8.ofNat n.toNat := by
    have hdiv : (n.toNat % 256 * 256 + n.toNat / 256) / 256 = n.toNat % 256 := by
      rw [Nat.add_comm, Nat.add_mul_div_right _ _ (by decide), Nat.div_eq_of_lt (by omega), Nat.zero_add]
    apply UInt8.toNat_inj.mp
    rw [UInt8.toNat_ofNat', UInt8.toNat_ofNat', hval, hdiv]
    exact Nat.mod_mod _ _
  rw [memory16, putVal16, hlow, hhigh]

/-- A port is put as it lies in the memory, and read as a number that is turned around. -/
theorem memory16_eq (n : UInt16) : memory16 n = putVal16 (htons n).toNat := by
  rw [← memory16_htons, htons_htons]

theorem ofNat_toNat_mod (n : UInt16) : UInt16.ofNat (n.toNat % 65536) = n := by
  rw [Nat.mod_eq_of_lt (show n.toNat < 65536 from n.toNat_lt), UInt16.ofNat_toNat]

theorem xorWith_xorWith {n : Nat} (mask v : Vector UInt8 n) : xorWith mask (xorWith mask v) = v := by
  apply Vector.ext
  intro i hi
  simp only [xorWith, Vector.getElem_zipWith]
  rw [UInt8.xor_assoc, UInt8.xor_self, UInt8.xor_zero]

theorem xorSockaddr_xorSockaddr (tsxId : Vector UInt8 12) (addr : Sockaddr) :
    xorSockaddr tsxId (xorSockaddr tsxId addr) = addr := by
  cases addr with
  | ipv4 sinAddr sinPort =>
    rw [xorSockaddr, xorSockaddr, xorWith_xorWith, UInt16.xor_assoc, UInt16.xor_self, UInt16.xor_zero]
  | ipv6 sin6Addr sin6Port =>
    rw [xorSockaddr, xorSockaddr, xorWith_xorWith, UInt16.xor_assoc, UInt16.xor_self, UInt16.xor_zero]

/-! Padding. -/

theorem length_padding (pad : UInt8) (n : Nat) : n + (padding pad n).length = align4 n := by
  rw [padding, align4]
  split
  · rw [List.length_replicate]
    omega
  · rw [List.length_nil]
    omega

theorem padding_align4 (pad : UInt8) (n : Nat) : padding pad (align4 n) = [] := by
  rw [padding, align4, if_neg (by omega)]

theorem align4_add (n : Nat) : align4 (n + 4) = align4 n + 4 := by
  rw [align4, align4]
  omega

theorem padding_add (pad : UInt8) (n : Nat) : padding pad (4 + n) = padding pad n := by
  rw [padding, padding, Nat.add_mod_left]

theorem le_align4 (n : Nat) : n ≤ align4 n := by
  rw [align4]
  omega

/-! The front of a longer text. -/

theorem getVal16_append {buf : List UInt8} {pos : Nat} (rest : List UInt8) (h : pos + 2 ≤ buf.length) :
    getVal16 (buf ++ rest) pos = getVal16 buf pos := by
  rw [getVal16, getVal16, byteAt_append_left rest (by omega), byteAt_append_left rest (by omega)]

theorem getVal32_append {buf : List UInt8} {pos : Nat} (rest : List UInt8) (h : pos + 4 ≤ buf.length) :
    getVal32 (buf ++ rest) pos = getVal32 buf pos := by
  rw [getVal32, getVal32, getVal16_append rest (by omega), getVal16_append rest (by omega)]

theorem copyOf_append_left {n : Nat} {buf : List UInt8} {pos : Nat} (rest : List UInt8) (h : pos + n ≤ buf.length) :
    copyOf n (buf ++ rest) pos = copyOf n buf pos := by
  unfold copyOf
  apply congrArg
  funext i
  exact byteAt_append_left rest (by omega)

/-! Attributes on the wire. -/

def attrText (pad : UInt8) (type : UInt16) (value : List UInt8) : List UInt8 :=
  putVal16 type.toNat ++ (putVal16 value.length ++ (value ++ padding pad value.length))

theorem length_attrText (pad : UInt8) (type : UInt16) (value : List UInt8) :
    (attrText pad type value).length = align4 value.length + 4 := by
  have hpad := length_padding pad value.length
  simp only [attrText, List.length_append, putVal16, List.length_cons, List.length_nil]
  omega

section Reading

variable (pad : UInt8) (type : UInt16) {value : List UInt8} (rest : List UInt8)

theorem attrText_append : attrText pad type value ++ rest =
    (putVal16 type.toNat ++ putVal16 value.length) ++ (value ++ (padding pad value.length ++ rest)) := by
  simp only [attrText, List.append_assoc]

theorem getVal16_type : getVal16 (attrText pad type value ++ rest) 0 = type.toNat := by
  have hread := getVal16_putVal16 [] (putVal16 value.length ++ (value ++ (padding pad value.length ++ rest))) type.toNat
  rw [attrText_append, List.append_assoc]
  exact hread.trans (Nat.mod_eq_of_lt type.toNat_lt)

theorem getVal16_length (hvalue : value.length < 65536) :
    getVal16 (attrText pad type value ++ rest) 2 = value.length := by
  have hread := getVal16_putVal16 (putVal16 type.toNat) (value ++ (padding pad value.length ++ rest)) value.length
  rw [attrText_append, List.append_assoc]
  exact hread.trans (Nat.mod_eq_of_lt hvalue)

theorem getAttrHdr_attrText (hvalue : value.length < 65536) :
    getAttrHdr (attrText pad type value ++ rest) = ⟨type, .ofNat value.length⟩ := by
  rw [getAttrHdr, getVal16_type, getVal16_length pad type rest hvalue, UInt16.ofNat_toNat]

theorem slice_value : slice (attrText pad type value ++ rest) 4 value.length = value := by
  rw [attrText_append]
  exact slice_append (putVal16 type.toNat ++ putVal16 value.length) value _

end Reading

/-! The values. -/

def sockaddrValue : Sockaddr → List UInt8
  | .ipv4 sinAddr sinPort => [0, 1] ++ (memory16 sinPort ++ sinAddr.toList)
  | .ipv6 sin6Addr sin6Port => [0, 2] ++ (memory16 sin6Port ++ sin6Addr.toList)

def Attr.wireValue (pad : UInt8) (tsxId : Vector UInt8 12) : Attr → List UInt8
  | .sockaddr _ xorEd addr => sockaddrValue (if xorEd then xorSockaddr tsxId addr else addr)
  | .empty _ => []
  | .string hdr value => if hdr.type = attrSoftware then value ++ padding pad value.length else value
  | .uint _ value => putVal32 value.toNat
  | .uint64 _ hi lo => putVal32 hi.toNat ++ putVal32 lo.toNat
  | .msgint _ hmac => hmac.toList
  | .errcode _ errCode reason => putVal16 0 ++ ([.ofInt (errCode.tdiv 100), .ofInt (errCode.tmod 100)] ++ reason)
  | .unknown _ attrs => attrs.flatMap fun a => putVal16 a.toNat
  | .binary _ _ data => data

def Attr.Sized : Attr → Prop
  | .sockaddr hdr _ (.ipv4 _ _) => hdr.length = 8
  | .sockaddr hdr _ (.ipv6 _ _) => hdr.length = 20
  | .empty hdr => hdr.length = 0
  | .string hdr value => hdr.length.toNat = value.length
  | .uint hdr _ => hdr.length = 4
  | .uint64 hdr _ _ => hdr.length = 8
  | .msgint hdr _ => hdr.length = 20
  | .errcode hdr errCode reason => 0 ≤ errCode ∧ errCode < 25600 ∧ hdr.length.toNat = 4 + reason.length
  | .unknown hdr attrs => attrs.length ≤ maxAttr ∧ hdr.length.toNat = 2 * attrs.length
  | .binary hdr _ data => hdr.length.toNat = data.length

/-- The structure is the one of the entry in the tables. Addresses are XOR-ed where the entry says so; a type without
an entry has binary data and is optional. -/
def Describes : Option Kind → Attr → Prop
  | some .sockaddr, .sockaddr _ xorEd _ => xorEd = false
  | some .xoredSockaddr, .sockaddr _ xorEd _ => xorEd = true
  | some kind, attr => kind.fits attr = true
  | none, .binary hdr magic _ => 0x7FFF < hdr.type.toNat ∧ magic = stunMagic
  | none, _ => False

def Attr.OfType (attr : Attr) : Prop := Describes (findAttrDesc attr.hdr.type.toNat) attr

/-- What the receiver has of the attribute: the padding is a part of SOFTWARE, and DATA has no signature. -/
def Attr.received (pad : UInt8) : Attr → Attr
  | .string hdr value =>
    if hdr.type = attrSoftware then
      .string ⟨hdr.type, .ofNat (align4 value.length)⟩ (value ++ padding pad value.length)
    else .string hdr value
  | .binary hdr magic data => .binary hdr (if (findAttrDesc hdr.type.toNat).isSome then 0 else magic) data
  | attr => attr

section Encoding

variable (pad : UInt8) {msghdr : MsgHdr}

theorem length_sockaddrValue_ipv4 (sinAddr : Vector UInt8 4) (sinPort : UInt16) :
    (sockaddrValue (.ipv4 sinAddr sinPort)).length = 8 := by
  simp [sockaddrValue, memory16]

theorem length_sockaddrValue_ipv6 (sin6Addr : Vector UInt8 16) (sin6Port : UInt16) :
    (sockaddrValue (.ipv6 sin6Addr sin6Port)).length = 20 := by
  simp [sockaddrValue, memory16]

theorem encode_eq (hmagic : msghdr.magic = stunMagic) {attr : Attr} (hsized : attr.Sized) (len : Nat) :
    attr.encode pad msghdr len =
      if len < align4 (attr.wireValue pad msghdr.tsxId).length + 4 then .error .etoosmall
      else .ok (attrText pad attr.hdr.type (attr.wireValue pad msghdr.tsxId)) := by
  cases attr with
  | sockaddr hdr xorEd addr =>
    rw [Attr.encode, encodeSockaddrAttr, Attr.wireValue]
    generalize (if xorEd then xorSockaddr msghdr.tsxId addr else addr) = sent
    cases sent with
    | ipv4 sinAddr sinPort =>
      rw [attrText, length_sockaddrValue_ipv4]
      simp [sockaddrValue, align4, padding, Attr.hdr]
    | ipv6 sin6Addr sin6Port =>
      rw [attrText, length_sockaddrValue_ipv6]
      simp [sockaddrValue, align4, padding, Attr.hdr]
  | empty hdr => simp [Attr.encode, encodeEmptyAttr, Attr.wireValue, attrText, align4, padding, Attr.hdr]
  | string hdr value =>
    have hpad := length_padding pad value.length
    rw [Attr.encode, encodeStringAttr, Attr.wireValue, align4_add, hmagic]
    by_cases hsoft : hdr.type = attrSoftware
    · have hlen : (value ++ padding pad value.length).length = align4 value.length := by
        rw [List.length_append, hpad]
      have halign : align4 (align4 value.length) = align4 value.length := by
        rw [align4, align4]
        omega
      simp only [hsoft, or_true, if_true, attrText, hlen, halign, padding_align4, List.append_nil,
        List.append_assoc, Attr.hdr]
    · simp only [ne_eq, not_true_eq_false, hsoft, or_self, if_false, attrText, List.append_assoc, Attr.hdr]
  | uint hdr value =>
    simp [Attr.encode, encodeUintAttr, Attr.wireValue, attrText, align4, padding, putVal32, putVal16, Attr.hdr]
  | uint64 hdr hi lo =>
    simp [Attr.encode, encodeUint64Attr, Attr.wireValue, attrText, align4, padding, putVal32, putVal16, Attr.hdr]
  | msgint hdr hmac =>
    have hlength : hdr.length = 20 := hsized
    simp [Attr.encode, encodeMsgintAttr, Attr.wireValue, attrText, align4, padding, hlength, Attr.hdr]
  | errcode hdr errCode reason =>
    have hlen : (putVal16 0 ++ ([UInt8.ofInt (errCode.tdiv 100), .ofInt (errCode.tmod 100)] ++ reason)).length =
        4 + reason.length := by
      simp [putVal16]
      omega
    have halign : align4 (4 + 4 + reason.length) = align4 (4 + reason.length) + 4 := by
      rw [Nat.add_assoc, Nat.add_comm 4, align4_add]
    rw [Attr.encode, encodeErrcodeAttr, Attr.wireValue, attrText, hlen, halign, padding_add]
    simp only [List.append_assoc, Attr.hdr]
  | unknown hdr attrs =>
    have hlen : (attrs.flatMap fun a => putVal16 a.toNat).length = 2 * attrs.length := by
      simp [List.length_flatMap, putVal16, Nat.mul_comm]
    have halign : align4 (4 + 2 * attrs.length) = align4 (2 * attrs.length) + 4 := by
      rw [Nat.add_comm 4, align4_add]
    rw [Attr.encode, encodeUnknownAttr, Attr.wireValue, attrText, hlen, halign]
    simp only [memory16_htons, List.append_assoc, Attr.hdr]
  | binary hdr magic data =>
    rw [Attr.encode, encodeBinaryAttr, Attr.wireValue, align4_add]
    simp only [attrText, List.append_assoc, Attr.hdr]

end Encoding

section Decoding

variable (pad : UInt8) (type : UInt16) (rest : List UInt8)

theorem hdr_eq {hdr : AttrHdr} {n : Nat} (h : hdr.length.toNat = n) : (⟨hdr.type, .ofNat n⟩ : AttrHdr) = hdr := by
  rw [← h, UInt16.ofNat_toNat]

theorem getAttrHdr_eq {hdr : AttrHdr} {value : List UInt8} (h : hdr.length.toNat = value.length) :
    getAttrHdr (attrText pad hdr.type value ++ rest) = hdr := by
  have hlt := hdr.length.toNat_lt
  rw [getAttrHdr_attrText pad hdr.type rest (h ▸ hlt), hdr_eq h]

theorem getVal16_memory16 (front : List UInt8) (port : UInt16) :
    htons (.ofNat (getVal16 (front ++ (memory16 port ++ rest)) front.length)) = port := by
  rw [memory16_eq, getVal16_putVal16, ofNat_toNat_mod, htons_htons]

theorem read_sockaddrValue {n : Nat} (family : UInt8) (addr : Vector UInt8 n) (port : UInt16) :
    let buf := attrText pad type ([0, family] ++ (memory16 port ++ addr.toList)) ++ rest
    byteAt buf 5 = family ∧ htons (.ofNat (getVal16 buf 6)) = port ∧ copyOf n buf 8 = addr := by
  intro buf
  obtain ⟨front, hfront⟩ : ∃ front, front = putVal16 type.toNat ++
      putVal16 ([0, family] ++ (memory16 port ++ addr.toList)).length ++ [0, family] := ⟨_, rfl⟩
  obtain ⟨tail, htail⟩ : ∃ tail, tail = padding pad ([0, family] ++ (memory16 port ++ addr.toList)).length ++ rest :=
    ⟨_, rfl⟩
  have hlen : front.length = 6 := by
    rw [hfront]
    rfl
  have hport : buf = front ++ (memory16 port ++ (addr.toList ++ tail)) := by
    rw [hfront, htail]
    simp only [buf, attrText, List.append_assoc]
  have haddr : buf = (front ++ memory16 port) ++ (addr.toList ++ tail) := by rw [hport, List.append_assoc]
  refine ⟨rfl, ?_, ?_⟩
  · rw [hport, ← hlen]
    exact getVal16_memory16 _ front port
  · have height : (front ++ memory16 port).length = 8 := by
      rw [List.length_append, hlen]
      rfl
    rw [haddr, ← height]
    exact copyOf_append _ addr tail

theorem decodeSockaddrAttr_attrText (addr : Sockaddr) :
    decodeSockaddrAttr (attrText pad type (sockaddrValue addr) ++ rest) =
      .ok (⟨type, .ofNat (sockaddrValue addr).length⟩, addr) := by
  cases addr with
  | ipv4 sinAddr sinPort =>
    have hlen := length_sockaddrValue_ipv4 sinAddr sinPort
    have hhdr := getAttrHdr_attrText pad type rest (hlen ▸ (by decide : 8 < 65536))
    obtain ⟨hfamily, hport, haddr⟩ := read_sockaddrValue pad type rest 1 sinAddr sinPort
    rw [hlen] at hhdr ⊢
    simp only [sockaddrValue] at hhdr ⊢
    simp only [decodeSockaddrAttr, hhdr, hfamily, hport, haddr]
    rfl
  | ipv6 sin6Addr sin6Port =>
    have hlen := length_sockaddrValue_ipv6 sin6Addr sin6Port
    have hhdr := getAttrHdr_attrText pad type rest (hlen ▸ (by decide : 20 < 65536))
    obtain ⟨hfamily, hport, haddr⟩ := read_sockaddrValue pad type rest 2 sin6Addr sin6Port
    rw [hlen] at hhdr ⊢
    simp only [sockaddrValue] at hhdr ⊢
    simp only [decodeSockaddrAttr, hhdr, hfamily, hport, haddr]
    rfl

theorem map_getVal16 (front : List UInt8) (attrs : List UInt16) :
    ((List.range attrs.length).map fun i =>
      UInt16.ofNat (getVal16 (front ++ (attrs.flatMap (fun a => putVal16 a.toNat) ++ rest)) (front.length + 2 * i))) =
      attrs := by
  induction attrs generalizing front with
  | nil => rfl
  | cons a more ih =>
    have hstep := ih (front ++ putVal16 a.toNat)
    have hlen : (front ++ putVal16 a.toNat).length = front.length + 2 := List.length_append
    rw [List.length_cons, List.range_succ_eq_map, List.map_cons, List.map_map, List.flatMap_cons, List.append_assoc,
      Nat.mul_zero, Nat.add_zero, getVal16_putVal16, ofNat_toNat_mod]
    rw [hlen, List.append_assoc] at hstep
    refine congrArg (List.cons a) (Eq.trans ?_ hstep)
    apply List.map_congr_left
    intro i _
    show UInt16.ofNat (getVal16 _ (front.length + 2 * (i + 1))) = _
    rw [show front.length + 2 * (i + 1) = front.length + 2 + 2 * i by omega]

theorem Describes.fits {attr : Attr} {kind : Kind} (h : Describes (some kind) attr) : kind.fits attr = true := by
  cases attr <;> cases kind <;> first | rfl | exact h

theorem Describes.xorEd {hdr : AttrHdr} {xorEd : Bool} {addr : Sockaddr} {kind : Kind}
    (h : Describes (some kind) (.sockaddr hdr xorEd addr)) :
    kind = .sockaddr ∧ xorEd = false ∨ kind = .xoredSockaddr ∧ xorEd = true := by
  cases kind <;> first | exact Or.inl ⟨rfl, h⟩ | exact Or.inr ⟨rfl, h⟩ | exact absurd h.fits Bool.false_ne_true

theorem errCode_eq {errCode : Int} (hlow : 0 ≤ errCode) (hhigh : errCode < 25600) :
    (((UInt8.ofInt (errCode.tdiv 100)).toNat * 100 + (UInt8.ofInt (errCode.tmod 100)).toNat : Nat) : Int) = errCode := by
  obtain ⟨n, rfl⟩ := Int.eq_ofNat_of_zero_le hlow
  have hdiv : UInt8.ofInt ((n : Int).tdiv 100) = UInt8.ofNat (n / 100) := by
    apply UInt8.toNat_inj.mp
    rw [show (n : Int).tdiv 100 = ((n / 100 : Nat) : Int) from rfl, UInt8.ofInt, UInt8.toNat_ofNat', UInt8.toNat_ofNat']
    omega
  have hmod : UInt8.ofInt ((n : Int).tmod 100) = UInt8.ofNat (n % 100) := by
    apply UInt8.toNat_inj.mp
    rw [show (n : Int).tmod 100 = ((n % 100 : Nat) : Int) from rfl, UInt8.ofInt, UInt8.toNat_ofNat', UInt8.toNat_ofNat']
    omega
  rw [hdiv, hmod, UInt8.toNat_ofNat', UInt8.toNat_ofNat']
  omega

theorem decodeAttr_errcode (msghdr : MsgHdr) {hdr : AttrHdr} {errCode : Int} {reason : List UInt8} (hlow : 0 ≤ errCode)
    (hhigh : errCode < 25600) (hlength : hdr.length.toNat = 4 + reason.length) :
    decodeAttr .errcode (attrText pad hdr.type ((Attr.errcode hdr errCode reason).wireValue pad msghdr.tsxId) ++ rest)
      msghdr = .ok (.errcode hdr errCode reason) := by
  obtain ⟨value, hvalue⟩ : ∃ value, value = (Attr.errcode hdr errCode reason).wireValue pad msghdr.tsxId := ⟨_, rfl⟩
  have hlen : value.length = 4 + reason.length := by
    rw [hvalue, Attr.wireValue]
    simp [putVal16]
    omega
  have hread : getAttrHdr (attrText pad hdr.type value ++ rest) = hdr := getAttrHdr_eq pad rest (hlength.trans hlen.symm)
  have hclass : byteAt (attrText pad hdr.type value ++ rest) 6 = .ofInt (errCode.tdiv 100) := by
    rw [hvalue]
    rfl
  have hnumber : byteAt (attrText pad hdr.type value ++ rest) 7 = .ofInt (errCode.tmod 100) := by
    rw [hvalue]
    rfl
  have hreason : slice (attrText pad hdr.type value ++ rest) 8 reason.length = reason := by
    obtain ⟨tail, htail⟩ : ∃ tail, tail = padding pad value.length ++ rest := ⟨_, rfl⟩
    rw [attrText_append, ← htail, hvalue, Attr.wireValue]
    exact slice_append (putVal16 hdr.type.toNat ++ putVal16 _ ++
      (putVal16 0 ++ [.ofInt (errCode.tdiv 100), .ofInt (errCode.tmod 100)])) reason tail
  have hlong : ¬ hdr.length < 4 := by
    rw [UInt16.lt_iff_toNat_lt, hlength]
    exact Nat.not_lt.mpr (Nat.le_add_right 4 _)
  rw [← hvalue]
  simp only [decodeAttr, hread, hclass, hnumber, hlength, Nat.add_sub_cancel_left, hreason]
  rw [if_neg hlong, errCode_eq hlow hhigh]

theorem decodeAttr_unknown (msghdr : MsgHdr) {hdr : AttrHdr} {attrs : List UInt16} (hcount : attrs.length ≤ maxAttr)
    (hlength : hdr.length.toNat = 2 * attrs.length) :
    decodeAttr .unknown (attrText pad hdr.type ((Attr.unknown hdr attrs).wireValue pad msghdr.tsxId) ++ rest)
      msghdr = .ok (.unknown hdr attrs) := by
  obtain ⟨value, hvalue⟩ : ∃ value, value = attrs.flatMap fun a => putVal16 a.toNat := ⟨_, rfl⟩
  have hlen : value.length = 2 * attrs.length := by
    rw [hvalue]
    simp [List.length_flatMap, putVal16, Nat.mul_comm]
  have hread : getAttrHdr (attrText pad hdr.type value ++ rest) = hdr := getAttrHdr_eq pad rest (hlength.trans hlen.symm)
  have hhalf : 2 * attrs.length / 2 = attrs.length := Nat.mul_div_cancel_left _ (by decide)
  have hlist : ((List.range attrs.length).map fun i =>
      UInt16.ofNat (getVal16 (attrText pad hdr.type value ++ rest) (4 + 2 * i))) = attrs := by
    rw [attrText_append, hvalue]
    exact map_getVal16 _ (putVal16 hdr.type.toNat ++ putVal16 _) attrs
  rw [Attr.wireValue, ← hvalue]
  simp only [decodeAttr, hread, hlength, hhalf, hlist]
  rw [if_neg (Nat.not_lt.mpr hcount)]

theorem decodeAttr_sockaddr (msghdr : MsgHdr) {hdr : AttrHdr} {xorEd : Bool} {addr : Sockaddr} {kind : Kind}
    (hkind : Describes (some kind) (.sockaddr hdr xorEd addr)) (hsized : (Attr.sockaddr hdr xorEd addr).Sized) :
    decodeAttr kind (attrText pad hdr.type ((Attr.sockaddr hdr xorEd addr).wireValue pad msghdr.tsxId) ++ rest) msghdr =
      .ok (.sockaddr hdr xorEd addr) := by
  have hhdr : (⟨hdr.type, .ofNat (sockaddrValue addr).length⟩ : AttrHdr) = hdr ∧
      (⟨hdr.type, .ofNat (sockaddrValue (xorSockaddr msghdr.tsxId addr)).length⟩ : AttrHdr) = hdr := by
    cases addr with
    | ipv4 sinAddr sinPort =>
      have hlen : hdr.length = 8 := hsized
      rw [xorSockaddr, length_sockaddrValue_ipv4, length_sockaddrValue_ipv4]
      exact ⟨hdr_eq (hlen ▸ rfl), hdr_eq (hlen ▸ rfl)⟩
    | ipv6 sin6Addr sin6Port =>
      have hlen : hdr.length = 20 := hsized
      rw [xorSockaddr, length_sockaddrValue_ipv6, length_sockaddrValue_ipv6]
      exact ⟨hdr_eq (hlen ▸ rfl), hdr_eq (hlen ▸ rfl)⟩
  rcases hkind.xorEd with ⟨rfl, rfl⟩ | ⟨rfl, rfl⟩
  · have hdecode := decodeSockaddrAttr_attrText pad hdr.type rest addr
    rw [hhdr.1] at hdecode
    simp only [decodeAttr, Attr.wireValue, Bool.false_eq_true, if_false, hdecode]
    rfl
  · have hdecode := decodeSockaddrAttr_attrText pad hdr.type rest (xorSockaddr msghdr.tsxId addr)
    rw [hhdr.2] at hdecode
    simp only [decodeAttr, Attr.wireValue, if_true, hdecode, Except.map, xorSockaddr_xorSockaddr]

theorem decodeAttr_uint (msghdr : MsgHdr) {hdr : AttrHdr} (value : UInt32) (hlength : hdr.length = 4) :
    decodeAttr .uint (attrText pad hdr.type (putVal32 value.toNat) ++ rest) msghdr = .ok (.uint hdr value) := by
  have hread : getAttrHdr (attrText pad hdr.type (putVal32 value.toNat) ++ rest) = hdr :=
    getAttrHdr_eq pad rest (hlength ▸ rfl)
  have hvalue : getVal32 (attrText pad hdr.type (putVal32 value.toNat) ++ rest) 4 = value.toNat := by
    rw [attrText_append]
    exact getVal32_putVal32 (putVal16 hdr.type.toNat ++ putVal16 4) _ value.toNat_lt
  simp only [decodeAttr, hread, hvalue, UInt32.ofNat_toNat]
  rw [if_neg (not_not.mpr hlength)]

theorem decodeAttr_uint64 (msghdr : MsgHdr) {hdr : AttrHdr} (hi lo : UInt32) (hlength : hdr.length = 8) :
    decodeAttr .uint64 (attrText pad hdr.type (putVal32 hi.toNat ++ putVal32 lo.toNat) ++ rest) msghdr =
      .ok (.uint64 hdr hi lo) := by
  have hread : getAttrHdr (attrText pad hdr.type (putVal32 hi.toNat ++ putVal32 lo.toNat) ++ rest) = hdr :=
    getAttrHdr_eq pad rest (hlength ▸ rfl)
  have hhi : getVal32 (attrText pad hdr.type (putVal32 hi.toNat ++ putVal32 lo.toNat) ++ rest) 4 = hi.toNat := by
    rw [attrText_append, List.append_assoc (putVal32 hi.toNat)]
    exact getVal32_putVal32 (putVal16 hdr.type.toNat ++ putVal16 8) _ hi.toNat_lt
  have hlo : getVal32 (attrText pad hdr.type (putVal32 hi.toNat ++ putVal32 lo.toNat) ++ rest) 8 = lo.toNat := by
    rw [attrText_append, List.append_assoc (putVal32 hi.toNat), ← List.append_assoc _ (putVal32 hi.toNat)]
    exact getVal32_putVal32 (putVal16 hdr.type.toNat ++ putVal16 8 ++ putVal32 hi.toNat) _ lo.toNat_lt
  simp only [decodeAttr, hread, hhi, hlo, UInt32.ofNat_toNat]
  rw [if_neg (not_not.mpr hlength)]

theorem decodeAttr_msgint (msghdr : MsgHdr) {hdr : AttrHdr} (hmac : Vector UInt8 20) (hlength : hdr.length = 20) :
    decodeAttr .msgint (attrText pad hdr.type hmac.toList ++ rest) msghdr = .ok (.msgint hdr hmac) := by
  have hread : getAttrHdr (attrText pad hdr.type hmac.toList ++ rest) = hdr :=
    getAttrHdr_eq pad rest (by rw [hlength, Vector.length_toList]; rfl)
  have hcopy : copyOf 20 (attrText pad hdr.type hmac.toList ++ rest) 4 = hmac := by
    rw [attrText_append]
    exact copyOf_append (putVal16 hdr.type.toNat ++ putVal16 hmac.toList.length) hmac _
  simp only [decodeAttr, hread, hcopy]
  rw [if_neg (not_not.mpr hlength)]

theorem decodeAttr_string (msghdr : MsgHdr) {hdr : AttrHdr} {value : List UInt8} (hsized : hdr.length.toNat = value.length)
    (hvalue : ((Attr.string hdr value).wireValue pad msghdr.tsxId).length < 65536) :
    decodeAttr .string (attrText pad hdr.type ((Attr.string hdr value).wireValue pad msghdr.tsxId) ++ rest) msghdr =
      .ok ((Attr.string hdr value).received pad) := by
  have hread := getAttrHdr_attrText pad hdr.type rest hvalue
  have hslice := @slice_value pad hdr.type ((Attr.string hdr value).wireValue pad msghdr.tsxId) rest
  simp only [decodeAttr, hread, UInt16.toNat_ofNat_of_lt' hvalue, hslice]
  simp only [Attr.wireValue, Attr.received]
  by_cases hsoft : hdr.type = attrSoftware
  · rw [if_pos hsoft, if_pos hsoft, List.length_append, length_padding]
  · rw [if_neg hsoft, if_neg hsoft, hdr_eq hsized]

/-- What was encoded is decoded by the function of the table. -/
theorem decodeAttr_attrText {attr : Attr} {kind : Kind} (msghdr : MsgHdr)
    (hdesc : findAttrDesc attr.hdr.type.toNat = some kind) (hkind : Describes (some kind) attr) (hsized : attr.Sized)
    (hvalue : (attr.wireValue pad msghdr.tsxId).length < 65536) :
    decodeAttr kind (attrText pad attr.hdr.type (attr.wireValue pad msghdr.tsxId) ++ rest) msghdr =
      .ok (attr.received pad) := by
  have hfits := hkind.fits
  cases attr with
  | sockaddr hdr xorEd addr => exact decodeAttr_sockaddr pad rest msghdr hkind hsized
  | empty hdr =>
    obtain rfl : kind = .empty := by cases kind <;> first | rfl | cases hfits
    have hlength : hdr.length = 0 := hsized
    have hread : getAttrHdr (attrText pad hdr.type [] ++ rest) = hdr := getAttrHdr_eq pad rest (hlength ▸ rfl)
    simp only [decodeAttr, Attr.wireValue, Attr.hdr, hread]
    rw [if_neg (not_not.mpr hlength)]
    rfl
  | string hdr value =>
    obtain rfl : kind = .string := by cases kind <;> first | rfl | cases hfits
    exact decodeAttr_string pad rest msghdr hsized hvalue
  | uint hdr value =>
    obtain rfl : kind = .uint := by cases kind <;> first | rfl | cases hfits
    exact decodeAttr_uint pad rest msghdr value hsized
  | uint64 hdr hi lo =>
    obtain rfl : kind = .uint64 := by cases kind <;> first | rfl | cases hfits
    exact decodeAttr_uint64 pad rest msghdr hi lo hsized
  | msgint hdr hmac =>
    obtain rfl : kind = .msgint := by cases kind <;> first | rfl | cases hfits
    exact decodeAttr_msgint pad rest msghdr hmac hsized
  | errcode hdr errCode reason =>
    obtain rfl : kind = .errcode := by cases kind <;> first | rfl | cases hfits
    obtain ⟨hlow, hhigh, hlength⟩ := hsized
    exact decodeAttr_errcode pad rest msghdr hlow hhigh hlength
  | unknown hdr attrs =>
    obtain rfl : kind = .unknown := by cases kind <;> first | rfl | cases hfits
    obtain ⟨hcount, hlength⟩ := hsized
    exact decodeAttr_unknown pad rest msghdr hcount hlength
  | binary hdr magic data =>
    obtain rfl : kind = .binary := by cases kind <;> first | rfl | cases hfits
    have hknown : (findAttrDesc hdr.type.toNat).isSome = true := by
      rw [show findAttrDesc hdr.type.toNat = some .binary from hdesc]
      rfl
    have hlength : hdr.length.toNat = data.length := hsized
    have hread : getAttrHdr (attrText pad hdr.type data ++ rest) = hdr := getAttrHdr_eq pad rest hlength
    simp only [decodeAttr, Attr.wireValue, Attr.hdr, hread, hlength, slice_value]
    rw [Attr.received, if_pos hknown]

end Decoding

/-! For messages on fixed inputs. -/

def sampleTsxId : Vector UInt8 12 := #v[1, 2, 3, 4, 5, 6, 7, 8, 9, 10, 11, 12]

def sampleAddress : Vector UInt8 4 := #v[192, 0, 2, 1]

end PjProject.Stun
