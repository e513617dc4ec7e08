import PjProject.Sockaddr

/-! STUN messages (`stun_msg.c`): the attributes of the descriptor tables, each with its encoder and decoder, and the
encoder and the decoder of a message. The HMAC and the checksum are parameters. -/

namespace PjProject.Stun

open Sock (Sockaddr htons)

/-- The status codes; `mistyped` is no code of the source, where one structure would be read as another, and
`outOfFuel` stands for a loop that does not end. -/
inductive Status
  | einval
  | etoosmall
  | etoomany
  | einvalidop
  | ebug
  | einvaf
  | einstunmsglen
  | einstunmsgtype
  | estuninattrlen
  | estunfingerprint
  | estunfingerpos
  | estunmsgintpos
  | estundupattr
  | estuntoomanyattr
  | unknownAttribute
  | mistyped
  | outOfFuel
  deriving DecidableEq, Repr

/-- `PJ_STUN_MAGIC`, `PJ_STUN_MAX_ATTR` and `STUN_XOR_FINGERPRINT`. -/
def stunMagic : UInt32 := 0x2112A442
def maxAttr : Nat := 16
def xorFingerprint : UInt32 := 0x5354554E

/-- The types of `PJ_STUN_ATTR_MESSAGE_INTEGRITY`, `_SOFTWARE` and `_FINGERPRINT`, and the ends of the tables. -/
def attrMessageIntegrity : UInt16 := 0x0008
def attrSoftware : UInt16 := 0x8022
def attrFingerprint : UInt16 := 0x8028
def attrEndMandatoryAttr : Nat := 0x0031
def attrStartExtendedAttr : Nat := 0x8021
def attrEndExtendedAttr : Nat := 0x802B

/-- `PJ_STUN_IS_DATAGRAM`, `PJ_STUN_CHECK_PACKET` and `PJ_STUN_NO_FINGERPRINT_CHECK`. -/
def isDatagram : Nat := 1
def checkPacket : Nat := 2
def noFingerprintCheck : Nat := 8

def getVal16 (buf : List UInt8) (pos : Nat) : Nat := (byteAt buf pos).toNat * 256 + (byteAt buf (pos + 1)).toNat

def putVal16 (hval : Nat) : List UInt8 := [.ofNat (hval / 256), .ofNat hval]

def getVal32 (buf : List UInt8) (pos : Nat) : Nat := getVal16 buf pos * 0x10000 + getVal16 buf (pos + 2)

def putVal32 (hval : Nat) : List UInt8 := putVal16 (hval / 0x10000) ++ putVal16 hval

/-- `n` bytes that are copied from an offset of the buffer. -/
def copyOf (n : Nat) (buf : List UInt8) (pos : Nat) : Vector UInt8 n := .ofFn fun i => byteAt buf (pos + i)

/-- A 16-bit number as it lies in the memory of a little-endian target. -/
def memory16 (n : UInt16) : List UInt8 := [.ofNat n.toNat, .ofNat (n.toNat / 256)]

/-- `(n + 3) & (~3)`. -/
def align4 (n : Nat) : Nat := (n + 3) / 4 * 4

/-- The padding behind `n` bytes. -/
def padding (pad : UInt8) (n : Nat) : List UInt8 := if n % 4 ≠ 0 then List.replicate (4 - n % 4) pad else []

/-- `pj_stun_msg_hdr`. -/
structure MsgHdr where
  type : UInt16
  length : UInt16
  magic : UInt32
  tsxId : Vector UInt8 12
  deriving DecidableEq, Repr

/-- `pj_stun_attr_hdr`. -/
structure AttrHdr where
  type : UInt16
  length : UInt16
  deriving DecidableEq, Repr

inductive Attr
  | sockaddr (hdr : AttrHdr) (xorEd : Bool) (sockaddr : Sockaddr)
  | empty (hdr : AttrHdr)
  | string (hdr : AttrHdr) (value : List UInt8)
  | uint (hdr : AttrHdr) (value : UInt32)
  | uint64 (hdr : AttrHdr) (hi lo : UInt32)
  | msgint (hdr : AttrHdr) (hmac : Vector UInt8 20)
  | errcode (hdr : AttrHdr) (errCode : Int) (reason : List UInt8)
  | unknown (hdr : AttrHdr) (attrs : List UInt16)
  | binary (hdr : AttrHdr) (magic : UInt32) (data : List UInt8)
  deriving DecidableEq, Repr

def Attr.hdr : Attr → AttrHdr
  | .sockaddr hdr _ _ | .empty hdr | .string hdr _ | .uint hdr _ | .uint64 hdr _ _ | .msgint hdr _
  | .errcode hdr _ _ | .unknown hdr _ | .binary hdr _ _ => hdr

/-- `pj_stun_msg`. -/
structure Msg where
  hdr : MsgHdr
  attrs : List Attr
  deriving DecidableEq, Repr

/-- The pairs of functions in the tables. -/
inductive Kind
  | sockaddr
  | xoredSockaddr
  | string
  | empty
  | uint
  | uint64
  | msgint
  | errcode
  | unknown
  | binary
  deriving DecidableEq, Repr

/-- `mandatory_attr_desc`, from type 0 on. -/
def mandatoryAttrDesc : List (Option Kind) :=
  [none, some .sockaddr, some .sockaddr, some .uint, some .sockaddr, some .sockaddr, some .string, some .string,
    some .msgint, some .errcode, some .unknown, some .sockaddr, some .uint, some .uint, none, some .uint,
    some .uint, none, some .xoredSockaddr, some .binary, some .string, some .string, some .xoredSockaddr, some .uint,
    some .uint, some .uint, some .empty, none, none, none, none, none,
    some .xoredSockaddr, some .uint, some .uint64, some .xoredSockaddr, some .uint, some .empty, none, none,
    none, none, some .uint, none, none, none, none, none,
    some .uint, none]

/-- `extended_attr_desc`, from type 0x8021 on. -/
def extendedAttrDesc : List (Option Kind) :=
  [none, some .string, some .sockaddr, some .uint, none, none, none, some .uint, some .uint64, some .uint64]

/-- `find_attr_desc`. -/
def findAttrDesc (attrType : Nat) : Option Kind :=
  if attrType < attrEndMandatoryAttr then mandatoryAttrDesc.getD attrType none
  else if attrStartExtendedAttr ≤ attrType ∧ attrType < attrEndExtendedAttr then
    extendedAttrDesc.getD (attrType - attrStartExtendedAttr) none
  else none

/-- The functions of pjlib-util. -/
structure Digest where
  hmacSha1 : List UInt8 → List UInt8 → Vector UInt8 20
  crc32 : List UInt8 → UInt32

/-! The attributes. -/

/-- `pj_htonl(PJ_STUN_MAGIC)`, in the memory. -/
def magicBytes : Vector UInt8 4 := #v[0x21, 0x12, 0xA4, 0x42]

def xorWith {n : Nat} (mask bytes : Vector UInt8 n) : Vector UInt8 n := bytes.zipWith (· ^^^ ·) mask

/-- The address with the magic, and for IPv6 also the transaction id, added to it or taken out of it. -/
def xorSockaddr (tsxId : Vector UInt8 12) : Sockaddr → Sockaddr
  | .ipv4 sinAddr sinPort => .ipv4 (xorWith magicBytes sinAddr) (sinPort ^^^ htons 0x2112)
  | .ipv6 sin6Addr sin6Port => .ipv6 (xorWith (magicBytes ++ tsxId) sin6Addr) (sin6Port ^^^ htons 0x2112)

/-- `GETATTRHDR`. -/
def getAttrHdr (buf : List UInt8) : AttrHdr := ⟨.ofNat (getVal16 buf 0), .ofNat (getVal16 buf 2)⟩

/-- `decode_sockaddr_attr`. -/
def decodeSockaddrAttr (buf : List UInt8) : Except Status (AttrHdr × Sockaddr) :=
  let hdr := getAttrHdr buf
  if hdr.length ≠ 8 ∧ hdr.length ≠ 20 then .error .estuninattrlen
  else
    let val := byteAt buf 5
    if val = 1 then
      if hdr.length ≠ 8 then .error .estuninattrlen
      else .ok (hdr, .ipv4 (copyOf 4 buf 8) (htons (.ofNat (getVal16 buf 6))))
    else if val = 2 then
      if hdr.length ≠ 20 then .error .estuninattrlen
      else .ok (hdr, .ipv6 (copyOf 16 buf 8) (htons (.ofNat (getVal16 buf 6))))
    else .error .einvaf

/-- `encode_sockaddr_attr`. -/
def encodeSockaddrAttr (hdr : AttrHdr) (xorEd : Bool) (sockaddr : Sockaddr) (len : Nat) (msghdr : MsgHdr) :
    Except Status (List UInt8) :=
  match if xorEd then xorSockaddr msghdr.tsxId sockaddr else sockaddr with
  | .ipv4 sinAddr sinPort =>
    if len < 12 then .error .etoosmall
    else .ok (putVal16 hdr.type.toNat ++ putVal16 8 ++ [0, 1] ++ memory16 sinPort ++ sinAddr.toList)
  | .ipv6 sin6Addr sin6Port =>
    if len < 24 then .error .etoosmall
    else .ok (putVal16 hdr.type.toNat ++ putVal16 20 ++ [0, 2] ++ memory16 sin6Port ++ sin6Addr.toList)

/-- `encode_string_attr`. The length of SOFTWARE includes the padding, for legacy servers. -/
def encodeStringAttr (pad : UInt8) (hdr : AttrHdr) (value : List UInt8) (len : Nat) (msghdr : MsgHdr) :
    Except Status (List UInt8) :=
  if len < align4 (value.length + 4) then .error .etoosmall
  else
    let length := if msghdr.magic ≠ stunMagic ∨ hdr.type = attrSoftware then align4 value.length else value.length
    .ok (putVal16 hdr.type.toNat ++ putVal16 length ++ value ++ padding pad value.length)

/-- `encode_empty_attr`. -/
def encodeEmptyAttr (hdr : AttrHdr) (len : Nat) : Except Status (List UInt8) :=
  if len < 4 then .error .etoosmall else .ok (putVal16 hdr.type.toNat ++ putVal16 0)

/-- `encode_uint_attr`. -/
def encodeUintAttr (hdr : AttrHdr) (value : UInt32) (len : Nat) : Except Status (List UInt8) :=
  if len < 8 then .error .etoosmall else .ok (putVal16 hdr.type.toNat ++ putVal16 4 ++ putVal32 value.toNat)

/-- `encode_uint64_attr`. -/
def encodeUint64Attr (hdr : AttrHdr) (hi lo : UInt32) (len : Nat) : Except Status (List UInt8) :=
  if len < 12 then .error .etoosmall
  else .ok (putVal16 hdr.type.toNat ++ putVal16 8 ++ putVal32 hi.toNat ++ putVal32 lo.toNat)

/-- `encode_msgint_attr`. -/
def encodeMsgintAttr (hdr : AttrHdr) (hmac : Vector UInt8 20) (len : Nat) : Except Status (List UInt8) :=
  if len < 24 then .error .etoosmall
  else .ok (putVal16 hdr.type.toNat ++ putVal16 hdr.length.toNat ++ hmac.toList)

/-- `encode_errcode_attr`. -/
def encodeErrcodeAttr (pad : UInt8) (hdr : AttrHdr) (errCode : Int) (reason : List UInt8) (len : Nat) :
    Except Status (List UInt8) :=
  if len < align4 (4 + 4 + reason.length) then .error .etoosmall
  else
    .ok (putVal16 hdr.type.toNat ++ putVal16 (4 + reason.length) ++ putVal16 0 ++
      [.ofInt (errCode.tdiv 100), .ofInt (errCode.tmod 100)] ++ reason ++ padding pad reason.length)

/-- `encode_unknown_attr`. -/
def encodeUnknownAttr (pad : UInt8) (hdr : AttrHdr) (attrs : List UInt16) (len : Nat) : Except Status (List UInt8) :=
  if len < align4 (4 + 2 * attrs.length) then .error .etoosmall
  else
    .ok (putVal16 hdr.type.toNat ++ putVal16 (2 * attrs.length) ++ attrs.flatMap (fun a => memory16 (htons a)) ++
      padding pad (2 * attrs.length))

/-- `encode_binary_attr`. -/
def encodeBinaryAttr (pad : UInt8) (hdr : AttrHdr) (data : List UInt8) (len : Nat) : Except Status (List UInt8) :=
  if len < align4 (data.length + 4) then .error .etoosmall
  else .ok (putVal16 hdr.type.toNat ++ putVal16 data.length ++ data ++ padding pad data.length)

/-- The function of the table for the structure of the attribute. -/
def Attr.encode (pad : UInt8) (msghdr : MsgHdr) (len : Nat) : Attr → Except Status (List UInt8)
  | .sockaddr hdr xorEd addr => encodeSockaddrAttr hdr xorEd addr len msghdr
  | .empty hdr => encodeEmptyAttr hdr len
  | .string hdr value => encodeStringAttr pad hdr value len msghdr
  | .uint hdr value => encodeUintAttr hdr value len
  | .uint64 hdr hi lo => encodeUint64Attr hdr hi lo len
  | .msgint hdr hmac => encodeMsgintAttr hdr hmac len
  | .errcode hdr errCode reason => encodeErrcodeAttr pad hdr errCode reason len
  | .unknown hdr attrs => encodeUnknownAttr pad hdr attrs len
  | .binary hdr _ data => encodeBinaryAttr pad hdr data len

/-- The structure that the functions of the table are made for. -/
def Kind.fits : Kind → Attr → Bool
  | .sockaddr, .sockaddr _ _ _ | .xoredSockaddr, .sockaddr _ _ _ | .string, .string _ _ | .empty, .empty _
  | .uint, .uint _ _ | .uint64, .uint64 _ _ _ | .msgint, .msgint _ _ | .errcode, .errcode _ _ _
  | .unknown, .unknown _ _ | .binary, .binary _ _ _ => true
  | _, _ => false

/-- The functions of the table for decoding. The signature of a binary attribute is not set here. -/
def decodeAttr (kind : Kind) (buf : List UInt8) (msghdr : MsgHdr) : Except Status Attr :=
  let hdr := getAttrHdr buf
  let length := hdr.length.toNat
  match kind with
  | .sockaddr => (decodeSockaddrAttr buf).map fun (hdr, sockaddr) => .sockaddr hdr false sockaddr
  | .xoredSockaddr =>
    (decodeSockaddrAttr buf).map fun (hdr, sockaddr) => .sockaddr hdr true (xorSockaddr msghdr.tsxId sockaddr)
  | .string => .ok (.string hdr (slice buf 4 length))
  | .empty => if hdr.length ≠ 0 then .error .estuninattrlen else .ok (.empty hdr)
  | .uint => if hdr.length ≠ 4 then .error .estuninattrlen else .ok (.uint hdr (.ofNat (getVal32 buf 4)))
  | .uint64 =>
    if hdr.length ≠ 8 then .error .estuninattrlen
    else .ok (.uint64 hdr (.ofNat (getVal32 buf 4)) (.ofNat (getVal32 buf 8)))
  | .msgint => if hdr.length ≠ 20 then .error .estuninattrlen else .ok (.msgint hdr (copyOf 20 buf 4))
  | .errcode =>
    if hdr.length < 4 then .error .estuninattrlen
    else
      .ok (.errcode hdr ((byteAt buf 6).toNat * 100 + (byteAt buf 7).toNat : Nat) (slice buf 8 (length - 4)))
  | .unknown =>
    if maxAttr < length / 2 then .error .etoomany
    else .ok (.unknown hdr ((List.range (length / 2)).map fun i => .ofNat (getVal16 buf (4 + 2 * i))))
  | .binary => .ok (.binary hdr 0 (slice buf 4 length))

/-! The message. -/

/-- The header in network byte order, with the length that was put in. -/
def MsgHdr.bytes (hdr : MsgHdr) (length : Nat) : List UInt8 :=
  putVal16 hdr.type.toNat ++ putVal16 length ++ putVal32 hdr.magic.toNat ++ hdr.tsxId.toList

/-- One attribute of `pj_stun_msg_encode`. -/
def encodeAttr (pad : UInt8) (msghdr : MsgHdr) (attr : Attr) (len : Nat) : Except Status (List UInt8) :=
  match findAttrDesc attr.hdr.type.toNat with
  | some kind => if kind.fits attr then attr.encode pad msghdr len else .error .mistyped
  | none =>
    match attr with
    | .binary hdr magic data => if magic ≠ stunMagic then .error .ebug else encodeBinaryAttr pad hdr data len
    | _ => .error .mistyped

def Attr.isCalculated (attr : Attr) : Bool :=
  attr.hdr.type = attrMessageIntegrity || attr.hdr.type = attrFingerprint

/-- The first loop of `pj_stun_msg_encode`, with what is left from MESSAGE-INTEGRITY or FINGERPRINT on. -/
def encodeLoop (pad : UInt8) (msghdr : MsgHdr) : List Attr → Nat → Except Status (List UInt8 × List Attr)
  | [], _ => .ok ([], [])
  | attr :: more, size =>
    if attr.isCalculated then .ok ([], attr :: more)
    else
      (encodeAttr pad msghdr attr size).bind fun bytes =>
        (encodeLoop pad msghdr more (size - bytes.length)).map fun (rest, left) => (bytes ++ rest, left)

/-- The second loop: what comes behind MESSAGE-INTEGRITY is looked through for FINGERPRINT. -/
def scanRest : List Attr → Option Attr → Option Attr → Except Status (Option Attr × Option Attr)
  | [], amsgint, afingerprint => .ok (amsgint, afingerprint)
  | attr :: more, amsgint, afingerprint =>
    if afingerprint.isSome then .error .estunfingerpos
    else if attr.hdr.type = attrMessageIntegrity then
      if amsgint.isSome then .error .estunmsgintpos else scanRest more (some attr) afingerprint
    else if attr.hdr.type = attrFingerprint then scanRest more amsgint (some attr)
    else scanRest more amsgint afingerprint

def scan : List Attr → Except Status (Option Attr × Option Attr)
  | [] => .ok (none, none)
  | attr :: more =>
    if attr.hdr.type = attrMessageIntegrity then scanRest more (some attr) none else scanRest more none (some attr)

/-- What an encoder has put together so far: the length in the header, the attributes, and what was calculated. -/
structure Encoded where
  length : Nat
  body : List UInt8
  hmac : Option (Vector UInt8 20)
  fingerprint : Option UInt32

/-- MESSAGE-INTEGRITY, over a header that has its length counted in. The checks of its position that follow in the
source never fire: the second loop has left its index at the end. -/
def addMsgint (digest : Digest) (msghdr : MsgHdr) (key : Option (List UInt8)) (amsgint : Option Attr)
    (body : List UInt8) (size : Nat) : Except Status Encoded :=
  match amsgint with
  | none => .ok ⟨body.length, body, none, none⟩
  | some attr =>
    match key with
    | none => .error .einvalidop
    | some key =>
      let hmac := digest.hmacSha1 key (msghdr.bytes (body.length + 24) ++ body)
      (encodeMsgintAttr attr.hdr hmac (size - body.length)).map fun bytes =>
        ⟨body.length + 24, body ++ bytes, some hmac, none⟩

/-- FINGERPRINT, over a header that has its length counted in. -/
def addFingerprint (digest : Digest) (msghdr : MsgHdr) (afingerprint : Option Attr) (e : Encoded) (size : Nat) :
    Except Status Encoded :=
  match afingerprint with
  | none => .ok e
  | some attr =>
    let value := digest.crc32 (msghdr.bytes (e.length + 8) ++ e.body) ^^^ xorFingerprint
    (encodeUintAttr attr.hdr value (size - e.body.length)).map fun bytes =>
      { e with length := e.length + 8, body := e.body ++ bytes, fingerprint := some value }

def Attr.fill (e : Encoded) : Attr → Attr
  | .msgint hdr hmac => .msgint hdr (if hdr.type = attrMessageIntegrity then e.hmac.getD hmac else hmac)
  | .uint hdr value => .uint hdr (if hdr.type = attrFingerprint then e.fingerprint.getD value else value)
  | attr => attr

/-- `pj_stun_msg_encode`: the message as it is afterwards, and what is in the buffer. -/
def encode (pad : UInt8) (digest : Digest) (msg : Msg) (bufSize options : Nat) (key : Option (List UInt8)) :
    Except Status (Msg × List UInt8) :=
  if bufSize = 0 ∨ options ≠ 0 then .error .einval
  else if bufSize < 20 then .error .etoosmall
  else
    (encodeLoop pad msg.hdr msg.attrs (bufSize - 20)).bind fun (body, left) =>
      (scan left).bind fun (amsgint, afingerprint) =>
        (addMsgint digest msg.hdr key amsgint body (bufSize - 20)).bind fun e =>
          (addFingerprint digest msg.hdr afingerprint e (bufSize - 20)).map fun e =>
            (⟨{ msg.hdr with length := .ofNat e.body.length }, msg.attrs.map (Attr.fill e)⟩,
              msg.hdr.bytes e.length ++ e.body)

/-- `pj_stun_msg_check`. -/
def msgCheck (digest : Digest) (pdu : List UInt8) (options : Nat) : Except Status Unit :=
  let msgLen := getVal16 pdu 2
  if pdu.length < 20 then .error .einstunmsglen
  else if byteAt pdu 0 ≠ 0 ∧ byteAt pdu 0 ≠ 1 then .error .einstunmsgtype
  else if pdu.length < msgLen + 20 ∨ options &&& isDatagram ≠ 0 ∧ msgLen + 20 ≠ pdu.length then .error .einstunmsglen
  else if msgLen % 4 ≠ 0 then .error .einstunmsglen
  else if getVal32 pdu 4 = stunMagic.toNat ∧ options &&& noFingerprintCheck = 0 ∧
      getVal16 pdu (msgLen + 12) = attrFingerprint.toNat then
    if getVal16 pdu (msgLen + 14) ≠ 4 then .error .estuninattrlen
    else if (digest.crc32 (pdu.take (msgLen + 12)) ^^^ xorFingerprint).toNat ≠ getVal32 pdu (msgLen + 16) then
      .error .estunfingerprint
    else .ok ()
  else .ok ()

/-- The state of the loop over the attributes. -/
structure Parsing where
  attrs : List Attr
  hasMsgInt : Bool
  hasFingerprint : Bool

/-- The rules for the order of MESSAGE-INTEGRITY and FINGERPRINT. -/
def Parsing.note (p : Parsing) (attrType : Nat) : Except Status Parsing :=
  if attrType = attrMessageIntegrity.toNat ∧ p.hasFingerprint = false then
    if p.hasMsgInt then .error .estundupattr else .ok { p with hasMsgInt := true }
  else if attrType = attrFingerprint.toNat then
    if p.hasFingerprint then .error .estundupattr else .ok { p with hasFingerprint := true }
  else if p.hasFingerprint then .error .estunfingerpos
  else .ok p

def Parsing.add (p : Parsing) (attr : Attr) : Except Status Parsing :=
  if maxAttr ≤ p.attrs.length then .error .estuntoomanyattr else .ok { p with attrs := p.attrs ++ [attr] }

/-- One attribute of `pj_stun_msg_decode`. -/
def decodeTurn (msghdr : MsgHdr) (p : Parsing) (pdu : List UInt8) : Except Status Parsing :=
  let attrType := getVal16 pdu 0
  if pdu.length < align4 (getVal16 pdu 2) + 4 then .error .estuninattrlen
  else
    match findAttrDesc attrType with
    | none =>
      if attrType ≤ 0x7FFF then .error .unknownAttribute
      else
        p.add (.binary ⟨.ofNat attrType, .ofNat (getVal16 pdu 2)⟩ stunMagic (slice pdu 4 (getVal16 pdu 2)))
    | some kind =>
      (decodeAttr kind pdu msghdr).bind fun attr => (p.note attrType).bind fun p => p.add attr

/-- The loop over the attributes, up to what is too short for one. -/
def decodeLoop (msghdr : MsgHdr) : Nat → Parsing → List UInt8 → Except Status (Parsing × List UInt8)
  | 0, _, _ => .error .outOfFuel
  | n + 1, p, pdu =>
    if pdu.length < 4 then .ok (p, pdu)
    else
      (decodeTurn msghdr p pdu).bind fun p => decodeLoop msghdr n p (pdu.drop (align4 (getVal16 pdu 2) + 4))

/-- `pj_stun_msg_decode`, with no response wanted: the message and the length that was parsed. -/
def decode (digest : Digest) (pdu : List UInt8) (options : Nat) : Except Status (Msg × Nat) :=
  if pdu = [] then .error .einval
  else
    let checked :=
      if options &&& checkPacket ≠ 0 then msgCheck digest pdu options
      else
        let msgLen := getVal16 pdu 2 + 20
        if pdu.length < msgLen ∨ options &&& isDatagram ≠ 0 ∧ msgLen ≠ pdu.length then .error .einstunmsglen
        else .ok ()
    checked.bind fun _ =>
      let hdr : MsgHdr :=
        ⟨.ofNat (getVal16 pdu 0), .ofNat (getVal16 pdu 2), .ofNat (getVal32 pdu 4), copyOf 12 pdu 8⟩
      let body := slice pdu 20 hdr.length.toNat
      (decodeLoop hdr (body.length + 1) ⟨[], false, false⟩ body).bind fun (p, rest) =>
        if rest ≠ [] then .error .einstunmsglen else .ok (⟨hdr, p.attrs⟩, 20 + (body.length - rest.length))

end PjProject.Stun
