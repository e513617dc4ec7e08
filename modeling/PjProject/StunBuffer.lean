import PjProject.StunKept

/-! What `pj_stun_msg_encode` writes to its buffer, also when it fails. The encoders check the room before they write,
with the exception of the one for socket addresses, which has already written the type. -/

namespace PjProject.Stun

open Sock (Sockaddr)

section

variable (pad : UInt8) (msghdr : MsgHdr)

def written : Except Status (List UInt8) → List UInt8
  | .ok bytes => bytes
  | .error _ => []

/-- What `encode_sockaddr_attr` writes. -/
def sockaddrWrites (hdr : AttrHdr) (xorEd : Bool) (sockaddr : Sockaddr) (len : Nat) : List UInt8 :=
  putVal16 hdr.type.toNat ++ (written (encodeSockaddrAttr hdr xorEd sockaddr len msghdr)).drop 2

/-- What the function of the table writes, from the start of the attribute on. -/
def Attr.writes (len : Nat) : Attr → List UInt8
  | .sockaddr hdr xorEd addr => sockaddrWrites msghdr hdr xorEd addr len
  | attr => written (attr.encode pad msghdr len)

def attrWrites (attr : Attr) (len : Nat) : List UInt8 :=
  if attr.sendable then attr.writes pad msghdr len else []

/-- What the first loop of `pj_stun_msg_encode` writes. -/
def loopWrites : List Attr → Nat → List UInt8
  | [], _ => []
  | attr :: more, size =>
    if attr.isCalculated then []
    else
      attrWrites pad msghdr attr size ++
        match encodeAttr pad msghdr attr size with
        | .ok bytes => loopWrites more (size - bytes.length)
        | .error _ => []

end

/-- What `pj_stun_msg_encode` writes, from the start of the buffer on. The length in the header is put in later. -/
def encodeWrites (pad : UInt8) (digest : Digest) (msg : Msg) (bufSize options : Nat) (key : Option (List UInt8)) :
    List UInt8 :=
  if bufSize = 0 ∨ options ≠ 0 ∨ bufSize < 20 then []
  else
    msg.hdr.bytes 0 ++ (loopWrites pad msg.hdr msg.attrs (bufSize - 20) ++
      match encodeLoop pad msg.hdr msg.attrs (bufSize - 20) with
      | .error _ => []
      | .ok (body, left) =>
        match scan left with
        | .error _ => []
        | .ok (amsgint, afingerprint) =>
          match addMsgint digest msg.hdr key amsgint body (bufSize - 20) with
          | .error _ => []
          | .ok e =>
            e.body.drop body.length ++
              match addFingerprint digest msg.hdr afingerprint e (bufSize - 20) with
              | .error _ => []
              | .ok next => next.body.drop e.body.length)

def Attr.isSockaddr : Attr → Bool
  | .sockaddr _ _ _ => true
  | _ => false

/-- Wherever the loop comes to a socket address, with what is in front of it written, two bytes are left. -/
def RoomForTypes : List Attr → Nat → Prop
  | [], _ => True
  | attr :: more, size =>
    attr.isCalculated = false → attr.sendable = true →
      (attr.isSockaddr = true → 2 ≤ size) ∧
        (attr.encodedSize ≤ size → RoomForTypes more (size - attr.encodedSize))

section

variable {pad : UInt8} {msghdr : MsgHdr}

/-- A socket address takes two bytes that are not there when fewer are left; another attribute takes none. -/
theorem length_writes_of_lt {attr : Attr} {len : Nat} (h : len < attr.encodedSize) :
    (attr.writes pad msghdr len).length = if attr.isSockaddr then 2 else 0 := by
  obtain ⟨bytes, -, hencode⟩ := exists_encode pad msghdr attr
  have herror := hencode len
  rw [if_pos h] at herror
  cases attr with
  | sockaddr hdr xorEd addr =>
    have hsockaddr : encodeSockaddrAttr hdr xorEd addr len msghdr = .error .etoosmall := herror
    simp only [Attr.writes, sockaddrWrites, hsockaddr, written, List.drop_nil, List.append_nil]
    rfl
  | empty _ | string _ _ | uint _ _ | uint64 _ _ _ | msgint _ _ | errcode _ _ _ | unknown _ _ | binary _ _ _ =>
    simp only [Attr.writes, herror, written]
    rfl

theorem writes_of_ok {attr : Attr} {len : Nat} {bytes : List UInt8} (h : attr.encode pad msghdr len = .ok bytes) :
    attr.writes pad msghdr len = bytes := by
  cases attr with
  | sockaddr hdr xorEd addr =>
    have hsockaddr : encodeSockaddrAttr hdr xorEd addr len msghdr = .ok bytes := h
    rw [Attr.writes, sockaddrWrites, hsockaddr]
    unfold encodeSockaddrAttr at hsockaddr
    split at hsockaddr <;> split at hsockaddr
    · cases hsockaddr
    · cases hsockaddr
      rfl
    · cases hsockaddr
    · cases hsockaddr
      rfl
  | empty _ | string _ _ | uint _ _ | uint64 _ _ _ | msgint _ _ | errcode _ _ _ | unknown _ _ | binary _ _ _ =>
    rw [Attr.writes, h]
    · rfl
    · exact nofun

theorem length_writes_of_le {attr : Attr} {len : Nat} (h : attr.encodedSize ≤ len) :
    (attr.writes pad msghdr len).length = attr.encodedSize := by
  obtain ⟨bytes, hlength, hencode⟩ := exists_encode pad msghdr attr
  have hok := hencode len
  rw [if_neg (Nat.not_lt.mpr h)] at hok
  rw [writes_of_ok hok, hlength]

theorem attrWrites_of_ok {attr : Attr} {len : Nat} {bytes : List UInt8}
    (h : encodeAttr pad msghdr attr len = .ok bytes) : attrWrites pad msghdr attr len = bytes ∧ bytes.length ≤ len := by
  unfold attrWrites
  cases hsendable : attr.sendable with
  | false =>
    obtain ⟨status, -, hencode⟩ := encodeAttr_of_not_sendable pad msghdr hsendable
    rw [hencode len] at h
    cases h
  | true =>
    obtain ⟨text, htext, hencodeAttr⟩ := exists_encodeAttr pad msghdr hsendable
    rw [hencodeAttr len] at h
    split at h
    case isTrue => cases h
    case isFalse hroom =>
      cases h
      refine ⟨?_, htext.symm ▸ Nat.not_lt.mp hroom⟩
      have hattr := encodeAttr_eq_encode pad msghdr hsendable len
      rw [hencodeAttr len, if_neg hroom] at hattr
      simp only [if_true]
      exact writes_of_ok hattr.symm

/-- The first loop keeps to the room it has if and only if there is room for the types of the socket addresses. -/
theorem length_loopWrites_le_iff {attrs : List Attr} {size : Nat} :
    (loopWrites pad msghdr attrs size).length ≤ size ↔ RoomForTypes attrs size := by
  induction attrs generalizing size with
  | nil => exact iff_of_true (Nat.zero_le size) trivial
  | cons attr more ih =>
    rw [loopWrites, RoomForTypes]
    cases hcalc : attr.isCalculated with
    | true =>
      simp only [if_true, List.length_nil, Nat.zero_le, true_iff]
      exact fun h => absurd h (Bool.false_ne_true ∘ Eq.symm)
    | false =>
      simp only [Bool.false_eq_true, if_false, attrWrites, forall_const]
      cases hsendable : attr.sendable with
      | false =>
        obtain ⟨status, -, hencode⟩ := encodeAttr_of_not_sendable pad msghdr hsendable
        simp [hencode size]
      | true =>
        obtain ⟨bytes, hlength, hencode⟩ := exists_encodeAttr pad msghdr hsendable
        simp only [if_true, forall_const]
        have hfour := four_le_encodedSize attr
        rcases Nat.lt_or_ge size attr.encodedSize with hlt | hle
        · rw [hencode size, if_pos hlt]
          simp only [List.append_nil, length_writes_of_lt hlt]
          have hvacuous : attr.encodedSize ≤ size → RoomForTypes more (size - attr.encodedSize) :=
            fun h => absurd h (Nat.not_le.mpr hlt)
          cases attr.isSockaddr with
          | true => exact ⟨fun htype => ⟨fun _ => htype, hvacuous⟩, fun hroom => hroom.1 rfl⟩
          | false => exact ⟨fun _ => ⟨nofun, hvacuous⟩, fun _ => Nat.zero_le size⟩
        · rw [hencode size, if_neg (Nat.not_lt.mpr hle)]
          simp only [List.length_append, length_writes_of_le hle, hlength]
          rw [← ih]
          have hroom : attr.isSockaddr = true → 2 ≤ size := fun _ => by omega
          constructor
          · exact fun htotal => ⟨hroom, fun _ => by omega⟩
          · intro hrest
            have hmore := hrest.2 hle
            omega

theorem encodeLoop_of_ok {attrs left : List Attr} {size : Nat} {body : List UInt8}
    (h : encodeLoop pad msghdr attrs size = .ok (body, left)) (room : Nat) :
    encodeLoop pad msghdr attrs room = if room < body.length then .error .etoosmall else .ok (body, left) := by
  induction attrs generalizing size body room with
  | nil =>
    cases h
    exact (if_neg (Nat.not_lt_zero room)).symm
  | cons attr more ih =>
    rw [encodeLoop] at h ⊢
    split at h
    case isTrue hcalc =>
      cases h
      rw [if_pos hcalc, List.length_nil, if_neg (Nat.not_lt_zero room)]
    case isFalse hcalc =>
      rw [if_neg hcalc]
      cases hsendable : attr.sendable with
      | false =>
        obtain ⟨status, -, hencode⟩ := encodeAttr_of_not_sendable pad msghdr hsendable
        rw [hencode size] at h
        cases h
      | true =>
        obtain ⟨bytes, hlength, hencode⟩ := exists_encodeAttr pad msghdr hsendable
        rw [hencode size] at h
        rw [hencode room]
        split at h
        case isTrue => cases h
        case isFalse hroom =>
          simp only [Except.bind] at h
          cases hrest : encodeLoop pad msghdr more (size - bytes.length) with
          | error status =>
            rw [hrest] at h
            cases h
          | ok result =>
            obtain ⟨rest, left'⟩ := result
            rw [hrest] at h
            simp only [Except.map, Except.ok.injEq, Prod.mk.injEq] at h
            obtain ⟨rfl, rfl⟩ := h
            rw [List.length_append]
            rcases Nat.lt_or_ge room attr.encodedSize with hlt | hle
            · rw [if_pos hlt, if_pos (by omega)]
              rfl
            · have hmore := ih hrest (room - bytes.length)
              rw [if_neg (Nat.not_lt.mpr hle)]
              simp only [Except.bind, hmore]
              rcases Nat.lt_or_ge (room - bytes.length) rest.length with hlt | hle'
              · rw [if_pos hlt, if_pos (by omega)]
                rfl
              · rw [if_neg (Nat.not_lt.mpr hle'), if_neg (by omega)]
                rfl

theorem loopWrites_of_ok {attrs left : List Attr} {size : Nat} {body : List UInt8}
    (h : encodeLoop pad msghdr attrs size = .ok (body, left)) :
    loopWrites pad msghdr attrs size = body ∧ body.length ≤ size := by
  induction attrs generalizing size body with
  | nil =>
    cases h
    exact ⟨rfl, Nat.zero_le size⟩
  | cons attr more ih =>
    rw [encodeLoop] at h
    rw [loopWrites]
    split at h
    case isTrue hcalc =>
      cases h
      rw [if_pos hcalc]
      exact ⟨rfl, Nat.zero_le size⟩
    case isFalse hcalc =>
      rw [if_neg hcalc]
      cases hencode : encodeAttr pad msghdr attr size with
      | error status =>
        rw [hencode] at h
        cases h
      | ok bytes =>
        rw [hencode] at h
        simp only [Except.bind] at h
        obtain ⟨hwrites, hlength⟩ := attrWrites_of_ok hencode
        cases hrest : encodeLoop pad msghdr more (size - bytes.length) with
        | error status =>
          rw [hrest] at h
          cases h
        | ok result =>
          obtain ⟨rest, left'⟩ := result
          rw [hrest] at h
          simp only [Except.map, Except.ok.injEq, Prod.mk.injEq] at h
          obtain ⟨rfl, rfl⟩ := h
          obtain ⟨hmore, hfits⟩ := ih hrest
          rw [List.length_append]
          exact ⟨by rw [hwrites]; exact congrArg (bytes ++ ·) hmore, by omega⟩

end

section

variable {digest : Digest} {msghdr : MsgHdr}

theorem addMsgint_of_ok {key : Option (List UInt8)} {amsgint : Option Attr} {body : List UInt8} {size : Nat} {e : Encoded}
    (h : addMsgint digest msghdr key amsgint body size = .ok e) (hbody : body.length ≤ size) :
    (body <+: e.body ∧ e.body.length ≤ size) ∧
      ∀ room, body.length ≤ room →
        addMsgint digest msghdr key amsgint body room = if room < e.body.length then .error .etoosmall else .ok e := by
  cases amsgint with
  | none =>
    cases h
    exact ⟨⟨List.prefix_rfl, hbody⟩, fun room hroom => (if_neg (Nat.not_lt.mpr hroom)).symm⟩
  | some attr =>
    cases key with
    | none => cases h
    | some key =>
      obtain ⟨hmac, hhmac⟩ : ∃ hmac, hmac = digest.hmacSha1 key (msghdr.bytes (body.length + 24) ++ body) := ⟨_, rfl⟩
      simp only [addMsgint, ← hhmac] at h ⊢
      unfold encodeMsgintAttr at h ⊢
      split at h
      case isTrue => cases h
      case isFalse hsize =>
        cases h
        have hlength : (body ++ (putVal16 attr.hdr.type.toNat ++ putVal16 attr.hdr.length.toNat ++ hmac.toList)).length =
            body.length + 24 := by
          simp [putVal16]
        simp only [hlength]
        refine ⟨⟨List.prefix_append _ _, by omega⟩, fun room hroom => ?_⟩
        rcases Nat.lt_or_ge (room - body.length) 24 with hlt | hle
        · rw [if_pos hlt, if_pos (by omega)]
          rfl
        · rw [if_neg (Nat.not_lt.mpr hle), if_neg (by omega)]
          rfl

theorem addFingerprint_of_ok {afingerprint : Option Attr} {size : Nat} {e next : Encoded}
    (h : addFingerprint digest msghdr afingerprint e size = .ok next) (hbody : e.body.length ≤ size) :
    (e.body <+: next.body ∧ next.body.length ≤ size) ∧
      ∀ room, e.body.length ≤ room →
        addFingerprint digest msghdr afingerprint e room =
          if room < next.body.length then .error .etoosmall else .ok next := by
  cases afingerprint with
  | none =>
    cases h
    exact ⟨⟨List.prefix_rfl, hbody⟩, fun room hroom => (if_neg (Nat.not_lt.mpr hroom)).symm⟩
  | some attr =>
    obtain ⟨value, hvalue⟩ : ∃ value,
      value = digest.crc32 (msghdr.bytes (e.length + 8) ++ e.body) ^^^ xorFingerprint := ⟨_, rfl⟩
    simp only [addFingerprint, ← hvalue] at h ⊢
    unfold encodeUintAttr at h ⊢
    split at h
    case isTrue => cases h
    case isFalse hsize =>
      cases h
      have hlength : (e.body ++ (putVal16 attr.hdr.type.toNat ++ putVal16 4 ++ putVal32 value.toNat)).length =
          e.body.length + 8 := List.length_append
      simp only [hlength]
      refine ⟨⟨List.prefix_append _ _, by omega⟩, fun room hroom => ?_⟩
      rcases Nat.lt_or_ge (room - e.body.length) 8 with hlt | hle
      · rw [if_pos hlt, if_pos (by omega)]
        rfl
      · rw [if_neg (Nat.not_lt.mpr hle), if_neg (by omega)]
        rfl

end

section

variable {pad : UInt8} {digest : Digest} {msg : Msg} {key : Option (List UInt8)}

/-- A message that can be encoded at all is encoded into every buffer that it fits, and for another one the result is
`PJ_ETOOSMALL`. -/
theorem encode_of_ok {size : Nat} {msg' : Msg} {message : List UInt8}
    (h : encode pad digest msg size 0 key = .ok (msg', message)) {bufSize : Nat} (hsize : bufSize ≠ 0) :
    encode pad digest msg bufSize 0 key =
      if bufSize < message.length then .error .etoosmall else .ok (msg', message) := by
  obtain ⟨-, body, left, amsgint, afingerprint, e, next, hencoding, hresult⟩ := exists_encoding h
  obtain ⟨rfl, rfl⟩ := Prod.mk.inj hresult
  have hbody := (loopWrites_of_ok hencoding.loop).2
  obtain ⟨⟨hstart, he⟩, hmsgint⟩ := addMsgint_of_ok hencoding.msgint hbody
  obtain ⟨⟨hstart', -⟩, hfingerprint⟩ := addFingerprint_of_ok hencoding.fingerprint he
  have hbodye := hstart.length_le
  have henext := hstart'.length_le
  rw [List.length_append, length_bytes]
  unfold encode
  rw [if_neg (by omega)]
  rcases Nat.lt_or_ge bufSize 20 with hlt | hle
  · rw [if_pos hlt, if_pos (by omega)]
  rw [if_neg (Nat.not_lt.mpr hle), encodeLoop_of_ok hencoding.loop (bufSize - 20)]
  rcases Nat.lt_or_ge (bufSize - 20) body.length with hlt | hroom
  · rw [if_pos hlt, if_pos (by omega)]
    rfl
  simp only [if_neg (Nat.not_lt.mpr hroom), Except.bind, hencoding.scan, hmsgint _ hroom]
  rcases Nat.lt_or_ge (bufSize - 20) e.body.length with hlt | hroom
  · rw [if_pos hlt, if_pos (by omega)]
  simp only [if_neg (Nat.not_lt.mpr hroom), hfingerprint _ hroom]
  rcases Nat.lt_or_ge (bufSize - 20) next.body.length with hlt | hroom
  · rw [if_pos hlt, if_pos (by omega)]
    rfl
  · rw [if_neg (Nat.not_lt.mpr hroom), if_neg (by omega)]
    rfl

theorem length_encodeWrites_le_iff {bufSize : Nat} :
    (encodeWrites pad digest msg bufSize 0 key).length ≤ bufSize ↔
      (20 ≤ bufSize → RoomForTypes msg.attrs (bufSize - 20)) := by
  unfold encodeWrites
  rcases Nat.lt_or_ge bufSize 20 with hlt | hle
  · rw [if_pos (.inr (.inr hlt))]
    exact iff_of_true (Nat.zero_le _) fun h => absurd h (Nat.not_le.mpr hlt)
  rw [if_neg (by omega), List.length_append, List.length_append, length_bytes, forall_prop_of_true hle,
    ← @length_loopWrites_le_iff pad msg.hdr msg.attrs (bufSize - 20)]
  cases hloop : encodeLoop pad msg.hdr msg.attrs (bufSize - 20) with
  | error status =>
    rw [List.length_nil]
    omega
  | ok result =>
    obtain ⟨body, left⟩ := result
    obtain ⟨hwrites, hbody⟩ := loopWrites_of_ok hloop
    rw [hwrites]
    refine iff_of_true ?_ hbody
    cases hscan : scan left with
    | error status =>
      simp only [hscan, List.length_nil]
      omega
    | ok result =>
      obtain ⟨amsgint, afingerprint⟩ := result
      simp only [hscan]
      cases hmsgint : addMsgint digest msg.hdr key amsgint body (bufSize - 20) with
      | error status =>
        rw [List.length_nil]
        omega
      | ok e =>
        obtain ⟨⟨hstart, he⟩, -⟩ := addMsgint_of_ok hmsgint hbody
        have hbodye := hstart.length_le
        rw [List.length_append, List.length_drop]
        cases hfingerprint : addFingerprint digest msg.hdr afingerprint e (bufSize - 20) with
        | error status =>
          rw [List.length_nil]
          omega
        | ok next =>
          obtain ⟨⟨hstart', hnext⟩, -⟩ := addFingerprint_of_ok hfingerprint he
          have henext := hstart'.length_le
          rw [List.length_drop]
          omega

end

/-- The encoder writes nothing behind the end of its buffer, and says when the message does not fit, if and only if two
bytes are left wherever it comes to a socket address. -/
theorem encode_inside_iff (pad : UInt8) (digest : Digest) (msg : Msg) (bufSize : Nat) (key : Option (List UInt8))
    (hsize : bufSize ≠ 0) :
    ((encodeWrites pad digest msg bufSize 0 key).length ≤ bufSize ∧
        ∀ size msg' message, encode pad digest msg size 0 key = .ok (msg', message) → bufSize < message.length →
          encode pad digest msg bufSize 0 key = .error .etoosmall) ↔
      (20 ≤ bufSize → RoomForTypes msg.attrs (bufSize - 20)) := by
  refine (and_iff_left ?_).trans length_encodeWrites_le_iff
  intro size msg' message h hlt
  rw [encode_of_ok h hsize, if_pos hlt]

def bindingResponse : Msg :=
  ⟨⟨0x0101, 0, stunMagic, sampleTsxId⟩,
    [.sockaddr ⟨0x0001, 8⟩ false (.ipv4 sampleAddress (Sock.htons 5060))]⟩

theorem encode_inside_iff_response :
    (encodeWrites 0 integrityDigest bindingResponse 24 0 none).length ≤ 24 ∧
      encode 0 integrityDigest bindingResponse 24 0 none = .error .etoosmall := by
  have hroom : 20 ≤ 24 → RoomForTypes bindingResponse.attrs (24 - 20) := by
    intro _ _ _
    exact ⟨fun _ => by decide, fun h => absurd h (by decide)⟩
  have hinside := (encode_inside_iff 0 integrityDigest bindingResponse 24 none (by decide)).mpr hroom
  exact ⟨hinside.1, hinside.2 32 _ _ rfl (by decide)⟩

/-- With no room left behind the header, the type of the address is written behind the buffer. -/
theorem type_written_behind_buffer :
    (encodeWrites 0 integrityDigest bindingResponse 20 0 none).length = 22 ∧
      encode 0 integrityDigest bindingResponse 20 0 none = .error .etoosmall := by
  decide

end PjProject.Stun
