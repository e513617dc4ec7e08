import PjProject.StunAttrs

/-! How many bytes the encoders of `stun_msg.c` need. Every one of them compares the room with a number that depends on
its attribute alone, and writes as many bytes as that. -/

namespace PjProject.Stun

open Sock (htons)

/-- What the encoder of the attribute compares `len` with; it is `*printed` afterwards. -/
def Attr.encodedSize : Attr → Nat
  | .sockaddr _ _ (.ipv4 _ _) => 12
  | .sockaddr _ _ (.ipv6 _ _) => 24
  | .empty _ => 4
  | .string _ value => align4 (value.length + 4)
  | .uint _ _ => 8
  | .uint64 _ _ _ => 12
  | .msgint _ _ => 24
  | .errcode _ _ reason => align4 (4 + 4 + reason.length)
  | .unknown _ attrs => align4 (4 + 2 * attrs.length)
  | .binary _ _ data => align4 (data.length + 4)

/-- The attribute has the structure of its type, so that its encoder is called. -/
def Attr.sendable (attr : Attr) : Bool :=
  match findAttrDesc attr.hdr.type.toNat with
  | some kind => kind.fits attr
  | none =>
    match attr with
    | .binary _ magic _ => magic = stunMagic
    | _ => false

theorem length_putVal16 (n : Nat) : (putVal16 n).length = 2 := rfl

theorem four_le_encodedSize (attr : Attr) : 4 ≤ attr.encodedSize := by
  have hle := le_align4
  cases attr with
  | sockaddr hdr xorEd addr => cases addr <;> simp [Attr.encodedSize]
  | string hdr value => exact (Nat.le_add_left 4 _).trans (hle _)
  | errcode hdr errCode reason => exact (Nat.le_add_right 4 _).trans ((Nat.le_add_right _ _).trans (hle _))
  | unknown hdr attrs => exact (Nat.le_add_right 4 _).trans (hle _)
  | binary hdr magic data => exact (Nat.le_add_left 4 _).trans (hle _)
  | empty _ | uint _ _ | uint64 _ _ _ | msgint _ _ => simp [Attr.encodedSize]

section Encoding

variable (pad : UInt8) (msghdr : MsgHdr)

theorem exists_encode (attr : Attr) : ∃ bytes : List UInt8, bytes.length = attr.encodedSize ∧
    ∀ len, attr.encode pad msghdr len = if len < attr.encodedSize then .error .etoosmall else .ok bytes := by
  have hpad := length_padding pad
  cases attr with
  | sockaddr hdr xorEd addr =>
    cases addr <;> cases xorEd <;>
      refine ⟨_, ?_, fun len => by simp only [Attr.encode, encodeSockaddrAttr, xorSockaddr, Attr.encodedSize]; rfl⟩ <;>
      simp [putVal16, memory16, Attr.encodedSize]
  | empty hdr => exact ⟨_, rfl, fun len => rfl⟩
  | string hdr value =>
    refine ⟨_, ?_, fun len => rfl⟩
    have hvalue := hpad value.length
    rw [Attr.encodedSize, align4_add, ← hvalue]
    simp only [List.length_append, length_putVal16]
    omega
  | uint hdr value => exact ⟨_, rfl, fun len => rfl⟩
  | uint64 hdr hi lo => exact ⟨_, rfl, fun len => rfl⟩
  | msgint hdr hmac =>
    refine ⟨_, ?_, fun len => rfl⟩
    simp [putVal16, Attr.encodedSize]
  | errcode hdr errCode reason =>
    refine ⟨_, ?_, fun len => rfl⟩
    have hreason := hpad reason.length
    have hsize : align4 (4 + 4 + reason.length) = align4 reason.length + 4 + 4 := by
      rw [align4, align4]
      omega
    rw [Attr.encodedSize, hsize, ← hreason]
    simp only [List.length_append, length_putVal16, List.length_cons, List.length_nil]
    omega
  | unknown hdr attrs =>
    refine ⟨_, ?_, fun len => rfl⟩
    have hattrs := hpad (2 * attrs.length)
    have hflat : (attrs.flatMap fun a => memory16 (htons a)).length = 2 * attrs.length := by
      simp [List.length_flatMap, memory16, Nat.mul_comm]
    rw [Attr.encodedSize, Nat.add_comm 4, align4_add, ← hattrs]
    simp only [List.length_append, length_putVal16, hflat]
    omega
  | binary hdr magic data =>
    refine ⟨_, ?_, fun len => rfl⟩
    have hdata := hpad data.length
    rw [Attr.encodedSize, align4_add, ← hdata]
    simp only [List.length_append, length_putVal16]
    omega

theorem encodeAttr_eq_encode {attr : Attr} (h : attr.sendable = true) (len : Nat) :
    encodeAttr pad msghdr attr len = attr.encode pad msghdr len := by
  unfold encodeAttr
  unfold Attr.sendable at h
  cases hdesc : findAttrDesc attr.hdr.type.toNat with
  | some kind =>
    simp only [hdesc] at h
    simp only [h, if_true]
  | none =>
    simp only [hdesc] at h
    cases attr with
    | binary hdr magic data =>
      have hmagic : magic = stunMagic := of_decide_eq_true h
      simp only [hmagic, ne_eq, not_true_eq_false, if_false]
      rfl
    | sockaddr _ _ _ | empty _ | string _ _ | uint _ _ | uint64 _ _ _ | msgint _ _ | errcode _ _ _ | unknown _ _ =>
      cases h

theorem exists_encodeAttr {attr : Attr} (h : attr.sendable = true) : ∃ bytes : List UInt8,
    bytes.length = attr.encodedSize ∧
    ∀ len, encodeAttr pad msghdr attr len = if len < attr.encodedSize then .error .etoosmall else .ok bytes := by
  obtain ⟨bytes, hlength, hencode⟩ := exists_encode pad msghdr attr
  exact ⟨bytes, hlength, fun len => (encodeAttr_eq_encode pad msghdr h len).trans (hencode len)⟩

/-- Whether an attribute can be sent does not depend on the room. -/
theorem encodeAttr_of_not_sendable {attr : Attr} (h : attr.sendable = false) :
    ∃ status, status ≠ .etoosmall ∧ ∀ len, encodeAttr pad msghdr attr len = .error status := by
  unfold encodeAttr
  unfold Attr.sendable at h
  cases hdesc : findAttrDesc attr.hdr.type.toNat with
  | some kind =>
    simp only [hdesc] at h
    simp only [h, Bool.false_eq_true, if_false]
    exact ⟨.mistyped, by decide, fun len => rfl⟩
  | none =>
    simp only [hdesc] at h
    cases attr with
    | binary hdr magic data =>
      have hmagic : magic ≠ stunMagic := of_decide_eq_false h
      simp only [ne_eq, hmagic, not_false_eq_true, if_true]
      exact ⟨.ebug, by decide, fun len => rfl⟩
    | sockaddr _ _ _ | empty _ | string _ _ | uint _ _ | uint64 _ _ _ | msgint _ _ | errcode _ _ _ | unknown _ _ =>
      exact ⟨.mistyped, by decide, fun len => rfl⟩

theorem length_of_encodeAttr {attr : Attr} {len : Nat} {bytes : List UInt8}
    (h : encodeAttr pad msghdr attr len = .ok bytes) : bytes.length = attr.encodedSize := by
  cases hsendable : attr.sendable with
  | true =>
    obtain ⟨text, hlength, hencode⟩ := exists_encodeAttr pad msghdr hsendable
    rw [hencode len] at h
    split at h
    · cases h
    · cases h
      exact hlength
  | false =>
    obtain ⟨status, -, hencode⟩ := encodeAttr_of_not_sendable pad msghdr hsendable
    rw [hencode len] at h
    cases h

end Encoding

end PjProject.Stun
