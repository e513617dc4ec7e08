import PjProject.StunRoundTrip
import PjProject.StunKept

/-! Whether `pj_stun_msg_check` lets pass what `pj_stun_msg_encode` has made. The check looks for FINGERPRINT eight bytes
before the end, whatever stands there: the end of an attribute, or of the transaction id where there is no attribute. -/

namespace PjProject.Stun

/-- The bytes of the attribute, whatever the room. -/
def Attr.wire (pad : UInt8) (msghdr : MsgHdr) (attr : Attr) : List UInt8 :=
  (encodeAttr pad msghdr attr attr.encodedSize).toOption.getD []

/-- The attributes in front of MESSAGE-INTEGRITY and FINGERPRINT. -/
def Msg.plainText (pad : UInt8) (msg : Msg) : List UInt8 :=
  (msg.attrs.takeWhile fun a => !a.isCalculated).flatMap (Attr.wire pad msg.hdr)

/-- The attributes in front of FINGERPRINT, with MESSAGE-INTEGRITY if that is the first of the two. -/
def Msg.protectedText (pad : UInt8) (digest : Digest) (msg : Msg) (key : Option (List UInt8)) : List UInt8 :=
  let plain := msg.plainText pad
  match msg.attrs.find? Attr.isCalculated with
  | some attr =>
    if attr.hdr.type = attrMessageIntegrity then
      plain ++ (putVal16 attr.hdr.type.toNat ++ putVal16 attr.hdr.length.toNat ++
        (digest.hmacSha1 (key.getD []) (msg.hdr.bytes (plain.length + 24) ++ plain)).toList)
    else plain
  | none => plain

def Msg.hasFingerprint (msg : Msg) : Prop := ∃ a ∈ msg.attrs, a.hdr.type = attrFingerprint

instance (msg : Msg) : Decidable msg.hasFingerprint := inferInstanceAs (Decidable (∃ a ∈ msg.attrs, _))

/-- What lies eight bytes before the end of the packet is taken for FINGERPRINT, and for a wrong one. -/
def Mistaken (digest : Digest) (hdr : MsgHdr) (body : List UInt8) : Prop :=
  hdr.magic = stunMagic ∧ getVal16 (hdr.bytes body.length ++ body) (body.length + 12) = attrFingerprint.toNat ∧
    (getVal16 (hdr.bytes body.length ++ body) (body.length + 14) ≠ 4 ∨
      (digest.crc32 ((hdr.bytes body.length ++ body).take (body.length + 12)) ^^^ xorFingerprint).toNat ≠
        getVal32 (hdr.bytes body.length ++ body) (body.length + 16))

/-! The check of a header with a body behind it. -/

section Check

variable {digest : Digest} {hdr : MsgHdr} {body : List UInt8} {options : Nat}

theorem getVal16_hdr_length_mod (hdr : MsgHdr) (body : List UInt8) (n : Nat) :
    getVal16 (hdr.bytes n ++ body) 2 = n % 65536 := by
  rw [hdr_bytes_append]
  exact getVal16_putVal16 (putVal16 hdr.type.toNat) _ n

theorem msgCheck_iff (halign : body.length % 4 = 0)
    (hfirst : byteAt (hdr.bytes body.length ++ body) 0 = 0 ∨ byteAt (hdr.bytes body.length ++ body) 0 = 1)
    (hdatagram : options &&& isDatagram ≠ 0) (hprobe : options &&& noFingerprintCheck = 0) :
    msgCheck digest (hdr.bytes body.length ++ body) options = .ok () ↔
      body.length < 65536 ∧ ¬Mistaken digest hdr body := by
  have hlen : (hdr.bytes body.length ++ body).length = 20 + body.length := by
    rw [List.length_append, length_hdr_bytes]
  have hfirst' : ¬(byteAt (hdr.bytes body.length ++ body) 0 ≠ 0 ∧ byteAt (hdr.bytes body.length ++ body) 0 ≠ 1) := by
    rintro ⟨hzero, hone⟩
    exact hfirst.elim hzero hone
  have hmagic : (getVal32 (hdr.bytes body.length ++ body) 4 = stunMagic.toNat) ↔ hdr.magic = stunMagic := by
    rw [getVal32_hdr_magic, UInt32.toNat_inj]
  unfold msgCheck
  dsimp only
  rw [getVal16_hdr_length_mod, hlen, if_neg (by omega), if_neg hfirst']
  by_cases hbody : body.length < 65536
  · rw [Nat.mod_eq_of_lt hbody, if_neg (by omega), if_neg (by omega)]
    refine Iff.trans ?_ (and_iff_right hbody).symm
    unfold Mistaken
    by_cases hlooks : getVal32 (hdr.bytes body.length ++ body) 4 = stunMagic.toNat ∧ options &&& noFingerprintCheck = 0 ∧
        getVal16 (hdr.bytes body.length ++ body) (body.length + 12) = attrFingerprint.toNat
    · obtain ⟨hset, -, hprobed⟩ := hlooks
      rw [if_pos ⟨hset, hprobe, hprobed⟩]
      by_cases hfour : getVal16 (hdr.bytes body.length ++ body) (body.length + 14) ≠ 4
      · rw [if_pos hfour]
        exact iff_of_false nofun fun h => h ⟨hmagic.mp hset, hprobed, .inl hfour⟩
      · rw [if_neg hfour]
        by_cases hcrc : (digest.crc32 ((hdr.bytes body.length ++ body).take (body.length + 12)) ^^^ xorFingerprint).toNat ≠
            getVal32 (hdr.bytes body.length ++ body) (body.length + 16)
        · rw [if_pos hcrc]
          exact iff_of_false nofun fun h => h ⟨hmagic.mp hset, hprobed, .inr hcrc⟩
        · rw [if_neg hcrc]
          exact iff_of_true rfl fun h => h.2.2.elim hfour hcrc
    · rw [if_neg hlooks]
      exact iff_of_true rfl fun h => hlooks ⟨hmagic.mpr h.1, hprobe, h.2.1⟩
  · -- the sixteen bits of the header do not hold the length
    have hshort : body.length % 65536 + 20 ≠ 20 + body.length := by
      have hlt := Nat.mod_lt body.length (by decide : 0 < 65536)
      omega
    rw [if_pos (.inr ⟨hdatagram, hshort⟩)]
    exact iff_of_false nofun fun h => hbody h.1

end Check

/-! What the encoder has made. -/

section Encoded

variable {pad : UInt8} {digest : Digest} {msghdr : MsgHdr}

theorem wire_of_encodeAttr {attr : Attr} {len : Nat} {bytes : List UInt8}
    (h : encodeAttr pad msghdr attr len = .ok bytes) : attr.wire pad msghdr = bytes := by
  unfold Attr.wire
  cases hsendable : attr.sendable with
  | true =>
    obtain ⟨text, -, hencode⟩ := exists_encodeAttr pad msghdr hsendable
    rw [hencode len] at h
    rw [hencode, if_neg (Nat.lt_irrefl _)]
    split at h
    · cases h
    · exact Except.ok.inj h
  | false =>
    obtain ⟨status, -, hencode⟩ := encodeAttr_of_not_sendable pad msghdr hsendable
    rw [hencode len] at h
    cases h

theorem align4_encodedSize (attr : Attr) : attr.encodedSize % 4 = 0 := by
  have halign : ∀ n, align4 n % 4 = 0 := fun n => Nat.mul_mod_left _ _
  cases attr with
  | sockaddr hdr xorEd addr => cases addr <;> simp [Attr.encodedSize]
  | string _ _ | errcode _ _ _ | unknown _ _ | binary _ _ _ => exact halign _
  | empty _ | uint _ _ | uint64 _ _ _ | msgint _ _ => simp [Attr.encodedSize]

theorem align4_wire (attr : Attr) : (attr.wire pad msghdr).length % 4 = 0 := by
  cases hencode : encodeAttr pad msghdr attr attr.encodedSize with
  | ok bytes =>
    rw [wire_of_encodeAttr hencode, length_of_encodeAttr pad msghdr hencode]
    exact align4_encodedSize attr
  | error status =>
    rw [Attr.wire, hencode]
    rfl

theorem align4_plainText (msg : Msg) : (msg.plainText pad).length % 4 = 0 := by
  unfold Msg.plainText
  induction msg.attrs.takeWhile fun a => !a.isCalculated with
  | nil => rfl
  | cons attr more ih =>
    have hattr : (attr.wire pad msg.hdr).length % 4 = 0 := align4_wire attr
    rw [List.flatMap_cons, List.length_append]
    omega

theorem encodeLoop_wire {attrs left : List Attr} {size : Nat} {body : List UInt8}
    (h : encodeLoop pad msghdr attrs size = .ok (body, left)) :
    body = (attrs.takeWhile fun a => !a.isCalculated).flatMap (Attr.wire pad msghdr) ∧
      left.head? = attrs.find? Attr.isCalculated := by
  induction attrs generalizing size body with
  | nil =>
    cases h
    exact ⟨rfl, rfl⟩
  | cons attr more ih =>
    rw [encodeLoop] at h
    by_cases hcalc : attr.isCalculated = true
    · rw [if_pos hcalc] at h
      cases h
      rw [List.takeWhile_cons_of_neg (p := fun a => !Attr.isCalculated a) (by rw [hcalc]; exact Bool.false_ne_true), List.find?_cons_of_pos hcalc]
      exact ⟨rfl, rfl⟩
    · rw [if_neg hcalc] at h
      have hplain : (!attr.isCalculated) = true := by rw [Bool.eq_false_iff.mpr hcalc]; rfl
      cases hencode : encodeAttr pad msghdr attr size with
      | error status =>
        rw [hencode] at h
        cases h
      | ok bytes =>
        rw [hencode] at h
        dsimp only [Except.bind] at h
        cases hrest : encodeLoop pad msghdr more (size - bytes.length) with
        | error status =>
          rw [hrest] at h
          cases h
        | ok result =>
          obtain ⟨rest, left'⟩ := result
          rw [hrest] at h
          obtain ⟨rfl, rfl⟩ := Prod.mk.inj (Except.ok.inj h)
          obtain ⟨hbody, hleft⟩ := ih hrest
          rw [List.takeWhile_cons_of_pos (p := fun a => !Attr.isCalculated a) hplain, List.find?_cons_of_neg hcalc, List.flatMap_cons,
            wire_of_encodeAttr hencode, ← hbody]
          exact ⟨rfl, hleft⟩

theorem Scanned.head {left lost : List Attr} {amsgint afingerprint : Option Attr}
    (h : Scanned left lost amsgint afingerprint) :
    amsgint = left.head?.filter fun a => a.hdr.type = attrMessageIntegrity := by
  cases amsgint with
  | some mi =>
    rw [h.left, Option.toList_some, List.singleton_append, List.head?_cons, Option.filter_some,
      if_pos (decide_eq_true (h.msgint mi rfl))]
  | none =>
    have hlost : lost = [] := List.eq_nil_iff_forall_not_mem.mpr fun a ha =>
      Bool.false_ne_true (h.lost a ha).2
    rw [h.left, hlost]
    cases hfp : afingerprint with
    | none => rfl
    | some fp =>
      have hne : fp.hdr.type ≠ attrMessageIntegrity := by
        rw [h.fingerprint fp hfp]
        decide
      exact (Option.filter_some.trans (if_neg (by rw [decide_eq_true_eq]; exact hne))).symm

theorem addMsgint_wire {msg : Msg} {key : Option (List UInt8)} {size : Nat} {e : Encoded}
    (h : addMsgint digest msg.hdr key ((msg.attrs.find? Attr.isCalculated).filter fun a =>
      a.hdr.type = attrMessageIntegrity) (msg.plainText pad) size = .ok e) :
    e.body = msg.protectedText pad digest key ∧ e.length = e.body.length ∧ e.body.length % 4 = 0 := by
  have halign : (msg.plainText pad).length % 4 = 0 := align4_plainText msg
  unfold Msg.protectedText
  cases hfind : msg.attrs.find? Attr.isCalculated with
  | none =>
    rw [hfind] at h
    cases h
    exact ⟨rfl, rfl, halign⟩
  | some attr =>
    rw [hfind, Option.filter_some] at h
    by_cases hmi : attr.hdr.type = attrMessageIntegrity
    · rw [if_pos (decide_eq_true hmi)] at h
      dsimp only
      rw [if_pos hmi]
      cases key with
      | none => cases h
      | some key =>
        obtain ⟨hmac, hhmac⟩ : ∃ hmac, hmac = digest.hmacSha1 key
          (msg.hdr.bytes ((msg.plainText pad).length + 24) ++ msg.plainText pad) := ⟨_, rfl⟩
        rw [Option.getD_some, ← hhmac]
        simp only [addMsgint, ← hhmac] at h
        cases hencode : encodeMsgintAttr attr.hdr hmac (size - (msg.plainText pad).length) with
        | error status =>
          rw [hencode] at h
          cases h
        | ok bytes =>
          rw [hencode] at h
          cases h
          have hlength := length_encodeMsgintAttr hencode
          unfold encodeMsgintAttr at hencode
          split at hencode
          · cases hencode
          · cases hencode
            refine ⟨rfl, ?_, ?_⟩
            · rw [List.length_append, hlength]
            · rw [List.length_append, hlength]
              omega
    · rw [if_neg (by rw [decide_eq_true_eq]; exact hmi)] at h
      dsimp only
      rw [if_neg hmi]
      cases h
      exact ⟨rfl, rfl, halign⟩

theorem addFingerprint_wire {afingerprint : Option Attr} {size : Nat} {e next : Encoded}
    (hfingerprint : ∀ a ∈ afingerprint, a.hdr.type = attrFingerprint) (hlength : e.length = e.body.length)
    (h : addFingerprint digest msghdr afingerprint e size = .ok next) :
    next.length = next.body.length ∧ next.body.length = e.body.length + (if afingerprint.isSome then 8 else 0) ∧
      (afingerprint = none → next.body = e.body) ∧
      (afingerprint.isSome = true → FingerprintLast pad digest msghdr next.body) := by
  cases afingerprint with
  | none =>
    cases h
    exact ⟨hlength, rfl, fun _ => rfl, fun hsome => absurd hsome Bool.false_ne_true⟩
  | some attr =>
    obtain ⟨value, hvalue⟩ : ∃ value,
      value = digest.crc32 (msghdr.bytes (e.length + 8) ++ e.body) ^^^ xorFingerprint := ⟨_, rfl⟩
    simp only [addFingerprint, ← hvalue] at h
    cases hencode : encodeUintAttr attr.hdr value (size - e.body.length) with
    | error status =>
      rw [hencode] at h
      cases h
    | ok bytes =>
      rw [hencode] at h
      cases h
      have height := length_encodeUintAttr hencode
      have hbody : (e.body ++ bytes).length = e.length + 8 := by rw [List.length_append, height, hlength]
      refine ⟨hbody.symm, ?_, (fun hnone => by cases hnone), fun _ => ⟨e.body, ?_⟩⟩
      · exact hbody.trans (congrArg (· + 8) hlength)
      · unfold encodeUintAttr at hencode
        split at hencode
        · cases hencode
        · rw [hbody, ← hvalue, fingerprint_text, List.append_nil, ← Except.ok.inj hencode, hfingerprint attr rfl,
            List.append_assoc]

end Encoded

/-- The check lets pass what has been encoded, with a type below 0x200, exactly when the body has less than 65536 bytes
and FINGERPRINT is there or nothing at the end is taken for a wrong one. -/
theorem msgCheck_encode_iff (pad : UInt8) (digest : Digest) (msg : Msg) (bufSize : Nat) (key : Option (List UInt8))
    (msg' : Msg) (packet : List UInt8) (h : encode pad digest msg bufSize 0 key = .ok (msg', packet))
    (hfirst : byteAt packet 0 = 0 ∨ byteAt packet 0 = 1) (options : Nat) (hdatagram : options &&& isDatagram ≠ 0)
    (hprobe : options &&& noFingerprintCheck = 0) :
    msgCheck digest packet options = .ok () ↔
      (msg.protectedText pad digest key).length + (if msg.hasFingerprint then 8 else 0) < 65536 ∧
        (msg.hasFingerprint ∨ ¬Mistaken digest msg.hdr (msg.protectedText pad digest key)) := by
  obtain ⟨-, body, left, amsgint, afingerprint, e, next, hencoding, hresult⟩ := exists_encoding h
  obtain ⟨-, rfl⟩ := Prod.mk.inj hresult
  obtain ⟨front, pieces, hattrs, hfront, hcalc, -, -⟩ := exists_encodeLoop hencoding.loop
  obtain ⟨hbody, hhead⟩ := encodeLoop_wire hencoding.loop
  obtain ⟨lost, hscanned⟩ := exists_scanned hcalc hencoding.scan
  have hmsgint := hencoding.msgint
  rw [hscanned.head, hhead, hbody] at hmsgint
  obtain ⟨hprotected, helength, halign⟩ := addMsgint_wire hmsgint
  obtain ⟨hlength, hsize, hnone, hlast⟩ := @addFingerprint_wire pad _ _ _ _ _ _ hscanned.fingerprint helength hencoding.fingerprint
  have hhas : msg.hasFingerprint ↔ afingerprint.isSome = true := by
    constructor
    · rintro ⟨a, ha, hfp⟩
      rw [hattrs, hscanned.left] at ha
      rcases List.mem_append.mp ha with hplain | ha
      · exact absurd hfp (isCalculated_eq_false.mp (hfront a hplain)).2
      rcases List.mem_append.mp ha with hmi | ha
      · rw [hscanned.msgint a (Option.mem_toList.mp hmi)] at hfp
        exact absurd hfp (by decide)
      rcases List.mem_append.mp ha with hlost | ha
      · exact absurd hfp (isCalculated_eq_false.mp (hscanned.lost a hlost).1).2
      · exact Option.isSome_iff_exists.mpr ⟨a, Option.mem_toList.mp ha⟩
    · intro hsome
      obtain ⟨a, ha⟩ := Option.isSome_iff_exists.mp hsome
      refine ⟨a, ?_, hscanned.fingerprint a ha⟩
      rw [hattrs, hscanned.left]
      exact List.mem_append_right _ (List.mem_append_right _ (List.mem_append_right _ (Option.mem_toList.mpr ha)))
  rw [hlength] at hfirst ⊢
  rw [← hprotected, msgCheck_iff (by rw [hsize]; split <;> omega) hfirst hdatagram hprobe, hsize]
  simp only [hhas]
  refine and_congr_right fun hlt => ?_
  by_cases hsome : afingerprint.isSome = true
  · -- FINGERPRINT is what the check finds
    refine iff_of_true (fun hmistaken => ?_) (.inl hsome)
    obtain ⟨hfour, hvalue⟩ := read_fingerprint pad digest (hlast hsome)
    exact hmistaken.2.2.elim (fun hne => hne hfour) fun hne => hne hvalue.symm
  · rw [hnone (Option.not_isSome_iff_eq_none.mp hsome)]
    exact ⟨fun hnot => .inr hnot, fun hor => hor.resolve_left hsome⟩

def markedRequest : Msg := request [.uint ⟨attrFingerprint, 4⟩ 0]

theorem msgCheck_encode_iff_marked :
    ∃ msg' packet, encode 0 bindingDigest markedRequest 100 0 none = .ok (msg', packet) ∧
      msgCheck bindingDigest packet isDatagram = .ok () := by
  refine ⟨_, _, rfl, ?_⟩
  refine (msgCheck_encode_iff 0 bindingDigest markedRequest 100 none _ _ rfl (by decide) isDatagram (by decide)
    (by decide)).mpr ⟨by decide, .inl ?_⟩
  exact ⟨_, List.mem_cons_self, rfl⟩

/-- The transaction id of a request without attributes is taken for FINGERPRINT. -/
theorem request_not_recognised :
    ¬∀ (pad : UInt8) (digest : Digest) (msg : Msg) (bufSize : Nat) (key : Option (List UInt8)) (msg' : Msg)
      (packet : List UInt8), encode pad digest msg bufSize 0 key = .ok (msg', packet) →
      byteAt packet 0 = 0 ∨ byteAt packet 0 = 1 → msgCheck digest packet isDatagram = .ok () := by
  intro hall
  have hcheck := hall 0 bindingDigest ⟨⟨0x0001, 0, stunMagic, #v[0, 0, 0, 0, 0x80, 0x28, 0, 0, 0, 0, 0, 0]⟩, []⟩ 100
    none _ _ rfl (by decide)
  revert hcheck
  decide

end PjProject.Stun
