import PjProject.StunEncode

/-! A message that is encoded is decoded to the same message, with what was calculated for MESSAGE-INTEGRITY and
FINGERPRINT. -/

namespace PjProject.Stun

open Sock (htons)

/-! The order of the attributes. -/

theorem note_plain {p : Parsing} {attr : Attr} (hplain : attr.isCalculated = false) (hp : p.hasFingerprint = false) :
    p.note attr.hdr.type.toNat = .ok p := by
  obtain ⟨hmi, hfp⟩ := Bool.or_eq_false_iff.mp hplain
  have hnotmi := mt UInt16.toNat_inj.mp (of_decide_eq_false hmi)
  have hnotfp := mt UInt16.toNat_inj.mp (of_decide_eq_false hfp)
  rw [Parsing.note, if_neg (fun h => hnotmi h.1), if_neg hnotfp, if_neg (by rw [hp]; exact Bool.false_ne_true)]

theorem note_msgint {p : Parsing} (hp : p.hasFingerprint = false) (hmi : p.hasMsgInt = false) :
    p.note attrMessageIntegrity.toNat = .ok { p with hasMsgInt := true } := by
  rw [Parsing.note, if_pos ⟨rfl, hp⟩, if_neg (by rw [hmi]; exact Bool.false_ne_true)]

theorem note_fingerprint {p : Parsing} (hp : p.hasFingerprint = false) :
    p.note attrFingerprint.toNat = .ok { p with hasFingerprint := true } := by
  have hne : attrFingerprint.toNat ≠ attrMessageIntegrity.toNat := by decide
  rw [Parsing.note, if_neg (fun h => hne h.1), if_pos rfl, if_neg (by rw [hp]; exact Bool.false_ne_true)]

theorem isCalculated_of_unknown {attr : Attr} (h : findAttrDesc attr.hdr.type.toNat = none) :
    attr.isCalculated = false := by
  rw [Attr.isCalculated, Bool.or_eq_false_iff]
  constructor
  · refine decide_eq_false fun htype => ?_
    rw [htype] at h
    exact absurd h (by decide)
  · refine decide_eq_false fun htype => ?_
    rw [htype] at h
    exact absurd h (by decide)

theorem note_of_unknown {p p' : Parsing} {attr : Attr} (h : findAttrDesc attr.hdr.type.toNat = none)
    (hnote : p.note attr.hdr.type.toNat = .ok p') : p' = p := by
  cases hp : p.hasFingerprint with
  | false =>
    rw [note_plain (isCalculated_of_unknown h) hp] at hnote
    exact (Except.ok.inj hnote).symm
  | true =>
    obtain ⟨hmi, hfp⟩ := Bool.or_eq_false_iff.mp (isCalculated_of_unknown h)
    have hnotfp := mt UInt16.toNat_inj.mp (of_decide_eq_false hfp)
    rw [Parsing.note, if_neg (by rw [hp]; exact fun hboth => absurd hboth.2 Bool.false_ne_true.symm), if_neg hnotfp, if_pos hp] at hnote
    exact nomatch hnote

section Decoding

variable (pad : UInt8) {msghdr : MsgHdr} (rest : List UInt8)

theorem length_wireValue_le (tsxId : Vector UInt8 12) (attr : Attr) :
    (attr.wireValue pad tsxId).length + 4 ≤ (attr.text pad tsxId).length := by
  rw [Attr.text, length_attrText, align4]
  omega

theorem decodeTurn_text {attr : Attr} (h : attr.WellFormed) {p p' : Parsing}
    (hnote : p.note attr.hdr.type.toNat = .ok p') (hcount : p'.attrs.length < maxAttr)
    (hvalue : (attr.wireValue pad msghdr.tsxId).length < 65536) :
    decodeTurn msghdr p (attr.text pad msghdr.tsxId ++ rest) =
      .ok { p' with attrs := p'.attrs ++ [attr.received pad] } := by
  have hlength := getVal16_length pad attr.hdr.type rest hvalue
  have htype : getVal16 (attrText pad attr.hdr.type (attr.wireValue pad msghdr.tsxId) ++ rest) 0 = attr.hdr.type.toNat :=
    getVal16_type pad attr.hdr.type rest
  have hroom : ¬ (attr.text pad msghdr.tsxId ++ rest).length < align4 (attr.wireValue pad msghdr.tsxId).length + 4 := by
    rw [List.length_append, Attr.text, length_attrText]
    omega
  have hadd : ∀ a, p'.add a = .ok { p' with attrs := p'.attrs ++ [a] } := fun a => if_neg (Nat.not_le.mpr hcount)
  have hof := h.ofType
  rw [Attr.OfType] at hof
  rw [Attr.text] at hroom ⊢
  simp only [decodeTurn, hlength, htype]
  rw [if_neg hroom]
  cases hdesc : findAttrDesc attr.hdr.type.toNat with
  | some kind =>
    rw [hdesc] at hof
    simp only [decodeAttr_attrText pad rest msghdr hdesc hof h.sized hvalue, Except.bind, hnote, hadd]
  | none =>
    obtain rfl := note_of_unknown hdesc hnote
    rw [hdesc] at hof
    cases attr with
    | binary hdr magic data =>
      obtain ⟨hopt, rfl⟩ : 0x7FFF < hdr.type.toNat ∧ magic = stunMagic := hof
      have hknown : ¬ (findAttrDesc hdr.type.toNat).isSome = true := by
        rw [show findAttrDesc hdr.type.toNat = none from hdesc]
        exact Bool.false_ne_true
      have hslice : slice (attrText pad hdr.type data ++ rest) 4 data.length = data := slice_value pad hdr.type rest
      simp only [Attr.hdr, Attr.wireValue, hslice, hadd]
      rw [if_neg (Nat.not_le.mpr hopt), Attr.received, if_neg hknown, UInt16.ofNat_toNat, hdr_eq h.sized]
    | sockaddr _ _ _ | empty _ | string _ _ | uint _ _ | uint64 _ _ _ | msgint _ _ | errcode _ _ _ | unknown _ _ =>
      exact hof.elim

theorem decodeLoop_cons {attr : Attr} (h : attr.WellFormed) {p p' : Parsing}
    (hnote : p.note attr.hdr.type.toNat = .ok p') (hcount : p'.attrs.length < maxAttr)
    (hvalue : (attr.wireValue pad msghdr.tsxId).length < 65536) (n : Nat) :
    decodeLoop msghdr (n + 1) p (attr.text pad msghdr.tsxId ++ rest) =
      decodeLoop msghdr n { p' with attrs := p'.attrs ++ [attr.received pad] } rest := by
  have hlong := length_wireValue_le pad msghdr.tsxId attr
  have hturn := decodeTurn_text pad rest h hnote hcount hvalue
  have hlength : getVal16 (attr.text pad msghdr.tsxId ++ rest) 2 = (attr.wireValue pad msghdr.tsxId).length :=
    getVal16_length pad attr.hdr.type rest hvalue
  have htext : (attr.text pad msghdr.tsxId).length = align4 (attr.wireValue pad msghdr.tsxId).length + 4 :=
    length_attrText pad attr.hdr.type _
  rw [decodeLoop, if_neg (by rw [List.length_append]; omega), hturn, hlength, ← htext, List.drop_left]
  rfl

/-- The attributes before MESSAGE-INTEGRITY and FINGERPRINT, one turn after the other. -/
theorem decodeLoop_plain {attrs : List Attr} (hattrs : ∀ a ∈ attrs, a.WellFormed ∧ a.isCalculated = false)
    {p : Parsing} (hp : p.hasFingerprint = false) (hcount : p.attrs.length + attrs.length ≤ maxAttr)
    (hbody : (bodyText pad msghdr.tsxId attrs).length < 65536) (n : Nat) :
    decodeLoop msghdr (n + attrs.length) p (bodyText pad msghdr.tsxId attrs ++ rest) =
      decodeLoop msghdr n { p with attrs := p.attrs ++ attrs.map (Attr.received pad) } rest := by
  induction attrs generalizing p with
  | nil =>
    rw [List.map_nil, List.append_nil]
    rfl
  | cons attr more ih =>
    obtain ⟨hgood, hplain⟩ := hattrs attr List.mem_cons_self
    have hcons : bodyText pad msghdr.tsxId (attr :: more) =
        attr.text pad msghdr.tsxId ++ bodyText pad msghdr.tsxId more := List.flatMap_cons
    have hlong := length_wireValue_le pad msghdr.tsxId attr
    rw [hcons, List.length_append] at hbody
    rw [List.length_cons] at hcount
    have hrest := ih (fun a ha => hattrs a (List.mem_cons_of_mem attr ha))
      (p := { p with attrs := p.attrs ++ [attr.received pad] }) hp
      (by rw [List.length_append, List.length_singleton]; omega) (by omega)
    rw [hcons, List.append_assoc, List.length_cons, ← Nat.add_assoc,
      decodeLoop_cons pad _ hgood (note_plain hplain hp) (by omega) (by omega), hrest, List.map_cons]
    simp only [List.append_assoc, List.singleton_append]

theorem decodeLoop_msgint {amsgint : Option Attr} (hmsgint : ∀ a ∈ amsgint, a.WellFormed)
    (htype : ∀ a ∈ amsgint, a.hdr.type = attrMessageIntegrity) {p : Parsing} (hp : p.hasFingerprint = false)
    (hmi : p.hasMsgInt = false) (hcount : p.attrs.length + amsgint.toList.length ≤ maxAttr)
    (hbody : (bodyText pad msghdr.tsxId amsgint.toList).length < 65536) (n : Nat) :
    ∃ p', p'.attrs = p.attrs ++ amsgint.toList.map (Attr.received pad) ∧ p'.hasFingerprint = false ∧
      decodeLoop msghdr (n + amsgint.toList.length) p (bodyText pad msghdr.tsxId amsgint.toList ++ rest) =
        decodeLoop msghdr n p' rest := by
  cases amsgint with
  | none => exact ⟨p, (List.append_nil _).symm, hp, rfl⟩
  | some attr =>
    have hnote := note_msgint hp hmi
    rw [← htype attr rfl] at hnote
    have hlong := length_wireValue_le pad msghdr.tsxId attr
    rw [Option.toList_some, bodyText_singleton] at hbody ⊢
    rw [Option.toList_some, List.length_singleton] at hcount
    have hvalue : (attr.wireValue pad msghdr.tsxId).length < 65536 := by omega
    exact ⟨{ p with attrs := p.attrs ++ [attr.received pad], hasMsgInt := true }, rfl, hp,
      decodeLoop_cons pad rest (hmsgint attr rfl) hnote hcount hvalue n⟩

theorem decodeLoop_fingerprint {afingerprint : Option Attr} (hfingerprint : ∀ a ∈ afingerprint, a.WellFormed)
    (htype : ∀ a ∈ afingerprint, a.hdr.type = attrFingerprint) {p : Parsing} (hp : p.hasFingerprint = false)
    (hcount : p.attrs.length + afingerprint.toList.length ≤ maxAttr)
    (hbody : (bodyText pad msghdr.tsxId afingerprint.toList).length < 65536) (n : Nat) :
    ∃ p', p'.attrs = p.attrs ++ afingerprint.toList.map (Attr.received pad) ∧
      decodeLoop msghdr (n + afingerprint.toList.length) p (bodyText pad msghdr.tsxId afingerprint.toList ++ rest) =
        decodeLoop msghdr n p' rest := by
  cases afingerprint with
  | none => exact ⟨p, (List.append_nil _).symm, rfl⟩
  | some attr =>
    have hnote := note_fingerprint hp
    rw [← htype attr rfl] at hnote
    have hlong := length_wireValue_le pad msghdr.tsxId attr
    rw [Option.toList_some, bodyText_singleton] at hbody ⊢
    rw [Option.toList_some, List.length_singleton] at hcount
    have hvalue : (attr.wireValue pad msghdr.tsxId).length < 65536 := by omega
    exact ⟨{ p with attrs := p.attrs ++ [attr.received pad], hasFingerprint := true }, rfl,
      decodeLoop_cons pad rest (hfingerprint attr rfl) hnote hcount hvalue n⟩

end Decoding

section Message

variable (pad : UInt8) {msg : Msg} {front : List Attr} {amsgint afingerprint : Option Attr}

theorem length_le_bodyText (tsxId : Vector UInt8 12) (attrs : List Attr) :
    attrs.length ≤ (bodyText pad tsxId attrs).length := by
  induction attrs with
  | nil => exact Nat.zero_le _
  | cons attr more ih =>
    have hlong := length_wireValue_le pad tsxId attr
    rw [bodyText, List.flatMap_cons, List.length_append, List.length_cons]
    rw [bodyText] at ih
    omega

theorem decodeLoop_bodyText (h : msg.WellFormed front amsgint afingerprint)
    (hbody : (bodyText pad msg.hdr.tsxId msg.attrs).length < 65536) :
    ∃ p, p.attrs = msg.attrs.map (Attr.received pad) ∧
      decodeLoop msg.hdr ((bodyText pad msg.hdr.tsxId msg.attrs).length + 1) ⟨[], false, false⟩
        (bodyText pad msg.hdr.tsxId msg.attrs) = .ok (p, []) := by
  have hplaced := h.placed.attrs
  have hgood : (∀ a ∈ front, a.WellFormed) ∧ (∀ a ∈ amsgint, a.WellFormed) ∧ ∀ a ∈ afingerprint, a.WellFormed := by
    have hattrs := h.attrs
    rw [hplaced] at hattrs
    refine ⟨fun a ha => hattrs a ?_, fun a ha => hattrs a ?_, fun a ha => hattrs a ?_⟩
    · exact List.mem_append_left _ ha
    · exact List.mem_append_right _ (List.mem_append_left _ (Option.mem_toList.mpr ha))
    · exact List.mem_append_right _ (List.mem_append_right _ (Option.mem_toList.mpr ha))
  obtain ⟨hfront, hmsgint, hfingerprint⟩ := hgood
  have hcount := h.count
  have hfuel := length_le_bodyText pad msg.hdr.tsxId msg.attrs
  have hlen : msg.attrs.length = front.length + (amsgint.toList.length + afingerprint.toList.length) := by
    rw [hplaced, List.length_append, List.length_append]
  obtain ⟨n, hn⟩ : ∃ n, (bodyText pad msg.hdr.tsxId msg.attrs).length + 1 =
      n + 1 + afingerprint.toList.length + amsgint.toList.length + front.length :=
    ⟨(bodyText pad msg.hdr.tsxId msg.attrs).length - msg.attrs.length, by omega⟩
  have hsplit : bodyText pad msg.hdr.tsxId msg.attrs = bodyText pad msg.hdr.tsxId front ++
      (bodyText pad msg.hdr.tsxId amsgint.toList ++ (bodyText pad msg.hdr.tsxId afingerprint.toList ++ [])) := by
    rw [hplaced, bodyText_append, bodyText_append, List.append_nil]
  rw [hn, hsplit]
  rw [hsplit, List.length_append, List.length_append, List.append_nil] at hbody
  have hmsgintBody : (bodyText pad msg.hdr.tsxId amsgint.toList).length < 65536 := by omega
  have hfingerprintBody : (bodyText pad msg.hdr.tsxId afingerprint.toList).length < 65536 := by omega
  obtain ⟨p, hp⟩ : ∃ p : Parsing, p = ⟨[] ++ front.map (Attr.received pad), false, false⟩ := ⟨_, rfl⟩
  have hpattrs : p.attrs = front.map (Attr.received pad) := by rw [hp, List.nil_append]
  have hplen : p.attrs.length = front.length := by rw [hpattrs, List.length_map]
  have hpfp : p.hasFingerprint = false := by rw [hp]
  have hpmi : p.hasMsgInt = false := by rw [hp]
  obtain ⟨p', hattrs', hfp', hmi⟩ := decodeLoop_msgint pad (bodyText pad msg.hdr.tsxId afingerprint.toList ++ [])
    hmsgint h.placed.msgint hpfp hpmi (by omega) hmsgintBody (n + 1 + afingerprint.toList.length)
  have hplen' : p'.attrs.length = front.length + amsgint.toList.length := by
    rw [hattrs', List.length_append, hplen, List.length_map]
  obtain ⟨p'', hattrs'', hfp⟩ := decodeLoop_fingerprint pad [] hfingerprint h.placed.fingerprint hfp' (by omega)
    hfingerprintBody (n + 1)
  refine ⟨p'', ?_, ?_⟩
  · rw [hattrs'', hattrs', hpattrs, hplaced, List.map_append, List.map_append, List.append_assoc]
  · rw [decodeLoop_plain pad _ (fun a ha => ⟨hfront a ha, h.placed.plain a ha⟩) rfl
      (by rw [List.length_nil]; omega) (by omega), ← hp, hmi, hfp]
    rfl

/-! The header. -/

theorem length_hdr_bytes (hdr : MsgHdr) (n : Nat) : (hdr.bytes n).length = 20 := by
  simp [MsgHdr.bytes, putVal32, putVal16]

section Header

variable (hdr : MsgHdr) (body : List UInt8)

theorem hdr_bytes_append (n : Nat) : hdr.bytes n ++ body =
    putVal16 hdr.type.toNat ++ (putVal16 n ++ (putVal32 hdr.magic.toNat ++ (hdr.tsxId.toList ++ body))) := by
  simp only [MsgHdr.bytes, List.append_assoc]

theorem getVal16_hdr_type (n : Nat) : getVal16 (hdr.bytes n ++ body) 0 = hdr.type.toNat := by
  rw [hdr_bytes_append]
  exact (getVal16_putVal16 [] _ hdr.type.toNat).trans (Nat.mod_eq_of_lt hdr.type.toNat_lt)

theorem getVal16_hdr_length {n : Nat} (hn : n < 65536) : getVal16 (hdr.bytes n ++ body) 2 = n := by
  rw [hdr_bytes_append]
  exact (getVal16_putVal16 (putVal16 hdr.type.toNat) _ n).trans (Nat.mod_eq_of_lt hn)

theorem getVal32_hdr_magic (n : Nat) : getVal32 (hdr.bytes n ++ body) 4 = hdr.magic.toNat := by
  rw [hdr_bytes_append, ← List.append_assoc]
  exact getVal32_putVal32 (putVal16 hdr.type.toNat ++ putVal16 n) _ hdr.magic.toNat_lt

theorem copyOf_hdr_tsxId (n : Nat) : copyOf 12 (hdr.bytes n ++ body) 8 = hdr.tsxId := by
  rw [hdr_bytes_append, ← List.append_assoc, ← List.append_assoc]
  exact copyOf_append (putVal16 hdr.type.toNat ++ putVal16 n ++ putVal32 hdr.magic.toNat) hdr.tsxId body

theorem slice_body (n : Nat) : slice (hdr.bytes n ++ body) 20 body.length = body := by
  have hslice := slice_append (hdr.bytes n) body []
  rw [List.append_nil, length_hdr_bytes] at hslice
  exact hslice

theorem byteAt_hdr_first {n : Nat} (htype : hdr.type < 0x200) :
    byteAt (hdr.bytes n ++ body) 0 = 0 ∨ byteAt (hdr.bytes n ++ body) 0 = 1 := by
  have hfirst : byteAt (hdr.bytes n ++ body) 0 = .ofNat (hdr.type.toNat / 256) := rfl
  have hlt : hdr.type.toNat < 0x200 := UInt16.lt_iff_toNat_lt.mp htype
  have hcases : hdr.type.toNat / 256 = 0 ∨ hdr.type.toNat / 256 = 1 := by omega
  rw [hfirst]
  rcases hcases with h | h
  · exact Or.inl (h ▸ rfl)
  · exact Or.inr (h ▸ rfl)

end Header

end Message

/-! The check of a packet. -/

theorem fingerprint_text (pad : UInt8) (tsxId : Vector UInt8 12) (value : UInt32) :
    (Attr.uint ⟨attrFingerprint, 4⟩ value).text pad tsxId =
      putVal16 attrFingerprint.toNat ++ (putVal16 4 ++ (putVal32 value.toNat ++ [])) := by
  have hlen : (putVal32 value.toNat).length = 4 := rfl
  have hpad : padding pad 4 = [] := rfl
  rw [Attr.text, attrText, Attr.wireValue, hlen, hpad]
  rfl

theorem align4_body (pad : UInt8) (tsxId : Vector UInt8 12) (attrs : List Attr) :
    (bodyText pad tsxId attrs).length % 4 = 0 := by
  induction attrs with
  | nil => rfl
  | cons attr more ih =>
    rw [bodyText, List.flatMap_cons, List.length_append, Attr.text, length_attrText, align4]
    rw [bodyText] at ih
    omega

section Check

variable (pad : UInt8) (digest : Digest) {hdr : MsgHdr} {body : List UInt8}

/-- FINGERPRINT, where it is the last attribute, holds the checksum of what is before it. -/
theorem read_fingerprint (h : FingerprintLast pad digest hdr body) :
    getVal16 (hdr.bytes body.length ++ body) (body.length + 14) = 4 ∧
      getVal32 (hdr.bytes body.length ++ body) (body.length + 16) =
        (digest.crc32 ((hdr.bytes body.length ++ body).take (body.length + 12)) ^^^ xorFingerprint).toNat := by
  obtain ⟨before, hbody⟩ := h
  obtain ⟨value, hvalue⟩ : ∃ value, value = digest.crc32 (hdr.bytes body.length ++ before) ^^^ xorFingerprint := ⟨_, rfl⟩
  obtain ⟨front, hfront⟩ : ∃ front, front = hdr.bytes body.length ++ before := ⟨_, rfl⟩
  rw [← hvalue, fingerprint_text] at hbody
  have hlen : front.length = body.length + 12 := by
    have hbodyLen := congrArg List.length hbody
    simp only [List.length_append, putVal16, putVal32, List.length_cons, List.length_nil] at hbodyLen
    rw [hfront, List.length_append, length_hdr_bytes]
    omega
  have hpdu : hdr.bytes body.length ++ body =
      front ++ (putVal16 attrFingerprint.toNat ++ (putVal16 4 ++ (putVal32 value.toNat ++ []))) := by
    rw [hfront, List.append_assoc, ← hbody]
  refine ⟨?_, ?_⟩
  · have hlength : (front ++ putVal16 attrFingerprint.toNat).length = body.length + 14 := by
      rw [List.length_append, hlen]
      rfl
    rw [hpdu, ← List.append_assoc, ← hlength]
    exact getVal16_putVal16 _ _ 4
  · have hlength : (front ++ putVal16 attrFingerprint.toNat ++ putVal16 4).length = body.length + 16 := by
      rw [List.length_append, List.length_append, hlen]
      rfl
    have hread := getVal32_putVal32 (front ++ putVal16 attrFingerprint.toNat ++ putVal16 4) [] value.toNat_lt
    rw [hlength, List.append_assoc, List.append_assoc] at hread
    rw [hpdu, hread, ← hlen, List.take_left, hvalue, hfront]

/-- What `pj_stun_msg_check` asks for: a type below 0x200, and if the last eight bytes look like FINGERPRINT, that
they are one or are not looked at. -/
def Checkable (hdr : MsgHdr) (afingerprint : Option Attr) (bytes : List UInt8) (options : Nat) : Prop :=
  hdr.type < 0x200 ∧ (options &&& noFingerprintCheck ≠ 0 ∨ afingerprint.isSome = true ∨
    getVal16 bytes (bytes.length - 8) ≠ attrFingerprint.toNat)

theorem msgCheck_bytes {afingerprint : Option Attr} {options : Nat} (hbody : body.length < 65536)
    (halign : body.length % 4 = 0) (hlast : afingerprint.isSome = true → FingerprintLast pad digest hdr body)
    (hcheck : Checkable hdr afingerprint (hdr.bytes body.length ++ body) options) :
    msgCheck digest (hdr.bytes body.length ++ body) options = .ok () := by
  obtain ⟨htype, hcases⟩ := hcheck
  have hlen : (hdr.bytes body.length ++ body).length = 20 + body.length := by
    rw [List.length_append, length_hdr_bytes]
  have hmsgLen := getVal16_hdr_length hdr body hbody
  have hfirst := byteAt_hdr_first hdr body (n := body.length) htype
  have hfirst' : ¬ (byteAt (hdr.bytes body.length ++ body) 0 ≠ 0 ∧ byteAt (hdr.bytes body.length ++ body) 0 ≠ 1) := by
    rintro ⟨hzero, hone⟩
    exact hfirst.elim hzero hone
  simp only [msgCheck, hmsgLen, hlen]
  rw [if_neg (by omega), if_neg hfirst', if_neg (by omega), if_neg (by omega)]
  rcases hcases with hno | hsome | hnot
  · rw [if_neg (fun h => hno h.2.1)]
  · obtain ⟨hfour, hvalue⟩ := read_fingerprint pad digest (hlast hsome)
    rw [if_neg (not_not.mpr hfour), if_neg (not_not.mpr hvalue.symm), ite_self]
  · rw [hlen, show 20 + body.length - 8 = body.length + 12 by omega] at hnot
    rw [if_neg (fun h => hnot h.2.2)]

end Check

section RoundTrip

variable (pad : UInt8) (digest : Digest) {msg : Msg} {front : List Attr} {amsgint afingerprint : Option Attr}

/-- Every message that can be sent and has room in the buffer is encoded, and the bytes are decoded to what the
message is after the encoding. Where the packet is to be checked it must be one that passes the check. -/
theorem decode_encode (h : msg.WellFormed front amsgint afingerprint) {bufSize : Nat} {key : Option (List UInt8)}
    (hkey : amsgint.isSome = true → key.isSome = true)
    (hfit : 20 + (bodyText pad msg.hdr.tsxId msg.attrs).length ≤ bufSize)
    (hbody : (bodyText pad msg.hdr.tsxId msg.attrs).length < 65536) :
    ∃ msg' bytes e, encode pad digest msg bufSize 0 key = .ok (msg', bytes) ∧
      msg'.hdr = { msg.hdr with length := .ofNat (bodyText pad msg.hdr.tsxId msg.attrs).length } ∧
      msg'.attrs = msg.attrs.map (Attr.fill e) ∧
      bytes.length = 20 + (bodyText pad msg.hdr.tsxId msg.attrs).length ∧
      ∀ options, (options &&& checkPacket = 0 ∨ Checkable msg.hdr afingerprint bytes options) →
        decode digest bytes options = .ok (⟨msg'.hdr, msg'.attrs.map (Attr.received pad)⟩, bytes.length) := by
  obtain ⟨e, hencode, hetext, hlast⟩ := encode_text pad digest h hkey hfit
  have helen : e.body.length = (bodyText pad msg.hdr.tsxId msg.attrs).length := by
    rw [hetext, length_bodyText_fill]
  rw [← helen] at hbody ⊢
  have hbytes : (msg.hdr.bytes e.body.length ++ e.body).length = 20 + e.body.length := by
    rw [List.length_append, length_hdr_bytes]
  refine ⟨_, _, e, hencode, rfl, rfl, hbytes, ?_⟩
  intro options hoptions
  have hmsgLen := getVal16_hdr_length msg.hdr e.body hbody
  have hchecked : (if options &&& checkPacket ≠ 0 then msgCheck digest (msg.hdr.bytes e.body.length ++ e.body) options
      else if (msg.hdr.bytes e.body.length ++ e.body).length < e.body.length + 20 ∨
        options &&& isDatagram ≠ 0 ∧ e.body.length + 20 ≠ (msg.hdr.bytes e.body.length ++ e.body).length then
          .error .einstunmsglen
        else .ok ()) = .ok () := by
    by_cases hcheck : options &&& checkPacket = 0
    · rw [if_neg (not_not.mpr hcheck), if_neg (by omega)]
    · have halign : e.body.length % 4 = 0 := by rw [helen, align4_body]
      rw [if_pos hcheck]
      exact msgCheck_bytes pad digest hbody halign hlast (hoptions.resolve_left hcheck)
  obtain ⟨p, hattrs, hloop⟩ := decodeLoop_bodyText pad (h.fill e (.ofNat e.body.length))
    (by rw [← hetext]; exact hbody)
  rw [← hetext] at hloop
  have hne : msg.hdr.bytes e.body.length ++ e.body ≠ [] := List.ne_nil_of_length_pos (by omega)
  rw [decode, if_neg hne]
  simp only [hmsgLen, hchecked, getVal16_hdr_type, getVal32_hdr_magic, copyOf_hdr_tsxId, UInt16.ofNat_toNat,
    UInt32.ofNat_toNat, Except.bind, UInt16.toNat_ofNat_of_lt' hbody, slice_body, hloop]
  rw [if_neg (not_not.mpr rfl), hattrs, hbytes]
  rfl

end RoundTrip

/-- A Binding request with SOFTWARE, an address that is XOR-ed, MESSAGE-INTEGRITY and FINGERPRINT. -/
def bindingRequest : Msg :=
  ⟨⟨0x0001, 0, stunMagic, sampleTsxId⟩,
    [.string ⟨attrSoftware, 2⟩ (ascii "pj"), .sockaddr ⟨0x0020, 8⟩ true (.ipv4 sampleAddress (htons 5060)),
      .msgint ⟨attrMessageIntegrity, 20⟩ (.replicate 20 0), .uint ⟨attrFingerprint, 4⟩ 0]⟩

/-- What is calculated for it with the key `secret`. -/
def bindingDigest : Digest where
  hmacSha1 _ _ := #v[0xC7, 0x0C, 0x4E, 0xE0, 0xEB, 0x4D, 0x39, 0x9C, 0x0F, 0xDE, 0x9E, 0x45, 0x89, 0x7B, 0x76, 0x42,
    0xE9, 0x04, 0xAF, 0xD5]
  crc32 _ := 0x91769D25

theorem wellFormed_bindingRequest : bindingRequest.WellFormed
    [.string ⟨attrSoftware, 2⟩ (ascii "pj"), .sockaddr ⟨0x0020, 8⟩ true (.ipv4 sampleAddress (htons 5060))]
    (some (.msgint ⟨attrMessageIntegrity, 20⟩ (.replicate 20 0))) (some (.uint ⟨attrFingerprint, 4⟩ 0)) := by
  refine ⟨rfl, by decide, ?_, rfl, by decide, ?_, ?_⟩
  · intro a ha
    simp only [bindingRequest, List.mem_cons, List.not_mem_nil, or_false] at ha
    rcases ha with rfl | rfl | rfl | rfl <;> exact ⟨rfl, rfl⟩
  · rintro a ⟨⟩
    rfl
  · rintro a ⟨⟩
    rfl

theorem decode_encode_bindingRequest :
    ∃ msg' bytes e, encode 0 bindingDigest bindingRequest 100 0 (some (ascii "secret")) = .ok (msg', bytes) ∧
      msg'.hdr = { bindingRequest.hdr with length := 52 } ∧ msg'.attrs = bindingRequest.attrs.map (Attr.fill e) ∧
      bytes.length = 72 ∧
      decode bindingDigest bytes checkPacket = .ok (⟨msg'.hdr, msg'.attrs.map (Attr.received 0)⟩, bytes.length) := by
  have hbody : (bodyText 0 bindingRequest.hdr.tsxId bindingRequest.attrs).length = 52 := by decide +kernel
  have hkey : true = true → (some (ascii "secret")).isSome = true := fun _ => rfl
  have hfit : 20 + (bodyText 0 bindingRequest.hdr.tsxId bindingRequest.attrs).length ≤ 100 := by
    rw [hbody]
    decide
  have hbodyLt : (bodyText 0 bindingRequest.hdr.tsxId bindingRequest.attrs).length < 65536 := by
    rw [hbody]
    decide
  obtain ⟨msg', bytes, e, hencode, hhdr, hattrs, hlen, hdecode⟩ :=
    decode_encode 0 bindingDigest wellFormed_bindingRequest hkey hfit hbodyLt
  rw [hbody] at hhdr hlen
  have hcheck : Checkable bindingRequest.hdr (some (.uint ⟨attrFingerprint, 4⟩ 0)) bytes checkPacket :=
    ⟨by decide, .inr (.inl rfl)⟩
  exact ⟨msg', bytes, e, hencode, hhdr, hattrs, hlen, hdecode checkPacket (.inr hcheck)⟩

/-- A packet is refused by the check for a type from 0x200 on and for last bytes that look like FINGERPRINT; and DATA
comes without its signature. -/
theorem refused_and_unsigned :
    (encode 0 bindingDigest ⟨⟨0x0200, 0, stunMagic, .replicate 12 0⟩, []⟩ 100 0 none).bind
        (fun sent => decode bindingDigest sent.2 checkPacket) = .error .einstunmsgtype ∧
      (encode 0 bindingDigest ⟨⟨0x0001, 0, stunMagic, #v[0, 0, 0, 0, 0x80, 0x28, 0, 0, 0, 0, 0, 0]⟩, []⟩ 100 0 none).bind
        (fun sent => decode bindingDigest sent.2 checkPacket) = .error .estuninattrlen ∧
      (encode 0 bindingDigest ⟨⟨0x0016, 0, stunMagic, .replicate 12 0⟩, [.binary ⟨0x0013, 1⟩ stunMagic [7]]⟩ 100 0
        none).bind (fun sent => decode bindingDigest sent.2 0) =
          .ok (⟨⟨0x0016, 8, stunMagic, .replicate 12 0⟩, [.binary ⟨0x0013, 1⟩ 0 [7]]⟩, 28) := by
  decide

end PjProject.Stun
