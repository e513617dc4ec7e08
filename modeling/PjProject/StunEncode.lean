import PjProject.StunAttrs

/-! The encoder of a message. The body is the attributes one behind the other, with what was calculated for
MESSAGE-INTEGRITY and FINGERPRINT. -/

namespace PjProject.Stun

/-- The attribute is one that can be sent: of the structure of its type, with the length of its value. -/
structure Attr.WellFormed (attr : Attr) : Prop where
  ofType : attr.OfType
  sized : attr.Sized

def Attr.text (pad : UInt8) (tsxId : Vector UInt8 12) (attr : Attr) : List UInt8 :=
  attrText pad attr.hdr.type (attr.wireValue pad tsxId)

def bodyText (pad : UInt8) (tsxId : Vector UInt8 12) (attrs : List Attr) : List UInt8 :=
  attrs.flatMap (Attr.text pad tsxId)

section Encoding

variable (pad : UInt8) {msghdr : MsgHdr}

theorem encodeAttr_text (hmagic : msghdr.magic = stunMagic) {attr : Attr} (h : attr.WellFormed) {len : Nat}
    (hlen : (attr.text pad msghdr.tsxId).length ≤ len) :
    encodeAttr pad msghdr attr len = .ok (attr.text pad msghdr.tsxId) := by
  rw [Attr.text, length_attrText] at hlen
  have hencode := encode_eq pad hmagic h.sized len
  rw [if_neg (Nat.not_lt.mpr hlen)] at hencode
  have htype := h.ofType
  rw [Attr.OfType] at htype
  cases hdesc : findAttrDesc attr.hdr.type.toNat with
  | some kind =>
    rw [hdesc] at htype
    simp only [encodeAttr, hdesc, if_pos htype.fits, hencode]
    rfl
  | none =>
    rw [hdesc] at htype
    cases attr with
    | binary hdr magic data =>
      obtain ⟨-, rfl⟩ : 0x7FFF < hdr.type.toNat ∧ magic = stunMagic := htype
      simp only [encodeAttr, hdesc, ne_eq, not_true_eq_false, if_false]
      exact hencode
    | sockaddr _ _ _ | empty _ | string _ _ | uint _ _ | uint64 _ _ _ | msgint _ _ | errcode _ _ _ | unknown _ _ =>
      exact htype.elim

theorem encodeLoop_text (hmagic : msghdr.magic = stunMagic) {front tail : List Attr}
    (hfront : ∀ a ∈ front, a.WellFormed ∧ a.isCalculated = false) (htail : ∀ a ∈ tail.head?, a.isCalculated = true)
    {size : Nat} (hsize : (bodyText pad msghdr.tsxId front).length ≤ size) :
    encodeLoop pad msghdr (front ++ tail) size = .ok (bodyText pad msghdr.tsxId front, tail) := by
  induction front generalizing size with
  | nil =>
    cases tail with
    | nil => rfl
    | cons attr more => exact if_pos (htail attr rfl)
  | cons attr more ih =>
    obtain ⟨hgood, hplain⟩ := hfront attr List.mem_cons_self
    have hcons : bodyText pad msghdr.tsxId (attr :: more) =
        attr.text pad msghdr.tsxId ++ bodyText pad msghdr.tsxId more := List.flatMap_cons
    rw [hcons, List.length_append] at hsize
    have hroom : (bodyText pad msghdr.tsxId more).length ≤ size - (attr.text pad msghdr.tsxId).length := by omega
    have hrest := ih (fun a ha => hfront a (List.mem_cons_of_mem attr ha)) hroom
    rw [List.cons_append, encodeLoop, if_neg (by rw [hplain]; exact Bool.false_ne_true),
      encodeAttr_text pad hmagic hgood (by omega)]
    simp only [Except.bind, hrest, Except.map, hcons]

end Encoding

/-- MESSAGE-INTEGRITY comes last, or just before a last FINGERPRINT. -/
structure Placed (attrs front : List Attr) (amsgint afingerprint : Option Attr) : Prop where
  attrs : attrs = front ++ (amsgint.toList ++ afingerprint.toList)
  plain : ∀ a ∈ front, a.isCalculated = false
  msgint : ∀ a ∈ amsgint, a.hdr.type = attrMessageIntegrity
  fingerprint : ∀ a ∈ afingerprint, a.hdr.type = attrFingerprint

theorem scan_eq {amsgint afingerprint : Option Attr} (hmsgint : ∀ a ∈ amsgint, a.hdr.type = attrMessageIntegrity)
    (hfingerprint : ∀ a ∈ afingerprint, a.hdr.type = attrFingerprint) :
    scan (amsgint.toList ++ afingerprint.toList) = .ok (amsgint, afingerprint) := by
  have hne : attrFingerprint ≠ attrMessageIntegrity := by decide
  cases amsgint with
  | none =>
    cases afingerprint with
    | none => rfl
    | some fp =>
      have hfp := hfingerprint fp rfl
      exact if_neg (hfp ▸ hne)
  | some mi =>
    have hmi := hmsgint mi rfl
    cases afingerprint with
    | none => exact if_pos hmi
    | some fp =>
      have hfp := hfingerprint fp rfl
      have hnotmi : ¬ fp.hdr.type = attrMessageIntegrity := hfp ▸ hne
      have hfirst : ¬ (none : Option Attr).isSome = true := Bool.false_ne_true
      show scan [mi, fp] = _
      rw [scan, if_pos hmi, scanRest, if_neg hfirst, if_neg hnotmi, if_pos hfp]
      rfl

theorem wellFormed_msgint {attr : Attr} (h : attr.WellFormed) (htype : attr.hdr.type = attrMessageIntegrity) :
    ∃ hmac, attr = .msgint ⟨attrMessageIntegrity, 20⟩ hmac := by
  have hof := h.ofType
  have hsized := h.sized
  rw [Attr.OfType, htype, show findAttrDesc attrMessageIntegrity.toNat = some .msgint by decide] at hof
  cases attr with
  | msgint hdr hmac =>
    obtain ⟨type, length⟩ := hdr
    obtain rfl : type = attrMessageIntegrity := htype
    obtain rfl : length = 20 := hsized
    exact ⟨hmac, rfl⟩
  | sockaddr _ _ _ | empty _ | string _ _ | uint _ _ | uint64 _ _ _ | errcode _ _ _ | unknown _ _ | binary _ _ _ =>
    exact absurd hof.fits Bool.false_ne_true

theorem wellFormed_fingerprint {attr : Attr} (h : attr.WellFormed) (htype : attr.hdr.type = attrFingerprint) :
    ∃ value, attr = .uint ⟨attrFingerprint, 4⟩ value := by
  have hof := h.ofType
  have hsized := h.sized
  rw [Attr.OfType, htype, show findAttrDesc attrFingerprint.toNat = some .uint by decide] at hof
  cases attr with
  | uint hdr value =>
    obtain ⟨type, length⟩ := hdr
    obtain rfl : type = attrFingerprint := htype
    obtain rfl : length = 4 := hsized
    exact ⟨value, rfl⟩
  | sockaddr _ _ _ | empty _ | string _ _ | msgint _ _ | uint64 _ _ _ | errcode _ _ _ | unknown _ _ | binary _ _ _ =>
    exact absurd hof.fits Bool.false_ne_true

/-! What is calculated. -/

theorem fill_plain {attr : Attr} (h : attr.isCalculated = false) (e : Encoded) : attr.fill e = attr := by
  obtain ⟨hmi, hfp⟩ := Bool.or_eq_false_iff.mp h
  have hnotmi := of_decide_eq_false hmi
  have hnotfp := of_decide_eq_false hfp
  cases attr with
  | msgint hdr hmac => exact congrArg (Attr.msgint hdr) (if_neg hnotmi)
  | uint hdr value => exact congrArg (Attr.uint hdr) (if_neg hnotfp)
  | sockaddr _ _ _ | empty _ | string _ _ | uint64 _ _ _ | errcode _ _ _ | unknown _ _ | binary _ _ _ => rfl

theorem bodyText_append (pad : UInt8) (tsxId : Vector UInt8 12) (front tail : List Attr) :
    bodyText pad tsxId (front ++ tail) = bodyText pad tsxId front ++ bodyText pad tsxId tail := List.flatMap_append

theorem bodyText_singleton (pad : UInt8) (tsxId : Vector UInt8 12) (attr : Attr) :
    bodyText pad tsxId [attr] = attr.text pad tsxId := List.flatMap_singleton _ _

section Calculated

variable (pad : UInt8) (digest : Digest) {msghdr : MsgHdr}

theorem length_msgint_text (hmac : Vector UInt8 20) (tsxId : Vector UInt8 12) :
    ((Attr.msgint ⟨attrMessageIntegrity, 20⟩ hmac).text pad tsxId).length = 24 := by
  rw [Attr.text, length_attrText, Attr.wireValue, Vector.length_toList]
  rfl

theorem length_fingerprint_text (value : UInt32) (tsxId : Vector UInt8 12) :
    ((Attr.uint ⟨attrFingerprint, 4⟩ value).text pad tsxId).length = 8 := by
  rw [Attr.text, length_attrText]
  simp [Attr.wireValue, putVal32, putVal16, align4]

theorem fill_msgint (old : Vector UInt8 20) (e : Encoded) :
    (Attr.msgint ⟨attrMessageIntegrity, 20⟩ old).fill e = .msgint ⟨attrMessageIntegrity, 20⟩ (e.hmac.getD old) :=
  congrArg (Attr.msgint _) (if_pos rfl)

theorem fill_fingerprint (old : UInt32) (e : Encoded) :
    (Attr.uint ⟨attrFingerprint, 4⟩ old).fill e = .uint ⟨attrFingerprint, 4⟩ (e.fingerprint.getD old) :=
  congrArg (Attr.uint _) (if_pos rfl)

theorem addMsgint_text (hmagic : msghdr.magic = stunMagic) {key : Option (List UInt8)} {amsgint : Option Attr}
    (hmsgint : ∀ a ∈ amsgint, ∃ hmac, a = .msgint ⟨attrMessageIntegrity, 20⟩ hmac)
    (hkey : amsgint.isSome = true → key.isSome = true) {body : List UInt8} {size : Nat}
    (hsize : body.length + (bodyText pad msghdr.tsxId amsgint.toList).length ≤ size) :
    ∃ e, addMsgint digest msghdr key amsgint body size = .ok e ∧
      e.body = body ++ bodyText pad msghdr.tsxId (amsgint.toList.map (Attr.fill e)) ∧
      e.body.length = body.length + (bodyText pad msghdr.tsxId amsgint.toList).length ∧
      e.length = e.body.length ∧ e.fingerprint = none := by
  cases amsgint with
  | none => exact ⟨_, rfl, (List.append_nil _).symm, rfl, rfl, rfl⟩
  | some attr =>
    obtain ⟨old, rfl⟩ := hmsgint attr rfl
    obtain ⟨key, rfl⟩ := Option.isSome_iff_exists.mp (hkey rfl)
    obtain ⟨hmac, hhmac⟩ : ∃ hmac, hmac = digest.hmacSha1 key (msghdr.bytes (body.length + 24) ++ body) := ⟨_, rfl⟩
    rw [Option.toList_some, bodyText_singleton, length_msgint_text] at hsize ⊢
    have hencode : encodeMsgintAttr ⟨attrMessageIntegrity, 20⟩ hmac (size - body.length) =
        .ok ((Attr.msgint ⟨attrMessageIntegrity, 20⟩ hmac).text pad msghdr.tsxId) := by
      have hsized : (Attr.msgint ⟨attrMessageIntegrity, 20⟩ hmac).Sized := rfl
      have hroom : ¬ size - body.length < align4 20 + 4 := by
        rw [align4]
        omega
      have hall := encode_eq pad hmagic hsized (size - body.length)
      rw [Attr.wireValue, Vector.length_toList, if_neg hroom] at hall
      exact hall
    refine ⟨⟨body.length + 24, body ++ (Attr.msgint ⟨attrMessageIntegrity, 20⟩ hmac).text pad msghdr.tsxId, some hmac,
      none⟩, ?_, ?_, ?_, ?_, rfl⟩
    · simp only [addMsgint, ← hhmac, Attr.hdr, hencode, Except.map]
    · rw [List.map_singleton, fill_msgint, bodyText_singleton]
      rfl
    · rw [List.length_append, length_msgint_text]
    · rw [List.length_append, length_msgint_text]

theorem addFingerprint_text (hmagic : msghdr.magic = stunMagic) {afingerprint : Option Attr}
    (hfingerprint : ∀ a ∈ afingerprint, ∃ value, a = .uint ⟨attrFingerprint, 4⟩ value) {e : Encoded} {size : Nat}
    (hlength : e.length = e.body.length)
    (hsize : e.body.length + (bodyText pad msghdr.tsxId afingerprint.toList).length ≤ size) :
    ∃ e', addFingerprint digest msghdr afingerprint e size = .ok e' ∧
      e'.body = e.body ++ bodyText pad msghdr.tsxId (afingerprint.toList.map (Attr.fill e')) ∧
      e'.length = e'.body.length ∧ e'.hmac = e.hmac ∧
      (afingerprint.isSome = true → e'.body = e.body ++ (Attr.uint ⟨attrFingerprint, 4⟩
        (digest.crc32 (msghdr.bytes e'.body.length ++ e.body) ^^^ xorFingerprint)).text pad msghdr.tsxId) := by
  cases afingerprint with
  | none => exact ⟨e, rfl, (List.append_nil _).symm, hlength, rfl, nofun⟩
  | some attr =>
    obtain ⟨old, rfl⟩ := hfingerprint attr rfl
    obtain ⟨value, hvalue⟩ : ∃ value, value = digest.crc32 (msghdr.bytes (e.length + 8) ++ e.body) ^^^ xorFingerprint :=
      ⟨_, rfl⟩
    rw [Option.toList_some, bodyText_singleton, length_fingerprint_text] at hsize
    have hencode : encodeUintAttr ⟨attrFingerprint, 4⟩ value (size - e.body.length) =
        .ok ((Attr.uint ⟨attrFingerprint, 4⟩ value).text pad msghdr.tsxId) := by
      have hsized : (Attr.uint ⟨attrFingerprint, 4⟩ value).Sized := rfl
      have hall := encode_eq pad hmagic hsized (size - e.body.length)
      have htext := length_fingerprint_text pad value msghdr.tsxId
      rw [Attr.text, length_attrText] at htext
      rw [htext, if_neg (by omega)] at hall
      exact hall
    have hbody : (e.body ++ (Attr.uint ⟨attrFingerprint, 4⟩ value).text pad msghdr.tsxId).length = e.length + 8 := by
      rw [List.length_append, length_fingerprint_text, hlength]
    refine ⟨⟨e.length + 8, e.body ++ (Attr.uint ⟨attrFingerprint, 4⟩ value).text pad msghdr.tsxId, e.hmac, some value⟩,
      ?_, ?_, ?_, rfl, ?_⟩
    · simp only [addFingerprint, ← hvalue, Attr.hdr, hencode, Except.map]
    · rw [Option.toList_some, List.map_singleton, fill_fingerprint, bodyText_singleton]
      rfl
    · exact hbody.symm
    · intro _
      rw [hbody, ← hvalue]

end Calculated

/-- A message that can be sent. -/
structure Msg.WellFormed (msg : Msg) (front : List Attr) (amsgint afingerprint : Option Attr) : Prop where
  magic : msg.hdr.magic = stunMagic
  count : msg.attrs.length ≤ maxAttr
  attrs : ∀ a ∈ msg.attrs, a.WellFormed
  placed : Placed msg.attrs front amsgint afingerprint

section Message

variable (pad : UInt8) (digest : Digest) {msg : Msg} {front : List Attr} {amsgint afingerprint : Option Attr}

theorem map_fill_plain {attrs : List Attr} (h : ∀ a ∈ attrs, a.isCalculated = false) (e : Encoded) :
    attrs.map (Attr.fill e) = attrs := by
  have hmap : attrs.map (Attr.fill e) = attrs.map id := List.map_congr_left fun a ha => fill_plain (h a ha) e
  rw [hmap, List.map_id]

theorem Msg.WellFormed.msgint (h : msg.WellFormed front amsgint afingerprint) :
    ∀ a ∈ amsgint, ∃ hmac, a = .msgint ⟨attrMessageIntegrity, 20⟩ hmac := by
  intro a ha
  refine wellFormed_msgint (h.attrs a ?_) (h.placed.msgint a ha)
  rw [h.placed.attrs]
  exact List.mem_append_right _ (List.mem_append_left _ (Option.mem_toList.mpr ha))

theorem Msg.WellFormed.fingerprint (h : msg.WellFormed front amsgint afingerprint) :
    ∀ a ∈ afingerprint, ∃ value, a = .uint ⟨attrFingerprint, 4⟩ value := by
  intro a ha
  refine wellFormed_fingerprint (h.attrs a ?_) (h.placed.fingerprint a ha)
  rw [h.placed.attrs]
  exact List.mem_append_right _ (List.mem_append_right _ (Option.mem_toList.mpr ha))

/-- The checksum of FINGERPRINT is over all that is before it, with its own length counted in. -/
def FingerprintLast (pad : UInt8) (digest : Digest) (hdr : MsgHdr) (body : List UInt8) : Prop :=
  ∃ before, body = before ++ (Attr.uint ⟨attrFingerprint, 4⟩
    (digest.crc32 (hdr.bytes body.length ++ before) ^^^ xorFingerprint)).text pad hdr.tsxId

theorem encode_text (h : msg.WellFormed front amsgint afingerprint) {bufSize : Nat} {key : Option (List UInt8)}
    (hkey : amsgint.isSome = true → key.isSome = true)
    (hfit : 20 + (bodyText pad msg.hdr.tsxId msg.attrs).length ≤ bufSize) :
    ∃ e, encode pad digest msg bufSize 0 key =
        .ok (⟨{ msg.hdr with length := .ofNat e.body.length }, msg.attrs.map (Attr.fill e)⟩,
          msg.hdr.bytes e.body.length ++ e.body) ∧
      e.body = bodyText pad msg.hdr.tsxId (msg.attrs.map (Attr.fill e)) ∧
      (afingerprint.isSome = true → FingerprintLast pad digest msg.hdr e.body) := by
  have hsplit : bodyText pad msg.hdr.tsxId msg.attrs = bodyText pad msg.hdr.tsxId front ++
      (bodyText pad msg.hdr.tsxId amsgint.toList ++ bodyText pad msg.hdr.tsxId afingerprint.toList) := by
    rw [h.placed.attrs, bodyText_append, bodyText_append]
  rw [hsplit, List.length_append, List.length_append] at hfit
  have hfront : ∀ a ∈ front, a.WellFormed ∧ a.isCalculated = false := by
    intro a ha
    refine ⟨h.attrs a ?_, h.placed.plain a ha⟩
    rw [h.placed.attrs]
    exact List.mem_append_left _ ha
  have htail : ∀ a ∈ (amsgint.toList ++ afingerprint.toList).head?, a.isCalculated = true := by
    intro a ha
    have hmem : a ∈ amsgint.toList ++ afingerprint.toList := List.mem_of_mem_head? ha
    rw [Attr.isCalculated, Bool.or_eq_true]
    rcases List.mem_append.mp hmem with hmi | hfp
    · exact Or.inl (decide_eq_true (h.placed.msgint a (Option.mem_toList.mp hmi)))
    · exact Or.inr (decide_eq_true (h.placed.fingerprint a (Option.mem_toList.mp hfp)))
  have hfrontRoom : (bodyText pad msg.hdr.tsxId front).length ≤ bufSize - 20 := by omega
  have hmsgintRoom : (bodyText pad msg.hdr.tsxId front).length + (bodyText pad msg.hdr.tsxId amsgint.toList).length ≤
      bufSize - 20 := by omega
  have hloop := encodeLoop_text pad h.magic hfront htail hfrontRoom
  rw [← h.placed.attrs] at hloop
  have hscan := scan_eq h.placed.msgint h.placed.fingerprint
  obtain ⟨e, hadd, hbody, hlen, hlength, -⟩ := addMsgint_text pad digest h.magic h.msgint hkey hmsgintRoom
  have hroom : e.body.length + (bodyText pad msg.hdr.tsxId afingerprint.toList).length ≤ bufSize - 20 := by omega
  obtain ⟨e', hadd', hbody', hlength', hhmac, hcrc⟩ := addFingerprint_text pad digest h.magic h.fingerprint hlength hroom
  have hmsgint : amsgint.toList.map (Attr.fill e') = amsgint.toList.map (Attr.fill e) := by
    apply List.map_congr_left
    intro a ha
    obtain ⟨old, rfl⟩ := h.msgint a (Option.mem_toList.mp ha)
    rw [fill_msgint, fill_msgint, hhmac]
  refine ⟨e', ?_, ?_, ?_⟩
  · rw [encode, if_neg (by omega), if_neg (by omega), hloop]
    simp only [Except.bind, hscan, hadd, hadd', Except.map, hlength']
  · rw [hbody', hbody, h.placed.attrs, List.map_append, List.map_append, map_fill_plain h.placed.plain, hmsgint,
      bodyText_append, bodyText_append, List.append_assoc]
  · exact fun hsome => ⟨e.body, hcrc hsome⟩

end Message

/-! What is calculated does not change the form of an attribute. -/

theorem hdr_fill (e : Encoded) (attr : Attr) : (attr.fill e).hdr = attr.hdr := by
  cases attr with
  | sockaddr _ _ _ | empty _ | string _ _ | uint _ _ | uint64 _ _ _ | msgint _ _ | errcode _ _ _ | unknown _ _
  | binary _ _ _ => rfl

theorem wellFormed_fill {attr : Attr} (h : attr.WellFormed) (e : Encoded) : (attr.fill e).WellFormed := by
  obtain ⟨hof, hsized⟩ := h
  cases attr with
  | msgint hdr hmac =>
    refine ⟨?_, hsized⟩
    rw [Attr.OfType, hdr_fill]
    rw [Attr.OfType] at hof
    cases hdesc : findAttrDesc (Attr.msgint hdr hmac).hdr.type.toNat with
    | none => exact (hdesc ▸ hof : Describes none (.msgint hdr hmac)).elim
    | some kind =>
      rw [hdesc] at hof
      cases kind <;> exact hof
  | uint hdr value =>
    refine ⟨?_, hsized⟩
    rw [Attr.OfType, hdr_fill]
    rw [Attr.OfType] at hof
    cases hdesc : findAttrDesc (Attr.uint hdr value).hdr.type.toNat with
    | none => exact (hdesc ▸ hof : Describes none (.uint hdr value)).elim
    | some kind =>
      rw [hdesc] at hof
      cases kind <;> exact hof
  | sockaddr _ _ _ | empty _ | string _ _ | uint64 _ _ _ | errcode _ _ _ | unknown _ _ | binary _ _ _ =>
    exact ⟨hof, hsized⟩

theorem length_text_fill (pad : UInt8) (tsxId : Vector UInt8 12) (e : Encoded) (attr : Attr) :
    ((attr.fill e).text pad tsxId).length = (attr.text pad tsxId).length := by
  rw [Attr.text, Attr.text, length_attrText, length_attrText]
  cases attr with
  | msgint hdr hmac => rw [Attr.fill, Attr.wireValue, Attr.wireValue, Vector.length_toList, Vector.length_toList]
  | sockaddr _ _ _ | empty _ | string _ _ | uint _ _ | uint64 _ _ _ | errcode _ _ _ | unknown _ _ | binary _ _ _ =>
    rfl

theorem length_bodyText_fill (pad : UInt8) (tsxId : Vector UInt8 12) (e : Encoded) (attrs : List Attr) :
    (bodyText pad tsxId (attrs.map (Attr.fill e))).length = (bodyText pad tsxId attrs).length := by
  induction attrs with
  | nil => rfl
  | cons attr more ih =>
    rw [List.map_cons, bodyText, bodyText, List.flatMap_cons, List.flatMap_cons, List.length_append, List.length_append,
      length_text_fill]
    exact congrArg _ ih

theorem Msg.WellFormed.fill {msg : Msg} {front : List Attr} {amsgint afingerprint : Option Attr}
    (h : msg.WellFormed front amsgint afingerprint) (e : Encoded) (length : UInt16) :
    Msg.WellFormed ⟨{ msg.hdr with length := length }, msg.attrs.map (Attr.fill e)⟩ front (amsgint.map (Attr.fill e))
      (afingerprint.map (Attr.fill e)) := by
  refine ⟨h.magic, ?_, ?_, ?_, h.placed.plain, ?_, ?_⟩
  · rw [List.length_map]
    exact h.count
  · intro a ha
    obtain ⟨attr, hattr, rfl⟩ := List.mem_map.mp ha
    exact wellFormed_fill (h.attrs attr hattr) e
  · rw [h.placed.attrs, List.map_append, List.map_append, map_fill_plain h.placed.plain, Option.toList_map,
      Option.toList_map]
  · intro a ha
    obtain ⟨attr, hattr, rfl⟩ := Option.mem_map.mp ha
    rw [hdr_fill]
    exact h.placed.msgint attr hattr
  · intro a ha
    obtain ⟨attr, hattr, rfl⟩ := Option.mem_map.mp ha
    rw [hdr_fill]
    exact h.placed.fingerprint attr hattr

end PjProject.Stun
