import PjProject.StunSizes
import Mathlib.Data.List.Forall2

/-! Whether every attribute of a message gets into the encoded message. The second loop of `pj_stun_msg_encode` looks for
FINGERPRINT behind MESSAGE-INTEGRITY and passes over everything else. -/

namespace PjProject.Stun

section

variable (pad : UInt8) (msghdr : MsgHdr)

/-- The piece of the body that the attribute gets, with whatever is calculated for MESSAGE-INTEGRITY and FINGERPRINT. -/
def Attr.Encodes (attr : Attr) (piece : List UInt8) : Prop :=
  if attr.hdr.type = attrMessageIntegrity then ∃ hmac len, encodeMsgintAttr attr.hdr hmac len = .ok piece
  else if attr.hdr.type = attrFingerprint then ∃ value len, encodeUintAttr attr.hdr value len = .ok piece
  else ∃ len, encodeAttr pad msghdr attr len = .ok piece

/-- The message consists of its header and a piece for each attribute, in their order. -/
def Appear (attrs : List Attr) (message : List UInt8) : Prop :=
  ∃ pieces, List.Forall₂ (Attr.Encodes pad msghdr) attrs pieces ∧ message.drop 20 = pieces.flatten

end

/-- Nothing but FINGERPRINT comes behind MESSAGE-INTEGRITY. -/
def MsgintLast (attrs : List Attr) : Prop :=
  ∀ front attr tail, attrs = front ++ attr :: tail → attr.hdr.type = attrMessageIntegrity →
    ∀ a ∈ tail, a.hdr.type = attrFingerprint

/-- The room an attribute takes up in a body that it appears in. -/
def Attr.pieceSize (attr : Attr) : Nat :=
  if attr.hdr.type = attrMessageIntegrity then 24 else if attr.hdr.type = attrFingerprint then 8 else attr.encodedSize

theorem pieceSize_pos (attr : Attr) : 0 < attr.pieceSize := by
  unfold Attr.pieceSize
  have hfour := four_le_encodedSize attr
  split
  · decide
  split
  · decide
  · omega

theorem length_encodeMsgintAttr {hdr : AttrHdr} {hmac : Vector UInt8 20} {len : Nat} {bytes : List UInt8}
    (h : encodeMsgintAttr hdr hmac len = .ok bytes) : bytes.length = 24 := by
  unfold encodeMsgintAttr at h
  split at h
  · cases h
  · cases h
    simp [putVal16]

theorem length_encodeUintAttr {hdr : AttrHdr} {value : UInt32} {len : Nat} {bytes : List UInt8}
    (h : encodeUintAttr hdr value len = .ok bytes) : bytes.length = 8 := by
  unfold encodeUintAttr at h
  split at h
  · cases h
  · cases h
    rfl

section

variable {pad : UInt8} {msghdr : MsgHdr}

theorem Attr.Encodes.length {attr : Attr} {piece : List UInt8} (h : attr.Encodes pad msghdr piece) :
    piece.length = attr.pieceSize := by
  unfold Attr.Encodes at h
  unfold Attr.pieceSize
  by_cases hmi : attr.hdr.type = attrMessageIntegrity
  · rw [if_pos hmi] at h
    obtain ⟨hmac, len, hencode⟩ := h
    rw [if_pos hmi]
    exact length_encodeMsgintAttr hencode
  · rw [if_neg hmi] at h
    rw [if_neg hmi]
    by_cases hfp : attr.hdr.type = attrFingerprint
    · rw [if_pos hfp] at h
      obtain ⟨value, len, hencode⟩ := h
      rw [if_pos hfp]
      exact length_encodeUintAttr hencode
    · rw [if_neg hfp] at h
      obtain ⟨len, hencode⟩ := h
      rw [if_neg hfp]
      exact length_of_encodeAttr pad msghdr hencode

theorem length_pieces {attrs : List Attr} {pieces : List (List UInt8)}
    (h : List.Forall₂ (Attr.Encodes pad msghdr) attrs pieces) :
    pieces.flatten.length = (attrs.map Attr.pieceSize).sum := by
  induction h with
  | nil => rfl
  | cons hpiece _ ih => rw [List.flatten_cons, List.length_append, hpiece.length, ih, List.map_cons, List.sum_cons]

theorem isCalculated_eq_false {attr : Attr} :
    attr.isCalculated = false ↔ attr.hdr.type ≠ attrMessageIntegrity ∧ attr.hdr.type ≠ attrFingerprint := by
  unfold Attr.isCalculated
  rw [Bool.or_eq_false_iff, decide_eq_false_iff_not, decide_eq_false_iff_not]

theorem exists_encodeLoop {attrs left : List Attr} {size : Nat} {body : List UInt8}
    (h : encodeLoop pad msghdr attrs size = .ok (body, left)) :
    ∃ front pieces, attrs = front ++ left ∧ (∀ a ∈ front, a.isCalculated = false) ∧
      (∀ a ∈ left.head?, a.isCalculated = true) ∧ List.Forall₂ (Attr.Encodes pad msghdr) front pieces ∧
      body = pieces.flatten := by
  induction attrs generalizing size body with
  | nil =>
    cases h
    exact ⟨[], [], rfl, nofun, nofun, .nil, rfl⟩
  | cons attr more ih =>
    rw [encodeLoop] at h
    split at h
    case isTrue hcalc =>
      cases h
      refine ⟨[], [], rfl, nofun, fun a ha => ?_, .nil, rfl⟩
      rw [← Option.some.inj ha]
      exact hcalc
    case isFalse hcalc =>
      cases hencode : encodeAttr pad msghdr attr size with
      | error status =>
        rw [hencode] at h
        cases h
      | ok bytes =>
        rw [hencode] at h
        cases hrest : encodeLoop pad msghdr more (size - bytes.length) with
        | error status =>
          simp only [Except.bind, hrest, Except.map] at h
          cases h
        | ok result =>
          obtain ⟨rest, left'⟩ := result
          simp only [Except.bind, hrest, Except.map, Except.ok.injEq, Prod.mk.injEq] at h
          obtain ⟨rfl, rfl⟩ := h
          obtain ⟨front, pieces, rfl, hfront, hleft, hpieces, rfl⟩ := ih hrest
          have hplain : attr.isCalculated = false := Bool.eq_false_iff.mpr hcalc
          obtain ⟨hmi, hfp⟩ := isCalculated_eq_false.mp hplain
          refine ⟨attr :: front, bytes :: pieces, rfl, ?_, hleft, .cons ?_ hpieces, rfl⟩
          · intro a ha
            rcases List.mem_cons.mp ha with rfl | ha
            · exact hplain
            · exact hfront a ha
          · unfold Attr.Encodes
            rw [if_neg hmi, if_neg hfp]
            exact ⟨size, hencode⟩

end

theorem scanRest_fingerprint {attrs : List Attr} {amsgint : Option Attr} {fp : Attr} {result : Option Attr × Option Attr}
    (h : scanRest attrs amsgint (some fp) = .ok result) : attrs = [] ∧ result = (amsgint, some fp) := by
  cases attrs with
  | nil =>
    cases h
    exact ⟨rfl, rfl⟩
  | cons attr more =>
    rw [scanRest] at h
    cases h

/-- Behind MESSAGE-INTEGRITY the second loop passes over what is not calculated. -/
theorem scanRest_msgint {attrs : List Attr} {mi : Attr} {amsgint afingerprint : Option Attr}
    (h : scanRest attrs (some mi) none = .ok (amsgint, afingerprint)) :
    amsgint = some mi ∧ ∃ lost, attrs = lost ++ afingerprint.toList ∧ (∀ a ∈ lost, a.isCalculated = false) ∧
      ∀ a ∈ afingerprint, a.hdr.type = attrFingerprint := by
  induction attrs with
  | nil =>
    cases h
    exact ⟨rfl, [], rfl, nofun, nofun⟩
  | cons attr more ih =>
    rw [scanRest, if_neg (by exact Bool.false_ne_true)] at h
    by_cases hmi : attr.hdr.type = attrMessageIntegrity
    · rw [if_pos hmi] at h
      cases h
    · rw [if_neg hmi] at h
      by_cases hfp : attr.hdr.type = attrFingerprint
      · rw [if_pos hfp] at h
        obtain ⟨rfl, hresult⟩ := scanRest_fingerprint h
        cases hresult
        refine ⟨rfl, [], rfl, nofun, fun a ha => ?_⟩
        rw [← Option.some.inj ha]
        exact hfp
      · rw [if_neg hfp] at h
        obtain ⟨hmsgint, lost, rfl, hlost, hfingerprint⟩ := ih h
        refine ⟨hmsgint, attr :: lost, rfl, fun a ha => ?_, hfingerprint⟩
        rcases List.mem_cons.mp ha with rfl | ha
        · exact isCalculated_eq_false.mpr ⟨hmi, hfp⟩
        · exact hlost a ha

/-- What the second loop makes of the attributes that the first one has left. -/
structure Scanned (left lost : List Attr) (amsgint afingerprint : Option Attr) : Prop where
  left : left = amsgint.toList ++ (lost ++ afingerprint.toList)
  lost : ∀ a ∈ lost, a.isCalculated = false ∧ amsgint.isSome = true
  msgint : ∀ a ∈ amsgint, a.hdr.type = attrMessageIntegrity
  fingerprint : ∀ a ∈ afingerprint, a.hdr.type = attrFingerprint

theorem exists_scanned {left : List Attr} {amsgint afingerprint : Option Attr}
    (hleft : ∀ a ∈ left.head?, a.isCalculated = true) (h : scan left = .ok (amsgint, afingerprint)) :
    ∃ lost, Scanned left lost amsgint afingerprint := by
  cases left with
  | nil =>
    cases h
    exact ⟨[], rfl, nofun, nofun, nofun⟩
  | cons attr more =>
    rw [scan] at h
    by_cases hmi : attr.hdr.type = attrMessageIntegrity
    · rw [if_pos hmi] at h
      obtain ⟨rfl, lost, rfl, hlost, hfingerprint⟩ := scanRest_msgint h
      refine ⟨lost, rfl, fun a ha => ⟨hlost a ha, rfl⟩, fun a ha => ?_, hfingerprint⟩
      rw [← Option.some.inj ha]
      exact hmi
    · rw [if_neg hmi] at h
      obtain ⟨rfl, hresult⟩ := scanRest_fingerprint h
      cases hresult
      refine ⟨[], rfl, nofun, nofun, fun a ha => ?_⟩
      rw [← Option.some.inj ha]
      have hcalc := hleft attr rfl
      rw [Attr.isCalculated, decide_eq_false hmi, Bool.false_or] at hcalc
      exact of_decide_eq_true hcalc

section

variable {pad : UInt8} {digest : Digest} {msghdr : MsgHdr}

theorem exists_addMsgint {key : Option (List UInt8)} {amsgint : Option Attr} {body : List UInt8} {size : Nat} {e : Encoded}
    (hmsgint : ∀ a ∈ amsgint, a.hdr.type = attrMessageIntegrity)
    (h : addMsgint digest msghdr key amsgint body size = .ok e) :
    ∃ pieces, List.Forall₂ (Attr.Encodes pad msghdr) amsgint.toList pieces ∧ e.body = body ++ pieces.flatten := by
  cases amsgint with
  | none =>
    cases h
    exact ⟨[], .nil, (List.append_nil body).symm⟩
  | some attr =>
    cases key with
    | none => cases h
    | some key =>
      obtain ⟨hmac, hhmac⟩ : ∃ hmac, hmac = digest.hmacSha1 key (msghdr.bytes (body.length + 24) ++ body) := ⟨_, rfl⟩
      simp only [addMsgint, ← hhmac] at h
      cases hencode : encodeMsgintAttr attr.hdr hmac (size - body.length) with
      | error status =>
        rw [hencode] at h
        cases h
      | ok bytes =>
        rw [hencode] at h
        cases h
        refine ⟨[bytes], .cons ?_ .nil, by rw [List.flatten_singleton]⟩
        unfold Attr.Encodes
        rw [if_pos (hmsgint attr rfl)]
        exact ⟨hmac, _, hencode⟩

theorem exists_addFingerprint {afingerprint : Option Attr} {size : Nat} {e next : Encoded}
    (hfingerprint : ∀ a ∈ afingerprint, a.hdr.type = attrFingerprint)
    (h : addFingerprint digest msghdr afingerprint e size = .ok next) :
    ∃ pieces, List.Forall₂ (Attr.Encodes pad msghdr) afingerprint.toList pieces ∧
      next.body = e.body ++ pieces.flatten := by
  cases afingerprint with
  | none =>
    cases h
    exact ⟨[], .nil, (List.append_nil e.body).symm⟩
  | some attr =>
    obtain ⟨value, hvalue⟩ : ∃ value,
      value = digest.crc32 (msghdr.bytes (e.length + 8) ++ e.body) ^^^ xorFingerprint := ⟨_, rfl⟩
    simp only [addFingerprint, ← hvalue] at h
    cases hencode : encodeUintAttr attr.hdr value (size - e.body.length) with
    | error status =>
      rw [hencode] at h
      cases h
    | ok bytes =>
      rw [hencode] at h
      cases h
      have hfp := hfingerprint attr rfl
      refine ⟨[bytes], .cons ?_ .nil, by rw [List.flatten_singleton]⟩
      unfold Attr.Encodes
      rw [if_neg (by rw [hfp]; decide), if_pos hfp]
      exact ⟨value, _, hencode⟩

end

/-- A message that has been encoded: the attributes in the body are all but those in `lost`. -/
structure Sent (pad : UInt8) (msg : Msg) (message : List UInt8) (front lost : List Attr)
    (amsgint afingerprint : Option Attr) : Prop where
  attrs : msg.attrs = front ++ (amsgint.toList ++ (lost ++ afingerprint.toList))
  plain : ∀ a ∈ front, a.isCalculated = false
  passed : ∀ a ∈ lost, a.isCalculated = false ∧ amsgint.isSome = true
  msgint : ∀ a ∈ amsgint, a.hdr.type = attrMessageIntegrity
  fingerprint : ∀ a ∈ afingerprint, a.hdr.type = attrFingerprint
  appear : Appear pad msg.hdr (front ++ (amsgint.toList ++ afingerprint.toList)) message

theorem length_bytes (hdr : MsgHdr) (length : Nat) : (hdr.bytes length).length = 20 := by
  unfold MsgHdr.bytes
  rw [List.length_append, Vector.length_toList]
  rfl

/-- The parts of an encoding that succeeds, with `size` bytes behind the header. -/
structure Encoding (pad : UInt8) (digest : Digest) (msg : Msg) (key : Option (List UInt8)) (size : Nat)
    (body : List UInt8) (left : List Attr) (amsgint afingerprint : Option Attr) (e next : Encoded) : Prop where
  loop : encodeLoop pad msg.hdr msg.attrs size = .ok (body, left)
  scan : Stun.scan left = .ok (amsgint, afingerprint)
  msgint : addMsgint digest msg.hdr key amsgint body size = .ok e
  fingerprint : addFingerprint digest msg.hdr afingerprint e size = .ok next

theorem exists_encoding {pad : UInt8} {digest : Digest} {msg msg' : Msg} {bufSize options : Nat}
    {key : Option (List UInt8)} {message : List UInt8}
    (h : encode pad digest msg bufSize options key = .ok (msg', message)) :
    20 ≤ bufSize ∧ ∃ body left amsgint afingerprint e next,
      Encoding pad digest msg key (bufSize - 20) body left amsgint afingerprint e next ∧
      (⟨{ msg.hdr with length := .ofNat next.body.length }, msg.attrs.map (Attr.fill next)⟩,
        msg.hdr.bytes next.length ++ next.body) = (msg', message) := by
  unfold encode at h
  split at h
  case isTrue => cases h
  split at h
  case isTrue => cases h
  case isFalse hsize =>
    cases hloop : encodeLoop pad msg.hdr msg.attrs (bufSize - 20) with
    | error status =>
      rw [hloop] at h
      cases h
    | ok result =>
      obtain ⟨body, left⟩ := result
      simp only [hloop, Except.bind] at h
      cases hscan : scan left with
      | error status =>
        rw [hscan] at h
        cases h
      | ok result =>
        obtain ⟨amsgint, afingerprint⟩ := result
        simp only [hscan] at h
        cases hmsgint : addMsgint digest msg.hdr key amsgint body (bufSize - 20) with
        | error status =>
          rw [hmsgint] at h
          cases h
        | ok e =>
          simp only [hmsgint] at h
          cases hfingerprint : addFingerprint digest msg.hdr afingerprint e (bufSize - 20) with
          | error status =>
            rw [hfingerprint] at h
            cases h
          | ok next =>
            rw [hfingerprint] at h
            exact ⟨Nat.not_lt.mp hsize, body, left, amsgint, afingerprint, e, next,
              ⟨hloop, hscan, hmsgint, hfingerprint⟩, Except.ok.inj h⟩

theorem exists_sent {pad : UInt8} {digest : Digest} {msg msg' : Msg} {bufSize options : Nat} {key : Option (List UInt8)}
    {message : List UInt8} (h : encode pad digest msg bufSize options key = .ok (msg', message)) :
    ∃ front lost amsgint afingerprint, Sent pad msg message front lost amsgint afingerprint := by
  obtain ⟨-, body, left, amsgint, afingerprint, e, next, hencoding, hresult⟩ := exists_encoding h
  obtain ⟨-, rfl⟩ := Prod.mk.inj hresult
  obtain ⟨front, pieces, hattrs, hfront, hleft, hpieces, hbody⟩ := exists_encodeLoop hencoding.loop
  obtain ⟨lost, hscanned⟩ := exists_scanned hleft hencoding.scan
  obtain ⟨mipieces, hmipieces, hmibody⟩ := exists_addMsgint hscanned.msgint hencoding.msgint
  obtain ⟨fppieces, hfppieces, hfpbody⟩ := exists_addFingerprint hscanned.fingerprint hencoding.fingerprint
  refine ⟨front, lost, amsgint, afingerprint, hattrs.trans (congrArg _ hscanned.left), hfront, hscanned.lost,
    hscanned.msgint, hscanned.fingerprint, pieces ++ (mipieces ++ fppieces),
    List.rel_append hpieces (List.rel_append hmipieces hfppieces), ?_⟩
  rw [List.drop_left' (length_bytes _ _), hfpbody, hmibody, hbody, List.flatten_append, List.flatten_append,
    List.append_assoc]

/-- An element of a kind stands where the only one of its kind does. -/
theorem eq_of_append_cons {α : Type*} {p : α → Prop} {front tail front' tail' : List α} {a b : α}
    (hfront : ∀ x ∈ front, ¬p x) (htail : ∀ x ∈ tail, ¬p x) (hb : p b) (h : front ++ a :: tail = front' ++ b :: tail') :
    b = a ∧ tail' = tail := by
  rcases List.append_eq_append_iff.mp h with ⟨between, -, hrest⟩ | ⟨between, hfront', hrest⟩
  · cases between with
    | nil =>
      obtain ⟨hab, htails⟩ := List.cons.inj hrest
      exact ⟨hab.symm, htails.symm⟩
    | cons first rest =>
      obtain ⟨-, htails⟩ := List.cons.inj hrest
      rw [htails] at htail
      exact absurd hb (htail b (List.mem_append_right _ List.mem_cons_self))
  · cases between with
    | nil =>
      obtain ⟨hab, htails⟩ := List.cons.inj hrest
      exact ⟨hab, htails⟩
    | cons first rest =>
      obtain ⟨rfl, -⟩ := List.cons.inj hrest
      rw [hfront'] at hfront
      exact absurd hb (hfront b (List.mem_append_right _ List.mem_cons_self))

section

variable {pad : UInt8} {msg : Msg} {message : List UInt8} {front lost : List Attr} {amsgint afingerprint : Option Attr}

theorem Sent.msgintLast_iff (h : Sent pad msg message front lost amsgint afingerprint) :
    MsgintLast msg.attrs ↔ lost = [] := by
  constructor
  · intro hlast
    cases lost with
    | nil => rfl
    | cons a more =>
      obtain ⟨hplain, hsome⟩ := h.passed a List.mem_cons_self
      obtain ⟨mi, rfl⟩ := Option.isSome_iff_exists.mp hsome
      have hfp := hlast front mi (a :: more ++ afingerprint.toList) h.attrs (h.msgint mi rfl) a List.mem_cons_self
      exact absurd hfp (isCalculated_eq_false.mp hplain).2
  · rintro rfl front' attr tail hattrs hmi
    rw [h.attrs, List.nil_append] at hattrs
    have hnotfront : ∀ a ∈ front, a.hdr.type ≠ attrMessageIntegrity := fun a ha => (isCalculated_eq_false.mp (h.plain a ha)).1
    have hnotfp : ∀ a ∈ afingerprint.toList, a.hdr.type ≠ attrMessageIntegrity := by
      intro a ha
      rw [h.fingerprint a (Option.mem_toList.mp ha)]
      decide
    -- MESSAGE-INTEGRITY itself is the only attribute of its type
    cases amsgint with
    | none =>
      have hmem : attr ∈ front ++ afingerprint.toList := by
        rw [show front ++ afingerprint.toList = front' ++ attr :: tail from hattrs]
        exact List.mem_append_right _ List.mem_cons_self
      exact absurd hmi ((List.mem_append.mp hmem).elim (hnotfront attr) (hnotfp attr))
    | some mi =>
      obtain ⟨-, hrest⟩ := eq_of_append_cons hnotfront hnotfp hmi hattrs
      rw [hrest]
      exact fun a ha => h.fingerprint a (Option.mem_toList.mp ha)

theorem Sent.eq_nil (h : Sent pad msg message front lost amsgint afingerprint) {front' tail : List Attr} {attr : Attr}
    (hattrs : msg.attrs = front' ++ attr :: tail) (hfp : attr.hdr.type = attrFingerprint) : tail = [] := by
  have hne : attrMessageIntegrity ≠ attrFingerprint := by decide
  have hnot : ∀ a ∈ front ++ (amsgint.toList ++ lost), a.hdr.type ≠ attrFingerprint := by
    intro a ha
    rcases List.mem_append.mp ha with hplain | ha
    · exact (isCalculated_eq_false.mp (h.plain a hplain)).2
    rcases List.mem_append.mp ha with hmi | hlost
    · rw [h.msgint a (Option.mem_toList.mp hmi)]
      exact hne
    · exact (isCalculated_eq_false.mp (h.passed a hlost).1).2
  have hall : front ++ (amsgint.toList ++ lost) ++ afingerprint.toList = front' ++ attr :: tail := by
    rw [← hattrs, h.attrs, List.append_assoc, List.append_assoc]
  cases afingerprint with
  | none =>
    have hmem : attr ∈ front ++ (amsgint.toList ++ lost) := by
      rw [← List.append_nil (front ++ (amsgint.toList ++ lost))]
      rw [show front ++ (amsgint.toList ++ lost) ++ [] = front' ++ attr :: tail from hall]
      exact List.mem_append_right _ List.mem_cons_self
    exact absurd hfp (hnot attr hmem)
  | some fp => exact (eq_of_append_cons hnot (fun a ha => (List.not_mem_nil ha).elim) hfp hall).2

/-- The pieces of all the attributes would take up more room than there is. -/
theorem Sent.appear_iff (h : Sent pad msg message front lost amsgint afingerprint) :
    Appear pad msg.hdr msg.attrs message ↔ lost = [] := by
  obtain ⟨pieces, hpieces, hmessage⟩ := h.appear
  constructor
  · rintro ⟨all, hall, hmessage'⟩
    have hlength := length_pieces hall
    rw [← hmessage', hmessage, length_pieces hpieces, h.attrs] at hlength
    simp only [List.map_append, List.sum_append] at hlength
    cases lost with
    | nil => rfl
    | cons attr more =>
      have hpos := pieceSize_pos attr
      rw [List.map_cons, List.sum_cons] at hlength
      omega
  · intro hlost
    refine ⟨pieces, ?_, hmessage⟩
    rw [h.attrs, hlost]
    exact hpieces

end

/-- When a message has been encoded, all its attributes are in it if and only if nothing but FINGERPRINT comes behind
MESSAGE-INTEGRITY. Behind FINGERPRINT nothing is accepted. -/
theorem encode_keeps_iff (pad : UInt8) (digest : Digest) (msg : Msg) (bufSize options : Nat) (key : Option (List UInt8))
    (msg' : Msg) (message : List UInt8) (h : encode pad digest msg bufSize options key = .ok (msg', message)) :
    (Appear pad msg.hdr msg.attrs message ↔ MsgintLast msg.attrs) ∧
      ∀ front attr tail, msg.attrs = front ++ attr :: tail → attr.hdr.type = attrFingerprint → tail = [] := by
  obtain ⟨front, lost, amsgint, afingerprint, hsent⟩ := exists_sent h
  exact ⟨hsent.appear_iff.trans hsent.msgintLast_iff.symm, fun _ _ _ hattrs hfp => hsent.eq_nil hattrs hfp⟩

def request (attrs : List Attr) : Msg :=
  ⟨⟨0x0001, 0, stunMagic, sampleTsxId⟩, attrs⟩

def username : Attr := .string ⟨0x0006, 4⟩ (ascii "user")

def messageIntegrity : Attr := .msgint ⟨attrMessageIntegrity, 20⟩ (.replicate 20 0)

/-- What is calculated for USERNAME, MESSAGE-INTEGRITY and FINGERPRINT with the key `secret`. -/
def usernameDigest : Digest where
  hmacSha1 _ _ := #v[0x46, 0x79, 0xFB, 0x8A, 0x4A, 0x39, 0xAC, 0x8C, 0x3E, 0xE9, 0x9A, 0xD1, 0xD6, 0x62, 0x22, 0x0D,
    0xF0, 0x4B, 0x6E, 0xC4]
  crc32 _ := 0xC769E446

theorem encode_keeps_iff_username :
    ∃ msg' message, encode 0 usernameDigest (request [username, messageIntegrity, .uint ⟨attrFingerprint, 4⟩ 0]) 100 0
        (some (ascii "secret")) = .ok (msg', message) ∧
      (Appear 0 (request []).hdr [username, messageIntegrity, .uint ⟨attrFingerprint, 4⟩ 0] message ↔
        MsgintLast [username, messageIntegrity, .uint ⟨attrFingerprint, 4⟩ 0]) := by
  refine ⟨_, _, rfl, ?_⟩
  exact (encode_keeps_iff 0 usernameDigest (request [username, messageIntegrity, .uint ⟨attrFingerprint, 4⟩ 0]) 100 0
    (some (ascii "secret")) _ _ rfl).1

/-- What is calculated for MESSAGE-INTEGRITY alone. -/
def integrityDigest : Digest where
  hmacSha1 _ _ := #v[0x20, 0x3F, 0x53, 0xC0, 0x66, 0x61, 0x33, 0x35, 0x72, 0xAF, 0x52, 0x5E, 0x93, 0x41, 0x60, 0x26,
    0x5A, 0x8F, 0xBA, 0xBD]
  crc32 _ := 0

/-- Behind MESSAGE-INTEGRITY a USERNAME gets lost. -/
theorem username_behind_integrity_lost :
    ∃ msg' message, encode 0 integrityDigest (request [messageIntegrity, username]) 100 0 (some (ascii "secret")) =
        .ok (msg', message) ∧ message.length = 44 ∧
      ¬Appear 0 (request []).hdr [messageIntegrity, username] message := by
  refine ⟨_, _, rfl, by decide, ?_⟩
  rintro ⟨pieces, hpieces, hmessage⟩
  have hlength := length_pieces hpieces
  rw [← hmessage] at hlength
  revert hlength
  decide

end PjProject.Stun
