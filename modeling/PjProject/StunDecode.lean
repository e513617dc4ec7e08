import PjProject.StunSizes

/-! What `pj_stun_msg_decode` reads, and what it accepts. The positions of the packet that are read are given by functions
that follow the decoder. The packets that are accepted are described by their attributes, cut from the body one behind
the other. -/

namespace PjProject.Stun

/-! The bytes that are read. -/

/-- The positions that are read from the attribute at the front: its header, and what the function of the table takes of
its value. -/
def decodeAttrReads (kind : Kind) (buf : List UInt8) : List Nat :=
  let length := (getAttrHdr buf).length.toNat
  List.range' 0 4 ++
    match kind with
    | .sockaddr | .xoredSockaddr =>
      if length ≠ 8 ∧ length ≠ 20 then []
      else
        5 ::
          if byteAt buf 5 = 1 then if length ≠ 8 then [] else List.range' 6 2 ++ List.range' 8 4
          else if byteAt buf 5 = 2 then if length ≠ 20 then [] else List.range' 6 2 ++ List.range' 8 16
          else []
    | .string | .binary => List.range' 4 length
    | .empty => []
    | .uint => if length ≠ 4 then [] else List.range' 4 4
    | .uint64 => if length ≠ 8 then [] else List.range' 4 8
    | .msgint => if length ≠ 20 then [] else List.range' 4 20
    | .errcode => if length < 4 then [] else List.range' 6 2 ++ List.range' 8 (length - 4)
    | .unknown => if maxAttr < length / 2 then [] else List.range' 4 (2 * (length / 2))

def decodeTurnReads (p : Parsing) (pdu : List UInt8) : List Nat :=
  List.range' 0 4 ++
    if pdu.length < align4 (getVal16 pdu 2) + 4 then []
    else
      match findAttrDesc (getVal16 pdu 0) with
      | none =>
        if getVal16 pdu 0 ≤ 0x7FFF ∨ maxAttr ≤ p.attrs.length then [] else List.range' 4 (getVal16 pdu 2)
      | some kind => decodeAttrReads kind pdu

/-- The positions that the loop reads, with the attributes from the offset `off` on. -/
def decodeLoopReads (msghdr : MsgHdr) : Nat → Parsing → Nat → List UInt8 → List Nat
  | 0, _, _, _ => []
  | n + 1, p, off, pdu =>
    if pdu.length < 4 then []
    else
      (decodeTurnReads p pdu).map (off + ·) ++
        match decodeTurn msghdr p pdu with
        | .error _ => []
        | .ok p =>
          decodeLoopReads msghdr n p (off + (align4 (getVal16 pdu 2) + 4)) (pdu.drop (align4 (getVal16 pdu 2) + 4))

/-- The positions that `pj_stun_msg_check` reads. -/
def msgCheckReads (pdu : List UInt8) (options : Nat) : List Nat :=
  if pdu.length < 20 then []
  else
    let msgLen := getVal16 pdu 2
    0 ::
      if byteAt pdu 0 ≠ 0 ∧ byteAt pdu 0 ≠ 1 then []
      else
        List.range' 2 2 ++
          if pdu.length < msgLen + 20 ∨ options &&& isDatagram ≠ 0 ∧ msgLen + 20 ≠ pdu.length then []
          else if msgLen % 4 ≠ 0 then []
          else
            List.range' 4 4 ++
              if getVal32 pdu 4 = stunMagic.toNat ∧ options &&& noFingerprintCheck = 0 then
                List.range' (msgLen + 12) 2 ++
                  if getVal16 pdu (msgLen + 12) = attrFingerprint.toNat then
                    List.range' (msgLen + 14) 6 ++
                      if getVal16 pdu (msgLen + 14) ≠ 4 then [] else List.range' 0 (msgLen + 12)
                  else []
              else []

def packetCheck (digest : Digest) (pdu : List UInt8) (options : Nat) : Except Status Unit :=
  if options &&& checkPacket ≠ 0 then msgCheck digest pdu options
  else
    let msgLen := getVal16 pdu 2 + 20
    if pdu.length < msgLen ∨ options &&& isDatagram ≠ 0 ∧ msgLen ≠ pdu.length then .error .einstunmsglen
    else .ok ()

def hdrOf (pdu : List UInt8) : MsgHdr :=
  ⟨.ofNat (getVal16 pdu 0), .ofNat (getVal16 pdu 2), .ofNat (getVal32 pdu 4), copyOf 12 pdu 8⟩

/-- The positions that `pj_stun_msg_decode` reads. -/
def decodeReads (digest : Digest) (pdu : List UInt8) (options : Nat) : List Nat :=
  if pdu = [] then []
  else
    (if options &&& checkPacket ≠ 0 then msgCheckReads pdu options else List.range' 2 2) ++
      match packetCheck digest pdu options with
      | .error _ => []
      | .ok _ =>
        let body := slice pdu 20 (hdrOf pdu).length.toNat
        List.range' 0 20 ++ decodeLoopReads (hdrOf pdu) (body.length + 1) ⟨[], false, false⟩ 20 body

/-! They are in the packet. -/

theorem getVal16_lt (buf : List UInt8) (pos : Nat) : getVal16 buf pos < 65536 := by
  have hhigh := (byteAt buf pos).toNat_lt
  have hlow := (byteAt buf (pos + 1)).toNat_lt
  unfold getVal16
  omega

theorem length_getAttrHdr (buf : List UInt8) : (getAttrHdr buf).length.toNat = getVal16 buf 2 :=
  UInt16.toNat_ofNat_of_lt' (getVal16_lt buf 2)

theorem lt_of_mem_range' {start n bound i : Nat} (hi : i ∈ List.range' start n) (hbound : start + n ≤ bound) :
    i < bound := by
  obtain ⟨j, hj, rfl⟩ := List.mem_range'.mp hi
  omega

theorem decodeAttrReads_lt {kind : Kind} {buf : List UInt8} (hsize : align4 (getVal16 buf 2) + 4 ≤ buf.length) :
    ∀ i ∈ decodeAttrReads kind buf, i < buf.length := by
  intro i hi
  have hlength := length_getAttrHdr buf
  have halign := le_align4 (getVal16 buf 2)
  generalize (getAttrHdr buf).length.toNat = length at hlength
  rw [decodeAttrReads.eq_def, length_getAttrHdr, List.mem_append] at hi
  rcases hi with hi | hi
  · exact lt_of_mem_range' hi (by omega)
  cases kind with
  | sockaddr | xoredSockaddr =>
    dsimp only at hi
    split at hi
    · cases hi
    rcases List.mem_cons.mp hi with rfl | hi
    · omega
    split at hi
    · split at hi
      · cases hi
      · rcases List.mem_append.mp hi with hi | hi
        · exact lt_of_mem_range' hi (by omega)
        · exact lt_of_mem_range' hi (by omega)
    · split at hi
      · split at hi
        · cases hi
        · rcases List.mem_append.mp hi with hi | hi
          · exact lt_of_mem_range' hi (by omega)
          · exact lt_of_mem_range' hi (by omega)
      · cases hi
  | string | binary => exact lt_of_mem_range' hi (by omega)
  | empty => cases hi
  | uint | uint64 | msgint | unknown =>
    dsimp only at hi
    split at hi
    · cases hi
    · exact lt_of_mem_range' hi (by omega)
  | errcode =>
    dsimp only at hi
    split at hi
    · cases hi
    · rcases List.mem_append.mp hi with hi | hi
      · exact lt_of_mem_range' hi (by omega)
      · exact lt_of_mem_range' hi (by omega)

theorem decodeTurnReads_lt {p : Parsing} {pdu : List UInt8} (hlen : 4 ≤ pdu.length) :
    ∀ i ∈ decodeTurnReads p pdu, i < pdu.length := by
  intro i hi
  have halign := le_align4 (getVal16 pdu 2)
  rw [decodeTurnReads, List.mem_append] at hi
  rcases hi with hi | hi
  · exact lt_of_mem_range' hi hlen
  split at hi
  · cases hi
  rename_i hsize
  split at hi
  · split at hi
    · cases hi
    · exact lt_of_mem_range' hi (by omega)
  · exact decodeAttrReads_lt (Nat.le_of_not_lt hsize) i hi

theorem decodeLoopReads_lt {msghdr : MsgHdr} {n : Nat} {p : Parsing} {off : Nat} {pdu : List UInt8} :
    ∀ i ∈ decodeLoopReads msghdr n p off pdu, i < off + pdu.length := by
  induction n generalizing p off pdu with
  | zero => exact nofun
  | succ n ih =>
    intro i hi
    rw [decodeLoopReads] at hi
    split at hi
    · cases hi
    rename_i hlen
    rcases List.mem_append.mp hi with hi | hi
    · obtain ⟨j, hj, rfl⟩ := List.mem_map.mp hi
      have hlt := decodeTurnReads_lt (Nat.le_of_not_lt hlen) j hj
      omega
    · cases hturn : decodeTurn msghdr p pdu with
      | error status =>
        rw [hturn] at hi
        cases hi
      | ok p' =>
        have hsize : align4 (getVal16 pdu 2) + 4 ≤ pdu.length := by
          by_contra hshort
          rw [decodeTurn, if_pos (Nat.lt_of_not_le hshort)] at hturn
          cases hturn
        rw [hturn] at hi
        have hlt := ih i hi
        rw [List.length_drop] at hlt
        omega

theorem msgCheckReads_lt {pdu : List UInt8} {options : Nat} : ∀ i ∈ msgCheckReads pdu options, i < pdu.length := by
  intro i hi
  rw [msgCheckReads] at hi
  split at hi
  · cases hi
  rename_i hlen
  rcases List.mem_cons.mp hi with rfl | hi
  · omega
  split at hi
  · cases hi
  rcases List.mem_append.mp hi with hi | hi
  · exact lt_of_mem_range' hi (by omega)
  split at hi
  · cases hi
  rename_i hmsg
  have hmsg' : getVal16 pdu 2 + 20 ≤ pdu.length := Nat.le_of_not_lt fun h => hmsg (.inl h)
  split at hi
  · cases hi
  rcases List.mem_append.mp hi with hi | hi
  · exact lt_of_mem_range' hi (by omega)
  split at hi
  · rcases List.mem_append.mp hi with hi | hi
    · exact lt_of_mem_range' hi (by omega)
    split at hi
    · rcases List.mem_append.mp hi with hi | hi
      · exact lt_of_mem_range' hi (by omega)
      split at hi
      · cases hi
      · exact lt_of_mem_range' hi (by omega)
    · cases hi
  · cases hi

/-- A packet that passes has the bytes of the header and those that its length counts. -/
theorem length_of_packetCheck {digest : Digest} {pdu : List UInt8} {options : Nat} {u : Unit}
    (h : packetCheck digest pdu options = .ok u) : getVal16 pdu 2 + 20 ≤ pdu.length := by
  unfold packetCheck at h
  split at h
  · unfold msgCheck at h
    dsimp only at h
    split at h
    · cases h
    split at h
    · cases h
    split at h
    · cases h
    rename_i hmsg
    exact Nat.le_of_not_lt fun hlt => hmsg (.inl hlt)
  · dsimp only at h
    split at h
    · cases h
    rename_i hmsg
    exact Nat.le_of_not_lt fun hlt => hmsg (.inl hlt)

/-- Without the check of the packet the length is read from bytes 2 and 3, whether the packet has them or not; nothing
else is read outside. -/
theorem decodeReads_lt_iff (digest : Digest) {pdu : List UInt8} (hne : pdu ≠ []) (options : Nat) :
    (∀ i ∈ decodeReads digest pdu options, i < pdu.length) ↔ options &&& checkPacket ≠ 0 ∨ 4 ≤ pdu.length := by
  have hbody : ∀ {u : Unit}, packetCheck digest pdu options = .ok u → ∀ i ∈ List.range' 0 20 ++
      decodeLoopReads (hdrOf pdu) ((slice pdu 20 (hdrOf pdu).length.toNat).length + 1) ⟨[], false, false⟩ 20
        (slice pdu 20 (hdrOf pdu).length.toNat), i < pdu.length := by
    intro u hcheck i hi
    have hlength := length_of_packetCheck hcheck
    rcases List.mem_append.mp hi with hi | hi
    · exact lt_of_mem_range' hi (by omega)
    · have hlt := decodeLoopReads_lt i hi
      have hslice : (slice pdu 20 (hdrOf pdu).length.toNat).length ≤ pdu.length - 20 := by
        rw [slice, List.length_take, List.length_drop]
        exact Nat.min_le_right ..
      omega
  rw [decodeReads, if_neg hne]
  constructor
  · intro h
    by_contra hshort
    obtain ⟨hcheck, hlen⟩ := not_or.mp hshort
    have hthree := h 3 (List.mem_append_left _ (by rw [if_neg hcheck]; decide))
    omega
  · intro h i hi
    rcases List.mem_append.mp hi with hi | hi
    · split at hi
      · exact msgCheckReads_lt i hi
      · rename_i hcheck
        exact lt_of_mem_range' hi (h.resolve_left hcheck)
    · cases hchecked : packetCheck digest pdu options with
      | error status =>
        rw [hchecked] at hi
        cases hi
      | ok u =>
        rw [hchecked] at hi
        exact hbody hchecked i hi

/-! The attributes as they lie in the body. -/

theorem getAttrHdr_append {buf : List UInt8} (rest : List UInt8) (h : 4 ≤ buf.length) :
    getAttrHdr (buf ++ rest) = getAttrHdr buf := by
  rw [getAttrHdr, getAttrHdr, getVal16_append rest (by omega), getVal16_append rest (by omega)]

theorem decodeSockaddrAttr_append {buf : List UInt8} (rest : List UInt8) (h : 4 + getVal16 buf 2 ≤ buf.length) :
    decodeSockaddrAttr (buf ++ rest) = decodeSockaddrAttr buf := by
  have hlength := length_getAttrHdr buf
  unfold decodeSockaddrAttr
  rw [getAttrHdr_append rest (by omega)]
  dsimp only
  by_cases hbad : (getAttrHdr buf).length ≠ 8 ∧ (getAttrHdr buf).length ≠ 20
  · rw [if_pos hbad, if_pos hbad]
  have hlong : 8 ≤ getVal16 buf 2 := by
    rcases Classical.not_and_iff_not_or_not.mp hbad with h8 | h20
    · rw [← hlength, not_not.mp h8]
      decide
    · rw [← hlength, not_not.mp h20]
      decide
  rw [if_neg hbad, if_neg hbad, byteAt_append_left rest (by omega), getVal16_append rest (by omega),
    copyOf_append_left rest (by omega)]
  by_cases h20 : (getAttrHdr buf).length = 20
  · have hlong' : getVal16 buf 2 = 20 := by
      rw [← hlength, h20]
      rfl
    rw [copyOf_append_left rest (by omega)]
  · rw [if_pos h20, if_pos h20]

/-- A function of the table reads no further than the length of the attribute. -/
theorem decodeAttr_append {kind : Kind} {buf : List UInt8} (msghdr : MsgHdr) (rest : List UInt8)
    (h : 4 + getVal16 buf 2 ≤ buf.length) : decodeAttr kind (buf ++ rest) msghdr = decodeAttr kind buf msghdr := by
  have hlength := length_getAttrHdr buf
  have hdrlen : ∀ {n : UInt16}, (getAttrHdr buf).length = n → getVal16 buf 2 = n.toNat := fun hn => by
    rw [← hlength, hn]
  unfold decodeAttr
  rw [getAttrHdr_append rest (by omega)]
  cases kind with
  | sockaddr | xoredSockaddr =>
    dsimp only
    rw [decodeSockaddrAttr_append rest h]
  | string | binary =>
    dsimp only
    rw [slice_append_left rest (by omega)]
  | empty => rfl
  | uint =>
    dsimp only
    by_cases hn : (getAttrHdr buf).length = 4
    · have hval : getVal16 buf 2 = 4 := hdrlen hn
      rw [getVal32_append rest (by omega)]
    · rw [if_pos hn, if_pos hn]
  | uint64 =>
    dsimp only
    by_cases hn : (getAttrHdr buf).length = 8
    · have hval : getVal16 buf 2 = 8 := hdrlen hn
      rw [getVal32_append rest (by omega), getVal32_append rest (by omega)]
    · rw [if_pos hn, if_pos hn]
  | msgint =>
    dsimp only
    by_cases hn : (getAttrHdr buf).length = 20
    · have hval : getVal16 buf 2 = 20 := hdrlen hn
      rw [copyOf_append_left rest (by omega)]
    · rw [if_pos hn, if_pos hn]
  | errcode =>
    dsimp only
    by_cases hn : (getAttrHdr buf).length < 4
    · rw [if_pos hn, if_pos hn]
    · have hval : 4 ≤ getVal16 buf 2 := by
        rw [← hlength]
        exact Nat.le_of_not_lt fun hlt => hn (UInt16.lt_iff_toNat_lt.mpr hlt)
      rw [byteAt_append_left rest (by omega), byteAt_append_left rest (by omega), slice_append_left rest (by omega)]
  | unknown =>
    dsimp only
    have hmap : ((List.range ((getAttrHdr buf).length.toNat / 2)).map fun i =>
        UInt16.ofNat (getVal16 (buf ++ rest) (4 + 2 * i))) =
        (List.range ((getAttrHdr buf).length.toNat / 2)).map fun i => UInt16.ofNat (getVal16 buf (4 + 2 * i)) := by
      apply List.map_congr_left
      intro i hi
      have hlt := List.mem_range.mp hi
      rw [getVal16_append rest (by omega)]
    rw [hmap]

def attrType (piece : List UInt8) : Nat := getVal16 piece 0

def attrSize (pdu : List UInt8) : Nat := align4 (getVal16 pdu 2) + 4

/-- The type is one of the tables. -/
def isKnown (piece : List UInt8) : Bool := (findAttrDesc (attrType piece)).isSome

/-- A whole attribute that is accepted by itself: it is of an unknown type that may be ignored, or the function of the
table decodes it. -/
def Acceptable (msghdr : MsgHdr) (piece : List UInt8) : Prop :=
  piece.length = attrSize piece ∧
    match findAttrDesc (attrType piece) with
    | none => 0x7FFF < attrType piece
    | some kind => ∃ attr, decodeAttr kind piece msghdr = .ok attr

def knownTypes (pieces : List (List UInt8)) : List Nat := (pieces.filter isKnown).map attrType

/-- At most one MESSAGE-INTEGRITY, and FINGERPRINT only at the end. -/
def InOrder (types : List Nat) : Prop :=
  types.count attrMessageIntegrity.toNat ≤ 1 ∧ attrFingerprint.toNat ∉ types.dropLast

theorem inOrder_append {types : List Nat} {t : Nat} :
    InOrder (types ++ [t]) ↔ attrFingerprint.toNat ∉ types ∧ types.count attrMessageIntegrity.toNat ≤ 1 ∧
      (t = attrMessageIntegrity.toNat → attrMessageIntegrity.toNat ∉ types) := by
  unfold InOrder
  rw [List.dropLast_concat, List.count_append, and_comm]
  refine and_congr_right fun _ => ?_
  by_cases ht : t = attrMessageIntegrity.toNat
  · rw [ht, List.count_singleton_self, ← List.count_eq_zero]
    constructor
    · exact fun h => ⟨by omega, fun _ => by omega⟩
    · intro h
      have hzero := h.2 rfl
      omega
  · have hcount : [t].count attrMessageIntegrity.toNat = 0 := List.count_eq_zero.mpr (by simpa using Ne.symm ht)
    rw [hcount, Nat.add_zero]
    exact ⟨fun h => ⟨h, fun h' => absurd h' ht⟩, fun h => h.1⟩

structure Done (pieces : List (List UInt8)) (p : Parsing) : Prop where
  types : p.attrs.map (fun attr => attr.hdr.type.toNat) = pieces.map attrType
  room : pieces.length ≤ maxAttr
  order : InOrder (knownTypes pieces)
  msgInt : p.hasMsgInt = true ↔ attrMessageIntegrity.toNat ∈ knownTypes pieces
  fingerprint : p.hasFingerprint = true ↔ attrFingerprint.toNat ∈ knownTypes pieces

theorem note_cases {p : Parsing} {types : List Nat} (horder : InOrder types)
    (hmi : p.hasMsgInt = true ↔ attrMessageIntegrity.toNat ∈ types)
    (hfp : p.hasFingerprint = true ↔ attrFingerprint.toNat ∈ types) (t : Nat) :
    (InOrder (types ++ [t]) ∧ ∃ p', p.note t = .ok p' ∧ p'.attrs = p.attrs ∧
        (p'.hasMsgInt = true ↔ attrMessageIntegrity.toNat ∈ types ++ [t]) ∧
        (p'.hasFingerprint = true ↔ attrFingerprint.toNat ∈ types ++ [t])) ∨
      (¬InOrder (types ++ [t]) ∧ ∃ error, p.note t = .error error) := by
  have hdistinct : attrMessageIntegrity.toNat ≠ attrFingerprint.toNat := by decide
  rw [inOrder_append]
  unfold Parsing.note
  by_cases hseen : p.hasFingerprint = true
  · refine .inr ⟨fun h => h.1 (hfp.mp hseen), ?_⟩
    rw [if_neg fun h => absurd (hseen.symm.trans h.2) Bool.noConfusion]
    split
    · exact ⟨_, rfl⟩
    · exact ⟨_, rfl⟩
  have hnotSeen : attrFingerprint.toNat ∉ types := fun h => hseen (hfp.mpr h)
  have hfalse : p.hasFingerprint = false := Bool.eq_false_iff.mpr hseen
  by_cases hmsgint : t = attrMessageIntegrity.toNat
  · rw [if_pos ⟨hmsgint, hfalse⟩]
    by_cases hdup : p.hasMsgInt = true
    · rw [if_pos hdup]
      exact .inr ⟨fun h => h.2.2 hmsgint (hmi.mp hdup), _, rfl⟩
    · have hfirst : attrMessageIntegrity.toNat ∉ types := fun h => hdup (hmi.mpr h)
      rw [if_neg hdup]
      refine .inl ⟨⟨hnotSeen, horder.1, fun _ => hfirst⟩, _, rfl, rfl, ?_, ?_⟩
      · rw [hmsgint]
        exact iff_of_true rfl (List.mem_append_right _ (List.mem_singleton_self _))
      · refine iff_of_false hseen fun h => ?_
        rcases List.mem_append.mp h with h | h
        · exact hnotSeen h
        · exact hdistinct (hmsgint.symm.trans (List.mem_singleton.mp h).symm)
  · rw [if_neg fun h => hmsgint h.1]
    have hmsgInt : p.hasMsgInt = true ↔ attrMessageIntegrity.toNat ∈ types ++ [t] := by
      rw [hmi, List.mem_append, List.mem_singleton]
      exact (or_iff_left fun h => hmsgint h.symm).symm
    by_cases hfinger : t = attrFingerprint.toNat
    · rw [if_pos hfinger, if_neg hseen]
      refine .inl ⟨⟨hnotSeen, horder.1, fun h => absurd h hmsgint⟩, _, rfl, rfl, hmsgInt, ?_⟩
      rw [hfinger]
      exact iff_of_true rfl (List.mem_append_right _ (List.mem_singleton_self _))
    · rw [if_neg hfinger, if_neg hseen]
      refine .inl ⟨⟨hnotSeen, horder.1, fun h => absurd h hmsgint⟩, _, rfl, rfl, hmsgInt, ?_⟩
      rw [hfp, List.mem_append, List.mem_singleton]
      exact (or_iff_left fun h => hfinger h.symm).symm

theorem hdr_of_decodeAttr {kind : Kind} {buf : List UInt8} {msghdr : MsgHdr} {attr : Attr}
    (h : decodeAttr kind buf msghdr = .ok attr) : attr.hdr = getAttrHdr buf := by
  have hsockaddr : ∀ {r : AttrHdr × Sock.Sockaddr}, decodeSockaddrAttr buf = .ok r → r.1 = getAttrHdr buf := by
    intro r hr
    unfold decodeSockaddrAttr at hr
    dsimp only at hr
    split at hr
    · cases hr
    split at hr
    · split at hr
      · cases hr
      · rw [← Except.ok.inj hr]
    · split at hr
      · split at hr
        · cases hr
        · rw [← Except.ok.inj hr]
      · cases hr
  unfold decodeAttr at h
  cases kind with
  | sockaddr | xoredSockaddr =>
    dsimp only at h
    cases hr : decodeSockaddrAttr buf with
    | error error =>
      rw [hr] at h
      cases h
    | ok r =>
      rw [hr] at h
      rw [← Except.ok.inj h]
      exact hsockaddr hr
  | string | binary =>
    rw [← Except.ok.inj h]
    rfl
  | empty | uint | uint64 | msgint | errcode | unknown =>
    dsimp only at h
    split at h
    · cases h
    · rw [← Except.ok.inj h]
      rfl

theorem type_of_getAttrHdr (buf : List UInt8) : (getAttrHdr buf).type.toNat = attrType buf :=
  UInt16.toNat_ofNat_of_lt' (getVal16_lt buf 0)

theorem knownTypes_append (pieces : List (List UInt8)) (piece : List UInt8) :
    knownTypes (pieces ++ [piece]) = if isKnown piece then knownTypes pieces ++ [attrType piece] else knownTypes pieces := by
  unfold knownTypes
  rw [List.filter_append]
  split
  · rename_i hknown
    rw [List.filter_cons_of_pos hknown, List.map_append]
    rfl
  · rename_i hknown
    rw [List.filter_cons_of_neg hknown]
    exact congrArg _ (List.append_nil _)

section Turn

variable {msghdr : MsgHdr} {pieces : List (List UInt8)} {p : Parsing} {piece : List UInt8}

/-- What one more attribute needs. -/
def Next (msghdr : MsgHdr) (pieces : List (List UInt8)) (piece : List UInt8) : Prop :=
  Acceptable msghdr piece ∧ pieces.length < maxAttr ∧ InOrder (knownTypes (pieces ++ [piece]))

theorem Done.length (hdone : Done pieces p) : p.attrs.length = pieces.length := by
  have hmap := congrArg List.length hdone.types
  rwa [List.length_map, List.length_map] at hmap

theorem Done.turn (hdone : Done pieces p) (hsize : piece.length = attrSize piece) (rest : List UInt8) :
    (∃ p', decodeTurn msghdr p (piece ++ rest) = .ok p' ∧ Next msghdr pieces piece ∧ Done (pieces ++ [piece]) p') ∨
      ((∃ error, decodeTurn msghdr p (piece ++ rest) = .error error) ∧ ¬Next msghdr pieces piece) := by
  have hfour : 4 ≤ piece.length := by
    rw [hsize, attrSize]
    omega
  have hvalue : 4 + getVal16 piece 2 ≤ piece.length := by
    have halign := le_align4 (getVal16 piece 2)
    rw [hsize, attrSize]
    omega
  have htype : getVal16 (piece ++ rest) 0 = attrType piece := getVal16_append rest (by omega)
  have hlen : getVal16 (piece ++ rest) 2 = getVal16 piece 2 := getVal16_append rest (by omega)
  have hroom : ¬(piece ++ rest).length < align4 (getVal16 (piece ++ rest) 2) + 4 := by
    rw [hlen, List.length_append, hsize, attrSize]
    omega
  have hlast : ∀ {attrs : List Attr} {attr : Attr}, attrs.map (fun attr => attr.hdr.type.toNat) = pieces.map attrType →
      attr.hdr.type.toNat = attrType piece →
      (attrs ++ [attr]).map (fun attr => attr.hdr.type.toNat) = (pieces ++ [piece]).map attrType := by
    intro attrs attr hattrs hattr
    rw [List.map_append, List.map_append, hattrs, List.map_singleton, List.map_singleton, hattr]
  rw [decodeTurn, if_neg hroom, htype]
  cases hdesc : findAttrDesc (attrType piece) with
  | none =>
    have hunknown : isKnown piece = false := by rw [isKnown, hdesc]; rfl
    have hknown : knownTypes (pieces ++ [piece]) = knownTypes pieces := by
      rw [knownTypes_append, hunknown]
      rfl
    dsimp only
    by_cases hmandatory : attrType piece ≤ 0x7FFF
    · rw [if_pos hmandatory]
      refine .inr ⟨⟨_, rfl⟩, fun h => ?_⟩
      have haccept := h.1.2
      rw [hdesc] at haccept
      exact Nat.not_lt.mpr hmandatory haccept
    · rw [if_neg hmandatory, Parsing.add, hdone.length]
      by_cases hfull : maxAttr ≤ pieces.length
      · rw [if_pos hfull]
        exact .inr ⟨⟨_, rfl⟩, fun h => Nat.not_lt.mpr hfull h.2.1⟩
      · rw [if_neg hfull]
        refine .inl ⟨_, rfl, ⟨⟨hsize, ?_⟩, Nat.lt_of_not_le hfull, ?_⟩, ?_⟩
        · rw [hdesc]
          exact Nat.lt_of_not_le hmandatory
        · rw [hknown]
          exact hdone.order
        · refine ⟨hlast hdone.types (UInt16.toNat_ofNat_of_lt' (getVal16_lt piece 0)), ?_, ?_, ?_, ?_⟩
          · rw [List.length_append]
            exact Nat.lt_of_not_le hfull
          · rw [hknown]
            exact hdone.order
          · rw [hknown]
            exact hdone.msgInt
          · rw [hknown]
            exact hdone.fingerprint
  | some kind =>
    have hsome : isKnown piece = true := by rw [isKnown, hdesc]; rfl
    have hknown : knownTypes (pieces ++ [piece]) = knownTypes pieces ++ [attrType piece] := by
      rw [knownTypes_append, if_pos hsome]
    dsimp only
    rw [decodeAttr_append msghdr rest hvalue]
    cases hattr : decodeAttr kind piece msghdr with
    | error error =>
      refine .inr ⟨⟨error, rfl⟩, fun h => ?_⟩
      have haccept := h.1.2
      rw [hdesc] at haccept
      obtain ⟨attr, hok⟩ := haccept
      rw [hattr] at hok
      cases hok
    | ok attr =>
      have htypeAttr : attr.hdr.type.toNat = attrType piece := by
        rw [hdr_of_decodeAttr hattr, type_of_getAttrHdr]
      rcases note_cases hdone.order hdone.msgInt hdone.fingerprint (attrType piece) with
        ⟨horder, q, hnote, hattrs, hmi, hfp⟩ | ⟨horder, error, hnote⟩
      · rw [Except.bind, hnote, Except.bind, Parsing.add, hattrs, hdone.length]
        by_cases hfull : maxAttr ≤ pieces.length
        · rw [if_pos hfull]
          exact .inr ⟨⟨_, rfl⟩, fun h => Nat.not_lt.mpr hfull h.2.1⟩
        · rw [if_neg hfull]
          refine .inl ⟨_, rfl, ⟨⟨hsize, ?_⟩, Nat.lt_of_not_le hfull, ?_⟩, ?_⟩
          · rw [hdesc]
            exact ⟨attr, hattr⟩
          · rw [hknown]
            exact horder
          · refine ⟨?_, ?_, ?_, ?_, ?_⟩
            · exact hlast hdone.types htypeAttr
            · rw [List.length_append]
              exact Nat.lt_of_not_le hfull
            · rw [hknown]
              exact horder
            · rw [hknown]
              exact hmi
            · rw [hknown]
              exact hfp
      · rw [Except.bind, hnote]
        exact .inr ⟨⟨error, rfl⟩, fun h => horder (hknown ▸ h.2.2)⟩

end Turn

/-! The loop. -/

theorem decodeAttr_ne_outOfFuel (kind : Kind) (buf : List UInt8) (msghdr : MsgHdr) :
    decodeAttr kind buf msghdr ≠ .error .outOfFuel := by
  have hsockaddr : decodeSockaddrAttr buf ≠ .error .outOfFuel := by
    unfold decodeSockaddrAttr
    dsimp only
    repeat' split
    all_goals exact nofun
  unfold decodeAttr
  cases kind with
  | sockaddr | xoredSockaddr =>
    dsimp only
    cases hr : decodeSockaddrAttr buf with
    | error error =>
      rw [hr] at hsockaddr
      exact fun h => hsockaddr (congrArg _ (Except.error.inj h))
    | ok r => exact nofun
  | string | binary => exact nofun
  | empty | uint | uint64 | msgint | errcode | unknown =>
    dsimp only
    split
    · exact nofun
    · exact nofun

theorem add_ne_outOfFuel (p : Parsing) (attr : Attr) : p.add attr ≠ .error .outOfFuel := by
  unfold Parsing.add
  split
  · exact nofun
  · exact nofun

theorem decodeTurn_ne_outOfFuel (msghdr : MsgHdr) (p : Parsing) (pdu : List UInt8) :
    decodeTurn msghdr p pdu ≠ .error .outOfFuel := by
  unfold decodeTurn
  dsimp only
  split
  · exact nofun
  split
  · split
    · exact nofun
    · exact add_ne_outOfFuel _ _
  · rename_i kind _
    cases hattr : decodeAttr kind pdu msghdr with
    | error error =>
      exact fun h => decodeAttr_ne_outOfFuel kind pdu msghdr (hattr.trans (congrArg _ (Except.error.inj h)))
    | ok attr =>
      have hnote : p.note (getVal16 pdu 0) ≠ .error .outOfFuel := by
        unfold Parsing.note
        repeat' split
        all_goals exact nofun
      cases hq : p.note (getVal16 pdu 0) with
      | error error =>
        rw [hq] at hnote
        dsimp only [Except.bind]
        exact fun h => hnote (congrArg _ (Except.error.inj h))
      | ok q =>
        dsimp only [Except.bind]
        exact add_ne_outOfFuel _ _

structure Layout (msghdr : MsgHdr) (body : List UInt8) (pieces : List (List UInt8)) : Prop where
  flatten : body = pieces.flatten
  acceptable : ∀ piece ∈ pieces, Acceptable msghdr piece
  room : pieces.length ≤ maxAttr
  order : InOrder (knownTypes pieces)

section Loop

variable {msghdr : MsgHdr}

theorem InOrder.of_append {types more : List Nat} (h : InOrder (types ++ more)) : InOrder types := by
  refine ⟨Nat.le_trans (List.Sublist.count_le _ (List.sublist_append_left types more)) h.1, fun hmem => h.2 ?_⟩
  cases more with
  | nil => rwa [List.append_nil]
  | cons t more =>
    rw [List.dropLast_append_cons]
    exact List.mem_append_left _ (List.dropLast_subset _ hmem)

theorem knownTypes_flatten (pieces more : List (List UInt8)) :
    knownTypes (pieces ++ more) = knownTypes pieces ++ knownTypes more := by
  unfold knownTypes
  rw [List.filter_append, List.map_append]

/-- The whole attributes at the front are taken one by one, and the loop ends without error only when nothing is left. -/
theorem Done.loop {pieces : List (List UInt8)} {p : Parsing} (hdone : Done pieces p) {n : Nat} {body : List UInt8}
    (hn : body.length < n) :
    decodeLoop msghdr n p body ≠ .error .outOfFuel ∧
      (∀ p', decodeLoop msghdr n p body = .ok (p', []) → ∃ more, body = more.flatten ∧
        (∀ piece ∈ more, Acceptable msghdr piece) ∧ Done (pieces ++ more) p') := by
  induction n generalizing pieces p body with
  | zero => omega
  | succ n ih =>
    rw [decodeLoop]
    by_cases hshort : body.length < 4
    · rw [if_pos hshort]
      refine ⟨nofun, fun p' h => ⟨[], ?_, ?_, ?_⟩⟩
      · obtain ⟨-, hbody⟩ := Prod.mk.inj (Except.ok.inj h)
        exact hbody
      · exact nofun
      · obtain ⟨rfl, -⟩ := Prod.mk.inj (Except.ok.inj h)
        rwa [List.append_nil]
    rw [if_neg hshort]
    by_cases hsize : body.length < attrSize body
    · have herror : decodeTurn msghdr p body = .error .estuninattrlen := by
        rw [decodeTurn]
        exact if_pos hsize
      rw [herror]
      exact ⟨nofun, fun p' h => by cases h⟩
    have hpiece : (body.take (attrSize body)).length = attrSize (body.take (attrSize body)) := by
      rw [List.length_take, Nat.min_eq_left (Nat.le_of_not_lt hsize), attrSize]
      have hval : getVal16 (body.take (attrSize body) ++ body.drop (attrSize body)) 2 =
          getVal16 (body.take (attrSize body)) 2 := getVal16_append _ (by
        rw [List.length_take, Nat.min_eq_left (Nat.le_of_not_lt hsize), attrSize]
        omega)
      rw [List.take_append_drop, attrSize] at hval
      rw [attrSize, ← hval]
    have hturn := @Done.turn msghdr _ _ _ hdone hpiece (body.drop (attrSize body))
    rw [List.take_append_drop] at hturn
    rcases hturn with ⟨q, hq, hnext, hdone'⟩ | ⟨⟨error, herror⟩, -⟩
    · rw [hq]
      have hless : (body.drop (attrSize body)).length < n := by
        rw [List.length_drop, attrSize]
        omega
      obtain ⟨hfuel, hok⟩ := ih hdone' hless
      refine ⟨hfuel, fun p' h => ?_⟩
      obtain ⟨more, hbody, haccept, hend⟩ := hok p' h
      refine ⟨body.take (attrSize body) :: more, ?_, ?_, ?_⟩
      · rw [List.flatten_cons, ← hbody, List.take_append_drop]
      · exact List.forall_mem_cons.mpr ⟨hnext.1, haccept⟩
      · rwa [List.append_cons]
    · have hfuel := decodeTurn_ne_outOfFuel msghdr p body
      rw [herror] at hfuel ⊢
      exact ⟨fun h => hfuel (congrArg _ (Except.error.inj h)), fun p' h => by cases h⟩

theorem Done.accepts {pieces : List (List UInt8)} {p : Parsing} (hdone : Done pieces p) {more : List (List UInt8)}
    (haccept : ∀ piece ∈ more, Acceptable msghdr piece) (hroom : (pieces ++ more).length ≤ maxAttr)
    (horder : InOrder (knownTypes (pieces ++ more))) {n : Nat} (hn : more.flatten.length < n) :
    ∃ p', decodeLoop msghdr n p more.flatten = .ok (p', []) ∧ Done (pieces ++ more) p' := by
  induction more generalizing pieces p n with
  | nil =>
    obtain ⟨n, rfl⟩ := Nat.exists_eq_succ_of_ne_zero (Nat.ne_of_gt (Nat.lt_of_le_of_lt (Nat.zero_le _) hn))
    rw [List.append_nil]
    exact ⟨p, rfl, hdone⟩
  | cons piece more ih =>
    obtain ⟨hpiece, hmore⟩ := List.forall_mem_cons.mp haccept
    obtain ⟨n, rfl⟩ := Nat.exists_eq_succ_of_ne_zero (Nat.ne_of_gt (Nat.lt_of_le_of_lt (Nat.zero_le _) hn))
    have hsize := hpiece.1
    have hval : attrSize (piece ++ more.flatten) = attrSize piece := by
      rw [attrSize, attrSize, getVal16_append more.flatten]
      rw [hsize, attrSize]
      omega
    have hfour : 4 ≤ piece.length := by
      rw [hsize, attrSize]
      omega
    rw [List.append_cons] at hroom horder ⊢
    rw [List.flatten_cons, List.length_append] at hn
    have hnext : Next msghdr pieces piece := by
      rw [knownTypes_flatten] at horder
      rw [List.length_append, List.length_append, List.length_singleton] at hroom
      exact ⟨hpiece, by omega, horder.of_append⟩
    rw [List.flatten_cons, decodeLoop, if_neg (by rw [List.length_append]; omega)]
    rcases @Done.turn msghdr _ _ _ hdone hsize more.flatten with ⟨q, hq, -, hdone'⟩ | ⟨-, hrefused⟩
    · rw [hq]
      have hdrop : (piece ++ more.flatten).drop (align4 (getVal16 (piece ++ more.flatten) 2) + 4) = more.flatten := by
        change (piece ++ more.flatten).drop (attrSize (piece ++ more.flatten)) = more.flatten
        rw [hval, ← hsize, List.drop_left]
      rw [Except.bind, hdrop]
      exact ih hdone' hmore hroom horder (by omega)
    · exact absurd hnext hrefused

theorem done_nil : Done [] ⟨[], false, false⟩ :=
  ⟨rfl, Nat.zero_le _, ⟨Nat.zero_le _, List.not_mem_nil⟩, iff_of_false Bool.false_ne_true List.not_mem_nil,
    iff_of_false Bool.false_ne_true List.not_mem_nil⟩

end Loop

/-! The packet. -/

def Msg.types (msg : Msg) : List Nat := msg.attrs.map fun attr => attr.hdr.type.toNat

def bodyOf (pdu : List UInt8) : List UInt8 := slice pdu 20 (getVal16 pdu 2)

theorem decode_eq (digest : Digest) {pdu : List UInt8} (hne : pdu ≠ []) (options : Nat) :
    decode digest pdu options = (packetCheck digest pdu options).bind fun _ =>
      (decodeLoop (hdrOf pdu) ((bodyOf pdu).length + 1) ⟨[], false, false⟩ (bodyOf pdu)).bind fun (p, rest) =>
        if rest ≠ [] then .error .einstunmsglen
        else .ok (⟨hdrOf pdu, p.attrs⟩, 20 + ((bodyOf pdu).length - rest.length)) := by
  have hlength : (hdrOf pdu).length.toNat = getVal16 pdu 2 := UInt16.toNat_ofNat_of_lt' (getVal16_lt pdu 2)
  have hbody : slice pdu 20 (hdrOf pdu).length.toNat = bodyOf pdu := by rw [bodyOf, hlength]
  rw [← hbody, decode, if_neg hne]
  rfl

section Packet

variable {digest : Digest} {pdu : List UInt8} {options : Nat}

theorem length_bodyOf {u : Unit} (hcheck : packetCheck digest pdu options = .ok u) :
    (bodyOf pdu).length = getVal16 pdu 2 := by
  have hlen := length_of_packetCheck hcheck
  rw [bodyOf, slice, List.length_take, List.length_drop]
  omega

theorem layout_of_decode (hne : pdu ≠ []) {msg : Msg} {parsed : Nat} (h : decode digest pdu options = .ok (msg, parsed)) :
    parsed = 20 + getVal16 pdu 2 ∧ packetCheck digest pdu options = .ok () ∧
      ∃ pieces, Layout (hdrOf pdu) (bodyOf pdu) pieces ∧ msg.types = pieces.map attrType := by
  rw [decode_eq digest hne] at h
  cases hcheck : packetCheck digest pdu options with
  | error error =>
    rw [hcheck] at h
    cases h
  | ok u =>
    rw [hcheck] at h
    dsimp only [Except.bind] at h
    obtain ⟨-, hok⟩ := @Done.loop (hdrOf pdu) _ _ done_nil _ _ (Nat.lt_succ_self (bodyOf pdu).length)
    cases hloop : decodeLoop (hdrOf pdu) ((bodyOf pdu).length + 1) ⟨[], false, false⟩ (bodyOf pdu) with
    | error error =>
      rw [hloop] at h
      cases h
    | ok result =>
      obtain ⟨p, rest⟩ := result
      rw [hloop] at h
      dsimp only [Except.bind] at h
      by_cases hrest : rest = []
      · rw [if_neg (not_not.mpr hrest), hrest] at h
        obtain ⟨rfl, hparsed⟩ := Prod.mk.inj (Except.ok.inj h)
        obtain ⟨pieces, hbody, haccept, hdone⟩ := hok p (by rw [hloop, hrest])
        rw [List.length_nil, Nat.sub_zero, length_bodyOf hcheck] at hparsed
        exact ⟨hparsed.symm, rfl, pieces, ⟨hbody, haccept, hdone.room, hdone.order⟩, hdone.types⟩
      · rw [if_pos hrest] at h
        cases h

theorem decode_of_layout (hne : pdu ≠ []) (hcheck : packetCheck digest pdu options = .ok ())
    {pieces : List (List UInt8)} (hlayout : Layout (hdrOf pdu) (bodyOf pdu) pieces) :
    ∃ msg parsed, decode digest pdu options = .ok (msg, parsed) ∧ msg.types = pieces.map attrType := by
  obtain ⟨p, hloop, hdone⟩ := done_nil.accepts (n := (bodyOf pdu).length + 1) hlayout.acceptable hlayout.room hlayout.order
    (by rw [← hlayout.flatten]; exact Nat.lt_succ_self _)
  rw [← hlayout.flatten] at hloop
  refine ⟨⟨hdrOf pdu, p.attrs⟩, 20 + ((bodyOf pdu).length - 0), ?_, hdone.types⟩
  rw [decode_eq digest hne, hcheck]
  dsimp only [Except.bind]
  rw [hloop]
  rfl

theorem count_knownTypes {t : Nat} (ht : (findAttrDesc t).isSome = true) (pieces : List (List UInt8)) :
    (pieces.map attrType).count t = (knownTypes pieces).count t := by
  induction pieces with
  | nil => rfl
  | cons piece pieces ih =>
    have hfront := knownTypes_flatten [piece] pieces
    rw [List.singleton_append] at hfront
    rw [hfront, List.count_append, List.map_cons, List.count_cons, ih, Nat.add_comm]
    congr 1
    unfold knownTypes
    by_cases htype : attrType piece = t
    · rw [if_pos (beq_iff_eq.mpr htype), List.filter_cons_of_pos (by rw [isKnown, htype]; exact ht)]
      rw [List.map_cons, htype]
      exact List.count_singleton_self.symm
    · rw [if_neg fun h => htype (beq_iff_eq.mp h)]
      refine (List.count_eq_zero.mpr fun hmem => htype ?_).symm
      obtain ⟨piece', hpiece', heq⟩ := List.mem_map.mp hmem
      rwa [List.mem_singleton.mp (List.mem_of_mem_filter hpiece')] at heq

theorem count_le_one_of_dropLast {types : List Nat} {t : Nat} (h : t ∉ types.dropLast) : types.count t ≤ 1 := by
  rcases List.eq_nil_or_concat types with rfl | ⟨front, last, rfl⟩
  · exact Nat.zero_le _
  · rw [List.concat_eq_append, List.dropLast_concat] at h
    rw [List.concat_eq_append, List.count_append, List.count_eq_zero.mpr h, Nat.zero_add]
    exact List.count_le_length

theorem exists_behind {α β : Type} {f : α → β} {l : List α} {b : β} (h : b ∈ (l.map f).dropLast) :
    ∃ front a behind, l = front ++ a :: behind ∧ f a = b ∧ behind ≠ [] := by
  rw [← List.map_dropLast] at h
  obtain ⟨a, ha, hb⟩ := List.mem_map.mp h
  obtain ⟨front, more, hsplit⟩ := List.append_of_mem ha
  have hne : l ≠ [] := by
    rintro rfl
    cases ha
  refine ⟨front, a, more ++ [l.getLast hne], ?_, hb, List.append_ne_nil_of_right_ne_nil _ (List.cons_ne_nil _ _)⟩
  calc
    l = l.dropLast ++ [l.getLast hne] := (List.dropLast_append_getLast hne).symm
    _ = front ++ a :: (more ++ [l.getLast hne]) := by rw [hsplit, List.append_assoc, List.cons_append]

end Packet

/-- `pj_stun_msg_decode` reads inside the packet, ends, and what it accepts is in order. -/
structure DecodesSafely (digest : Digest) (pdu : List UInt8) (options : Nat) : Prop where
  inside : ∀ i ∈ decodeReads digest pdu options, i < pdu.length
  ends : decode digest pdu options ≠ .error .outOfFuel
  ordered : ∀ msg parsed, decode digest pdu options = .ok (msg, parsed) →
    parsed = 20 + getVal16 pdu 2 ∧ msg.types.count attrMessageIntegrity.toNat ≤ 1 ∧
      msg.types.count attrFingerprint.toNat ≤ 1 ∧ attrFingerprint.toNat ∉ msg.types.dropLast

/-- The packet is in order as far as its attributes are known, each of them is acceptable by itself, and FINGERPRINT is
followed by attributes of unknown types above 0x7FFF. -/
def FingerprintBuried (digest : Digest) (pdu : List UInt8) (options : Nat) : Prop :=
  packetCheck digest pdu options = .ok () ∧ ∃ front fingerprint behind,
    bodyOf pdu = (front ++ fingerprint :: behind).flatten ∧
    (∀ piece ∈ front ++ fingerprint :: behind, Acceptable (hdrOf pdu) piece) ∧
    (front ++ fingerprint :: behind).length ≤ maxAttr ∧
    (knownTypes front).count attrMessageIntegrity.toNat ≤ 1 ∧ attrFingerprint.toNat ∉ knownTypes front ∧
    attrType fingerprint = attrFingerprint.toNat ∧ behind ≠ [] ∧ ∀ piece ∈ behind, isKnown piece = false

theorem isKnown_fingerprint {piece : List UInt8} (h : attrType piece = attrFingerprint.toNat) : isKnown piece = true := by
  rw [isKnown, h]
  rfl

theorem buried_iff {digest : Digest} {pdu : List UInt8} {options : Nat} :
    FingerprintBuried digest pdu options ↔ packetCheck digest pdu options = .ok () ∧
      ∃ pieces, Layout (hdrOf pdu) (bodyOf pdu) pieces ∧ attrFingerprint.toNat ∈ (pieces.map attrType).dropLast := by
  have hknown : ∀ (front : List (List UInt8)) {fp : List UInt8} (behind : List (List UInt8)),
      attrType fp = attrFingerprint.toNat →
      knownTypes (front ++ fp :: behind) = knownTypes front ++ attrFingerprint.toNat :: knownTypes behind := by
    intro front fp behind hfp
    rw [List.append_cons, knownTypes_flatten, knownTypes_append, if_pos (isKnown_fingerprint hfp), hfp, List.append_assoc,
      List.singleton_append]
  refine and_congr_right fun _ => ⟨?_, ?_⟩
  · rintro ⟨front, fp, behind, hbody, haccept, hroom, hmi, hfirst, hfp, hne, hunknown⟩
    have hnil : knownTypes behind = [] := by
      rw [knownTypes, List.filter_eq_nil_iff.mpr fun piece hpiece => by rw [hunknown piece hpiece]; exact Bool.false_ne_true]
      rfl
    refine ⟨front ++ fp :: behind, ⟨hbody, haccept, hroom, ?_⟩, ?_⟩
    · rw [hknown front behind hfp, hnil]
      exact inOrder_append.mpr ⟨hfirst, hmi, fun h => absurd h (by decide)⟩
    · rw [List.map_append, List.map_cons, List.dropLast_append_cons, hfp,
        List.dropLast_cons_of_ne_nil fun h => hne (List.map_eq_nil_iff.mp h)]
      exact List.mem_append_right _ List.mem_cons_self
  · rintro ⟨pieces, ⟨hbody, haccept, hroom, horder⟩, hmem⟩
    obtain ⟨front, fp, behind, rfl, hfp, hne⟩ := exists_behind hmem
    rw [hknown front behind hfp] at horder
    have hnil : knownTypes behind = [] := by
      by_contra hsome
      refine horder.2 ?_
      rw [List.dropLast_append_cons, List.dropLast_cons_of_ne_nil hsome]
      exact List.mem_append_right _ List.mem_cons_self
    rw [hnil] at horder
    obtain ⟨hfirst, hmi, -⟩ := inOrder_append.mp horder
    refine ⟨front, fp, behind, hbody, haccept, hroom, hmi, hfirst, hfp, hne, fun piece hpiece => ?_⟩
    rw [knownTypes, List.map_eq_nil_iff] at hnil
    exact Bool.eq_false_iff.mpr (List.filter_eq_nil_iff.mp hnil piece hpiece)

/-- Decoding is safe exactly when the packet is checked or has four bytes at least, and it is not one with unknown
attributes behind FINGERPRINT. -/
theorem decodesSafely_iff (digest : Digest) (pdu : List UInt8) (hne : pdu ≠ []) (options : Nat) :
    DecodesSafely digest pdu options ↔
      (options &&& checkPacket ≠ 0 ∨ 4 ≤ pdu.length) ∧ ¬FingerprintBuried digest pdu options := by
  rw [← decodeReads_lt_iff digest hne]
  constructor
  · intro h
    refine ⟨h.inside, fun hburied => ?_⟩
    obtain ⟨hcheck, pieces, hlayout, hmem⟩ := buried_iff.mp hburied
    obtain ⟨msg, parsed, hdecode, htypes⟩ := decode_of_layout hne hcheck hlayout
    rw [← htypes] at hmem
    exact (h.ordered msg parsed hdecode).2.2.2 hmem
  · rintro ⟨hinside, hburied⟩
    refine ⟨hinside, ?_, ?_⟩
    · rw [decode_eq digest hne]
      have hcheckFuel : packetCheck digest pdu options ≠ .error .outOfFuel := by
        unfold packetCheck msgCheck
        dsimp only
        repeat' split
        all_goals exact fun h => by cases h
      obtain ⟨hfuel, -⟩ := @Done.loop (hdrOf pdu) _ _ done_nil _ _ (Nat.lt_succ_self (bodyOf pdu).length)
      cases hcheck : packetCheck digest pdu options with
      | error error =>
        rw [hcheck] at hcheckFuel
        exact fun h => hcheckFuel (congrArg _ (Except.error.inj h))
      | ok u =>
        dsimp only [Except.bind]
        cases hloop : decodeLoop (hdrOf pdu) ((bodyOf pdu).length + 1) ⟨[], false, false⟩ (bodyOf pdu) with
        | error error =>
          rw [hloop] at hfuel
          exact fun h => hfuel (congrArg _ (Except.error.inj h))
        | ok result =>
          dsimp only [Except.bind]
          split
          · exact fun h => by cases h
          · exact fun h => by cases h
    · intro msg parsed hdecode
      obtain ⟨hparsed, hcheck, pieces, hlayout, htypes⟩ := layout_of_decode hne hdecode
      have hlast : attrFingerprint.toNat ∉ msg.types.dropLast := fun hmem =>
        hburied (buried_iff.mpr ⟨hcheck, pieces, hlayout, htypes ▸ hmem⟩)
      refine ⟨hparsed, ?_, count_le_one_of_dropLast hlast, hlast⟩
      rw [htypes, count_knownTypes rfl]
      exact hlayout.order.1

def noDigest : Digest := ⟨fun _ _ => .replicate 20 0, fun _ => 0⟩

/-- A Binding request with SOFTWARE and FINGERPRINT. -/
def softwarePdu : List UInt8 :=
  [0, 1, 0, 16, 0x21, 0x12, 0xa4, 0x42] ++ List.replicate 12 0 ++
    [0x80, 0x22, 0, 4, 0x70, 0x6a, 0x6e, 0x61, 0x80, 0x28, 0, 4, 0x53, 0x54, 0x55, 0x4e]

theorem decodesSafely_iff_software : softwarePdu ≠ [] ∧ DecodesSafely noDigest softwarePdu checkPacket := by
  refine ⟨by decide, (decodesSafely_iff noDigest softwarePdu (by decide) checkPacket).mpr ⟨by decide, fun hburied => ?_⟩⟩
  obtain ⟨hcheck, pieces, hlayout, hmem⟩ := buried_iff.mp hburied
  obtain ⟨msg, parsed, hdecode, htypes⟩ := decode_of_layout (by decide) hcheck hlayout
  have hknown : (decode noDigest softwarePdu checkPacket).toOption.map (fun r => r.1.types) = some [0x8022, 0x8028] := by
    decide
  rw [hdecode] at hknown
  have htwo : msg.types = [0x8022, 0x8028] := Option.some.inj hknown
  rw [← htypes, htwo] at hmem
  exact absurd hmem (by decide)

/-- Of a packet of one byte the fourth is read, and an unknown attribute is accepted behind FINGERPRINT. -/
theorem fingerprint_not_last :
    ¬DecodesSafely noDigest [0] 0 ∧
      ¬DecodesSafely noDigest
        ([0, 1, 0, 12] ++ List.replicate 16 0 ++ [0x80, 0x28, 0, 4, 0, 0, 0, 0, 0x80, 0x30, 0, 0]) 0 := by
  refine ⟨fun h => ?_, fun h => ?_⟩
  · have hread : 3 ∈ decodeReads noDigest [0] 0 := by decide
    exact absurd (h.inside 3 hread) (by decide)
  · have hdecode : ((decode noDigest
        ([0, 1, 0, 12] ++ List.replicate 16 0 ++ [0x80, 0x28, 0, 4, 0, 0, 0, 0, 0x80, 0x30, 0, 0]) 0).toOption.map
          fun r => r.1.types) = some [0x8028, 0x8030] := by decide
    obtain ⟨⟨msg, parsed⟩, hsome, htypes⟩ := Option.map_eq_some_iff.mp hdecode
    cases hresult : decode noDigest
        ([0, 1, 0, 12] ++ List.replicate 16 0 ++ [0x80, 0x28, 0, 4, 0, 0, 0, 0, 0x80, 0x30, 0, 0]) 0 with
    | error error =>
      rw [hresult] at hsome
      cases hsome
    | ok result =>
      rw [hresult] at hsome
      cases hsome
      have hlast := (h.ordered msg parsed hresult).2.2.2
      rw [htypes] at hlast
      exact hlast List.mem_cons_self

end PjProject.Stun
