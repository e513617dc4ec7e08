import PjProject.Bytes

/-! Decoding of RTP packets (`pjmedia_rtp_decode_rtp2`) and of RTCP packets (`pjmedia_rtcp_rx_rtcp`). All lengths in them
come from the peer. A read outside the packet and a write outside the buffer for the texts of a source description have
no result. -/

namespace PjProject.RtcpDecode

/-- The bytes at an offset of a packet. -/
def read (pkt : List UInt8) (p n : Nat) : Option (List UInt8) :=
  if p + n ≤ pkt.length then some (slice pkt p n) else none

def readByte (pkt : List UInt8) (p : Nat) : Option Nat := (read pkt p 1).map ofBytes

/-- `memcpy` into a buffer. -/
def write (buf : List UInt8) (p : Nat) (bytes : List UInt8) : Option (List UInt8) :=
  if p + bytes.length ≤ buf.length then some (buf.take p ++ bytes ++ buf.drop (p + bytes.length)) else none

theorem read_inside {pkt : List UInt8} {p n : Nat} (h : p + n ≤ pkt.length) :
    ∃ bytes, read pkt p n = some bytes ∧ bytes.length = n := by
  refine ⟨slice pkt p n, if_pos h, ?_⟩
  rw [slice, List.length_take, List.length_drop]
  omega

theorem readByte_inside {pkt : List UInt8} {p : Nat} (h : p < pkt.length) : ∃ byte, readByte pkt p = some byte := by
  obtain ⟨bytes, hread, -⟩ := read_inside (n := 1) h
  exact ⟨ofBytes bytes, by rw [readByte, hread]; rfl⟩

theorem write_inside {buf bytes : List UInt8} {p : Nat} (h : p + bytes.length ≤ buf.length) :
    ∃ buf', write buf p bytes = some buf' ∧ buf'.length = buf.length := by
  refine ⟨_, if_pos h, ?_⟩
  rw [List.length_append, List.length_append, List.length_take, List.length_drop]
  omega

/-! RTP. -/

inductive Error
  | einver
  | einlen
  deriving DecidableEq, Repr

/-- `pjmedia_rtp_dec_hdr`, and the payload: the pointers are offsets in the packet. -/
structure Decoded where
  extHdr : Option Nat
  ext : Option Nat
  extLen : Nat
  payload : Option Nat
  payloadlen : Nat
  deriving DecidableEq, Repr

def decodeExt (pkt : List UInt8) (offset : Nat) (x : Bool) : Option (Except Error (Option Nat × Nat × Nat)) :=
  if x then
    if pkt.length < offset + 4 then some (.error .einlen)
    else (read pkt (offset + 2) 2).map fun length =>
      .ok (some offset, ofBytes length, offset + (ofBytes length + 1) * 4)
  else some (.ok (none, 0, offset))

def decodePayload (pkt : List UInt8) (p : Bool) (extHdr : Option Nat) (extLen offset : Nat) :
    Option (Except Error Decoded) :=
  if pkt.length < offset then some (.error .einlen)
  else
    let payload := if offset = pkt.length then none else some offset
    let payloadlen := pkt.length - offset
    if p ∧ 0 < payloadlen then
      -- the pointer is not null, as there is payload
      payload.bind fun payload =>
        (readByte pkt (payload + (payloadlen - 1))).map fun padLen =>
          .ok ⟨extHdr, extHdr.map (· + 4), extLen, some payload,
            if padLen ≤ payloadlen then payloadlen - padLen else payloadlen⟩
    else some (.ok ⟨extHdr, extHdr.map (· + 4), extLen, payload, payloadlen⟩)

/-- `pjmedia_rtp_decode_rtp2`. A bit-field of the header is read from the byte that has it. -/
def decodeRtp2 (pkt : List UInt8) : Option (Except Error Decoded) :=
  (readByte pkt 0).bind fun first =>
    if first / 64 ≠ 2 then some (.error .einver)
    else
      (decodeExt pkt (12 + first % 16 * 4) (first / 16 % 2 = 1)).bind fun ext =>
        match ext with
        | .error error => some (.error error)
        | .ok (extHdr, extLen, offset) => decodePayload pkt (first / 32 % 2 = 1) extHdr extLen offset

/-- The payload and the words of the extension are inside the packet. -/
structure Decoded.Inside (d : Decoded) (n : Nat) : Prop where
  payload : ∀ p ∈ d.payload, p + d.payloadlen ≤ n
  none : d.payload = none → d.payloadlen = 0
  ext : ∀ p ∈ d.ext, p + 4 * d.extLen ≤ n

theorem decodePayload_inside {pkt : List UInt8} (p : Bool) {extHdr : Option Nat} {extLen offset : Nat}
    (hext : ∀ q ∈ extHdr, q + 4 + 4 * extLen ≤ offset) :
    ∃ r, decodePayload pkt p extHdr extLen offset = some r ∧ ∀ d, r = .ok d → d.Inside pkt.length := by
  unfold decodePayload
  dsimp only
  split
  · exact ⟨_, rfl, fun d h => nomatch h⟩
  next hshort =>
    have hwords : ∀ q ∈ extHdr.map (· + 4), q + 4 * extLen ≤ pkt.length := by
      intro q hq
      obtain ⟨hdr, hhdr, rfl⟩ := Option.mem_map.mp hq
      have hle := hext hdr hhdr
      omega
    split
    next hpad =>
      obtain ⟨-, hsome⟩ := hpad
      rw [if_neg (by omega), Option.bind_some]
      obtain ⟨padLen, hread⟩ := @readByte_inside pkt (offset + (pkt.length - offset - 1)) (by omega)
      rw [hread]
      refine ⟨_, rfl, fun d h => ?_⟩
      obtain rfl := Except.ok.inj h
      refine ⟨fun q hq => ?_, fun h => (nomatch h), hwords⟩
      obtain rfl := Option.some.inj hq
      dsimp only
      split <;> omega
    · refine ⟨_, rfl, fun d h => ?_⟩
      obtain rfl := Except.ok.inj h
      refine ⟨fun q hq => ?_, fun h => ?_, hwords⟩
      · dsimp only at hq ⊢
        split at hq
        · exact absurd hq (Option.not_mem_none q)
        · obtain rfl := Option.some.inj hq
          omega
      · dsimp only at h ⊢
        split at h
        · omega
        · exact nomatch h

/-- The decoder reads only bytes of the packet, and what it gives is inside the packet. -/
theorem decodeRtp2_inside {pkt : List UInt8} (h : 1 ≤ pkt.length) :
    ∃ r, decodeRtp2 pkt = some r ∧ ∀ d, r = .ok d → d.Inside pkt.length := by
  obtain ⟨first, hfirst⟩ := readByte_inside h
  unfold decodeRtp2 decodeExt
  rw [hfirst, Option.bind_some]
  split
  · exact ⟨_, rfl, fun d h => nomatch h⟩
  · split
    · split
      · exact ⟨_, rfl, fun d h => nomatch h⟩
      next hlong =>
        obtain ⟨length, hread, -⟩ := @read_inside pkt (12 + first % 16 * 4 + 2) 2 (by omega)
        rw [hread]
        refine decodePayload_inside _ fun q hq => ?_
        obtain rfl := Option.some.inj hq
        omega
    · exact decodePayload_inside _ fun q hq => absurd hq (Option.not_mem_none q)

/-! RTCP. -/

/-- `RTCP_SR`, `RTCP_RR`, `RTCP_SDES` and `RTCP_BYE`. -/
def rtcpSr : Nat := 200
def rtcpRr : Nat := 201
def rtcpSdes : Nat := 202
def rtcpBye : Nat := 203

/-- `PJMEDIA_RTCP_RX_SDES_BUF_LEN`. -/
def rxSdesBufLen : Nat := 64

/-- The texts of `pjmedia_rtcp_sdes`: the offset in the buffer and the length. -/
structure Sdes where
  cname : Option (Nat × Nat)
  name : Option (Nat × Nat)
  email : Option (Nat × Nat)
  phone : Option (Nat × Nat)
  loc : Option (Nat × Nat)
  tool : Option (Nat × Nat)
  note : Option (Nat × Nat)
  deriving DecidableEq, Repr

def Sdes.zero : Sdes := ⟨none, none, none, none, none, none, none⟩

/-- What a session keeps of the RTCP packets of its peer. -/
structure Session where
  rxLsr : Nat
  rxLsrTs : Nat
  rxLsrNtp : Nat × Nat
  txLoss : Nat
  updateCnt : Nat
  peerSdes : Sdes
  peerSdesBuf : List UInt8
  deriving DecidableEq, Repr

def init : Session := ⟨0, 0, (0, 0), 0, 0, .zero, List.replicate rxSdesBufLen 0⟩

/-- What is kept of a sender report. -/
def Session.noteSr (sess : Session) (sr : List UInt8) : Session :=
  let ntpSec := ofBytes (slice sr 0 4)
  let ntpFrac := ofBytes (slice sr 4 4)
  { sess with
    rxLsr := ntpSec % 65536 * 65536 + ntpFrac / 65536
    rxLsrTs := ofBytes (slice sr 8 4)
    rxLsrNtp := (ntpSec, ntpFrac) }

/-- What is kept of a report block: the loss has 24 bits and a sign. -/
def Session.noteRr (sess : Session) (rr : List UInt8) : Session :=
  let txLoss := ofBytes (slice rr 5 3)
  { sess with txLoss := if 8388608 ≤ txLoss then 0 else txLoss, updateCnt := (sess.updateCnt + 1) % 4294967296 }

/-- `parse_rtcp_report`, but for extended reports. -/
def parseRtcpReport (sess : Session) (pkt : List UInt8) : Option Session :=
  (readByte pkt 0).bind fun first =>
    (readByte pkt 1).bind fun pt =>
      let count := first % 32
      if pt = rtcpSr then
        if pkt.length < 8 + 20 then some sess
        else (read pkt 8 20).bind fun sr =>
          if 0 < count ∧ 52 ≤ pkt.length then (read pkt 28 24).map fun rr => (sess.noteSr sr).noteRr rr
          else some (sess.noteSr sr)
      else if pt = rtcpRr ∧ 0 < count then
        if pkt.length < 8 + 24 then some sess else (read pkt 8 24).map sess.noteRr
      else some sess

/-- The field of a kind of item; the others are not kept. -/
def Sdes.set (sdes : Sdes) (sdesType : Nat) (value : Nat × Nat) : Sdes :=
  match sdesType with
  | 1 => { sdes with cname := some value }
  | 2 => { sdes with name := some value }
  | 3 => { sdes with email := some value }
  | 4 => { sdes with phone := some value }
  | 5 => { sdes with loc := some value }
  | 6 => { sdes with tool := some value }
  | 7 => { sdes with note := some value }
  | _ => sdes

/-- The text of an item goes to the buffer from `b` on, unless there is no room. -/
def saveItem (sess : Session) (b sdesType : Nat) (text : List UInt8) : Option (Session × Nat) :=
  if b + text.length < sess.peerSdesBuf.length then
    (write sess.peerSdesBuf b text).map fun buf =>
      ({ sess with peerSdesBuf := buf, peerSdes := sess.peerSdes.set sdesType (b, text.length) }, b + text.length)
  else some (sess, b)

def sdesItems (pkt : List UInt8) : Nat → Nat → Nat → Session → Option Session
  | 0, _, _, _ => none
  | bound + 1, p, b, sess =>
    if p < pkt.length then
      (readByte pkt p).bind fun sdesType =>
        if sdesType = 0 ∨ p + 1 = pkt.length then some sess
        else
          (readByte pkt (p + 1)).bind fun sdesLen =>
            if pkt.length < p + 2 + sdesLen then some sess
            else
              (read pkt (p + 2) sdesLen).bind fun text =>
                (saveItem sess b sdesType text).bind fun (sess, b) => sdesItems pkt bound (p + 2 + sdesLen) b sess
    else some sess

/-- `parse_rtcp_sdes`. -/
def parseRtcpSdes (sess : Session) (pkt : List UInt8) : Option Session :=
  sdesItems pkt (pkt.length + 1) 8 0 { sess with peerSdes := .zero }

/-- `parse_rtcp_bye`: the reason goes to the buffer of the texts too. -/
def parseRtcpBye (sess : Session) (pkt : List UInt8) : Option Session :=
  if 8 < pkt.length then
    (readByte pkt 8).bind fun length =>
      (read pkt 9 (min (min sess.peerSdesBuf.length length) (pkt.length - 9))).bind fun reason =>
        (write sess.peerSdesBuf 0 reason).map fun buf => { sess with peerSdesBuf := buf }
  else some sess

/-- One packet of a compound; feedback, extended reports and unknown packets are not looked into. -/
def rxPacket (sess : Session) (pt : Nat) (pkt : List UInt8) : Option Session :=
  if pt = rtcpSr ∨ pt = rtcpRr then parseRtcpReport sess pkt
  else if pt = rtcpSdes then parseRtcpSdes sess pkt
  else if pt = rtcpBye then parseRtcpBye sess pkt
  else some sess

/-- The loop of `pjmedia_rtcp_rx_rtcp`. Each packet is parsed as the bytes that its own length gives it. -/
def rxLoop (pkt : List UInt8) : Nat → Nat → Session → Option Session
  | 0, _, _ => none
  | bound + 1, p, sess =>
    if p < pkt.length then
      if pkt.length < p + 8 then some sess
      else
        (read pkt (p + 2) 2).bind fun length =>
          let len := (ofBytes length + 1) * 4
          if pkt.length < p + len then some sess
          else
            (readByte pkt (p + 1)).bind fun pt =>
              (rxPacket sess pt (slice pkt p len)).bind fun sess => rxLoop pkt bound (p + len) sess
    else some sess

/-- `pjmedia_rtcp_rx_rtcp`. -/
def rxRtcp (sess : Session) (pkt : List UInt8) : Option Session := rxLoop pkt (pkt.length + 1) 0 sess

/-! The buffer of the texts. -/

def Sdes.texts (sdes : Sdes) : List (Option (Nat × Nat)) :=
  [sdes.cname, sdes.name, sdes.email, sdes.phone, sdes.loc, sdes.tool, sdes.note]

/-- Every text is inside a buffer of the length. -/
def Sdes.Inside (sdes : Sdes) (n : Nat) : Prop := ∀ text ∈ sdes.texts, ∀ value ∈ text, value.1 + value.2 ≤ n

/-- The buffer has its size, and the texts are in it. -/
structure Session.Valid (sess : Session) : Prop where
  length : sess.peerSdesBuf.length = rxSdesBufLen
  inside : sess.peerSdes.Inside rxSdesBufLen

theorem inside_zero (n : Nat) : Sdes.zero.Inside n := by
  intro text htext value hvalue
  simp only [Sdes.texts, Sdes.zero, List.mem_cons, List.not_mem_nil, or_false, or_self] at htext
  rw [htext] at hvalue
  exact absurd hvalue (Option.not_mem_none value)

/-- An item that is set is the new one, the others are kept. -/
theorem mem_texts_set {sdes : Sdes} {sdesType : Nat} {value : Nat × Nat} {text : Option (Nat × Nat)}
    (h : text ∈ (sdes.set sdesType value).texts) : text = some value ∨ text ∈ sdes.texts := by
  unfold Sdes.set at h
  simp only [Sdes.texts, List.mem_cons, List.not_mem_nil, or_false] at h ⊢
  split at h <;> grind

theorem Sdes.Inside.set {sdes : Sdes} {n : Nat} (h : sdes.Inside n) (sdesType : Nat) {value : Nat × Nat}
    (hvalue : value.1 + value.2 ≤ n) : (sdes.set sdesType value).Inside n := by
  intro text htext other hother
  rcases mem_texts_set htext with rfl | hold
  · obtain rfl := Option.some.inj hother
    exact hvalue
  · exact h text hold other hother

theorem valid_noteSr {sess : Session} (h : sess.Valid) (sr : List UInt8) : (sess.noteSr sr).Valid := ⟨h.length, h.inside⟩

theorem valid_noteRr {sess : Session} (h : sess.Valid) (rr : List UInt8) : (sess.noteRr rr).Valid := ⟨h.length, h.inside⟩

/-- A report needs the bytes that its kind and the length of the packet promise. -/
theorem parseRtcpReport_valid {sess : Session} (h : sess.Valid) {pkt : List UInt8} (hlength : 4 ≤ pkt.length) :
    ∃ sess', parseRtcpReport sess pkt = some sess' ∧ sess'.Valid := by
  obtain ⟨first, hfirst⟩ := @readByte_inside pkt 0 (by omega)
  obtain ⟨pt, hpt⟩ := @readByte_inside pkt 1 (by omega)
  unfold parseRtcpReport
  rw [hfirst, Option.bind_some, hpt, Option.bind_some]
  dsimp only
  split
  · split
    · exact ⟨sess, rfl, h⟩
    next hlong =>
      obtain ⟨sr, hsr, -⟩ := @read_inside pkt 8 20 (by omega)
      rw [hsr, Option.bind_some]
      split
      next hblock =>
        obtain ⟨rr, hrr, -⟩ := @read_inside pkt 28 24 (by omega)
        rw [hrr]
        exact ⟨_, rfl, valid_noteRr (valid_noteSr h sr) rr⟩
      · exact ⟨_, rfl, valid_noteSr h sr⟩
  · split
    · split
      · exact ⟨sess, rfl, h⟩
      next hlong =>
        obtain ⟨rr, hrr, -⟩ := @read_inside pkt 8 24 (by omega)
        rw [hrr]
        exact ⟨_, rfl, valid_noteRr h rr⟩
    · exact ⟨sess, rfl, h⟩

theorem saveItem_valid {sess : Session} (h : sess.Valid) (b sdesType : Nat) (text : List UInt8) :
    ∃ r, saveItem sess b sdesType text = some r ∧ r.1.Valid := by
  unfold saveItem
  split
  next hroom =>
    obtain ⟨buf, hwrite, hbuf⟩ := write_inside hroom.le
    rw [hwrite]
    refine ⟨_, rfl, hbuf.trans h.length, h.inside.set sdesType ?_⟩
    rw [← h.length]
    exact hroom.le
  · exact ⟨_, rfl, h⟩

/-- Each item takes two bytes at least. -/
theorem sdesItems_valid {pkt : List UInt8} {bound p b : Nat} {sess : Session} (h : sess.Valid)
    (hbound : pkt.length < p + bound) (hpos : 0 < bound) :
    ∃ sess', sdesItems pkt bound p b sess = some sess' ∧ sess'.Valid := by
  induction bound generalizing p b sess with
  | zero => exact absurd hpos (Nat.lt_irrefl 0)
  | succ bound ih =>
    unfold sdesItems
    split
    next hp =>
      obtain ⟨sdesType, htype⟩ := readByte_inside hp
      rw [htype, Option.bind_some]
      split
      · exact ⟨sess, rfl, h⟩
      next hmore =>
        obtain ⟨sdesLen, hlen⟩ := @readByte_inside pkt (p + 1) (by omega)
        rw [hlen, Option.bind_some]
        split
        · exact ⟨sess, rfl, h⟩
        next hfits =>
          obtain ⟨text, htext, -⟩ := @read_inside pkt (p + 2) sdesLen (by omega)
          obtain ⟨⟨sess', b'⟩, hsave, hvalid⟩ := saveItem_valid h b sdesType text
          rw [htext, Option.bind_some, hsave, Option.bind_some]
          exact ih hvalid (by omega) (by omega)
    · exact ⟨sess, rfl, h⟩

theorem parseRtcpSdes_valid {sess : Session} (h : sess.Valid) (pkt : List UInt8) :
    ∃ sess', parseRtcpSdes sess pkt = some sess' ∧ sess'.Valid :=
  sdesItems_valid ⟨h.length, inside_zero _⟩ (by omega) (Nat.succ_pos _)

theorem parseRtcpBye_valid {sess : Session} (h : sess.Valid) (pkt : List UInt8) :
    ∃ sess', parseRtcpBye sess pkt = some sess' ∧ sess'.Valid := by
  unfold parseRtcpBye
  split
  next hreason =>
    obtain ⟨length, hlength⟩ := readByte_inside hreason
    obtain ⟨reason, hread, hsize⟩ :=
      @read_inside pkt 9 (min (min sess.peerSdesBuf.length length) (pkt.length - 9)) (by omega)
    obtain ⟨buf, hwrite, hbuf⟩ := @write_inside sess.peerSdesBuf reason 0 (by omega)
    rw [hlength, Option.bind_some, hread, Option.bind_some, hwrite]
    exact ⟨_, rfl, hbuf.trans h.length, h.inside⟩
  · exact ⟨sess, rfl, h⟩

theorem rxPacket_valid {sess : Session} (h : sess.Valid) (pt : Nat) {pkt : List UInt8} (hlength : 4 ≤ pkt.length) :
    ∃ sess', rxPacket sess pt pkt = some sess' ∧ sess'.Valid := by
  unfold rxPacket
  split_ifs
  · exact parseRtcpReport_valid h hlength
  · exact parseRtcpSdes_valid h pkt
  · exact parseRtcpBye_valid h pkt
  · exact ⟨sess, rfl, h⟩

/-- Each packet takes four bytes at least. -/
theorem rxLoop_valid {pkt : List UInt8} {bound p : Nat} {sess : Session} (h : sess.Valid) (hp : p ≤ pkt.length)
    (hbound : pkt.length < p + bound) : ∃ sess', rxLoop pkt bound p sess = some sess' ∧ sess'.Valid := by
  induction bound generalizing p sess with
  | zero => omega
  | succ bound ih =>
    unfold rxLoop
    split
    · split
      · exact ⟨sess, rfl, h⟩
      next hheader =>
        obtain ⟨length, hread, -⟩ := @read_inside pkt (p + 2) 2 (by omega)
        rw [hread, Option.bind_some]
        dsimp only
        split
        · exact ⟨sess, rfl, h⟩
        next hfits =>
          obtain ⟨pt, hpt⟩ := @readByte_inside pkt (p + 1) (by omega)
          have hsub : (slice pkt p ((ofBytes length + 1) * 4)).length = (ofBytes length + 1) * 4 := by
            rw [slice, List.length_take, List.length_drop]
            omega
          obtain ⟨sess', hrx, hvalid⟩ := rxPacket_valid h pt (show 4 ≤ (slice pkt p _).length by rw [hsub]; omega)
          rw [hpt, Option.bind_some, hrx, Option.bind_some]
          exact ih hvalid (by omega) (by omega)
    · exact ⟨sess, rfl, h⟩

/-- `pjmedia_rtcp_rx_rtcp` for one compound after another. -/
def rxAll (sess : Session) (pkts : List (List UInt8)) : Option Session := pkts.foldlM rxRtcp sess

theorem rxAll_valid {sess : Session} (h : sess.Valid) (pkts : List (List UInt8)) :
    ∃ sess', rxAll sess pkts = some sess' ∧ sess'.Valid := by
  unfold rxAll
  induction pkts generalizing sess with
  | nil => exact ⟨sess, rfl, h⟩
  | cons pkt pkts ih =>
    have hbound : pkt.length < 0 + (pkt.length + 1) := by omega
    obtain ⟨sess', hrx, hvalid⟩ := rxLoop_valid h (Nat.zero_le pkt.length) hbound
    rw [List.foldlM_cons]
    change ∃ sess'', (rxRtcp sess pkt).bind (fun sess' => pkts.foldlM rxRtcp sess') = some sess'' ∧ _
    rw [rxRtcp, hrx]
    exact ih hvalid

/-- Both decoders stay inside the packet and the buffer. -/
theorem decoding_inside (pkt : List UInt8) (hpkt : 1 ≤ pkt.length) (pkts : List (List UInt8)) :
    (∃ r, decodeRtp2 pkt = some r ∧ ∀ d, r = .ok d → d.Inside pkt.length) ∧
      ∃ sess, rxAll init pkts = some sess ∧ sess.Valid :=
  ⟨decodeRtp2_inside hpkt, rxAll_valid ⟨List.length_replicate, inside_zero _⟩ pkts⟩

/-- A packet with an extension of one word and two bytes of padding, and a source description. -/
theorem decoding_inside_extension :
    (∃ r, decodeRtp2 [176, 0, 0, 1, 0, 0, 0, 0, 0, 0, 0, 0, 190, 222, 0, 1, 1, 2, 3, 4, 9, 9, 0, 2] = some r ∧
      ∀ d, r = .ok d → d.Inside 24) ∧
      ∃ sess, rxAll init [[129, 202, 0, 2, 0, 0, 0, 1, 1, 1, 97, 0]] = some sess ∧ sess.Valid :=
  decoding_inside [176, 0, 0, 1, 0, 0, 0, 0, 0, 0, 0, 0, 190, 222, 0, 1, 1, 2, 3, 4, 9, 9, 0, 2] (by decide) _

/-- It has two bytes of payload, and the name is kept. -/
example : decodeRtp2 [176, 0, 0, 1, 0, 0, 0, 0, 0, 0, 0, 0, 190, 222, 0, 1, 1, 2, 3, 4, 9, 9, 0, 2] =
      some (.ok ⟨some 12, some 16, 1, some 20, 2⟩) ∧
    (rxRtcp init [129, 202, 0, 2, 0, 0, 0, 1, 1, 1, 97, 0]).map (·.peerSdes.cname) = some (some (0, 1)) := by
  decide +kernel

end PjProject.RtcpDecode
