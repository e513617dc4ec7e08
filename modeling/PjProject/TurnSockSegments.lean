import PjProject.StunAttrs
import PjProject.TurnSock
import PjProject.Framing

/-! How the cutting of the stream from the server into reads shows in what is handed on. A read keeps in step with the stream
unless it has no whole packet (`on_data_read` then leaves the remainder at zero), ends within the padding of a ChannelData
packet, or goes on behind a packet that the session did not take with success. -/

namespace PjProject.Turn

open Stun (getVal16 putVal16 align4 align4_add le_align4 getVal16_append getVal32_append copyOf_append_left)

inductive Packet
  | stun (bytes : Bytes)
  | channelData (chNumber : Nat) (data : Bytes)
  deriving DecidableEq, Repr

/-- The packet at the front of the stream, and its length with the padding. -/
def decodePacket (l : Bytes) : Option (Packet × Nat) :=
  let len := getVal16 l 2
  if l.length < 4 then none
  else if looksStun l then
    if len % 4 = 0 ∧ len + 20 ≤ l.length then some (.stun (l.take (len + 20)), len + 20) else none
  else if align4 (len + 4) ≤ l.length then some (.channelData (getVal16 l 0) (slice l 4 len), align4 (len + 4))
  else none

/-! The front of a longer buffer. -/

theorem looksStun_append {l : Bytes} (more : Bytes) (h : 0 < l.length) : looksStun (l ++ more) = looksStun l := by
  rw [looksStun, looksStun, byteAt_append_left more h]

theorem slice_append_left {l : Bytes} {p n : Nat} (more : Bytes) (h : p + n ≤ l.length) :
    slice (l ++ more) p n = slice l p n := by
  rw [slice, slice, List.drop_append_of_le_length (by omega), List.take_append_of_le_length]
  rw [List.length_drop]
  omega

theorem decodePacket_eq_some {l : Bytes} {p : Packet} {n : Nat} :
    decodePacket l = some (p, n) ↔ 4 ≤ l.length ∧
      ((looksStun l = true ∧ getVal16 l 2 % 4 = 0 ∧ getVal16 l 2 + 20 ≤ l.length ∧
        p = .stun (l.take (getVal16 l 2 + 20)) ∧ n = getVal16 l 2 + 20) ∨
      (looksStun l = false ∧ align4 (getVal16 l 2 + 4) ≤ l.length ∧
        p = .channelData (getVal16 l 0) (slice l 4 (getVal16 l 2)) ∧ n = align4 (getVal16 l 2 + 4))) := by
  unfold decodePacket
  dsimp only
  by_cases hshort : l.length < 4
  · rw [if_pos hshort]
    exact iff_of_false nofun fun h => by omega
  · rw [if_neg hshort, and_iff_right (Nat.not_lt.mp hshort)]
    cases hstun : looksStun l with
    | true =>
      rw [if_pos rfl]
      by_cases hwhole : getVal16 l 2 % 4 = 0 ∧ getVal16 l 2 + 20 ≤ l.length
      · rw [if_pos hwhole, Option.some.injEq, Prod.mk.injEq]
        constructor
        · rintro ⟨hp, hn⟩
          exact .inl ⟨rfl, hwhole.1, hwhole.2, hp.symm, hn.symm⟩
        · rintro (⟨-, -, -, hp, hn⟩ | ⟨hfalse, -⟩)
          · exact ⟨hp.symm, hn.symm⟩
          · cases hfalse
      · rw [if_neg hwhole]
        refine iff_of_false nofun ?_
        rintro (⟨-, hmod, hlen, -⟩ | ⟨hfalse, -⟩)
        · exact hwhole ⟨hmod, hlen⟩
        · cases hfalse
    | false =>
      rw [if_neg Bool.false_ne_true]
      by_cases hwhole : align4 (getVal16 l 2 + 4) ≤ l.length
      · rw [if_pos hwhole, Option.some.injEq, Prod.mk.injEq]
        constructor
        · rintro ⟨hp, hn⟩
          exact .inr ⟨rfl, hwhole, hp.symm, hn.symm⟩
        · rintro (⟨hfalse, -⟩ | ⟨-, -, hp, hn⟩)
          · cases hfalse
          · exact ⟨hp.symm, hn.symm⟩
      · rw [if_neg hwhole]
        refine iff_of_false nofun ?_
        rintro (⟨hfalse, -⟩ | ⟨-, hlen, -⟩)
        · cases hfalse
        · exact hwhole hlen

def packetDecoder : Decoder UInt8 Packet where
  decode := decodePacket
  pos := by
    intro l p n h
    obtain ⟨-, ⟨-, -, -, -, rfl⟩ | ⟨-, -, -, rfl⟩⟩ := decodePacket_eq_some.mp h
    · exact Nat.succ_pos _
    · have hle := le_align4 (getVal16 l 2 + 4)
      omega
  le := by
    intro l p n h
    obtain ⟨-, ⟨-, -, hlen, -, rfl⟩ | ⟨-, hlen, -, rfl⟩⟩ := decodePacket_eq_some.mp h
    · exact hlen
    · exact hlen
  append := by
    intro l p n h more
    obtain ⟨hlong, hcases⟩ := decodePacket_eq_some.mp h
    rw [decodePacket_eq_some, getVal16_append more (by omega), getVal16_append more (by omega),
      looksStun_append more (by omega), List.length_append]
    refine ⟨by omega, ?_⟩
    rcases hcases with ⟨hstun, hmod, hlen, hp, hn⟩ | ⟨hstun, hlen, hp, hn⟩
    · refine .inl ⟨hstun, hmod, by omega, ?_, hn⟩
      rw [List.take_append_of_le_length hlen]
      exact hp
    · refine .inr ⟨hstun, by omega, ?_, hn⟩
      have hle := le_align4 (getVal16 l 2 + 4)
      rw [slice_append_left more (by omega)]
      exact hp

/-! Handing on. -/

def Packet.event (env : Env) (log : List Event) : Packet → Event
  | .stun bytes => .stun bytes
  | .channelData chNumber data => .channelData chNumber data (env.bound log chNumber)

/-- The session takes the packet with `PJ_SUCCESS`. -/
def Packet.taken (env : Env) (log : List Event) : Packet → Bool
  | .stun bytes =>
    (Stun.decode env.digest bytes (Stun.checkPacket ||| Stun.noFingerprintCheck)).toOption.isSome &&
      env.accepts (log ++ [.stun bytes])
  | .channelData chNumber _ => env.bound log chNumber

def handle (env : Env) (log : List Event) (p : Packet) : List Event × Bool :=
  (log ++ [p.event env log], !env.gone (log ++ [p.event env log]))

/-- The reference: the packets of a stream are handed on in order, until the session is gone. -/
def handOn (env : Env) (log : List Event) (stream : Bytes) : List Event × Option Bytes :=
  packetDecoder.deliver (handle env) log stream

/-! The STUN session sees the message at the front of the data only. -/

theorem msgCheck_append {digest : Stun.Digest} {msg : Bytes} (more : Bytes) (hlen : msg.length = getVal16 msg 2 + 20) :
    Stun.msgCheck digest (msg ++ more) 10 = Stun.msgCheck digest msg 10 := by
  have hdatagram : 10 &&& Stun.isDatagram = 0 := by decide
  have hnocheck : 10 &&& Stun.noFingerprintCheck = 8 := by decide
  have hshort : ¬ msg.length < 20 := by omega
  have hshort' : ¬ (msg ++ more).length < 20 := by
    rw [List.length_append]
    omega
  have hbody : ¬ (msg.length < getVal16 msg 2 + 20 ∨
      10 &&& Stun.isDatagram ≠ 0 ∧ getVal16 msg 2 + 20 ≠ msg.length) := by
    rw [hdatagram]
    omega
  have hbody' : ¬ ((msg ++ more).length < getVal16 msg 2 + 20 ∨
      10 &&& Stun.isDatagram ≠ 0 ∧ getVal16 msg 2 + 20 ≠ (msg ++ more).length) := by
    rw [hdatagram, List.length_append]
    omega
  have hfingerprint : ∀ l : Bytes, ∀ n : Nat, ¬ (Stun.getVal32 l 4 = Stun.stunMagic.toNat ∧
      10 &&& Stun.noFingerprintCheck = 0 ∧ getVal16 l n = Stun.attrFingerprint.toNat) := by
    intro l n
    rw [hnocheck]
    omega
  unfold Stun.msgCheck
  dsimp only
  rw [getVal16_append more (by omega), byteAt_append_left more (by omega), if_neg hshort, if_neg hshort', if_neg hbody,
    if_neg hbody', if_neg (hfingerprint _ _), if_neg (hfingerprint _ _)]

theorem decode_append {digest : Stun.Digest} {msg : Bytes} (more : Bytes) (hlen : msg.length = getVal16 msg 2 + 20) :
    Stun.decode digest (msg ++ more) 10 = Stun.decode digest msg 10 := by
  have hlt : getVal16 msg 2 < 65536 := by
    have hhigh := (byteAt msg 2).toNat_lt
    have hlow := (byteAt msg (2 + 1)).toNat_lt
    unfold getVal16
    omega
  have hbody : (UInt16.ofNat (getVal16 msg 2)).toNat = getVal16 msg 2 := by
    rw [UInt16.toNat_ofNat']
    exact Nat.mod_eq_of_lt hlt
  have hne : msg ≠ [] := List.ne_nil_of_length_pos (by omega)
  have hne' : msg ++ more ≠ [] := List.append_ne_nil_of_left_ne_nil hne more
  have hcheck : 10 &&& Stun.checkPacket ≠ 0 := by decide
  unfold Stun.decode
  dsimp only
  rw [if_neg hne, if_neg hne', if_pos hcheck, if_pos hcheck, msgCheck_append more hlen, getVal16_append more (by omega),
    getVal16_append more (by omega), getVal32_append more (by omega), copyOf_append_left more (by omega), hbody,
    slice_append_left more (by omega)]

theorem decode_parsedLen {digest : Stun.Digest} {msg : Bytes} (hlen : msg.length = getVal16 msg 2 + 20) {m : Stun.Msg} {n : Nat}
    (h : Stun.decode digest msg 10 = .ok (m, n)) : n = msg.length := by
  have hlt : getVal16 msg 2 < 65536 := by
    have hhigh := (byteAt msg 2).toNat_lt
    have hlow := (byteAt msg (2 + 1)).toNat_lt
    unfold getVal16
    omega
  have hbody : (UInt16.ofNat (getVal16 msg 2)).toNat = getVal16 msg 2 := by
    rw [UInt16.toNat_ofNat']
    exact Nat.mod_eq_of_lt hlt
  have hslice : (slice msg 20 (getVal16 msg 2)).length = getVal16 msg 2 := by
    rw [slice, List.length_take, List.length_drop]
    omega
  unfold Stun.decode at h
  split at h
  · cases h
  · dsimp only at h
    rw [hbody] at h
    cases hchecked : (if 10 &&& Stun.checkPacket ≠ 0 then Stun.msgCheck digest msg 10
      else if msg.length < getVal16 msg 2 + 20 ∨ 10 &&& Stun.isDatagram ≠ 0 ∧ getVal16 msg 2 + 20 ≠ msg.length then
        Except.error Stun.Status.einstunmsglen else Except.ok ()) with
    | error e =>
      rw [hchecked] at h
      cases h
    | ok u =>
      rw [hchecked] at h
      simp only [Except.bind] at h
      split at h
      · cases h
      · split at h
        · cases h
        · rename_i hrest
          obtain rfl := (Prod.mk.inj (Except.ok.inj h)).2
          rw [not_not.mp hrest, hslice, hlen, List.length_nil]
          omega

/-! What one turn of the loop does. -/

section Loop

variable {env : Env} {connType : ConnType}

theorem onRxPkt_packet (hconn : connType ≠ .udp) {log : List Event} {data : Bytes} {p : Packet} {n : Nat}
    (hdecode : decodePacket data = some (p, n)) :
    onRxPkt env connType log data = (log ++ [p.event env log], if p.taken env log then some n else none) := by
  obtain ⟨hlong, ⟨hstun, hmod, hlen, rfl, rfl⟩ | ⟨hstun, hlen, rfl, rfl⟩⟩ := decodePacket_eq_some.mp hdecode
  · have hoptions : rxOptions connType = 10 := by
      rw [rxOptions, if_neg hconn]
      rfl
    have hmsg : (data.take (getVal16 data 2 + 20)).length = getVal16 data 2 + 20 := by
      rw [List.length_take, Nat.min_eq_left hlen]
    have hfield : getVal16 (data.take (getVal16 data 2 + 20)) 2 = getVal16 data 2 := by
      conv => rhs; rw [← List.take_append_drop (getVal16 data 2 + 20) data]
      rw [getVal16_append _ (by omega)]
    have hwhole : (data.take (getVal16 data 2 + 20)).length =
        getVal16 (data.take (getVal16 data 2 + 20)) 2 + 20 := by rw [hmsg, hfield]
    have hsame : Stun.decode env.digest data 10 = Stun.decode env.digest (data.take (getVal16 data 2 + 20)) 10 := by
      conv => lhs; rw [← List.take_append_drop (getVal16 data 2 + 20) data]
      exact decode_append _ hwhole
    have hset : Stun.checkPacket ||| Stun.noFingerprintCheck = 10 := rfl
    unfold onRxPkt
    dsimp only
    rw [if_pos hstun, hoptions, hsame, Packet.event, Packet.taken, hset]
    cases hresult : Stun.decode env.digest (data.take (getVal16 data 2 + 20)) 10 with
    | error e => rfl
    | ok result =>
      obtain ⟨m, k⟩ := result
      have hk := decode_parsedLen hwhole hresult
      rw [hk, hmsg]
      rfl
  · have hroom : ¬ (data.length < 4 ∨ data.length < getVal16 data 2 + 4) := by
      have hle := le_align4 (getVal16 data 2 + 4)
      omega
    unfold onRxPkt
    dsimp only
    rw [if_neg (by rw [hstun]; exact Bool.false_ne_true), if_neg hroom, Packet.event, Packet.taken, align4_add]

/-- The quick check agrees with a whole packet. -/
theorem hasPacket_packet (hconn : connType ≠ .udp) {data : Bytes} {p : Packet} {n : Nat}
    (hdecode : decodePacket data = some (p, n)) : hasPacket connType data = n ∧ 4 ≤ n := by
  obtain ⟨hlong, ⟨hstun, hmod, hlen, -, rfl⟩ | ⟨hstun, hlen, -, rfl⟩⟩ := decodePacket_eq_some.mp hdecode
  · refine ⟨?_, by omega⟩
    unfold hasPacket
    dsimp only
    rw [if_neg hconn, if_neg (by omega), if_pos ⟨hstun, hmod⟩, if_pos hlen]
  · have hle := le_align4 (getVal16 data 2 + 4)
    refine ⟨?_, by omega⟩
    unfold hasPacket
    dsimp only
    rw [if_neg hconn, if_neg (by omega), if_neg (fun h => by rw [hstun] at h; exact Bool.false_ne_true h.1),
      if_pos (by omega)]

/-- Whatever the quick check takes for a packet is handed on. -/
theorem onRxPkt_extends (hconn : connType ≠ .udp) {log : List Event} {data : Bytes} (hhas : hasPacket connType data ≠ 0) :
    ∃ e, (onRxPkt env connType log data).1 = log ++ [e] := by
  unfold onRxPkt
  dsimp only
  cases hstun : looksStun data with
  | true =>
    rw [if_pos rfl]
    split <;> exact ⟨_, rfl⟩
  | false =>
    have hroom : ¬ (data.length < 4 ∨ data.length < getVal16 data 2 + 4) := by
      intro hshort
      refine hhas ?_
      have hchannel : ¬ (looksStun data = true ∧ getVal16 data 2 % 4 = 0) := by
        rw [hstun]
        exact fun h => Bool.false_ne_true h.1
      unfold hasPacket
      dsimp only
      rw [if_neg hconn, if_neg hchannel]
      split
      · rfl
      · exact if_neg (by omega)
    rw [if_neg Bool.false_ne_true, if_neg hroom]
    exact ⟨_, rfl⟩

theorem packetLoop_extends (hconn : connType ≠ .udp) (n : Nat) (log : List Event) (data : Bytes) (remainder : Nat) :
    log <+: (packetLoop env connType n log data remainder).1 := by
  induction n generalizing log data remainder with
  | zero => exact List.prefix_rfl
  | succ n ih =>
    unfold packetLoop
    split
    · exact List.prefix_rfl
    · split
      · exact List.prefix_rfl
      · rename_i hhas
        obtain ⟨e, he⟩ := @onRxPkt_extends env connType hconn log data hhas
        dsimp only
        refine List.IsPrefix.trans ?_ (ih _ _ _)
        rw [he]
        exact List.prefix_append log [e]

theorem handOn_extends (log : List Event) (data : Bytes) : log <+: (handOn env log data).1 := by
  induction data using packetDecoder.frame_induction generalizing log with
  | hnone data hdecode =>
    have hsame : (handOn env log data).1 = log := by rw [handOn, Decoder.deliver_of_none hdecode]
    exact ⟨[], (List.append_nil log).trans hsame.symm⟩
  | hsome data p n hdecode ih =>
    rw [handOn, Decoder.deliver_of_some hdecode]
    split
    · exact (List.prefix_append log _).trans (ih _)
    · exact List.prefix_append log _

end Loop

/-! Reads. -/

/-- The rest of a read, behind a packet: the session is gone, or nothing whole is there and the quick check finds nothing either,
or there is a packet that the session takes, or behind which the data end. -/
inductive CleanRest (env : Env) : List Event → Bytes → Prop
  | gone {log : List Event} {data : Bytes} (hgone : env.gone log = true) : CleanRest env log data
  | wait {log : List Event} {data : Bytes} (hdecode : decodePacket data = none) (hwait : hasPacket .tcp data = 0) :
      CleanRest env log data
  | packet {log : List Event} {data : Bytes} {p : Packet} {n : Nat} (hdecode : decodePacket data = some (p, n))
      (htaken : p.taken env log = true ∨ data.drop n = [] ∨ env.gone (log ++ [p.event env log]) = true)
      (hmore : CleanRest env (log ++ [p.event env log]) (data.drop n)) : CleanRest env log data

/-- The session is gone, or the read has a whole packet at its front and its rest is clean. -/
def CleanRead (env : Env) (r : Reader) (bytes : Bytes) : Prop :=
  env.gone r.log = true ∨ r.kept ++ bytes = [] ∨
    (decodePacket (r.kept ++ bytes)).isSome = true ∧ CleanRest env r.log (r.kept ++ bytes)

/-- What the loop hands on and leaves is what the reference hands on and leaves. -/
def Agrees (result : List Event × Bytes × Nat) (reference : List Event × Option Bytes) : Prop :=
  result.1 = reference.1 ∧ result.2.1.take result.2.2 = reference.2.getD []

section Reads

variable {env : Env} {connType : ConnType}

theorem hasPacket_conn (hconn : connType ≠ .udp) (data : Bytes) : hasPacket connType data = hasPacket .tcp data := by
  cases connType with
  | udp => exact absurd rfl hconn
  | tcp => rfl
  | tls => rfl

theorem packetLoop_gone {n : Nat} {log : List Event} (hgone : env.gone log = true) (data : Bytes) (remainder : Nat) :
    packetLoop env connType (n + 1) log data remainder = (log, data, 0) := by
  rw [packetLoop, if_pos hgone]

theorem packetLoop_wait {n : Nat} {log : List Event} {data : Bytes} (hlive : ¬ env.gone log = true)
    (hwait : hasPacket connType data = 0) (remainder : Nat) :
    packetLoop env connType (n + 1) log data remainder = (log, data, remainder) := by
  rw [packetLoop, if_neg hlive, if_pos hwait]

/-- A turn with a whole packet: all of the data are consumed when the session does not take it. -/
theorem packetLoop_packet (hconn : connType ≠ .udp) {n k : Nat} {log : List Event} {data : Bytes} {p : Packet}
    (hlive : ¬ env.gone log = true) (hdecode : decodePacket data = some (p, k)) (remainder : Nat) :
    packetLoop env connType (n + 1) log data remainder =
      if p.taken env log then
        packetLoop env connType n (log ++ [p.event env log]) (data.drop k) (data.drop k).length
      else packetLoop env connType n (log ++ [p.event env log]) [] 0 := by
  obtain ⟨hhas, hfour⟩ := hasPacket_packet hconn hdecode
  have hle := packetDecoder.le hdecode
  rw [packetLoop, if_neg hlive, if_neg (by omega), onRxPkt_packet hconn hdecode]
  dsimp only
  cases p.taken env log with
  | true =>
    have hpos : ¬ k = 0 := by omega
    rw [if_pos rfl, if_pos rfl, Option.getD_some, if_neg hpos]
  | false =>
    have hpos : ¬ data.length = 0 := by omega
    rw [if_neg Bool.false_ne_true, if_neg Bool.false_ne_true, Option.getD_none, if_neg hpos,
      List.drop_eq_nil_of_le le_rfl]
    rfl

/-- Without data nothing is done. -/
theorem packetLoop_nil (hconn : connType ≠ .udp) (n : Nat) (log : List Event) :
    packetLoop env connType n log [] 0 = (log, [], 0) := by
  cases n with
  | zero => rfl
  | succ n =>
    have hwait : hasPacket connType [] = 0 := by
      rw [hasPacket_conn hconn]
      rfl
    by_cases hgone : env.gone log = true
    · exact packetLoop_gone hgone [] 0
    · exact packetLoop_wait hgone hwait 0

theorem handOn_packet {log : List Event} {data : Bytes} {p : Packet} {k : Nat} (hdecode : decodePacket data = some (p, k)) :
    handOn env log data =
      if env.gone (log ++ [p.event env log]) = true then (log ++ [p.event env log], none)
      else handOn env (log ++ [p.event env log]) (data.drop k) := by
  rw [handOn, Decoder.deliver_of_some hdecode]
  cases hgone : env.gone (log ++ [p.event env log]) with
  | true =>
    rw [if_pos rfl, handle, hgone]
    exact if_neg Bool.false_ne_true
  | false =>
    rw [if_neg Bool.false_ne_true, handle, hgone]
    exact if_pos rfl

theorem handOn_wait {log : List Event} {data : Bytes} (hdecode : decodePacket data = none) :
    handOn env log data = (log, some data) := Decoder.deliver_of_none hdecode

theorem cleanRest_packet {log : List Event} {data : Bytes} {p : Packet} {k : Nat} (hlive : ¬ env.gone log = true)
    (hdecode : decodePacket data = some (p, k)) :
    CleanRest env log data ↔
      (p.taken env log = true ∨ data.drop k = [] ∨ env.gone (log ++ [p.event env log]) = true) ∧
        CleanRest env (log ++ [p.event env log]) (data.drop k) := by
  constructor
  · rintro (hgone | ⟨hnone, -⟩ | ⟨hdecode', htaken, hmore⟩)
    · exact absurd hgone hlive
    · cases hdecode.symm.trans hnone
    · cases hdecode.symm.trans hdecode'
      exact ⟨htaken, hmore⟩
  · rintro ⟨htaken, hmore⟩
    exact .packet hdecode htaken hmore

theorem not_eq_of_extends {log more : List Event} {e : Event} (h : log ++ [e] <+: more) : more ≠ log := by
  rintro rfl
  have hlen := h.length_le
  rw [List.length_append, List.length_singleton] at hlen
  omega

theorem packetLoop_strays (hconn : connType ≠ .udp) {log : List Event} {data : Bytes} (hlive : ¬ env.gone log = true)
    (hdecode : decodePacket data = none) (hhas : hasPacket connType data ≠ 0) (n remainder : Nat) :
    ¬ Agrees (packetLoop env connType (n + 1) log data remainder) (handOn env log data) := by
  rintro ⟨hlog, -⟩
  obtain ⟨e, he⟩ := @onRxPkt_extends env connType hconn log data hhas
  have hextends : ∀ data' remainder', log ++ [e] <+:
      (packetLoop env connType n (onRxPkt env connType log data).1 data' remainder').1 := by
    intro data' remainder'
    rw [he]
    exact packetLoop_extends hconn _ _ _ _
  rw [handOn_wait hdecode, packetLoop, if_neg hlive, if_neg hhas] at hlog
  exact not_eq_of_extends (hextends _ _) hlog

theorem packetLoop_agrees_iff (hconn : connType ≠ .udp) {n : Nat} {log : List Event} {data : Bytes} {remainder : Nat}
    (hn : data.length < n) (hlive : ¬ env.gone log = true)
    (hremainder : remainder = data.length ∨ (decodePacket data).isSome = true) :
    Agrees (packetLoop env connType n log data remainder) (handOn env log data) ↔ CleanRest env log data := by
  induction data using packetDecoder.frame_induction generalizing n log remainder with
  | hnone data hdecode =>
    obtain ⟨n, rfl⟩ : ∃ m, n = m + 1 := ⟨n - 1, by omega⟩
    have hdecode' : decodePacket data = none := hdecode
    by_cases hwait : hasPacket connType data = 0
    · refine iff_of_true ?_ (.wait hdecode' (by rw [← hasPacket_conn hconn]; exact hwait))
      rw [packetLoop_wait hlive hwait, handOn_wait hdecode']
      refine ⟨rfl, ?_⟩
      rcases hremainder with rfl | hsome
      · exact List.take_length
      · rw [hdecode'] at hsome
        cases hsome
    · refine iff_of_false (packetLoop_strays hconn hlive hdecode' hwait n remainder) ?_
      · rintro (hgone | ⟨-, hwait'⟩ | ⟨hsome, -⟩)
        · exact hlive hgone
        · exact hwait (by rw [hasPacket_conn hconn]; exact hwait')
        · cases hdecode'.symm.trans hsome
  | hsome data p k hdecode ih =>
    obtain ⟨n, rfl⟩ : ∃ m, n = m + 1 := ⟨n - 1, by omega⟩
    have hdecode' : decodePacket data = some (p, k) := hdecode
    have hfour := (hasPacket_packet hconn hdecode').2
    have hle := packetDecoder.le hdecode
    have hshort : (data.drop k).length < n := by
      rw [List.length_drop]
      omega
    rw [packetLoop_packet hconn hlive hdecode', handOn_packet hdecode', cleanRest_packet hlive hdecode']
    by_cases hgone : env.gone (log ++ [p.event env log]) = true
    · -- the session is gone behind this packet
      obtain ⟨n, rfl⟩ : ∃ m, n = m + 1 := ⟨n - 1, by omega⟩
      refine iff_of_true ?_ ⟨.inr (.inr hgone), .gone hgone⟩
      rw [if_pos hgone, packetLoop_gone hgone, packetLoop_gone hgone]
      split <;> exact ⟨rfl, List.take_zero⟩
    · rw [if_neg hgone]
      by_cases htaken : p.taken env log = true
      · rw [if_pos htaken, ih hshort hgone (.inl rfl)]
        exact (and_iff_right (.inl htaken)).symm
      · rw [if_neg htaken, packetLoop_nil hconn]
        by_cases hend : data.drop k = []
        · rw [hend]
          exact iff_of_true ⟨rfl, rfl⟩ ⟨.inr (.inl rfl), .wait rfl rfl⟩
        · -- the data behind the packet are lost
          refine iff_of_false ?_ ?_
          · rintro ⟨hlog, hkept⟩
            cases hnext : decodePacket (data.drop k) with
            | none =>
              rw [handOn_wait hnext] at hkept
              exact hend hkept.symm
            | some next =>
              obtain ⟨q, m⟩ := next
              rw [handOn_packet hnext] at hlog
              refine not_eq_of_extends (e := q.event env (log ++ [p.event env log])) ?_ hlog.symm
              split
              · exact List.prefix_rfl
              · exact handOn_extends _ _
          · rintro ⟨htaken' | hend' | hgone', -⟩
            · exact htaken htaken'
            · exact hend hend'
            · exact hgone hgone'

/-- The reader has handed on and keeps what the reference hands on and leaves of the bytes so far. -/
def InStep (env : Env) (received : Bytes) (r : Reader) : Prop :=
  r.log = (handOn env [] received).1 ∧ r.kept = (handOn env [] received).2.getD []

theorem inStep_read_iff (hconn : connType ≠ .udp) (hlive : ¬ env.gone [] = true) {received bytes : Bytes} {r : Reader}
    (h : InStep env received r) : InStep env (received ++ bytes) (read env connType r bytes) ↔ CleanRead env r bytes := by
  obtain ⟨hlog, hkept⟩ := h
  have happend := @Decoder.deliver_append _ _ _ packetDecoder (handle env) [] received bytes
  cases hhand : handOn env [] received with
  | mk t rest =>
    rw [hhand] at hlog hkept
    dsimp only at hlog hkept
    rw [handOn] at hhand
    rw [hhand] at happend
    obtain ⟨log, kept⟩ := r
    dsimp only at hlog hkept
    subst hlog hkept
    cases rest with
    | none =>
      -- the session is gone, and no read changes anything
      have hgone : env.gone log = true := by
        have hstopped := Decoder.stopped (P := fun log => env.gone log = true) (fun s f hstop => ?_) hhand
        · exact hstopped
        · rw [handle, Bool.not_eq_false'] at hstop
          exact hstop
      refine iff_of_true ?_ (.inl hgone)
      rw [InStep, handOn, happend, read, onDataRead, if_pos hgone]
      exact ⟨rfl, rfl⟩
    | some rest =>
      have hlive' : ¬ env.gone log = true := by
        have hrunning := Decoder.running (P := fun log => ¬ env.gone log = true) (fun s f hmore => ?_) hlive hhand
        · exact hrunning
        · rw [handle, Bool.not_eq_true', ← Bool.not_eq_true] at hmore
          exact hmore
      dsimp only at happend
      rw [InStep, handOn, happend, ← handOn, read, onDataRead, if_neg hlive', CleanRead, Option.getD_some]
      dsimp only
      by_cases hnil : rest ++ bytes = []
      · rw [hnil, packetLoop_nil hconn]
        exact iff_of_true ⟨rfl, rfl⟩ (.inr (.inl rfl))
      · rw [or_iff_right hlive', or_iff_right hnil]
        cases hdecode : decodePacket (rest ++ bytes) with
        | some x =>
          have hagrees := @packetLoop_agrees_iff env connType hconn _ log (rest ++ bytes) 0 (Nat.lt_succ_self _) hlive'
            (.inr (by rw [hdecode]; rfl))
          rw [and_iff_right (show (some x).isSome = true from rfl)]
          exact hagrees
        | none =>
          refine iff_of_false ?_ fun h => by cases h.1
          by_cases hwait : hasPacket connType (rest ++ bytes) = 0
          · rw [packetLoop_wait hlive' hwait, handOn_wait hdecode]
            rintro ⟨-, hkept⟩
            exact hnil hkept.symm
          · exact packetLoop_strays hconn hlive' hdecode hwait _ 0

end Reads

/-! Messages. -/

/-- A STUN message, of which the length field and the first two bits matter here. -/
structure StunMessage where
  bytes : Bytes
  first : looksStun bytes = true
  length : bytes.length = getVal16 bytes 2 + 20
  aligned : getVal16 bytes 2 % 4 = 0

structure ChannelData where
  chNumber : Nat
  data : Bytes
  pad : Bytes
  channel : 0x4000 ≤ chNumber ∧ chNumber < 0x10000
  short : data.length < 0x10000
  padded : data.length + pad.length = align4 data.length

inductive Message
  | stun (msg : StunMessage)
  | channelData (msg : ChannelData)

def Message.bytes : Message → Bytes
  | .stun msg => msg.bytes
  | .channelData msg => putVal16 msg.chNumber ++ (putVal16 msg.data.length ++ (msg.data ++ msg.pad))

def Message.packet : Message → Packet
  | .stun msg => .stun msg.bytes
  | .channelData msg => .channelData msg.chNumber msg.data

def stream (msgs : List Message) : Bytes := msgs.flatMap Message.bytes

/-- What is handed on for the messages: each of them, in order, until the session is gone. -/
def handed (env : Env) : List Event → List Message → List Event
  | log, [] => log
  | log, msg :: msgs =>
    let log := log ++ [msg.packet.event env log]
    if env.gone log then log else handed env log msgs

theorem getVal16_front {n : Nat} (h : n < 0x10000) (front rest : Bytes) :
    getVal16 (front ++ (putVal16 n ++ rest)) front.length = n := by
  rw [Stun.getVal16_putVal16, Nat.mod_eq_of_lt h]

theorem looksStun_channel {n : Nat} (h : 0x4000 ≤ n ∧ n < 0x10000) (rest : Bytes) :
    looksStun (putVal16 n ++ rest) = false := by
  have hfirst : looksStun (putVal16 n ++ rest) = decide (UInt8.ofNat (n / 256) &&& 0xC0 = 0) := rfl
  have hbyte : ∀ k : Fin 256, 64 ≤ k.val → UInt8.ofNat k.val &&& 0xC0 ≠ 0 := by decide +kernel
  rw [hfirst]
  exact decide_eq_false (hbyte ⟨n / 256, by omega⟩ (by dsimp only; omega))

theorem decodePacket_message (msg : Message) (more : Bytes) :
    decodePacket (msg.bytes ++ more) = some (msg.packet, msg.bytes.length) := by
  cases msg with
  | stun msg =>
    have hlen := msg.length
    refine packetDecoder.append (decodePacket_eq_some.mpr ⟨by rw [Message.bytes]; omega, .inl ?_⟩) more
    refine ⟨msg.first, msg.aligned, Nat.le_of_eq hlen.symm, ?_, hlen⟩
    rw [Message.packet, Message.bytes, ← hlen, List.take_length]
  | channelData msg =>
    have hpadded := msg.padded
    have hlen : (Message.channelData msg).bytes.length = align4 (msg.data.length + 4) := by
      rw [align4_add, ← hpadded]
      simp only [Message.bytes, List.length_append, putVal16, List.length_cons, List.length_nil]
      omega
    have hlength : getVal16 (Message.channelData msg).bytes 2 = msg.data.length :=
      getVal16_front msg.short (putVal16 msg.chNumber) (msg.data ++ msg.pad)
    have hle := le_align4 (msg.data.length + 4)
    have hlong : 4 ≤ (Message.channelData msg).bytes.length := by omega
    refine packetDecoder.append (decodePacket_eq_some.mpr ⟨hlong, .inr ?_⟩) more
    rw [hlength]
    refine ⟨looksStun_channel msg.channel _, Nat.le_of_eq hlen.symm, ?_, hlen⟩
    have hdata : slice (Message.channelData msg).bytes 4 msg.data.length = msg.data := List.take_left
    have hchannel : getVal16 (Message.channelData msg).bytes 0 = msg.chNumber := getVal16_front msg.channel.2 [] _
    rw [hdata, hchannel]
    rfl

theorem handOn_stream (env : Env) (log : List Event) (msgs : List Message) :
    (handOn env log (stream msgs)).1 = handed env log msgs := by
  induction msgs generalizing log with
  | nil => rfl
  | cons msg msgs ih =>
    have hstream : stream (msg :: msgs) = msg.bytes ++ stream msgs := List.flatMap_cons
    rw [hstream, handOn_packet (decodePacket_message msg _), handed, List.drop_left]
    split
    · rfl
    · exact ih _

def CleanReads (env : Env) (connType : ConnType) (reads : List Bytes) : Prop :=
  ∀ k bytes, reads[k]? = some bytes → CleanRead env (readAll env connType (reads.take k)) bytes

theorem readAll_take_succ (env : Env) (connType : ConnType) {reads : List Bytes} {k : Nat} {bytes : Bytes}
    (h : reads[k]? = some bytes) :
    readAll env connType (reads.take (k + 1)) = read env connType (readAll env connType (reads.take k)) bytes := by
  rw [readAll, List.take_add_one, h, List.foldl_append]
  rfl

theorem inStep_iff_cleanReads {env : Env} {connType : ConnType} (hconn : connType ≠ .udp) (hlive : ¬ env.gone [] = true)
    (reads : List Bytes) :
    (∀ k ≤ reads.length, InStep env (reads.take k).flatten (readAll env connType (reads.take k))) ↔
      CleanReads env connType reads := by
  have hstep : ∀ k bytes, reads[k]? = some bytes →
      InStep env (reads.take k).flatten (readAll env connType (reads.take k)) →
      (InStep env (reads.take (k + 1)).flatten (readAll env connType (reads.take (k + 1))) ↔
        CleanRead env (readAll env connType (reads.take k)) bytes) := by
    intro k bytes hk hin
    have hflatten : (reads.take (k + 1)).flatten = (reads.take k).flatten ++ bytes := by
      rw [List.take_add_one, hk, List.flatten_append]
      exact congrArg _ (List.append_nil bytes)
    rw [readAll_take_succ env connType hk, hflatten]
    exact inStep_read_iff hconn hlive hin
  constructor
  · intro hall k bytes hk
    obtain ⟨hlt, -⟩ := List.getElem?_eq_some_iff.mp hk
    exact (hstep k bytes hk (hall k (Nat.le_of_lt hlt))).mp (hall (k + 1) hlt)
  · intro hclean k hk
    induction k with
    | zero => exact ⟨rfl, rfl⟩
    | succ k ih =>
      have hget : reads[k]? = some reads[k] := List.getElem?_eq_getElem hk
      exact (hstep k _ hget (ih (Nat.le_of_succ_le hk))).mpr (hclean k _ hget)

/-- The connection is in step with a stream of messages after every read exactly when each read is clean, and then exactly the
messages of the stream are handed on. -/
theorem handed_on_iff_clean {env : Env} {connType : ConnType} (hconn : connType ≠ .udp) (hlive : ¬ env.gone [] = true)
    {msgs : List Message} {reads : List Bytes} (hstream : reads.flatten = stream msgs) :
    ((∀ k ≤ reads.length, InStep env (reads.take k).flatten (readAll env connType (reads.take k))) ↔
      CleanReads env connType reads) ∧
    (CleanReads env connType reads → (readAll env connType reads).log = handed env [] msgs) := by
  have hiff := inStep_iff_cleanReads hconn hlive reads
  refine ⟨hiff, fun hclean => ?_⟩
  have hlast := (hiff.mpr hclean reads.length (Nat.le_refl _)).1
  rw [List.take_length, hstream, handOn_stream] at hlast
  exact hlast

/-- A session that stays and takes everything. -/
def calmEnv : Env where
  digest := ⟨fun _ _ => Vector.replicate 20 0, fun _ => 0⟩
  bound _ _ := true
  accepts _ := true
  gone _ := false

def oneByte : ChannelData := ⟨0x4000, [7], [0, 0, 0], by decide, by decide, rfl⟩

theorem handed_on_two : (readAll calmEnv .tcp [[0x40, 0, 0, 1, 7, 0, 0, 0, 0x40, 0, 0, 1], [7, 0, 0, 0]]).log =
    handed calmEnv [] [.channelData oneByte, .channelData oneByte] := by
  have hlive : ¬ calmEnv.gone [] = true := Bool.false_ne_true
  have hconn : ConnType.tcp ≠ .udp := by decide
  have hstream : [[0x40, 0, 0, 1, 7, 0, 0, 0, 0x40, 0, 0, 1], [7, 0, 0, 0]].flatten =
      stream [.channelData oneByte, .channelData oneByte] := rfl
  refine (handed_on_iff_clean hconn hlive hstream).2 ?_
  have hmore : ∀ log rest, decodePacket rest = none → hasPacket .tcp rest = 0 →
      CleanRest calmEnv log ([0x40, 0, 0, 1, 7, 0, 0, 0] ++ rest) := by
    intro log rest hdecode hwait
    exact .packet (decodePacket_message (.channelData oneByte) rest) (.inl rfl) (.wait hdecode hwait)
  intro k bytes hk
  match k, hk with
  | 0, hk =>
    obtain rfl := Option.some.inj hk
    exact .inr (.inr ⟨by decide, hmore _ [0x40, 0, 0, 1] (by decide) (by decide)⟩)
  | 1, hk =>
    obtain rfl := Option.some.inj hk
    have hkept : (readAll calmEnv .tcp [[0x40, 0, 0, 1, 7, 0, 0, 0, 0x40, 0, 0, 1]]).kept = [0x40, 0, 0, 1] := by
      decide
    refine .inr (.inr ?_)
    rw [List.take_succ_cons, List.take_zero, hkept]
    exact ⟨by decide, hmore _ [] (by decide) (by decide)⟩

/-- A packet whose header comes alone is lost. -/
theorem not_handed_on_header : [[0x40, 0, 0, 1], [7, 0, 0, 0]].flatten = stream [.channelData oneByte] ∧
    (readAll calmEnv .tcp [[0x40, 0, 0, 1], [7, 0, 0, 0]]).log ≠ handed calmEnv [] [.channelData oneByte] := by
  refine ⟨rfl, ?_⟩
  decide

end PjProject.Turn
