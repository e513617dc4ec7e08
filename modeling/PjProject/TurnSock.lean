import PjProject.Stun

/-! The reading side of a TURN connection (`turn_sock.c`, `turn_session.c`). What the session does with a packet is left to
the environment: it may answer with a failure, and a callback may destroy the session. The log has what was handed on. -/

namespace PjProject.Turn

open Stun (getVal16 align4)

abbrev Bytes := List UInt8

/-- `pj_turn_tp_type`. -/
inductive ConnType
  | udp
  | tcp
  | tls
  deriving DecidableEq, Repr

/-- What is handed on: a packet to the STUN session, and the data of a ChannelData packet with its channel, which go to the
application when the channel is bound. -/
inductive Event
  | stun (packet : Bytes)
  | channelData (chNumber : Nat) (data : Bytes) (bound : Bool)
  deriving DecidableEq, Repr

/-- The channels that are bound, whether the STUN session takes the last packet with `PJ_SUCCESS`, and whether the session is
gone, all after what was handed on so far. -/
structure Env where
  digest : Stun.Digest
  bound : List Event → Nat → Bool
  accepts : List Event → Bool
  gone : List Event → Bool

/-- The first two bits are those of a STUN message. -/
def looksStun (buf : Bytes) : Bool := byteAt buf 0 &&& 0xC0 = 0

/-- `has_packet`. -/
def hasPacket (connType : ConnType) (buf : Bytes) : Nat :=
  if connType = .udp then buf.length
  else if buf.length < 4 then 0
  else
    let len := getVal16 buf 2
    if looksStun buf ∧ len % 4 = 0 then if len + 20 ≤ buf.length then len + 20 else 0
    else if len + 4 ≤ buf.length then align4 (len + 4) else 0

/-- The options of `pj_turn_session_on_rx_pkt2` for the STUN session. -/
def rxOptions (connType : ConnType) : Nat :=
  Stun.checkPacket ||| Stun.noFingerprintCheck ||| if connType = .udp then Stun.isDatagram else 0

/-- `pj_turn_session_on_rx_pkt`: the parsed length, which is only set for `PJ_SUCCESS`. -/
def onRxPkt (env : Env) (connType : ConnType) (log : List Event) (pkt : Bytes) : List Event × Option Nat :=
  let len := getVal16 pkt 2
  if looksStun pkt then
    let log := log ++ [.stun (pkt.take (len + 20))]
    match Stun.decode env.digest pkt (rxOptions connType) with
    | .error _ => (log, none)
    | .ok (_, parsedLen) => (log, if env.accepts log then some parsedLen else none)
  else if pkt.length < 4 ∨ pkt.length < len + 4 then (log, none)
  else
    let chNumber := getVal16 pkt 0
    let bound := env.bound log chNumber
    (log ++ [.channelData chNumber (slice pkt 4 len) bound], if bound then some (align4 len + 4) else none)

/-- The loop of `on_data_read`; a turn takes a byte or more, so there are no more turns than bytes. The remainder is the
one that was reported last. -/
def packetLoop (env : Env) (connType : ConnType) : Nat → List Event → Bytes → Nat → List Event × Bytes × Nat
  | 0, log, data, remainder => (log, data, remainder)
  | n + 1, log, data, remainder =>
    if env.gone log then (log, data, 0)
    else if hasPacket connType data = 0 then (log, data, remainder)
    else
      let (log, parsed) := onRxPkt env connType log data
      let parsedLen := parsed.getD data.length
      let parsedLen := if parsedLen = 0 then hasPacket connType data else parsedLen
      let data := data.drop parsedLen
      packetLoop env connType n log data data.length

/-- `on_data_read` for new data. -/
def onDataRead (env : Env) (connType : ConnType) (log : List Event) (data : Bytes) (remainder : Nat) :
    List Event × Bytes × Nat :=
  if env.gone log then (log, data, remainder)
  else packetLoop env connType (data.length + 1) log data remainder

/-- What was handed on, and what the active socket keeps at the start of its buffer. -/
structure Reader where
  log : List Event
  kept : Bytes
  deriving DecidableEq, Repr

/-- A read of the active socket: the data follow what was kept, and the default remainder is zero. -/
def read (env : Env) (connType : ConnType) (r : Reader) (bytes : Bytes) : Reader :=
  let (log, data, remainder) := onDataRead env connType r.log (r.kept ++ bytes) 0
  ⟨log, data.take remainder⟩

def readAll (env : Env) (connType : ConnType) (reads : List Bytes) : Reader :=
  reads.foldl (read env connType) ⟨[], []⟩

end PjProject.Turn
