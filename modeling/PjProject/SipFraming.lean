import PjProject.SipScan

/-! Messages on a SIP stream: `pjsip_find_msg` (`sip_parser.c`) finds the end of the message at the front of the buffer,
`pjsip_tpmgr_receive_packet` (`sip_transport.c`) hands message after message to the parser, and `on_data_read`
(`sip_transport_tcp.c`) keeps what is left for the next read. The transport manager has no callbacks for received and dropped
data. -/

namespace PjProject.Sip

open Scan (isSpace isNewline)

/-- `PJSIP_MAX_PKT_LEN`. -/
def maxPktLen : Nat := 4000

inductive Status
  | success
  | epartialmsg
  | emissinghdr
  | einvalidhdr
  | erxoverflow
  deriving DecidableEq, Repr

/-- `pj_strstr`: the offset of the first occurrence. -/
def strstr (sub : Bytes) : Bytes → Option Nat
  | [] => none
  | c :: t => if sub.isPrefixOf (c :: t) then some 0 else (strstr sub t).map (· + 1)

def startsContentLength (line : Bytes) : Bool :=
  ((line.headD 0 == 67 || line.headD 0 == 99) &&
      Scan.Scanner.compareN toLower 14 line (ascii "Content-Length") == 0) ||
    ((line.headD 0 == 108 || line.headD 0 == 76) &&
      (line.tail.headD 0 == 32 || line.tail.headD 0 == 9 || line.tail.headD 0 == 58))

/-- The digits of the Content-Length header at the front of the header lines. -/
def scanContentLength (lines : Bytes) : Option Bytes := do
  let l ← advanceN (if lines.headD 0 = 67 ∨ lines.headD 0 = 99 then 14 else 1) (skipHeader lines)
  let (c, l) ← getChar l
  if c ≠ 58 then none
  else
    let (clen, l) ← get isDigit l
    let _ ← getNewline l
    some clen

def parseContentLength (lines : Bytes) : Except Status Nat :=
  match scanContentLength lines with
  | none => .error .emissinghdr
  | some clen =>
    match strtoiValidate clen 0 0x7FFFFFFF with
    | none => .error .einvalidhdr
    | some contentLength => .ok contentLength.toNat

/-- The search for a Content-Length header behind each newline before `hdrEnd`, from the byte at `pos` on. -/
def findContentLength (hdrEnd : Nat) : Nat → Status → Bytes → Except Status Nat
  | _, status, [] => .error status
  | pos, status, c :: t =>
    if c = 10 then
      if hdrEnd ≤ pos then .error status
      else if startsContentLength t then
        match parseContentLength (t.take (hdrEnd - (pos + 1))) with
        | .ok contentLength => .ok contentLength
        | .error status => findContentLength hdrEnd (pos + 1) status t
      else findContentLength hdrEnd (pos + 1) status t
    else findContentLength hdrEnd (pos + 1) status t

/-- `pjsip_find_msg`: the status and `msg_size`. -/
def findMsg (buf : Bytes) (isDatagram : Bool) : Status × Nat :=
  if isDatagram then (.success, buf.length)
  else
    match strstr [10, 13, 10] buf with
    | none => (.epartialmsg, buf.length)
    | some pos =>
      match findContentLength (pos + 1) 0 .emissinghdr buf with
      | .error status => (status, buf.length)
      | .ok contentLength =>
        let msgSize := pos + 3 + contentLength
        (if msgSize ≤ buf.length then .success else .epartialmsg, msgSize)

/-- What the transport manager passes on: a packet to the parser, or an error to the endpoint. -/
inductive Report
  | parse (packet : Bytes)
  | error (status : Status)
  deriving DecidableEq, Repr

/-- The loop of `pjsip_tpmgr_receive_packet`, at most `turns` times: what is passed on, and the bytes that are not
processed. -/
def receiveLoop (isDatagram : Bool) : Nat → Bytes → List Report × Bytes
  | 0, pkt => ([], pkt)
  | turns + 1, pkt =>
    match pkt.dropWhile isNewline with
    | [] => ([], [])
    | c :: more =>
      let (msgStatus, size) := findMsg (c :: more) isDatagram
      match msgStatus with
      | .success =>
        let (reports, rest) := receiveLoop isDatagram turns ((c :: more).drop size)
        (.parse ((c :: more).take size) :: reports, rest)
      | .epartialmsg =>
        if (c :: more).length ≠ maxPktLen then ([], c :: more) else ([.error .erxoverflow], [])
      | status => ([.error status], [])

/-- `pjsip_tpmgr_receive_packet`, with the number of bytes processed. Each turn processes a byte or more. -/
def receivePacket (isDatagram : Bool) (pkt : Bytes) : List Report × Nat :=
  let (reports, rest) := receiveLoop isDatagram pkt.length pkt
  (reports, pkt.length - rest.length)

/-- `tcp_crlf_ka_ping`. -/
def crlfPing : Bytes := [13, 10, 13, 10]

/-- `tcp_get_crlf_ka_len`: the bytes behind the keep-alive pings at the front, and whether they are the start of another. -/
def dropPings : Nat → Bytes → Bytes
  | 0, data => data
  | turns + 1, data => if crlfPing.isPrefixOf data then dropPings turns (data.drop 4) else data

def partialPing (data : Bytes) : Bool := data != [] && data.length < 4 && data.isPrefixOf crlfPing

/-- `on_data_read` for the buffer with what was kept: what is passed on, and what is kept. `keepAlive` is
`PJSIP_TCP_KEEP_ALIVE_RESPONSE`. -/
def onDataRead (keepAlive : Bool) (data : Bytes) : List Report × Bytes :=
  let data' := if keepAlive then dropPings data.length data else data
  if keepAlive ∧ (partialPing data' ∨ data' = []) then ([], data')
  else
    let (reports, sizeEaten) := receivePacket false data'
    (reports, data'.drop sizeEaten)

structure Connection where
  reports : List Report
  kept : Bytes
  deriving DecidableEq, Repr

def Connection.read (keepAlive : Bool) (conn : Connection) (data : Bytes) : Connection :=
  let (reports, kept) := onDataRead keepAlive (conn.kept ++ data)
  ⟨conn.reports ++ reports, kept⟩

def readAll (keepAlive : Bool) (reads : List Bytes) : Connection := reads.foldl (Connection.read keepAlive) ⟨[], []⟩

end PjProject.Sip
