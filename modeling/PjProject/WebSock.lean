import PjProject.WebSockFrame
import PjProject.Runs

/-! The receiving side of a WebSocket connection (`websock.c`). The calls of the application's callbacks
and the control frames handed to the transport stand in a log. `process_rx_frame` is cut into the turns
of its two loops: between two turns no lock is held, so other threads and the callbacks themselves may
close or destroy the WebSocket there. A read puts its bytes behind those that the last one left in the
front of the buffer. -/

namespace PjProject.WebSock

inductive ReadyState
  | connecting
  | open
  | closing
  | closed
  deriving DecidableEq, Repr

inductive Event
  | onConnect (success : Bool)
  | onRxMsg (opcode : Opcode) (data : List UInt8)
  | onClose (code : Nat) (reason : List UInt8)
  /-- A control frame that `send_raw_ctl` hands to the transport. -/
  | ctlFrame (opcode : Opcode) (payload : List UInt8)
  deriving DecidableEq, Repr

/-- The fields that frames and local calls change; `frag_len` is the length of `fragBuf`. -/
structure Session where
  state : ReadyState
  destroying : Bool
  fragBuf : List UInt8
  fragOpcode : Opcode
  ctlSendPending : Bool
  log : List Event
  deriving DecidableEq, Repr

/-- What does not change during a connection: whether `pj_size_t` has eight bytes, `frag_buf_size`, the
value of `Sec-WebSocket-Accept` for the key that was sent, and, by the events before it, whether the
transport leaves a control frame pending. -/
structure Config where
  wide : Bool
  fragBufSize : Nat
  expectedAccept : List UInt8
  ctlPends : List Event → Bool

def Session.emit (s : Session) (e : Event) : Session := { s with log := s.log ++ [e] }

variable (cfg : Config)

/-- `send_raw_ctl`: not while a control frame is pending, and not without a transport. -/
def sendRawCtl (s : Session) (opcode : Opcode) (payload : List UInt8) : Session :=
  if s.ctlSendPending then s
  else if s.destroying then s
  else { s.emit (.ctlFrame opcode payload) with ctlSendPending := cfg.ctlPends s.log }

def sendCloseFrame (s : Session) (code : Nat) (reason : List UInt8) : Session :=
  sendRawCtl cfg s .close (toBytes 2 code ++ reason.take (125 - 2))

def sendPong (s : Session) (payload : List UInt8) : Session :=
  sendRawCtl cfg s .pong (payload.take 125)

/-- A fragment goes behind the others, and the last one ends the message. -/
def reassemble (s : Session) (fin : Bool) (payload : List UInt8) : Session :=
  if cfg.fragBufSize < s.fragBuf.length + payload.length then { s with fragBuf := [] }
  else if fin then { s with fragBuf := [] }.emit (.onRxMsg s.fragOpcode (s.fragBuf ++ payload))
  else { s with fragBuf := s.fragBuf ++ payload }

/-- The CLOSE case of `handle_frame`. -/
def handleClose (s : Session) (payload : List UInt8) : Session :=
  let code := if 2 ≤ payload.length then ofBytes (payload.take 2) else 0
  let reason := if 2 ≤ payload.length then payload.drop 2 else []
  let s := if s.state = .open then sendCloseFrame cfg s code reason else s
  let s := { s with state := .closed }
  if s.destroying then s else s.emit (.onClose code reason)

/-- `handle_frame`; `false` tells the caller to stop. -/
def handleFrame (s : Session) (fin : Bool) (opcode : Opcode) (payload : List UInt8) : Session × Bool :=
  if opcode = .ping then (if s.destroying then s else sendPong cfg s payload, true)
  else if opcode = .pong then (s, true)
  else if opcode = .close then (handleClose cfg s payload, false)
  else if opcode = .text ∨ opcode = .bin then
    if fin ∧ s.fragBuf = [] then (s.emit (.onRxMsg opcode payload), true)
    else if s.fragBuf = [] then (reassemble cfg { s with fragOpcode := opcode } fin payload, true)
    else (reassemble cfg s fin payload, true)
  else if opcode = .cont then
    if s.fragBuf = [] then (s, true) else (reassemble cfg s fin payload, true)
  else (s, true)

/-- What happens to a connection beside its reads. -/
inductive LocalCall
  | close (code : UInt16) (reason : List UInt8)
  | destroy
  | timer
  | ctlSent
  deriving DecidableEq, Repr

/-- `pj_websock_close`, `pj_websock_destroy`, `on_timer`, and the sent callback for the control key. -/
def localCall (s : Session) : LocalCall → Session
  | .close code reason =>
    if s.state = .open then sendCloseFrame cfg { s with state := .closing } code.toNat reason else s
  | .destroy => { s with destroying := true, state := .closed }
  | .timer => if s.state = .open then sendRawCtl cfg s .ping [] else s
  | .ctlSent => { s with ctlSendPending := false }

/-- A frame whose payload spans reads; a `buf` of `none` is the `NULL` of the discard mode. -/
structure Partial where
  op : Opcode
  fin : Bool
  total : Nat
  got : Nat
  buf : Option (List UInt8)
  deriving DecidableEq, Repr

/-- Where `process_rx_frame` stands: not running, at its entry, or in its loops, with the bytes of the
buffer that were consumed (as they are now) and those that were not. -/
inductive Phase
  | idle
  | enter (data : List UInt8)
  | frames (front data : List UInt8)
  deriving DecidableEq, Repr

/-- `kept` are the bytes in the front of the read buffer that the next read is appended to. -/
structure Rx where
  session : Session
  rxPartial : Option Partial
  kept : List UInt8
  phase : Phase
  deriving DecidableEq, Repr

/-- `*remainder = len`: so many bytes stay, from the front of the buffer on. -/
def Rx.keep (r : Rx) (front data : List UInt8) : Rx :=
  { r with kept := (front ++ data).take data.length, phase := .idle }

variable (handle : Session → Bool → Opcode → List UInt8 → Session × Bool)

/-- A frame for the handler; the loop goes on with `front` and `data` unless it was CLOSE. -/
def Rx.handled (r : Rx) (fin : Bool) (opcode : Opcode) (payload front data : List UInt8) : Rx :=
  let result := handle r.session fin opcode payload
  { r with session := result.1, phase := if result.2 then .frames front data else .idle }

def partialTurn (r : Rx) (p : Partial) (front data : List UInt8) : Rx :=
  let needed := p.total - p.got
  let copy := if data.length < needed then data.length else needed
  let got := p.got + copy
  let buf := p.buf.map (· ++ data.take copy)
  if got < p.total then { r with rxPartial := some { p with got := got, buf := buf }, phase := .idle }
  else
    match buf with
    | some payload =>
      { r with rxPartial := none }.handled handle p.fin p.op payload (front ++ data.take copy) (data.drop copy)
    | none => { r with rxPartial := none, phase := .frames (front ++ data.take copy) (data.drop copy) }

/-- The part of a frame whose payload is not all there; the mask is applied to what is. -/
def startPartial (r : Rx) (h : Header) (data : List UInt8) : Rx :=
  let avail := data.drop h.hdrLen
  let buf := if cfg.fragBufSize < h.payloadLen then none else some (unmask h.mask avail)
  { r with rxPartial := some ⟨h.opcode, h.fin, h.payloadLen, avail.length, buf⟩, phase := .idle }

/-- A turn of the loop over the frames of the buffer, which unmasks payloads in place. -/
def frameTurn (r : Rx) (front data : List UInt8) : Rx :=
  match decodeFrameHeader cfg.wide data with
  | some (h, payload) =>
    r.handled handle h.fin h.opcode payload (front ++ (data.take h.hdrLen ++ payload))
      (data.drop (h.hdrLen + h.payloadLen))
  | none =>
    match parseFrameHeader cfg.wide data with
    | none => r.keep front data
    | some h => if data.length ≤ h.hdrLen then r.keep front data else startPartial cfg r h data

/-- A turn of `process_rx_frame`; `none` when it is not running. -/
def rxTurn (r : Rx) : Option Rx :=
  match r.phase with
  | .idle => none
  | .enter data => some { r with phase := if r.session.destroying then .idle else .frames [] data }
  | .frames _ [] => some { r with phase := .idle }
  | .frames front (b :: data) =>
    match r.rxPartial with
    | some p => some (partialTurn handle r p front (b :: data))
    | none => some (frameTurn cfg handle r front (b :: data))

/-- `process_rx_frame` on the bytes of a read, run to its end. -/
def processRxFrame (r : Rx) (data : List UInt8) : Option Rx :=
  loop (rxTurn cfg handle) (data.length + 3) { r with kept := [], phase := .enter data }

/-- `find_substr`: the first place of the needle in the buffer. -/
def findSubstr (buf needle : List UInt8) : Option Nat :=
  (List.range (buf.length + 1 - needle.length)).find? fun i => slice buf i needle.length == needle

/-- `find_substr_i`: the first place of the needle, without regard to case. -/
def findSubstrI (buf needle : List UInt8) : Option Nat :=
  findSubstr (buf.map toLower) (needle.map toLower)

/-- `PJ_EPENDING`, another error, or success with `*parsed_len`. -/
inductive Handshake
  | pending
  | failed
  | done (parsedLen : Nat)
  deriving DecidableEq, Repr

/-- `process_handshake_response`. -/
def processHandshakeResponse (data : List UInt8) : Handshake :=
  match findSubstr data (ascii "\r\n\r\n") with
  | none => .pending
  | some hdrEnd =>
    let parsedLen := hdrEnd + 4
    if data.length < 12 ∨ slice data 0 12 ≠ ascii "HTTP/1.1 101" then .failed
    else
      match findSubstrI (data.take parsedLen) (ascii "Sec-WebSocket-Accept: ") with
      | none => .failed
      | some accept =>
        let accept := accept + 22
        if parsedLen - accept < cfg.expectedAccept.length then .failed
        else if slice data accept cfg.expectedAccept.length ≠ cfg.expectedAccept then .failed
        else .done parsedLen

/-- A WebSocket that `pj_websock_connect` made, with its `handshake_done`. -/
structure Ws where
  rx : Rx
  handshakeDone : Bool
  deriving DecidableEq, Repr

def Ws.connecting : Ws := ⟨⟨⟨.connecting, false, [], .cont, false, []⟩, none, [], .idle⟩, false⟩

/-- `on_transport_data` for a read without error; its call of `process_rx_frame` is entered. -/
def onTransportData (ws : Ws) (bytes : List UInt8) : Ws :=
  let data := ws.rx.kept ++ bytes
  if ws.handshakeDone then { ws with rx := { ws.rx with kept := [], phase := .enter data } }
  else
    match processHandshakeResponse cfg data with
    | .pending => { ws with rx := { ws.rx with kept := data } }
    | .failed =>
      { ws with rx := { ws.rx with
          session := { ws.rx.session with state := .closed }.emit (.onConnect false), kept := [] } }
    | .done parsed =>
      ⟨{ ws.rx with
          session := { ws.rx.session with state := .open }.emit (.onConnect true), kept := [],
          phase := if parsed < data.length then .enter (data.drop parsed) else .idle }, true⟩

/-- The error case of `on_transport_data`. -/
def onTransportError (s : Session) : Session :=
  let t := { s with state := .closed }
  if s.state = .open ∨ s.state = .closing then t.emit (.onClose 0 [])
  else if s.state = .connecting then t.emit (.onConnect false)
  else t

/-- What can happen to a WebSocket, in any order: `connectFailed` is `on_transport_connected` with a
failure, and `turn` is one of `process_rx_frame`. -/
inductive Action
  | connectFailed
  | read (bytes : List UInt8)
  | readError
  | turn
  | call (call : LocalCall)
  deriving DecidableEq, Repr

/-- The transport calls back one event at a time. -/
def step (ws : Ws) : Action → Option Ws
  | .connectFailed =>
    if ws.rx.phase = .idle ∧ ws.handshakeDone = false then
      some { ws with rx := { ws.rx with
        session := { ws.rx.session with state := .closed }.emit (.onConnect false) } }
    else none
  | .read bytes => if ws.rx.phase = .idle then some (onTransportData cfg ws bytes) else none
  | .readError =>
    if ws.rx.phase = .idle then
      some { ws with rx := { ws.rx with session := onTransportError ws.rx.session, kept := [] } }
    else none
  | .turn => (rxTurn cfg (handleFrame cfg) ws.rx).map fun rx => { ws with rx := rx }
  | .call call => some { ws with rx := { ws.rx with session := localCall cfg ws.rx.session call } }

section

variable {cfg handle}

@[simp] theorem sendRawCtl_state (s : Session) (opcode : Opcode) (payload : List UInt8) :
    (sendRawCtl cfg s opcode payload).state = s.state := by
  rw [sendRawCtl]
  split_ifs <;> rfl

theorem handleClose_state (s : Session) (payload : List UInt8) : (handleClose cfg s payload).state = .closed := by
  simp only [handleClose]
  split_ifs <;> rfl

@[simp] theorem sendRawCtl_destroying (s : Session) (opcode : Opcode) (payload : List UInt8) :
    (sendRawCtl cfg s opcode payload).destroying = s.destroying := by
  rw [sendRawCtl]
  split_ifs <;> rfl

theorem handleFrame_more (s : Session) (fin : Bool) (opcode : Opcode) (payload : List UInt8) :
    (handleFrame cfg s fin opcode payload).2 = decide (opcode ≠ .close) := by
  by_cases hclose : opcode = .close
  · subst hclose
    rfl
  · rw [decide_eq_true hclose, handleFrame, if_neg hclose]
    split_ifs <;> rfl

theorem localCall_closed {s : Session} (h : s.state = .closed) (call : LocalCall) :
    (localCall cfg s call).state = .closed := by
  cases call with
  | close code reason => rw [localCall, if_neg (by rw [h]; decide), h]
  | destroy => rfl
  | timer => rw [localCall, if_neg (by rw [h]; decide), h]
  | ctlSent => exact h

theorem rxTurn_idle {r : Rx} (h : r.phase = .idle) : rxTurn cfg handle r = none := by
  rw [rxTurn, h]

end

end PjProject.WebSock
