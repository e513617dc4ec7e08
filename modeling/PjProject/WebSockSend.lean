import PjProject.WebSock
import PjProject.Runs

/-! The sending side of a WebSocket connection (`websock.c`): the two transmit buffers, the frames encoded
into them and the sends that the transport has not completed. `pj_websock_send` looks at the state before
it takes the lock, so a call is two steps here. The bytes handed to a pending send are kept beside the
buffer, to be compared with it. -/

namespace PjProject.WebSock

/-- What `pj_activesock_send` or `pj_ssl_sock_send` does with the bytes. The completion callback takes no
lock, so it may run before the flag for `PJ_EPENDING` is set. -/
inductive Outcome
  | sent
  | failed
  | pending
  | pendingDone
  deriving DecidableEq, Repr

/-- `tx_buf` with `send_pending`, or `ctl_buf` with `ctl_send_pending`, and the bytes of the send that the
transport still works on. -/
structure Channel where
  buf : List UInt8
  sendPending : Bool
  inFlight : Option (List UInt8)
  deriving DecidableEq, Repr

def overwrite (buf bytes : List UInt8) : List UInt8 := bytes ++ buf.drop bytes.length

/-- `send_raw` and `send_raw_ctl`. -/
def Channel.sendRaw (c : Channel) (transport : Bool) (len : Nat) (o : Outcome) : Channel :=
  if c.sendPending then c
  else if transport = false then c
  else
    match o with
    | .sent => c
    | .failed => c
    | .pending => { c with sendPending := true, inFlight := some (c.buf.take len) }
    | .pendingDone => { c with sendPending := true }

/-- `encode_frame` into the buffer and then the send. -/
def Channel.submit (c : Channel) (transport : Bool) (frame : List UInt8) (o : Outcome) : Channel :=
  { c with buf := overwrite c.buf frame }.sendRaw transport frame.length o

/-- `on_data_sent` of the transport. -/
def Channel.onDataSent (c : Channel) : Channel := { c with sendPending := false, inFlight := none }

/-- `pj_websock` as the sending side sees it; `calls` are the calls of `pj_websock_send` that have passed
the checks and wait for the lock. -/
structure Sender where
  state : ReadyState
  destroying : Bool
  /-- `asock` or `ssl_sock` is there. -/
  transport : Bool
  handshakeSent : Bool
  tx : Channel
  ctl : Channel
  calls : List (Opcode × List UInt8)
  deriving DecidableEq, Repr

/-- `PJ_WEBSOCK_TX_BUF_SIZE`. -/
def txBufSize : Nat := 64 * 1024

/-- `MAX_FRAME_HDR_LEN`. -/
def maxFrameHdrLen : Nat := 14

inductive SendAction
  /-- `on_transport_connected`: the request text of `send_handshake`. -/
  | connected (text : List UInt8) (o : Outcome)
  /-- The handshake response was accepted. -/
  | opened
  /-- `pj_websock_send` up to its lock. -/
  | enterSend (opcode : Opcode) (payload : List UInt8)
  /-- The waiting call with this number gets the lock. -/
  | send (n : Nat) (key : MaskKey) (o : Outcome)
  /-- A PING frame was received. -/
  | pong (payload : List UInt8) (key : MaskKey) (o : Outcome)
  /-- `on_timer`. -/
  | ping (key : MaskKey) (o : Outcome)
  /-- `pj_websock_close`. -/
  | close (code : Nat) (reason : List UInt8) (key : MaskKey) (o : Outcome)
  /-- A CLOSE frame was received. -/
  | closeReceived (code : Nat) (reason : List UInt8) (key : MaskKey) (o : Outcome)
  /-- The transport reports an error or the end of the stream. -/
  | disconnected
  | txSent
  | ctlSent
  | destroy
  deriving DecidableEq, Repr

def pongFrame (key : MaskKey) (payload : List UInt8) : List UInt8 :=
  encodeFrame .pong true key (payload.take 125)

def closeFrame (key : MaskKey) (code : Nat) (reason : List UInt8) : List UInt8 :=
  encodeFrame .close true key (toBytes 2 code ++ reason.take (125 - 2))

/-- `send_handshake`: the text with its terminating zero, cut off where the buffer ends. A text that does
not fit, or a transport that refuses it, closes the WebSocket. -/
def sendHandshake (s : Sender) (text : List UInt8) (o : Outcome) : Sender :=
  if txBufSize ≤ text.length then
    { s with state := .closed, tx := { s.tx with buf := overwrite s.tx.buf (text.take (txBufSize - 1) ++ [0]) } }
  else
    { s with
      state := if s.tx.sendPending ∨ s.transport = false ∨ o = .failed then .closed else s.state
      tx := { s.tx with buf := overwrite s.tx.buf (text ++ [0]) }.sendRaw s.transport text.length o }

/-- The control frame goes into `ctl_buf`. -/
def submitCtl (s : Sender) (frame : List UInt8) (o : Outcome) : Sender :=
  { s with ctl := s.ctl.submit s.transport frame o }

def sendStep (s : Sender) : SendAction → Option Sender
  | .connected text o =>
    if s.state = .connecting ∧ s.handshakeSent = false then
      some (sendHandshake { s with handshakeSent := true } text o)
    else none
  | .opened => if s.state = .connecting ∧ s.handshakeSent = true then some { s with state := .open } else none
  | .enterSend opcode payload =>
    if s.state = .open ∧ payload.length ≤ txBufSize - maxFrameHdrLen then
      some { s with calls := s.calls ++ [(opcode, payload)] }
    else some s
  | .send n key o =>
    s.calls[n]?.map fun (opcode, payload) =>
      { s with calls := s.calls.eraseIdx n, tx := s.tx.submit s.transport (encodeFrame opcode true key payload) o }
  | .pong payload key o => some (if s.destroying then s else submitCtl s (pongFrame key payload) o)
  | .ping key o => some (if s.state = .open then submitCtl s (encodeFrame .ping true key []) o else s)
  | .close code reason key o =>
    some (if s.state = .open then submitCtl { s with state := .closing } (closeFrame key code reason) o else s)
  | .closeReceived code reason key o =>
    let s' := if s.state = .open then submitCtl s (closeFrame key code reason) o else s
    some { s' with state := .closed }
  | .disconnected => some { s with state := .closed }
  | .txSent => if s.tx.inFlight.isSome then some { s with tx := s.tx.onDataSent } else none
  | .ctlSent => if s.ctl.inFlight.isSome then some { s with ctl := s.ctl.onDataSent } else none
  | .destroy =>
    some { s with
      state := .closed, destroying := true, transport := false
      tx := { s.tx with inFlight := none }, ctl := { s.ctl with inFlight := none } }

/-- `pj_websock_connect` has created the transport. -/
def connecting (txBuf ctlBuf : List UInt8) : Sender :=
  ⟨.connecting, false, true, false, ⟨txBuf, false, none⟩, ⟨ctlBuf, false, none⟩, []⟩

/-- The bytes of a send that is still pending are those that were handed to it. -/
def Channel.Stable (c : Channel) : Prop := ∀ bytes, c.inFlight = some bytes → c.buf.take bytes.length = bytes

def Sender.Stable (s : Sender) : Prop := s.tx.Stable ∧ s.ctl.Stable

def written (s : Sender) : SendAction → Option Channel
  | .connected _ _ => some s.tx
  | .send _ _ _ => some s.tx
  | .pong _ _ _ => if s.destroying then none else some s.ctl
  | .ping _ _ => if s.state = .open then some s.ctl else none
  | .close _ _ _ _ => if s.state = .open then some s.ctl else none
  | .closeReceived _ _ _ _ => if s.state = .open then some s.ctl else none
  | _ => none

def WritesIdle (s : Sender) (a : SendAction) : Prop := ∀ c, written s a = some c → c.inFlight = none

instance (s : Sender) (a : SendAction) : Decidable (WritesIdle s a) :=
  match h : written s a with
  | none => .isTrue fun c hc => by rw [h] at hc; cases hc
  | some c =>
    decidable_of_iff (c.inFlight = none)
      ⟨fun hnone _ hc => Option.some.inj (h.symm.trans hc) ▸ hnone, fun hall => hall c h⟩

theorem Channel.stable_of_idle {c : Channel} (h : c.inFlight = none) : c.Stable := by
  intro bytes hbytes
  rw [h] at hbytes
  cases hbytes

/-- A send leaves the buffer alone, and the bytes it hands over are those of the buffer. -/
theorem Channel.Stable.sendRaw {c : Channel} (h : c.Stable) (transport : Bool) (len : Nat) (o : Outcome) :
    (c.sendRaw transport len o).Stable := by
  unfold Channel.sendRaw
  split
  · exact h
  · split
    · exact h
    · cases o with
      | sent => exact h
      | failed => exact h
      | pending =>
        rintro bytes hbytes
        obtain rfl : c.buf.take len = bytes := Option.some.inj hbytes
        show c.buf.take (c.buf.take len).length = c.buf.take len
        rw [List.length_take, ← List.take_take, List.take_length]
      | pendingDone => exact h

theorem Channel.stable_submit {c : Channel} (h : c.inFlight = none) (transport : Bool) (frame : List UInt8)
    (o : Outcome) : (c.submit transport frame o).Stable := by
  apply Channel.Stable.sendRaw
  exact Channel.stable_of_idle h

theorem stable_sendHandshake {s : Sender} (hidle : s.tx.inFlight = none) (hctl : s.ctl.Stable)
    (text : List UInt8) (o : Outcome) : (sendHandshake s text o).Stable := by
  rw [sendHandshake]
  split
  · exact ⟨Channel.stable_of_idle hidle, hctl⟩
  · refine ⟨?_, hctl⟩
    apply Channel.Stable.sendRaw
    exact Channel.stable_of_idle hidle

theorem stable_sendStep {s t : Sender} {a : SendAction} (hs : s.Stable) (hidle : WritesIdle s a)
    (h : sendStep s a = some t) : t.Stable := by
  cases a with
  | connected text o =>
    simp only [sendStep] at h
    split at h
    · obtain rfl := Option.some.inj h
      exact stable_sendHandshake (s := { s with handshakeSent := true }) (hidle _ rfl) hs.2 text o
    · cases h
  | opened =>
    simp only [sendStep] at h
    split at h
    · obtain rfl := Option.some.inj h
      exact hs
    · cases h
  | enterSend opcode payload =>
    simp only [sendStep] at h
    split at h
    · obtain rfl := Option.some.inj h
      exact hs
    · obtain rfl := Option.some.inj h
      exact hs
  | send n key o =>
    obtain ⟨call, hcall, rfl⟩ := Option.map_eq_some_iff.mp h
    exact ⟨Channel.stable_submit (hidle _ rfl) _ _ _, hs.2⟩
  | pong payload key o =>
    obtain rfl := Option.some.inj h
    split
    · exact hs
    · rename_i hopen
      exact ⟨hs.1, Channel.stable_submit (hidle _ (if_neg hopen)) _ _ _⟩
  | ping key o =>
    obtain rfl := Option.some.inj h
    split
    · rename_i hopen
      exact ⟨hs.1, Channel.stable_submit (hidle _ (if_pos hopen)) _ _ _⟩
    · exact hs
  | close code reason key o =>
    obtain rfl := Option.some.inj h
    split
    · rename_i hopen
      exact ⟨hs.1, Channel.stable_submit (hidle _ (if_pos hopen)) _ _ _⟩
    · exact hs
  | closeReceived code reason key o =>
    obtain rfl := Option.some.inj h
    by_cases hopen : s.state = .open
    · rw [if_pos hopen]
      exact ⟨hs.1, Channel.stable_submit (hidle _ (if_pos hopen)) _ _ _⟩
    · rw [if_neg hopen]
      exact hs
  | disconnected =>
    obtain rfl := Option.some.inj h
    exact hs
  | txSent =>
    simp only [sendStep] at h
    split at h
    · obtain rfl := Option.some.inj h
      exact ⟨Channel.stable_of_idle rfl, hs.2⟩
    · cases h
  | ctlSent =>
    simp only [sendStep] at h
    split at h
    · obtain rfl := Option.some.inj h
      exact ⟨hs.1, Channel.stable_of_idle rfl⟩
    · cases h
  | destroy =>
    obtain rfl := Option.some.inj h
    exact ⟨Channel.stable_of_idle rfl, Channel.stable_of_idle rfl⟩

/-- In every run in which no frame is encoded into a buffer whose send is pending, the bytes of a pending
send stay as they were. -/
theorem transmit_buffers_stable (txBuf ctlBuf : List UInt8) (acts : List SendAction) (s : Sender)
    (hidle : Meets sendStep WritesIdle (connecting txBuf ctlBuf) acts)
    (hrun : exec sendStep (connecting txBuf ctlBuf) acts = some s) : s.Stable :=
  exec_invariant_of_meets (fun _ _ _ => stable_sendStep)
    ⟨Channel.stable_of_idle rfl, Channel.stable_of_idle rfl⟩ hidle hrun

def sampleKey : MaskKey := ⟨1, 2, 3, 4⟩

/-- The handshake, and two messages of which the second waits for the first. -/
def politeRun : List SendAction :=
  [.connected (ascii "GET /") .sent, .opened, .enterSend .text (ascii "a"), .send 0 sampleKey .pending,
    .ping sampleKey .pending, .txSent, .enterSend .text (ascii "b"), .send 0 sampleKey .pending]

/-- The second message is encoded while the first one is pending. -/
def hastyRun : List SendAction :=
  [.connected (ascii "GET /") .sent, .opened, .enterSend .text (ascii "a"), .send 0 sampleKey .pending,
    .enterSend .text (ascii "b"), .send 0 sampleKey .sent]

theorem transmit_buffers_stable_polite :
    ∃ s, exec sendStep (connecting [] []) politeRun = some s ∧ s.tx.inFlight.isSome ∧ s.ctl.inFlight.isSome ∧
      s.Stable :=
  ⟨_, rfl, by decide, by decide, transmit_buffers_stable [] [] politeRun _ (by decide) rfl⟩

/-- `pj_websock_send` returns `PJ_EBUSY` for the second message, but `tx_buf` already holds it. -/
theorem transmit_buffer_overwritten :
    ∃ s, exec sendStep (connecting [] []) hastyRun = some s ∧ ¬ s.Stable := by
  refine ⟨_, rfl, fun h => ?_⟩
  exact absurd (h.1 _ rfl) (by decide)

end PjProject.WebSock
