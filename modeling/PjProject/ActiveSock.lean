import PjProject.Runs
import Mathlib.Data.List.Range

/-! Sends on a stream active socket with `whole_data` (`activesock.c`), over the write queue of its
ioqueue key. Every operation key has a program counter of its own and the operations move in any
order, so the model has the interleavings of any number of application and poll threads. Bytes are
known by the buffer they come from and their place in it. -/

namespace PjProject.ActiveSock

/-- `struct send_data`: the rest of a partial send. -/
structure SendData (D : Type) where
  data : D
  len : Nat
  sent : Nat
  deriving DecidableEq

/-- What `write_operation` keeps of a pending send: `buf` is `data` from `off` on. -/
structure WriteOp (D : Type) where
  data : D
  off : Nat
  size : Nat
  written : Nat
  deriving DecidableEq

/-- Who called `send_remaining`: `pj_activesock_send` with the length it was given, or
`ioqueue_on_write_complete`. -/
inductive Caller
  | activesockSend (whole : Nat)
  | onWriteComplete
  deriving DecidableEq

/-- A call of `pj_ioqueue_send`: the first one of `pj_activesock_send`, or one of `send_remaining`. -/
inductive SendCall
  | first
  | remaining (caller : Caller)
  deriving DecidableEq

inductive Pc (D : Type)
  | idle
  /-- `pj_ioqueue_send` about to test `write_list` -/
  | ioqueueSend (call : SendCall) (data : D) (off size : Nat)
  /-- `write_list` was seen empty, about to call `pj_sock_send` -/
  | fastTrack (call : SendCall) (data : D) (off size : Nat)
  /-- about to lock the key and queue the operation -/
  | enqueue (call : SendCall) (data : D) (off size : Nat)
  /-- `pj_activesock_send` about to record a partial send -/
  | record (data : D) (whole sent : Nat)
  /-- the head of the loop of `send_remaining` -/
  | sendRemaining (caller : Caller)
  /-- on `write_list` -/
  | pending
  /-- off the list, `ioqueue_on_write_complete` yet to be called -/
  | dispatched (bytesSent : Nat)
  deriving DecidableEq

/-- The active socket with its operation keys, the bytes sent so far, and two records of what the
application has seen: the sends it made with their lengths, and the sizes reported for them. `call` is
the last send made with an operation key. -/
structure State (Op D : Type) where
  writeList : List Op
  writeOp : Op → WriteOp D
  sendData : SendData D
  activesockData : Op → Bool
  pc : Op → Pc D
  wire : List (D × Nat)
  call : Op → D × Nat
  sends : List (D × Nat)
  reported : List (D × Nat)

variable {Op D : Type} [DecidableEq Op] [DecidableEq D]

/-- An active socket that has sent nothing; the records in it are not initialized. -/
def start (sendData : SendData D) (writeOp : Op → WriteOp D) (call : Op → D × Nat) : State Op D where
  writeList := []
  writeOp := writeOp
  sendData := sendData
  activesockData := fun _ => false
  pc := fun _ => .idle
  wire := []
  call := call
  sends := []
  reported := []

def State.goto (s : State Op D) (op : Op) (pc : Pc D) : State Op D :=
  { s with pc := Function.update s.pc op pc }

/-- The socket accepts `n` bytes of the buffer from `off` on. -/
def State.transmit (s : State Op D) (data : D) (off n : Nat) : State Op D :=
  { s with wire := s.wire ++ (List.range' off n).map fun i => (data, i) }

/-- The application is told the size for the send it made with `op`, and may use the key again. -/
def State.report (s : State Op D) (op : Op) (size : Nat) : State Op D :=
  { s.goto op .idle with reported := ((s.call op).1, size) :: s.reported }

/-- `pj_ioqueue_send` was successful with `n` bytes: what its caller does next. -/
def sendSuccess (s : State Op D) (op : Op) (data : D) (size n : Nat) : SendCall → State Op D
  | .first => if n = size then s.report op n else s.goto op (.record data size n)
  | .remaining caller =>
    let s := { s with sendData := { s.sendData with sent := s.sendData.sent + n } }
    if s.sendData.sent < s.sendData.len then s.goto op (.sendRemaining caller)
    else match caller with
      | .activesockSend whole => s.report op whole
      | .onWriteComplete =>
        { s.report op s.sendData.sent with
          activesockData := Function.update s.activesockData op false }

/-- `ioqueue_on_write_complete`. -/
def onWriteComplete (s : State Op D) (op : Op) (bytesSent : Nat) : State Op D :=
  if 0 < bytesSent ∧ s.activesockData op = true then
    let s := { s with sendData := { s.sendData with sent := s.sendData.sent + bytesSent } }
    if s.sendData.sent = s.sendData.len then
      { s.report op s.sendData.sent with activesockData := Function.update s.activesockData op false }
    else s.goto op (.sendRemaining .onWriteComplete)
  else s.report op bytesSent

/-- The socket accepts a prefix of what it is given, and not nothing. -/
def accepts (size n : Nat) : Prop := n ≤ size ∧ (0 < n ∨ size = 0)

instance (size n : Nat) : Decidable (accepts size n) := inferInstanceAs (Decidable (_ ∧ _))

inductive Action (Op D : Type)
  /-- `pj_activesock_send` is called -/
  | send (op : Op) (data : D) (len : Nat)
  /-- the operation goes on; `sock` is the answer of the socket in the fast track, `none` when it
  would block -/
  | run (op : Op) (sock : Option Nat)
  /-- poll sends for the first operation of `write_list`, of which the socket accepts `n` bytes -/
  | dispatch (n : Nat)

/-- The operation goes on from where it is. -/
def runOp (s : State Op D) (op : Op) (sock : Option Nat) : Pc D → Option (State Op D)
  | .idle => none
  | .ioqueueSend call data off size =>
    some (s.goto op (if s.writeList.isEmpty then .fastTrack call data off size
      else .enqueue call data off size))
  | .fastTrack call data off size =>
    match sock with
    | none => some (s.goto op (.enqueue call data off size))
    | some n =>
      if accepts size n then some (sendSuccess (s.transmit data off n) op data size n call) else none
  | .enqueue _ data off size =>
    some { s.goto op .pending with
      writeList := s.writeList ++ [op]
      writeOp := Function.update s.writeOp op ⟨data, off, size, 0⟩ }
  | .record data whole sent =>
    some { s.goto op (.sendRemaining (.activesockSend whole)) with
      sendData := ⟨data, whole, sent⟩
      activesockData := Function.update s.activesockData op true }
  | .sendRemaining caller =>
    -- a size that is not positive is no argument for `pj_ioqueue_send`
    if s.sendData.sent < s.sendData.len then
      some (s.goto op (.ioqueueSend (.remaining caller) s.sendData.data s.sendData.sent
        (s.sendData.len - s.sendData.sent)))
    else none
  | .pending => none
  | .dispatched bytesSent => some (onWriteComplete s op bytesSent)

/-- `n` more bytes of a pending operation are sent. -/
def State.write (s : State Op D) (op : Op) (n : Nat) : State Op D :=
  { s.transmit (s.writeOp op).data ((s.writeOp op).off + (s.writeOp op).written) n with
    writeOp := Function.update s.writeOp op
      { s.writeOp op with written := (s.writeOp op).written + n } }

/-- `ioqueue_dispatch_write_event` for a stream socket, which takes an operation off the list when all
of it is written. -/
def dispatchWriteEvent (s : State Op D) (n : Nat) : Option (State Op D) :=
  match s.writeList with
  | [] => none
  | op :: rest =>
    let w := s.writeOp op
    if accepts (w.size - w.written) n then
      if w.written + n = w.size then
        some { (s.write op n).goto op (.dispatched w.size) with writeList := rest }
      else some (s.write op n)
    else none

/-- The steps. An operation key is used for one send at a time, and every send has a buffer of its
own. -/
def step (s : State Op D) : Action Op D → Option (State Op D)
  | .send op data len =>
    if s.pc op = .idle ∧ data ∉ s.sends.map Prod.fst then
      some { s.goto op (.ioqueueSend .first data 0 len) with
        activesockData := Function.update s.activesockData op false
        call := Function.update s.call op (data, len)
        sends := (data, len) :: s.sends }
    else none
  | .run op sock => runOp s op sock (s.pc op)
  | .dispatch n => dispatchWriteEvent s n

end PjProject.ActiveSock
