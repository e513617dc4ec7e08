import PjProject.Runs
import Mathlib.Data.List.Range

/-! Reads of an active socket (`activesock.c`): `pj_activesock_start_read` and the loop of
`ioqueue_on_read_complete` for one read operation, which has a buffer of its own. The callback may leave
the end of what it was shown in the buffer, moved to the front; the next receive goes behind it, into what
is left of the buffer. The receives, what they bring and what the callback answers are the environment's.

A receive into a buffer that is full has length zero and is answered with zero bytes, which the loop cannot
tell from the end of the stream. -/

namespace PjProject.ActiveSockRead

/-- The errors the loop tells apart, by the status of the receive. -/
inductive Errno
  | wouldBlock
  | inProgress
  | connReset
  | other (code : Nat)
  deriving DecidableEq

/-- What a receive brings: bytes, the end of the stream, or an error. The first two are a `bytes_read` that
is not negative, and only its value tells them apart. -/
inductive Recv
  | bytes (l : List UInt8)
  | closed
  | error (e : Errno)
  deriving DecidableEq

def Recv.data : Recv → List UInt8
  | .bytes l => l
  | _ => []

/-- The status given to the callback: `PJ_SUCCESS`, `PJ_EEOF` or the error of the receive. -/
inductive Status
  | success
  | eof
  | error (e : Errno)
  deriving DecidableEq

/-- The socket of `pj_activesock_t`: its type, whether `cb.on_data_read` is set, `max_loop`, and whether the
flags of the read have `PJ_IOQUEUE_ALWAYS_ASYNC`. -/
structure Config where
  streamOriented : Bool
  onDataRead : Bool
  maxLoop : Nat
  alwaysAsync : Bool

/-- How the callback answers: what it returns, the remainder, the buffer as it leaves it, and whether it shut
the socket down for reading. -/
structure Answer where
  ret : Bool
  remainder : Nat
  pkt : Nat → UInt8
  shutdown : Bool

/-- A call of `on_data_read`: the bytes shown with the status, what was received for it, and how many bytes the
callback left in the buffer. -/
structure Shown where
  data : List UInt8
  status : Status
  recv : Recv
  left : Nat

/-- Where the read operation is: `pj_ioqueue_recv` is called for a part of the buffer, the receive is pending,
or there is none. -/
inductive Phase
  | recv (off len : Nat) (alwaysAsync : Bool)
  | pending (off len : Nat)
  | stopped
  deriving DecidableEq

/-- `struct read_op` with the loop counter of `ioqueue_on_read_complete` and `asock->shutdown & SHUT_RX`; `shown`
are the calls of the callback, the last one first. -/
structure State where
  pkt : Nat → UInt8
  size : Nat
  maxSize : Nat
  loop : Nat
  phase : Phase
  shutdown : Bool
  shown : List Shown

/-- `pj_activesock_start_read` with a buffer of `buffSize` bytes. -/
def startRead (mem : Nat → UInt8) (buffSize : Nat) : State where
  pkt := mem
  size := 0
  maxSize := buffSize
  loop := 0
  phase := .recv 0 buffSize true
  shutdown := false
  shown := []

/-- The received bytes are stored from the offset on. -/
def store (pkt : Nat → UInt8) (off : Nat) (l : List UInt8) : Nat → UInt8 := fun i =>
  if off ≤ i ∧ i < off + l.length then l.getD (i - off) 0 else pkt i

def contents (pkt : Nat → UInt8) (n : Nat) : List UInt8 := (List.range n).map pkt

def State.stop (s : State) : State := { s with phase := .stopped }

/-- The remainder that counts: none for a datagram socket, and none when it is not valid. -/
def Answer.left (ans : Answer) (streamOriented : Bool) (size : Nat) : Nat :=
  if streamOriented then if ans.remainder ≤ size then ans.remainder else 0 else 0

/-- `on_data_read` is called, if it is set, and the size becomes the remainder. The flag is what it returned. -/
def notify (cfg : Config) (s : State) (status : Status) (recv : Recv) (ans : Answer) : State × Bool :=
  if cfg.onDataRead then
    let left := ans.left cfg.streamOriented s.size
    ({ s with
        pkt := ans.pkt
        size := left
        shutdown := s.shutdown || ans.shutdown
        shown := ⟨contents s.pkt s.size, status, recv, left⟩ :: s.shown }, ans.ret)
  else ({ s with size := 0 }, true)

/-- The next receive goes into the rest of the buffer; after `max_loop` turns it may not be immediate. -/
def readNext (cfg : Config) (s : State) : State :=
  { s with
    loop := s.loop + 1
    phase := .recv s.size (s.maxSize - s.size) (cfg.alwaysAsync || decide (cfg.maxLoop ≤ s.loop + 1)) }

/-- The errors that are not reported: the receive would have blocked, or a datagram socket was reset. -/
def ignored (cfg : Config) : Errno → Bool
  | .wouldBlock => true
  | .inProgress => true
  | .connReset => !cfg.streamOriented
  | .other _ => false

/-- The branch of the loop for `bytes_read <= 0`. -/
def readFailed (cfg : Config) (s : State) (status : Status) (recv : Recv) (ans : Answer) : State :=
  match notify cfg s status recv ans with
  | (s, false) => s.stop
  | (s, true) => if s.shutdown then s.stop else readNext cfg s

/-- A turn of the loop of `ioqueue_on_read_complete`, up to the next `pj_ioqueue_recv`. -/
def turn (cfg : Config) (s : State) (recv : Recv) (ans : Answer) : State :=
  match recv with
  | .error e => if ignored cfg e then readNext cfg s else readFailed cfg s (.error e) recv ans
  | _ =>
    if 0 < recv.data.length then
      match notify cfg { s with size := s.size + recv.data.length } .success recv ans with
      | (s, false) => s.stop
      | (s, true) => readNext cfg s
    else readFailed cfg s (if cfg.streamOriented then .eof else .success) recv ans

/-- What a socket may answer to a receive of `len` bytes: no more than that, and no byte at all only for a length
of zero, or for a datagram. -/
def Serves (cfg : Config) (len : Nat) : Recv → Prop
  | .bytes l => l.length ≤ len ∧ (l = [] → len = 0 ∨ cfg.streamOriented = false)
  | _ => True

instance (cfg : Config) (len : Nat) : DecidablePred (Serves cfg len)
  | .bytes _ => inferInstanceAs (Decidable (_ ∧ _))
  | .closed => .isTrue trivial
  | .error _ => .isTrue trivial

/-- What the callback is asked to do with a remainder: to move it to the front of the buffer. -/
def Moved (cfg : Config) (s : State) (recv : Recv) (ans : Answer) : Prop :=
  let size := s.size + recv.data.length
  let left := ans.left cfg.streamOriented size
  ∀ i < left, ans.pkt i = s.pkt (size - left + i)

instance (cfg : Config) (s : State) (recv : Recv) (ans : Answer) : Decidable (Moved cfg s recv ans) :=
  inferInstanceAs (Decidable (∀ _ < _, _))

/-- What was received is in the buffer. -/
def deliver (s : State) (off : Nat) (recv : Recv) : State := { s with pkt := store s.pkt off recv.data }

inductive Action
  /-- `pj_ioqueue_recv` returns data or an error at once -/
  | immediate (recv : Recv) (ans : Answer)
  /-- it returns `PJ_EPENDING`, and the operation is on the read list -/
  | pend
  /-- it returns `PJ_ECANCELLED` -/
  | cancelled
  /-- the pending receive is done and `ioqueue_on_read_complete` is called -/
  | complete (recv : Recv) (ans : Answer)
  /-- the socket is shut down for reading, or closed -/
  | shutdown

def step (cfg : Config) (s : State) : Action → Option State
  | .immediate recv ans =>
    match s.phase with
    | .recv off len false =>
      if Serves cfg len recv ∧ Moved cfg (deliver s off recv) recv ans then
        some (turn cfg (deliver s off recv) recv ans)
      else none
    | _ => none
  | .pend =>
    match s.phase with
    | .recv off len _ => some { s with phase := .pending off len }
    | _ => none
  | .cancelled =>
    match s.phase with
    | .recv _ _ _ => some s.stop
    | _ => none
  | .complete recv ans =>
    match s.phase with
    | .pending off len =>
      if Serves cfg len recv ∧ Moved cfg (deliver s off recv) recv ans then
        -- a socket that was shut down is not read any more
        some (if s.shutdown then (deliver s off recv).stop
          else turn cfg { deliver s off recv with loop := 0 } recv ans)
      else none
    | _ => none
  | .shutdown => some { s with shutdown := true }

def tailOf : List Shown → List UInt8
  | [] => []
  | last :: _ => last.data.drop (last.data.length - last.left)

/-- Every call was shown the unconsumed tail of the call before it, and then what was received. -/
def Reassembled : List Shown → Prop
  | [] => True
  | last :: before => last.data = tailOf before ++ last.recv.data ∧ Reassembled before

/-- What the application is promised: receives stay inside the buffer, the stream is reassembled, and its end is
reported only when it has ended. -/
structure Sound (s : State) : Prop where
  inside : ∀ off len, (∃ alwaysAsync, s.phase = .recv off len alwaysAsync) ∨ s.phase = .pending off len →
    off + len ≤ s.maxSize
  reassembled : Reassembled s.shown
  ended : ∀ call ∈ s.shown, call.status = .eof → call.recv = .closed

/-- No receive is served while the buffer is full. -/
def HasRoom (s : State) : Action → Prop
  | .immediate (.bytes _) _ => s.size < s.maxSize
  | .complete (.bytes _) _ => s.size < s.maxSize ∨ s.shutdown = true
  | _ => True

instance (s : State) : DecidablePred (HasRoom s)
  | .immediate (.bytes _) _ => inferInstanceAs (Decidable (_ < _))
  | .immediate .closed _ => .isTrue trivial
  | .immediate (.error _) _ => .isTrue trivial
  | .complete (.bytes _) _ => inferInstanceAs (Decidable (_ ∨ _))
  | .complete .closed _ => .isTrue trivial
  | .complete (.error _) _ => .isTrue trivial
  | .pend => .isTrue trivial
  | .cancelled => .isTrue trivial
  | .shutdown => .isTrue trivial

end PjProject.ActiveSockRead
