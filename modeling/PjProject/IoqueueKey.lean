import PjProject.TimeVal
import Mathlib.Data.Finset.Basic
import Mathlib.Data.Finset.Insert

/-! The keys of the ioqueue (`ioqueue_common_abs.c`): pending operations, and the sections that its
functions run under the key's lock. A section returns the key and the operations as it leaves them,
the change it makes to the descriptor sets, and what the thread does once the lock is released. -/

namespace PjProject.Ioqueue

/-- `pj_ioqueue_operation_e`. -/
inductive Operation
  | none | read | recv | recvFrom | write | send | sendTo | accept | connect
  deriving DecidableEq

inductive SockType
  | stream | dgram
  deriving DecidableEq

/-- The statuses the modelled functions return. -/
inductive Status
  | success | pending | cancelled | busy | invalid | invalidOp | tooMany | tooBig
  | os (code : Nat)
  deriving DecidableEq

/-- What the functions read and write of `union operation_key`. `written` is negative after an error,
`bytesRead` too. -/
structure OpRec where
  op : Operation
  size : Nat
  written : Int
  bytesRead : Int
  deriving DecidableEq

/-- Which of the completion callbacks of a key are set. -/
structure Callbacks where
  onReadComplete : Bool
  onWriteComplete : Bool
  onAcceptComplete : Bool
  onConnectComplete : Bool
  deriving DecidableEq

/-- A set of `READABLE_EVENT`, `WRITEABLE_EVENT` and `EXCEPTION_EVENT`. -/
structure Events where
  readable : Bool
  writeable : Bool
  exception : Bool
  deriving DecidableEq

def readableEvent : Events := ⟨true, false, false⟩

def writeableEvent : Events := ⟨false, true, false⟩

def connectEvents : Events := ⟨false, true, true⟩

/-- `PJ_INVALID_SOCKET`. -/
def invalidSocket : Int := -1

/-- `pj_ioqueue_key_t`, over the addresses `Op` of operation keys and the threads `T`. -/
structure Key (Op T : Type) where
  fd : Int
  fdType : SockType
  closing : Bool
  connecting : Bool
  allowConcurrent : Bool
  readList : List Op
  acceptList : List Op
  writeList : List Op
  readCbList : List Op
  writeCbList : List Op
  readCallbackThread : Option T
  writeCallbackThread : Option T
  cb : Callbacks
  refCount : Nat
  freeTime : TimeVal
  grpLock : Option Nat

/-- `rfdset`, `wfdset` and `xfdset` of the ioqueue. -/
structure FdSets where
  rfdset : Finset Int
  wfdset : Finset Int
  xfdset : Finset Int
  deriving DecidableEq

/-- `ioqueue_add_to_set2`. -/
def ioqueueAddToSet (sets : FdSets) (fd : Int) (ev : Events) : FdSets where
  rfdset := if ev.readable then insert fd sets.rfdset else sets.rfdset
  wfdset := if ev.writeable then insert fd sets.wfdset else sets.wfdset
  xfdset := if ev.exception then insert fd sets.xfdset else sets.xfdset

/-- `ioqueue_remove_from_set2`. -/
def ioqueueRemoveFromSet (sets : FdSets) (fd : Int) (ev : Events) : FdSets where
  rfdset := if ev.readable then sets.rfdset.erase fd else sets.rfdset
  wfdset := if ev.writeable then sets.wfdset.erase fd else sets.wfdset
  xfdset := if ev.exception then sets.xfdset.erase fd else sets.xfdset

/-- The change a section makes to the descriptor sets, at the key's descriptor. -/
inductive SetChange
  | keep
  | add (ev : Events)
  | remove (ev : Events)
  deriving DecidableEq

def SetChange.apply (c : SetChange) (sets : FdSets) (fd : Int) : FdSets :=
  match c with
  | .keep => sets
  | .add ev => ioqueueAddToSet sets fd ev
  | .remove ev => ioqueueRemoveFromSet sets fd ev

/-- What follows the section: a status to return, or a completion callback to call. -/
inductive After (Op : Type)
  | ret (status : Status)
  | idle
  | deferred
  | connectComplete
  | acceptComplete (op : Op)
  | readComplete (op : Op)
  | writeComplete (op : Op)
  deriving DecidableEq

structure Section (Op T : Type) where
  key : Key Op T
  ops : Op → OpRec
  change : SetChange
  after : After Op

/-- The outcome of a `pj_sock_send` or `pj_sock_sendto`. -/
inductive SendResult
  | sent (n : Nat)
  | error (code : Nat)
  deriving DecidableEq

variable {Op T : Type} [DecidableEq Op]

def setOp (ops : Op → OpRec) (op : Op) (r : OpRec) : Op → OpRec := Function.update ops op r

def clearOp (ops : Op → OpRec) (op : Op) : Op → OpRec := setOp ops op { ops op with op := .none }

/-- The section of `pj_ioqueue_recv` and `pj_ioqueue_recvfrom` (`kind` tells which). -/
def recvSection (key : Key Op T) (ops : Op → OpRec) (op : Op) (kind : Operation) (size : Nat) :
    Section Op T :=
  if key.closing then ⟨key, ops, .keep, .ret .cancelled⟩
  else if (ops op).op ≠ .none then ⟨key, ops, .keep, .ret .pending⟩
  else ⟨{ key with readList := key.readList ++ [op] },
    setOp ops op { ops op with op := kind, size := size }, .add readableEvent, .ret .pending⟩

/-- The section of `pj_ioqueue_accept`. -/
def acceptSection (key : Key Op T) (ops : Op → OpRec) (op : Op) : Section Op T :=
  if key.closing then ⟨key, ops, .keep, .ret .cancelled⟩
  else if (ops op).op ≠ .none then ⟨key, ops, .keep, .ret .cancelled⟩
  else ⟨{ key with acceptList := key.acceptList ++ [op] },
    setOp ops op { ops op with op := .accept }, .add readableEvent, .ret .pending⟩

/-- The section of `pj_ioqueue_send` and `pj_ioqueue_sendto` (`kind` tells which). -/
def sendSection (key : Key Op T) (ops : Op → OpRec) (op : Op) (kind : Operation) (size : Nat) :
    Section Op T :=
  if key.closing then ⟨key, ops, .keep, .ret .cancelled⟩
  else if (ops op).op ≠ .none then ⟨key, ops, .keep, .ret .busy⟩
  else ⟨{ key with writeList := key.writeList ++ [op] },
    setOp ops op { ops op with op := kind, size := size, written := 0 }, .add writeableEvent,
    .ret .pending⟩

/-- The section of `pj_ioqueue_connect` after `pj_sock_connect` would block. -/
def connectSection (key : Key Op T) (ops : Op → OpRec) : Section Op T :=
  if key.closing then ⟨key, ops, .keep, .ret .cancelled⟩
  else ⟨{ key with connecting := true }, ops, .add connectEvents, .ret .pending⟩

/-- `ioqueue_dispatch_read_event` up to the callback, by thread `t`; `bytes` is what the socket
returned for a read. -/
def dispatchReadEvent (h : Key Op T) (ops : Op → OpRec) (t : T) (bytes : Int) : Section Op T :=
  if h.closing then ⟨h, ops, .keep, .idle⟩
  else match h.acceptList with
    | acceptOp :: rest =>
      ⟨{ h with acceptList := rest }, clearOp ops acceptOp,
        if rest.isEmpty then .remove readableEvent else .keep, .acceptComplete acceptOp⟩
    | [] => match h.readList with
      | [] => ⟨h, ops, .keep, .idle⟩
      | readOp :: rest =>
        let change : SetChange := if rest.isEmpty then .remove readableEvent else .keep
        let ops := setOp ops readOp { ops readOp with op := .none, bytesRead := bytes }
        if h.allowConcurrent then ⟨{ h with readList := rest }, ops, change, .readComplete readOp⟩
        else match h.readCallbackThread with
          | some _ =>
            ⟨{ h with readList := rest, readCbList := h.readCbList ++ [readOp] }, ops, change, .deferred⟩
          | none =>
            ⟨{ h with readList := rest, readCallbackThread := some t }, ops, change,
              .readComplete readOp⟩

/-- One pass of the loop of `ioqueue_dispatch_read_event_no_lock` (without a limit). -/
def dispatchReadEventNoLock (h : Key Op T) (ops : Op → OpRec) : Section Op T :=
  if h.closing then ⟨{ h with readCallbackThread := none }, ops, .keep, .idle⟩
  else match h.readCbList with
    | [] => ⟨{ h with readCallbackThread := none }, ops, .keep, .idle⟩
    | readOp :: rest => ⟨{ h with readCbList := rest }, ops, .keep, .readComplete readOp⟩

/-- `written` after a send of the rest of the operation. -/
def writtenAfter (r : OpRec) : SendResult → Int
  | .sent n => r.written + n
  | .error code => -(code : Int)

def writeFinished (fdType : SockType) (r : OpRec) (res : SendResult) : Bool :=
  (match res with | .error _ => true | .sent _ => false) ||
    writtenAfter r res == (r.size : Int) || fdType == .dgram

/-- `ioqueue_dispatch_write_event` up to the callback, by thread `t`; `res` is what the socket
returned for the send. A datagram operation leaves the list before the send, a stream operation when
all of it is written or on an error. -/
def dispatchWriteEvent (h : Key Op T) (ops : Op → OpRec) (t : T) (res : SendResult) : Section Op T :=
  if h.closing then ⟨h, ops, .keep, .idle⟩
  else if h.connecting then ⟨{ h with connecting := false }, ops, .remove connectEvents, .connectComplete⟩
  else match h.writeList with
    | [] => ⟨h, ops, .keep, .idle⟩
    | writeOp :: rest =>
      let r := ops writeOp
      if writeFinished h.fdType r res then
        let ops := setOp ops writeOp { r with op := .none, written := writtenAfter r res }
        let change : SetChange := if rest.isEmpty then .remove writeableEvent else .keep
        if h.allowConcurrent then ⟨{ h with writeList := rest }, ops, change, .writeComplete writeOp⟩
        else match h.writeCallbackThread with
          | some _ =>
            ⟨{ h with writeList := rest, writeCbList := h.writeCbList ++ [writeOp] }, ops, change,
              .deferred⟩
          | none =>
            ⟨{ h with writeList := rest, writeCallbackThread := some t }, ops, change,
              .writeComplete writeOp⟩
      else ⟨h, setOp ops writeOp { r with written := writtenAfter r res }, .keep, .idle⟩

/-- One pass of the loop of `ioqueue_dispatch_write_event_no_lock` (without a limit). Unlike the read
side it does not look at `closing`. -/
def dispatchWriteEventNoLock (h : Key Op T) (ops : Op → OpRec) : Section Op T :=
  match h.writeCbList with
  | [] => ⟨{ h with writeCallbackThread := none }, ops, .keep, .idle⟩
  | writeOp :: rest => ⟨{ h with writeCbList := rest }, ops, .keep, .writeComplete writeOp⟩

/-- `ioqueue_dispatch_exception_event` up to the callback. -/
def dispatchExceptionEvent (h : Key Op T) (ops : Op → OpRec) : Section Op T :=
  if !h.connecting then ⟨h, ops, .keep, .idle⟩
  else if h.closing then ⟨h, ops, .keep, .idle⟩
  else ⟨{ h with connecting := false }, ops, .remove connectEvents, .connectComplete⟩

/-- `pj_ioqueue_post_completion` up to the callback. -/
def postCompletion (key : Key Op T) (ops : Op → OpRec) (op : Op) : Section Op T :=
  if op ∈ key.readList then
    ⟨{ key with readList := key.readList.erase op }, clearOp ops op, .remove readableEvent,
      .readComplete op⟩
  else if op ∈ key.writeList then
    ⟨{ key with writeList := key.writeList.erase op }, clearOp ops op, .remove writeableEvent,
      .writeComplete op⟩
  else if op ∈ key.acceptList then
    ⟨{ key with acceptList := key.acceptList.erase op }, clearOp ops op, .keep, .acceptComplete op⟩
  else if key.connecting then
    ⟨{ key with connecting := false }, ops, .remove connectEvents, .ret .invalidOp⟩
  else ⟨key, ops, .keep, .ret .invalidOp⟩

end PjProject.Ioqueue
