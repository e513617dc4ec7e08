import PjProject.IoqueueKey
import PjProject.Runs

/-! The select ioqueue with safe unregistration (`ioqueue_select.c`): the pre-created keys with their
active, closing and free lists, the descriptor sets, and a system whose steps are the sections that
application and poll threads run under the locks, in any order. -/

namespace PjProject.Ioqueue

/-- `PJ_IOQUEUE_KEY_FREE_DELAY`. -/
def keyFreeDelay : TimeVal := ⟨0, 500⟩

/-- `pj_ioqueue_t`. A key is named by its number among the pre-created ones; `fdSetSize` is the
platform's `FD_SETSIZE`, and `grpRef` gives the reference counts of the group locks. -/
structure Queue (Op T : Type) where
  max : Nat
  count : Nat
  nfds : Int
  fdSetSize : Nat
  defaultConcurrency : Bool
  activeList : List Nat
  closingList : List Nat
  freeList : List Nat
  sets : FdSets
  keys : Nat → Key Op T
  ops : Op → OpRec
  grpRef : Nat → Int

variable {Op T : Type}

def Queue.setKey (q : Queue Op T) (k : Nat) (key : Key Op T) : Queue Op T :=
  { q with keys := Function.update q.keys k key }

/-- `rescan_fdset`. -/
def rescanFdset (q : Queue Op T) : Queue Op T :=
  { q with nfds := (q.activeList.map fun k => (q.keys k).fd).foldl max 0 }

def addRef (q : Queue Op T) : Option Nat → Queue Op T
  | some g => { q with grpRef := Function.update q.grpRef g (q.grpRef g + 1) }
  | none => q

def decRef (q : Queue Op T) : Option Nat → Queue Op T
  | some g => { q with grpRef := Function.update q.grpRef g (q.grpRef g - 1) }
  | none => q

/-- `pj_ioqueue_create2`: all keys on the free list with counter 0. The other fields of a key are not
initialized, so they are given by `raw`. -/
def ioqueueCreate (maxFd fdSetSize : Nat) (concurrency : Bool) (raw : Nat → Key Op T)
    (ops : Op → OpRec) (grpRef : Nat → Int) : Queue Op T where
  max := maxFd
  count := 0
  nfds := 0
  fdSetSize := fdSetSize
  defaultConcurrency := concurrency
  activeList := []
  closingList := []
  freeList := List.range maxFd
  sets := ⟨∅, ∅, ∅⟩
  keys := fun k => { raw k with refCount := 0 }
  ops := ops
  grpRef := grpRef

/-- A key as the pool may hand it out. -/
def blankKey : Key Op T where
  fd := 0
  fdType := .stream
  closing := false
  connecting := false
  allowConcurrent := false
  readList := []
  acceptList := []
  writeList := []
  readCbList := []
  writeCbList := []
  readCallbackThread := none
  writeCallbackThread := none
  cb := ⟨false, false, false, false⟩
  refCount := 0
  freeTime := ⟨0, 0⟩
  grpLock := none

/-- `scan_closing_keys` at clock value `now`. -/
def scanClosingKeys (q : Queue Op T) (now : TimeVal) : Queue Op T :=
  { q with
    closingList := q.closingList.filter fun k => !TimeVal.gte now (q.keys k).freeTime
    freeList := q.freeList ++ q.closingList.filter fun k => TimeVal.gte now (q.keys k).freeTime }

/-- The arguments of `pj_ioqueue_register_sock2`, with what the platform answers: the socket type (or
a failure to tell it) and whether the socket could be made non-blocking. -/
structure RegisterArgs where
  sock : Int
  grpLock : Option Nat
  cb : Callbacks
  sockType : Option SockType
  nonblocking : Bool
  now : TimeVal

/-- `ioqueue_init_key`. It cannot fail with safe unregistration; the reference on the group lock is
taken by the caller below. -/
def ioqueueInitKey (q : Queue Op T) (key : Key Op T) (args : RegisterArgs) : Key Op T where
  fd := args.sock
  fdType := args.sockType.getD .stream
  closing := false
  connecting := false
  allowConcurrent := q.defaultConcurrency
  readList := []
  acceptList := []
  writeList := []
  readCbList := []
  writeCbList := []
  readCallbackThread := none
  writeCallbackThread := none
  cb := args.cb
  refCount := key.refCount + 1
  freeTime := key.freeTime
  grpLock := args.grpLock

/-- `pj_ioqueue_register_sock2`: the queue, the status and the key. -/
def ioqueueRegisterSock (q : Queue Op T) (args : RegisterArgs) : Queue Op T × Status × Option Nat :=
  if args.sock = invalidSocket then (q, .invalid, none)
  else if (q.fdSetSize : Int) ≤ args.sock then (q, .tooBig, none)
  else if q.max ≤ q.count then (q, .tooMany, none)
  else
    let q := scanClosingKeys q args.now
    match q.freeList with
    | [] => (q, .tooMany, none)
    | k :: rest =>
      let q := { q with freeList := rest }
      let key := ioqueueInitKey q (q.keys k) args
      let q := addRef (q.setKey k key) args.grpLock
      if args.nonblocking then
        (rescanFdset { q with activeList := q.activeList ++ [k], count := q.count + 1 }, .success, some k)
      else
        let q := decRef q key.grpLock
        ({ q.setKey k { key with grpLock := none, refCount := 0 } with freeList := q.freeList ++ [k] },
          .os 1, none)

/-- `increment_counter`. -/
def incrementCounter (q : Queue Op T) (k : Nat) : Queue Op T :=
  q.setKey k { q.keys k with refCount := (q.keys k).refCount + 1 }

/-- `decrement_counter` at clock value `now`. -/
def decrementCounter (q : Queue Op T) (k : Nat) (now : TimeVal) : Queue Op T :=
  let key := { q.keys k with refCount := (q.keys k).refCount - 1 }
  if key.refCount = 0 then
    rescanFdset
      { q.setKey k { key with freeTime := TimeVal.normalize ⟨now.sec, now.msec + keyFreeDelay.msec⟩ } with
        activeList := q.activeList.erase k
        closingList := q.closingList.erase k ++ [k] }
  else q.setKey k key

/-- `pj_ioqueue_unregister` up to the release of the key's lock. A key already closing is left. -/
def unregisterSection (q : Queue Op T) (k : Nat) : Queue Op T :=
  let key := q.keys k
  if key.closing then q
  else
    let q := { q with count := q.count - 1 }
    let q := if key.fd ≠ invalidSocket then
      { q with sets := ioqueueRemoveFromSet q.sets key.fd ⟨true, true, true⟩ } else q
    q.setKey k { key with fd := invalidSocket, closing := true }

/-- The end of `pj_ioqueue_unregister`: the callbacks are cleared, the counter and the reference on
the group lock are given back. -/
def unregisterEnd (q : Queue Op T) (k : Nat) (now : TimeVal) : Queue Op T :=
  let q := q.setKey k { q.keys k with cb := ⟨false, false, false, false⟩ }
  decRef (decrementCounter q k now) (q.keys k).grpLock

/-- One operation leaves a list in `ioqueue_drain_pending_writes`; the deferred ones go first. -/
def drainPendingWrites (key : Key Op T) : Key Op T :=
  match key.writeCbList with
  | _ :: rest => { key with writeCbList := rest }
  | [] => { key with writeList := key.writeList.tail }

/-- The queue and what its threads are doing: `held k` is how many references on key `k` threads have
yet to give back (poll events being processed, and one for an unregistration that is not finished),
`zeroTime k` is the clock value at which the counter of `k` last reached 0. -/
structure State (Op T : Type) where
  queue : Queue Op T
  held : Nat → Nat
  zeroTime : Nat → TimeVal

def init (q : Queue Op T) : State Op T := ⟨q, fun _ => 0, fun _ => ⟨0, 0⟩⟩

/-- The sections a thread runs on a key under the key's lock. -/
inductive Call (Op T : Type)
  | recv (op : Op) (kind : Operation) (size : Nat)
  | accept (op : Op)
  | send (op : Op) (kind : Operation) (size : Nat)
  | connect
  | postCompletion (op : Op)
  | dispatchRead (t : T) (bytes : Int)
  | dispatchReadNoLock
  | dispatchWrite (t : T) (res : SendResult)
  | dispatchWriteNoLock
  | dispatchException

/-- Whether the section runs in `pj_ioqueue_poll`, on a key the thread holds a reference on. -/
def Call.inPoll : Call Op T → Bool
  | .recv .. | .accept .. | .send .. | .connect | .postCompletion .. => false
  | .dispatchRead .. | .dispatchReadNoLock | .dispatchWrite .. | .dispatchWriteNoLock
  | .dispatchException => true

/-- A thread uses a key it has a right to: the application one that is on the active list, a poll
thread one it holds a reference on. -/
def Call.enabled (c : Call Op T) (s : State Op T) (k : Nat) : Bool :=
  if c.inPoll then decide (0 < s.held k) else decide (k ∈ s.queue.activeList)

inductive Action (Op T : Type)
  | register (args : RegisterArgs)
  | call (k : Nat) (c : Call Op T)
  | take (k : Nat)
  | drop (k : Nat) (now : TimeVal)
  | unregister (k : Nat)
  | drain (k : Nat)
  | unregisterEnd (k : Nat) (now : TimeVal)
  | scan (now : TimeVal)

/-- A locked section on key `k`. -/
def Queue.runSection (q : Queue Op T) (k : Nat) (sec : Section Op T) : Queue Op T :=
  { q.setKey k sec.key with ops := sec.ops, sets := sec.change.apply q.sets (q.keys k).fd }

variable [DecidableEq Op]

def Call.run (key : Key Op T) (ops : Op → OpRec) : Call Op T → Section Op T
  | .recv op kind size => recvSection key ops op kind size
  | .accept op => acceptSection key ops op
  | .send op kind size => sendSection key ops op kind size
  | .connect => connectSection key ops
  | .postCompletion op => Ioqueue.postCompletion key ops op
  | .dispatchRead t bytes => dispatchReadEvent key ops t bytes
  | .dispatchReadNoLock => dispatchReadEventNoLock key ops
  | .dispatchWrite t res => dispatchWriteEvent key ops t res
  | .dispatchWriteNoLock => dispatchWriteEventNoLock key ops
  | .dispatchException => dispatchExceptionEvent key ops

/-- The steps. Poll takes references on active keys that are not closing, and every reference is given
back once. -/
def step (s : State Op T) : Action Op T → Option (State Op T)
  | .register args => some { s with queue := (ioqueueRegisterSock s.queue args).1 }
  | .call k c =>
    if c.enabled s k then
      some { s with queue := s.queue.runSection k (c.run (s.queue.keys k) s.queue.ops) }
    else none
  | .take k =>
    if k ∈ s.queue.activeList ∧ (s.queue.keys k).closing = false then
      some { s with
        queue := addRef (incrementCounter s.queue k) (s.queue.keys k).grpLock
        held := Function.update s.held k (s.held k + 1) }
    else none
  | .drop k now =>
    if 0 < s.held k then
      let q := decrementCounter s.queue k now
      some
        { queue := decRef q (q.keys k).grpLock
          held := Function.update s.held k (s.held k - 1)
          zeroTime := if (q.keys k).refCount = 0 then Function.update s.zeroTime k now else s.zeroTime }
    else none
  | .unregister k =>
    if k ∈ s.queue.activeList ∨ (s.queue.keys k).closing = true then
      some
        { s with
          queue := unregisterSection s.queue k
          held := if (s.queue.keys k).closing then s.held
            else Function.update s.held k (s.held k + 1) }
    else none
  | .drain k =>
    if 0 < s.held k ∧ (s.queue.keys k).closing = true then
      some { s with queue := s.queue.setKey k (drainPendingWrites (s.queue.keys k)) }
    else none
  | .unregisterEnd k now =>
    if 0 < s.held k ∧ (s.queue.keys k).closing = true then
      let q := unregisterEnd s.queue k now
      some
        { queue := q
          held := Function.update s.held k (s.held k - 1)
          zeroTime := if (q.keys k).refCount = 0 then Function.update s.zeroTime k now else s.zeroTime }
    else none
  | .scan now => some { s with queue := scanClosingKeys s.queue now }

end PjProject.Ioqueue
