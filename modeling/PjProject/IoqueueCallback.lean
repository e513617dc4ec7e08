import PjProject.Ioqueue

/-! The completion callbacks of an ioqueue (`ioqueue_common_abs.c`) and the operation keys they are called
for. Any number of threads run the locked sections of any number of keys in any order; between two sections
a thread keeps on its stack what it has left to do: an operation that it took off a list and whose callback
it is about to call, or a loop it is in. A callback is application code, so a thread in one may call into
the ioqueue again. Every call of a callback is recorded with the operation code that
`pj_ioqueue_is_pending` would look at. -/

namespace PjProject.IoqueueCallback

open Ioqueue

/-- What a thread has left to do on a key, once per function it is in. -/
inductive Frame (Op : Type)
  /-- application code in a completion callback -/
  | callback
  /-- `ioqueue_dispatch_read_event` after the unlock, with the callback read under the lock -/
  | dispatchRead (op : Op) (onReadComplete : Bool)
  | dispatchAccept (op : Op)
  /-- `ioqueue_dispatch_write_event` after the unlock, before it reads `h->cb` -/
  | dispatchWrite (op : Op)
  | dispatchConnect
  /-- the heads of the loops over the deferred callbacks, and their calls -/
  | readNoLock
  | readNoLockCall (op : Op)
  | writeNoLock
  | writeNoLockCall (op : Op)
  /-- `pj_ioqueue_post_completion` after the unlock, before it reads `key->cb` -/
  | postRead (op : Op)
  | postWrite (op : Op)
  | postAccept (op : Op)
  /-- `pj_ioqueue_unregister` about to enter `ioqueue_drain_pending_writes` -/
  | drain
  /-- its loop over `write_cb_list`, when the thread is the one in the write callback -/
  | drainOwn
  | drainOwnCall (op : Op) (onWriteComplete : Bool)
  /-- waiting for another thread to leave its callback, after `counter` rounds -/
  | drainWait (counter : Nat)
  /-- its loop over `write_list` -/
  | drainList
  | drainListCall (op : Op)
  /-- `pj_ioqueue_unregister` about to clear the callbacks -/
  | clear
  deriving DecidableEq

/-- The keys `K`, the operation keys and the stacks of the threads. `submitted` are the operations that went
pending, `entered` the calls of the callbacks with the operation code at that time, the last one first. -/
structure State (Op T K : Type) where
  keys : K → Key Op T
  ops : Op → OpRec
  stack : T → List (K × Frame Op)
  submitted : List Op
  entered : List (Op × Operation)

variable {Op T K : Type} [DecidableEq Op] [DecidableEq T] [DecidableEq K]

def unregisteredKey (key : Key Op T) : Key Op T :=
  { key with
    closing := true
    connecting := false
    readList := []
    acceptList := []
    writeList := []
    readCbList := []
    writeCbList := []
    cb := ⟨false, false, false, false⟩ }

/-- An ioqueue with no socket registered. -/
def start (raw : K → Key Op T) (ops : Op → OpRec) : State Op T K where
  keys k := unregisteredKey (raw k)
  ops := ops
  stack _ := []
  submitted := []
  entered := []

/-- The thread runs application code, or the loop of `pj_ioqueue_poll`. -/
def inApplication : List (K × Frame Op) → Bool
  | [] => true
  | (_, .callback) :: _ => true
  | _ => false

def State.goto (s : State Op T K) (t : T) (frames : List (K × Frame Op)) : State Op T K :=
  { s with stack := Function.update s.stack t frames }

def State.setKey (s : State Op T K) (k : K) (key : Key Op T) : State Op T K :=
  { s with keys := Function.update s.keys k key }

/-- A completion callback is called for `op`; the thread has `rest` to do after it. -/
def State.callback (s : State Op T K) (t : T) (k : K) (op : Op) (rest : List (K × Frame Op)) : State Op T K :=
  { s.goto t ((k, .callback) :: rest) with entered := (op, (s.ops op).op) :: s.entered }

/-- What a locked section leaves, with the stack of its thread. -/
def State.enter (s : State Op T K) (k : K) (sec : Section Op T) (t : T) (frames : List (K × Frame Op)) : State Op T K :=
  { (s.goto t frames).setKey k sec.key with ops := sec.ops }

/-- The application keeps an operation key to one operation at a time: it is used again once the callback was
called for every operation that went pending. A key that is seen to be pending may be tried at any time. -/
def State.reusable (s : State Op T K) (op : Op) : Bool :=
  s.submitted.count op == (s.entered.map Prod.fst).count op || (s.ops op).op != .none

/-- An operation is started: it goes pending when the section puts it on a list. -/
def State.submit (s : State Op T K) (k : K) (sec : Section Op T) (op : Op) : State Op T K :=
  { s.setKey k sec.key with
    ops := sec.ops
    submitted := if (s.ops op).op = .none ∧ (sec.ops op).op ≠ .none then op :: s.submitted else s.submitted }

/-- A pass of the loop over `write_cb_list` in `ioqueue_drain_pending_writes`. -/
def drainOwn (s : State Op T K) (t : T) (k : K) (rest : List (K × Frame Op)) : State Op T K :=
  match (s.keys k).writeCbList with
  | [] => s.goto t ((k, .drainList) :: rest)
  | op :: more =>
    (s.goto t ((k, .drainOwnCall op (s.keys k).cb.onWriteComplete) :: rest)).setKey k
      { s.keys k with writeCbList := more }

/-- What the thread has to do after a pass of a loop over deferred callbacks. -/
def afterNoLock (k : K) (rest : List (K × Frame Op)) (cb : Callbacks) : After Op → List (K × Frame Op)
  | .readComplete op => if cb.onReadComplete then (k, .readNoLockCall op) :: rest else rest
  | .writeComplete op => if cb.onWriteComplete then (k, .writeNoLockCall op) :: rest else rest
  | _ => rest

/-- Thread `t` goes on with the innermost function it is in, on key `k`; `rest` is the stack below. -/
def runFrame (s : State Op T K) (t : T) (k : K) (rest : List (K × Frame Op)) : Frame Op → State Op T K
  | .callback => s.goto t rest
  | .dispatchRead op onReadComplete =>
    if (s.keys k).closing = false ∧ onReadComplete then s.callback t k op ((k, .readNoLock) :: rest)
    else s.goto t ((k, .readNoLock) :: rest)
  | .dispatchAccept op =>
    if (s.keys k).cb.onAcceptComplete ∧ (s.keys k).closing = false then s.callback t k op rest else s.goto t rest
  | .dispatchWrite op =>
    if (s.keys k).cb.onWriteComplete then s.callback t k op ((k, .writeNoLock) :: rest)
    else s.goto t ((k, .writeNoLock) :: rest)
  | .dispatchConnect =>
    if (s.keys k).cb.onConnectComplete ∧ (s.keys k).closing = false then s.goto t ((k, .callback) :: rest)
    else s.goto t rest
  | .readNoLock =>
    let sec := dispatchReadEventNoLock (s.keys k) s.ops
    s.enter k sec t (afterNoLock k rest (s.keys k).cb sec.after)
  | .readNoLockCall op => s.callback t k op ((k, .readNoLock) :: rest)
  | .writeNoLock =>
    let sec := dispatchWriteEventNoLock (s.keys k) s.ops
    s.enter k sec t (afterNoLock k rest (s.keys k).cb sec.after)
  | .writeNoLockCall op => s.callback t k op ((k, .writeNoLock) :: rest)
  | .postRead op => if (s.keys k).cb.onReadComplete then s.callback t k op rest else s.goto t rest
  | .postWrite op => if (s.keys k).cb.onWriteComplete then s.callback t k op rest else s.goto t rest
  | .postAccept op => if (s.keys k).cb.onAcceptComplete then s.callback t k op rest else s.goto t rest
  | .drain =>
    match (s.keys k).writeCallbackThread with
    | none => s.goto t ((k, .drainList) :: rest)
    | some u => if u = t then drainOwn s t k rest else s.goto t ((k, .drainWait 0) :: rest)
  | .drainOwn => drainOwn s t k rest
  | .drainOwnCall op onWriteComplete =>
    if onWriteComplete then s.callback t k op ((k, .drainOwn) :: rest) else s.goto t ((k, .drainOwn) :: rest)
  | .drainWait counter =>
    if counter + 1 > 100 ∨ (s.keys k).writeCallbackThread = none then s.goto t ((k, .drainList) :: rest)
    else s.goto t ((k, .drainWait (counter + 1)) :: rest)
  | .drainList =>
    match (s.keys k).writeList with
    | [] => s.goto t ((k, .clear) :: rest)
    | op :: more => (s.goto t ((k, .drainListCall op) :: rest)).setKey k { s.keys k with writeList := more }
  | .drainListCall op =>
    if (s.keys k).cb.onWriteComplete then s.callback t k op ((k, .drainList) :: rest)
    else s.goto t ((k, .drainList) :: rest)
  | .clear => (s.goto t rest).setKey k { s.keys k with cb := ⟨false, false, false, false⟩ }

inductive Action (Op T K : Type)
  /-- a socket is registered on a key that is not in use -/
  | register (k : K) (q : Queue Op T) (args : RegisterArgs)
  /-- `pj_ioqueue_recv`, or `pj_ioqueue_recvfrom`, with nothing to read at once -/
  | recv (t : T) (k : K) (op : Op) (recvFrom : Bool) (size : Nat)
  | accept (t : T) (k : K) (op : Op)
  /-- `pj_ioqueue_send`, or `pj_ioqueue_sendto`, that cannot be sent at once -/
  | send (t : T) (k : K) (op : Op) (sendTo : Bool) (size : Nat)
  | connect (t : T) (k : K)
  | dispatchRead (t : T) (k : K) (bytes : Int)
  | dispatchWrite (t : T) (k : K) (res : SendResult)
  | dispatchException (t : T) (k : K)
  | post (t : T) (k : K) (op : Op)
  | unregister (t : T) (k : K)
  | clearKey (t : T) (k : K)
  | opKeyInit (t : T) (op : Op)
  | setConcurrency (t : T) (k : K) (allow : Bool)
  /-- the thread goes on with what it has left to do -/
  | run (t : T)

/-- What the thread has to do after a dispatch section. -/
def afterDispatch (k : K) (rest : List (K × Frame Op)) (cb : Callbacks) : After Op → List (K × Frame Op)
  | .readComplete op => (k, .dispatchRead op cb.onReadComplete) :: rest
  | .acceptComplete op => (k, .dispatchAccept op) :: rest
  | .writeComplete op => (k, .dispatchWrite op) :: rest
  | .connectComplete => (k, .dispatchConnect) :: rest
  | _ => rest

/-- What the thread has to do after the section of `pj_ioqueue_post_completion`. -/
def afterPost (k : K) (rest : List (K × Frame Op)) : After Op → List (K × Frame Op)
  | .readComplete op => (k, .postRead op) :: rest
  | .acceptComplete op => (k, .postAccept op) :: rest
  | .writeComplete op => (k, .postWrite op) :: rest
  | _ => rest

/-- The lists of `pj_ioqueue_clear_key`. -/
def clearKey (key : Key Op T) : Key Op T :=
  { key with
    connecting := false
    readList := []
    acceptList := []
    writeList := []
    readCbList := []
    writeCbList := [] }

/-- The steps. Calls are made from application code and from poll, which both run with the stack the thread has
then; `run` goes on with what a call has left to do. -/
def step (s : State Op T K) : Action Op T K → Option (State Op T K)
  | .register k q args =>
    if (s.keys k).closing then some (s.setKey k (ioqueueInitKey q (s.keys k) args)) else none
  | .recv t k op recvFrom size =>
    if inApplication (s.stack t) ∧ s.reusable op then
      some (s.submit k (recvSection (s.keys k) s.ops op (if recvFrom then .recvFrom else .recv) size) op)
    else none
  | .accept t k op =>
    if inApplication (s.stack t) ∧ s.reusable op then
      some (s.submit k (acceptSection (s.keys k) s.ops op) op)
    else none
  | .send t k op sendTo size =>
    if inApplication (s.stack t) ∧ s.reusable op then
      some (s.submit k (sendSection (s.keys k) s.ops op (if sendTo then .sendTo else .send) size) op)
    else none
  | .connect t k =>
    if inApplication (s.stack t) then some (s.enter k (connectSection (s.keys k) s.ops) t (s.stack t)) else none
  | .dispatchRead t k bytes =>
    if inApplication (s.stack t) then
      let sec := dispatchReadEvent (s.keys k) s.ops t bytes
      some (s.enter k sec t (afterDispatch k (s.stack t) (s.keys k).cb sec.after))
    else none
  | .dispatchWrite t k res =>
    if inApplication (s.stack t) then
      let sec := dispatchWriteEvent (s.keys k) s.ops t res
      some (s.enter k sec t (afterDispatch k (s.stack t) (s.keys k).cb sec.after))
    else none
  | .dispatchException t k =>
    if inApplication (s.stack t) then
      let sec := dispatchExceptionEvent (s.keys k) s.ops
      some (s.enter k sec t (afterDispatch k (s.stack t) (s.keys k).cb sec.after))
    else none
  | .post t k op =>
    if inApplication (s.stack t) then
      let sec := postCompletion (s.keys k) s.ops op
      some (s.enter k sec t (afterPost k (s.stack t) sec.after))
    else none
  | .unregister t k =>
    if inApplication (s.stack t) then
      if (s.keys k).closing then some s
      else
        some ((s.goto t ((k, .drain) :: s.stack t)).setKey k
          { s.keys k with
            fd := invalidSocket
            closing := true })
    else none
  | .clearKey t k => if inApplication (s.stack t) then some (s.setKey k (clearKey (s.keys k))) else none
  | .opKeyInit t op =>
    -- an operation key that the ioqueue has may not be cleared
    if inApplication (s.stack t) ∧ s.submitted.count op = (s.entered.map Prod.fst).count op then
      some { s with ops := setOp s.ops op ⟨.none, 0, 0, 0⟩ }
    else none
  | .setConcurrency t k allow =>
    if inApplication (s.stack t) then some (s.setKey k { s.keys k with allowConcurrent := allow }) else none
  | .run t =>
    match s.stack t with
    | [] => none
    | (k, frame) :: rest => some (runFrame s t k rest frame)

/-- `pj_ioqueue_is_pending`. -/
def ioqueueIsPending (ops : Op → OpRec) (op : Op) : Bool := (ops op).op != .none

/-- No operation key was pending when a callback was called for it. -/
def NotPending (s : State Op T K) : Prop := ∀ call ∈ s.entered, call.2 = .none

/-- The key of which `ioqueue_drain_pending_writes` is about to complete an operation of `write_list`. -/
def drainedKey : List (K × Frame Op) → Option K
  | (k, .drainListCall _) :: _ => some k
  | _ => none

/-- `ioqueue_drain_pending_writes` has no callback to call for an operation of `write_list`. -/
def NothingDrained (s : State Op T K) : Action Op T K → Prop
  | .run t => ∀ k ∈ drainedKey (s.stack t), (s.keys k).cb.onWriteComplete = false
  | _ => True

instance (s : State Op T K) : DecidablePred (NothingDrained s) := fun a =>
  match a with
  | .run t => inferInstanceAs (Decidable (∀ k ∈ drainedKey (s.stack t), (s.keys k).cb.onWriteComplete = false))
  | .register .. | .recv .. | .accept .. | .send .. | .connect .. | .dispatchRead .. | .dispatchWrite .. => .isTrue trivial
  | .dispatchException .. | .post .. | .unregister .. | .clearKey .. | .opKeyInit .. | .setConcurrency .. => .isTrue trivial

end PjProject.IoqueueCallback
