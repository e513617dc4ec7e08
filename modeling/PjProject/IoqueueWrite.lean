import PjProject.Ioqueue
import Mathlib

/-! Write completions of one registered key. Any number of application and poll threads run the locked
sections of the key in any order; between two sections a thread keeps on its stack what it has left to
do, such as an operation it took off a list and the callback it is about to call. A callback is
application code, so a thread in one may call into the ioqueue again. -/

namespace PjProject.IoqueueWrite

open Ioqueue

/-- What a thread has left to do, once per function it is in. -/
inductive Frame (Op : Type)
  /-- application code in a completion callback -/
  | callback
  /-- `ioqueue_dispatch_write_event` after it released the lock, before it reads `h->cb` -/
  | dispatch (op : Op)
  /-- the head of the loop of `ioqueue_dispatch_write_event_no_lock` -/
  | noLock
  /-- the loop with a callback read under the lock -/
  | noLockCall (op : Op)
  /-- `pj_ioqueue_post_completion` after it released the lock, before it reads `key->cb` -/
  | post (op : Op)
  /-- `pj_ioqueue_unregister` about to enter `ioqueue_drain_pending_writes` -/
  | drain
  /-- the loop over `write_cb_list` when unregistering in a write callback -/
  | drainOwn
  | drainOwnCall (op : Op) (onWriteComplete : Bool)
  /-- waiting for another thread to leave its callback, after `counter` rounds -/
  | drainWait (counter : Nat)
  /-- the loop over `write_list` -/
  | drainList
  | drainListCall (op : Op)
  /-- `pj_ioqueue_unregister` about to clear the callbacks -/
  | clear
  deriving DecidableEq

/-- The key, the operations and the stack of every thread. `returned` and `completed` record what the
application has seen: the status of each send, and each call of `on_write_complete`. -/
structure State (Op T : Type) where
  key : Key Op T
  ops : Op → OpRec
  stack : T → List (Frame Op)
  returned : List (Op × Status)
  completed : List Op

variable {Op T : Type} [DecidableEq Op] [DecidableEq T]

/-- The key just after `pj_ioqueue_register_sock2`, with every thread outside. -/
def start (q : Queue Op T) (raw : Key Op T) (args : RegisterArgs) (ops : Op → OpRec) : State Op T where
  key := ioqueueInitKey q raw args
  ops := ops
  stack := fun _ => []
  returned := []
  completed := []

/-- The thread runs application code. -/
def inApplication : List (Frame Op) → Bool
  | [] => true
  | .callback :: _ => true
  | _ => false

def State.goto (s : State Op T) (t : T) (frames : List (Frame Op)) : State Op T :=
  { s with stack := Function.update s.stack t frames }

/-- `on_write_complete` is called for `op` by thread `t`, which has `rest` to do after it. -/
def State.callback (s : State Op T) (t : T) (op : Op) (rest : List (Frame Op)) : State Op T :=
  { s.goto t (.callback :: rest) with completed := op :: s.completed }

/-- What a locked section leaves, with the stack of its thread. -/
def State.enter (s : State Op T) (sec : Section Op T) (t : T) (frames : List (Frame Op)) : State Op T :=
  { s.goto t frames with key := sec.key, ops := sec.ops }

/-- Whether the application may submit the operation key: all its earlier writes were completed. A key
that is seen to be pending may be tried at any time. -/
def State.reusable (s : State Op T) (op : Op) : Bool :=
  s.returned.count (op, .pending) == s.completed.count op || (s.ops op).op != .none

/-- The pass of the loop over `write_cb_list` in `ioqueue_drain_pending_writes`. -/
def drainOwn (s : State Op T) (t : T) (rest : List (Frame Op)) : State Op T :=
  match s.key.writeCbList with
  | [] => s.goto t (.drainList :: rest)
  | op :: ops =>
    { s.goto t (.drainOwnCall op s.key.cb.onWriteComplete :: rest) with
      key := { s.key with writeCbList := ops } }

/-- Thread `t` goes on with the innermost function it is in; `rest` is the stack below. -/
def runFrame (s : State Op T) (t : T) (rest : List (Frame Op)) : Frame Op → State Op T
  | .callback => s.goto t rest
  | .dispatch op =>
    if s.key.cb.onWriteComplete then s.callback t op (.noLock :: rest) else s.goto t (.noLock :: rest)
  | .noLock =>
    let sec := dispatchWriteEventNoLock s.key s.ops
    match sec.after with
    | .writeComplete op =>
      s.enter sec t (if s.key.cb.onWriteComplete then .noLockCall op :: rest else rest)
    | _ => s.enter sec t rest
  | .noLockCall op => s.callback t op (.noLock :: rest)
  | .post op => if s.key.cb.onWriteComplete then s.callback t op rest else s.goto t rest
  | .drain =>
    match s.key.writeCallbackThread with
    | none => s.goto t (.drainList :: rest)
    | some u => if u = t then drainOwn s t rest else s.goto t (.drainWait 0 :: rest)
  | .drainOwn => drainOwn s t rest
  | .drainOwnCall op onWriteComplete =>
    if onWriteComplete then s.callback t op (.drainOwn :: rest) else s.goto t (.drainOwn :: rest)
  | .drainWait counter =>
    if counter + 1 > 100 ∨ s.key.writeCallbackThread = none then s.goto t (.drainList :: rest)
    else s.goto t (.drainWait (counter + 1) :: rest)
  | .drainList =>
    match s.key.writeList with
    | [] => s.goto t (.clear :: rest)
    | op :: ops => { s.goto t (.drainListCall op :: rest) with key := { s.key with writeList := ops } }
  | .drainListCall op =>
    if s.key.cb.onWriteComplete then s.callback t op (.drainList :: rest)
    else s.goto t (.drainList :: rest)
  | .clear => { s.goto t rest with key := { s.key with cb := ⟨false, false, false, false⟩ } }

inductive Action (Op T : Type)
  /-- the fast track of `pj_ioqueue_send`: `none` for success, or an error other than would-block -/
  | sendFast (t : T) (op : Op) (error : Option Nat)
  /-- the locked section of `pj_ioqueue_send` and `pj_ioqueue_sendto` -/
  | send (t : T) (op : Op) (kind : Operation) (size : Nat)
  | connect (t : T)
  | dispatchWrite (t : T) (res : SendResult)
  | post (t : T) (op : Op)
  | unregister (t : T)
  | run (t : T)

/-- What the thread has to do after the section of `ioqueue_dispatch_write_event`. -/
def afterDispatch (rest : List (Frame Op)) : After Op → List (Frame Op)
  | .writeComplete op => .dispatch op :: rest
  | .connectComplete => .callback :: rest
  | _ => rest

/-- What the thread has to do after the section of `pj_ioqueue_post_completion`. -/
def afterPost (rest : List (Frame Op)) : After Op → List (Frame Op)
  | .writeComplete op => .post op :: rest
  | .readComplete _ | .acceptComplete _ => .callback :: rest
  | _ => rest

def fastStatus : Option Nat → Status
  | none => .success
  | some code => .os code

def returnedStatus : After Op → Status
  | .ret status => status
  | _ => .success

/-- The steps. Calls are made from application code and from poll, which both run with the stack the
thread has then; `run` goes on with what a call has left to do. -/
def step (s : State Op T) : Action Op T → Option (State Op T)
  | .sendFast t op error =>
    if inApplication (s.stack t) ∧ s.key.closing = false ∧ s.key.writeList = [] then
      some { s with returned := (op, fastStatus error) :: s.returned }
    else none
  | .send t op kind size =>
    if inApplication (s.stack t) ∧ s.reusable op then
      let sec := sendSection s.key s.ops op kind size
      some { s.enter sec t (s.stack t) with
        returned := (op, returnedStatus sec.after) :: s.returned }
    else none
  | .connect t =>
    if inApplication (s.stack t) then some (s.enter (connectSection s.key s.ops) t (s.stack t)) else none
  | .dispatchWrite t res =>
    if inApplication (s.stack t) then
      let sec := dispatchWriteEvent s.key s.ops t res
      some (s.enter sec t (afterDispatch (s.stack t) sec.after))
    else none
  | .post t op =>
    if inApplication (s.stack t) then
      let sec := postCompletion s.key s.ops op
      some (s.enter sec t (afterPost (s.stack t) sec.after))
    else none
  | .unregister t =>
    if inApplication (s.stack t) then
      if s.key.closing then some s
      else some { s.goto t (.drain :: s.stack t) with
        key := { s.key with fd := invalidSocket, closing := true } }
    else none
  | .run t =>
    match s.stack t with
    | [] => none
    | frame :: rest => some (runFrame s t rest frame)

end PjProject.IoqueueWrite
