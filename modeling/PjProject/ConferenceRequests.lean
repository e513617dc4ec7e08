import Mathlib.Logic.Function.Basic
import Mathlib.Data.List.Basic

/-! Requests to the conference bridge (`conference.c`): adding, connecting, disconnecting and removing ports. A request that
fails leaves the bridge as it was; the exception is a port with a wrong channel count, which is refused before the mutex is
taken and gives it back all the same. -/

namespace PjProject.ConferenceRequests

/-- The errors. `port` is a status of what is called to create a port. -/
inductive Error
  | einval
  | encchannel
  | etoomany
  | enomem
  | port (status : Nat)
  deriving DecidableEq, Repr

/-- `struct conf_port`: its `pjmedia_port`, which the sound device port does not have, and its flags. -/
structure ConfPort where
  port : Option Nat
  isNew : Bool
  removing : Bool
  deriving DecidableEq, Repr

/-- An operation with its parameters; `none` is `INVALID_SLOT`. -/
inductive Op
  | addPort (port : Nat)
  | removePort (port : Nat)
  | connectPorts (src sink : Nat) (adjLevel : Int)
  | disconnectPorts (src sink : Option Nat)
  | adjustConnLevel (src sink : Nat) (adjLevel : Int)
  deriving DecidableEq, Repr

/-- `pjmedia_conf`, the reference counts of the group locks that ports have, and how often the calling thread holds the
mutex, which is recursive. Of the entries in the free queue the number is kept. -/
structure Conf where
  channelCount : Nat
  portCnt : Nat
  connectCnt : Nat
  ports : List (Option ConfPort)
  opQueue : List Op
  opQueueFree : Nat
  grpLock : Nat → Option Nat
  held : Nat

/-- What is from outside: whether there is memory for the pool of a port, how the rest of its creation ends, and whether there
is memory for an operation. -/
structure Env where
  poolCreated : Bool
  prepared : Option Error
  allocated : Bool
  deriving DecidableEq, Repr

/-- `pj_mutex_lock`, when it returns. -/
def Conf.lock (conf : Conf) : Conf := { conf with held := conf.held + 1 }

/-- `pj_mutex_unlock`: an error when the thread does not hold the mutex. -/
def Conf.unlock (conf : Conf) : Conf := { conf with held := conf.held - 1 }

/-- `pjmedia_port_init_grp_lock` for a port that has no group lock. -/
def Conf.initGrpLock (conf : Conf) (port : Nat) : Conf :=
  if conf.grpLock port = none then { conf with grpLock := Function.update conf.grpLock port (some 1) } else conf

/-- `pj_grp_lock_add_ref` and `pj_grp_lock_dec_ref`. -/
def Conf.addRef (conf : Conf) (port : Nat) : Conf :=
  { conf with grpLock := Function.update conf.grpLock port ((conf.grpLock port).map (· + 1)) }

def Conf.decRef (conf : Conf) (port : Nat) : Conf :=
  { conf with grpLock := Function.update conf.grpLock port ((conf.grpLock port).map (· - 1)) }

/-- `create_conf_port`. -/
def createConfPort (env : Env) (conf : Conf) (port : Nat) : Conf × Except Error ConfPort :=
  if env.poolCreated = false then (conf, .error .enomem)
  else
    let conf := (conf.initGrpLock port).addRef port
    match env.prepared with
    | some error => (conf.decRef port, .error error)
    | none => (conf, .ok ⟨some port, false, false⟩)

/-- `get_free_op_entry`, and the operation at the end of the queue. -/
def queueOp (env : Env) (conf : Conf) (op : Op) : Option Conf :=
  if 0 < conf.opQueueFree then
    some { conf with opQueueFree := conf.opQueueFree - 1, opQueue := conf.opQueue ++ [op] }
  else if env.allocated then some { conf with opQueue := conf.opQueue ++ [op] }
  else none

/-- The number of channels of the port and the bridge are different, and neither is one. -/
def wrongChannels (conf : Conf) (ccnt : Nat) : Prop :=
  ccnt ≠ conf.channelCount ∧ ccnt ≠ 1 ∧ conf.channelCount ≠ 1

instance (conf : Conf) (ccnt : Nat) : Decidable (wrongChannels conf ccnt) := by
  unfold wrongChannels
  infer_instance

def Conf.setPort (conf : Conf) (index : Nat) (port : Option ConfPort) : Conf :=
  { conf with ports := conf.ports.set index port }

def Conf.portAt (conf : Conf) (slot : Nat) : Option ConfPort := (conf.ports[slot]?).join

/-- `pjmedia_conf_add_port` for a port with its channel count, and the slot. -/
def confAddPort (env : Env) (conf : Conf) (strmPort : Option (Nat × Nat)) : Conf × Except Error Nat :=
  match strmPort with
  | none => (conf, .error .einval)
  | some (port, ccnt) =>
    if wrongChannels conf ccnt then (conf.unlock, .error .encchannel)
    else
      let conf := conf.lock
      let index := conf.ports.findIdx Option.isNone
      if index = conf.ports.length then (conf.unlock, .error .etoomany)
      else
        match createConfPort env conf port with
        | (conf, .error error) => (conf.unlock, .error error)
        | (conf, .ok confPort) =>
          let conf := conf.setPort index (some { confPort with isNew := true })
          match queueOp env conf (.addPort index) with
          | some conf => (conf.unlock, .ok index)
          | none => (((conf.setPort index none).decRef port).unlock, .error .enomem)

/-- The slot has a port that is not being removed. -/
def Conf.usable (conf : Conf) (slot : Nat) : Bool := (conf.portAt slot).any fun p => !p.removing

/-- The part of `pjmedia_conf_connect_port` and `pjmedia_conf_disconnect_port` under the mutex. -/
def requestOp (env : Env) (conf : Conf) (src sink : Nat) (op : Op) : Conf × Except Error Unit :=
  let conf := conf.lock
  if conf.usable src = false ∨ conf.usable sink = false then (conf.unlock, .error .einval)
  else
    match queueOp env conf op with
    | some conf => (conf.unlock, .ok ())
    | none => (conf.unlock, .error .enomem)

/-- `pjmedia_conf_connect_port`; the sound device is not modelled. -/
def confConnectPort (env : Env) (conf : Conf) (src sink : Nat) (adjLevel : Int) : Conf × Except Error Unit :=
  if conf.ports.length ≤ src ∨ conf.ports.length ≤ sink then (conf, .error .einval)
  else if adjLevel < -128 then (conf, .error .einval)
  else requestOp env conf src sink (.connectPorts src sink adjLevel)

/-- `pjmedia_conf_disconnect_port`. -/
def confDisconnectPort (env : Env) (conf : Conf) (src sink : Nat) : Conf × Except Error Unit :=
  if conf.ports.length ≤ src ∨ conf.ports.length ≤ sink then (conf, .error .einval)
  else requestOp env conf src sink (.disconnectPorts (some src) (some sink))

def Op.involves (slot : Nat) : Op → Bool
  | .connectPorts src sink _ | .adjustConnLevel src sink _ => src = slot || sink = slot
  | .disconnectPorts src sink => src = some slot || sink = some slot
  | _ => false

/-- The loop that cancels the add operation of the slot and what follows for it: the queue that is left, and whether the
operation was found. -/
def cancelOps (port : Nat) : Bool → List Op → List Op × Bool
  | found, [] => ([], found)
  | found, op :: more =>
    if op = .addPort port then cancelOps port true more
    else if found && op.involves port then cancelOps port found more
    else
      let (queue, found) := cancelOps port found more
      (op :: queue, found)

/-- `op_remove_port2`. -/
def opRemovePort2 (conf : Conf) (port : Nat) : Conf :=
  let conf := conf.lock
  match conf.portAt port with
  | none => conf.unlock
  | some confPort =>
    let conf := conf.setPort port none
    let conf := if confPort.isNew then conf else { conf with portCnt := conf.portCnt - 1 }
    let conf := conf.unlock
    match confPort.port with
    | some port => conf.decRef port
    | none => conf

/-- `pjmedia_conf_remove_port`; the application's callback is not modelled. -/
def confRemovePort (env : Env) (conf : Conf) (port : Nat) : Conf × Except Error Unit :=
  if conf.ports.length ≤ port then (conf, .error .einval)
  else
    let conf := conf.lock
    match conf.portAt port with
    | none => (conf.unlock, .error .einval)
    | some confPort =>
      if confPort.removing then (conf.unlock, .error .einval)
      else
        let (queue, found) := cancelOps port false conf.opQueue
        if confPort.isNew ∧ found then
          let conf := { conf with
            opQueue := queue
            opQueueFree := conf.opQueueFree + (conf.opQueue.length - queue.length) }
          let conf := conf.setPort port (some { confPort with removing := true })
          (opRemovePort2 conf.unlock port, .ok ())
        else
          match queueOp env conf (.removePort port) with
          | some conf => ((conf.setPort port (some { confPort with removing := true })).unlock, .ok ())
          | none => (conf.unlock, .error .enomem)

/-- A call, with the channel count of the port that is added. -/
inductive Request
  | addPort (strmPort : Option (Nat × Nat))
  | connectPort (src sink : Nat) (adjLevel : Int)
  | disconnectPort (src sink : Nat)
  | removePort (port : Nat)
  deriving DecidableEq, Repr

def errorOf {α : Type} : Except Error α → Option Error
  | .error error => some error
  | .ok _ => none

def run (env : Env) (conf : Conf) (request : Request) : Conf × Option Error :=
  match request with
  | .addPort strmPort => ((confAddPort env conf strmPort).1, errorOf (confAddPort env conf strmPort).2)
  | .connectPort src sink adjLevel =>
    ((confConnectPort env conf src sink adjLevel).1, errorOf (confConnectPort env conf src sink adjLevel).2)
  | .disconnectPort src sink => ((confDisconnectPort env conf src sink).1, errorOf (confDisconnectPort env conf src sink).2)
  | .removePort port => ((confRemovePort env conf port).1, errorOf (confRemovePort env conf port).2)

/-- The number of references to a port. One that has no group lock is referenced by its owner, who has the first reference
of the lock that is created for it. -/
def Conf.refCnt (conf : Conf) (port : Nat) : Nat := (conf.grpLock port).getD 1

/-- Nothing is different that the other calls see. -/
structure Unchanged (conf conf' : Conf) : Prop where
  ports : conf'.ports = conf.ports
  counters : conf'.portCnt = conf.portCnt ∧ conf'.connectCnt = conf.connectCnt
  opQueue : conf'.opQueue = conf.opQueue
  refCnt : ∀ port, conf'.refCnt port = conf.refCnt port
  held : conf'.held = conf.held

theorem Unchanged.refl (conf : Conf) : Unchanged conf conf := ⟨rfl, ⟨rfl, rfl⟩, rfl, fun _ => rfl, rfl⟩

/-! The steps of a request. -/

theorem unlock_lock (conf : Conf) : conf.lock.unlock = conf := rfl

def Conf.referenced (conf : Conf) (port : Nat) : Conf := (conf.initGrpLock port).addRef port

theorem referenced_eq (conf : Conf) (port : Nat) : conf.referenced port =
    { conf with grpLock := Function.update conf.grpLock port (some (conf.refCnt port + 1)) } := by
  unfold Conf.referenced Conf.initGrpLock Conf.addRef Conf.refCnt
  cases hport : conf.grpLock port with
  | none =>
    rw [if_pos rfl]
    dsimp only
    rw [Function.update_self, Function.update_idem]
    rfl
  | some cnt =>
    rw [if_neg (Option.some_ne_none cnt), hport]
    rfl

theorem decRef_referenced (conf : Conf) (port : Nat) : (conf.referenced port).decRef port =
    { conf with grpLock := Function.update conf.grpLock port (some (conf.refCnt port)) } := by
  rw [referenced_eq, Conf.decRef]
  dsimp only
  rw [Function.update_self, Function.update_idem]
  rfl

theorem refCnt_update (conf : Conf) (port other : Nat) :
    ((Function.update conf.grpLock port (some (conf.refCnt port))) other).getD 1 = conf.refCnt other := by
  by_cases hother : other = port
  · rw [hother, Function.update_self]
    rfl
  · rw [Function.update_of_ne hother]
    rfl

theorem createConfPort_failed {env : Env} {conf : Conf} {port : Nat} {error : Error}
    (h : (createConfPort env conf port).2 = .error error) : Unchanged conf (createConfPort env conf port).1 := by
  unfold createConfPort at h ⊢
  split at h
  next hpool =>
    rw [if_pos hpool]
    exact .refl conf
  next hpool =>
    rw [if_neg hpool]
    dsimp only at h ⊢
    cases hprepared : env.prepared with
    | none =>
      rw [hprepared] at h
      cases h
    | some error =>
      have hback := decRef_referenced conf port
      unfold Conf.referenced at hback
      dsimp only
      rw [hback]
      exact ⟨rfl, ⟨rfl, rfl⟩, rfl, refCnt_update conf port, rfl⟩

theorem createConfPort_created {env : Env} {conf : Conf} {port : Nat} {confPort : ConfPort}
    (h : (createConfPort env conf port).2 = .ok confPort) :
    (createConfPort env conf port).1 = conf.referenced port := by
  unfold createConfPort at h ⊢
  split at h
  · cases h
  next hpool =>
    rw [if_neg hpool]
    dsimp only at h ⊢
    cases hprepared : env.prepared with
    | none => rfl
    | some error =>
      rw [hprepared] at h
      cases h

/-- A slot that was free is free again. -/
theorem set_findIdx_isNone (ports : List (Option ConfPort)) (port : Option ConfPort) :
    (ports.set (ports.findIdx Option.isNone) port).set (ports.findIdx Option.isNone) none = ports := by
  rw [List.set_set]
  by_cases hfull : ports.findIdx Option.isNone < ports.length
  · have hnone := List.findIdx_getElem (w := hfull)
    have hslot := List.set_getElem_self hfull
    rw [Option.isNone_iff_eq_none.mp hnone] at hslot
    exact hslot
  · exact List.set_eq_of_length_le (Nat.not_lt.mp hfull)

/-- A port that was created and could not be queued. -/
theorem unchanged_undo (conf : Conf) (port : Nat) (confPort : Option ConfPort) :
    Unchanged conf ((((conf.referenced port).setPort (conf.ports.findIdx Option.isNone) confPort).setPort
      (conf.ports.findIdx Option.isNone) none).decRef port) := by
  have hback := congrArg Conf.grpLock (decRef_referenced conf port)
  rw [referenced_eq] at hback ⊢
  refine ⟨set_findIdx_isNone conf.ports confPort, ⟨rfl, rfl⟩, rfl, fun other => ?_, rfl⟩
  exact (congrArg (fun lock => (lock other).getD 1) hback).trans (refCnt_update conf port other)

theorem Unchanged.unlock {conf conf' : Conf} (h : Unchanged conf.lock conf') : Unchanged conf conf'.unlock where
  ports := h.ports
  counters := h.counters
  opQueue := h.opQueue
  refCnt := h.refCnt
  held := by rw [Conf.unlock, h.held]; rfl

theorem confAddPort_refused {env : Env} {conf : Conf} {port ccnt : Nat} (h : wrongChannels conf ccnt) :
    confAddPort env conf (some (port, ccnt)) = (conf.unlock, .error .encchannel) := if_pos h

theorem confAddPort_failed {env : Env} {conf : Conf} {port ccnt : Nat} (hchannels : ¬ wrongChannels conf ccnt)
    {error : Error} (h : (confAddPort env conf (some (port, ccnt))).2 = .error error) :
    Unchanged conf (confAddPort env conf (some (port, ccnt))).1 := by
  unfold confAddPort at h ⊢
  dsimp only at h ⊢
  rw [if_neg hchannels] at h ⊢
  split at h
  next hfull =>
    rw [if_pos hfull]
    exact .refl conf
  next hfree =>
    rw [if_neg hfree]
    cases hcreate : createConfPort env conf.lock port with
    | mk conf' result =>
      rw [hcreate] at h
      cases result with
      | error error =>
        have hsame : Unchanged conf.lock (createConfPort env conf.lock port).1 :=
          createConfPort_failed (congrArg Prod.snd hcreate)
        rw [hcreate] at hsame
        exact hsame.unlock
      | ok confPort =>
        have hcreated : (createConfPort env conf.lock port).1 = conf.lock.referenced port :=
          createConfPort_created (congrArg Prod.snd hcreate)
        obtain rfl : conf' = conf.lock.referenced port := by
          rw [← hcreated, hcreate]
        dsimp only at h ⊢
        split at h
        · cases h
        next hqueue =>
          exact (unchanged_undo conf.lock port _).unlock

/-- What can be queued keeps the rest. -/
theorem requestOp_failed {env : Env} {conf : Conf} {src sink : Nat} {op : Op} {error : Error}
    (h : (requestOp env conf src sink op).2 = .error error) : (requestOp env conf src sink op).1 = conf := by
  unfold requestOp at h ⊢
  dsimp only at h ⊢
  split at h
  next hports =>
    rw [if_pos hports]
    exact unlock_lock conf
  next hports =>
    rw [if_neg hports]
    split at h
    · cases h
    · exact unlock_lock conf

theorem confConnectPort_failed {env : Env} {conf : Conf} {src sink : Nat} {adjLevel : Int} {error : Error}
    (h : (confConnectPort env conf src sink adjLevel).2 = .error error) :
    (confConnectPort env conf src sink adjLevel).1 = conf := by
  unfold confConnectPort at h ⊢
  split_ifs at h ⊢
  · rfl
  · rfl
  · exact requestOp_failed h

theorem confDisconnectPort_failed {env : Env} {conf : Conf} {src sink : Nat} {error : Error}
    (h : (confDisconnectPort env conf src sink).2 = .error error) : (confDisconnectPort env conf src sink).1 = conf := by
  unfold confDisconnectPort at h ⊢
  split_ifs at h ⊢
  · rfl
  · exact requestOp_failed h

theorem confRemovePort_failed {env : Env} {conf : Conf} {port : Nat} {error : Error}
    (h : (confRemovePort env conf port).2 = .error error) : (confRemovePort env conf port).1 = conf := by
  unfold confRemovePort at h ⊢
  split_ifs at h ⊢
  · rfl
  · dsimp only at h ⊢
    cases hport : conf.lock.portAt port with
    | none =>
      rw [hport] at h
      exact unlock_lock conf
    | some confPort =>
      rw [hport] at h
      dsimp only at h ⊢
      split at h
      next hremoving =>
        rw [if_pos hremoving]
        exact unlock_lock conf
      next hremoving =>
        rw [if_neg hremoving]
        split at h
        · cases h
        next hfound =>
          rw [if_neg hfound]
          split at h
          · cases h
          · exact unlock_lock conf

theorem errorOf_ne_none {α : Type} {r : Except Error α} (h : errorOf r ≠ none) : ∃ error, r = .error error := by
  cases r with
  | error error => exact ⟨error, rfl⟩
  | ok a => exact absurd rfl h

/-- The port is refused before the mutex is taken, by a thread that holds it. -/
def GivesBack (conf : Conf) (request : Request) : Prop :=
  0 < conf.held ∧ ∃ port ccnt, request = .addPort (some (port, ccnt)) ∧ wrongChannels conf ccnt

theorem unchanged_addPort {env : Env} {conf : Conf} {port ccnt : Nat}
    (hgives : ¬ GivesBack conf (.addPort (some (port, ccnt))))
    (h : (run env conf (.addPort (some (port, ccnt)))).2 ≠ none) :
    Unchanged conf (run env conf (.addPort (some (port, ccnt)))).1 := by
  by_cases hchannels : wrongChannels conf ccnt
  · have hheld : conf.held = 0 := by
      by_contra hne
      exact hgives ⟨Nat.pos_of_ne_zero hne, port, ccnt, rfl, hchannels⟩
    rw [run, confAddPort_refused hchannels]
    refine ⟨rfl, ⟨rfl, rfl⟩, rfl, fun _ => rfl, ?_⟩
    rw [Conf.unlock, hheld]
  · obtain ⟨error, herror⟩ := errorOf_ne_none h
    exact confAddPort_failed hchannels herror

/-- A request that fails leaves the bridge as it was, unless it gives the mutex back. -/
theorem failed_unchanged_iff (env : Env) (conf : Conf) (request : Request) :
    ((run env conf request).2 ≠ none → Unchanged conf (run env conf request).1) ↔ ¬ GivesBack conf request := by
  constructor
  · rintro h ⟨hheld, port, ccnt, rfl, hchannels⟩
    rw [run, confAddPort_refused hchannels] at h
    have hsame := (h (Option.some_ne_none _)).held
    rw [Conf.unlock] at hsame
    dsimp only at hsame
    omega
  · intro hgives h
    cases request with
    | addPort strmPort =>
      cases strmPort with
      | none => exact .refl conf
      | some strm => exact unchanged_addPort hgives h
    | connectPort src sink adjLevel =>
      obtain ⟨error, herror⟩ := errorOf_ne_none h
      rw [run, confConnectPort_failed herror]
      exact .refl conf
    | disconnectPort src sink =>
      obtain ⟨error, herror⟩ := errorOf_ne_none h
      rw [run, confDisconnectPort_failed herror]
      exact .refl conf
    | removePort port =>
      obtain ⟨error, herror⟩ := errorOf_ne_none h
      rw [run, confRemovePort_failed herror]
      exact .refl conf

/-- A port with three channels, added to a bridge with two by a thread that holds the mutex, as a callback may. -/
theorem not_failed_unchanged : ¬ ∀ (env : Env) (conf : Conf) (request : Request),
    (run env conf request).2 ≠ none → Unchanged conf (run env conf request).1 := by
  intro h
  have hheld := (h ⟨true, none, true⟩ ⟨2, 0, 0, [none], [], 0, fun _ => none, 1⟩ (.addPort (some (0, 3)))
    (by decide)).held
  exact absurd hheld (by decide)

end PjProject.ConferenceRequests
