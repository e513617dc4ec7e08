import PjProject.RecursiveLock
import PjProject.Runs
import Mathlib.Data.List.Sort

/-! The group lock (`lock.c`): a list of recursive locks that are taken and given back together, with
an owner, a reference counter, and the handlers to be called when the last reference goes. The system
is a sequence of its operations by any number of threads; an operation that blocks is taken when it
can complete. -/

namespace PjProject.GrpLock

/-- `pj_grp_lock_t` with the locks it knows of. An item of `lockList` is a priority with a lock,
`alive` says that the pool is still there, and `called` are the handlers that were called. -/
structure Group (L T H : Type) where
  locks : L → Mutex T
  lockList : List (Int × L)
  ownLock : L
  owner : Option T
  ownerCnt : Nat
  refCnt : Nat
  destroyList : List H
  alive : Bool
  called : List H

variable {L T H : Type}

def Group.items (g : Group L T H) : List L := g.lockList.map Prod.snd

/-- `pj_grp_lock_create` and `pj_grp_lock_create_w_handler`: the only item is the group's own lock. -/
def grpLockCreate (locks : L → Mutex T) (ownLock : L) (handlers : List H) : Group L T H where
  locks := locks
  lockList := [(0, ownLock)]
  ownLock := ownLock
  owner := none
  ownerCnt := 0
  refCnt := 0
  destroyList := handlers
  alive := true
  called := []

/-- `grp_lock_set_owner_thread`. -/
def grpLockSetOwnerThread (g : Group L T H) (t : T) : Group L T H :=
  match g.owner with
  | none => { g with owner := some t, ownerCnt := 1 }
  | some _ => { g with ownerCnt := g.ownerCnt + 1 }

/-- `grp_lock_unset_owner_thread`. -/
def grpLockUnsetOwnerThread (g : Group L T H) : Group L T H :=
  if g.ownerCnt - 1 = 0 then { g with owner := none, ownerCnt := 0 }
  else { g with ownerCnt := g.ownerCnt - 1 }

/-- `grp_lock_add_ref`. -/
def grpLockAddRef (g : Group L T H) : Group L T H := { g with refCnt := g.refCnt + 1 }

variable [DecidableEq L] [DecidableEq T]

/-- `grp_lock_destroy` by thread `t`: chained locks are given back for an owner that is still in, then
the handlers are called. -/
def grpLockDestroy (g : Group L T H) (t : T) : Group L T H :=
  if g.alive then
    { g with
      locks := unlockAll t g.locks
        ((g.items.filter (· ≠ g.ownLock)).flatMap fun l => List.replicate g.ownerCnt l)
      called := g.called ++ g.destroyList
      alive := false }
  else g

/-- `grp_lock_dec_ref`. -/
def grpLockDecRef (g : Group L T H) (t : T) : Group L T H :=
  let g := { g with refCnt := g.refCnt - 1 }
  if g.refCnt = 0 then grpLockDestroy g t else g

/-- `grp_lock_acquire`; `none` while another thread holds one of the locks. -/
def grpLockAcquire (g : Group L T H) (t : T) : Option (Group L T H) :=
  (lockAll t g.locks g.items).map fun locks =>
    grpLockAddRef (grpLockSetOwnerThread { g with locks := locks } t)

/-- `grp_lock_tryacquire`. -/
def grpLockTryacquire (g : Group L T H) (t : T) : Group L T H × Bool :=
  match tryLockAll t g.locks [] g.items with
  | (locks, true) => (grpLockAddRef (grpLockSetOwnerThread { g with locks := locks } t), true)
  | (locks, false) => ({ g with locks := locks }, false)

/-- `grp_lock_release`. -/
def grpLockRelease (g : Group L T H) (t : T) : Group L T H :=
  let g := grpLockUnsetOwnerThread g
  grpLockDecRef { g with locks := unlockAll t g.locks g.items.reverse } t

/-- `pj_grp_lock_chain_lock`. The item goes before the first one of a priority not below `pos`. -/
def grpLockChainLock (g : Group L T H) (t : T) (lock : L) (pos : Int) : Option (Group L T H) :=
  (grpLockAcquire g t).bind fun g =>
    (lockAll t g.locks (List.replicate g.ownerCnt lock)).map fun locks =>
      grpLockRelease
        { g with
          locks := locks
          lockList := g.lockList.orderedInsert (fun a b => a.1 ≤ b.1) (pos, lock) } t

/-- `pj_grp_lock_unchain_lock`. -/
def grpLockUnchainLock (g : Group L T H) (t : T) (lock : L) : Option (Group L T H) :=
  (grpLockAcquire g t).map fun g =>
    match g.lockList.find? fun item => item.2 = lock with
    | none => grpLockRelease g t
    | some item =>
      grpLockRelease
        { g with
          lockList := g.lockList.erase item
          locks := unlockAll t g.locks (List.replicate g.ownerCnt lock) } t

/-- `pj_grp_lock_add_handler`. -/
def grpLockAddHandler (g : Group L T H) (t : T) (handler : H) : Option (Group L T H) :=
  (grpLockAcquire g t).map fun g =>
    grpLockRelease { g with destroyList := g.destroyList ++ [handler] } t

/-- `pj_grp_lock_del_handler`. -/
def grpLockDelHandler [DecidableEq H] (g : Group L T H) (t : T) (handler : H) : Option (Group L T H) :=
  (grpLockAcquire g t).map fun g => grpLockRelease { g with destroyList := g.destroyList.erase handler } t

/-- The group and its users: how often each thread has taken a lock itself, and how many references
the application has that it did not give back. -/
structure State (L T H : Type) where
  group : Group L T H
  direct : T → L → Nat
  refs : Nat

/-- The group just created, with the reference of its creator. -/
def start (ownLock : L) (handlers : List H) : State L T H where
  group := grpLockAddRef (grpLockCreate (fun _ => .free) ownLock handlers)
  direct := fun _ _ => 0
  refs := 1

inductive Action (L T H : Type)
  | acquire (t : T)
  | tryacquire (t : T)
  | release (t : T)
  | chainLock (t : T) (lock : L) (pos : Int)
  | unchainLock (t : T) (lock : L)
  | addHandler (t : T) (handler : H)
  | delHandler (t : T) (handler : H)
  | addRef (t : T)
  | decRef (t : T)
  | lock (t : T) (l : L)
  | unlock (t : T) (l : L)

/-- A well-formed thread uses the group while there is a reference for it or while it owns it. -/
def State.usable (s : State L T H) (t : T) : Bool :=
  decide (0 < s.refs) || decide (s.group.owner = some t)

/-- The steps of well-formed threads: references and locks are given back by who has them, a lock is
chained once, and the group's own lock stays in the group. -/
def step [DecidableEq H] (s : State L T H) : Action L T H → Option (State L T H)
  | .acquire t =>
    if s.usable t then (grpLockAcquire s.group t).map fun g => { s with group := g } else none
  | .tryacquire t =>
    if s.usable t then some { s with group := (grpLockTryacquire s.group t).1 } else none
  | .release t =>
    if s.group.owner = some t then some { s with group := grpLockRelease s.group t } else none
  | .chainLock t lock pos =>
    if s.usable t ∧ lock ∉ s.group.items then
      (grpLockChainLock s.group t lock pos).map fun g => { s with group := g }
    else none
  | .unchainLock t lock =>
    if s.usable t ∧ lock ≠ s.group.ownLock then
      (grpLockUnchainLock s.group t lock).map fun g => { s with group := g }
    else none
  | .addHandler t handler =>
    if s.usable t then (grpLockAddHandler s.group t handler).map fun g => { s with group := g } else none
  | .delHandler t handler =>
    if s.usable t then (grpLockDelHandler s.group t handler).map fun g => { s with group := g } else none
  | .addRef t =>
    if s.usable t then some { s with group := grpLockAddRef s.group, refs := s.refs + 1 } else none
  | .decRef t =>
    if 0 < s.refs then some { s with group := grpLockDecRef s.group t, refs := s.refs - 1 } else none
  | .lock t l =>
    ((s.group.locks l).lock t).map fun m =>
      { s with
        group := { s.group with locks := Function.update s.group.locks l m }
        direct := Function.update s.direct t (Function.update (s.direct t) l (s.direct t l + 1)) }
  | .unlock t l =>
    if 0 < s.direct t l then
      some
        { s with
          group := { s.group with locks := Function.update s.group.locks l ((s.group.locks l).unlock t) }
          direct := Function.update s.direct t (Function.update (s.direct t) l (s.direct t l - 1)) }
    else none

end PjProject.GrpLock
