import PjProject.TimeVal
import PjProject.BinaryHeap
import PjProject.Runs

/-! The timer heap (`timer.c`), built with copies of the entries (`PJ_TIMER_USE_COPY`) and a binary
heap. `E` are the timer entries of the application, `G` group locks, `A` the addresses of callbacks
and user data, and `P` the calls of `pj_timer_heap_poll`. -/

namespace PjProject.TimerHeap

/-- `pj_timer_entry`. -/
structure Entry (A : Type) where
  timerId : Int
  id : Int
  userData : A
  cb : Option A

/-- `pj_timer_entry_dup`. -/
structure Dup (E G A : Type) where
  dup : Entry A
  entry : E
  timerValue : TimeVal
  grpLock : Option G

/-- `pj_timer_heap_t` and the entries it points to. A pointer into `timer_dups` is its index there. -/
structure Heap (E G A : Type) where
  maxSize : Nat
  curSize : Nat
  maxEntriesPerPoll : Nat
  heap : Nat → Int
  timerIds : Int → Int
  timerDups : Int → Dup E G A
  timerIdsFreelist : Int
  entries : E → Entry A

variable {E G A P : Type} [DecidableEq E] [DecidableEq A]

/-- `HEAP_PARENT`. -/
def heapParent (x : Nat) : Nat := if x = 0 then 0 else (x - 1) / 2

/-- `HEAP_LEFT`. -/
def heapLeft (x : Nat) : Nat := x + x + 1

/-- The `_timer_value` of the node in a slot. -/
def Heap.value (ht : Heap E G A) (slot : Nat) : TimeVal := (ht.timerDups (ht.heap slot)).timerValue

def Heap.setTimerId (ht : Heap E G A) (e : E) (id : Int) : Heap E G A :=
  { ht with entries := Function.update ht.entries e { ht.entries e with timerId := id } }

/-- `copy_node`. -/
def copyNode (ht : Heap E G A) (slot : Nat) (movedNode : Int) : Heap E G A :=
  { ht with
    heap := Function.update ht.heap slot movedNode
    timerIds := Function.update ht.timerIds (ht.timerDups movedNode).dup.timerId slot }

/-- `pop_freelist`; the new id is the old `timerIdsFreelist`. -/
def popFreelist (ht : Heap E G A) : Heap E G A :=
  { ht with timerIdsFreelist := -ht.timerIds ht.timerIdsFreelist }

/-- `push_freelist`. -/
def pushFreelist (ht : Heap E G A) (oldId : Int) : Heap E G A :=
  { ht with
    timerIds := Function.update ht.timerIds oldId (-ht.timerIdsFreelist)
    timerIdsFreelist := oldId }

def smallerChild (ht : Heap E G A) (child : Nat) : Nat :=
  if child + 1 < ht.curSize ∧ (ht.value (child + 1)).lt (ht.value child) then child + 1 else child

/-- `reheap_down`. The first argument bounds the turns of the loop: `child` grows with each. -/
def reheapDown : Nat → Heap E G A → Int → Nat → Nat → Heap E G A
  | 0, ht, movedNode, slot, _ => copyNode ht slot movedNode
  | turns + 1, ht, movedNode, slot, child =>
    if child < ht.curSize ∧
        (ht.value (smallerChild ht child)).lt (ht.timerDups movedNode).timerValue then
      reheapDown turns (copyNode ht slot (ht.heap (smallerChild ht child))) movedNode
        (smallerChild ht child) (heapLeft (smallerChild ht child))
    else copyNode ht slot movedNode

/-- `reheap_up`. The first argument bounds the turns of the loop: `slot` goes down with each. -/
def reheapUp : Nat → Heap E G A → Int → Nat → Nat → Heap E G A
  | 0, ht, movedNode, slot, _ => copyNode ht slot movedNode
  | turns + 1, ht, movedNode, slot, parent =>
    if 0 < slot ∧ (ht.timerDups movedNode).timerValue.lt (ht.value parent) then
      reheapUp turns (copyNode ht slot (ht.heap parent)) movedNode parent (heapParent parent)
    else copyNode ht slot movedNode

/-- The first half of `remove_node`: the id goes to the free list, the size goes down, and the entry is
no longer running unless it is not the one that was scheduled. -/
def detachNode (ht : Heap E G A) (node : Int) : Heap E G A :=
  let removed := ht.timerDups node
  let ht := pushFreelist ht removed.dup.timerId
  let ht := { ht with curSize := ht.curSize - 1 }
  let ht :=
    if removed.dup.timerId ≠ (ht.entries removed.entry).timerId then ht
    else ht.setTimerId removed.entry (-1)
  { ht with
    timerDups := Function.update ht.timerDups node
      { removed with dup := { removed.dup with timerId := -1 } } }

/-- The second half of `remove_node`: the last node is put into the slot and moved to its place. -/
def refillSlot (ht : Heap E G A) (slot : Nat) : Heap E G A :=
  if slot < ht.curSize then
    let movedNode := ht.heap ht.curSize
    let ht := copyNode ht slot movedNode
    if ((ht.timerDups movedNode).timerValue).gte (ht.value (heapParent slot)) then
      reheapDown ht.curSize ht movedNode slot (heapLeft slot)
    else reheapUp slot ht movedNode slot (heapParent slot)
  else ht

/-- `remove_node`; the removed node is `ht.heap slot`. -/
def removeNode (ht : Heap E G A) (slot : Nat) : Heap E G A :=
  refillSlot (detachNode ht (ht.heap slot)) slot

/-- Which allocations of `grow_heap` succeed. -/
structure Alloc where
  heap : Bool
  timerDups : Bool
  timerIds : Bool

inductive Status
  | success
  | enomem
  | einval
  | einvalidop
  | full
  deriving DecidableEq

/-- `grow_heap`. -/
def growHeap (ht : Heap E G A) (alloc : Alloc) : Heap E G A × Status :=
  if alloc.heap && alloc.timerDups then
    let grown := { ht with heap := fun i => if i < ht.curSize then ht.heap i else 0 }
    if alloc.timerIds then
      ({ grown with
          timerIds := fun i =>
            if (ht.maxSize : Int) ≤ i ∧ i < 2 * (ht.maxSize : Int) then -(i + 1) else ht.timerIds i
          maxSize := ht.maxSize * 2 }, .success)
    else (grown, .enomem)
  else (ht, .enomem)

/-- The second half of `insert_node`: the copy of the entry is put after the last node and moved to its
place. -/
def attachNode (ht : Heap E G A) (newNode : E) (futureTime : TimeVal) : Heap E G A :=
  let timerCopy := (ht.entries newNode).timerId
  let ht :=
    { ht with
      timerDups := Function.update ht.timerDups timerCopy
        { dup := ht.entries newNode, entry := newNode, timerValue := futureTime, grpLock := none } }
  let ht := reheapUp ht.curSize ht timerCopy ht.curSize (heapParent ht.curSize)
  { ht with curSize := ht.curSize + 1 }

/-- `insert_node`. -/
def insertNode (ht : Heap E G A) (newNode : E) (futureTime : TimeVal) (alloc : Alloc) :
    Heap E G A × Status :=
  let (ht, status) :=
    if ht.curSize + 2 ≥ ht.maxSize then growHeap ht alloc else (ht, .success)
  if status = .success then (attachNode ht newNode futureTime, .success) else (ht, status)

/-- `schedule_entry`. -/
def scheduleEntry (ht : Heap E G A) (entry : E) (futureTime : TimeVal) (alloc : Alloc) :
    Heap E G A × Status :=
  if ht.curSize < ht.maxSize then
    insertNode ((popFreelist ht).setTimerId entry ht.timerIdsFreelist) entry futureTime alloc
  else (ht, .full)

/-- `cancel`, which is always called with `F_DONT_CALL`. -/
def cancel (ht : Heap E G A) (entry : E) : Heap E G A × Nat :=
  let timerNodeSlot := ht.timerIds (ht.entries entry).timerId
  if timerNodeSlot < 0 then (ht.setTimerId entry (-1), 0)
  else if entry ≠ (ht.timerDups (ht.heap timerNodeSlot.toNat)).entry then (ht.setTimerId entry (-1), 0)
  else (removeNode ht timerNodeSlot.toNat, 1)

/-- `pj_timer_heap_create`. What `pj_pool_alloc` returns is not cleared. -/
def create (size : Nat) (timerDups : Int → Dup E G A) (entries : E → Entry A) : Heap E G A where
  maxSize := size + 2
  curSize := 0
  maxEntriesPerPoll := 64
  heap := fun _ => 0
  timerIds := fun i => if 0 ≤ i ∧ i < size + 2 then -(i + 1) else 0
  timerDups := timerDups
  timerIdsFreelist := 1
  entries := entries

/-- `pj_timer_entry_init`. -/
def entryInit (ht : Heap E G A) (entry : E) (id : Int) (userData : A) (cb : Option A) : Heap E G A :=
  { ht with entries := Function.update ht.entries entry { timerId := -1, id, userData, cb } }

/-- `pj_timer_entry_running`. -/
def entryRunning (ht : Heap E G A) (entry : E) : Bool := decide ((ht.entries entry).timerId ≥ 1)

/-- A call of `pj_timer_heap_poll`: it may have given the lock back to call the callback of an entry,
with the group lock to be released after it, and it returns a count and `next_delay`. -/
inductive Poll (E G : Type)
  | idle
  | unlocked (count : Nat) (entry : E) (valid : Bool) (grpLock : Option G) (wantsDelay : Bool)
  | returned (count : Nat) (nextDelay : Option TimeVal)

/-- The heap with its users; `refs` counts the references of the group locks. -/
structure State (E G A P : Type) where
  ht : Heap E G A
  refs : G → Int
  polls : P → Poll E G

def start (ht : Heap E G A) : State E G A P where
  ht := ht
  refs := fun _ => 0
  polls := fun _ => .idle

/-- `PJ_MAXINT32`, for the seconds and the milliseconds. -/
def maxDelay : TimeVal := { sec := 2147483647, msec := 2147483647 }

/-- `next_delay` of `pj_timer_heap_poll`. -/
def nextDelay (ht : Heap E G A) (now : TimeVal) : TimeVal :=
  if ht.curSize = 0 then maxDelay
  else
    let delay := (ht.value 0).sub now
    if delay.sec < 0 ∨ delay.msec < 0 then { sec := 0, msec := 0 } else delay

variable [DecidableEq G] [DecidableEq P]

def addRefs (refs : G → Int) (grpLock : Option G) (n : Int) : G → Int :=
  match grpLock with
  | some g => Function.update refs g (refs g + n)
  | none => refs

/-- `schedule_w_grp_lock`: `setId` is the `id_val` to be set, if any. -/
def scheduleWGrpLock (s : State E G A P) (entry : E) (delay now : TimeVal) (setId : Option Int)
    (grpLock : Option G) (alloc : Alloc) : State E G A P × Status :=
  if (s.ht.entries entry).cb = none then (s, .einval)
  else if entryRunning s.ht entry then (s, .einvalidop)
  else
    match scheduleEntry s.ht entry (now.add delay) alloc with
    | (ht, .success) =>
      let timerCopy := (ht.entries entry).timerId
      let id := setId.getD (ht.entries entry).id
      let dup := ht.timerDups timerCopy
      ({ s with
          ht :=
            { ht with
              timerDups := Function.update ht.timerDups timerCopy
                { dup with
                  dup := { dup.dup with id := setId.getD dup.dup.id }
                  grpLock := grpLock }
              entries := Function.update ht.entries entry { ht.entries entry with id := id } }
          refs := addRefs s.refs grpLock 1 }, .success)
    | (ht, status) => ({ s with ht := ht }, status)

/-- `cancel_timer`. -/
def cancelTimer (s : State E G A P) (entry : E) (setId : Option Int) : State E G A P × Nat :=
  let timerId := (s.ht.entries entry).timerId
  if timerId < 1 ∨ timerId ≥ s.ht.maxSize then (s, 0)
  else
    let grpLock := (s.ht.timerDups timerId).grpLock
    match cancel s.ht entry with
    | (ht, 0) => ({ s with ht := ht }, 0)
    | (ht, count) =>
      let id := setId.getD (ht.entries entry).id
      ({ s with
          ht := { ht with entries := Function.update ht.entries entry { ht.entries entry with id := id } }
          refs := addRefs s.refs grpLock (-1) }, count)

/-- One turn of the loop of `pj_timer_heap_poll` up to where it gives the lock back, or the end of the
call. The clock is `now` in the condition of the loop and `last` after the loop. -/
def pollTurn (s : State E G A P) (p : P) (count : Nat) (wantsDelay : Bool) (now last : TimeVal) :
    State E G A P :=
  if 0 < s.ht.curSize ∧ (s.ht.value 0).lte now ∧ count < s.ht.maxEntriesPerPoll then
    let node := s.ht.heap 0
    let ht := removeNode s.ht 0
    let removed := ht.timerDups node
    let entry := ht.entries removed.entry
    let valid := decide (removed.dup.cb = entry.cb ∧ removed.dup.userData = entry.userData)
    { s with
      ht := { ht with timerDups := Function.update ht.timerDups node { removed with grpLock := none } }
      polls := Function.update s.polls p
        (.unlocked (count + 1) removed.entry valid removed.grpLock wantsDelay) }
  else
    let delay := nextDelay s.ht (if 0 < count then last else now)
    { s with polls := Function.update s.polls p (.returned count (if wantsDelay then some delay else none)) }

inductive Action (E G A P : Type)
  | entryInit (entry : E) (id : Int) (userData : A) (cb : Option A)
  | setMaxTimedOutPerPoll (count : Nat)
  | schedule (entry : E) (delay now : TimeVal) (setId : Option Int) (grpLock : Option G) (alloc : Alloc)
  | cancel (entry : E) (setId : Option Int)
  | poll (p : P) (wantsDelay : Bool) (now last : TimeVal)
  | pollAgain (p : P) (now last : TimeVal)

/-- The critical sections of the threads, in any order. What a callback does is done by other steps
before its poll goes on. An entry is not initialised while it is running. -/
def step (s : State E G A P) : Action E G A P → Option (State E G A P)
  | .entryInit entry id userData cb =>
    if entryRunning s.ht entry then none
    else some { s with ht := entryInit s.ht entry id userData cb }
  | .setMaxTimedOutPerPoll count => some { s with ht := { s.ht with maxEntriesPerPoll := count } }
  | .schedule entry delay now setId grpLock alloc =>
    some (scheduleWGrpLock s entry delay now setId grpLock alloc).1
  | .cancel entry setId => some (cancelTimer s entry setId).1
  | .poll p wantsDelay now last =>
    match s.polls p with
    | .unlocked .. => none
    | _ => some (pollTurn s p 0 wantsDelay now last)
  | .pollAgain p now last =>
    match s.polls p with
    | .unlocked count _ valid grpLock wantsDelay =>
      let refs := if valid then addRefs s.refs grpLock (-1) else s.refs
      some (pollTurn { s with refs := refs } p count wantsDelay now last)
    | _ => none

end PjProject.TimerHeap
