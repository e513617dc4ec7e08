import Mathlib.Logic.Function.Basic
import PjProject.Runs

/-! The jitter buffer (`jbuf.c`): the ring of frames with its window, and the levels that decide when frames
are held back or discarded. Statistics that nothing reads are left out. -/

namespace PjProject.JitterBuffer

/-- The frame types of the slots; `discarded` is `PJMEDIA_JB_DISCARDED_FRAME`. -/
inductive FrameType
  | missing
  | normal
  | discarded
  deriving DecidableEq, Repr

/-- One position of the arrays; `content` has `content_len` bytes. -/
structure Slot where
  type : FrameType
  content : List UInt8
  bitInfo : Nat
  ts : Nat
  deriving DecidableEq, Repr

/-- What `pj_memset` of the type and `pj_bzero` of the length leave. -/
def Slot.clear (slot : Slot) : Slot := { slot with type := .missing, content := [] }

structure Frame where
  content : List UInt8
  bitInfo : Nat
  ts : Nat
  deriving DecidableEq, Repr

/-- `jb_framelist_t`; `failed` records that the condition of a `pj_assert` did not hold. -/
structure Framelist where
  frameSize : Nat
  maxCount : Nat
  slots : Nat → Slot
  head : Nat
  size : Nat
  discardedNum : Nat
  origin : Int
  failed : Bool

/-- The value of an `int` computation, and of one in `unsigned`. -/
def int32 (n : Int) : Int := n.bmod 0x100000000
def uint32 (n : Int) : Nat := (n % 0x100000000).toNat

/-- `INVALID_OFFSET`, `MAX_FRAME_INDEX`, `MAX_MISORDER` and `MAX_DROPOUT`. -/
def invalidOffset : Int := -9999
def maxFrameIndex : Nat := 0xFFFFFFFF / 9000
def maxMisorder : Int := 100
def maxDropout : Int := 3000

def framelistInit (frameSize maxCount : Nat) : Framelist :=
  ⟨frameSize, maxCount, fun _ => ⟨.missing, [], 0, 0⟩, 0, 0, 0, invalidOffset, false⟩

namespace Framelist

/-- `jb_framelist_reset`. -/
def reset (fl : Framelist) : Framelist :=
  { fl with head := 0, origin := invalidOffset, size := 0, discardedNum := 0, slots := fun p => (fl.slots p).clear }

/-- `jb_framelist_eff_size`. -/
def effSize (fl : Framelist) : Nat := uint32 (fl.size - fl.discardedNum)

/-- The loop that takes the discarded frames at these positions off `discarded_num`. -/
def countDown (slots : Nat → Slot) : List Nat → Nat → Bool → Nat × Bool
  | [], discardedNum, failed => (discardedNum, failed)
  | p :: more, discardedNum, failed =>
    if (slots p).type = .discarded then
      countDown slots more (uint32 (discardedNum - 1)) (failed || discardedNum == 0)
    else countDown slots more discardedNum failed

/-- The positions `jb_framelist_remove_head` clears, in two steps if they overlap the end. -/
def headPositions (fl : Framelist) (count : Nat) : List Nat :=
  if fl.maxCount < fl.head + count then
    List.range' fl.head (fl.maxCount - fl.head) ++ List.range' 0 (count - (fl.maxCount - fl.head))
  else List.range' fl.head count

/-- `jb_framelist_remove_head`; it returns the smaller one of `count` and the size. -/
def removeHead (fl : Framelist) (count : Nat) : Framelist :=
  let count := min count fl.size
  let positions := fl.headPositions count
  let (discardedNum, failed) := countDown fl.slots positions fl.discardedNum fl.failed
  { fl with
    slots := fun p => if p ∈ positions then (fl.slots p).clear else fl.slots p
    discardedNum := discardedNum
    failed := failed
    origin := int32 (fl.origin + count)
    head := (fl.head + count) % fl.maxCount
    size := fl.size - count }

/-- What `jb_framelist_get` hands out. -/
structure Got where
  type : FrameType
  content : List UInt8
  bitInfo : Nat
  ts : Nat
  seq : Int
  deriving DecidableEq, Repr

/-- The loop that skips discarded frames; `none` if it does not end. -/
def skipDiscarded : Nat → Framelist → Bool → Option (Framelist × Bool)
  | 0, _, _ => none
  | n + 1, fl, prevDiscarded =>
    if (fl.slots fl.head).type = .discarded then skipDiscarded n (fl.removeHead 1) true
    else some (fl, prevDiscarded)

def takeHead (fl : Framelist) : Framelist :=
  { fl with
    slots := Function.update fl.slots fl.head ⟨.missing, [], 0, 0⟩
    origin := int32 (fl.origin + 1)
    head := (fl.head + 1) % fl.maxCount
    size := fl.size - 1 }

/-- The outputs for the frame at the head: behind a discarded frame it counts as missing, and a buffer of
`maxSize` bytes takes no more than that. -/
def headGot (fl : Framelist) (prevDiscarded : Bool) (maxSize : Option Nat) : Got :=
  let slot := fl.slots fl.head
  if prevDiscarded then ⟨.missing, [], 0, slot.ts, fl.origin⟩
  else ⟨slot.type, slot.content.take (maxSize.getD slot.content.length), slot.bitInfo, slot.ts, fl.origin⟩

/-- `jb_framelist_get`. -/
def get (fl : Framelist) (maxSize : Option Nat) : Option (Framelist × Option Got) :=
  if fl.size = 0 then some (fl, none)
  else
    (skipDiscarded (fl.size + 1) fl false).map fun (fl, prevDiscarded) =>
      if fl.size = 0 then (fl, none) else (fl.takeHead, some (fl.headGot prevDiscarded maxSize))

/-- The loop of `jb_framelist_peek`; `none` if it does not end. -/
def peekLoop (fl : Framelist) : Nat → Nat → Nat → Option Nat
  | 0, _, _ => none
  | n + 1, pos, idx =>
    if (fl.slots pos).type ≠ .discarded then
      if idx = 0 then some pos else peekLoop fl n ((pos + 1) % fl.maxCount) (idx - 1)
    else peekLoop fl n ((pos + 1) % fl.maxCount) idx

/-- `jb_framelist_peek`. In one round over the ring the loop meets a frame to count, if there is one at all. -/
def peek (fl : Framelist) (offset : Nat) : Option (Option (Slot × Int)) :=
  if fl.effSize ≤ offset then some none
  else
    (fl.peekLoop ((offset + 1) * fl.maxCount) fl.head offset).map fun pos =>
      some (fl.slots pos, int32 (fl.origin + offset))

inductive Status
  | success
  | etoosmall
  | etoomany
  | eexists
  | einval
  deriving DecidableEq, Repr

/-- The far jump: the buffer starts anew at this frame. -/
def jumpTo (fl : Framelist) (index : Int) : Framelist := { fl.reset with origin := index }

/-- The first part of `jb_framelist_put_at`, for an index before the origin that is not merely late: a restart of
the sequence numbers the window, and anything else is a far jump. -/
def settle (fl : Framelist) (index : Int) : Framelist × Int :=
  let distance := int32 (index - fl.origin)
  if distance < 0 then
    if maxFrameIndex ≤ uint32 (fl.origin + fl.size) then
      ({ fl with origin := int32 (index - fl.size) }, fl.size)
    else (fl.jumpTo index, 0)
  else (fl, distance)

/-- An empty buffer takes the origin from the frame. -/
def anchor (fl : Framelist) (distance index : Int) : Framelist × Int :=
  if fl.size = 0 then ({ fl with origin := index, failed := fl.failed || fl.discardedNum != 0 }, 0)
  else (fl, distance)

/-- The last part: the frame goes into its slot. -/
def store (fl : Framelist) (distance index : Int) (frame : Frame) : Framelist × Status :=
  let pos := (fl.head + distance.toNat) % fl.maxCount
  if (fl.slots pos).type ≠ .missing then (fl, .eexists)
  else
    ({ fl with
        slots := Function.update fl.slots pos ⟨.normal, frame.content, frame.bitInfo, frame.ts⟩
        size := if int32 (fl.origin + fl.size) ≤ index then distance.toNat + 1 else fl.size }, .success)

/-- `jb_framelist_put_at` of a normal frame. -/
def putAt (fl : Framelist) (index : Int) (frame : Frame) : Framelist × Status :=
  if fl.frameSize < frame.content.length then (fl, .einval)
  else if int32 (index - fl.origin) < 0 ∧ int32 (fl.origin - index) < maxMisorder then (fl, .etoosmall)
  else
    let (fl, distance) := fl.settle index
    let (fl, distance) := fl.anchor distance index
    if fl.maxCount ≤ distance then
      if maxDropout < distance then (fl.jumpTo index).store 0 index frame else (fl, .etoomany)
    else fl.store distance index frame

/-- `jb_framelist_discard`; the assertion is that the index is in the window. -/
def discard (fl : Framelist) (index : Int) : Framelist :=
  if fl.origin ≤ index ∧ index < int32 (fl.origin + fl.size) then
    let pos := (fl.head + (index - fl.origin).toNat) % fl.maxCount
    { fl with
      slots := Function.update fl.slots pos { fl.slots pos with type := .discarded }
      discardedNum := uint32 (fl.discardedNum + 1) }
  else { fl with failed := true }

end Framelist

/-- `pjmedia_jb_discard_algo`. -/
inductive DiscardAlgo
  | none
  | static
  | progressive
  deriving DecidableEq, Repr

inductive Op
  | init
  | put
  | get
  deriving DecidableEq, Repr

/-- The settings of `pjmedia_jbuf`. -/
structure Settings where
  frameSize : Nat
  framePtime : Nat
  framePtimeDenum : Nat
  maxCount : Nat
  initPrefetch : Int
  minPrefetch : Int
  maxPrefetch : Int
  maxBurst : Int
  minShrinkGap : Nat
  discardAlgo : DiscardAlgo
  minDelay : Nat

/-- `pjmedia_jbuf`; `processing` is the status `JB_STATUS_PROCESSING`. -/
structure Jbuf where
  settings : Settings
  framelist : Framelist
  level : Int
  maxHistLevel : Int
  stableHist : Nat
  lastOp : Op
  effLevel : Int
  prefetch : Int
  prefetching : Bool
  processing : Bool
  initCycleCnt : Nat
  discardRef : Int
  discardDist : Nat

/-- `pjmedia_jbuf_reset`. -/
def reset (jb : Jbuf) : Jbuf :=
  { jb with
    level := 0
    lastOp := .init
    stableHist := 0
    processing := false
    initCycleCnt := 0
    maxHistLevel := 0
    prefetching := jb.prefetch ≠ 0
    discardDist := 0
    framelist := jb.framelist.reset }

/-- `PJMEDIA_JBUF_DISC_MIN_GAP`, `MAX_BURST_MSEC` and `PJMEDIA_JB_DEFAULT_INIT_DELAY`. -/
def discMinGap : Nat := 200
def maxBurstMsec : Nat := 1000
def defaultInitDelay : Nat := 15

/-- `pjmedia_jbuf_create` and `pjmedia_jbuf_set_discard`; a division by zero creates nothing. -/
def create (frameSize ptime maxCount : Nat) (algo : DiscardAlgo) : Option Jbuf :=
  if ptime = 0 then .none
  else
    let settings : Settings :=
      { frameSize := frameSize
        framePtime := ptime
        framePtimeDenum := 1
        maxCount := maxCount
        initPrefetch := 0
        minPrefetch := 0
        maxPrefetch := (maxCount * 4 / 5 : Nat)
        maxBurst := (max (maxBurstMsec / ptime) (maxCount * 3 / 4) : Nat)
        minShrinkGap := discMinGap / ptime
        discardAlgo := algo
        minDelay := 0 }
    some (reset
      { settings := settings
        framelist := framelistInit frameSize maxCount
        level := 0
        maxHistLevel := 0
        stableHist := 0
        lastOp := .init
        effLevel := 0
        prefetch := (min defaultInitDelay (maxCount * 4 / 5) : Nat)
        prefetching := false
        processing := false
        initCycleCnt := 0
        discardRef := 0
        discardDist := 0 })

def Jbuf.adaptPrefetch (jb : Jbuf) : Jbuf :=
  if jb.settings.initPrefetch ≠ 0 then
    { jb with prefetch := min (max jb.effLevel jb.settings.minPrefetch) jb.settings.maxPrefetch }
  else jb

/-- The same with the bounds in the other order, for a level that increases. -/
def Jbuf.raisePrefetch (jb : Jbuf) : Jbuf :=
  if jb.settings.initPrefetch ≠ 0 then
    { jb with prefetch := max (min jb.effLevel jb.settings.maxPrefetch) jb.settings.minPrefetch }
  else jb

def stableHistoryLimit : Nat := 20

/-- `jbuf_calculate_jitter`. -/
def calculateJitter (jb : Jbuf) : Jbuf :=
  let jb := { jb with maxHistLevel := max jb.maxHistLevel jb.level }
  if jb.level < jb.effLevel then
    let jb := { jb with stableHist := jb.stableHist + 1 }
    if stableHistoryLimit < jb.stableHist then
      let diff := max ((jb.effLevel - jb.maxHistLevel).tdiv 3) 1
      { Jbuf.adaptPrefetch { jb with effLevel := jb.effLevel - diff } with maxHistLevel := 0, stableHist := 0 }
    else jb
  else if jb.effLevel < jb.level then
    let jb := { jb with effLevel := min jb.maxHistLevel (jb.settings.maxCount * 4 / 5 : Nat) }
    { jb.raisePrefetch with stableHist := 0 }
  else { jb with stableHist := 0 }

/-- `STA_DISC_SAFE_SHRINKING_DIFF`. -/
def staDiscSafeShrinkingDiff : Int := 1

/-- `jbuf_discard_static`. -/
def discardStatic (jb : Jbuf) : Jbuf :=
  let burstLevel := max jb.effLevel jb.level
  let curSize := jb.framelist.effSize
  if curSize ≤ jb.settings.minDelay then jb
  else if staDiscSafeShrinkingDiff ≤ int32 (curSize - burstLevel * 2) then
    let seqOrigin := jb.framelist.origin
    let discardRef := if seqOrigin < jb.discardRef then seqOrigin else jb.discardRef
    if jb.settings.minShrinkGap ≤ int32 (seqOrigin - discardRef) then
      let framelist := jb.framelist.removeHead 1
      { jb with framelist := framelist, discardRef := framelist.origin }
    else { jb with discardRef := discardRef }
  else jb

/-- `PJMEDIA_JBUF_PRO_DISC_MIN_BURST`, `_MAX_BURST`, `_T1` and `_T2`. -/
def proDiscMinBurst : Nat := 1
def proDiscMaxBurst : Nat := 100
def proDiscT1 : Nat := 2000
def proDiscT2 : Nat := 10000

/-- The duration in which the latency is to be adjusted. -/
def discardDuration (burstLevel : Nat) : Nat :=
  if burstLevel ≤ proDiscMinBurst then proDiscT1
  else if proDiscMaxBurst ≤ burstLevel then proDiscT2
  else
    proDiscT1 + (proDiscT2 - proDiscT1) * (burstLevel - proDiscMinBurst) / (proDiscMaxBurst - proDiscMinBurst)

/-- The distance of the next discard for a latency of `curSize` frames. -/
def scheduleDist (settings : Settings) (curSize burstLevel : Nat) : Nat :=
  let overflow := curSize - max burstLevel settings.minDelay
  max settings.minShrinkGap
    (discardDuration burstLevel * settings.framePtimeDenum / overflow / settings.framePtime)

/-- The last part of `jbuf_discard_progressive`: the discard that is due. -/
def discardDue (jb : Jbuf) (lastSeq : Int) : Jbuf :=
  if int32 (jb.discardRef + jb.discardDist) ≤ lastSeq then
    let discardSeq := max (int32 (jb.discardRef + jb.discardDist)) jb.framelist.origin
    { jb with framelist := jb.framelist.discard discardSeq, discardRef := discardSeq }
  else jb

/-- `jbuf_discard_progressive`. -/
def discardProgressive (jb : Jbuf) : Jbuf :=
  if jb.lastOp ≠ .put then jb
  else
    let curSize := jb.framelist.effSize
    let burstLevel := uint32 (max jb.effLevel jb.level)
    if curSize ≤ burstLevel ∨ curSize ≤ jb.settings.minDelay then { jb with discardDist := 0 }
    else
      let lastSeq := int32 (jb.framelist.origin + jb.framelist.size - 1)
      let discardRef := if jb.discardDist = 0 ∨ lastSeq < jb.discardRef then lastSeq else jb.discardRef
      discardDue { jb with discardRef := discardRef, discardDist := scheduleDist jb.settings curSize burstLevel } lastSeq

def runDiscard (jb : Jbuf) : Jbuf :=
  if jb.processing then
    match jb.settings.discardAlgo with
    | .none => jb
    | .static => discardStatic jb
    | .progressive => discardProgressive jb
  else jb

/-- `INIT_CYCLE`. -/
def initCycle : Nat := 10

/-- The levels at the end of a burst: jitter is calculated when a burst of puts ends. -/
def endBurst (jb : Jbuf) (oper : Op) : Jbuf :=
  { (if oper = .get ∧ jb.level ≤ jb.settings.maxBurst then calculateJitter jb else jb) with level := 0 }

/-- `jbuf_update`. -/
def update (jb : Jbuf) (oper : Op) : Jbuf :=
  if jb.lastOp ≠ oper then
    let jb := { jb with lastOp := oper }
    if jb.processing then runDiscard (endBurst jb oper)
    else
      let jb := { jb with initCycleCnt := jb.initCycleCnt + 1 }
      if initCycle ≤ jb.initCycleCnt ∧ oper = .get then
        runDiscard (endBurst { jb with processing := true, level := min jb.level jb.settings.maxBurst } oper)
      else { jb with level := 0 }
  else runDiscard jb

/-- The loop of `pjmedia_jbuf_put_frame3` that makes room; `none` if it does not end. -/
def makeRoom (maxCount : Nat) : Nat → Framelist → Int → Frame → Option (Framelist × Framelist.Status)
  | 0, _, _, _ => none
  | n + 1, fl, seq, frame =>
    match fl.putAt seq frame with
    | (fl, .etoomany) =>
      let distance := int32 (int32 (seq - fl.origin) - maxCount + 1)
      let fl := { fl with failed := fl.failed || decide (distance ≤ 0) }
      makeRoom maxCount n (fl.removeHead (uint32 distance)) seq frame
    | done => some done

/-- What follows a frame that was stored; `curSize` is the size before. -/
def stored (jb : Jbuf) (curSize : Int) : Jbuf :=
  let newSize := int32 jb.framelist.effSize
  update
    { jb with
      prefetching := jb.prefetching && decide (newSize < jb.prefetch)
      level := jb.level + if curSize < newSize then newSize - curSize else 1 } .put

/-- `pjmedia_jbuf_put_frame3`, with the flag `discarded`. A frame that is too long is truncated. -/
def putFrame (jb : Jbuf) (seq : Int) (frame : Frame) : Option (Jbuf × Bool) :=
  let curSize := int32 jb.framelist.effSize
  let frame := { frame with content := frame.content.take jb.settings.frameSize }
  (makeRoom jb.settings.maxCount 3 jb.framelist seq frame).map fun (fl, status) =>
    if status = .success then (stored { jb with framelist := fl } curSize, false)
    else ({ jb with framelist := fl }, true)

/-- `pjmedia_jb_frame_type`. -/
inductive JbFrameType
  | missing
  | normal
  | zeroPrefetch
  | zeroEmpty
  deriving DecidableEq, Repr

/-- `pjmedia_jbuf_get_frame3` into a buffer of `size` bytes, if it is given. -/
def getFrame (jb : Jbuf) (size : Option Nat) : Option (Jbuf × JbFrameType × Option Framelist.Got) :=
  let next (jb : Jbuf) := update { jb with level := jb.level + 1 } .get
  if jb.prefetching then some (next jb, .zeroPrefetch, none)
  else if jb.framelist.effSize < jb.settings.minDelay then some (next jb, .missing, none)
  else
    (jb.framelist.get size).map fun (fl, got) =>
      match got with
      | some got =>
        (next { jb with framelist := fl }, if got.type = .normal then .normal else .missing, some got)
      | none =>
        (next { jb with framelist := fl, prefetching := jb.prefetching || decide (jb.prefetch ≠ 0) }, .zeroEmpty, none)

/-- The loop of `pjmedia_jbuf_remove_frame`. -/
def removeLoop : Nat → Framelist → Nat → Option Framelist
  | 0, _, _ => none
  | n + 1, fl, lastDiscardNum =>
    if fl.discardedNum < lastDiscardNum then
      removeLoop n (fl.removeHead (lastDiscardNum - fl.discardedNum)) fl.discardedNum
    else some fl

/-- `pjmedia_jbuf_remove_frame`. Each turn of the loop has fewer discarded frames. -/
def removeFrame (jb : Jbuf) (frameCnt : Nat) : Option Jbuf :=
  (removeLoop (jb.framelist.discardedNum + 2) (jb.framelist.removeHead frameCnt) jb.framelist.discardedNum).map
    fun fl => { jb with framelist := fl }

inductive Call
  | put (seq : Int) (frame : Frame)
  | get (size : Option Nat)
  | peek (offset : Nat)
  | remove (frameCnt : Nat)
  | reset

/-- One call; `none` if it does not return. -/
def step (jb : Jbuf) : Call → Option Jbuf
  | .put seq frame => (putFrame jb seq frame).map Prod.fst
  | .get size => (getFrame jb size).map Prod.fst
  | .peek offset => (jb.framelist.peek offset).map fun _ => jb
  | .remove frameCnt => removeFrame jb frameCnt
  | .reset => some (reset jb)

end PjProject.JitterBuffer
