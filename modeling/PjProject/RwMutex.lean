import PjProject.Runs
import Mathlib.Data.Finset.Card
import Mathlib.Data.Finset.Insert

/-! The reader/writer mutex emulated with a mutex and a semaphore (`os_rwmutex.c`), for any number
of threads and every interleaving. A thread is at one of the points between two accesses to shared
state: each call of a primitive, each test and each update of `reader_count` is a step of its own,
so the steps of different threads may come in any order. -/

namespace PjProject.RwMutex

set_option linter.unusedSectionVars false

/-- Where a thread is. The points of `lock_read` are `lockRead` (before `pj_mutex_lock`),
`lockInc`, `lockTest`, `lockWait` (before `pj_sem_wait`) and `lockDone` (before `pj_mutex_unlock`);
those of `unlock_read` are `unlockRead`, `unlockDec`, `unlockTest`, `unlockPost`, `unlockDone`. -/
inductive Pc
  | outside
  | lockRead | lockInc | lockTest | lockWait | lockDone
  | reading
  | unlockRead | unlockDec | unlockTest | unlockPost | unlockDone
  | lockWrite
  | writing
  | unlockWrite | postWrite
  deriving DecidableEq

/-- `pj_rwmutex_t` and the place of every thread. `readLock` is the holder of the simple mutex,
`writeLock` the count of the semaphore. -/
structure State (T : Type) where
  readLock : Option T
  writeLock : Nat
  readerCount : Int
  pc : T → Pc

/-- `pj_rwmutex_create`: the semaphore is created with initial count 1. -/
def create (T : Type) : State T where
  readLock := none
  writeLock := 1
  readerCount := 0
  pc := fun _ => .outside

/-- A thread outside calls one of the two lock functions; one that has the lock calls the matching
unlock function; any other thread goes on to its next access. -/
inductive Action (T : Type)
  | callLockRead (t : T)
  | callLockWrite (t : T)
  | callUnlock (t : T)
  | go (t : T)

variable {T : Type} [DecidableEq T]

def State.goto (s : State T) (t : T) (p : Pc) : State T := { s with pc := Function.update s.pc t p }

/-- One access of a thread inside one of the four functions. A `pj_mutex_lock` on a held mutex and a
`pj_sem_wait` at count 0 block. -/
def advance (s : State T) (t : T) : Option (State T) :=
  match s.pc t with
  | .outside | .reading | .writing => none
  | .lockRead => if s.readLock = none then some ({ s with readLock := some t }.goto t .lockInc) else none
  | .lockInc => some ({ s with readerCount := s.readerCount + 1 }.goto t .lockTest)
  | .lockTest => some (s.goto t (if s.readerCount = 1 then .lockWait else .lockDone))
  | .lockWait => if 0 < s.writeLock then
      some ({ s with writeLock := s.writeLock - 1 }.goto t .lockDone) else none
  | .lockDone => some ({ s with readLock := none }.goto t .reading)
  | .unlockRead => if s.readLock = none then some ({ s with readLock := some t }.goto t .unlockDec) else none
  | .unlockDec => some ({ s with readerCount := s.readerCount - 1 }.goto t .unlockTest)
  | .unlockTest => some (s.goto t (if s.readerCount = 0 then .unlockPost else .unlockDone))
  | .unlockPost => some ({ s with writeLock := s.writeLock + 1 }.goto t .unlockDone)
  | .unlockDone => some ({ s with readLock := none }.goto t .outside)
  | .lockWrite => if 0 < s.writeLock then
      some ({ s with writeLock := s.writeLock - 1 }.goto t .writing) else none
  | .unlockWrite => some (s.goto t .postWrite)
  | .postWrite => some ({ s with writeLock := s.writeLock + 1 }.goto t .outside)

def step (s : State T) : Action T → Option (State T)
  | .callLockRead t => if s.pc t = .outside then some (s.goto t .lockRead) else none
  | .callLockWrite t => if s.pc t = .outside then some (s.goto t .lockWrite) else none
  | .callUnlock t => match s.pc t with
    | .reading => some (s.goto t .unlockRead)
    | .writing => some (s.goto t .unlockWrite)
    | _ => none
  | .go t => advance s t

/-- The points at which a thread holds `read_lock`. -/
def Pc.holdsMutex : Pc → Bool
  | .lockInc | .lockTest | .lockWait | .lockDone => true
  | .unlockDec | .unlockTest | .unlockPost | .unlockDone => true
  | _ => false

/-- The points at which a thread is counted in `reader_count`. -/
def Pc.counted : Pc → Bool
  | .lockTest | .lockWait | .lockDone | .reading | .unlockRead | .unlockDec => true
  | _ => false

/-- The points at which the readers together hold the semaphore: from the `pj_sem_wait` of the first
reader to the `pj_sem_post` of the last. -/
def Pc.sharesSem : Pc → Bool
  | .lockDone | .reading | .unlockRead | .unlockDec | .unlockTest | .unlockPost => true
  | _ => false

/-- The points at which a writer holds the semaphore. -/
def Pc.ownsSem : Pc → Bool
  | .writing | .unlockWrite | .postWrite => true
  | _ => false

/-- A thread is outside when it has none of the two primitives and is not counted: it is in no call,
or it still waits for the first primitive of a lock call. -/
def Pc.isOutside : Pc → Bool
  | .outside | .lockRead | .lockWrite => true
  | _ => false

/-- Who has the semaphore. -/
inductive Holder (T : Type)
  | free
  | writer (t : T)
  | readers

/-- What every interleaving keeps: the mutex has the holder its users say, `reader_count` counts the
counted threads, and the one unit of the semaphore is free, with one writer or with the readers. -/
structure Inv (s : State T) (holder : Holder T) (readers : Finset T) : Prop where
  mutex : ∀ t, (s.pc t).holdsMutex = true ↔ s.readLock = some t
  mem : ∀ t, t ∈ readers ↔ (s.pc t).counted = true
  count : s.readerCount = readers.card
  wait : ∀ t, s.pc t = .lockWait → s.readerCount = 1
  post : ∀ t, s.pc t = .unlockPost → s.readerCount = 0
  sem : s.writeLock = match holder with | .free => 1 | _ => 0
  writer : ∀ t, (s.pc t).ownsSem = true ↔ holder = .writer t
  shares : ∀ t, (s.pc t).sharesSem = true → holder = .readers
  shared : holder = .readers → ∃ t, (s.pc t).sharesSem = true

theorem inv_create : Inv (create T) .free ∅ := by
  constructor <;> simp [create, Pc.holdsMutex, Pc.counted, Pc.ownsSem, Pc.sharesSem]

theorem goto_pc (s : State T) (t u : T) (p : Pc) : (s.goto t p).pc u = if u = t then p else s.pc u := by
  simp [State.goto, Function.update_apply]

@[simp] theorem goto_readLock (s : State T) (t : T) (p : Pc) : (s.goto t p).readLock = s.readLock := rfl

@[simp] theorem goto_readerCount (s : State T) (t : T) (p : Pc) :
    (s.goto t p).readerCount = s.readerCount := rfl

variable {s : State T} {holder : Holder T} {readers : Finset T} {t : T}

/-- A step that leaves the semaphore alone. `reader_count` changes only in the hands of the thread
that holds the mutex, so no other thread is at a point whose fact depends on it. -/
theorem Inv.move (h : Inv s holder readers) {lock : Option T} {n : Int} {q : Pc} {readers' : Finset T}
    (hlock : ∀ u, (if u = t then q else s.pc u).holdsMutex = true ↔ lock = some u)
    (hmem : ∀ u, u ∈ readers' ↔ (if u = t then q else s.pc u).counted = true)
    (hcount : n = readers'.card)
    (hothers : n = s.readerCount ∨ (s.pc t).holdsMutex = true)
    (hwait : q = .lockWait → n = 1) (hpost : q = .unlockPost → n = 0)
    (hshare : q.sharesSem = (s.pc t).sharesSem) (hown : q.ownsSem = (s.pc t).ownsSem) :
    Inv ({ s with readLock := lock, readerCount := n }.goto t q) holder readers' where
  mutex u := by rw [goto_pc, goto_readLock]; exact hlock u
  mem u := by rw [goto_pc]; exact hmem u
  count := hcount
  wait u hu := by
    rw [goto_pc] at hu
    split at hu
    · exact hwait hu
    · have := h.wait u hu
      grind [h.mutex t, h.mutex u, Pc.holdsMutex, goto_readerCount]
  post u hu := by
    rw [goto_pc] at hu
    split at hu
    · exact hpost hu
    · have := h.post u hu
      grind [h.mutex t, h.mutex u, Pc.holdsMutex, goto_readerCount]
  sem := h.sem
  writer u := by
    have := h.writer u
    grind [goto_pc]
  shares u hu := by
    rw [goto_pc] at hu
    exact h.shares (if u = t then t else u) (by grind)
  shared hr := by
    obtain ⟨u, hu⟩ := h.shared hr
    exact ⟨u, by grind [goto_pc]⟩

theorem Inv.relabel (h : Inv s holder readers) {q : Pc}
    (hmutex : q.holdsMutex = (s.pc t).holdsMutex) (hcount : q.counted = (s.pc t).counted)
    (hshare : q.sharesSem = (s.pc t).sharesSem) (hown : q.ownsSem = (s.pc t).ownsSem)
    (hwait : q = .lockWait → s.readerCount = 1) (hpost : q = .unlockPost → s.readerCount = 0) :
    Inv (s.goto t q) holder readers :=
  h.move (fun u => by grind [h.mutex u]) (fun u => by grind [h.mem u]) h.count (.inl rfl)
    hwait hpost hshare hown

theorem Inv.lockMutex (h : Inv s holder readers) (hfree : s.readLock = none) {q : Pc}
    (hp : (s.pc t = .lockRead ∧ q = .lockInc) ∨ (s.pc t = .unlockRead ∧ q = .unlockDec)) :
    Inv ({ s with readLock := some t }.goto t q) holder readers := by
  refine h.move (fun u => ?_) (fun u => ?_) h.count (.inl rfl) ?_ ?_ ?_ ?_
  · grind [h.mutex u, Pc.holdsMutex]
  · grind [h.mem u, Pc.counted]
  all_goals grind [Pc.sharesSem, Pc.ownsSem]

theorem Inv.unlockMutex (h : Inv s holder readers) {q : Pc}
    (hp : (s.pc t = .lockDone ∧ q = .reading) ∨ (s.pc t = .unlockDone ∧ q = .outside)) :
    Inv ({ s with readLock := none }.goto t q) holder readers := by
  refine h.move (fun u => ?_) (fun u => ?_) h.count (.inl rfl) ?_ ?_ ?_ ?_
  · grind [h.mutex u, h.mutex t, Pc.holdsMutex]
  · grind [h.mem u, Pc.counted]
  all_goals grind [Pc.sharesSem, Pc.ownsSem]

theorem Inv.enter (h : Inv s holder readers) (hp : s.pc t = .lockInc) :
    Inv ({ s with readerCount := s.readerCount + 1 }.goto t .lockTest) holder (insert t readers) := by
  have hnot : t ∉ readers := by rw [h.mem, hp]; decide
  refine h.move (fun u => ?_) (fun u => ?_) ?_ (.inr (by rw [hp]; rfl)) nofun nofun ?_ ?_
  · grind [h.mutex u, Pc.holdsMutex]
  · grind [h.mem u, Pc.counted]
  · rw [Finset.card_insert_of_notMem hnot, h.count]
    rfl
  all_goals rw [hp]; rfl

theorem Inv.leave (h : Inv s holder readers) (hp : s.pc t = .unlockDec) :
    Inv ({ s with readerCount := s.readerCount - 1 }.goto t .unlockTest) holder (readers.erase t) := by
  have hmem : t ∈ readers := by rw [h.mem, hp]; decide
  refine h.move (fun u => ?_) (fun u => ?_) ?_ (.inr (by rw [hp]; rfl)) nofun nofun ?_ ?_
  · grind [h.mutex u, Pc.holdsMutex]
  · grind [h.mem u, Pc.counted]
  · have := Finset.card_erase_add_one hmem
    rw [h.count]
    omega
  all_goals rw [hp]; rfl

theorem Pc.sharesSem_of_counted {p : Pc} (hc : p.counted = true) (hm : p.holdsMutex = false) :
    p.sharesSem = true := by
  cases p <;> first | rfl | exact absurd hc (by decide) | exact absurd hm (by decide)

theorem Inv.not_holdsMutex (h : Inv s holder readers) {u : T} (ht : (s.pc t).holdsMutex = true)
    (hut : u ≠ t) : (s.pc u).holdsMutex = false := by
  rw [← Bool.not_eq_true, h.mutex u, (h.mutex t).mp ht]
  exact fun heq => hut (Option.some.inj heq).symm

/-- A reader counted beside another one finds the semaphore already with the readers. -/
theorem Inv.shared_of_count (h : Inv s holder readers) (hp : s.pc t = .lockTest)
    (hn : s.readerCount ≠ 1) : holder = .readers := by
  have hmem : t ∈ readers := by rw [h.mem, hp]; decide
  have hcard : 1 < readers.card := by
    have := Finset.card_pos.mpr ⟨t, hmem⟩
    have := h.count
    omega
  obtain ⟨u, hu, hut⟩ := Finset.exists_mem_ne hcard t
  refine h.shares u ?_
  exact Pc.sharesSem_of_counted ((h.mem u).mp hu) (h.not_holdsMutex (by rw [hp]; rfl) hut)

/-- While a reader that is not the last leaves, another reader keeps the semaphore. -/
theorem Inv.shares_of_count (h : Inv s holder readers) (hp : s.pc t = .unlockTest)
    (hn : s.readerCount ≠ 0) : ∃ u, u ≠ t ∧ (s.pc u).sharesSem = true := by
  have hcard : 0 < readers.card := by
    have := h.count
    omega
  obtain ⟨u, hu⟩ := Finset.card_pos.mp hcard
  have hcu := (h.mem u).mp hu
  have hut : u ≠ t := by
    rintro rfl
    rw [hp] at hcu
    exact absurd hcu (by decide)
  exact ⟨u, hut, Pc.sharesSem_of_counted hcu (h.not_holdsMutex (by rw [hp]; rfl) hut)⟩

/-- A step that leaves the mutex and `reader_count` alone and passes the unit of the semaphore from
`holder` to `holder'`. -/
theorem Inv.pass (h : Inv s holder readers) {n : Nat} {q : Pc} {holder' : Holder T}
    (hmutex : q.holdsMutex = (s.pc t).holdsMutex) (hcount : q.counted = (s.pc t).counted)
    (hwait : q = .lockWait → s.readerCount = 1) (hpost : q = .unlockPost → s.readerCount = 0)
    (hsem : n = match holder' with | .free => 1 | _ => 0)
    (howner : ∀ u, (if u = t then q else s.pc u).ownsSem = true ↔ holder' = .writer u)
    (hshares : ∀ u, (if u = t then q else s.pc u).sharesSem = true → holder' = .readers)
    (hshared : holder' = .readers → ∃ u, (if u = t then q else s.pc u).sharesSem = true) :
    Inv ({ s with writeLock := n }.goto t q) holder' readers where
  mutex u := by
    have := h.mutex u
    grind [goto_pc, goto_readLock]
  mem u := by
    have := h.mem u
    grind [goto_pc]
  count := h.count
  wait u hu := by
    rw [goto_pc] at hu
    split at hu
    · exact hwait hu
    · exact h.wait u hu
  post u hu := by
    rw [goto_pc] at hu
    split at hu
    · exact hpost hu
    · exact h.post u hu
  sem := hsem
  writer u := by rw [goto_pc]; exact howner u
  shares u hu := hshares u (by rwa [goto_pc] at hu)
  shared hr := by simpa only [goto_pc] using hshared hr

theorem Inv.free_of_sem (h : Inv s holder readers) (hsem : 0 < s.writeLock) : holder = .free := by
  have := h.sem
  cases holder <;> simp_all

theorem Inv.takeShared (h : Inv s holder readers) (hp : s.pc t = .lockWait) (hsem : 0 < s.writeLock) :
    Inv ({ s with writeLock := s.writeLock - 1 }.goto t .lockDone) .readers readers := by
  obtain rfl := h.free_of_sem hsem
  have hone : s.writeLock = 1 := h.sem
  refine h.pass (by rw [hp]; rfl) (by rw [hp]; rfl) nofun nofun (by rw [hone]) (fun u => ?_)
    (fun _ _ => rfl) (fun _ => ⟨t, by simp [Pc.sharesSem]⟩)
  grind [h.writer u, Pc.ownsSem]

theorem Inv.takeWrite (h : Inv s holder readers) (hp : s.pc t = .lockWrite) (hsem : 0 < s.writeLock) :
    Inv ({ s with writeLock := s.writeLock - 1 }.goto t .writing) (.writer t) readers := by
  obtain rfl := h.free_of_sem hsem
  have hone : s.writeLock = 1 := h.sem
  refine h.pass (by rw [hp]; rfl) (by rw [hp]; rfl) nofun nofun (by rw [hone]) (fun u => ?_)
    (fun u hu => ?_) nofun
  · grind [h.writer u, Pc.ownsSem]
  · grind [h.shares u, Pc.sharesSem]

theorem Inv.postWrite (h : Inv s holder readers) (hp : s.pc t = .postWrite) :
    Inv ({ s with writeLock := s.writeLock + 1 }.goto t .outside) .free readers := by
  obtain rfl := (h.writer t).mp (by rw [hp]; rfl)
  have hzero : s.writeLock = 0 := h.sem
  refine h.pass (by rw [hp]; rfl) (by rw [hp]; rfl) nofun nofun (by rw [hzero]) (fun u => ?_)
    (fun u hu => ?_) nofun
  · grind [h.writer u, Pc.ownsSem]
  · grind [h.shares u, Pc.sharesSem]

/-- The last reader posts: nobody is counted, and no other thread is inside `unlock_read` with the
mutex, so nobody else shares the semaphore. -/
theorem Inv.postShared (h : Inv s holder readers) (hp : s.pc t = .unlockPost) :
    Inv ({ s with writeLock := s.writeLock + 1 }.goto t .unlockDone) .free readers := by
  obtain rfl := h.shares t (by rw [hp]; rfl)
  have hzero : s.writeLock = 0 := h.sem
  have hempty : readers = ∅ := by
    have := h.post t hp
    rw [h.count] at this
    exact Finset.card_eq_zero.mp (by omega)
  have hnone : ∀ u, u ≠ t → (s.pc u).sharesSem = false := by
    intro u hut
    have hc := h.mem u
    have hm := h.not_holdsMutex (u := u) (by rw [hp]; rfl) hut
    rw [hempty] at hc
    revert hc hm
    cases s.pc u <;> simp [Pc.counted, Pc.holdsMutex, Pc.sharesSem]
  refine h.pass (by rw [hp]; rfl) (by rw [hp]; rfl) nofun nofun (by rw [hzero]) (fun u => ?_)
    (fun u hu => ?_) nofun
  · grind [h.writer u, Pc.ownsSem]
  · grind [hnone u, Pc.sharesSem]

/-- The first reader goes on to `pj_sem_wait`, a later one is in. -/
theorem Inv.testEnter (h : Inv s holder readers) (hp : s.pc t = .lockTest) :
    Inv (s.goto t (if s.readerCount = 1 then .lockWait else .lockDone)) holder readers := by
  split
  case isTrue hone =>
    exact h.relabel (by rw [hp]; rfl) (by rw [hp]; rfl) (by rw [hp]; rfl) (by rw [hp]; rfl)
      (fun _ => hone) nofun
  case isFalse hmany =>
    have hr := h.shared_of_count hp hmany
    refine h.pass (by rw [hp]; rfl) (by rw [hp]; rfl) nofun nofun h.sem (fun u => ?_)
      (fun _ _ => hr) (fun _ => ⟨t, by simp [Pc.sharesSem]⟩)
    grind [h.writer u, Pc.ownsSem]

theorem Inv.testLeave (h : Inv s holder readers) (hp : s.pc t = .unlockTest) :
    Inv (s.goto t (if s.readerCount = 0 then .unlockPost else .unlockDone)) holder readers := by
  split
  case isTrue hzero =>
    exact h.relabel (by rw [hp]; rfl) (by rw [hp]; rfl) (by rw [hp]; rfl) (by rw [hp]; rfl) nofun
      (fun _ => hzero)
  case isFalse hmany =>
    obtain ⟨v, hvt, hv⟩ := h.shares_of_count hp hmany
    refine h.pass (by rw [hp]; rfl) (by rw [hp]; rfl) nofun nofun h.sem (fun u => ?_)
      (fun u hu => ?_) (fun _ => ⟨v, by simpa [hvt] using hv⟩)
    · grind [h.writer u, Pc.ownsSem]
    · grind [h.shares u, Pc.sharesSem]

theorem Inv.advance (h : Inv s holder readers) {s' : State T} (hs : advance s t = some s') :
    ∃ holder' readers', Inv s' holder' readers' := by
  unfold RwMutex.advance at hs
  cases hp : s.pc t with
  | outside => simp [hp] at hs
  | reading => simp [hp] at hs
  | writing => simp [hp] at hs
  | lockRead =>
    simp only [hp, Option.ite_none_right_eq_some, Option.some.injEq] at hs
    exact hs.2 ▸ ⟨_, _, h.lockMutex hs.1 (.inl ⟨hp, rfl⟩)⟩
  | lockInc =>
    simp only [hp, Option.some.injEq] at hs
    exact hs ▸ ⟨_, _, h.enter hp⟩
  | lockTest =>
    simp only [hp, Option.some.injEq] at hs
    exact hs ▸ ⟨_, _, h.testEnter hp⟩
  | lockWait =>
    simp only [hp, Option.ite_none_right_eq_some, Option.some.injEq] at hs
    exact hs.2 ▸ ⟨_, _, h.takeShared hp hs.1⟩
  | lockDone =>
    simp only [hp, Option.some.injEq] at hs
    exact hs ▸ ⟨_, _, h.unlockMutex (.inl ⟨hp, rfl⟩)⟩
  | unlockRead =>
    simp only [hp, Option.ite_none_right_eq_some, Option.some.injEq] at hs
    exact hs.2 ▸ ⟨_, _, h.lockMutex hs.1 (.inr ⟨hp, rfl⟩)⟩
  | unlockDec =>
    simp only [hp, Option.some.injEq] at hs
    exact hs ▸ ⟨_, _, h.leave hp⟩
  | unlockTest =>
    simp only [hp, Option.some.injEq] at hs
    exact hs ▸ ⟨_, _, h.testLeave hp⟩
  | unlockPost =>
    simp only [hp, Option.some.injEq] at hs
    exact hs ▸ ⟨_, _, h.postShared hp⟩
  | unlockDone =>
    simp only [hp, Option.some.injEq] at hs
    exact hs ▸ ⟨_, _, h.unlockMutex (.inr ⟨hp, rfl⟩)⟩
  | lockWrite =>
    simp only [hp, Option.ite_none_right_eq_some, Option.some.injEq] at hs
    exact hs.2 ▸ ⟨_, _, h.takeWrite hp hs.1⟩
  | unlockWrite =>
    simp only [hp, Option.some.injEq] at hs
    exact hs ▸ ⟨_, _, h.relabel (by rw [hp]; rfl) (by rw [hp]; rfl) (by rw [hp]; rfl)
      (by rw [hp]; rfl) nofun nofun⟩
  | postWrite =>
    simp only [hp, Option.some.injEq] at hs
    exact hs ▸ ⟨_, _, h.postWrite hp⟩

theorem Inv.step (h : Inv s holder readers) {a : Action T} {s' : State T} (hs : step s a = some s') :
    ∃ holder' readers', Inv s' holder' readers' := by
  cases a with
  | callLockRead t | callLockWrite t =>
    simp only [RwMutex.step, Option.ite_none_right_eq_some, Option.some.injEq] at hs
    exact hs.2 ▸ ⟨_, _, h.relabel (by rw [hs.1]; rfl) (by rw [hs.1]; rfl) (by rw [hs.1]; rfl)
      (by rw [hs.1]; rfl) nofun nofun⟩
  | callUnlock t =>
    simp only [RwMutex.step] at hs
    split at hs
    · rename_i hp
      exact Option.some.inj hs ▸ ⟨_, _, h.relabel (by rw [hp]; rfl) (by rw [hp]; rfl)
        (by rw [hp]; rfl) (by rw [hp]; rfl) nofun nofun⟩
    · rename_i hp
      exact Option.some.inj hs ▸ ⟨_, _, h.relabel (by rw [hp]; rfl) (by rw [hp]; rfl)
        (by rw [hp]; rfl) (by rw [hp]; rfl) nofun nofun⟩
    · cases hs
  | go t => exact h.advance hs

theorem inv_of_run {acts : List (Action T)} (hrun : exec step (create T) acts = some s) :
    ∃ holder readers, Inv s holder readers :=
  exec_invariant (P := fun s => ∃ holder readers, Inv s holder readers)
    (fun _ _ _ ⟨_, _, h⟩ hs => h.step hs) ⟨_, _, inv_create⟩ hrun

/-- While a writer has the semaphore at most one thread is counted: it is waiting for the semaphore
with the mutex in its hands. -/
theorem Inv.count_le_one (h : Inv s holder readers) (ht : (s.pc t).ownsSem = true) : s.readerCount ≤ 1 := by
  have hw := (h.writer t).mp ht
  have hhold : ∀ u ∈ readers, (s.pc u).holdsMutex = true := by
    intro u hu
    by_contra hm
    have := h.shares u (Pc.sharesSem_of_counted ((h.mem u).mp hu) (Bool.not_eq_true _ ▸ hm))
    rw [hw] at this
    cases this
  have hcard : readers.card ≤ 1 := Finset.card_le_one.mpr fun u hu v hv => by
    have heq := ((h.mutex u).mp (hhold u hu)).symm.trans ((h.mutex v).mp (hhold v hv))
    exact Option.some.inj heq
  rw [h.count]
  omega

/-- For every interleaving of any number of threads: a writer (from its `pj_sem_wait` to its
`pj_sem_post`) excludes every reader that has entered and every other writer, the assertion
`reader_count <= 1` of `unlock_write` holds whenever a thread reaches it, and when every thread is
outside `reader_count` is 0 and the semaphore has its initial count. -/
theorem writer_excludes_of_run {acts : List (Action T)} {s : State T}
    (hrun : exec step (create T) acts = some s) :
    (∀ t u, (s.pc t).ownsSem = true → (s.pc u).sharesSem = false) ∧
    (∀ t u, (s.pc t).ownsSem = true → (s.pc u).ownsSem = true → t = u) ∧
    (∀ t, s.pc t = .unlockWrite → s.readerCount ≤ 1) ∧
    ((∀ t, (s.pc t).isOutside = true) →
      s.readerCount = 0 ∧ s.writeLock = (create T).writeLock) := by
  obtain ⟨holder, readers, h⟩ := inv_of_run hrun
  refine ⟨fun t u ht => ?_, fun t u ht hu => ?_, fun t ht => ?_, fun hout => ⟨?_, ?_⟩⟩
  · by_contra hu
    have := h.shares u (Bool.not_eq_false _ ▸ hu)
    rw [(h.writer t).mp ht] at this
    cases this
  · have := (h.writer t).mp ht ▸ (h.writer u).mp hu
    cases this
    rfl
  · exact h.count_le_one (t := t) (by rw [ht]; rfl)
  · have hempty : readers = ∅ := Finset.eq_empty_of_forall_notMem fun t ht => by
      have hc := (h.mem t).mp ht
      have ho := hout t
      revert hc ho
      cases s.pc t <;> simp [Pc.counted, Pc.isOutside]
    rw [h.count, hempty]
    rfl
  · have hsem := h.sem
    cases holder with
    | free => exact hsem
    | writer t =>
      have hw := (h.writer t).mpr rfl
      have ho := hout t
      revert hw ho
      cases s.pc t <;> simp [Pc.ownsSem, Pc.isOutside]
    | readers =>
      obtain ⟨t, hs⟩ := h.shared rfl
      have ho := hout t
      revert hs ho
      cases s.pc t <;> simp [Pc.sharesSem, Pc.isOutside]

/-- A writer is in while a reader has counted itself and waits for the semaphore. -/
theorem writer_excludes_waiting_reader : ∃ s, exec step (create Bool)
      [.callLockWrite true, .go true, .callLockRead false, .go false, .go false, .go false,
        .callUnlock true] = some s ∧
    s.pc true = .unlockWrite ∧ s.pc false = .lockWait ∧ s.readerCount = 1 ∧
    (∀ t, s.pc t = .unlockWrite → s.readerCount ≤ 1) := by
  have hsome := Option.some_get (x := exec step (create Bool)
    [.callLockWrite true, .go true, .callLockRead false, .go false, .go false, .go false,
      .callUnlock true]) (by decide)
  exact ⟨_, hsome.symm, by decide, by decide, by decide, (writer_excludes_of_run hsome.symm).2.2.1⟩

theorem waits_of_advance_eq_none {u : T} (hnone : advance s u = none) :
    s.pc u = .outside ∨ s.pc u = .reading ∨ s.pc u = .writing ∨
      ((s.pc u = .lockRead ∨ s.pc u = .unlockRead) ∧ s.readLock ≠ none) ∨
      (s.pc u = .lockWait ∨ s.pc u = .lockWrite) ∧ s.writeLock = 0 := by
  unfold RwMutex.advance at hnone
  cases hp : s.pc u <;> simp [hp] at hnone ⊢ <;> exact hnone

/-- If no thread can go on, the semaphore is free, unless a thread has the lock: the reader that holds the mutex while
it waits for the semaphore is the only one counted. -/
theorem Inv.sem_of_stuck (h : Inv s holder readers) (hnone : ∀ u, RwMutex.advance s u = none)
    (hin : ∀ u, s.pc u ≠ .reading ∧ s.pc u ≠ .writing) : s.writeLock ≠ 0 := by
  intro hzero
  have hwaits := fun u => waits_of_advance_eq_none (hnone u)
  have hsem := h.sem
  cases holder with
  | free => exact Nat.one_ne_zero (hsem.symm.trans hzero)
  | writer v =>
    have howns := (h.writer v).mpr rfl
    have hv := hwaits v
    have hwriting := (hin v).2
    grind [Pc.ownsSem]
  | readers =>
    obtain ⟨v, hshares⟩ := h.shared rfl
    have hv : s.pc v = .unlockRead ∧ s.readLock ≠ none := by
      have hwaits := hwaits v
      have hreading := (hin v).1
      grind [Pc.sharesSem]
    obtain ⟨w, hw⟩ := Option.ne_none_iff_exists'.mp hv.2
    have hholds := (h.mutex w).mpr hw
    have hwait : s.pc w = .lockWait := by
      have hwaits := hwaits w
      grind [Pc.holdsMutex]
    have hne : v ≠ w := by
      rintro rfl
      rw [hwait] at hv
      cases hv.1
    have hpair : ({v, w} : Finset T) ⊆ readers := by
      intro u hu
      rw [h.mem]
      rcases Finset.mem_insert.mp hu with rfl | hu
      · rw [hv.1]; rfl
      · rw [Finset.mem_singleton.mp hu, hwait]; rfl
    have hcard := Finset.card_le_card hpair
    have hcount := h.count
    have hone := h.wait w hwait
    rw [Finset.card_pair hne] at hcard
    omega

/-- A thread that waits inside one of the four functions waits for a thread that can go on or has the lock: the emulation
never deadlocks. -/
theorem no_deadlock_of_run {acts : List (Action T)} {s : State T} (hrun : exec step (create T) acts = some s) (t : T) :
    (s.pc t = .outside ∨ s.pc t = .reading ∨ s.pc t = .writing) ∨
      ∃ u, (advance s u).isSome = true ∨ s.pc u = .reading ∨ s.pc u = .writing := by
  obtain ⟨holder, readers, h⟩ := inv_of_run hrun
  by_contra hstuck
  rw [not_or, not_exists] at hstuck
  have hnone (u : T) : advance s u = none := Option.not_isSome_iff_eq_none.mp (not_or.mp (hstuck.2 u)).1
  have hin (u : T) := not_or.mp (not_or.mp (hstuck.2 u)).2
  have hsem := h.sem_of_stuck hnone hin
  have hwaits := fun u => waits_of_advance_eq_none (hnone u)
  -- the thread waits for the mutex, whose holder would wait for the semaphore
  have hlock : s.readLock ≠ none := by
    have ht := hwaits t
    grind
  obtain ⟨w, hw⟩ := Option.ne_none_iff_exists'.mp hlock
  have hholds := (h.mutex w).mpr hw
  have hwait := hwaits w
  grind [Pc.holdsMutex]

/-- A reader waits for the semaphore that a writer has, which can go on. -/
theorem no_deadlock_waiting_reader : ∃ s, exec step (create Bool)
      [.callLockWrite true, .go true, .callLockRead false, .go false, .go false, .go false, .callUnlock true] = some s ∧
    advance s false = none ∧ ((s.pc false = .outside ∨ s.pc false = .reading ∨ s.pc false = .writing) ∨
      ∃ u, (advance s u).isSome = true ∨ s.pc u = .reading ∨ s.pc u = .writing) := by
  have hsome := Option.some_get (x := exec step (create Bool)
    [.callLockWrite true, .go true, .callLockRead false, .go false, .go false, .go false, .callUnlock true]) (by decide)
  exact ⟨_, hsome.symm, by decide, no_deadlock_of_run hsome.symm false⟩

end PjProject.RwMutex
