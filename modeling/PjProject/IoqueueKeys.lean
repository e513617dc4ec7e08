import PjProject.Ioqueue
import Mathlib.Data.List.Perm.Basic
import Mathlib.Data.List.Count
import Mathlib.Data.List.Rotate

/-! Conservation of the pre-created keys of the select ioqueue. Every key is on exactly one of the
active, closing and free lists, its counter counts the registration and the references that threads
hold, and it is recycled only once nothing refers to it and its delay has passed. -/

namespace PjProject.Ioqueue

open scoped List

variable {Op T : Type}

/-- The key is registered: on the active list and not closing. -/
def Queue.Registered (q : Queue Op T) (k : Nat) : Prop := k ∈ q.activeList ∧ (q.keys k).closing = false

/-- The earliest time at which a key whose counter reached 0 at `t` is recycled. -/
def recycleTime (t : TimeVal) : TimeVal := TimeVal.normalize ⟨t.sec, t.msec + keyFreeDelay.msec⟩

/-- What the registration itself contributes to the counter of an active key. -/
def Key.ownRef (key : Key Op T) : Nat := if key.closing then 0 else 1

def Queue.live (q : Queue Op T) (k : Nat) : Bool := !(q.keys k).closing

structure Conserved (s : State Op T) : Prop where
  partition :
    s.queue.activeList ++ (s.queue.closingList ++ s.queue.freeList) ~ List.range s.queue.max
  free_ref : ∀ k ∈ s.queue.freeList, (s.queue.keys k).refCount = 0
  closing_ref : ∀ k ∈ s.queue.closingList, (s.queue.keys k).refCount = 0
  closing_time : ∀ k ∈ s.queue.closingList, (s.queue.keys k).freeTime = recycleTime (s.zeroTime k)
  active_ref : ∀ k ∈ s.queue.activeList,
    (s.queue.keys k).refCount = (s.queue.keys k).ownRef + s.held k ∧ 0 < (s.queue.keys k).refCount
  held_active : ∀ k, 0 < s.held k → k ∈ s.queue.activeList
  count_eq : s.queue.count = s.queue.activeList.countP s.queue.live

namespace Conserved

variable {s : State Op T}

theorem nodup (h : Conserved s) : (s.queue.activeList ++ (s.queue.closingList ++ s.queue.freeList)).Nodup :=
  h.partition.nodup_iff.mpr List.nodup_range

theorem active_nodup (h : Conserved s) : s.queue.activeList.Nodup :=
  (List.nodup_append.mp h.nodup).1

theorem not_closing_of_active (h : Conserved s) {k : Nat} (hk : k ∈ s.queue.activeList) :
    k ∉ s.queue.closingList := fun hc =>
  (List.nodup_append.mp h.nodup).2.2 k hk k (List.mem_append_left _ hc) rfl

theorem ne_front_of_closing (h : Conserved s) {k j : Nat} {rest : List Nat}
    (hfree : s.queue.freeList = k :: rest) (hj : j ∈ s.queue.closingList) : j ≠ k := by
  rintro rfl
  exact (List.nodup_append.mp (List.nodup_append.mp h.nodup).2.1).2.2 j hj j
    (hfree ▸ List.mem_cons_self) rfl

theorem not_free_of_active (h : Conserved s) {k : Nat} (hk : k ∈ s.queue.activeList) :
    k ∉ s.queue.freeList := fun hf =>
  (List.nodup_append.mp h.nodup).2.2 k hk k (List.mem_append_right _ hf) rfl

end Conserved

theorem conserved_init (maxFd fdSetSize : Nat) (concurrency : Bool) (raw : Nat → Key Op T)
    (ops : Op → OpRec) (grpRef : Nat → Int) :
    Conserved (init (ioqueueCreate maxFd fdSetSize concurrency raw ops grpRef)) where
  partition := List.Perm.refl _
  free_ref _ _ := rfl
  closing_ref := nofun
  closing_time := nofun
  active_ref := nofun
  held_active _ hk := absurd hk (Nat.lt_irrefl 0)
  count_eq := rfl

/-- One key of a list without repetitions stops being counted. -/
theorem countP_eq_succ {l : List Nat} (hl : l.Nodup) {k : Nat} (hk : k ∈ l) {p q : Nat → Bool}
    (hpk : p k = true) (hqk : q k = false) (hother : ∀ j, j ≠ k → q j = p j) : l.countP p = l.countP q + 1 := by
  have hperm := List.perm_cons_erase hk
  have hrest : (l.erase k).countP q = (l.erase k).countP p := by
    refine List.countP_congr fun j hj => ?_
    rw [hother j fun hjk => (hl.mem_erase_iff.mp hj).1 hjk]
  rw [hperm.countP_eq p, hperm.countP_eq q, List.countP_cons_of_pos hpk,
    List.countP_cons_of_neg (by simp [hqk]), hrest]

structure SameBooks (key key' : Key Op T) : Prop where
  fd : key'.fd = key.fd
  closing : key'.closing = key.closing
  refCount : key'.refCount = key.refCount
  freeTime : key'.freeTime = key.freeTime
  grpLock : key'.grpLock = key.grpLock

theorem SameBooks.refl (key : Key Op T) : SameBooks key key := ⟨rfl, rfl, rfl, rfl, rfl⟩

theorem drainPendingWrites_books (key : Key Op T) : SameBooks key (drainPendingWrites key) := by
  unfold drainPendingWrites
  split <;> exact ⟨rfl, rfl, rfl, rfl, rfl⟩

theorem Queue.setKey_books (q : Queue Op T) {k : Nat} {key : Key Op T} (hkey : SameBooks (q.keys k) key)
    (j : Nat) : SameBooks (q.keys j) ((q.setKey k key).keys j) := by
  by_cases hj : j = k
  · subst hj
    simpa only [Queue.setKey, Function.update_self] using hkey
  · simpa only [Queue.setKey, Function.update_of_ne hj] using SameBooks.refl (q.keys j)

theorem Call.run_books [DecidableEq Op] (key : Key Op T) (ops : Op → OpRec) (c : Call Op T) :
    SameBooks key (c.run key ops).key := by
  cases c with
  | recv op kind size =>
    simp only [Call.run, recvSection]
    split_ifs <;> exact ⟨rfl, rfl, rfl, rfl, rfl⟩
  | accept op =>
    simp only [Call.run, acceptSection]
    split_ifs <;> exact ⟨rfl, rfl, rfl, rfl, rfl⟩
  | send op kind size =>
    simp only [Call.run, sendSection]
    split_ifs <;> exact ⟨rfl, rfl, rfl, rfl, rfl⟩
  | connect =>
    simp only [Call.run, connectSection]
    split_ifs <;> exact ⟨rfl, rfl, rfl, rfl, rfl⟩
  | postCompletion op =>
    simp only [Call.run, Ioqueue.postCompletion]
    split_ifs <;> exact ⟨rfl, rfl, rfl, rfl, rfl⟩
  | dispatchRead t bytes =>
    simp only [Call.run, dispatchReadEvent]
    split
    · exact .refl key
    · split
      · exact ⟨rfl, rfl, rfl, rfl, rfl⟩
      · split
        · exact .refl key
        · split
          · exact ⟨rfl, rfl, rfl, rfl, rfl⟩
          · split <;> exact ⟨rfl, rfl, rfl, rfl, rfl⟩
  | dispatchReadNoLock =>
    simp only [Call.run, dispatchReadEventNoLock]
    split
    · exact ⟨rfl, rfl, rfl, rfl, rfl⟩
    · split <;> exact ⟨rfl, rfl, rfl, rfl, rfl⟩
  | dispatchWrite t res =>
    simp only [Call.run, dispatchWriteEvent]
    split
    · exact .refl key
    · split
      · exact ⟨rfl, rfl, rfl, rfl, rfl⟩
      · split
        · exact .refl key
        · split
          · split
            · exact ⟨rfl, rfl, rfl, rfl, rfl⟩
            · split <;> exact ⟨rfl, rfl, rfl, rfl, rfl⟩
          · exact .refl key
  | dispatchWriteNoLock =>
    simp only [Call.run, dispatchWriteEventNoLock]
    split <;> exact ⟨rfl, rfl, rfl, rfl, rfl⟩
  | dispatchException =>
    simp only [Call.run, dispatchExceptionEvent]
    split_ifs <;> exact ⟨rfl, rfl, rfl, rfl, rfl⟩

@[simp] theorem decRef_keys (q : Queue Op T) (g : Option Nat) : (decRef q g).keys = q.keys := by
  cases g <;> rfl

namespace Conserved

variable {s : State Op T} {q : Queue Op T} {held : Nat → Nat} {zeroTime : Nat → TimeVal}

theorem ne_front_of_active (h : Conserved s) {k j : Nat} {rest : List Nat}
    (hfree : s.queue.freeList = k :: rest) (hj : j ∈ s.queue.activeList) : j ≠ k := by
  rintro rfl
  exact h.not_free_of_active hj (hfree ▸ List.mem_cons_self)

theorem active_of_enabled (h : Conserved s) {c : Call Op T} {k : Nat} (henabled : c.enabled s k = true) :
    k ∈ s.queue.activeList := by
  unfold Call.enabled at henabled
  split at henabled
  · exact h.held_active k (of_decide_eq_true henabled)
  · exact of_decide_eq_true henabled

theorem of_books (h : Conserved s) {q : Queue Op T} (hmax : q.max = s.queue.max)
    (hactive : q.activeList = s.queue.activeList) (hclosing : q.closingList = s.queue.closingList)
    (hfree : q.freeList = s.queue.freeList) (hcount : q.count = s.queue.count)
    (hkeys : ∀ k, SameBooks (s.queue.keys k) (q.keys k)) :
    Conserved { s with queue := q } where
  partition := by simpa only [hmax, hactive, hclosing, hfree] using h.partition
  free_ref k hk := (hkeys k).refCount.trans (h.free_ref k (hfree ▸ hk))
  closing_ref k hk := (hkeys k).refCount.trans (h.closing_ref k (hclosing ▸ hk))
  closing_time k hk := (hkeys k).freeTime.trans (h.closing_time k (hclosing ▸ hk))
  active_ref k hk := by
    simp only [Key.ownRef, (hkeys k).refCount, (hkeys k).closing]
    exact h.active_ref k (hactive ▸ hk)
  held_active k hk := hactive ▸ h.held_active k hk
  count_eq := by
    have hlive : q.live = s.queue.live := funext fun k => by
      simp only [Queue.live, (hkeys k).closing]
    simp only [hcount, hactive, hlive]
    exact h.count_eq

theorem addRef (h : Conserved ⟨q, held, zeroTime⟩) (g : Option Nat) :
    Conserved ⟨Ioqueue.addRef q g, held, zeroTime⟩ := by
  cases g <;> exact of_books h rfl rfl rfl rfl rfl fun k => .refl _

theorem decRef (h : Conserved ⟨q, held, zeroTime⟩) (g : Option Nat) :
    Conserved ⟨Ioqueue.decRef q g, held, zeroTime⟩ := by
  cases g <;> exact of_books h rfl rfl rfl rfl rfl fun k => .refl _

theorem setKey_books (h : Conserved s) {k : Nat} {key : Key Op T} (hkey : SameBooks (s.queue.keys k) key) :
    Conserved { s with queue := s.queue.setKey k key } :=
  of_books h rfl rfl rfl rfl rfl (s.queue.setKey_books hkey)

theorem rescan (h : Conserved ⟨q, held, zeroTime⟩) : Conserved ⟨rescanFdset q, held, zeroTime⟩ :=
  of_books h rfl rfl rfl rfl rfl fun _ => .refl _

/-- Recycling keys from the closing list. -/
theorem scan (h : Conserved s) (now : TimeVal) :
    Conserved { s with queue := scanClosingKeys s.queue now } where
  partition := by
    refine List.Perm.trans (List.Perm.append_left _ ?_) h.partition
    simp only [scanClosingKeys]
    generalize hp : (fun k => TimeVal.gte now (s.queue.keys k).freeTime) = p
    have hnot : (fun k => !TimeVal.gte now (s.queue.keys k).freeTime) = fun k => !p k := by
      rw [← hp]
    rw [hnot]
    calc s.queue.closingList.filter (fun k => !p k) ++ (s.queue.freeList ++ s.queue.closingList.filter p)
        ~ s.queue.closingList.filter (fun k => !p k) ++
            (s.queue.closingList.filter p ++ s.queue.freeList) :=
          List.Perm.append_left _ List.perm_append_comm
      _ ~ (s.queue.closingList.filter (fun k => !p k) ++ s.queue.closingList.filter p) ++
            s.queue.freeList := by rw [List.append_assoc]
      _ ~ s.queue.closingList ++ s.queue.freeList :=
          List.Perm.append_right _ (List.perm_append_comm.trans (List.filter_append_perm p _))
  free_ref k hk := by
    rcases List.mem_append.mp hk with hk | hk
    · exact h.free_ref k hk
    · exact h.closing_ref k (List.mem_of_mem_filter hk)
  closing_ref k hk := h.closing_ref k (List.mem_of_mem_filter hk)
  closing_time k hk := h.closing_time k (List.mem_of_mem_filter hk)
  active_ref := h.active_ref
  held_active := h.held_active
  count_eq := h.count_eq

theorem of_active_key (h : Conserved s) {k : Nat} (hk : k ∈ s.queue.activeList) {t : State Op T}
    (hmax : t.queue.max = s.queue.max)
    (hactive : t.queue.activeList = s.queue.activeList) (hclosing : t.queue.closingList = s.queue.closingList)
    (hfree : t.queue.freeList = s.queue.freeList) (hkeys : ∀ j, j ≠ k → t.queue.keys j = s.queue.keys j)
    (hheld : ∀ j, j ≠ k → t.held j = s.held j) (hzero : t.zeroTime = s.zeroTime)
    (href : (t.queue.keys k).refCount = (t.queue.keys k).ownRef + t.held k ∧ 0 < (t.queue.keys k).refCount)
    (hcount : t.queue.count = s.queue.activeList.countP t.queue.live) : Conserved t where
  partition := by simpa only [hmax, hactive, hclosing, hfree] using h.partition
  free_ref j hj := by
    rw [hfree] at hj
    rw [hkeys j fun he => h.not_free_of_active hk (he ▸ hj)]
    exact h.free_ref j hj
  closing_ref j hj := by
    rw [hclosing] at hj
    rw [hkeys j fun he => h.not_closing_of_active hk (he ▸ hj)]
    exact h.closing_ref j hj
  closing_time j hj := by
    rw [hclosing] at hj
    rw [hkeys j fun he => h.not_closing_of_active hk (he ▸ hj), hzero]
    exact h.closing_time j hj
  active_ref j hj := by
    rw [hactive] at hj
    by_cases he : j = k
    · exact he ▸ href
    · simpa only [hkeys j he, hheld j he] using h.active_ref j hj
  held_active j hj := by
    rw [hactive]
    by_cases he : j = k
    · exact he ▸ hk
    · exact h.held_active j (hheld j he ▸ hj)
  count_eq := hactive ▸ hcount

theorem of_last_reference (h : Conserved s) {k : Nat} (hk : k ∈ s.queue.activeList)
    (hkclosing : (s.queue.keys k).closing = true) {t : State Op T}
    (hmax : t.queue.max = s.queue.max) (hcount : t.queue.count = s.queue.count)
    (hactive : t.queue.activeList = s.queue.activeList.erase k)
    (hclosing : t.queue.closingList = s.queue.closingList.erase k ++ [k])
    (hfree : t.queue.freeList = s.queue.freeList) (hkeys : ∀ j, j ≠ k → t.queue.keys j = s.queue.keys j)
    (hheld : ∀ j, j ≠ k → t.held j = s.held j) (hnone : t.held k = 0)
    (hzero : ∀ j, j ≠ k → t.zeroTime j = s.zeroTime j) (href : (t.queue.keys k).refCount = 0)
    (htime : (t.queue.keys k).freeTime = recycleTime (t.zeroTime k)) : Conserved t := by
  rw [List.erase_of_not_mem (h.not_closing_of_active hk)] at hclosing
  have hne : ∀ j ∈ t.queue.activeList, j ≠ k := fun j hj =>
    (h.active_nodup.mem_erase_iff.mp (hactive ▸ hj)).1
  have hold : ∀ j ∈ t.queue.closingList, j ≠ k → j ∈ s.queue.closingList := fun j hj hjk =>
    (List.mem_append.mp (hclosing ▸ hj)).resolve_right (by simpa using hjk)
  constructor
  · rw [hmax, hactive, hclosing, hfree]
    refine List.Perm.trans ?_ h.partition
    calc s.queue.activeList.erase k ++ (s.queue.closingList ++ [k] ++ s.queue.freeList)
        ~ s.queue.activeList.erase k ++ ([k] ++ s.queue.closingList ++ s.queue.freeList) :=
          List.Perm.append_left _ (List.Perm.append_right _ List.perm_append_comm)
      _ ~ k :: (s.queue.activeList.erase k ++ (s.queue.closingList ++ s.queue.freeList)) :=
          List.perm_middle
      _ ~ s.queue.activeList ++ (s.queue.closingList ++ s.queue.freeList) :=
          List.Perm.append_right _ (List.perm_cons_erase hk).symm
  · intro j hj
    rw [hfree] at hj
    rw [hkeys j fun he => h.not_free_of_active hk (he ▸ hj)]
    exact h.free_ref j hj
  · intro j hj
    by_cases hjk : j = k
    · exact hjk ▸ href
    · rw [hkeys j hjk]
      exact h.closing_ref j (hold j hj hjk)
  · intro j hj
    by_cases hjk : j = k
    · exact hjk ▸ htime
    · rw [hkeys j hjk, hzero j hjk]
      exact h.closing_time j (hold j hj hjk)
  · intro j hj
    rw [hkeys j (hne j hj), hheld j (hne j hj)]
    exact h.active_ref j (List.mem_of_mem_erase (hactive ▸ hj))
  · intro j hj
    have hjk : j ≠ k := by
      rintro rfl
      exact absurd hj (hnone ▸ Nat.lt_irrefl 0)
    rw [hactive]
    exact (List.mem_erase_of_ne hjk).mpr (h.held_active j (hheld j hjk ▸ hj))
  · have hdead : ¬ s.queue.live k = true := by simp [Queue.live, hkclosing]
    rw [hcount, h.count_eq, (List.perm_cons_erase hk).countP_eq, List.countP_cons_of_neg hdead, hactive]
    refine List.countP_congr fun j hj => ?_
    simp only [Queue.live, hkeys j (hne j (hactive ▸ hj))]

theorem count_of_closing (h : Conserved s) {q : Queue Op T}
    (hclosing : ∀ j, (q.keys j).closing = (s.queue.keys j).closing) :
    s.queue.count = s.queue.activeList.countP q.live := by
  have hlive : q.live = s.queue.live := funext fun j => by simp only [Queue.live, hclosing]
  exact hlive ▸ h.count_eq

end Conserved

@[simp] theorem Queue.setKey_self (q : Queue Op T) (k : Nat) (key : Key Op T) :
    (q.setKey k key).keys k = key := Function.update_self ..

theorem Queue.setKey_of_ne (q : Queue Op T) {k j : Nat} (key : Key Op T) (hj : j ≠ k) :
    (q.setKey k key).keys j = q.keys j := Function.update_of_ne hj ..

theorem setKey_closing (q : Queue Op T) {k : Nat} {key : Key Op T}
    (hclosing : key.closing = (q.keys k).closing) (j : Nat) :
    ((q.setKey k key).keys j).closing = (q.keys j).closing := by
  by_cases hj : j = k
  · rw [hj, Queue.setKey_self, hclosing]
  · rw [Queue.setKey_of_ne q key hj]

theorem decrementCounter_last {q : Queue Op T} {k : Nat} (now : TimeVal)
    (hlast : (q.keys k).refCount - 1 = 0) :
    decrementCounter q k now = rescanFdset
      { q.setKey k { q.keys k with refCount := 0, freeTime := recycleTime now } with
        activeList := q.activeList.erase k
        closingList := q.closingList.erase k ++ [k] } := by
  simp only [decrementCounter, hlast, if_pos, recycleTime]

theorem decrementCounter_more {q : Queue Op T} {k : Nat} (now : TimeVal) (hmore : (q.keys k).refCount - 1 ≠ 0) :
    decrementCounter q k now =
      q.setKey k { q.keys k with refCount := (q.keys k).refCount - 1 } := by
  simp only [decrementCounter, hmore, if_false]

/-- `unregisterSection` on a registered key. -/
theorem unregisterSection_eq {q : Queue Op T} {k : Nat} (hopen : (q.keys k).closing = false) :
    unregisterSection q k =
      { q.setKey k { q.keys k with fd := invalidSocket, closing := true } with
        count := q.count - 1
        sets := if (q.keys k).fd ≠ invalidSocket then
          ioqueueRemoveFromSet q.sets (q.keys k).fd ⟨true, true, true⟩ else q.sets } := by
  by_cases hfd : (q.keys k).fd = invalidSocket
  · simp [unregisterSection, hopen, hfd, Queue.setKey]
  · simp [unregisterSection, hopen, hfd, Queue.setKey]

namespace Conserved

variable {s : State Op T}

/-- A thread takes a reference on a registered key. -/
theorem increment (h : Conserved s) {k : Nat} (hk : s.queue.Registered k) :
    Conserved { s with
      queue := incrementCounter s.queue k
      held := Function.update s.held k (s.held k + 1) } := by
  refine of_active_key h hk.1 rfl rfl rfl rfl (fun j hj => ?_) (fun j hj => ?_) rfl ?_ ?_
  · exact Queue.setKey_of_ne _ _ hj
  · exact Function.update_of_ne hj ..
  · have hbefore := h.active_ref k hk.1
    simp only [incrementCounter, Queue.setKey, Function.update_self, Key.ownRef] at hbefore ⊢
    omega
  · exact h.count_of_closing (setKey_closing s.queue rfl)

theorem closing_of_last (h : Conserved s) {k : Nat} (hheld : 0 < s.held k)
    (hlast : (s.queue.keys k).refCount - 1 = 0) : (s.queue.keys k).closing = true := by
  have href := (h.active_ref k (h.held_active k hheld)).1
  have hown : (s.queue.keys k).ownRef = 0 := by omega
  by_contra hc
  simp only [Key.ownRef, hc] at hown
  exact absurd hown (by decide)

/-- A thread gives a reference back; with the last one the key goes to the closing list. -/
theorem decrement (h : Conserved s) {k : Nat} (hheld : 0 < s.held k) (now : TimeVal) :
    Conserved
      { queue := decrementCounter s.queue k now
        held := Function.update s.held k (s.held k - 1)
        zeroTime := if ((decrementCounter s.queue k now).keys k).refCount = 0
          then Function.update s.zeroTime k now else s.zeroTime } := by
  have hactive := h.held_active k hheld
  obtain ⟨href, hpos⟩ := h.active_ref k hactive
  by_cases hlast : (s.queue.keys k).refCount - 1 = 0
  · have hclosing := h.closing_of_last hheld hlast
    rw [decrementCounter_last now hlast]
    refine Conserved.rescan ?_
    simp only [Queue.setKey, rescanFdset, Function.update_self, if_true]
    refine of_last_reference h hactive hclosing rfl rfl rfl rfl rfl (fun j hj => ?_) (fun j hj => ?_) ?_
      (fun j hj => ?_) ?_ ?_
    · exact Function.update_of_ne hj ..
    · exact Function.update_of_ne hj ..
    · have hnone : s.held k - 1 = 0 := by omega
      simpa only [Function.update_self] using hnone
    · exact Function.update_of_ne hj ..
    · simp only [Function.update_self]
    · simp only [Function.update_self]
  · rw [decrementCounter_more now hlast]
    simp only [Queue.setKey, Function.update_self, if_neg hlast]
    refine of_active_key h hactive rfl rfl rfl rfl (fun j hj => ?_) (fun j hj => ?_) rfl ?_ ?_
    · exact Function.update_of_ne hj ..
    · exact Function.update_of_ne hj ..
    · simp only [Function.update_self, Key.ownRef] at href ⊢
      omega
    · exact h.count_of_closing (setKey_closing s.queue rfl)

theorem unregister (h : Conserved s) {k : Nat} (hk : s.queue.Registered k) :
    Conserved { s with
      queue := unregisterSection s.queue k
      held := Function.update s.held k (s.held k + 1) } := by
  rw [unregisterSection_eq hk.2]
  refine of_active_key h hk.1 rfl rfl rfl rfl (fun j hj => ?_) (fun j hj => ?_) rfl ?_ ?_
  · exact Function.update_of_ne hj ..
  · exact Function.update_of_ne hj ..
  · have hbefore := h.active_ref k hk.1
    simp only [Queue.setKey, Function.update_self, Key.ownRef, hk.2, if_true, Bool.false_eq_true,
      if_false] at hbefore ⊢
    omega
  · have hlive : s.queue.live k = true := by simp only [Queue.live, hk.2, Bool.not_false]
    have hcount := countP_eq_succ (q := fun j => s.queue.live j && j != k) h.active_nodup hk.1 hlive
      (by simp) fun j hj => by simp [hj]
    refine (congrArg (· - 1) (h.count_eq.trans hcount)).trans (List.countP_congr fun j _ => ?_)
    by_cases hj : j = k
    · simp [Queue.live, Queue.setKey, hj]
    · simp [Queue.live, Queue.setKey, hj]

end Conserved

theorem registerSock_refused {q : Queue Op T} {args : RegisterArgs}
    (hrefused : args.sock = invalidSocket ∨ (q.fdSetSize : Int) ≤ args.sock ∨ q.max ≤ q.count) :
    (ioqueueRegisterSock q args).1 = q ∧ (ioqueueRegisterSock q args).2.1 ≠ .success := by
  by_cases hsock : args.sock = invalidSocket
  · simp [ioqueueRegisterSock, hsock]
  · by_cases hbig : (q.fdSetSize : Int) ≤ args.sock
    · simp [ioqueueRegisterSock, hsock, hbig]
    · have hmany : q.max ≤ q.count := (hrefused.resolve_left hsock).resolve_left hbig
      simp [ioqueueRegisterSock, hsock, hbig, hmany]

/-- The queue after the socket could not be made non-blocking: the key at the front of the free list
is at its end. -/
def afterFailure (q : Queue Op T) (args : RegisterArgs) (k : Nat) (rest : List Nat) : Queue Op T :=
  { q.setKey k { ioqueueInitKey q (q.keys k) args with grpLock := none, refCount := 0 } with
    freeList := rest ++ [k] }

def afterSuccess (q : Queue Op T) (args : RegisterArgs) (k : Nat) (rest : List Nat) : Queue Op T :=
  rescanFdset (addRef
    { q.setKey k (ioqueueInitKey q (q.keys k) args) with
      freeList := rest, activeList := q.activeList ++ [k], count := q.count + 1 } args.grpLock)

theorem registerSock_cases (q : Queue Op T) (args : RegisterArgs) :
    ((ioqueueRegisterSock q args).1 = q ∧ (ioqueueRegisterSock q args).2.1 ≠ .success) ∨
    ((scanClosingKeys q args.now).freeList = [] ∧
      (ioqueueRegisterSock q args).1 = scanClosingKeys q args.now ∧
      (ioqueueRegisterSock q args).2.1 ≠ .success) ∨
    ∃ k rest, (scanClosingKeys q args.now).freeList = k :: rest ∧
      ((args.sock ≠ invalidSocket ∧
          (ioqueueRegisterSock q args).1 = afterSuccess (scanClosingKeys q args.now) args k rest ∧
          (ioqueueRegisterSock q args).2.1 = .success) ∨
        ((ioqueueRegisterSock q args).1 = afterFailure (scanClosingKeys q args.now) args k rest ∧
          (ioqueueRegisterSock q args).2.1 ≠ .success)) := by
  by_cases hrefused : args.sock = invalidSocket ∨ (q.fdSetSize : Int) ≤ args.sock ∨ q.max ≤ q.count
  · exact .inl (registerSock_refused hrefused)
  · obtain ⟨hsock, hbig, hmany⟩ : args.sock ≠ invalidSocket ∧ ¬ (q.fdSetSize : Int) ≤ args.sock ∧
        ¬ q.max ≤ q.count := by tauto
    refine .inr ?_
    cases hfree : (scanClosingKeys q args.now).freeList with
    | nil =>
      refine .inl ⟨rfl, ?_⟩
      simp [ioqueueRegisterSock, hsock, hbig, hmany, hfree]
    | cons k rest =>
      refine .inr ⟨k, rest, rfl, ?_⟩
      cases hnb : args.nonblocking with
      | true =>
        refine .inl ⟨hsock, ?_⟩
        cases hg : args.grpLock <;>
          simp [ioqueueRegisterSock, hsock, hbig, hmany, hfree, hnb, hg, afterSuccess, addRef,
            Queue.setKey, ioqueueInitKey]
      | false =>
        refine .inr ?_
        cases hg : args.grpLock <;>
          simp [ioqueueRegisterSock, hsock, hbig, hmany, hfree, hnb, hg, afterFailure, addRef, decRef,
            Queue.setKey, ioqueueInitKey]

namespace Conserved

variable {s : State Op T}

theorem failure (h : Conserved s) {args : RegisterArgs} {k : Nat} {rest : List Nat}
    (hfree : s.queue.freeList = k :: rest) :
    Conserved { s with queue := afterFailure s.queue args k rest } where
  partition := by
    refine List.Perm.trans ?_ h.partition
    rw [hfree]
    exact List.Perm.append_left _ (List.Perm.append_left _ List.perm_append_comm)
  free_ref j hj := by
    by_cases hjk : j = k
    · simp [hjk, afterFailure]
    · have hmem : j ∈ s.queue.freeList := by
        rw [hfree]
        simpa [afterFailure, hjk] using hj
      simpa [afterFailure, Queue.setKey, hjk] using h.free_ref j hmem
  closing_ref j hj := by
    have hjk := h.ne_front_of_closing hfree hj
    simpa [afterFailure, Queue.setKey, hjk] using h.closing_ref j hj
  closing_time j hj := by
    have hjk := h.ne_front_of_closing hfree hj
    simpa [afterFailure, Queue.setKey, hjk] using h.closing_time j hj
  active_ref j hj := by
    have hjk := h.ne_front_of_active hfree hj
    simpa [afterFailure, Queue.setKey, hjk] using h.active_ref j hj
  held_active := h.held_active
  count_eq := by
    refine h.count_eq.trans (List.countP_congr fun j hj => ?_)
    simp [Queue.live, afterFailure, Queue.setKey, h.ne_front_of_active hfree hj]

theorem success (h : Conserved s) {args : RegisterArgs} {k : Nat} {rest : List Nat}
    (hfree : s.queue.freeList = k :: rest) : Conserved { s with queue := afterSuccess s.queue args k rest } := by
  refine (Conserved.addRef ?_ _).rescan
  have hkfree : k ∈ s.queue.freeList := hfree ▸ List.mem_cons_self
  have hnone : s.held k = 0 := by
    by_contra hpos
    exact h.not_free_of_active (h.held_active k (by omega)) hkfree
  have hnotrest : ∀ j ∈ rest, j ≠ k := by
    rintro j hj rfl
    have hnodup := (List.nodup_append.mp (List.nodup_append.mp h.nodup).2.1).2.1
    rw [hfree] at hnodup
    exact (List.nodup_cons.mp hnodup).1 hj
  exact
    { partition := by
        refine List.Perm.trans ?_ h.partition
        rw [hfree]
        simp only [List.append_assoc, List.singleton_append, Queue.setKey]
        exact List.Perm.append_left _ List.perm_middle.symm
      free_ref := fun j hj => by
        have hjfree : j ∈ s.queue.freeList := hfree ▸ List.mem_cons_of_mem k hj
        simpa [Queue.setKey, hnotrest j hj] using h.free_ref j hjfree
      closing_ref := fun j hj => by
        simpa [Queue.setKey, h.ne_front_of_closing hfree hj] using h.closing_ref j hj
      closing_time := fun j hj => by
        simpa [Queue.setKey, h.ne_front_of_closing hfree hj] using h.closing_time j hj
      active_ref := fun j hj => by
        rcases List.mem_append.mp hj with hj | hj
        · simpa [Queue.setKey, h.ne_front_of_active hfree hj] using h.active_ref j hj
        · rw [List.mem_singleton.mp hj]
          simp [Queue.setKey, ioqueueInitKey, Key.ownRef, hnone, h.free_ref k hkfree]
      held_active := fun j hj => List.mem_append_left _ (h.held_active j hj)
      count_eq := by
        refine (congrArg (· + 1) h.count_eq).trans ?_
        rw [List.countP_append, List.countP_singleton, if_pos (by simp [Queue.live, ioqueueInitKey])]
        refine congrArg (· + 1) (List.countP_congr fun j hj => ?_)
        simp [Queue.live, Queue.setKey, h.ne_front_of_active hfree hj] }

/-- Registration keeps the keys conserved, whether or not it succeeds. -/
theorem register (h : Conserved s) (args : RegisterArgs) :
    Conserved { s with queue := (ioqueueRegisterSock s.queue args).1 } := by
  rcases registerSock_cases s.queue args with ⟨hq, -⟩ | ⟨-, hq, -⟩ | ⟨k, rest, hfree, ⟨-, hq, -⟩ | ⟨hq, -⟩⟩
  · rw [hq]
    exact h
  · rw [hq]
    exact h.scan args.now
  · rw [hq]
    exact (h.scan args.now).success hfree
  · rw [hq]
    exact (h.scan args.now).failure hfree

variable [DecidableEq Op] {t : State Op T} {a : Action Op T}

theorem step (h : Conserved s) (hstep : Ioqueue.step s a = some t) : Conserved t := by
  cases a <;> simp only [Ioqueue.step, Option.ite_none_right_eq_some, Option.some.injEq] at hstep
  case register args =>
    subst hstep
    exact h.register args
  case call k c =>
    obtain ⟨-, rfl⟩ := hstep
    exact (h.setKey_books (c.run_books (s.queue.keys k) s.queue.ops)).of_books rfl rfl rfl rfl rfl
      fun _ => .refl _
  case take k =>
    obtain ⟨hk, rfl⟩ := hstep
    exact (h.increment hk).addRef _
  case drop k now =>
    obtain ⟨hk, rfl⟩ := hstep
    exact (h.decrement hk now).decRef _
  case unregister k =>
    obtain ⟨hk, rfl⟩ := hstep
    cases hclosing : (s.queue.keys k).closing with
    | true => simpa only [unregisterSection, hclosing, if_true] using h
    | false => exact h.unregister ⟨hk.resolve_right (by simp [hclosing]), hclosing⟩
  case drain k =>
    obtain ⟨-, rfl⟩ := hstep
    exact h.setKey_books (drainPendingWrites_books _)
  case unregisterEnd k now =>
    obtain ⟨hk, rfl⟩ := hstep
    have hbooks : SameBooks (s.queue.keys k)
        { s.queue.keys k with cb := ⟨false, false, false, false⟩ } := ⟨rfl, rfl, rfl, rfl, rfl⟩
    have hcleared := h.setKey_books hbooks
    simp only [unregisterEnd, decRef_keys]
    exact (hcleared.decrement hk.1 now).decRef _
  case scan now =>
    subst hstep
    exact h.scan now

end Conserved

/-- The clock value that a step reads. -/
def Action.clock : Action Op T → Option TimeVal
  | .register args => some args.now
  | .drop _ now => some now
  | .unregisterEnd _ now => some now
  | .scan now => some now
  | .call .. | .take _ | .unregister _ | .drain _ => none

/-- What a failed registration leaves: the lists as they were, or as `scan_closing_keys` makes them
with the key at the front of the free list moved to its end. -/
structure FailedRegister (q q' : Queue Op T) (now : TimeVal) : Prop where
  active : q'.activeList = q.activeList
  count : q'.count = q.count
  grpRef : q'.grpRef = q.grpRef
  lists : (q'.closingList = q.closingList ∧ q'.freeList = q.freeList) ∨
    (q'.closingList = (scanClosingKeys q now).closingList ∧
      q'.freeList = (scanClosingKeys q now).freeList.rotate 1)

theorem registerSock_failed {q : Queue Op T} {args : RegisterArgs}
    (hfailed : (ioqueueRegisterSock q args).2.1 ≠ .success) :
    FailedRegister q (ioqueueRegisterSock q args).1 args.now := by
  rcases registerSock_cases q args with ⟨hq, -⟩ | ⟨hfree, hq, -⟩ | ⟨k, rest, hfree, ⟨-, -, hok⟩ | ⟨hq, -⟩⟩
  · rw [hq]
    exact ⟨rfl, rfl, rfl, .inl ⟨rfl, rfl⟩⟩
  · rw [hq]
    exact ⟨rfl, rfl, rfl, .inr ⟨rfl, by rw [hfree, List.rotate_nil]⟩⟩
  · exact absurd hok hfailed
  · rw [hq]
    refine ⟨rfl, rfl, rfl, .inr ⟨rfl, ?_⟩⟩
    rw [hfree, List.rotate_cons_succ, List.rotate_zero]
    rfl

theorem scan_recycles {s : State Op T} (h : Conserved s) {now : TimeVal} {k : Nat}
    (hk : k ∈ (scanClosingKeys s.queue now).freeList) (hnot : k ∉ s.queue.freeList) :
    k ∈ s.queue.closingList ∧ TimeVal.gte now (recycleTime (s.zeroTime k)) = true := by
  obtain ⟨hclosing, hpassed⟩ := List.mem_filter.mp ((List.mem_append.mp hk).resolve_left hnot)
  exact ⟨hclosing, h.closing_time k hclosing ▸ hpassed⟩

/-- The free list and the number of keys, which most steps leave as they are. -/
def Queue.stock (q : Queue Op T) : List Nat × Nat := (q.freeList, q.max)

@[simp] theorem decrementCounter_stock (q : Queue Op T) (k : Nat) (now : TimeVal) :
    (decrementCounter q k now).stock = q.stock := by
  by_cases hlast : (q.keys k).refCount - 1 = 0
  · rw [decrementCounter_last now hlast]
    rfl
  · rw [decrementCounter_more now hlast]
    rfl

@[simp] theorem decRef_stock (q : Queue Op T) (g : Option Nat) : (decRef q g).stock = q.stock := by
  cases g <;> rfl

@[simp] theorem addRef_stock (q : Queue Op T) (g : Option Nat) : (addRef q g).stock = q.stock := by
  cases g <;> rfl

@[simp] theorem unregisterSection_stock (q : Queue Op T) (k : Nat) : (unregisterSection q k).stock = q.stock := by
  cases hclosing : (q.keys k).closing with
  | true => simp only [unregisterSection, hclosing, if_true]
  | false =>
    rw [unregisterSection_eq hclosing]
    rfl

theorem afterSuccess_stock (q : Queue Op T) (args : RegisterArgs) (k : Nat) (rest : List Nat) :
    (afterSuccess q args k rest).stock = (rest, q.max) := addRef_stock ..

theorem registerSock_stock (q : Queue Op T) (args : RegisterArgs) :
    (ioqueueRegisterSock q args).1.max = q.max ∧
      ∀ k ∈ (ioqueueRegisterSock q args).1.freeList, k ∈ (scanClosingKeys q args.now).freeList := by
  rcases registerSock_cases q args with ⟨hq, -⟩ | ⟨-, hq, -⟩ | ⟨j, rest, hfree, ⟨-, hq, -⟩ | ⟨hq, -⟩⟩
  · rw [hq]
    exact ⟨rfl, fun k hk => List.mem_append_left _ hk⟩
  · rw [hq]
    exact ⟨rfl, fun _ hk => hk⟩
  · rw [hq, hfree]
    have hstock := afterSuccess_stock (scanClosingKeys q args.now) args j rest
    refine ⟨congrArg Prod.snd hstock, fun k hk => List.mem_cons_of_mem j ?_⟩
    rwa [show (afterSuccess (scanClosingKeys q args.now) args j rest).freeList = rest from
      congrArg Prod.fst hstock] at hk
  · rw [hq, hfree]
    exact ⟨rfl, fun k hk => List.mem_cons.mpr (by simpa [afterFailure, or_comm] using hk)⟩

theorem step_stock [DecidableEq Op] {s t : State Op T} {a : Action Op T} (hstep : step s a = some t) :
    (∃ args, a = .register args ∧ t.queue = (ioqueueRegisterSock s.queue args).1) ∨
    (∃ now, a = .scan now ∧ t.queue = scanClosingKeys s.queue now) ∨
    t.queue.stock = s.queue.stock := by
  cases a <;> simp only [step, Option.ite_none_right_eq_some, Option.some.injEq] at hstep
  case register args =>
    subst hstep
    exact .inl ⟨args, rfl, rfl⟩
  case scan now =>
    subst hstep
    exact .inr (.inl ⟨now, rfl, rfl⟩)
  case call k c =>
    obtain ⟨-, rfl⟩ := hstep
    exact .inr (.inr rfl)
  case drain k =>
    obtain ⟨-, rfl⟩ := hstep
    exact .inr (.inr rfl)
  case take k =>
    obtain ⟨-, rfl⟩ := hstep
    exact .inr (.inr (addRef_stock ..))
  case drop k now =>
    obtain ⟨-, rfl⟩ := hstep
    exact .inr (.inr (by rw [decRef_stock, decrementCounter_stock]))
  case unregister k =>
    obtain ⟨-, rfl⟩ := hstep
    exact .inr (.inr (unregisterSection_stock ..))
  case unregisterEnd k now =>
    obtain ⟨-, rfl⟩ := hstep
    refine .inr (.inr ?_)
    rw [unregisterEnd, decRef_stock, decrementCounter_stock]
    rfl

theorem step_max [DecidableEq Op] {s t : State Op T} {a : Action Op T} (hstep : step s a = some t) :
    t.queue.max = s.queue.max := by
  rcases step_stock hstep with ⟨args, -, hq⟩ | ⟨now, -, hq⟩ | hstock
  · rw [hq, (registerSock_stock s.queue args).1]
  · rw [hq]
    rfl
  · exact congrArg Prod.snd hstock

/-- A key gets onto the free list only from the closing list, once its delay has passed. -/
theorem recycled_of_step [DecidableEq Op] {s t : State Op T} {a : Action Op T} (h : Conserved s)
    (hstep : step s a = some t) {k : Nat} (hk : k ∈ t.queue.freeList) (hnot : k ∉ s.queue.freeList) :
    k ∈ s.queue.closingList ∧
      ∃ now, a.clock = some now ∧ TimeVal.gte now (recycleTime (s.zeroTime k)) = true := by
  rcases step_stock hstep with ⟨args, rfl, hq⟩ | ⟨now, rfl, hq⟩ | hstock
  · obtain ⟨hclosing, hpassed⟩ := scan_recycles h ((registerSock_stock s.queue args).2 k (hq ▸ hk)) hnot
    exact ⟨hclosing, args.now, rfl, hpassed⟩
  · obtain ⟨hclosing, hpassed⟩ := scan_recycles h (hq ▸ hk) hnot
    exact ⟨hclosing, now, rfl, hpassed⟩
  · have hfree : t.queue.freeList = s.queue.freeList := congrArg Prod.fst hstock
    exact absurd (hfree ▸ hk) hnot

/-- The conservation law of the `maxFd` keys made by `pj_ioqueue_create2`. -/
structure KeyConservation [DecidableEq Op] (maxFd : Nat) (s : State Op T) : Prop where
  partition :
    s.queue.activeList ++ (s.queue.closingList ++ s.queue.freeList) ~ List.range maxFd
  free_ref : ∀ k ∈ s.queue.freeList, (s.queue.keys k).refCount = 0
  active_ref : ∀ k ∈ s.queue.activeList, 1 ≤ (s.queue.keys k).refCount
  count_eq : s.queue.count = s.queue.activeList.countP fun k => !(s.queue.keys k).closing
  failed_register : ∀ args, (ioqueueRegisterSock s.queue args).2.1 ≠ .success →
    FailedRegister s.queue (ioqueueRegisterSock s.queue args).1 args.now
  recycled : ∀ a t, step s a = some t → ∀ k ∈ t.queue.freeList, k ∉ s.queue.freeList →
    k ∈ s.queue.closingList ∧ (s.queue.keys k).refCount = 0 ∧
      ∃ now, a.clock = some now ∧ TimeVal.gte now (recycleTime (s.zeroTime k)) = true

/-- The law holds in every state that a created ioqueue reaches. -/
theorem keys_conserved_of_run [DecidableEq Op] {maxFd fdSetSize : Nat} {concurrency : Bool}
    {raw : Nat → Key Op T} {ops : Op → OpRec} {grpRef : Nat → Int} {acts : List (Action Op T)}
    {s : State Op T}
    (hrun : exec step (init (ioqueueCreate maxFd fdSetSize concurrency raw ops grpRef)) acts = some s) :
    KeyConservation maxFd s := by
  obtain ⟨h, hmax⟩ : Conserved s ∧ s.queue.max = maxFd := by
    refine exec_invariant (P := fun s => Conserved s ∧ s.queue.max = maxFd) ?_ ⟨conserved_init .., rfl⟩ hrun
    intro s a t hs hstep
    exact ⟨hs.1.step hstep, (step_max hstep).trans hs.2⟩
  exact
    { partition := hmax ▸ h.partition
      free_ref := h.free_ref
      active_ref := fun k hk => (h.active_ref k hk).2
      count_eq := h.count_eq
      failed_register := fun args hfailed => registerSock_failed hfailed
      recycled := fun a t hstep k hk hnot =>
        have ⟨hclosing, hpassed⟩ := recycled_of_step h hstep hk hnot
        ⟨hclosing, h.closing_ref k hclosing, hpassed⟩ }

section Sample

/-- An ioqueue of `maxFd` keys with nothing pending. -/
def blankQueue (maxFd : Nat) : State Nat Nat :=
  init (ioqueueCreate maxFd 1024 true (fun _ => blankKey) (fun _ => ⟨.none, 0, 0, 0⟩) fun _ => 1)

def sampleArgs (sock : Int) (nonblocking : Bool) (now : TimeVal) : RegisterArgs :=
  ⟨sock, some 7, ⟨true, true, true, true⟩, some .stream, nonblocking, now⟩

/-- A key is registered, used by a poll thread and unregistered while the thread holds it. -/
def sampleRun : List (Action Nat Nat) :=
  [.register (sampleArgs 5 true ⟨0, 0⟩), .take 0, .unregister 0, .unregisterEnd 0 ⟨1, 0⟩, .drop 0 ⟨1, 200⟩]

end Sample

/-- The key of the run is on the closing list, to be recycled after 1.7 s. -/
theorem keys_conserved_closing : ∃ s, exec step (blankQueue 2) sampleRun = some s ∧
    s.queue.closingList = [0] ∧ recycleTime (s.zeroTime 0) = ⟨1, 700⟩ ∧ KeyConservation 2 s := by
  have hsome := Option.some_get (x := exec step (blankQueue 2) sampleRun) (by decide)
  exact ⟨_, hsome.symm, by decide, by decide, keys_conserved_of_run hsome.symm⟩

/-- A registration that fails after the delay has recycled the key on its way. -/
theorem failed_register_recycles : ∃ s, exec step (blankQueue 2) sampleRun = some s ∧
    (ioqueueRegisterSock s.queue (sampleArgs 6 false ⟨3, 0⟩)).2.1 ≠ .success ∧
    s.queue.closingList = [0] ∧ s.queue.freeList = [1] ∧
    (ioqueueRegisterSock s.queue (sampleArgs 6 false ⟨3, 0⟩)).1.closingList = [] ∧
    (ioqueueRegisterSock s.queue (sampleArgs 6 false ⟨3, 0⟩)).1.freeList = [0, 1] := by
  have hsome := Option.some_get (x := exec step (blankQueue 2) sampleRun) (by decide)
  exact ⟨_, hsome.symm, by decide, by decide, by decide, by decide, by decide⟩

end PjProject.Ioqueue
