import PjProject.GrpLock

/-! The group lock holds its locks together: the owner has every lock of the list as often as it has
the group, besides what threads took themselves, the list stays sorted, and the handlers are called
once, with the last reference. -/

namespace PjProject.GrpLock

variable {L T H : Type} [DecidableEq L] [DecidableEq T]

/-- How often the group holds a lock for a thread. -/
def Group.share (g : Group L T H) (l : L) (t : T) : Nat :=
  if l ∈ g.items ∧ g.owner = some t then g.ownerCnt else 0

theorem share_of_owner {g : Group L T H} {t : T} (howner : g.owner = some t) (l : L) (u : T) :
    g.share l u = if l ∈ g.items ∧ u = t then g.ownerCnt else 0 := by
  simp only [Group.share, howner, Option.some.injEq, eq_comm]

structure Inv (g : Group L T H) (direct : T → L → Nat) (refs : Nat) : Prop where
  held : ∀ l t, (g.locks l).heldBy t = direct t l + g.share l t
  owned : g.owner = none ↔ g.ownerCnt = 0
  own : g.ownLock ∈ g.items
  nodup : g.items.Nodup
  sorted : g.lockList.Pairwise fun a b => a.1 ≤ b.1
  ref : g.refCnt = refs + g.ownerCnt
  alive : g.alive = true ↔ 0 < g.refCnt
  called : g.called = if g.alive then [] else g.destroyList

namespace Inv

variable {g g' : Group L T H} {direct : T → L → Nat} {refs : Nat} {t : T}

/-- A thread that can take all the locks finds the group free or its own. -/
theorem owner_of_lockAll (h : Inv g direct refs) {locks : L → Mutex T}
    (hlocks : lockAll t g.locks g.items = some locks) : g.owner = none ∨ g.owner = some t := by
  cases howner : g.owner with
  | none => exact .inl rfl
  | some u =>
    have hcnt : g.ownerCnt ≠ 0 := fun hz => by
      rw [h.owned.mpr hz] at howner
      cases howner
    have hcount : 0 < g.items.count g.ownLock := List.count_pos_iff.mpr h.own
    have ht : 0 < (locks g.ownLock).heldBy t := by
      rw [heldBy_lockAll hlocks, if_pos rfl]
      omega
    have hu : 0 < (locks g.ownLock).heldBy u := by
      rw [heldBy_lockAll hlocks, h.held, Group.share, if_pos ⟨h.own, howner⟩]
      omega
    rw [Mutex.eq_of_heldBy ht hu]
    exact .inr rfl

theorem acquired (h : Inv g direct refs) (halive : g.alive = true) {locks : L → Mutex T}
    (hlocks : lockAll t g.locks g.items = some locks) :
    grpLockAddRef (grpLockSetOwnerThread { g with locks := locks } t) =
        { g with
          locks := locks, owner := some t, ownerCnt := g.ownerCnt + 1, refCnt := g.refCnt + 1 } ∧
      Inv { g with
        locks := locks, owner := some t, ownerCnt := g.ownerCnt + 1, refCnt := g.refCnt + 1 }
        direct refs := by
  have howner := h.owner_of_lockAll hlocks
  refine ⟨?_, ?_⟩
  · rcases howner with howner | howner
    · simp [grpLockAddRef, grpLockSetOwnerThread, howner, h.owned.mp howner]
    · simp [grpLockAddRef, grpLockSetOwnerThread, howner]
  · constructor
    · intro l u
      have hold : g.share l u = if l ∈ g.items ∧ some t = some u then g.ownerCnt else 0 := by
        rcases howner with howner | howner
        · simp [Group.share, howner, h.owned.mp howner]
        · rw [Group.share, howner]
      have hcount : g.items.count l = if l ∈ g.items then 1 else 0 := by
        split
        · next hl => exact List.count_eq_one_of_mem h.nodup hl
        · next hl => exact List.count_eq_zero_of_not_mem hl
      have hheld := heldBy_lockAll hlocks l u
      rw [h.held, hold, hcount] at hheld
      refine hheld.trans ?_
      simp only [Group.share, Group.items, Option.some.injEq] at hheld ⊢
      by_cases hl : l ∈ g.lockList.map Prod.snd <;> by_cases hu : u = t <;>
        simp [hl, hu, Ne.symm, Nat.add_assoc]
    · simp
    · exact h.own
    · exact h.nodup
    · exact h.sorted
    · have href := h.ref
      simp only
      omega
    · simp [halive]
    · exact h.called

theorem acquire (h : Inv g direct refs) (halive : g.alive = true) (hacq : grpLockAcquire g t = some g') :
    ∃ locks, g' = { g with
        locks := locks, owner := some t, ownerCnt := g.ownerCnt + 1, refCnt := g.refCnt + 1 } ∧
      Inv g' direct refs := by
  obtain ⟨locks, hlocks, hg'⟩ := Option.map_eq_some_iff.mp hacq
  obtain ⟨heq, hinv⟩ := h.acquired halive hlocks
  exact ⟨locks, hg'.symm.trans heq, hg' ▸ heq ▸ hinv⟩

theorem tryacquire (h : Inv g direct refs) (halive : g.alive = true) (t : T) :
    Inv (grpLockTryacquire g t).1 direct refs := by
  unfold grpLockTryacquire
  split
  · next locks htry =>
      obtain ⟨heq, hinv⟩ := h.acquired halive (lockAll_of_tryLockAll htry)
      exact heq ▸ hinv
  · next locks htry =>
      obtain rfl := tryLockAll_undone rfl htry
      exact h

/-- One reference less; with the last one the handlers are called. -/
theorem decRef (h : Inv g direct (refs + 1)) (t : T) : Inv (grpLockDecRef g t) direct refs := by
  have href := h.ref
  have halive : g.alive = true := h.alive.mpr (by omega)
  by_cases hlast : g.refCnt - 1 = 0
  · have hcnt : g.ownerCnt = 0 := by omega
    have heq : grpLockDecRef g t =
        { g with refCnt := 0, called := g.called ++ g.destroyList, alive := false } := by
      have hnone : ∀ ls : List L, (ls.flatMap fun l => List.replicate 0 l) = [] := fun ls => by
        simp [List.flatMap_eq_nil_iff]
      simp only [grpLockDecRef, grpLockDestroy, hlast, halive, hcnt, hnone, if_true]
      rfl
    rw [heq]
    refine ⟨h.held, h.owned, h.own, h.nodup, h.sorted, ?_, ?_, ?_⟩
    · simp only
      omega
    · simp
    · simp [h.called, halive]
  · have heq : grpLockDecRef g t = { g with refCnt := g.refCnt - 1 } := by
      simp [grpLockDecRef, hlast]
    rw [heq]
    refine ⟨h.held, h.owned, h.own, h.nodup, h.sorted, ?_, ?_, h.called⟩
    · simp only
      omega
    · simp only [halive, true_iff]
      omega

theorem release (h : Inv g direct refs) (howner : g.owner = some t) : Inv (grpLockRelease g t) direct refs := by
  have hcnt : g.ownerCnt ≠ 0 := fun hz => by
    rw [h.owned.mpr hz] at howner
    cases howner
  have hunset : grpLockUnsetOwnerThread g =
      { g with owner := if g.ownerCnt - 1 = 0 then none else some t, ownerCnt := g.ownerCnt - 1 } := by
    by_cases hlast : g.ownerCnt - 1 = 0
    · simp [grpLockUnsetOwnerThread, hlast]
    · simp [grpLockUnsetOwnerThread, hlast, howner]
  have hcount : ∀ l, g.items.reverse.count l = if l ∈ g.items then 1 else 0 := fun l => by
    rw [List.count_reverse]
    split
    · next hl => exact List.count_eq_one_of_mem h.nodup hl
    · next hl => exact List.count_eq_zero_of_not_mem hl
  have hle : ∀ l, g.items.reverse.count l ≤ (g.locks l).heldBy t := fun l => by
    rw [hcount, h.held, Group.share]
    by_cases hl : l ∈ g.items <;> simp [hl, howner]
    omega
  unfold grpLockRelease
  rw [hunset]
  refine Inv.decRef ?_ t
  constructor
  · intro l u
    have hheld := heldBy_unlockAll hle l u
    rw [h.held, hcount, share_of_owner howner] at hheld
    have hnew : Group.share
        { g with
          locks := unlockAll t g.locks g.items.reverse
          owner := if g.ownerCnt - 1 = 0 then none else some t
          ownerCnt := g.ownerCnt - 1 } l u = if l ∈ g.items ∧ u = t then g.ownerCnt - 1 else 0 := by
      by_cases hlast : g.ownerCnt - 1 = 0
      · simp [Group.share, hlast]
      · rw [if_neg hlast]
        exact share_of_owner rfl l u
    have hleft : (unlockAll t g.locks g.items.reverse l).heldBy u =
        direct u l + if l ∈ g.items ∧ u = t then g.ownerCnt - 1 else 0 := by
      by_cases hl : l ∈ g.items <;> by_cases hu : u = t <;>
        simp only [hl, hu, and_self, and_true, and_false, if_true, if_false] at hheld ⊢ <;> omega
    exact hleft.trans (congrArg (direct u l + ·) hnew.symm)
  · by_cases hlast : g.ownerCnt - 1 = 0 <;> simp [hlast]
  · exact h.own
  · exact h.nodup
  · exact h.sorted
  · have href := h.ref
    simp only
    omega
  · exact h.alive
  · exact h.called

theorem chain (h : Inv g direct refs) (howner : g.owner = some t) {lock : L} (hnew : lock ∉ g.items)
    (pos : Int) {locks : L → Mutex T}
    (hlocks : lockAll t g.locks (List.replicate g.ownerCnt lock) = some locks) :
    Inv { g with
      locks := locks
      lockList := g.lockList.orderedInsert (fun a b => a.1 ≤ b.1) (pos, lock) } direct refs := by
  have hperm := List.perm_orderedInsert (fun a b : Int × L => a.1 ≤ b.1) (pos, lock) g.lockList
  have hitems : ((g.lockList.orderedInsert (fun a b => a.1 ≤ b.1) (pos, lock)).map Prod.snd).Perm
      (lock :: g.items) := hperm.map Prod.snd
  constructor
  · intro l u
    have hheld := heldBy_lockAll hlocks l u
    rw [h.held, share_of_owner howner, List.count_replicate] at hheld
    have hshare : Group.share { g with
        locks := locks
        lockList := g.lockList.orderedInsert (fun a b => a.1 ≤ b.1) (pos, lock) } l u =
        if (l = lock ∨ l ∈ g.items) ∧ u = t then g.ownerCnt else 0 := by
      refine (share_of_owner (by exact howner) l u).trans ?_
      exact if_congr (and_congr_left' (hitems.mem_iff.trans List.mem_cons)) rfl rfl
    have hleft : (locks l).heldBy u =
        direct u l + if (l = lock ∨ l ∈ g.items) ∧ u = t then g.ownerCnt else 0 := by
      rw [hheld]
      by_cases hl : l = lock
      · subst hl
        by_cases hu : u = t <;> simp [hnew, hu]
      · by_cases hm : l ∈ g.items <;> by_cases hu : u = t <;> simp [hl, hm, hu, Ne.symm hl]
    exact hleft.trans (congrArg (direct u l + ·) hshare.symm)
  · exact h.owned
  · exact hitems.mem_iff.mpr (List.mem_cons_of_mem _ h.own)
  · exact hitems.nodup_iff.mpr (List.nodup_cons.mpr ⟨hnew, h.nodup⟩)
  · have : Std.Total fun a b : Int × L => a.1 ≤ b.1 := ⟨fun a b => Int.le_total a.1 b.1⟩
    have : IsTrans (Int × L) fun a b => a.1 ≤ b.1 := ⟨fun a b c hab hbc => Int.le_trans hab hbc⟩
    exact List.Pairwise.orderedInsert (pos, lock) g.lockList h.sorted
  · exact h.ref
  · exact h.alive
  · exact h.called

/-- The owner gives a lock of the list back as often as it has the group, and takes it out. -/
theorem unchain (h : Inv g direct refs) (howner : g.owner = some t) {item : Int × L}
    (hitem : item ∈ g.lockList) (hown : item.2 ≠ g.ownLock) :
    Inv { g with
      lockList := g.lockList.erase item
      locks := unlockAll t g.locks (List.replicate g.ownerCnt item.2) } direct refs := by
  have hitems : g.items.Perm (item.2 :: (g.lockList.erase item).map Prod.snd) :=
    (List.perm_cons_erase hitem).map Prod.snd
  have hnodup := List.nodup_cons.mp (hitems.nodup_iff.mp h.nodup)
  have hmem : ∀ l, l ∈ g.items ↔ l = item.2 ∨ l ∈ (g.lockList.erase item).map Prod.snd :=
    fun l => hitems.mem_iff.trans List.mem_cons
  have hle : ∀ l, (List.replicate g.ownerCnt item.2).count l ≤ (g.locks l).heldBy t := fun l => by
    rw [List.count_replicate, h.held, share_of_owner howner]
    by_cases hl : item.2 = l
    · simp [hl, (hmem l).mpr (.inl hl.symm)]
    · simp [hl]
  constructor
  · intro l u
    have hheld := heldBy_unlockAll hle l u
    rw [h.held, share_of_owner howner, List.count_replicate] at hheld
    have hshare : Group.share { g with
        lockList := g.lockList.erase item
        locks := unlockAll t g.locks (List.replicate g.ownerCnt item.2) } l u =
        if l ∈ (g.lockList.erase item).map Prod.snd ∧ u = t then g.ownerCnt else 0 :=
      share_of_owner (by exact howner) l u
    have hleft : (unlockAll t g.locks (List.replicate g.ownerCnt item.2) l).heldBy u =
        direct u l + if l ∈ (g.lockList.erase item).map Prod.snd ∧ u = t then g.ownerCnt else 0 := by
      have hl := hmem l
      by_cases heq : l = item.2
      · subst heq
        by_cases hu : u = t <;> simp [hu, hnodup.1, hl] at hheld ⊢ <;> omega
      · by_cases hin : l ∈ (g.lockList.erase item).map Prod.snd <;> by_cases hu : u = t <;>
          simp only [hl, heq, Ne.symm heq, hin, hu, beq_iff_eq, or_true, or_self, and_self, and_true, and_false,
            if_true, if_false, ite_self, Nat.add_zero] at hheld ⊢ <;>
          exact hheld
    exact hleft.trans (congrArg (direct u l + ·) hshare.symm)
  · exact h.owned
  · exact ((hmem g.ownLock).mp h.own).resolve_left (Ne.symm hown)
  · exact hnodup.2
  · exact h.sorted.sublist List.erase_sublist
  · exact h.ref
  · exact h.alive
  · exact h.called

/-- The handlers may change while there is a reference. -/
theorem handlers (h : Inv g direct refs) (halive : g.alive = true) (handlers : List H) :
    Inv { g with destroyList := handlers } direct refs :=
  ⟨h.held, h.owned, h.own, h.nodup, h.sorted, h.ref, h.alive, by simpa [halive] using h.called⟩

theorem chainLock (h : Inv g direct refs) (halive : g.alive = true) {lock : L} (hnew : lock ∉ g.items)
    {pos : Int} (hchain : grpLockChainLock g t lock pos = some g') : Inv g' direct refs := by
  obtain ⟨g₁, hacq, hrest⟩ := Option.bind_eq_some_iff.mp hchain
  obtain ⟨held, hlocks, rfl⟩ := Option.map_eq_some_iff.mp hrest
  obtain ⟨locks, rfl, hinv⟩ := h.acquire halive hacq
  exact (hinv.chain rfl hnew pos hlocks).release rfl

theorem unchainLock (h : Inv g direct refs) (halive : g.alive = true) {lock : L}
    (hown : lock ≠ g.ownLock) (hunchain : grpLockUnchainLock g t lock = some g') : Inv g' direct refs := by
  obtain ⟨g₁, hacq, rfl⟩ := Option.map_eq_some_iff.mp hunchain
  obtain ⟨locks, rfl, hinv⟩ := h.acquire halive hacq
  split
  · exact hinv.release rfl
  · next item hfind =>
      obtain rfl : item.2 = lock := by simpa using List.find?_some hfind
      exact (hinv.unchain rfl (List.mem_of_find?_eq_some hfind) hown).release rfl

theorem addHandler (h : Inv g direct refs) (halive : g.alive = true) {handler : H}
    (hadd : grpLockAddHandler g t handler = some g') : Inv g' direct refs := by
  obtain ⟨g₁, hacq, rfl⟩ := Option.map_eq_some_iff.mp hadd
  obtain ⟨locks, rfl, hinv⟩ := h.acquire halive hacq
  exact (hinv.handlers halive _).release rfl

theorem delHandler [DecidableEq H] (h : Inv g direct refs) (halive : g.alive = true) {handler : H}
    (hdel : grpLockDelHandler g t handler = some g') : Inv g' direct refs := by
  obtain ⟨g₁, hacq, rfl⟩ := Option.map_eq_some_iff.mp hdel
  obtain ⟨locks, rfl, hinv⟩ := h.acquire halive hacq
  exact (hinv.handlers halive _).release rfl

theorem addRef (h : Inv g direct refs) (halive : g.alive = true) : Inv (grpLockAddRef g) direct (refs + 1) := by
  refine ⟨h.held, h.owned, h.own, h.nodup, h.sorted, ?_, ?_, h.called⟩
  · have href := h.ref
    simp only [grpLockAddRef]
    omega
  · simp [grpLockAddRef, halive]

/-- A lock changes hands outside of the group. -/
theorem setDirect (h : Inv g direct refs) {t : T} {l : L} {m : Mutex T} {n : Nat}
    (hm : ∀ u, m.heldBy u + (if u = t then direct t l else 0) =
      (g.locks l).heldBy u + if u = t then n else 0) :
    Inv { g with locks := Function.update g.locks l m }
      (Function.update direct t (Function.update (direct t) l n)) refs := by
  refine ⟨?_, h.owned, h.own, h.nodup, h.sorted, h.ref, h.alive, h.called⟩
  intro k u
  have hk : (Function.update g.locks l m k).heldBy u =
      Function.update direct t (Function.update (direct t) l n) u k + g.share k u := by
    have hold := h.held k u
    by_cases hkl : k = l
    · subst hkl
      have hu := hm u
      rw [Function.update_self]
      by_cases hut : u = t
      · subst hut
        rw [Function.update_self, Function.update_self]
        simp only [if_true] at hu
        omega
      · rw [Function.update_of_ne hut]
        simp only [hut, if_false] at hu
        omega
    · rw [Function.update_of_ne hkl, hold]
      by_cases hut : u = t
      · subst hut
        rw [Function.update_self, Function.update_of_ne hkl]
      · rw [Function.update_of_ne hut]
  exact hk

end Inv

theorem Inv.alive_of_usable {s : State L T H} {t : T} (h : Inv s.group s.direct s.refs)
    (husable : s.usable t = true) : s.group.alive = true := by
  have href := h.ref
  simp only [State.usable, Bool.or_eq_true, decide_eq_true_eq] at husable
  refine h.alive.mpr ?_
  rcases husable with hrefs | howner
  · omega
  · have hcnt : s.group.ownerCnt ≠ 0 := fun hz => by
      rw [h.owned.mpr hz] at howner
      cases howner
    omega

theorem inv_start (ownLock : L) (handlers : List H) :
    Inv (start (T := T) ownLock handlers).group (start (T := T) ownLock handlers).direct
      (start (T := T) ownLock handlers).refs := by
  constructor <;> simp [start, grpLockAddRef, grpLockCreate, Group.items, Group.share, Mutex.heldBy]

theorem inv_step [DecidableEq H] (s : State L T H) (a : Action L T H) (s' : State L T H)
    (h : Inv s.group s.direct s.refs) (hstep : step s a = some s') : Inv s'.group s'.direct s'.refs := by
  cases a with
  | acquire t =>
    simp only [step, Option.ite_none_right_eq_some, Option.map_eq_some_iff] at hstep
    obtain ⟨husable, g', hacq, rfl⟩ := hstep
    obtain ⟨locks, -, hinv⟩ := h.acquire (h.alive_of_usable husable) hacq
    exact hinv
  | tryacquire t =>
    simp only [step, Option.ite_none_right_eq_some, Option.some.injEq] at hstep
    obtain ⟨husable, rfl⟩ := hstep
    exact h.tryacquire (h.alive_of_usable husable) t
  | release t =>
    simp only [step, Option.ite_none_right_eq_some, Option.some.injEq] at hstep
    obtain ⟨howner, rfl⟩ := hstep
    exact h.release howner
  | chainLock t lock pos =>
    simp only [step, Option.ite_none_right_eq_some, Option.map_eq_some_iff] at hstep
    obtain ⟨⟨husable, hnew⟩, g', hchain, rfl⟩ := hstep
    exact h.chainLock (h.alive_of_usable husable) hnew hchain
  | unchainLock t lock =>
    simp only [step, Option.ite_none_right_eq_some, Option.map_eq_some_iff] at hstep
    obtain ⟨⟨husable, hown⟩, g', hunchain, rfl⟩ := hstep
    exact h.unchainLock (h.alive_of_usable husable) hown hunchain
  | addHandler t handler =>
    simp only [step, Option.ite_none_right_eq_some, Option.map_eq_some_iff] at hstep
    obtain ⟨husable, g', hadd, rfl⟩ := hstep
    exact h.addHandler (h.alive_of_usable husable) hadd
  | delHandler t handler =>
    simp only [step, Option.ite_none_right_eq_some, Option.map_eq_some_iff] at hstep
    obtain ⟨husable, g', hdel, rfl⟩ := hstep
    exact h.delHandler (h.alive_of_usable husable) hdel
  | addRef t =>
    simp only [step, Option.ite_none_right_eq_some, Option.some.injEq] at hstep
    obtain ⟨husable, rfl⟩ := hstep
    exact h.addRef (h.alive_of_usable husable)
  | decRef t =>
    simp only [step, Option.ite_none_right_eq_some, Option.some.injEq] at hstep
    obtain ⟨hrefs, rfl⟩ := hstep
    refine Inv.decRef ?_ t
    rwa [Nat.sub_add_cancel hrefs]
  | lock t l =>
    simp only [step, Option.map_eq_some_iff] at hstep
    obtain ⟨m, hlock, rfl⟩ := hstep
    refine h.setDirect fun u => ?_
    rw [Mutex.heldBy_lock hlock]
    split <;> omega
  | unlock t l =>
    simp only [step, Option.ite_none_right_eq_some, Option.some.injEq] at hstep
    obtain ⟨hdirect, rfl⟩ := hstep
    refine h.setDirect fun u => ?_
    have hheld := h.held l t
    have hunlock := Mutex.heldBy_unlock (m := s.group.locks l) (t := t) (by omega) u
    split at hunlock
    · next hu =>
        simp only [hu, if_true] at hunlock ⊢
        omega
    · next hu =>
        simp only [hu, if_false] at hunlock ⊢
        omega

/-- The action is one of the operations of the group, not a thread taking or giving back one of the
locks by itself. -/
def Action.isOperation : Action L T H → Bool
  | .lock .. | .unlock .. => false
  | _ => true

theorem direct_step [DecidableEq H] (s : State L T H) (a : Action L T H) (s' : State L T H)
    (hop : a.isOperation = true) (hstep : step s a = some s') : s'.direct = s.direct := by
  cases a <;> simp only [Action.isOperation, Bool.false_eq_true] at hop <;>
    simp only [step, Option.ite_none_right_eq_some, Option.map_eq_some_iff, Option.some.injEq] at hstep <;>
    grind

/-- What the group lock promises. Each lock of the list is held by the owner as often as it has the
group and by nobody else, besides what threads took themselves; a failed try changes nothing at all;
the handlers are called once, with the last reference. -/
structure Consistent (s : State L T H) : Prop where
  owned : s.group.owner = none ↔ s.group.ownerCnt = 0
  held : ∀ l ∈ s.group.items, ∀ t, (s.group.locks l).heldBy t =
    s.direct t l + if s.group.owner = some t then s.group.ownerCnt else 0
  sorted : s.group.lockList.Pairwise fun a b => a.1 ≤ b.1
  failed : ∀ t, (grpLockTryacquire s.group t).2 = false → (grpLockTryacquire s.group t).1 = s.group
  called : s.group.called = if s.group.refCnt = 0 then s.group.destroyList else []

theorem grpLockTryacquire_failed {g : Group L T H} {t : T} (h : (grpLockTryacquire g t).2 = false) :
    (grpLockTryacquire g t).1 = g := by
  unfold grpLockTryacquire at h ⊢
  split
  · next locks htry =>
      rw [htry] at h
      cases h
  · next locks htry =>
      obtain rfl := tryLockAll_undone rfl htry
      rfl

theorem Inv.consistent {s : State L T H} (h : Inv s.group s.direct s.refs) : Consistent s := by
  refine ⟨h.owned, ?_, h.sorted, fun t => grpLockTryacquire_failed, ?_⟩
  · intro l hl t
    rw [h.held, Group.share]
    simp only [hl, true_and]
  · rw [h.called]
    by_cases hz : s.group.refCnt = 0
    · have hdead : ¬ s.group.alive = true := fun halive => by
        have := h.alive.mp halive
        omega
      rw [if_neg hdead, if_pos hz]
    · rw [if_pos (h.alive.mpr (Nat.pos_of_ne_zero hz)), if_neg hz]

end PjProject.GrpLock
