import Mathlib.Logic.Function.Basic
import Mathlib.Data.List.Count

/-! Recursive mutexes, and lists of them taken and given back one after another. A thread that takes a
list of mutexes blocks when another thread holds one of them; a thread that tries gives back what it
has taken so far. -/

namespace PjProject

/-- A recursive mutex: `held t n` is held by `t`, which has taken it `n` times more. -/
inductive Mutex (T : Type)
  | free
  | held (t : T) (more : Nat)
  deriving DecidableEq

variable {T L : Type} [DecidableEq T] [DecidableEq L]

namespace Mutex

/-- `none` when another thread holds the mutex. -/
def lock (m : Mutex T) (t : T) : Option (Mutex T) :=
  match m with
  | free => some (held t 0)
  | held u more => if u = t then some (held u (more + 1)) else none

/-- Giving back a mutex that the thread does not hold is an error that changes nothing. -/
def unlock (m : Mutex T) (t : T) : Mutex T :=
  match m with
  | free => free
  | held u more => if u = t then (match more with | 0 => free | n + 1 => held u n) else held u more

/-- How many times the thread holds the mutex. -/
def heldBy (m : Mutex T) (t : T) : Nat :=
  match m with
  | free => 0
  | held u more => if u = t then more + 1 else 0

theorem eq_of_heldBy {m : Mutex T} {t u : T} (ht : 0 < m.heldBy t) (hu : 0 < m.heldBy u) : t = u := by
  cases m with
  | free => exact absurd ht (Nat.lt_irrefl 0)
  | held v more =>
    simp only [heldBy] at ht hu
    split at ht <;> split at hu <;> simp_all

theorem heldBy_lock {m m' : Mutex T} {t : T} (h : m.lock t = some m') (u : T) :
    m'.heldBy u = m.heldBy u + if u = t then 1 else 0 := by
  cases m with
  | free =>
    obtain rfl := Option.some.inj h
    simp [heldBy, eq_comm]
  | held v more =>
    simp only [lock, Option.ite_none_right_eq_some, Option.some.injEq] at h
    obtain ⟨rfl, rfl⟩ := h
    by_cases hu : v = u
    · simp [heldBy, hu]
    · simp [heldBy, hu, Ne.symm hu]

theorem unlock_of_lock {m m' : Mutex T} {t : T} (h : m.lock t = some m') : m'.unlock t = m := by
  cases m with
  | free =>
    obtain rfl := Option.some.inj h
    simp [unlock]
  | held v more =>
    simp only [lock, Option.ite_none_right_eq_some, Option.some.injEq] at h
    obtain ⟨rfl, rfl⟩ := h
    simp [unlock]

theorem heldBy_unlock {m : Mutex T} {t : T} (h : 0 < m.heldBy t) (u : T) :
    (m.unlock t).heldBy u + (if u = t then 1 else 0) = m.heldBy u := by
  cases m with
  | free => exact absurd h (Nat.lt_irrefl 0)
  | held v more =>
    have hv : v = t := by
      by_contra hne
      simp [heldBy, hne] at h
    subst hv
    cases more with
    | zero => by_cases hu : u = v <;> simp [unlock, heldBy, hu, Ne.symm]
    | succ n => by_cases hu : u = v <;> simp [unlock, heldBy, hu, Ne.symm]

end Mutex

/-- The thread takes the mutexes in order; `none` when it would block. -/
def lockAll (t : T) : (L → Mutex T) → List L → Option (L → Mutex T)
  | locks, [] => some locks
  | locks, l :: rest => ((locks l).lock t).bind fun m => lockAll t (Function.update locks l m) rest

/-- The thread gives the mutexes back in order. -/
def unlockAll (t : T) (locks : L → Mutex T) (ls : List L) : L → Mutex T :=
  ls.foldl (fun locks l => Function.update locks l ((locks l).unlock t)) locks

/-- The thread tries the mutexes in order; when one is held by another thread it gives back the ones it
has `taken`, the last one first. -/
def tryLockAll (t : T) : (L → Mutex T) → List L → List L → (L → Mutex T) × Bool
  | locks, _, [] => (locks, true)
  | locks, taken, l :: rest =>
    match (locks l).lock t with
    | some m => tryLockAll t (Function.update locks l m) (l :: taken) rest
    | none => (unlockAll t locks taken, false)

theorem heldBy_lockAll {t : T} {locks locks' : L → Mutex T} {ls : List L}
    (h : lockAll t locks ls = some locks') (l : L) (u : T) :
    (locks' l).heldBy u = (locks l).heldBy u + if u = t then ls.count l else 0 := by
  induction ls generalizing locks with
  | nil =>
    obtain rfl := Option.some.inj h
    simp
  | cons k rest ih =>
    obtain ⟨m, hm, hrest⟩ := Option.bind_eq_some_iff.mp h
    rw [ih hrest]
    by_cases hk : l = k
    · subst hk
      rw [Function.update_self, Mutex.heldBy_lock hm, List.count_cons_self]
      split <;> omega
    · rw [Function.update_of_ne hk, List.count_cons_of_ne (Ne.symm hk)]

theorem heldBy_unlockAll {t : T} {locks : L → Mutex T} {ls : List L}
    (h : ∀ l, ls.count l ≤ (locks l).heldBy t) (l : L) (u : T) :
    (unlockAll t locks ls l).heldBy u + (if u = t then ls.count l else 0) = (locks l).heldBy u := by
  induction ls generalizing locks with
  | nil => simp [unlockAll]
  | cons k rest ih =>
    have hk : 0 < (locks k).heldBy t := Nat.lt_of_lt_of_le (by simp) (h k)
    have hstep : ∀ j v, (Function.update locks k ((locks k).unlock t) j).heldBy v +
        (if v = t ∧ k = j then 1 else 0) = (locks j).heldBy v := by
      intro j v
      by_cases hj : k = j
      · subst hj
        simpa using Mutex.heldBy_unlock hk v
      · simp [hj, Ne.symm hj]
    have hrest : ∀ j, rest.count j ≤ (Function.update locks k ((locks k).unlock t) j).heldBy t := by
      intro j
      have hcount := h j
      have hj := hstep j t
      simp only [List.count_cons, beq_iff_eq, true_and] at hcount hj
      omega
    have hrun := ih hrest
    have hl := hstep l u
    rw [show unlockAll t locks (k :: rest) =
      unlockAll t (Function.update locks k ((locks k).unlock t)) rest from rfl]
    simp only [List.count_cons, beq_iff_eq]
    by_cases hu : u = t
    · simp only [hu, if_true, true_and] at hrun hl ⊢
      omega
    · simp only [hu, if_false, false_and] at hrun hl ⊢
      omega

theorem lockAll_of_tryLockAll {t : T} {locks locks' : L → Mutex T} {taken ls : List L}
    (h : tryLockAll t locks taken ls = (locks', true)) : lockAll t locks ls = some locks' := by
  induction ls generalizing locks taken with
  | nil => exact congrArg some (congrArg Prod.fst h)
  | cons l rest ih =>
    cases hm : (locks l).lock t with
    | none =>
      simp only [tryLockAll, hm] at h
      cases congrArg Prod.snd h
    | some m =>
      simp only [tryLockAll, hm] at h
      simpa only [lockAll, hm, Option.bind_some] using ih h

theorem tryLockAll_undone {t : T} {locks locks₀ locks' : L → Mutex T} {taken ls : List L}
    (htaken : unlockAll t locks taken = locks₀) (h : tryLockAll t locks taken ls = (locks', false)) :
    locks' = locks₀ := by
  induction ls generalizing locks taken with
  | nil => exact absurd (congrArg Prod.snd h) (by simp [tryLockAll])
  | cons l rest ih =>
    cases hm : (locks l).lock t with
    | none =>
      simp only [tryLockAll, hm] at h
      exact (congrArg Prod.fst h).symm.trans htaken
    | some m =>
      simp only [tryLockAll, hm] at h
      refine ih ?_ h
      rw [← htaken]
      have hback : Function.update (Function.update locks l m) l (m.unlock t) = locks := by
        rw [Function.update_idem, Mutex.unlock_of_lock hm, Function.update_eq_self]
      simp only [unlockAll, List.foldl_cons, Function.update_self, hback]

end PjProject
