import Mathlib.Data.List.Nodup
import Mathlib.Data.List.Perm.Basic
import Mathlib.Order.Basic

/-! What a timer service does, as a history of events with the newest first. Entries are scheduled with an expiry and a
lock that they hold a reference of; calls of the poll function fire what is due, at most `max` entries each, and may be
interleaved with each other and with everything that the callbacks do. -/

namespace PjProject.TimerService

structure Timer (E τ L : Type*) where
  entry : E
  expiry : τ
  lock : Option L
  deriving DecidableEq

/-- `fired` is the call of a callback and `finished` its end; `now` is the clock value that the poll works with, and `clock`
the one that the delay to the next expiry is counted from. -/
inductive Event (E τ L P : Type*)
  | scheduled (timer : Timer E τ L)
  | cancelled (entry : E) (lock : Option L)
  | started (p : P) (now : τ)
  | fired (p : P) (timer : Timer E τ L) (now : τ)
  | finished (p : P) (lock : Option L)
  | returned (p : P) (count max : Nat) (now clock : τ) (delay : Option τ)
  deriving DecidableEq

/-- A list with distinct keys and one of its elements, put in front of the others. -/
theorem perm_cons_filter {α κ : Type*} [DecidableEq κ] {key : α → κ} {l : List α} (hnodup : (l.map key).Nodup) {a : α}
    (ha : a ∈ l) : l.Perm (a :: l.filter (key · ≠ key a)) := by
  induction l with
  | nil => cases ha
  | cons b l ih =>
    rw [List.map_cons, List.nodup_cons] at hnodup
    obtain ⟨hb, hrest⟩ := hnodup
    by_cases hab : key b = key a
    · have hnot : ∀ c ∈ l, key c ≠ key a := by
        intro c hc he
        exact hb (by rw [hab, ← he]; exact List.mem_map_of_mem hc)
      have heq : a = b := by
        rcases List.mem_cons.mp ha with he | hmem
        · exact he
        · exact absurd rfl (hnot a hmem)
      rw [List.filter_cons_of_neg (by simp [hab]), List.filter_eq_self.mpr fun c hc => decide_eq_true (hnot c hc), heq]
    · have hmem : a ∈ l := (List.mem_cons.mp ha).resolve_left fun he => hab (by rw [he])
      rw [List.filter_cons_of_pos (by simp [hab])]
      exact ((ih hrest hmem).cons b).trans (List.Perm.swap a b _)

variable {E τ L P : Type*} [DecidableEq E] [DecidableEq P]

def pendingOf : List (Event E τ L P) → List (Timer E τ L)
  | [] => []
  | .scheduled timer :: past => timer :: pendingOf past
  | .cancelled entry _ :: past => (pendingOf past).filter (·.entry ≠ entry)
  | .fired _ timer _ :: past => (pendingOf past).filter (·.entry ≠ timer.entry)
  | .started .. :: past | .finished .. :: past | .returned .. :: past => pendingOf past

def callsOf : List (Event E τ L P) → List (P × Option L)
  | [] => []
  | .fired p timer _ :: past => (p, timer.lock) :: callsOf past
  | .finished p _ :: past => (callsOf past).filter (·.1 ≠ p)
  | .scheduled .. :: past | .cancelled .. :: past | .started .. :: past | .returned .. :: past => callsOf past

/-- The number of timers that the poll has fired since it was started. -/
def firedBy (p : P) : List (Event E τ L P) → Nat
  | [] => 0
  | .started q _ :: past => if q = p then 0 else firedBy p past
  | .fired q _ _ :: past => if q = p then firedBy p past + 1 else firedBy p past
  | .scheduled .. :: past | .cancelled .. :: past | .finished .. :: past | .returned .. :: past => firedBy p past

section Legal

variable [Preorder τ] (remaining : τ → τ → τ) (never : τ)

def IsDelay (timers : List (Timer E τ L)) (clock delay : τ) : Prop :=
  (timers = [] ∧ delay = never) ∨
    ∃ t ∈ timers, (∀ u ∈ timers, t.expiry ≤ u.expiry) ∧ delay = remaining t.expiry clock

/-- What may happen after `past`: an entry is scheduled when it is not pending, and cancelled when it is; a poll fires an
entry that is due and has the least expiry of those pending, and it returns when it has fired `max` or nothing is due. -/
def Legal (past : List (Event E τ L P)) : Event E τ L P → Prop
  | .scheduled timer => ∀ u ∈ pendingOf past, u.entry ≠ timer.entry
  | .cancelled entry lock => ∃ u ∈ pendingOf past, u.entry = entry ∧ u.lock = lock
  | .started p _ => ∀ c ∈ callsOf past, c.1 ≠ p
  | .fired p timer now => timer ∈ pendingOf past ∧ timer.expiry ≤ now ∧
      (∀ u ∈ pendingOf past, timer.expiry ≤ u.expiry) ∧ ∀ c ∈ callsOf past, c.1 ≠ p
  | .finished p lock => (p, lock) ∈ callsOf past
  | .returned p count max now clock delay => count = firedBy p past ∧
      (max ≤ count ∨ ∀ u ∈ pendingOf past, ¬u.expiry ≤ now) ∧
      ∀ d ∈ delay, IsDelay remaining never (pendingOf past) clock d

def Sound : List (Event E τ L P) → Prop
  | [] => True
  | event :: past => Legal remaining never past event ∧ Sound past

end Legal

section Facts

variable [Preorder τ] {remaining : τ → τ → τ} {never : τ} {past : List (Event E τ L P)}

theorem Sound.append {later : List (Event E τ L P)} (h : Sound remaining never (later ++ past)) :
    Sound remaining never past := by
  induction later with
  | nil => exact h
  | cons event later ih => exact ih h.2

theorem Sound.nodup (h : Sound remaining never past) : ((pendingOf past).map Timer.entry).Nodup := by
  induction past with
  | nil => exact List.nodup_nil
  | cons event past ih =>
    have hpast := ih h.2
    have hfilter : ∀ e : E, (((pendingOf past).filter (·.entry ≠ e)).map Timer.entry).Nodup := fun e =>
      hpast.sublist (List.filter_sublist.map Timer.entry)
    cases event with
    | scheduled timer =>
      refine List.nodup_cons.mpr ⟨fun hmem => ?_, hpast⟩
      obtain ⟨u, hu, he⟩ := List.mem_map.mp hmem
      exact h.1 u hu he
    | cancelled entry lock => exact hfilter entry
    | fired p timer now => exact hfilter timer.entry
    | started | finished | returned => exact hpast

theorem Sound.nodup_calls (h : Sound remaining never past) : ((callsOf past).map Prod.fst).Nodup := by
  induction past with
  | nil => exact List.nodup_nil
  | cons event past ih =>
    have hpast := ih h.2
    cases event with
    | fired p timer now =>
      refine List.nodup_cons.mpr ⟨fun hmem => ?_, hpast⟩
      obtain ⟨c, hc, he⟩ := List.mem_map.mp hmem
      exact h.1.2.2.2 c hc he
    | finished p lock => exact hpast.sublist (List.filter_sublist.map Prod.fst)
    | scheduled | cancelled | started | returned => exact hpast

omit [DecidableEq P] [Preorder τ] in
theorem mem_pendingOf_append {mid : List (Event E τ L P)} {t : Timer E τ L} (ht : t ∈ pendingOf (mid ++ past)) :
    t ∈ pendingOf past ∨ Event.scheduled t ∈ mid := by
  induction mid with
  | nil => exact Or.inl ht
  | cons event mid ih =>
    have hmid : t ∈ pendingOf (mid ++ past) → t ∈ pendingOf past ∨ Event.scheduled t ∈ event :: mid := fun hm =>
      (ih hm).imp id fun h => List.mem_cons_of_mem event h
    cases event with
    | scheduled timer =>
      rcases List.mem_cons.mp ht with he | hm
      · rw [he]
        exact Or.inr List.mem_cons_self
      · exact hmid hm
    | cancelled entry lock => exact hmid (List.mem_of_mem_filter ht)
    | fired p timer now => exact hmid (List.mem_of_mem_filter ht)
    | started | finished | returned => exact hmid ht

theorem Sound.ordered {mid : List (Event E τ L P)} {p q : P} {t u : Timer E τ L} {now now' : τ}
    (h : Sound remaining never (.fired p t now :: (mid ++ .fired q u now' :: past))) :
    u.expiry ≤ t.expiry ∨ Event.scheduled t ∈ mid := by
  have hlegal := h.2.append.1
  rcases mem_pendingOf_append h.1.1 with hpending | hmid
  · exact Or.inl (hlegal.2.2.1 t (List.mem_of_mem_filter hpending))
  · exact Or.inr hmid

def Event.begins (e : E) : Event E τ L P → Bool
  | .scheduled timer => timer.entry = e
  | _ => false

def Event.ends (e : E) : Event E τ L P → Bool
  | .cancelled entry _ => entry = e
  | .fired _ timer _ => timer.entry = e
  | _ => false

theorem Sound.perm (h : Sound remaining never past) {t : Timer E τ L} (ht : t ∈ pendingOf past) :
    (pendingOf past).Perm (t :: (pendingOf past).filter (·.entry ≠ t.entry)) := perm_cons_filter h.nodup ht

/-- An entry has been cancelled or fired once for each time that it was scheduled, unless it is pending. -/
theorem Sound.once (h : Sound remaining never past) (e : E) :
    past.countP (Event.begins e) = past.countP (Event.ends e) + (pendingOf past).countP (·.entry = e) := by
  induction past with
  | nil => rfl
  | cons event past ih =>
    have hpast := ih h.2
    have hends : ∀ t ∈ pendingOf past, (pendingOf past).countP (·.entry = e) =
        (if t.entry = e then 1 else 0) + ((pendingOf past).filter (·.entry ≠ t.entry)).countP (·.entry = e) := by
      intro t ht
      rw [(h.2.perm ht).countP_eq, List.countP_cons, Nat.add_comm]
      by_cases he : t.entry = e
      · rw [if_pos (decide_eq_true he), if_pos he]
      · rw [if_neg (by rw [decide_eq_false he]; exact Bool.false_ne_true), if_neg he]
    cases event with
    | scheduled timer =>
      have hbegins : Event.begins e (.scheduled timer : Event E τ L P) = decide (timer.entry = e) := rfl
      rw [List.countP_cons, List.countP_cons_of_neg Bool.false_ne_true, pendingOf, List.countP_cons, hpast, hbegins,
        Nat.add_assoc]
    | cancelled entry lock =>
      obtain ⟨u, hu, hentry, -⟩ := h.1
      have hu' := hends u hu
      rw [hentry] at hu'
      rw [List.countP_cons_of_neg Bool.false_ne_true, hpast, pendingOf, hu', List.countP_cons, Event.ends]
      by_cases he : entry = e
      · rw [if_pos he, if_pos (decide_eq_true he)]
        omega
      · rw [if_neg he, if_neg (by rw [decide_eq_false he]; exact Bool.false_ne_true)]
        omega
    | fired p timer now =>
      have hu' := hends timer h.1.1
      rw [List.countP_cons_of_neg Bool.false_ne_true, hpast, pendingOf, hu', List.countP_cons, Event.ends]
      by_cases he : timer.entry = e
      · rw [if_pos he, if_pos (decide_eq_true he)]
        omega
      · rw [if_neg he, if_neg (by rw [decide_eq_false he]; exact Bool.false_ne_true)]
        omega
    | started | finished | returned =>
      rw [List.countP_cons_of_neg Bool.false_ne_true, List.countP_cons_of_neg Bool.false_ne_true]
      exact hpast

end Facts

section Locks

variable [Preorder τ] [DecidableEq L] {remaining : τ → τ → τ} {never : τ} {past : List (Event E τ L P)}

/-- The references of a lock: those of pending timers, and of timers whose callbacks are being called. -/
def heldBy (l : L) (past : List (Event E τ L P)) : Nat :=
  (pendingOf past).countP (·.lock = some l) + (callsOf past).countP (·.2 = some l)

/-- The reference that a lock argument stands for. -/
def one (l : L) (lock : Option L) : Nat := if lock = some l then 1 else 0

omit [Preorder τ] in
theorem heldBy_scheduled (l : L) (t : Timer E τ L) :
    heldBy l (.scheduled t :: past) = heldBy l past + one l t.lock := by
  rw [heldBy, heldBy, pendingOf, callsOf, List.countP_cons, one, Nat.add_right_comm]
  by_cases ht : t.lock = some l
  · rw [if_pos (decide_eq_true ht), if_pos ht]
  · rw [if_neg (by rw [decide_eq_false ht]; exact Bool.false_ne_true), if_neg ht]

theorem Sound.countP_lock (h : Sound remaining never past) (l : L) {t : Timer E τ L} (ht : t ∈ pendingOf past) :
    (pendingOf past).countP (·.lock = some l) =
      ((pendingOf past).filter (·.entry ≠ t.entry)).countP (·.lock = some l) + one l t.lock := by
  rw [(h.perm ht).countP_eq, List.countP_cons, one]
  by_cases ht : t.lock = some l
  · rw [if_pos (decide_eq_true ht), if_pos ht]
  · rw [if_neg (by rw [decide_eq_false ht]; exact Bool.false_ne_true), if_neg ht]

theorem Sound.heldBy_cancelled {e : E} {lock : Option L}
    (h : Sound remaining never (.cancelled e lock :: past)) (l : L) :
    heldBy l past = heldBy l (.cancelled e lock :: past) + one l lock := by
  obtain ⟨u, hu, hentry, hlock⟩ := h.1
  have hcount := h.2.countP_lock l hu
  rw [hentry, hlock] at hcount
  rw [heldBy, heldBy, pendingOf, callsOf, hcount]
  omega

theorem Sound.heldBy_fired {p : P} {t : Timer E τ L} {now : τ} (h : Sound remaining never (.fired p t now :: past))
    (l : L) : heldBy l (.fired p t now :: past) = heldBy l past := by
  have hcount := h.2.countP_lock l h.1.1
  rw [heldBy, heldBy, pendingOf, callsOf, hcount, List.countP_cons, one]
  by_cases ht : t.lock = some l
  · rw [if_pos (decide_eq_true ht), if_pos ht]
    omega
  · rw [if_neg (by rw [decide_eq_false ht]; exact Bool.false_ne_true), if_neg ht]
    omega

theorem Sound.heldBy_finished {p : P} {lock : Option L} (h : Sound remaining never (.finished p lock :: past)) (l : L) :
    heldBy l past = heldBy l (.finished p lock :: past) + one l lock := by
  have hperm := perm_cons_filter h.2.nodup_calls h.1
  rw [heldBy, heldBy, pendingOf, callsOf, hperm.countP_eq, List.countP_cons, one]
  by_cases ht : lock = some l
  · rw [if_pos (decide_eq_true ht), if_pos ht, Nat.add_assoc]
  · rw [if_neg (by rw [decide_eq_false ht]; exact Bool.false_ne_true), if_neg ht, Nat.add_assoc]

end Locks

end PjProject.TimerService
