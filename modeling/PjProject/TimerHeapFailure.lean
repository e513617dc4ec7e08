import PjProject.TimerHeapSafety

/-! Timers that cannot be scheduled because the heap does not grow. The id of the entry is taken from the free list before
`grow_heap` is called, and is not given back when it fails. -/

set_option linter.unusedSectionVars false

namespace PjProject.TimerHeap

variable {E G A P : Type} [DecidableEq E] [DecidableEq G] [DecidableEq A] [DecidableEq P]

/-- A schedule that fails for want of memory leaves the entry idle, and the size and the free list as they were. -/
def FailsCleanly (s : State E G A P) : Action E G A P → Prop
  | .schedule entry delay now setId grpLock alloc =>
    (scheduleWGrpLock s entry delay now setId grpLock alloc).2 = .enomem →
      entryRunning (scheduleWGrpLock s entry delay now setId grpLock alloc).1.ht entry = false ∧
      (scheduleWGrpLock s entry delay now setId grpLock alloc).1.ht.curSize = s.ht.curSize ∧
      (scheduleWGrpLock s entry delay now setId grpLock alloc).1.ht.timerIdsFreelist = s.ht.timerIdsFreelist ∧
      ∀ i, 1 ≤ i → i < s.ht.maxSize →
        (scheduleWGrpLock s entry delay now setId grpLock alloc).1.ht.timerIds i = s.ht.timerIds i
  | _ => True

/-- A schedule that gets to `pop_freelist`. -/
def Pops (s : State E G A P) : Action E G A P → Prop
  | .schedule entry .. =>
    (s.ht.entries entry).cb ≠ none ∧ entryRunning s.ht entry = false ∧ s.ht.curSize < s.ht.maxSize
  | _ => False

/-- `pop_freelist` reads one of the `max_size` elements of `timer_ids`. -/
def ReadsInside (s : State E G A P) (act : Action E G A P) : Prop :=
  Pops s act → 0 ≤ s.ht.timerIdsFreelist ∧ s.ht.timerIdsFreelist < s.ht.maxSize

def CannotGrow (s : State E G A P) : Action E G A P → Prop
  | .schedule entry _ _ _ _ alloc => (s.ht.entries entry).cb ≠ none ∧ entryRunning s.ht entry = false ∧
    s.ht.maxSize ≤ s.ht.curSize + 2 ∧ (alloc.heap && alloc.timerDups && alloc.timerIds) = false
  | _ => False

theorem growHeap_snd (ht : Heap E G A) (alloc : Alloc) :
    (growHeap ht alloc).2 = if alloc.heap && alloc.timerDups && alloc.timerIds then .success else .enomem := by
  unfold growHeap
  cases alloc.heap <;> cases alloc.timerDups <;> cases alloc.timerIds <;> rfl

theorem growHeap_entries (ht : Heap E G A) (alloc : Alloc) : (growHeap ht alloc).1.entries = ht.entries := by
  unfold growHeap
  cases alloc.heap <;> cases alloc.timerDups <;> cases alloc.timerIds <;> rfl

section Schedule

variable {s : State E G A P}

/-- Without growth the allocations do not matter. -/
theorem scheduleEntry_of_room {ht : Heap E G A} (hroom : ht.curSize + 2 < ht.maxSize) (entry : E) (futureTime : TimeVal)
    (alloc : Alloc) :
    scheduleEntry ht entry futureTime alloc = scheduleEntry ht entry futureTime ⟨true, true, true⟩ := by
  have hcond : ¬((popFreelist ht).setTimerId entry ht.timerIdsFreelist).curSize + 2 ≥
      ((popFreelist ht).setTimerId entry ht.timerIdsFreelist).maxSize := Nat.not_le.mpr hroom
  unfold scheduleEntry insertNode
  rw [if_neg hcond, if_neg hcond]

theorem scheduleWGrpLock_of_room (hroom : s.ht.curSize + 2 < s.ht.maxSize) (entry : E) (delay now : TimeVal)
    (setId : Option Int) (grpLock : Option G) (alloc : Alloc) :
    scheduleWGrpLock s entry delay now setId grpLock alloc =
      scheduleWGrpLock s entry delay now setId grpLock ⟨true, true, true⟩ := by
  unfold scheduleWGrpLock
  rw [scheduleEntry_of_room hroom]

theorem scheduleWGrpLock_of_cannotGrow (h : Inv s.ht) {entry : E} {delay now : TimeVal} {setId : Option Int}
    {grpLock : Option G} {alloc : Alloc} (hgrow : CannotGrow s (.schedule entry delay now setId grpLock alloc)) :
    (scheduleWGrpLock s entry delay now setId grpLock alloc).2 = .enomem ∧
      ((scheduleWGrpLock s entry delay now setId grpLock alloc).1.ht.entries entry).timerId = s.ht.timerIdsFreelist := by
  obtain ⟨hcb, hidle, hfull, halloc⟩ := hgrow
  have hsize := h.size
  have hcond : ((popFreelist s.ht).setTimerId entry s.ht.timerIdsFreelist).curSize + 2 ≥
      ((popFreelist s.ht).setTimerId entry s.ht.timerIdsFreelist).maxSize := hfull
  have hstatus := growHeap_snd ((popFreelist s.ht).setTimerId entry s.ht.timerIdsFreelist) alloc
  have hentries := growHeap_entries ((popFreelist s.ht).setTimerId entry s.ht.timerIdsFreelist) alloc
  rw [halloc, if_neg Bool.false_ne_true] at hstatus
  generalize hgrown : growHeap ((popFreelist s.ht).setTimerId entry s.ht.timerIdsFreelist) alloc = grown at hstatus hentries
  obtain ⟨ht, status⟩ := grown
  have hfailed : status = .enomem := hstatus
  have hinsert : scheduleEntry s.ht entry (now.add delay) alloc = (ht, .enomem) := by
    unfold scheduleEntry insertNode
    rw [if_pos (by omega), if_pos hcond, hgrown, hfailed]
    exact if_neg nofun
  have hresult : scheduleWGrpLock s entry delay now setId grpLock alloc = ({ s with ht := ht }, .enomem) := by
    unfold scheduleWGrpLock
    rw [if_neg hcb, if_neg (by rw [hidle]; exact Bool.false_ne_true), hinsert]
  rw [hresult]
  refine ⟨rfl, ?_⟩
  have htimer : (ht.entries entry).timerId =
      (((popFreelist s.ht).setTimerId entry s.ht.timerIdsFreelist).entries entry).timerId := by rw [← hentries]
  rw [htimer]
  have hself : ((popFreelist s.ht).setTimerId entry s.ht.timerIdsFreelist).entries entry =
      { (popFreelist s.ht).entries entry with timerId := s.ht.timerIdsFreelist } := Function.update_self ..
  rw [hself]

theorem scheduleWGrpLock_of_canGrow {entry : E} {delay now : TimeVal} {setId : Option Int} {grpLock : Option G}
    {alloc : Alloc} (hgrow : ¬CannotGrow s (.schedule entry delay now setId grpLock alloc)) :
    scheduleWGrpLock s entry delay now setId grpLock alloc =
      scheduleWGrpLock s entry delay now setId grpLock ⟨true, true, true⟩ := by
  by_cases hcb : (s.ht.entries entry).cb = none
  · unfold scheduleWGrpLock
    rw [if_pos hcb, if_pos hcb]
  by_cases hrunning : entryRunning s.ht entry = true
  · unfold scheduleWGrpLock
    rw [if_neg hcb, if_neg hcb, if_pos hrunning, if_pos hrunning]
  by_cases hroom : s.ht.curSize + 2 < s.ht.maxSize
  · exact scheduleWGrpLock_of_room hroom entry delay now setId grpLock alloc
  · have halloc : (alloc.heap && alloc.timerDups && alloc.timerIds) = true := by
      by_contra hfails
      exact hgrow ⟨hcb, (Bool.not_eq_true _).mp hrunning, by omega, (Bool.not_eq_true _).mp hfails⟩
    obtain ⟨heap, timerDups, timerIds⟩ := alloc
    rw [Bool.and_eq_true, Bool.and_eq_true] at halloc
    obtain ⟨⟨hheap, hdups⟩, hids⟩ := halloc
    rw [show heap = true from hheap, show timerDups = true from hdups, show timerIds = true from hids]

theorem Inv.schedule_status (h : Inv s.ht) (entry : E) (delay now : TimeVal) (setId : Option Int) (grpLock : Option G) :
    (scheduleWGrpLock s entry delay now setId grpLock ⟨true, true, true⟩).2 ≠ .enomem := by
  unfold scheduleWGrpLock
  by_cases hcb : (s.ht.entries entry).cb = none
  · rw [if_pos hcb]
    exact nofun
  by_cases hrunning : entryRunning s.ht entry = true
  · rw [if_neg hcb, if_pos hrunning]
    exact nofun
  obtain ⟨ht', heq, -⟩ := h.scheduleEntry (e := entry)
    (Int.not_le.mp fun hle => hrunning (decide_eq_true hle)) (now.add delay)
  rw [if_neg hcb, if_neg hrunning, heq]
  exact nofun

end Schedule

theorem Inv.readsInside {s : State E G A P} (h : Inv s.ht) (act : Action E G A P) : ReadsInside s act := by
  obtain ⟨hlo, hhi⟩ := h.intact.pop
  exact fun _ => ⟨by omega, hhi⟩

/-- In a state with an intact heap a schedule fails cleanly just when it is not one that cannot grow the heap. -/
theorem Inv.failsCleanly_step {s : State E G A P} (h : Inv s.ht) (act : Action E G A P) :
    FailsCleanly s act ↔ ¬CannotGrow s act := by
  cases act with
  | schedule entry delay now setId grpLock alloc =>
    constructor
    · intro hclean hgrow
      obtain ⟨hstatus, htimer⟩ := scheduleWGrpLock_of_cannotGrow h hgrow
      have hidle := (hclean hstatus).1
      rw [entryRunning, htimer, decide_eq_false_iff_not] at hidle
      exact hidle h.intact.pop.1
    · intro hgrow hstatus
      rw [scheduleWGrpLock_of_canGrow hgrow] at hstatus
      exact absurd hstatus (h.schedule_status entry delay now setId grpLock)
  | entryInit | setMaxTimedOutPerPoll | cancel | poll | pollAgain => exact iff_of_true trivial id

theorem inv_step_of_canGrow (s : State E G A P) (act : Action E G A P) (s' : State E G A P) (h : Inv s.ht)
    (hgrow : ¬CannotGrow s act) (hstep : step s act = some s') : Inv s'.ht := by
  cases act with
  | schedule entry delay now setId grpLock alloc =>
    rw [step, scheduleWGrpLock_of_canGrow hgrow] at hstep
    rw [← Option.some.inj hstep]
    exact h.schedule entry delay now setId grpLock
  | entryInit entry id userData cb => exact inv_step s (.entryInit entry id userData cb) s' h trivial hstep
  | setMaxTimedOutPerPoll count => exact inv_step s (.setMaxTimedOutPerPoll count) s' h trivial hstep
  | cancel entry setId => exact inv_step s (.cancel entry setId) s' h trivial hstep
  | poll p wantsDelay now last => exact inv_step s (.poll p wantsDelay now last) s' h trivial hstep
  | pollAgain p now last => exact inv_step s (.pollAgain p now last) s' h trivial hstep

/-- In every run each schedule that fails for want of memory leaves the entry idle and the heap as it was, and no schedule
reads outside `timer_ids`, exactly when there is no schedule that has to grow the heap with an allocation that fails. -/
theorem failsCleanly_iff (size : Nat) (timerDups : Int → Dup E G A) {entries : E → Entry A}
    (hentries : ∀ e, (entries e).timerId = -1) (acts : List (Action E G A P)) :
    Meets step (fun s act => FailsCleanly s act ∧ ReadsInside s act) (start (create size timerDups entries)) acts ↔
      Meets step (fun s act => ¬CannotGrow s act) (start (create size timerDups entries)) acts := by
  refine meets_iff_of_invariant (P := fun s : State E G A P => Inv s.ht) (fun s act h => ?_) inv_step_of_canGrow
    (inv_create size timerDups entries hentries)
  rw [and_iff_left (h.readsInside act)]
  exact h.failsCleanly_step act

/-- A sample heap of the smallest size. -/
def smallest : State Nat Unit Unit Unit :=
  start (create 0 (fun _ => ⟨⟨0, 0, (), none⟩, 0, ⟨0, 0⟩, none⟩) fun _ => ⟨-1, 0, (), some ()⟩)

/-- The first timer cannot be scheduled; there is memory for the second one. -/
def cannotGrowOnce : List (Action Nat Unit Unit Unit) :=
  [.schedule 7 ⟨3, 0⟩ ⟨0, 0⟩ none none ⟨false, true, true⟩, .schedule 8 ⟨2, 0⟩ ⟨0, 0⟩ none none ⟨true, true, true⟩]

theorem failsCleanly_smallest :
    Meets step (fun s act => FailsCleanly s act ∧ ReadsInside s act) smallest
      [.schedule 7 ⟨3, 0⟩ ⟨0, 0⟩ none none ⟨true, true, true⟩, .schedule 8 ⟨2, 0⟩ ⟨0, 0⟩ none none ⟨true, true, true⟩] := by
  refine (failsCleanly_iff 0 _ (fun _ => Eq.refl _) _).mpr ⟨?_, fun s hs => ⟨?_, fun _ _ => trivial⟩⟩
  · rintro ⟨-, -, -, halloc⟩
    cases halloc
  · rintro ⟨-, -, -, halloc⟩
    cases halloc

/-- The entry that could not be scheduled is marked as running, and the next schedule reads behind the array. -/
theorem not_clean_cannotGrowOnce : ∃ s, exec step smallest (cannotGrowOnce.take 1) = some s ∧
    (scheduleWGrpLock smallest 7 ⟨3, 0⟩ ⟨0, 0⟩ none none ⟨false, true, true⟩).2 = .enomem ∧
    entryRunning s.ht 7 = true ∧ s.ht.timerIdsFreelist = 2 ∧ s.ht.maxSize = 2 ∧
    ¬Meets step (fun s act => FailsCleanly s act ∧ ReadsInside s act) smallest cannotGrowOnce := by
  have hsome := Option.some_get (x := exec step smallest (cannotGrowOnce.take 1)) (by decide)
  refine ⟨_, hsome.symm, by decide, by decide, by decide, by decide, fun hmeets => ?_⟩
  have hidle := (hmeets.1.1 (by decide)).1
  exact absurd hidle (by decide)

end PjProject.TimerHeap
