import PjProject.TimerHeapTimers

/-! `pj_timer_heap_poll` fires what is due. The clock is read when the poll is called and again after every callback, and a
callback, like any other thread, may schedule and cancel in between. -/

set_option linter.unusedSectionVars false

namespace PjProject.TimerHeap

open TimerService BinaryHeap

variable {E G A P : Type} [DecidableEq E] [DecidableEq G] [DecidableEq A] [DecidableEq P]

/-- What a turn of `pj_timer_heap_poll` does: the call of a callback, or the return. -/
def pollEvents (s : State E G A P) (p : P) (count : Nat) (wantsDelay : Bool) (now last : TimeVal) :
    List (Event E TimeVal G P) :=
  let next := pollTurn s p count wantsDelay now last
  match next.polls p with
  | .idle => []
  | .unlocked _ entry valid grpLock _ =>
    if valid = true ∧ (next.ht.entries entry).cb ≠ none then [.fired p ⟨entry, s.ht.value 0, grpLock⟩ now] else []
  | .returned count delay => [.returned p count s.ht.maxEntriesPerPoll now (if 0 < count then last else now) delay]

/-- What a step does. -/
def events (s : State E G A P) : Action E G A P → List (Event E TimeVal G P)
  | .entryInit .. | .setMaxTimedOutPerPoll .. => []
  | .schedule entry delay now setId grpLock alloc =>
    if (scheduleWGrpLock s entry delay now setId grpLock alloc).2 = .success then
      [.scheduled ⟨entry, now.add delay, grpLock⟩]
    else []
  | .cancel entry setId =>
    if (cancelTimer s entry setId).2 = 1 then
      [.cancelled entry (s.ht.timerDups (s.ht.entries entry).timerId).grpLock]
    else []
  | .poll p wantsDelay now last => .started p now :: pollEvents s p 0 wantsDelay now last
  | .pollAgain p now last =>
    match s.polls p with
    | .unlocked count _ valid grpLock wantsDelay =>
      let refs := if valid then addRefs s.refs grpLock (-1) else s.refs
      (if valid then [.finished p grpLock] else []) ++ pollEvents { s with refs := refs } p count wantsDelay now last
    | _ => []

structure Holds (ht : Heap E G A) (timers : List (Timer E TimeVal G)) : Prop where
  inv : Inv ht
  perm : (slotTimers ht).Perm timers
  cb : ∀ i ∈ nodes ht, (ht.timerDups i).dup.cb = (ht.entries (ht.timerDups i).entry).cb ∧
    (ht.entries (ht.timerDups i).entry).cb ≠ none
  userData : ∀ i ∈ nodes ht, (ht.timerDups i).dup.userData = (ht.entries (ht.timerDups i).entry).userData

section Heap

variable {ht : Heap E G A} {timers : List (Timer E TimeVal G)}

theorem Holds.mem_iff (h : Holds ht timers) {t : Timer E TimeVal G} :
    t ∈ timers ↔ ∃ i ∈ nodes ht, timerOf ht i = t := by
  rw [← h.perm.mem_iff, slotTimers, List.mem_map]

theorem Holds.running_iff (h : Holds ht timers) (e : E) : entryRunning ht e = true ↔ ∃ t ∈ timers, t.entry = e := by
  rw [entryRunning, decide_eq_true_eq]
  constructor
  · intro he
    obtain ⟨i, hi, hentry⟩ := h.inv.running e he
    exact ⟨timerOf ht i, h.mem_iff.mpr ⟨i, mem_nodes.mpr hi, rfl⟩, hentry⟩
  · rintro ⟨t, ht', hentry⟩
    obtain ⟨i, hi, htimer⟩ := h.mem_iff.mp ht'
    have huse := mem_nodes.mp hi
    have hid := h.inv.entry i huse
    rw [← hentry, ← htimer]
    exact (h.inv.range i huse).1.trans_eq hid.symm

theorem Holds.least (h : Holds ht timers) {t : Timer E TimeVal G} (ht' : t ∈ timers) : ht.value 0 ≤ t.expiry := by
  obtain ⟨i, hi, htimer⟩ := h.mem_iff.mp ht'
  obtain ⟨s, hs, heq⟩ := mem_nodes.mp hi
  rw [← htimer, ← heq]
  exact h.inv.ordered.root_le hs

theorem Holds.length (h : Holds ht timers) : timers.length = ht.curSize := by
  rw [← h.perm.length_eq, slotTimers, List.length_map, nodes, List.length_map, List.length_range]

theorem Holds.congr (h : Holds ht timers) {ht' : Heap E G A} (hinv : Inv ht') (hnodes : nodes ht' = nodes ht)
    (hdups : ∀ i ∈ nodes ht, timerOf ht' i = timerOf ht i ∧ (ht'.timerDups i).dup.cb = (ht.timerDups i).dup.cb ∧
      (ht'.timerDups i).dup.userData = (ht.timerDups i).dup.userData)
    (hentries : ∀ i ∈ nodes ht, (ht'.entries (ht.timerDups i).entry).cb = (ht.entries (ht.timerDups i).entry).cb ∧
      (ht'.entries (ht.timerDups i).entry).userData = (ht.entries (ht.timerDups i).entry).userData) :
    Holds ht' timers := by
  have hentry : ∀ i ∈ nodes ht, (ht'.timerDups i).entry = (ht.timerDups i).entry := fun i hi =>
    congrArg Timer.entry (hdups i hi).1
  refine ⟨hinv, ?_, fun i hi => ?_, fun i hi => ?_⟩
  · have hmap : slotTimers ht' = slotTimers ht := by
      rw [slotTimers, slotTimers, hnodes]
      exact List.map_congr_left fun i hi => (hdups i hi).1
    rw [hmap]
    exact h.perm
  · rw [hnodes] at hi
    rw [hentry i hi, (hdups i hi).2.1, (hentries i hi).1]
    exact h.cb i hi
  · rw [hnodes] at hi
    rw [hentry i hi, (hdups i hi).2.2, (hentries i hi).2]
    exact h.userData i hi

theorem Holds.entryInit (h : Holds ht timers) {e : E} (hidle : entryRunning ht e = false) (id : Int) (userData : A)
    (cb : Option A) : Holds (entryInit ht e id userData cb) timers := by
  have hlt : (ht.entries e).timerId < 1 := Int.not_le.mp (of_decide_eq_false hidle)
  refine h.congr (h.inv.entryInit hlt id userData cb) rfl (fun i _ => ⟨rfl, rfl, rfl⟩)
    fun i hi => ?_
  have huse := mem_nodes.mp hi
  have hne : (ht.timerDups i).entry ≠ e := by
    intro he
    have hid := h.inv.entry i huse
    have hrange := h.inv.range i huse
    rw [he] at hid
    omega
  have hsame : (TimerHeap.entryInit ht e id userData cb).entries (ht.timerDups i).entry =
      ht.entries (ht.timerDups i).entry := Function.update_of_ne hne ..
  rw [hsame]
  exact ⟨rfl, rfl⟩

theorem Holds.setId (h : Holds ht timers) (e : E) (id : Int) :
    Holds { ht with entries := Function.update ht.entries e { ht.entries e with id := id } } timers := by
  have hsame : ∀ e', (Function.update ht.entries e { ht.entries e with id := id } e').timerId = (ht.entries e').timerId ∧
      (Function.update ht.entries e { ht.entries e with id := id } e').cb = (ht.entries e').cb ∧
      (Function.update ht.entries e { ht.entries e with id := id } e').userData = (ht.entries e').userData := by
    intro e'
    by_cases he : e' = e
    · rw [he, Function.update_self]
      exact ⟨rfl, rfl, rfl⟩
    · rw [Function.update_of_ne he]
      exact ⟨rfl, rfl, rfl⟩
  have hinv : Inv { ht with entries := Function.update ht.entries e { ht.entries e with id := id } } :=
    h.inv.congr rfl rfl rfl rfl rfl (fun _ => ⟨rfl, rfl, rfl⟩)
      fun e' _ => (hsame e').1
  exact h.congr hinv rfl (fun _ _ => ⟨rfl, rfl, rfl⟩) fun i _ => (hsame _).2

theorem Holds.nodup (h : Holds ht timers) : (timers.map Timer.entry).Nodup := by
  have hnodes : ((nodes ht).map fun i => (ht.timerDups i).entry).Nodup := by
    refine List.Nodup.map_on (fun i hi j hj heq => ?_) h.inv.nodup_nodes
    have hid := h.inv.entry i (mem_nodes.mp hi)
    rw [heq, h.inv.entry j (mem_nodes.mp hj)] at hid
    exact hid.symm
  rw [← (h.perm.map Timer.entry).nodup_iff, slotTimers, List.map_map]
  exact hnodes

theorem Holds.remove (h : Holds ht timers) {slot : Nat} (hslot : slot < ht.curSize) :
    Holds (removeNode ht slot) (timers.filter (·.entry ≠ (timerOf ht (ht.heap slot)).entry)) := by
  have hnode : ht.heap slot ∈ nodes ht := mem_nodes.mpr ⟨slot, hslot, rfl⟩
  have hperm := h.inv.remove_nodes hslot
  have hnodup := List.nodup_cons.mp (hperm.nodup_iff.mp h.inv.nodup_nodes)
  have hstays : ∀ i ∈ nodes (removeNode ht slot), i ∈ nodes ht ∧ i ≠ ht.heap slot := fun i hi =>
    ⟨hperm.mem_iff.mpr (List.mem_cons_of_mem _ hi), fun he => hnodup.1 (he ▸ hi)⟩
  have hentry : ∀ i ∈ nodes (removeNode ht slot),
      (removeNode ht slot).entries (ht.timerDups i).entry = ht.entries (ht.timerDups i).entry := by
    intro i hi
    obtain ⟨hmem, hne⟩ := hstays i hi
    rw [h.inv.remove_entries hslot]
    refine Function.update_of_ne (fun he => hne ?_) ..
    rw [← h.inv.entry i (mem_nodes.mp hmem), he, h.inv.entry _ (mem_nodes.mp hnode)]
  refine ⟨h.inv.remove hslot, ?_, fun i hi => ?_, fun i hi => ?_⟩
  · have htimers := (h.inv.remove_timers hslot).symm.trans h.perm
    have hmem : timerOf ht (ht.heap slot) ∈ timers := h.mem_iff.mpr ⟨_, hnode, rfl⟩
    exact (htimers.trans (perm_cons_filter h.nodup hmem)).cons_inv
  · obtain ⟨hmem, hne⟩ := hstays i hi
    rw [h.inv.remove_dups hslot hne, hentry i hi]
    exact h.cb i hmem
  · obtain ⟨hmem, hne⟩ := hstays i hi
    rw [h.inv.remove_dups hslot hne, hentry i hi]
    exact h.userData i hmem

theorem Holds.schedule {s : State E G A P} (h : Holds s.ht timers) {e : E} {delay now : TimeVal} {setId : Option Int}
    {grpLock : Option G} {next : State E G A P}
    (hnext : scheduleWGrpLock s e delay now setId grpLock ⟨true, true, true⟩ = (next, .success)) :
    Holds next.ht (⟨e, now.add delay, grpLock⟩ :: timers) ∧ (∀ t ∈ timers, t.entry ≠ e) ∧
      next.refs = addRefs s.refs grpLock 1 ∧ next.polls = s.polls ∧
      next.ht.maxEntriesPerPoll = s.ht.maxEntriesPerPoll := by
  have hinv : Inv next.ht := by
    have hschedule := h.inv.schedule e delay now setId grpLock
    rw [hnext] at hschedule
    exact hschedule
  unfold scheduleWGrpLock at hnext
  by_cases hcb : (s.ht.entries e).cb = none
  · rw [if_pos hcb] at hnext
    cases (Prod.mk.inj hnext).2
  by_cases hrunning : entryRunning s.ht e = true
  · rw [if_neg hcb, if_pos hrunning] at hnext
    cases (Prod.mk.inj hnext).2
  have hidle : (s.ht.entries e).timerId < 1 := Int.not_le.mp fun hle => hrunning (decide_eq_true hle)
  obtain ⟨ht', heq, -, hadded⟩ := h.inv.schedule_added hidle (now.add delay)
  rw [if_neg hcb, if_neg hrunning, heq] at hnext
  have hfinal := (Prod.mk.inj hnext).1
  have hid : (ht'.entries e).timerId = s.ht.timerIdsFreelist := by rw [hadded.entry]
  have hne : ∀ i ∈ nodes s.ht, i ≠ s.ht.timerIdsFreelist := fun i hi => h.inv.ne_free_of_mem hi
  have hnotin : ∀ t ∈ timers, t.entry ≠ e := fun t ht he => hrunning ((h.running_iff e).mpr ⟨t, ht, he⟩)
  have hnodes : nodes next.ht = nodes ht' := by
    rw [← hfinal]
    rfl
  have hfree : next.ht.timerDups s.ht.timerIdsFreelist = { ht'.timerDups s.ht.timerIdsFreelist with
      dup := { (ht'.timerDups s.ht.timerIdsFreelist).dup with
        id := setId.getD (ht'.timerDups s.ht.timerIdsFreelist).dup.id }
      grpLock := grpLock } := by
    rw [← hfinal, ← hid]
    exact Function.update_self ..
  have hold : ∀ i ∈ nodes s.ht, next.ht.timerDups i = s.ht.timerDups i := by
    intro i hi
    rw [← hadded.dups i (hne i hi), ← hfinal]
    exact Function.update_of_ne (by rw [hid]; exact hne i hi) ..
  have hself : (next.ht.entries e).cb = (s.ht.entries e).cb ∧
      (next.ht.entries e).userData = (s.ht.entries e).userData := by
    have hupdate : next.ht.entries e = { ht'.entries e with id := setId.getD (ht'.entries e).id } := by
      rw [← hfinal]
      exact Function.update_self ..
    rw [hupdate, hadded.entry]
    exact ⟨rfl, rfl⟩
  have hother : ∀ i ∈ nodes s.ht, next.ht.entries (s.ht.timerDups i).entry = s.ht.entries (s.ht.timerDups i).entry := by
    intro i hi
    have hentry : (s.ht.timerDups i).entry ≠ e := hnotin (timerOf s.ht i) (h.mem_iff.mpr ⟨i, hi, rfl⟩)
    rw [← hadded.entries _ hentry, ← hfinal]
    exact Function.update_of_ne hentry ..
  have hperm : (nodes next.ht).Perm (s.ht.timerIdsFreelist :: nodes s.ht) := by
    rw [hnodes]
    exact hadded.nodes
  have hcases : ∀ i ∈ nodes next.ht, i = s.ht.timerIdsFreelist ∨ i ∈ nodes s.ht := fun i hi =>
    List.mem_cons.mp (hperm.mem_iff.mp hi)
  refine ⟨⟨hinv, ?_, fun i hi => ?_, fun i hi => ?_⟩, hnotin, ?_, ?_, ?_⟩
  · have hnew : timerOf next.ht s.ht.timerIdsFreelist = ⟨e, now.add delay, grpLock⟩ := by
      rw [timerOf, hfree, hadded.dup]
    have hmap : (nodes s.ht).map (timerOf next.ht) = slotTimers s.ht := map_timerOf_congr hold
    refine (hperm.map (timerOf next.ht)).trans ?_
    rw [List.map_cons, hnew, hmap]
    exact h.perm.cons _
  · rcases hcases i hi with he | hmem
    · rw [he, hfree, hadded.dup]
      exact ⟨hself.1.symm, by rw [hself.1]; exact hcb⟩
    · rw [hold i hmem, hother i hmem]
      exact h.cb i hmem
  · rcases hcases i hi with he | hmem
    · rw [he, hfree, hadded.dup]
      exact hself.2.symm
    · rw [hold i hmem, hother i hmem]
      exact h.userData i hmem
  · rw [← hfinal]
  · rw [← hfinal]
  · rw [← hfinal]
    exact hadded.limit

theorem Holds.schedule_failed {s : State E G A P} (h : Holds s.ht timers) {e : E} {delay now : TimeVal}
    {setId : Option Int} {grpLock : Option G} {next : State E G A P} {status : Status}
    (hnext : scheduleWGrpLock s e delay now setId grpLock ⟨true, true, true⟩ = (next, status))
    (hstatus : status ≠ .success) : next = s := by
  unfold scheduleWGrpLock at hnext
  by_cases hcb : (s.ht.entries e).cb = none
  · rw [if_pos hcb] at hnext
    exact (Prod.mk.inj hnext).1.symm
  by_cases hrunning : entryRunning s.ht e = true
  · rw [if_neg hcb, if_pos hrunning] at hnext
    exact (Prod.mk.inj hnext).1.symm
  obtain ⟨ht', heq, -⟩ := h.inv.scheduleEntry (Int.not_le.mp fun hle => hrunning (decide_eq_true hle)) (now.add delay)
  rw [if_neg hcb, if_neg hrunning, heq] at hnext
  exact absurd (Prod.mk.inj hnext).2.symm hstatus

theorem Holds.cancel {s : State E G A P} (h : Holds s.ht timers) {e : E} (setId : Option Int)
    (hrunning : entryRunning s.ht e = true) : ∃ t ∈ timers, t.entry = e ∧
      t.lock = (s.ht.timerDups (s.ht.entries e).timerId).grpLock ∧ (cancelTimer s e setId).2 = 1 ∧
      Holds (cancelTimer s e setId).1.ht (timers.filter (·.entry ≠ e)) ∧
      (cancelTimer s e setId).1.refs = addRefs s.refs t.lock (-1) ∧ (cancelTimer s e setId).1.polls = s.polls ∧
      (cancelTimer s e setId).1.ht.maxEntriesPerPoll = s.ht.maxEntriesPerPoll := by
  have hid : 1 ≤ (s.ht.entries e).timerId := of_decide_eq_true hrunning
  obtain ⟨i, huse, hentry⟩ := h.inv.running e hid
  have hnode := h.inv.entry i huse
  rw [hentry] at hnode
  obtain ⟨-, hlt⟩ := h.inv.range i huse
  obtain ⟨slot, hslot, heq⟩ := huse
  have hmem : timerOf s.ht i ∈ timers := h.mem_iff.mpr ⟨i, mem_nodes.mpr ⟨slot, hslot, heq⟩, rfl⟩
  have hindex := h.inv.index slot hslot
  have hcancel : TimerHeap.cancel s.ht e = (removeNode s.ht slot, 1) := by
    simp only [TimerHeap.cancel, hnode, ← heq, hindex, Int.toNat_natCast]
    rw [heq, hentry, if_neg (by omega), if_neg fun hne => hne rfl]
  have hresult : cancelTimer s e setId = ({ s with
      ht := { removeNode s.ht slot with
        entries := Function.update (removeNode s.ht slot).entries e
          { (removeNode s.ht slot).entries e with id := setId.getD ((removeNode s.ht slot).entries e).id } }
      refs := addRefs s.refs (s.ht.timerDups (s.ht.entries e).timerId).grpLock (-1) }, 1) := by
    unfold cancelTimer
    rw [hcancel]
    exact if_neg (by omega)
  have hremove := h.remove hslot
  rw [heq] at hremove
  have hfilter : (timerOf s.ht i).entry = e := hentry
  rw [hfilter] at hremove
  refine ⟨timerOf s.ht i, hmem, hentry, by rw [hnode]; exact rfl, by rw [hresult], ?_, ?_, ?_, ?_⟩
  · rw [hresult]
    exact hremove.setId e (setId.getD ((removeNode s.ht slot).entries e).id)
  · rw [hresult, hnode]
    rfl
  · rw [hresult]
  · rw [hresult]
    exact h.inv.remove_limit hslot

theorem Holds.setDup (h : Holds ht timers) {i : Int} (hi : i ∉ nodes ht) (dup : Dup E G A) :
    Holds { ht with timerDups := Function.update ht.timerDups i dup } timers := by
  have hold : ∀ j ∈ nodes ht, Function.update ht.timerDups i dup j = ht.timerDups j := by
    intro j hj
    refine Function.update_of_ne (fun he => hi ?_) ..
    rw [← he]
    exact hj
  have hinuse : ∀ j, InUse { ht with timerDups := Function.update ht.timerDups i dup } j ↔ InUse ht j := fun _ => Iff.rfl
  have hdups : ∀ j, InUse ht j → Function.update ht.timerDups i dup j = ht.timerDups j := fun j hj =>
    hold j (mem_nodes.mpr hj)
  have hvalue : ∀ slot, slot < ht.curSize →
      ({ ht with timerDups := Function.update ht.timerDups i dup } : Heap E G A).value slot = ht.value slot := fun slot hs =>
    congrArg Dup.timerValue (hdups (ht.heap slot) ⟨slot, hs, rfl⟩)
  have hinv : Inv { ht with timerDups := Function.update ht.timerDups i dup } := by
    refine ⟨h.inv.size, fun slot hpos hs => ?_, h.inv.index, h.inv.range, fun j hj => ?_, fun j hj => ?_, fun e he => ?_,
      h.inv.free⟩
    · have hparent : parent slot < ht.curSize := Nat.lt_trans (parent_lt hpos) hs
      rw [hvalue slot hs, hvalue (parent slot) hparent]
      exact h.inv.ordered slot hpos hs
    · exact (congrArg (fun d => d.dup.timerId) (hdups j hj)).trans (h.inv.dup j hj)
    · exact (congrArg (fun d => (ht.entries d.entry).timerId) (hdups j hj)).trans (h.inv.entry j hj)
    · obtain ⟨j, hj, hentry⟩ := h.inv.running e he
      exact ⟨j, hj, (congrArg Dup.entry (hdups j hj)).trans hentry⟩
  refine h.congr hinv rfl (fun j hj => ?_) fun _ _ => ⟨rfl, rfl⟩
  have hsame := hold j hj
  refine ⟨?_, congrArg (fun d => d.dup.cb) hsame, congrArg (fun d => d.dup.userData) hsame⟩
  exact congrArg (fun d : Dup E G A => (⟨d.entry, d.timerValue, d.grpLock⟩ : Timer E TimeVal G)) hsame

theorem Holds.fire {s : State E G A P} (h : Holds s.ht timers) (p : P) {count : Nat} (wantsDelay : Bool)
    {now : TimeVal} (last : TimeVal)
    (hcond : 0 < s.ht.curSize ∧ (s.ht.value 0).lte now = true ∧ count < s.ht.maxEntriesPerPoll) :
    ∃ t ∈ timers, t.expiry ≤ now ∧ (∀ u ∈ timers, t.expiry ≤ u.expiry) ∧
      pollEvents s p count wantsDelay now last = [.fired p t now] ∧
      Holds (pollTurn s p count wantsDelay now last).ht (timers.filter (·.entry ≠ t.entry)) ∧
      (pollTurn s p count wantsDelay now last).polls =
        Function.update s.polls p (.unlocked (count + 1) t.entry true t.lock wantsDelay) ∧
      (pollTurn s p count wantsDelay now last).refs = s.refs ∧
      (pollTurn s p count wantsDelay now last).ht.maxEntriesPerPoll = s.ht.maxEntriesPerPoll := by
  have hnode : s.ht.heap 0 ∈ nodes s.ht := mem_nodes.mpr ⟨0, hcond.1, rfl⟩
  have hmem : timerOf s.ht (s.ht.heap 0) ∈ timers := h.mem_iff.mpr ⟨_, hnode, rfl⟩
  have hremove := h.remove hcond.1
  have hremoved := h.inv.remove_removed hcond.1
  have hentries : (removeNode s.ht 0).entries (s.ht.timerDups (s.ht.heap 0)).entry =
      { s.ht.entries (s.ht.timerDups (s.ht.heap 0)).entry with timerId := -1 } := by
    rw [h.inv.remove_entries hcond.1]
    exact Function.update_self ..
  have hgone : s.ht.heap 0 ∉ nodes (removeNode s.ht 0) :=
    (List.nodup_cons.mp ((h.inv.remove_nodes hcond.1).nodup_iff.mp h.inv.nodup_nodes)).1
  have hvalid : ((s.ht.timerDups (s.ht.heap 0)).dup.cb = (s.ht.entries (s.ht.timerDups (s.ht.heap 0)).entry).cb ∧
      (s.ht.timerDups (s.ht.heap 0)).dup.userData =
        (s.ht.entries (s.ht.timerDups (s.ht.heap 0)).entry).userData) := ⟨(h.cb _ hnode).1, h.userData _ hnode⟩
  have hturn : pollTurn s p count wantsDelay now last = { s with
      ht := { removeNode s.ht 0 with
        timerDups := Function.update (removeNode s.ht 0).timerDups (s.ht.heap 0)
          { (removeNode s.ht 0).timerDups (s.ht.heap 0) with grpLock := none } }
      polls := Function.update s.polls p (.unlocked (count + 1) (s.ht.timerDups (s.ht.heap 0)).entry true
        (s.ht.timerDups (s.ht.heap 0)).grpLock wantsDelay) } := by
    unfold pollTurn
    rw [if_pos hcond]
    simp only [hremoved, hentries, decide_eq_true hvalid]
  refine ⟨timerOf s.ht (s.ht.heap 0), hmem, TimeVal.lte_iff.mp hcond.2.1, fun u hu => h.least hu, ?_, ?_, ?_, ?_, ?_⟩
  · unfold pollEvents
    simp only [hturn, Function.update_self, hentries]
    exact if_pos ⟨trivial, (h.cb _ hnode).2⟩
  · rw [hturn]
    exact hremove.setDup hgone _
  · rw [hturn]
    rfl
  · rw [hturn]
  · rw [hturn]
    exact h.inv.remove_limit hcond.1

theorem Holds.return {s : State E G A P} (h : Holds s.ht timers) (p : P) {count : Nat} (wantsDelay : Bool)
    {now : TimeVal} (last : TimeVal)
    (hcond : ¬(0 < s.ht.curSize ∧ (s.ht.value 0).lte now = true ∧ count < s.ht.maxEntriesPerPoll)) :
    ∃ delay, (∀ d ∈ delay, IsDelay TimeVal.span maxDelay timers (if 0 < count then last else now) d) ∧
      (s.ht.maxEntriesPerPoll ≤ count ∨ ∀ u ∈ timers, ¬u.expiry ≤ now) ∧
      pollTurn s p count wantsDelay now last =
        { s with polls := Function.update s.polls p (.returned count delay) } ∧
      pollEvents s p count wantsDelay now last =
        [.returned p count s.ht.maxEntriesPerPoll now (if 0 < count then last else now) delay] := by
  generalize hclock : (if 0 < count then last else now) = clock
  have hturn : pollTurn s p count wantsDelay now last =
      { s with
          polls := Function.update s.polls p
            (.returned count (if wantsDelay then some (nextDelay s.ht clock) else none)) } := by
    unfold pollTurn
    rw [if_neg hcond, hclock]
  refine ⟨_, fun d hd => ?_, ?_, hturn, ?_⟩
  · have hwants : wantsDelay = true := by
      by_contra hnot
      rw [if_neg hnot] at hd
      cases hd
    rw [if_pos hwants] at hd
    rw [← Option.some.inj hd, nextDelay]
    by_cases hempty : s.ht.curSize = 0
    · rw [if_pos hempty]
      exact Or.inl ⟨List.eq_nil_of_length_eq_zero (h.length.trans hempty), rfl⟩
    · have hpos : 0 < s.ht.curSize := Nat.pos_of_ne_zero hempty
      have hmem : timerOf s.ht (s.ht.heap 0) ∈ timers :=
        h.mem_iff.mpr ⟨_, mem_nodes.mpr ⟨0, hpos, rfl⟩, rfl⟩
      rw [if_neg hempty]
      refine Or.inr ⟨_, hmem, fun u hu => h.least hu, ?_⟩
      exact TimeVal.sub_eq_span ..
  · by_cases hmax : s.ht.maxEntriesPerPoll ≤ count
    · exact Or.inl hmax
    · refine Or.inr fun u hu hdue => hcond ?_
      have hpos : 0 < s.ht.curSize := by
        rw [← h.length]
        exact List.length_pos_of_mem hu
      exact ⟨hpos, TimeVal.lte_iff.mpr ((h.least hu).trans hdue), Nat.lt_of_not_le hmax⟩
  · unfold pollEvents
    simp only [hturn, Function.update_self, hclock]

end Heap

/-! Runs. -/

section Calls

variable {polls : P → Poll E G} {refs : G → Int} {past : List (Event E TimeVal G P)} {p : P}

theorem addRefs_apply (refs : G → Int) (grpLock : Option G) (n : Int) (g : G) :
    addRefs refs grpLock n g = refs g + n * one g grpLock := by
  cases grpLock with
  | none =>
    have hone : one g (none : Option G) = 0 := if_neg nofun
    rw [hone, Int.natCast_zero, Int.mul_zero, Int.add_zero]
    rfl
  | some g' =>
    unfold addRefs one
    simp only
    by_cases hg : g = g'
    · rw [hg, Function.update_self, if_pos rfl, Int.natCast_one, Int.mul_one]
    · rw [Function.update_of_ne hg, if_neg fun h => hg (Option.some.inj h).symm, Int.natCast_zero, Int.mul_zero,
        Int.add_zero]

theorem mem_callsOf_fired {p q : P} {t : Timer E TimeVal G} {now : TimeVal} {lock : Option G} (hqp : q ≠ p) :
    (q, lock) ∈ callsOf (.fired p t now :: past) ↔ (q, lock) ∈ callsOf past := by
  rw [callsOf, List.mem_cons, or_iff_right fun h => hqp (Prod.mk.inj h).1]

theorem firedBy_fired_of_ne {p q : P} {t : Timer E TimeVal G} {now : TimeVal} (hqp : q ≠ p) :
    firedBy q (.fired p t now :: past) = firedBy q past := by
  rw [firedBy, if_neg (Ne.symm hqp)]

def Poll.Idle (poll : Poll E G) : Prop :=
  ∀ count entry valid grpLock wantsDelay, poll ≠ .unlocked count entry valid grpLock wantsDelay

/-- The polls for which `which` holds are in the callbacks that they have called. -/
structure Calls (which : P → Prop) (polls : P → Poll E G) (refs : G → Int) (past : List (Event E TimeVal G P)) :
    Prop where
  idle : ∀ q, which q → (polls q).Idle → ∀ c ∈ callsOf past, c.1 ≠ q
  calling : ∀ q, which q → ∀ count entry valid grpLock wantsDelay,
    polls q = .unlocked count entry valid grpLock wantsDelay →
      valid = true ∧ (q, grpLock) ∈ callsOf past ∧ count = firedBy q past
  refs : ∀ g, refs g = heldBy g past

theorem Calls.scheduled (h : Calls (fun _ => True) polls refs past) (t : Timer E TimeVal G) :
    Calls (fun _ => True) polls (addRefs refs t.lock 1) (.scheduled t :: past) := by
  refine ⟨h.idle, h.calling, fun g => ?_⟩
  rw [addRefs_apply, h.refs g, heldBy_scheduled]
  push_cast
  omega

theorem Calls.cancelled (h : Calls (fun _ => True) polls refs past) {entry : E} {lock : Option G}
    (hsound : Sound TimeVal.span maxDelay (.cancelled entry lock :: past)) :
    Calls (fun _ => True) polls (addRefs refs lock (-1)) (.cancelled entry lock :: past) := by
  refine ⟨h.idle, h.calling, fun g => ?_⟩
  rw [addRefs_apply, h.refs g, hsound.heldBy_cancelled g]
  push_cast
  omega

theorem Calls.started (h : Calls (fun _ => True) polls refs past) (p : P) (now : TimeVal) :
    Calls (· ≠ p) polls refs (.started p now :: past) := by
  refine ⟨fun q _ => h.idle q trivial, fun q hqp n entry valid grpLock wants hq => ?_, h.refs⟩
  obtain ⟨hvalid, hcall, hn⟩ := h.calling q trivial n entry valid grpLock wants hq
  exact ⟨hvalid, hcall, by rw [firedBy, if_neg (Ne.symm hqp)]; exact hn⟩

theorem Calls.finished (h : Calls (fun _ => True) polls refs past) {grpLock : Option G}
    (hsound : Sound TimeVal.span maxDelay (.finished p grpLock :: past)) :
    Calls (· ≠ p) polls (addRefs refs grpLock (-1)) (.finished p grpLock :: past) := by
  have hcalls : ∀ c, c ∈ callsOf (.finished p grpLock :: past) ↔ c ∈ callsOf past ∧ c.1 ≠ p := by
    intro c
    rw [callsOf, List.mem_filter, decide_eq_true_eq]
  refine ⟨fun q _ hq c hc => ?_, fun q hqp n e v lock wants hq => ?_, fun g => ?_⟩
  · exact h.idle q trivial hq c ((hcalls c).mp hc).1
  · obtain ⟨hv, hqcall, hn⟩ := h.calling q trivial n e v lock wants hq
    exact ⟨hv, (hcalls (q, lock)).mpr ⟨hqcall, hqp⟩, hn⟩
  · have hheld := hsound.heldBy_finished g
    have hrefs := addRefs_apply refs grpLock (-1) g
    rw [h.refs g, hheld] at hrefs
    refine hrefs.trans ?_
    push_cast
    omega

theorem Calls.fired (h : Calls (· ≠ p) polls refs past) {t : Timer E TimeVal G} {now : TimeVal}
    (hsound : Sound TimeVal.span maxDelay (.fired p t now :: past)) {count : Nat} (hcount : count = firedBy p past)
    (wantsDelay : Bool) :
    Calls (fun _ => True) (Function.update polls p (.unlocked (count + 1) t.entry true t.lock wantsDelay)) refs
      (.fired p t now :: past) := by
  refine ⟨fun q _ hq => ?_, fun q _ n entry valid grpLock wants hq => ?_, fun g => ?_⟩
  · by_cases hqp : q = p
    · rw [hqp, Function.update_self] at hq
      exact absurd rfl (hq _ _ _ _ _)
    · rw [Function.update_of_ne hqp] at hq
      intro c hc
      rcases List.mem_cons.mp hc with he | hmem
      · rw [he]
        exact Ne.symm hqp
      · exact h.idle q hqp hq c hmem
  · by_cases hqp : q = p
    · rw [hqp, Function.update_self] at hq
      injection hq with hn hentry hvalid hlock
      rw [hqp, ← hn, ← hvalid, ← hlock, hcount, firedBy, if_pos rfl]
      exact ⟨rfl, List.mem_cons_self, rfl⟩
    · rw [Function.update_of_ne hqp] at hq
      obtain ⟨hvalid, hcall, hn⟩ := h.calling q hqp n entry valid grpLock wants hq
      exact ⟨hvalid, (mem_callsOf_fired hqp).mpr hcall, by rw [firedBy_fired_of_ne hqp]; exact hn⟩
  · rw [hsound.heldBy_fired]
    exact h.refs g

theorem Calls.returned (h : Calls (· ≠ p) polls refs past) (hfree : ∀ c ∈ callsOf past, c.1 ≠ p) (count max : Nat)
    (now clock : TimeVal) (delay : Option TimeVal) :
    Calls (fun _ => True) (Function.update polls p (.returned count delay)) refs
      (.returned p count max now clock delay :: past) := by
  refine ⟨fun q _ hq => ?_, fun q _ n entry valid grpLock wants hq => ?_, h.refs⟩
  · by_cases hqp : q = p
    · rw [hqp]
      exact hfree
    · rw [Function.update_of_ne hqp] at hq
      exact h.idle q hqp hq
  · by_cases hqp : q = p
    · rw [hqp, Function.update_self] at hq
      cases hq
    · rw [Function.update_of_ne hqp] at hq
      exact h.calling q hqp n entry valid grpLock wants hq

end Calls

/-- The state of the heap, the polls and the group locks after what has happened. -/
structure Follows (s : State E G A P) (past : List (Event E TimeVal G P)) : Prop where
  sound : Sound TimeVal.span maxDelay past
  holds : Holds s.ht (pendingOf past)
  calls : Calls (fun _ => True) s.polls s.refs past

section Follows

variable {s : State E G A P} {past : List (Event E TimeVal G P)}

theorem follows_pollTurn {p : P} (hsound : Sound TimeVal.span maxDelay past) (hholds : Holds s.ht (pendingOf past))
    (hcalls : Calls (· ≠ p) s.polls s.refs past) (hfree : ∀ c ∈ callsOf past, c.1 ≠ p) {count : Nat}
    (hcount : count = firedBy p past) (wantsDelay : Bool) (now last : TimeVal) :
    Follows (TimerHeap.pollTurn s p count wantsDelay now last)
      ((pollEvents s p count wantsDelay now last).reverse ++ past) := by
  by_cases hcond : 0 < s.ht.curSize ∧ (s.ht.value 0).lte now = true ∧ count < s.ht.maxEntriesPerPoll
  · obtain ⟨t, ht, hdue, hleast, hevents, hnext, hpolls, hrefs, -⟩ := hholds.fire p wantsDelay last hcond
    have hsound' : Sound TimeVal.span maxDelay (.fired p t now :: past) := ⟨⟨ht, hdue, hleast, hfree⟩, hsound⟩
    rw [hevents, List.reverse_singleton, List.singleton_append]
    refine ⟨hsound', hnext, ?_⟩
    rw [hpolls, hrefs]
    exact hcalls.fired hsound' hcount wantsDelay
  · obtain ⟨delay, hdelay, hdone, hturn, hevents⟩ := hholds.return p wantsDelay last hcond
    rw [hevents, List.reverse_singleton, List.singleton_append, hturn]
    exact ⟨⟨⟨hcount, hdone, hdelay⟩, hsound⟩, hholds, hcalls.returned hfree ..⟩

theorem events_pollAgain {p : P} {count : Nat} {entry : E} {valid : Bool} {grpLock : Option G} {wantsDelay : Bool}
    (hpoll : s.polls p = .unlocked count entry valid grpLock wantsDelay) (now last : TimeVal) :
    events s (.pollAgain p now last) = (if valid then [.finished p grpLock] else []) ++
      pollEvents { s with refs := if valid then addRefs s.refs grpLock (-1) else s.refs } p count wantsDelay now last := by
  simp only [events, hpoll]

theorem Follows.step (h : Follows s past) {act : Action E G A P} (hgrow : ¬CannotGrow s act) {s' : State E G A P}
    (hstep : step s act = some s') : Follows s' ((events s act).reverse ++ past) := by
  cases act with
  | entryInit entry id userData cb =>
    by_cases hrunning : entryRunning s.ht entry = true
    · rw [TimerHeap.step, if_pos hrunning] at hstep
      cases hstep
    · rw [TimerHeap.step, if_neg hrunning] at hstep
      rw [← Option.some.inj hstep]
      exact ⟨h.sound, h.holds.entryInit ((Bool.not_eq_true _).mp hrunning) id userData cb, h.calls⟩
  | setMaxTimedOutPerPoll count =>
    rw [← Option.some.inj hstep]
    refine ⟨h.sound, h.holds.congr ?_ rfl (fun _ _ => ⟨rfl, rfl, rfl⟩)
      fun _ _ => ⟨rfl, rfl⟩, h.calls⟩
    exact h.holds.inv.congr rfl rfl rfl rfl rfl
      (fun _ => ⟨rfl, rfl, rfl⟩) fun _ _ => rfl
  | schedule entry delay now setId grpLock alloc =>
    rw [TimerHeap.step, scheduleWGrpLock_of_canGrow hgrow] at hstep
    have hevents : events s (.schedule entry delay now setId grpLock alloc) =
        if (scheduleWGrpLock s entry delay now setId grpLock ⟨true, true, true⟩).2 = .success then
          [.scheduled ⟨entry, now.add delay, grpLock⟩]
        else [] := by
      rw [← scheduleWGrpLock_of_canGrow hgrow]
      rfl
    generalize hresult : scheduleWGrpLock s entry delay now setId grpLock ⟨true, true, true⟩ = result at hstep hevents
    obtain ⟨next, status⟩ := result
    have hs' : next = s' := Option.some.inj hstep
    rw [← hs', hevents]
    by_cases hstatus : status = .success
    · rw [hstatus] at hresult
      obtain ⟨hholds, hfresh, hrefs, hpolls, -⟩ := h.holds.schedule hresult
      rw [if_pos hstatus, List.reverse_singleton, List.singleton_append]
      refine ⟨⟨hfresh, h.sound⟩, hholds, ?_⟩
      rw [hpolls, hrefs]
      exact h.calls.scheduled ⟨entry, now.add delay, grpLock⟩
    · rw [if_neg hstatus, h.holds.schedule_failed hresult hstatus]
      exact h
  | cancel entry setId =>
    rw [← Option.some.inj hstep]
    by_cases hrunning : entryRunning s.ht entry = true
    · obtain ⟨t, ht, hentry, hlock, hone, hholds, hrefs, hpolls, -⟩ := h.holds.cancel setId hrunning
      have hevents : events s (.cancel entry setId) = [.cancelled entry t.lock] := by
        rw [hlock]
        exact if_pos hone
      rw [hevents, List.reverse_singleton, List.singleton_append]
      have hsound : Sound TimeVal.span maxDelay (.cancelled entry t.lock :: past) :=
        ⟨⟨t, ht, hentry, rfl⟩, h.sound⟩
      refine ⟨hsound, hholds, ?_⟩
      rw [hpolls, hrefs]
      exact h.calls.cancelled hsound
    · have hlt : (s.ht.entries entry).timerId < 1 := Int.not_le.mp fun hle => hrunning (decide_eq_true hle)
      have hresult : cancelTimer s entry setId = (s, 0) := by
        unfold cancelTimer
        exact if_pos (Or.inl hlt)
      have hevents : events s (.cancel entry setId) = [] :=
        if_neg (by rw [hresult]; exact Nat.zero_ne_one)
      rw [hevents, hresult]
      exact h
  | poll p wantsDelay now last =>
    have hidle : (s.polls p).Idle := by
      intro n entry valid grpLock wants he
      rw [TimerHeap.step, he] at hstep
      cases hstep
    have hs' : s' = TimerHeap.pollTurn s p 0 wantsDelay now last := by
      cases hpoll : s.polls p with
      | unlocked n entry valid grpLock wants => exact absurd hpoll (hidle n entry valid grpLock wants)
      | idle | returned =>
        rw [TimerHeap.step, hpoll] at hstep
        exact (Option.some.inj hstep).symm
    have hevents : (events s (.poll p wantsDelay now last)).reverse ++ past =
        (pollEvents s p 0 wantsDelay now last).reverse ++ .started p now :: past := by
      unfold events
      rw [List.reverse_cons, List.append_assoc, List.singleton_append]
    have hfree := h.calls.idle p trivial hidle
    rw [hs', hevents]
    have hsound : Sound TimeVal.span maxDelay (.started p now :: past) := ⟨hfree, h.sound⟩
    exact follows_pollTurn hsound h.holds (h.calls.started p now) hfree (if_pos rfl).symm wantsDelay now last
  | pollAgain p now last =>
    cases hpoll : s.polls p with
    | idle | returned =>
      rw [TimerHeap.step, hpoll] at hstep
      cases hstep
    | unlocked count entry valid grpLock wantsDelay =>
      obtain ⟨hvalid, hcall, hcount⟩ := h.calls.calling p trivial count entry valid grpLock wantsDelay hpoll
      rw [hvalid] at hpoll
      rw [TimerHeap.step, hpoll] at hstep
      have hs' := (Option.some.inj hstep).symm
      rw [if_pos rfl] at hs'
      have hevents : (events s (.pollAgain p now last)).reverse ++ past =
          (pollEvents { s with refs := addRefs s.refs grpLock (-1) } p count wantsDelay now last).reverse ++
            .finished p grpLock :: past := by
        rw [events_pollAgain hpoll, if_pos rfl, if_pos rfl, List.singleton_append, List.reverse_cons,
          List.append_assoc, List.singleton_append]
      rw [hs', hevents]
      have hsound : Sound TimeVal.span maxDelay (.finished p grpLock :: past) := ⟨hcall, h.sound⟩
      have hfree : ∀ c ∈ callsOf (.finished p grpLock :: past), c.1 ≠ p := by
        intro c hc
        rw [callsOf, List.mem_filter, decide_eq_true_eq] at hc
        exact hc.2
      exact follows_pollTurn (s := { s with refs := addRefs s.refs grpLock (-1) }) hsound h.holds
        (h.calls.finished hsound) hfree hcount wantsDelay now last

end Follows

theorem Follows.start {size : Nat} {timerDups : Int → Dup E G A} {entries : E → Entry A}
    (hentries : ∀ e, (entries e).timerId = -1) :
    Follows (start (create size timerDups entries) : State E G A P) [] where
  sound := trivial
  holds := ⟨inv_create size timerDups entries hentries, List.Perm.refl _, nofun,
    nofun⟩
  calls := ⟨nofun, fun _ _ _ _ _ _ _ hp => (by cases hp), fun _ => rfl⟩

/-- What has happened to the timers: every event was legal, timers were fired in the order of their expiry but for those
scheduled in between, an entry was cancelled or fired once for each time that it was scheduled unless it is running now,
and the references of a group lock are those of running entries and of callbacks that are being called. -/
structure FiresWhatIsDue (s : State E G A P) (past : List (Event E TimeVal G P)) : Prop where
  sound : Sound TimeVal.span maxDelay past
  running : ∀ e, entryRunning s.ht e = true ↔ ∃ t ∈ pendingOf past, t.entry = e
  ordered : ∀ later mid earlier p q t u now now',
    past = later ++ .fired p t now :: (mid ++ .fired q u now' :: earlier) → u.expiry ≤ t.expiry ∨ .scheduled t ∈ mid
  once : ∀ e, past.countP (Event.begins e) =
    past.countP (Event.ends e) + if entryRunning s.ht e then 1 else 0
  refs : ∀ g, s.refs g = heldBy g past

theorem Follows.firesWhatIsDue {s : State E G A P} {past : List (Event E TimeVal G P)} (h : Follows s past) :
    FiresWhatIsDue s past where
  sound := h.sound
  running := h.holds.running_iff
  ordered later mid earlier p q t u now now' heq := by
    have hsound := h.sound
    rw [heq] at hsound
    exact hsound.append.ordered
  once e := by
    rw [h.sound.once e]
    congr 1
    by_cases hrunning : entryRunning s.ht e = true
    · obtain ⟨t, ht, hentry⟩ := (h.holds.running_iff e).mp hrunning
      have hperm := h.sound.perm ht
      rw [if_pos hrunning, hperm.countP_eq, List.countP_cons, if_pos (decide_eq_true hentry), hentry,
        List.countP_eq_zero.mpr]
      intro u hu he
      exact of_decide_eq_true (List.mem_filter.mp hu).2 (of_decide_eq_true he)
    · rw [if_neg hrunning, List.countP_eq_zero]
      exact fun t ht he => hrunning ((h.holds.running_iff e).mpr ⟨t, ht, of_decide_eq_true he⟩)
  refs := h.calls.refs

/-- In every run in which the heap grows when it has to, the polls fire what is due at the clock value that they have read
last, whatever is scheduled and cancelled in between. -/
theorem polls_fire_due {size : Nat} {timerDups : Int → Dup E G A} {entries : E → Entry A}
    (hentries : ∀ e, (entries e).timerId = -1) {acts : List (Action E G A P)} {s : State E G A P}
    {past : List (Event E TimeVal G P)}
    (hgrow : Meets step (fun s act => ¬CannotGrow s act) (start (create size timerDups entries)) acts)
    (hrun : exec (recorded step events) (start (create size timerDups entries), []) acts = some (s, past)) :
    FiresWhatIsDue s past := by
  have hmeets : Meets (recorded step events) (fun s act => ¬CannotGrow s.1 act)
      (start (create size timerDups entries), []) acts := meets_recorded hgrow
  refine Follows.firesWhatIsDue (exec_invariant_of_meets (P := fun r => Follows r.1 r.2) (fun r act r' h hc hstep => ?_)
    (Follows.start hentries) hmeets hrun)
  obtain ⟨t, hst, heq⟩ := Option.map_eq_some_iff.mp hstep
  rw [← heq]
  exact h.step hc hst

/-- The clock is read again after the first callback. -/
def polledLate : List (Action Nat Unit Unit Unit) :=
  [.schedule 7 ⟨1, 0⟩ ⟨0, 0⟩ none (some ()) ⟨true, true, true⟩, .schedule 8 ⟨5, 0⟩ ⟨0, 0⟩ none none ⟨true, true, true⟩,
    .poll () true ⟨2, 0⟩ ⟨2, 0⟩, .pollAgain () ⟨6, 0⟩ ⟨6, 0⟩, .pollAgain () ⟨6, 500⟩ ⟨6, 500⟩]

theorem polls_fire_due_late : ∃ s past, exec (recorded step events) (smallest, []) polledLate = some (s, past) ∧
    past.length = 8 ∧ s.refs () = 0 ∧ FiresWhatIsDue s past := by
  have hsome := Option.some_get (x := exec (recorded step events) (smallest, []) polledLate) (by decide)
  refine ⟨_, _, hsome.symm, by decide, by decide, polls_fire_due (fun _ => Eq.refl _) ?_ hsome.symm⟩
  refine ⟨?_, fun s hs => ⟨?_, fun s' _ => ⟨id, fun s'' _ => ⟨id, fun _ _ => ⟨id, fun _ _ => trivial⟩⟩⟩⟩⟩
  · rintro ⟨-, -, -, halloc⟩
    cases halloc
  · rintro ⟨-, -, -, halloc⟩
    cases halloc

/-- The callback of the first timer schedules a timer that would have expired before it. -/
def schedulesEarlier : List (Action Nat Unit Unit Unit) :=
  [.schedule 7 ⟨5, 0⟩ ⟨0, 0⟩ none none ⟨true, true, true⟩, .poll () false ⟨6, 0⟩ ⟨6, 0⟩,
    .schedule 8 ⟨-3, 0⟩ ⟨6, 0⟩ none none ⟨true, true, true⟩, .pollAgain () ⟨6, 0⟩ ⟨6, 0⟩]

/-- A poll that is started at two seconds fires a timer that expires at five, and another one fires a timer that expires at
three after one that expires at five. -/
theorem fires_after_entry : (∃ s past, exec (recorded step events) (smallest, []) polledLate = some (s, past) ∧
    past = [.returned () 2 64 ⟨6, 500⟩ ⟨6, 500⟩ (some maxDelay), .finished () none, .fired () ⟨8, ⟨5, 0⟩, none⟩ ⟨6, 0⟩,
      .finished () (some ()), .fired () ⟨7, ⟨1, 0⟩, some ()⟩ ⟨2, 0⟩, .started () ⟨2, 0⟩,
      .scheduled ⟨8, ⟨5, 0⟩, none⟩, .scheduled ⟨7, ⟨1, 0⟩, some ()⟩]) ∧
    ∃ s past, exec (recorded step events) (smallest, []) schedulesEarlier = some (s, past) ∧
      past = [.fired () ⟨8, ⟨3, 0⟩, none⟩ ⟨6, 0⟩, .finished () none, .scheduled ⟨8, ⟨3, 0⟩, none⟩,
        .fired () ⟨7, ⟨5, 0⟩, none⟩ ⟨6, 0⟩, .started () ⟨6, 0⟩, .scheduled ⟨7, ⟨5, 0⟩, none⟩] := by
  have hlate := Option.some_get (x := exec (recorded step events) (smallest, []) polledLate) (by decide)
  have hearlier := Option.some_get (x := exec (recorded step events) (smallest, []) schedulesEarlier) (by decide)
  exact ⟨⟨_, _, hlate.symm, by decide⟩, _, _, hearlier.symm, by decide⟩

end PjProject.TimerHeap
