import PjProject.Ice
import PjProject.Runs

/-! The capacity of the checklist and of the valid list of an ICE session. The slots of the checklist are as many as
its array has, whatever happens, and a check that the pairing of candidates discards makes room for a new pair if there
is one. Nothing bounds the valid list, which takes a pair for each mapped address. -/

namespace PjProject.Ice

open IceRoles (Role RoleAttr)
open IcePriority (Timestamp cmpTimestamp)

/-! The slots of the checklist. -/

namespace Checklist

def size (clist : Checklist) : Nat := clist.checks.length + clist.spare.length

@[simp] theorem size_modify (clist : Checklist) (k : Nat) (f : Check → Check) :
    (clist.modify k f).size = clist.size := by
  unfold modify size
  split
  · rw [List.length_modify]
  · rw [List.length_modify]

theorem size_push {clist : Checklist} (h : clist.checks.length < clist.size) (f : Check → Check) :
    (clist.push f).size = clist.size := by
  unfold push size at *
  rw [List.length_append, List.length_singleton, List.length_tail]
  omega

theorem size_writeNext {clist : Checklist} (h : clist.checks.length < clist.size) (f : Check → Check) :
    (clist.writeNext f).size = clist.size := by
  unfold writeNext size at *
  dsimp only
  rw [List.length_cons, List.length_tail]
  omega

theorem size_remove {clist : Checklist} {k : Nat} (h : k < clist.checks.length) :
    (clist.remove k).size = clist.size := by
  unfold remove size
  rw [List.length_eraseIdx_of_lt h, List.length_cons]
  omega

end Checklist

theorem sortChecks_perm (checks : List Check) : (sortChecks checks).Perm checks := SelectionSort.selectionSort_perm _ _

@[simp] theorem length_sortChecks (checks : List Check) : (sortChecks checks).length = checks.length :=
  (sortChecks_perm checks).length_eq

@[simp] theorem size_sortChecklist (clist : Checklist) : (sortChecklist clist).size = clist.size := by
  rw [Checklist.size, sortChecklist, length_sortChecks]
  rfl

/-- The states in the order of `CMP_CHECK_STATE`. -/
def CheckState.rank : CheckState → Nat
  | .succeeded => 4
  | .failed => 3
  | s => s.value

def Check.sortKey (c : Check) : ℕ ×ₗ ℕ := toLex (c.state.rank, c.prio.u64)

theorem cmpCheckState_eq_zero (s t : CheckState) : cmpCheckState s t = 0 ↔ s.rank = t.rank := by
  cases s <;> cases t <;> decide

theorem cmpCheckState_pos (s t : CheckState) : cmpCheckState s t > 0 ↔ t.rank < s.rank := by
  cases s <;> cases t <;> decide

theorem higher_iff (c d : Check) : higher c d = true ↔ d.sortKey < c.sortKey := by
  have hprio : cmpTimestamp c.prio d.prio = .gt ↔ d.prio.u64 < c.prio.u64 := compare_gt_iff_gt
  unfold higher Check.sortKey
  rw [Prod.Lex.toLex_lt_toLex, Bool.or_eq_true, Bool.and_eq_true, decide_eq_true_iff, decide_eq_true_iff,
    decide_eq_true_iff, cmpCheckState_eq_zero, cmpCheckState_pos, hprio, eq_comm]

theorem Checklist.slot_of_lt {clist : Checklist} {k : Nat} (hk : k < clist.checks.length) :
    clist.slot k = clist.checks[k] := by
  rw [slot, List.getD_append _ _ _ _ hk, List.getD_eq_getElem _ _ hk]

theorem map_slot (clist : Checklist) : (List.range' 0 clist.checks.length).map clist.slot = clist.checks := by
  refine List.ext_getElem (by simp) fun k _ hk => ?_
  rw [List.getElem_map, List.getElem_range', Nat.zero_add, Nat.one_mul, Checklist.slot_of_lt hk]

/-- `sort_checklist` leaves in memory the list the model has, in the descending order of state and priority, and the
pointers to valid and nominated checks point to the same checks as before. -/
theorem sortInPlace_sorted (clist : Checklist) (checkPtr : List Nat) :
    let s := sortInPlace clist checkPtr
    s.1 = (sortChecklist clist).slot ∧ s.2.map s.1 = checkPtr.map clist.slot ∧
      ∀ i j, i < j → j < clist.checks.length → (s.1 j).sortKey ≤ (s.1 i).sortKey := by
  intro s
  obtain ⟨hsorted, hframe, hptrs⟩ := @SelectionSort.sortInPlace_spec _ higher _ _
    (Nat.sub_le clist.checks.length 1) 0 clist.slot checkPtr
  rw [map_slot] at hsorted
  rw [Nat.zero_add] at hsorted hframe hptrs
  have hlength : (sortChecklist clist).checks.length = clist.checks.length := length_sortChecks clist.checks
  have hslot : s.1 = (sortChecklist clist).slot := by
    funext k
    by_cases hk : k < clist.checks.length
    · rw [Checklist.slot_of_lt (hlength ▸ hk)]
      have hget := List.getElem_of_eq hsorted (i := k) (by simpa using hk)
      rw [List.getElem_map, List.getElem_range', Nat.zero_add, Nat.one_mul] at hget
      exact hget
    · rw [Checklist.slot, List.getD_append_right _ _ _ _ (by omega), hlength]
      exact (hframe k (.inr (by omega))).trans (List.getD_append_right _ _ _ _ (by omega))
  refine ⟨hslot, hptrs, fun i j hij hj => ?_⟩
  have hdescending := SelectionSort.selectionSort_sorted higher_iff (clist.checks.length - 1) clist.checks (by omega)
  have hj : j < (sortChecklist clist).checks.length := hj.trans_eq hlength.symm
  rw [hslot, Checklist.slot_of_lt hj, Checklist.slot_of_lt (hij.trans hj)]
  exact List.pairwise_iff_getElem.mp hdescending i j (hij.trans hj) hj hij

theorem length_replaceBases (lcands : List Cand) (checks : List Check) :
    (replaceBases lcands checks).1.length = checks.length := by
  induction checks with
  | nil => rfl
  | cons c more ih =>
    rw [replaceBases]
    split
    · split
      · exact congrArg (· + 1) ih
      · rfl
    · exact congrArg (· + 1) ih

theorem size_pruneAgainst (lcands : List Cand) (i n : Nat) :
    ∀ (j : Nat) (clist : Checklist), j + n ≤ clist.checks.length →
      (pruneAgainst lcands i n j clist).size = clist.size := by
  induction n with
  | zero => exact fun _ _ _ => rfl
  | succ n ih =>
    intro j clist h
    rw [pruneAgainst]
    split
    · have hlt : j < clist.checks.length := by omega
      have hlength : (clist.remove j).checks.length = clist.checks.length - 1 := List.length_eraseIdx_of_lt hlt
      rw [ih j _ (by omega), Checklist.size_remove hlt]
    · exact ih (j + 1) clist (by omega)

theorem size_pruneDuplicates (lcands : List Cand) (n i : Nat) (clist : Checklist) :
    (pruneDuplicates lcands n i clist).size = clist.size := by
  induction n generalizing i clist with
  | zero => rfl
  | succ n ih =>
    rw [pruneDuplicates, ih]
    by_cases hi : i + 1 ≤ clist.checks.length
    · exact size_pruneAgainst lcands i _ _ clist (by omega)
    · rw [show clist.checks.length - (i + 1) = 0 by omega]
      rfl

theorem size_pruneChecklist (lcands : List Cand) (clist : Checklist) :
    (pruneChecklist lcands clist).1.size = clist.size := by
  have hbases : ({ clist with checks := (replaceBases lcands clist.checks).1 } : Checklist).size = clist.size := by
    rw [Checklist.size, length_replaceBases]
    rfl
  unfold pruneChecklist
  dsimp only
  split
  · exact hbases
  · exact (size_pruneDuplicates _ _ _ _).trans hbases

/-! Discarding a check. -/

theorem perm_eraseIdx {checks : List Check} {k : Nat} {c : Check} (h : checks[k]? = some c) :
    checks.Perm (c :: checks.eraseIdx k) := by
  obtain ⟨hk, rfl⟩ := List.getElem?_eq_some_iff.mp h
  exact (List.getElem_cons_eraseIdx_perm hk).symm

theorem of_lastBelow {checks : List Check} {prio : Timestamp} (h : lastBelow checks prio = true) :
    ∃ d, checks[checks.length - 1]? = some d ∧ cmpTimestamp d.prio prio = .lt := by
  unfold lastBelow at h
  rw [List.getLast?_eq_getElem?] at h
  cases hlast : checks[checks.length - 1]? with
  | none =>
    rw [hlast] at h
    cases h
  | some d =>
    rw [hlast] at h
    exact ⟨d, rfl, of_decide_eq_true h⟩

/-- What `discard_check` does to the list, with the check that it discards. -/
inductive Discard (clist : Checklist) (prio : Timestamp) (r : Checklist × Bool) : Prop
  | kept (hflag : r.2 = false) (hperm : r.1.checks.Perm clist.checks)
  | dropped (d : Check) (hflag : r.2 = true) (hperm : clist.checks.Perm (d :: r.1.checks))
      (hlow : d.state = .failed ∨ cmpTimestamp d.prio prio = .lt)

theorem discardCheck_discard (clist : Checklist) (prio : Timestamp) : Discard clist prio (discardCheck clist prio) := by
  unfold discardCheck
  cases hfind : clist.checks.findIdx? (·.state = .failed) with
  | some k =>
    obtain ⟨hk, hstate, -⟩ := List.findIdx?_eq_some_iff_getElem.mp hfind
    exact .dropped clist.checks[k] rfl (perm_eraseIdx (List.getElem?_eq_getElem hk))
      (.inl (of_decide_eq_true hstate))
  | none =>
    dsimp only
    by_cases hlast : lastBelow (sortChecklist clist).checks prio = true
    · obtain ⟨d, hd, hlow⟩ := of_lastBelow hlast
      rw [if_pos hlast]
      exact .dropped d rfl ((sortChecks_perm _).symm.trans (perm_eraseIdx hd)) (.inr hlow)
    · rw [if_neg hlast]
      exact .kept rfl (sortChecks_perm _)

@[simp] theorem size_discardCheck (clist : Checklist) (prio : Timestamp) :
    (discardCheck clist prio).1.size = clist.size := by
  unfold discardCheck
  cases hfind : clist.checks.findIdx? (·.state = .failed) with
  | some k =>
    obtain ⟨hk, -, -⟩ := List.findIdx?_eq_some_iff_getElem.mp hfind
    exact Checklist.size_remove hk
  | none =>
    dsimp only
    by_cases hlast : lastBelow (sortChecklist clist).checks prio = true
    · obtain ⟨d, hd, -⟩ := of_lastBelow hlast
      rw [if_pos hlast, Checklist.size_remove (List.getElem?_eq_some_iff.mp hd).1, size_sortChecklist]
    · rw [if_neg hlast, size_sortChecklist]

theorem foundation_discardCheck (clist : Checklist) (prio : Timestamp) :
    (discardCheck clist prio).1.foundation = clist.foundation := by
  unfold discardCheck
  cases clist.checks.findIdx? (·.state = .failed) with
  | some k => rfl
  | none =>
    dsimp only
    split
    · rfl
    · rfl

/-! Pairing. -/

section Pairing

variable {cfg : Config} {ice : Session} {s : Checklist × Nat} {p : Nat × Nat}

/-- The pair has, or can get, a place among the foundations. -/
def hasFoundation (cfg : Config) (ice : Session) (foundation : List (List UInt8)) (p : Nat × Nat) : Bool :=
  (getCheckFoundationIdx cfg.maxChecks foundation (fndStr (ice.localCand p.1) (ice.remoteCand p.2))).isSome

theorem pair_trickled (ice : Session) (checks : List Check) (c : Check) : (trickled ice checks c).pair = c.pair := by
  unfold trickled
  split
  · rfl
  · rfl

theorem prio_trickled (ice : Session) (checks : List Check) (c : Check) : (trickled ice checks c).prio = c.prio := by
  unfold trickled
  split
  · rfl
  · rfl

theorem addPair_checks (cfg : Config) (ice : Session) (s : Checklist × Nat) (p : Nat × Nat) :
    (pairable ice p = true ∧ hasFoundation cfg ice s.1.foundation p = true ∧
        ∃ new : Check, new.pair = p ∧ new.prio = pairPrio ice p ∧
          (addPair cfg ice s p).1.checks = s.1.checks ++ [new]) ∨
      (¬ (pairable ice p = true ∧ hasFoundation cfg ice s.1.foundation p = true) ∧
        (addPair cfg ice s p).1.checks = s.1.checks) := by
  unfold addPair hasFoundation
  by_cases hpair : pairable ice p = true
  · rw [if_pos hpair]
    cases getCheckFoundationIdx cfg.maxChecks s.1.foundation (fndStr (ice.localCand p.1) (ice.remoteCand p.2)) with
    | none => exact .inr ⟨fun h => Bool.noConfusion h.2, rfl⟩
    | some found =>
      exact .inl ⟨hpair, rfl, _, pair_trickled ice s.1.checks _, prio_trickled ice s.1.checks _, rfl⟩
  · rw [if_neg hpair]
    exact .inr ⟨fun h => hpair h.1, rfl⟩

theorem size_addPair (h : s.1.checks.length < s.1.size) : (addPair cfg ice s p).1.size = s.1.size := by
  unfold addPair
  split
  · split
    · exact Checklist.size_writeNext h _
    · rename_i i foundation _
      exact Checklist.size_push h fun c => trickled ice s.1.checks (newCheck ice p i c)
  · rfl

theorem Discard.length_lt {clist : Checklist} {prio : Timestamp} {r : Checklist × Bool} (h : Discard clist prio r)
    (hflag : r.2 = true) : r.1.checks.length + 1 = clist.checks.length := by
  cases h with
  | kept hkept => cases hkept.symm.trans hflag
  | dropped d _ hperm _ => exact hperm.length_eq.symm

theorem size_pairUp (h : s.1.size = cfg.maxChecks) : (pairUp cfg ice s p).1.size = cfg.maxChecks := by
  unfold pairUp
  split
  · dsimp only
    split
    · rename_i hflag
      have hlt := (discardCheck_discard s.1 (pairPrio ice p)).length_lt hflag
      have hle : s.1.checks.length ≤ s.1.size := Nat.le_add_right _ _
      have hsize := size_discardCheck s.1 (pairPrio ice p)
      rw [size_addPair (by dsimp only; omega)]
      exact hsize.trans h
    · exact (size_discardCheck _ _).trans h
  · rw [size_addPair (by omega), h]

/-- A turn of the pairing keeps every check, or replaces one by the new pair, which has the same component and the same
address family on both sides; the one that is replaced has failed or has a lower priority. -/
inductive Replaces (ice : Session) (p : Nat × Nat) (before after : List Check) : Prop
  | kept (hperm : after.Perm before)
  | added (new : Check) (hpair : new.pair = p) (hperm : after.Perm (new :: before))
  | replaced (new d : Check) (rest : List Check) (hpair : new.pair = p) (hpairable : pairable ice p = true)
      (hlow : d.state = .failed ∨ cmpTimestamp d.prio new.prio = .lt) (hbefore : before.Perm (d :: rest))
      (hafter : after.Perm (new :: rest))

theorem Replaces.length_le {before after : List Check} (h : Replaces ice p before after) :
    before.length ≤ after.length := by
  cases h with
  | kept hperm => exact hperm.length_eq.symm.le
  | added new _ hperm => exact hperm.length_eq ▸ Nat.le_succ _
  | replaced new d rest _ _ _ hbefore hafter => exact (hbefore.length_eq.trans hafter.length_eq.symm).le

/-- Where the list is full and a check can be discarded for the pair, the pair can be added. -/
def RoomIsUsed (cfg : Config) (ice : Session) (s : Checklist × Nat) (p : Nat × Nat) : Prop :=
  cfg.maxChecks ≤ s.1.checks.length → (discardCheck s.1 (pairPrio ice p)).2 = true →
    pairable ice p = true ∧ hasFoundation cfg ice s.1.foundation p = true

theorem replaces_iff : Replaces ice p s.1.checks (pairUp cfg ice s p).1.checks ↔ RoomIsUsed cfg ice s p := by
  unfold RoomIsUsed pairUp
  by_cases hfull : cfg.maxChecks ≤ s.1.checks.length
  · rw [if_pos hfull]
    dsimp only
    cases discardCheck_discard s.1 (pairPrio ice p) with
    | kept hflag hperm =>
      rw [hflag, if_neg Bool.false_ne_true]
      exact ⟨fun _ _ h => Bool.noConfusion h, fun _ => .kept hperm⟩
    | dropped d hflag hperm hlow =>
      rw [if_pos hflag]
      have hadd := addPair_checks cfg ice ((discardCheck s.1 (pairPrio ice p)).1, s.2) p
      rw [foundation_discardCheck] at hadd
      rcases hadd with ⟨hpair, hfound, new, hnew, hprio, hchecks⟩ | ⟨hnot, hchecks⟩
      · refine ⟨fun _ _ _ => ⟨hpair, hfound⟩, fun _ => ?_⟩
        rw [hchecks]
        exact .replaced new d _ hnew hpair (hprio ▸ hlow) hperm (List.perm_append_singleton _ _)
      · constructor
        · intro h
          have hle := h.length_le
          rw [hchecks] at hle
          have hlt : s.1.checks.length = _ := hperm.length_eq
          rw [hlt] at hle
          exact absurd hle (Nat.not_succ_le_self _)
        · exact fun h => absurd (h hfull hflag) hnot
  · rw [if_neg hfull]
    refine ⟨fun _ h => absurd h hfull, fun _ => ?_⟩
    rcases addPair_checks cfg ice s p with ⟨_, _, new, hnew, _, hchecks⟩ | ⟨_, hchecks⟩
    · rw [hchecks]
      exact .added new hnew (List.perm_append_singleton _ _)
    · rw [hchecks]
      exact .kept (.refl _)

end Pairing

/-! The slots and the valid list, function by function. -/

/-- The number of slots, and of valid pairs. -/
def extent (ice : Session) : Nat × Nat := (ice.clist.size, ice.validList.length)

section Extent

variable (cfg : Config) (ice : Session)

theorem extent_ite {c : Prop} [Decidable c] {a b : Session} {e : Nat × Nat} (ha : extent a = e) (hb : extent b = e) :
    extent (if c then a else b) = e := by
  split
  · exact ha
  · exact hb

@[simp] theorem extent_modifyCheck (k : Nat) (f : Check → Check) : extent (ice.modifyCheck k f) = extent ice :=
  congrArg (·, ice.validList.length) (Checklist.size_modify ..)

@[simp] theorem extent_startTimer : extent ice.startTimer = extent ice := rfl

theorem extent_setChecks {checks : List Check} (h : checks.length = ice.clist.checks.length) :
    extent (ice.setChecks checks) = extent ice :=
  congrArg (fun n => (n + ice.clist.spare.length, ice.validList.length)) h

@[simp] theorem extent_performCheck (k : Nat) (nominate : Bool) :
    extent (performCheck cfg ice k nominate).1 = extent ice := by
  unfold performCheck
  dsimp only
  split
  · rfl
  · exact extent_modifyCheck { ice with attempts := ice.attempts + 1 } k _
  · exact extent_modifyCheck { ice with attempts := ice.attempts + 1, pending := _ } k _

@[simp] theorem extent_onIceComplete (status : Option Error) : extent (onIceComplete ice status) = extent ice :=
  extent_ite rfl rfl

theorem length_restartValid (comps : List Comp) (checks : List Check) :
    (comps.foldl (restartValid ice) checks).length = checks.length := by
  induction comps generalizing checks with
  | nil => rfl
  | cons comp comps ih =>
    rw [List.foldl_cons, ih, restartValid]
    split
    · exact List.length_modify ..
    · rfl

@[simp] theorem extent_startNominatedCheck : extent (startNominatedCheck ice) = extent ice := by
  unfold startNominatedCheck
  rw [extent_startTimer]
  exact extent_setChecks _ (length_restartValid ice _ _)

@[simp] theorem extent_checkIceComplete : extent (checkIceComplete cfg ice) = extent ice := by
  unfold checkIceComplete
  split
  · exact extent_onIceComplete _ _
  · exact extent_onIceComplete _ _
  · exact extent_ite rfl (extent_ite rfl (extent_onIceComplete _ _))
  · exact extent_ite (extent_ite rfl rfl) (extent_ite rfl rfl)
  · exact (extent_startNominatedCheck _).trans (extent_ite rfl rfl)
  · rfl
  · rfl

@[simp] theorem extent_updateStates (k : Nat) : extent (updateStates cfg ice k) = extent ice := by
  have hunfrozen : (if (ice.clist.slot k).errCode = none then
      ice.clist.checks.map (unfreeze (ice.clist.slot k).foundationIdx) else ice.clist.checks).length =
        ice.clist.checks.length := by
    split
    · exact List.length_map _
    · rfl
  unfold updateStates
  dsimp only
  split
  · exact extent_setChecks ice ((List.length_map _).trans hunfrozen)
  · exact extent_setChecks ice hunfrozen

@[simp] theorem extent_run (call : Call) : extent (call.run cfg ice) = extent ice := by
  cases call with
  | done => rfl
  | onCheckComplete k => exact (extent_checkIceComplete cfg _).trans (extent_updateStates cfg ice k)
  | checkIceComplete => exact extent_checkIceComplete cfg ice
  | startNominatedCheck => exact extent_startNominatedCheck ice

theorem extent_finish (r : Session × Call) : extent (finish cfg r) = extent r.1 := extent_run cfg r.1 r.2

@[simp] theorem extent_saveRcand (cand : Cand) : extent (saveRcand cfg ice cand) = extent ice :=
  extent_ite rfl (extent_ite rfl (extent_ite rfl rfl))

theorem extent_saveRcands (cands : List Cand) : extent (cands.foldl (saveRcand cfg) ice) = extent ice := by
  induction cands generalizing ice with
  | nil => rfl
  | cons cand cands ih => exact (ih _).trans (extent_saveRcand cfg ice cand)

theorem extent_resumeChecks : extent (resumeChecks cfg ice) = extent ice := extent_ite rfl rfl

theorem extent_endOfCandidates : extent (endOfCandidates cfg ice) = extent ice :=
  extent_ite (extent_checkIceComplete cfg _) rfl

@[simp] theorem extent_finishUpdate (trickleDone : Bool) : extent (finishUpdate cfg ice trickleDone) = extent ice :=
  extent_ite ((extent_resumeChecks cfg _).trans (extent_endOfCandidates cfg ice)) (extent_resumeChecks cfg ice)

@[simp] theorem extent_sortAndPrune (newPair : Nat) : extent (sortAndPrune ice newPair).1 = extent ice := by
  unfold sortAndPrune
  split
  · rfl
  · exact congrArg (·, ice.validList.length) ((size_pruneChecklist _ _).trans (size_sortChecklist _))

@[simp] theorem extent_nominateValid (c : Check) : extent (nominateValid ice c) = extent ice := by
  unfold nominateValid
  generalize ice.validList = checks
  induction checks generalizing ice with
  | nil => rfl
  | cons vc checks ih =>
    rw [List.foldl_cons, ih]
    split
    · exact congrArg (ice.clist.size, ·) (List.length_map _)
    · rfl

end Extent

/-! What needs a free slot. -/

section Slots

variable {cfg : Config} {ice : Session}

theorem size_pairUps {s : Checklist × Nat} (h : s.1.size = cfg.maxChecks) (ps : List (Nat × Nat)) :
    (ps.foldl (pairUp cfg ice) s).1.size = cfg.maxChecks := by
  induction ps generalizing s with
  | nil => exact h
  | cons p ps ih => exact ih (size_pairUp h)

theorem extent_addRcandAndUpdateChecklist (h : ice.clist.size = cfg.maxChecks) (cands : List Cand)
    (trickleDone : Bool) : extent (addRcandAndUpdateChecklist cfg ice cands trickleDone).1 = extent ice := by
  have hsaved := extent_saveRcands cfg ice cands
  unfold addRcandAndUpdateChecklist
  dsimp only
  generalize cands.foldl (saveRcand cfg) ice = start at hsaved ⊢
  have hsize : start.clist.size = cfg.maxChecks := (congrArg Prod.fst hsaved).trans h
  have hpaired : extent (start.setClist ((pairs start).foldl (pairUp cfg start) (start.clist, 0)).1) = extent ice := by
    refine (congrArg (·, start.validList.length) ?_).trans hsaved
    exact (size_pairUps (s := (start.clist, 0)) hsize _).trans hsize.symm
  generalize (pairs start).foldl (pairUp cfg start) (start.clist, 0) = paired at hpaired ⊢
  split
  · exact hpaired
  · have hpruned := extent_sortAndPrune (markPaired (start.setClist paired.1)) paired.2
    split
    · rename_i hsort
      rw [hsort] at hpruned
      exact hpruned.trans hpaired
    · rename_i hsort
      rw [hsort] at hpruned
      exact (extent_finishUpdate cfg _ _).trans (hpruned.trans hpaired)

theorem extent_initChecklist (ice : Session) (remote : Credentials) :
    extent (initChecklist ice remote) = extent ice := by
  unfold extent initChecklist Checklist.size
  rw [List.length_append, List.length_nil, Nat.zero_add]

theorem extent_createCheckList (h : ice.clist.size = cfg.maxChecks) (remote : Credentials) (cands : List Cand) :
    extent (createCheckList cfg ice remote cands).1 = extent ice := by
  have hinit := extent_initChecklist ice remote
  unfold createCheckList
  split
  · rfl
  · split
    · rfl
    · split
      · rfl
      · dsimp only
        split
        · exact (extent_addRcandAndUpdateChecklist ((congrArg Prod.fst hinit).trans h) _ _).trans hinit
        · exact hinit

theorem extent_updateCheckList (h : ice.clist.size = cfg.maxChecks) (remote : Credentials) (cands : List Cand)
    (trickleDone : Bool) : extent (updateCheckList cfg ice remote cands trickleDone).1 = extent ice := by
  unfold updateCheckList
  split
  · rfl
  · split
    · rfl
    · dsimp only
      split
      · exact extent_addRcandAndUpdateChecklist h _ _
      · exact extent_addRcandAndUpdateChecklist h _ _

theorem extent_incomingKnown (r : RxCheck) (k : Nat) : extent (incomingKnown cfg ice r k).1 = extent ice := by
  have hmodify := extent_modifyCheck ice k fun c => { c with nominated := r.useCandidate || c.nominated }
  unfold incomingKnown
  dsimp only
  generalize ice.modifyCheck k _ = next at hmodify ⊢
  rw [← hmodify]
  split
  · split
    · rfl
    · exact extent_performCheck cfg _ _ _
  · split
    · rfl
    · exact extent_performCheck cfg _ _ _
  · rfl
  · exact extent_ite (extent_nominateValid _ _) rfl
  · rfl

theorem extent_incomingNew (h : ice.clist.size = cfg.maxChecks) (r : RxCheck) (p : Nat × Nat) :
    extent (incomingNew cfg ice r p) = extent ice := by
  unfold incomingNew
  split
  · rename_i hroom
    have hpush : extent (ice.setClist (ice.clist.push (triggeredCheck ice p r.useCandidate))) = extent ice :=
      congrArg (·, ice.validList.length) (Checklist.size_push (h ▸ hroom) _)
    dsimp only
    generalize ice.setClist (ice.clist.push _) = next at hpush ⊢
    rw [← hpush]
    have hperform : extent (if next.isNominating ∧ cfg.isAggressive = false then next.startTimer
        else performTriggered cfg next ice.clist.checks.length) = extent next :=
      extent_ite rfl (extent_performCheck cfg _ _ _)
    generalize (if next.isNominating ∧ cfg.isAggressive = false then next.startTimer
        else performTriggered cfg next ice.clist.checks.length) = last at hperform ⊢
    rw [← hperform]
    exact congrArg (·, last.validList.length) (size_sortChecklist _)
  · rfl

theorem extent_sourceRcand {next : Session} {r : RxCheck} {rcand : Nat}
    (h : sourceRcand cfg ice r = some (next, rcand)) : extent next = extent ice := by
  unfold sourceRcand at h
  split at h
  · cases h
    rfl
  · split at h
    · cases h
    · cases h
      rfl

theorem extent_handleIncomingCheck (h : ice.clist.size = cfg.maxChecks) (r : RxCheck) :
    extent (handleIncomingCheck cfg ice r).1 = extent ice := by
  unfold handleIncomingCheck
  split
  · rfl
  · split
    · rfl
    · rename_i next rcand hsource
      have hnext := extent_sourceRcand hsource
      split
      · exact hnext
      · split
        · exact (extent_incomingKnown _ _).trans hnext
        · exact (extent_incomingNew ((congrArg Prod.fst hnext).trans h) _ _).trans hnext

theorem extent_onStunRxRequest (h : ice.clist.size = cfg.maxChecks) (req : RxRequest) :
    extent (onStunRxRequest cfg ice req).1 = extent ice := by
  unfold onStunRxRequest
  split
  · rfl
  · split
    · rfl
    · dsimp only
      split
      · split
        · rfl
        · rename_i role _ _ _
          have hchanged : (ice.changeRole role).clist.size = cfg.maxChecks := h
          exact extent_handleIncomingCheck hchanged _
      · rfl

theorem length_wakeFoundations (is : List Nat) (checks : List Check) :
    (is.foldl (wakeFoundation ice) checks).length = checks.length := by
  induction is generalizing checks with
  | nil => rfl
  | cons i is ih =>
    rw [List.foldl_cons, ih, wakeFoundation]
    split
    · exact List.length_modify ..
    · rfl

theorem extent_wakeFoundations (cfg : Config) (ice : Session) : extent (wakeFoundations cfg ice) = extent ice := by
  unfold wakeFoundations
  dsimp only
  rw [extent_setChecks _ (length_wakeFoundations _ _)]
  exact extent_ite rfl rfl

theorem extent_earlyChecks (h : ice.clist.size = cfg.maxChecks) (rs : List RxCheck) :
    extent (rs.foldl (fun ice r => finish cfg (handleIncomingCheck cfg ice r)) ice) = extent ice := by
  induction rs generalizing ice with
  | nil => rfl
  | cons r rs ih =>
    have hone : extent (finish cfg (handleIncomingCheck cfg ice r)) = extent ice :=
      (extent_finish cfg _).trans (extent_handleIncomingCheck h r)
    exact (ih ((congrArg Prod.fst hone).trans h)).trans hone

theorem extent_startCheck (h : ice.clist.size = cfg.maxChecks) : extent (startCheck cfg ice).1 = extent ice := by
  have hwoken := extent_wakeFoundations cfg ice
  unfold startCheck
  split
  · rfl
  · exact (extent_earlyChecks ((congrArg Prod.fst hwoken).trans h) _).trans hwoken

theorem extent_periodicCheck : extent (periodicCheck cfg ice).1 = extent ice := by
  unfold periodicCheck
  split
  · rfl
  · rename_i k _
    have hperform := extent_performCheck cfg ice k ice.isNominating
    split
    · rename_i hresult
      rw [hresult] at hperform
      exact hperform
    · rename_i hresult
      rw [hresult] at hperform
      exact (extent_modifyCheck _ _ _).trans hperform

theorem extent_startPeriodicCheck : extent (startPeriodicCheck cfg ice) = extent ice := by
  have hcheck : extent (finish cfg (periodicCheck cfg (runningChecklist ice))) = extent ice :=
    (extent_finish cfg _).trans extent_periodicCheck
  exact extent_ite hcheck hcheck

theorem extent_onTimer : extent (onTimer ice).1 = extent ice := by
  unfold onTimer
  dsimp only
  split
  · exact extent_onIceComplete _ _
  · split
    · exact extent_onIceComplete _ _
    · rfl
  · exact extent_ite rfl rfl
  · rfl
  · rfl
  · rfl

theorem extent_endOfCandIndTimer : extent (endOfCandIndTimer ice).1 = extent ice := by
  unfold endOfCandIndTimer
  dsimp only
  split
  · rfl
  · rfl

theorem extent_addCand (compId transportId : Nat) (type : CandType) (localPref : Nat) (foundation : List UInt8)
    (addr baseAddr : Addr) :
    extent (addCand cfg ice compId transportId type localPref foundation addr baseAddr).1 = extent ice := by
  unfold addCand
  split
  · rfl
  · split
    · rfl
    · dsimp only
      split
      · rfl
      · rfl

end Slots

/-! The pairs that completed requests enter. -/

section Entered

variable {cfg : Config} {ice : Session}

/-- The valid pair of a response: the local candidate with the mapped address, if there is one or it can be added. -/
def enteredBy (cfg : Config) (ice : Session) (k : Nat) (req : Request) (srcAddr : Addr) (mapped : Option Addr) :
    Option (Nat × Nat) :=
  let own := ice.clist.slot k
  if fromDestination cfg (ice.remoteCand own.rcand).addr srcAddr then
    mapped.bind fun mapped =>
      match (mappedLcand cfg ice (ice.localCand own.lcand) req.transportId mapped).2 with
      | .ok lcand => some (lcand, own.rcand)
      | .error _ => none
  else none

/-- The pair that the completion of a request enters, for the session without the transaction of its check. -/
def enteredPair (cfg : Config) (ice : Session) (req : Request) : Result → Option (Nat × Nat)
  | .response srcAddr mapped =>
    if ice.isComplete then none
    else (locate ice req).bind fun k => enteredBy cfg (ice.clearTdata k) k req srcAddr mapped
  | _ => none

def newPairs (ice : Session) : Option (Nat × Nat) → Nat
  | none => 0
  | some p => if p ∈ ice.validList.map Check.pair then 0 else 1

theorem extent_enterValid (p : Nat × Nat) (nominated : Bool) :
    extent (enterValid ice p nominated) = (ice.clist.size, ice.validList.length + newPairs ice (some p)) := by
  have hadd : (addValid ice p nominated).1.validList.length = ice.validList.length + newPairs ice (some p) := by
    unfold addValid newPairs
    cases hfind : ice.validList.find? (·.pair = p) with
    | some c =>
      have hmem : p ∈ ice.validList.map Check.pair :=
        List.mem_map.mpr ⟨c, List.mem_of_find?_eq_some hfind, by simpa using List.find?_some hfind⟩
      dsimp only
      rw [if_pos hmem]
      exact List.length_map _
    | none =>
      have hmem : p ∉ ice.validList.map Check.pair := by
        intro h
        obtain ⟨c, hc, hpair⟩ := List.mem_map.mp h
        exact List.find?_eq_none.mp hfind c hc (decide_eq_true hpair)
      dsimp only
      rw [if_neg hmem]
      exact List.length_append
  have hclist : (addValid ice p nominated).1.clist = ice.clist := by
    unfold addValid
    split
    · rfl
    · rfl
  refine Prod.ext ?_ ?_
  · exact congrArg Checklist.size hclist
  · exact (length_sortChecks _).trans hadd

theorem mappedLcand_validList (cfg : Config) (ice : Session) (lcand : Cand) (transportId : Nat) (mapped : Addr) :
    (mappedLcand cfg ice lcand transportId mapped).1.validList = ice.validList ∧
      (mappedLcand cfg ice lcand transportId mapped).1.clist = ice.clist := by
  unfold mappedLcand
  split
  · exact ⟨rfl, rfl⟩
  · unfold addCand
    split
    · exact ⟨rfl, rfl⟩
    · split
      · exact ⟨rfl, rfl⟩
      · dsimp only
        split
        · exact ⟨rfl, rfl⟩
        · exact ⟨rfl, rfl⟩

theorem extent_failCheck (k : Nat) (status : Error) : extent (failCheck ice k status).1 = extent ice :=
  extent_modifyCheck ..

theorem extent_onResponse (k : Nat) (req : Request) (srcAddr : Addr) (mapped : Option Addr) :
    extent (onResponse cfg ice k req srcAddr mapped).1 =
      (ice.clist.size, ice.validList.length + newPairs ice (enteredBy cfg ice k req srcAddr mapped)) := by
  unfold onResponse enteredBy
  dsimp only
  split
  · cases mapped with
    | none => exact extent_failCheck _ _
    | some mapped =>
      have hkept := mappedLcand_validList cfg ice (ice.localCand (ice.clist.slot k).lcand) req.transportId mapped
      dsimp only [Option.bind_some]
      generalize mappedLcand cfg ice (ice.localCand (ice.clist.slot k).lcand) req.transportId mapped = r at hkept ⊢
      obtain ⟨next, lcand⟩ := r
      obtain ⟨hvalid, hclist⟩ : next.validList = ice.validList ∧ next.clist = ice.clist := hkept
      cases lcand with
      | error status =>
        refine (extent_failCheck _ _).trans ?_
        unfold extent
        rw [hvalid, hclist]
        rfl
      | ok lcand =>
        refine (extent_modifyCheck _ _ _).trans ((extent_enterValid _ _).trans ?_)
        unfold newPairs
        rw [hvalid, hclist]
  · exact extent_failCheck _ _

theorem extent_onRoleConflict (k : Nat) (attr : RoleAttr) : extent (onRoleConflict cfg ice k attr) = extent ice := by
  unfold onRoleConflict
  dsimp only
  rw [extent_performCheck, extent_modifyCheck]
  rfl

theorem extent_onStunRequestComplete (req : Request) (result : Result) :
    extent (onStunRequestComplete cfg ice req result).1 =
      (ice.clist.size, ice.validList.length + newPairs ice (enteredPair cfg ice req result)) := by
  unfold onStunRequestComplete
  by_cases hcomplete : ice.isComplete = true
  · rw [if_pos hcomplete]
    cases result with
    | roleConflict => rfl
    | failed status => rfl
    | response srcAddr mapped =>
      rw [enteredPair, if_pos hcomplete]
      rfl
  · rw [if_neg hcomplete]
    have hclear (k : Nat) : extent (ice.clearTdata k) = extent ice := extent_modifyCheck _ _ _
    cases result with
    | roleConflict =>
      split
      · exact hclear _
      · exact (extent_onRoleConflict _ _).trans (hclear _)
    | failed status =>
      split
      · exact hclear _
      · exact (extent_failCheck _ _).trans (hclear _)
    | response srcAddr mapped =>
      rw [enteredPair, if_neg hcomplete]
      cases locate ice req with
      | none => exact hclear _
      | some k =>
        have hsize : (ice.clearTdata k).clist.size = ice.clist.size := congrArg Prod.fst (hclear k)
        exact (extent_onResponse k req srcAddr mapped).trans (Prod.ext hsize rfl)

end Entered

/-! Runs. -/

/-- Neither list holds more checks than its array. -/
structure WithinCapacity (cfg : Config) (ice : Session) : Prop where
  checks : ice.clist.checks.length ≤ cfg.maxChecks
  valid : ice.validList.length ≤ cfg.maxChecks

/-- The session in which `add_rcand_and_update_checklist` starts to pair the candidates. -/
def pairingStart (cfg : Config) (ice : Session) : Event → Option Session
  | .createCheckList remote cands =>
    if ice.remote.isSome ∨ (remote.ufrag.length < 4 ∨ remote.passwd.length < 22) ∨
        (512 ≤ remote.ufrag.length ∨ 512 - 1 - remote.ufrag.length < cfg.rxUfrag.length) ∨
        ¬ (ice.lcand ≠ [] ∧ cands ≠ []) then none
    else some (cands.foldl (saveRcand cfg) (initChecklist ice remote))
  | .updateCheckList remote cands _ =>
    if ice.remote = none ∨ (ice.isTrickling = false ∧ cands ≠ []) then none
    else some ((if ice.remote = some remote then cands else []).foldl (saveRcand cfg) ice)
  | _ => none

def pairStep (cfg : Config) (start : Session) (s : Checklist × Nat) (p : Nat × Nat) : Option (Checklist × Nat) :=
  some (pairUp cfg start s p)

/-- After the event both lists are within their arrays, and each turn of the pairing has put a new pair in the place of
the check that it discarded. -/
structure KeepsCapacity (cfg : Config) (ice : Session) (e : Event) : Prop where
  within : ∀ next, step cfg ice e = some next → WithinCapacity cfg next
  replaces : ∀ start, pairingStart cfg ice e = some start →
    Meets (pairStep cfg start) (fun s p => Replaces start p s.1.checks (pairUp cfg start s p).1.checks)
      (start.clist, 0) (pairs start)

/-- A completed request enters a pair only where the valid list has it or has room for it, and in each turn of the
pairing for which a check can be discarded from the full list, the pair can be added. -/
structure FitsCapacity (cfg : Config) (ice : Session) (e : Event) : Prop where
  room : ∀ i result req p, e = .requestComplete i result → ice.pending[i]? = some req →
    enteredPair cfg (ice.endRequest i) req result = some p →
      p ∈ ice.validList.map Check.pair ∨ ice.validList.length < cfg.maxChecks
  used : ∀ start, pairingStart cfg ice e = some start →
    Meets (pairStep cfg start) (RoomIsUsed cfg start) (start.clist, 0) (pairs start)

/-- How many pairs the event adds to the valid list. -/
def addedPairs (cfg : Config) (ice : Session) : Event → Nat
  | .requestComplete i result =>
    (ice.pending[i]?.map fun req => newPairs ice (enteredPair cfg (ice.endRequest i) req result)).getD 0
  | _ => 0

section Runs

variable {cfg : Config} {ice : Session} {e : Event}

theorem size_pairingStart {start : Session} (h : pairingStart cfg ice e = some start) :
    start.clist.size = ice.clist.size := by
  cases e with
  | createCheckList remote cands =>
    rw [pairingStart] at h
    split at h
    · cases h
    · obtain rfl := Option.some.inj h
      exact congrArg Prod.fst ((extent_saveRcands cfg _ cands).trans (extent_initChecklist ice remote))
  | updateCheckList remote cands trickleDone =>
    rw [pairingStart] at h
    split at h
    · cases h
    · obtain rfl := Option.some.inj h
      exact congrArg Prod.fst (extent_saveRcands cfg ice _)
  | _ => cases h

theorem extent_handle (h : ice.clist.size = cfg.maxChecks) (e : Event) :
    extent (handle cfg ice e) = (ice.clist.size, ice.validList.length + addedPairs cfg ice e) := by
  cases e with
  | addCand => exact extent_addCand _ _ _ _ _ _ _
  | createCheckList remote cands => exact extent_createCheckList h remote cands
  | updateCheckList remote cands trickleDone => exact extent_updateCheckList h remote cands trickleDone
  | startCheck => exact extent_startCheck h
  | changeRole role => rfl
  | periodicTimer => exact extent_startPeriodicCheck
  | timer => exact (extent_finish cfg _).trans extent_onTimer
  | endOfCandTimer => exact (extent_finish cfg _).trans extent_endOfCandIndTimer
  | rxRequest req => exact (extent_finish cfg _).trans (extent_onStunRxRequest h req)
  | requestComplete i result =>
    unfold handle addedPairs
    dsimp only
    cases ice.pending[i]? with
    | none => rfl
    | some req => exact (extent_finish cfg _).trans (extent_onStunRequestComplete req result)

theorem length_le_size (clist : Checklist) : clist.checks.length ≤ clist.size := Nat.le_add_right _ _

theorem withinCapacity_handle (h : ice.clist.size = cfg.maxChecks) :
    WithinCapacity cfg (handle cfg ice e) ↔ ice.validList.length + addedPairs cfg ice e ≤ cfg.maxChecks := by
  have hextent := extent_handle h e
  have hsize : (handle cfg ice e).clist.size = cfg.maxChecks := (congrArg Prod.fst hextent).trans h
  have hvalid : (handle cfg ice e).validList.length = ice.validList.length + addedPairs cfg ice e :=
    congrArg Prod.snd hextent
  constructor
  · exact fun hwithin => hvalid ▸ hwithin.valid
  · exact fun hle => ⟨hsize ▸ length_le_size _, hvalid ▸ hle⟩

theorem newPairs_le_iff {p : Nat × Nat} {n : Nat} (h : ice.validList.length ≤ n) :
    ice.validList.length + newPairs ice (some p) ≤ n ↔
      p ∈ ice.validList.map Check.pair ∨ ice.validList.length < n := by
  rw [newPairs]
  by_cases hmem : p ∈ ice.validList.map Check.pair
  · rw [if_pos hmem]
    exact ⟨fun _ => .inl hmem, fun _ => h⟩
  · rw [if_neg hmem]
    exact ⟨.inr, fun hor => hor.resolve_left hmem⟩

theorem addedPairs_le_iff (h : ice.validList.length ≤ cfg.maxChecks) :
    ice.validList.length + addedPairs cfg ice e ≤ cfg.maxChecks ↔
      ∀ i result req p, e = .requestComplete i result → ice.pending[i]? = some req →
        enteredPair cfg (ice.endRequest i) req result = some p →
          p ∈ ice.validList.map Check.pair ∨ ice.validList.length < cfg.maxChecks := by
  constructor
  · rintro hle i result req p rfl hreq hpair
    rw [addedPairs, hreq, Option.map_some, Option.getD_some, hpair] at hle
    exact (newPairs_le_iff h).mp hle
  · intro hroom
    cases e with
    | requestComplete i result =>
      rw [addedPairs]
      cases hreq : ice.pending[i]? with
      | none => exact h
      | some req =>
        rw [Option.map_some, Option.getD_some]
        cases hpair : enteredPair cfg (ice.endRequest i) req result with
        | none => exact h
        | some p => exact (newPairs_le_iff h).mpr (hroom i result req p rfl hreq hpair)
    | _ => exact h

/-- What the lists are in every state of a run: all slots are there, and the valid list is within its array. -/
def Sized (cfg : Config) (ice : Session) : Prop :=
  ice.clist.size = cfg.maxChecks ∧ ice.validList.length ≤ cfg.maxChecks

theorem enabled_of_addedPairs (h : addedPairs cfg ice e ≠ 0) : enabled ice e = true := by
  cases e with
  | requestComplete i result =>
    rw [addedPairs] at h
    cases hreq : ice.pending[i]? with
    | none =>
      rw [hreq] at h
      exact absurd rfl h
    | some req => exact decide_eq_true (List.getElem?_eq_some_iff.mp hreq).1
  | _ => exact absurd rfl h

theorem keepsCapacity_iff (h : Sized cfg ice) : KeepsCapacity cfg ice e ↔ FitsCapacity cfg ice e := by
  have hpairs (start : Session) (hstart : pairingStart cfg ice e = some start) :
      Meets (pairStep cfg start) (fun s p => Replaces start p s.1.checks (pairUp cfg start s p).1.checks)
          (start.clist, 0) (pairs start) ↔
        Meets (pairStep cfg start) (RoomIsUsed cfg start) (start.clist, 0) (pairs start) := by
    refine meets_iff_of_invariant (P := fun s => s.1.size = cfg.maxChecks) (fun s p _ => replaces_iff) ?_
      ((size_pairingStart hstart).trans h.1)
    intro s p next hs _ hnext
    rw [← Option.some.inj hnext]
    exact size_pairUp hs
  constructor
  · intro hkeeps
    refine ⟨(addedPairs_le_iff h.2).mp ?_, fun start hstart => (hpairs start hstart).mp (hkeeps.replaces start hstart)⟩
    by_cases hadded : addedPairs cfg ice e = 0
    · rw [hadded]
      exact h.2
    · have hstep : step cfg ice e = some (handle cfg ice e) := if_pos (enabled_of_addedPairs hadded)
      exact (withinCapacity_handle h.1).mp (hkeeps.within _ hstep)
  · intro hfits
    refine ⟨fun next hnext => ?_, fun start hstart => (hpairs start hstart).mpr (hfits.used start hstart)⟩
    unfold step at hnext
    split at hnext
    · obtain rfl := Option.some.inj hnext
      exact (withinCapacity_handle h.1).mpr ((addedPairs_le_iff h.2).mpr hfits.room)
    · cases hnext

theorem sized_step {next : Session} (h : Sized cfg ice) (hfits : FitsCapacity cfg ice e)
    (hnext : step cfg ice e = some next) : Sized cfg next := by
  have hwithin := ((keepsCapacity_iff h).mpr hfits).within next hnext
  unfold step at hnext
  split at hnext
  · obtain rfl := Option.some.inj hnext
    exact ⟨(congrArg Prod.fst (extent_handle h.1 e)).trans h.1, hwithin.valid⟩
  · cases hnext

theorem sized_initial (cfg : Config) (role : Role) (compCnt : Nat) : Sized cfg (initial cfg role compCnt) :=
  ⟨(Nat.zero_add _).trans List.length_replicate, Nat.zero_le _⟩

/-- In a run both lists stay within their arrays, and every discarded check is replaced by a new pair, when and only
when the valid list has room for each new pair and each pair that a check could be discarded for can be added. -/
theorem keepsCapacity_iff_fitsCapacity (cfg : Config) (role : Role) (compCnt : Nat) (events : List Event) :
    Meets (step cfg) (KeepsCapacity cfg) (initial cfg role compCnt) events ↔
      Meets (step cfg) (FitsCapacity cfg) (initial cfg role compCnt) events :=
  meets_iff_of_invariant (P := Sized cfg) (fun _ _ => keepsCapacity_iff) (fun _ _ _ => sized_step)
    (sized_initial cfg role compCnt)

theorem exec_pairStep (start : Session) (s : Checklist × Nat) (ps : List (Nat × Nat)) :
    exec (pairStep cfg start) s ps = some (ps.foldl (pairUp cfg start) s) := by
  induction ps generalizing s with
  | nil => rfl
  | cons p ps ih => exact ih (pairUp cfg start s p)

/-- A turn that leaves fewer checks has replaced none. -/
theorem not_keepsCapacity {start : Session} {ps more : List (Nat × Nat)} {p : Nat × Nat}
    (hstart : pairingStart cfg ice e = some start) (hpairs : pairs start = ps ++ p :: more)
    (hlost : (pairUp cfg start (ps.foldl (pairUp cfg start) (start.clist, 0)) p).1.checks.length <
      (ps.foldl (pairUp cfg start) (start.clist, 0)).1.checks.length) : ¬ KeepsCapacity cfg ice e := by
  intro h
  have hmeets := h.replaces start hstart
  rw [hpairs] at hmeets
  exact absurd (meets_append hmeets (exec_pairStep start _ ps)).2.1.length_le (Nat.not_le_of_lt hlost)

end Runs

/-! A remote candidate of another component costs a check. -/

def lanAddr (n : UInt8) (port : Nat) : Addr := ⟨false, [10, 0, 0, n], port⟩

def hostCand (n : UInt8) (compId : Nat) (prio : UInt32) : Cand :=
  ⟨.host, compId, 0, [n], prio, lanAddr n 5000, lanAddr n 5000⟩

def sampleRemote : Credentials := ⟨List.replicate 4 65, List.replicate 22 65⟩

def eightLocals : List Event :=
  (List.range 8).map fun i =>
    .addCand 1 1 .host (65535 - i) [UInt8.ofNat i] (lanAddr (UInt8.ofNat i) 4000) (lanAddr (UInt8.ofNat i) 4000)

/-- Four remote candidates of the first component, and one of the second. -/
def fiveRemotes : List Cand :=
  [hostCand 101 1 1004, hostCand 102 1 1003, hostCand 103 1 1002, hostCand 104 1 1001, hostCand 105 2 1005]

/-- The session with the local candidates, and when it has also saved the remote ones. -/
def withLocals : Session := eightLocals.foldl (handle defaultConfig) (initial defaultConfig .controlling 2)

def withRemotes : Session := fiveRemotes.foldl (saveRcand defaultConfig) (initChecklist withLocals sampleRemote)

/-- The 32 checks of the first component fill the list; the pair with the candidate of the second component discards
the last of them and is not added. -/
theorem keepsCapacity_fails :
    ¬ Meets (step defaultConfig) (KeepsCapacity defaultConfig) (initial defaultConfig .controlling 2)
      (eightLocals ++ [.createCheckList sampleRemote fiveRemotes]) := by
  intro h
  have hrun : exec (step defaultConfig) (initial defaultConfig .controlling 2) eightLocals = some withLocals := by
    decide +kernel
  have hstart : pairingStart defaultConfig withLocals (.createCheckList sampleRemote fiveRemotes) =
      some withRemotes := by
    decide +kernel
  have hpairs : pairs withRemotes = (pairs withRemotes).take 39 ++ (7, 4) :: [] := by decide +kernel
  exact not_keepsCapacity hstart hpairs (by decide +kernel) (meets_append h hrun).2.1

/-- An array of one check, and regular nomination. -/
def oneCheck : Config :=
  { defaultConfig with
    maxChecks := 1
    aggressive := false }

-- The same check is answered twice, with two mapped addresses: the valid list has two pairs.
example :
    (exec (step oneCheck) (initial oneCheck .controlling 1)
        [.addCand 1 1 .host 65535 [1] (lanAddr 1 4000) (lanAddr 1 4000),
          .createCheckList sampleRemote [hostCand 101 1 1004], .startCheck, .periodicTimer,
          .requestComplete 0 (.response (lanAddr 101 5000) (some (lanAddr 1 4000))), .periodicTimer,
          .requestComplete 0 (.response (lanAddr 101 5000) (some (lanAddr 9 4000)))]).map (·.validList.length) =
      some 2 := by
  decide +kernel

end PjProject.Ice
