import PjProject.IceCapacity

/-! What the completion of a request changes in the checklist of an ICE session. The check is found by the index that the
request was sent from, if the transaction there is its, and by the candidates otherwise. Sorting and pruning move the
checks, and prune replaces their local candidates; a write through an index that they made stale goes to another check. -/

namespace PjProject.Ice

open IceRoles (Role RoleAttr conflictRole)
open IcePriority (cmpTimestamp)

/-! The effect of a completed check on the others. -/

/-- What `on_check_complete` for the check `own` may make of a check. It leaves the session `next`, and `nominating` says
that the nomination had started before. -/
inductive ByCompletion (cfg : Config) (nominating : Bool) (next : Session) (own c : Check) : Check → Prop
  | kept : ByCompletion cfg nominating next own c c
  | unfrozen (hsuccess : own.errCode = none) (hfoundation : c.foundationIdx = own.foundationIdx)
      (hstate : c.state = .frozen) : ByCompletion cfg nominating next own c (c.setState .waiting none)
  | failed (hsuccess : own.errCode = none) (hnominated : own.nominated = true) (hcomp : sameComp next own c = true)
      (hstate : c.state.value < 2) : ByCompletion cfg nominating next own c (c.setState .failed (some .ecancelled))
  | cancelled (hsuccess : own.errCode = none) (hnominated : own.nominated = true) (hcomp : sameComp next own c = true)
      (hcancels : cancels cfg own c = true) :
      ByCompletion cfg nominating next own c { c.setState .failed (some .ecancelled) with tdata := none }
  /-- The nomination starts, and the check belongs to a valid pair. -/
  | restarted {d : Check} (h : ByCompletion cfg nominating next own c d) (hbefore : nominating = false)
      (hstarts : next.isNominating = true) {comp : Comp} (hcomp : comp ∈ next.comps) {pair : Nat × Nat}
      (hvalid : comp.validCheck = some pair) (hsame : sameTransport next pair d = true) :
      ByCompletion cfg nominating next own c (d.setState .waiting none)

section Completion

variable {cfg : Config} {nominating : Bool} {ice next : Session} {own : Check}

theorem byCompletion_giveUp {c : Check} (hsuccess : own.errCode = none) (hnominated : own.nominated = true)
    (hcomp : sameComp next own c = true) : ByCompletion cfg nominating next own c (giveUp cfg own c) := by
  unfold giveUp
  split
  · rename_i hstate
    exact .failed hsuccess hnominated hcomp hstate
  · split
    · rename_i hcancels
      exact .cancelled hsuccess hnominated hcomp hcancels
    · exact .kept

theorem byCompletion_unfreeze {c : Check} (hsuccess : own.errCode = none) :
    ByCompletion cfg nominating next own c (unfreeze own.foundationIdx c) := by
  unfold unfreeze
  split
  · rename_i hfrozen
    exact .unfrozen hsuccess hfrozen.1 hfrozen.2
  · exact .kept

theorem byCompletion_giveUp_unfreeze {c : Check} (hsuccess : own.errCode = none) (hnominated : own.nominated = true)
    (hcomp : sameComp next own (unfreeze own.foundationIdx c) = true) :
    ByCompletion cfg nominating next own c (giveUp cfg own (unfreeze own.foundationIdx c)) := by
  unfold unfreeze at hcomp ⊢
  split at hcomp
  · rename_i hfrozen
    rw [if_pos hfrozen]
    have hvalue : c.state.value < 2 := by
      rw [hfrozen.2]
      decide
    exact .failed hsuccess hnominated hcomp hvalue
  · rename_i hfrozen
    rw [if_neg hfrozen]
    exact byCompletion_giveUp hsuccess hnominated hcomp

theorem byCompletion_settled (hlcand : next.lcand = ice.lcand) (c : Check) :
    ByCompletion cfg nominating next own c (settled cfg ice own c) := by
  have hcomp : ∀ d, sameComp next own d = sameComp ice own d := fun d => by
    unfold sameComp Session.localCand
    rw [hlcand]
  unfold settled
  dsimp only
  by_cases hsuccess : own.errCode = none
  · rw [if_pos hsuccess]
    split
    · rename_i hboth
      split
      · rename_i hsame
        exact byCompletion_giveUp_unfreeze hsuccess hboth.2 ((hcomp _).trans hsame)
      · exact byCompletion_unfreeze hsuccess
    · exact byCompletion_unfreeze hsuccess
  · rw [if_neg hsuccess, if_neg fun hboth => hsuccess hboth.1]
    exact .kept

theorem byCompletion_restartValid (hlcand : next.lcand = ice.lcand) (hbefore : nominating = false)
    (hstarts : next.isNominating = true) {before : List Check} (comps : List Comp)
    (hcomps : ∀ comp ∈ comps, comp ∈ next.comps) {checks : List Check}
    (h : List.Forall₂ (ByCompletion cfg nominating next own) before checks) :
    List.Forall₂ (ByCompletion cfg nominating next own) before (comps.foldl (restartValid ice) checks) := by
  induction comps generalizing checks with
  | nil => exact h
  | cons comp comps ih =>
    refine ih (fun c hc => hcomps c (List.mem_cons_of_mem _ hc)) ?_
    unfold restartValid
    split
    · rename_i k hk
      obtain ⟨pair, hvalid, hfound⟩ := Option.bind_eq_some_iff.mp hk
      obtain ⟨hlt, hsame, -⟩ := List.findIdx?_eq_some_iff_getElem.mp hfound
      refine forall₂_modify h fun c d hd hcd => ?_
      obtain rfl : checks[k] = d := Option.some.inj ((List.getElem?_eq_getElem hlt).symm.trans hd)
      refine .restarted hcd hbefore hstarts (hcomps comp List.mem_cons_self) hvalid ?_
      unfold sameTransport Session.localCand at hsame ⊢
      rw [hlcand]
      exact hsame
    · exact h

theorem checkIceComplete_leaves (cfg : Config) (ice : Session) :
    (checkIceComplete cfg ice).lcand = ice.lcand ∧ (checkIceComplete cfg ice).comps = ice.comps := by
  have hcomplete : ∀ s status, (onIceComplete s status).lcand = s.lcand ∧ (onIceComplete s status).comps = s.comps := by
    intro s status
    unfold onIceComplete
    split <;> exact ⟨rfl, rfl⟩
  unfold checkIceComplete
  split
  · exact hcomplete ice none
  · exact hcomplete ice _
  · unfold waitValidPairOrFail
    split
    · exact ⟨rfl, rfl⟩
    · split
      · exact ⟨rfl, rfl⟩
      · exact hcomplete ice _
  · unfold waitNomination
    dsimp only
    split <;> split <;> exact ⟨rfl, rfl⟩
  · split <;> exact ⟨rfl, rfl⟩
  · exact ⟨rfl, rfl⟩
  · exact ⟨rfl, rfl⟩

theorem byCompletion_checkIceComplete {before : List Check} (hnominating : ice.isNominating = nominating)
    (h : List.Forall₂ (ByCompletion cfg nominating (checkIceComplete cfg ice) own) before ice.clist.checks) :
    List.Forall₂ (ByCompletion cfg nominating (checkIceComplete cfg ice) own) before
      (checkIceComplete cfg ice).clist.checks := by
  obtain ⟨hlcand, hcomps⟩ := checkIceComplete_leaves cfg ice
  by_cases hstart : completion ice = .startNominated
  · have hidle : ice.isNominating = false := by
      unfold completion at hstart
      grind
    generalize hnext : checkIceComplete cfg ice = next at *
    rw [checkIceComplete, hstart] at hnext
    have hview : view (if ice.timer = .waitValidPair then ice.setTimer .none else ice) = view ice := view_ite rfl rfl
    have hsame : (if ice.timer = .waitValidPair then ice.setTimer .none else ice).lcand = ice.lcand ∧
        (if ice.timer = .waitValidPair then ice.setTimer .none else ice).comps = ice.comps := by
      split <;> exact ⟨rfl, rfl⟩
    rw [← hnext, checks_startNominatedCheck, clist_of_view hview, hsame.2]
    refine byCompletion_restartValid ?_ (hnominating.symm.trans hidle) ?_ _ ?_ ?_
    · rw [hnext, hlcand, hsame.1]
    · rfl
    · rw [hnext, hcomps]
      exact fun _ hcomp => hcomp
    · rw [hnext]
      exact h
  · rw [clist_of_view (view_checkIceComplete cfg ice hstart)]
    exact h

/-- The rule of `on_check_complete`. -/
theorem byCompletion_onCheckComplete (cfg : Config) (hnominating : ice.isNominating = nominating) (k : Nat) :
    List.Forall₂ (ByCompletion cfg nominating (onCheckComplete cfg ice k) (ice.clist.slot k)) ice.clist.checks
      (onCheckComplete cfg ice k).clist.checks := by
  have hupdate : (updateStates cfg ice k).isNominating = ice.isNominating ∧
      (updateStates cfg ice k).lcand = ice.lcand := by
    unfold updateStates
    dsimp only
    split <;> exact ⟨rfl, rfl⟩
  refine byCompletion_checkIceComplete (hupdate.1.trans hnominating) ?_
  rw [checks_updateStates]
  exact forall₂_map (byCompletion_settled ((checkIceComplete_leaves cfg _).1.trans hupdate.2)) _

end Completion

/-! The frame of the completion of a request. -/

/-- Only a check with the candidates of the pair differs, and it keeps its candidates. -/
def OnlyOwn (pair : Nat × Nat) (c d : Check) : Prop := d.pair = c.pair ∧ (c.pair = pair ∨ d = c)

theorem OnlyOwn.refl (pair : Nat × Nat) (c : Check) : OnlyOwn pair c c := ⟨rfl, .inr rfl⟩

/-- The checks differ from what they were only at the pair, and the check with the index `k` is one with the pair. -/
structure Framed (pair : Nat × Nat) (before : List Check) (k : Nat) (clist : Checklist) : Prop where
  frame : List.Forall₂ (OnlyOwn pair) before clist.checks
  own : ∃ c, clist.checks[k]? = some c ∧ c.pair = pair

section Frame

variable {pair : Nat × Nat} {before : List Check} {k : Nat}

theorem Framed.modify {clist : Checklist} (h : Framed pair before k clist) (f : Check → Check)
    (hf : ∀ c, (f c).pair = c.pair) : Framed pair before k (clist.modify k f) := by
  obtain ⟨c, hc, hpair⟩ := h.own
  unfold Checklist.modify
  rw [if_pos (List.getElem?_eq_some_iff.mp hc).1]
  constructor
  · refine forall₂_modify h.frame fun b d hd hbd => ?_
    obtain rfl : c = d := Option.some.inj (hc.symm.trans hd)
    exact ⟨(hf c).trans hbd.1, .inl (hbd.1.symm.trans hpair)⟩
  · refine ⟨f c, ?_, (hf c).trans hpair⟩
    dsimp only
    rw [List.getElem?_modify_eq, hc]
    rfl

theorem slot_eq {clist : Checklist} {c : Check} (h : clist.checks[k]? = some c) : clist.slot k = c := by
  unfold Checklist.slot
  rw [List.getD_eq_getElem?_getD, List.getElem?_append_left (List.getElem?_eq_some_iff.mp h).1, h]
  rfl

variable {cfg : Config} {ice : Session}

theorem Framed.performCheck (h : Framed pair before k ice.clist) (nominate : Bool) :
    Framed pair before k (performCheck cfg ice k nominate).1.clist := by
  unfold Ice.performCheck
  dsimp only
  split
  · exact h
  · exact h.modify _ fun c => rfl
  · exact h.modify _ fun c => rfl

theorem Framed.failCheck (h : Framed pair before k ice.clist) (status : Error) :
    Framed pair before k (failCheck ice k status).1.clist :=
  h.modify _ fun _ => rfl

theorem Framed.onRoleConflict (h : Framed pair before k ice.clist) (attr : RoleAttr) :
    Framed pair before k (onRoleConflict cfg ice k attr).clist := by
  have hwaiting : Framed pair before k
      ((ice.changeRole (conflictRole attr)).modifyCheck k (·.setState .waiting none)).clist :=
    h.modify _ fun _ => rfl
  exact hwaiting.performCheck _

theorem Framed.onResponse (h : Framed pair before k ice.clist) (req : Request) (srcAddr : Addr)
    (mapped : Option Addr) : Framed pair before k (onResponse cfg ice k req srcAddr mapped).1.clist := by
  unfold Ice.onResponse
  dsimp only
  split
  · split
    · exact h.failCheck _
    · rename_i mapped
      have hview := view_mappedLcand cfg ice (ice.localCand (ice.clist.slot k).lcand) req.transportId mapped
      split
      · rename_i next status hnext
        rw [hnext] at hview
        have hkept : next.clist = ice.clist := clist_of_view hview
        exact Framed.failCheck (hkept ▸ h) status
      · rename_i next lcand hnext
        rw [hnext] at hview
        have hkept : next.clist = ice.clist := clist_of_view hview
        refine Framed.modify ?_ _ fun _ => rfl
        rw [clist_of_view (view_enterValid next _ _), hkept]
        exact h
  · exact h.failCheck _

theorem call_onResponse (k : Nat) (req : Request) (srcAddr : Addr) (mapped : Option Addr) :
    (onResponse cfg ice k req srcAddr mapped).2 = .onCheckComplete k := by
  unfold Ice.onResponse
  dsimp only
  split
  · split
    · rfl
    · split
      · rfl
      · rfl
  · rfl

theorem Framed.onStunRequestComplete (cfg : Config) {req : Request} (h : Framed req.pair before k ice.clist)
    (hcomplete : ice.isComplete = false) (hlocate : locate ice req = some k) (result : Result) :
    Framed req.pair before k (onStunRequestComplete cfg ice req result).1.clist ∧
      ((onStunRequestComplete cfg ice req result).2 = .done ∨
        (onStunRequestComplete cfg ice req result).2 = .onCheckComplete k) := by
  have hclear : Framed req.pair before k (ice.clearTdata k).clist := h.modify _ fun _ => rfl
  unfold Ice.onStunRequestComplete
  rw [if_neg (Bool.eq_false_iff.mp hcomplete), hlocate]
  cases result with
  | roleConflict => exact ⟨hclear.onRoleConflict _, .inl rfl⟩
  | failed status => exact ⟨hclear.failCheck _, .inr rfl⟩
  | response srcAddr mapped => exact ⟨hclear.onResponse _ _ _, .inr (call_onResponse _ _ _ _)⟩

end Frame

/-! Completed requests. -/

/-- Only the check with the candidates of the pair is changed, but for what its completion does to the others; and
nothing at all when there is no such check. -/
def TouchesOwn (cfg : Config) (pair : Nat × Nat) (ice next : Session) : Prop :=
  (∃ mid, List.Forall₂ (OnlyOwn pair) ice.clist.checks mid ∧
      (next.clist.checks = mid ∨ ∃ own ∈ mid, own.pair = pair ∧
        List.Forall₂ (ByCompletion cfg ice.isNominating next own) mid next.clist.checks)) ∧
    (pair ∉ ice.clist.checks.map Check.pair → next.clist.checks = ice.clist.checks)

/-- The index of the request is not stale in a way that matters: the transaction is found there only at a check with
its candidates, and where no check has them, there is no other transaction. -/
structure Located (ice : Session) (req : Request) : Prop where
  current : (ice.clist.slot req.ckid).tdata = some req.tdata →
    ice.clist.checks[req.ckid]?.map Check.pair = some req.pair
  gone : req.pair ∉ ice.clist.checks.map Check.pair → ice.clist.checks[req.ckid]?.bind Check.tdata = none

instance (ice : Session) (req : Request) : Decidable (Located ice req) :=
  decidable_of_iff
    (((ice.clist.slot req.ckid).tdata = some req.tdata →
        ice.clist.checks[req.ckid]?.map Check.pair = some req.pair) ∧
      ((∀ c ∈ ice.clist.checks, c.pair ≠ req.pair) → ice.clist.checks[req.ckid]?.bind Check.tdata = none))
    ⟨fun h => ⟨h.1, fun hgone => h.2 fun _ hc heq => hgone (heq ▸ List.mem_map_of_mem hc)⟩,
      fun h => ⟨h.current, fun hgone => h.gone fun hmem => (List.mem_map.mp hmem).elim fun c hc => hgone c hc.1 hc.2⟩⟩

def CompletesOwn (cfg : Config) (ice : Session) (e : Event) : Prop :=
  ∀ i result req, e = .requestComplete i result → ice.pending[i]? = some req →
    TouchesOwn cfg req.pair ice (handle cfg ice e)

def LocatesOwn (ice : Session) : Event → Prop
  | .requestComplete i _ => ice.isComplete = false → ∀ req ∈ ice.pending[i]?, Located ice req
  | _ => True

instance (ice : Session) (e : Event) : Decidable (LocatesOwn ice e) := by
  cases e with
  | requestComplete i result =>
    exact inferInstanceAs (Decidable (ice.isComplete = false → ∀ req ∈ ice.pending[i]?, Located ice req))
  | _ => exact .isTrue trivial

section Located

variable {cfg : Config} {ice : Session} {req : Request}

theorem TouchesOwn.same (pair : Nat × Nat) {next : Session} (h : next.clist.checks = ice.clist.checks) :
    TouchesOwn cfg pair ice next :=
  ⟨⟨ice.clist.checks, List.forall₂_same.mpr fun c _ => .refl pair c, .inl h⟩, fun _ => h⟩

/-- The index that is found is that of a check with the candidates. -/
theorem Located.own {k : Nat} (h : Located ice req) (hlocate : locate ice req = some k) :
    ∃ c, ice.clist.checks[k]? = some c ∧ c.pair = req.pair := by
  unfold locate at hlocate
  split at hlocate
  · rename_i htdata
    obtain rfl := Option.some.inj hlocate
    exact Option.map_eq_some_iff.mp (h.current htdata)
  · obtain ⟨hk, hpair, -⟩ := List.findIdx?_eq_some_iff_getElem.mp hlocate
    exact ⟨_, List.getElem?_eq_getElem hk, of_decide_eq_true hpair⟩

/-- The write of the exit for a check that is gone changes nothing. -/
theorem Located.clearTdata (h : Located ice req) (hlocate : locate ice req = none) :
    (ice.clearTdata req.ckid).clist.checks = ice.clist.checks := by
  have hgone : req.pair ∉ ice.clist.checks.map Check.pair := by
    intro hmem
    obtain ⟨c, hc, hpair⟩ := List.mem_map.mp hmem
    unfold locate at hlocate
    split at hlocate
    · cases hlocate
    · exact absurd (decide_eq_true hpair) (Bool.eq_false_iff.mp (List.findIdx?_eq_none_iff.mp hlocate c hc))
  unfold Session.clearTdata Session.modifyCheck Session.setClist Checklist.modify
  dsimp only
  split
  · refine modify_of_fixed fun c hc => ?_
    have hnone := h.gone hgone
    rw [hc, Option.bind_some] at hnone
    rw [← hnone]
  · rfl

/-- The nomination is not started before `on_check_complete`. -/
theorem isNominating_onStunRequestComplete (result : Result) :
    (onStunRequestComplete cfg ice req result).1.isNominating = ice.isNominating := by
  unfold onStunRequestComplete
  split
  · rfl
  · split
    · rfl
    · cases result with
      | roleConflict =>
        dsimp only [onRoleConflict, performCheck]
        split <;> rfl
      | failed status => rfl
      | response srcAddr mapped =>
        rename_i k _
        dsimp only [onResponse]
        split
        · split
          · rfl
          · rename_i mapped
            have hview := view_mappedLcand cfg (ice.clearTdata k)
              ((ice.clearTdata k).localCand ((ice.clearTdata k).clist.slot k).lcand) req.transportId mapped
            split
            · rename_i next status hnext
              rw [hnext] at hview
              exact congrArg Prod.snd hview
            · rename_i next lcand hnext
              rw [hnext] at hview
              exact congrArg Prod.snd ((view_enterValid next _ _).trans hview)
        · rfl

theorem touchesOwn_onStunRequestComplete (h : ice.isComplete = false → Located ice req) (result : Result) :
    TouchesOwn cfg req.pair ice (finish cfg (onStunRequestComplete cfg ice req result)) := by
  cases hcomplete : ice.isComplete with
  | true =>
    rw [onStunRequestComplete, if_pos hcomplete]
    exact .same _ rfl
  | false =>
    have hlocated := h hcomplete
    cases hlocate : locate ice req with
    | none =>
      rw [onStunRequestComplete, if_neg (Bool.eq_false_iff.mp hcomplete), hlocate]
      exact .same _ (hlocated.clearTdata hlocate)
    | some k =>
      have hown := hlocated.own hlocate
      have hframed : Framed req.pair ice.clist.checks k ice.clist :=
        ⟨List.forall₂_same.mpr fun c _ => .refl _ c, hown⟩
      obtain ⟨hmid, hcall⟩ := hframed.onStunRequestComplete cfg hcomplete hlocate result
      have hnominating : (onStunRequestComplete cfg ice req result).1.isNominating = ice.isNominating :=
        isNominating_onStunRequestComplete result
      generalize onStunRequestComplete cfg ice req result = r at hmid hcall hnominating ⊢
      refine ⟨⟨r.1.clist.checks, hmid.frame, ?_⟩, fun hgone => ?_⟩
      · rcases hcall with hdone | hcheck
        · rw [finish, hdone]
          exact .inl rfl
        · obtain ⟨own, hk, hpair⟩ := hmid.own
          rw [finish, hcheck]
          refine .inr ⟨own, List.mem_of_getElem? hk, hpair, ?_⟩
          rw [← slot_eq hk]
          exact byCompletion_onCheckComplete cfg hnominating k
      · obtain ⟨c, hc, hpair⟩ := hown
        exact absurd (List.mem_map.mpr ⟨c, List.mem_of_getElem? hc, hpair⟩) hgone

theorem completesOwn_of_locatesOwn {e : Event} (h : LocatesOwn ice e) : CompletesOwn cfg ice e := by
  rintro i result req rfl hreq
  have hlocated : (ice.endRequest i).isComplete = false → Located (ice.endRequest i) req := by
    intro hcomplete
    have hlocates : Located ice req := h hcomplete req hreq
    exact ⟨hlocates.current, hlocates.gone⟩
  rw [handle, hreq]
  exact touchesOwn_onStunRequestComplete hlocated result

/-- In every run in which the checks of the completed requests are located, each completion touches only its own
check. -/
theorem completesOwn_of_run (cfg : Config) (role : Role) (compCnt : Nat) (events : List Event)
    (h : Meets (step cfg) LocatesOwn (initial cfg role compCnt) events) :
    Meets (step cfg) (CompletesOwn cfg) (initial cfg role compCnt) events :=
  meets_of_invariant (P := fun _ => True) (fun _ _ _ hlocates => completesOwn_of_locatesOwn hlocates)
    (fun _ _ _ _ _ _ => trivial) trivial h

end Located

/-! A completion that loses the transaction of another check. -/

/-- `srflx_pref_table` of `ice_strans.c`. -/
def srflxPrefs : CandType → UInt8
  | .host => 100
  | .srflx => 110
  | .prflx => 126
  | .relayed => 0

def trickling : Config :=
  { defaultConfig with
    trickle := true
    prefs := srflxPrefs }

def peerAddr (n : UInt8) : Addr := ⟨false, [10, 0, 1, n], 5000⟩

def peerCheck (n : UInt8) (priority : UInt32) : Event := .rxRequest ⟨1, 1, peerAddr n, false, some priority, none, true⟩

/-- Two triggered checks are sent from the reflexive candidate, the second one is sorted before the first, and a remote
candidate that arrives then has the list pruned. -/
def twoTriggered : List Event :=
  let base : Addr := ⟨false, [10, 0, 0, 1], 4000⟩
  [.addCand 1 1 .host 65535 [72] base base, .addCand 1 1 .srflx 65535 [83] ⟨false, [10, 0, 9, 1], 7000⟩ base,
    .createCheckList ⟨List.replicate 4 65, List.replicate 22 65⟩ [], .startCheck, peerCheck 1 1000, peerCheck 2 2000,
    .updateCheckList ⟨List.replicate 4 65, List.replicate 22 65⟩
      [⟨.host, 1, 0, [99], 500, peerAddr 3, peerAddr 3⟩] false]

def afterPruning : Session := twoTriggered.foldl (handle trickling) (initial trickling .controlling 1)

/-- The second check is answered before the list is pruned. -/
theorem completesOwn_secondTriggered :
    Meets (step trickling) (CompletesOwn trickling) (initial trickling .controlling 1)
      (twoTriggered.take 6 ++ [.requestComplete 1 (.response (peerAddr 2) (some ⟨false, [10, 0, 9, 1], 7000⟩))]) :=
  completesOwn_of_run _ _ _ _ (by decide +kernel)

/-- No check has the candidates of the first request any more, and its completion takes the transaction of the second
check, which is at the index now. -/
theorem completesOwn_fails :
    ¬ Meets (step trickling) (CompletesOwn trickling) (initial trickling .controlling 1)
      (twoTriggered ++ [.requestComplete 0 (.response (peerAddr 1) (some ⟨false, [10, 0, 9, 1], 7000⟩))]) := by
  intro h
  have hrun : exec (step trickling) (initial trickling .controlling 1) twoTriggered = some afterPruning := by
    decide +kernel
  have hreq : afterPruning.pending[0]? = some ⟨0, 0, 1, 0, 1, .iceControlling⟩ := by decide +kernel
  have hgone : (1, 0) ∉ afterPruning.clist.checks.map Check.pair := by decide +kernel
  have hown := (meets_append h hrun).2.1 0 _ _ rfl hreq
  exact absurd (hown.2 hgone) (by decide +kernel)

end PjProject.Ice
