import PjProject.DnsResolverTables

/-! Progress of the queries of the DNS resolver. A pending query has its timer in the heap, or its timeout
callback waits for the lock, and each timeout raises its counter or takes it out of the tables, after which
its callback and those of its children are called. `pj_dns_resolver_cancel_query` breaks this: it cancels
the timer of a query that it leaves in the tables, where the query is said to be let running. -/

namespace PjProject.DnsResolver

/-- Every query in the table of ids has its timer in the heap or its timeout callback under way. -/
def TimersRun (s : Resolver) : Prop :=
  ∀ id n, s.byId id = some n → (s.nodes n).scheduled = true ∨ n ∈ s.waiting

/-- Queries are started in idle nodes and under fresh ids, and none is cancelled whose timer is in the heap. -/
def Orderly (s : Resolver) : Action → Prop
  | .cancelQuery n _ => (s.nodes n).scheduled = false
  | a => FreshStart s a

instance (s : Resolver) : (a : Action) → Decidable (Orderly s a)
  | .startQuery a b c d e => inferInstanceAs (Decidable (FreshStart s (.startQuery a b c d e)))
  | .cancelQuery n _ => inferInstanceAs (Decidable ((s.nodes n).scheduled = false))
  | .response _ => .isTrue trivial
  | .expire _ => .isTrue trivial
  | .onTimeout _ _ => .isTrue trivial
  | .finish _ _ => .isTrue trivial
  | .destroy _ => .isTrue trivial

theorem Orderly.freshStart {s : Resolver} {a : Action} (h : Orderly s a) : FreshStart s a := by
  cases a with
  | cancelQuery n notify => trivial
  | _ => exact h

theorem Inv.nextQnode_ne {s : Resolver} (h : Inv s) {id : Nat} {n : Node} (hn : s.byId id = some n) :
    n ≠ s.nextQnode := by
  obtain ⟨place, hplaced, -⟩ := h
  have hpending := (hplaced.byId id n hn).1
  rintro rfl
  rcases hplaced.nextQnode with hplace | hplace <;> rw [hpending] at hplace <;> cases hplace

theorem Inv.id_eq {s : Resolver} (h : Inv s) {id : Nat} {n : Node} (hn : s.byId id = some n) :
    (s.nodes n).id = id := by
  obtain ⟨place, hplaced, -⟩ := h
  exact (hplaced.byId id n hn).2

theorem timersRun_set {s t : Resolver} {n : Node}
    (h : ∀ id m, t.byId id = some m → m ≠ n → (s.nodes m).scheduled = true ∨ m ∈ t.waiting)
    (hnodes : ∀ m, m ≠ n → t.nodes m = s.nodes m)
    (hself : ∀ id, t.byId id = some n → (t.nodes n).scheduled = true ∨ n ∈ t.waiting) : TimersRun t := by
  intro id m hm
  by_cases hmn : m = n
  · subst hmn
    exact hself id hm
  · rw [hnodes m hmn]
    exact h id m hm hmn

theorem TimersRun.startChild {s : Resolver} (h : TimersRun s) (hinv : Inv s) (p : Node) (cb : Option Nat) :
    TimersRun (startChild s p cb) := by
  have halloc : TimersRun (allocQnode s cb) := timersRun_set (fun id m hm _ => h id m hm)
    (fun m hm => setNode_of_ne s hm _) fun id hn => absurd rfl (hinv.nextQnode_ne hn)
  refine timersRun_set (n := p) (fun id m hm _ => halloc id m hm) (fun m hm => setNode_of_ne _ hm _)
    fun id hn => ?_
  rw [DnsResolver.startChild, setNode_self]
  exact halloc id p hn

theorem TimersRun.startNew {s : Resolver} (h : TimersRun s) (hinv : Inv s) (key : ResKey) (cb : Option Nat)
    (outcome : Transmit) : TimersRun (startNew s key cb outcome) := by
  have hnodes : ∀ m, m ≠ s.nextQnode → ((allocQnode s cb).setNode s.nextQnode (transmitQuery
      { blankQuery cb with id := s.lastId, key := key } outcome).1).nodes m = s.nodes m := fun m hm =>
    (setNode_of_ne _ hm _).trans (setNode_of_ne s hm _)
  simp only [DnsResolver.startNew]
  split
  · rename_i hsuccess
    have hsched := (transmitQuery_success hsuccess).1
    refine timersRun_set (n := s.nextQnode) (fun id m hm hne => ?_) hnodes fun id _ => ?_
    · by_cases hid : id = s.lastId
      · have hlast := (congrArg (Function.update s.byId s.lastId (some s.nextQnode)) hid).symm.trans hm
        rw [Function.update_self] at hlast
        exact absurd (Option.some.inj hlast).symm hne
      · exact h id m ((Function.update_of_ne hid ..).symm.trans hm)
    · exact .inl ((congrArg Query.scheduled (setNode_self ..)).trans hsched)
  · exact timersRun_set (n := s.nextQnode) (fun id m hm _ => h id m hm) hnodes
      fun id hn => absurd rfl (hinv.nextQnode_ne hn)

theorem timersRun_takeOut {s : Resolver} {n : Node} {q : Query} {status : Status}
    (h : ∀ id m, s.byId id = some m → m ≠ n → (s.nodes m).scheduled = true ∨ m ∈ s.waiting)
    (hid : ∀ id m, s.byId id = some m → (s.nodes m).id = id) (hq : q.id = (s.nodes n).id) :
    TimersRun (takeOut s n q status) := by
  have hbyId : ∀ id m, (DnsResolver.takeOut s n q status).byId id = some m → s.byId id = some m ∧ id ≠ q.id := by
    intro id m hm
    simp only [DnsResolver.takeOut] at hm
    by_cases hidq : id = q.id
    · rw [hidq, Function.update_self] at hm
      cases hm
    · rw [Function.update_of_ne hidq] at hm
      exact ⟨hm, hidq⟩
  refine timersRun_set (n := n) (fun id m hm hne => h id m (hbyId id m hm).1 hne)
    (fun m hm => setNode_of_ne s hm _) fun id hn => ?_
  obtain ⟨hfound, hidq⟩ := hbyId id n hn
  exact absurd ((hid id n hfound).symm.trans hq.symm) hidq

theorem TimersRun.response {s : Resolver} (h : TimersRun s) (hinv : Inv s) (id : Nat) :
    TimersRun (response s id) := by
  rw [DnsResolver.response]
  split
  · exact h
  · exact timersRun_takeOut (fun id m hm _ => h id m hm) (fun _ _ hm => hinv.id_eq hm) rfl

theorem TimersRun.cancelQuery {s : Resolver} (h : TimersRun s) {n : Node} (hn : (s.nodes n).scheduled = false)
    (notify : Bool) : TimersRun (cancelQuery s n notify) := by
  have hcancel : (s.nodes n).cancelIfActive = s.nodes n := by
    rw [Query.cancelIfActive, hn, if_neg (by simp)]
  have hset : TimersRun (s.setNode n { (s.nodes n).cancelIfActive with cb := none }) := by
    refine timersRun_set (n := n) (fun id m hm _ => h id m hm) (fun m hm => setNode_of_ne s hm _)
      fun id hm => ?_
    rw [setNode_self, hcancel]
    exact h id n hm
  rw [DnsResolver.cancelQuery]
  split
  · exact hset
  · exact hset

theorem TimersRun.expire {s : Resolver} (h : TimersRun s) (n : Node) : TimersRun (expire s n) := by
  refine timersRun_set (n := n) (fun id m hm _ => ?_) (fun m hm => setNode_of_ne s hm _) fun _ _ => ?_
  · exact (h id m hm).imp_right (List.mem_cons_of_mem n)
  · exact .inr List.mem_cons_self

theorem TimersRun.onTimeout {s : Resolver} (h : TimersRun s) (hinv : Inv s) (qretrCount : Nat) (n : Node)
    (outcome : Transmit) : TimersRun (onTimeout qretrCount s n outcome) := by
  have hothers : ∀ id m, s.byId id = some m → m ≠ n →
      (s.nodes m).scheduled = true ∨ m ∈ s.waiting.erase n := fun id m hm hne =>
    (h id m hm).imp_right (List.mem_erase_of_ne hne).mpr
  have hid : ∀ id m, s.byId id = some m → (s.nodes m).id = id := fun _ _ hm => hinv.id_eq hm
  simp only [DnsResolver.onTimeout]
  split
  · rename_i hnone
    intro id m hm
    refine hothers id m hm ?_
    rintro rfl
    rw [hid id m hm, hm] at hnone
    cases hnone
  · split
    · split
      · rename_i hsuccess
        have hsched := (transmitQuery_success hsuccess).1
        refine timersRun_set (n := n) hothers (fun m hm => setNode_of_ne _ hm _) fun id _ => .inl ?_
        rw [setNode_self]
        exact hsched
      · exact timersRun_takeOut hothers hid (transmitQuery_same _ _).id
    · exact timersRun_takeOut hothers hid rfl

theorem TimersRun.finish {s : Resolver} (h : TimersRun s) (n : Node) (status : Status) :
    TimersRun (finish s n status) := by
  refine timersRun_set (n := n) (fun id m hm _ => h id m hm) (fun m hm => setNode_of_ne s hm _) fun id hn => ?_
  have hnode : (DnsResolver.finish s n status).nodes n = { s.nodes n with timerId := false } := setNode_self ..
  rw [hnode]
  exact h id n hn

theorem TimersRun.startQuery {s : Resolver} (h : TimersRun s) (hinv : Inv s) (type : Nat) (name : List UInt8)
    (cb : Option Nat) (cached : Bool) (outcome : Transmit) :
    TimersRun (startQuery s type name cb cached outcome) := by
  rw [DnsResolver.startQuery]
  split
  · exact h
  · split
    · exact h
    · split
      · exact h.startChild hinv _ cb
      · exact h.startNew hinv _ cb outcome

theorem TimersRun.step {qretrCount : Nat} {s t : Resolver} {a : Action} (h : TimersRun s) (hinv : Inv s)
    (horderly : Orderly s a) (hstep : step qretrCount s a = some t) : TimersRun t := by
  cases a with
  | startQuery type name cb cached outcome =>
    cases hstep
    exact h.startQuery hinv type name cb cached outcome
  | cancelQuery n notify =>
    cases hstep
    exact h.cancelQuery horderly notify
  | response id =>
    cases hstep
    exact h.response hinv id
  | expire n =>
    rw [DnsResolver.step] at hstep
    split at hstep <;> cases hstep
    exact h.expire n
  | onTimeout n outcome =>
    rw [DnsResolver.step] at hstep
    split at hstep <;> cases hstep
    exact h.onTimeout hinv qretrCount n outcome
  | finish n status =>
    rw [DnsResolver.step] at hstep
    split at hstep <;> cases hstep
    exact h.finish n status
  | destroy notify =>
    cases hstep
    intro id n hn
    cases hn

def SameCallbacks (s t : Resolver) : Prop :=
  ∀ m, (t.nodes m).cb = (s.nodes m).cb ∧ (t.nodes m).children = (s.nodes m).children

theorem SameCallbacks.trans {s t u : Resolver} (h : SameCallbacks s t) (h' : SameCallbacks t u) :
    SameCallbacks s u := fun m => ⟨(h' m).1.trans (h m).1, (h' m).2.trans (h m).2⟩

theorem sameCallbacks_setNode {s : Resolver} {n : Node} {q : Query} (hcb : q.cb = (s.nodes n).cb)
    (hchildren : q.children = (s.nodes n).children) : SameCallbacks s (s.setNode n q) := by
  intro m
  by_cases hm : m = n
  · subst hm
    simp only [Resolver.setNode, Function.update_self]
    exact ⟨hcb, hchildren⟩
  · have hnode : (s.setNode n q).nodes m = s.nodes m := Function.update_of_ne hm ..
    rw [hnode]
    exact ⟨rfl, rfl⟩

theorem sameCallbacks_expire (s : Resolver) (n : Node) : SameCallbacks s (expire s n) :=
  sameCallbacks_setNode (q := { s.nodes n with scheduled := false }) rfl rfl

theorem transmitQuery_cb (q : Query) (outcome : Transmit) : (transmitQuery q outcome).1.cb = q.cb := by
  rw [transmitQuery]
  split_ifs <;> rfl

theorem not_pending_takeOut {s : Resolver} {n : Node} {q : Query} {status : Status}
    (h : Inv (takeOut s n q status)) : ¬(takeOut s n q status).Pending n := by
  intro hn
  have hfound := h.byId_of_pending hn
  simp only [takeOut, Resolver.setNode, Function.update_self] at hfound
  cases hfound

theorem onTimeout_cases (qretrCount : Nat) {s : Resolver} {n : Node} (hinv : Inv s) (hn : n ∈ s.waiting)
    (hpending : s.Pending n) (outcome : Transmit) :
    SameCallbacks s (onTimeout qretrCount s n outcome) ∧
      (((onTimeout qretrCount s n outcome).Pending n ∧
          ((onTimeout qretrCount s n outcome).nodes n).scheduled = true ∧
          (s.nodes n).transmitCnt < qretrCount ∧
          ((onTimeout qretrCount s n outcome).nodes n).transmitCnt = (s.nodes n).transmitCnt + 1) ∨
        (¬(onTimeout qretrCount s n outcome).Pending n ∧
          (n, .timedOut) ∈ (onTimeout qretrCount s n outcome).finished)) := by
  have hend := hinv.onTimeout qretrCount hn outcome
  have hfound := hinv.byId_of_pending hpending
  simp only [DnsResolver.onTimeout, hfound, reduceCtorEq, if_false] at hend ⊢
  split at hend
  · rename_i hcount
    rw [if_pos hcount]
    have hsame := transmitQuery_same { s.nodes n with timerId := false } outcome
    have hcb := transmitQuery_cb { s.nodes n with timerId := false } outcome
    split at hend
    · rename_i hsuccess
      rw [if_pos hsuccess]
      obtain ⟨hsched, -, hcnt⟩ := transmitQuery_success hsuccess
      refine ⟨sameCallbacks_setNode hcb hsame.children, .inl ⟨.inl ⟨_, hfound⟩, ?_, hcount, ?_⟩⟩
      · simp only [Resolver.setNode, Function.update_self, hsched]
      · simp only [Resolver.setNode, Function.update_self, hcnt]
    · rename_i hfailure
      rw [if_neg hfailure]
      exact ⟨sameCallbacks_setNode hcb hsame.children, .inr ⟨not_pending_takeOut hend, by simp [takeOut]⟩⟩
  · rename_i hcount
    rw [if_neg hcount]
    exact ⟨sameCallbacks_setNode rfl rfl, .inr ⟨not_pending_takeOut hend, by simp [takeOut]⟩⟩

/-- Expirations of the timer of a query, from the outcome `i` of its transmissions on. -/
def timeouts (n : Node) (outcomes : Nat → Transmit) : Nat → Nat → List Action
  | _, 0 => []
  | i, k + 1 => .expire n :: .onTimeout n (outcomes i) :: timeouts n outcomes (i + 1) k

theorem exec_expire {qretrCount : Nat} {n : Node} {s t : Resolver} {acts : List Action} (hn : (s.nodes n).scheduled = true)
    (hrun : exec (step qretrCount) (expire s n) acts = some t) :
    exec (step qretrCount) s (.expire n :: acts) = some t :=
  exec_cons_eq_some.mpr ⟨_, if_pos hn, hrun⟩

/-- A pending query whose timeout callback waits for the lock is taken out after the timeouts that it has
left, however its transmissions go. -/
theorem drain (qretrCount : Nat) (outcomes : Nat → Transmit) (i : Nat) {n : Node} {left : Nat} {s : Resolver}
    (hinv : Inv s) (hpending : s.Pending n) (hn : n ∈ s.waiting) (hleft : qretrCount ≤ (s.nodes n).transmitCnt + left) :
    ∃ k ≤ left, ∃ t, exec (step qretrCount) s (.onTimeout n (outcomes i) :: timeouts n outcomes (i + 1) k) = some t ∧
      SameCallbacks s t ∧ ¬t.Pending n ∧ (n, .timedOut) ∈ t.finished := by
  induction left generalizing s i with
  | zero =>
    obtain ⟨hsame, ⟨-, -, hcount, -⟩ | ⟨hout, hfinished⟩⟩ := onTimeout_cases qretrCount hinv hn hpending (outcomes i)
    · omega
    · exact ⟨0, Nat.le_refl 0, _, exec_cons_eq_some.mpr ⟨_, if_pos hn, rfl⟩, hsame, hout, hfinished⟩
  | succ left ih =>
    have hend := hinv.onTimeout qretrCount hn (outcomes i)
    obtain ⟨hsame, ⟨hagain, hsched, -, hcnt⟩ | ⟨hout, hfinished⟩⟩ :=
      onTimeout_cases qretrCount hinv hn hpending (outcomes i)
    · have hcnt' : ((expire (onTimeout qretrCount s n (outcomes i)) n).nodes n).transmitCnt =
          (s.nodes n).transmitCnt + 1 := by
        simp only [expire, Resolver.setNode, Function.update_self, hcnt]
      obtain ⟨k, hk, t, hrun, hsame', hout, hfinished⟩ :=
        ih (i + 1) (hend.expire hsched) hagain List.mem_cons_self (by omega)
      refine ⟨k + 1, by omega, t, ?_, ?_, hout, hfinished⟩
      · exact exec_cons_eq_some.mpr ⟨_, if_pos hn, exec_expire hsched hrun⟩
      · exact hsame.trans ((sameCallbacks_expire _ n).trans hsame')
    · exact ⟨0, Nat.zero_le _, _, exec_cons_eq_some.mpr ⟨_, if_pos hn, rfl⟩, hsame, hout, hfinished⟩

/-- The expirations of the timer of a query, of which the first may have happened. -/
def expirations (s : Resolver) (n : Node) (outcomes : Nat → Transmit) (k : Nat) : List Action :=
  if n ∈ s.waiting then (timeouts n outcomes 0 k).tail else timeouts n outcomes 0 k

/-- The callbacks of a query that was taken out and of its children. -/
theorem mem_log_finish {s : Resolver} {n m : Node} {status : Status} {c : Nat}
    (hm : m ∈ n :: (s.nodes n).children) (hc : (s.nodes m).cb = some c) : (c, status) ∈ (finish s n status).log := by
  refine List.mem_append_right _ (List.mem_filterMap.mpr ⟨m, hm, ?_⟩)
  rw [hc, Option.map_some]

theorem taken_out {qretrCount : Nat} {s : Resolver} (hinv : Inv s) {n : Node} (hpending : s.Pending n)
    (hruns : (s.nodes n).scheduled = true ∨ n ∈ s.waiting) (outcomes : Nat → Transmit) :
    ∃ k ≤ qretrCount + 1, ∃ t,
      exec (step qretrCount) s (expirations s n outcomes k ++ [.finish n .timedOut]) = some t ∧ ¬t.Pending n ∧
      ∀ m ∈ n :: (s.nodes n).children, ∀ c, (s.nodes m).cb = some c → (c, .timedOut) ∈ t.log := by
  obtain ⟨k, hk, t, hrun, hsame, hout, hfinished⟩ : ∃ k ≤ qretrCount + 1, ∃ t,
      exec (step qretrCount) s (expirations s n outcomes k) = some t ∧ SameCallbacks s t ∧ ¬t.Pending n ∧
      (n, .timedOut) ∈ t.finished := by
    by_cases hn : n ∈ s.waiting
    · obtain ⟨k, hk, t, hrun, hrest⟩ := drain qretrCount outcomes 0 hinv hpending hn (Nat.le_add_left ..)
      refine ⟨k + 1, by omega, t, ?_, hrest⟩
      rw [expirations, if_pos hn]
      exact hrun
    · have hsched := hruns.resolve_right hn
      obtain ⟨k, hk, t, hrun, hsame, hrest⟩ := drain qretrCount outcomes 0 (hinv.expire hsched) hpending
        List.mem_cons_self (Nat.le_add_left ..)
      refine ⟨k + 1, by omega, t, ?_, (sameCallbacks_expire s n).trans hsame, hrest⟩
      rw [expirations, if_neg hn]
      exact exec_expire hsched hrun
  refine ⟨k, hk, _, exec_append hrun (exec_cons_eq_some.mpr ⟨_, if_pos hfinished, rfl⟩), hout, ?_⟩
  intro m hm c hc
  rw [← (hsame n).2] at hm
  exact mem_log_finish hm ((hsame m).1.trans hc)

theorem timersRun_create : TimersRun create := nofun

/-- In every run in which queries are started in idle nodes and under fresh ids and none is cancelled whose
timer is in the heap, each query in one of the tables has its timer in the heap or its timeout callback under
way; and however its transmissions go, after at most `qretrCount + 1` expirations of its timer it is in no
table, and it and its children have been called back. -/
theorem pending_query_progress (qretrCount : Nat) (acts : List Action) (s : Resolver)
    (hmeets : Meets (step qretrCount) Orderly create acts)
    (hrun : exec (step qretrCount) create acts = some s) (n : Node) (hpending : s.Pending n) :
    ((s.nodes n).scheduled = true ∨ n ∈ s.waiting) ∧
      ∀ outcomes : Nat → Transmit, ∃ k ≤ qretrCount + 1, ∃ t,
        exec (step qretrCount) s (expirations s n outcomes k ++ [.finish n .timedOut]) = some t ∧ ¬t.Pending n ∧
        ∀ m ∈ n :: (s.nodes n).children, ∀ c, (s.nodes m).cb = some c → (c, .timedOut) ∈ t.log := by
  obtain ⟨hinv, htimers⟩ : Inv s ∧ TimersRun s :=
    exec_invariant_of_meets (P := fun s => Inv s ∧ TimersRun s)
      (fun _ _ _ h horderly hstep => ⟨h.1.step horderly.freshStart hstep, h.2.step h.1 horderly hstep⟩)
      ⟨inv_create, timersRun_create⟩ hmeets hrun
  have hruns := htimers _ n (hinv.byId_of_pending hpending)
  exact ⟨hruns, taken_out hinv hpending hruns⟩

/-- A query with a child that is cancelled. -/
theorem pending_query_progress_child :
    ∃ s, exec (step 5) create [.startQuery 1 [97] (some 0) false .sent, .startQuery 1 [97] (some 1) false .sent,
        .startQuery 1 [97] (some 2) false .sent, .cancelQuery 1 true, .expire 0] = some s ∧
      ((s.nodes 0).scheduled = true ∨ 0 ∈ s.waiting) ∧
      ∃ k ≤ 6, ∃ t, exec (step 5) s (expirations s 0 (fun _ => .notSent) k ++ [.finish 0 .timedOut]) = some t ∧
        ¬t.Pending 0 := by
  have hsome := Option.some_get (x := exec (step 5) create [.startQuery 1 [97] (some 0) false .sent,
    .startQuery 1 [97] (some 1) false .sent, .startQuery 1 [97] (some 2) false .sent, .cancelQuery 1 true,
    .expire 0]) (by decide +kernel)
  obtain ⟨hruns, hout⟩ := pending_query_progress 5 _ _ (by decide +kernel) hsome.symm 0 (.inl ⟨1, by decide +kernel⟩)
  obtain ⟨k, hk, t, ht, hend, -⟩ := hout fun _ => .notSent
  exact ⟨_, hsome.symm, hruns, k, hk, t, ht, hend⟩

/-- A query that is cancelled stays in the tables without a timer, and the next query for the same name waits
for it as its child. -/
theorem cancelled_query_stuck :
    ∃ s, exec (step 5) create [.startQuery 1 [97] (some 0) false .sent, .cancelQuery 0 false,
        .startQuery 1 [97] (some 1) false .sent] = some s ∧
      s.Pending 0 ∧ (s.nodes 0).scheduled = false ∧ s.waiting = [] ∧ (s.nodes 0).children = [1] := by
  have hsome := Option.some_get (x := exec (step 5) create [.startQuery 1 [97] (some 0) false .sent,
    .cancelQuery 0 false, .startQuery 1 [97] (some 1) false .sent]) (by decide)
  exact ⟨_, hsome.symm, .inl ⟨1, by decide +kernel⟩, by decide +kernel, by decide +kernel, by decide +kernel⟩

end PjProject.DnsResolver
