import PjProject.DnsResolverNodes

/-! The tables of the DNS resolver. A new id must not be that of a pending query or of one whose timeout
callback waits for the lock, since the tables are looked up by the id alone. -/

namespace PjProject.DnsResolver

/-- Only pending queries have a timer in the heap, and a callback that waits for the lock finds its own query
under its id, or none. -/
structure Timed (s : Resolver) (place : Node → Place) : Prop where
  scheduled : ∀ n, (s.nodes n).scheduled = true →
    place n = .pending ∧ (s.nodes n).timerId = true ∧ n ∉ s.waiting
  waitingNodup : s.waiting.Nodup
  waiting : ∀ n ∈ s.waiting, s.byId (s.nodes n).id = some n ∨ s.byId (s.nodes n).id = none

theorem Timed.set {s t : Resolver} {place place' : Node → Place} (h : Timed s place) {n : Node}
    (hnodes : ∀ m, m ≠ n → t.nodes m = s.nodes m) (hplace : ∀ m, m ≠ n → place m = .pending → place' m = .pending)
    (hscheduled : (t.nodes n).scheduled = true →
      place' n = .pending ∧ (t.nodes n).timerId = true ∧ n ∉ t.waiting)
    (hwaits : ∀ m, m ≠ n → m ∈ t.waiting → m ∈ s.waiting) (hnodup : t.waiting.Nodup)
    (hbyId : ∀ m, m ≠ n → m ∈ s.waiting →
      t.byId (s.nodes m).id = s.byId (s.nodes m).id ∨ t.byId (s.nodes m).id = none)
    (hself : n ∈ t.waiting → t.byId (t.nodes n).id = some n ∨ t.byId (t.nodes n).id = none) : Timed t place' := by
  refine ⟨fun m hm => ?_, hnodup, fun m hm => ?_⟩
  · by_cases hmn : m = n
    · subst hmn
      exact hscheduled hm
    · rw [hnodes m hmn] at hm ⊢
      obtain ⟨hpending, htimer, hidle⟩ := h.scheduled m hm
      exact ⟨hplace m hmn hpending, htimer, fun hwait => hidle (hwaits m hmn hwait)⟩
  · by_cases hmn : m = n
    · subst hmn
      exact hself hm
    · rw [hnodes m hmn]
      have hwait := hwaits m hmn hm
      rcases hbyId m hmn hwait with heq | hnone
      · rw [heq]
        exact h.waiting m hwait
      · exact .inr hnone

theorem Timed.cancelIfActive {s : Resolver} {place : Node → Place} (h : Timed s place) (n : Node) :
    (s.nodes n).cancelIfActive.scheduled = false := by
  cases hsched : (s.nodes n).scheduled with
  | false => rw [Query.cancelIfActive, if_neg (by simp [hsched]), hsched]
  | true => rw [Query.cancelIfActive, if_pos ⟨(h.scheduled n hsched).2.1, hsched⟩]

theorem Timed.alloc {s : Resolver} {place : Node → Place} (h : Timed s place)
    (hidle : s.nextQnode ∉ s.waiting) (cb : Option Nat) :
    Timed (allocQnode s cb) (Function.update place s.nextQnode .loose) := by
  have hnode : (allocQnode s cb).nodes s.nextQnode = blankQuery cb := setNode_self s _ _
  refine h.set (n := s.nextQnode) (fun m hm => setNode_of_ne s hm _) (fun m hm hplace => ?_) (fun hsched => ?_)
    (fun _ _ hm => hm) h.waitingNodup (fun _ _ _ => .inl rfl) fun hm => absurd hm hidle
  · rw [Function.update_of_ne hm, hplace]
  · rw [hnode] at hsched
    cases hsched

theorem Timed.addChild {s : Resolver} {place : Node → Place} (h : Timed s place) {n : Node}
    (hn : place n = .loose) (p : Node) :
    Timed (s.setNode p { s.nodes p with children := (s.nodes p).children ++ [n] })
      (Function.update place n (.child p)) := by
  have hplace : ∀ m, place m = .pending → Function.update place n (.child p) m = .pending := fun m hm =>
    (moved_iff (by simp [hn]) (by simp) m).mpr hm
  refine h.set (n := p) (fun m hm => setNode_of_ne s hm _) (fun m _ => hplace m) (fun hsched => ?_)
    (fun _ _ hm => hm) h.waitingNodup (fun _ _ _ => .inl rfl) fun hm => ?_
  · rw [setNode_self] at hsched ⊢
    obtain ⟨hpending, htimer, hidle⟩ := h.scheduled p hsched
    exact ⟨hplace p hpending, htimer, hidle⟩
  · rw [setNode_self]
    exact h.waiting p hm

def Inv (s : Resolver) : Prop := ∃ place, Placed s place ∧ Timed s place

/-- `transmit_query` changes the timer and the counter. -/
theorem transmitQuery_same (q : Query) (outcome : Transmit) : SameQuery q (transmitQuery q outcome).1 := by
  rw [transmitQuery]
  split_ifs <;> exact ⟨rfl, rfl, rfl⟩

theorem transmitQuery_success {q : Query} {outcome : Transmit} (h : (transmitQuery q outcome).2 = true) :
    (transmitQuery q outcome).1.scheduled = true ∧ (transmitQuery q outcome).1.timerId = true ∧
      (transmitQuery q outcome).1.transmitCnt = q.transmitCnt + 1 := by
  rw [transmitQuery] at h ⊢
  split_ifs at h ⊢
  exact ⟨rfl, rfl, rfl⟩

theorem transmitQuery_failure {q : Query} {outcome : Transmit} (h : ¬(transmitQuery q outcome).2 = true)
    (hq : q.scheduled = false) : (transmitQuery q outcome).1.scheduled = false := by
  rw [transmitQuery] at h ⊢
  split_ifs at h ⊢ <;> first | exact hq | rfl | exact absurd rfl h

theorem Inv.call {s : Resolver} (h : Inv s) (cb : Option Nat) (status : Status) : Inv (s.call cb status) := by
  obtain ⟨place, hplaced, htimed⟩ := h
  exact ⟨place, hplaced.congr (fun _ _ => ⟨rfl, rfl, rfl⟩) rfl rfl rfl rfl rfl, htimed.scheduled,
    htimed.waitingNodup, htimed.waiting⟩

theorem Inv.startChild {s : Resolver} (h : Inv s) {key : ResKey} {p : Node} (hp : s.byRes key = some p)
    (cb : Option Nat) (hidle : s.nextQnode ∉ s.waiting) : Inv (startChild s p cb) := by
  obtain ⟨place, hplaced, htimed⟩ := h
  have hpending := (hplaced.byRes key p hp).1
  have hne : p ≠ s.nextQnode := by
    rintro rfl
    rcases hplaced.nextQnode with hplace | hplace <;> rw [hpending] at hplace <;> cases hplace
  refine ⟨_, (hplaced.alloc cb).addChild (Function.update_self ..) ?_, ?_⟩
  · rw [Function.update_of_ne hne, hpending]
  · exact (htimed.alloc hidle cb).addChild (Function.update_self ..) p

theorem Inv.startNew {s : Resolver} (h : Inv s) {key : ResKey} (hkey : s.byRes key = none) (cb : Option Nat)
    (outcome : Transmit) (hidle : s.nextQnode ∉ s.waiting) (hid : s.byId s.lastId = none)
    (hfresh : ∀ n ∈ s.waiting, (s.nodes n).id ≠ s.lastId) : Inv (startNew s key cb outcome) := by
  obtain ⟨place, hplaced, htimed⟩ := h
  have hsame := transmitQuery_same { blankQuery cb with id := s.lastId, key := key } outcome
  have hloose : Function.update place s.nextQnode .loose s.nextQnode = .loose := Function.update_self ..
  have hset := (hplaced.alloc cb).setLoose hloose
    (transmitQuery { blankQuery cb with id := s.lastId, key := key } outcome).1
  have hnode : (((allocQnode s cb).setNode s.nextQnode (transmitQuery
      { blankQuery cb with id := s.lastId, key := key } outcome).1).nodes s.nextQnode) =
      (transmitQuery { blankQuery cb with id := s.lastId, key := key } outcome).1 := setNode_self ..
  simp only [DnsResolver.startNew]
  split
  · rename_i hsuccess
    obtain ⟨hsched, htimer, -⟩ := transmitQuery_success hsuccess
    have hadd := hset.addPending hloose (by rw [hnode, hsame.children]; rfl) (by rw [hnode, hsame.id]; exact hid)
      (by rw [hnode, hsame.key]; exact hkey)
    rw [hnode, hsame.id, hsame.key] at hadd
    refine ⟨_, hadd.congr (fun _ _ => ⟨rfl, rfl, rfl⟩) rfl rfl rfl rfl rfl, ?_⟩
    refine htimed.set (n := s.nextQnode) (fun m hm => ?_) (fun m hm hplace => ?_) (fun _ => ?_)
      (fun _ _ hm => hm) htimed.waitingNodup (fun m _ hm => .inl ?_) fun hm => absurd hm hidle
    · exact (setNode_of_ne _ hm _).trans (setNode_of_ne s hm _)
    · rw [Function.update_of_ne hm, Function.update_of_ne hm, hplace]
    · refine ⟨Function.update_self .., ?_, hidle⟩
      exact (congrArg Query.timerId hnode).trans htimer
    · exact Function.update_of_ne (hfresh m hm) ..
  · rename_i hfailure
    have hidle' := transmitQuery_failure hfailure rfl
    refine ⟨_, (hset.pushFree hloose).congr (fun _ _ => ⟨rfl, rfl, rfl⟩) rfl rfl rfl rfl rfl, ?_⟩
    refine htimed.set (n := s.nextQnode) (fun m hm => ?_) (fun m hm hplace => ?_) (fun hsched => ?_)
      (fun _ _ hm => hm) htimed.waitingNodup (fun _ _ _ => .inl rfl) fun hm => absurd hm hidle
    · exact (setNode_of_ne _ hm _).trans (setNode_of_ne s hm _)
    · rw [Function.update_of_ne hm, Function.update_of_ne hm, hplace]
    · cases hidle'.symm.trans ((congrArg Query.scheduled hnode).symm.trans hsched)

theorem Inv.cancelQuery {s : Resolver} (h : Inv s) (n : Node) (notify : Bool) : Inv (cancelQuery s n notify) := by
  have hsame := cancelIfActive_same (s.nodes n)
  have hset : Inv (s.setNode n { (s.nodes n).cancelIfActive with cb := none }) := by
    obtain ⟨place, hplaced, htimed⟩ := h
    refine ⟨place, hplaced.setSame ⟨hsame.id, hsame.key, hsame.children⟩, ?_⟩
    refine htimed.set (n := n) (fun m hm => setNode_of_ne s hm _) (fun _ _ hplace => hplace) (fun hsched => ?_)
      (fun _ _ hm => hm) htimed.waitingNodup (fun _ _ _ => .inl rfl) fun hm => ?_
    · rw [setNode_self] at hsched
      cases (htimed.cancelIfActive n).symm.trans hsched
    · rw [setNode_self]
      exact hsame.id ▸ htimed.waiting n hm
  rw [DnsResolver.cancelQuery]
  split
  · exact hset.call _ _
  · exact hset

theorem Inv.takeOut {s : Resolver} {place : Node → Place} (hplaced : Placed s place) (htimed : Timed s place)
    {n : Node} {q : Query} (hn : place n = .pending) (hq : SameQuery (s.nodes n) q) (hsched : q.scheduled = false)
    (status : Status) : Inv (takeOut s n q status) := by
  have hnode : (DnsResolver.takeOut s n q status).nodes n = q := setNode_self ..
  refine ⟨_, hplaced.takeOut hn hq status, ?_⟩
  refine htimed.set (n := n) (fun m hm => setNode_of_ne s hm _) (fun m hm hplace => ?_) (fun hsched' => ?_)
    (fun _ _ hm => hm) htimed.waitingNodup (fun m _ _ => ?_) fun _ => ?_
  · rw [Function.update_of_ne hm, hplace]
  · rw [hnode, hsched] at hsched'
    cases hsched'
  · by_cases hid : (s.nodes m).id = q.id
    · refine .inr ?_
      rw [hid]
      exact Function.update_self ..
    · exact .inl (Function.update_of_ne hid ..)
  · rw [hnode]
    exact .inr (Function.update_self ..)

theorem Inv.response {s : Resolver} (h : Inv s) (id : Nat) : Inv (response s id) := by
  rw [DnsResolver.response]
  split
  · exact h
  · rename_i n hn
    obtain ⟨place, hplaced, htimed⟩ := h
    exact Inv.takeOut (q := { s.nodes n with timerId := false, scheduled := false }) hplaced htimed
      (hplaced.byId id n hn).1 ⟨rfl, rfl, rfl⟩ rfl .answered

theorem Inv.expire {s : Resolver} (h : Inv s) {n : Node} (hn : (s.nodes n).scheduled = true) : Inv (expire s n) := by
  obtain ⟨place, hplaced, htimed⟩ := h
  obtain ⟨hpending, -, hidle⟩ := htimed.scheduled n hn
  have hfound := (hplaced.pending n hpending).1
  have hset := hplaced.setSame (n := n) (q := { s.nodes n with scheduled := false }) ⟨rfl, rfl, rfl⟩
  have hnode : (DnsResolver.expire s n).nodes n = { s.nodes n with scheduled := false } := setNode_self ..
  refine ⟨place, hset.congr (fun _ _ => ⟨rfl, rfl, rfl⟩) rfl rfl rfl rfl rfl, ?_⟩
  refine htimed.set (n := n) (fun m hm => setNode_of_ne s hm _) (fun _ _ hplace => hplace) (fun hsched => ?_)
    (fun m hm hmem => (List.mem_cons.mp hmem).resolve_left hm)
    (List.nodup_cons.mpr ⟨hidle, htimed.waitingNodup⟩) (fun _ _ _ => .inl rfl) fun _ => ?_
  · rw [hnode] at hsched
    cases hsched
  · rw [hnode]
    exact .inl hfound

theorem Inv.onTimeout {s : Resolver} (h : Inv s) (qretrCount : Nat) {n : Node} (hn : n ∈ s.waiting)
    (outcome : Transmit) : Inv (onTimeout qretrCount s n outcome) := by
  obtain ⟨place, hplaced, htimed⟩ := h
  have hplaced' : Placed { s with waiting := s.waiting.erase n } place :=
    hplaced.congr (fun _ _ => ⟨rfl, rfl, rfl⟩) rfl rfl rfl rfl rfl
  have htimed' : Timed { s with waiting := s.waiting.erase n } place := by
    refine ⟨fun m hm => ?_, htimed.waitingNodup.erase n, fun m hm => htimed.waiting m (List.mem_of_mem_erase hm)⟩
    obtain ⟨hpending, htimer, hidle⟩ := htimed.scheduled m hm
    exact ⟨hpending, htimer, fun hmem => hidle (List.mem_of_mem_erase hmem)⟩
  have hidle : n ∉ s.waiting.erase n := htimed.waitingNodup.not_mem_erase
  have hsched : (s.nodes n).scheduled = false := by
    rw [Bool.eq_false_iff]
    exact fun hs => (htimed.scheduled n hs).2.2 hn
  simp only [DnsResolver.onTimeout]
  split
  · exact ⟨place, hplaced', htimed'⟩
  · rename_i hsome
    have hpending : place n = .pending := (hplaced.byId _ n ((htimed.waiting n hn).resolve_right hsome)).1
    split
    · have hsame := transmitQuery_same { s.nodes n with timerId := false } outcome
      split
      · rename_i hsuccess
        obtain ⟨hsched', htimer, -⟩ := transmitQuery_success hsuccess
        refine ⟨place, hplaced'.setSame ⟨hsame.id, hsame.key, hsame.children⟩, ?_⟩
        refine htimed'.set (n := n) (fun m hm => setNode_of_ne _ hm _) (fun _ _ hplace => hplace)
          (fun _ => ⟨hpending, ?_, hidle⟩) (fun _ _ hm => hm) htimed'.waitingNodup (fun _ _ _ => .inl rfl)
          fun hm => absurd hm hidle
        rw [setNode_self]
        exact htimer
      · rename_i hfailure
        exact Inv.takeOut hplaced' htimed' hpending ⟨hsame.id, hsame.key, hsame.children⟩
          (transmitQuery_failure hfailure hsched) .timedOut
    · exact Inv.takeOut (q := { s.nodes n with timerId := false }) hplaced' htimed' hpending ⟨rfl, rfl, rfl⟩
        hsched .timedOut

theorem Inv.finish {s : Resolver} (h : Inv s) {n : Node} {status : Status} (hn : (n, status) ∈ s.finished) :
    Inv (finish s n status) := by
  obtain ⟨place, hplaced, htimed⟩ := h
  have hplace : place n = .finished := (hplaced.finished n).mp (List.mem_map_of_mem hn)
  have hnode : (DnsResolver.finish s n status).nodes n = { s.nodes n with timerId := false } := setNode_self ..
  refine ⟨_, hplaced.finish hn, ?_⟩
  refine htimed.set (n := n) (fun m hm => setNode_of_ne s hm _) (fun m _ hpending => ?_) (fun hsched => ?_)
    (fun _ _ hm => hm) htimed.waitingNodup (fun _ _ _ => .inl rfl) fun hm => ?_
  · exact (recycled_iff hplace (by simp) (by simp) (by simp) m).mpr hpending
  · rw [hnode] at hsched
    cases hplace.symm.trans (htimed.scheduled n hsched).1
  · rw [hnode]
    exact htimed.waiting n hm

theorem Inv.destroy {s : Resolver} (h : Inv s) (notify : Bool) : Inv (destroy s notify) := by
  obtain ⟨place, hplaced, htimed⟩ := h
  refine ⟨_, hplaced.destroy notify, fun n hn => ?_, htimed.waitingNodup, fun n _ => .inr rfl⟩
  simp only [DnsResolver.destroy] at hn
  by_cases hlisted : n ∈ s.listed
  · rw [if_pos hlisted] at hn
    cases (htimed.cancelIfActive n).symm.trans hn
  · rw [if_neg hlisted] at hn
    have hsched : (s.nodes n).scheduled = true := by
      split at hn
      · exact hn
      · exact hn
    exact absurd ((hplaced.mem_listed n).mpr (htimed.scheduled n hsched).1) hlisted

/-- A query is started in a node whose timeout callback does not wait for the lock, and a new one under an id
that no pending query has, and none whose timeout callback waits for the lock. -/
def FreshStart (s : Resolver) : Action → Prop
  | .startQuery type name _ cached _ => ValidArgs type name → cached = false →
    s.nextQnode ∉ s.waiting ∧ (s.byRes (initResKey type name) = none →
      s.byId s.lastId = none ∧ ∀ n ∈ s.waiting, (s.nodes n).id ≠ s.lastId)
  | _ => True

instance (s : Resolver) : (a : Action) → Decidable (FreshStart s a)
  | .startQuery _ _ _ _ _ => inferInstanceAs (Decidable (_ → _ → _))
  | .cancelQuery _ _ => .isTrue trivial
  | .response _ => .isTrue trivial
  | .expire _ => .isTrue trivial
  | .onTimeout _ _ => .isTrue trivial
  | .finish _ _ => .isTrue trivial
  | .destroy _ => .isTrue trivial

theorem Inv.startQuery {s : Resolver} (h : Inv s) {type : Nat} {name : List UInt8} {cb : Option Nat}
    {cached : Bool} {outcome : Transmit} (hfresh : FreshStart s (.startQuery type name cb cached outcome)) :
    Inv (startQuery s type name cb cached outcome) := by
  rw [DnsResolver.startQuery]
  split
  · exact h
  · rename_i hvalid
    split
    · exact h.call _ _
    · rename_i hcached
      obtain ⟨hidle, hid⟩ := hfresh (not_not.mp hvalid) (Bool.eq_false_iff.mpr hcached)
      split
      · exact h.startChild ‹_› cb hidle
      · rename_i hkey
        exact h.startNew hkey cb outcome hidle (hid hkey).1 (hid hkey).2

theorem Inv.step {qretrCount : Nat} {s t : Resolver} {a : Action} (h : Inv s) (hfresh : FreshStart s a)
    (hstep : step qretrCount s a = some t) : Inv t := by
  cases a with
  | startQuery type name cb cached outcome =>
    cases hstep
    exact h.startQuery hfresh
  | cancelQuery n notify =>
    cases hstep
    exact h.cancelQuery n notify
  | response id =>
    cases hstep
    exact h.response id
  | expire n =>
    rw [DnsResolver.step] at hstep
    split at hstep <;> cases hstep
    exact h.expire ‹_›
  | onTimeout n outcome =>
    rw [DnsResolver.step] at hstep
    split at hstep <;> cases hstep
    exact h.onTimeout qretrCount ‹_› outcome
  | finish n status =>
    rw [DnsResolver.step] at hstep
    split at hstep <;> cases hstep
    exact h.finish ‹_›
  | destroy notify =>
    cases hstep
    exact h.destroy notify

theorem inv_create : Inv create := by
  refine ⟨fun _ => .fresh, ?_, ?_⟩
  · constructor <;> simp [create, Place.IsParent]
  · constructor <;> simp [create, blankQuery]

/-- A query in one of the tables is in both, under its own id and key. -/
theorem Inv.byId_of_pending {s : Resolver} (h : Inv s) {n : Node} (hn : s.Pending n) :
    s.byId (s.nodes n).id = some n := by
  obtain ⟨place, hplaced, -⟩ := h
  rcases hn with ⟨id, hid⟩ | ⟨key, hkey⟩
  · exact (hplaced.pending n (hplaced.byId id n hid).1).1
  · exact (hplaced.pending n (hplaced.byRes key n hkey).1).1

/-- In every run in which queries are started under fresh ids, pending queries have different ids, and the
query that is found for the id of a response is the pending one with this id. -/
theorem pending_ids_unique (qretrCount : Nat) (acts : List Action) (s : Resolver)
    (hmeets : Meets (step qretrCount) FreshStart create acts)
    (hrun : exec (step qretrCount) create acts = some s) :
    (∀ n m, s.Pending n → s.Pending m → (s.nodes n).id = (s.nodes m).id → n = m) ∧
      (∀ n, s.Pending n → s.byId (s.nodes n).id = some n) ∧
      ∀ id n, s.byId id = some n → (s.nodes n).id = id := by
  have hinv : Inv s := exec_invariant_of_meets (fun _ _ _ h hfresh hstep => h.step hfresh hstep) inv_create
    hmeets hrun
  refine ⟨fun n m hn hm heq => ?_, fun n hn => hinv.byId_of_pending hn, fun id n hid => ?_⟩
  · have hfound := hinv.byId_of_pending hn
    rw [heq, hinv.byId_of_pending hm] at hfound
    exact (Option.some.inj hfound).symm
  · obtain ⟨place, hplaced, -⟩ := hinv
    exact (hplaced.byId id n hid).2

/-- The queries of the names `a` and `b`: the first is answered while the second is retransmitted. -/
theorem pending_ids_unique_answered :
    ∃ s, exec (step 5) create [.startQuery 1 [97] (some 0) false .sent, .startQuery 1 [98] (some 1) false .busy,
        .response 1, .expire 1, .finish 0 .answered, .onTimeout 1 .sent] = some s ∧
      ∀ n m, s.Pending n → s.Pending m → (s.nodes n).id = (s.nodes m).id → n = m := by
  have hsome := Option.some_get (x := exec (step 5) create [.startQuery 1 [97] (some 0) false .sent,
    .startQuery 1 [98] (some 1) false .busy, .response 1, .expire 1, .finish 0 .answered, .onTimeout 1 .sent])
    (by decide)
  exact ⟨_, hsome.symm, (pending_ids_unique 5 _ _ (by decide) hsome.symm).1⟩

/-- The query of the name `a` is pending in node 0 under the id 1, and the next id is `i`. -/
structure Held (s : Resolver) (i : Nat) : Prop where
  lastId : s.lastId = i
  node : (s.nodes 0).id = 1
  byRes : s.byRes (initResKey 1 [97]) = some 0
  byRes_b : s.byRes (initResKey 1 [98]) = none
  byRes_c : s.byRes (initResKey 1 [99]) = none
  inUse : 0 ∉ s.freeNodes
  next : 0 < s.nextNode

theorem Held.nextQnode {s : Resolver} {i : Nat} (h : Held s i) : s.nextQnode ≠ 0 := by
  rw [Resolver.nextQnode]
  have hinUse := h.inUse
  have hnext := h.next
  cases hfree : s.freeNodes with
  | nil => exact Nat.ne_of_gt hnext
  | cons n rest =>
    rintro rfl
    refine hinUse ?_
    rw [hfree]
    exact List.mem_cons_self

theorem Held.fail {s : Resolver} {i : Nat} (h : Held s i) (qretrCount : Nat) :
    ∃ t, step qretrCount s (.startQuery 1 [98] none false .noServers) = some t ∧ Held t (bumpId i) := by
  have hnode := h.nextQnode
  refine ⟨_, rfl, ?_⟩
  rw [startQuery, if_neg (by decide), if_neg (by decide), h.byRes_b]
  obtain ⟨rfl, hid, hbyRes, hb, hc, hinUse, hnext⟩ := h
  have htail : 0 ∉ s.freeNodes.tail := fun hmem => hinUse (List.mem_of_mem_tail hmem)
  constructor
  all_goals simp only [startNew, transmitQuery, allocQnode, Resolver.setNode]
  all_goals grind [Function.update_apply]

theorem Held.fails {s : Resolver} {i k : Nat} (h : Held s i) (hk : i + k < 2 ^ 16) (qretrCount : Nat) :
    ∃ t, exec (step qretrCount) s (List.replicate k (.startQuery 1 [98] none false .noServers)) = some t ∧
      Held t (i + k) := by
  induction k generalizing s i with
  | zero => exact ⟨s, rfl, h⟩
  | succ k ih =>
    obtain ⟨t, ht, hheld⟩ := h.fail qretrCount
    have hbump : bumpId i = i + 1 := by
      rw [bumpId, Nat.mod_eq_of_lt (by omega), if_neg (by omega)]
    rw [hbump] at hheld
    obtain ⟨u, hu, hend⟩ := ih hheld (by omega)
    refine ⟨u, exec_cons_eq_some.mpr ⟨t, ht, hu⟩, ?_⟩
    rwa [Nat.add_right_comm, Nat.add_assoc] at hend

/-- After the last id of 16 bits the id 1 comes again. -/
theorem Held.wrap {s : Resolver} (h : Held s 2) (qretrCount : Nat) :
    ∃ t, exec (step qretrCount) s (List.replicate 65533 (.startQuery 1 [98] none false .noServers) ++
        [.startQuery 1 [98] none false .noServers]) = some t ∧ Held t 1 := by
  obtain ⟨t, ht, hlast⟩ := h.fails (k := 65533) (by decide) qretrCount
  obtain ⟨u, hu, hend⟩ := hlast.fail qretrCount
  exact ⟨u, exec_append ht (exec_cons_eq_some.mpr ⟨u, hu, rfl⟩), hend⟩

theorem startNew_sent (s : Resolver) (key : ResKey) (cb : Option Nat) :
    startNew s key cb .sent =
      { (allocQnode s cb).setNode s.nextQnode { blankQuery cb with
          id := s.lastId, key := key, timerId := true, scheduled := true, transmitCnt := 1 } with
        lastId := bumpId s.lastId
        byId := Function.update s.byId s.lastId (some s.nextQnode)
        byRes := Function.update s.byRes key (some s.nextQnode) } := by
  have hsent : transmitQuery { blankQuery cb with id := s.lastId, key := key } .sent =
      ({ blankQuery cb with id := s.lastId, key := key, timerId := true, scheduled := true, transmitCnt := 1 },
        true) := by
    simp [transmitQuery, blankQuery]
  simp only [startNew, hsent]
  rfl

theorem key_ne : initResKey 1 [98] ≠ initResKey 1 [97] ∧ initResKey 1 [99] ≠ initResKey 1 [97] := by
  decide

theorem held_start (qretrCount : Nat) :
    ∃ s, step qretrCount create (.startQuery 1 [97] (some 0) false .sent) = some s ∧ Held s 2 := by
  have hkey := key_ne
  refine ⟨_, rfl, ?_⟩
  have hstart : startQuery create 1 [97] (some 0) false .sent = startNew create (initResKey 1 [97]) (some 0) .sent := by
    rw [startQuery, if_neg (by decide), if_neg (by decide)]
    rfl
  rw [hstart, startNew_sent]
  constructor
  all_goals simp [create, allocQnode, Resolver.setNode, Resolver.nextQnode, bumpId, hkey.1, hkey.2]

/-- The query of the name `a` is pending in node 0 while 65534 queries fail for want of a name server: then
the query of the name `c` gets the same id, and takes its entry in the table. -/
theorem pending_ids_equal :
    ∃ s n, exec (step 5) create ((.startQuery 1 [97] (some 0) false .sent ::
        (List.replicate 65533 (.startQuery 1 [98] none false .noServers) ++
          [.startQuery 1 [98] none false .noServers])) ++ [.startQuery 1 [99] (some 1) false .sent]) = some s ∧
      n ≠ 0 ∧ s.Pending 0 ∧ s.Pending n ∧ (s.nodes 0).id = (s.nodes n).id ∧
      s.byId (s.nodes 0).id = some n := by
  obtain ⟨s, hs, hheld⟩ := held_start 5
  obtain ⟨t, ht, hwrapped⟩ := hheld.wrap 5
  have hnode := hwrapped.nextQnode
  obtain ⟨u, hu, hbyRes, hbyRes', hbyId, hid, hid'⟩ :
      ∃ u, exec (step 5) t [.startQuery 1 [99] (some 1) false .sent] = some u ∧
        u.byRes (initResKey 1 [97]) = some 0 ∧ u.byRes (initResKey 1 [99]) = some t.nextQnode ∧
        u.byId 1 = some t.nextQnode ∧ (u.nodes 0).id = 1 ∧ (u.nodes t.nextQnode).id = 1 := by
    have hkey := key_ne.2
    obtain ⟨hlast, hid, hbyRes, -, hc, -, -⟩ := hwrapped
    refine ⟨_, exec_cons_eq_some.mpr ⟨_, rfl, rfl⟩, ?_⟩
    rw [startQuery, if_neg (by decide), if_neg (by decide), hc]
    simp only [startNew_sent, allocQnode, Resolver.setNode]
    grind [Function.update_apply]
  refine ⟨u, t.nextQnode, exec_append (exec_cons_eq_some.mpr ⟨s, hs, ht⟩) hu, hnode, .inr ⟨_, hbyRes⟩,
    .inr ⟨_, hbyRes'⟩, hid.trans hid'.symm, ?_⟩
  rw [hid, hbyId]

end PjProject.DnsResolver
