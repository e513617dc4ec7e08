import PjProject.DnsResolver

/-! Where the query nodes of the DNS resolver are. Every node is in one place: in the free list, pending in
both tables under its own id and key, a child of a query, taken out, or in no list. -/

namespace PjProject.DnsResolver

/-- Where a node is; a `loose` one is in no list. -/
inductive Place
  | fresh
  | free
  | loose
  | pending
  | child (p : Node)
  | finished
  deriving DecidableEq

def Place.IsParent (x : Place) : Prop := x = .pending ∨ x = .finished

structure Placed (s : Resolver) (place : Node → Place) : Prop where
  fresh : ∀ n, s.nextNode ≤ n → place n = .fresh
  free : ∀ n, n ∈ s.freeNodes ↔ place n = .free
  freeNodup : s.freeNodes.Nodup
  finished : ∀ n, n ∈ s.finished.map Prod.fst ↔ place n = .finished
  finishedNodup : (s.finished.map Prod.fst).Nodup
  child : ∀ p c, (place p).IsParent → (c ∈ (s.nodes p).children ↔ place c = .child p)
  childNodup : ∀ p, (place p).IsParent → (s.nodes p).children.Nodup
  parent : ∀ p c, place c = .child p → (place p).IsParent
  byId : ∀ id n, s.byId id = some n → place n = .pending ∧ (s.nodes n).id = id
  byRes : ∀ key n, s.byRes key = some n → place n = .pending ∧ (s.nodes n).key = key
  pending : ∀ n, place n = .pending → s.byId (s.nodes n).id = some n ∧ s.byRes (s.nodes n).key = some n

section Moved

variable {place : Node → Place} {n : Node} {x y : Place}

theorem moved_iff (hold : place n ≠ x) (hnew : y ≠ x) (m : Node) : Function.update place n y m = x ↔ place m = x := by
  by_cases hm : m = n
  · rw [hm, Function.update_self]
    exact iff_of_false hnew hold
  · rw [Function.update_of_ne hm]

theorem moved_to_iff (m : Node) : Function.update place n x m = x ↔ m = n ∨ place m = x := by
  by_cases hm : m = n
  · rw [hm, Function.update_self]
    exact iff_of_true rfl (.inl rfl)
  · rw [Function.update_of_ne hm]
    exact ⟨.inr, fun h => h.resolve_left hm⟩

theorem moved_isParent (hold : ¬(place n).IsParent) (hnew : ¬y.IsParent) (p : Node) :
    (Function.update place n y p).IsParent ↔ (place p).IsParent := by
  rw [Place.IsParent, Place.IsParent, moved_iff (fun h => hold (.inl h)) (fun h => hnew (.inl h)),
    moved_iff (fun h => hold (.inr h)) (fun h => hnew (.inr h))]

end Moved

theorem setNode_self (s : Resolver) (n : Node) (q : Query) : (s.setNode n q).nodes n = q :=
  Function.update_self ..

theorem setNode_of_ne (s : Resolver) {n m : Node} (hm : m ≠ n) (q : Query) :
    (s.setNode n q).nodes m = s.nodes m := Function.update_of_ne hm ..

theorem nodup_snoc {l : List Node} {n : Node} (hl : l.Nodup) (hn : n ∉ l) : (l ++ [n]).Nodup := by
  rw [← List.concat_eq_append]
  exact hl.concat hn

section Placed

variable {s t : Resolver} {place : Node → Place} {n p : Node}

theorem Placed.nextQnode (h : Placed s place) : place s.nextQnode = .free ∨ place s.nextQnode = .fresh := by
  rw [Resolver.nextQnode]
  cases hfree : s.freeNodes with
  | nil => exact .inr (h.fresh _ le_rfl)
  | cons n rest =>
    refine .inl ((h.free n).mp ?_)
    rw [hfree]
    exact List.mem_cons_self

theorem Placed.move (h : Placed s place) {y : Place} (hold : ¬(place n).IsParent) (hnew : ¬y.IsParent)
    (hparent : ∀ p, y = .child p → (place p).IsParent)
    (hfresh : ∀ m, t.nextNode ≤ m → Function.update place n y m = .fresh)
    (hfree : ∀ m, m ∈ t.freeNodes ↔ Function.update place n y m = .free) (hnodup : t.freeNodes.Nodup)
    (hchild : ∀ p c, (place p).IsParent →
      (c ∈ (t.nodes p).children ↔ Function.update place n y c = .child p))
    (hchildNodup : ∀ p, (place p).IsParent → (t.nodes p).children.Nodup)
    (hids : ∀ m, place m = .pending → (t.nodes m).id = (s.nodes m).id ∧ (t.nodes m).key = (s.nodes m).key)
    (hfinished : t.finished = s.finished) (hbyId : t.byId = s.byId) (hbyRes : t.byRes = s.byRes) :
    Placed t (Function.update place n y) := by
  have hparents := moved_isParent hold hnew
  have hpending := moved_iff (fun h => hold (.inl h)) (fun h => hnew (.inl h))
  constructor
  · exact hfresh
  · exact hfree
  · exact hnodup
  · intro m
    rw [hfinished, moved_iff (fun h => hold (.inr h)) (fun h => hnew (.inr h))]
    exact h.finished m
  · rw [hfinished]
    exact h.finishedNodup
  · intro p c hp
    exact hchild p c ((hparents p).mp hp)
  · intro p hp
    exact hchildNodup p ((hparents p).mp hp)
  · intro p c hc
    rw [hparents]
    by_cases hcn : c = n
    · rw [hcn, Function.update_self] at hc
      exact hparent p hc
    · rw [Function.update_of_ne hcn] at hc
      exact h.parent p c hc
  · intro id m hm
    rw [hbyId] at hm
    obtain ⟨hplace, hid⟩ := h.byId id m hm
    rw [hpending, (hids m hplace).1]
    exact ⟨hplace, hid⟩
  · intro key m hm
    rw [hbyRes] at hm
    obtain ⟨hplace, hkey⟩ := h.byRes key m hm
    rw [hpending, (hids m hplace).2]
    exact ⟨hplace, hkey⟩
  · intro m hm
    have hplace := (hpending m).mp hm
    rw [hbyId, hbyRes, (hids m hplace).1, (hids m hplace).2]
    exact h.pending m hplace

theorem not_isParent_of_nextQnode (h : Placed s place) : ¬(place s.nextQnode).IsParent := by
  rintro (hp | hp)
  · rcases h.nextQnode with hplace | hplace <;> cases hplace.symm.trans hp
  · rcases h.nextQnode with hplace | hplace <;> cases hplace.symm.trans hp

theorem not_isParent_of_loose (hn : place n = .loose) : ¬(place n).IsParent := by
  rw [hn]
  rintro (hp | hp) <;> cases hp

theorem not_isParent_child (p : Node) : ¬(Place.child p).IsParent := by
  rintro (hp | hp) <;> cases hp

theorem Placed.alloc_fresh (h : Placed s place) (cb : Option Nat) (m : Node)
    (hm : (allocQnode s cb).nextNode ≤ m) : Function.update place s.nextQnode .loose m = .fresh := by
  simp only [allocQnode] at hm
  have hle : s.nextNode ≤ m := by
    split at hm
    · exact Nat.le_of_succ_le hm
    · exact hm
  rw [Function.update_of_ne, h.fresh m hle]
  rintro rfl
  rw [Resolver.nextQnode] at hm hle
  cases hfree : s.freeNodes with
  | nil =>
    rw [hfree, if_pos rfl, List.headD_nil] at hm
    exact Nat.not_succ_le_self _ hm
  | cons n rest =>
    have hplace := (h.free n).mp (by rw [hfree]; exact List.mem_cons_self)
    rw [hfree, List.headD_cons] at hle
    rw [h.fresh n hle] at hplace
    cases hplace

theorem Placed.alloc_free (h : Placed s place) (cb : Option Nat) (m : Node) :
    m ∈ (allocQnode s cb).freeNodes ↔ Function.update place s.nextQnode .loose m = .free := by
  have hnodup := h.freeNodup
  simp only [allocQnode]
  by_cases hm : m = s.nextQnode
  · rw [hm, Function.update_self]
    refine iff_of_false ?_ nofun
    rw [Resolver.nextQnode]
    cases hfree : s.freeNodes with
    | nil => exact List.not_mem_nil
    | cons n rest =>
      rw [hfree] at hnodup
      exact (List.nodup_cons.mp hnodup).1
  · rw [Function.update_of_ne hm, ← h.free]
    rw [Resolver.nextQnode] at hm
    cases hfree : s.freeNodes with
    | nil => rfl
    | cons n rest =>
      rw [hfree, List.headD_cons] at hm
      rw [List.tail_cons, List.mem_cons]
      exact ⟨.inr, fun hmem => hmem.resolve_left hm⟩

theorem Placed.alloc (h : Placed s place) (cb : Option Nat) :
    Placed (allocQnode s cb) (Function.update place s.nextQnode .loose) := by
  have hold := not_isParent_of_nextQnode h
  have hnode : ∀ m, (place m).IsParent → (allocQnode s cb).nodes m = s.nodes m := by
    intro m hm
    refine setNode_of_ne s ?_ (blankQuery cb)
    rintro rfl
    exact hold hm
  refine h.move hold (by rintro (hp | hp) <;> cases hp) nofun (h.alloc_fresh cb)
    (h.alloc_free cb) h.freeNodup.tail ?_ ?_ ?_ rfl rfl rfl
  · intro p c hp
    have hnot : place s.nextQnode ≠ .child p := fun hc => by
      rcases h.nextQnode with hplace | hplace <;> cases hplace.symm.trans hc
    rw [hnode p hp, moved_iff hnot (fun hc => by cases hc)]
    exact h.child p c hp
  · intro p hp
    rw [hnode p hp]
    exact h.childNodup p hp
  · intro m hm
    rw [hnode m (.inl hm)]
    exact ⟨rfl, rfl⟩

/-- The fields of a node that the places depend on. -/
structure SameQuery (q q' : Query) : Prop where
  id : q'.id = q.id
  key : q'.key = q.key
  children : q'.children = q.children

/-- Timers, counters and callbacks do not matter, nor does a node that is not a parent. -/
theorem Placed.congr (h : Placed s place)
    (hnodes : ∀ n, (place n).IsParent → SameQuery (s.nodes n) (t.nodes n)) (hnext : t.nextNode = s.nextNode)
    (hfree : t.freeNodes = s.freeNodes) (hfinished : t.finished = s.finished) (hbyId : t.byId = s.byId)
    (hbyRes : t.byRes = s.byRes) : Placed t place := by
  constructor
  · rw [hnext]
    exact h.fresh
  · rw [hfree]
    exact h.free
  · rw [hfree]
    exact h.freeNodup
  · rw [hfinished]
    exact h.finished
  · rw [hfinished]
    exact h.finishedNodup
  · intro p c hp
    rw [(hnodes p hp).children]
    exact h.child p c hp
  · intro p hp
    rw [(hnodes p hp).children]
    exact h.childNodup p hp
  · exact h.parent
  · intro id n hn
    rw [hbyId] at hn
    have hplace := (h.byId id n hn).1
    rw [(hnodes n (.inl hplace)).id]
    exact h.byId id n hn
  · intro key n hn
    rw [hbyRes] at hn
    have hplace := (h.byRes key n hn).1
    rw [(hnodes n (.inl hplace)).key]
    exact h.byRes key n hn
  · intro n hn
    rw [hbyId, hbyRes, (hnodes n (.inl hn)).id, (hnodes n (.inl hn)).key]
    exact h.pending n hn

theorem Placed.setSame (h : Placed s place) {q : Query} (hq : SameQuery (s.nodes n) q) :
    Placed (s.setNode n q) place := by
  refine h.congr (fun m _ => ?_) rfl rfl rfl rfl rfl
  by_cases hm : m = n
  · rw [hm, setNode_self]
    exact hq
  · rw [setNode_of_ne s hm]
    exact ⟨rfl, rfl, rfl⟩

theorem Placed.setLoose (h : Placed s place) (hn : place n = .loose) (q : Query) : Placed (s.setNode n q) place := by
  refine h.congr (fun m hm => ?_) rfl rfl rfl rfl rfl
  have hne : m ≠ n := fun heq => not_isParent_of_loose hn (heq ▸ hm)
  rw [setNode_of_ne s hne]
  exact ⟨rfl, rfl, rfl⟩

theorem Placed.addChild (h : Placed s place) (hn : place n = .loose) (hp : place p = .pending) :
    Placed (s.setNode p { s.nodes p with children := (s.nodes p).children ++ [n] })
      (Function.update place n (.child p)) := by
  refine h.move (not_isParent_of_loose hn) (not_isParent_child p) ?_ ?_ ?_ h.freeNodup ?_ ?_ ?_ rfl rfl rfl
  · intro p' hp'
    cases hp'
    exact .inl hp
  · intro m hm
    rw [moved_iff (by simp [hn]) (by simp)]
    exact h.fresh m hm
  · intro m
    rw [moved_iff (by simp [hn]) (by simp)]
    exact h.free m
  · intro p' c hp'
    by_cases hpp : p' = p
    · subst hpp
      rw [moved_to_iff, ← h.child p' c hp', setNode_self, List.mem_append, List.mem_singleton]
      exact or_comm
    · rw [moved_iff (by simp [hn]) (by simpa using Ne.symm hpp), ← h.child p' c hp',
        setNode_of_ne s hpp]
  · intro p' hp'
    by_cases hpp : p' = p
    · subst hpp
      have hnot : n ∉ (s.nodes p').children := by
        rw [h.child p' n hp', hn]
        simp
      rw [setNode_self]
      exact nodup_snoc (h.childNodup p' hp') hnot
    · rw [setNode_of_ne s hpp]
      exact h.childNodup p' hp'
  · intro m _
    by_cases hmp : m = p
    · rw [hmp, setNode_self]
      exact ⟨rfl, rfl⟩
    · rw [setNode_of_ne s hmp]
      exact ⟨rfl, rfl⟩

theorem Placed.pushFree (h : Placed s place) (hn : place n = .loose) :
    Placed { s with freeNodes := s.freeNodes ++ [n] } (Function.update place n .free) := by
  refine h.move (not_isParent_of_loose hn) (by rintro (hp | hp) <;> cases hp) nofun
    ?_ ?_ ?_ ?_ h.childNodup (fun _ _ => ⟨rfl, rfl⟩) rfl rfl rfl
  · intro m hm
    rw [moved_iff (by simp [hn]) (by simp)]
    exact h.fresh m hm
  · intro m
    rw [moved_to_iff, List.mem_append, List.mem_singleton, h.free]
    exact or_comm
  · refine nodup_snoc h.freeNodup ?_
    rw [h.free, hn]
    simp
  · intro p c hp
    rw [moved_iff (by simp [hn]) (by simp)]
    exact h.child p c hp

theorem Placed.addPending (h : Placed s place) (hn : place n = .loose)
    (hchildren : (s.nodes n).children = []) (hid : s.byId (s.nodes n).id = none)
    (hkey : s.byRes (s.nodes n).key = none) :
    Placed { s with
        byId := Function.update s.byId (s.nodes n).id (some n)
        byRes := Function.update s.byRes (s.nodes n).key (some n) }
      (Function.update place n .pending) := by
  have hparents : ∀ m, (Function.update place n .pending m).IsParent ↔ m = n ∨ (place m).IsParent := fun m => by
    rw [Place.IsParent, Place.IsParent, moved_to_iff, moved_iff (by simp [hn]) (by simp), or_assoc]
  have hchild : ∀ m p, Function.update place n .pending m = .child p ↔ place m = .child p := fun m p =>
    moved_iff (by simp [hn]) (by simp) m
  have hnone : ∀ c, place c ≠ .child n := fun c hc => not_isParent_of_loose hn (h.parent n c hc)
  constructor
  · intro m hm
    rw [moved_iff (by simp [hn]) (by simp)]
    exact h.fresh m hm
  · intro m
    rw [moved_iff (by simp [hn]) (by simp)]
    exact h.free m
  · exact h.freeNodup
  · intro m
    rw [moved_iff (by simp [hn]) (by simp)]
    exact h.finished m
  · exact h.finishedNodup
  · intro p c hp
    rw [hchild]
    rcases (hparents p).mp hp with rfl | hp
    · rw [hchildren]
      exact iff_of_false List.not_mem_nil (hnone c)
    · exact h.child p c hp
  · intro p hp
    rcases (hparents p).mp hp with rfl | hp
    · rw [hchildren]
      exact List.nodup_nil
    · exact h.childNodup p hp
  · intro p c hc
    exact (hparents p).mpr (.inr (h.parent p c ((hchild c p).mp hc)))
  · intro id m hm
    dsimp only at hm
    by_cases hidn : id = (s.nodes n).id
    · rw [hidn, Function.update_self] at hm
      cases hm
      exact ⟨Function.update_self .., hidn.symm⟩
    · rw [Function.update_of_ne hidn] at hm
      exact ⟨(moved_to_iff m).mpr (.inr (h.byId id m hm).1), (h.byId id m hm).2⟩
  · intro key m hm
    dsimp only at hm
    by_cases hkeyn : key = (s.nodes n).key
    · rw [hkeyn, Function.update_self] at hm
      cases hm
      exact ⟨Function.update_self .., hkeyn.symm⟩
    · rw [Function.update_of_ne hkeyn] at hm
      exact ⟨(moved_to_iff m).mpr (.inr (h.byRes key m hm).1), (h.byRes key m hm).2⟩
  · intro m hm
    rcases (moved_to_iff m).mp hm with rfl | hm
    · exact ⟨Function.update_self .., Function.update_self ..⟩
    · obtain ⟨hmid, hmkey⟩ := h.pending m hm
      refine ⟨?_, ?_⟩
      · refine (Function.update_of_ne (fun heq => ?_) ..).trans hmid
        cases hid.symm.trans (heq ▸ hmid)
      · refine (Function.update_of_ne (fun heq => ?_) ..).trans hmkey
        cases hkey.symm.trans (heq ▸ hmkey)

theorem Placed.takeOut (h : Placed s place) {q : Query} (hn : place n = .pending)
    (hq : SameQuery (s.nodes n) q) (status : Status) :
    Placed (takeOut s n q status) (Function.update place n .finished) := by
  have hset := h.setSame hq
  have hnode : ((s.setNode n q).nodes n).id = q.id ∧ ((s.setNode n q).nodes n).key = q.key := by
    rw [setNode_self]
    exact ⟨rfl, rfl⟩
  have hparents : ∀ m, (Function.update place n .finished m).IsParent ↔ (place m).IsParent := fun m => by
    by_cases hm : m = n
    · rw [hm, Function.update_self, hn]
      exact iff_of_true (.inr rfl) (.inl rfl)
    · rw [Function.update_of_ne hm]
  have hchild : ∀ m p, Function.update place n .finished m = .child p ↔ place m = .child p := fun m p =>
    moved_iff (by simp [hn]) (by simp) m
  constructor
  · intro m hm
    rw [moved_iff (by simp [hn]) (by simp)]
    exact hset.fresh m hm
  · intro m
    rw [moved_iff (by simp [hn]) (by simp)]
    exact hset.free m
  · exact hset.freeNodup
  · intro m
    simp only [DnsResolver.takeOut, List.map_append, List.mem_append, List.map_cons, List.map_nil,
      List.mem_singleton]
    rw [moved_to_iff, ← h.finished]
    exact or_comm
  · simp only [DnsResolver.takeOut, List.map_append, List.map_cons, List.map_nil]
    refine nodup_snoc h.finishedNodup ?_
    rw [h.finished, hn]
    simp
  · intro p c hp
    rw [hchild]
    exact hset.child p c ((hparents p).mp hp)
  · intro p hp
    exact hset.childNodup p ((hparents p).mp hp)
  · intro p c hc
    exact (hparents p).mpr (h.parent p c ((hchild c p).mp hc))
  · intro id m hm
    simp only [DnsResolver.takeOut] at hm
    by_cases hid : id = q.id
    · rw [hid, Function.update_self] at hm
      cases hm
    · rw [Function.update_of_ne hid] at hm
      obtain ⟨hplace, hmid⟩ := hset.byId id m hm
      refine ⟨?_, hmid⟩
      rw [Function.update_of_ne, hplace]
      rintro rfl
      exact hid (hmid.symm.trans hnode.1)
  · intro key m hm
    simp only [DnsResolver.takeOut] at hm
    by_cases hkey : key = q.key
    · rw [hkey, Function.update_self] at hm
      cases hm
    · rw [Function.update_of_ne hkey] at hm
      obtain ⟨hplace, hmkey⟩ := hset.byRes key m hm
      refine ⟨?_, hmkey⟩
      rw [Function.update_of_ne, hplace]
      rintro rfl
      exact hkey (hmkey.symm.trans hnode.2)
  · intro m hm
    have hne : m ≠ n := by
      rintro rfl
      rw [Function.update_self] at hm
      cases hm
    rw [Function.update_of_ne hne] at hm
    obtain ⟨hmid, hmkey⟩ := hset.pending m hm
    obtain ⟨hnid, hnkey⟩ := hset.pending n hn
    refine ⟨?_, ?_⟩
    · refine (Function.update_of_ne (fun heq => hne ?_) ..).trans hmid
      have hsame := congrArg s.byId (heq.trans hnode.1.symm)
      exact Option.some.inj (hmid.symm.trans (hsame.trans hnid))
    · refine (Function.update_of_ne (fun heq => hne ?_) ..).trans hmkey
      have hsame := congrArg s.byRes (heq.trans hnode.2.symm)
      exact Option.some.inj (hmkey.symm.trans (hsame.trans hnkey))

theorem map_fst_erase {l : List (Node × Status)} {n : Node} {status : Status}
    (hnodup : (l.map Prod.fst).Nodup) (h : (n, status) ∈ l) :
    (l.erase (n, status)).map Prod.fst = (l.map Prod.fst).erase n := by
  induction l with
  | nil => cases h
  | cons x l ih =>
    rw [List.map_cons, List.nodup_cons] at hnodup
    by_cases hx : x = (n, status)
    · subst hx
      rw [List.erase_cons_head, List.map_cons, List.erase_cons_head]
    · have hmem : (n, status) ∈ l := (List.mem_cons.mp h).resolve_left (Ne.symm hx)
      have hne : x.1 ≠ n := by
        rintro rfl
        exact hnodup.1 (List.mem_map.mpr ⟨_, hmem, rfl⟩)
      rw [List.erase_cons_tail (by simpa using hx), List.map_cons, ih hnodup.2 hmem, List.map_cons,
        List.erase_cons_tail (by simpa using hne)]

/-- A query that was taken out and its children are recycled. -/
def recycled (place : Node → Place) (n m : Node) : Place :=
  if m = n ∨ place m = .child n then .free else place m

theorem recycled_iff {x : Place} (hn : place n = .finished) (hfree : x ≠ .free) (hfinished : x ≠ .finished)
    (hchild : x ≠ .child n) (m : Node) : recycled place n m = x ↔ place m = x := by
  rw [recycled]
  split
  · rename_i hm
    refine iff_of_false hfree.symm ?_
    rcases hm with rfl | hm
    · rw [hn]
      exact hfinished.symm
    · rw [hm]
      exact hchild.symm
  · rfl

theorem recycled_free (m : Node) : recycled place n m = .free ↔ place m = .free ∨ place m = .child n ∨ m = n := by
  rw [recycled]
  split
  · rename_i hm
    exact iff_of_true rfl (.inr hm.symm)
  · rename_i hm
    exact ⟨.inl, fun hfree => hfree.resolve_right fun hc => hm hc.symm⟩

theorem recycled_finished (m : Node) : recycled place n m = .finished ↔ m ≠ n ∧ place m = .finished := by
  rw [recycled]
  split
  · rename_i hm
    refine iff_of_false nofun ?_
    rintro ⟨hne, hfinished⟩
    cases (hm.resolve_left hne).symm.trans hfinished
  · rename_i hm
    exact ⟨fun hfinished => ⟨fun heq => hm (.inl heq), hfinished⟩, And.right⟩

theorem recycled_ne_child (m : Node) : recycled place n m ≠ .child n := by
  rw [recycled]
  split
  · exact nofun
  · rename_i hm
    exact fun hc => hm (.inr hc)

theorem recycled_isParent (hn : place n = .finished) (p : Node) :
    (recycled place n p).IsParent ↔ p ≠ n ∧ (place p).IsParent := by
  rw [Place.IsParent, Place.IsParent, recycled_finished,
    recycled_iff hn (by simp) (by simp) (by simp)]
  constructor
  · rintro (hp | ⟨hne, hp⟩)
    · refine ⟨?_, .inl hp⟩
      rintro rfl
      cases hp.symm.trans hn
    · exact ⟨hne, .inr hp⟩
  · rintro ⟨hne, hp | hp⟩
    · exact .inl hp
    · exact .inr ⟨hne, hp⟩

/-- The nodes of the free list, the children and the query itself are different ones. -/
theorem Placed.finish_free (h : Placed s place) (hn : place n = .finished) :
    (s.freeNodes ++ (s.nodes n).children ++ [n]).Nodup := by
  have hparent : (place n).IsParent := .inr hn
  refine nodup_snoc (List.nodup_append.mpr ⟨h.freeNodup, h.childNodup n hparent, ?_⟩) ?_
  · rintro m hm c hc rfl
    cases ((h.free m).mp hm).symm.trans ((h.child n m hparent).mp hc)
  · rw [List.mem_append, h.free, h.child n n hparent, hn]
    simp

/-- A query that was taken out is recycled with its children. -/
theorem Placed.finish (h : Placed s place) {status : Status} (hn : (n, status) ∈ s.finished) :
    Placed (finish s n status) (recycled place n) := by
  have hplace : place n = .finished := (h.finished n).mp (List.mem_map_of_mem hn)
  have hlist := map_fst_erase h.finishedNodup hn
  have hnode : ∀ m, m ≠ n → (DnsResolver.finish s n status).nodes m = s.nodes m := fun m hm =>
    setNode_of_ne s hm _
  have hpending : ∀ m, recycled place n m = .pending ↔ place m = .pending :=
    recycled_iff hplace (by simp) (by simp) (by simp)
  have hne : ∀ m, place m = .pending → m ≠ n := by
    rintro m hm rfl
    cases hm.symm.trans hplace
  constructor
  · intro m hm
    exact (recycled_iff hplace (by simp) (by simp) (by simp) m).mpr (h.fresh m hm)
  · intro m
    rw [recycled_free, ← h.free, ← h.child n m (.inr hplace)]
    simp only [DnsResolver.finish, List.mem_append, List.mem_singleton, or_assoc]
  · exact h.finish_free hplace
  · intro m
    simp only [DnsResolver.finish, hlist]
    rw [h.finishedNodup.mem_erase_iff, recycled_finished, h.finished]
  · simp only [DnsResolver.finish, hlist]
    exact h.finishedNodup.erase n
  · intro p c hp
    obtain ⟨hpn, hp⟩ := (recycled_isParent hplace p).mp hp
    rw [recycled_iff hplace (by simp) (by simp) (by simpa using hpn), hnode p hpn]
    exact h.child p c hp
  · intro p hp
    obtain ⟨hpn, hp⟩ := (recycled_isParent hplace p).mp hp
    rw [hnode p hpn]
    exact h.childNodup p hp
  · intro p c hc
    have hpn : p ≠ n := by
      rintro rfl
      exact recycled_ne_child c hc
    rw [recycled_iff hplace (by simp) (by simp) (by simpa using hpn)] at hc
    exact (recycled_isParent hplace p).mpr ⟨hpn, h.parent p c hc⟩
  · intro id m hm
    obtain ⟨hm', hid⟩ := h.byId id m hm
    rw [hpending, hnode m (hne m hm')]
    exact ⟨hm', hid⟩
  · intro key m hm
    obtain ⟨hm', hkey⟩ := h.byRes key m hm
    rw [hpending, hnode m (hne m hm')]
    exact ⟨hm', hkey⟩
  · intro m hm
    have hm' := (hpending m).mp hm
    rw [hnode m (hne m hm')]
    exact h.pending m hm'

theorem Placed.mem_listed (h : Placed s place) (n : Node) : n ∈ s.listed ↔ place n = .pending := by
  rw [Resolver.listed, List.mem_filter, List.mem_range, decide_eq_true_iff]
  constructor
  · rintro ⟨-, hid⟩
    exact (h.byId _ n hid).1
  · intro hn
    refine ⟨?_, (h.pending n hn).1⟩
    by_contra hlarge
    rw [h.fresh n (Nat.le_of_not_lt hlarge)] at hn
    cases hn

/-- Both tables are empty after `pj_dns_resolver_destroy`. -/
theorem Placed.destroy_byRes (h : Placed s place) (notify : Bool)
    (key : ResKey) : (destroy s notify).byRes key = none := by
  simp only [destroy]
  split
  · rfl
  · rename_i hnone
    cases hkey : s.byRes key with
    | none => rfl
    | some n =>
      obtain ⟨hn, hqkey⟩ := h.byRes key n hkey
      exact (hnone ⟨n, (h.mem_listed n).mpr hn, hqkey⟩).elim

theorem cancelIfActive_same (q : Query) : SameQuery q q.cancelIfActive := by
  rw [Query.cancelIfActive]
  split
  · exact ⟨rfl, rfl, rfl⟩
  · exact ⟨rfl, rfl, rfl⟩

theorem destroy_same (s : Resolver) (notify : Bool) (n : Node) :
    SameQuery (s.nodes n) ((destroy s notify).nodes n) := by
  have hcancel := cancelIfActive_same (s.nodes n)
  simp only [destroy]
  split
  · exact ⟨hcancel.id, hcancel.key, hcancel.children⟩
  · split
    · exact ⟨rfl, rfl, rfl⟩
    · exact ⟨rfl, rfl, rfl⟩

/-- The pending queries and their children are in no list any more. -/
def released (place : Node → Place) (m : Node) : Place :=
  match place m with
  | .pending => .loose
  | .child p => if place p = .pending then .loose else .child p
  | x => x

theorem released_iff {x : Place} (hloose : x ≠ .loose) (m : Node) :
    released place m = x ↔ place m = x ∧ x ≠ .pending ∧ ∀ p, x = .child p → place p ≠ .pending := by
  rw [released]
  cases hm : place m with
  | pending => exact iff_of_false hloose.symm fun hc => hc.2.1 hc.1.symm
  | child p =>
    dsimp only
    split
    · rename_i hp
      exact iff_of_false hloose.symm fun hc => hc.2.2 p hc.1.symm hp
    · rename_i hp
      refine ⟨?_, And.left⟩
      rintro rfl
      exact ⟨rfl, by simp, fun p' hp' => by cases hp'; exact hp⟩
  | fresh | free | loose | finished =>
    refine ⟨?_, And.left⟩
    rintro rfl
    exact ⟨rfl, by simp, nofun⟩

theorem released_isParent (p : Node) : (released place p).IsParent ↔ place p = .finished := by
  rw [Place.IsParent, released_iff (by simp), released_iff (by simp)]
  simp

/-- The pending queries and their children are in no list after `pj_dns_resolver_destroy`. -/
theorem Placed.destroy (h : Placed s place) (notify : Bool) : Placed (destroy s notify) (released place) := by
  have hsame := destroy_same s notify
  constructor
  · intro m hm
    rw [released_iff (by simp)]
    exact ⟨h.fresh m hm, by simp, nofun⟩
  · intro m
    rw [released_iff (by simp)]
    exact (h.free m).trans ⟨fun hm => ⟨hm, by simp, nofun⟩, And.left⟩
  · exact h.freeNodup
  · intro m
    rw [released_iff (by simp)]
    exact (h.finished m).trans ⟨fun hm => ⟨hm, by simp, nofun⟩, And.left⟩
  · exact h.finishedNodup
  · intro p c hp
    have hfinished := (released_isParent p).mp hp
    rw [(hsame p).children, h.child p c (.inr hfinished), released_iff (by simp)]
    refine ⟨fun hc => ⟨hc, by simp, fun p' hp' => ?_⟩, And.left⟩
    cases hp'
    rw [hfinished]
    simp
  · intro p hp
    rw [(hsame p).children]
    exact h.childNodup p (.inr ((released_isParent p).mp hp))
  · intro p c hc
    obtain ⟨hc, -, hp⟩ := (released_iff (by simp) c).mp hc
    rw [released_isParent]
    exact (h.parent p c hc).resolve_left (hp p rfl)
  · intro id m hm
    cases hm
  · intro key m hm
    rw [h.destroy_byRes notify] at hm
    cases hm
  · intro m hm
    exact absurd rfl ((released_iff (by simp) m).mp hm).2.1

end Placed

end PjProject.DnsResolver
