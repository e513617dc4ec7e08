import PjProject.SrvResolver
import Mathlib.Data.List.TakeWhile
import Mathlib.Order.Bounds.Basic

/-! The targets of an SRV response are its records in the order of their priorities. In each turn of the second pass the
next place goes to the target at which the running sum of the weights reaches the random number, among those of its
priority that are left; the others of them stay behind it in some order. The additional records then give each target
its addresses. -/

namespace PjProject.SrvResolver

open Dns (Rr Rdata typeA typeAaaa typeSrv)

/-! What the passes leave of an entry. -/

/-- The entry without its running sum. -/
def Srv.unsummed (srv : Srv) : Srv := { srv with sum := 0 }

/-- The entry as it was made from its record. -/
def Srv.plain (srv : Srv) : Srv := { srv with sum := 0, addr := [] }

/-- The running sum of the weights first reaches `r` at the entry with the index `j`. -/
def FirstReaching (group : List Srv) (r j : Nat) : Prop :=
  j < group.length ∧ IsLeast {k | r ≤ ((group.take (k + 1)).map Srv.weight).sum} j

/-- Among the entries of its priority that remain, the entry is the one that the random number elects. -/
def Elected (random : Nat) (remaining : List Srv) (srv : Srv) : Prop :=
  ∃ j, FirstReaching (remaining.filter fun other => other.priority = srv.priority)
      (random % (((remaining.filter fun other => other.priority = srv.priority).map Srv.weight).sum + 1)) j ∧
    (remaining.filter fun other => other.priority = srv.priority)[j]? = some srv

/-- The entries when turn `i` of the second pass begins. -/
def beforeTurn (rand : Nat → Nat) (entries : List Srv) (i : Nat) : List Srv :=
  (List.range i).foldl (elect rand) (orderByPriority entries)

def recordAddr (srv : Srv) (rr : Rr) : Addr := ⟨decide (rr.type = typeAaaa), addressOf rr.rdata, srv.port⟩

/-- The addresses of the wanted additional records that have the name of the target. -/
def namedAddrs (option : Options) (arr : List Rr) (srv : Srv) : List Addr :=
  (arr.filter fun rr => wanted option rr && sameName rr.name srv.targetName).map (recordAddr srv)

/-- The first of these addresses, or else the address that the name is itself. -/
def addressesFor (inet : Inet) (option : Options) (arr : List Rr) (srv : Srv) : List Addr :=
  if namedAddrs option arr srv = [] then (nameAddress inet option srv.plain).toList
  else (namedAddrs option arr srv).take addrMaxCount

/-! Swaps. -/

theorem swapAt_eq {l : List Srv} {i j : Nat} (hi : i < l.length) (hj : j < l.length) :
    swapAt l i j = (l.set i l[j]).set j l[i] := by
  rw [swapAt, List.getElem?_eq_getElem hi, List.getElem?_eq_getElem hj]

theorem swapAt_length (l : List Srv) (i j : Nat) : (swapAt l i j).length = l.length := by
  unfold swapAt
  split
  · rw [List.length_set, List.length_set]
  · rfl

theorem swapAt_perm (l : List Srv) (i j : Nat) : (swapAt l i j).Perm l := by
  unfold swapAt
  split
  · rename_i a b ha hb
    obtain ⟨hi, rfl⟩ := List.getElem?_eq_some_iff.mp ha
    obtain ⟨hj, rfl⟩ := List.getElem?_eq_some_iff.mp hb
    exact List.set_set_perm hi hj
  · exact .refl l

theorem swapAt_get {l : List Srv} {i j k : Nat} (hi : i < l.length) (hj : j < l.length) (hk : k < l.length) :
    (swapAt l i j)[k]? = some (if k = j then l[i] else if k = i then l[j] else l[k]) := by
  rw [swapAt_eq hi hj, List.getElem?_set, List.getElem?_set, List.length_set, List.getElem?_eq_getElem hk]
  by_cases hkj : j = k
  · rw [if_pos hkj, if_pos hkj.symm, if_pos (hkj ▸ hj)]
  · rw [if_neg hkj, if_neg (Ne.symm hkj)]
    by_cases hki : i = k
    · rw [if_pos hki, if_pos hki.symm, if_pos (hki ▸ hi)]
    · rw [if_neg hki, if_neg (Ne.symm hki)]

theorem swapAt_first {l : List Srv} {i j : Nat} (hi : i < l.length) (hj : j < l.length) :
    (swapAt l i j)[i]? = some l[j] := by
  rw [swapAt_get hi hj hi, if_pos rfl]
  split_ifs with hij
  · subst hij
    rfl
  · rfl

theorem swapAt_append (front back : List Srv) (i j : Nat) :
    swapAt (front ++ back) (front.length + i) (front.length + j) = front ++ swapAt back i j := by
  unfold swapAt
  rw [List.getElem?_append_right (Nat.le_add_right _ _), List.getElem?_append_right (Nat.le_add_right _ _),
    Nat.add_sub_cancel_left, Nat.add_sub_cancel_left]
  split
  · rw [List.set_append_right _ _ (Nat.le_add_right _ _), List.set_append_right _ _ (Nat.le_add_right _ _),
      Nat.add_sub_cancel_left, Nat.add_sub_cancel_left]
  · rfl

theorem map_swapAt {f : Srv → Srv} (l : List Srv) (i j : Nat) : (swapAt l i j).map f = swapAt (l.map f) i j := by
  unfold swapAt
  rw [List.getElem?_map, List.getElem?_map]
  cases l[i]? with
  | none => rfl
  | some a =>
    cases l[j]? with
    | none => rfl
    | some b => exact List.map_set.trans (congrArg (·.set j (f a)) List.map_set)

/-! The first pass. -/

def priorityAt (l : List Srv) (i : Nat) : Nat := (l[i]?.map Srv.priority).getD 0

theorem priorityAt_eq {l : List Srv} {i : Nat} (hi : i < l.length) : priorityAt l i = l[i].priority := by
  rw [priorityAt, List.getElem?_eq_getElem hi]
  rfl

theorem least_spec (l : List Srv) (js : List Nat) (i : Nat) :
    (js.foldl (fun min j => if priorityAt l j < priorityAt l min then j else min) i) ∈ i :: js ∧
      ∀ j ∈ i :: js,
        priorityAt l (js.foldl (fun min j => if priorityAt l j < priorityAt l min then j else min) i) ≤
          priorityAt l j := by
  induction js generalizing i with
  | nil => exact ⟨List.mem_singleton_self i, fun j hj => by rw [List.mem_singleton.mp hj]; exact le_rfl⟩
  | cons k js ih =>
    rw [List.foldl_cons]
    by_cases hlt : priorityAt l k < priorityAt l i
    · rw [if_pos hlt]
      obtain ⟨hmem, hleast⟩ := ih k
      refine ⟨List.mem_cons_of_mem i hmem, fun j hj => ?_⟩
      rcases List.mem_cons.mp hj with rfl | hj
      · exact (hleast k List.mem_cons_self).trans hlt.le
      · exact hleast j hj
    · rw [if_neg hlt]
      obtain ⟨hmem, hleast⟩ := ih i
      have hi := hleast i List.mem_cons_self
      refine ⟨?_, fun j hj => ?_⟩
      · rcases List.mem_cons.mp hmem with heq | hmem
        · rw [heq]
          exact List.mem_cons_self
        · exact List.mem_cons_of_mem i (List.mem_cons_of_mem k hmem)
      · rcases List.mem_cons.mp hj with rfl | hj
        · exact hi
        · rcases List.mem_cons.mp hj with rfl | hj
          · exact hi.trans (Nat.le_of_not_lt hlt)
          · exact hleast j (List.mem_cons_of_mem i hj)

theorem mem_later {n i j : Nat} (hi : i < n) : j ∈ i :: (List.range n).drop (i + 1) ↔ i ≤ j ∧ j < n := by
  rw [List.mem_cons, List.range_eq_range', List.drop_range', List.mem_range'_1]
  omega

theorem minPriority_spec {l : List Srv} {i : Nat} (hi : i < l.length) :
    i ≤ minPriority l i ∧ minPriority l i < l.length ∧
      ∀ j, i ≤ j → j < l.length → priorityAt l (minPriority l i) ≤ priorityAt l j := by
  obtain ⟨hmem, hleast⟩ := least_spec l ((List.range l.length).drop (i + 1)) i
  obtain ⟨hge, hlt⟩ := (mem_later hi).mp hmem
  exact ⟨hge, hlt, fun j hij hj => hleast j ((mem_later hi).mpr ⟨hij, hj⟩)⟩

/-- The entries before the index `k` are in order, and none behind one of them has a lower priority. -/
def OrderedTo (k : Nat) (l : List Srv) : Prop :=
  ∀ a b, a < k → a < b → b < l.length → priorityAt l a ≤ priorityAt l b

theorem priorityAt_swapAt {l : List Srv} {i j k : Nat} (hi : i < l.length) (hj : j < l.length) (hk : k < l.length) :
    priorityAt (swapAt l i j) k = if k = j then priorityAt l i else if k = i then priorityAt l j else priorityAt l k := by
  rw [priorityAt, swapAt_get hi hj hk, priorityAt_eq hi, priorityAt_eq hj, priorityAt_eq hk]
  split_ifs <;> rfl

theorem OrderedTo.swap_min {l : List Srv} {i : Nat} (h : OrderedTo i l) (hi : i < l.length) :
    OrderedTo (i + 1) (swapAt l i (minPriority l i)) := by
  obtain ⟨hge, hlt, hleast⟩ := minPriority_spec hi
  intro a b ha hab hb
  rw [swapAt_length] at hb
  rw [priorityAt_swapAt hi hlt (hab.trans hb), priorityAt_swapAt hi hlt hb]
  by_cases hai : a = i
  · -- the least of the rest comes first
    have hfirst : (if a = minPriority l i then priorityAt l i
        else if a = i then priorityAt l (minPriority l i) else priorityAt l a) = priorityAt l (minPriority l i) := by
      split_ifs with hmin
      · rw [← hmin, hai]
      · rfl
    rw [hfirst]
    split_ifs with hbmin hbi
    · exact hleast i (Nat.le_refl i) hi
    · exact le_rfl
    · exact hleast b (by omega) hb
  · rw [if_neg (by omega), if_neg hai]
    split_ifs
    · exact h a i (by omega) (by omega) hi
    · exact h a _ (by omega) (by omega) hlt
    · exact h a b (by omega) hab hb

theorem orderByPriority_turns (l : List Srv) (k : Nat) (hk : k ≤ l.length) :
    ((List.range k).foldl (fun l i => swapAt l i (minPriority l i)) l).Perm l ∧
      OrderedTo k ((List.range k).foldl (fun l i => swapAt l i (minPriority l i)) l) := by
  induction k with
  | zero => exact ⟨.refl l, nofun⟩
  | succ k ih =>
    obtain ⟨hperm, hordered⟩ := ih (Nat.le_of_succ_le hk)
    rw [List.range_succ, List.foldl_append, List.foldl_cons, List.foldl_nil]
    exact ⟨(swapAt_perm _ _ _).trans hperm, hordered.swap_min (by rw [hperm.length_eq]; exact hk)⟩

theorem orderByPriority_perm (l : List Srv) : (orderByPriority l).Perm l :=
  (orderByPriority_turns l _ (Nat.sub_le _ _)).1

theorem orderByPriority_sorted (l : List Srv) : (orderByPriority l).Pairwise fun a b => a.priority ≤ b.priority := by
  obtain ⟨hperm, hordered⟩ := orderByPriority_turns l _ (Nat.sub_le l.length 1)
  rw [List.pairwise_iff_getElem]
  intro a b ha hb hab
  rw [← priorityAt_eq ha, ← priorityAt_eq hb]
  have hlength : b < l.length := by
    rw [← (orderByPriority_perm l).length_eq]
    exact hb
  exact hordered a b (by omega) hab hb

/-! The second pass. -/

/-- The first entries of a list in order that have the priority of its head are all that have it. -/
theorem takeWhile_priority {l : List Srv} {p : Nat} (h : l.Pairwise fun a b => a.priority ≤ b.priority)
    (hp : ∀ srv ∈ l, p ≤ srv.priority) :
    l.takeWhile (fun srv => srv.priority = p) = l.filter fun srv => srv.priority = p := by
  induction l with
  | nil => rfl
  | cons srv more ih =>
    obtain ⟨hsrv, hmore⟩ := List.pairwise_cons.mp h
    rw [List.takeWhile_cons, List.filter_cons]
    split
    · rw [ih hmore fun other hother => hp other (List.mem_cons_of_mem _ hother)]
    · rename_i hne
      refine (List.filter_eq_nil_iff.mpr fun other hother heq => hne ?_).symm
      have hle := hsrv other hother
      rw [of_decide_eq_true heq] at hle
      exact decide_eq_true (Nat.le_antisymm hle (hp srv List.mem_cons_self))

/-- The place at which the running sums reach `r`, when the sum before them is `sum`. -/
theorem reaching_runningSums (p r sum : Nat) (l : List Srv)
    (hle : r ≤ sum + ((l.takeWhile fun srv => srv.priority = p).map Srv.weight).sum)
    (hne : l.takeWhile (fun srv => srv.priority = p) ≠ []) :
    ((runningSums p sum l).takeWhile fun srv => srv.sum < r).length < (l.takeWhile fun srv => srv.priority = p).length ∧
      r ≤ sum + (((l.takeWhile fun srv => srv.priority = p).take
        (((runningSums p sum l).takeWhile fun srv => srv.sum < r).length + 1)).map Srv.weight).sum ∧
      ∀ k < ((runningSums p sum l).takeWhile fun srv => srv.sum < r).length,
        sum + (((l.takeWhile fun srv => srv.priority = p).take (k + 1)).map Srv.weight).sum < r := by
  induction l generalizing sum with
  | nil => exact absurd rfl hne
  | cons srv more ih =>
    by_cases hp : srv.priority = p
    · have hgroup : (srv :: more).takeWhile (fun srv => srv.priority = p) =
          srv :: more.takeWhile fun srv => srv.priority = p := List.takeWhile_cons_of_pos (decide_eq_true hp)
      rw [hgroup, List.map_cons, List.sum_cons] at hle
      rw [hgroup, runningSums, if_pos hp]
      by_cases hsum : sum + srv.weight < r
      · have hbefore : ({ srv with sum := sum + srv.weight } :: runningSums p (sum + srv.weight) more).takeWhile
            (fun srv => srv.sum < r) = { srv with sum := sum + srv.weight } ::
              (runningSums p (sum + srv.weight) more).takeWhile fun srv => srv.sum < r :=
          List.takeWhile_cons_of_pos (decide_eq_true hsum)
        rw [hbefore]
        have hmore : more.takeWhile (fun srv => srv.priority = p) ≠ [] := by
          intro hnil
          rw [hnil] at hle
          exact absurd hle (by simpa using hsum)
        obtain ⟨hlt, hreach, hbelow⟩ := ih (sum + srv.weight) (by omega) hmore
        refine ⟨Nat.succ_lt_succ hlt, ?_, fun k hk => ?_⟩
        · rw [List.length_cons, List.take_succ_cons, List.map_cons, List.sum_cons, ← Nat.add_assoc]
          exact hreach
        · rw [List.take_succ_cons, List.map_cons, List.sum_cons, ← Nat.add_assoc]
          cases k with
          | zero => simpa using hsum
          | succ k => exact hbelow k (Nat.lt_of_succ_lt_succ hk)
      · have hbefore : ({ srv with sum := sum + srv.weight } :: runningSums p (sum + srv.weight) more).takeWhile
            (fun srv => srv.sum < r) = [] := List.takeWhile_cons_of_neg (by simpa using hsum)
        rw [hbefore]
        refine ⟨Nat.succ_pos _, ?_, nofun⟩
        simp only [List.length_nil, List.take_succ_cons, List.take_zero, List.map_cons, List.map_nil, List.sum_cons,
          List.sum_nil]
        omega
    · exact absurd (List.takeWhile_cons_of_neg (by simpa using hp)) hne

theorem unsummed_runningSums (p sum : Nat) (l : List Srv) :
    (runningSums p sum l).map Srv.unsummed = l.map Srv.unsummed := by
  induction l generalizing sum with
  | nil => rfl
  | cons srv more ih =>
    rw [runningSums]
    split
    · rw [List.map_cons, ih]
      rfl
    · rfl

theorem firstReaching_map {group : List Srv} {r j : Nat} (h : FirstReaching group r j) :
    FirstReaching (group.map Srv.unsummed) r j := by
  have hweight : ∀ k, ((group.map Srv.unsummed).take k).map Srv.weight = (group.take k).map Srv.weight := by
    intro k
    rw [← List.map_take, List.map_map]
    rfl
  refine ⟨by rw [List.length_map]; exact h.1, ?_, fun k hk => h.2.2 ?_⟩
  · rw [Set.mem_ofPred_eq, hweight]
    exact h.2.1
  · rw [Set.mem_ofPred_eq, hweight] at hk
    exact hk

theorem swapAt_self (l : List Srv) (i : Nat) : swapAt l i i = l := by
  by_cases hi : i < l.length
  · rw [swapAt_eq hi hi, List.set_set, List.set_getElem_self]
  · rw [swapAt, List.getElem?_eq_none (Nat.le_of_not_lt hi)]

/-- A turn puts one of the remaining entries of the first priority in front, the one that the random number reaches. -/
theorem elect_reaching (rand : Nat → Nat) (l : List Srv) (i : Nat) (hi : i < l.length) :
    ∃ j, FirstReaching ((l.drop i).takeWhile fun srv => srv.priority = l[i].priority)
        (rand i % ((((l.drop i).takeWhile fun srv => srv.priority = l[i].priority).map Srv.weight).sum + 1)) j ∧
      (elect rand l i).map Srv.unsummed = swapAt (l.map Srv.unsummed) i (i + j) := by
  have hsums : (l.take i ++ runningSums l[i].priority 0 (l.drop i)).map Srv.unsummed = l.map Srv.unsummed := by
    rw [List.map_append, unsummed_runningSums, ← List.map_append, List.take_append_drop]
  have hne : (l.drop i).takeWhile (fun srv => srv.priority = l[i].priority) ≠ [] := by
    rw [List.drop_eq_getElem_cons hi, List.takeWhile_cons_of_pos (by simp)]
    exact List.cons_ne_nil _ _
  have hle := Nat.le_of_lt_succ (Nat.mod_lt (rand i)
    (Nat.succ_pos (((l.drop i).takeWhile fun srv => srv.priority = l[i].priority).map Srv.weight).sum))
  rw [elect, List.getElem?_eq_getElem hi]
  dsimp only
  split
  · have hdrop : (l.take i ++ runningSums l[i].priority 0 (l.drop i)).drop i =
        runningSums l[i].priority 0 (l.drop i) := List.drop_left' (List.length_take_of_le hi.le)
    rw [hdrop, map_swapAt, hsums]
    obtain ⟨hlt, hreach, hbelow⟩ := reaching_runningSums l[i].priority
      (rand i % ((((l.drop i).takeWhile fun srv => srv.priority = l[i].priority).map Srv.weight).sum + 1)) 0 (l.drop i)
      (by rw [Nat.zero_add]; exact hle) hne
    refine ⟨_, ⟨hlt, by simpa using hreach, fun k hk => ?_⟩, rfl⟩
    by_contra hlow
    exact absurd hk (Nat.not_le_of_lt (by simpa using hbelow k (Nat.lt_of_not_le hlow)))
  · rename_i hone
    have hlength := List.length_pos_iff.mpr hne
    refine ⟨0, ⟨hlength, ?_, fun k _ => Nat.zero_le k⟩, by rw [hsums, Nat.add_zero, swapAt_self]⟩
    rw [Set.mem_ofPred_eq, List.take_of_length_le (Nat.le_of_not_lt hone)]
    exact hle

/-- What a turn does to the entries in the order of their priorities. -/
structure Turn (random i : Nat) (l l' : List Srv) : Prop where
  length_eq : l'.length = l.length
  priorities : l'.map Srv.priority = l.map Srv.priority
  front : (l'.map Srv.unsummed).take i = (l.map Srv.unsummed).take i
  perm : ((l'.map Srv.unsummed).drop i).Perm ((l.map Srv.unsummed).drop i)
  elected : ∀ srv, (l'.map Srv.unsummed)[i]? = some srv → Elected random ((l.map Srv.unsummed).drop i) srv

theorem priorities_swapAt {l : List Srv} {i j : Nat} (hi : i < l.length) (hj : j < l.length)
    (h : l[j].priority = l[i].priority) : (swapAt l i j).map Srv.priority = l.map Srv.priority := by
  have hset : (l.map Srv.priority).set i l[i].priority = l.map Srv.priority := by
    rw [← List.getElem_map Srv.priority (h := by rw [List.length_map]; exact hi), List.set_getElem_self]
  have hset' : (l.map Srv.priority).set j l[j].priority = l.map Srv.priority := by
    rw [← List.getElem_map Srv.priority (h := by rw [List.length_map]; exact hj), List.set_getElem_self]
  rw [swapAt_eq hi hj, List.map_set, List.map_set, h, hset, ← h, hset']

/-- Among the rest of a list in order, those with the priority of its first entry are the first of them. -/
theorem filter_priority {l : List Srv} {i : Nat} (hi : i < l.length)
    (hsorted : l.Pairwise fun a b => a.priority ≤ b.priority) :
    ((l.map Srv.unsummed).drop i).filter (fun srv => srv.priority = l[i].priority) =
      ((l.drop i).takeWhile fun srv => srv.priority = l[i].priority).map Srv.unsummed := by
  have hrest := hsorted.drop (i := i)
  rw [takeWhile_priority hrest, ← List.map_drop, List.filter_map]
  · rfl
  · rw [List.drop_eq_getElem_cons hi] at hrest ⊢
    intro srv hsrv
    rcases List.mem_cons.mp hsrv with rfl | hsrv
    · exact le_rfl
    · exact (List.pairwise_cons.mp hrest).1 srv hsrv

theorem elect_turn (rand : Nat → Nat) {l : List Srv} {i : Nat} (hi : i < l.length)
    (hsorted : l.Pairwise fun a b => a.priority ≤ b.priority) : Turn (rand i) i l (elect rand l i) := by
  obtain ⟨j, hfirst, helect⟩ := elect_reaching rand l i hi
  have hgroup := List.takeWhile_prefix (fun srv => decide (srv.priority = l[i].priority)) (l := l.drop i)
  have hj : i + j < l.length := by
    have hle := hgroup.length_le
    rw [List.length_drop] at hle
    have hlt := hfirst.1
    omega
  have hget : ((l.drop i).takeWhile fun srv => srv.priority = l[i].priority)[j]? = some l[i + j] := by
    rw [List.getElem?_eq_getElem hfirst.1, hgroup.getElem hfirst.1, List.getElem_drop]
  have hpriority : l[i + j].priority = l[i].priority := by
    have hmem := List.mem_takeWhile_imp (List.mem_of_getElem? hget)
    exact of_decide_eq_true hmem
  have hlength : (l.map Srv.unsummed).length = l.length := List.length_map _
  have hparts : (elect rand l i).map Srv.unsummed =
      (l.map Srv.unsummed).take i ++ swapAt ((l.map Srv.unsummed).drop i) 0 j := by
    have hfront : ((l.map Srv.unsummed).take i).length = i := List.length_take_of_le (by omega)
    have happend := swapAt_append ((l.map Srv.unsummed).take i) ((l.map Srv.unsummed).drop i) 0 j
    rw [List.take_append_drop, hfront, Nat.add_zero] at happend
    rw [helect, happend]
  have htake : ((l.map Srv.unsummed).take i).length = i := List.length_take_of_le (by omega)
  refine ⟨?_, ?_, ?_, ?_, ?_⟩
  · rw [← List.length_map Srv.unsummed, helect, swapAt_length, hlength]
  · have hmap : ∀ l : List Srv, l.map Srv.priority = (l.map Srv.unsummed).map Srv.priority := by
      intro l
      rw [List.map_map]
      rfl
    rw [hmap, helect, priorities_swapAt (by omega) (by omega), ← hmap]
    rw [List.getElem_map, List.getElem_map]
    exact hpriority
  · rw [hparts, List.take_left' htake]
  · rw [hparts, List.drop_left' htake]
    exact swapAt_perm _ _ _
  · intro srv hsrv
    rw [helect, swapAt_first (by omega) (by omega), List.getElem_map] at hsrv
    obtain rfl := Option.some.inj hsrv
    have hp : l[i + j].unsummed.priority = l[i].priority := hpriority
    rw [Elected, hp, filter_priority hi hsorted]
    refine ⟨j, firstReaching_map ?_, by rw [List.getElem?_map, hget, Option.map_some]⟩
    rw [List.map_map]
    exact hfirst

/-! The run of the second pass. -/

theorem beforeTurn_succ (rand : Nat → Nat) (entries : List Srv) (i : Nat) :
    beforeTurn rand entries (i + 1) = elect rand (beforeTurn rand entries i) i := by
  rw [beforeTurn, List.range_succ, List.foldl_append]
  rfl

theorem sorted_of_priorities {l l' : List Srv} (h : l'.map Srv.priority = l.map Srv.priority)
    (hsorted : l.Pairwise fun a b => a.priority ≤ b.priority) : l'.Pairwise fun a b => a.priority ≤ b.priority := by
  have hmap := List.pairwise_map.mpr hsorted
  rw [← h] at hmap
  exact List.pairwise_map.mp hmap

theorem beforeTurn_sorted (rand : Nat → Nat) (entries : List Srv) (i : Nat) (hi : i ≤ entries.length) :
    (beforeTurn rand entries i).length = entries.length ∧
      (beforeTurn rand entries i).Pairwise fun a b => a.priority ≤ b.priority := by
  induction i with
  | zero => exact ⟨(orderByPriority_perm entries).length_eq, orderByPriority_sorted entries⟩
  | succ i ih =>
    obtain ⟨hlength, hsorted⟩ := ih (Nat.le_of_succ_le hi)
    have hturn := elect_turn rand (by rw [hlength]; exact hi) hsorted
    rw [beforeTurn_succ]
    exact ⟨hturn.length_eq.trans hlength, sorted_of_priorities hturn.priorities hsorted⟩

theorem beforeTurn_turn (rand : Nat → Nat) {entries : List Srv} {i : Nat} (hi : i < entries.length) :
    Turn (rand i) i (beforeTurn rand entries i) (beforeTurn rand entries (i + 1)) := by
  obtain ⟨hlength, hsorted⟩ := beforeTurn_sorted rand entries i hi.le
  rw [beforeTurn_succ]
  exact elect_turn rand (by rw [hlength]; exact hi) hsorted

theorem drop_perm {l l' : List Srv} {i k : Nat} (hik : i ≤ k) (htake : l'.take k = l.take k)
    (h : (l'.drop k).Perm (l.drop k)) : (l'.drop i).Perm (l.drop i) := by
  have hsplit : ∀ l : List Srv, l.drop i = (l.take k).drop i ++ l.drop k := by
    intro l
    rw [List.drop_take, ← Nat.add_sub_of_le hik, ← List.drop_drop, Nat.add_sub_cancel_left, List.take_append_drop]
  rw [hsplit l, hsplit l', htake]
  exact h.append_left _

/-- Later turns leave the places that are filled, and what is left at a turn stays behind them. -/
theorem beforeTurn_later (rand : Nat → Nat) {entries : List Srv} {i k : Nat} (hik : i ≤ k) (hk : k ≤ entries.length) :
    ((beforeTurn rand entries k).map Srv.unsummed).take i = ((beforeTurn rand entries i).map Srv.unsummed).take i ∧
      (((beforeTurn rand entries k).map Srv.unsummed).drop i).Perm
        (((beforeTurn rand entries i).map Srv.unsummed).drop i) := by
  induction k, hik using Nat.le_induction with
  | base => exact ⟨rfl, .refl _⟩
  | succ k hik ih =>
    obtain ⟨htake, hperm⟩ := ih (Nat.le_of_succ_le hk)
    have hturn := beforeTurn_turn rand hk
    have hfront := congrArg (List.take i) hturn.front
    rw [List.take_take, List.take_take, Nat.min_eq_left hik] at hfront
    exact ⟨hfront.trans htake, (drop_perm hik hturn.front hturn.perm).trans hperm⟩

theorem orderByWeight_eq (rand : Nat → Nat) (entries : List Srv) :
    orderByWeight rand (orderByPriority entries) = beforeTurn rand entries entries.length := by
  rw [orderByWeight, (orderByPriority_perm entries).length_eq]
  rfl

structure Ordered (rand : Nat → Nat) (entries ordered : List Srv) : Prop where
  perm : (ordered.map Srv.unsummed).Perm (entries.map Srv.unsummed)
  sorted : ordered.Pairwise fun a b => a.priority ≤ b.priority
  elected : ∀ i srv, (ordered.map Srv.unsummed)[i]? = some srv →
    (((beforeTurn rand entries i).drop i).map Srv.unsummed).Perm ((ordered.drop i).map Srv.unsummed) ∧
      Elected (rand i) (((beforeTurn rand entries i).drop i).map Srv.unsummed) srv

theorem ordered_orderByWeight (rand : Nat → Nat) (entries : List Srv) :
    Ordered rand entries (orderByWeight rand (orderByPriority entries)) := by
  rw [orderByWeight_eq]
  obtain ⟨hlength, hsorted⟩ := beforeTurn_sorted rand entries entries.length le_rfl
  refine ⟨?_, hsorted, fun i srv hsrv => ?_⟩
  · have hperm := (beforeTurn_later rand (Nat.zero_le entries.length) le_rfl).2
    rw [List.drop_zero, List.drop_zero] at hperm
    exact hperm.trans ((orderByPriority_perm entries).map _)
  · have hi : i < entries.length := by
      have hlt := (List.getElem?_eq_some_iff.mp hsrv).1
      rw [List.length_map, hlength] at hlt
      exact hlt
    have hperm := (beforeTurn_later rand hi.le le_rfl).2
    have htake := (beforeTurn_later rand (Nat.succ_le_of_lt hi) le_rfl).1
    rw [List.map_drop, List.map_drop]
    refine ⟨hperm.symm, (beforeTurn_turn rand hi).elected srv ?_⟩
    rw [← hsrv, ← List.getElem?_take_of_lt (Nat.lt_succ_self i), ← htake, List.getElem?_take_of_lt (Nat.lt_succ_self i)]

/-! The addresses. -/

def giveRecord (option : Options) (srv : Srv) (rr : Rr) : Srv :=
  if wanted option rr && takesRecord rr srv then { srv with addr := srv.addr ++ [recordAddr srv rr] } else srv

theorem addRecord_targets (option : Options) (l : List Srv × Nat) (rr : Rr) :
    (addRecord option l rr).1 = l.1.map fun srv => giveRecord option srv rr := by
  unfold addRecord giveRecord
  cases wanted option rr with
  | false => exact (List.map_id _).symm
  | true => rfl

theorem addRecords_targets (option : Options) (arr : List Rr) (l : List Srv × Nat) :
    (arr.foldl (addRecord option) l).1 = l.1.map fun srv => arr.foldl (giveRecord option) srv := by
  induction arr generalizing l with
  | nil => exact (List.map_id _).symm
  | cons rr arr ih => rw [List.foldl_cons, ih, addRecord_targets, List.map_map]; rfl

/-- All the additional records give a target the addresses of those with its name, as long as there is room. -/
theorem giveRecords_eq (option : Options) (arr : List Rr) (srv : Srv) (h : srv.addr.length ≤ addrMaxCount) :
    arr.foldl (giveRecord option) srv =
      { srv with addr := (srv.addr ++ namedAddrs option arr srv).take addrMaxCount } := by
  induction arr generalizing srv with
  | nil => rw [namedAddrs, List.filter_nil, List.map_nil, List.append_nil, List.take_of_length_le h]; rfl
  | cons rr arr ih =>
    rw [List.foldl_cons, namedAddrs, List.filter_cons, giveRecord, takesRecord]
    cases hmatch : wanted option rr && sameName rr.name srv.targetName with
    | false =>
      rw [← Bool.and_assoc, hmatch, Bool.false_and, if_neg Bool.noConfusion, if_neg Bool.noConfusion]
      exact ih srv h
    | true =>
      rw [← Bool.and_assoc, hmatch, Bool.true_and, if_pos rfl, List.map_cons]
      by_cases hroom : srv.addr.length < addrMaxCount
      · rw [if_pos (decide_eq_true hroom), ih _ (by rw [List.length_append]; exact hroom), List.append_assoc]
        rfl
      · rw [if_neg (by simpa using hroom), ih srv h]
        have hfull : srv.addr.length = addrMaxCount := Nat.le_antisymm h (Nat.le_of_not_lt hroom)
        rw [List.take_left' hfull, List.take_left' hfull]

theorem addNames_giveRecords (inet : Inet) (option : Options) (arr : List Rr) {srv : Srv} (h : srv.addr = []) :
    (arr.foldl (giveRecord option) srv).addr ++
        (nameAddress inet option (arr.foldl (giveRecord option) srv)).toList =
      addressesFor inet option arr srv := by
  rw [giveRecords_eq option arr srv (by rw [h]; exact Nat.zero_le _), h, List.nil_append, addressesFor]
  by_cases hnone : namedAddrs option arr srv = []
  · rw [if_pos hnone, hnone]
    rfl
  · have hsome : (namedAddrs option arr srv).take addrMaxCount ≠ [] := by
      rw [Ne, List.take_eq_nil_iff]
      exact not_or.mpr ⟨Nat.succ_ne_zero 7, hnone⟩
    rw [if_neg hnone, nameAddress, if_pos hsome]
    exact List.append_nil _

/-! The targets of a response. -/

theorem unsummed_addr {entries ordered : List Srv} (h : (ordered.map Srv.unsummed).Perm (entries.map Srv.unsummed))
    (hblank : ∀ srv ∈ entries, srv.addr = []) : ∀ srv ∈ ordered, srv.addr = [] := by
  intro srv hsrv
  obtain ⟨entry, hentry, heq⟩ := List.mem_map.mp (h.subset (List.mem_map_of_mem hsrv))
  have haddr := congrArg Srv.addr heq
  exact haddr.symm.trans (hblank entry hentry)

theorem answerEntries_plain (ans : List Rr) : ∀ srv ∈ answerEntries ans, srv.addr = [] ∧ srv.unsummed = srv := by
  intro srv hsrv
  obtain ⟨rr, -, rfl⟩ := List.mem_map.mp (List.mem_of_mem_take hsrv)
  exact ⟨rfl, rfl⟩

theorem srv_buildServerEntries (inet : Inet) (rand : Nat → Nat) (job : Job) (response : Packet) :
    (buildServerEntries inet rand job response).srv =
      (orderByWeight rand (orderByPriority (answerEntries response.ans))).map fun srv =>
        { srv with addr := addressesFor inet job.option response.arr srv } := by
  have hblank := unsummed_addr (ordered_orderByWeight rand (answerEntries response.ans)).perm
    fun srv hsrv => (answerEntries_plain response.ans srv hsrv).1
  rw [buildServerEntries]
  dsimp only
  by_cases hnil : answerEntries response.ans = []
  · rw [if_pos hnil, hnil]
    rfl
  · rw [if_neg hnil]
    dsimp only [addNames]
    rw [addRecords_targets, List.map_map]
    refine List.map_congr_left fun srv hsrv => ?_
    rw [Function.comp_apply, addNames_giveRecords inet job.option response.arr (hblank srv hsrv),
      giveRecords_eq job.option response.arr srv (by rw [hblank srv hsrv]; exact Nat.zero_le _)]

/-- What the entries of a job are after a response. -/
structure TargetsOf (inet : Inet) (rand : Nat → Nat) (option : Options) (response : Packet) (built : List Srv) :
    Prop where
  perm : (built.map Srv.plain).Perm (answerEntries response.ans)
  sorted : built.Pairwise fun a b => a.priority ≤ b.priority
  elected : ∀ i srv, built[i]? = some srv →
    (((beforeTurn rand (answerEntries response.ans) i).drop i).map Srv.plain).Perm ((built.drop i).map Srv.plain) ∧
      Elected (rand i) (((beforeTurn rand (answerEntries response.ans) i).drop i).map Srv.plain) srv.plain
  addresses : ∀ srv ∈ built, srv.addr = addressesFor inet option response.arr srv

theorem map_plain_eq {l : List Srv} (h : ∀ srv ∈ l, srv.addr = []) : l.map Srv.plain = l.map Srv.unsummed := by
  refine List.map_congr_left fun srv hsrv => ?_
  rw [Srv.plain, Srv.unsummed, h srv hsrv]

/-- The targets stand in the order of their priorities, those of one priority as the random numbers elect them, and
each has the addresses for its own name. -/
theorem buildServerEntries_targets (inet : Inet) (rand : Nat → Nat) (job : Job) (response : Packet) :
    TargetsOf inet rand job.option response (buildServerEntries inet rand job response).srv := by
  have hplain := answerEntries_plain response.ans
  have hordered := ordered_orderByWeight rand (answerEntries response.ans)
  rw [srv_buildServerEntries]
  generalize orderByWeight rand (orderByPriority (answerEntries response.ans)) = ordered at hordered
  have hblank := unsummed_addr hordered.perm fun srv hsrv => (hplain srv hsrv).1
  have hmap : (ordered.map fun srv => { srv with addr := addressesFor inet job.option response.arr srv }).map Srv.plain =
      ordered.map Srv.unsummed := by
    rw [← map_plain_eq hblank, List.map_map]
    rfl
  have hentries : (answerEntries response.ans).map Srv.unsummed = answerEntries response.ans := by
    rw [List.map_congr_left fun srv hsrv => (hplain srv hsrv).2, List.map_id']
  refine ⟨?_, List.pairwise_map.mpr hordered.sorted, fun i srv hsrv => ?_, fun srv hsrv => ?_⟩
  · rw [hmap, ← hentries]
    exact hordered.perm
  · have hsrv' : (ordered.map Srv.unsummed)[i]? = some srv.plain := by
      rw [← hmap, List.getElem?_map, hsrv, Option.map_some]
    have hi : i ≤ (answerEntries response.ans).length := by
      have hlt := (List.getElem?_eq_some_iff.mp hsrv').1
      have hlength := hordered.perm.length_eq
      rw [List.length_map, List.length_map] at hlength
      rw [List.length_map] at hlt
      omega
    have hbefore : ∀ srv ∈ beforeTurn rand (answerEntries response.ans) i, srv.addr = [] := by
      have hperm := (beforeTurn_later rand (Nat.zero_le i) hi).2
      rw [List.drop_zero, List.drop_zero] at hperm
      exact unsummed_addr (hperm.trans ((orderByPriority_perm _).map _)) fun srv hsrv => (hplain srv hsrv).1
    have hrest := map_plain_eq fun srv hsrv => hbefore srv (List.mem_of_mem_drop (i := i) hsrv)
    rw [hrest, List.map_drop (f := Srv.plain), hmap, ← List.map_drop]
    exact hordered.elected i srv.plain hsrv'
  · obtain ⟨entry, -, rfl⟩ := List.mem_map.mp hsrv
    rfl

/-- One target, and nine additional records with its name. -/
def nineAddresses : Packet :=
  ⟨0, [], [⟨[98], typeSrv, 1, 0, 0, .srv 1 1 5060 [97]⟩], List.replicate 9 ⟨[97], typeA, 1, 0, 4, .a [10, 0, 0, 1]⟩⟩

/-- There is no room for the ninth address. -/
theorem nine_addresses_not_kept :
    ¬∀ srv ∈ (buildServerEntries ⟨fun _ => none, fun _ => none⟩ (fun _ => 0)
        ⟨.srv, .null, none, ⟨false, false, false, false⟩, [], 0, [], 0, 1, false, none⟩ nineAddresses).srv,
      srv.addr = (nineAddresses.arr.filter fun rr => sameName rr.name srv.targetName).map (recordAddr srv) := by
  decide +kernel

end PjProject.SrvResolver
