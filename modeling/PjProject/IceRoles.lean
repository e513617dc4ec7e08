import PjProject.Runs

/-! Role conflicts between two ICE agents (`ice_session.c`). Each agent sends Binding requests that carry
its role and its tie-breaker at the time of sending, and keeps the request of each open STUN transaction.
The network holds every message ever sent: delivering any of them at any time, any number of times or not
at all, covers each order, delay, loss and duplication. -/

namespace PjProject.IceRoles

/-- `pj_ice_sess_role`. -/
inductive Role
  | unknown
  | controlled
  | controlling
  deriving DecidableEq, Repr

/-- `PJ_STUN_ATTR_ICE_CONTROLLING` and `PJ_STUN_ATTR_ICE_CONTROLLED`. -/
inductive RoleAttr
  | iceControlling
  | iceControlled
  deriving DecidableEq, Repr

inductive Party
  | a
  | b
  deriving DecidableEq, Repr

def Party.other : Party → Party
  | .a => .b
  | .b => .a

@[simp] theorem Party.other_other (p : Party) : p.other.other = p := by
  cases p <;> rfl

theorem Party.eq_or (p q : Party) : q = p ∨ q = p.other := by
  cases p <;> cases q <;> decide

theorem Party.other_ne (p : Party) : p.other ≠ p := by
  cases p <;> decide

/-- A request names its sender; a response goes back to the sender of the request with its transaction ID.
`conflict` is an error response with code 487. -/
inductive Message
  | request (src : Party) (tid : Nat) (attr : RoleAttr) (tieBreaker : UInt64)
  | response (dst : Party) (tid : Nat) (conflict : Bool)
  deriving DecidableEq, Repr

/-- The fields of `pj_ice_sess` that the handling of requests and responses reads, with the open client
transactions of its STUN sessions and the role attribute of each one's request. -/
structure IceSess where
  role : Role
  tieBreaker : UInt64
  isComplete : Bool
  isDestroying : Bool
  nextTid : Nat
  pending : List (Nat × RoleAttr)
  deriving DecidableEq, Repr

structure System where
  sess : Party → IceSess
  net : List Message

/-- The attribute that `perform_check` adds. -/
def roleAttr : Role → RoleAttr
  | .controlling => .iceControlling
  | _ => .iceControlled

def changeRole (ice : IceSess) (newRole : Role) : IceSess :=
  if newRole ≠ ice.role then { ice with role := newRole } else ice

/-- `perform_check`: a new transaction and the request on the wire. -/
def performCheck (p : Party) (ice : IceSess) : IceSess × List Message :=
  ({ ice with nextTid := ice.nextTid + 1, pending := (ice.nextTid, roleAttr ice.role) :: ice.pending },
    [.request p ice.nextTid (roleAttr ice.role) ice.tieBreaker])

/-- `on_stun_rx_request` of the peer of `src`. `sent` says whether the success response could be created and
sent. -/
def onStunRxRequest (ice : IceSess) (src : Party) (tid : Nat) (attr : RoleAttr) (value : UInt64) (sent : Bool) :
    IceSess × List Message :=
  let respond (conflict : Bool) : List Message := if sent then [.response src tid conflict] else []
  if ice.isDestroying then (ice, [])
  else if ice.role = .controlling ∧ attr = .iceControlling then
    if ice.tieBreaker < value then (changeRole ice .controlled, respond false)
    else (ice, respond true)
  else if ice.role = .controlled ∧ attr = .iceControlled then
    if ice.tieBreaker < value then (ice, respond true)
    else (changeRole ice .controlling, respond false)
  else (ice, respond false)

/-- `new_role` after a role conflict response. -/
def conflictRole : RoleAttr → Role
  | .iceControlling => .controlled
  | .iceControlled => .controlling

/-- `on_stun_request_complete` for the transaction with this request. `found` says whether the check is
still in the checklist. -/
def onStunRequestComplete (p : Party) (ice : IceSess) (attr : RoleAttr) (conflict found : Bool) :
    IceSess × List Message :=
  if ice.isDestroying then (ice, [])
  else if ice.isComplete then (ice, [])
  else if found = false then (ice, [])
  else if conflict then performCheck p (changeRole ice (conflictRole attr))
  else (ice, [])

inductive Action
  /-- The timer, a triggered check or a nomination starts a check. -/
  | check (p : Party)
  /-- The message with this number arrives. -/
  | deliver (n : Nat) (flag : Bool)
  /-- The STUN session ends a transaction without a response. -/
  | timeout (p : Party) (tid : Nat)
  | complete (p : Party)
  | destroy (p : Party)
  deriving DecidableEq, Repr

/-- The agent `p` moves and sends the messages. -/
def System.move (s : System) (p : Party) (next : IceSess × List Message) : System :=
  ⟨Function.update s.sess p next.1, s.net ++ next.2⟩

def dropTransaction (ice : IceSess) (tid : Nat) : IceSess :=
  { ice with pending := ice.pending.filter (·.1 ≠ tid) }

def receive (s : System) (flag : Bool) : Message → System
  | .request src tid attr value => s.move src.other (onStunRxRequest (s.sess src.other) src tid attr value flag)
  | .response dst tid conflict =>
    match (s.sess dst).pending.find? (·.1 = tid) with
    | none => s
    | some (_, attr) => s.move dst (onStunRequestComplete dst (dropTransaction (s.sess dst) tid) attr conflict flag)

def step (s : System) : Action → Option System
  | .check p => if (s.sess p).isDestroying then none else some (s.move p (performCheck p (s.sess p)))
  | .deliver n flag => s.net[n]?.map (receive s flag)
  | .timeout p tid => some (s.move p (dropTransaction (s.sess p) tid, []))
  | .complete p => some (s.move p ({ s.sess p with isComplete := true }, []))
  | .destroy p => some (s.move p ({ s.sess p with isDestroying := true }, []))

/-- Two sessions as `pj_ice_sess_create` leaves them. -/
def initial (roles : Party → Role) (ties : Party → UInt64) : System :=
  ⟨fun p => ⟨roles p, ties p, false, false, 0, []⟩, []⟩

def Complementary (roles : Party → Role) : Prop :=
  (roles .a = .controlling ∧ roles .b = .controlled) ∨ (roles .a = .controlled ∧ roles .b = .controlling)

theorem Complementary.cases {roles : Party → Role} (h : Complementary roles) (p : Party) :
    (roles p = .controlling ∧ roles p.other = .controlled) ∨
      (roles p = .controlled ∧ roles p.other = .controlling) := by
  cases p with
  | a => exact h
  | b => exact h.symm.imp And.symm And.symm

def System.role (s : System) (p : Party) : Role := (s.sess p).role

/-! What one step can do: an agent `q` moves to `next` and sends `msgs`. -/

/-- Why the role of `q` changes: a request of the peer or a role conflict response. -/
inductive RoleChange (s : System) (q : Party) : Role → Prop
  | controlling {tid : Nat} {value : UInt64} (hrole : s.role q = .controlling)
      (hmem : .request q.other tid .iceControlling value ∈ s.net)
      (htie : (s.sess q).tieBreaker < value) : RoleChange s q .controlled
  | controlled {tid : Nat} {value : UInt64} (hrole : s.role q = .controlled)
      (hmem : .request q.other tid .iceControlled value ∈ s.net)
      (htie : ¬ (s.sess q).tieBreaker < value) : RoleChange s q .controlling
  | response {tid : Nat} {attr : RoleAttr} (hmem : .response q tid true ∈ s.net)
      (hpending : (tid, attr) ∈ (s.sess q).pending) : RoleChange s q (conflictRole attr)

/-- What a role conflict response of `q` answers. -/
inductive Conflict (s : System) (q : Party) (tid : Nat) : Prop
  | controlling {value : UInt64} (hrole : s.role q = .controlling)
      (hmem : .request q.other tid .iceControlling value ∈ s.net) (htie : ¬ (s.sess q).tieBreaker < value)
  | controlled {value : UInt64} (hrole : s.role q = .controlled)
      (hmem : .request q.other tid .iceControlled value ∈ s.net) (htie : (s.sess q).tieBreaker < value)

structure Change (s : System) (q : Party) (next : IceSess) (msgs : List Message) : Prop where
  tie : next.tieBreaker = (s.sess q).tieBreaker
  nextTid : (s.sess q).nextTid ≤ next.nextTid
  pending : ∀ e ∈ next.pending, e ∈ (s.sess q).pending ∨
    (e = ((s.sess q).nextTid, roleAttr next.role) ∧ (s.sess q).nextTid < next.nextTid)
  request : ∀ src tid attr value, .request src tid attr value ∈ msgs →
    src = q ∧ tid = (s.sess q).nextTid ∧ tid < next.nextTid ∧ attr = roleAttr next.role ∧
      value = next.tieBreaker
  response : ∀ dst tid, .response dst tid true ∈ msgs → dst = q.other ∧ Conflict s q tid
  role : next.role = s.role q ∨ RoleChange s q next.role

/-- A move that keeps the role, opens no transaction and sends nothing. -/
theorem Change.silent {s : System} {q : Party} {next : IceSess} (hrole : next.role = s.role q)
    (htie : next.tieBreaker = (s.sess q).tieBreaker) (htid : next.nextTid = (s.sess q).nextTid)
    (hpending : next.pending ⊆ (s.sess q).pending) : Change s q next [] where
  tie := htie
  nextTid := htid ▸ le_rfl
  pending _ he := Or.inl (hpending he)
  request := nofun
  response := nofun
  role := Or.inl hrole

theorem mem_dropTransaction {ice : IceSess} {tid : Nat} : (dropTransaction ice tid).pending ⊆ ice.pending :=
  fun _ he => (List.mem_filter.mp he).1

/-- `perform_check` of an agent that may have changed its role just before. -/
theorem Change.performCheck {s : System} {q : Party} {ice : IceSess}
    (hrole : ice.role = s.role q ∨ RoleChange s q ice.role) (htie : ice.tieBreaker = (s.sess q).tieBreaker)
    (htid : ice.nextTid = (s.sess q).nextTid) (hpending : ice.pending ⊆ (s.sess q).pending) :
    Change s q (performCheck q ice).1 (performCheck q ice).2 where
  tie := htie
  nextTid := htid ▸ Nat.le_succ _
  pending e he := by
    rcases List.mem_cons.mp he with rfl | he
    · exact Or.inr ⟨by rw [← htid]; rfl, htid ▸ Nat.lt_succ_self _⟩
    · exact Or.inl (hpending he)
  request src tid attr value h := by
    obtain ⟨rfl, rfl, rfl, rfl⟩ : src = q ∧ tid = ice.nextTid ∧ attr = roleAttr ice.role ∧ value = ice.tieBreaker := by
      simpa [IceRoles.performCheck] using h
    exact ⟨rfl, htid, Nat.lt_succ_self _, rfl, rfl⟩
  response dst tid h := by simp [IceRoles.performCheck] at h
  role := hrole

theorem changeRole_eq (ice : IceSess) (newRole : Role) : changeRole ice newRole = { ice with role := newRole } := by
  rw [changeRole]
  split
  · rfl
  · rename_i h
    rw [not_not.mp h]

/-- A move that answers the request of the peer. -/
theorem Change.answer {s : System} {q : Party} {next : IceSess} {tid : Nat} {conflict sent : Bool}
    (hrole : next.role = s.role q ∨ RoleChange s q next.role) (htie : next.tieBreaker = (s.sess q).tieBreaker)
    (htid : next.nextTid = (s.sess q).nextTid) (hpending : next.pending = (s.sess q).pending)
    (hconflict : conflict = true → Conflict s q tid) :
    Change s q next (if sent then [.response q.other tid conflict] else []) where
  tie := htie
  nextTid := htid ▸ le_rfl
  pending _ he := Or.inl (hpending ▸ he)
  request src tid' attr value h := by
    split at h
    · simp at h
    · simp at h
  response dst tid' h := by
    split at h
    · obtain ⟨rfl, rfl, hc⟩ : dst = q.other ∧ tid' = tid ∧ true = conflict := by simpa using h
      exact ⟨rfl, hconflict hc.symm⟩
    · simp at h
  role := hrole

theorem Change.onStunRxRequest {s : System} {q : Party} {tid : Nat} {attr : RoleAttr} {value : UInt64}
    (hmem : .request q.other tid attr value ∈ s.net) (sent : Bool) :
    Change s q (onStunRxRequest (s.sess q) q.other tid attr value sent).1
      (onStunRxRequest (s.sess q) q.other tid attr value sent).2 := by
  rw [IceRoles.onStunRxRequest]
  simp only [changeRole_eq]
  split
  · exact .silent rfl rfl rfl (List.Subset.refl _)
  · split
    · rename_i hboth
      obtain ⟨hrole, rfl⟩ := hboth
      split
      · rename_i htie
        exact .answer (Or.inr (.controlling hrole hmem htie)) rfl rfl rfl (by simp)
      · rename_i htie
        exact .answer (Or.inl rfl) rfl rfl rfl fun _ => .controlling hrole hmem htie
    · split
      · rename_i hboth
        obtain ⟨hrole, rfl⟩ := hboth
        split
        · rename_i htie
          exact .answer (Or.inl rfl) rfl rfl rfl fun _ => .controlled hrole hmem htie
        · rename_i htie
          exact .answer (Or.inr (.controlled hrole hmem htie)) rfl rfl rfl (by simp)
      · exact .answer (Or.inl rfl) rfl rfl rfl (by simp)

theorem Change.onStunRequestComplete {s : System} {q : Party} {tid : Nat} {attr : RoleAttr} {conflict : Bool}
    (hmem : .response q tid conflict ∈ s.net) (hpending : (tid, attr) ∈ (s.sess q).pending) (found : Bool) :
    Change s q (onStunRequestComplete q (dropTransaction (s.sess q) tid) attr conflict found).1
      (onStunRequestComplete q (dropTransaction (s.sess q) tid) attr conflict found).2 := by
  have hsilent : Change s q (dropTransaction (s.sess q) tid) [] := .silent rfl rfl rfl mem_dropTransaction
  rw [IceRoles.onStunRequestComplete]
  split
  · exact hsilent
  · split
    · exact hsilent
    · split
      · exact hsilent
      · split
        · rename_i hconflict
          subst hconflict
          rw [changeRole_eq]
          exact .performCheck (Or.inr (.response hmem hpending)) rfl rfl mem_dropTransaction
        · exact hsilent

/-- Every step is such a move, or a response without a transaction, which is dropped. -/
theorem step_change {s t : System} {act : Action} (h : step s act = some t) :
    t = s ∨ ∃ q next msgs, t = s.move q (next, msgs) ∧ Change s q next msgs := by
  cases act with
  | check p =>
    simp only [step] at h
    split at h
    · cases h
    · exact Or.inr ⟨p, _, _, (Option.some.inj h).symm,
        .performCheck (Or.inl rfl) rfl rfl (List.Subset.refl _)⟩
  | deliver n flag =>
    obtain ⟨m, hm, rfl⟩ := Option.map_eq_some_iff.mp h
    have hmem := List.mem_of_getElem? hm
    cases m with
    | request src tid attr value =>
      have hsrc : .request src.other.other tid attr value ∈ s.net := by rwa [Party.other_other]
      have hchange := Change.onStunRxRequest hsrc flag
      rw [Party.other_other] at hchange
      exact Or.inr ⟨src.other, _, _, rfl, hchange⟩
    | response dst tid conflict =>
      simp only [receive]
      split
      · exact Or.inl rfl
      · rename_i i attr hfind
        obtain rfl : i = tid := by simpa using List.find?_some hfind
        exact Or.inr ⟨dst, _, _, rfl, .onStunRequestComplete hmem (List.mem_of_find?_eq_some hfind) flag⟩
  | timeout p tid => exact Or.inr ⟨p, _, _, (Option.some.inj h).symm, .silent rfl rfl rfl mem_dropTransaction⟩
  | complete p => exact Or.inr ⟨p, _, _, (Option.some.inj h).symm, .silent rfl rfl rfl (List.Subset.refl _)⟩
  | destroy p => exact Or.inr ⟨p, _, _, (Option.some.inj h).symm, .silent rfl rfl rfl (List.Subset.refl _)⟩

/-! The invariant, for `p` the agent with the larger tie-breaker. -/

/-- The role that the conflict resolution gives to `q`. -/
def settled (p q : Party) : Role := if q = p then .controlling else .controlled

/-- Every request in the network carries the role that its sender still has, and nobody was told of a
conflict. -/
structure Quiet (s : System) : Prop where
  request : ∀ src tid attr value, .request src tid attr value ∈ s.net → attr = roleAttr (s.role src)
  response : ∀ q tid, .response q tid true ∉ s.net

structure Inv (p : Party) (s : System) : Prop where
  ties : (s.sess p.other).tieBreaker < (s.sess p).tieBreaker
  value : ∀ src tid attr value, .request src tid attr value ∈ s.net → value = (s.sess src).tieBreaker
  fresh : ∀ src tid attr value, .request src tid attr value ∈ s.net → tid < (s.sess src).nextTid
  opened : ∀ q tid attr, (tid, attr) ∈ (s.sess q).pending → tid < (s.sess q).nextTid
  agree : ∀ src tid attr value, .request src tid attr value ∈ s.net →
    ∀ attr', (tid, attr') ∈ (s.sess src).pending → attr' = attr
  told : ∀ q tid, .response q tid true ∈ s.net → tid < (s.sess q).nextTid ∧
    ∀ attr, (tid, attr) ∈ (s.sess q).pending → conflictRole attr = settled p q
  quiet : s.role p = .controlled → s.role p.other = .controlling → Quiet s

theorem inv_initial {p : Party} {roles : Party → Role} {ties : Party → UInt64} (h : ties p.other < ties p) :
    Inv p (initial roles ties) where
  ties := h
  value := nofun
  fresh := nofun
  opened := nofun
  agree := nofun
  told := nofun
  quiet _ _ := ⟨nofun, fun _ _ => List.not_mem_nil⟩

section Step

variable {p q : Party} {s : System} {next : IceSess} {msgs : List Message}

@[simp] theorem move_sess_self : (s.move q (next, msgs)).sess q = next := Function.update_self ..

@[simp] theorem move_sess_other : (s.move q (next, msgs)).sess q.other = s.sess q.other :=
  Function.update_of_ne q.other_ne ..

theorem mem_move_net {m : Message} (h : m ∈ (s.move q (next, msgs)).net) : m ∈ s.net ∨ m ∈ msgs :=
  List.mem_append.mp h

theorem lt_other_iff (hs : Inv p s) : (s.sess q).tieBreaker < (s.sess q.other).tieBreaker ↔ q = p.other := by
  have hp : ¬ (s.sess p).tieBreaker < (s.sess p.other).tieBreaker := UInt64.not_lt.mpr (UInt64.le_of_lt hs.ties)
  rcases p.eq_or q with rfl | rfl
  · exact ⟨fun h => absurd h hp, fun h => absurd h.symm q.other_ne⟩
  · rw [Party.other_other]
    exact ⟨fun _ => rfl, fun _ => hs.ties⟩

theorem Conflict.settled {tid : Nat} (hs : Inv p s) (h : Conflict s q tid) :
    ∃ attr value, .request q.other tid attr value ∈ s.net ∧ conflictRole attr = settled p q.other := by
  cases h with
  | @controlling value hrole hmem htie =>
    rw [hs.value _ _ _ _ hmem, lt_other_iff hs] at htie
    obtain rfl : q = p := (p.eq_or q).resolve_right htie
    exact ⟨_, _, hmem, (if_neg q.other_ne).symm⟩
  | @controlled value hrole hmem htie =>
    rw [hs.value _ _ _ _ hmem, lt_other_iff hs] at htie
    subst htie
    exact ⟨_, _, hmem, by rw [Party.other_other]; exact (if_pos rfl).symm⟩

/-- The larger tie-breaker only becomes controlling and the other one only controlled. -/
theorem RoleChange.settled {r : Role} (hs : Inv p s) (h : RoleChange s q r) : r = settled p q := by
  cases h with
  | controlling hrole hmem htie =>
    rw [hs.value _ _ _ _ hmem, lt_other_iff hs] at htie
    subst htie
    exact (if_neg p.other_ne).symm
  | controlled hrole hmem htie =>
    rw [hs.value _ _ _ _ hmem, lt_other_iff hs] at htie
    exact (if_pos ((p.eq_or q).resolve_right htie)).symm
  | response hmem hpending => exact (hs.told _ _ hmem).2 _ hpending

theorem role_move (hs : Inv p s) (hc : Change s q next msgs) (r : Party) :
    (s.move q (next, msgs)).role r = s.role r ∨ (s.move q (next, msgs)).role r = settled p r := by
  rcases q.eq_or r with rfl | rfl
  · rw [System.role, move_sess_self]
    exact hc.role.imp_right fun h => h.settled hs
  · rw [System.role, move_sess_other]
    exact Or.inl rfl

theorem settled_self : settled p p = .controlling := if_pos rfl

theorem settled_other : settled p p.other = .controlled := if_neg p.other_ne

/-- Agents that start opposed and quiet see no conflict. -/
theorem Quiet.not_roleChange {r : Role} (hquiet : Quiet s)
    (hdiff : roleAttr (s.role q.other) ≠ roleAttr (s.role q)) : ¬ RoleChange s q r := by
  intro h
  cases h with
  | controlling hrole hmem htie =>
    rw [hrole] at hdiff
    exact hdiff (hquiet.request _ _ _ _ hmem).symm
  | controlled hrole hmem htie =>
    rw [hrole] at hdiff
    exact hdiff (hquiet.request _ _ _ _ hmem).symm
  | response hmem hpending => exact hquiet.response _ _ hmem

theorem Quiet.not_conflict {tid : Nat} (hquiet : Quiet s)
    (hdiff : roleAttr (s.role q.other) ≠ roleAttr (s.role q)) : ¬ Conflict s q tid := by
  intro h
  cases h with
  | controlling hrole hmem htie =>
    rw [hrole] at hdiff
    exact hdiff (hquiet.request _ _ _ _ hmem).symm
  | controlled hrole hmem htie =>
    rw [hrole] at hdiff
    exact hdiff (hquiet.request _ _ _ _ hmem).symm

theorem roleAttr_ne (hp : s.role p = .controlled) (hother : s.role p.other = .controlling) :
    roleAttr (s.role q.other) ≠ roleAttr (s.role q) := by
  rcases p.eq_or q with rfl | rfl
  · rw [hp, hother]
    decide
  · rw [Party.other_other, hp, hother]
    decide

theorem role_move_sess (r : Party) (hsame : next.role = s.role q) : (s.move q (next, msgs)).role r = s.role r := by
  rcases q.eq_or r with rfl | rfl
  · rw [System.role, move_sess_self, hsame]
  · rw [System.role, move_sess_other, System.role]

theorem Quiet.move (hquiet : Quiet s) (hdiff : roleAttr (s.role q.other) ≠ roleAttr (s.role q))
    (hc : Change s q next msgs) : Quiet (s.move q (next, msgs)) := by
  have hsame : next.role = s.role q := hc.role.resolve_right (hquiet.not_roleChange hdiff)
  constructor
  · intro src tid attr value hmem
    rw [role_move_sess src hsame]
    rcases mem_move_net hmem with h | h
    · exact hquiet.request _ _ _ _ h
    · obtain ⟨rfl, -, -, rfl, -⟩ := hc.request _ _ _ _ h
      rw [hsame]
  · intro dst tid hmem
    rcases mem_move_net hmem with h | h
    · exact hquiet.response _ _ h
    · exact hquiet.not_conflict hdiff (hc.response _ _ h).2

theorem inv_move (hs : Inv p s) (hc : Change s q next msgs) : Inv p (s.move q (next, msgs)) := by
  have htie : ∀ r, ((s.move q (next, msgs)).sess r).tieBreaker = (s.sess r).tieBreaker := by
    intro r
    rcases q.eq_or r with rfl | rfl
    · rw [move_sess_self, hc.tie]
    · rw [move_sess_other]
  have hnext : ∀ r, (s.sess r).nextTid ≤ ((s.move q (next, msgs)).sess r).nextTid := by
    intro r
    rcases q.eq_or r with rfl | rfl
    · rw [move_sess_self]
      exact hc.nextTid
    · rw [move_sess_other]
  -- A transaction whose number was in use before is an old one.
  have hold : ∀ r tid attr, (tid, attr) ∈ ((s.move q (next, msgs)).sess r).pending → tid < (s.sess r).nextTid →
      (tid, attr) ∈ (s.sess r).pending := by
    intro r tid attr hmem hlt
    rcases q.eq_or r with rfl | rfl
    · rw [move_sess_self] at hmem
      rcases hc.pending _ hmem with h | ⟨h, -⟩
      · exact h
      · exact absurd (Prod.mk.inj h).1 (Nat.ne_of_lt hlt)
    · rwa [move_sess_other] at hmem
  constructor
  · rw [htie, htie]
    exact hs.ties
  · intro src tid attr value hmem
    rw [htie]
    rcases mem_move_net hmem with h | h
    · exact hs.value _ _ _ _ h
    · obtain ⟨rfl, -, -, -, rfl⟩ := hc.request _ _ _ _ h
      exact hc.tie
  · intro src tid attr value hmem
    rcases mem_move_net hmem with h | h
    · exact Nat.lt_of_lt_of_le (hs.fresh _ _ _ _ h) (hnext src)
    · obtain ⟨rfl, -, hlt, -, -⟩ := hc.request _ _ _ _ h
      rwa [move_sess_self]
  · intro r tid attr hmem
    rcases q.eq_or r with rfl | rfl
    · rw [move_sess_self] at hmem ⊢
      rcases hc.pending _ hmem with h | ⟨h, hlt⟩
      · exact Nat.lt_of_lt_of_le (hs.opened _ _ _ h) hc.nextTid
      · rwa [(Prod.mk.inj h).1]
    · rw [move_sess_other] at hmem ⊢
      exact hs.opened _ _ _ hmem
  · intro src tid attr value hmem attr' hpending
    rcases mem_move_net hmem with h | h
    · exact hs.agree _ _ _ _ h _ (hold _ _ _ hpending (hs.fresh _ _ _ _ h))
    · obtain ⟨rfl, rfl, -, rfl, -⟩ := hc.request _ _ _ _ h
      rw [move_sess_self] at hpending
      rcases hc.pending _ hpending with hin | ⟨hnew, -⟩
      · exact absurd (hs.opened _ _ _ hin) (Nat.lt_irrefl _)
      · exact (Prod.mk.inj hnew).2
  · intro r tid hmem
    rcases mem_move_net hmem with h | h
    · obtain ⟨hlt, htold⟩ := hs.told _ _ h
      exact ⟨Nat.lt_of_lt_of_le hlt (hnext r), fun attr hpending => htold _ (hold _ _ _ hpending hlt)⟩
    · obtain ⟨rfl, hconflict⟩ := hc.response _ _ h
      obtain ⟨attr, value, hreq, hrole⟩ := hconflict.settled hs
      rw [move_sess_other]
      refine ⟨hs.fresh _ _ _ _ hreq, fun attr' hpending => ?_⟩
      rw [hs.agree _ _ _ _ hreq _ hpending, hrole]
  · intro hp hother
    have hp' : s.role p = .controlled := by
      rcases role_move hs hc p with h | h
      · rw [← h, hp]
      · rw [settled_self, hp] at h
        cases h
    have hother' : s.role p.other = .controlling := by
      rcases role_move hs hc p.other with h | h
      · rw [← h, hother]
      · rw [settled_other, hother] at h
        cases h
    exact (hs.quiet hp' hother').move (roleAttr_ne hp' hother') hc

theorem inv_step {t : System} {act : Action} (hs : Inv p s) (h : step s act = some t) : Inv p t := by
  rcases step_change h with rfl | ⟨q, next, msgs, rfl, hc⟩
  · exact hs
  · exact inv_move hs hc

theorem role_step {t : System} {act : Action} (hs : Inv p s) (h : step s act = some t) (r : Party) :
    t.role r = s.role r ∨ t.role r = settled p r := by
  rcases step_change h with rfl | ⟨q, next, msgs, rfl, hc⟩
  · exact Or.inl rfl
  · exact role_move hs hc r

/-- Roles that are complementary stay as they are: settled ones by `role_step`, the others because the
system is quiet. -/
theorem role_step_of_complementary {t : System} {act : Action} (hs : Inv p s) (hcomp : Complementary s.role)
    (h : step s act = some t) (r : Party) : t.role r = s.role r := by
  rcases hcomp.cases p with ⟨hp, hother⟩ | ⟨hp, hother⟩
  · have hsettled : s.role r = settled p r := by
      rcases p.eq_or r with rfl | rfl
      · rw [hp, settled_self]
      · rw [hother, settled_other]
    rcases role_step hs h r with hr | hr
    · exact hr
    · rw [hr, hsettled]
  · rcases step_change h with rfl | ⟨q, next, msgs, rfl, hc⟩
    · rfl
    · have hdiff : roleAttr (s.role q.other) ≠ roleAttr (s.role q) := roleAttr_ne hp hother
      exact role_move_sess r (hc.role.resolve_right ((hs.quiet hp hother).not_roleChange hdiff))

end Step

theorem role_run_of_complementary {p : Party} {s u : System} {acts : List Action} (hs : Inv p s)
    (hcomp : Complementary s.role) (hrun : exec step s acts = some u) (r : Party) : u.role r = s.role r := by
  have hall : Inv p u ∧ u.role = s.role := by
    refine exec_invariant (P := fun u => Inv p u ∧ u.role = s.role) ?_ ⟨hs, rfl⟩ hrun
    rintro v act t ⟨hv, hrole⟩ hstep
    refine ⟨inv_step hv hstep, ?_⟩
    funext r
    rw [role_step_of_complementary hv (hrole ▸ hcomp) hstep, hrole]
  rw [hall.2]

theorem role_run {p : Party} {s u : System} {acts : List Action} (hs : Inv p s)
    (hrun : exec step s acts = some u) : Inv p u ∧ ∀ r, u.role r = s.role r ∨ u.role r = settled p r := by
  refine exec_invariant (P := fun u => Inv p u ∧ ∀ r, u.role r = s.role r ∨ u.role r = settled p r) ?_
    ⟨hs, fun r => Or.inl rfl⟩ hrun
  rintro v act t ⟨hv, hrole⟩ hstep
  refine ⟨inv_step hv hstep, fun r => ?_⟩
  rcases role_step hv hstep r with h | h
  · rw [h]
    exact hrole r
  · exact Or.inr h

def larger (ties : Party → UInt64) : Party := if ties .b < ties .a then .a else .b

theorem larger_spec {ties : Party → UInt64} (h : ties .a ≠ ties .b) :
    ties (larger ties).other < ties (larger ties) := by
  rw [larger]
  split
  · assumption
  · rename_i hnot
    exact UInt64.lt_of_le_of_ne (UInt64.not_lt.mp hnot) h

/-- Two agents with distinct tie-breakers, in every run from any pair of roles. -/
theorem role_conflict_resolution (roles : Party → Role) (ties : Party → UInt64) (hne : ties .a ≠ ties .b)
    (acts : List Action) (s : System) (hrun : exec step (initial roles ties) acts = some s) :
    (roles .a = roles .b →
      (∀ r, s.role r = roles r ∨ s.role r = settled (larger ties) r) ∧
      ¬ (s.role (larger ties) = .controlled ∧ s.role (larger ties).other = .controlling)) ∧
    (∀ act t, step s act = some t → ∀ r, t.role r = s.role r ∨ t.role r = settled (larger ties) r) ∧
    (Complementary roles → ∀ r, s.role r = roles r) ∧
    (Complementary s.role → ∀ more u, exec step s more = some u → ∀ r, u.role r = s.role r) := by
  have hinit : Inv (larger ties) (initial roles ties) := inv_initial (larger_spec hne)
  obtain ⟨hinv, hroles⟩ := role_run hinit hrun
  refine ⟨fun heq => ⟨hroles, ?_⟩, fun act t hstep => role_step hinv hstep,
    fun hcomp => role_run_of_complementary hinit hcomp hrun,
    fun hcomp more u hmore => role_run_of_complementary hinv hcomp hmore⟩
  rintro ⟨hp, hother⟩
  have hstart : roles (larger ties) = .controlled := by
    rcases hroles (larger ties) with h | h
    · exact h.symm.trans hp
    · rw [hp, settled_self] at h
      cases h
  have hstart' : roles (larger ties).other = .controlling := by
    rcases hroles (larger ties).other with h | h
    · exact h.symm.trans hother
    · rw [hother, settled_other] at h
      cases h
  have hsame : ∀ p : Party, roles p = roles p.other := by
    intro p
    cases p with
    | a => exact heq
    | b => exact heq.symm
  rw [hsame, hstart'] at hstart
  cases hstart

def sampleTies : Party → UInt64
  | .a => 7
  | .b => 3

/-- Both agents start controlling. `b` is told of the conflict and takes the other role, and the request
that `a` sent before arrives late. -/
def sampleRun : List Action := [.check .a, .check .b, .deliver 1 true, .deliver 2 true, .deliver 0 true]

theorem role_conflict_sample :
    ∃ s, exec step (initial (fun _ => .controlling) sampleTies) sampleRun = some s ∧
      s.role .a = .controlling ∧ s.role .b = .controlled ∧
      ∀ more u, exec step s more = some u → ∀ r, u.role r = s.role r :=
  ⟨_, rfl, by decide, by decide,
    (role_conflict_resolution (fun _ => .controlling) sampleTies (by decide) sampleRun _ rfl).2.2.2
      (Or.inl ⟨by decide, by decide⟩)⟩

end PjProject.IceRoles
