import PjProject.SipTransactionStates

/-! The workers that run a SIP transaction. A worker looks at a timer or at the state before it takes the lock, and it
releases the lock while it tells the user of a state that the timeout timer or a failed send has led to; other workers run
in between. Each state that is set is at least the one before, and the last two are set once, as long as the report of a
send and a posted error of the transport do not come too late. -/

namespace PjProject.SipTransaction

/-- What a worker that does not have the lock has still to do: to handle a timer that it has taken from the heap, to
report a send or its failure, to finish a state of which the user has been told, to handle a posted error of the transport,
to start the last timer after it, and to post a failed send. -/
inductive Work
  | expired (entry : TimerEntry)
  | sent (tdata : Tdata) (tp : Transport)
  | notSent (tdata : Tdata) (failure : Failure)
  | stateSet (state : State)
  | errorPosted (disc : Bool)
  | errorTold
  | sendFailed (error : Errno)
  deriving DecidableEq, Repr

/-- The transaction with the work that is left to do. -/
structure Shared where
  tsx : Tsx
  work : List Work

/-- `tsx_timer_callback` until it takes the lock. -/
def popTimer (tsx : Tsx) : TimerEntry → Tsx × List Work
  | .retransmit => ({ tsx with retransmitTimer := none }, if tsx.state = .destroyed then [] else [.expired .retransmit])
  | .timeout =>
    ({ tsx with timeoutTimer := none },
      if tsx.state = .destroyed then []
      else
        match tsx.timeoutTimer with
        | some (.transportErr, _) => if tsx.state.rank < State.terminated.rank then [.errorPosted false] else []
        | some (.transportDisc, _) => if tsx.state.rank < State.terminated.rank then [.errorPosted true] else []
        | _ => [.expired .timeout])

/-- The state that the handlers set for the timeout timer, and the transaction when they set it. -/
def timedOut (tsx : Tsx) : Option (Tsx × State) :=
  match tsx.role, tsx.state with
  | .uac, .calling =>
    some (({ tsx.cancelRetransmit with pendingResched := false } : Tsx).setStatusCode scTimeout, .terminated)
  | _, .proceeding => some (tsx.setStatusCode scTimeout, .terminated)
  | .uac, .completed => some (tsx, .terminated)
  | .uas, .completed => some (if tsx.method = .invite then tsx.setStatusCode scTimeout else tsx, .terminated)
  | _, .confirmed => some (tsx, .terminated)
  | _, .terminated => some (tsx, .destroyed)
  | _, _ => none

/-- `send_msg_callback` terminates the transaction for a failure, and releases the lock. -/
def Tsx.terminatesFor (tsx : Tsx) (failure : Failure) : Bool :=
  decide (tsx.pendingTx ≠ none ∧ (failure.cont = false ∨ tsx.pendingDestroy ∨ failure.error = .ecancelled) ∧
    (tsx.role = .uac ∨ failureCode failure.error = scBadGateway) ∧ tsx.state ≠ .terminated ∧ tsx.state ≠ .destroyed)

/-- The transaction when it does so. -/
def failedSend (tsx : Tsx) (failure : Failure) : Tsx :=
  ({ if failure.curTransport = tsx.transport.map Transport.id then updateTransport tsx none else tsx with
    pendingTx := none, transportErr := some failure.error, pendingTransport := false, resolvedServer := true } :
      Tsx).setStatusCode (failureCode failure.error)

/-- What an action does until the lock is released, and the work that is left. -/
def start (cfg : Cfg) (tsx : Tsx) : Action → Option (Tsx × List Work)
  | .timer entry _ => some (popTimer tsx entry)
  -- `send_msg_callback` looks whether its message is still wanted before it takes the lock.
  | .sent tp _ => some (tsx, tsx.pendingTx.toList.map fun tdata => .sent tdata tp)
  | .sendFailed failure => some (tsx, tsx.pendingTx.toList.map fun tdata => .notSent tdata failure)
  | .transportCallback (some error) inputs =>
    if tsx.role = .uac then
      some ({ tsx with pendingTransport := false, tpPending := tsx.tpPending - 1 }, [.sendFailed error])
    else (act cfg tsx (.transportCallback (some error) inputs)).map fun tsx => (tsx, [])
  | a => (act cfg tsx a).map fun tsx => (tsx, [])

/-- The transaction when `send_msg_callback`, which found its message wanted, has the lock. -/
def Tsx.reporting (tsx : Tsx) (tdata : Tdata) : Tsx := { tsx with pendingTx := some tdata }

/-- What is done for the work when the lock is there again, and the work that is left. -/
def proceed (cfg : Cfg) (inputs : Inputs) (tsx : Tsx) : Work → Option (Tsx × List Work)
  | .expired .retransmit => (dispatch cfg inputs tsx (.timer .retransmit)).map fun tsx => (tsx, [])
  | .expired .timeout =>
    match timedOut tsx with
    | some (tsx, state) => some (beginState tsx state, [.stateSet state])
    | none => (dispatch cfg inputs tsx (.timer .timeout)).map fun tsx => (tsx, [])
  | .sent tdata tp => some (sendMsgSent cfg (sendMsg cfg inputs.sends) (tsx.reporting tdata) tp, [])
  | .notSent tdata failure =>
    let tsx := tsx.reporting tdata
    some (if tsx.terminatesFor failure then (beginState (failedSend tsx failure) .terminated, [.stateSet .terminated])
      else (sendMsgFailed cfg tsx failure, []))
  | .stateSet state => some (finishState tsx state true, [])
  | .errorPosted disc => some (onPostedError tsx disc, if tsx.goesOn disc then [] else [.errorTold])
  | .errorTold => some (tsx.scheduleTimeout .timeout 0, [])
  | .sendFailed error => some (postError tsx (some error), [])

inductive Move
  | event (a : Action)
  | resume (w : Work) (inputs : Inputs)

/-- There is no transaction any more when a handler was `NULL`. -/
def move (cfg : Cfg) (s : Option Shared) (m : Move) : Option (Option Shared) :=
  s.bind fun s =>
    match m with
    | .event a =>
      if enabled s.tsx a then some ((start cfg s.tsx a).map fun r => ⟨r.1, r.2 ++ s.work⟩) else none
    | .resume w inputs =>
      if w ∈ s.work then some ((proceed cfg inputs s.tsx w).map fun r => ⟨r.1, r.2 ++ s.work.erase w⟩) else none

/-! The parts of a state that is set make up what the handlers and the callback do at once. -/

theorem dispatch_timeout (cfg : Cfg) (inputs : Inputs) {tsx u : Tsx} {state : State} (h : timedOut tsx = some (u, state)) :
    dispatch cfg inputs tsx (.timer .timeout) = some (setState u state true) := by
  unfold timedOut at h
  unfold dispatch
  cases hrole : tsx.role <;> cases hstate : tsx.state <;> rw [hrole, hstate] at h <;> cases h <;> rfl

theorem sendMsgFailed_eq (cfg : Cfg) {tsx : Tsx} {failure : Failure} (h : tsx.terminatesFor failure = true) :
    sendMsgFailed cfg tsx failure = setState (failedSend tsx failure) .terminated true := by
  obtain ⟨hpending, hlast, hcode, hterminated, hdestroyed⟩ := of_decide_eq_true h
  unfold sendMsgFailed failedSend giveUp
  rw [if_neg hpending]
  dsimp only
  by_cases hsame : failure.curTransport = tsx.transport.map Transport.id
  · have hlast' : failure.cont = false ∨ (updateTransport tsx none).pendingDestroy ∨ failure.error = .ecancelled := hlast
    rw [if_pos hsame, if_pos hlast']
    exact if_pos ⟨hcode, hterminated, hdestroyed⟩
  · rw [if_neg hsame, if_pos hlast]
    exact if_pos ⟨hcode, hterminated, hdestroyed⟩

/-! What does not concern the states. -/

/-- The role, the states and the registration are as they were. -/
def Same (tsx u : Tsx) : Prop :=
  u.role = tsx.role ∧ u.state = tsx.state ∧ u.trace = tsx.trace ∧ u.registered = tsx.registered

theorem Same.refl (tsx : Tsx) : Same tsx tsx := ⟨rfl, rfl, rfl, rfl⟩

theorem Same.trans {tsx u v : Tsx} (h : Same tsx u) (h' : Same u v) : Same tsx v :=
  ⟨h'.1.trans h.1, h'.2.1.trans h.2.1, h'.2.2.1.trans h.2.2.1, h'.2.2.2.trans h.2.2.2⟩

theorem Same.ite {p : Prop} [Decidable p] {tsx a b : Tsx} (ha : Same tsx a) (hb : Same tsx b) :
    Same tsx (if p then a else b) := by
  split
  · exact ha
  · exact hb

theorem Kept.same {tsx u : Tsx} (h : Kept tsx u) : Same tsx u := ⟨h.role_eq, h.state_eq, h.trace_eq, h.registered_eq⟩

theorem same_finishTerminated (tsx : Tsx) (schedule : Bool) : Same tsx (finishState tsx .terminated schedule) := by
  have hcleared : Same tsx
      (if tsx.pendingTransport then { tsx with pendingTx := none, pendingTransport := false } else tsx) :=
    .ite ⟨rfl, rfl, rfl, rfl⟩ (.refl tsx)
  exact hcleared.trans (.ite ⟨rfl, rfl, rfl, rfl⟩ ⟨rfl, rfl, rfl, rfl⟩)

theorem same_reschedRetransmission (cfg : Cfg) (tsx : Tsx) : Same tsx (reschedRetransmission cfg tsx) := by
  obtain ⟨timer, heq⟩ := reschedRetransmission_eq cfg tsx
  rw [heq]
  exact .refl tsx

/-- Nothing waits for the send that is reported. -/
theorem same_flushPending (cfg : Cfg) (again : Tsx → Tdata → Tsx × Status) {tsx : Tsx} (hsend : tsx.pendingSend = false)
    (hdestroy : tsx.pendingDestroy = false) : Same tsx (flushPending cfg again tsx) := by
  unfold flushPending
  rw [hdestroy, hsend, if_neg Bool.false_ne_true, if_neg Bool.false_ne_true]
  obtain ⟨resched, timer, heq, -⟩ := reschedPending_eq cfg tsx
  rw [heq]
  exact ⟨rfl, rfl, rfl, rfl⟩

theorem same_sendMsgSent (cfg : Cfg) (again : Tsx → Tdata → Tsx × Status) {tsx : Tsx} (tp : Transport)
    (hidle : tsx.pendingTx ≠ none → tsx.pendingSend = false ∧ tsx.pendingDestroy = false) :
    Same tsx (sendMsgSent cfg again tsx tp) := by
  unfold sendMsgSent
  split
  · exact .refl tsx
  · rename_i hpending
    obtain ⟨hsend, hdestroy⟩ := hidle hpending
    have hkept := kept_updateTransport { tsx with pendingTx := none } (some tp)
    have hframe := updateTransport_frame { tsx with pendingTx := none } (some tp)
    dsimp only
    split
    · exact hkept.same.trans
        (same_flushPending cfg again (hframe.2.1.trans hsend) (hkept.destroy_eq.trans hdestroy))
    · exact same_flushPending cfg again hsend hdestroy

/-! Reports that come late. -/

/-- The transaction has been terminated, and waits for a send: to send another message, or to be destroyed. -/
def Tsx.Waits (tsx : Tsx) : Prop :=
  State.terminated.rank ≤ tsx.state.rank ∧ (tsx.pendingSend ∨ tsx.pendingDestroy)

instance (tsx : Tsx) : Decidable tsx.Waits := inferInstanceAs (Decidable (_ ∧ _))

/-- A callback of the transport goes on with the transaction, which waits for it. -/
def ReportsLate (tsx : Tsx) : Action → Prop
  | .transportCallback error _ => (error = none ∨ tsx.role = .uas) ∧ tsx.Waits
  | _ => False

/-- A worker reports a send to a transaction that waits for it, or its failure to one that is to be destroyed then, or
handles an error of the transport by which a transaction is terminated that has been terminated. -/
def ResumesLate (tsx : Tsx) : Work → Prop
  | .sent _ _ => tsx.Waits
  | .notSent _ _ => State.terminated.rank ≤ tsx.state.rank ∧ tsx.pendingDestroy
  | .errorPosted disc => State.terminated.rank ≤ tsx.state.rank ∧ tsx.goesOn disc = false
  | _ => False

instance (tsx : Tsx) : (a : Action) → Decidable (ReportsLate tsx a)
  | .transportCallback _ _ => inferInstanceAs (Decidable (_ ∧ _))
  | .sendMsg _ _ | .recvMsg _ _ | .timer _ _ | .sent _ _ | .sendFailed _ | .disconnected _ | .terminate _ | .setTimeout _
  | .stopRetransmit => inferInstanceAs (Decidable False)

instance (tsx : Tsx) : (w : Work) → Decidable (ResumesLate tsx w)
  | .sent _ _ => inferInstanceAs (Decidable tsx.Waits)
  | .notSent _ _ | .errorPosted _ => inferInstanceAs (Decidable (_ ∧ _))
  | .expired _ | .stateSet _ | .errorTold | .sendFailed _ => inferInstanceAs (Decidable False)

def InTime : Option Shared → Move → Prop
  | some s, .event a => ¬ReportsLate s.tsx a
  | some s, .resume w _ => ¬ResumesLate s.tsx w
  | none, _ => True

instance : (s : Option Shared) → (m : Move) → Decidable (InTime s m)
  | some _, .event _ | some _, .resume _ _ => inferInstanceAs (Decidable (¬_))
  | none, _ => inferInstanceAs (Decidable True)

/-- A transaction that has been terminated ignores messages. -/
theorem dispatch_late (cfg : Cfg) (inputs : Inputs) {tsx : Tsx} (hlate : State.terminated.rank ≤ tsx.state.rank)
    {event : Event} (hevent : ∀ entry, event ≠ .timer entry) : dispatch cfg inputs tsx event = some tsx := by
  unfold dispatch
  cases hstate : tsx.state with
  | terminated =>
    cases event with
    | timer entry => exact absurd rfl (hevent entry)
    | _ => cases tsx.role <;> rfl
  | destroyed => cases tsx.role <;> rfl
  | _ =>
    rw [hstate] at hlate
    exact absurd hlate (by decide)

theorem idle_of_not_late {tsx : Tsx} (h : ¬(tsx.pendingSend = true ∨ tsx.pendingDestroy = true)) :
    tsx.pendingSend = false ∧ tsx.pendingDestroy = false :=
  ⟨Bool.eq_false_iff.mpr fun hsend => h (.inl hsend), Bool.eq_false_iff.mpr fun hdestroy => h (.inr hdestroy)⟩

theorem same_sendMsgFailed (cfg : Cfg) {tsx : Tsx} (hlate : State.terminated.rank ≤ tsx.state.rank) (failure : Failure)
    (hidle : tsx.pendingTx ≠ none → tsx.pendingDestroy = false) : Same tsx (sendMsgFailed cfg tsx failure) := by
  have hover : ¬(tsx.state ≠ .terminated ∧ tsx.state ≠ .destroyed) := fun hand =>
    absurd (rank_lt_terminated hand.1 hand.2) (Nat.not_lt.mpr hlate)
  unfold sendMsgFailed
  split
  · exact .refl tsx
  · rename_i hpending
    have hdestroy := hidle hpending
    have hrelease : Kept tsx
        (if failure.curTransport = tsx.transport.map Transport.id then updateTransport tsx none else tsx) := by
      split
      · exact kept_updateTransport tsx none
      · exact .refl tsx
    dsimp only
    generalize (if failure.curTransport = tsx.transport.map Transport.id then updateTransport tsx none else tsx) = u
      at hrelease
    refine hrelease.same.trans (.ite ?_ (.ite ⟨rfl, rfl, rfl, rfl⟩ ⟨rfl, rfl, rfl, rfl⟩))
    unfold giveUp
    rw [if_neg, if_neg]
    · refine .ite (.trans ?_ (same_reschedRetransmission cfg _)) ⟨rfl, rfl, rfl, rfl⟩
      exact ⟨rfl, rfl, rfl, rfl⟩
    · exact fun hwaiting => absurd ((hrelease.destroy_eq.trans hdestroy).symm.trans hwaiting) Bool.false_ne_true
    · rintro ⟨-, hterminated, hdestroyed⟩
      exact hover (hrelease.state_eq ▸ ⟨hterminated, hdestroyed⟩)

/-- The actions that take the lock at once. -/
def Action.Locks : Action → Prop
  | .timer _ _ | .sent _ _ | .sendFailed _ => False
  | _ => True

theorem act_late (cfg : Cfg) {tsx : Tsx} (hlate : State.terminated.rank ≤ tsx.state.rank) {a : Action} (hlocks : a.Locks)
    (hreport : ¬ReportsLate tsx a) : ∃ u, act cfg tsx a = some u ∧ Same tsx u := by
  cases a with
  | sendMsg tdata inputs =>
    unfold act
    dsimp only
    split
    · exact ⟨tsx, rfl, .refl tsx⟩
    · exact ⟨tsx, dispatch_late cfg inputs hlate fun _ => Event.noConfusion, .refl tsx⟩
  | recvMsg msg inputs => exact ⟨tsx, dispatch_late cfg inputs hlate fun _ => Event.noConfusion, .refl tsx⟩
  | timer | sent | sendFailed => exact hlocks.elim
  | transportCallback error inputs =>
    refine ⟨_, rfl, ?_⟩
    unfold transportCallbackImpl onTransportSend
    split
    · rename_i hflush
      obtain ⟨hsend, hdestroy⟩ := idle_of_not_late fun hor => hreport ⟨hflush, hlate, hor⟩
      have hback : Same tsx { tsx with pendingTransport := false, tpPending := tsx.tpPending - 1 } := .refl tsx
      exact hback.trans (same_flushPending cfg _ hsend hdestroy)
    · exact .ite ⟨rfl, rfl, rfl, rfl⟩ ⟨rfl, rfl, rfl, rfl⟩
  | disconnected status => exact ⟨_, rfl, (kept_tpStateCallback tsx status).same⟩
  | terminate code =>
    refine ⟨tsx, congrArg some (if_neg fun hand => ?_), .refl tsx⟩
    exact absurd hand.2 (Nat.not_lt.mpr hlate)
  | setTimeout millisec => exact ⟨_, rfl, .ite (.ite (.refl tsx) ⟨rfl, rfl, rfl, rfl⟩) (.refl tsx)⟩
  | stopRetransmit => exact ⟨_, rfl, .ite ⟨rfl, rfl, rfl, rfl⟩ (.refl tsx)⟩

/-! The invariant. -/

/-- The states so far are in order, there is a handler for the current one, and the transaction is registered until the
last of them has been finished. A state that is to be finished is one of the last two, and it has been set. -/
structure InOrder (s : Shared) : Prop where
  links : s.tsx.state.rank < State.terminated.rank → Links s.tsx
  path : Path .null s.tsx.trace s.tsx.state
  handled : (stateHandler s.tsx.role s.tsx.state).isSome = true
  registered_iff : s.tsx.registered = true ↔ s.tsx.state ≠ .destroyed ∨ .stateSet .destroyed ∈ s.work
  setting : ∀ state, .stateSet state ∈ s.work →
    State.terminated.rank ≤ state.rank ∧ state.rank ≤ s.tsx.state.rank
  once : s.work.count (.stateSet .destroyed) ≤ 1

theorem InOrder.not_setting {s : Shared} (h : InOrder s) (hrank : s.tsx.state.rank < State.terminated.rank)
    (state : State) : .stateSet state ∉ s.work := fun hmem =>
  absurd hrank (Nat.not_lt.mpr (le_trans (h.setting state hmem).1 (h.setting state hmem).2))

theorem InOrder.forward {s : Shared} (h : InOrder s) (hrank : s.tsx.state.rank < State.terminated.rank) :
    Forward s.tsx := by
  refine ⟨h.links hrank, h.path, ?_, h.handled⟩
  rw [decide_eq_true (not_destroyed hrank)]
  exact h.registered_iff.mpr (.inl (not_destroyed hrank))

theorem not_mem_append {new work : List Work} {w : Work} (hnew : w ∉ new) : w ∈ new ++ work ↔ w ∈ work := by
  rw [List.mem_append]
  exact or_iff_right hnew

theorem InOrder.same {s : Shared} (h : InOrder s) (u : Tsx) (hsame : Same s.tsx u)
    (hlinks : u.state.rank < State.terminated.rank → Links u) {new : List Work} (hnew : ∀ state, .stateSet state ∉ new) :
    InOrder ⟨u, new ++ s.work⟩ := by
  obtain ⟨hrole, hstate, htrace, hregistered⟩ := hsame
  refine ⟨hlinks, ?_, ?_, ?_, fun state hmem => ?_, ?_⟩
  · rw [htrace, hstate]
    exact h.path
  · rw [hrole, hstate]
    exact h.handled
  · rw [hregistered, hstate, not_mem_append (hnew _)]
    exact h.registered_iff
  · rw [hstate]
    exact h.setting state ((not_mem_append (hnew state)).mp hmem)
  · rw [List.count_append, List.count_eq_zero.mpr (hnew _), Nat.zero_add]
    exact h.once

theorem InOrder.perm {s : Shared} (h : InOrder s) {work : List Work} (hperm : s.work.Perm work) :
    InOrder ⟨s.tsx, work⟩ := by
  refine ⟨h.links, h.path, h.handled, ?_, fun state hmem => h.setting state (hperm.mem_iff.mpr hmem), ?_⟩
  · rw [← hperm.mem_iff]
    exact h.registered_iff
  · rw [← hperm.count_eq]
    exact h.once

theorem InOrder.drop {tsx : Tsx} {w : Work} {work : List Work} (h : InOrder ⟨tsx, w :: work⟩)
    (hw : w ≠ .stateSet .destroyed) : InOrder ⟨tsx, work⟩ := by
  refine ⟨h.links, h.path, h.handled, ?_, fun state hmem => h.setting state (List.mem_cons_of_mem w hmem), ?_⟩
  · refine h.registered_iff.trans (or_congr_right ?_)
    rw [List.mem_cons]
    exact or_iff_right hw.symm
  · have honce := h.once
    rw [List.count_cons_of_ne hw] at honce
    exact honce

theorem InOrder.told {tsx u : Tsx} {work : List Work} (h : InOrder ⟨tsx, .stateSet .terminated :: work⟩)
    (hsame : Same tsx u) : InOrder ⟨u, work⟩ := by
  refine (h.drop (by decide)).same u hsame (fun hearly => ?_) fun _ => List.not_mem_nil
  rw [hsame.2.1] at hearly
  exact absurd (h.setting _ List.mem_cons_self).2 (Nat.not_le.mpr hearly)

/-- What happens to a transaction that has not been terminated. -/
theorem InOrder.next {s : Shared} (h : InOrder s) (hrank : s.tsx.state.rank < State.terminated.rank) {u : Tsx}
    (hforward : Forward u) {new : List Work} (hnew : ∀ state, .stateSet state ∉ new) : InOrder ⟨u, new ++ s.work⟩ := by
  have hnone : ∀ state, .stateSet state ∉ new ++ s.work := fun state hmem =>
    h.not_setting hrank state ((not_mem_append (hnew state)).mp hmem)
  refine ⟨fun _ => hforward.links, hforward.path, hforward.handled, ?_, fun state hmem => absurd hmem (hnone state), ?_⟩
  · rw [hforward.registered_eq, decide_eq_true_iff]
    exact (or_iff_left (hnone _)).symm
  · rw [List.count_eq_zero.mpr (hnone _)]
    exact Nat.zero_le 1

/-- What moves a transaction on before it is terminated, and leaves the states alone afterwards. -/
theorem InOrder.result {s : Shared} (h : InOrder s) {u : Tsx}
    (hearly : s.tsx.state.rank < State.terminated.rank → Forward u)
    (hlate : State.terminated.rank ≤ s.tsx.state.rank → Same s.tsx u) : InOrder ⟨u, s.work⟩ := by
  rcases Nat.lt_or_ge s.tsx.state.rank State.terminated.rank with hrank | hrank
  · exact h.next hrank (hearly hrank) fun _ => List.not_mem_nil
  · have hsame := hlate hrank
    refine h.same u hsame (fun hlow => absurd hrank (Nat.not_le.mpr ?_)) fun _ => List.not_mem_nil
    rw [← hsame.2.1]
    exact hlow

/-- The user is told that the transaction is terminated. -/
theorem InOrder.terminating {s : Shared} (h : InOrder s) (hrank : s.tsx.state.rank < State.terminated.rank) {u : Tsx}
    (hsame : Same s.tsx u) : InOrder ⟨beginState u .terminated, .stateSet .terminated :: s.work⟩ := by
  obtain ⟨hrole, hstate, htrace, hregistered⟩ := hsame
  refine ⟨fun hlate => absurd hlate (Nat.lt_irrefl _), ?_, ?_, ?_, fun state hmem => ?_, ?_⟩
  · show Path .null (u.trace ++ [.terminated]) .terminated
    rw [htrace]
    refine h.path.snoc ⟨Nat.le_of_lt hrank, fun hsame => absurd hsame (not_terminated hrank)⟩
  · show (stateHandler u.role .terminated).isSome = true
    cases u.role <;> rfl
  · refine iff_of_true (hregistered.trans (h.registered_iff.mpr (.inl (not_destroyed hrank)))) (.inl State.noConfusion)
  · rcases List.mem_cons.mp hmem with heq | hmem
    · rw [Work.stateSet.inj heq]
      exact ⟨Nat.le_refl _, Nat.le_refl _⟩
    · exact absurd hmem (h.not_setting hrank state)
  · rw [List.count_cons_of_ne (by decide), List.count_eq_zero.mpr (h.not_setting hrank _)]
    exact Nat.zero_le 1

/-- The user is told that the transaction is destroyed. -/
theorem InOrder.destroying {s : Shared} (h : InOrder s) (hstate : s.tsx.state = .terminated) :
    InOrder ⟨beginState s.tsx .destroyed, .stateSet .destroyed :: s.work⟩ := by
  have hnone : .stateSet .destroyed ∉ s.work := fun hmem => by
    have hle := (h.setting _ hmem).2
    rw [hstate] at hle
    exact absurd hle (by decide)
  refine ⟨fun hearly => ?_, ?_, ?_, ?_, fun state hmem => ?_, ?_⟩
  · exact absurd hearly (show ¬State.destroyed.rank < State.terminated.rank by decide)
  · refine h.path.snoc ⟨?_, fun hsame => ?_⟩
    · rw [hstate]
      decide
    · exact absurd (hstate.symm.trans hsame) State.noConfusion
  · show (stateHandler s.tsx.role .destroyed).isSome = true
    cases s.tsx.role <;> rfl
  · refine iff_of_true (h.registered_iff.mpr (.inl ?_)) (.inr List.mem_cons_self)
    rw [hstate]
    exact State.noConfusion
  · rcases List.mem_cons.mp hmem with heq | hmem
    · rw [Work.stateSet.inj heq]
      exact ⟨show State.terminated.rank ≤ State.destroyed.rank by decide, Nat.le_refl _⟩
    · refine ⟨(h.setting state hmem).1, le_trans (h.setting state hmem).2 ?_⟩
      rw [hstate]
      exact (by decide : State.terminated.rank ≤ State.destroyed.rank)
  · rw [List.count_cons_self, List.count_eq_zero.mpr hnone]

/-- The transaction leaves the table. -/
theorem InOrder.destroyed {tsx : Tsx} {work : List Work} (h : InOrder ⟨tsx, .stateSet .destroyed :: work⟩) :
    InOrder ⟨finishState tsx .destroyed true, work⟩ := by
  have hset : tsx.state = .destroyed := by
    have hle := (h.setting _ List.mem_cons_self).2
    cases hstate : tsx.state with
    | destroyed => rfl
    | _ =>
      rw [hstate] at hle
      exact absurd hle (by decide)
  have hnone : .stateSet .destroyed ∉ work := by
    have honce := h.once
    rw [List.count_cons_self] at honce
    exact List.count_eq_zero.mp (Nat.le_zero.mp (Nat.le_of_succ_le_succ honce))
  have hgone : finishState tsx .destroyed true = { finishState tsx .destroyed true with
      role := tsx.role, state := tsx.state, trace := tsx.trace, registered := false } := by
    unfold finishState shutdown
    dsimp only [updateTransport, Tsx.cancelTimeout, Tsx.cancelRetransmit]
    split
    · rfl
    · rfl
  rw [hgone]
  refine ⟨fun hearly => ?_, h.path, h.handled, iff_of_false Bool.false_ne_true ?_, fun state hmem => ?_, ?_⟩
  · have hearly : tsx.state.rank < State.terminated.rank := hearly
    rw [hset] at hearly
    exact absurd hearly (by decide)
  · exact fun hor => hor.elim (fun hne => hne hset) hnone
  · exact h.setting state (List.mem_cons_of_mem _ hmem)
  · rw [List.count_eq_zero.mpr hnone]
    exact Nat.zero_le 1

/-! The moves. -/

theorem InOrder.act {s : Shared} (h : InOrder s) (cfg : Cfg) {a : Action} (henabled : enabled s.tsx a = true)
    (hlocks : a.Locks) (hreport : ¬ReportsLate s.tsx a) :
    ∃ r, (SipTransaction.act cfg s.tsx a).map (fun tsx => (tsx, ([] : List Work))) = some r ∧
      InOrder ⟨r.1, r.2 ++ s.work⟩ := by
  by_cases hrank : s.tsx.state.rank < State.terminated.rank
  · obtain ⟨u, hact, hforward⟩ := (h.forward hrank).act hrank cfg henabled
    exact ⟨(u, []), congrArg (Option.map _) hact, h.next hrank hforward fun _ => List.not_mem_nil⟩
  · obtain ⟨u, hact, hsame⟩ := act_late cfg (Nat.not_lt.mp hrank) hlocks hreport
    refine ⟨(u, []), congrArg (Option.map _) hact, h.same u hsame (fun hearly => absurd ?_ hrank) fun _ => List.not_mem_nil⟩
    rw [← hsame.2.1]
    exact hearly

theorem InOrder.popTimer {s : Shared} (h : InOrder s) (entry : TimerEntry) :
    InOrder ⟨(popTimer s.tsx entry).1, (popTimer s.tsx entry).2 ++ s.work⟩ := by
  have hnew : ∀ state, .stateSet state ∉ (SipTransaction.popTimer s.tsx entry).2 := by
    intro state
    cases entry with
    | retransmit =>
      unfold SipTransaction.popTimer
      dsimp only
      split <;> simp
    | timeout =>
      unfold SipTransaction.popTimer
      dsimp only
      split
      · simp
      · split
        · split <;> simp
        · split <;> simp
        · simp
  cases entry with
  | retransmit => exact h.same { s.tsx with retransmitTimer := none } ⟨rfl, rfl, rfl, rfl⟩ h.links hnew
  | timeout => exact h.same { s.tsx with timeoutTimer := none } ⟨rfl, rfl, rfl, rfl⟩ h.links hnew

/-- **An event**: it begins in order. -/
theorem InOrder.start {s : Shared} (h : InOrder s) (cfg : Cfg) {a : Action} (henabled : enabled s.tsx a = true)
    (hreport : ¬ReportsLate s.tsx a) : ∃ r, start cfg s.tsx a = some r ∧ InOrder ⟨r.1, r.2 ++ s.work⟩ := by
  cases a with
  | timer entry inputs => exact ⟨_, rfl, h.popTimer entry⟩
  | sent tp inputs => exact ⟨_, rfl, h.same s.tsx (.refl _) h.links (by simp)⟩
  | sendFailed failure => exact ⟨_, rfl, h.same s.tsx (.refl _) h.links (by simp)⟩
  | transportCallback error inputs =>
    cases error with
    | none => exact h.act cfg henabled trivial hreport
    | some error =>
      by_cases hrole : s.tsx.role = .uac
      · refine ⟨_, if_pos hrole, h.same _ ?_ (fun hearly => ?_) (by simp)⟩
        · exact ⟨rfl, rfl, rfl, rfl⟩
        · exact ((h.forward hearly).back (of_decide_eq_true henabled)).links
      · obtain ⟨r, hr, hafter⟩ := h.act cfg henabled trivial hreport
        exact ⟨r, (if_neg hrole).trans hr, hafter⟩
  | _ => exact h.act cfg henabled trivial hreport

theorem timedOut_cases {tsx u : Tsx} {state : State} (h : timedOut tsx = some (u, state)) :
    (state = .terminated ∧ tsx.state.rank < State.terminated.rank ∧ Same tsx u) ∨
      (state = .destroyed ∧ tsx.state = .terminated ∧ u = tsx) := by
  unfold timedOut at h
  cases hrole : tsx.role <;> cases hstate : tsx.state <;> rw [hrole, hstate] at h <;> cases h <;> first
    | exact .inr ⟨rfl, rfl, rfl⟩
    | exact .inl ⟨rfl, by decide, .refl tsx⟩
    | exact .inl ⟨rfl, by decide, .ite (.refl tsx) (.refl tsx)⟩

theorem InOrder.expired {s : Shared} (h : InOrder s) (cfg : Cfg) (inputs : Inputs) (entry : TimerEntry) :
    ∃ r, proceed cfg inputs s.tsx (.expired entry) = some r ∧ InOrder ⟨r.1, r.2 ++ s.work⟩ := by
  have hdispatch : timedOut s.tsx = none ∨ entry = .retransmit →
      ∃ r, (dispatch cfg inputs s.tsx (.timer entry)).map (fun tsx => (tsx, ([] : List Work))) = some r ∧
        InOrder ⟨r.1, r.2 ++ s.work⟩ := by
    intro hwhole
    by_cases hrank : s.tsx.state.rank < State.terminated.rank
    · obtain ⟨u, hu, hforward⟩ := (h.forward hrank).dispatch hrank cfg inputs (.timer entry)
      exact ⟨(u, []), congrArg (Option.map _) hu, h.next hrank hforward fun _ => List.not_mem_nil⟩
    · cases hstate : s.tsx.state with
      | terminated =>
        have hdestroy : dispatch cfg inputs s.tsx (.timer entry) = some (setState s.tsx .destroyed true) := by
          unfold dispatch
          rw [hstate]
          cases s.tsx.role <;> rfl
        exact ⟨(setState s.tsx .destroyed true, []), congrArg (Option.map _) hdestroy, (h.destroying hstate).destroyed⟩
      | destroyed =>
        have hignored : dispatch cfg inputs s.tsx (.timer entry) = some s.tsx := by
          unfold dispatch
          rw [hstate]
          cases s.tsx.role <;> rfl
        exact ⟨(s.tsx, []), congrArg (Option.map _) hignored, h⟩
      | _ =>
        rw [hstate] at hrank
        exact absurd (by decide) hrank
  cases entry with
  | retransmit => exact hdispatch (.inr rfl)
  | timeout =>
    cases htimed : timedOut s.tsx with
    | none =>
      obtain ⟨r, hr, hafter⟩ := hdispatch (.inl htimed)
      refine ⟨r, ?_, hafter⟩
      rw [proceed, htimed]
      exact hr
    | some r =>
      refine ⟨(beginState r.1 r.2, [.stateSet r.2]), by rw [proceed, htimed], ?_⟩
      rcases timedOut_cases htimed with ⟨hstate, hrank, hsame⟩ | ⟨hstate, hlate, hsame⟩
      · rw [hstate]
        exact h.terminating hrank hsame
      · rw [hstate, hsame]
        exact h.destroying hlate

theorem InOrder.errorPosted {s : Shared} (h : InOrder s) {disc : Bool}
    (hintime : s.tsx.state.rank < State.terminated.rank ∨ s.tsx.goesOn disc = true) :
    InOrder ⟨onPostedError s.tsx disc, (if s.tsx.goesOn disc then [] else [.errorTold]) ++ s.work⟩ := by
  have hgoes : (updateTransport s.tsx none).goesOn disc = s.tsx.goesOn disc := rfl
  unfold onPostedError
  dsimp only
  rw [hgoes]
  by_cases hgoesOn : s.tsx.goesOn disc = true
  · rw [if_pos hgoesOn, if_pos hgoesOn]
    refine h.same _ ?_ (fun hearly => ?_) fun _ => List.not_mem_nil
    · exact ⟨rfl, rfl, rfl, rfl⟩
    · exact ((h.forward hearly).goOn hgoesOn).links
  · rw [if_neg hgoesOn, if_neg hgoesOn]
    have hsame : Same s.tsx (if (updateTransport s.tsx none).statusCode < 200 then
        (updateTransport s.tsx none).setStatusCode scTransportError else updateTransport s.tsx none) :=
      .ite ⟨rfl, rfl, rfl, rfl⟩ ⟨rfl, rfl, rfl, rfl⟩
    have hterminated := (h.terminating (hintime.resolve_right hgoesOn) hsame).told (same_finishTerminated _ false)
    exact hterminated.same _ (.refl _) hterminated.links (by simp)

theorem InOrder.sent {s : Shared} (h : InOrder s) (cfg : Cfg) (inputs : Inputs) (tdata : Tdata) (tp : Transport)
    (hintime : ¬s.tsx.Waits) :
    InOrder ⟨sendMsgSent cfg (sendMsg cfg inputs.sends) (s.tsx.reporting tdata) tp, s.work⟩ := by
  refine h.result (fun hrank => ?_) fun hlate => ?_
  · have hwanted : Forward (s.tsx.reporting tdata) := (h.forward hrank).update rfl
    obtain ⟨u, hact, hforward⟩ : ∃ u, SipTransaction.act cfg _ (.sent tp inputs) = some u ∧ Forward u :=
      hwanted.act hrank cfg rfl
    rw [Option.some.inj hact]
    exact hforward
  · have hwanted : Same s.tsx (s.tsx.reporting tdata) := .refl s.tsx
    exact hwanted.trans (same_sendMsgSent cfg _ tp fun _ => idle_of_not_late fun hor => hintime ⟨hlate, hor⟩)

theorem InOrder.notSent {s : Shared} (h : InOrder s) (cfg : Cfg) (inputs : Inputs) (tdata : Tdata) (failure : Failure)
    (hintime : ¬(State.terminated.rank ≤ s.tsx.state.rank ∧ s.tsx.pendingDestroy = true)) :
    ∃ r, proceed cfg inputs s.tsx (.notSent tdata failure) = some r ∧ InOrder ⟨r.1, r.2 ++ s.work⟩ := by
  have hwanted : Same s.tsx (s.tsx.reporting tdata) := .refl s.tsx
  refine ⟨_, rfl, ?_⟩
  by_cases hterminates : (s.tsx.reporting tdata).terminatesFor failure = true
  · rw [if_pos hterminates]
    obtain ⟨-, -, -, hterminated, hdestroyed⟩ := of_decide_eq_true hterminates
    refine h.terminating (rank_lt_terminated hterminated hdestroyed) (hwanted.trans ?_)
    unfold failedSend
    split
    · exact ⟨rfl, rfl, rfl, rfl⟩
    · exact ⟨rfl, rfl, rfl, rfl⟩
  · rw [if_neg hterminates]
    refine h.result (fun hrank => ?_) fun hlate => hwanted.trans ?_
    · have hforward : Forward (s.tsx.reporting tdata) := (h.forward hrank).update rfl
      obtain ⟨u, hact, hnext⟩ : ∃ u, SipTransaction.act cfg _ (.sendFailed failure) = some u ∧ Forward u :=
        hforward.act hrank cfg rfl
      rw [Option.some.inj hact]
      exact hnext
    · have hover : State.terminated.rank ≤ (s.tsx.reporting tdata).state.rank := hlate
      exact same_sendMsgFailed cfg hover failure fun _ => Bool.eq_false_iff.mpr fun hdestroy => hintime ⟨hlate, hdestroy⟩

/-- **A worker goes on**, in time. -/
theorem InOrder.proceed {s : Shared} (h : InOrder s) (cfg : Cfg) {w : Work} (hw : w ∈ s.work) (inputs : Inputs)
    (hintime : InTime (some s) (.resume w inputs)) :
    ∃ r, proceed cfg inputs s.tsx w = some r ∧ InOrder ⟨r.1, r.2 ++ s.work.erase w⟩ := by
  have hperm : InOrder ⟨s.tsx, w :: s.work.erase w⟩ := h.perm (List.perm_cons_erase hw)
  cases w with
  | expired entry => exact (hperm.drop Work.noConfusion).expired cfg inputs entry
  | sent tdata tp => exact ⟨_, rfl, (hperm.drop Work.noConfusion).sent cfg inputs tdata tp hintime⟩
  | notSent tdata failure => exact (hperm.drop Work.noConfusion).notSent cfg inputs tdata failure hintime
  | errorPosted disc =>
    refine ⟨_, rfl, (hperm.drop Work.noConfusion).errorPosted ?_⟩
    rcases Nat.lt_or_ge s.tsx.state.rank State.terminated.rank with hrank | hlate
    · exact .inl hrank
    · exact .inr (Bool.not_eq_false _ ▸ fun hends => hintime ⟨hlate, hends⟩)
  | errorTold =>
    have hleft := hperm.drop Work.noConfusion
    exact ⟨_, rfl, hleft.same (s.tsx.scheduleTimeout .timeout 0) ⟨rfl, rfl, rfl, rfl⟩ hleft.links
      fun _ => List.not_mem_nil⟩
  | sendFailed error =>
    have hleft := hperm.drop Work.noConfusion
    refine ⟨_, rfl, hleft.same _ (.ite ?_ ?_) (fun hearly => ?_) fun _ => List.not_mem_nil⟩
    · exact ⟨rfl, rfl, rfl, rfl⟩
    · exact ⟨rfl, rfl, rfl, rfl⟩
    · have hcore : (postError s.tsx (some error)).core = s.tsx.core := core_ite rfl rfl
      refine links_of_core (h.links ?_) hcore
      rw [← core_state hcore]
      exact hearly
  | stateSet state =>
    refine ⟨_, rfl, ?_⟩
    cases state with
    | terminated => exact hperm.told (same_finishTerminated _ true)
    | destroyed => exact hperm.destroyed
    | _ => exact absurd (h.setting _ hw).1 (by decide)

/-- A transaction that has been created and registered. -/
def Created (tsx : Tsx) : Prop :=
  (∃ method tdata reliable, tsx = createUac method tdata reliable) ∨
    ∃ method transport reliable handle200resp, tsx = createUas method transport reliable handle200resp

theorem Created.inOrder {tsx : Tsx} (h : Created tsx) : InOrder ⟨tsx, []⟩ := by
  have hstart : Forward tsx ∧ tsx.state = .null := by
    rcases h with ⟨method, tdata, reliable, rfl⟩ | ⟨method, transport, reliable, handle200resp, rfl⟩
    · exact ⟨createUac_forward method tdata reliable, rfl⟩
    · refine ⟨createUas_forward method transport reliable handle200resp, ?_⟩
      cases transport with
      | none => rfl
      | some tp => exact (kept_updateTransport _ (some tp)).state_eq
  obtain ⟨hforward, hstate⟩ := hstart
  refine ⟨fun _ => hforward.links, hforward.path, hforward.handled, ?_, fun _ hmem => absurd hmem List.not_mem_nil,
    Nat.zero_le 1⟩
  rw [hforward.registered_eq, decide_eq_true_iff]
  exact (or_iff_left List.not_mem_nil).symm

/-- **The order of the states**: in a run of the workers in which no report of a send and no posted error comes too late,
no handler is missing, each state that is set is at least the one before, the last two are set at most once, and the
transaction is registered until the last one has been finished. -/
theorem states_only_forward (cfg : Cfg) {tsx : Tsx} (hcreated : Created tsx) {moves : List Move} {s : Option Shared}
    (hintime : Meets (move cfg) InTime (some ⟨tsx, []⟩) moves)
    (hrun : exec (move cfg) (some ⟨tsx, []⟩) moves = some s) :
    ∃ t, s = some t ∧ (State.null :: t.tsx.trace).getLast? = some t.tsx.state ∧
      (State.null :: t.tsx.trace).Pairwise (fun a b => a.rank ≤ b.rank) ∧ t.tsx.trace.count .terminated ≤ 1 ∧
      t.tsx.trace.count .destroyed ≤ 1 ∧
      (t.tsx.registered = true ↔ t.tsx.state ≠ .destroyed ∨ .stateSet .destroyed ∈ t.work) := by
  have hstep : ∀ (s : Option Shared) (m : Move) (t : Option Shared), (∃ u, s = some u ∧ InOrder u) → InTime s m →
      move cfg s m = some t → ∃ u, t = some u ∧ InOrder u := by
    rintro s m t ⟨u, rfl, hu⟩ hin hmove
    cases m with
    | event a =>
      obtain ⟨henabled, hmove⟩ := Option.ite_none_right_eq_some.mp hmove
      obtain ⟨r, hr, hafter⟩ := hu.start cfg henabled hin
      rw [hr] at hmove
      exact ⟨_, (Option.some.inj hmove).symm, hafter⟩
    | resume w inputs =>
      obtain ⟨hw, hmove⟩ := Option.ite_none_right_eq_some.mp hmove
      obtain ⟨r, hr, hafter⟩ := hu.proceed cfg hw inputs hin
      rw [hr] at hmove
      exact ⟨_, (Option.some.inj hmove).symm, hafter⟩
  obtain ⟨t, rfl, h⟩ := exec_invariant_of_meets hstep ⟨_, rfl, hcreated.inOrder⟩ hintime hrun
  exact ⟨t, rfl, h.path.getLast, h.path.sorted, h.path.count_le_one (by decide), h.path.count_le_one (by decide),
    h.registered_iff⟩

/-- Timer D runs down while the INVITE is refused once more, and then the timer for the end. -/
def inviteEnded : List Move :=
  inviteRefused.map .event ++
    [.event (.timer .timeout (withAck [])), .resume (.expired .timeout) (withAck []),
      .event (.recvMsg (.response 486 .invite) (withAck [])), .resume (.stateSet .terminated) (withAck []),
      .event (.timer .timeout (withAck [])), .resume (.expired .timeout) (withAck []),
      .resume (.stateSet .destroyed) (withAck [])]

theorem states_only_forward_invite :
    ∃ t, exec (move rfcCfg) (some ⟨inviteUac, []⟩) inviteEnded = some (some t) ∧
      t.tsx.trace = [.calling, .completed, .terminated, .destroyed] ∧ t.tsx.trace.count .terminated ≤ 1 ∧
      (t.tsx.registered = true ↔ t.tsx.state ≠ .destroyed ∨ .stateSet .destroyed ∈ t.work) := by
  have hrun : ∃ s, exec (move rfcCfg) (some ⟨inviteUac, []⟩) inviteEnded = some s ∧
      s.map (fun t => t.tsx.trace) = some [.calling, .completed, .terminated, .destroyed] := ⟨_, rfl, rfl⟩
  obtain ⟨s, hexec, htrace⟩ := hrun
  obtain ⟨t, rfl, -, -, hcount, -, hregistered⟩ :=
    states_only_forward rfcCfg (.inl ⟨.invite, ⟨1, .request .invite⟩, false, rfl⟩) (by decide) hexec
  exact ⟨t, hexec, Option.some.inj htrace, hcount, hregistered⟩

theorem exists_count {start : Tsx} {moves : List Move} {state : State} {n : Nat}
    (h : (exec (move rfcCfg) (some ⟨start, []⟩) moves).map (·.map fun t => t.tsx.trace.count state) = some (some n)) :
    ∃ t, exec (move rfcCfg) (some ⟨start, []⟩) moves = some (some t) ∧ t.tsx.trace.count state = n := by
  obtain ⟨_, hexec, hlast⟩ := Option.map_eq_some_iff.mp h
  obtain ⟨t, rfl, hcount⟩ := Option.map_eq_some_iff.mp hlast
  exact ⟨t, hexec, hcount⟩

def serverInputs (sends : List Send) : Inputs := ⟨sends, .error .eunknown⟩

/-- The message that waits is sent by the callback after termination, and its failure terminates the transaction again. A
callback that comes after the destruction destroys it again, when another worker has destroyed it while the user was told
of the termination. A posted error is handled, and a send that was wanted is reported, after another worker has terminated
the transaction. -/
theorem states_not_only_forward :
    (∃ t, exec (move rfcCfg) (some ⟨inviteUac, []⟩) (inviteRefused.map .event ++
        [.event (.recvMsg (.response 486 .invite) (withAck [⟨false, .pending, .refused .einval⟩])),
          .event (.recvMsg (.response 486 .invite) (withAck [])), .event (.timer .timeout (withAck [])),
          .resume (.expired .timeout) (withAck []), .resume (.stateSet .terminated) (withAck []),
          .event (.transportCallback none (withAck [⟨false, .failed .einval, .refused .einval⟩]))]) = some (some t) ∧
      t.tsx.trace.count .terminated = 2) ∧
    (∃ t, exec (move rfcCfg) (some ⟨createUas .invite (some ⟨0, false, false⟩) false false, []⟩)
        [.event (.recvMsg (.request .invite) (serverInputs [])),
          .event (.sendMsg (some ⟨1, .response 486 .invite⟩) (serverInputs [⟨false, .sent, .tried [] none⟩])),
          .event (.recvMsg (.request .invite) (serverInputs [⟨false, .pending, .tried [] none⟩])),
          .event (.timer .timeout (serverInputs [])), .resume (.expired .timeout) (serverInputs []),
          .event (.timer .retransmit (serverInputs [])), .resume (.expired .retransmit) (serverInputs []),
          .resume (.stateSet .terminated) (serverInputs []), .event (.transportCallback none (serverInputs []))] =
            some (some t) ∧
      t.tsx.trace.count .destroyed = 2) ∧
    (∃ t, exec (move rfcCfg) (some ⟨inviteUac, []⟩)
        [.event (.sendMsg none (withAck [⟨false, .sent, .tried [] (some ⟨1, false, false⟩)⟩])),
          .event (.disconnected (some (.other 171060))), .event (.timer .timeout (withAck [])),
          .event (.terminate 487), .resume (.errorPosted true) (withAck [])] = some (some t) ∧
      t.tsx.trace.count .terminated = 2) ∧
    ∃ t, exec (move rfcCfg) (some ⟨inviteUac, []⟩)
        [.event (.sendMsg none (withAck [⟨false, .sent, .tried [] none⟩])),
          .event (.recvMsg (.response 486 .invite) (withAck [])), .event (.sent ⟨1, false, false⟩ (withAck [])),
          .event (.terminate 487), .resume (.sent ⟨1, .request .invite⟩ ⟨1, false, false⟩)
            (withAck [⟨false, .failed .einval, .refused .einval⟩])] = some (some t) ∧
      t.tsx.trace.count .terminated = 2 :=
  ⟨exists_count (by decide +kernel), exists_count (by decide +kernel), exists_count (by decide +kernel),
    exists_count (by decide +kernel)⟩

end PjProject.SipTransaction
