import PjProject.SipTransactionSends

/-! The states of a SIP transaction that has not been terminated. Whatever happens to it sets states that are at least the
ones before, and the last two at most once. -/

namespace PjProject.SipTransaction

/-! Sequences of states. -/

/-- A state that may follow another: it is not before it, and the last two states do not follow themselves. -/
def Advance (s t : State) : Prop := s.rank ≤ t.rank ∧ (s = t → t.rank < State.terminated.rank)

def Path : State → List State → State → Prop
  | s, [], t => s = t
  | s, u :: more, t => Advance s u ∧ Path u more t

theorem Path.snoc {s t u : State} {l : List State} (h : Path s l t) (hadvance : Advance t u) : Path s (l ++ [u]) u := by
  induction l generalizing s with
  | nil =>
    have hst : s = t := h
    rw [hst]
    exact ⟨hadvance, rfl⟩
  | cons v more ih => exact ⟨h.1, ih h.2⟩

theorem rank_injective {s t : State} (h : s.rank = t.rank) : s = t := by
  cases s <;> cases t <;> first | rfl | exact absurd h (by decide)

theorem Path.sorted {s t : State} {l : List State} (h : Path s l t) : (s :: l).Pairwise fun a b => a.rank ≤ b.rank := by
  induction l generalizing s with
  | nil => exact List.pairwise_singleton _ s
  | cons u more ih =>
    have hmore := ih h.2
    refine List.pairwise_cons.mpr ⟨fun v hv => ?_, hmore⟩
    rcases List.mem_cons.mp hv with rfl | hv
    · exact h.1.1
    · exact le_trans h.1.1 ((List.pairwise_cons.mp hmore).1 v hv)

theorem Path.getLast {s t : State} {l : List State} (h : Path s l t) : (s :: l).getLast? = some t := by
  induction l generalizing s with
  | nil =>
    have hst : s = t := h
    rw [hst]
    rfl
  | cons u more ih =>
    rw [List.getLast?_cons_cons]
    exact ih h.2

theorem Path.notMem {s t x : State} {l : List State} (h : Path s l t) (hlast : State.terminated.rank ≤ x.rank)
    (hle : x.rank ≤ s.rank) : x ∉ l := by
  induction l generalizing s with
  | nil => exact List.not_mem_nil
  | cons u more ih =>
    intro hmem
    rcases List.mem_cons.mp hmem with rfl | hmem
    · have hsame : s = x := rank_injective (Nat.le_antisymm h.1.1 hle)
      exact absurd (h.1.2 hsame) (Nat.not_lt.mpr hlast)
    · exact ih h.2 (le_trans hle h.1.1) hmem

theorem Path.count_le_one {s t x : State} {l : List State} (h : Path s l t) (hlast : State.terminated.rank ≤ x.rank) :
    l.count x ≤ 1 := by
  induction l generalizing s with
  | nil => exact Nat.zero_le 1
  | cons u more ih =>
    by_cases hu : u = x
    · rw [hu, List.count_cons_self, List.count_eq_zero.mpr (h.2.notMem hlast (by rw [hu]))]
    · rw [List.count_cons_of_ne hu]
      exact ih h.2

/-! The invariant. -/

/-- The states so far are in order, the transaction is registered until the last of them, and there is a handler for the
current one. -/
structure Forward (tsx : Tsx) : Prop where
  links : Links tsx
  path : Path .null tsx.trace tsx.state
  registered_eq : tsx.registered = decide (tsx.state ≠ .destroyed)
  handled : (stateHandler tsx.role tsx.state).isSome = true

theorem Forward.held {tsx tsx' : Tsx} (h : Forward tsx) (hheld : Held tsx tsx') (hlinks : Links tsx') :
    Forward tsx' where
  links := hlinks
  path := by
    rw [hheld.trace_eq, hheld.state_eq]
    exact h.path
  registered_eq := by rw [hheld.registered_eq, hheld.state_eq, h.registered_eq]
  handled := by
    rw [hheld.role_eq, hheld.state_eq]
    exact h.handled

theorem Forward.ended {tsx tsx' : Tsx} (h : Forward tsx) (hended : Ended tsx tsx') (hlinks : Links tsx')
    (hrank : tsx.state.rank < State.terminated.rank) : Forward tsx' where
  links := hlinks
  path := by
    rw [hended.trace_eq, hended.state_eq]
    refine h.path.snoc ⟨Nat.le_of_lt hrank, fun hs => ?_⟩
    rw [hs] at hrank
    exact absurd hrank (Nat.lt_irrefl _)
  registered_eq := by
    have hs : tsx.state ≠ .destroyed := fun hs => by
      rw [hs] at hrank
      exact absurd hrank (by decide)
    rw [hended.registered_eq, hended.state_eq, h.registered_eq, decide_eq_true hs]
    rfl
  handled := by
    rw [hended.state_eq]
    cases tsx'.role <;> rfl

theorem setState_eq (tsx : Tsx) {state : State} (hrank : state.rank < State.terminated.rank) (schedule : Bool) :
    setState tsx state schedule = { tsx with state := state, trace := tsx.trace ++ [state] } := by
  unfold setState finishState beginState
  cases state with
  | terminated => exact absurd hrank (by decide)
  | destroyed => exact absurd hrank (by decide)
  | _ => rfl

theorem links_setState {tsx : Tsx} (h : Links tsx) (hbefore : tsx.state.rank < State.terminated.rank) {state : State}
    (hrank : state.rank < State.terminated.rank) : Links (setState tsx state true) := by
  rw [setState_eq tsx hrank]
  refine ⟨h.transport, h.callbacks, fun hrole _ => h.waiting hrole hbefore, fun hd => ?_, fun hs => ?_⟩
  · rw [h.destroy hd] at hbefore
    exact absurd hbefore (by decide)
  · have hdestroyed : state = .destroyed := hs
    rw [hdestroyed] at hrank
    exact absurd hrank (by decide)

theorem Forward.setState {tsx : Tsx} (h : Forward tsx) (state : State) (hrank : state.rank < State.terminated.rank)
    (hle : tsx.state.rank ≤ state.rank) (hhandled : (stateHandler tsx.role state).isSome = true) :
    Forward (setState tsx state true) := by
  have hlinks := links_setState h.links (Nat.lt_of_le_of_lt hle hrank) hrank
  rw [setState_eq tsx hrank] at hlinks ⊢
  have hdestroyed : state ≠ .destroyed := fun hs => by
    rw [hs] at hrank
    exact absurd hrank (by decide)
  have hbefore : tsx.state.rank < State.terminated.rank := Nat.lt_of_le_of_lt hle hrank
  have hstate : tsx.state ≠ .destroyed := fun hs => by
    rw [hs] at hbefore
    exact absurd hbefore (by decide)
  refine ⟨hlinks, h.path.snoc ⟨hle, fun _ => hrank⟩, ?_, hhandled⟩
  dsimp only
  rw [h.registered_eq, decide_eq_true hstate, decide_eq_true hdestroyed]

theorem Forward.terminate {tsx : Tsx} (h : Forward tsx) (hrank : tsx.state.rank < State.terminated.rank) :
    Forward (SipTransaction.setState tsx .terminated true) := by
  have hstate : tsx.state ≠ .destroyed := fun hs => by
    rw [hs] at hrank
    exact absurd hrank (by decide)
  exact h.ended (setState_terminated tsx) (links_terminated h.links hstate true) hrank

/-! The handlers. -/

/-- What the invariant is about. -/
def Tsx.core (tsx : Tsx) :=
  (tsx.role, tsx.state, tsx.trace, tsx.registered, tsx.pendingDestroy, tsx.pendingTransport, tsx.transport.isSome,
    tsx.tpPending, tsx.resolvedServer, tsx.pendingSend)

theorem links_of_core {tsx tsx' : Tsx} (h : Links tsx) (hcore : tsx'.core = tsx.core) : Links tsx' := by
  simp only [Tsx.core, Prod.mk.injEq] at hcore
  obtain ⟨hrole, hstate, -, -, hdestroy, htransport, hsome, hpending, hresolved, hsend⟩ := hcore
  unfold Links at h ⊢
  rw [hrole, hstate, hsome, hpending, hresolved, htransport, hsend, hdestroy]
  exact h

theorem Forward.update {tsx tsx' : Tsx} (h : Forward tsx) (hcore : tsx'.core = tsx.core) : Forward tsx' := by
  have hlinks := links_of_core h.links hcore
  simp only [Tsx.core, Prod.mk.injEq] at hcore
  obtain ⟨hrole, hstate, htrace, hregistered, -⟩ := hcore
  obtain ⟨-, hpath, hreg, hhandled⟩ := h
  refine ⟨hlinks, ?_, ?_, ?_⟩
  · rw [htrace, hstate]
    exact hpath
  · rw [hregistered, hstate]
    exact hreg
  · rw [hrole, hstate]
    exact hhandled

theorem core_startRetransmit (tsx : Tsx) (delay : Nat) : (tsx.startRetransmit delay).core = tsx.core := by
  unfold Tsx.startRetransmit
  dsimp only
  split
  · rfl
  · rfl

/-- A handler that is run before termination keeps the order, and a success leaves the state to the handler. -/
structure After (tsx : Tsx) (r : Tsx × Status) : Prop where
  forward : Forward r.1
  role_eq : r.1.role = tsx.role
  state_eq : r.2 = none → r.1.state = tsx.state

theorem not_destroyed {tsx : Tsx} (hrank : tsx.state.rank < State.terminated.rank) : tsx.state ≠ .destroyed := fun hs => by
  rw [hs] at hrank
  exact absurd hrank (by decide)

theorem not_terminated {tsx : Tsx} (hrank : tsx.state.rank < State.terminated.rank) : tsx.state ≠ .terminated :=
  fun hs => by
  rw [hs] at hrank
  exact absurd hrank (by decide)

theorem Forward.sendMsg {tsx : Tsx} (h : Forward tsx) (hrank : tsx.state.rank < State.terminated.rank) (cfg : Cfg)
    (sends : List Send) (tdata : Tdata) : After tsx (sendMsg cfg sends tsx tdata) := by
  obtain ⟨hlinks, hcases⟩ := sendMsg_spec cfg sends tsx tdata h.links (not_destroyed hrank)
  rcases hcases with hkept | ⟨hended, hfailed⟩
  · exact ⟨h.held hkept.held hlinks, hkept.role_eq, fun _ => hkept.state_eq⟩
  · refine ⟨h.ended hended hlinks hrank, hended.role_eq, fun hnone => ?_⟩
    have hsome := (hfailed (not_terminated hrank)).1
    rw [hnone] at hsome
    cases hsome

theorem Forward.retransmit {tsx : Tsx} (h : Forward tsx) (hrank : tsx.state.rank < State.terminated.rank) (cfg : Cfg)
    (inputs : Inputs) (resched : Bool) : Forward (retransmit cfg inputs tsx resched).1 := by
  obtain ⟨hlinks, hcases⟩ := retransmit_spec cfg inputs h.links (not_destroyed hrank) resched
  rcases hcases with hheld | hended
  · exact h.held hheld hlinks
  · exact h.ended hended hlinks hrank

theorem core_role {tsx tsx' : Tsx} (h : tsx'.core = tsx.core) : tsx'.role = tsx.role := congrArg (fun c => c.1) h

theorem core_state {tsx tsx' : Tsx} (h : tsx'.core = tsx.core) : tsx'.state = tsx.state := congrArg (fun c => c.2.1) h

theorem Forward.enter {tsx tsx' : Tsx} (h : Forward tsx) (hcore : tsx'.core = tsx.core) (state : State)
    (hrank : state.rank < State.terminated.rank) (hle : tsx.state.rank ≤ state.rank)
    (hhandled : (stateHandler tsx.role state).isSome = true) : Forward (SipTransaction.setState tsx' state true) := by
  refine (h.update hcore).setState state hrank ?_ ?_
  · rw [core_state hcore]
    exact hle
  · rw [core_role hcore]
    exact hhandled

theorem Forward.finish {tsx tsx' : Tsx} (h : Forward tsx) (hcore : tsx'.core = tsx.core)
    (hrank : tsx.state.rank < State.terminated.rank) : Forward (SipTransaction.setState tsx' .terminated true) := by
  refine (h.update hcore).terminate ?_
  rw [core_state hcore]
  exact hrank

theorem Forward.sendRequest {tsx : Tsx} (h : Forward tsx) (hstate : tsx.state = .null) (hrole : tsx.role = .uac)
    (cfg : Cfg) (inputs : Inputs) (tdata : Tdata) : Forward (sendRequest cfg inputs tsx tdata).1 := by
  have hrank : tsx.state.rank < State.terminated.rank := by
    rw [hstate]
    decide
  have hsave : Forward { tsx with lastTx := some tdata } := h.update rfl
  obtain ⟨hforward, hrole', hsame⟩ := hsave.sendMsg hrank cfg inputs.sends tdata
  unfold SipTransaction.sendRequest
  rcases hsend : SipTransaction.sendMsg cfg inputs.sends { tsx with lastTx := some tdata } tdata with ⟨u, status⟩
  rw [hsend] at hforward hrole' hsame
  cases status with
  | some error => exact hforward
  | none =>
    refine hforward.enter ?_ .calling (by decide) ?_ ?_
    · split
      · rfl
      · exact core_startRetransmit _ _
    · rw [hsame rfl]
      show tsx.state.rank ≤ _
      rw [hstate]
      decide
    · rw [hrole']
      show (stateHandler tsx.role .calling).isSome = true
      rw [hrole]
      rfl

theorem Forward.onStateNull {tsx : Tsx} (h : Forward tsx) (hstate : tsx.state = .null) (cfg : Cfg) (inputs : Inputs)
    (event : Event) : Forward (onStateNull cfg inputs tsx event).1 := by
  unfold SipTransaction.onStateNull
  cases hrole : tsx.role with
  | uas =>
    refine h.setState .trying (by decide) ?_ (by rw [hrole]; rfl)
    rw [hstate]
    decide
  | uac =>
    cases event with
    | timer entry => exact h
    | rxMsg msg => exact h
    | txMsg tdata => exact h.sendRequest hstate hrole cfg inputs tdata

theorem Forward.sendAck {tsx : Tsx} (h : Forward tsx) (hle : tsx.state.rank ≤ State.completed.rank)
    (hrole : tsx.role = .uac) (cfg : Cfg) (inputs : Inputs) (ack : Tdata) : Forward (sendAck cfg inputs tsx ack).1 := by
  obtain ⟨hforward, hrole', hsame⟩ := h.sendMsg (Nat.lt_of_le_of_lt hle (by decide)) cfg inputs.sends ack
  unfold SipTransaction.sendAck
  rcases hsend : SipTransaction.sendMsg cfg inputs.sends tsx ack with ⟨u, status⟩
  rw [hsend] at hforward hrole' hsame
  cases status with
  | some error => exact hforward
  | none =>
    have hcompleted : Forward (SipTransaction.setState u .completed true) := by
      refine hforward.setState .completed (by decide) ?_ ?_
      · rw [hsame rfl]
        exact hle
      · rw [hrole', hrole]
        rfl
    exact hcompleted.update rfl

theorem Forward.onFailureResponse {tsx : Tsx} (h : Forward tsx) (hle : tsx.state.rank ≤ State.completed.rank)
    (hrole : tsx.role = .uac) (cfg : Cfg) (inputs : Inputs) : Forward (onFailureResponse cfg inputs tsx).1 := by
  have hstopped : Forward tsx.cancelRetransmit.cancelTimeout := h.update rfl
  unfold SipTransaction.onFailureResponse
  dsimp only
  split
  · split
    · exact hstopped
    · rename_i ack _
      exact hstopped.sendAck hle hrole cfg inputs ack
  · split
    · exact hstopped.terminate (Nat.lt_of_le_of_lt hle (by decide))
    · have hhandled : (stateHandler tsx.role .completed).isSome = true := by
        rw [hrole]
        rfl
      exact (hstopped.setState .completed (by decide) hle hhandled).update rfl

theorem Forward.onStateProceedingUac {tsx : Tsx} (h : Forward tsx) (hle : tsx.state.rank ≤ State.proceeding.rank)
    (hrole : tsx.role = .uac) (cfg : Cfg) (inputs : Inputs) (event : Event) :
    Forward (onStateProceedingUac cfg inputs tsx event).1 := by
  have hrank : tsx.state.rank < State.terminated.rank := Nat.lt_of_le_of_lt hle (by decide)
  have hle' : tsx.state.rank ≤ State.completed.rank := le_trans hle (by decide)
  have hhandled : ∀ state, (stateHandler .uac state).isSome = true → (stateHandler tsx.role state).isSome = true :=
    fun state hsome => by rw [hrole]; exact hsome
  unfold SipTransaction.onStateProceedingUac
  split
  · exact h
  · exact h
  · exact h.retransmit hrank cfg inputs true
  · exact h.finish rfl hrank
  · rename_i code cseqMethod
    have hcode : Forward (tsx.setStatusCode code) := h.update rfl
    dsimp only
    split
    · exact hcode.setState .proceeding (by decide) hle (hhandled .proceeding rfl)
    · split
      · unfold onSuccessResponse
        dsimp only
        split
        · exact hcode.finish (by rfl) hrank
        · exact hcode.enter (by rfl) .completed (by decide) hle' (hhandled .completed rfl)
      · split
        · exact hcode.onFailureResponse hle' hrole cfg inputs
        · exact hcode

theorem core_stopTimers (cfg : Cfg) (tsx : Tsx) (code : Nat) : (stopTimers cfg tsx code).core = tsx.core := by
  unfold stopTimers
  dsimp only
  split
  · rfl
  · split
    · rfl
    · rfl

theorem Forward.onStateCalling {tsx : Tsx} (h : Forward tsx) (hstate : tsx.state = .calling) (hrole : tsx.role = .uac)
    (cfg : Cfg) (inputs : Inputs) (event : Event) : Forward (onStateCalling cfg inputs tsx event).1 := by
  have hrank : tsx.state.rank < State.terminated.rank := by
    rw [hstate]
    decide
  unfold SipTransaction.onStateCalling
  split
  · exact h.retransmit hrank cfg inputs true
  · exact h.finish rfl hrank
  · exact h
  · rename_i code cseqMethod
    have hcore := core_stopTimers cfg tsx code
    refine (h.update hcore).onStateProceedingUac ?_ ((core_role hcore).trans hrole) cfg inputs _
    rw [core_state hcore, hstate]
    decide
  · exact h

theorem core_ite {p : Prop} [Decidable p] {a b tsx : Tsx} (ha : a.core = tsx.core) (hb : b.core = tsx.core) :
    (if p then a else b).core = tsx.core := by
  split
  · exact ha
  · exact hb

theorem Forward.onResponseSent {tsx : Tsx} (h : Forward tsx) (hle : tsx.state.rank ≤ State.proceeding.rank)
    (hrole : tsx.role = .uas) (cfg : Cfg) (tdata : Tdata) (cseqMethod : Method) :
    Forward (onResponseSent cfg tsx tdata cseqMethod) := by
  have hrank : tsx.state.rank < State.terminated.rank := Nat.lt_of_le_of_lt hle (by decide)
  have hle' : tsx.state.rank ≤ State.completed.rank := le_trans hle (by decide)
  have hhandled : ∀ state, (stateHandler .uas state).isSome = true → (stateHandler tsx.role state).isSome = true :=
    fun state hsome => by rw [hrole]; exact hsome
  unfold SipTransaction.onResponseSent
  dsimp only
  split
  · have hproceeding : Forward (SipTransaction.setState { tsx with lastTx := some tdata } .proceeding true) :=
      h.enter (by rfl) .proceeding (by decide) hle (hhandled .proceeding rfl)
    exact hproceeding.update (core_ite (core_startRetransmit _ _) rfl)
  · split
    · split
      · exact h.finish rfl hrank
      · refine h.enter ?_ .completed (by decide) hle' (hhandled .completed rfl)
        exact core_ite (core_startRetransmit tsx.cancelRetransmit cfg.t1) rfl
    · split
      · refine h.enter ?_ .completed (by decide) hle' (hhandled .completed rfl)
        exact core_ite (core_startRetransmit _ _) rfl
      · exact h

theorem Forward.sendResponse {tsx : Tsx} (h : Forward tsx) (hle : tsx.state.rank ≤ State.proceeding.rank)
    (hrole : tsx.role = .uas) (cfg : Cfg) (inputs : Inputs) (tdata : Tdata) (code : Nat) (cseqMethod : Method) :
    Forward (sendResponse cfg inputs tsx tdata code cseqMethod).1 := by
  unfold SipTransaction.sendResponse
  dsimp only
  generalize hsave : (if (tsx.setStatusCode code).lastTx = some tdata then tsx.setStatusCode code
    else { tsx.setStatusCode code with lastTx := none }) = t
  have hcore : t.core = tsx.core := by
    rw [← hsave]
    exact core_ite rfl rfl
  have hrank : t.state.rank < State.terminated.rank := by
    rw [core_state hcore]
    exact Nat.lt_of_le_of_lt hle (by decide)
  obtain ⟨hforward, hrole', hsame⟩ := (h.update hcore).sendMsg hrank cfg inputs.sends tdata
  rcases hsend : SipTransaction.sendMsg cfg inputs.sends t tdata with ⟨u, status⟩
  rw [hsend] at hforward hrole' hsame
  cases status with
  | some error => exact hforward
  | none =>
    refine hforward.onResponseSent ?_ ?_ cfg tdata cseqMethod
    · rw [hsame rfl, core_state hcore]
      exact hle
    · rw [hrole', core_role hcore, hrole]

theorem Forward.onStateProceedingUas {tsx : Tsx} (h : Forward tsx) (hle : tsx.state.rank ≤ State.proceeding.rank)
    (hrole : tsx.role = .uas) (cfg : Cfg) (inputs : Inputs) (event : Event) :
    Forward (onStateProceedingUas cfg inputs tsx event).1 := by
  have hrank : tsx.state.rank < State.terminated.rank := Nat.lt_of_le_of_lt hle (by decide)
  unfold SipTransaction.onStateProceedingUas
  split
  · split
    · exact h
    · exact (h.sendMsg hrank cfg inputs.sends _).forward
  · split
    · exact h
    · exact h.sendResponse hle hrole cfg inputs _ _ _
  · exact h.retransmit hrank cfg inputs true
  · exact h.finish rfl hrank

theorem Forward.uas_of_trying {tsx : Tsx} (h : Forward tsx) (hstate : tsx.state = .trying) : tsx.role = .uas := by
  have hhandled := h.handled
  rw [hstate] at hhandled
  cases hrole : tsx.role with
  | uas => rfl
  | uac =>
    rw [hrole] at hhandled
    cases hhandled

theorem Forward.onStateTrying {tsx : Tsx} (h : Forward tsx) (hstate : tsx.state = .trying) (cfg : Cfg) (inputs : Inputs)
    (event : Event) : Forward (onStateTrying cfg inputs tsx event).1 := by
  have hle : tsx.state.rank ≤ State.proceeding.rank := by
    rw [hstate]
    decide
  unfold SipTransaction.onStateTrying
  split
  · rename_i tdata
    have hforward := h.onStateProceedingUas hle (h.uas_of_trying hstate) cfg inputs (.txMsg tdata)
    rcases hsend : SipTransaction.onStateProceedingUas cfg inputs tsx (.txMsg tdata) with ⟨u, status⟩
    rw [hsend] at hforward
    cases status with
    | some error => exact hforward
    | none =>
      dsimp only
      split
      · rename_i hu
        refine hforward.setState .proceeding (by decide) ?_ ?_
        · show u.state.rank ≤ _
          rw [hu]
          decide
        · rw [hforward.uas_of_trying hu]
          rfl
      · exact hforward
  · exact h

theorem Forward.onStateCompletedUas {tsx : Tsx} (h : Forward tsx) (hstate : tsx.state = .completed) (cfg : Cfg)
    (inputs : Inputs) (event : Event) : Forward (onStateCompletedUas cfg inputs tsx event).1 := by
  have hrank : tsx.state.rank < State.terminated.rank := by
    rw [hstate]
    decide
  unfold SipTransaction.onStateCompletedUas
  split
  · exact h
  · split
    · exact h
    · refine h.enter (by rfl) .confirmed (by decide) ?_ ?_
      · rw [hstate]
        decide
      · cases tsx.role <;> rfl
  · exact h.retransmit hrank cfg inputs false
  · exact h.retransmit hrank cfg inputs true
  · exact h.finish (core_ite rfl rfl) hrank
  · exact h

theorem Forward.onStateCompletedUac {tsx : Tsx} (h : Forward tsx) (hstate : tsx.state = .completed) (cfg : Cfg)
    (inputs : Inputs) (event : Event) : Forward (onStateCompletedUac cfg inputs tsx event).1 := by
  have hrank : tsx.state.rank < State.terminated.rank := by
    rw [hstate]
    decide
  unfold SipTransaction.onStateCompletedUac
  split
  · exact h
  · exact h.terminate hrank
  · split
    · split
      · split
        · exact h.retransmit hrank cfg inputs false
        · exact h
      · exact h
    · exact h
  · exact h

theorem Forward.onStateConfirmed {tsx : Tsx} (h : Forward tsx) (hstate : tsx.state = .confirmed) (cfg : Cfg)
    (inputs : Inputs) (event : Event) : Forward (onStateConfirmed cfg inputs tsx event).1 := by
  unfold SipTransaction.onStateConfirmed
  split
  · exact h
  · exact h
  · exact h
  · refine h.terminate ?_
    rw [hstate]
    decide
  · exact h

/-- The handler of the state is there and keeps the order. -/
theorem Forward.dispatch {tsx : Tsx} (h : Forward tsx) (hrank : tsx.state.rank < State.terminated.rank) (cfg : Cfg)
    (inputs : Inputs) (event : Event) :
    ∃ tsx', dispatch cfg inputs tsx event = some tsx' ∧ Forward tsx' := by
  have hhandled := h.handled
  unfold SipTransaction.dispatch
  cases hstate : tsx.state with
  | null =>
    have hnull : stateHandler tsx.role .null = some SipTransaction.onStateNull := by cases tsx.role <;> rfl
    rw [hnull]
    exact ⟨_, rfl, h.onStateNull hstate cfg inputs event⟩
  | calling =>
    rw [hstate] at hhandled
    cases hrole : tsx.role with
    | uac => exact ⟨_, rfl, h.onStateCalling hstate hrole cfg inputs event⟩
    | uas =>
      rw [hrole] at hhandled
      cases hhandled
  | trying =>
    rw [h.uas_of_trying hstate]
    exact ⟨_, rfl, h.onStateTrying hstate cfg inputs event⟩
  | proceeding =>
    have hle : tsx.state.rank ≤ State.proceeding.rank := by rw [hstate]
    cases hrole : tsx.role with
    | uac => exact ⟨_, rfl, h.onStateProceedingUac hle hrole cfg inputs event⟩
    | uas => exact ⟨_, rfl, h.onStateProceedingUas hle hrole cfg inputs event⟩
  | completed =>
    cases hrole : tsx.role with
    | uac => exact ⟨_, rfl, h.onStateCompletedUac hstate cfg inputs event⟩
    | uas => exact ⟨_, rfl, h.onStateCompletedUas hstate cfg inputs event⟩
  | confirmed =>
    have hconfirmed : stateHandler tsx.role .confirmed = some SipTransaction.onStateConfirmed := by cases tsx.role <;> rfl
    rw [hconfirmed]
    exact ⟨_, rfl, h.onStateConfirmed hstate cfg inputs event⟩
  | terminated => exact absurd hstate (not_terminated hrank)
  | destroyed => exact absurd hstate (not_destroyed hrank)

/-! The entry points. -/

theorem terminated_scheduleTimeout (tsx : Tsx) :
    (setState tsx .terminated false).scheduleTimeout .timeout 0 = setState tsx .terminated true := by
  unfold setState finishState beginState
  dsimp only
  split
  · rfl
  · rfl

theorem onTransportError_eq (tsx : Tsx) (disc : Bool) :
    onTransportError tsx disc =
      if tsx.state.rank < State.terminated.rank then
        if tsx.goesOn disc then
          { updateTransport tsx none with
            resTransport := none, pendingTransport := false, pendingResched := false, pendingSend := false
            pendingDestroy := false, resolvedServer := false }
        else
          setState (if (updateTransport tsx none).statusCode < 200 then
            (updateTransport tsx none).setStatusCode scTransportError else updateTransport tsx none) .terminated true
      else tsx := by
  have hgoes : (updateTransport tsx none).goesOn disc = tsx.goesOn disc := rfl
  unfold onTransportError onPostedError
  dsimp only
  rw [hgoes]
  by_cases hgoesOn : tsx.goesOn disc = true
  · simp only [if_pos hgoesOn]
  · simp only [if_neg hgoesOn, terminated_scheduleTimeout]

theorem Tsx.goesOn_role {tsx : Tsx} {disc : Bool} (h : tsx.goesOn disc = true) : tsx.role = .uas :=
  (of_decide_eq_true h).2.2.1

theorem Forward.goOn {tsx : Tsx} (h : Forward tsx) {disc : Bool} (hgoes : tsx.goesOn disc = true) :
    Forward { updateTransport tsx none with
      resTransport := none, pendingTransport := false, pendingResched := false, pendingSend := false
      pendingDestroy := false, resolvedServer := false } := by
  have huas : tsx.role ≠ .uac := fun hrole => absurd (hrole.symm.trans (Tsx.goesOn_role hgoes)) Role.noConfusion
  exact ⟨⟨fun hrole => absurd hrole huas, fun hrole => absurd hrole huas, fun hrole => absurd hrole huas, nofun,
    fun _ => rfl⟩, h.path, h.registered_eq, h.handled⟩

theorem Forward.onTransportError {tsx : Tsx} (h : Forward tsx) (disc : Bool) : Forward (onTransportError tsx disc) := by
  rw [onTransportError_eq]
  split
  · rename_i hrank
    split
    · rename_i hgoes
      exact h.goOn hgoes
    · refine Forward.finish (h.held (kept_updateTransport tsx none).held (links_release h.links)) ?_ hrank
      exact core_ite rfl rfl
  · exact h

theorem Forward.timerCallback {tsx : Tsx} (h : Forward tsx) (hrank : tsx.state.rank < State.terminated.rank) (cfg : Cfg)
    (inputs : Inputs) (entry : TimerEntry) : ∃ tsx', timerCallback cfg inputs tsx entry = some tsx' ∧ Forward tsx' := by
  have hretransmit : Forward { tsx with retransmitTimer := none } := h.update rfl
  have htimeout : Forward { tsx with timeoutTimer := none } := h.update rfl
  unfold SipTransaction.timerCallback
  cases entry with
  | retransmit => exact hretransmit.dispatch hrank cfg inputs (.timer .retransmit)
  | timeout =>
    dsimp only
    split
    · exact ⟨_, rfl, htimeout.onTransportError false⟩
    · exact ⟨_, rfl, htimeout.onTransportError true⟩
    · exact htimeout.dispatch hrank cfg inputs (.timer .timeout)

theorem Forward.flushPending {tsx : Tsx} (h : Forward tsx) (hrank : tsx.state.rank < State.terminated.rank) (cfg : Cfg)
    (sends : List Send) : Forward (flushPending cfg (SipTransaction.sendMsg cfg sends) tsx) := by
  obtain ⟨hlinks, hcases⟩ := flushPending_spec cfg (sendMsg_spec cfg sends) h.links
  rcases hcases with hkept | ⟨hended, -⟩ | hrepeated
  · exact h.held hkept.held hlinks
  · exact h.ended hended hlinks hrank
  · exact absurd hrepeated.waiting (not_waiting h.links (not_destroyed hrank))

theorem links_tpStateCallback {tsx : Tsx} (h : Links tsx) (hsome : tsx.transport.isSome = true) (status : Status) :
    Links (tpStateCallback tsx status) := by
  have hlinks : Links { tsx with pendingTransport := false } :=
    ⟨h.transport, h.callbacks, fun hrole _ _ => .inr (h.transport hrole hsome), h.destroy, h.ended⟩
  unfold tpStateCallback
  dsimp only
  split
  · exact hlinks
  · exact hlinks

theorem Forward.back {tsx : Tsx} (h : Forward tsx) (hpending : 0 < tsx.tpPending) :
    Forward { tsx with pendingTransport := false, tpPending := tsx.tpPending - 1 } :=
  ⟨⟨h.links.transport, fun hrole _ => h.links.callbacks hrole hpending,
    fun hrole _ _ => .inr (h.links.callbacks hrole hpending), h.links.destroy, h.links.ended⟩, h.path, h.registered_eq,
    h.handled⟩

/-- **An action** on a transaction that has not been terminated keeps the order. -/
theorem Forward.act {tsx : Tsx} (h : Forward tsx) (hrank : tsx.state.rank < State.terminated.rank) (cfg : Cfg) {a : Action}
    (henabled : enabled tsx a = true) : ∃ tsx', act cfg tsx a = some tsx' ∧ Forward tsx' := by
  cases a with
  | sendMsg tdata inputs =>
    unfold SipTransaction.act
    dsimp only
    split
    · exact ⟨tsx, rfl, h⟩
    · exact h.dispatch hrank cfg inputs _
  | recvMsg msg inputs => exact h.dispatch hrank cfg inputs (.rxMsg msg)
  | timer entry inputs => exact h.timerCallback hrank cfg inputs entry
  | sent tp inputs =>
    refine ⟨_, rfl, ?_⟩
    obtain ⟨hlinks, hcases⟩ := sendMsgSent_spec cfg (sendMsg_spec cfg inputs.sends) h.links tp
    rcases hcases with ⟨hkept, -⟩ | ⟨hended, -⟩ | hrepeated
    · exact h.held hkept.held hlinks
    · exact h.ended hended hlinks hrank
    · exact absurd hrepeated.waiting (not_waiting h.links (not_destroyed hrank))
  | sendFailed failure =>
    refine ⟨_, rfl, ?_⟩
    obtain ⟨hlinks, hcases⟩ := sendMsgFailed_spec cfg h.links failure
    rcases hcases with ⟨hkept, -⟩ | ⟨hended, -⟩ | hrepeated
    · exact h.held hkept.held hlinks
    · exact h.ended hended hlinks hrank
    · exact absurd hrepeated.waiting (not_waiting h.links (not_destroyed hrank))
  | transportCallback error inputs =>
    have hback := h.back (of_decide_eq_true henabled)
    refine ⟨_, rfl, ?_⟩
    unfold transportCallbackImpl onTransportSend
    split
    · exact hback.flushPending hrank cfg inputs.sends
    · exact hback.update (core_ite rfl rfl)
  | disconnected status =>
    have hsome : tsx.transport.isSome = true := henabled
    exact ⟨_, rfl, h.held (kept_tpStateCallback tsx status).held (links_tpStateCallback h.links hsome status)⟩
  | terminate code =>
    refine ⟨_, rfl, ?_⟩
    unfold SipTransaction.terminate
    split
    · rename_i hcode
      exact h.finish rfl hcode.2
    · exact h
  | setTimeout millisec =>
    refine ⟨_, rfl, h.update ?_⟩
    unfold SipTransaction.setTimeout
    exact core_ite (core_ite rfl rfl) rfl
  | stopRetransmit =>
    refine ⟨_, rfl, h.update ?_⟩
    unfold SipTransaction.stopRetransmit
    exact core_ite rfl rfl

/-- A transaction that has been created is in order. -/
theorem createUac_forward (method : Method) (tdata : Tdata) (reliable : Bool) :
    Forward (createUac method tdata reliable) :=
  ⟨⟨nofun, fun _ hpos => absurd hpos (Nat.lt_irrefl 0),
    nofun, nofun, fun _ => rfl⟩,
    rfl, rfl, rfl⟩

theorem createUas_forward (method : Method) (transport : Option Transport) (reliable handle200resp : Bool) :
    Forward (createUas method transport reliable handle200resp) := by
  have hnew : ∀ tp, Forward { createUac method ⟨0, .request method⟩ reliable with
      role := .uas, handle200resp := handle200resp, lastTx := none, transport := tp } := fun tp =>
    ⟨⟨fun hrole => absurd hrole Role.noConfusion, fun hrole => absurd hrole Role.noConfusion,
      fun hrole => absurd hrole Role.noConfusion, nofun, fun _ => rfl⟩,
      rfl, rfl, rfl⟩
  unfold createUas
  cases transport with
  | none => exact hnew none
  | some tp =>
    dsimp only [updateTransport]
    split
    · exact (hnew (some tp)).update rfl
    · exact (hnew (some tp)).update rfl

/-! A client transaction for an INVITE over an unreliable transport, with the timer values of RFC 3261. -/

def rfcCfg : Cfg := ⟨500, 4000, 5000, 32000, 32000, none⟩

def inviteUac : Tsx := createUac .invite ⟨1, .request .invite⟩ false

def withAck (sends : List Send) : Inputs := ⟨sends, .ok ⟨2, .request .ack⟩⟩

def inviteRefused : List Action :=
  [.sendMsg none (withAck [⟨false, .sent, .tried [] (some ⟨1, false, false⟩)⟩]),
    .recvMsg (.response 486 .invite) (withAck [⟨false, .sent, .refused .einval⟩])]

end PjProject.SipTransaction
