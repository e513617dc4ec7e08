import PjProject.SipTransactionStates

/-! The timeout timer of a SIP client transaction over runs. A client transaction that has sent its request and has not
been destroyed waits for its timer, or for the final response to an INVITE, as long as the ACK for each response that
refuses the INVITE is made and taken by the endpoint. -/

namespace PjProject.SipTransaction

/-- An INVITE in the state Proceeding, where nothing but provisional responses came. -/
def Tsx.Rings (tsx : Tsx) : Prop := tsx.method = .invite ∧ tsx.state = .proceeding ∧ tsx.statusCode < 200

/-- A client transaction that is not stuck. -/
structure Alive (tsx : Tsx) : Prop where
  links : Links tsx
  role_eq : tsx.role = .uac
  client : tsx.state ≠ .trying ∧ tsx.state ≠ .confirmed
  timed : tsx.state ≠ .null → tsx.state ≠ .destroyed → tsx.Timed ∨ tsx.Rings
  still : tsx.method = .invite → tsx.state = .proceeding → tsx.retransmitTimer = none ∧ tsx.pendingResched = false

theorem Alive.timed_of_method {tsx : Tsx} (h : Alive tsx) (hother : tsx.method ≠ .invite) (hnull : tsx.state ≠ .null)
    (hdestroyed : tsx.state ≠ .destroyed) : tsx.Timed := by
  rcases h.timed hnull hdestroyed with htimed | hrings
  · exact htimed
  · exact absurd hrings.1 hother

/-- After the step the transaction is not stuck, and it has not gone back behind the state Completed. -/
structure Onward (tsx tsx' : Tsx) : Prop where
  alive : Alive tsx'
  late : State.completed.rank ≤ tsx.state.rank → State.completed.rank ≤ tsx'.state.rank

theorem Onward.of_early {tsx tsx' : Tsx} (h : Alive tsx') (hrank : tsx.state.rank < State.completed.rank) :
    Onward tsx tsx' :=
  ⟨h, fun hle => absurd hrank (Nat.not_lt.mpr hle)⟩

theorem Alive.onward {tsx : Tsx} (h : Alive tsx) : Onward tsx tsx := ⟨h, fun hle => hle⟩

theorem Alive.kept {tsx tsx' : Tsx} (h : Alive tsx) (hkept : Kept tsx tsx') (hlinks : Links tsx')
    (hcode : tsx.Rings → tsx'.statusCode = tsx.statusCode) : Onward tsx tsx' := by
  refine ⟨⟨hlinks, hkept.role_eq.trans h.role_eq, ?_, fun hnull hdestroyed => ?_, fun hmethod hstate => ?_⟩, fun hle => ?_⟩
  · rw [hkept.state_eq]
    exact h.client
  · rw [hkept.state_eq] at hnull hdestroyed
    rcases h.timed hnull hdestroyed with htimed | hrings
    · exact .inl (hkept.timer htimed)
    · refine .inr ⟨hkept.method_eq.trans hrings.1, hkept.state_eq.trans hrings.2.1, ?_⟩
      rw [hcode hrings]
      exact hrings.2.2
  · obtain ⟨htimer, hresched⟩ := h.still (hkept.method_eq.symm.trans hmethod) (hkept.state_eq.symm.trans hstate)
    obtain ⟨hresched', htimer'⟩ := hkept.resched hresched
    exact ⟨htimer'.trans htimer, hresched'⟩
  · rw [hkept.state_eq]
    exact hle

theorem Alive.held {tsx tsx' : Tsx} (h : Alive tsx) (hheld : Held tsx tsx') (hlinks : Links tsx')
    (hother : ¬(tsx.method = .invite ∧ tsx.state = .proceeding)) : Onward tsx tsx' := by
  refine ⟨⟨hlinks, hheld.role_eq.trans h.role_eq, ?_, fun hnull hdestroyed => ?_, fun hmethod hstate => ?_⟩, fun hle => ?_⟩
  · rw [hheld.state_eq]
    exact h.client
  · rw [hheld.state_eq] at hnull hdestroyed
    rcases h.timed hnull hdestroyed with htimed | hrings
    · exact .inl (hheld.timer htimed)
    · exact absurd ⟨hrings.1, hrings.2.1⟩ hother
  · exact absurd ⟨hheld.method_eq.symm.trans hmethod, hheld.state_eq.symm.trans hstate⟩ hother
  · rw [hheld.state_eq]
    exact hle

theorem alive_of_ended {tsx tsx' : Tsx} (hrole : tsx.role = .uac) (hended : Ended tsx tsx') (hlinks : Links tsx') :
    Alive tsx' ∧ State.completed.rank ≤ tsx'.state.rank := by
  refine ⟨⟨hlinks, hended.role_eq.trans hrole, ?_, fun _ _ => .inl hended.timer, fun _ hstate => ?_⟩, ?_⟩
  · rw [hended.state_eq]
    exact ⟨State.noConfusion, State.noConfusion⟩
  · exact absurd (hended.state_eq.symm.trans hstate) State.noConfusion
  · rw [hended.state_eq]
    decide

theorem Alive.ended {tsx tsx' : Tsx} (h : Alive tsx) (hended : Ended tsx tsx') (hlinks : Links tsx') :
    Onward tsx tsx' := by
  obtain ⟨halive, hrank⟩ := alive_of_ended h.role_eq hended hlinks
  exact ⟨halive, fun _ => hrank⟩

theorem onward_of_destroyed {tsx tsx' : Tsx} (hrole : tsx'.role = .uac) (hstate : tsx'.state = .destroyed)
    (hlinks : Links tsx') : Onward tsx tsx' := by
  refine ⟨⟨hlinks, hrole, ?_, fun _ hdestroyed => absurd hstate hdestroyed, fun _ hproceeding => ?_⟩, fun _ => ?_⟩
  · rw [hstate]
    exact ⟨State.noConfusion, State.noConfusion⟩
  · exact absurd (hstate.symm.trans hproceeding) State.noConfusion
  · rw [hstate]
    decide

/-- Termination after changes to what the flags do not depend on. -/
theorem alive_terminated {tsx : Tsx} (hlinks : Links tsx) (hrole : tsx.role = .uac) (hstate : tsx.state ≠ .destroyed) :
    Alive (setState tsx .terminated true) ∧ State.completed.rank ≤ (setState tsx .terminated true).state.rank :=
  alive_of_ended hrole (setState_terminated tsx) (links_terminated hlinks hstate true)

theorem not_destroyed_of_rank {tsx : Tsx} (hrank : tsx.state.rank < State.completed.rank) : tsx.state ≠ .destroyed :=
  not_destroyed (Nat.lt_trans hrank (by decide))

theorem alive_waiting {tsx : Tsx} (hlinks : Links tsx) (hrole : tsx.role = .uac)
    (hstate : tsx.state = .calling ∨ tsx.state = .completed) (htimed : tsx.Timed) : Alive tsx := by
  refine ⟨hlinks, hrole, ?_, fun _ _ => .inl htimed, fun _ hproceeding => ?_⟩
  · rcases hstate with hstate | hstate
    · rw [hstate]
      exact ⟨State.noConfusion, State.noConfusion⟩
    · rw [hstate]
      exact ⟨State.noConfusion, State.noConfusion⟩
  · rcases hstate with hstate | hstate
    · exact absurd (hstate.symm.trans hproceeding) State.noConfusion
    · exact absurd (hstate.symm.trans hproceeding) State.noConfusion

/-! The request. -/

theorem startRetransmit_timeoutTimer (tsx : Tsx) (delay : Nat) :
    (tsx.startRetransmit delay).timeoutTimer = tsx.timeoutTimer := by
  unfold Tsx.startRetransmit
  dsimp only
  split
  · rfl
  · rfl

theorem Alive.sendRequest {tsx : Tsx} (h : Alive tsx) (hstate : tsx.state = .null) (cfg : Cfg) (inputs : Inputs)
    (tdata : Tdata) : Alive (sendRequest cfg inputs tsx tdata).1 := by
  have hrank : tsx.state.rank < State.terminated.rank := by
    rw [hstate]
    decide
  have hsave : Alive { tsx with lastTx := some tdata } := ⟨h.links, h.role_eq, h.client, h.timed, h.still⟩
  obtain ⟨hlinks, hcases⟩ :=
    sendMsg_spec cfg inputs.sends { tsx with lastTx := some tdata } tdata h.links (not_destroyed hrank)
  unfold SipTransaction.sendRequest
  rcases hsend : sendMsg cfg inputs.sends { tsx with lastTx := some tdata } tdata with ⟨u, status⟩
  rw [hsend] at hlinks hcases
  cases status with
  | some error =>
    rcases hcases with hkept | ⟨hended, -⟩
    · refine (hsave.kept hkept hlinks fun hrings => ?_).alive
      exact absurd (hstate.symm.trans hrings.2.1) State.noConfusion
    · exact (hsave.ended hended hlinks).alive
  | none =>
    have hu : u.role = .uac ∧ u.state.rank < State.terminated.rank := by
      rcases hcases with hkept | ⟨-, hfailed⟩
      · refine ⟨hkept.role_eq.trans h.role_eq, ?_⟩
        rw [hkept.state_eq]
        exact hrank
      · exact absurd (hfailed (not_terminated hrank)).1 Bool.false_ne_true
    dsimp only
    generalize hstart : (if (u.restartTimeout .timeout cfg.timeout).isReliable = true then
      u.restartTimeout .timeout cfg.timeout
      else (u.restartTimeout .timeout cfg.timeout).startRetransmit cfg.t1) = v
    have hcore : v.core = u.core := by
      rw [← hstart]
      exact core_ite rfl (core_startRetransmit _ _)
    have htimer : v.timeoutTimer.isSome = true := by
      rw [← hstart]
      split
      · rfl
      · rw [startRetransmit_timeoutTimer]
        rfl
    have hcalling : Links (setState v .calling true) := by
      refine links_setState (links_of_core hlinks hcore) ?_ (by decide)
      rw [core_state hcore]
      exact hu.2
    refine alive_waiting hcalling ((core_role hcore).trans hu.1) (.inl rfl) ⟨htimer, fun hle => ?_⟩
    exact absurd hle (Nat.not_le.mpr (show State.calling.rank < State.completed.rank by decide))

/-! Responses. -/

/-- The endpoint does not start the send. -/
def Stateless.isRefused : Stateless → Bool
  | .refused _ => true
  | .tried _ _ => false

/-- A message is taken for a send: it waits for one, the server is resolved, or the endpoint does not refuse it. -/
def Taken (tsx : Tsx) (send : Send) : Prop :=
  tsx.pendingTransport = true ∨ tsx.resolvedServer = true ∨ send.isPending = true ∨ send.stateless.isRefused = false

def AckLeaves (tsx : Tsx) (inputs : Inputs) : Prop :=
  inputs.ack.isOk = true ∧ Taken tsx (inputs.sends.headD pendingSend)

theorem sendWith_ended (cfg : Cfg) {again : Tsx → Tdata → Tsx × Status} (hagain : SendSpec again) {send : Send} {tsx : Tsx}
    (h : Links tsx) (hrole : tsx.role = .uac) (hrank : tsx.state.rank < State.terminated.rank) (htaken : Taken tsx send)
    (tdata : Tdata) {error : Errno} (hfailed : (sendWith cfg again send tsx tdata).2 = some error) :
    Ended tsx (sendWith cfg again send tsx tdata).1 := by
  rcases (sendWith_spec cfg hagain send tsx tdata h (not_destroyed hrank)).2 with hkept | ⟨hended, -⟩
  · exfalso
    have hstate : (sendWith cfg again send tsx tdata).1.state ≠ .terminated := by
      rw [hkept.state_eq]
      exact not_terminated hrank
    unfold sendWith at hfailed hstate
    by_cases hbusy : tsx.pendingTransport = true
    · rw [if_pos hbusy] at hfailed
      exact absurd hfailed.symm (Option.some_ne_none error)
    · rw [if_neg hbusy] at hfailed hstate
      by_cases hpending : send.isPending = true
      · rw [if_pos hpending] at hfailed
        exact absurd hfailed.symm (Option.some_ne_none error)
      · rw [if_neg hpending] at hfailed hstate
        obtain ⟨-, hsame, hleft⟩ := sendOnTransport_spec h (Bool.eq_false_iff.mpr hbusy) send.viaTransport
        rcases hsend : sendOnTransport tsx send.viaTransport with ⟨u, result⟩
        rw [hsend] at hfailed hstate hsame hleft
        cases result with
        | none => exact absurd hfailed.symm (Option.some_ne_none error)
        | some status =>
          have hres : u.resolvedServer = tsx.resolvedServer := (hleft rfl).2
          dsimp only at hfailed hstate
          by_cases hresolved : u.role = .uac ∧ u.resolvedServer = true
          · rw [if_pos hresolved] at hstate
            exact hstate (setState_terminated _).state_eq
          · rw [if_neg hresolved] at hfailed hstate
            cases hstateless : send.stateless with
            | refused reason =>
              rcases htaken with hwait | hresolved' | hpending' | hnot
              · exact hbusy hwait
              · exact hresolved ⟨hsame.role_eq.trans hrole, hres.trans hresolved'⟩
              · exact hpending hpending'
              · rw [hstateless] at hnot
                exact Bool.noConfusion hnot
            | tried failures sent =>
              rw [hstateless] at hfailed hstate
              simp only [sendStateless, endptSendResponse_tried, ite_self, startStateless] at hfailed hstate
              rw [if_neg hstate] at hfailed
              exact absurd hfailed.symm (Option.some_ne_none error)
  · exact hended

theorem sendMsg_ended (cfg : Cfg) {sends : List Send} {tsx : Tsx} (h : Links tsx) (hrole : tsx.role = .uac)
    (hrank : tsx.state.rank < State.terminated.rank) (htaken : Taken tsx (sends.headD pendingSend)) (tdata : Tdata)
    {error : Errno} (hfailed : (sendMsg cfg sends tsx tdata).2 = some error) :
    Ended tsx (sendMsg cfg sends tsx tdata).1 := by
  cases sends with
  | nil =>
    exact sendWith_ended cfg (fun tsx _ h _ => ⟨h, .inl (.refl tsx)⟩) h hrole hrank htaken tdata hfailed
  | cons send more => exact sendWith_ended cfg (sendMsg_spec cfg more) h hrole hrank htaken tdata hfailed

/-- A final response leads to the state Completed or to termination. -/
def Finished (tsx : Tsx) : Prop := Alive tsx ∧ State.completed.rank ≤ tsx.state.rank

theorem finished_completed {tsx : Tsx} (hlinks : Links tsx) (hrole : tsx.role = .uac) (hstate : tsx.state = .completed)
    (htimer : tsx.timeoutTimer.map Prod.fst = some .timeout) : Finished tsx := by
  have hsome : tsx.timeoutTimer.isSome = true := by
    obtain ⟨timer, heq, -⟩ := Option.map_eq_some_iff.mp htimer
    rw [heq]
    rfl
  refine ⟨alive_waiting hlinks hrole (.inr hstate) ⟨hsome, fun _ => htimer⟩, ?_⟩
  rw [hstate]

theorem finished_sendAck (cfg : Cfg) {inputs : Inputs} {tsx : Tsx} (h : Links tsx) (hrole : tsx.role = .uac)
    (hrank : tsx.state.rank < State.completed.rank) (htaken : Taken tsx (inputs.sends.headD pendingSend)) (ack : Tdata) :
    Finished (sendAck cfg inputs tsx ack).1 := by
  have hbefore : tsx.state.rank < State.terminated.rank := Nat.lt_trans hrank (by decide)
  have hended : ∀ error, (sendMsg cfg inputs.sends tsx ack).2 = some error → Ended tsx (sendMsg cfg inputs.sends tsx ack).1 :=
    fun _ => sendMsg_ended cfg h hrole hbefore htaken ack
  obtain ⟨hlinks, hcases⟩ := sendMsg_spec cfg inputs.sends tsx ack h (not_destroyed hbefore)
  unfold sendAck
  rcases hsend : sendMsg cfg inputs.sends tsx ack with ⟨u, status⟩
  rw [hsend] at hended hlinks hcases
  cases status with
  | some error => exact alive_of_ended hrole (hended error rfl) hlinks
  | none =>
    rcases hcases with hkept | ⟨-, hfailed⟩
    · have hu : u.state.rank < State.terminated.rank := by
        rw [hkept.state_eq]
        exact hbefore
      exact finished_completed (links_setState hlinks hu (by decide)) (hkept.role_eq.trans hrole) rfl rfl
    · exact absurd (hfailed (not_terminated hbefore)).1 Bool.false_ne_true

theorem finished_onFailureResponse (cfg : Cfg) {inputs : Inputs} {tsx : Tsx} (h : Links tsx) (hrole : tsx.role = .uac)
    (hrank : tsx.state.rank < State.completed.rank) (hack : tsx.method = .invite → AckLeaves tsx inputs) :
    Finished (onFailureResponse cfg inputs tsx).1 := by
  have hbefore : tsx.state.rank < State.terminated.rank := Nat.lt_trans hrank (by decide)
  have hstopped : Links tsx.cancelRetransmit.cancelTimeout := h
  unfold onFailureResponse
  dsimp only
  split
  · rename_i hmethod
    obtain ⟨hmade, htaken⟩ := hack hmethod
    split
    · rename_i error herror
      rw [herror] at hmade
      cases hmade
    · exact finished_sendAck cfg hstopped hrole hrank htaken _
  · split
    · exact alive_terminated hstopped hrole (not_destroyed hbefore)
    · exact finished_completed (links_setState hstopped hbefore (by decide)) hrole rfl rfl

theorem finished_onSuccessResponse (cfg : Cfg) {tsx : Tsx} (h : Links tsx) (hrole : tsx.role = .uac)
    (hrank : tsx.state.rank < State.completed.rank) : Finished (onSuccessResponse cfg tsx) := by
  have hbefore : tsx.state.rank < State.terminated.rank := Nat.lt_trans hrank (by decide)
  have hstopped : Links tsx.cancelTimeout := h
  unfold onSuccessResponse
  dsimp only
  split
  · exact alive_terminated hstopped hrole (not_destroyed hbefore)
  · have hready : Links (tsx.cancelTimeout.scheduleTimeout .timeout (tsx.cancelTimeout.lingerTimeout cfg)).cancelRetransmit := h
    exact finished_completed (links_setState hready hbefore (by decide)) hrole rfl rfl

/-- A response in one of the states Calling and Proceeding, when the timers have been stopped as they are for it. -/
theorem onward_response (cfg : Cfg) {inputs : Inputs} {tsx : Tsx} (h : Links tsx) (hrole : tsx.role = .uac)
    (hrank : tsx.state.rank < State.completed.rank) {code : Nat} (cseqMethod : Method) (hcode : 100 ≤ code ∧ code ≤ 699)
    (hstill : tsx.method = .invite → tsx.retransmitTimer = none ∧ tsx.pendingResched = false)
    (htimed : tsx.method ≠ .invite → code < 200 → tsx.timeoutTimer.isSome = true)
    (hack : 300 ≤ code → tsx.method = .invite → AckLeaves tsx inputs) :
    Alive (onStateProceedingUac cfg inputs tsx (.rxMsg (.response code cseqMethod))).1 ∧ (200 ≤ code →
      State.completed.rank ≤ (onStateProceedingUac cfg inputs tsx (.rxMsg (.response code cseqMethod))).1.state.rank) := by
  have hset : Links (tsx.setStatusCode code) := h
  unfold onStateProceedingUac
  dsimp only
  by_cases hprovisional : code / 100 = 1
  · rw [if_pos hprovisional]
    have hless : code < 200 := by omega
    refine ⟨⟨links_setState hset (Nat.lt_trans hrank (by decide)) (by decide), hrole,
      ⟨State.noConfusion, State.noConfusion⟩, fun _ _ => ?_, fun hmethod _ => hstill hmethod⟩,
      fun hfinal => absurd hless (Nat.not_lt.mpr hfinal)⟩
    by_cases hmethod : tsx.method = .invite
    · exact .inr ⟨hmethod, rfl, hless⟩
    · refine .inl ⟨htimed hmethod hless, fun hle => ?_⟩
      exact absurd hle (Nat.not_le.mpr (show State.proceeding.rank < State.completed.rank by decide))
  · rw [if_neg hprovisional]
    have hfinished : Finished (if code / 100 = 2 then (onSuccessResponse cfg (tsx.setStatusCode code), (none : Status))
        else if 300 ≤ code ∧ code ≤ 699 then onFailureResponse cfg inputs (tsx.setStatusCode code)
        else (tsx.setStatusCode code, some .ebug)).1 := by
      split
      · exact finished_onSuccessResponse cfg hset hrole hrank
      · have hfailure : 300 ≤ code ∧ code ≤ 699 := by omega
        rw [if_pos hfailure]
        exact finished_onFailureResponse cfg hset hrole hrank (hack hfailure.1)
    exact ⟨hfinished.1, fun _ => hfinished.2⟩

theorem stopTimers_invite (cfg : Cfg) {tsx : Tsx} (hmethod : tsx.method = .invite) (code : Nat) :
    (stopTimers cfg tsx code).retransmitTimer = none ∧ (stopTimers cfg tsx code).pendingResched = false := by
  have hstop : 200 ≤ code ∨ tsx.cancelRetransmit.method = .invite := .inr hmethod
  unfold stopTimers
  dsimp only
  rw [if_pos hstop]
  exact ⟨rfl, rfl⟩

theorem stopTimers_method (cfg : Cfg) (tsx : Tsx) (code : Nat) : (stopTimers cfg tsx code).method = tsx.method := by
  unfold stopTimers
  dsimp only
  split
  · rfl
  · split
    · rfl
    · rfl

theorem stopTimers_provisional (cfg : Cfg) {tsx : Tsx} (hmethod : tsx.method ≠ .invite) {code : Nat} (hcode : code < 200) :
    (stopTimers cfg tsx code).timeoutTimer = tsx.timeoutTimer := by
  have hneither : ¬(200 ≤ code ∨ tsx.cancelRetransmit.method = .invite) := by
    rintro (hfinal | hinvite)
    · exact absurd hcode (Nat.not_lt.mpr hfinal)
    · exact hmethod hinvite
  unfold stopTimers
  dsimp only
  rw [if_neg hneither]
  split
  · rfl
  · rfl

theorem AckLeaves.of_core {tsx tsx' : Tsx} {inputs : Inputs} (h : AckLeaves tsx inputs) (hcore : tsx'.core = tsx.core) :
    AckLeaves tsx' inputs := by
  simp only [Tsx.core, Prod.mk.injEq] at hcore
  obtain ⟨-, -, -, -, -, htransport, -, -, hresolved, -⟩ := hcore
  unfold AckLeaves Taken at h ⊢
  rw [htransport, hresolved]
  exact h

/-- A response to a client transaction, where the ACK leaves when there is to be one. -/
def Acknowledged (tsx : Tsx) (inputs : Inputs) (code : Nat) : Prop :=
  300 ≤ code → tsx.method = .invite → tsx.state = .calling ∨ tsx.state = .proceeding → AckLeaves tsx inputs

/-- A transaction after a response, which is final from the code 200 on. -/
def Answered (tsx tsx' : Tsx) (code : Nat) : Prop :=
  Onward tsx tsx' ∧ (200 ≤ code → tsx.state ≠ .null → State.completed.rank ≤ tsx'.state.rank)

theorem Alive.response_calling {tsx : Tsx} (h : Alive tsx) (hstate : tsx.state = .calling) (cfg : Cfg) {inputs : Inputs}
    {code : Nat} (cseqMethod : Method) (hcode : 100 ≤ code ∧ code ≤ 699) (hack : Acknowledged tsx inputs code) :
    Answered tsx (onStateCalling cfg inputs tsx (.rxMsg (.response code cseqMethod))).1 code := by
  have hrank : tsx.state.rank < State.completed.rank := by
    rw [hstate]
    decide
  have hcore := core_stopTimers cfg tsx code
  have hmethod := stopTimers_method cfg tsx code
  have hrank' : (stopTimers cfg tsx code).state.rank < State.completed.rank := by
    rw [core_state hcore]
    exact hrank
  have hnull : tsx.state ≠ .null := by
    rw [hstate]
    exact State.noConfusion
  have htimed : (stopTimers cfg tsx code).method ≠ .invite → code < 200 →
      (stopTimers cfg tsx code).timeoutTimer.isSome = true := by
    intro hother hless
    rw [hmethod] at hother
    rw [stopTimers_provisional cfg hother hless]
    exact (h.timed_of_method hother hnull (not_destroyed_of_rank hrank)).1
  obtain ⟨halive, hfinal⟩ := onward_response cfg (links_of_core h.links hcore) ((core_role hcore).trans h.role_eq) hrank'
    cseqMethod hcode (fun hinvite => stopTimers_invite cfg (hmethod.symm.trans hinvite) code) htimed
    fun hfailure hinvite => (hack hfailure (hmethod.symm.trans hinvite) (.inl hstate)).of_core hcore
  exact ⟨.of_early halive hrank, fun hle _ => hfinal hle⟩

theorem Alive.response_proceeding {tsx : Tsx} (h : Alive tsx) (hstate : tsx.state = .proceeding) (cfg : Cfg)
    {inputs : Inputs} {code : Nat} (cseqMethod : Method) (hcode : 100 ≤ code ∧ code ≤ 699)
    (hack : Acknowledged tsx inputs code) :
    Answered tsx (onStateProceedingUac cfg inputs tsx (.rxMsg (.response code cseqMethod))).1 code := by
  have hrank : tsx.state.rank < State.completed.rank := by
    rw [hstate]
    decide
  have hnull : tsx.state ≠ .null := by
    rw [hstate]
    exact State.noConfusion
  obtain ⟨halive, hfinal⟩ := onward_response cfg h.links h.role_eq hrank cseqMethod hcode
    (fun hinvite => h.still hinvite hstate)
    (fun hother _ => (h.timed_of_method hother hnull (not_destroyed_of_rank hrank)).1)
    fun hfailure hinvite => hack hfailure hinvite (.inr hstate)
  exact ⟨.of_early halive hrank, fun hle _ => hfinal hle⟩

/-! Events. -/

theorem Alive.retransmit {tsx : Tsx} (h : Alive tsx) (hstate : tsx.state ≠ .destroyed)
    (hother : ¬(tsx.method = .invite ∧ tsx.state = .proceeding)) (cfg : Cfg) (inputs : Inputs) (resched : Bool) :
    Onward tsx (retransmit cfg inputs tsx resched).1 := by
  obtain ⟨hlinks, hcases⟩ := retransmit_spec cfg inputs h.links hstate resched
  rcases hcases with hheld | hended
  · exact h.held hheld hlinks hother
  · exact h.ended hended hlinks

theorem client_dispatch {tsx : Tsx} (hrole : tsx.role = .uac) (hclient : tsx.state ≠ .trying ∧ tsx.state ≠ .confirmed)
    (cfg : Cfg) (inputs : Inputs) (event : Event) :
    dispatch cfg inputs tsx event = some (match tsx.state with
      | .null => (onStateNull cfg inputs tsx event).1
      | .calling => (onStateCalling cfg inputs tsx event).1
      | .proceeding => (onStateProceedingUac cfg inputs tsx event).1
      | .completed => (onStateCompletedUac cfg inputs tsx event).1
      | .terminated => (onStateTerminated cfg inputs tsx event).1
      | _ => tsx) := by
  unfold dispatch
  rw [hrole]
  cases hstate : tsx.state with
  | trying => exact absurd hstate hclient.1
  | confirmed => exact absurd hstate hclient.2
  | _ => rfl

def KeepsTimer (tsx : Tsx) (inputs : Inputs) : Event → Prop
  | .rxMsg (.response code _) => 100 ≤ code ∧ code ≤ 699 ∧ Acknowledged tsx inputs code
  | .timer .retransmit => ¬(tsx.method = .invite ∧ tsx.state = .proceeding)
  | .timer .timeout => False
  | _ => True

theorem Alive.onStateNull {tsx : Tsx} (h : Alive tsx) (hstate : tsx.state = .null) (cfg : Cfg) (inputs : Inputs)
    (event : Event) : Onward tsx (onStateNull cfg inputs tsx event).1 := by
  have hrank : tsx.state.rank < State.completed.rank := by
    rw [hstate]
    decide
  unfold SipTransaction.onStateNull
  rw [h.role_eq]
  cases event with
  | txMsg tdata => exact .of_early (h.sendRequest hstate cfg inputs tdata) hrank
  | rxMsg msg => exact h.onward
  | timer entry => exact h.onward

theorem Alive.onStateCalling {tsx : Tsx} (h : Alive tsx) (hstate : tsx.state = .calling) (cfg : Cfg) {inputs : Inputs}
    {event : Event} (hkeeps : KeepsTimer tsx inputs event) : Onward tsx (onStateCalling cfg inputs tsx event).1 := by
  have hlive : tsx.state ≠ .destroyed := by
    rw [hstate]
    exact State.noConfusion
  have hother : ¬(tsx.method = .invite ∧ tsx.state = .proceeding) := fun hboth =>
    absurd (hstate.symm.trans hboth.2) State.noConfusion
  cases event with
  | txMsg tdata => exact h.onward
  | rxMsg msg =>
    cases msg with
    | request method => exact h.onward
    | response code cseqMethod =>
      exact (h.response_calling hstate cfg cseqMethod ⟨hkeeps.1, hkeeps.2.1⟩ hkeeps.2.2).1
  | timer entry =>
    cases entry with
    | retransmit => exact h.retransmit hlive hother cfg inputs true
    | timeout => exact absurd hkeeps id

theorem Alive.onStateProceedingUac {tsx : Tsx} (h : Alive tsx) (hstate : tsx.state = .proceeding) (cfg : Cfg)
    {inputs : Inputs} {event : Event} (hkeeps : KeepsTimer tsx inputs event) :
    Onward tsx (onStateProceedingUac cfg inputs tsx event).1 := by
  have hlive : tsx.state ≠ .destroyed := by
    rw [hstate]
    exact State.noConfusion
  cases event with
  | txMsg tdata => exact h.onward
  | rxMsg msg =>
    cases msg with
    | request method => exact h.onward
    | response code cseqMethod =>
      exact (h.response_proceeding hstate cfg cseqMethod ⟨hkeeps.1, hkeeps.2.1⟩ hkeeps.2.2).1
  | timer entry =>
    cases entry with
    | retransmit => exact h.retransmit hlive hkeeps cfg inputs true
    | timeout => exact absurd hkeeps id

theorem Alive.onStateCompletedUac {tsx : Tsx} (h : Alive tsx) (hstate : tsx.state = .completed) (cfg : Cfg)
    {inputs : Inputs} {event : Event} (hkeeps : KeepsTimer tsx inputs event) :
    Onward tsx (onStateCompletedUac cfg inputs tsx event).1 := by
  have hlive : tsx.state ≠ .destroyed := by
    rw [hstate]
    exact State.noConfusion
  have hother : ¬(tsx.method = .invite ∧ tsx.state = .proceeding) := fun hboth =>
    absurd (hstate.symm.trans hboth.2) State.noConfusion
  unfold SipTransaction.onStateCompletedUac
  split
  · exact h.onward
  · exact absurd hkeeps id
  · split
    · split
      · split
        · exact h.retransmit hlive hother cfg inputs false
        · exact h.onward
      · exact h.onward
    · exact h.onward
  · exact h.onward

theorem Alive.onStateTerminated {tsx : Tsx} (h : Alive tsx) (cfg : Cfg) (inputs : Inputs) (event : Event) :
    Onward tsx (onStateTerminated cfg inputs tsx event).1 := by
  have hlinks := links_destroyed h.links true
  unfold SipTransaction.onStateTerminated
  split
  · rw [setState_destroyed_eq] at hlinks ⊢
    exact onward_of_destroyed h.role_eq rfl hlinks
  · exact h.onward

theorem Alive.dispatch {tsx : Tsx} (h : Alive tsx) (cfg : Cfg) {inputs : Inputs} {event : Event}
    (hkeeps : KeepsTimer tsx inputs event) : ∃ tsx', dispatch cfg inputs tsx event = some tsx' ∧ Onward tsx tsx' := by
  rw [client_dispatch h.role_eq h.client]
  refine ⟨_, rfl, ?_⟩
  cases hstate : tsx.state with
  | null => exact h.onStateNull hstate cfg inputs event
  | calling => exact h.onStateCalling hstate cfg hkeeps
  | proceeding => exact h.onStateProceedingUac hstate cfg hkeeps
  | completed => exact h.onStateCompletedUac hstate cfg hkeeps
  | terminated => exact h.onStateTerminated cfg inputs event
  | trying => exact h.onward
  | confirmed => exact h.onward
  | destroyed => exact h.onward

theorem onward_timeout {tsx : Tsx} (hlinks : Links tsx) (hrole : tsx.role = .uac)
    (hclient : tsx.state ≠ .trying ∧ tsx.state ≠ .confirmed) (cfg : Cfg) (inputs : Inputs) :
    ∃ tsx', dispatch cfg inputs tsx (.timer .timeout) = some tsx' ∧ Onward tsx tsx' := by
  have hended : tsx.state ≠ .destroyed → Onward tsx (setState tsx .terminated true) ∧
      Onward tsx (setState (tsx.setStatusCode scTimeout) .terminated true) := by
    intro hlive
    have hcode : Links (tsx.setStatusCode scTimeout) := hlinks
    obtain ⟨halive, hrank⟩ := alive_terminated hlinks hrole hlive
    obtain ⟨halive', hrank'⟩ := alive_terminated hcode hrole hlive
    exact ⟨⟨halive, fun _ => hrank⟩, ⟨halive', fun _ => hrank'⟩⟩
  rw [client_dispatch hrole hclient]
  refine ⟨_, rfl, ?_⟩
  cases hstate : tsx.state with
  | null =>
    have hnull : Alive tsx := by
      refine ⟨hlinks, hrole, hclient, fun hnot => absurd hstate hnot, fun _ hproceeding => ?_⟩
      exact absurd (hstate.symm.trans hproceeding) State.noConfusion
    exact hnull.onStateNull hstate cfg inputs _
  | calling =>
    have hstopped : Links { tsx.cancelRetransmit with pendingResched := false, statusCode := scTimeout } := hlinks
    have hlive : tsx.state ≠ .destroyed := by
      rw [hstate]
      exact State.noConfusion
    obtain ⟨halive', hrank'⟩ := alive_terminated hstopped hrole hlive
    exact ⟨halive', fun _ => hrank'⟩
  | proceeding =>
    rw [hstate] at hended
    exact (hended State.noConfusion).2
  | completed =>
    rw [hstate] at hended
    exact (hended State.noConfusion).1
  | terminated =>
    have hdestroyed := links_destroyed hlinks true
    unfold onStateTerminated
    dsimp only
    rw [setState_destroyed_eq] at hdestroyed ⊢
    exact onward_of_destroyed hrole rfl hdestroyed
  | trying => exact absurd hstate hclient.1
  | confirmed => exact absurd hstate hclient.2
  | destroyed => exact onward_of_destroyed hrole hstate hlinks

/-- A timer that carries an error of the transport ends the transaction, if it is not at its end. -/
theorem onward_transportError {tsx : Tsx} (hlinks : Links tsx) (hrole : tsx.role = .uac)
    (hlast : tsx.state.rank < State.terminated.rank ∨ tsx.state = .destroyed) (disc : Bool) :
    Onward tsx (onTransportError tsx disc) := by
  rw [onTransportError_eq]
  split
  · rename_i hrank
    have hrelease : Links (updateTransport tsx none) := links_release hlinks
    have hclient : ¬tsx.goesOn disc = true := fun hgoes =>
      absurd (hrole.symm.trans (Tsx.goesOn_role hgoes)) Role.noConfusion
    rw [if_neg hclient]
    generalize hcode : (if (updateTransport tsx none).statusCode < 200 then
      (updateTransport tsx none).setStatusCode scTransportError else updateTransport tsx none) = u
    have hcore : u.core = (updateTransport tsx none).core := by
      rw [← hcode]
      exact core_ite rfl rfl
    have hlive : u.state ≠ .destroyed := by
      rw [core_state hcore]
      exact not_destroyed hrank
    obtain ⟨halive, hrank'⟩ := alive_terminated (links_of_core hrelease hcore) ((core_role hcore).trans hrole) hlive
    exact ⟨halive, fun _ => hrank'⟩
  · rename_i hrank
    rcases hlast with hearly | hdestroyed
    · exact absurd hearly hrank
    · exact onward_of_destroyed hrole hdestroyed hlinks

theorem Alive.timerCallback {tsx : Tsx} (h : Alive tsx) (cfg : Cfg) (inputs : Inputs) {entry : TimerEntry}
    (henabled : enabled tsx (.timer entry inputs) = true) :
    ∃ tsx', timerCallback cfg inputs tsx entry = some tsx' ∧ Onward tsx tsx' := by
  unfold SipTransaction.timerCallback
  cases entry with
  | retransmit =>
    have hother : ¬(tsx.method = .invite ∧ tsx.state = .proceeding) := by
      rintro ⟨hmethod, hstate⟩
      have hsome : tsx.retransmitTimer.isSome = true := henabled
      rw [(h.still hmethod hstate).1] at hsome
      cases hsome
    have halive : Alive { tsx with retransmitTimer := none } :=
      ⟨h.links, h.role_eq, h.client, h.timed, fun hmethod hstate => absurd ⟨hmethod, hstate⟩ hother⟩
    have hkeeps : KeepsTimer { tsx with retransmitTimer := none } inputs (.timer .retransmit) := hother
    obtain ⟨tsx', hdispatch, honward⟩ := halive.dispatch cfg hkeeps
    exact ⟨tsx', hdispatch, honward.alive, honward.late⟩
  | timeout =>
    have hlinks : Links { tsx with timeoutTimer := none } := h.links
    have herror : ∀ id, tsx.timeoutTimer.map Prod.fst = some id → id ≠ .timeout →
        tsx.state.rank < State.terminated.rank ∨ tsx.state = .destroyed := by
      intro id hid hne
      by_cases hdestroyed : tsx.state = .destroyed
      · exact .inr hdestroyed
      · refine .inl (rank_lt_terminated (fun hterminated => ?_) hdestroyed)
        have hnull : tsx.state ≠ .null := by
          rw [hterminated]
          exact State.noConfusion
        rcases h.timed hnull hdestroyed with htimed | hrings
        · have hkind := htimed.2 (by rw [hterminated]; decide)
          exact hne (Option.some.inj (hid.symm.trans hkind))
        · exact absurd (hterminated.symm.trans hrings.2.1) State.noConfusion
    dsimp only
    split
    · rename_i htimer
      have honward := onward_transportError hlinks h.role_eq
        (herror .transportErr (by rw [htimer]; rfl) TimerId.noConfusion) false
      exact ⟨_, rfl, honward.alive, honward.late⟩
    · rename_i htimer
      have honward := onward_transportError hlinks h.role_eq
        (herror .transportDisc (by rw [htimer]; rfl) TimerId.noConfusion) true
      exact ⟨_, rfl, honward.alive, honward.late⟩
    · obtain ⟨tsx', hdispatch, honward⟩ := onward_timeout hlinks h.role_eq h.client cfg inputs
      exact ⟨tsx', hdispatch, honward.alive, honward.late⟩

/-! Runs. -/

theorem Alive.transportCallback {tsx : Tsx} (h : Alive tsx) (hpending : 0 < tsx.tpPending) (cfg : Cfg) (inputs : Inputs)
    (error : Status) : Onward tsx (transportCallbackImpl cfg inputs tsx error) := by
  have hresolved : tsx.resolvedServer = true := h.links.callbacks h.role_eq hpending
  have hlinks : Links { tsx with pendingTransport := false, tpPending := tsx.tpPending - 1 } :=
    ⟨h.links.transport, fun _ _ => hresolved, fun _ _ _ => .inr hresolved, h.links.destroy, h.links.ended⟩
  have hback : Alive { tsx with pendingTransport := false, tpPending := tsx.tpPending - 1 } :=
    ⟨hlinks, h.role_eq, h.client, h.timed, h.still⟩
  unfold transportCallbackImpl onTransportSend postError
  split
  · obtain ⟨hafter, hcases⟩ := flushPending_spec cfg (sendMsg_spec cfg inputs.sends) hlinks
    rcases hcases with hkept | ⟨hended, -⟩ | hrepeated
    · obtain ⟨halive, hlate⟩ := hback.kept hkept hafter fun _ => hkept.code h.role_eq hresolved
      exact ⟨halive, hlate⟩
    · obtain ⟨halive, hlate⟩ := hback.ended hended hafter
      exact ⟨halive, hlate⟩
    · exact onward_of_destroyed (hrepeated.role_eq.trans h.role_eq) hrepeated.state_eq hafter
  · dsimp only
    split
    · rename_i hrank
      refine .of_early ⟨hlinks, h.role_eq, h.client, fun _ _ => .inl ⟨rfl, fun hle => ?_⟩, h.still⟩ hrank
      exact absurd hrank (Nat.not_lt.mpr hle)
    · exact ⟨⟨hlinks, h.role_eq, h.client, h.timed, h.still⟩, fun hle => hle⟩

/-- The condition on a step: the code of a response is one of SIP, and the ACK leaves when there is to be one. -/
def TimerKept : Option Tsx → Action → Prop
  | some tsx, .recvMsg (.response code _) inputs => 100 ≤ code ∧ code ≤ 699 ∧ Acknowledged tsx inputs code
  | _, _ => True

theorem Alive.act {tsx : Tsx} (h : Alive tsx) (cfg : Cfg) {a : Action} (henabled : enabled tsx a = true)
    (hkept : TimerKept (some tsx) a) : ∃ tsx', act cfg tsx a = some tsx' ∧ Onward tsx tsx' := by
  cases a with
  | sendMsg tdata inputs =>
    unfold SipTransaction.act
    dsimp only
    split
    · exact ⟨tsx, rfl, h.onward⟩
    · rename_i tdata _
      have hkeeps : KeepsTimer tsx inputs (.txMsg tdata) := trivial
      exact h.dispatch cfg hkeeps
  | recvMsg msg inputs =>
    cases msg with
    | request method =>
      have hkeeps : KeepsTimer tsx inputs (.rxMsg (.request method)) := trivial
      exact h.dispatch cfg hkeeps
    | response code cseqMethod =>
      have hkeeps : KeepsTimer tsx inputs (.rxMsg (.response code cseqMethod)) := hkept
      exact h.dispatch cfg hkeeps
  | timer entry inputs => exact h.timerCallback cfg inputs henabled
  | sent tp inputs =>
    refine ⟨_, rfl, ?_⟩
    obtain ⟨hlinks, hcases⟩ := sendMsgSent_spec cfg (sendMsg_spec cfg inputs.sends) h.links tp
    rcases hcases with ⟨hsame, hcode⟩ | ⟨hended, -⟩ | hrepeated
    · exact h.kept hsame hlinks fun _ => hcode h.role_eq
    · exact h.ended hended hlinks
    · exact onward_of_destroyed (hrepeated.role_eq.trans h.role_eq) hrepeated.state_eq hlinks
  | sendFailed failure =>
    refine ⟨_, rfl, ?_⟩
    obtain ⟨hlinks, hcases⟩ := sendMsgFailed_spec cfg h.links failure
    rcases hcases with ⟨hsame, -, hcode⟩ | ⟨hended, -⟩ | hrepeated
    · exact h.kept hsame hlinks fun _ => hcode
    · exact h.ended hended hlinks
    · exact onward_of_destroyed (hrepeated.role_eq.trans h.role_eq) hrepeated.state_eq hlinks
  | transportCallback error inputs => exact ⟨_, rfl, h.transportCallback (of_decide_eq_true henabled) cfg inputs error⟩
  | disconnected status =>
    have hsome : tsx.transport.isSome = true := henabled
    have hsame := kept_tpStateCallback tsx status
    refine ⟨_, rfl, h.kept hsame (links_tpStateCallback h.links hsome status) fun _ => ?_⟩
    exact hsame.code h.role_eq (h.links.transport h.role_eq hsome)
  | terminate code =>
    refine ⟨_, rfl, ?_⟩
    unfold SipTransaction.terminate
    split
    · rename_i hcode
      have hset : Links (tsx.setStatusCode code) := h.links
      obtain ⟨halive, hrank⟩ := alive_terminated hset h.role_eq (not_destroyed hcode.2)
      exact ⟨halive, fun _ => hrank⟩
    · exact h.onward
  | setTimeout millisec =>
    refine ⟨_, rfl, ?_⟩
    unfold SipTransaction.setTimeout
    split
    · split
      · exact h.onward
      · exact h.kept (kept_restartTimeout tsx millisec) h.links fun _ => rfl
    · exact h.onward
  | stopRetransmit =>
    refine ⟨_, rfl, ?_⟩
    unfold SipTransaction.stopRetransmit
    split
    · refine ⟨⟨h.links, h.role_eq, h.client, h.timed, fun hmethod hstate => ⟨rfl, ?_⟩⟩, fun hle => hle⟩
      exact (h.still hmethod hstate).2
    · exact h.onward

theorem createUac_alive (method : Method) (tdata : Tdata) (reliable : Bool) : Alive (createUac method tdata reliable) :=
  ⟨(createUac_forward method tdata reliable).links, rfl, ⟨State.noConfusion, State.noConfusion⟩,
    fun hnull => absurd rfl hnull, fun _ => State.noConfusion⟩

theorem step_eq_some {cfg : Cfg} {s t : Option Tsx} {a : Action} (h : step cfg s a = some t) :
    ∃ tsx, s = some tsx ∧ enabled tsx a = true ∧ t = act cfg tsx a := by
  cases s with
  | none => exact absurd h.symm (Option.some_ne_none t)
  | some tsx =>
    rw [step, Option.bind_some] at h
    split at h
    · rename_i henabled
      exact ⟨tsx, rfl, henabled, (Option.some.inj h).symm⟩
    · exact absurd h.symm (Option.some_ne_none t)

theorem alive_step {cfg : Cfg} {s t : Option Tsx} {a : Action} (h : ∃ tsx, s = some tsx ∧ Alive tsx)
    (hkept : TimerKept s a) (hstep : step cfg s a = some t) :
    ∃ tsx tsx', s = some tsx ∧ t = some tsx' ∧ Onward tsx tsx' := by
  obtain ⟨tsx, rfl, halive⟩ := h
  obtain ⟨u, hu, henabled, rfl⟩ := step_eq_some hstep
  cases hu
  obtain ⟨tsx', hact, honward⟩ := halive.act cfg henabled hkept
  exact ⟨tsx, tsx', rfl, hact, honward⟩

theorem alive_run {cfg : Cfg} {tsx : Tsx} (h : Alive tsx) {acts : List Action} {s : Option Tsx}
    (hkept : Meets (step cfg) TimerKept (some tsx) acts) (hrun : exec (step cfg) (some tsx) acts = some s) :
    ∃ tsx', s = some tsx' ∧ Alive tsx' := by
  refine exec_invariant_of_meets (P := fun s => ∃ tsx', s = some tsx' ∧ Alive tsx') (fun s a t hs hcond hstep => ?_) ⟨tsx, rfl, h⟩ hkept hrun
  obtain ⟨u, u', -, hu', honward⟩ := alive_step hs hcond hstep
  exact ⟨u', hu', honward.alive⟩

/-- From the state Completed on there is no way back. -/
theorem finished_run {cfg : Cfg} {tsx : Tsx} (h : Finished tsx) {acts : List Action} {s : Option Tsx}
    (hkept : Meets (step cfg) TimerKept (some tsx) acts) (hrun : exec (step cfg) (some tsx) acts = some s) :
    ∃ tsx', s = some tsx' ∧ Finished tsx' := by
  refine exec_invariant_of_meets (P := fun s => ∃ tsx', s = some tsx' ∧ Finished tsx') (fun s a t hs hcond hstep => ?_) ⟨tsx, rfl, h⟩ hkept hrun
  obtain ⟨u, hsome, hfinished⟩ := hs
  obtain ⟨v, v', hv, hv', honward⟩ := alive_step ⟨u, hsome, hfinished.1⟩ hcond hstep
  have huv : u = v := Option.some.inj (hsome.symm.trans hv)
  refine ⟨v', hv', honward.alive, honward.late ?_⟩
  rw [← huv]
  exact hfinished.2

/-- A final response came when the request had been sent. -/
def FinalReceived (cfg : Cfg) (tsx : Tsx) (acts : List Action) : Prop :=
  ∃ before code cseqMethod inputs after u, acts = before ++ .recvMsg (.response code cseqMethod) inputs :: after ∧
    200 ≤ code ∧ exec (step cfg) (some tsx) before = some (some u) ∧ u.state ≠ .null

theorem Alive.finished_of_response {tsx : Tsx} (h : Alive tsx) (hnull : tsx.state ≠ .null) (cfg : Cfg) {code : Nat}
    {cseqMethod : Method} {inputs : Inputs} (hfinal : 200 ≤ code)
    (hkept : TimerKept (some tsx) (.recvMsg (.response code cseqMethod) inputs)) :
    ∃ tsx', SipTransaction.act cfg tsx (.recvMsg (.response code cseqMethod) inputs) = some tsx' ∧ Finished tsx' := by
  obtain ⟨tsx', hact, honward⟩ := h.act cfg rfl hkept
  refine ⟨tsx', hact, honward.alive, ?_⟩
  by_cases hlate : State.completed.rank ≤ tsx.state.rank
  · exact honward.late hlate
  · obtain ⟨hlow, hhigh, hack⟩ := hkept
    have hdispatch := client_dispatch h.role_eq h.client cfg inputs (.rxMsg (.response code cseqMethod))
    have heq := Option.some.inj (hact.symm.trans hdispatch)
    cases hstate : tsx.state with
    | calling =>
      rw [hstate] at heq
      rw [heq]
      exact (h.response_calling hstate cfg cseqMethod ⟨hlow, hhigh⟩ hack).2 hfinal hnull
    | proceeding =>
      rw [hstate] at heq
      rw [heq]
      exact (h.response_proceeding hstate cfg cseqMethod ⟨hlow, hhigh⟩ hack).2 hfinal hnull
    | null => exact absurd hstate hnull
    | trying => exact absurd hstate h.client.1
    | confirmed => exact absurd hstate h.client.2
    | completed =>
      rw [hstate] at hlate
      exact absurd le_rfl hlate
    | terminated =>
      rw [hstate] at hlate
      exact absurd (show State.completed.rank ≤ State.terminated.rank by decide) hlate
    | destroyed =>
      rw [hstate] at hlate
      exact absurd (show State.completed.rank ≤ State.destroyed.rank by decide) hlate

/-- **No client transaction is stuck**: in a run where the ACK leaves for each response that refuses the INVITE, no
handler is missing, a client transaction that has sent its request and has not been destroyed waits for its timer or, in
the state Proceeding of an INVITE, for a final response, and after a final response it is completed or terminated. -/
theorem client_not_stuck (cfg : Cfg) (method : Method) (tdata : Tdata) (reliable : Bool) {acts : List Action}
    {s : Option Tsx} (hkept : Meets (step cfg) TimerKept (some (createUac method tdata reliable)) acts)
    (hrun : exec (step cfg) (some (createUac method tdata reliable)) acts = some s) :
    ∃ tsx, s = some tsx ∧ (tsx.state ≠ .null → tsx.state ≠ .destroyed → tsx.timeoutTimer.isSome = true ∨
        (tsx.method = .invite ∧ tsx.state = .proceeding ∧
          ¬FinalReceived cfg (createUac method tdata reliable) acts)) ∧
      (FinalReceived cfg (createUac method tdata reliable) acts →
        tsx.state = .completed ∨ tsx.state = .terminated ∨ tsx.state = .destroyed) := by
  obtain ⟨tsx, rfl, halive⟩ := alive_run (createUac_alive method tdata reliable) hkept hrun
  have hfinal : FinalReceived cfg (createUac method tdata reliable) acts → State.completed.rank ≤ tsx.state.rank := by
    rintro ⟨before, code, cseqMethod, inputs, after, u, rfl, hcode, hbefore, hnull⟩
    obtain ⟨hfirst, hrest⟩ := meets_append hkept hbefore
    obtain ⟨v, hv, hu⟩ := alive_run (createUac_alive method tdata reliable) hfirst hbefore
    cases hv
    obtain ⟨w, hw, hfinished⟩ := hu.finished_of_response hnull cfg hcode hrest.1
    have hstep : step cfg (some u) (.recvMsg (.response code cseqMethod) inputs) = some (some w) := by
      rw [← hw]
      rfl
    have hafter : exec (step cfg) (some w) after = some (some tsx) := by
      rw [exec_append_of_exec hbefore, exec_cons, hstep, Option.bind_some] at hrun
      exact hrun
    obtain ⟨tsx', htsx', hlast⟩ := finished_run hfinished (hrest.2 _ hstep) hafter
    cases htsx'
    exact hlast.2
  refine ⟨tsx, rfl, fun hnull hdestroyed => ?_, fun hreceived => ?_⟩
  · rcases halive.timed hnull hdestroyed with htimed | ⟨hmethod, hstate, -⟩
    · exact .inl htimed.1
    · refine .inr ⟨hmethod, hstate, fun hreceived => ?_⟩
      have hrank := hfinal hreceived
      rw [hstate] at hrank
      exact absurd hrank (by decide)
  · have hrank := hfinal hreceived
    cases hstate : tsx.state with
    | completed => exact .inl rfl
    | terminated => exact .inr (.inl rfl)
    | destroyed => exact .inr (.inr rfl)
    | confirmed => exact absurd hstate halive.client.2
    | _ =>
      rw [hstate] at hrank
      exact absurd hrank (by decide)

instance (tsx : Tsx) (send : Send) : Decidable (Taken tsx send) := inferInstanceAs (Decidable (_ ∨ _ ∨ _ ∨ _))

instance (tsx : Tsx) (inputs : Inputs) : Decidable (AckLeaves tsx inputs) := inferInstanceAs (Decidable (_ ∧ _))

instance (tsx : Tsx) (inputs : Inputs) (code : Nat) : Decidable (Acknowledged tsx inputs code) :=
  inferInstanceAs (Decidable (300 ≤ code → tsx.method = .invite → _ ∨ _ → AckLeaves tsx inputs))

instance : (s : Option Tsx) → (a : Action) → Decidable (TimerKept s a)
  | some tsx, .recvMsg (.response code _) inputs =>
    inferInstanceAs (Decidable (100 ≤ code ∧ code ≤ 699 ∧ Acknowledged tsx inputs code))
  | some _, .recvMsg (.request _) _ | some _, .sendMsg _ _ | some _, .timer _ _ | some _, .sent _ _
  | some _, .sendFailed _ | some _, .transportCallback _ _ | some _, .disconnected _ | some _, .terminate _
  | some _, .setTimeout _ | some _, .stopRetransmit | none, _ => .isTrue trivial

theorem client_not_stuck_invite :
    ∃ tsx, exec (step rfcCfg) (some inviteUac) inviteRefused = some (some tsx) ∧
      tsx.timeoutTimer = some (.timeout, 32000) ∧ FinalReceived rfcCfg inviteUac inviteRefused ∧
      (tsx.state = .completed ∨ tsx.state = .terminated ∨ tsx.state = .destroyed) := by
  have hrun : ∃ s, exec (step rfcCfg) (some inviteUac) inviteRefused = some s ∧
      s.map Tsx.timeoutTimer = some (some (.timeout, 32000)) := ⟨_, rfl, rfl⟩
  have hfinal : FinalReceived rfcCfg inviteUac inviteRefused :=
    ⟨[_], 486, .invite, _, [], _, rfl, by decide, rfl, State.noConfusion⟩
  obtain ⟨s, hexec, htimer⟩ := hrun
  obtain ⟨tsx, rfl, -, hlast⟩ := client_not_stuck rfcCfg .invite ⟨1, .request .invite⟩ false (by decide) hexec
  exact ⟨tsx, hexec, Option.some.inj htimer, hfinal, hlast hfinal⟩

/-- The ACK cannot be made: the timers have been cancelled, and the transaction stays in the state Calling. -/
theorem client_stuck :
    ∃ tsx, exec (step rfcCfg) (some inviteUac)
        [.sendMsg none (withAck [⟨false, .sent, .tried [] (some ⟨1, false, false⟩)⟩]),
          .recvMsg (.response 486 .invite) ⟨[], .error (.other 70007)⟩] = some (some tsx) ∧
      tsx.state = .calling ∧ tsx.statusCode = 486 ∧ tsx.timeoutTimer = none ∧ tsx.retransmitTimer = none :=
  ⟨_, rfl, rfl, rfl, rfl, rfl⟩

end PjProject.SipTransaction
