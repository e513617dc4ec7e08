import PjProject.SipTransactionInterval

/-! The response that a SIP server transaction repeats when its request is retransmitted. The saved response is discarded
before the next one is sent, but the transaction has ended when that send returns an error: without a transport the
endpoint resolves the server, and reports an error to the callback instead of refusing the response. -/

namespace PjProject.SipTransaction

/-! What everything but a new response leaves. -/

/-- The endpoint has no transport for a response, or the transaction has one and waits for no other. -/
def Settled (tsx : Tsx) : Prop := tsx.resTransport = none ∨ (tsx.transport ≠ none ∧ tsx.pendingTx = none)

theorem updateTransport_some (tsx : Tsx) (tp : Transport) : (updateTransport tsx (some tp)).transport ≠ none := by
  unfold updateTransport tpStateCallback
  dsimp only
  split
  · split
    · exact Option.some_ne_none tp
    · exact Option.some_ne_none tp
  · exact Option.some_ne_none tp

/-- The role stays; so do the state and the saved response, unless the transaction leaves the states in which it
repeats a response. A status code that is set is one, and the transport for responses is lost with the transaction only. -/
structure Stays (tsx tsx' : Tsx) : Prop where
  role_eq : tsx'.role = tsx.role
  saved : (tsx'.state = tsx.state ∧ tsx'.lastTx = tsx.lastTx) ∨ (tsx'.state ≠ .proceeding ∧ tsx'.state ≠ .completed)
  last : tsx'.lastTx = tsx.lastTx ∨ tsx'.lastTx = none
  code : 100 ≤ tsx.statusCode → 100 ≤ tsx'.statusCode
  late : State.terminated.rank ≤ tsx.state.rank → State.terminated.rank ≤ tsx'.state.rank
  settled : tsx'.state.rank < State.terminated.rank → Settled tsx → Settled tsx'

namespace Stays

/-- Whatever else is updated. -/
theorem upd {tsx u : Tsx}
    (h : (u.role, u.state, u.lastTx, u.statusCode) = (tsx.role, tsx.state, tsx.lastTx, tsx.statusCode))
    (hsettled : Settled tsx → Settled u) : Stays tsx u := by
  simp only [Prod.mk.injEq] at h
  obtain ⟨hrole, hstate, hlast, hcode⟩ := h
  exact ⟨hrole, .inl ⟨hstate, hlast⟩, .inl hlast, fun h => hcode.symm ▸ h, fun h => hstate.symm ▸ h, fun _ => hsettled⟩

theorem refl (tsx : Tsx) : Stays tsx tsx := upd rfl id

theorem trans {tsx tsx' tsx'' : Tsx} (h : Stays tsx tsx') (h' : Stays tsx' tsx'') : Stays tsx tsx'' := by
  refine ⟨h'.role_eq.trans h.role_eq, ?_, ?_, fun hcode => h'.code (h.code hcode), fun hlate => h'.late (h.late hlate),
    fun hearly hsettled => h'.settled hearly (h.settled ?_ hsettled)⟩
  · rcases h'.saved with ⟨hstate', hlast'⟩ | hleft
    · rw [hstate', hlast']
      exact h.saved
    · exact .inr hleft
  · rcases h'.last with hlast' | hnone
    · rw [hlast']
      exact h.last
    · exact .inr hnone
  · exact Nat.lt_of_not_le fun hlate => absurd hearly (Nat.not_lt.mpr (h'.late hlate))

theorem ite {p : Prop} [Decidable p] {tsx a b : Tsx} (ha : Stays tsx a) (hb : Stays tsx b) :
    Stays tsx (if p then a else b) := by
  split
  · exact ha
  · exact hb

theorem terminated (tsx : Tsx) (schedule : Bool) : Stays tsx (setState tsx .terminated schedule) := by
  obtain ⟨pendingTx, timer, -, -, heq⟩ := setState_terminated_eq tsx schedule
  rw [heq]
  exact ⟨rfl, .inr ⟨State.noConfusion, State.noConfusion⟩, .inl rfl, fun h => h, fun _ => Nat.le_refl _,
    fun hearly => absurd hearly (Nat.lt_irrefl _)⟩

theorem destroyed (tsx : Tsx) (schedule : Bool) : Stays tsx (setState tsx .destroyed schedule) := by
  rw [setState_destroyed_eq]
  exact ⟨rfl, .inr ⟨State.noConfusion, State.noConfusion⟩, .inr rfl, fun h => h, fun _ => Nat.le_succ _,
    fun hearly => absurd hearly (Nat.not_lt.mpr (Nat.le_succ _))⟩

theorem updateTransport (tsx : Tsx) (tp : Option Transport)
    (hsettled : Settled tsx → Settled (SipTransaction.updateTransport tsx tp)) : Stays tsx (updateTransport tsx tp) := by
  have hkept := kept_updateTransport tsx tp
  obtain ⟨-, -, -, hlast, hcode⟩ := updateTransport_frame tsx tp
  exact upd (Prod.ext hkept.role_eq (Prod.ext hkept.state_eq (Prod.ext hlast hcode))) hsettled

theorem release (tsx : Tsx) (hpending : tsx.pendingTx ≠ none) : Stays tsx (SipTransaction.updateTransport tsx none) :=
  updateTransport tsx none fun hsettled => hsettled.imp_right fun hand => absurd hand.2 hpending

theorem tpStateCallback (tsx : Tsx) (status : Status) : Stays tsx (tpStateCallback tsx status) :=
  ite (upd rfl id) (upd rfl id)

theorem reschedRetransmission (cfg : Cfg) (tsx : Tsx) : Stays tsx (reschedRetransmission cfg tsx) := by
  obtain ⟨timer, heq⟩ := reschedRetransmission_eq cfg tsx
  rw [heq]
  exact upd rfl id

theorem setStatusCode (tsx : Tsx) {code : Nat} (hcode : 100 ≤ code) : Stays tsx (tsx.setStatusCode code) :=
  ⟨rfl, .inl ⟨rfl, rfl⟩, .inl rfl, fun _ => hcode, id, fun _ => id⟩

theorem giveUp (cfg : Cfg) (tsx : Tsx) {sc : Nat} (hsc : 100 ≤ sc) : Stays tsx (giveUp cfg tsx sc) := by
  have hcode := setStatusCode tsx hsc
  have hresched : Stays tsx { tsx with pendingResched := false } := upd rfl id
  exact ite (hcode.trans (terminated _ true)) (ite (hcode.trans (destroyed _ true))
    (ite (hresched.trans (reschedRetransmission cfg _)) (refl tsx)))

theorem sendMsgFailed (cfg : Cfg) (tsx : Tsx) (failure : Failure) : Stays tsx (sendMsgFailed cfg tsx failure) := by
  unfold SipTransaction.sendMsgFailed
  split
  · exact refl tsx
  rename_i hpending
  have hleave := ite (p := failure.curTransport = tsx.transport.map Transport.id) (release tsx hpending) (refl tsx)
  refine hleave.trans ?_
  generalize (if failure.curTransport = tsx.transport.map Transport.id then SipTransaction.updateTransport tsx none
    else tsx) = u
  have hfailed : Stays u { u with
      pendingTx := none, transportErr := some failure.error, pendingTransport := false, resolvedServer := true } :=
    upd rfl fun hsettled => hsettled.imp_right fun hand => ⟨hand.1, rfl⟩
  have hcode : 100 ≤ failureCode failure.error := by
    unfold failureCode
    split <;> decide
  exact ite (hfailed.trans (giveUp cfg _ hcode)) (ite (upd rfl id) (upd rfl id))

/-- The transport is released when the message is left to the endpoint. -/
theorem sendOnTransport (tsx : Tsx) (send : TpSend) :
    Stays tsx (SipTransaction.sendOnTransport tsx send).1 ∧
      ((SipTransaction.sendOnTransport tsx send).2.isSome = true →
        (SipTransaction.sendOnTransport tsx send).1.transport = none ∧
          (Settled tsx → (SipTransaction.sendOnTransport tsx send).1.resTransport = none)) := by
  unfold SipTransaction.sendOnTransport
  split
  · rename_i hnone
    exact ⟨refl tsx, fun _ => ⟨hnone, fun hsettled => hsettled.elim id fun hand => absurd hnone hand.1⟩⟩
  · split
    · exact ⟨refl tsx, Bool.noConfusion⟩
    · exact ⟨upd rfl id, Bool.noConfusion⟩
    · exact ⟨upd rfl fun _ => .inl rfl, fun _ => ⟨rfl, fun _ => rfl⟩⟩

theorem failures (cfg : Cfg) (failures : List Failure) (tsx : Tsx) :
    Stays tsx (failures.foldl (SipTransaction.sendMsgFailed cfg) tsx) := by
  induction failures generalizing tsx with
  | nil => exact refl tsx
  | cons failure more ih => exact (sendMsgFailed cfg tsx failure).trans (ih _)

/-! A send, where `again` is the one from its own callback. -/

section Sends

variable {again : Tsx → Tdata → Tsx × Status} (hagain : ∀ tsx tdata, Stays tsx (again tsx tdata).1)

include hagain

theorem flushPending (cfg : Cfg) (tsx : Tsx) : Stays tsx (flushPending cfg again tsx) := by
  have hresched (u : Tsx) : Stays u (reschedPending cfg u) := by
    obtain ⟨resched, timer, heq, -⟩ := reschedPending_eq cfg u
    exact heq ▸ (upd rfl id)
  have hsend : Stays tsx { tsx with pendingSend := false } := upd rfl id
  refine ite (destroyed tsx true) (trans ?_ (hresched _))
  refine ite ?_ (refl tsx)
  dsimp only
  split
  · exact hsend.trans (hagain _ _)
  · exact hsend

theorem sendMsgSent (cfg : Cfg) (tsx : Tsx) (tp : Transport) : Stays tsx (sendMsgSent cfg again tsx tp) := by
  refine ite (refl tsx) ?_
  have hsent : Stays tsx { tsx with pendingTx := none } :=
    upd rfl fun hsettled => hsettled.imp_right fun hand => ⟨hand.1, rfl⟩
  refine hsent.trans ?_
  have hnew : Settled { tsx with pendingTx := none } →
      Settled (SipTransaction.updateTransport { tsx with pendingTx := none } (some tp)) := fun _ =>
    .inr ⟨updateTransport_some _ tp, (updateTransport_frame _ (some tp)).2.2.1⟩
  have hupdate := updateTransport { tsx with pendingTx := none } (some tp) hnew
  generalize { tsx with pendingTx := none } = u at hupdate
  have htransport : ∀ v : Tsx, Stays v { v with isReliable := tp.reliable } := fun _ => upd rfl id
  have hnew := ite (p := u.transport.map Transport.id ≠ some tp.id) (hupdate.trans (htransport _)) (refl u)
  refine hnew.trans ?_
  have hresolved : ∀ v : Tsx, Stays v { v with pendingTransport := false, resolvedServer := true } :=
    fun _ => upd rfl id
  exact (hresolved _).trans (flushPending hagain cfg _)

theorem sendStateless (cfg : Cfg) {tsx : Tsx} (hnone : tsx.transport = none) (tdata : Tdata) (send : Stateless) :
    Stays tsx (sendStateless cfg again tsx tdata send).1 := by
  unfold SipTransaction.sendStateless
  cases if tdata.msg.isRequest then send else endptSendResponse tsx.resTransport send with
  | refused error =>
    have hdropped : Stays tsx { tsx with pendingTx := none } :=
      upd rfl fun hsettled => hsettled.imp_right fun hand => ⟨hand.1, rfl⟩
    exact ite (hdropped.trans (setStatusCode _ (by decide))) hdropped
  | tried fails sent =>
    have hstart : Stays tsx { tsx with pendingTx := some tdata, pendingTransport := true } :=
      upd rfl fun hsettled => hsettled.imp_right fun hand => absurd hnone hand.1
    have htried := hstart.trans (failures cfg fails _)
    cases sent with
    | none => exact htried
    | some tp => exact htried.trans (sendMsgSent hagain cfg _ tp)

theorem sendWith (cfg : Cfg) (send : Send) (tsx : Tsx) (tdata : Tdata) :
    Stays tsx (sendWith cfg again send tsx tdata).1 := by
  obtain ⟨htransport, hnone⟩ := sendOnTransport tsx send.viaTransport
  unfold SipTransaction.sendWith
  split
  · exact upd rfl id
  · split
    · exact refl tsx
    · rcases hsend : SipTransaction.sendOnTransport tsx send.viaTransport with ⟨u, result⟩
      rw [hsend] at htransport hnone
      cases result with
      | none => exact htransport
      | some status =>
        have hcode : Stays u (u.setStatusCode scTransportError) := setStatusCode u (by decide)
        dsimp only
        split
        · exact htransport.trans (hcode.trans (terminated _ true))
        · exact htransport.trans (sendStateless hagain cfg (hnone rfl).1 tdata _)

end Sends

theorem sendMsg (cfg : Cfg) (sends : List Send) : ∀ tsx tdata, Stays tsx (sendMsg cfg sends tsx tdata).1 := by
  induction sends with
  | nil => exact sendWith (fun tsx _ => refl tsx) cfg pendingSend
  | cons send more ih => exact sendWith ih cfg send

theorem retransmit (cfg : Cfg) (inputs : Inputs) (tsx : Tsx) (resched : Bool) :
    Stays tsx (retransmit cfg inputs tsx resched).1 := by
  unfold SipTransaction.retransmit
  split
  · exact refl tsx
  · split
    · exact refl tsx
    · rename_i tdata _
      split
      · exact upd rfl id
      · have hcount : Stays tsx { tsx with retransmitCount := tsx.retransmitCount + 1 } := upd rfl id
        dsimp only
        generalize hstart : (if resched = true then
            if tsx.pendingTransport = true then
              { tsx with retransmitCount := tsx.retransmitCount + 1, pendingResched := true }
            else SipTransaction.reschedRetransmission cfg { tsx with retransmitCount := tsx.retransmitCount + 1 }
          else { tsx with retransmitCount := tsx.retransmitCount + 1 }) = u
        have hu : Stays tsx u := by
          rw [← hstart]
          exact hcount.trans (ite (ite (upd rfl id) (reschedRetransmission cfg _)) (refl _))
        have hsent := hu.trans (sendMsg cfg inputs.sends u tdata)
        rcases hsend : SipTransaction.sendMsg cfg inputs.sends u tdata with ⟨v, status⟩
        rw [hsend] at hsent
        cases status with
        | some error => exact hsent
        | none => exact hsent.trans (ite (upd rfl id) (refl v))

theorem enter {tsx u : Tsx} (h : Stays tsx u) (hbefore : u.state.rank < State.terminated.rank) (state : State)
    (hrank : state.rank < State.terminated.rank) (hproceeding : state ≠ .proceeding) (hcompleted : state ≠ .completed) :
    Stays tsx (setState u state true) := by
  rw [setState_eq u hrank true]
  exact ⟨h.role_eq, .inr ⟨hproceeding, hcompleted⟩, h.last, h.code,
    fun hlate => absurd hbefore (Nat.not_lt.mpr (h.late hlate)), fun _ => h.settled hbefore⟩

/-- What is not a response to send. -/
theorem dispatch (cfg : Cfg) (inputs : Inputs) {tsx u : Tsx} (hrole : tsx.role = .uas) {event : Event}
    (hevent : ∀ tdata, event ≠ .txMsg tdata) (h : dispatch cfg inputs tsx event = some u) : Stays tsx u := by
  unfold SipTransaction.dispatch at h
  rw [hrole] at h
  cases hstate : tsx.state with
  | null =>
    rw [hstate] at h
    rw [← Option.some.inj h]
    simp only [onStateNull, hrole]
    exact (refl tsx).enter (by rw [hstate]; decide) .trying (by decide) State.noConfusion State.noConfusion
  | calling =>
    rw [hstate] at h
    cases h
  | trying =>
    rw [hstate] at h
    rw [← Option.some.inj h]
    cases event with
    | txMsg tdata => exact absurd rfl (hevent tdata)
    | _ => exact refl tsx
  | proceeding =>
    rw [hstate] at h
    rw [← Option.some.inj h]
    cases event with
    | txMsg tdata => exact absurd rfl (hevent tdata)
    | rxMsg msg =>
      dsimp only [onStateProceedingUas]
      split
      · exact refl tsx
      · exact sendMsg cfg inputs.sends tsx _
    | timer entry =>
      cases entry with
      | retransmit => exact retransmit cfg inputs tsx true
      | timeout =>
        exact (setStatusCode tsx (by decide)).trans (terminated _ true)
  | completed =>
    rw [hstate] at h
    rw [← Option.some.inj h]
    cases event with
    | txMsg tdata => exact absurd rfl (hevent tdata)
    | timer entry =>
      cases entry with
      | retransmit => exact retransmit cfg inputs tsx true
      | timeout =>
        have hcode : Stays tsx (if tsx.method = .invite then tsx.setStatusCode scTimeout else tsx) :=
          ite (setStatusCode tsx (by decide)) (refl tsx)
        exact hcode.trans (terminated _ true)
    | rxMsg msg =>
      cases msg with
      | response code cseqMethod => exact refl tsx
      | request method =>
        cases method with
        | ack =>
          dsimp only [onStateCompletedUas]
          split
          · exact refl tsx
          · refine enter ?_ ?_ .confirmed (by decide) State.noConfusion State.noConfusion
            · exact upd rfl id
            · show tsx.state.rank < _
              rw [hstate]
              decide
        | _ => exact retransmit cfg inputs tsx false
  | confirmed =>
    rw [hstate] at h
    rw [← Option.some.inj h]
    cases event with
    | txMsg tdata => exact absurd rfl (hevent tdata)
    | timer entry =>
      cases entry with
      | retransmit => exact refl tsx
      | timeout => exact terminated tsx true
    | rxMsg msg => cases msg <;> exact refl tsx
  | terminated =>
    rw [hstate] at h
    rw [← Option.some.inj h]
    cases event with
    | timer entry => exact destroyed tsx true
    | _ => exact refl tsx
  | destroyed =>
    rw [hstate] at h
    rw [← Option.some.inj h]
    exact refl tsx

theorem onTransportError (tsx : Tsx) (disc : Bool) : Stays tsx (onTransportError tsx disc) := by
  rw [onTransportError_eq]
  refine ite (ite (upd rfl fun _ => .inl rfl) ?_) (refl tsx)
  have hcode : ∀ u, Stays u (if u.statusCode < 200 then u.setStatusCode scTransportError else u) := fun u =>
    ite (setStatusCode u (by decide)) (refl u)
  have hended := (hcode (SipTransaction.updateTransport tsx none)).trans (terminated _ true)
  have hstate := (setState_terminated (if (SipTransaction.updateTransport tsx none).statusCode < 200 then
    (SipTransaction.updateTransport tsx none).setStatusCode scTransportError
    else SipTransaction.updateTransport tsx none)).state_eq
  refine ⟨hended.role_eq, hended.saved, hended.last, hended.code, hended.late, fun hearly => ?_⟩
  rw [hstate] at hearly
  exact absurd hearly (Nat.lt_irrefl _)

/-- **An action that is no send by the user** leaves the saved response. -/
theorem act (cfg : Cfg) {tsx u : Tsx} (hrole : tsx.role = .uas) {a : Action}
    (ha : ∀ tdata inputs, a ≠ .sendMsg tdata inputs) (h : act cfg tsx a = some u) : Stays tsx u := by
  cases a with
  | sendMsg tdata inputs => exact absurd rfl (ha tdata inputs)
  | recvMsg msg inputs => exact dispatch cfg inputs hrole (fun _ => Event.noConfusion) h
  | timer entry inputs =>
    have hretransmit : Stays tsx { tsx with retransmitTimer := none } := upd rfl id
    have htimeout : Stays tsx { tsx with timeoutTimer := none } := upd rfl id
    cases entry with
    | retransmit => exact hretransmit.trans (dispatch cfg inputs hrole (fun _ => Event.noConfusion) h)
    | timeout =>
      simp only [SipTransaction.act, timerCallback] at h
      split at h
      · exact Option.some.inj h ▸ htimeout.trans (onTransportError _ false)
      · exact Option.some.inj h ▸ htimeout.trans (onTransportError _ true)
      · exact htimeout.trans (dispatch cfg inputs hrole (fun _ => Event.noConfusion) h)
  | sent tp inputs => exact Option.some.inj h ▸ sendMsgSent (sendMsg cfg inputs.sends) cfg tsx tp
  | sendFailed failure => exact Option.some.inj h ▸ sendMsgFailed cfg tsx failure
  | transportCallback error inputs =>
    have hleft : Stays tsx { tsx with pendingTransport := false, tpPending := tsx.tpPending - 1 } :=
      upd rfl id
    rw [← Option.some.inj h]
    exact hleft.trans (ite (flushPending (sendMsg cfg inputs.sends) cfg _)
      (ite (upd rfl id) (upd rfl id)))
  | disconnected status => exact Option.some.inj h ▸ tpStateCallback tsx status
  | terminate code =>
    rw [← Option.some.inj h]
    unfold SipTransaction.terminate
    split
    · rename_i hcode
      exact (setStatusCode tsx (by omega)).trans (terminated _ true)
    · exact refl tsx
  | setTimeout millisec =>
    rw [← Option.some.inj h]
    exact ite (ite (refl tsx) (upd rfl id)) (refl tsx)
  | stopRetransmit => exact Option.some.inj h ▸ ite (upd rfl id) (refl tsx)

end Stays

/-! A response that is sent. -/

theorem terminated_of_failed (cfg : Cfg) {inputs : Inputs} {tsx u : Tsx} (hrole : tsx.role = .uas)
    (hsettled : Settled tsx) {tdata : Tdata} (hresponse : tdata.msg.isRequest = false) {error : Errno}
    (hsend : sendMsg cfg inputs.sends tsx tdata = (u, some error)) : u.state = .terminated := by
  have hwith : ∀ again send, sendWith cfg again send tsx tdata = (u, some error) → u.state = .terminated := by
    intro again send hsend
    unfold sendWith at hsend
    split at hsend
    · cases hsend
    · split at hsend
      · cases hsend
      · obtain ⟨hstays, hleft⟩ := Stays.sendOnTransport tsx send.viaTransport
        split at hsend
        · cases hsend
        · rename_i v status hv
          rw [hv] at hstays hleft
          have hclient : ¬(v.role = .uac ∧ v.resolvedServer = true) := fun hand =>
            Role.noConfusion ((hstays.role_eq.trans hrole).symm.trans hand.1)
          have hnone : v.resTransport = none := (hleft rfl).2 hsettled
          obtain ⟨failures, sent, hstarted⟩ : ∃ failures sent,
              endptSendResponse none send.stateless = .tried failures sent := by
            cases send.stateless with
            | refused error => exact ⟨_, _, rfl⟩
            | tried failures sent => exact ⟨_, _, rfl⟩
          rw [if_neg hclient, sendStateless, hresponse, if_neg Bool.false_ne_true, hnone, hstarted] at hsend
          obtain ⟨hu, hstatus⟩ := Prod.mk.inj hsend
          by_contra hne
          rw [← hu] at hne
          rw [if_neg hne] at hstatus
          exact Option.some_ne_none error hstatus.symm
  rcases hsends : inputs.sends with _ | ⟨send, more⟩
  · rw [hsends, sendMsg] at hsend
    exact hwith _ pendingSend hsend
  · rw [hsends, sendMsg] at hsend
    exact hwith _ send hsend

theorem onResponseSent_saves (cfg : Cfg) {tsx : Tsx} (hcode : 100 ≤ tsx.statusCode) (tdata : Tdata) (m : Method) :
    (onResponseSent cfg tsx tdata m).role = tsx.role ∧ (onResponseSent cfg tsx tdata m).state ≠ .trying ∧
      (((onResponseSent cfg tsx tdata m).lastTx = some tdata ∧
          (Settled tsx → Settled (onResponseSent cfg tsx tdata m))) ∨
        ((onResponseSent cfg tsx tdata m).state = .terminated ∧
          (onResponseSent cfg tsx tdata m).lastTx = tsx.lastTx)) := by
  have hstart : ∀ (u : Tsx) delay, u.lastTx = some tdata →
      (u.startRetransmit delay).role = u.role ∧ (u.startRetransmit delay).state = u.state ∧
        (u.startRetransmit delay).lastTx = some tdata ∧ (Settled u → Settled (u.startRetransmit delay)) := by
    intro u delay hlast
    unfold Tsx.startRetransmit
    dsimp only
    split
    · exact ⟨rfl, rfl, hlast, id⟩
    · exact ⟨rfl, rfl, hlast, id⟩
  unfold onResponseSent
  dsimp only
  split
  · rw [setState_eq _ (by decide)]
    split
    · obtain ⟨hrole, hstate, hlast, hsettled⟩ := hstart ({ tsx with
        lastTx := some tdata, state := State.proceeding, trace := tsx.trace ++ [State.proceeding] }.cancelRetransmit)
        retransDelay1xx rfl
      exact ⟨hrole, fun htrying => State.noConfusion (hstate.symm.trans htrying), .inl ⟨hlast, hsettled⟩⟩
    · exact ⟨rfl, State.noConfusion, .inl ⟨rfl, id⟩⟩
  · split
    · split
      · obtain ⟨pendingTx, timer, -, -, heq⟩ := setState_terminated_eq tsx.cancelRetransmit true
        rw [heq]
        exact ⟨rfl, State.noConfusion, .inr ⟨rfl, rfl⟩⟩
      · have hstarted : (if tsx.cancelRetransmit.method = .invite then tsx.cancelRetransmit.startRetransmit cfg.t1
            else tsx.cancelRetransmit).role = tsx.role ∧
            (Settled tsx → Settled (if tsx.cancelRetransmit.method = .invite then
              tsx.cancelRetransmit.startRetransmit cfg.t1 else tsx.cancelRetransmit)) := by
          split
          · refine ⟨congrArg (fun core => core.1) (core_startRetransmit tsx.cancelRetransmit cfg.t1), ?_⟩
            unfold Tsx.startRetransmit
            dsimp only
            split
            · exact id
            · exact id
          · exact ⟨rfl, id⟩
        rw [setState_eq _ (by decide)]
        exact ⟨hstarted.1, State.noConfusion, .inl ⟨rfl, hstarted.2⟩⟩
    · have hlate : 300 ≤ tsx.statusCode := by omega
      rw [if_pos hlate, setState_eq _ (by decide)]
      split
      · obtain ⟨hrole, -, hlast, hsettled⟩ := hstart (Tsx.restartTimeout
          { tsx.cancelRetransmit with lastTx := some tdata } .timeout
          (Tsx.absorbTimeout cfg { tsx.cancelRetransmit with lastTx := some tdata })) cfg.t1 rfl
        exact ⟨hrole, State.noConfusion, .inl ⟨hlast, hsettled⟩⟩
      · exact ⟨rfl, State.noConfusion, .inl ⟨rfl, id⟩⟩

/-- What a response with a proper code leads to: it is saved when it has been sent, and the transaction is terminated
when it has not been sent. -/
theorem sendResponse_cases (cfg : Cfg) (inputs : Inputs) {tsx : Tsx} (hforward : Forward tsx) (hsettled : Settled tsx)
    (hrank : tsx.state.rank < State.terminated.rank) (hrole : tsx.role = .uas) {tdata : Tdata}
    (hresponse : tdata.msg.isRequest = false) {code : Nat} (hcode : 100 ≤ code) (m : Method) {u : Tsx} {status : Status}
    (h : sendResponse cfg inputs tsx tdata code m = (u, status)) :
    u.role = .uas ∧ (∀ x, u.lastTx = some x → x = tdata ∨ tsx.lastTx = some x) ∧
      ((status = none ∧ u.state ≠ .trying ∧ u.lastTx = some tdata ∧ Settled u) ∨ u.state = .terminated) := by
  unfold sendResponse at h
  dsimp only at h
  generalize hstart : (if (tsx.setStatusCode code).lastTx = some tdata then tsx.setStatusCode code
    else { tsx.setStatusCode code with lastTx := none }) = v at h
  obtain ⟨hcore, hvcode, hvlast, hvsettled⟩ : v.core = tsx.core ∧ v.statusCode = code ∧
      (∀ x, v.lastTx = some x → tsx.lastTx = some x) ∧ Settled v := by
    rw [← hstart]
    split
    · exact ⟨rfl, rfl, fun _ hx => hx, hsettled⟩
    · exact ⟨rfl, rfl, fun x hx => absurd hx.symm (Option.some_ne_none x), hsettled⟩
  have hvrole : v.role = .uas := (core_role hcore).trans hrole
  have hvrank : v.state.rank < State.terminated.rank := by
    rw [core_state hcore]
    exact hrank
  have hstays := Stays.sendMsg cfg inputs.sends v tdata
  have hafter := (hforward.update hcore).sendMsg hvrank cfg inputs.sends tdata
  rcases hsend : sendMsg cfg inputs.sends v tdata with ⟨w, result⟩
  rw [hsend] at h hstays hafter
  have hwrole : w.role = .uas := hstays.role_eq.trans hvrole
  have hwlast : ∀ x, w.lastTx = some x → tsx.lastTx = some x := by
    intro x hx
    rcases hstays.last with hlast | hnone
    · exact hvlast x (hlast.symm.trans hx)
    · exact absurd (hnone.symm.trans hx) (Option.some_ne_none x).symm
  cases result with
  | none =>
    obtain ⟨rfl, rfl⟩ := Prod.mk.inj h
    have hwsettled : Settled w := by
      refine hstays.settled ?_ hvsettled
      rw [hafter.state_eq rfl]
      exact hvrank
    obtain ⟨hr, htrying, hsaved⟩ := onResponseSent_saves cfg (hstays.code (by rw [hvcode]; exact hcode)) tdata m
    refine ⟨hr.trans hwrole, fun x hx => ?_, ?_⟩
    · rcases hsaved with ⟨hlast, -⟩ | ⟨-, hlast⟩
      · exact .inl (Option.some.inj (hx.symm.trans hlast))
      · exact .inr (hwlast x (hlast.symm.trans hx))
    · rcases hsaved with ⟨hlast, hafter⟩ | ⟨hterminated, -⟩
      · exact .inl ⟨rfl, htrying, hlast, hafter hwsettled⟩
      · exact .inr hterminated
  | some error =>
    obtain ⟨rfl, rfl⟩ := Prod.mk.inj h
    exact ⟨hwrole, fun x hx => .inr (hwlast x hx), .inr (terminated_of_failed cfg hvrole hvsettled hresponse hsend)⟩

/-! Runs. -/

def sentResponses (cfg : Cfg) : Option Tsx → Action → List Tdata
  | some tsx, .sendMsg tdata inputs =>
    match tdata.or tsx.lastTx with
    | some tdata =>
      if tdata.msg.isRequest = false ∧
          (stateHandler tsx.role tsx.state).map (fun handler => (handler cfg inputs tsx (.txMsg tdata)).2) = some none then
        [tdata]
      else []
    | none => []
  | _, _ => []

/-- A response has a code from 100 to 699; `pjsip_endpt_create_response` makes no other. -/
def Msg.proper : Msg → Bool
  | .response code _ => decide (100 ≤ code ∧ code ≤ 699)
  | .request _ => true

def Action.proper : Action → Bool
  | .sendMsg (some tdata) _ => tdata.msg.proper
  | _ => true

/-- A step of the transaction with the responses that have been sent, the last one first. -/
def serve (cfg : Cfg) (s : Option Tsx × List Tdata) (a : Action) : Option (Option Tsx × List Tdata) :=
  if a.proper then recorded (step cfg) (sentResponses cfg) s a else none

/-- In the state Proceeding the last response that was sent is saved and answers a retransmitted request, and in the
state Completed there is a response to repeat. -/
def Repeats (cfg : Cfg) (s : Option Tsx × List Tdata) : Prop :=
  ∀ tsx ∈ s.1,
    (tsx.state = .proceeding → ∃ tdata, tsx.lastTx = some tdata ∧ s.2.head? = some tdata ∧
      ∀ inputs msg, dispatch cfg inputs tsx (.rxMsg msg) = some (sendMsg cfg inputs.sends tsx tdata).1) ∧
    (tsx.state = .completed → tsx.lastTx ≠ none)

/-- A server transaction whose responses are proper; it is in order until it is terminated. -/
def Served (s : Option Tsx × List Tdata) : Prop :=
  ∀ tsx ∈ s.1, tsx.role = .uas ∧ (∀ tdata ∈ tsx.lastTx, tdata.msg.proper = true) ∧
    (tsx.state.rank < State.terminated.rank → Forward tsx ∧ Settled tsx)

theorem answers {tsx : Tsx} {tdata : Tdata} (cfg : Cfg) (hrole : tsx.role = .uas) (hstate : tsx.state = .proceeding)
    (hlast : tsx.lastTx = some tdata) (inputs : Inputs) (msg : Msg) :
    dispatch cfg inputs tsx (.rxMsg msg) = some (sendMsg cfg inputs.sends tsx tdata).1 := by
  unfold dispatch
  rw [hrole, hstate]
  simp only [stateHandler, Option.map_some, onStateProceedingUas, hlast]

/-- A transaction in which nothing has been saved anew. -/
theorem repeats_of_stays {cfg : Cfg} {tsx u : Tsx} {past : List Tdata} (hserved : Served (some tsx, past))
    (hgood : Repeats cfg (some tsx, past)) (h : Stays tsx u) (hforward : u.state.rank < State.terminated.rank → Forward u)
    (past' : List Tdata) (hpast : u.state = .proceeding → past' = past) :
    Served (some u, past') ∧ Repeats cfg (some u, past') := by
  obtain ⟨hrole, hproper, hbefore⟩ := hserved tsx rfl
  obtain ⟨hproceeding, hcompleted⟩ := hgood tsx rfl
  have hurole := h.role_eq.trans hrole
  refine ⟨fun v hv => ?_, fun v hv => ?_⟩
  · obtain rfl := Option.some.inj hv
    refine ⟨hurole, fun tdata htdata => ?_, fun hearly => ⟨hforward hearly, h.settled hearly (hbefore ?_).2⟩⟩
    · rcases h.last with hlast | hnone
      · exact hproper tdata (hlast.symm.trans htdata)
      · exact absurd (hnone.symm.trans htdata) (Option.some_ne_none tdata).symm
    · exact Nat.lt_of_not_le fun hlate => absurd hearly (Nat.not_lt.mpr (h.late hlate))
  · obtain rfl := Option.some.inj hv
    rcases h.saved with ⟨hstate, hlast⟩ | ⟨hleft, hdone⟩
    · refine ⟨fun hu => ?_, fun hu => ?_⟩
      · obtain ⟨tdata, hsaved, hhead, -⟩ := hproceeding (hstate.symm.trans hu)
        refine ⟨tdata, hlast.trans hsaved, ?_, answers cfg hurole hu (hlast.trans hsaved)⟩
        rw [hpast hu]
        exact hhead
      · rw [hlast]
        exact hcompleted (hstate.symm.trans hu)
    · exact ⟨fun hu => absurd hu hleft, fun hu => absurd hu hdone⟩

theorem repeats_of_response {cfg : Cfg} {tsx u : Tsx} {past : List Tdata} (hserved : Served (some tsx, past))
    (hgood : Repeats cfg (some tsx, past)) (hstate : tsx.state = .trying ∨ tsx.state = .proceeding) {tdata : Tdata}
    (hproper : tdata.msg.proper = true) (inputs : Inputs) {status : Status}
    (h : onStateProceedingUas cfg inputs tsx (.txMsg tdata) = (u, status)) (past' : List Tdata)
    (hpast : past' = if tdata.msg.isRequest = false ∧ status = none then tdata :: past else past) :
    (status = none → u.state ≠ .trying) ∧ ((u.state.rank < State.terminated.rank → Forward u) →
      Served (some u, past') ∧ Repeats cfg (some u, past')) := by
  obtain ⟨hrole, hsaved, hbefore⟩ := hserved tsx rfl
  have hrank : tsx.state.rank < State.terminated.rank := by
    rcases hstate with htrying | hproceeding
    · rw [htrying]
      decide
    · rw [hproceeding]
      decide
  obtain ⟨hforward, hsettled⟩ := hbefore hrank
  dsimp only [onStateProceedingUas] at h
  cases hmsg : tdata.msg with
  | request method =>
    rw [hmsg] at h hpast
    obtain ⟨rfl, rfl⟩ := Prod.mk.inj h
    exact ⟨nofun, fun hafter => repeats_of_stays hserved hgood (.refl _) hafter past' fun _ => hpast⟩
  | response code m =>
    have hresponse : tdata.msg.isRequest = false := by
      rw [hmsg]
      rfl
    rw [hmsg] at h hproper
    obtain ⟨hurole, hulast, hcases⟩ := sendResponse_cases cfg inputs hforward hsettled hrank hrole hresponse
      (of_decide_eq_true hproper).1 m h
    refine ⟨fun _ => ?_, fun hafter => ⟨fun v hv => ?_, fun v hv => ?_⟩⟩
    · rcases hcases with ⟨-, htrying, -⟩ | hterminated
      · exact htrying
      · rw [hterminated]
        exact State.noConfusion
    · obtain rfl := Option.some.inj hv
      refine ⟨hurole, fun x hx => ?_, fun hearly => ⟨hafter hearly, ?_⟩⟩
      · rcases hulast x hx with rfl | hx
        · rw [hmsg]
          exact hproper
        · exact hsaved x hx
      · rcases hcases with ⟨-, -, -, hu⟩ | hterminated
        · exact hu
        · rw [hterminated] at hearly
          exact absurd hearly (Nat.lt_irrefl _)
    · obtain rfl := Option.some.inj hv
      rcases hcases with ⟨rfl, -, hnew, -⟩ | hterminated
      · refine ⟨fun hu => ⟨tdata, hnew, ?_, answers cfg hurole hu hnew⟩, fun _ => ?_⟩
        · rw [hpast, if_pos ⟨hresponse, rfl⟩]
          rfl
        · rw [hnew]
          exact Option.some_ne_none tdata
      · rw [hterminated]
        exact ⟨State.noConfusion, State.noConfusion⟩

theorem repeats_of_send {cfg : Cfg} {tsx u : Tsx} {past : List Tdata} (hserved : Served (some tsx, past))
    (hgood : Repeats cfg (some tsx, past)) {tdata : Tdata} (hproper : tdata.msg.proper = true) (inputs : Inputs)
    (h : dispatch cfg inputs tsx (.txMsg tdata) = some u) (hafter : u.state.rank < State.terminated.rank → Forward u)
    (past' : List Tdata) (hpast : past' = if tdata.msg.isRequest = false ∧ (stateHandler tsx.role tsx.state).map
      (fun handler => (handler cfg inputs tsx (.txMsg tdata)).2) = some none then tdata :: past else past) :
    Served (some u, past') ∧ Repeats cfg (some u, past') := by
  obtain ⟨hrole, -⟩ := hserved tsx rfl
  have hidle : tsx = u → tsx.state ≠ .proceeding → Served (some u, past') ∧ Repeats cfg (some u, past') := by
    rintro rfl hne
    exact repeats_of_stays hserved hgood (.refl tsx) hafter past' fun hproceeding => absurd hproceeding hne
  unfold dispatch at h
  rw [hrole] at h hpast
  cases hstate : tsx.state with
  | null =>
    rw [hstate] at h
    have hu : setState tsx .trying true = u := by
      rw [← Option.some.inj h]
      simp only [onStateNull, hrole]
    have hstays : Stays tsx u :=
      hu ▸ (Stays.refl tsx).enter (by rw [hstate]; decide) .trying (by decide) State.noConfusion State.noConfusion
    refine repeats_of_stays hserved hgood hstays hafter past' fun hproceeding => ?_
    rw [← hu, setState_eq tsx (by decide)] at hproceeding
    exact State.noConfusion hproceeding
  | calling =>
    rw [hstate] at h
    cases h
  | trying =>
    rw [hstate] at h hpast
    simp only [stateHandler, Option.map_some, onStateTrying, Option.some.injEq] at h hpast
    rcases hresponse : onStateProceedingUas cfg inputs tsx (.txMsg tdata) with ⟨v, status⟩
    rw [hresponse] at h hpast
    have hv := repeats_of_response hserved hgood (.inl hstate) hproper inputs hresponse past'
    cases status with
    | some error =>
      obtain rfl : v = u := h
      exact (hv hpast).2 hafter
    | none =>
      have hpast : past' = if tdata.msg.isRequest = false ∧ (none : Status) = none then tdata :: past else past := hpast
      obtain ⟨htrying, hrest⟩ := hv hpast
      dsimp only at h
      rw [if_neg (htrying rfl)] at h
      obtain rfl := h
      exact hrest hafter
  | proceeding =>
    rw [hstate] at h hpast
    simp only [stateHandler, Option.map_some, Option.some.injEq] at h hpast
    have hv := (repeats_of_response hserved hgood (.inr hstate) hproper inputs Prod.mk.eta.symm past' hpast).2
    rw [h] at hv
    exact hv hafter
  | completed =>
    rw [hstate] at h hidle
    exact hidle (Option.some.inj h) State.noConfusion
  | confirmed =>
    rw [hstate] at h hidle
    exact hidle (Option.some.inj h) State.noConfusion
  | terminated =>
    rw [hstate] at h hidle
    exact hidle (Option.some.inj h) State.noConfusion
  | destroyed =>
    rw [hstate] at h hidle
    exact hidle (Option.some.inj h) State.noConfusion

/-- A transaction that has been terminated remains so. -/
theorem late_act (cfg : Cfg) {tsx u : Tsx} (hrole : tsx.role = .uas) {a : Action} (h : act cfg tsx a = some u)
    (hlate : State.terminated.rank ≤ tsx.state.rank) : State.terminated.rank ≤ u.state.rank := by
  cases a with
  | sendMsg tdata inputs =>
    have hsame : ∀ tdata, dispatch cfg inputs tsx (.txMsg tdata) = some tsx := by
      intro tdata
      unfold dispatch
      cases hstate : tsx.state with
      | terminated => cases tsx.role <;> rfl
      | destroyed => cases tsx.role <;> rfl
      | _ =>
        rw [hstate] at hlate
        exact absurd hlate (by decide)
    rw [act] at h
    split at h
    · exact Option.some.inj h ▸ hlate
    · exact Option.some.inj ((hsame _).symm.trans h) ▸ hlate
  | _ => exact (Stays.act cfg hrole (fun _ _ => Action.noConfusion) h).late hlate

/-- **A step** of a server transaction. -/
theorem repeats_step (cfg : Cfg) (s : Option Tsx × List Tdata) (a : Action) (t : Option Tsx × List Tdata)
    (hs : Served s ∧ Repeats cfg s) (h : serve cfg s a = some t) : Served t ∧ Repeats cfg t := by
  obtain ⟨hserved, hgood⟩ := hs
  obtain ⟨hproper, h⟩ := Option.ite_none_right_eq_some.mp h
  obtain ⟨next, hstep, rfl⟩ := Option.map_eq_some_iff.mp h
  obtain ⟨tsx, hs, hstep⟩ := Option.bind_eq_some_iff.mp hstep
  obtain ⟨henabled, hact⟩ := Option.ite_none_right_eq_some.mp hstep
  have hact := Option.some.inj hact
  obtain ⟨s, past⟩ := s
  obtain rfl : s = some tsx := hs
  obtain ⟨hrole, hsaved, hbefore⟩ := hserved tsx rfl
  cases next with
  | none => exact ⟨fun v hv => (nomatch hv), fun v hv => (nomatch hv)⟩
  | some u =>
    have hafter : u.state.rank < State.terminated.rank → Forward u := by
      intro hearly
      have hrank := Nat.lt_of_not_le fun hlate => absurd hearly (Nat.not_lt.mpr (late_act cfg hrole hact hlate))
      obtain ⟨v, hv, hforward⟩ := (hbefore hrank).1.act hrank cfg henabled
      exact Option.some.inj (hv.symm.trans hact) ▸ hforward
    cases a with
    | sendMsg tdata inputs =>
      rw [act] at hact
      dsimp only [sentResponses]
      cases hor : tdata.or tsx.lastTx with
      | none =>
        rw [hor] at hact
        obtain rfl : tsx = u := Option.some.inj hact
        exact ⟨hserved, hgood⟩
      | some last =>
        rw [hor] at hact
        have hproper : last.msg.proper = true := by
          rcases Option.or_eq_some_iff.mp hor with rfl | ⟨rfl, hlast⟩
          · exact hproper
          · exact hsaved last hlast
        dsimp only
        exact repeats_of_send hserved hgood hproper inputs hact hafter
          ((if last.msg.isRequest = false ∧ (stateHandler tsx.role tsx.state).map
            (fun handler => (handler cfg inputs tsx (.txMsg last)).2) = some none then [last] else []).reverse ++
              past) (by split <;> rfl)
    | _ =>
      exact repeats_of_stays hserved hgood (Stays.act cfg hrole (fun _ _ => Action.noConfusion) hact) hafter past
        fun _ => rfl

/-- **The response to repeat**: in every state of a run the server transaction has its response to repeat. -/
theorem response_repeated (cfg : Cfg) (method : Method) (transport : Option Transport) (reliable handle200resp : Bool)
    (acts : List Action) (u : Option Tsx × List Tdata)
    (h : exec (serve cfg) (some (createUas method transport reliable handle200resp), []) acts = some u) :
    Repeats cfg u := by
  have hstart : (createUas method transport reliable handle200resp).role = .uas ∧
      (createUas method transport reliable handle200resp).state = .null ∧
      (createUas method transport reliable handle200resp).lastTx = none ∧
      Settled (createUas method transport reliable handle200resp) := by
    cases transport with
    | none => exact ⟨rfl, rfl, rfl, .inl rfl⟩
    | some tp =>
      have hkept := kept_updateTransport (createUas method none reliable handle200resp) (some tp)
      have hframe := updateTransport_frame (createUas method none reliable handle200resp) (some tp)
      exact ⟨hkept.role_eq, hkept.state_eq, hframe.2.2.2.1, .inr ⟨updateTransport_some _ tp, hframe.2.2.1⟩⟩
  obtain ⟨hrole, hstate, hlast, hsettled⟩ := hstart
  refine (exec_invariant (P := fun s => Served s ∧ Repeats cfg s) (fun s a t hs => repeats_step cfg s a t hs) ⟨?_, ?_⟩ h).2
  · intro tsx htsx
    rw [← Option.some.inj htsx, hlast]
    exact ⟨hrole, fun _ hnone => (nomatch hnone), fun _ => ⟨createUas_forward method transport reliable handle200resp, hsettled⟩⟩
  · intro tsx htsx
    rw [← Option.some.inj htsx, hstate]
    exact ⟨State.noConfusion, State.noConfusion⟩

def ringing : Tdata := ⟨1, .response 180 .invite⟩
def progress : Tdata := ⟨2, .response 183 .invite⟩

/-- The INVITE rings, is retransmitted, and has a second provisional response. -/
theorem response_repeated_ringing :
    ∃ u, exec (serve rfcCfg) (some invitedUas, [])
        [.recvMsg (.request .invite) (delivers 0), .sendMsg (some ringing) (delivers 1),
          .recvMsg (.request .invite) (delivers 1), .sendMsg (some progress) (delivers 1)] = some u ∧
      u.1.map Tsx.state = some .proceeding ∧ u.2 = [progress, ringing] ∧ Repeats rfcCfg u :=
  ⟨_, rfl, rfl, rfl, response_repeated rfcCfg .invite (some ⟨0, false, false⟩) false false
    [.recvMsg (.request .invite) (delivers 0), .sendMsg (some ringing) (delivers 1),
      .recvMsg (.request .invite) (delivers 1), .sendMsg (some progress) (delivers 1)] _ rfl⟩

end PjProject.SipTransaction
