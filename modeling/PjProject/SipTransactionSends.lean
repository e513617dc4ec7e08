import PjProject.SipTransaction

/-! What a send does to a SIP transaction. A send leaves the state as it is or terminates the transaction, the timeout
timer is not lost in it, and a client transaction that has a transport has resolved its server. -/

namespace PjProject.SipTransaction

/-! What holds between the flags of a transaction, whatever happens to it. -/

/-- The flags by themselves. -/
structure LinksOf (role : Role) (state : State) (hasTransport : Bool) (tpPending : Nat)
    (resolved pendingTransport pendingSend pendingDestroy : Bool) : Prop where
  transport : role = .uac → hasTransport = true → resolved = true
  callbacks : role = .uac → 0 < tpPending → resolved = true
  waiting : role = .uac → state.rank < State.terminated.rank → pendingSend = true →
    pendingTransport = true ∨ resolved = true
  destroy : pendingDestroy = true → state = .destroyed
  ended : state = .destroyed → pendingSend = false

/-- A client transaction with a transport, or with a send on it, has resolved its server; a message waits for a reason;
only what has been destroyed waits for its end. -/
def Links (tsx : Tsx) : Prop :=
  LinksOf tsx.role tsx.state tsx.transport.isSome tsx.tpPending tsx.resolvedServer tsx.pendingTransport tsx.pendingSend
    tsx.pendingDestroy

/-- The timeout timer is scheduled, and from the state Completed on it is no error of the transport that it carries. -/
def Tsx.Timed (tsx : Tsx) : Prop :=
  tsx.timeoutTimer.isSome = true ∧
    (State.completed.rank ≤ tsx.state.rank → tsx.timeoutTimer.map Prod.fst = some .timeout)

/-- The state is as it was, and what has been scheduled or decided is not lost. -/
structure Kept (tsx tsx' : Tsx) : Prop where
  role_eq : tsx'.role = tsx.role
  method_eq : tsx'.method = tsx.method
  state_eq : tsx'.state = tsx.state
  trace_eq : tsx'.trace = tsx.trace
  registered_eq : tsx'.registered = tsx.registered
  destroy_eq : tsx'.pendingDestroy = tsx.pendingDestroy
  timer : tsx.Timed → tsx'.Timed
  resolved : tsx.role = .uac → tsx.resolvedServer = true → tsx'.resolvedServer = true
  code : tsx.role = .uac → tsx.resolvedServer = true → tsx'.statusCode = tsx.statusCode
  resched : tsx.pendingResched = false → tsx'.pendingResched = false ∧ tsx'.retransmitTimer = tsx.retransmitTimer

/-- The state is as it was, and the timeout timer is not lost. -/
structure Held (tsx tsx' : Tsx) : Prop where
  role_eq : tsx'.role = tsx.role
  method_eq : tsx'.method = tsx.method
  state_eq : tsx'.state = tsx.state
  trace_eq : tsx'.trace = tsx.trace
  registered_eq : tsx'.registered = tsx.registered
  destroy_eq : tsx'.pendingDestroy = tsx.pendingDestroy
  timer : tsx.Timed → tsx'.Timed

theorem Kept.held {tsx tsx' : Tsx} (h : Kept tsx tsx') : Held tsx tsx' :=
  ⟨h.role_eq, h.method_eq, h.state_eq, h.trace_eq, h.registered_eq, h.destroy_eq, h.timer⟩

theorem Held.refl (tsx : Tsx) : Held tsx tsx := ⟨rfl, rfl, rfl, rfl, rfl, rfl, fun h => h⟩

theorem Held.trans {tsx tsx' tsx'' : Tsx} (h : Held tsx tsx') (h' : Held tsx' tsx'') : Held tsx tsx'' :=
  ⟨h'.role_eq.trans h.role_eq, h'.method_eq.trans h.method_eq, h'.state_eq.trans h.state_eq,
    h'.trace_eq.trans h.trace_eq, h'.registered_eq.trans h.registered_eq, h'.destroy_eq.trans h.destroy_eq,
    fun htimer => h'.timer (h.timer htimer)⟩

/-- The transaction is terminated, with its timer. -/
structure Ended (tsx tsx' : Tsx) : Prop where
  role_eq : tsx'.role = tsx.role
  method_eq : tsx'.method = tsx.method
  state_eq : tsx'.state = .terminated
  trace_eq : tsx'.trace = tsx.trace ++ [.terminated]
  registered_eq : tsx'.registered = tsx.registered
  destroy_eq : tsx'.pendingDestroy = tsx.pendingDestroy
  timer : tsx'.Timed
  no_transport : tsx'.pendingTransport = false

theorem Kept.refl (tsx : Tsx) : Kept tsx tsx :=
  ⟨rfl, rfl, rfl, rfl, rfl, rfl, fun h => h, fun _ h => h, fun _ _ => rfl, fun h => ⟨h, rfl⟩⟩

theorem Kept.trans {tsx tsx' tsx'' : Tsx} (h : Kept tsx tsx') (h' : Kept tsx' tsx'') : Kept tsx tsx'' where
  role_eq := h'.role_eq.trans h.role_eq
  method_eq := h'.method_eq.trans h.method_eq
  state_eq := h'.state_eq.trans h.state_eq
  trace_eq := h'.trace_eq.trans h.trace_eq
  registered_eq := h'.registered_eq.trans h.registered_eq
  destroy_eq := h'.destroy_eq.trans h.destroy_eq
  timer := fun htimer => h'.timer (h.timer htimer)
  resolved := fun hrole hres => h'.resolved (h.role_eq.trans hrole) (h.resolved hrole hres)
  code := fun hrole hres => (h'.code (h.role_eq.trans hrole) (h.resolved hrole hres)).trans (h.code hrole hres)
  resched := fun hresched => by
    obtain ⟨hfalse, htimer⟩ := h.resched hresched
    obtain ⟨hfalse', htimer'⟩ := h'.resched hfalse
    exact ⟨hfalse', htimer'.trans htimer⟩

theorem Held.ended {tsx tsx' tsx'' : Tsx} (h : Held tsx tsx') (h' : Ended tsx' tsx'') : Ended tsx tsx'' where
  role_eq := h'.role_eq.trans h.role_eq
  method_eq := h'.method_eq.trans h.method_eq
  state_eq := h'.state_eq
  trace_eq := by rw [h'.trace_eq, h.trace_eq]
  registered_eq := h'.registered_eq.trans h.registered_eq
  destroy_eq := h'.destroy_eq.trans h.destroy_eq
  timer := h'.timer
  no_transport := h'.no_transport

/-! Timers, transport and termination. -/

theorem timed_restartTimeout (tsx : Tsx) (delay : Nat) : (tsx.restartTimeout .timeout delay).Timed :=
  ⟨rfl, fun _ => rfl⟩

theorem kept_restartTimeout (tsx : Tsx) (delay : Nat) : Kept tsx (tsx.restartTimeout .timeout delay) :=
  ⟨rfl, rfl, rfl, rfl, rfl, rfl, fun _ => timed_restartTimeout tsx delay, fun _ h => h, fun _ _ => rfl,
    fun h => ⟨h, rfl⟩⟩

theorem setState_terminated_eq (tsx : Tsx) (schedule : Bool) :
    ∃ pendingTx timer, (tsx.pendingTx = none → pendingTx = none) ∧ timer = (if schedule then some (.timeout, 0) else none) ∧
      setState tsx .terminated schedule =
        { tsx with
          state := .terminated, trace := tsx.trace ++ [.terminated], pendingTransport := false, pendingTx := pendingTx
          timeoutTimer := timer } := by
  unfold setState finishState beginState
  dsimp only
  by_cases hpending : tsx.pendingTransport = true
  · rw [if_pos hpending]
    refine ⟨none, _, fun _ => rfl, rfl, ?_⟩
    cases schedule <;> rfl
  · rw [if_neg hpending, Bool.eq_false_iff.mpr hpending]
    refine ⟨tsx.pendingTx, _, fun hnone => hnone, rfl, ?_⟩
    cases schedule <;> rfl

theorem setState_terminated (tsx : Tsx) : Ended tsx (setState tsx .terminated true) := by
  obtain ⟨pendingTx, timer, -, htimer, heq⟩ := setState_terminated_eq tsx true
  rw [heq, htimer]
  exact ⟨rfl, rfl, rfl, rfl, rfl, rfl, ⟨rfl, fun _ => rfl⟩, rfl⟩

theorem Ended.of_setStatusCode {tsx tsx' : Tsx} {code : Nat} (h : Ended (tsx.setStatusCode code) tsx') : Ended tsx tsx' :=
  ⟨h.role_eq, h.method_eq, h.state_eq, h.trace_eq, h.registered_eq, h.destroy_eq, h.timer, h.no_transport⟩

theorem links_terminated {tsx : Tsx} (h : Links tsx) (hstate : tsx.state ≠ .destroyed) (schedule : Bool) :
    Links (setState tsx .terminated schedule) := by
  obtain ⟨pendingTx, timer, -, -, heq⟩ := setState_terminated_eq tsx schedule
  rw [heq]
  exact ⟨h.transport, h.callbacks, fun _ hrank => absurd hrank (Nat.lt_irrefl _), fun hd => absurd (h.destroy hd) hstate,
    State.noConfusion⟩

theorem kept_tpStateCallback (tsx : Tsx) (status : Status) : Kept tsx (tpStateCallback tsx status) := by
  unfold tpStateCallback
  dsimp only
  split
  · rename_i hrank
    exact ⟨rfl, rfl, rfl, rfl, rfl, rfl, fun _ => ⟨rfl, fun hle => absurd hrank (Nat.not_lt.mpr hle)⟩, fun _ h => h,
      fun _ _ => rfl, fun h => ⟨h, rfl⟩⟩
  · exact ⟨rfl, rfl, rfl, rfl, rfl, rfl, fun h => h, fun _ h => h, fun _ _ => rfl, fun h => ⟨h, rfl⟩⟩

theorem kept_updateTransport (tsx : Tsx) (tp : Option Transport) : Kept tsx (updateTransport tsx tp) := by
  have hkept : ∀ transport, Kept tsx { tsx with transport := transport } := fun _ =>
    ⟨rfl, rfl, rfl, rfl, rfl, rfl, fun h => h, fun _ h => h, fun _ _ => rfl, fun h => ⟨h, rfl⟩⟩
  unfold updateTransport
  split
  · exact hkept none
  · rename_i tp
    dsimp only
    split
    · exact (hkept (some tp)).trans (kept_tpStateCallback _ _)
    · exact hkept (some tp)

theorem updateTransport_frame (tsx : Tsx) (tp : Option Transport) :
    (updateTransport tsx tp).tpPending = tsx.tpPending ∧ (updateTransport tsx tp).pendingSend = tsx.pendingSend ∧
      (updateTransport tsx tp).pendingTx = tsx.pendingTx ∧ (updateTransport tsx tp).lastTx = tsx.lastTx ∧
      (updateTransport tsx tp).statusCode = tsx.statusCode := by
  unfold updateTransport
  split
  · exact ⟨rfl, rfl, rfl, rfl, rfl⟩
  · dsimp only
    split
    · unfold tpStateCallback
      dsimp only
      split
      · exact ⟨rfl, rfl, rfl, rfl, rfl⟩
      · exact ⟨rfl, rfl, rfl, rfl, rfl⟩
    · exact ⟨rfl, rfl, rfl, rfl, rfl⟩

theorem links_release {tsx : Tsx} (h : Links tsx) : Links (updateTransport tsx none) :=
  ⟨nofun, h.callbacks, h.waiting, h.destroy, h.ended⟩

theorem reschedRetransmission_eq (cfg : Cfg) (tsx : Tsx) :
    ∃ timer, reschedRetransmission cfg tsx = { tsx with retransmitTimer := timer } := by
  have hschedule : ∀ msecTime, ∃ timer,
      (if msecTime ≠ 0 then tsx.scheduleRetransmit msecTime else tsx) = { tsx with retransmitTimer := timer } := by
    intro msecTime
    split
    · exact ⟨_, rfl⟩
    · exact ⟨tsx.retransmitTimer, rfl⟩
  exact hschedule _

theorem kept_resched (cfg : Cfg) {tsx : Tsx} (h : tsx.pendingResched = true) :
    Kept tsx (reschedRetransmission cfg { tsx with pendingResched := false }) := by
  obtain ⟨timer, heq⟩ := reschedRetransmission_eq cfg { tsx with pendingResched := false }
  rw [heq]
  exact ⟨rfl, rfl, rfl, rfl, rfl, rfl, fun h => h, fun _ h => h, fun _ _ => rfl,
    fun hfalse => absurd (hfalse.symm.trans h) Bool.false_ne_true⟩

/-! The end of a transaction. -/

theorem setState_destroyed_eq (tsx : Tsx) (schedule : Bool) :
    setState tsx .destroyed schedule =
      { tsx with
        state := .destroyed, trace := tsx.trace ++ [.destroyed], registered := false, transport := none
        timeoutTimer := none, retransmitTimer := none, lastTx := none, pendingResched := false, pendingSend := false
        pendingDestroy := tsx.pendingTransport || tsx.pendingDestroy } := by
  unfold setState finishState beginState shutdown
  dsimp only [updateTransport, Tsx.cancelTimeout, Tsx.cancelRetransmit]
  by_cases hpending : tsx.pendingTransport = true
  · rw [if_pos hpending, hpending, Bool.true_or]
  · rw [if_neg hpending, Bool.eq_false_iff.mpr hpending, Bool.false_or]

theorem links_destroyed {tsx : Tsx} (h : Links tsx) (schedule : Bool) : Links (setState tsx .destroyed schedule) := by
  rw [setState_destroyed_eq]
  exact ⟨nofun, h.callbacks, nofun,
    fun _ => rfl, fun _ => rfl⟩

/-! The callbacks of a send. -/

/-- A transaction that waits for its end is destroyed again. -/
structure Repeated (tsx tsx' : Tsx) : Prop where
  waiting : tsx.pendingDestroy = true
  role_eq : tsx'.role = tsx.role
  state_eq : tsx'.state = .destroyed

theorem giveUp_spec (cfg : Cfg) {tsx : Tsx} (h : Links tsx) (hnone : tsx.pendingTx = none) (sc : Nat) :
    Links (giveUp cfg tsx sc) ∧
      ((Kept tsx (giveUp cfg tsx sc) ∧ (giveUp cfg tsx sc).pendingSend = tsx.pendingSend ∧
          (giveUp cfg tsx sc).statusCode = tsx.statusCode) ∨
        (Ended tsx (giveUp cfg tsx sc) ∧ tsx.state ≠ .terminated ∧ tsx.state ≠ .destroyed) ∨
        Repeated tsx (giveUp cfg tsx sc)) ∧
      (giveUp cfg tsx sc).transportErr = tsx.transportErr ∧ (giveUp cfg tsx sc).pendingTx = none := by
  have hcode : Links (tsx.setStatusCode sc) := h
  unfold giveUp
  split
  · rename_i hstate
    have hended := (setState_terminated (tsx.setStatusCode sc)).of_setStatusCode
    obtain ⟨pendingTx, timer, hpending, -, heq⟩ := setState_terminated_eq (tsx.setStatusCode sc) true
    refine ⟨links_terminated hcode hstate.2.2 true, .inr (.inl ⟨hended, hstate.2⟩), ?_, ?_⟩
    · rw [heq]
      rfl
    · rw [heq]
      exact hpending hnone
  · split
    · rename_i hdestroy
      have hlinks := links_destroyed hcode true
      rw [setState_destroyed_eq] at hlinks ⊢
      exact ⟨hlinks, .inr (.inr ⟨hdestroy, rfl, rfl⟩), rfl, hnone⟩
    · split
      · rename_i hresched
        obtain ⟨timer, heq⟩ := reschedRetransmission_eq cfg { tsx with pendingResched := false }
        refine ⟨?_, .inl ⟨kept_resched cfg hresched.2.1, ?_, ?_⟩, ?_, ?_⟩
        · rw [heq]
          exact h
        · rw [heq]
        · rw [heq]
        · rw [heq]
        · rw [heq]
          exact hnone
      · exact ⟨h, .inl ⟨.refl tsx, rfl, rfl⟩, rfl, hnone⟩

/-- A failure that is reported: the transaction goes on, it is terminated for it, or it had been waiting for its end. -/
theorem sendMsgFailed_spec (cfg : Cfg) {tsx : Tsx} (h : Links tsx) (failure : Failure) :
    Links (sendMsgFailed cfg tsx failure) ∧
      ((Kept tsx (sendMsgFailed cfg tsx failure) ∧
          (sendMsgFailed cfg tsx failure).pendingSend = tsx.pendingSend ∧
          (sendMsgFailed cfg tsx failure).statusCode = tsx.statusCode) ∨
        (Ended tsx (sendMsgFailed cfg tsx failure) ∧ tsx.state ≠ .terminated ∧ tsx.state ≠ .destroyed ∧
          (sendMsgFailed cfg tsx failure).transportErr.isSome = true ∧
          (sendMsgFailed cfg tsx failure).pendingTx = none) ∨
        Repeated tsx (sendMsgFailed cfg tsx failure)) := by
  unfold sendMsgFailed
  split
  · exact ⟨h, .inl ⟨.refl tsx, rfl, rfl⟩⟩
  · dsimp only
    generalize htsx : (if failure.curTransport = tsx.transport.map Transport.id then updateTransport tsx none else tsx) = u
    have hu : Links u := by
      rw [← htsx]
      split
      · exact links_release h
      · exact h
    have hkept : Kept tsx u := by
      rw [← htsx]
      split
      · exact kept_updateTransport tsx none
      · exact .refl tsx
    have hwaiting : u.pendingSend = tsx.pendingSend ∧ u.statusCode = tsx.statusCode := by
      rw [← htsx]
      split
      · exact ⟨rfl, rfl⟩
      · exact ⟨rfl, rfl⟩
    split
    · have hlinks : Links { u with
          pendingTx := none, transportErr := some failure.error, pendingTransport := false, resolvedServer := true } :=
        ⟨fun _ _ => rfl, fun _ _ => rfl, fun _ _ _ => .inr rfl, hu.destroy, hu.ended⟩
      have hkept' : Kept tsx { u with
          pendingTx := none, transportErr := some failure.error, pendingTransport := false, resolvedServer := true } :=
        hkept.trans ⟨rfl, rfl, rfl, rfl, rfl, rfl, fun h => h, fun _ _ => rfl, fun _ _ => rfl, fun h => ⟨h, rfl⟩⟩
      obtain ⟨hafter, hcases, herr, hnone⟩ := giveUp_spec cfg hlinks rfl (failureCode failure.error)
      refine ⟨hafter, ?_⟩
      rcases hcases with ⟨hsame, hsend, hcode⟩ | ⟨hended, hterminated, hdestroyed⟩ | hrepeated
      · exact .inl ⟨hkept'.trans hsame, hsend.trans hwaiting.1, hcode.trans hwaiting.2⟩
      · refine .inr (.inl ⟨hkept'.held.ended hended, ?_, ?_, ?_, hnone⟩)
        · rw [← hkept'.state_eq]
          exact hterminated
        · rw [← hkept'.state_eq]
          exact hdestroyed
        · rw [herr]
          rfl
      · exact .inr (.inr ⟨hkept'.destroy_eq ▸ hrepeated.waiting, hrepeated.role_eq.trans hkept'.role_eq, hrepeated.state_eq⟩)
    · have hcount : Kept u { u with retransmitCount := 0 } :=
        ⟨rfl, rfl, rfl, rfl, rfl, rfl, fun h => h, fun _ h => h, fun _ _ => rfl, fun h => ⟨h, rfl⟩⟩
      split
      · exact ⟨hu, .inl ⟨hkept.trans (hcount.trans (kept_restartTimeout _ _)), hwaiting⟩⟩
      · exact ⟨hu, .inl ⟨hkept.trans hcount, hwaiting⟩⟩

/-- `tsx_send_msg` as it is used by its own callback: a transaction that it terminates has an error to tell of. -/
def SendSpec (again : Tsx → Tdata → Tsx × Status) : Prop :=
  ∀ tsx tdata, Links tsx → tsx.state ≠ .destroyed → Links (again tsx tdata).1 ∧
    (Kept tsx (again tsx tdata).1 ∨
      (Ended tsx (again tsx tdata).1 ∧ (tsx.state ≠ .terminated → (again tsx tdata).2.isSome = true ∧
        (tsx.role = .uas → (again tsx tdata).1.transportErr.isSome = true))))

theorem reschedPending_eq (cfg : Cfg) (tsx : Tsx) :
    ∃ resched timer, reschedPending cfg tsx = { tsx with pendingResched := resched, retransmitTimer := timer } ∧
      (tsx.pendingResched = false → resched = false ∧ timer = tsx.retransmitTimer) := by
  unfold reschedPending
  split
  · rename_i hresched
    dsimp only
    have hfalse : tsx.pendingResched ≠ false := by
      rw [hresched.1]
      exact Bool.noConfusion
    split
    · exact ⟨false, tsx.retransmitTimer, rfl, fun _ => ⟨rfl, rfl⟩⟩
    · obtain ⟨timer, heq⟩ := reschedRetransmission_eq cfg { tsx with pendingResched := false }
      exact ⟨false, timer, heq, fun h => absurd h hfalse⟩
  · exact ⟨tsx.pendingResched, tsx.retransmitTimer, rfl, fun h => ⟨h, rfl⟩⟩

/-- The message that was waiting is sent. -/
theorem sendPending_spec {again : Tsx → Tdata → Tsx × Status} (hagain : SendSpec again) {tsx : Tsx} (h : Links tsx) :
    ∃ u, (if tsx.pendingSend = true then
        match tsx.lastTx with
        | some tdata => (again { tsx with pendingSend := false } tdata).1
        | none => { tsx with pendingSend := false }
      else tsx) = u ∧
      Links u ∧ (Kept tsx u ∨ (Ended tsx u ∧ tsx.pendingSend = true ∧
        (tsx.state ≠ .terminated → tsx.role = .uas → u.transportErr.isSome = true))) := by
  refine ⟨_, rfl, ?_⟩
  split
  · rename_i hpending
    have hstate : tsx.state ≠ .destroyed := fun hd => absurd (hpending.symm.trans (h.ended hd)) Bool.noConfusion
    have hlinks : Links { tsx with pendingSend := false } :=
      ⟨h.transport, h.callbacks, nofun, h.destroy, fun _ => rfl⟩
    have hkept : Kept tsx { tsx with pendingSend := false } :=
      ⟨rfl, rfl, rfl, rfl, rfl, rfl, fun h => h, fun _ h => h, fun _ _ => rfl, fun h => ⟨h, rfl⟩⟩
    split
    · rename_i tdata _
      obtain ⟨hafter, hcases⟩ := hagain { tsx with pendingSend := false } tdata hlinks hstate
      rcases hcases with hsame | ⟨hended, herr⟩
      · exact ⟨hafter, .inl (hkept.trans hsame)⟩
      · exact ⟨hafter, .inr ⟨hkept.held.ended hended, hpending, fun hs => (herr hs).2⟩⟩
    · exact ⟨hlinks, .inl hkept⟩
  · exact ⟨h, .inl (.refl tsx)⟩

/-- What is done when a message has been sent: the message that waits is sent, if there is one. -/
theorem flushPending_spec (cfg : Cfg) {again : Tsx → Tdata → Tsx × Status} (hagain : SendSpec again) {tsx : Tsx}
    (h : Links tsx) :
    Links (flushPending cfg again tsx) ∧
      (Kept tsx (flushPending cfg again tsx) ∨
        (Ended tsx (flushPending cfg again tsx) ∧ tsx.pendingSend = true ∧ (tsx.state ≠ .terminated →
          tsx.role = .uas → (flushPending cfg again tsx).transportErr.isSome = true)) ∨
        Repeated tsx (flushPending cfg again tsx)) := by
  unfold flushPending
  split
  · rename_i hdestroy
    have hlinks := links_destroyed h true
    rw [setState_destroyed_eq] at hlinks ⊢
    exact ⟨hlinks, .inr (.inr ⟨hdestroy, rfl, rfl⟩)⟩
  · dsimp only
    obtain ⟨u, hsend, hu⟩ := sendPending_spec hagain h
    erw [hsend]
    obtain ⟨resched, timer, heq, hsame⟩ := reschedPending_eq cfg u
    rw [heq]
    obtain ⟨hlinks, hcases⟩ := hu
    refine ⟨hlinks, ?_⟩
    rcases hcases with hkept | ⟨hended, hpending, herr⟩
    · exact .inl (hkept.trans ⟨rfl, rfl, rfl, rfl, rfl, rfl, fun h => h, fun _ h => h, fun _ _ => rfl, hsame⟩)
    · exact .inr (.inl ⟨⟨hended.role_eq, hended.method_eq, hended.state_eq, hended.trace_eq, hended.registered_eq,
        hended.destroy_eq, hended.timer, hended.no_transport⟩, hpending, herr⟩)

theorem sendMsgSent_spec (cfg : Cfg) {again : Tsx → Tdata → Tsx × Status} (hagain : SendSpec again) {tsx : Tsx}
    (h : Links tsx) (tp : Transport) :
    Links (sendMsgSent cfg again tsx tp) ∧
      ((Kept tsx (sendMsgSent cfg again tsx tp) ∧
          (tsx.role = .uac → (sendMsgSent cfg again tsx tp).statusCode = tsx.statusCode)) ∨
        (Ended tsx (sendMsgSent cfg again tsx tp) ∧ tsx.pendingTx ≠ none ∧ tsx.pendingSend = true ∧
          (tsx.state ≠ .terminated → tsx.role = .uas → (sendMsgSent cfg again tsx tp).transportErr.isSome = true)) ∨
        Repeated tsx (sendMsgSent cfg again tsx tp)) := by
  unfold sendMsgSent
  split
  · exact ⟨h, .inl ⟨.refl tsx, fun _ => rfl⟩⟩
  · rename_i hpendingTx
    dsimp only
    generalize hupdate : (if tsx.transport.map Transport.id ≠ some tp.id then
        { updateTransport { tsx with pendingTx := none } (some tp) with isReliable := tp.reliable }
      else { tsx with pendingTx := none }) = u
    have hu : Kept tsx u ∧ u.pendingSend = tsx.pendingSend ∧ u.statusCode = tsx.statusCode := by
      rw [← hupdate]
      split
      · have hkept := kept_updateTransport { tsx with pendingTx := none } (some tp)
        have hframe := updateTransport_frame { tsx with pendingTx := none } (some tp)
        exact ⟨⟨hkept.role_eq, hkept.method_eq, hkept.state_eq, hkept.trace_eq, hkept.registered_eq, hkept.destroy_eq,
          hkept.timer, hkept.resolved, hkept.code, hkept.resched⟩, hframe.2.1, hframe.2.2.2.2⟩
      · exact ⟨⟨rfl, rfl, rfl, rfl, rfl, rfl, fun h => h, fun _ h => h, fun _ _ => rfl, fun h => ⟨h, rfl⟩⟩, rfl, rfl⟩
    obtain ⟨hkept, hsend, hcode⟩ := hu
    have hlinks : Links { u with pendingTransport := false, resolvedServer := true } :=
      ⟨fun _ _ => rfl, fun _ _ => rfl, fun _ _ _ => .inr rfl,
        fun hd => hkept.state_eq.trans (h.destroy (hkept.destroy_eq.symm.trans hd)),
        fun hs => hsend.trans (h.ended (hkept.state_eq.symm.trans hs))⟩
    have hkept' : Kept tsx { u with pendingTransport := false, resolvedServer := true } :=
      hkept.trans ⟨rfl, rfl, rfl, rfl, rfl, rfl, fun h => h, fun _ _ => rfl, fun _ _ => rfl, fun h => ⟨h, rfl⟩⟩
    obtain ⟨hafter, hcases⟩ := flushPending_spec cfg hagain hlinks
    refine ⟨hafter, ?_⟩
    rcases hcases with hsame | ⟨hended, hwaiting, herr⟩ | hrepeated
    · exact .inl ⟨hkept'.trans hsame, fun hrole => (hsame.code (hkept.role_eq.trans hrole) rfl).trans hcode⟩
    · refine .inr (.inl ⟨hkept'.held.ended hended, hpendingTx, hsend.symm.trans hwaiting, fun hstate hrole => ?_⟩)
      refine herr (fun hs => hstate ?_) ?_
      · rw [← hkept'.state_eq]
        exact hs
      · rw [← hrole]
        exact hkept'.role_eq
    · exact .inr (.inr ⟨hkept'.destroy_eq ▸ hrepeated.waiting, hrepeated.role_eq.trans hkept'.role_eq,
        hrepeated.state_eq⟩)

/-! The send itself. -/

theorem foldl_of_pendingTx_none (cfg : Cfg) (failures : List Failure) {tsx : Tsx} (h : tsx.pendingTx = none) :
    failures.foldl (sendMsgFailed cfg) tsx = tsx := by
  induction failures with
  | nil => rfl
  | cons failure more ih =>
    have hfirst : sendMsgFailed cfg tsx failure = tsx := by
      unfold sendMsgFailed
      rw [if_pos h]
    rw [List.foldl_cons, hfirst]
    exact ih

theorem sendMsgSent_of_none (cfg : Cfg) (again : Tsx → Tdata → Tsx × Status) {tsx : Tsx} (h : tsx.pendingTx = none)
    (tp : Transport) : sendMsgSent cfg again tsx tp = tsx := by
  unfold sendMsgSent
  rw [if_pos h]

theorem not_waiting {tsx : Tsx} (h : Links tsx) (hstate : tsx.state ≠ .destroyed) : tsx.pendingDestroy ≠ true :=
  fun hd => hstate (h.destroy hd)

theorem failures_spec (cfg : Cfg) (failures : List Failure) {tsx : Tsx} (h : Links tsx) (hstate : tsx.state ≠ .destroyed) :
    Links (failures.foldl (sendMsgFailed cfg) tsx) ∧
      ((Kept tsx (failures.foldl (sendMsgFailed cfg) tsx) ∧
          (failures.foldl (sendMsgFailed cfg) tsx).pendingSend = tsx.pendingSend) ∨
        (Ended tsx (failures.foldl (sendMsgFailed cfg) tsx) ∧
          (failures.foldl (sendMsgFailed cfg) tsx).transportErr.isSome = true ∧
          (failures.foldl (sendMsgFailed cfg) tsx).pendingTx = none)) := by
  induction failures generalizing tsx with
  | nil => exact ⟨h, .inl ⟨.refl tsx, rfl⟩⟩
  | cons failure more ih =>
    obtain ⟨hafter, hcases⟩ := sendMsgFailed_spec cfg h failure
    rw [List.foldl_cons]
    rcases hcases with ⟨hkept, hsend, -⟩ | ⟨hended, -, -, herr, hnone⟩ | hrepeated
    · have hstate' : (sendMsgFailed cfg tsx failure).state ≠ .destroyed := by
        rw [hkept.state_eq]
        exact hstate
      obtain ⟨hlinks, hrest⟩ := ih hafter hstate'
      refine ⟨hlinks, ?_⟩
      rcases hrest with ⟨hkept', hsend'⟩ | ⟨hended, herr, hnone⟩
      · exact .inl ⟨hkept.trans hkept', hsend'.trans hsend⟩
      · exact .inr ⟨hkept.held.ended hended, herr, hnone⟩
    · rw [foldl_of_pendingTx_none cfg more hnone]
      exact ⟨hafter, .inr ⟨hended, herr, hnone⟩⟩
    · exact absurd hrepeated.waiting (not_waiting h hstate)

theorem rank_lt_terminated {state : State} (hterminated : state ≠ .terminated) (hdestroyed : state ≠ .destroyed) :
    state.rank < State.terminated.rank := by
  cases state with
  | terminated => exact absurd rfl hterminated
  | destroyed => exact absurd rfl hdestroyed
  | _ => decide

theorem sendStateless_spec (cfg : Cfg) {again : Tsx → Tdata → Tsx × Status} (hagain : SendSpec again) {tsx : Tsx}
    (h : Links tsx) (hstate : tsx.state ≠ .destroyed) (hidle : tsx.pendingTransport = false)
    (hunresolved : ¬(tsx.role = .uac ∧ tsx.resolvedServer = true)) (tdata : Tdata) (send : Stateless) :
    Links (sendStateless cfg again tsx tdata send).1 ∧
      (Kept tsx (sendStateless cfg again tsx tdata send).1 ∨
        (Ended tsx (sendStateless cfg again tsx tdata send).1 ∧
          (tsx.state ≠ .terminated → (sendStateless cfg again tsx tdata send).2.isSome = true ∧
            (tsx.role = .uas → (sendStateless cfg again tsx tdata send).1.transportErr.isSome = true)))) := by
  unfold sendStateless
  generalize (if tdata.msg.isRequest then send else endptSendResponse tsx.resTransport send) = started
  unfold startStateless
  cases started with
  | refused error =>
    dsimp only
    split
    · exact ⟨h, .inl ⟨rfl, rfl, rfl, rfl, rfl, rfl, fun h => h, fun _ h => h,
        fun hrole hres => absurd ⟨hrole, hres⟩ hunresolved, fun h => ⟨h, rfl⟩⟩⟩
    · exact ⟨h, .inl ⟨rfl, rfl, rfl, rfl, rfl, rfl, fun h => h, fun _ h => h, fun _ _ => rfl, fun h => ⟨h, rfl⟩⟩⟩
  | tried failures sent =>
    dsimp only
    have hlinks : Links { tsx with pendingTx := some tdata, pendingTransport := true } :=
      ⟨h.transport, h.callbacks, fun _ _ _ => .inl rfl, h.destroy, h.ended⟩
    have hkept : Kept tsx { tsx with pendingTx := some tdata, pendingTransport := true } :=
      ⟨rfl, rfl, rfl, rfl, rfl, rfl, fun h => h, fun _ h => h, fun _ _ => rfl, fun h => ⟨h, rfl⟩⟩
    obtain ⟨hu, hcases⟩ := failures_spec cfg failures hlinks hstate
    generalize failures.foldl (sendMsgFailed cfg) { tsx with pendingTx := some tdata, pendingTransport := true } = u at *
    rcases hcases with ⟨hsame, hsend⟩ | ⟨hended, herr, hnone⟩
    · cases sent with
      | none => exact ⟨hu, .inl (hkept.trans hsame)⟩
      | some tp =>
        obtain ⟨hafter, hcases⟩ := sendMsgSent_spec cfg hagain hu tp
        refine ⟨hafter, ?_⟩
        rcases hcases with ⟨hsame', -⟩ | ⟨hended, -, hwaiting, herr⟩ | hrepeated
        · exact .inl (hkept.trans (hsame.trans hsame'))
        · refine .inr ⟨hkept.held.ended (hsame.held.ended hended), fun hterminated => ?_⟩
          have hpending : tsx.pendingSend = true := hsend.symm.trans hwaiting
          have hrole : tsx.role = .uas := by
            cases hrole : tsx.role with
            | uas => rfl
            | uac =>
              rcases h.waiting hrole (rank_lt_terminated hterminated hstate) hpending with hbusy | hres
              · exact absurd (hidle.symm.trans hbusy) Bool.false_ne_true
              · exact absurd ⟨hrole, hres⟩ hunresolved
          have herr' := herr (by rw [hsame.state_eq]; exact hterminated) (hsame.role_eq.trans hrole)
          rw [if_pos hended.state_eq]
          exact ⟨herr', fun _ => herr'⟩
        · exact absurd hrepeated.waiting (not_waiting hu (by rw [hsame.state_eq]; exact hstate))
    · have hdone : Links u ∧ (Kept tsx u ∨ (Ended tsx u ∧
          (tsx.state ≠ .terminated → (if u.state = .terminated then u.transportErr else none).isSome = true ∧
            (tsx.role = .uas → u.transportErr.isSome = true)))) := by
        rw [if_pos hended.state_eq]
        exact ⟨hu, .inr ⟨hkept.held.ended hended, fun _ => ⟨herr, fun _ => herr⟩⟩⟩
      cases sent with
      | none => exact hdone
      | some tp =>
        dsimp only
        simp only [sendMsgSent_of_none cfg again hnone]
        exact hdone

/-- What the part of `tsx_send_msg` that has a transport leaves. -/
theorem sendOnTransport_spec {tsx : Tsx} (h : Links tsx) (hidle : tsx.pendingTransport = false) (send : TpSend) :
    Links (sendOnTransport tsx send).1 ∧ Kept tsx (sendOnTransport tsx send).1 ∧
      ((sendOnTransport tsx send).2.isSome = true → (sendOnTransport tsx send).1.pendingTransport = false ∧
        (sendOnTransport tsx send).1.resolvedServer = tsx.resolvedServer) := by
  unfold sendOnTransport
  cases htransport : tsx.transport with
  | none => exact ⟨h, .refl tsx, fun _ => ⟨hidle, rfl⟩⟩
  | some tp =>
    cases send with
    | sent => exact ⟨h, .refl tsx, nofun⟩
    | pending =>
      have hres : tsx.role = .uac → tsx.resolvedServer = true := fun hrole =>
        h.transport hrole (by rw [htransport]; rfl)
      exact ⟨⟨fun hrole _ => hres hrole, fun hrole _ => hres hrole, fun _ _ _ => .inl rfl, h.destroy, h.ended⟩,
        ⟨rfl, rfl, rfl, rfl, rfl, rfl, fun h => h, fun _ h => h, fun _ _ => rfl, fun h => ⟨h, rfl⟩⟩,
        nofun⟩
    | failed error =>
      have hreleased := links_release h
      have hkept := kept_updateTransport tsx none
      exact ⟨⟨hreleased.transport, hreleased.callbacks, hreleased.waiting, hreleased.destroy, hreleased.ended⟩,
        ⟨hkept.role_eq, hkept.method_eq, hkept.state_eq, hkept.trace_eq, hkept.registered_eq, hkept.destroy_eq,
          hkept.timer, hkept.resolved, hkept.code, hkept.resched⟩, fun _ => ⟨hidle, rfl⟩⟩

theorem sendWith_spec (cfg : Cfg) {again : Tsx → Tdata → Tsx × Status} (hagain : SendSpec again) (send : Send) :
    SendSpec (sendWith cfg again send) := by
  intro tsx tdata h hstate
  unfold sendWith
  by_cases hbusy : tsx.pendingTransport = true
  · rw [if_pos hbusy]
    refine ⟨⟨h.transport, h.callbacks, fun _ _ _ => .inl hbusy, h.destroy, fun hs => absurd hs hstate⟩, .inl ?_⟩
    exact ⟨rfl, rfl, rfl, rfl, rfl, rfl, fun h => h, fun _ h => h, fun _ _ => rfl, fun h => ⟨h, rfl⟩⟩
  · have hidle := Bool.eq_false_iff.mpr hbusy
    rw [if_neg hbusy]
    by_cases hpending : send.isPending = true
    · rw [if_pos hpending]
      exact ⟨h, .inl (.refl tsx)⟩
    · rw [if_neg hpending]
      obtain ⟨hlinks, hkept, hleft⟩ := sendOnTransport_spec h hidle send.viaTransport
      rcases hsend : sendOnTransport tsx send.viaTransport with ⟨u, result⟩
      rw [hsend] at hlinks hkept hleft
      cases result with
      | none => exact ⟨hlinks, .inl hkept⟩
      | some status =>
        obtain ⟨hidle', hres⟩ := hleft rfl
        have hstate' : u.state ≠ .destroyed := by
          rw [hkept.state_eq]
          exact hstate
        dsimp only at hlinks hkept hidle' ⊢
        by_cases hresolved : u.role = .uac ∧ u.resolvedServer = true
        · rw [if_pos hresolved]
          have hcode : Links (u.setStatusCode scTransportError) := hlinks
          refine ⟨links_terminated hcode hstate' true, .inr ⟨?_, fun _ => ⟨rfl, fun hrole => ?_⟩⟩⟩
          · exact hkept.held.ended (setState_terminated _).of_setStatusCode
          · have huas : u.role = .uas := hkept.role_eq.trans hrole
            exact absurd (huas.symm.trans hresolved.1) Role.noConfusion
        · rw [if_neg hresolved]
          obtain ⟨hafter, hcases⟩ := sendStateless_spec cfg hagain hlinks hstate' hidle' hresolved tdata send.stateless
          refine ⟨hafter, ?_⟩
          rcases hcases with hsame | ⟨hended, herr⟩
          · exact .inl (hkept.trans hsame)
          · refine .inr ⟨hkept.held.ended hended, fun hterminated => ?_⟩
            obtain ⟨hsome, huas⟩ := herr (by rw [hkept.state_eq]; exact hterminated)
            exact ⟨hsome, fun hrole => huas (hkept.role_eq.trans hrole)⟩

/-- **A send**, in any state but the last. -/
theorem sendMsg_spec (cfg : Cfg) (sends : List Send) : SendSpec (sendMsg cfg sends) := by
  induction sends with
  | nil => exact sendWith_spec cfg (fun tsx _ h _ => ⟨h, .inl (.refl tsx)⟩) pendingSend
  | cons send more ih => exact sendWith_spec cfg ih send

theorem retransmit_spec (cfg : Cfg) (inputs : Inputs) {tsx : Tsx} (h : Links tsx) (hstate : tsx.state ≠ .destroyed)
    (resched : Bool) :
    Links (retransmit cfg inputs tsx resched).1 ∧
      (Held tsx (retransmit cfg inputs tsx resched).1 ∨ Ended tsx (retransmit cfg inputs tsx resched).1) := by
  unfold retransmit
  split
  · exact ⟨h, .inl (.refl tsx)⟩
  · split
    · exact ⟨h, .inl (.refl tsx)⟩
    · rename_i tdata _
      split
      · exact ⟨h, .inl (kept_restartTimeout _ _).held⟩
      · dsimp only
        generalize hstart : (if resched = true then
            if tsx.pendingTransport = true then
              { tsx with retransmitCount := tsx.retransmitCount + 1, pendingResched := true }
            else reschedRetransmission cfg { tsx with retransmitCount := tsx.retransmitCount + 1 }
          else { tsx with retransmitCount := tsx.retransmitCount + 1 }) = u
        have hu : Links u ∧ Held tsx u := by
          obtain ⟨timer, heq⟩ := reschedRetransmission_eq cfg { tsx with retransmitCount := tsx.retransmitCount + 1 }
          rw [← hstart, heq]
          split
          · split
            · exact ⟨h, rfl, rfl, rfl, rfl, rfl, rfl, fun h => h⟩
            · exact ⟨h, rfl, rfl, rfl, rfl, rfl, rfl, fun h => h⟩
          · exact ⟨h, rfl, rfl, rfl, rfl, rfl, rfl, fun h => h⟩
        obtain ⟨hlinks, hheld⟩ := hu
        have hstate' : u.state ≠ .destroyed := by
          rw [hheld.state_eq]
          exact hstate
        obtain ⟨hafter, hcases⟩ := sendMsg_spec cfg inputs.sends u tdata hlinks hstate'
        rcases hsend : sendMsg cfg inputs.sends u tdata with ⟨v, status⟩
        rw [hsend] at hafter hcases
        have hv : Links v ∧ (Held tsx v ∨ Ended tsx v) := by
          refine ⟨hafter, ?_⟩
          rcases hcases with hkept | ⟨hended, -⟩
          · exact .inl (hheld.trans hkept.held)
          · exact .inr (hheld.ended hended)
        cases status with
        | some error => exact hv
        | none =>
          dsimp only
          split
          · obtain ⟨hlinks', hcases'⟩ := hv
            refine ⟨hlinks', ?_⟩
            rcases hcases' with hsame | hended
            · exact .inl (hsame.trans ⟨rfl, rfl, rfl, rfl, rfl, rfl, fun h => h⟩)
            · exact .inr ⟨hended.role_eq, hended.method_eq, hended.state_eq, hended.trace_eq, hended.registered_eq,
                hended.destroy_eq, hended.timer, hended.no_transport⟩
          · exact hv

end PjProject.SipTransaction
