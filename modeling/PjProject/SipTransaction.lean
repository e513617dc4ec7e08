import PjProject.Runs

/-! The SIP transaction (`sip_transaction.c`), one event at a time; the workers that run while one of them has released
the lock are in `SipTransactionWorkers`. What lies below comes from outside with an event: how each message that is to be
sent is taken by the transport manager, what a send reports while it is started, and the ACK that
`pjsip_endpt_create_ack` makes. The timer heap has room for the timers of the transaction. -/

namespace PjProject.SipTransaction

/-- `pjsip_role_e`. -/
inductive Role
  | uac
  | uas
  deriving DecidableEq, Repr

inductive Method
  | invite
  | ack
  | bye
  | other
  deriving DecidableEq, Repr

/-- `pjsip_tsx_state_e`. -/
inductive State
  | null
  | calling
  | trying
  | proceeding
  | completed
  | confirmed
  | terminated
  | destroyed
  deriving DecidableEq, Repr

/-- The value of the enumerator. -/
def State.rank : State → Nat
  | .null => 0
  | .calling => 1
  | .trying => 2
  | .proceeding => 3
  | .completed => 4
  | .confirmed => 5
  | .terminated => 6
  | .destroyed => 7

/-- The errors; `other` is one of the transport, the endpoint or the system. -/
inductive Errno
  | einval
  | einvalidop
  | ebug
  | eunknown
  | eignored
  | ecancelled
  | eresolve
  | nxdomain
  | enotrequestmsg
  | enotresponsemsg
  | einvalidmethod
  | other (status : Nat)
  deriving DecidableEq, Repr

/-- A `pj_status_t`; `none` is `PJ_SUCCESS`. -/
abbrev Status := Option Errno

inductive Msg
  | request (method : Method)
  | response (code : Nat) (cseqMethod : Method)
  deriving DecidableEq, Repr

def Msg.isRequest : Msg → Bool
  | .request _ => true
  | .response _ _ => false

/-- `pjsip_tx_data`, told apart by a number. -/
structure Tdata where
  id : Nat
  msg : Msg
  deriving DecidableEq, Repr

/-- `pjsip_transport`. -/
structure Transport where
  id : Nat
  reliable : Bool
  shutdown : Bool
  deriving DecidableEq, Repr

/-- `TIMEOUT_TIMER`, `TRANSPORT_ERR_TIMER` and `TRANSPORT_DISC_TIMER`. -/
inductive TimerId
  | timeout
  | transportErr
  | transportDisc
  deriving DecidableEq, Repr

/-- The timer values in milliseconds and `max_retrans_count`, which is negative as long as there is no limit. -/
structure Cfg where
  t1 : Nat
  t2 : Nat
  t4 : Nat
  td : Nat
  timeout : Nat
  maxRetransCount : Option Nat
  deriving DecidableEq, Repr

/-- `pjsip_transaction`. A timer is there with its delay while it is scheduled. `registered` says that the transaction
is in the hash table, `resTransport` is `res_addr.transport`, `tpPending` is the number of sends whose
`transport_callback` is to come, and `trace` has the states that were set. -/
structure Tsx where
  role : Role
  method : Method
  state : State
  statusCode : Nat
  handle200resp : Bool
  isReliable : Bool
  transport : Option Transport
  resTransport : Option Transport
  transportErr : Status
  pendingTransport : Bool
  pendingResched : Bool
  pendingSend : Bool
  pendingDestroy : Bool
  resolvedServer : Bool
  lastTx : Option Tdata
  pendingTx : Option Tdata
  retransmitCount : Nat
  retransmitTimer : Option Nat
  timeoutTimer : Option (TimerId × Nat)
  registered : Bool
  tpPending : Nat
  trace : List State
  deriving DecidableEq, Repr

/-! What comes from outside. -/

/-- How `pjsip_transport_send` takes a message. -/
inductive TpSend
  | sent
  | pending
  | failed (error : Errno)
  deriving DecidableEq, Repr

/-- A send that failed: the error, whether another server is left to try, and the number of the transport. -/
structure Failure where
  error : Errno
  cont : Bool
  curTransport : Option Nat
  deriving DecidableEq, Repr

/-- How `pjsip_endpt_send_request_stateless` or `pjsip_endpt_send_response` takes a message: it is refused, or the send
is started, and reports failures and then success before the start returns. -/
inductive Stateless
  | refused (error : Errno)
  | tried (failures : List Failure) (sent : Option Transport)
  deriving DecidableEq, Repr

/-- A message that is to be sent: whether it is being sent already, and how it is taken. -/
structure Send where
  isPending : Bool
  viaTransport : TpSend
  stateless : Stateless
  deriving DecidableEq, Repr

/-- The sends during an event, one after another, and the ACK. -/
structure Inputs where
  sends : List Send
  ack : Except Errno Tdata

/-! Timers, transport and state. -/

/-- `PJSIP_SC_REQUEST_TIMEOUT`, which is `PJSIP_SC_TSX_TIMEOUT`, `PJSIP_SC_CALL_TSX_DOES_NOT_EXIST`,
`PJSIP_SC_BAD_GATEWAY` and `PJSIP_SC_TSX_TRANSPORT_ERROR`. -/
def scTimeout : Nat := 408
def scCallTsxDoesNotExist : Nat := 481
def scBadGateway : Nat := 502
def scTransportError : Nat := 503

/-- `PJSIP_TSX_1XX_RETRANS_DELAY` in milliseconds. -/
def retransDelay1xx : Nat := 60000

/-- `tsx_cancel_timer` for both timers. -/
def Tsx.cancelTimeout (tsx : Tsx) : Tsx := { tsx with timeoutTimer := none }
def Tsx.cancelRetransmit (tsx : Tsx) : Tsx := { tsx with retransmitTimer := none }

/-- `tsx_schedule_timer` for both timers; a timer that is scheduled stays as it is. -/
def Tsx.scheduleTimeout (tsx : Tsx) (id : TimerId) (delay : Nat) : Tsx :=
  { tsx with timeoutTimer := tsx.timeoutTimer.or (some (id, delay)) }
def Tsx.scheduleRetransmit (tsx : Tsx) (delay : Nat) : Tsx :=
  { tsx with retransmitTimer := tsx.retransmitTimer.or (some delay) }

def Tsx.restartTimeout (tsx : Tsx) (id : TimerId) (delay : Nat) : Tsx := tsx.cancelTimeout.scheduleTimeout id delay

/-- `tsx_set_status_code`. -/
def Tsx.setStatusCode (tsx : Tsx) (code : Nat) : Tsx := { tsx with statusCode := code }

/-- `tsx_tp_state_callback` for a transport that is disconnected. -/
def tpStateCallback (tsx : Tsx) (status : Status) : Tsx :=
  let tsx := { tsx with pendingTransport := false, transportErr := status }
  if tsx.state.rank < State.completed.rank then tsx.restartTimeout .transportDisc 0 else tsx

/-- `tsx_update_transport`. -/
def updateTransport (tsx : Tsx) : Option Transport → Tsx
  | none => { tsx with transport := none }
  | some tp =>
    let tsx := { tsx with transport := some tp }
    if tp.shutdown then tpStateCallback tsx (some (.other scTransportError)) else tsx

/-- `tsx_shutdown`. -/
def shutdown (tsx : Tsx) : Tsx :=
  let tsx := (updateTransport tsx none).cancelTimeout.cancelRetransmit
  let tsx := { tsx with lastTx := none, pendingResched := false, pendingSend := false }
  if tsx.pendingTransport then { tsx with pendingDestroy := true } else tsx

/-- `tsx_set_state` before the user is told. -/
def beginState (tsx : Tsx) (state : State) : Tsx := { tsx with state := state, trace := tsx.trace ++ [state] }

/-- `tsx_set_state` when the user has been told; `schedule` says that `NO_SCHEDULE_HANDLER` is not given. -/
def finishState (tsx : Tsx) (state : State) (schedule : Bool) : Tsx :=
  match state with
  | .terminated =>
    let tsx := if tsx.pendingTransport then { tsx with pendingTx := none, pendingTransport := false } else tsx
    if schedule then tsx.restartTimeout .timeout 0 else tsx.cancelTimeout
  | .destroyed => shutdown { tsx with registered := false }
  | _ => tsx

/-- `tsx_set_state`, when the lock is kept. -/
def setState (tsx : Tsx) (state : State) (schedule : Bool) : Tsx := finishState (beginState tsx state) state schedule

/-! Sends and retransmissions. -/

/-- `tsx_resched_retransmission`. -/
def reschedRetransmission (cfg : Cfg) (tsx : Tsx) : Tsx :=
  let msecTime :=
    if tsx.role = .uac ∧ 100 ≤ tsx.statusCode then cfg.t2 else 2 ^ tsx.retransmitCount * cfg.t1 % 4294967296
  let msecTime :=
    match tsx.role with
    | .uac => if cfg.t2 < msecTime ∧ tsx.method ≠ .invite then cfg.t2 else msecTime
    | .uas => if tsx.statusCode < 200 then retransDelay1xx else if cfg.t2 < msecTime then cfg.t2 else msecTime
  if msecTime ≠ 0 then tsx.scheduleRetransmit msecTime else tsx

/-- The retransmission that waits for the transport. -/
def reschedPending (cfg : Cfg) (tsx : Tsx) : Tsx :=
  if tsx.pendingResched ∧ tsx.pendingTransport = false then
    let tsx := { tsx with pendingResched := false }
    if tsx.isReliable then tsx else reschedRetransmission cfg tsx
  else tsx

/-- What is left to do when a message has been sent; `again` is `tsx_send_msg`. -/
def flushPending (cfg : Cfg) (again : Tsx → Tdata → Tsx × Status) (tsx : Tsx) : Tsx :=
  if tsx.pendingDestroy then setState tsx .destroyed true
  else
    reschedPending cfg <|
      if tsx.pendingSend then
        let tsx := { tsx with pendingSend := false }
        match tsx.lastTx with
        | some tdata => (again tsx tdata).1
        | none => tsx
      else tsx

/-- `send_msg_callback` for a message that has been sent. -/
def sendMsgSent (cfg : Cfg) (again : Tsx → Tdata → Tsx × Status) (tsx : Tsx) (tp : Transport) : Tsx :=
  if tsx.pendingTx = none then tsx
  else
    let tsx := { tsx with pendingTx := none }
    let tsx :=
      if tsx.transport.map Transport.id ≠ some tp.id then
        { updateTransport tsx (some tp) with isReliable := tp.reliable }
      else tsx
    flushPending cfg again { tsx with pendingTransport := false, resolvedServer := true }

def failureCode (error : Errno) : Nat :=
  if error = .eresolve ∨ error = .nxdomain ∨ error = .ecancelled then scBadGateway else scTransportError

/-- `send_msg_callback` for a failure after which no server is tried. -/
def giveUp (cfg : Cfg) (tsx : Tsx) (sc : Nat) : Tsx :=
  if (tsx.role = .uac ∨ sc = scBadGateway) ∧ tsx.state ≠ .terminated ∧ tsx.state ≠ .destroyed then
    setState (tsx.setStatusCode sc) .terminated true
  else if tsx.pendingDestroy then setState (tsx.setStatusCode sc) .destroyed true
  else if tsx.role = .uas ∧ tsx.pendingResched ∧ tsx.state ≠ .terminated ∧ tsx.state ≠ .destroyed then
    reschedRetransmission cfg { tsx with pendingResched := false }
  else tsx

/-- `send_msg_callback` for a failure. -/
def sendMsgFailed (cfg : Cfg) (tsx : Tsx) (failure : Failure) : Tsx :=
  if tsx.pendingTx = none then tsx
  else
    let tsx := if failure.curTransport = tsx.transport.map Transport.id then updateTransport tsx none else tsx
    if failure.cont = false ∨ tsx.pendingDestroy ∨ failure.error = .ecancelled then
      let tsx := { tsx with
        pendingTx := none, transportErr := some failure.error, pendingTransport := false, resolvedServer := true }
      giveUp cfg tsx (failureCode failure.error)
    else
      let tsx := { tsx with retransmitCount := 0 }
      if tsx.timeoutTimer.isSome then tsx.restartTimeout .timeout cfg.timeout else tsx

/-- The part of `tsx_send_msg` that has a transport; nothing is left to do when there is no result. -/
def sendOnTransport (tsx : Tsx) (send : TpSend) : Tsx × Option Status :=
  match tsx.transport with
  | none => (tsx, some none)
  | some _ =>
    match send with
    | .sent => (tsx, none)
    | .pending => ({ tsx with pendingTransport := true, tpPending := tsx.tpPending + 1 }, none)
    | .failed error => ({ updateTransport tsx none with resTransport := none }, some (some error))

/-- `pjsip_endpt_send_response`: without a transport the server is resolved first, and the callback reports the errors. -/
def endptSendResponse : Option Transport → Stateless → Stateless
  | none, .refused error => .tried [⟨error, false, none⟩] none
  | _, send => send

@[simp] theorem endptSendResponse_tried (resTransport : Option Transport) (failures : List Failure)
    (sent : Option Transport) : endptSendResponse resTransport (.tried failures sent) = .tried failures sent := by
  cases resTransport <;> rfl

/-- The part of `tsx_send_msg` that resolves the server, when the endpoint has been called. -/
def startStateless (cfg : Cfg) (again : Tsx → Tdata → Tsx × Status) (tsx : Tsx) (tdata : Tdata) (send : Stateless) :
    Tsx × Status :=
  match send with
  | .refused error =>
    let tsx := { tsx with pendingTx := none }
    (if tdata.msg.isRequest then tsx.setStatusCode scTransportError else tsx, some error)
  | .tried failures sent =>
    let tsx := { tsx with pendingTx := some tdata, pendingTransport := true }
    let tsx := failures.foldl (sendMsgFailed cfg) tsx
    let tsx := match sent with
      | none => tsx
      | some tp => sendMsgSent cfg again tsx tp
    (tsx, if tsx.state = .terminated then tsx.transportErr else none)

/-- The part of `tsx_send_msg` that resolves the server. -/
def sendStateless (cfg : Cfg) (again : Tsx → Tdata → Tsx × Status) (tsx : Tsx) (tdata : Tdata) (send : Stateless) :
    Tsx × Status :=
  startStateless cfg again tsx tdata (if tdata.msg.isRequest then send else endptSendResponse tsx.resTransport send)

/-- `tsx_send_msg`, where `again` is what it calls when it is entered again. -/
def sendWith (cfg : Cfg) (again : Tsx → Tdata → Tsx × Status) (send : Send) (tsx : Tsx) (tdata : Tdata) : Tsx × Status :=
  if tsx.pendingTransport then ({ tsx with pendingSend := true }, none)
  else if send.isPending then (tsx, none)
  else
    match sendOnTransport tsx send.viaTransport with
    | (tsx, none) => (tsx, none)
    | (tsx, some status) =>
      if tsx.role = .uac ∧ tsx.resolvedServer then
        (setState (tsx.setStatusCode scTransportError) .terminated true, some (status.getD .eunknown))
      else sendStateless cfg again tsx tdata send.stateless

def pendingSend : Send := ⟨false, .pending, .tried [] none⟩

/-- `tsx_send_msg`. -/
def sendMsg (cfg : Cfg) : List Send → Tsx → Tdata → Tsx × Status
  | [] => sendWith cfg (fun tsx _ => (tsx, none)) pendingSend
  | send :: more => sendWith cfg (sendMsg cfg more) send

/-- `tsx_retransmit`. -/
def retransmit (cfg : Cfg) (inputs : Inputs) (tsx : Tsx) (resched : Bool) : Tsx × Status :=
  if resched ∧ tsx.retransmitTimer.isSome then (tsx, none)
  else
    match tsx.lastTx with
    | none => (tsx, some .ebug)
    | some tdata =>
      if (∃ max ∈ cfg.maxRetransCount, max ≤ tsx.retransmitCount) ∧ tdata.msg.isRequest then
        (tsx.restartTimeout .timeout 0, none)
      else
        let tsx := { tsx with retransmitCount := tsx.retransmitCount + 1 }
        let tsx :=
          if resched then
            if tsx.pendingTransport then { tsx with pendingResched := true } else reschedRetransmission cfg tsx
          else tsx
        match sendMsg cfg inputs.sends tsx tdata with
        | (tsx, some error) => (tsx, some error)
        | (tsx, none) =>
          (if resched ∧ tsx.pendingTransport then { tsx.cancelRetransmit with pendingResched := true } else tsx, none)

/-! The state handlers. -/

inductive TimerEntry
  | retransmit
  | timeout
  deriving DecidableEq, Repr

/-- `pjsip_event`. -/
inductive Event
  | timer (entry : TimerEntry)
  | txMsg (tdata : Tdata)
  | rxMsg (msg : Msg)
  deriving DecidableEq, Repr

def Tsx.startRetransmit (tsx : Tsx) (delay : Nat) : Tsx :=
  let tsx := { tsx with retransmitCount := 0 }
  if tsx.pendingTransport then { tsx with pendingResched := true } else tsx.scheduleRetransmit delay

/-- `tsx_on_state_null` for the request that is sent. -/
def sendRequest (cfg : Cfg) (inputs : Inputs) (tsx : Tsx) (tdata : Tdata) : Tsx × Status :=
  match sendMsg cfg inputs.sends { tsx with lastTx := some tdata } tdata with
  | (tsx, some error) => (tsx, some error)
  | (tsx, none) =>
    let tsx := tsx.restartTimeout .timeout cfg.timeout
    let tsx := if tsx.isReliable then tsx else tsx.startRetransmit cfg.t1
    (setState tsx .calling true, none)

/-- `tsx_on_state_null`. -/
def onStateNull (cfg : Cfg) (inputs : Inputs) (tsx : Tsx) (event : Event) : Tsx × Status :=
  match tsx.role, event with
  | .uas, _ => (setState tsx .trying true, none)
  | .uac, .txMsg tdata => sendRequest cfg inputs tsx tdata
  | .uac, _ => (tsx, some .ebug)

/-- The timer for the end of a transaction with a final response: T4, or TD for an INVITE, for an unreliable transport. -/
def Tsx.lingerTimeout (cfg : Cfg) (tsx : Tsx) : Nat :=
  if tsx.isReliable then 0 else if tsx.method = .invite then cfg.td else cfg.t4

/-- `tsx_on_state_proceeding_uac` for a final response that is not of class 200, when the ACK is there. -/
def sendAck (cfg : Cfg) (inputs : Inputs) (tsx : Tsx) (ack : Tdata) : Tsx × Status :=
  match sendMsg cfg inputs.sends tsx ack with
  | (tsx, some error) => (tsx, some error)
  | (tsx, none) =>
    let tsx := { setState tsx .completed true with lastTx := some ack }
    (tsx.restartTimeout .timeout (tsx.lingerTimeout cfg), none)

/-- `tsx_on_state_proceeding_uac` for a final response that is not of class 200. -/
def onFailureResponse (cfg : Cfg) (inputs : Inputs) (tsx : Tsx) : Tsx × Status :=
  let tsx := tsx.cancelRetransmit.cancelTimeout
  if tsx.method = .invite then
    match inputs.ack with
    | .error error => (tsx, some error)
    | .ok ack => sendAck cfg inputs tsx ack
  else if tsx.method = .bye ∧ (tsx.statusCode = scTimeout ∨ tsx.statusCode = scCallTsxDoesNotExist) then
    (setState tsx .terminated true, none)
  else
    let tsx := setState tsx .completed true
    (tsx.restartTimeout .timeout (tsx.lingerTimeout cfg), none)

/-- `tsx_on_state_proceeding_uac` for a response of class 200. -/
def onSuccessResponse (cfg : Cfg) (tsx : Tsx) : Tsx :=
  let tsx := tsx.cancelTimeout
  if tsx.method = .invite then setState tsx .terminated true
  else setState (tsx.scheduleTimeout .timeout (tsx.lingerTimeout cfg)).cancelRetransmit .completed true

/-- `tsx_on_state_proceeding_uac`. -/
def onStateProceedingUac (cfg : Cfg) (inputs : Inputs) (tsx : Tsx) (event : Event) : Tsx × Status :=
  match event with
  | .txMsg _ => (tsx, some .einvalidop)
  | .rxMsg (.request _) => (tsx, some .enotresponsemsg)
  | .timer .retransmit => retransmit cfg inputs tsx true
  | .timer .timeout => (setState (tsx.setStatusCode scTimeout) .terminated true, none)
  | .rxMsg (.response code _) =>
    let tsx := tsx.setStatusCode code
    if code / 100 = 1 then (setState tsx .proceeding true, none)
    else if code / 100 = 2 then (onSuccessResponse cfg tsx, none)
    else if 300 ≤ code ∧ code ≤ 699 then onFailureResponse cfg inputs tsx
    else (tsx, some .ebug)

/-- `tsx_on_state_calling` for a response, before it is handled as in the state Proceeding. -/
def stopTimers (cfg : Cfg) (tsx : Tsx) (code : Nat) : Tsx :=
  let tsx := tsx.cancelRetransmit
  let tsx :=
    if 200 ≤ code ∨ tsx.method = .invite then tsx.cancelTimeout
    else if tsx.isReliable then tsx else tsx.scheduleRetransmit cfg.t2
  { tsx with pendingResched := false }

/-- `tsx_on_state_calling`. -/
def onStateCalling (cfg : Cfg) (inputs : Inputs) (tsx : Tsx) (event : Event) : Tsx × Status :=
  match event with
  | .timer .retransmit => retransmit cfg inputs tsx true
  | .timer .timeout =>
    let tsx := { tsx.cancelRetransmit with pendingResched := false }
    (setState (tsx.setStatusCode scTimeout) .terminated true, none)
  | .rxMsg (.request _) => (tsx, some .enotresponsemsg)
  | .rxMsg (.response code cseqMethod) =>
    ((onStateProceedingUac cfg inputs (stopTimers cfg tsx code) (.rxMsg (.response code cseqMethod))).1, none)
  | .txMsg _ => (tsx, some .ebug)

def Tsx.absorbTimeout (cfg : Cfg) (tsx : Tsx) : Nat :=
  if tsx.method = .invite ∨ tsx.isReliable = false then cfg.timeout else 0

/-- `tsx_on_state_proceeding_uas` for a response that has been sent. -/
def onResponseSent (cfg : Cfg) (tsx : Tsx) (tdata : Tdata) (cseqMethod : Method) : Tsx :=
  if tsx.statusCode / 100 = 1 then
    let tsx := setState { tsx with lastTx := some tdata } .proceeding true
    if tsx.method = .invite ∧ 100 < tsx.statusCode then tsx.cancelRetransmit.startRetransmit retransDelay1xx else tsx
  else if tsx.statusCode / 100 = 2 then
    let tsx := tsx.cancelRetransmit
    if tsx.method = .invite ∧ tsx.handle200resp = false then setState tsx .terminated true
    else
      let tsx := if tsx.method = .invite then tsx.startRetransmit cfg.t1 else tsx
      let tsx := { tsx with lastTx := some tdata }
      setState (tsx.restartTimeout .timeout (tsx.absorbTimeout cfg)) .completed true
  else if 300 ≤ tsx.statusCode then
    let tsx := { tsx.cancelRetransmit with lastTx := some tdata }
    let tsx := tsx.restartTimeout .timeout (tsx.absorbTimeout cfg)
    let tsx := if tsx.isReliable = false ∧ cseqMethod = .invite then tsx.startRetransmit cfg.t1 else tsx
    setState tsx .completed true
  else tsx

/-- `tsx_on_state_proceeding_uas` for a response that is to be sent. -/
def sendResponse (cfg : Cfg) (inputs : Inputs) (tsx : Tsx) (tdata : Tdata) (code : Nat) (cseqMethod : Method) :
    Tsx × Status :=
  let tsx := tsx.setStatusCode code
  let tsx := if tsx.lastTx = some tdata then tsx else { tsx with lastTx := none }
  match sendMsg cfg inputs.sends tsx tdata with
  | (tsx, some error) => (tsx, some error)
  | (tsx, none) => (onResponseSent cfg tsx tdata cseqMethod, none)

/-- `tsx_on_state_proceeding_uas`. -/
def onStateProceedingUas (cfg : Cfg) (inputs : Inputs) (tsx : Tsx) (event : Event) : Tsx × Status :=
  match event with
  | .rxMsg _ =>
    match tsx.lastTx with
    | none => (tsx, some .ebug)
    | some tdata => sendMsg cfg inputs.sends tsx tdata
  | .txMsg tdata =>
    match tdata.msg with
    | .request _ => (tsx, some .enotresponsemsg)
    | .response code cseqMethod => sendResponse cfg inputs tsx tdata code cseqMethod
  | .timer .retransmit => retransmit cfg inputs tsx true
  | .timer .timeout => (setState (tsx.setStatusCode scTimeout) .terminated true, some .ebug)

/-- `tsx_on_state_trying`. -/
def onStateTrying (cfg : Cfg) (inputs : Inputs) (tsx : Tsx) (event : Event) : Tsx × Status :=
  match event with
  | .txMsg tdata =>
    match onStateProceedingUas cfg inputs tsx (.txMsg tdata) with
    | (tsx, some error) => (tsx, some error)
    | (tsx, none) => (if tsx.state = .trying then setState tsx .proceeding true else tsx, none)
  | _ => (tsx, none)

/-- `tsx_on_state_completed_uas`. -/
def onStateCompletedUas (cfg : Cfg) (inputs : Inputs) (tsx : Tsx) (event : Event) : Tsx × Status :=
  match event with
  | .rxMsg (.response _ _) => (tsx, some .enotrequestmsg)
  | .rxMsg (.request .ack) =>
    if tsx.method ≠ .invite then (tsx, some .einvalidmethod)
    else
      let tsx := { tsx.cancelRetransmit with pendingResched := false }
      let timeout := if tsx.statusCode / 100 = 2 then cfg.td else if tsx.isReliable then 0 else cfg.t4
      (setState (tsx.restartTimeout .timeout timeout) .confirmed true, none)
  | .rxMsg (.request _) => retransmit cfg inputs tsx false
  | .timer .retransmit => retransmit cfg inputs tsx true
  | .timer .timeout =>
    (setState (if tsx.method = .invite then tsx.setStatusCode scTimeout else tsx) .terminated true, none)
  | .txMsg tdata => (tsx, if tsx.lastTx = some tdata then none else some .einvalidop)

/-- `tsx_on_state_completed_uac`. -/
def onStateCompletedUac (cfg : Cfg) (inputs : Inputs) (tsx : Tsx) (event : Event) : Tsx × Status :=
  match event with
  | .timer .retransmit => (tsx, none)
  | .timer .timeout => (setState tsx .terminated true, none)
  | .rxMsg msg =>
    if tsx.method = .invite then
      match msg with
      | .response code _ => if 200 ≤ code then retransmit cfg inputs tsx false else (tsx, none)
      | .request _ => (tsx, none)
    else (tsx, none)
  | .txMsg _ => (tsx, some .einvalidop)

/-- `tsx_on_state_confirmed`. -/
def onStateConfirmed (_ : Cfg) (_ : Inputs) (tsx : Tsx) (event : Event) : Tsx × Status :=
  match event with
  | .rxMsg (.request _) => (tsx, none)
  | .rxMsg (.response _ _) => (tsx, some .enotrequestmsg)
  | .timer .retransmit => (tsx, none)
  | .timer .timeout => (setState tsx .terminated true, none)
  | .txMsg _ => (tsx, some .ebug)

/-- `tsx_on_state_terminated`. -/
def onStateTerminated (_ : Cfg) (_ : Inputs) (tsx : Tsx) (event : Event) : Tsx × Status :=
  match event with
  | .timer _ => (setState tsx .destroyed true, none)
  | _ => (tsx, some .eignored)

/-- `tsx_on_state_destroyed`. -/
def onStateDestroyed (_ : Cfg) (_ : Inputs) (tsx : Tsx) (_ : Event) : Tsx × Status := (tsx, some .eignored)

/-- `tsx_state_handler_uac` and `tsx_state_handler_uas`. -/
def stateHandler : Role → State → Option (Cfg → Inputs → Tsx → Event → Tsx × Status)
  | _, .null => some onStateNull
  | .uac, .calling => some onStateCalling
  | .uas, .calling => none
  | .uac, .trying => none
  | .uas, .trying => some onStateTrying
  | .uac, .proceeding => some onStateProceedingUac
  | .uas, .proceeding => some onStateProceedingUas
  | .uac, .completed => some onStateCompletedUac
  | .uas, .completed => some onStateCompletedUas
  | _, .confirmed => some onStateConfirmed
  | _, .terminated => some onStateTerminated
  | _, .destroyed => some onStateDestroyed

/-- The call of the handler; there is no result when it is `NULL`. -/
def dispatch (cfg : Cfg) (inputs : Inputs) (tsx : Tsx) (event : Event) : Option Tsx :=
  (stateHandler tsx.role tsx.state).map fun handler => (handler cfg inputs tsx event).1

/-! Entry points. -/

/-- A server transaction for an INVITE without a final response goes on after a disconnection. -/
def Tsx.goesOn (tsx : Tsx) (disc : Bool) : Bool :=
  decide (disc ∧ tsx.method = .invite ∧ tsx.role = .uas ∧ tsx.statusCode < 200 ∧ tsx.pendingTransport = false ∧
    tsx.pendingDestroy = false)

/-- `tsx_timer_callback` for a transport error, while it has the lock. -/
def onPostedError (tsx : Tsx) (disc : Bool) : Tsx :=
  let tsx := updateTransport tsx none
  if tsx.goesOn disc then
    { tsx with
      resTransport := none, pendingTransport := false, pendingResched := false, pendingSend := false
      pendingDestroy := false, resolvedServer := false }
  else setState (if tsx.statusCode < 200 then tsx.setStatusCode scTransportError else tsx) .terminated false

/-- `tsx_timer_callback` for the timeout timer when it carries a transport error. -/
def onTransportError (tsx : Tsx) (disc : Bool) : Tsx :=
  if tsx.state.rank < State.terminated.rank then
    if tsx.goesOn disc then onPostedError tsx disc else (onPostedError tsx disc).scheduleTimeout .timeout 0
  else tsx

/-- `tsx_timer_callback`, when the timer has been taken from the heap. -/
def timerCallback (cfg : Cfg) (inputs : Inputs) (tsx : Tsx) : TimerEntry → Option Tsx
  | .retransmit => dispatch cfg inputs { tsx with retransmitTimer := none } (.timer .retransmit)
  | .timeout =>
    match tsx.timeoutTimer with
    | some (.transportErr, _) => some (onTransportError { tsx with timeoutTimer := none } false)
    | some (.transportDisc, _) => some (onTransportError { tsx with timeoutTimer := none } true)
    | _ => dispatch cfg inputs { tsx with timeoutTimer := none } (.timer .timeout)

/-- A failure is posted to the timer of a client transaction. -/
def postError (tsx : Tsx) (error : Status) : Tsx :=
  let tsx := { tsx with transportErr := error }
  if tsx.state.rank < State.completed.rank then tsx.restartTimeout .transportErr 0 else tsx

def onTransportSend (cfg : Cfg) (inputs : Inputs) (tsx : Tsx) (error : Status) : Tsx :=
  if error = none ∨ tsx.role = .uas then flushPending cfg (sendMsg cfg inputs.sends) tsx else postError tsx error

/-- `transport_callback_impl`. -/
def transportCallbackImpl (cfg : Cfg) (inputs : Inputs) (tsx : Tsx) (error : Status) : Tsx :=
  onTransportSend cfg inputs { tsx with pendingTransport := false, tpPending := tsx.tpPending - 1 } error

/-- `pjsip_tsx_terminate`. -/
def terminate (tsx : Tsx) (code : Nat) : Tsx :=
  if 200 ≤ code ∧ tsx.state.rank < State.terminated.rank then setState (tsx.setStatusCode code) .terminated true else tsx

/-- `pjsip_tsx_set_timeout`. -/
def setTimeout (tsx : Tsx) (millisec : Nat) : Tsx :=
  if tsx.role = .uac ∧ tsx.method = .invite then
    if 200 ≤ tsx.statusCode ∧ tsx.timeoutTimer.isSome then tsx else tsx.restartTimeout .timeout millisec
  else tsx

/-- `pjsip_tsx_stop_retransmit`. -/
def stopRetransmit (tsx : Tsx) : Tsx := if tsx.method = .invite then tsx.cancelRetransmit else tsx

inductive Action
  | sendMsg (tdata : Option Tdata) (inputs : Inputs)
  | recvMsg (msg : Msg) (inputs : Inputs)
  | timer (entry : TimerEntry) (inputs : Inputs)
  | sent (tp : Transport) (inputs : Inputs)
  | sendFailed (failure : Failure)
  | transportCallback (error : Status) (inputs : Inputs)
  | disconnected (status : Status)
  | terminate (code : Nat)
  | setTimeout (millisec : Nat)
  | stopRetransmit

/-- A timer runs down while it is scheduled, a transport reports while it is used. -/
def enabled (tsx : Tsx) : Action → Bool
  | .timer .retransmit _ => tsx.retransmitTimer.isSome
  | .timer .timeout _ => tsx.timeoutTimer.isSome
  | .transportCallback _ _ => decide (0 < tsx.tpPending)
  | .disconnected _ => tsx.transport.isSome
  | _ => true

/-- The transaction after an action; there is none when a handler was `NULL`. -/
def act (cfg : Cfg) (tsx : Tsx) : Action → Option Tsx
  | .sendMsg tdata inputs =>
    match tdata.or tsx.lastTx with
    | none => some tsx
    | some tdata => dispatch cfg inputs tsx (.txMsg tdata)
  | .recvMsg msg inputs => dispatch cfg inputs tsx (.rxMsg msg)
  | .timer entry inputs => timerCallback cfg inputs tsx entry
  | .sent tp inputs => some (sendMsgSent cfg (sendMsg cfg inputs.sends) tsx tp)
  | .sendFailed failure => some (sendMsgFailed cfg tsx failure)
  | .transportCallback error inputs => some (transportCallbackImpl cfg inputs tsx error)
  | .disconnected status => some (tpStateCallback tsx status)
  | .terminate code => some (SipTransaction.terminate tsx code)
  | .setTimeout millisec => some (SipTransaction.setTimeout tsx millisec)
  | .stopRetransmit => some (SipTransaction.stopRetransmit tsx)

def step (cfg : Cfg) (s : Option Tsx) (a : Action) : Option (Option Tsx) :=
  s.bind fun tsx => if enabled tsx a then some (act cfg tsx a) else none

/-- `pjsip_tsx_create_uac2` and `pjsip_tsx_create_uas2`: the transaction when it has been registered. -/
def createUac (method : Method) (tdata : Tdata) (reliable : Bool) : Tsx where
  role := .uac
  method := method
  state := .null
  statusCode := 0
  handle200resp := true
  isReliable := reliable
  transport := none
  resTransport := none
  transportErr := none
  pendingTransport := false
  pendingResched := false
  pendingSend := false
  pendingDestroy := false
  resolvedServer := false
  lastTx := some tdata
  pendingTx := none
  retransmitCount := 0
  retransmitTimer := none
  timeoutTimer := none
  registered := true
  tpPending := 0
  trace := []

def createUas (method : Method) (transport : Option Transport) (reliable handle200resp : Bool) : Tsx :=
  let tsx := { createUac method ⟨0, .request method⟩ reliable with
    role := .uas, handle200resp := handle200resp, lastTx := none }
  match transport with
  | some tp => { updateTransport tsx (some tp) with resTransport := some tp, isReliable := tp.reliable }
  | none => tsx

end PjProject.SipTransaction
