import PjProject.Runs

/-! Session timers (`sip_timer.c`) of the two endpoints of a call, both with `PJSIP_INV_SUPPORT_TIMER`, and the INVITE and
UPDATE requests between them. Who refreshes the session is said relative to a transaction, in the headers as in the
`pjsip_timer`. When the timers fire is left open: either endpoint may send a request at any time. -/

namespace PjProject.SessionTimer

/-- `enum timer_refresher`; also the `refresher` parameter of a header, which may be absent. -/
inductive Refresher
  | unknown
  | uac
  | uas
  deriving DecidableEq

/-- `pjsip_role_e`. -/
inductive Role
  | uac
  | uas
  deriving DecidableEq

/-- `pjsip_sess_expires_hdr`. -/
structure SessExpiresHdr where
  sessExpires : Nat
  refresher : Refresher
  deriving DecidableEq

/-- The delays of `timer` and of `expire_timer`, which only the refresher has. -/
structure Delays where
  timer : Nat
  expireTimer : Option Nat
  deriving DecidableEq

/-- `pjsip_timer` with its setting, and with the timers that are scheduled. -/
structure Timer where
  sessExpires : Nat
  minSe : Nat
  active : Bool
  refresher : Refresher
  role : Role
  last422Cseq : Int
  scheduled : Option Delays
  deriving DecidableEq

/-- The options of `pjsip_inv_session` that matter when the other endpoint sends no header. -/
structure Options where
  requireTimer : Bool
  alwaysUseTimer : Bool

/-- `ABS_MIN_SE`. -/
def absMinSe : Nat := 90

/-- `pjsip_timer_init_session`. -/
def initSession (sessExpires minSe : Nat) : Option Timer :=
  if absMinSe ≤ minSe ∧ minSe ≤ sessExpires then
    some
      { sessExpires, minSe, active := false, refresher := .unknown, role := .uac, last422Cseq := 0, scheduled := none }
  else none

/-- The role that `timer_cb` and `start_timer` find. -/
def Timer.asRefresher (t : Timer) : Bool :=
  decide (t.refresher = .uac ∧ t.role = .uac ∨ t.refresher = .uas ∧ t.role = .uas)

/-- The delays that `start_timer` computes. -/
def Timer.delays (t : Timer) : Delays :=
  if t.asRefresher then { timer := t.sessExpires / 2, expireTimer := some t.sessExpires }
  else { timer := max (t.sessExpires - 32) (t.sessExpires - t.sessExpires / 3), expireTimer := none }

/-- `start_timer`. -/
def startTimer (t : Timer) : Timer := { t with scheduled := some t.delays }

/-- `pjsip_timer_end_session`. -/
def endSession (t : Timer) : Timer := { t with active := false, scheduled := none }

/-- The Session-Expires header of `add_timer_headers`; its Min-SE header has the `minSe` of the timer. -/
def Timer.seHdr (t : Timer) : SessExpiresHdr := { sessExpires := t.sessExpires, refresher := t.refresher }

/-- `pjsip_timer_update_req`; the headers are those of the timer afterwards. -/
def updateReq (t : Timer) : Timer :=
  if t.refresher = .unknown then t
  else { t with role := .uac, refresher := if t.asRefresher then .uac else .uas }

inductive Status
  | success
  | missingHdr
  | tooSmall
  | extensionRequired
  deriving DecidableEq

/-- `pjsip_timer_process_resp` of a 422 response: the request is sent again when `true` is returned. -/
def processResp422 (t : Timer) (cseq : Int) (minSeHdr : Option Nat) (confirmed : Bool) : Timer × Status × Bool :=
  match minSeHdr with
  | none => (endSession t, .missingHdr, false)
  | some hdr =>
    if cseq = t.last422Cseq + 1 then (t, if confirmed then .success else .tooSmall, false)
    else
      let minSe := max hdr t.minSe
      ({ t with last422Cseq := cseq, minSe, sessExpires := max t.sessExpires minSe }, .success, true)

/-- `pjsip_timer_process_resp`: the refresher that a 2xx response names. -/
def respRefresher : Option SessExpiresHdr → Refresher
  | some ⟨_, .uac⟩ => .uac
  | some ⟨_, .uas⟩ => .uas
  | some ⟨_, .unknown⟩ | none => .uac

/-- `pjsip_timer_process_resp`: a Session-Expires header that is less than our Min-SE is taken for it. -/
def acceptBadSe (t : Timer) (hdr : SessExpiresHdr) : Timer :=
  if hdr.sessExpires < t.minSe ∧ hdr.sessExpires ≥ absMinSe then
    { t with sessExpires := hdr.sessExpires, minSe := hdr.sessExpires }
  else t

/-- `pjsip_timer_process_resp`: the Session-Expires header of a 2xx response. -/
def updateSe (t : Timer) (hdr : SessExpiresHdr) : Timer :=
  if hdr.sessExpires ≤ (acceptBadSe t hdr).sessExpires ∧ hdr.sessExpires ≥ (acceptBadSe t hdr).minSe then
    { acceptBadSe t hdr with sessExpires := hdr.sessExpires }
  else acceptBadSe t hdr

/-- `pjsip_timer_process_resp` of a 2xx response. -/
def processResp2xx (opt : Options) (t : Timer) (seHdr : Option SessExpiresHdr) : Timer × Status :=
  let start (t : Timer) : Timer := startTimer { t with refresher := respRefresher seHdr, role := .uac, active := true }
  match seHdr with
  | none =>
    if opt.requireTimer then (endSession t, .extensionRequired)
    else if opt.alwaysUseTimer then (start t, .success)
    else (endSession t, .success)
  | some hdr => (start (updateSe t hdr), .success)

/-- `pjsip_timer_process_req`: the refresher for a request. -/
def reqRefresher (t : Timer) (seHdr : Option SessExpiresHdr) (supportsTimer : Bool) : Refresher :=
  match seHdr with
  | some ⟨_, .uac⟩ => .uac
  | some ⟨_, .uas⟩ => .uas
  | some ⟨_, .unknown⟩ | none =>
    if t.refresher ≠ .unknown then if t.asRefresher then .uas else .uac
    else if supportsTimer ∧ seHdr.isSome then .uac else .uas

/-- `pjsip_timer_process_req`. -/
def processReq (opt : Options) (t : Timer) (seHdr : Option SessExpiresHdr) (minSeHdr : Option Nat)
    (supportsTimer : Bool) : Timer × Status :=
  let minSe := max (minSeHdr.getD 0) t.minSe
  match seHdr with
  | some hdr =>
    if hdr.sessExpires < minSe then (t, .tooSmall)
    else
      ({ t with
          sessExpires := hdr.sessExpires
          refresher := reqRefresher t seHdr supportsTimer
          role := .uas
          active := true }, .success)
  | none =>
    let t := { t with sessExpires := if t.sessExpires < minSe then minSe else t.sessExpires }
    if opt.requireTimer ∨ opt.alwaysUseTimer then
      ({ t with refresher := reqRefresher t seHdr supportsTimer, role := .uas, active := true }, .success)
    else (endSession t, .success)

/-- `pjsip_timer_update_resp` of a 2xx response, with its Session-Expires header. -/
def updateResp (t : Timer) : Timer × Option SessExpiresHdr :=
  if t.active then (startTimer t, some t.seHdr) else (t, none)

/-! The call. -/

inductive End
  | caller
  | callee
  deriving DecidableEq

def End.other : End → End
  | .caller => .callee
  | .callee => .caller

inductive Method
  | invite
  | update
  deriving DecidableEq

structure Request where
  sender : End
  method : Method
  cseq : Int
  seHdr : SessExpiresHdr
  minSe : Nat
  deriving DecidableEq

/-- A request, or a final response to the endpoint: 2xx, 422 or another one. -/
inductive Msg
  | request (req : Request)
  | ok (receiver : End) (seHdr : Option SessExpiresHdr)
  | tooSmall (receiver : End) (method : Method) (cseq : Int) (minSe : Nat)
  | failed (receiver : End)
  deriving DecidableEq

/-- The endpoints and the messages between them. The pending requests are the INVITE requests that have been processed and
have no final response; `started` is set with the first INVITE, and `joined` when it is processed. -/
structure Call where
  timer : End → Timer
  cseq : End → Int
  net : List Msg
  pending : List Request
  started : Bool
  joined : Bool
  answered : Nat

/-- What the invite session does with a request: it lets the timer process it and accepts it, or refuses it afterwards or
before. -/
inductive Answer
  | accept
  | refuseProcessed
  | refuse
  deriving DecidableEq

/-- `confirmed` is the state of the invite session, which `pjsip_timer_process_resp` looks at. -/
inductive Action
  | send (sender : End) (method : Method)
  | request (i : Nat) (answer : Answer)
  | response (i : Nat) (confirmed : Bool)
  | initialAnswer (i : Nat)
  | answer (i : Nat)
  | refuse (i : Nat)

/-- A request with the headers of the timer. -/
def Call.send (s : Call) (e : End) (method : Method) : Call :=
  { s with
    net := s.net ++ [.request
      { sender := e, method, cseq := s.cseq e, seHdr := (s.timer e).seHdr, minSe := (s.timer e).minSe }]
    cseq := Function.update s.cseq e (s.cseq e + 1) }

def Call.setTimer (s : Call) (e : End) (t : Timer) : Call := { s with timer := Function.update s.timer e t }

def Call.put (s : Call) (msg : Msg) : Call := { s with net := s.net ++ [msg] }

/-- A 2xx response. -/
def Call.answerOk (s : Call) (req : Request) : Call :=
  let e := req.sender.other
  let (t, seHdr) := updateResp (s.timer e)
  { (s.setTimer e t).put (.ok req.sender seHdr) with answered := s.answered + 1 }

/-- A request is processed by the timer of its receiver: either there is a 422 response, or `next` goes on. -/
def Call.process (s : Call) (opt : End → Options) (req : Request) (next : Call → Call) : Call :=
  let e := req.sender.other
  match processReq (opt e) (s.timer e) (some req.seHdr) (some req.minSe) true with
  | (t, .success) => next { s.setTimer e t with joined := true }
  | (t, _) => (s.setTimer e t).put (.tooSmall req.sender req.method req.cseq t.minSe)

/-- The steps of the endpoints and of the network, which delivers the messages in any order. An endpoint sends no second
INVITE before the first one has been processed. A call that ends is the end of the run. -/
def step (opt : End → Options) (s : Call) : Action → Option Call
  | .send e method =>
    if s.joined ∨ (e = .caller ∧ method = .invite ∧ s.started = false) then
      some (({ s with started := true }.setTimer e (updateReq (s.timer e))).send e method)
    else none
  | .request i answer =>
    match s.net[i]? with
    | some (.request req) =>
      let s := { s with net := s.net.eraseIdx i }
      match answer, req.method with
      | .refuse, _ => some (s.put (.failed req.sender))
      | .refuseProcessed, _ => some (s.process opt req fun s => s.put (.failed req.sender))
      | .accept, .invite => some (s.process opt req fun s => { s with pending := s.pending ++ [req] })
      | .accept, .update => some (s.process opt req fun s => s.answerOk req)
    | _ => none
  | .response i confirmed =>
    let rest := { s with net := s.net.eraseIdx i }
    match s.net[i]? with
    | some (.ok e seHdr) =>
      match processResp2xx (opt e) (s.timer e) seHdr with
      | (t, .success) => some (rest.setTimer e t)
      | _ => none
    | some (.tooSmall e method cseq minSe) =>
      match processResp422 (s.timer e) cseq (some minSe) confirmed with
      | (t, .success, true) => some ((rest.setTimer e t).send e method)
      | (t, .success, false) => some (rest.setTimer e t)
      | _ => none
    -- `pjsip_timer_handle_refresh_error` is left out: it schedules a refresh refused with 503 after a delay of its own.
    | some (.failed _) => some rest
    | _ => none
  | .initialAnswer i =>
    (s.pending[i]?).map fun req =>
      let s := { s with pending := s.pending.eraseIdx i }
      s.process opt req fun s => { s with pending := s.pending ++ [req] }
  | .answer i =>
    (s.pending[i]?).map fun req => { s with pending := s.pending.eraseIdx i }.answerOk req
  | .refuse i =>
    (s.pending[i]?).map fun req => { s with pending := s.pending.eraseIdx i }.put (.failed req.sender)

/-- Before the first INVITE. -/
def start (timer : End → Timer) (cseq : End → Int) : Call where
  timer := timer
  cseq := cseq
  net := []
  pending := []
  started := false
  joined := false
  answered := 0

/-- Every message has been delivered, every request has a final response, and at least one was a 2xx. -/
def Call.Quiet (s : Call) : Prop := s.net = [] ∧ s.pending = [] ∧ 0 < s.answered

instance (s : Call) : Decidable s.Quiet := inferInstanceAs (Decidable (_ ∧ _ ∧ _))

/-- One endpoint takes itself for the refresher and the other does not, with the same session interval, and their timers
are scheduled for that. -/
def Call.Agrees (s : Call) : Prop :=
  (s.timer .caller).asRefresher = !(s.timer .callee).asRefresher ∧
    (s.timer .caller).sessExpires = (s.timer .callee).sessExpires ∧
    ∀ e, (s.timer e).active = true ∧ (s.timer e).scheduled = some (s.timer e).delays

end PjProject.SessionTimer
