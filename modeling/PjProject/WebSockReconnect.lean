import PjProject.WebSockClose

/-! A WebSocket that is connected again (`pj_websock_connect`). The call resets some of the fields that receiving
uses and makes another transport; it neither ends a partial frame nor closes the transport of the connection before,
whose callbacks have the same WebSocket and the same read buffer. -/

namespace PjProject.WebSock

/-- What a transport has of its own: the remainder of its last read, and where its callback stands. -/
structure Link where
  kept : List UInt8
  phase : Phase
  deriving DecidableEq, Repr

/-- `pj_websock`; the log has the events since `pj_websock_connect` was last called. -/
structure Object where
  session : Session
  rxPartial : Option Partial
  handshakeDone : Bool
  cfg : Config
  current : Option Link
  old : List Link

/-- The WebSocket as a callback of the transport finds it. -/
def Object.ws (o : Object) (link : Link) : Ws := ⟨⟨o.session, o.rxPartial, link.kept, link.phase⟩, o.handshakeDone⟩

def Ws.link (ws : Ws) : Link := ⟨ws.rx.kept, ws.rx.phase⟩

/-- The shared fields as a callback has left them. -/
def Object.put (o : Object) (ws : Ws) : Object :=
  { o with session := ws.rx.session, rxPartial := ws.rx.rxPartial, handshakeDone := ws.handshakeDone }

/-- What `pj_websock_create` makes. -/
def Object.create (cfg : Config) : Object :=
  ⟨⟨.closed, false, [], .cont, false, []⟩, none, false, cfg, none, []⟩

/-- The fields that `pj_websock_connect` sets. -/
def Session.reset (s : Session) : Session :=
  { s with
    state := .connecting
    fragBuf := []
    ctlSendPending := false
    log := [] }

/-- What can happen to a WebSocket: `connect` is accepted, with what the handshake will expect, and `rejected` fails
behind the reset. A callback of an earlier transport finds the bytes `before` in the front of the read buffer, and
leaves the bytes `after` there to the present one. -/
inductive ObjectAction
  | connect (expectedAccept : List UInt8) (ctlPends : List Event → Bool)
  | rejected
  | own (a : Action)
  | stale (i : Nat) (a : Action) (before after : List UInt8)

/-- `pj_websock_connect` is refused unless the state is CLOSED, and nothing is called after `pj_websock_destroy`. -/
def objectStep (o : Object) : ObjectAction → Option Object
  | .connect expectedAccept ctlPends =>
    if o.session.state = .closed ∧ o.session.destroying = false then
      some { o with
        session := o.session.reset
        handshakeDone := false
        cfg := { o.cfg with expectedAccept := expectedAccept, ctlPends := ctlPends }
        current := some ⟨[], .idle⟩
        old := o.current.toList ++ o.old }
    else none
  | .rejected =>
    if o.session.state = .closed ∧ o.session.destroying = false then
      some { o with
        session := { o.session.reset with state := .closed }
        handshakeDone := false
        current := none
        old := o.current.toList ++ o.old }
    else none
  | .own a =>
    match o.current, a with
    | some link, a => (step o.cfg (o.ws link) a).map fun ws => { o.put ws with current := some ws.link }
    | none, .call call => some { o with session := localCall o.cfg o.session call }
    | none, _ => none
  | .stale i a before after =>
    match o.old[i]? with
    | some link =>
      if before.length = link.kept.length ∧ ∀ own ∈ o.current, after.length = own.kept.length then
        (step o.cfg (o.ws { link with kept := before }) a).map fun ws =>
          { o.put ws with
            current := o.current.map fun own => { own with kept := after }
            old := o.old.set i ws.link }
      else none
    | none => none

/-- What has happened to the present connection: `acts` before the action, and the action. -/
def since (acts : List Action) : ObjectAction → List Action
  | .connect .. => []
  | .own a => acts ++ [a]
  | _ => acts

/-- What has happened since the last `pj_websock_connect`. -/
def sinceConnect (acts : List ObjectAction) : List Action := acts.foldl since []

/-- No frame is left unfinished when `pj_websock_connect` is called, and the transports of earlier connections do not
call back. -/
def LeavesNothing (o : Object) : ObjectAction → Prop
  | .connect .. => o.rxPartial = none
  | .stale .. => False
  | _ => True

instance (o : Object) (a : ObjectAction) : Decidable (LeavesNothing o a) := by
  cases a <;> unfold LeavesNothing <;> infer_instance

/-! The opcode of the last message is not reset either, but it is read only behind another first fragment. -/

def Session.withOpcode (s : Session) (opcode : Opcode) : Session := { s with fragOpcode := opcode }

/-- Sessions that differ at most in the opcode of a message of which nothing is left. -/
inductive Alike (s : Session) : Session → Prop
  | refl : Alike s s
  | idle (opcode : Opcode) (hnone : s.fragBuf = []) : Alike s (s.withOpcode opcode)

section Alike

variable {cfg : Config}

theorem Alike.log {s t : Session} (h : Alike s t) : t.log = s.log := by
  cases h <;> rfl

theorem Alike.state {s t : Session} (h : Alike s t) : t.state = s.state := by
  cases h <;> rfl

theorem Alike.destroying {s t : Session} (h : Alike s t) : t.destroying = s.destroying := by
  cases h <;> rfl

theorem Alike.fragBuf {s t : Session} (h : Alike s t) : t.fragBuf = s.fragBuf := by
  cases h <;> rfl

theorem Alike.map {s t : Session} (h : Alike s t) {f : Session → Session}
    (hopcode : ∀ s opcode, f (s.withOpcode opcode) = (f s).withOpcode opcode) (hbuf : ∀ s, (f s).fragBuf = s.fragBuf) :
    Alike (f s) (f t) := by
  cases h with
  | refl => exact .refl
  | idle opcode hnone =>
    rw [hopcode]
    exact .idle opcode ((hbuf s).trans hnone)

theorem sendRawCtl_withOpcode (s : Session) (o opcode : Opcode) (payload : List UInt8) :
    sendRawCtl cfg (s.withOpcode o) opcode payload = (sendRawCtl cfg s opcode payload).withOpcode o := by
  unfold sendRawCtl Session.withOpcode
  dsimp only
  split_ifs <;> rfl

theorem sendRawCtl_fragBuf (s : Session) (opcode : Opcode) (payload : List UInt8) :
    (sendRawCtl cfg s opcode payload).fragBuf = s.fragBuf := by
  unfold sendRawCtl
  split_ifs <;> rfl

theorem Alike.sendRawCtl {s t : Session} (h : Alike s t) (opcode : Opcode) (payload : List UInt8) :
    Alike (sendRawCtl cfg s opcode payload) (sendRawCtl cfg t opcode payload) :=
  h.map (fun s o => sendRawCtl_withOpcode s o opcode payload) fun s => sendRawCtl_fragBuf s opcode payload

theorem Alike.setState {s t : Session} (h : Alike s t) (state : ReadyState) :
    Alike { s with state := state } { t with state := state } :=
  h.map (f := fun s => { s with state := state }) (fun _ _ => rfl) fun _ => rfl

theorem Alike.emit {s t : Session} (h : Alike s t) (e : Event) : Alike (s.emit e) (t.emit e) :=
  h.map (f := fun s => s.emit e) (fun _ _ => rfl) fun _ => rfl

theorem Alike.closed {s t : Session} (h : Alike s t) (code : Nat) (reason : List UInt8) :
    Alike (if s.destroying then { s with state := .closed } else { s with state := .closed }.emit (.onClose code reason))
      (if t.destroying then { t with state := .closed }
        else { t with state := .closed }.emit (.onClose code reason)) := by
  have hclosed := h.setState .closed
  by_cases hdestroying : s.destroying = true
  · rw [if_pos hdestroying, if_pos (h.destroying.trans hdestroying)]
    exact hclosed
  · rw [if_neg hdestroying, if_neg (by rwa [h.destroying])]
    exact hclosed.emit _

theorem Alike.handleClose {s t : Session} (h : Alike s t) (payload : List UInt8) :
    Alike (handleClose cfg s payload) (handleClose cfg t payload) := by
  have hsent (code : Nat) (reason : List UInt8) : Alike (if s.state = .open then sendCloseFrame cfg s code reason else s)
      (if t.state = .open then sendCloseFrame cfg t code reason else t) := by
    rw [h.state]
    split
    · exact h.sendRawCtl .close _
    · exact h
  exact (hsent _ _).closed _ _

theorem Alike.localCall {s t : Session} (h : Alike s t) (call : LocalCall) :
    Alike (localCall cfg s call) (localCall cfg t call) := by
  cases call with
  | close code reason =>
    rw [WebSock.localCall, WebSock.localCall, h.state]
    split
    · exact (h.setState .closing).sendRawCtl .close _
    · exact h
  | destroy =>
    exact h.map (f := fun s => { s with destroying := true, state := .closed }) (fun _ _ => rfl) fun _ => rfl
  | timer =>
    rw [WebSock.localCall, WebSock.localCall, h.state]
    split
    · exact h.sendRawCtl .ping []
    · exact h
  | ctlSent => exact h.map (f := fun s => { s with ctlSendPending := false }) (fun _ _ => rfl) fun _ => rfl

theorem Alike.onTransportError {s t : Session} (h : Alike s t) : Alike (onTransportError s) (onTransportError t) := by
  have hclosed := h.setState .closed
  unfold WebSock.onTransportError
  dsimp only
  rw [h.state]
  split
  · exact hclosed.emit _
  · split
    · exact hclosed.emit _
    · exact hclosed

theorem Alike.handleFrame {s t : Session} (h : Alike s t) (fin : Bool) (opcode : Opcode) (payload : List UInt8) :
    Alike (handleFrame cfg s fin opcode payload).1 (handleFrame cfg t fin opcode payload).1 := by
  by_cases hping : opcode = .ping
  · rw [WebSock.handleFrame, WebSock.handleFrame, if_pos hping, if_pos hping, h.destroying]
    dsimp only
    split
    · exact h
    · exact h.sendRawCtl .pong _
  by_cases hpong : opcode = .pong
  · rw [WebSock.handleFrame, WebSock.handleFrame, if_neg hping, if_neg hping, if_pos hpong, if_pos hpong]
    exact h
  by_cases hclose : opcode = .close
  · rw [WebSock.handleFrame, WebSock.handleFrame, if_neg hping, if_neg hping, if_neg hpong, if_neg hpong,
      if_pos hclose, if_pos hclose]
    exact h.handleClose payload
  rw [WebSock.handleFrame, WebSock.handleFrame, if_neg hping, if_neg hping, if_neg hpong, if_neg hpong,
    if_neg hclose, if_neg hclose]
  cases h with
  | refl => exact .refl
  | idle o hnone =>
    have hnone' : (s.withOpcode o).fragBuf = [] := hnone
    rw [if_pos hnone, if_pos hnone']
    simp only [hnone, hnone', and_true, if_true]
    split
    · split
      · exact (Alike.idle o hnone).emit _
      · exact .refl
    · split
      · exact .idle o hnone
      · exact .idle o hnone

/-! The step of a connection. -/

def Rx.withSession (r : Rx) (s : Session) : Rx := { r with session := s }

def Ws.withSession (ws : Ws) (s : Session) : Ws := { ws with rx := ws.rx.withSession s }

/-- The receivers differ in the session only, and there as little as possible. -/
structure AlikeRx (r u : Rx) : Prop where
  session : Alike r.session u.session
  rest : u = r.withSession u.session

theorem alikeRx_handled {r : Rx} {t : Session} (h : Alike r.session t) (fin : Bool) (opcode : Opcode)
    (payload front data : List UInt8) :
    AlikeRx (r.handled (handleFrame cfg) fin opcode payload front data)
      ((r.withSession t).handled (handleFrame cfg) fin opcode payload front data) := by
  refine ⟨h.handleFrame fin opcode payload, ?_⟩
  simp only [Rx.handled, Rx.withSession, handleFrame_more]

theorem alikeRx_partialTurn {r : Rx} {t : Session} (h : Alike r.session t) (p : Partial) (front data : List UInt8) :
    AlikeRx (partialTurn (handleFrame cfg) r p front data) (partialTurn (handleFrame cfg) (r.withSession t) p front data) := by
  simp only [partialTurn]
  generalize (if data.length < p.total - p.got then data.length else p.total - p.got) = copy
  split
  · exact ⟨h, rfl⟩
  · split
    · exact alikeRx_handled (r := { r with rxPartial := none }) h _ _ _ _ _
    · exact ⟨h, rfl⟩

theorem alikeRx_frameTurn {r : Rx} {t : Session} (h : Alike r.session t) (front data : List UInt8) :
    AlikeRx (frameTurn cfg (handleFrame cfg) r front data)
      (frameTurn cfg (handleFrame cfg) (r.withSession t) front data) := by
  unfold frameTurn
  split
  · exact alikeRx_handled h _ _ _ _ _
  · split
    · exact ⟨h, rfl⟩
    · split
      · exact ⟨h, rfl⟩
      · exact ⟨h, rfl⟩

theorem alikeRx_rxTurn {r r' : Rx} {t : Session} (h : Alike r.session t)
    (hturn : rxTurn cfg (handleFrame cfg) r = some r') :
    ∃ u, rxTurn cfg (handleFrame cfg) (r.withSession t) = some u ∧ AlikeRx r' u := by
  have hphase' : (r.withSession t).phase = r.phase := rfl
  have hinside' : (r.withSession t).rxPartial = r.rxPartial := rfl
  have hdestroying : (r.withSession t).session.destroying = r.session.destroying := h.destroying
  unfold rxTurn at hturn ⊢
  rw [hphase', hinside', hdestroying]
  split at hturn
  case h_1 => cases hturn
  case h_2 data hphase => exact ⟨_, rfl, by cases hturn; exact ⟨h, rfl⟩⟩
  case h_3 front hphase => exact ⟨_, rfl, by cases hturn; exact ⟨h, rfl⟩⟩
  case h_4 front b data hphase =>
    cases hinside : r.rxPartial with
    | some p =>
      rw [hinside] at hturn
      cases hturn
      exact ⟨_, rfl, alikeRx_partialTurn h p front (b :: data)⟩
    | none =>
      rw [hinside] at hturn
      cases hturn
      exact ⟨_, rfl, alikeRx_frameTurn h front (b :: data)⟩

theorem alike_onTransportData {ws : Ws} {t : Session} (h : Alike ws.rx.session t) (bytes : List UInt8) :
    Alike (onTransportData cfg ws bytes).rx.session (onTransportData cfg (ws.withSession t) bytes).rx.session ∧
      onTransportData cfg (ws.withSession t) bytes =
        (onTransportData cfg ws bytes).withSession (onTransportData cfg (ws.withSession t) bytes).rx.session := by
  have hdone : (ws.withSession t).handshakeDone = ws.handshakeDone := rfl
  have hkept : (ws.withSession t).rx.kept = ws.rx.kept := rfl
  unfold onTransportData
  rw [hdone, hkept]
  dsimp only
  split
  · exact ⟨h, rfl⟩
  · split
    · exact ⟨h, rfl⟩
    · exact ⟨(h.setState .closed).emit _, rfl⟩
    · exact ⟨(h.setState .open).emit _, rfl⟩

/-- What happens to one WebSocket happens to the other. -/
theorem alike_step {ws ws' : Ws} {t : Session} {a : Action} (h : Alike ws.rx.session t)
    (hstep : step cfg ws a = some ws') :
    ∃ v, step cfg (ws.withSession t) a = some v ∧ Alike ws'.rx.session v.rx.session ∧
      v = ws'.withSession v.rx.session := by
  cases a with
  | connectFailed =>
    rw [step] at hstep ⊢
    split at hstep
    case isFalse => cases hstep
    case isTrue hguard =>
      cases hstep
      exact ⟨_, if_pos hguard, (h.setState .closed).emit _, rfl⟩
  | read bytes =>
    rw [step] at hstep ⊢
    split at hstep
    case isFalse => cases hstep
    case isTrue hidle =>
      cases hstep
      exact ⟨_, if_pos hidle, alike_onTransportData h bytes⟩
  | readError =>
    rw [step] at hstep ⊢
    split at hstep
    case isFalse => cases hstep
    case isTrue hidle =>
      cases hstep
      exact ⟨_, if_pos hidle, h.onTransportError, rfl⟩
  | turn =>
    obtain ⟨r', hturn, rfl⟩ := Option.map_eq_some_iff.mp hstep
    obtain ⟨u, hu, hsession, hrest⟩ := alikeRx_rxTurn h hturn
    exact ⟨_, Option.map_eq_some_iff.mpr ⟨u, hu, rfl⟩, hsession, by rw [hrest]; rfl⟩
  | call call =>
    cases hstep
    exact ⟨_, rfl, h.localCall call, rfl⟩

theorem Alike.symm {s t : Session} (h : Alike s t) : Alike t s := by
  cases h with
  | refl => exact .refl
  | idle opcode hnone => exact @Alike.idle (s.withOpcode opcode) s.fragOpcode hnone

end Alike

/-! Runs. -/

/-- The present connection is where a fresh one would be. -/
def LikeFresh (acts : List Action) (o : Object) : Prop :=
  ∀ link, o.current = some link → ∃ t, exec (step o.cfg) Ws.connecting acts = some t ∧
    Alike t.rx.session o.session ∧ o.ws link = t.withSession o.session

theorem likeFresh_own {acts : List Action} {o : Object} (h : LikeFresh acts o) {link : Link} {a : Action} {ws : Ws}
    (hlink : o.current = some link) (hstep : step o.cfg (o.ws link) a = some ws) :
    LikeFresh (acts ++ [a]) { o.put ws with current := some ws.link } := by
  intro link' hlink'
  obtain rfl : ws.link = link' := Option.some.inj hlink'
  obtain ⟨t, ht, halike, hws⟩ := h link hlink
  have hfresh : (o.ws link).withSession t.rx.session = t := by rw [hws]; rfl
  have halike' : Alike (o.ws link).rx.session t.rx.session := halike.symm
  obtain ⟨v, hv, hsession, hrest⟩ := alike_step halike' hstep
  rw [hfresh] at hv
  refine ⟨v, exec_append ht (exec_cons_eq_some.mpr ⟨v, hv, rfl⟩), hsession.symm, ?_⟩
  rw [hrest]
  rfl

theorem likeFresh_step {acts : List Action} {o o' : Object} {a : ObjectAction} (h : LikeFresh acts o)
    (hclean : LeavesNothing o a) (hstep : objectStep o a = some o') : LikeFresh (since acts a) o' := by
  cases a with
  | connect expectedAccept ctlPends =>
    rw [objectStep] at hstep
    split at hstep
    case isFalse => cases hstep
    case isTrue hclosed =>
      cases hstep
      intro link hlink
      obtain rfl : ⟨[], .idle⟩ = link := Option.some.inj hlink
      refine ⟨Ws.connecting, rfl, ?_, ?_⟩
      · have hreset : o.session.reset = Ws.connecting.rx.session.withOpcode o.session.fragOpcode := by
          rw [Session.reset, hclosed.2]
          rfl
        rw [hreset]
        exact .idle _ rfl
      · have hinside : o.rxPartial = none := hclean
        rw [Object.ws, hinside]
        rfl
  | rejected =>
    rw [objectStep] at hstep
    split at hstep
    case isFalse => cases hstep
    case isTrue hclosed =>
      cases hstep
      exact nofun
  | own a =>
    cases hlink : o.current with
    | some link =>
      simp only [objectStep, hlink] at hstep
      obtain ⟨ws, hws, rfl⟩ := Option.map_eq_some_iff.mp hstep
      exact likeFresh_own h hlink hws
    | none =>
      cases a with
      | call call =>
        simp only [objectStep, hlink] at hstep
        cases hstep
        exact fun link hlink' => by cases hlink'
      | _ =>
        simp only [objectStep, hlink] at hstep
        cases hstep
  | stale i a before after => exact hclean.elim

theorem likeFresh_run {hist : List Action} {o u : Object} {acts : List ObjectAction} (h : LikeFresh hist o)
    (hmeets : Meets objectStep LeavesNothing o acts) (hrun : exec objectStep o acts = some u) :
    LikeFresh (acts.foldl since hist) u := by
  induction acts generalizing hist o with
  | nil => exact Option.some.inj hrun ▸ h
  | cons a rest ih =>
    obtain ⟨t, hst, hrest⟩ := exec_cons_eq_some.mp hrun
    exact ih (likeFresh_step h hmeets.1 hst) (hmeets.2 t hst) hrest

/-- In every run in which nothing of an earlier connection is left, the present connection has called the callbacks
just as a new WebSocket would have, with the same reads and local calls since `pj_websock_connect`. -/
theorem connection_starts_fresh (cfg : Config) (acts : List ObjectAction) (o : Object) (link : Link)
    (hmeets : Meets objectStep LeavesNothing (Object.create cfg) acts)
    (hrun : exec objectStep (Object.create cfg) acts = some o) (hlink : o.current = some link) :
    ∃ t, exec (step o.cfg) Ws.connecting (sinceConnect acts) = some t ∧ o.session.log = t.rx.session.log ∧
      o.session.state = t.rx.session.state ∧ o.session.fragBuf = t.rx.session.fragBuf ∧
      o.rxPartial = t.rx.rxPartial ∧ link.kept = t.rx.kept ∧ o.handshakeDone = t.handshakeDone := by
  have hcreate : LikeFresh [] (Object.create cfg) := fun link hlink => by cases hlink
  obtain ⟨t, ht, halike, hws⟩ := likeFresh_run hcreate hmeets hrun link hlink
  have hrx : (o.ws link).rx = t.rx.withSession o.session := congrArg Ws.rx hws
  exact ⟨t, ht, halike.log, halike.state, halike.fragBuf, congrArg Rx.rxPartial hrx, congrArg Rx.kept hrx,
    congrArg Ws.handshakeDone hws⟩

/-- A connection that has read `bytes` behind the handshake, with three turns of the loop. -/
def connectAndRead (bytes : List UInt8) : List ObjectAction :=
  [.connect sampleConfig.expectedAccept fun _ => false, .own (.read switchingProtocols), .own (.read bytes),
    .own .turn, .own .turn]

/-- A message on each of two connections; the first one ends with an error. -/
theorem connection_starts_fresh_twice :
    let acts := connectAndRead [0x81, 0x01, 0x61] ++ .own .turn :: .own .readError :: connectAndRead [0x81, 0x01, 0x62]
    ∃ o t, exec objectStep (Object.create sampleConfig) acts = some o ∧
      exec (step o.cfg) Ws.connecting (sinceConnect acts) = some t ∧
      o.session.log = [.onConnect true, .onRxMsg .text [0x62]] ∧ o.session.log = t.rx.session.log := by
  intro acts
  have hlog : (exec objectStep (Object.create sampleConfig) acts).map (fun o => (o.session.log, o.current.isSome)) =
      some ([.onConnect true, .onRxMsg .text [0x62]], true) := by
    simp only [acts, connectAndRead, sampleConfig_eq, switchingProtocols_eq]
    decide +kernel
  have hmeets : Meets objectStep LeavesNothing (Object.create sampleConfig) acts := by
    simp only [acts, connectAndRead, sampleConfig_eq, switchingProtocols_eq]
    decide +kernel
  obtain ⟨o, hrun, hlog⟩ := Option.map_eq_some_iff.mp hlog
  obtain ⟨hlog, hsome⟩ := Prod.mk.inj hlog
  obtain ⟨link, hlink⟩ := Option.isSome_iff_exists.mp hsome
  obtain ⟨t, ht, hsame, -⟩ := connection_starts_fresh sampleConfig acts o link hmeets hrun hlink
  exact ⟨o, t, hrun, ht, hlog, hsame⟩

/-- The first connection ends inside a frame of three bytes: the second one takes the header of its first frame for the
rest of that frame. -/
theorem reconnect_completes_old_frame :
    let acts := connectAndRead [0x81, 0x03, 0x61] ++ .own .readError :: connectAndRead [0x81, 0x01, 0x62]
    (exec objectStep (Object.create sampleConfig) acts).map (·.session.log) =
        some [.onConnect true, .onRxMsg .text [0x61, 0x81, 0x01]] ∧
      (exec (step sampleConfig) Ws.connecting (sinceConnect acts)).map (·.rx.session.log) =
        some [.onConnect true, .onRxMsg .text [0x62]] := by
  simp only [connectAndRead, sampleConfig_eq, switchingProtocols_eq]
  decide

end PjProject.WebSock
