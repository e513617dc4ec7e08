import PjProject.WebSock
import PjProject.Runs

/-! The close discipline of a WebSocket: `on_close` once, and no message behind it. The error case of
`on_transport_data` asks for the state before, but `handle_frame` does not, and `process_rx_frame` stops
for a WebSocket that is being destroyed and not for one that is closed. So the discipline holds in the
runs in which no data is read after the WebSocket was closed. -/

namespace PjProject.WebSock

variable {cfg : Config}

def Event.Quiet : Event → Prop
  | .onRxMsg _ _ => False
  | .onClose _ _ => False
  | _ => True

def Event.IsClose : Event → Prop
  | .onClose _ _ => True
  | _ => False

instance : DecidablePred Event.IsClose
  | .onClose _ _ => .isTrue trivial
  | .onConnect _ => .isFalse id
  | .onRxMsg _ _ => .isFalse id
  | .ctlFrame _ _ => .isFalse id

theorem Event.Quiet.not_isClose {e : Event} (h : e.Quiet) : ¬e.IsClose := by
  cases e with
  | onClose => exact h.elim
  | _ => exact id

/-- `on_close` at most once, and no `on_rx_msg` after it. -/
def CloseDiscipline (log : List Event) : Prop :=
  log.countP (fun e => decide e.IsClose) ≤ 1 ∧
    ∀ before code reason after, log = before ++ .onClose code reason :: after →
      ∀ opcode data, .onRxMsg opcode data ∉ after

def Grew (p : Event → Prop) (s t : Session) : Prop := ∃ l, t.log = s.log ++ l ∧ ∀ e ∈ l, p e

theorem Grew.of_log {p : Event → Prop} {s t : Session} (h : t.log = s.log) : Grew p s t :=
  ⟨[], h.trans (List.append_nil _).symm, nofun⟩

theorem Grew.emit {p : Event → Prop} (s : Session) {e : Event} (h : p e) : Grew p s (s.emit e) :=
  ⟨[e], rfl, fun _ he => List.mem_singleton.mp he ▸ h⟩

theorem Grew.mono {p q : Event → Prop} {s t : Session} (h : Grew p s t) (hpq : ∀ e, p e → q e) : Grew q s t := by
  obtain ⟨l, hlog, hl⟩ := h
  exact ⟨l, hlog, fun e he => hpq e (hl e he)⟩

theorem sendRawCtl_grew (s : Session) (opcode : Opcode) (payload : List UInt8) :
    Grew Event.Quiet s (sendRawCtl cfg s opcode payload) := by
  rw [sendRawCtl]
  split_ifs
  · exact .of_log rfl
  · exact .of_log rfl
  · exact ⟨[.ctlFrame opcode payload], rfl, fun e he => List.mem_singleton.mp he ▸ trivial⟩

/-- A local call adds no message and no close, and only a WebSocket that was open is open or closing. -/
theorem localCall_spec (s : Session) (call : LocalCall) :
    Grew Event.Quiet s (localCall cfg s call) ∧ (s.destroying = true → (localCall cfg s call).destroying = true) ∧
      ((localCall cfg s call).state = s.state ∨ (localCall cfg s call).state = .closed ∨ s.state = .open) := by
  cases call with
  | close code reason =>
    rw [localCall]
    split
    · rename_i hopen
      obtain ⟨l, hlog, hl⟩ := @sendRawCtl_grew cfg { s with state := .closing } .close
        (toBytes 2 code.toNat ++ reason.take (125 - 2))
      exact ⟨⟨l, hlog, hl⟩, fun h => (sendRawCtl_destroying _ _ _).trans h, .inr (.inr hopen)⟩
    · exact ⟨.of_log rfl, id, .inl rfl⟩
  | destroy => exact ⟨.of_log rfl, fun _ => rfl, .inr (.inl rfl)⟩
  | timer =>
    rw [localCall]
    split
    · exact ⟨sendRawCtl_grew s _ _, fun h => (sendRawCtl_destroying _ _ _).trans h, .inl (sendRawCtl_state _ _ _)⟩
    · exact ⟨.of_log rfl, id, .inl rfl⟩
  | ctlSent => exact ⟨.of_log rfl, id, .inl rfl⟩

theorem reassemble_spec (s : Session) (fin : Bool) (payload : List UInt8) :
    Grew (¬·.IsClose) s (reassemble cfg s fin payload) ∧ (reassemble cfg s fin payload).state = s.state := by
  rw [reassemble]
  split_ifs
  · exact ⟨.of_log rfl, rfl⟩
  · exact ⟨⟨[_], rfl, fun e he => List.mem_singleton.mp he ▸ id⟩, rfl⟩
  · exact ⟨.of_log rfl, rfl⟩

theorem handleFrame_spec (s : Session) (fin : Bool) {opcode : Opcode} (payload : List UInt8)
    (hopcode : opcode ≠ .close) :
    Grew (¬·.IsClose) s (handleFrame cfg s fin opcode payload).1 ∧
      (handleFrame cfg s fin opcode payload).1.state = s.state := by
  rw [handleFrame, if_neg hopcode]
  split_ifs
  · exact ⟨.of_log rfl, rfl⟩
  · exact ⟨(sendRawCtl_grew s _ _).mono fun _ => Event.Quiet.not_isClose, sendRawCtl_state s _ _⟩
  · exact ⟨.of_log rfl, rfl⟩
  · exact ⟨.emit s id, rfl⟩
  · exact reassemble_spec { s with fragOpcode := opcode } fin payload
  · exact reassemble_spec s fin payload
  · exact ⟨.of_log rfl, rfl⟩
  · exact reassemble_spec s fin payload
  · exact ⟨.of_log rfl, rfl⟩

theorem sendCloseFrame_grew (s : Session) (code : Nat) (reason : List UInt8) :
    Grew Event.Quiet s (sendCloseFrame cfg s code reason) := sendRawCtl_grew s _ _

theorem handleClose_spec (s : Session) (payload : List UInt8) :
    Grew Event.Quiet s (handleClose cfg s payload) ∨
      ∃ l code reason, (handleClose cfg s payload).log = s.log ++ (l ++ [.onClose code reason]) ∧
        ∀ e ∈ l, e.Quiet := by
  have hlast : ∀ (u : Session) (code : Nat) (reason : List UInt8), Grew Event.Quiet s u →
      Grew Event.Quiet s (if u.destroying = true then u else u.emit (.onClose code reason)) ∨
        ∃ l code' reason', (if u.destroying = true then u else u.emit (.onClose code reason)).log =
          s.log ++ (l ++ [.onClose code' reason']) ∧ ∀ e ∈ l, e.Quiet := by
    rintro u code reason ⟨l, hlog, hl⟩
    split
    · exact .inl ⟨l, hlog, hl⟩
    · refine .inr ⟨l, code, reason, ?_, hl⟩
      rw [Session.emit, hlog, List.append_assoc]
  by_cases hopen : s.state = .open
  · simp only [handleClose, if_pos hopen]
    exact hlast { sendCloseFrame cfg s _ _ with state := .closed } _ _ (sendCloseFrame_grew s _ _)
  · simp only [handleClose, if_neg hopen]
    exact hlast { s with state := .closed } _ _ (.of_log rfl)

/-- The session stays, or a frame is handled, and CLOSE ends the loops. -/
def Responds (handle : Session → Bool → Opcode → List UInt8 → Session × Bool) (r t : Rx) : Prop :=
  t.session = r.session ∨ ∃ fin opcode payload, t.session = (handle r.session fin opcode payload).1 ∧
    ((handle r.session fin opcode payload).2 = false → t.phase = .idle)

section Turns

variable {handle : Session → Bool → Opcode → List UInt8 → Session × Bool}

theorem handled_responds (r : Rx) (fin : Bool) (opcode : Opcode) (payload front data : List UInt8) :
    Responds handle r (r.handled handle fin opcode payload front data) :=
  .inr ⟨fin, opcode, payload, rfl, fun h => by simp only [Rx.handled, h]; rfl⟩

theorem partialTurn_responds (r : Rx) (p : Partial) (front data : List UInt8) :
    Responds handle r (partialTurn handle r p front data) := by
  simp only [partialTurn]
  generalize (if data.length < p.total - p.got then data.length else p.total - p.got) = copy
  split
  · exact .inl rfl
  · split
    · exact handled_responds { r with rxPartial := none } _ _ _ _ _
    · exact .inl rfl

theorem frameTurn_responds (r : Rx) (front data : List UInt8) :
    Responds handle r (frameTurn cfg handle r front data) := by
  rw [frameTurn]
  split
  · exact handled_responds r _ _ _ _ _
  · split
    · exact .inl rfl
    · split
      · exact .inl rfl
      · exact .inl rfl

/-- What a turn of `process_rx_frame` does: at its entry it ends when the WebSocket is being destroyed,
and in its loops it may handle a frame. -/
theorem rxTurn_cases {r t : Rx} (h : rxTurn cfg handle r = some t) :
    (∃ data, r.phase = .enter data ∧ t.session = r.session ∧ (r.session.destroying = true → t.phase = .idle)) ∨
      (∃ front data, r.phase = .frames front data) ∧ Responds handle r t := by
  rw [rxTurn] at h
  split at h
  · cases h
  · rename_i data hphase
    cases h
    exact .inl ⟨data, hphase, rfl, fun hd => if_pos hd⟩
  · rename_i front hphase
    cases h
    exact .inr ⟨⟨front, [], hphase⟩, .inl rfl⟩
  · rename_i front b data hphase
    split at h
    · cases h
      exact .inr ⟨⟨front, b :: data, hphase⟩, partialTurn_responds r _ _ _⟩
    · cases h
      exact .inr ⟨⟨front, b :: data, hphase⟩, frameTurn_responds r _ _⟩

end Turns

/-- `on_close` was called: nothing more is read, unless the WebSocket is being destroyed. -/
structure Shut (ws : Ws) : Prop where
  state : ws.rx.session.state = .closed
  done : ws.handshakeDone = true
  phase : ws.rx.phase = .idle ∨ ws.rx.session.destroying = true ∧ ∃ data, ws.rx.phase = .enter data
  log : ∃ before code reason after, ws.rx.session.log = before ++ .onClose code reason :: after ∧
    (∀ e ∈ before, ¬e.IsClose) ∧ ∀ e ∈ after, e.Quiet

structure Inv (ws : Ws) : Prop where
  running : ws.rx.phase ≠ .idle → ws.handshakeDone = true
  opened : ws.rx.session.state = .open ∨ ws.rx.session.state = .closing → ws.handshakeDone = true
  closes : (∀ e ∈ ws.rx.session.log, ¬e.IsClose) ∨ Shut ws

/-- No data is read after the WebSocket was closed, unless it is being destroyed. -/
def ReadsOpen (ws : Ws) : Action → Prop
  | .read _ => ws.handshakeDone = true → ws.rx.session.state = .closed → ws.rx.session.destroying = true
  | _ => True

instance (ws : Ws) : (a : Action) → Decidable (ReadsOpen ws a)
  | .read _ => inferInstanceAs (Decidable (_ → _ → _))
  | .connectFailed => .isTrue trivial
  | .readError => .isTrue trivial
  | .turn => .isTrue trivial
  | .call _ => .isTrue trivial

theorem countP_isClose {l : List Event} (h : ∀ e ∈ l, ¬e.IsClose) : l.countP (fun e => decide e.IsClose) = 0 := by
  rw [List.countP_eq_zero]
  intro e he
  rw [decide_eq_true_iff]
  exact h e he

/-- With one close in the log there is one way to split the log at a close. -/
theorem after_eq {before before' after after' : List Event} {code code' : Nat} {reason reason' : List UInt8}
    (hbefore : ∀ e ∈ before, ¬e.IsClose) (hafter : ∀ e ∈ after, ¬e.IsClose)
    (h : before ++ .onClose code reason :: after = before' ++ .onClose code' reason' :: after') : after' = after := by
  rcases List.append_eq_append_iff.mp h with ⟨l, rfl, heq⟩ | ⟨l, rfl, heq⟩
  · cases l with
    | nil =>
      cases heq
      rfl
    | cons e rest =>
      cases heq
      exact (hafter (.onClose code' reason') (by simp) trivial).elim
  · cases l with
    | nil =>
      cases heq
      rfl
    | cons e rest =>
      cases heq
      exact (hbefore (.onClose code' reason') (by simp) trivial).elim

theorem Inv.closeDiscipline {ws : Ws} (h : Inv ws) : CloseDiscipline ws.rx.session.log := by
  rcases h.closes with hnone | ⟨-, -, -, before, code, reason, after, hlog, hbefore, hafter⟩
  · refine ⟨by rw [countP_isClose hnone]; exact Nat.zero_le 1, ?_⟩
    intro before code reason after hlog
    have hmem : Event.onClose code reason ∈ ws.rx.session.log := by
      rw [hlog]
      exact List.mem_append_right before List.mem_cons_self
    exact (hnone _ hmem trivial).elim
  · have hclose : ∀ e ∈ after, ¬e.IsClose := fun e he => (hafter e he).not_isClose
    refine ⟨?_, ?_⟩
    · rw [hlog, List.countP_append, List.countP_cons, countP_isClose hbefore, countP_isClose hclose]
      exact Nat.le_refl 1
    · intro before' code' reason' after' hlog' opcode data hmem
      rw [after_eq hbefore hclose (hlog.symm.trans hlog')] at hmem
      exact hafter _ hmem

theorem Grew.noClose {s t : Session} (h : Grew (¬·.IsClose) s t) (hs : ∀ e ∈ s.log, ¬e.IsClose) :
    ∀ e ∈ t.log, ¬e.IsClose := by
  obtain ⟨l, hlog, hl⟩ := h
  intro e he
  rw [hlog, List.mem_append] at he
  exact he.elim (hs e) (hl e)

theorem closes_of_quiet {ws ws' : Ws} (h : (∀ e ∈ ws.rx.session.log, ¬e.IsClose) ∨ Shut ws)
    (hgrew : Grew Event.Quiet ws.rx.session ws'.rx.session)
    (hshut : Shut ws → ws'.rx.session.state = .closed ∧ ws'.handshakeDone = true ∧
      (ws'.rx.phase = .idle ∨ ws'.rx.session.destroying = true ∧ ∃ data, ws'.rx.phase = .enter data)) :
    (∀ e ∈ ws'.rx.session.log, ¬e.IsClose) ∨ Shut ws' := by
  rcases h with hnone | hws
  · exact .inl ((hgrew.mono fun _ => Event.Quiet.not_isClose).noClose hnone)
  · obtain ⟨hstate, hdone, hphase⟩ := hshut hws
    obtain ⟨before, code, reason, after, hlog, hbefore, hafter⟩ := hws.log
    obtain ⟨l, hl, hquiet⟩ := hgrew
    refine .inr ⟨hstate, hdone, hphase, before, code, reason, after ++ l, ?_, hbefore, ?_⟩
    · rw [hl, hlog, List.append_assoc, List.cons_append]
    · intro e he
      exact (List.mem_append.mp he).elim (hafter e) (hquiet e)

theorem shut_of_close {ws ws' : Ws} {l : List Event} {code : Nat} {reason : List UInt8}
    (hnone : ∀ e ∈ ws.rx.session.log, ¬e.IsClose) (hl : ∀ e ∈ l, e.Quiet)
    (hlog : ws'.rx.session.log = ws.rx.session.log ++ (l ++ [.onClose code reason]))
    (hstate : ws'.rx.session.state = .closed) (hdone : ws'.handshakeDone = true) (hphase : ws'.rx.phase = .idle) :
    Shut ws' := by
  refine ⟨hstate, hdone, .inl hphase, ws.rx.session.log ++ l, code, reason, [], ?_, ?_, ?_⟩
  · rw [hlog, List.append_assoc]
  · intro e he
    exact (List.mem_append.mp he).elim (hnone e) fun he => (hl e he).not_isClose
  · exact nofun

theorem Inv.connectFailed {ws : Ws} (h : Inv ws) (hidle : ws.rx.phase = .idle) (hdone : ws.handshakeDone = false) :
    Inv { ws with rx := { ws.rx with
      session := { ws.rx.session with state := .closed }.emit (.onConnect false) } } where
  running hphase := absurd hidle hphase
  opened hstate := hstate.elim nofun nofun
  closes := by
    refine closes_of_quiet h.closes ⟨[.onConnect false], rfl, ?_⟩ fun hshut => ?_
    · exact fun e he => List.mem_singleton.mp he ▸ trivial
    · have := hshut.done
      rw [hdone] at this
      cases this

theorem Inv.onTransportData {ws : Ws} (h : Inv ws) (hidle : ws.rx.phase = .idle) (bytes : List UInt8)
    (hopen : ReadsOpen ws (.read bytes)) : Inv (onTransportData cfg ws bytes) := by
  rw [WebSock.onTransportData]
  split
  · rename_i hdone
    refine ⟨fun _ => hdone, fun _ => hdone, closes_of_quiet h.closes (.of_log rfl) fun hshut => ?_⟩
    exact ⟨hshut.state, hdone, .inr ⟨hopen hdone hshut.state, _, rfl⟩⟩
  · rename_i hdone
    have hnone := h.closes.resolve_right fun hshut => hdone hshut.done
    split
    · exact ⟨fun hphase => absurd hidle hphase, h.opened, .inl hnone⟩
    · refine ⟨fun hphase => absurd hidle hphase, fun hstate => hstate.elim nofun nofun, .inl ?_⟩
      exact (Grew.emit { ws.rx.session with state := .closed } (id : ¬(Event.onConnect false).IsClose)).noClose hnone
    · refine ⟨fun _ => rfl, fun _ => rfl, .inl ?_⟩
      exact (Grew.emit { ws.rx.session with state := .open } (id : ¬(Event.onConnect true).IsClose)).noClose hnone

theorem onTransportError_state (s : Session) : (onTransportError s).state = .closed := by
  simp only [onTransportError]
  split_ifs <;> rfl

theorem Inv.onTransportError {ws : Ws} (h : Inv ws) (hidle : ws.rx.phase = .idle) :
    Inv { ws with rx := { ws.rx with session := onTransportError ws.rx.session, kept := [] } } := by
  have hstate := onTransportError_state ws.rx.session
  refine ⟨fun hphase => absurd hidle hphase, fun hopen => ?_, ?_⟩
  · rcases hopen with hopen | hopen <;> rw [hstate] at hopen <;> cases hopen
  · by_cases hopen : ws.rx.session.state = .open ∨ ws.rx.session.state = .closing
    · have hnone := h.closes.resolve_right fun hshut => by
        rw [hshut.state] at hopen
        exact hopen.elim nofun nofun
      refine .inr (@shut_of_close ws _ [] 0 [] hnone nofun ?_ hstate (h.opened hopen) hidle)
      simp only [WebSock.onTransportError, if_pos hopen]
      rfl
    · refine closes_of_quiet h.closes ?_ fun hshut => ⟨hstate, hshut.done, .inl hidle⟩
      simp only [WebSock.onTransportError, if_neg hopen]
      split
      · exact ⟨[.onConnect false], rfl, fun e he => List.mem_singleton.mp he ▸ trivial⟩
      · exact .of_log rfl

theorem Inv.turn {ws : Ws} (h : Inv ws) {rx : Rx} (hturn : rxTurn cfg (handleFrame cfg) ws.rx = some rx) :
    Inv { ws with rx := rx } := by
  have hdone : ws.handshakeDone = true := by
    refine h.running fun hidle => ?_
    rw [rxTurn_idle hidle] at hturn
    cases hturn
  refine ⟨fun _ => hdone, fun _ => hdone, ?_⟩
  rcases rxTurn_cases hturn with ⟨data, hphase, hsession, hend⟩ | ⟨⟨front, data, hphase⟩, hresponds⟩
  · refine closes_of_quiet h.closes (.of_log (by rw [hsession])) fun hshut => ?_
    rcases hshut.phase with hidle | ⟨hdestroying, -⟩
    · rw [hidle] at hphase
      cases hphase
    · exact ⟨by rw [hsession, hshut.state], hdone, .inl (hend hdestroying)⟩
  · have hnone := h.closes.resolve_right fun hshut => by
      rcases hshut.phase with hidle | ⟨-, more, henter⟩
      · rw [hidle] at hphase
        cases hphase
      · rw [henter] at hphase
        cases hphase
    rcases hresponds with hsession | ⟨fin, opcode, payload, hsession, hstop⟩
    · exact .inl (by rw [hsession]; exact hnone)
    · by_cases hopcode : opcode = .close
      · subst hopcode
        have hstate := @handleClose_state cfg ws.rx.session payload
        rcases @handleClose_spec cfg ws.rx.session payload with hgrew | ⟨l, code, reason, hlog, hl⟩
        · refine .inl ?_
          rw [hsession]
          exact (hgrew.mono fun _ => Event.Quiet.not_isClose).noClose hnone
        · exact .inr (shut_of_close hnone hl (by rw [hsession]; exact hlog) (by rw [hsession]; exact hstate) hdone
            (hstop rfl))
      · refine .inl ?_
        rw [hsession]
        exact (handleFrame_spec ws.rx.session fin payload hopcode).1.noClose hnone

theorem Inv.call {ws : Ws} (h : Inv ws) (call : LocalCall) :
    Inv { ws with rx := { ws.rx with session := localCall cfg ws.rx.session call } } := by
  obtain ⟨hgrew, hdestroying, hstate⟩ := @localCall_spec cfg ws.rx.session call
  refine ⟨h.running, fun hopen => ?_, closes_of_quiet h.closes hgrew fun hshut => ?_⟩
  · rcases hstate with hsame | hclosed | hopen'
    · exact h.opened (by rwa [hsame] at hopen)
    · rcases hopen with hopen | hopen <;> rw [hclosed] at hopen <;> cases hopen
    · exact h.opened (.inl hopen')
  · exact ⟨localCall_closed hshut.state call, hshut.done, hshut.phase.imp id fun hp => ⟨hdestroying hp.1, hp.2⟩⟩

theorem Inv.step {ws ws' : Ws} {a : Action} (h : Inv ws) (hopen : ReadsOpen ws a)
    (hstep : step cfg ws a = some ws') : Inv ws' := by
  cases a with
  | connectFailed =>
    rw [WebSock.step] at hstep
    split at hstep
    · rename_i hguard
      cases hstep
      exact h.connectFailed hguard.1 hguard.2
    · cases hstep
  | read bytes =>
    rw [WebSock.step] at hstep
    split at hstep
    · cases hstep
      exact h.onTransportData ‹_› bytes hopen
    · cases hstep
  | readError =>
    rw [WebSock.step] at hstep
    split at hstep
    · cases hstep
      exact h.onTransportError ‹_›
    · cases hstep
  | turn =>
    obtain ⟨rx, hturn, rfl⟩ := Option.map_eq_some_iff.mp hstep
    exact h.turn hturn
  | call call =>
    cases hstep
    exact h.call call

theorem inv_connecting : Inv Ws.connecting where
  running hphase := absurd rfl hphase
  opened hstate := hstate.elim nofun nofun
  closes := .inl nofun

/-- In every run of a connection in which no data is read after the WebSocket was closed, `on_close` is
called once at most, and no message is delivered after it. -/
theorem closeDiscipline_of_readsOpen (cfg : Config) (acts : List Action) (ws : Ws)
    (hmeets : Meets (step cfg) ReadsOpen Ws.connecting acts)
    (hrun : exec (step cfg) Ws.connecting acts = some ws) : CloseDiscipline ws.rx.session.log :=
  (exec_invariant_of_meets (fun _ _ _ h hopen hstep => h.step hopen hstep) inv_connecting hmeets hrun).closeDiscipline

/-- A connection with a key whose `Sec-WebSocket-Accept` value is known, and the response to it. -/
def sampleConfig : Config := ⟨false, 8, ascii "s3pPLMBiTxaQ9kYGzzhZRbK+xOo=", fun _ => false⟩

def switchingProtocols : List UInt8 :=
  ascii "HTTP/1.1 101 Switching Protocols\r\nSec-WebSocket-Accept: s3pPLMBiTxaQ9kYGzzhZRbK+xOo=\r\n\r\n"

theorem sampleConfig_eq :
    sampleConfig = ⟨false, 8,
      [115, 51, 112, 80, 76, 77, 66, 105, 84, 120, 97, 81, 57, 107, 89, 71, 122, 122, 104, 90, 82, 98, 75, 43, 120,
       79, 111, 61], fun _ => false⟩ :=
  congrArg (Config.mk false 8 · fun _ => false) ((ascii_ofList _).trans rfl)

theorem switchingProtocols_eq : switchingProtocols =
    [72, 84, 84, 80, 47, 49, 46, 49, 32, 49, 48, 49, 32, 83, 119, 105, 116, 99, 104, 105, 110, 103, 32, 80, 114,
     111, 116, 111, 99, 111, 108, 115, 13, 10, 83, 101, 99, 45, 87, 101, 98, 83, 111, 99, 107, 101, 116, 45, 65,
     99, 99, 101, 112, 116, 58, 32, 115, 51, 112, 80, 76, 77, 66, 105, 84, 120, 97, 81, 57, 107, 89, 71, 122, 122,
     104, 90, 82, 98, 75, 43, 120, 79, 111, 61, 13, 10, 13, 10] :=
  (ascii_ofList _).trans rfl

/-- A message, a CLOSE frame with a message behind it in the same read, and the end of the transport. -/
theorem closeDiscipline_of_readsOpen_message :
    ∃ ws, exec (step sampleConfig) Ws.connecting [.read switchingProtocols, .read [0x81, 0x01, 0x61], .turn, .turn,
        .call .timer, .turn, .read [0x88, 0x00, 0x81, 0x01, 0x61], .turn, .turn, .readError] = some ws ∧
      ws.rx.session.log = [.onConnect true, .onRxMsg .text [0x61], .ctlFrame .ping [], .ctlFrame .close [0, 0],
        .onClose 0 []] ∧ CloseDiscipline ws.rx.session.log := by
  have hlog : (exec (step sampleConfig) Ws.connecting [.read switchingProtocols, .read [0x81, 0x01, 0x61], .turn,
      .turn, .call .timer, .turn, .read [0x88, 0x00, 0x81, 0x01, 0x61], .turn, .turn, .readError]).map
        (·.rx.session.log) = some [.onConnect true, .onRxMsg .text [0x61], .ctlFrame .ping [],
          .ctlFrame .close [0, 0], .onClose 0 []] := by
    rw [sampleConfig_eq, switchingProtocols_eq]
    decide +kernel
  have hmeets : Meets (step sampleConfig) ReadsOpen Ws.connecting [.read switchingProtocols, .read [0x81, 0x01, 0x61],
      .turn, .turn, .call .timer, .turn, .read [0x88, 0x00, 0x81, 0x01, 0x61], .turn, .turn, .readError] := by
    rw [sampleConfig_eq, switchingProtocols_eq]
    decide +kernel
  obtain ⟨ws, hrun, hlog⟩ := Option.map_eq_some_iff.mp hlog
  exact ⟨ws, hrun, hlog, closeDiscipline_of_readsOpen sampleConfig _ ws hmeets hrun⟩

/-- A message that is read after the CLOSE frame is delivered after `on_close`. -/
theorem message_after_close :
    ¬ ∀ (cfg : Config) (acts : List Action) (ws : Ws), exec (step cfg) Ws.connecting acts = some ws →
      CloseDiscipline ws.rx.session.log := by
  intro h
  have hlog : (exec (step sampleConfig) Ws.connecting [.read switchingProtocols, .read [0x88, 0x00], .turn, .turn,
      .read [0x81, 0x01, 0x61], .turn, .turn]).map (·.rx.session.log) =
        some [.onConnect true, .ctlFrame .close [0, 0], .onClose 0 [], .onRxMsg .text [0x61]] := by
    rw [sampleConfig_eq, switchingProtocols_eq]
    decide
  obtain ⟨ws, hrun, hlog⟩ := Option.map_eq_some_iff.mp hlog
  exact (h sampleConfig _ ws hrun).2 [.onConnect true, .ctlFrame .close [0, 0]] 0 [] [.onRxMsg .text [0x61]] hlog
    .text [0x61] List.mem_cons_self

end PjProject.WebSock
