import PjProject.Sockaddr
import PjProject.Runs

/-! Reliable provisional responses (`sip_100rel.c`), on the side of the UAS. The INVITE transaction takes responses until a
final one was sent; whether it takes a message, and whether `pjsip_inv_end_session` makes one, comes from outside. The
log, newest first, has what was given, what was sent, and what was acknowledged. -/

namespace PjProject.Sip100rel

open Sock (isDigit strtoul)

abbrev Bytes := List UInt8

/-- A response: its status code, the CSeq number, whether it has a body, and the value of its RSeq header. -/
structure Tdata where
  id : Nat
  code : Nat
  cseq : Nat
  body : Bool
  rseq : Option Nat
  deriving DecidableEq, Repr

/-- `tx_data_list_t`. -/
structure TxData where
  rseq : Nat
  tdata : Tdata
  deriving DecidableEq, Repr

/-- `uas_state_t`; the timer is running when its id is set. -/
structure UasState where
  cseq : Nat
  rseq : Nat
  txDataList : List TxData
  retransmitCount : Nat
  retransmitTimer : Bool
  deriving DecidableEq, Repr

/-- The INVITE transaction. -/
structure Tsx where
  cseq : Nat
  final : Bool
  deriving DecidableEq, Repr

inductive Event
  | invite
  | given (tdata : Tdata)
  | sent (tdata : Tdata)
  | resent (tdata : Tdata)
  | acked (tdata : Tdata) (rack : Bytes)
  deriving DecidableEq, Repr

/-- The dialog; `established` says that its session is connecting or confirmed. -/
structure State where
  uasState : Option UasState
  inviteTsx : Option Tsx
  established : Bool
  log : List Event
  deriving DecidableEq, Repr

/-- Whether the transaction takes what is sent, and whether `pjsip_inv_end_session` makes a message. -/
structure Io where
  takes : Bool
  endsSession : Bool
  deriving DecidableEq, Repr

/-- `pjsip_tsx_send_msg` on the INVITE transaction, and the status of `pjsip_dlg_send_response`. -/
def sendMsg (s : State) (tdata : Tdata) (io : Io) : State × Bool :=
  match s.inviteTsx with
  | none => (s, false)
  | some tsx =>
    if tsx.final ∨ io.takes = false then (s, false)
    else
      ({ s with
          inviteTsx := some { tsx with final := 200 ≤ tdata.code }
          established := s.established || tdata.code / 100 = 2
          log := .sent tdata :: s.log }, true)

/-- `clear_all_responses`. -/
def UasState.clearAllResponses (u : UasState) : UasState := { u with txDataList := [] }

/-- `parse_rack`. -/
def parseRack (rack : Bytes) : Nat × Nat × Bytes :=
  let rseq := rack.takeWhile isDigit
  let rest := rack.drop (rseq.length + 1)
  let seq := rest.takeWhile isDigit
  (strtoul rseq, strtoul seq, rest.drop (seq.length + 1))

/-- The 504 response to a transaction. -/
def timedOut (tsx : Tsx) : Tdata := ⟨0, 504, tsx.cseq, false, none⟩

/-- `pjsip_inv_end_session` makes a BYE for an established session, which `pjsip_dlg_send_response` refuses. -/
def reject (s : State) (tsx : Tsx) (io : Io) : State :=
  if s.established ∨ io.endsSession = false then s else (sendMsg s (timedOut tsx) io).1

/-- `on_retransmit`, behind the transmission: the list is cleared after a final response, or the timer is scheduled. -/
def afterTransmission (s : State) (u : UasState) (tdata : Tdata) : State :=
  { s with uasState := some (if 200 ≤ tdata.code then u.clearAllResponses else { u with retransmitTimer := true }) }

/-- `on_retransmit`. -/
def onRetransmit (s : State) (u : UasState) (io : Io) : State :=
  match s.inviteTsx with
  | none => { s with uasState := some { u.clearAllResponses with retransmitTimer := false } }
  | some tsx =>
    let u := { u with retransmitCount := u.retransmitCount + 1, retransmitTimer := false }
    if 7 ≤ u.retransmitCount then reject { s with uasState := some u.clearAllResponses } tsx io
    else
      match u.txDataList with
      | [] => { s with uasState := some u }
      | tl :: _ =>
        if u.retransmitCount = 1 then
          let (s, sent) := sendMsg { s with uasState := some u } tl.tdata io
          if sent then afterTransmission s u tl.tdata else s
        else afterTransmission { s with log := .resent tl.tdata :: s.log } u tl.tdata

/-- `pjsip_100rel_on_rx_prack`, for the value of the RAck header. -/
def onRxPrack (s : State) (rack : Option Bytes) (io : Io) : State :=
  match s.uasState, rack with
  | some u, some rack =>
    match u.txDataList with
    | [] => s
    | tl :: rest =>
      let (rseq, cseq, _) := parseRack rack
      if rseq = tl.rseq ∧ cseq = u.cseq then
        let u := { u with txDataList := rest, retransmitCount := 0, retransmitTimer := false }
        let s := { s with uasState := some u, log := .acked tl.tdata rack :: s.log }
        if rest = [] then s else onRetransmit s u io
      else s
  | _, _ => s

/-- `has_sdp`. -/
def UasState.hasSdp (u : UasState) : Bool := u.txDataList.any fun tl => tl.tdata.body

/-- The timer is cancelled and the responses are dropped. -/
def UasState.cancel (u : UasState) : UasState := { u.clearAllResponses with retransmitTimer := false }

/-- A 2xx response. -/
def txSuccess (s : State) (tdata : Tdata) (io : Io) : State × Bool :=
  match s.uasState with
  | some u =>
    if u.hasSdp then
      ({ s with uasState := some { u with txDataList := u.txDataList ++ [⟨0xFFFFFFFF, tdata⟩] } }, true)
    else sendMsg { s with uasState := some u.cancel } tdata io
  | none => sendMsg s tdata io

/-- Another final response. -/
def txFailure (s : State) (tdata : Tdata) (io : Io) : State × Bool :=
  match s.uasState with
  | some u => sendMsg (if u.retransmitTimer then { s with uasState := some u.cancel } else s) tdata io
  | none => sendMsg s tdata io

/-- The state for the first reliable response of the dialog. -/
def newUasState (cseq rand : Nat) : UasState := ⟨cseq, rand % 0x7FFF + 1, [], 0, false⟩

/-- The RSeq header of a provisional response. -/
def UasState.number (u : UasState) (tdata : Tdata) : Tdata := { tdata with rseq := some u.rseq }

def txProvisional (s : State) (tdata : Tdata) (rand : Nat) (io : Io) : State × Bool :=
  let u := s.uasState.getD (newUasState tdata.cseq rand)
  if tdata.cseq ≠ u.cseq then ({ s with uasState := some u, log := .given tdata :: s.log }, false)
  else
    let numbered := u.number tdata
    let s := { s with log := .given numbered :: s.log }
    let u' := { u with rseq := (u.rseq + 1) % 0x100000000, txDataList := u.txDataList ++ [⟨u.rseq, numbered⟩] }
    if u.txDataList ≠ [] then ({ s with uasState := some u' }, true)
    else (onRetransmit s { u' with retransmitCount := 0 } io, true)

/-- `pjsip_100rel_tx_response`. -/
def txResponse (s : State) (tdata : Tdata) (rand : Nat) (io : Io) : State × Bool :=
  if tdata.code = 100 then sendMsg s tdata io
  else
    let tdata := { tdata with rseq := none }
    if tdata.code / 100 = 2 then txSuccess { s with log := .given tdata :: s.log } tdata io
    else if 300 ≤ tdata.code then txFailure { s with log := .given tdata :: s.log } tdata io
    else txProvisional s tdata rand io

/-! Runs. -/

inductive Action
  | invite (cseq : Nat)
  | tsxGone
  | txResponse (tdata : Tdata) (rand : Nat) (io : Io)
  | rxPrack (rack : Option Bytes) (io : Io)
  | timeout (io : Io)
  deriving DecidableEq, Repr

/-- `pjsip_inv_send_msg` asserts that a response is one to the INVITE transaction. -/
def step (s : State) : Action → Option State
  | .invite cseq =>
    if s.inviteTsx = none then some { s with inviteTsx := some ⟨cseq, false⟩, log := .invite :: s.log } else none
  | .tsxGone => some { s with inviteTsx := none }
  | .txResponse tdata rand io =>
    if 100 ≤ tdata.code ∧ (s.inviteTsx.map (·.cseq)) = some tdata.cseq then some (txResponse s tdata rand io).1 else none
  | .rxPrack rack io => some (onRxPrack s rack io)
  | .timeout io =>
    match s.uasState with
    | some u => if u.retransmitTimer then some (onRetransmit s u io) else none
    | none => none

end PjProject.Sip100rel
