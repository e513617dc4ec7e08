import PjProject.SdpCmp
import PjProject.SdpNegMap
import PjProject.Runs

/-! The negotiator of session descriptions (`sdp_neg.c`): its state, its functions, and its runs with the descriptions
that are handed out to be sent and those that are received. -/

namespace PjProject.SdpNeg

open Sdp

/-- `pjmedia_sdp_neg_state`. -/
inductive NegState
  | null
  | localOffer
  | remoteOffer
  | waitNego
  | done
  deriving DecidableEq, Repr

/-- What comes from elsewhere: the registered callbacks, the codecs, and `PJMEDIA_SDP_NEG_MAINTAIN_REMOTE_PT_MAP`. -/
structure Config where
  fmtMatch : FmtMatch
  codecs : Codecs
  maintainRemotePtMap : Bool

/-- `pjmedia_sdp_neg`; the tables are those of the line with the index. -/
structure Neg where
  state : NegState
  preferRemoteCodecOrder : Bool
  answerWithMultipleCodecs : Bool
  hasRemoteAnswer : Bool
  answerWasRemote : Bool
  maps : Nat → PtMap
  initialSdp : Option Session
  initialSdpTmp : Option Session
  activeLocalSdp : Option Session
  activeRemoteSdp : Option Session
  negLocalSdp : Option Session
  negRemoteSdp : Option Session
  lastSent : Option Session

/-- A negotiator after `PJ_POOL_ZALLOC_T` and `init_mapping`. -/
def Neg.init : Neg :=
  ⟨.null, true, false, false, false, fun _ => .empty, none, none, none, none, none, none, none⟩

/-- `pjmedia_sdp_neg_create_w_local_offer`. -/
def createWLocalOffer (sdp : Session) : Except Errno Neg :=
  match validate sdp with
  | some error => .error error
  | none =>
    .ok { Neg.init with state := .localOffer, initialSdp := some sdp, negLocalSdp := some sdp, lastSent := some sdp }

/-- `pjmedia_sdp_neg_create_w_remote_offer`. -/
def createWRemoteOffer (initial : Option Session) (remote : Session) : Except Errno Neg :=
  match validate2 false remote with
  | some error => .error error
  | none =>
    let neg := { Neg.init with negRemoteSdp := some remote }
    match initial with
    | none => .ok { neg with state := .remoteOffer }
    | some sdp =>
      match validate sdp with
      | some error => .error error
      | none => .ok { neg with initialSdp := some sdp, negLocalSdp := some sdp, state := .waitNego }

/-! Versions. -/

/-- `++origin.version`, for an unsigned number of 64 bits. -/
def bump (sdp : Session) : Session :=
  { sdp with origin := { sdp.origin with version := (sdp.origin.version + 1) % 18446744073709551616 } }

/-- The version is incremented unless the description is equal to the one that was sent last. -/
def versioned (lastSent : Option Session) (sdp : Session) : Session :=
  if lastSent.any (sessionCmp · sdp) then sdp else bump sdp

/-! New local offers. -/

/-- The lines of the new offer, `rest` from the one for the first line of the old offer on, are put in the order of the
old offer. A line that is missing is added, as long as the `count` lines are not too many. -/
def alignMedia (conn : Option Conn) : List Media → List Media → Nat → Option (List Media)
  | [], rest, _ => some rest
  | om :: oms, rest, count =>
    match rest.findIdx? fun nm => nm.media == om.media with
    | some k => (alignMedia conn oms (rest.eraseIdx k) count).map (rest.getD k om :: ·)
    | none =>
      if maxSdpMedia ≤ count then none
      else (alignMedia conn oms rest (count + 1)).map (cloneDeactivate om om conn :: ·)

/-- The lines that the old offer has in excess are added to the new one. -/
def appendMissing (conn : Option Conn) : List Media → List Media → Option (List Media)
  | [], media => some media
  | om :: oms, media =>
    if maxSdpMedia ≤ media.length then none else appendMissing conn oms (media ++ [cloneDeactivate om om conn])

/-- The lines of an offer that modifies the session with the lines `old`. -/
def modifiedMedia (allowMediaChange : Bool) (old : List Media) (sdp : Session) : Option (List Media) :=
  if allowMediaChange then appendMissing sdp.conn (old.drop sdp.media.length) sdp.media
  else alignMedia sdp.conn old sdp.media sdp.media.length

def assignSession (cfg : Config) (isOffer : Bool) (maps : Nat → PtMap) (sdp : Session) :
    Option ((Nat → PtMap) × Session) :=
  (assignPtAndUpdateMap cfg.codecs isOffer 0 maps sdp.media).map fun (maps, media) => (maps, { sdp with media := media })

/-- `pjmedia_sdp_neg_modify_local_offer2`: the status and the negotiator afterwards. There is no result when an assertion
fails. -/
def modifyLocalOffer2 (cfg : Config) (allowMediaChange : Bool) (neg : Neg) (sdp : Session) :
    Option (Option Errno × Neg) :=
  if neg.state ≠ .done then some (some .einstate, neg)
  else
    match validate sdp with
    | some error => some (some error, neg)
    | none =>
      match neg.activeLocalSdp with
      | none =>
        -- the first negotiation has failed
        (assignSession cfg true neg.maps sdp).map fun (maps, sdp) =>
          (none, { neg with
            state := .localOffer, maps := maps, initialSdpTmp := none, initialSdp := some sdp
            negLocalSdp := some (versioned neg.lastSent sdp)
            lastSent := some (versioned neg.lastSent sdp) })
      | some old =>
        match modifiedMedia allowMediaChange old.media sdp with
        | none => some (some .etoomany, neg)
        | some media =>
          (assignSession cfg true neg.maps { sdp with origin := old.origin, media := media }).map fun (maps, sdp) =>
            let sdp := versioned neg.lastSent sdp
            (none, { neg with
              state := .localOffer, maps := maps, initialSdpTmp := neg.initialSdp, initialSdp := some sdp
              negLocalSdp := some sdp, lastSent := some sdp })

/-- `pjmedia_sdp_neg_send_local_offer`: the offer and the negotiator afterwards. -/
def sendLocalOffer (neg : Neg) : Except Errno (Session × Neg) :=
  if neg.state = .done then
    match neg.activeLocalSdp, neg.lastSent with
    | some active, some _ =>
      let sdp := versioned neg.lastSent active
      .ok (sdp, { neg with
        state := .localOffer, negLocalSdp := some sdp, lastSent := some sdp
        initialSdpTmp := neg.initialSdp.or neg.initialSdpTmp })
    | _, _ => .error .enoactive
  else if neg.state = .localOffer then
    match neg.negLocalSdp with
    | some sdp => .ok (sdp, neg)
    | none => .error .ebug
  else .error .einstate

/-! Descriptions from outside. -/

/-- `pjmedia_sdp_neg_set_remote_answer`. -/
def setRemoteAnswer (neg : Neg) (remote : Session) : Except Errno Neg :=
  if neg.state = .localOffer then
    .ok { neg with state := .waitNego, hasRemoteAnswer := true, negRemoteSdp := some remote }
  else .error .einstate

/-- `pjmedia_sdp_neg_set_remote_offer`. -/
def setRemoteOffer (neg : Neg) (remote : Session) : Except Errno Neg :=
  if neg.state = .done then .ok { neg with state := .remoteOffer, negRemoteSdp := some remote } else .error .einstate

/-- `pjmedia_sdp_neg_set_local_answer`. -/
def setLocalAnswer (neg : Neg) (sdp : Session) : Except Errno Neg :=
  if neg.state = .remoteOffer ∨ neg.state = .waitNego then
    match neg.initialSdp with
    | some initial =>
      .ok { neg with
        state := .waitNego, initialSdpTmp := some initial
        negLocalSdp := some { sdp with origin := { sdp.origin with id := initial.origin.id } } }
    | none => .ok { neg with state := .waitNego, initialSdp := some sdp, negLocalSdp := some sdp }
  else .error .einstate

/-- `pjmedia_sdp_neg_cancel_offer`. -/
def cancelOffer (neg : Neg) : Except Errno Neg :=
  if neg.state = .localOffer then
    .ok { neg with
      state := .done, lastSent := neg.activeLocalSdp.or neg.lastSent, initialSdp := neg.initialSdpTmp
      initialSdpTmp := none, negLocalSdp := none, negRemoteSdp := none, hasRemoteAnswer := false }
  else if neg.state = .remoteOffer then
    .ok { neg with
      state := .done, initialSdpTmp := none, negLocalSdp := none, negRemoteSdp := none, hasRemoteAnswer := false }
  else .error .einstate

/-! The negotiation. -/

/-- The end of `pjmedia_sdp_neg_negotiate`. -/
def Neg.finish (neg : Neg) (status : Option Errno) : Option Errno × Neg :=
  (status, { neg with
    state := .done, answerWasRemote := neg.hasRemoteAnswer
    initialSdp := if status = none then neg.initialSdp else neg.initialSdpTmp
    initialSdpTmp := none, negLocalSdp := none, negRemoteSdp := none, hasRemoteAnswer := false })

/-- The answer from the remote side is applied to the local offer. -/
def negotiateAnswer (cfg : Config) (allowAsym : Bool) (neg : Neg) (offer answer : Session) : Option Errno × Neg :=
  match processAnswer cfg.fmtMatch allowAsym offer answer with
  | .ok (active, answer) => { neg with activeLocalSdp := some active, activeRemoteSdp := some answer }.finish none
  | .error error => neg.finish (some error)

/-- The answer that is to be sent: its payload types are assigned, and its version follows the one sent last. -/
def answerToSend (cfg : Config) (neg : Neg) (answer : Session) : Option ((Nat → PtMap) × Session) :=
  (assignSession cfg false neg.maps answer).map fun (maps, answer) =>
    let version := neg.lastSent.elim answer.origin.version fun last => last.origin.version
    (maps, versioned neg.lastSent { answer with origin := { answer.origin with version := version } })

/-- An answer to the offer from the remote side is created. -/
def negotiateOffer (cfg : Config) (neg : Neg) (initial offer : Session) : Option (Option Errno × Neg) :=
  match createAnswer cfg.fmtMatch neg.preferRemoteCodecOrder neg.answerWithMultipleCodecs initial offer with
  | .assertion => none
  | .failed status => some (neg.finish status)
  | .ok answer =>
    (answerToSend cfg neg answer).map fun (maps, answer) =>
      { neg with
        maps := maps, activeLocalSdp := some answer, activeRemoteSdp := some offer, lastSent := some answer }.finish none

/-- `pjmedia_sdp_neg_negotiate`. -/
def negotiate (cfg : Config) (allowAsym : Bool) (neg : Neg) : Option (Option Errno × Neg) :=
  if neg.state ≠ .waitNego then some (some .einstate, neg)
  else
    match neg.negRemoteSdp with
    | none => some (some .ebug, neg)
    | some remote =>
      let neg :=
        { neg with maps := if cfg.maintainRemotePtMap then noteSession cfg.codecs 0 neg.maps remote.media else neg.maps }
      match neg.negLocalSdp with
      | none => some (neg.finish (some .einval))
      | some sdp =>
        if neg.hasRemoteAnswer then some (negotiateAnswer cfg allowAsym neg sdp remote)
        else negotiateOffer cfg neg sdp remote

/-! Runs. -/

/-- A description that has been handed out to be sent, or has been received. -/
inductive Event
  | sent (sdp : Session)
  | received (sdp : Session)
  deriving DecidableEq, Repr

/-- A negotiator with what has passed, in order. -/
structure System where
  neg : Neg
  history : List Event

inductive Call
  | setPreferRemoteCodecOrder (preferRemote : Bool)
  | setAnswerMultipleCodecs (answerMultiple : Bool)
  | modifyLocalOffer2 (allowMediaChange : Bool) (sdp : Session)
  | sendLocalOffer
  | setRemoteAnswer (remote : Session)
  | setRemoteOffer (remote : Session)
  | setLocalAnswer (sdp : Session)
  | cancelOffer
  | negotiate (allowAsym : Bool)
  deriving DecidableEq, Repr

/-- What a call returns, where a failed one leaves everything as it is. -/
def System.after (sys : System) (events : List Event) : Except Errno Neg → System
  | .ok neg => ⟨neg, sys.history ++ events⟩
  | .error _ => sys

/-- One call. There is no result when an assertion fails. -/
def step (cfg : Config) (sys : System) : Call → Option System
  | .setPreferRemoteCodecOrder preferRemote =>
    some { sys with neg := { sys.neg with preferRemoteCodecOrder := preferRemote } }
  | .setAnswerMultipleCodecs answerMultiple =>
    some { sys with neg := { sys.neg with answerWithMultipleCodecs := answerMultiple } }
  | .modifyLocalOffer2 allowMediaChange sdp =>
    (modifyLocalOffer2 cfg allowMediaChange sys.neg sdp).map fun (status, neg) =>
      ⟨neg, if status = none then sys.history ++ (neg.negLocalSdp.map Event.sent).toList else sys.history⟩
  | .sendLocalOffer =>
    match sendLocalOffer sys.neg with
    | .ok (sdp, neg) => some ⟨neg, sys.history ++ [.sent sdp]⟩
    | .error _ => some sys
  | .setRemoteAnswer remote => some (sys.after [.received remote] (setRemoteAnswer sys.neg remote))
  | .setRemoteOffer remote => some (sys.after [.received remote] (setRemoteOffer sys.neg remote))
  | .setLocalAnswer sdp => some (sys.after [] (setLocalAnswer sys.neg sdp))
  | .cancelOffer => some (sys.after [] (cancelOffer sys.neg))
  | .negotiate allowAsym =>
    (negotiate cfg allowAsym sys.neg).map fun (status, neg) =>
      ⟨neg, if status = none ∧ sys.neg.hasRemoteAnswer = false then
          sys.history ++ (neg.activeLocalSdp.map Event.sent).toList
        else sys.history⟩

inductive Created : System → Prop
  | wLocalOffer {sdp : Session} {neg : Neg} (hcreate : createWLocalOffer sdp = .ok neg) : Created ⟨neg, [.sent sdp]⟩
  | wRemoteOffer {initial : Option Session} {remote : Session} {neg : Neg}
      (hcreate : createWRemoteOffer initial remote = .ok neg) : Created ⟨neg, [.received remote]⟩

/-! Descriptions for runs on fixed inputs. -/

/-- A line for `RTP/AVP` with formats and attributes. -/
def plainMedia (media : String) (port : Nat) (fmt : List String) (attr : List (String × String)) : Media :=
  ⟨ascii media, port, 0, ascii "RTP/AVP", fmt.map ascii, none, [], attr.map fun a => ⟨ascii a.1, ascii a.2⟩⟩

def plainSession (version : Nat) (media : List Media) : Session :=
  ⟨⟨ascii "-", 1, version, ascii "IN", ascii "IP4", ascii "10.0.0.1"⟩, ascii "s",
    some ⟨ascii "IN", ascii "IP4", ascii "10.0.0.1", 0, 0⟩, [], 0, 0, [], media⟩

/-- No callback is registered, and `codec/8000/1` is the only codec with a dynamic payload type. -/
def plainConfig : Config := ⟨fun _ _ _ answer _ _ => some answer.attr, ⟨[ascii "codec/8000/1"], none⟩, true⟩

end PjProject.SdpNeg
