import PjProject.Sdp

/-! The answer from the remote side (`process_answer` of `sdp_neg.c`): the local offer is reduced to what the answer has
taken, line by line. -/

namespace PjProject.SdpNeg

open Sdp
open Sock (strtoul)
open Xml (stricmp)

/-- The registered callbacks behind `custom_fmt_match`: the name of the format, the offer and the answer with the index
of the format in each, and whether the answer may be modified. There is no result when the formats do not match; else
the result has the attributes of the answer. -/
abbrev FmtMatch := Str → Media → Nat → Media → Nat → Bool → Option (List Attr)

/-- The channel count of an audio format is 1 if it is not specified. -/
def Rtpmap.channels (isAudio : Bool) (r : Rtpmap) : Str := if isAudio ∧ r.param = [] then ascii "1" else r.param

/-- Encoding name, clock rate and channel count match. -/
def sameCodec (isAudio : Bool) (r r' : Rtpmap) : Bool :=
  stricmp r.encName r'.encName == 0 && r.clockRate == r'.clockRate &&
    stricmp (Rtpmap.channels isAudio r) (Rtpmap.channels isAudio r') == 0

/-- The index of the format of the answer that matches the format `i` of the offer, for a dynamic payload type. -/
def matchDynamic (fmtMatch : FmtMatch) (isAudio : Bool) (offer answer : Media) (i : Nat) (r : Rtpmap) : Option Nat :=
  (List.range answer.fmt.length).find? fun j =>
    match answer.rtpmap (answer.fmt.getD j []) with
    | none => false
    | some r' => sameCodec isAudio r r' && (fmtMatch r.encName offer i answer j false).isSome

/-- The index of the format of the answer that matches the format `i` of the offer. -/
def matchAnswer (fmtMatch : FmtMatch) (isAudio : Bool) (offer answer : Media) (i : Nat) : Except Errno (Option Nat) :=
  let fmt := offer.fmt.getD i []
  if strtoul fmt < 96 then .ok (answer.fmt.idxOf? fmt)
  else
    match offer.rtpmap fmt with
    | none => .error .ebug
    | some r => .ok (matchDynamic fmtMatch isAudio offer answer i r)

/-- The loop that removes the formats that have no match: `n` formats are left from the index `i` on, and the indices
of the matches are collected. -/
def removeUnmatched (fmtMatch : FmtMatch) (isAudio : Bool) (answer : Media) :
    Nat → Nat → List Nat → Media → Except Errno (Media × List Nat)
  | 0, _, prior, offer => .ok (offer, prior)
  | n + 1, i, prior, offer =>
    match matchAnswer fmtMatch isAudio offer answer i with
    | .error error => .error error
    | .ok none =>
      let offer := offer.forget (offer.fmt.getD i [])
      removeUnmatched fmtMatch isAudio answer n i prior { offer with fmt := offer.fmt.eraseIdx i }
    | .ok (some j) => removeUnmatched fmtMatch isAudio answer n (i + 1) (prior ++ [j]) offer

/-- One round of the exchange sort: the least element comes first, and the others as the exchanges leave them. -/
def exchange (x : Nat × Str) : List (Nat × Str) → (Nat × Str) × List (Nat × Str)
  | [] => (x, [])
  | y :: more =>
    if y.1 < x.1 then
      let (least, rest) := exchange y more
      (least, x :: rest)
    else
      let (least, rest) := exchange x more
      (least, y :: rest)

/-- The formats of the offer are sorted by the index in the answer. -/
def exchangeSort : Nat → List (Nat × Str) → List (Nat × Str)
  | 0, l => l
  | _, [] => []
  | n + 1, x :: more =>
    let (least, rest) := exchange x more
    least :: exchangeSort n rest

/-- The loop that removes the formats of the answer that match none of the offer: `n` formats are left from the index
`i` on, and `delCnt` were removed. -/
def removeUnoffered (prior : List Nat) : Nat → Nat → Nat → Media → Media
  | 0, _, _, answer => answer
  | n + 1, i, delCnt, answer =>
    if prior[i]? = some (i + delCnt) then removeUnoffered prior n (i + 1) delCnt answer
    else
      let answer := answer.forget (answer.fmt.getD i [])
      removeUnoffered prior n i (delCnt + 1) { answer with fmt := answer.fmt.eraseIdx i }

/-- How `process_m_answer` ends: with the two lines, because of the media types, without a common format, or with another
error. -/
inductive MAnswer
  | ok (offer answer : Media)
  | mediaMismatch
  | noCommonFormat (offer answer : Media)
  | failed (error : Errno)
  deriving DecidableEq, Repr

/-- The formats of both lines are reduced to those they have in common. -/
def commonFormats (fmtMatch : FmtMatch) (isAudio : Bool) (offer answer : Media) : MAnswer :=
  match removeUnmatched fmtMatch isAudio answer offer.fmt.length 0 [] offer with
  | .error error => .failed error
  | .ok (offer, prior) =>
    if offer.fmt = [] then .noCommonFormat offer answer
    else
      let sorted := exchangeSort offer.fmt.length (prior.zip offer.fmt)
      .ok { offer with fmt := sorted.map Prod.snd }
        (removeUnoffered (sorted.map Prod.fst) answer.fmt.length 0 0 answer)

/-- `process_m_answer`. -/
def processMAnswer (fmtMatch : FmtMatch) (allowAsym : Bool) (offer answer : Media) : MAnswer :=
  if answer.media ≠ offer.media then .mediaMismatch
  else if answer.port = 0 then .ok offer.deactivate answer
  else if transportCmp answer.transport offer.transport = false then .failed .einvanstp
  else if offer.port = 0 then .ok offer answer
  else
    let offer := updateMediaDirection answer offer
    if allowAsym then
      -- the formats of the answer are compared with those of the answer itself
      if answer.fmt.any fun fmt => (answer.fmt.take offer.fmt.length).contains fmt then .ok offer answer
      else .noCommonFormat offer answer
    else commonFormats fmtMatch (offer.media == ascii "audio") offer answer

/-- The loop of `process_answer` over the lines of the offer and those of the answer that are left: the lines of both
sides afterwards. The connection line is the one of the offer. -/
def processLines (fmtMatch : FmtMatch) (allowAsym : Bool) (conn : Option Conn) :
    List Media → List Media → Except Errno (List Media × List Media)
  | [], answers => .ok ([], answers)
  | offer :: offers, [] => do
    let (locals, remotes) ← processLines fmtMatch allowAsym conn offers []
    .ok (offer.deactivate :: locals, cloneDeactivate offer offer conn :: remotes)
  | offer :: offers, answer :: answers =>
    match processMAnswer fmtMatch allowAsym offer answer with
    | .ok offer answer => do
      let (locals, remotes) ← processLines fmtMatch allowAsym conn offers answers
      .ok (offer :: locals, answer :: remotes)
    | .mediaMismatch => do
      let (locals, remotes) ← processLines fmtMatch allowAsym conn offers (answer :: answers)
      .ok (offer.deactivate :: locals, remotes)
    | .noCommonFormat offer answer => do
      let (locals, remotes) ← processLines fmtMatch allowAsym conn offers answers
      .ok (offer.deactivate :: locals, answer.deactivate :: remotes)
    | .failed error => .error error

/-- `process_answer`: the active local description, and the answer as it is then. -/
def processAnswer (fmtMatch : FmtMatch) (allowAsym : Bool) (offer answer : Session) : Except Errno (Session × Session) := do
  let (locals, remotes) ← processLines fmtMatch allowAsym offer.conn offer.media answer.media
  if locals.any fun m => m.port ≠ 0 then .ok ({ offer with media := locals }, { answer with media := remotes })
  else .error .enomedia

end PjProject.SdpNeg
