import PjProject.SdpNegAnswer

/-! The answer to an offer from the remote side (`create_answer` of `sdp_neg.c`). For each line of the offer the local
lines are tried in order, and the formats that both lines have in common are selected. -/

namespace PjProject.SdpNeg

open Sdp
open Sock (isDigit strtoul decimal)
open Xml (stricmp)

/-! Format parameters. -/

/-- `pjmedia_sdp_attr_get_fmtp`: the parameters behind the format. -/
def getFmtpParam (value : Str) : Option Str :=
  match value.dropWhile isDigit with
  | 32 :: param => if isDigit (value.headD 0) then some param else none
  | _ => none

/-- `PJMEDIA_CODEC_MAX_FMTP_CNT`. -/
def maxFmtpCnt : Nat := 16

def isBlank (c : UInt8) : Bool := c == 32 || c == 9

/-- The value of a parameter, which may have a name before `=`. -/
def fmtpValue (token : Str) : Str :=
  if token.contains 61 then (token.dropWhile (· != 61)).tail.dropWhile isBlank else token

/-- `pjmedia_stream_info_parse_fmtp_data`: the values of the parameters. -/
def parseFmtpData : Nat → Str → List Str
  | 0, _ => []
  | n + 1, l =>
    let l := l.dropWhile isBlank
    if l = [] then []
    else
      let token := l.takeWhile fun c => c != 59 && c != 47
      let trimmed := (token.reverse.dropWhile fun c => isBlank c || c == 13 || c == 10).reverse
      let more := parseFmtpData n ((l.dropWhile fun c => c != 59 && c != 47).drop 1)
      if trimmed = [] then more else fmtpValue trimmed :: more

/-- `pjmedia_stream_info_parse_fmtp`: there is no result when the attribute is malformed. -/
def parseFmtp (m : Media) (pt : Nat) : Option (List Str) :=
  match attrFind m.attr strFmtp (decimal pt) with
  | none => some []
  | some a => (getFmtpParam a.value).map fun param => (parseFmtpData (param.length + 1) param).take maxFmtpCnt

/-! The selection of the formats. -/

/-- What is gathered while the formats of the master are visited: the formats that were matched with that of the offer
first, and the attributes of the local line as the callbacks leave them. -/
structure Selection where
  masterHasCodec : Bool
  masterHasOther : Bool
  foundCodec : Bool
  foundRed : Bool
  foundTelephoneEvent : Bool
  foundOther : Bool
  pairs : List (Str × Str)
  redLevel : Int
  clockrate : List Nat
  telClockrate : List Nat
  attr : List Attr
  deriving DecidableEq, Repr

/-- The offer and the local line, and which of them is the master. -/
structure Lines where
  preferRemote : Bool
  multiple : Bool
  offer : Media
  preanswer : Media
  deriving DecidableEq, Repr

def Lines.master (ls : Lines) : Media := if ls.preferRemote then ls.offer else ls.preanswer
def Lines.slave (ls : Lines) : Media := if ls.preferRemote then ls.preanswer else ls.offer

/-- The index in the offer and the one in the local line, for an index of the master and one of the slave. -/
def Lines.offerIdx (ls : Lines) (i j : Nat) : Nat := if ls.preferRemote then i else j
def Lines.answerIdx (ls : Lines) (i j : Nat) : Nat := if ls.preferRemote then j else i

def Selection.match (ls : Lines) (sel : Selection) (i j : Nat) : Selection :=
  { sel with
    pairs := sel.pairs ++
      [(ls.offer.fmt.getD (ls.offerIdx i j) [], ls.preanswer.fmt.getD (ls.answerIdx i j) [])] }

def noteClock (rates : List Nat) (rate : Nat) : List Nat := if rates.contains rate then rates else rates ++ [rate]

/-- A static payload type of the master. -/
def selectStatic (ls : Lines) (sel : Selection) (i : Nat) : Selection :=
  let sel := { sel with masterHasCodec := true }
  if ls.multiple = false ∧ sel.foundCodec then sel
  else
    let pt := strtoul (ls.master.fmt.getD i [])
    match ls.slave.fmt.findIdx? fun fmt => strtoul fmt == pt && isDigit (fmt.headD 0) with
    | none => sel
    | some j =>
      let sel := sel.match ls i j
      { sel with foundCodec := true, clockrate := noteClock sel.clockrate 8000 }

/-- What a dynamic payload type stands for. -/
inductive Kind
  | codec
  | telephoneEvent
  | red
  deriving DecidableEq, Repr

def kind (encName : Str) : Kind :=
  if stricmp encName (ascii "telephone-event") = 0 then .telephoneEvent
  else if stricmp encName (ascii "red") = 0 then .red
  else .codec

/-- Encoding name and clock rate are the same, and the channel count, which is 1 if it is not specified. -/
def sameFormat (r r' : Rtpmap) : Bool :=
  stricmp r.encName r'.encName == 0 && r.clockRate == r'.clockRate &&
    (stricmp r.param r'.param == 0 || (r'.param == [] && r.param == [49]) || (r.param == [] && r'.param == [49]))

/-- A format of the slave with the same encoding is taken, unless the callback or what was found before speaks against
it. -/
def take (fmtMatch : FmtMatch) (ls : Lines) (sel : Selection) (i j : Nat) (r : Rtpmap) : Option Selection :=
  match kind r.encName with
  | .codec =>
    (fmtMatch r.encName ls.offer (ls.offerIdx i j) { ls.preanswer with attr := sel.attr } (ls.answerIdx i j) true).map
      fun attr => { sel with attr := attr, foundCodec := true, clockrate := noteClock sel.clockrate r.clockRate }
  | .telephoneEvent =>
    if sel.telClockrate.contains r.clockRate then none
    else some { sel with telClockrate := sel.telClockrate ++ [r.clockRate], foundTelephoneEvent := true }
  | .red =>
    (parseFmtp ls.offer (strtoul (ls.offer.fmt.getD (ls.offerIdx i j) []))).map fun params =>
      { sel with redLevel := (params.length : Int) - 1, foundRed := true }

/-- The media with its attributes as they are now, which matters when it is the local one. -/
def Lines.slaveNow (ls : Lines) (sel : Selection) : Media :=
  if ls.preferRemote then { ls.preanswer with attr := sel.attr } else ls.offer

def Lines.masterNow (ls : Lines) (sel : Selection) : Media :=
  if ls.preferRemote then ls.offer else { ls.preanswer with attr := sel.attr }

/-- The formats of the slave are tried, with `n` left from the index `j` on. -/
def selectAmong (fmtMatch : FmtMatch) (ls : Lines) (i : Nat) (r : Rtpmap) : Nat → Nat → Selection → Selection
  | 0, _, sel => sel
  | n + 1, j, sel =>
    match (ls.slaveNow sel).rtpmap (ls.slave.fmt.getD j []) with
    | none => selectAmong fmtMatch ls i r n (j + 1) sel
    | some r' =>
      if sameFormat r r' then
        match take fmtMatch ls sel i j r with
        | none => selectAmong fmtMatch ls i r n (j + 1) sel
        | some sel => sel.match ls i j
      else selectAmong fmtMatch ls i r n (j + 1) sel

/-- A dynamic payload type of the master. An error comes with the attributes of the local line as they are then. -/
def selectDynamic (fmtMatch : FmtMatch) (ls : Lines) (sel : Selection) (i : Nat) :
    Except (Errno × List Attr) Selection :=
  match (ls.masterNow sel).rtpmap (ls.master.fmt.getD i []) with
  | none => .error (.emissingrtpmap, sel.attr)
  | some r =>
    if kind r.encName = .codec then
      let sel := { sel with masterHasCodec := true }
      if ls.multiple = false ∧ sel.foundCodec then .ok sel
      else .ok (selectAmong fmtMatch ls i r ls.slave.fmt.length 0 sel)
    else .ok (selectAmong fmtMatch ls i r ls.slave.fmt.length 0 sel)

/-- A format of the master that is not a number. -/
def selectOther (ls : Lines) (sel : Selection) (i : Nat) : Selection :=
  let sel := { sel with masterHasOther := true }
  if sel.foundOther then sel
  else
    match ls.slave.fmt.idxOf? (ls.master.fmt.getD i []) with
    | none => sel
    | some j => { sel.match ls i j with foundOther := true }

def selectFormat (fmtMatch : FmtMatch) (ls : Lines) (sel : Selection) (i : Nat) :
    Except (Errno × List Attr) Selection :=
  let fmt := ls.master.fmt.getD i []
  if isDigit (fmt.headD 0) then
    if strtoul fmt < 96 then .ok (selectStatic ls sel i) else selectDynamic fmtMatch ls sel i
  else .ok (selectOther ls sel i)

/-- The loop over the formats of the master. -/
def selectFormats (fmtMatch : FmtMatch) (ls : Lines) : Except (Errno × List Attr) Selection :=
  (List.range ls.master.fmt.length).foldlM (selectFormat fmtMatch ls)
    ⟨false, false, false, false, false, false, [], 0, [], [], ls.preanswer.attr⟩

/-! What is done with the selected formats. -/

/-- The value of the `fmtp` of the redundancy format before its slash number `level`, counted from zero. -/
def cutLevel (level : Int) : Int → Str → Str
  | _, [] => []
  | lvl, c :: more =>
    if c = 47 then if level ≤ lvl then [] else c :: cutLevel level (lvl + 1) more else c :: cutLevel level lvl more

def updateFirst (attrs : List Attr) (p : Attr → Bool) (f : Attr → Attr) : List Attr :=
  match attrs with
  | [] => []
  | a :: more => if p a then f a :: more else a :: updateFirst more p f

/-- The redundancy level of the local line is reduced to the one of the offer. The format is looked for among the first
formats of the local line, with `n` left from the index `i` on. -/
def reduceRed (redLevel : Int) (preanswer : Media) : Nat → Nat → Media
  | 0, _ => preanswer
  | n + 1, i =>
    let fmt := preanswer.fmt.getD i []
    match preanswer.rtpmap fmt with
    | none => reduceRed redLevel preanswer n (i + 1)
    | some r =>
      if kind r.encName ≠ .red then reduceRed redLevel preanswer n (i + 1)
      else
        match parseFmtp preanswer (strtoul fmt), strtoul3 fmt with
        | some params, some pt =>
          if redLevel < (params.length : Int) - 1 then
            { preanswer with
              attr := updateFirst preanswer.attr (Attr.isFor strFmtp pt) fun a =>
                { a with value := cutLevel redLevel 0 a.value } }
          else preanswer
        | _, _ => preanswer

/-- The format is a dynamic payload type of the local line for telephone events. -/
def telephoneEvent (preanswer : Media) (fmt : Str) : Option Rtpmap :=
  if isDigit (fmt.headD 0) = false ∨ strtoul fmt < 96 then none
  else (preanswer.rtpmap fmt).filter fun r => kind r.encName = .telephoneEvent

/-- The telephone events whose clock rate is not one of the selected codecs are removed; where that leaves none of them,
the first one is put back. -/
def filterTelephoneEvents (preanswer : Media) (clockrate : List Nat) (pairs : List (Str × Str)) : List (Str × Str) :=
  let wanted := fun pair : Str × Str =>
    match telephoneEvent preanswer pair.2 with
    | none => true
    | some r => clockrate.contains r.clockRate
  let isTel := fun pair : Str × Str => (telephoneEvent preanswer pair.2).isSome
  let kept := pairs.filter wanted
  if kept.any isTel then kept else kept ++ [(pairs.find? isTel).getD ([], [])]

/-- The formats of the answer are put in the order of the selected ones: `n` steps are left from the index `i` on. There
is no result when the assertion fails. -/
def reorder (selected : List Str) : Nat → Nat → List Str → Option (List Str)
  | 0, _, fmt => some fmt
  | n + 1, i, fmt =>
    match (fmt.drop i).idxOf? (selected.getD i []) with
    | none => none
    | some k =>
      reorder selected n (i + 1) ((fmt.set i (fmt.getD (i + k) [])).set (i + k) (fmt.getD i []))

/-- `rewrite_pt`. -/
def rewritePt (value oldPt newPt : Str) : Str := newPt ++ value.drop oldPt.length

/-- The value of the `fmtp` of a redundancy format, with the payload types of the offer, in a buffer of 32 bytes. -/
def redFmtp (ptOffer : Str) (pairs : List (Str × Str)) (params : List Str) : Str :=
  let newPt := fun param => strtoul ((pairs.find? fun pair => stricmp param pair.2 == 0).elim param Prod.fst)
  let body := [47].intercalate (params.map fun param => decimal (newPt param))
  let text := decimal (strtoul ptOffer) ++ [32] ++ body
  if text.length < 32 then text else text.take 31 ++ [0]

/-- The attributes of the answer, and those that were taken out of it, for one pair of formats. -/
def symmetricPt (answer : Media) (pairs : List (Str × Str)) (attrs : List Attr × List Attr) (pair : Str × Str) :
    List Attr × List Attr :=
  let (ptOffer, ptAnswer) := pair
  if ptAnswer = ptOffer then attrs
  else
    let (left, out) := attrs
    let rtpmap := (attrFind left strRtpmap ptAnswer).map fun a => { a with value := rewritePt a.value ptAnswer ptOffer }
    let left := attrRemove left strRtpmap ptAnswer
    let out := out ++ rtpmap.toList
    let isRed := rtpmap.any fun a => stricmp a.getRtpmap.1.encName (ascii "red") == 0
    let fmtp := (attrFind left strFmtp ptAnswer).map fun a =>
      if isRed then
        match parseFmtp { answer with attr := left } (strtoul ptAnswer) with
        | some params => { a with value := redFmtp ptOffer pairs params }
        | none => a
      else { a with value := rewritePt a.value ptAnswer ptOffer }
    (attrRemove left strFmtp ptAnswer, out ++ fmtp.toList)

/-- `apply_answer_symmetric_pt`. -/
def applyAnswerSymmetricPt (answer : Media) (pairs : List (Str × Str)) : Media :=
  let (left, out) := pairs.foldl (symmetricPt answer pairs) (answer.attr, [])
  { answer with fmt := pairs.map Prod.fst ++ answer.fmt.drop pairs.length, attr := out.foldl attrAdd left }

/-- The answer to an offered line, built from the local line with the selected formats. There is no result when the
assertion fails. -/
def buildAnswer (offer preanswer : Media) (pairs : List (Str × Str)) : Option Media :=
  (reorder (pairs.map Prod.snd) pairs.length 0 preanswer.fmt).map fun fmt =>
    let answer := (fmt.drop pairs.length).foldl Media.forget { preanswer with fmt := fmt }
    let answer := { answer with fmt := fmt.take pairs.length }
    updateMediaDirection offer (applyAnswerSymmetricPt answer pairs)

/-- How `match_offer` ends; the local line comes with its attributes as they are then. -/
inductive MatchOffer
  | answer (m : Media) (preanswer : Media)
  | failed (error : Errno) (preanswer : Media)
  | assertion
  deriving DecidableEq, Repr

/-- `match_offer` for two lines that are enabled. -/
def matchEnabled (fmtMatch : FmtMatch) (ls : Lines) : MatchOffer :=
  match selectFormats fmtMatch ls with
  | .error (error, attr) => .failed error { ls.preanswer with attr := attr }
  | .ok sel =>
    let preanswer := { ls.preanswer with attr := sel.attr }
    if sel.masterHasCodec ∧ sel.foundCodec = false then .failed .noanscodec preanswer
    else if sel.masterHasOther ∧ sel.foundOther = false then .failed .noansunknown preanswer
    else
      let preanswer := if sel.foundRed then reduceRed sel.redLevel preanswer sel.pairs.length 0 else preanswer
      let pairs :=
        if sel.foundTelephoneEvent then filterTelephoneEvents preanswer sel.clockrate sel.pairs else sel.pairs
      match buildAnswer ls.offer preanswer pairs with
      | none => .assertion
      | some answer => .answer answer preanswer

/-- `match_offer`; the connection line is the one of the local session. -/
def matchOffer (fmtMatch : FmtMatch) (ls : Lines) (bundleOnly : Bool) (conn : Option Conn) : MatchOffer :=
  if ls.offer.port = 0 ∧ bundleOnly = false then .answer (cloneDeactivate ls.offer ls.preanswer conn) ls.preanswer
  else if ls.preanswer.port = 0 then .answer ls.preanswer ls.preanswer
  else matchEnabled fmtMatch ls

/-! The lines of the offer. -/

/-- The words of a value, which are separated by blanks. -/
def words : Nat → Str → List Str
  | 0, _ => []
  | n + 1, l =>
    let l := l.dropWhile isBlank
    if l = [] then [] else l.takeWhile (fun c => !isBlank c) :: words n (l.dropWhile fun c => !isBlank c)

/-- `bundle_group_contains_mid`. -/
def bundleGroupContainsMid (attrs : List Attr) (mid : Str) : Bool :=
  attrs.any fun a =>
    stricmp a.name (ascii "group") == 0 &&
      match words a.value.length a.value with
      | [] => false
      | first :: more => stricmp first (ascii "BUNDLE") == 0 && more.contains mid

/-- `is_bundle_only_offer`. -/
def isBundleOnlyOffer (sdp : Session) (m : Media) : Bool :=
  m.port == 0 && hasAttr m.attr (ascii "bundle-only") &&
    match m.attr.find? fun a => a.name == ascii "mid" with
    | none => false
    | some mid => bundleGroupContainsMid sdp.attr mid.value

/-- The protocol of a transport without the flag for RTCP feedback. -/
def profile (transport : Str) : Nat := trimFlag (transportGetProto transport) tpRtcpFb

abbrev LocalLine := Media × Bool

/-- The status of the search for a local line, the answer if there is one, and the local lines afterwards. -/
structure Found where
  status : Option Errno
  answer : Option Media
  lines : List LocalLine
  deriving DecidableEq, Repr

/-- The loop over the local lines for one line of the offer; there is no result when the assertion fails. -/
def findLine (fmtMatch : FmtMatch) (preferRemote multiple bundleOnly : Bool) (conn : Option Conn) (offer : Media) :
    List LocalLine → Option Errno → Option Found
  | [], status => some ⟨status, none, []⟩
  | (m, used) :: more, status =>
    if offer.media = m.media ∧ profile offer.transport = profile m.transport ∧ used = false then
      match matchOffer fmtMatch ⟨preferRemote, multiple, offer, m⟩ bundleOnly conn with
      | .assertion => none
      | .answer answer m => some ⟨status, some answer, (m, true) :: more⟩
      | .failed error m =>
        (findLine fmtMatch preferRemote multiple bundleOnly conn offer more (some error)).map fun found =>
          { found with lines := (m, used) :: found.lines }
    else
      (findLine fmtMatch preferRemote multiple bundleOnly conn offer more status).map fun found =>
        { found with lines := (m, used) :: found.lines }

/-- The loop of `create_answer` over the lines of the offer: the status and the lines of the answer. -/
def answerLines (fmtMatch : FmtMatch) (preferRemote multiple : Bool) (conn : Option Conn) (sdp : Session) :
    List Media → List LocalLine → Option Errno → Option (Option Errno × List Media)
  | [], _, status => some (status, [])
  | offer :: more, lines, status => do
    let found ← findLine fmtMatch preferRemote multiple (isBundleOnlyOffer sdp offer) conn offer lines status
    let (status, answers) ← answerLines fmtMatch preferRemote multiple conn sdp more found.lines found.status
    some (status, found.answer.getD (cloneDeactivate offer offer conn) :: answers)

/-- How `create_answer` ends. -/
inductive CreateAnswer
  | ok (answer : Session)
  | failed (status : Option Errno)
  | assertion
  deriving DecidableEq, Repr

/-- `create_answer`; without an active line the status is the one of the last line that failed to match. -/
def createAnswer (fmtMatch : FmtMatch) (preferRemote multiple : Bool) (initial offer : Session) : CreateAnswer :=
  match validate2 false offer with
  | some error => .failed (some error)
  | none =>
    match answerLines fmtMatch preferRemote multiple initial.conn offer offer.media (initial.media.map (·, false)) none with
    | none => .assertion
    | some (status, answers) =>
      if (answers.any fun m => m.port ≠ 0) ∨ status = none then .ok { initial with media := answers }
      else .failed status

end PjProject.SdpNeg
