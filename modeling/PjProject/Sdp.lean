import PjProject.Sockaddr
import PjProject.Xml

/-! Session descriptions (`sdp.c`): the attributes and the media lines that the negotiator works on. Strings are byte
lists, and an array with its count is a list. A clone is the same description: the multicast fields of a connection line,
which `pjmedia_sdp_conn_clone` leaves unset, are not read by what works on clones. -/

namespace PjProject.Sdp

open Sock (isDigit strtoul)
open Xml (stricmp)

/-- `pj_str_t`. -/
abbrev Str := List UInt8

/-- `pjmedia_sdp_attr`. -/
structure Attr where
  name : Str
  value : Str
  deriving DecidableEq, Repr

/-- `pjmedia_sdp_conn`. -/
structure Conn where
  netType : Str
  addrType : Str
  addr : Str
  ttl : Nat
  noAddr : Nat
  deriving DecidableEq, Repr

/-- `pjmedia_sdp_bandw`. -/
structure Bandw where
  modifier : Str
  value : Nat
  deriving DecidableEq, Repr

/-- `pjmedia_sdp_media`. -/
structure Media where
  media : Str
  port : Nat
  portCount : Nat
  transport : Str
  fmt : List Str
  conn : Option Conn
  bandw : List Bandw
  attr : List Attr
  deriving DecidableEq, Repr

structure Origin where
  user : Str
  id : Nat
  version : Nat
  netType : Str
  addrType : Str
  addr : Str
  deriving DecidableEq, Repr

/-- `pjmedia_sdp_session`. -/
structure Session where
  origin : Origin
  name : Str
  conn : Option Conn
  bandw : List Bandw
  start : Nat
  stop : Nat
  attr : List Attr
  media : List Media
  deriving DecidableEq, Repr

/-- The errors of `sdp.c` and `sdp_neg.c`. -/
inductive Errno
  | einval
  | ebug
  | etoomany
  | einorigin
  | einname
  | einconn
  | einmedia
  | enofmt
  | emissingconn
  | einpt
  | emissingrtpmap
  | etportnotequal
  | einstate
  | enoactive
  | enoinitial
  | einvansmedia
  | einvanstp
  | eansnomedia
  | enomedia
  | noanscodec
  | noansunknown
  | einsdp
  | einver
  | eintime
  | einbandw
  | einattr
  deriving DecidableEq, Repr

/-- `PJMEDIA_MAX_SDP_FMT`, `PJMEDIA_MAX_SDP_ATTR` and `PJMEDIA_MAX_SDP_MEDIA`. -/
def maxSdpFmt : Nat := 32
def maxSdpAttr : Nat := maxSdpFmt * 2 + 4
def maxSdpMedia : Nat := 16

/-! Numbers and tokens. -/

/-- `pj_isspace`. -/
def isspace (c : UInt8) : Bool := c == 32 || (9 ≤ c && c ≤ 13)

def number (digits : Str) : Nat := digits.foldl (fun value c => value * 10 + (c.toNat - 48)) 0

/-- `pj_strtoul3` and `pj_strtoul4` in base 10, for a type of numbers below the limit. -/
def strtoulBelow (limit : Nat) (str : Str) : Option Nat :=
  let s := str.dropWhile isspace
  if isDigit (s.headD 0) ∧ number (s.takeWhile isDigit) < limit then some (number (s.takeWhile isDigit)) else none

def strtoul3 (str : Str) : Option Nat := strtoulBelow 4294967296 str

/-- `TOKEN` with the letters and the digits. -/
def csToken (c : UInt8) : Bool :=
  (48 ≤ c && c ≤ 57) || (65 ≤ c && c ≤ 90) || (97 ≤ c && c ≤ 122) || (ascii "!#$%&'*+-.^_`\x7b|\x7d~").contains c

/-- `pj_scan_get` with `PJ_SCAN_AUTOSKIP_WS`, on the input that is left. -/
def scanGet (spec : UInt8 → Bool) (l : Str) : Option (Str × Str) :=
  if spec (l.headD 0) ∧ l ≠ [] then some (l.takeWhile spec, (l.dropWhile spec).dropWhile Scan.isSpace) else none

/-- `pj_scan_get_char` for an expected character. -/
def scanChar (c : UInt8) : Str → Option Str
  | [] => none
  | d :: l => if d = c then some (l.dropWhile Scan.isSpace) else none

/-! Attributes. -/

/-- `pjmedia_sdp_rtpmap`. -/
structure Rtpmap where
  pt : Str
  encName : Str
  clockRate : Nat
  param : Str
  deriving DecidableEq, Repr

/-- `pjmedia_sdp_attr_get_rtpmap` for a value that is not empty: what it has filled in, and whether it succeeds. -/
def Attr.getRtpmap (a : Attr) : Rtpmap × Bool :=
  match scanGet csToken (a.value.dropWhile Scan.isSpace) with
  | none => (⟨[], [], 0, []⟩, false)
  | some (pt, l) =>
    match scanGet csToken l with
    | none => (⟨pt, [], 0, []⟩, false)
    | some (encName, l) =>
      match scanChar 47 l with
      | none => (⟨pt, encName, 0, []⟩, false)
      | some l =>
        match scanGet isDigit l with
        | none => (⟨pt, encName, 0, []⟩, false)
        | some (token, l) =>
          match strtoul3 token with
          | none => (⟨pt, encName, 0, []⟩, false)
          | some clockRate =>
            match scanChar 47 l with
            | none => (⟨pt, encName, clockRate, []⟩, true)
            | some l =>
              match scanGet csToken l with
              | none => (⟨pt, encName, clockRate, []⟩, false)
              | some (param, _) => (⟨pt, encName, clockRate, param⟩, true)

/-- The attribute has the name, and its value starts with the payload type. -/
def Attr.isFor (name : Str) (pt : Nat) (a : Attr) : Bool :=
  a.name == name && isDigit (a.value.headD 0) && strtoul a.value == pt

/-- `pjmedia_sdp_attr_find` for a payload type. -/
def attrFind (attrs : List Attr) (name fmt : Str) : Option Attr :=
  (strtoul3 fmt).bind fun pt => attrs.find? (Attr.isFor name pt)

def hasAttr (attrs : List Attr) (name : Str) : Bool := attrs.any fun a => a.name == name

/-- `pjmedia_sdp_media_find_attr2` and then `pjmedia_sdp_media_remove_attr`. -/
def attrRemove (attrs : List Attr) (name fmt : Str) : List Attr :=
  match strtoul3 fmt with
  | none => attrs
  | some pt => attrs.eraseP (Attr.isFor name pt)

/-- `pjmedia_sdp_attr_add`; an attribute too many is ignored. -/
def attrAdd (attrs : List Attr) (a : Attr) : List Attr := if attrs.length < maxSdpAttr then attrs ++ [a] else attrs

def strRtpmap : Str := ascii "rtpmap"
def strFmtp : Str := ascii "fmtp"

/-- The `rtpmap` of a format. -/
def Media.rtpmap (m : Media) (fmt : Str) : Option Rtpmap := (attrFind m.attr strRtpmap fmt).map fun a => a.getRtpmap.1

/-- The `rtpmap` and the `fmtp` of a format are removed. -/
def Media.forget (m : Media) (fmt : Str) : Media :=
  { m with attr := attrRemove (attrRemove m.attr strRtpmap fmt) strFmtp fmt }

/-! Transports. -/

/-- The flags of `pjmedia_tp_proto`. -/
def tpUnknown : Nat := 1
def tpUdp : Nat := 2
def tpRtp : Nat := 4
def tpDtls : Nat := 8
def tpRtcpFb : Nat := 8192
def tpSrtp : Nat := 16384
def tpAvp : Nat := 32768
def tpRtpAvp : Nat := tpRtp ||| tpAvp
def tpRtpSavp : Nat := tpRtpAvp ||| tpSrtp
def tpDtlsSrtp : Nat := tpDtls ||| tpRtpSavp

/-- `PJMEDIA_TP_PROTO_HAS_FLAG` and `PJMEDIA_TP_PROTO_TRIM_FLAG`. -/
def hasFlag (proto flags : Nat) : Bool := proto &&& flags == flags
def trimFlag (proto flags : Nat) : Nat := proto &&& (4294967295 ^^^ flags)

/-- `pj_strtok2` with `/` from the start: the index of the token, and the token. -/
def strtokSlash (str : Str) : Nat × Str :=
  let tok := str.dropWhile (· == 47)
  if tok = [] then (str.length, str) else (str.length - tok.length, tok.takeWhile (· != 47))

/-- `pjmedia_sdp_transport_get_proto`. -/
def transportGetProto (tp : Str) : Nat :=
  let (idx, token) := strtokSlash tp
  let rest := if idx ≠ tp.length ∧ tp.length ≠ token.length then tp.drop (token.length + 1) else []
  if stricmp token (ascii "RTP") = 0 then
    if stricmp rest (ascii "AVP") = 0 then tpRtpAvp
    else if stricmp rest (ascii "SAVP") = 0 then tpRtpSavp
    else if stricmp rest (ascii "AVPF") = 0 then tpRtpAvp ||| tpRtcpFb
    else if stricmp rest (ascii "SAVPF") = 0 then tpRtpSavp ||| tpRtcpFb
    else tpUnknown
  else if stricmp token (ascii "UDP") = 0 then
    if rest = [] then tpUdp
    else if stricmp rest (ascii "TLS/RTP/SAVP") = 0 then tpDtlsSrtp
    else if stricmp rest (ascii "TLS/RTP/SAVPF") = 0 then tpDtlsSrtp ||| tpRtcpFb
    else tpUnknown
  else tpUnknown

/-- `pjmedia_sdp_transport_cmp`, which is `true` for `PJ_SUCCESS`. -/
def transportCmp (t1 t2 : Str) : Bool :=
  stricmp t1 t2 == 0 || (hasFlag (transportGetProto t1) tpRtpAvp && hasFlag (transportGetProto t2) tpRtpAvp)

/-! Media lines. -/

/-- `pjmedia_sdp_media_deactivate`. -/
def Media.deactivate (m : Media) : Media := { m with port := 0, attr := [] }

/-- `sdp_media_clone_deactivate` of `sdp_neg.c`; `sessConn` is the connection line of the local session. -/
def cloneDeactivate (remMed : Media) (localMed : Media) (sessConn : Option Conn) : Media :=
  let res := remMed.deactivate
  if res.conn = none ∧ sessConn = none then
    { res with conn := some (localMed.conn.getD ⟨ascii "IN", ascii "IP4", ascii "127.0.0.1", 0, 0⟩) }
  else res

/-- A disabled line of the same type. -/
theorem cloneDeactivate_spec (remMed localMed : Media) (conn : Option Conn) :
    (cloneDeactivate remMed localMed conn).port = 0 ∧ (cloneDeactivate remMed localMed conn).media = remMed.media := by
  unfold cloneDeactivate
  dsimp only
  split
  · exact ⟨rfl, rfl⟩
  · exact ⟨rfl, rfl⟩

/-- `pjmedia_dir`. -/
inductive Dir
  | none
  | encoding
  | decoding
  | encodingDecoding
  deriving DecidableEq, Repr

def strInactive : Str := ascii "inactive"
def strSendonly : Str := ascii "sendonly"
def strRecvonly : Str := ascii "recvonly"
def strSendrecv : Str := ascii "sendrecv"

def isDirection (name : Str) : Bool :=
  name == strInactive || name == strSendrecv || name == strSendonly || name == strRecvonly

def Media.dir (m : Media) : Dir :=
  if hasAttr m.attr strSendonly then .encoding
  else if hasAttr m.attr strRecvonly then .decoding
  else if hasAttr m.attr strInactive then .none
  else .encodingDecoding

/-- The direction of the local line when the one of the remote line is known. -/
def newDir (remote : Media) (oldDir : Dir) : Dir :=
  if hasAttr remote.attr strInactive then .none
  else if hasAttr remote.attr strSendonly then
    match oldDir with
    | .encodingDecoding | .decoding => .decoding
    | _ => .none
  else if hasAttr remote.attr strRecvonly then
    match oldDir with
    | .encodingDecoding | .encoding => .encoding
    | _ => .none
  else oldDir

/-- `update_media_direction`. -/
def updateMediaDirection (remote lcl : Media) : Media :=
  let dir := newDir remote lcl.dir
  if dir = lcl.dir then lcl
  else
    let attrs := lcl.attr.filter fun a => !isDirection a.name
    { lcl with
      attr :=
        match dir with
        | .none => attrAdd attrs ⟨strInactive, []⟩
        | .encoding => attrAdd attrs ⟨strSendonly, []⟩
        | .decoding => attrAdd attrs ⟨strRecvonly, []⟩
        | .encodingDecoding => attrs }

theorem updateMediaDirection_eq (remote lcl : Media) :
    ∃ attrs, updateMediaDirection remote lcl = { lcl with attr := attrs } := by
  unfold updateMediaDirection
  dsimp only
  split
  · exact ⟨lcl.attr, rfl⟩
  · exact ⟨_, rfl⟩

/-! Validation. -/

/-- `validate_sdp_conn`. -/
def validateConn (c : Conn) : Option Errno :=
  if c.netType ≠ ascii "IN" then some .einconn
  else if c.addrType ≠ ascii "IP4" ∧ c.addrType ≠ ascii "IP6" then some .einconn
  else if c.addr = [] then some .einconn
  else none

/-- The check of one payload type. -/
def validateFmt (m : Media) (fmt : Str) : Option Errno :=
  if isDigit (fmt.headD 0) then
    match strtoul3 fmt with
    | none => some .einpt
    | some pt =>
      if 127 < pt then some .einpt
      else if m.port ≠ 0 ∧ 96 ≤ pt ∧ attrFind m.attr strRtpmap fmt = none then some .emissingrtpmap
      else none
  else none

def validateMedia (strict : Bool) (sessConn : Option Conn) (m : Media) : Option Errno :=
  if m.media = [] ∨ m.transport = [] then some .einmedia
  else if m.fmt = [] ∧ m.port ≠ 0 then some .enofmt
  else
    (m.conn.bind validateConn).or <|
      if m.conn = none ∧ sessConn = none ∧ (strict ∨ m.port ≠ 0) then some .emissingconn
      else m.fmt.findSome? (validateFmt m)

/-- `pjmedia_sdp_validate2`; there is no result for `PJ_SUCCESS`. -/
def validate2 (strict : Bool) (sdp : Session) : Option Errno :=
  if sdp.origin.user = [] ∨ sdp.origin.netType ≠ ascii "IN" ∨
      (sdp.origin.addrType ≠ ascii "IP4" ∧ sdp.origin.addrType ≠ ascii "IP6") ∨ sdp.origin.addr = [] then some .einorigin
  else if sdp.name = [] then some .einname
  else (sdp.conn.bind validateConn).or (sdp.media.findSome? (validateMedia strict sdp.conn))

def validate (sdp : Session) : Option Errno := validate2 true sdp

end PjProject.Sdp
