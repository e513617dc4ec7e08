import PjProject.SdpNegOffer
import Mathlib.Logic.Function.Basic

/-! The mapping of the dynamic payload types of a media line (`assign_pt_and_update_map` of `sdp_neg.c`). The two tables
of a line go from a payload type to the index of a codec and from the index to a payload type. -/

namespace PjProject.SdpNeg

open Sdp
open Sock (isDigit strtoul decimal)
open Xml (stricmp)

/-- The codecs with a dynamic payload type, in the order of their names. There are none for video where it is not
supported. -/
structure Codecs where
  aud : List Str
  vid : Option (List Str)
  deriving DecidableEq, Repr

def txtDynCodecs : List Str := [ascii "red", ascii "t140"]

def Codecs.forMedia (codecs : Codecs) (media : Str) : Option (List Str) :=
  if stricmp media (ascii "audio") = 0 then some codecs.aud
  else if stricmp media (ascii "video") = 0 then codecs.vid
  else if stricmp media (ascii "text") = 0 then some txtDynCodecs
  else none

/-- The loop of `pjmedia_codec_mgr_find_codec` from `start` to the index before `stop`. -/
def findCodecFrom (dynCodecs : List Str) (codec : Str) : Nat → Nat → Nat → Option Nat
  | 0, _, _ => none
  | n + 1, start, stop =>
    if start < stop then
      let mid := start + (stop - 1 - start) / 2
      let cmp := stricmp (dynCodecs.getD mid []) codec
      if cmp = 0 then some mid
      else if cmp < 0 then findCodecFrom dynCodecs codec n (mid + 1) stop
      else findCodecFrom dynCodecs codec n start mid
    else none

/-- `pjmedia_codec_mgr_find_codec`. -/
def findCodec (dynCodecs : List Str) (codec : Str) : Option Nat :=
  findCodecFrom dynCodecs codec dynCodecs.length 0 dynCodecs.length

/-- `UNKNOWN_CODEC`. -/
def unknownCodec : Nat := 99

/-- `is_dynamic_pt`. -/
def isDynamicPt (pt : Nat) : Bool := 96 ≤ pt && pt < 128

/-- `pjmedia_codec_info_to_id`, in a buffer of 32 bytes. -/
def codecInfoToId (r : Rtpmap) : Str :=
  let channels := if r.param = [] then 1 else strtoul r.param
  let id := r.encName ++ [47] ++ decimal r.clockRate ++ [47] ++ decimal channels
  if id.length < 32 then id else []

/-- The name by which the codec of an `rtpmap` is looked up. -/
def codecName (media : Str) (r : Rtpmap) : Str :=
  if stricmp media (ascii "audio") = 0 then codecInfoToId r else r.encName

/-- A dynamic payload type, the name of its codec and the index of the codec. -/
structure Mapping where
  pt : Nat
  codec : Str
  idx : Nat
  deriving DecidableEq, Repr

/-- What an attribute maps, if it is an `rtpmap` for a dynamic payload type. -/
def mappingOf (dynCodecs : List Str) (media : Str) (a : Attr) : Option Mapping :=
  if a.name = strRtpmap ∧ a.getRtpmap.2 ∧ isDynamicPt (strtoul a.getRtpmap.1.pt) then
    let codec := codecName media a.getRtpmap.1
    some ⟨strtoul a.getRtpmap.1.pt, codec, (findCodec dynCodecs codec).getD unknownCodec⟩
  else none

/-- The two tables of a media line. -/
structure PtMap where
  ptToCodec : Nat → Option Nat
  codecToPt : Nat → Option Nat

def PtMap.empty : PtMap := ⟨fun _ => none, fun _ => none⟩

/-- The payload type is mapped to the codec. The payload type of an unknown codec is not kept. -/
def PtMap.set (map : PtMap) (pt idx : Nat) : PtMap :=
  ⟨Function.update map.ptToCodec pt (some idx),
    if idx = unknownCodec then map.codecToPt else Function.update map.codecToPt idx (some pt)⟩

/-- The payload types in the order in which they are tried for a codec. -/
def ptOrder (codec : Str) : List Nat :=
  let start := if stricmp (codec.take 15) (ascii "telephone-event") = 0 then 24 else 0
  ((List.range 32).drop start ++ (List.range 32).take start).map (96 + ·)

/-- `find_new_pt`: one that has been mapped to the codec, then one that has never been mapped, then any one that is
unused. There is no result when the assertion fails. -/
def findNewPt (map : PtMap) (used : List Nat) (codec : Str) (idx : Nat) : Option Nat :=
  let unused := (ptOrder codec).filter fun pt => !used.contains pt
  ((unused.find? fun pt => map.ptToCodec pt == some idx).or
    (unused.find? fun pt => (map.ptToCodec pt).isNone)).or unused.head?

/-- What is kept while the attributes of a line are visited: the tables, the payload types that are used, and the new
payload type for each old one. -/
structure Assign where
  map : PtMap
  used : List Nat
  change : Nat → Option Nat

/-- The payload type for a codec: whether the number is mapped to another codec or used decides whether a new one is
needed, and the number that the codec was mapped to comes first. -/
def choosePt (isOffer : Bool) (st : Assign) (m : Mapping) : Option Nat :=
  let mapped := st.map.ptToCodec m.pt
  let needNewPt := (mapped.isSome && mapped != some m.idx) || st.used.contains m.pt
  let codecToPt := if m.idx = unknownCodec then none else st.map.codecToPt m.idx
  match codecToPt.filter fun pt => !st.used.contains pt && (needNewPt || isOffer) with
  | some pt => some pt
  | none => if needNewPt then findNewPt st.map st.used m.codec m.idx else some m.pt

/-- `rewrite_pt2`. -/
def rewritePt2 (value : Str) (pt newPt : Nat) : Str := decimal newPt ++ value.drop (if 100 ≤ pt then 3 else 2)

def assignAttr (dynCodecs : List Str) (media : Str) (isOffer : Bool) (st : Assign) (a : Attr) : Option (Assign × Attr) :=
  match mappingOf dynCodecs media a with
  | none => some (st, a)
  | some m =>
    (choosePt isOffer st m).map fun newPt =>
      (⟨st.map.set newPt m.idx, newPt :: st.used, Function.update st.change m.pt (some newPt)⟩,
        if newPt = m.pt then a else { a with value := rewritePt2 a.value m.pt newPt })

def assignAttrs (dynCodecs : List Str) (media : Str) (isOffer : Bool) :
    Assign → List Attr → Option (Assign × List Attr)
  | st, [] => some (st, [])
  | st, a :: more => do
    let (st, a) ← assignAttr dynCodecs media isOffer st a
    let (st, more) ← assignAttrs dynCodecs media isOffer st more
    some (st, a :: more)

/-- The number that a payload type has become. -/
def newPtOf (change : Nat → Option Nat) (pt : Nat) : Nat := if isDynamicPt pt then (change pt).getD pt else pt

/-- The value of the `fmtp` of a redundancy format with the new payload types, in a buffer of 32 bytes. -/
def redFmtpValue (change : Nat → Option Nat) (a : Attr) (pt : Nat) (refs : List Str) : Str :=
  let refPts := refs.map strtoul
  let text := decimal (newPtOf change pt) ++ [32] ++ [47].intercalate (refPts.map fun r => decimal (newPtOf change r))
  if text.length < 32 ∧ (newPtOf change pt ≠ pt ∨ ∃ r ∈ refPts, newPtOf change r ≠ r) then text else a.value

/-- One `fmtp` attribute among all attributes of the line. -/
def modifyFmtp (change : Nat → Option Nat) (attrs : List Attr) (a : Attr) : Attr :=
  match getFmtpParam a.value with
  | none => a
  | some param =>
    let pt := strtoul (a.value.takeWhile isDigit)
    if a.name ≠ strFmtp ∨ isDynamicPt pt = false then a
    else
      let isRed := (attrFind attrs strRtpmap (decimal (newPtOf change pt))).any fun r =>
        r.getRtpmap.2 && stricmp r.getRtpmap.1.encName (ascii "red") == 0
      let refs := (parseFmtpData (param.length + 1) param).take maxFmtpCnt
      if isRed ∧ refs ≠ [] then { a with value := redFmtpValue change a pt refs }
      else if newPtOf change pt = pt then a
      else { a with value := rewritePt2 a.value pt (newPtOf change pt) }

/-- One format of the line. -/
def modifyFmt (change : Nat → Option Nat) (fmt : Str) : Str :=
  let pt := strtoul fmt
  if newPtOf change pt = pt then fmt else rewritePt2 fmt pt (newPtOf change pt)

/-- The payload types of one line are assigned, and the tables are updated. -/
def assignMedia (codecs : Codecs) (isOffer : Bool) (map : PtMap) (m : Media) : Option (PtMap × Media) :=
  if m.port = 0 then some (.empty, m)
  else
    match codecs.forMedia m.media with
    | none => some (map, m)
    | some dynCodecs =>
      (assignAttrs dynCodecs m.media isOffer ⟨map, [], fun _ => none⟩ m.attr).map fun (st, attrs) =>
        (st.map, { m with attr := attrs.map (modifyFmtp st.change attrs), fmt := m.fmt.map (modifyFmt st.change) })

/-- The tables of one line are only updated. -/
def noteMedia (codecs : Codecs) (map : PtMap) (m : Media) : PtMap :=
  if m.port = 0 then .empty
  else
    match codecs.forMedia m.media with
    | none => map
    | some dynCodecs =>
      (m.attr.filterMap (mappingOf dynCodecs m.media)).foldl (fun map mapping => map.set mapping.pt mapping.idx) map

/-- The loop of `assign_pt_and_update_map` over the lines, from the line `i` on. -/
def assignPtAndUpdateMap (codecs : Codecs) (isOffer : Bool) :
    Nat → (Nat → PtMap) → List Media → Option ((Nat → PtMap) × List Media)
  | _, maps, [] => some (maps, [])
  | i, maps, m :: more => do
    let (map, m) ← assignMedia codecs isOffer (maps i) m
    let (maps, more) ← assignPtAndUpdateMap codecs isOffer (i + 1) (Function.update maps i map) more
    some (maps, m :: more)

/-- `assign_pt_and_update_map` with `update_only`. -/
def noteSession (codecs : Codecs) : Nat → (Nat → PtMap) → List Media → (Nat → PtMap)
  | _, maps, [] => maps
  | i, maps, m :: more => noteSession codecs (i + 1) (Function.update maps i (noteMedia codecs (maps i) m)) more

end PjProject.SdpNeg
