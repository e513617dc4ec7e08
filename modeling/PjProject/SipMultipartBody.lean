import PjProject.SipMultipartRoundTrip

/-! A multipart body that `pjsip_multipart_create` made, printed and parsed. The text that `multipart_print_body` prints is the
one that the loop of the parser takes apart. -/

namespace PjProject.Multipart

open Sip (Bytes skipHeader skipLine findHandler skipHeader_cons)
open SipUriCmp (Param paramFind stricmp_eq_zero_iff)
open TsxKey (tokenSpec)
open MsgPrint (Str Media Printer PartHdr Body Parts State start run total crlf delimiter partLines ended addsType ctypeHdr
  clenLine printMediaType printTextBody printBody Complete prints_parts prints_checked)

/-! The boundary. -/

/-- The value of the `boundary` parameter is set. -/
def setBoundary (boundary : Bytes) : List Param → List Param
  | [] => [⟨ascii "boundary", boundary⟩]
  | p :: more => if Xml.stricmp p.name (ascii "boundary") = 0 then ⟨p.name, boundary⟩ :: more else p :: setBoundary boundary more

/-- The content type in `pjsip_multipart_create`. -/
def createCtype (ctype : MediaType) (boundary : Bytes) : MediaType :=
  let ctype := if ctype.type ≠ [] then ctype else ⟨ascii "multipart", ascii "mixed", []⟩
  { ctype with param := setBoundary boundary ctype.param }

theorem paramFind_setBoundary (boundary : Bytes) (param : List Param) :
    ∃ p, paramFind (setBoundary boundary param) (ascii "boundary") = some p ∧ p.value = boundary := by
  induction param with
  | nil => exact ⟨_, List.find?_cons_of_pos (decide_eq_true (stricmp_eq_zero_iff.mpr rfl)), rfl⟩
  | cons q more ih =>
    rw [setBoundary]
    split_ifs with hname
    · exact ⟨_, List.find?_cons_of_pos (decide_eq_true hname), rfl⟩
    · obtain ⟨p, hfind, hvalue⟩ := ih
      refine ⟨p, ?_, hvalue⟩
      rw [paramFind, List.find?_cons_of_neg (by simpa using hname)]
      exact hfind

/-- A boundary that begins with a quote has to be a short one. -/
def Plain (boundary : Bytes) : Prop := ¬(2 < boundary.length ∧ boundary.headD 0 = 34)

theorem givenBoundary_createCtype (ctype : MediaType) {boundary : Bytes} (h : Plain boundary) :
    givenBoundary (createCtype ctype boundary) = boundary := by
  rw [createCtype]
  generalize (if ctype.type ≠ [] then ctype else ⟨ascii "multipart", ascii "mixed", []⟩) = media
  obtain ⟨p, hfind, hvalue⟩ := paramFind_setBoundary boundary media.param
  rw [givenBoundary, hfind]
  dsimp only
  rw [hvalue]
  exact if_neg h

/-- The boundary is found, in the body where it is empty. -/
theorem findBoundary_createCtype (ctype : MediaType) {boundary : Bytes} (h : Plain boundary) {buf back : Bytes}
    (hbuf : buf = crlf ++ (45 :: 45 :: boundary ++ (crlf ++ back))) :
    findBoundary (createCtype ctype boundary) buf = some (some boundary) := by
  rw [findBoundary, givenBoundary_createCtype ctype h]
  by_cases hne : boundary ≠ []
  · exact if_pos hne
  · obtain rfl := not_not.mp hne
    have hfirst : buf = [] ++ (crlf ++ 45 :: (45 :: (crlf ++ back))) := hbuf
    have hsecond : buf = [13, 10, 45] ++ 45 :: (crlf ++ back) := hbuf
    have hbefore : buf = [13] ++ 10 :: (45 :: 45 :: (crlf ++ back)) := hbuf
    have hend : buf = [13, 10, 45, 45] ++ ([] ++ 13 :: (10 :: back)) := hbuf
    have hlength : 4 < buf.length := by
      rw [hend]
      simp
    have hskip : skipTo buf (· == 45) buf.length (buf.length + 1) 0 = some 2 :=
      skipTo_at _ hfirst (List.forall_mem_cons.mpr ⟨rfl, List.forall_mem_singleton.mpr rfl⟩) rfl _ _ (show 2 < buf.length by omega) (show 2 < buf.length + 1 by omega)
    have hspace : skipTo buf Sdp.isspace buf.length (buf.length + 1) 4 = some 4 :=
      skipTo_at _ hend (by simp) rfl _ _ (show 4 < buf.length by omega) (Nat.succ_pos _)
    have hdashes : findDashes buf (buf.length + 1) 0 = some 4 := by
      have hdash : isAt buf (2 + 1 < buf.length) (2 + 1) 45 = some true :=
        isAt_at hsecond rfl (decide_eq_true (show 3 < buf.length by omega)) 45
      have hlf : isAt buf (true && decide (0 < 2)) (2 - 1) 10 = some true := isAt_at hbefore rfl rfl 10
      rw [findDashes, hskip, Option.bind_some, if_neg (by omega), hdash, Option.bind_some, hlf, Option.bind_some]
      rfl
    have hnothing : between buf 4 4 = some [] := between_at hend rfl rfl
    rw [if_neg hne, hdashes, Option.bind_some, if_neg (by omega), hspace, Option.bind_some, hnothing]
    rfl

/-! The text. -/

theorem mem_delimiter {boundary : Bytes} (h : ∀ c ∈ boundary, Sdp.isspace c = false) {c : UInt8} (hc : Sdp.isspace c = true)
    (hdash : c ≠ 45) : c ∉ 45 :: 45 :: boundary := by
  rw [List.mem_cons, List.mem_cons]
  rintro (heq | heq | hmem)
  · exact hdash heq
  · exact hdash heq
  · exact Bool.noConfusion (hc.symm.trans (h c hmem))

theorem length_pieces (delim : Bytes) (pieces : List (List Bytes × Bytes)) :
    pieces.length ≤ (pieces.flatMap (pieceText delim)).length := by
  induction pieces with
  | nil => exact Nat.le_refl 0
  | cons piece pieces ih =>
    rw [List.flatMap_cons, List.length_append, List.length_cons, pieceText, List.length_append]
    have : crlf.length = 2 := rfl
    omega

theorem multipartParse_pieces {handlers : Handlers} (ctype : MediaType) {boundary : Bytes}
    (hspace : ∀ c ∈ boundary, Sdp.isspace c = false) (hplain : Plain boundary) {pieces : List (List Bytes × Bytes)}
    (hne : pieces ≠ []) {parts : List Part}
    (h : List.Forall₂ (Gives handlers (createCtype ctype boundary) (45 :: 45 :: boundary)) pieces parts) :
    multipartParse handlers (createCtype ctype boundary)
        (pieces.flatMap (pieceText (45 :: 45 :: boundary)) ++ closing (45 :: 45 :: boundary)) = some (some parts) := by
  generalize hbuf : pieces.flatMap (pieceText (45 :: 45 :: boundary)) ++ closing (45 :: 45 :: boundary) = buf
  obtain ⟨back, hback⟩ : ∃ back, buf = crlf ++ (45 :: 45 :: boundary ++ (crlf ++ back)) := by
    obtain ⟨piece, pieces, rfl⟩ := List.exists_cons_of_ne_nil hne
    rw [← hbuf, List.flatMap_cons, pieceText]
    simp only [List.append_assoc]
    exact ⟨_, rfl⟩
  have hcons : buf ≠ [] := by
    rw [hback]
    exact List.cons_ne_nil _ _
  have hcr : (13 : UInt8) ∉ 45 :: 45 :: boundary := mem_delimiter hspace rfl (by decide)
  have hlf : (10 : UInt8) ∉ 45 :: 45 :: boundary := mem_delimiter hspace rfl (by decide)
  have hfirst : search buf (45 :: 45 :: boundary) 0 = some (some 2) := by
    have hno : ¬45 :: 45 :: boundary <:+: [13] ++ [10] := fun hin =>
      absurd (hin.subset List.mem_cons_self) (by decide)
    have hpos : buf = [] ++ ([13] ++ 10 :: (45 :: 45 :: boundary ++ (crlf ++ back))) := hback
    exact search_at hpos hlf hno
  have hturns : pieces.length < buf.length + 1 := by
    have hle := length_pieces (45 :: 45 :: boundary) pieces
    rw [← hbuf, List.length_append]
    omega
  rw [multipartParse, if_neg hcons, findBoundary_createCtype ctype hplain hback, Option.bind_some]
  dsimp only
  rw [hfirst, Option.bind_some]
  have hpos : buf = [] ++ (pieces.flatMap (pieceText (45 :: 45 :: boundary)) ++ closing (45 :: 45 :: boundary)) := hbuf.symm
  exact partLoop_pieces (List.cons_ne_nil _ _) hcr hlf h hpos hturns

/-! The body. -/

def partsOf : Parts → List (List PartHdr × Option Body)
  | .nil => []
  | .bare hdr more => (hdr, none) :: partsOf more
  | .cons hdr body more => (hdr, some body) :: partsOf more

def piece (compact : Bool) : List PartHdr × Option Body → List Bytes × Bytes
  | (hdr, none) => (hdr.map (·.printer.text), [])
  | (hdr, some body) => (partLines compact hdr body.contentType (body.printed compact).length, body.printed compact)

theorem printed_parts (compact : Bool) (boundary : Str) (parts : Parts) :
    parts.printed compact boundary =
      ((partsOf parts).map (piece compact)).flatMap (pieceText (45 :: 45 :: boundary)) := by
  cases parts with
  | nil => rfl
  | bare hdr more =>
    rw [Parts.printed, printed_parts compact boundary more, partsOf, List.map_cons, List.flatMap_cons, pieceText, partText,
      piece, delimiter]
    simp only [List.append_assoc, List.nil_append]
  | cons hdr body more =>
    rw [Parts.printed, printed_parts compact boundary more, partsOf, List.map_cons, List.flatMap_cons, pieceText, partText,
      piece, delimiter]
    simp only [List.append_assoc]

theorem printBody_out {compact : Bool} {contentType : Media} {boundary : Str} {parts : Parts} {size n : Nat} {st : State}
    (h : printBody compact (.multipart contentType boundary parts) size = (some n, st))
    (hall : n = total ((Body.multipart contentType boundary parts).steps compact)) :
    partsOf parts ≠ [] ∧ st.out = parts.printed compact boundary ++ closing (45 :: 45 :: boundary) := by
  have hcomplete : Complete size ((Body.multipart contentType boundary parts).steps compact ++ []) start n st := by
    rw [List.append_nil]
    exact ⟨h, by rw [hall]; exact (Nat.zero_add _).symm⟩
  obtain ⟨next, hout, -, hlast⟩ := MsgPrint.prints_body compact (.multipart contentType boundary parts) [] start n st hcomplete
  obtain rfl : next = st := (Prod.mk.inj hlast.1).2
  refine ⟨?_, ?_⟩
  · cases parts with
    | nil => cases h
    | bare hdr more => exact List.cons_ne_nil _ _
    | cons hdr body more => exact List.cons_ne_nil _ _
  · rw [hout, Body.printed, closing, delimiter, List.append_assoc crlf]
    rfl

/-! What comes back. -/

structure SameType (media : Media) (found : MediaType) : Prop where
  type : found.type = media.type
  subtype : found.subtype = media.subtype
  params : media.params.text = found.param.flatMap paramText

theorem SameType.text {media : Media} {found : MediaType} (h : SameType media found) :
    (printMediaType media).text = mediaText found := by
  rw [mediaText, h.type, h.subtype, ← h.params]
  rfl

/-- A part that comes back. Every header is read by its handler, and the Content-Type headers have the content type of the
body. -/
structure Returns (handlers : Handlers) (ctype : MediaType) (compact : Bool) (delim : Bytes)
    (part : List PartHdr × Option Body) (found : Part) : Prop where
  hdrs : ∀ h ∈ part.1, Reads handlers h.printer.text (if h.isContentType then some found.contentType else none)
  typed : ∀ body, part.2 = some body → body.contentType.type ≠ [] →
    SameType body.contentType found.contentType ∧ WellFormed found.contentType
  untyped : (∀ body, part.2 = some body → body.contentType.type = []) →
    (∃ h ∈ part.1, h.isContentType = true) ∨ found.contentType = defaultType ctype
  body : found.body = (piece compact part).2
  apart : Apart delim (piece compact part)

section Returns

variable {handlers : Handlers} {found : MediaType}

def hdrMedias (found : MediaType) (hdr : List PartHdr) : List (Option MediaType) :=
  hdr.map fun h => if h.isContentType then some found else none

theorem reads_hdrs {hdr : List PartHdr}
    (h : ∀ x ∈ hdr, Reads handlers x.printer.text (if x.isContentType then some found else none)) :
    List.Forall₂ (Reads handlers) (hdr.map (·.printer.text)) (hdrMedias found hdr) := by
  rw [hdrMedias, List.forall₂_map_left_iff, List.forall₂_map_right_iff, List.forall₂_same]
  exact h

theorem mem_hdrMedias (hdr : List PartHdr) : some found ∈ hdrMedias found hdr ↔ ∃ h ∈ hdr, h.isContentType = true := by
  rw [hdrMedias, List.mem_map]
  refine exists_congr fun h => and_congr_right fun _ => ?_
  cases h.isContentType <;> simp

theorem hdrMedias_cases (hdr : List PartHdr) : ∀ m ∈ hdrMedias found hdr, m = none ∨ m = some found := by
  intro m hm
  obtain ⟨h, -, rfl⟩ := List.mem_map.mp hm
  split_ifs
  · exact .inr rfl
  · exact .inl rfl

theorem lastMedia_getD {medias : List (Option MediaType)} (h : ∀ m ∈ medias, m = none ∨ m = some found) {default : MediaType}
    (hfound : some found ∈ medias ∨ found = default) : found = (lastMedia medias).getD default := by
  rw [lastMedia_eq h]
  split_ifs with hmem
  · rfl
  · exact hfound.resolve_left hmem

theorem reads_typed {hdr : List PartHdr} {media : Media} (htype : media.type ≠ []) (hsame : SameType media found)
    (hwell : WellFormed found)
    (h : ∀ x ∈ hdr, Reads handlers x.printer.text (if x.isContentType then some found else none)) (compact : Bool) (len : Nat) :
    ∃ medias, List.Forall₂ (Reads handlers) (partLines compact hdr media len) medias ∧
      (∀ m ∈ medias, m = none ∨ m = some found) ∧ some found ∈ medias := by
  have hhdr := reads_hdrs h
  have hcases := @hdrMedias_cases found hdr
  rw [partLines]
  by_cases hadds : addsType hdr media
  · rw [if_pos hadds, hsame.text]
    refine ⟨hdrMedias found hdr ++ [some found, none], ?_, ?_, by simp⟩
    · exact List.rel_append hhdr
        (.cons (reads_ctype handlers compact hwell) (.cons (reads_clen handlers len) .nil))
    · intro m hm
      rcases List.mem_append.mp hm with hm | hm
      · exact hcases m hm
      · simp only [List.mem_cons, List.not_mem_nil, or_false] at hm
        exact hm.symm
  · rw [if_neg hadds, List.append_nil]
    refine ⟨hdrMedias found hdr, hhdr, hcases, (mem_hdrMedias hdr).mpr ?_⟩
    have hany : ¬hdr.all (fun x => !x.isContentType) = true := fun hno => hadds ⟨htype, hno⟩
    simpa using hany

theorem Returns.gives {ctype : MediaType} {compact : Bool} {delim : Bytes} {part : List PartHdr × Option Body} {back : Part}
    (h : Returns handlers ctype compact delim part back) : Gives handlers ctype delim (piece compact part) back := by
  refine ⟨?_, h.body, h.apart⟩
  obtain ⟨hdr, body⟩ := part
  by_cases htyped : ∃ b, body = some b ∧ b.contentType.type ≠ []
  · obtain ⟨b, rfl, htype⟩ := htyped
    obtain ⟨hsame, hwell⟩ := h.typed b rfl htype
    obtain ⟨medias, hreads, hcases, hmem⟩ := reads_typed htype hsame hwell h.hdrs compact (b.printed compact).length
    exact ⟨medias, hreads, lastMedia_getD hcases (.inl hmem)⟩
  · have huntyped : ∀ b, body = some b → b.contentType.type = [] := fun b hb => by
      by_contra htype
      exact htyped ⟨b, hb, htype⟩
    have hlines : (piece compact (hdr, body)).1 = hdr.map (·.printer.text) := by
      cases body with
      | none => rfl
      | some b =>
        rw [piece, partLines, if_neg (fun hadds => hadds.1 (huntyped b rfl)), List.append_nil]
    rw [hlines]
    refine ⟨hdrMedias back.contentType hdr, reads_hdrs h.hdrs, lastMedia_getD (hdrMedias_cases hdr) ?_⟩
    exact (h.untyped huntyped).imp_left (mem_hdrMedias hdr).mpr

end Returns

/-- The parser comes to its end on every input, within the buffer. What was printed for a multipart body is parsed as its
parts. -/
theorem multipart_round_trip (handlers : Handlers) :
    (∀ (ctype : MediaType) (buf : Bytes), ∃ result, multipartParse handlers ctype buf = some result) ∧
      ∀ (compact : Bool) (contentType : Media) (boundary : Str) (parts : Parts) (size n : Nat) (st : State),
        printBody compact (.multipart contentType boundary parts) size = (some n, st) →
        n = total ((Body.multipart contentType boundary parts).steps compact) →
        (∀ c ∈ boundary, Sdp.isspace c = false) → Plain boundary →
        ∀ (ctype : MediaType) (found : List Part),
          List.Forall₂ (Returns handlers (createCtype ctype boundary) compact (45 :: 45 :: boundary)) (partsOf parts) found →
          multipartParse handlers (createCtype ctype boundary) st.out = some (some found) := by
  refine ⟨multipartParse_reads handlers, ?_⟩
  intro compact contentType boundary parts size n st hprint hall hspace hplain ctype found hreturns
  obtain ⟨hne, hout⟩ := printBody_out hprint hall
  rw [hout, printed_parts]
  refine multipartParse_pieces ctype hspace hplain (fun hnil => hne (List.map_eq_nil_iff.mp hnil)) ?_
  rw [List.forall₂_map_left_iff]
  exact hreturns.imp fun _ _ => Returns.gives

/-! Small bodies. -/

def lineHandlers : Handlers where
  hdr _ text := (true, skipLine text)
  hdr_le _ text := Nat.le_trans (Sip.length_skipLine_le text) (Nat.sub_le _ _)

theorem reads_line : Reads lineHandlers [88, 58, 32, 121] none := by
  refine ⟨by decide +kernel, by decide +kernel, fun rest _ => ?_⟩
  have hname : Sip.parseHname ([88] ++ 58 :: 32 :: ([121] ++ (crlf ++ rest))) =
      .ok (findHandler [88], skipHeader ([121] ++ (crlf ++ rest))) := parseHname_token (token_of_all (by decide) (by decide)) _
  have hkind : findHandler [88] ≠ .ctype ∧ findHandler [88] ≠ .clen := by decide +kernel
  rw [List.singleton_append, List.singleton_append, skipHeader_cons (by decide) (by decide)] at hname
  have hline : parseLine lineHandlers ([88, 58, 32, 121] ++ (crlf ++ rest)) = some (.ok (none, rest)) := by
    rw [parseLine]
    simp only [List.cons_append, List.nil_append] at hname ⊢
    rw [hname]
    dsimp only
    rw [if_neg hkind.1, if_neg hkind.2]
    rfl
  rw [nextHdr, hline]
  rfl

def noType : Media := ⟨[], [], printTextBody []⟩

/-- A part of type `a/b;c=d` with the body `A`, and a part without a body. -/
def twoParts : Parts :=
  .cons [⟨printTextBody [88, 58, 32, 121], false⟩, ⟨printTextBody [99, 58, 32, 97, 47, 98, 59, 99, 61, 100], true⟩]
    (.text ⟨[97], [98], printTextBody [59, 99, 61, 100]⟩ [65]) (.bare [] .nil)

/-- What `twoParts` comes back as. -/
def twoFound : List Part :=
  [⟨⟨[97], [98], [⟨[99], [100]⟩]⟩, [65]⟩, ⟨⟨ascii "text", ascii "plain", []⟩, []⟩]

theorem multipart_round_trip_two :
    ∃ n st, printBody false (.multipart noType [90] twoParts) 1000 = (some n, st) ∧
      multipartParse lineHandlers (createCtype ⟨[], [], []⟩ [90]) st.out = some (some twoFound) := by
  refine ⟨_, _, rfl, (multipart_round_trip lineHandlers).2 false noType [90] twoParts 1000 _ _ rfl rfl
    (List.forall_mem_singleton.mpr rfl) (by unfold Plain; decide) ⟨[], [], []⟩ twoFound (.cons ?_ (.cons ?_ .nil))⟩
  · have hwell : WellFormed ⟨[97], [98], [⟨[99], [100]⟩]⟩ := by
      have htoken (c : UInt8) (hc : tokenSpec c = true) : Token [c] := ⟨List.cons_ne_nil _ _, List.forall_mem_singleton.mpr hc⟩
      refine ⟨htoken 97 (by decide), htoken 98 (by decide), ?_, ?_⟩
      · exact List.forall_mem_singleton.mpr (htoken 99 (by decide))
      · exact List.forall_mem_singleton.mpr (.inr (.inl (htoken 100 (by decide))))
    refine ⟨?_, ?_, ?_, rfl, ?_⟩
    · refine List.forall_mem_cons.mpr ⟨reads_line, List.forall_mem_singleton.mpr ?_⟩
      exact reads_ctype lineHandlers true hwell
    · rintro _ ⟨⟩ -
      exact ⟨⟨rfl, rfl, rfl⟩, hwell⟩
    · exact fun h => absurd (h _ rfl) (by decide)
    · unfold Apart
      decide
  · refine ⟨nofun, nofun, fun _ => .inr (by decide), rfl, ?_⟩
    unfold Apart
    decide

def ComesBack (boundary : Str) (parts : Parts) (result : Option (List Part)) : Prop :=
  ∃ n st, printBody false (.multipart noType boundary parts) 1000 = (some n, st) ∧
    n = total ((Body.multipart noType boundary parts).steps false) ∧
    multipartParse lineHandlers (createCtype ⟨[], [], []⟩ boundary) st.out = some result

theorem comesBack_pieces {boundary : Str} {parts : Parts} {n : Nat} {st : State}
    (hprint : printBody false (.multipart noType boundary parts) 1000 = (some n, st))
    (hall : n = total ((Body.multipart noType boundary parts).steps false)) (pieces : List (List Bytes × Bytes))
    (htext : parts.printed false boundary = pieces.flatMap (pieceText (45 :: 45 :: boundary))) (hne : pieces ≠ [])
    (hspace : ∀ c ∈ boundary, Sdp.isspace c = false) (hplain : Plain boundary) {found : List Part}
    (h : List.Forall₂ (Gives lineHandlers (createCtype ⟨[], [], []⟩ boundary) (45 :: 45 :: boundary)) pieces found) :
    ComesBack boundary parts (some found) := by
  refine ⟨n, st, hprint, hall, ?_⟩
  rw [(printBody_out hprint hall).2, htext]
  exact multipartParse_pieces _ hspace hplain hne h

/-- A part with this header and the body `A`, which has no content type. -/
def onePart (hdr : List Str) : Parts := .cons (hdr.map fun text => ⟨printTextBody text, false⟩) (.text noType [65]) .nil

/-- A body without a content type comes back as plain text, a boundary with quotes is not found, and a header that has an
empty line in it ends there. -/
theorem parts_not_kept :
    ComesBack [90] (onePart []) (some [⟨⟨ascii "text", ascii "plain", []⟩, [65]⟩]) ∧
      ComesBack [34, 90, 34] (onePart []) none ∧
      ComesBack [90] (onePart [[88, 58, 32, 121, 13, 10, 13, 10, 122]])
        (some [⟨⟨ascii "text", ascii "plain", []⟩, [122, 13, 10, 13, 10, 65]⟩]) := by
  have hplain : Plain [90] := by unfold Plain; decide
  have hspace : ∀ c ∈ ([90] : Bytes), Sdp.isspace c = false := List.forall_mem_singleton.mpr rfl
  refine ⟨?_, ⟨_, _, rfl, rfl, ?_⟩, ?_⟩
  · refine comesBack_pieces rfl rfl [([], [65])] rfl (List.cons_ne_nil _ _) hspace hplain (.cons ?_ .nil)
    exact ⟨⟨[], .nil, by decide⟩, rfl, by unfold Apart; decide⟩
  · decide
  · refine comesBack_pieces rfl rfl [([[88, 58, 32, 121]], [122, 13, 10, 13, 10, 65])] rfl
      (List.cons_ne_nil _ _) hspace hplain (.cons ?_ .nil)
    exact ⟨⟨[none], .cons reads_line .nil, by decide⟩, rfl, by unfold Apart; decide⟩

end PjProject.Multipart
