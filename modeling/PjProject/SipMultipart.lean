import PjProject.SipFraming
import PjProject.SipParse
import PjProject.SipUri

/-! The parser of multipart bodies (`sip_multipart.c`). The buffer is the list of its bytes and a pointer into it is an offset;
a function has no result where it would read outside of the buffer, or where a loop takes more turns than its bound. The
headers of a part go through the loop of `pjsip_parse_headers`; what the handlers of other headers than Content-Type and
Content-Length do with a line is left open. -/

namespace PjProject.Multipart

open Sip (Bytes Hdr get getChar skipHeader parseHname parseHdrEnd skipLines strstr isDigit strtoiValidate)
open Scan (isNewline)
open TsxKey (tokenSpec parsePvalue)
open SipUriCmp (Param paramFind)

/-! Headers. -/

/-- `pjsip_media_type`. -/
structure MediaType where
  type : Bytes
  subtype : Bytes
  param : List Param
  deriving DecidableEq

/-- The handlers of headers: whether a handler does not throw, and the input that is left. -/
structure Handlers where
  hdr : Hdr → Bytes → Bool × Bytes
  hdr_le : ∀ kind text, (hdr kind text).2.length ≤ text.length

/-- The scanner throws where an operation fails. -/
def scanned {α : Type} (l : Bytes) (result : Option α) : Except Bytes α := result.elim (.error l) .ok

/-- `int_parse_param`. -/
def parseParam (l : Bytes) : Except Bytes (Param × Bytes) :=
  (scanned l (getChar l)).bind fun (_, l) =>
  (scanned l (get tokenSpec l)).bind fun (pname, l) =>
  if l.headD 0 = 61 then
    (scanned l (getChar l)).bind fun (_, l) =>
    scanned l ((parsePvalue tokenSpec l).map fun pvalue =>
      (⟨pname, pvalue⟩, if pvalue = [] then l else skipHeader (l.drop pvalue.length)))
  else .ok (⟨pname, []⟩, l)

def parseParams : Nat → Bytes → Option (Except Bytes (List Param × Bytes))
  | 0, _ => none
  | turns + 1, l =>
    if l.headD 0 ≠ 59 then some (.ok ([], l))
    else
      match parseParam l with
      | .error l => some (.error l)
      | .ok (param, l) => (parseParams turns l).map (·.map fun (more, l) => (param :: more, l))

def parseTypes (l : Bytes) : Except Bytes ((Bytes × Bytes) × Bytes) :=
  (scanned l (get tokenSpec l)).bind fun (type, l) =>
  (scanned l (getChar l)).bind fun (_, l) =>
  (scanned l (get tokenSpec l)).bind fun (subtype, l) => .ok ((type, subtype), l)

/-- `parse_hdr_content_type`. -/
def parseHdrContentType (l : Bytes) : Option (Except Bytes (MediaType × Bytes)) :=
  match parseTypes l with
  | .error l => some (.error l)
  | .ok ((type, subtype), l) =>
    (parseParams (l.length + 1) l).map (·.bind fun (param, l) =>
      scanned l ((parseHdrEnd l).map fun rest => (⟨type, subtype, param⟩, rest)))

/-- `parse_hdr_content_len`. -/
def parseHdrContentLen (l : Bytes) : Except Bytes (Int × Bytes) :=
  (scanned l (get isDigit l)).bind fun (digit, l) =>
  (scanned l ((strtoiValidate digit 0 0x7FFFFFFF).map fun len => (len, l))).bind fun (len, l) =>
  scanned l ((parseHdrEnd l).map fun rest => (len, rest))

/-- The body of the loop of `pjsip_parse_headers`: a Content-Type header gives its media type. -/
def parseLine (handlers : Handlers) (l : Bytes) : Option (Except Bytes (Option MediaType × Bytes)) :=
  match parseHname l with
  | .error l => some (.error l)
  | .ok (kind, text) =>
    if kind = .ctype then (parseHdrContentType text).map (·.map fun (media, rest) => (some media, rest))
    else if kind = .clen then some ((parseHdrContentLen text).map fun (_, rest) => (none, rest))
    else
      let (ok, rest) := handlers.hdr kind text
      some (if ok then .ok (none, rest) else .error rest)

/-- With what follows after an exception. -/
def nextHdr (handlers : Handlers) (l : Bytes) : Option (Option MediaType × Bytes) :=
  (parseLine handlers l).map fun
    | .ok (media, rest) => (media, rest)
    | .error rest => (none, if rest = [] then rest else skipLines rest.length rest)

def hdrLoop (handlers : Handlers) : Nat → Bytes → Option (Option MediaType)
  | 0, _ => none
  | turns + 1, l =>
    (nextHdr handlers l).bind fun (media, rest) =>
      if rest ≠ [] ∧ isNewline (rest.headD 0) = false then (hdrLoop handlers turns rest).map fun later => later.or media
      else some media

/-- The media type of the last Content-Type header that `pjsip_parse_headers` finds. -/
def parseHeaders (handlers : Handlers) (input : Bytes) : Option (Option MediaType) :=
  hdrLoop handlers (input.length + 1) (skipHeader input)

/-! The buffer. -/

/-- `while (p != end && !stop(*p)) ++p`. -/
def skipTo (buf : Bytes) (stop : UInt8 → Bool) (endptr : Nat) : Nat → Nat → Option Nat
  | 0, _ => none
  | turns + 1, p =>
    if p = endptr then some p
    else buf[p]?.bind fun c => if stop c then some p else skipTo buf stop endptr turns (p + 1)

/-- `cond && *p == c`. -/
def isAt (buf : Bytes) (cond : Bool) (p : Nat) (c : UInt8) : Option Bool :=
  if cond then buf[p]?.map fun d => d == c else some false

/-- `pj_strstr` in the rest of the buffer. -/
def search (buf delim : Bytes) (p : Nat) : Option (Option Nat) :=
  if p ≤ buf.length then some ((strstr delim (buf.drop p)).map fun n => p + n) else none

/-- The part of the buffer between two pointers. -/
def between (buf : Bytes) (start endptr : Nat) : Option Bytes :=
  if start ≤ endptr ∧ endptr ≤ buf.length then some (slice buf start (endptr - start)) else none

/-- `pjsip_multipart_part`, with a text body. -/
structure Part where
  contentType : MediaType
  body : Bytes
  deriving DecidableEq

/-- The loop for the end of the header area: `end_hdr`, which may be `NULL`, and `start_body`. -/
def splitHeader (buf : Bytes) (start endptr : Nat) : Nat → Nat → Option (Option Nat × Nat)
  | 0, _ => none
  | turns + 1, p =>
    (skipTo buf (· == 10) endptr (buf.length + 1) p).bind fun p =>
      if p = endptr then some (none, endptr)
      else
        (isAt buf (p = start + 1) (p - 1) 13).bind fun second =>
        (isAt buf (start + 1 ≤ p) (p - 1) 10).bind fun lf =>
        (isAt buf (start + 2 ≤ p) (p - 1) 13).bind fun cr =>
        (isAt buf cr (p - 2) 10).bind fun crlf =>
          if p = start ∨ second then some (some start, p + 1)
          else if p + 1 = endptr then some (some endptr, p + 1)
          else if lf ∨ crlf then some (some (if cr then p - 1 else p), p + 1)
          else splitHeader buf start endptr turns (p + 1)

/-- The content type of a part without a Content-Type header. -/
def defaultType (ctype : MediaType) : MediaType :=
  if Xml.stricmp ctype.subtype (ascii "digest") = 0 then ⟨ascii "message", ascii "rfc822", []⟩
  else ⟨ascii "text", ascii "plain", []⟩

def partMedia (handlers : Handlers) (buf : Bytes) (start : Nat) : Option Nat → Option (Option MediaType)
  | none => some none
  | some endHdr => if start < endHdr then (between buf start endHdr).bind (parseHeaders handlers) else some none

/-- `parse_multipart_part`. -/
def parsePart (handlers : Handlers) (ctype : MediaType) (buf : Bytes) (start endptr : Nat) : Option Part :=
  (splitHeader buf start endptr (buf.length + 1) start).bind fun (endHdr, startBody) =>
  (partMedia handlers buf start endHdr).bind fun media =>
  (if startBody < endptr then between buf startBody endptr else some []).bind fun body =>
  some ⟨media.getD (defaultType ctype), body⟩

/-- The search for the first `--` that begins a line. -/
def findDashes (buf : Bytes) : Nat → Nat → Option Nat
  | 0, _ => none
  | turns + 1, p =>
    (skipTo buf (· == 45) buf.length (buf.length + 1) p).bind fun p =>
      if p = buf.length then some p
      else
        (isAt buf (p + 1 < buf.length) (p + 1) 45).bind fun dashes =>
        (isAt buf (dashes && 0 < p) (p - 1) 10).bind fun lf =>
          if dashes ∧ (lf ∨ p = 0) then some (p + 2) else findDashes buf turns (p + 1)

/-- The boundary in the parameters, without quotes. -/
def givenBoundary (ctype : MediaType) : Bytes :=
  match paramFind ctype.param (ascii "boundary") with
  | none => []
  | some p => if 2 < p.value.length ∧ p.value.headD 0 = 34 then p.value.tail.dropLast else p.value

/-- The boundary, which is computed from the body where it is not given; or `NULL` is returned. -/
def findBoundary (ctype : MediaType) (buf : Bytes) : Option (Option Bytes) :=
  if givenBoundary ctype ≠ [] then some (some (givenBoundary ctype))
  else
    (findDashes buf (buf.length + 1) 0).bind fun p =>
      if p = buf.length then some none
      else (skipTo buf Sdp.isspace buf.length (buf.length + 1) p).bind fun q => (between buf p q).map some

/-- The newline before a delimiter belongs to it. -/
def trimEnd (buf : Bytes) (start endptr : Nat) : Option Nat :=
  (isAt buf (start < endptr) (endptr - 1) 10).bind fun lf =>
    let endptr := if lf then endptr - 1 else endptr
    (isAt buf (start < endptr) (endptr - 1) 13).map fun cr => if cr then endptr - 1 else endptr

/-- The text of a part begins behind blanks and a newline. -/
def startPart (buf : Bytes) (p : Nat) : Option (Option Nat) :=
  (skipTo buf (fun c => c != 32 && c != 9) buf.length (buf.length + 1) p).bind fun p =>
    if p = buf.length then some none
    else
      (isAt buf true p 13).bind fun cr =>
        let p := if cr then p + 1 else p
        (isAt buf (p ≠ buf.length) p 10).map fun lf => if lf then some (p + 1) else none

def partLoop (handlers : Handlers) (ctype : MediaType) (buf delim : Bytes) : Nat → Nat → Option (Option (List Part))
  | 0, _ => none
  | turns + 1, curptr =>
    let p := curptr + delim.length
    (isAt buf (p + 1 < buf.length) p 45).bind fun dash =>
    (isAt buf dash (p + 1) 45).bind fun close =>
      if close then some (some [])
      else
        (startPart buf p).bind fun
        | none => some none
        | some start =>
          (search buf delim start).bind fun
          | none => some none
          | some next =>
            (trimEnd buf start next).bind fun endBody =>
            (parsePart handlers ctype buf start endBody).bind fun part =>
            (partLoop handlers ctype buf delim turns next).map (·.map (part :: ·))

/-- `pjsip_multipart_parse`; the inner `none` stands for `NULL`. -/
def multipartParse (handlers : Handlers) (ctype : MediaType) (buf : Bytes) : Option (Option (List Part)) :=
  if buf = [] then some none
  else
    (findBoundary ctype buf).bind fun
    | none => some none
    | some boundary =>
      let delim := 45 :: 45 :: boundary
      (search buf delim 0).bind fun
      | none => some none
      | some curptr => partLoop handlers ctype buf delim (buf.length + 1) curptr

/-! The parser comes to an end without a read outside of the buffer. -/

theorem skipTo_ends (buf : Bytes) (stop : UInt8 → Bool) (turns : Nat) {endptr p : Nat} (hp : p ≤ endptr) (hend : endptr ≤ buf.length)
    (hturns : endptr - p < turns) : ∃ q, skipTo buf stop endptr turns p = some q ∧ p ≤ q ∧ q ≤ endptr := by
  induction turns generalizing p with
  | zero => cases hturns
  | succ turns ih =>
    rw [skipTo]
    by_cases heq : p = endptr
    · exact ⟨p, if_pos heq, Nat.le_refl p, hp⟩
    · rw [if_neg heq, List.getElem?_eq_getElem (by omega), Option.bind_some]
      by_cases hstop : stop buf[p] = true
      · exact ⟨p, if_pos hstop, Nat.le_refl p, hp⟩
      · rw [if_neg hstop]
        obtain ⟨q, hq, hpq, hqe⟩ := ih (p := p + 1) (by omega) (by omega)
        exact ⟨q, hq, by omega, hqe⟩

theorem isAt_reads (buf : Bytes) (cond : Bool) (p : Nat) (c : UInt8) (h : cond = true → p < buf.length) :
    ∃ b, isAt buf cond p c = some b ∧ (b = true → cond = true) := by
  cases cond with
  | false => exact ⟨false, rfl, id⟩
  | true => exact ⟨buf.get ⟨p, h rfl⟩ == c, by rw [isAt, if_pos rfl, List.getElem?_eq_getElem (h rfl)]; rfl, fun _ => rfl⟩

theorem splitHeader_ends {buf : Bytes} (turns : Nat) {start endptr p : Nat} (hstart : start ≤ p) (hp : p ≤ endptr)
    (hend : endptr ≤ buf.length) (hturns : endptr - p < turns) :
    ∃ endHdr startBody, splitHeader buf start endptr turns p = some (endHdr, startBody) ∧
      (∀ e, endHdr = some e → e ≤ endptr) ∧ startBody ≤ endptr := by
  induction turns generalizing p with
  | zero => cases hturns
  | succ turns ih =>
    obtain ⟨q, hq, hpq, hqe⟩ := skipTo_ends buf (· == 10) (buf.length + 1) hp hend (by omega)
    rw [splitHeader, hq, Option.bind_some]
    by_cases heq : q = endptr
    · exact ⟨none, endptr, if_pos heq, nofun, le_rfl⟩
    · obtain ⟨second, hsecond, -⟩ := isAt_reads buf (decide (q = start + 1)) (q - 1) 13 fun _ => by omega
      obtain ⟨lf, hlf, -⟩ := isAt_reads buf (decide (start + 1 ≤ q)) (q - 1) 10 fun _ => by omega
      obtain ⟨cr, hcr, -⟩ := isAt_reads buf (decide (start + 2 ≤ q)) (q - 1) 13 fun _ => by omega
      obtain ⟨crlf, hcrlf, -⟩ := isAt_reads buf cr (q - 2) 10 fun _ => by omega
      rw [if_neg heq, hsecond, Option.bind_some, hlf, Option.bind_some, hcr, Option.bind_some, hcrlf, Option.bind_some]
      split_ifs
      · exact ⟨_, _, rfl, fun e he => by cases he; omega, by omega⟩
      · exact ⟨_, _, rfl, fun e he => by cases he; omega, by omega⟩
      · exact ⟨_, _, rfl, fun e he => by cases he; omega, by omega⟩
      · exact ⟨_, _, rfl, fun e he => by cases he; omega, by omega⟩
      · exact ih (by omega) (by omega) (by omega)

theorem between_eq {buf : Bytes} {start endptr : Nat} (h : start ≤ endptr) (hend : endptr ≤ buf.length) :
    between buf start endptr = some (slice buf start (endptr - start)) := if_pos ⟨h, hend⟩

/-! The header loop. -/

def Within {α : Type} (thrown left : Nat) : Except Bytes (α × Bytes) → Prop
  | .error rest => rest.length ≤ thrown
  | .ok (_, rest) => rest.length ≤ left

section Within

variable {α β : Type} {thrown left more : Nat}

theorem within_scanned {l : Bytes} {result : Option (α × Bytes)} (hl : l.length ≤ thrown)
    (h : ∀ x rest, result = some (x, rest) → rest.length ≤ left) : Within thrown left (scanned l result) := by
  cases result with
  | none => exact hl
  | some y => exact h y.1 y.2 rfl

theorem Within.bind {r : Except Bytes (α × Bytes)} (h : Within thrown left r) {f : α × Bytes → Except Bytes (β × Bytes)}
    (hf : ∀ x rest, rest.length ≤ left → Within thrown more (f (x, rest))) : Within thrown more (r.bind f) := by
  cases r with
  | error rest => exact h
  | ok y => exact hf y.1 y.2 h

theorem Within.map {r : Except Bytes (α × Bytes)} (h : Within thrown left r) {f : α × Bytes → β × Bytes}
    (hf : ∀ y, (f y).2 = y.2) : Within thrown left (r.map f) := by
  cases r with
  | error rest => exact h
  | ok y =>
    have hle : (f y).2.length ≤ left := by
      rw [hf y]
      exact h
    exact hle

theorem Within.mono {r : Except Bytes (α × Bytes)} {thrown' left' : Nat} (h : Within thrown left r)
    (hthrown : thrown ≤ thrown') (hleft : left ≤ left') : Within thrown' left' r := by
  cases r with
  | error rest => exact Nat.le_trans h hthrown
  | ok y => exact Nat.le_trans h hleft

end Within

theorem within_getChar {n : Nat} {l : Bytes} (hl : l.length ≤ n) : Within n (l.length - 1) (scanned l (getChar l)) :=
  within_scanned hl fun _ _ h => Nat.le_sub_one_of_lt (Sip.length_getChar_lt h)

theorem within_get {n : Nat} (spec : UInt8 → Bool) {l : Bytes} (hl : l.length ≤ n) :
    Within n l.length (scanned l (get spec l)) :=
  within_scanned hl fun _ _ h => (Sip.length_get_lt h).le

theorem within_parseParam (l : Bytes) : Within l.length (l.length - 1) (parseParam l) := by
  refine (within_getChar le_rfl).bind fun _ l1 h1 => ?_
  refine (within_get tokenSpec (by omega)).bind fun pname l2 h2 => ?_
  dsimp only
  split
  · refine (within_getChar (by omega)).bind fun _ l3 h3 => ?_
    refine within_scanned (show l3.length ≤ l.length by omega) fun x rest hx => ?_
    dsimp only at hx
    obtain ⟨pvalue, -, heq⟩ := Option.map_eq_some_iff.mp hx
    obtain ⟨-, rfl⟩ := Prod.mk.inj heq
    have hskip := Sip.length_skipHeader_le (l3.drop pvalue.length)
    rw [List.length_drop] at hskip
    split <;> omega
  · exact Nat.le_trans h2 h1

theorem within_parseParams {turns : Nat} {l : Bytes} (hturns : l.length < turns) :
    ∃ result, parseParams turns l = some result ∧ Within l.length l.length result := by
  induction turns generalizing l with
  | zero => cases hturns
  | succ turns ih =>
    rw [parseParams]
    by_cases hsep : l.headD 0 ≠ 59
    · exact ⟨.ok ([], l), if_pos hsep, le_rfl⟩
    · rw [if_neg hsep]
      have hparam := within_parseParam l
      cases hresult : parseParam l with
      | error rest =>
        rw [hresult] at hparam
        exact ⟨.error rest, rfl, hparam⟩
      | ok y =>
        rw [hresult] at hparam
        have hpos : 0 < l.length := by
          refine List.length_pos_iff.mpr fun hnil => hsep ?_
          rw [hnil]
          decide
        have hle : y.2.length ≤ l.length - 1 := hparam
        obtain ⟨result, hmore, hwithin⟩ := ih (l := y.2) (by omega)
        refine ⟨_, congrArg (Option.map _) hmore, Within.map (hwithin.mono ?_ ?_) fun _ => rfl⟩ <;> omega

theorem within_parseHdrEnd {α : Type} {n : Nat} {l : Bytes} (x : α) (hl : l.length ≤ n) :
    Within n l.length (scanned l ((parseHdrEnd l).map fun rest => (x, rest))) := by
  refine within_scanned hl fun y rest hy => ?_
  obtain ⟨left, hend, heq⟩ := Option.map_eq_some_iff.mp hy
  obtain ⟨-, rfl⟩ := Prod.mk.inj heq
  exact Sip.length_parseHdrEnd_le hend

theorem within_parseHdrContentType (l : Bytes) :
    ∃ result, parseHdrContentType l = some result ∧ Within l.length l.length result := by
  have htypes : Within l.length l.length (parseTypes l) :=
    (within_get tokenSpec le_rfl).bind fun _ l1 h1 =>
    (within_getChar h1).bind fun _ l2 h2 =>
    (within_get tokenSpec (by omega)).bind fun _ l3 h3 => by
      show l3.length ≤ l.length
      omega
  rw [parseHdrContentType]
  cases hresult : parseTypes l with
  | error rest =>
    rw [hresult] at htypes
    exact ⟨.error rest, rfl, htypes⟩
  | ok y =>
    rw [hresult] at htypes
    obtain ⟨result, hparams, hwithin⟩ := within_parseParams (Nat.lt_succ_self y.2.length)
    refine ⟨_, congrArg (Option.map _) hparams, (hwithin.mono htypes htypes).bind fun param rest hrest => ?_⟩
    exact (within_parseHdrEnd _ hrest).mono le_rfl hrest

theorem within_parseHdrContentLen (l : Bytes) : Within l.length l.length (parseHdrContentLen l) := by
  refine (within_get isDigit le_rfl).bind fun digit l1 h1 => ?_
  have hvalue : Within l.length l.length
      (scanned l1 ((strtoiValidate digit 0 0x7FFFFFFF).map fun len => (len, l1))) := by
    refine within_scanned h1 fun x rest hx => ?_
    obtain ⟨len, -, heq⟩ := Option.map_eq_some_iff.mp hx
    obtain ⟨-, rfl⟩ := Prod.mk.inj heq
    exact h1
  exact hvalue.bind fun len l2 h2 => (within_parseHdrEnd len h2).mono le_rfl h2

theorem within_parseLine (handlers : Handlers) (l : Bytes) :
    ∃ result, parseLine handlers l = some result ∧ Within l.length (l.length - 1) result := by
  rw [parseLine]
  cases hname : parseHname l with
  | error rest => exact ⟨.error rest, rfl, Sip.length_parseHname_error hname⟩
  | ok y =>
    obtain ⟨kind, text⟩ := y
    have htext := Sip.length_parseHname hname
    dsimp only
    by_cases hctype : kind = .ctype
    · rw [if_pos hctype]
      obtain ⟨result, hparse, hwithin⟩ := within_parseHdrContentType text
      exact ⟨_, congrArg (Option.map _) hparse, Within.map (hwithin.mono (by omega) (by omega)) fun _ => rfl⟩
    · rw [if_neg hctype]
      by_cases hclen : kind = .clen
      · rw [if_pos hclen]
        exact ⟨_, rfl, Within.map ((within_parseHdrContentLen text).mono (by omega) (by omega)) fun _ => rfl⟩
      · rw [if_neg hclen]
        have hle := handlers.hdr_le kind text
        refine ⟨_, rfl, ?_⟩
        split
        · exact Nat.le_trans hle (Nat.le_sub_one_of_lt htext)
        · exact Nat.le_trans hle htext.le

theorem nextHdr_length (handlers : Handlers) (l : Bytes) :
    ∃ next, nextHdr handlers l = some next ∧ (next.2 ≠ [] → next.2.length < l.length) := by
  obtain ⟨result, hline, hwithin⟩ := within_parseLine handlers l
  refine ⟨_, congrArg (Option.map _) hline, ?_⟩
  cases result with
  | error rest =>
    have hle : rest.length ≤ l.length := hwithin
    dsimp only
    split_ifs with hnil
    · exact fun hne => absurd hnil hne
    · intro _
      have hpos := List.length_pos_iff.mpr hnil
      have hskip := Sip.length_skipLines_le (rest.length - 1) rest
      rw [Nat.sub_add_cancel hpos] at hskip
      omega
  | ok y =>
    intro hne
    have hle : y.2.length ≤ l.length - 1 := hwithin
    have hpos : 0 < y.2.length := List.length_pos_iff.mpr hne
    dsimp only
    omega

theorem hdrLoop_isSome (handlers : Handlers) {turns : Nat} {l : Bytes} (h : l.length < turns) :
    ∃ media, hdrLoop handlers turns l = some media := by
  induction turns generalizing l with
  | zero => cases h
  | succ turns ih =>
    obtain ⟨⟨media, rest⟩, hnext, hlt⟩ := nextHdr_length handlers l
    rw [hdrLoop, hnext, Option.bind_some]
    dsimp only
    split_ifs with hmore
    · obtain ⟨later, hlater⟩ := ih (Nat.lt_of_lt_of_le (hlt hmore.1) (Nat.le_of_lt_succ h))
      exact ⟨later.or media, by rw [hlater, Option.map_some]⟩
    · exact ⟨media, rfl⟩

theorem parseHeaders_isSome (handlers : Handlers) (input : Bytes) : ∃ media, parseHeaders handlers input = some media :=
  hdrLoop_isSome handlers (Nat.lt_succ_of_le (Sip.length_skipHeader_le input))

/-! The parts. -/

theorem parsePart_isSome (handlers : Handlers) (ctype : MediaType) {buf : Bytes} {start endptr : Nat} (h : start ≤ endptr)
    (hend : endptr ≤ buf.length) : ∃ part, parsePart handlers ctype buf start endptr = some part := by
  obtain ⟨endHdr, startBody, hsplit, hhdr, hbody⟩ := splitHeader_ends (buf.length + 1) (Nat.le_refl start) h hend (by omega)
  have hmedia : ∃ media, partMedia handlers buf start endHdr = some media := by
    cases endHdr with
    | none => exact ⟨none, rfl⟩
    | some endHdr =>
      have hle := hhdr endHdr rfl
      rw [partMedia]
      split_ifs with hlt
      · rw [between_eq hlt.le (by omega), Option.bind_some]
        exact parseHeaders_isSome handlers _
      · exact ⟨none, rfl⟩
  obtain ⟨media, hmedia⟩ := hmedia
  have htext : ∃ body, (if startBody < endptr then between buf startBody endptr else some []) = some body := by
    split_ifs with hlt
    · exact ⟨_, between_eq hlt.le hend⟩
    · exact ⟨[], rfl⟩
  obtain ⟨body, htext⟩ := htext
  exact ⟨⟨media.getD (defaultType ctype), body⟩, by
    rw [parsePart, hsplit, Option.bind_some]
    dsimp only
    rw [hmedia, Option.bind_some, htext, Option.bind_some]⟩

theorem strstr_prefix {sub l : Bytes} {n : Nat} (h : strstr sub l = some n) : n < l.length ∧ sub <+: l.drop n := by
  induction l generalizing n with
  | nil => cases h
  | cons c l ih =>
    rw [strstr] at h
    split_ifs at h with hprefix
    · obtain rfl := Option.some.inj h
      exact ⟨Nat.succ_pos _, List.isPrefixOf_iff_prefix.mp hprefix⟩
    · obtain ⟨m, hm, rfl⟩ := Option.map_eq_some_iff.mp h
      exact ⟨Nat.succ_lt_succ (ih hm).1, (ih hm).2⟩

theorem search_inside {buf : Bytes} (delim : Bytes) {p : Nat} (hp : p ≤ buf.length) :
    ∃ result, search buf delim p = some result ∧ ∀ n, result = some n → p ≤ n ∧ n + delim.length ≤ buf.length := by
  refine ⟨_, if_pos hp, fun n hn => ?_⟩
  obtain ⟨m, hm, rfl⟩ := Option.map_eq_some_iff.mp hn
  obtain ⟨hlt, hprefix⟩ := strstr_prefix hm
  have hle := hprefix.length_le
  rw [List.length_drop] at hlt
  rw [List.length_drop, List.length_drop] at hle
  omega

theorem trimEnd_inside {buf : Bytes} {start endptr : Nat} (h : start ≤ endptr) (hend : endptr ≤ buf.length) :
    ∃ e, trimEnd buf start endptr = some e ∧ start ≤ e ∧ e ≤ endptr := by
  obtain ⟨lf, hlf, hlt⟩ := isAt_reads buf (decide (start < endptr)) (endptr - 1) 10 fun hd => by
    have := of_decide_eq_true hd
    omega
  rw [trimEnd, hlf, Option.bind_some]
  have hfirst : start ≤ (if lf then endptr - 1 else endptr) ∧ (if lf then endptr - 1 else endptr) ≤ endptr := by
    cases lf with
    | false => exact ⟨h, le_rfl⟩
    | true =>
      have := of_decide_eq_true (hlt rfl)
      exact ⟨Nat.le_sub_one_of_lt this, Nat.sub_le _ _⟩
  dsimp only
  generalize (if lf then endptr - 1 else endptr) = e at hfirst
  obtain ⟨cr, hcr, hlt'⟩ := isAt_reads buf (decide (start < e)) (e - 1) 13 fun hd => by
    have := of_decide_eq_true hd
    omega
  rw [hcr, Option.map_some]
  cases cr with
  | false => exact ⟨e, rfl, hfirst⟩
  | true =>
    have := of_decide_eq_true (hlt' rfl)
    exact ⟨e - 1, rfl, Nat.le_sub_one_of_lt this, (Nat.sub_le _ _).trans hfirst.2⟩

theorem startPart_inside {buf : Bytes} {p : Nat} (hp : p ≤ buf.length) :
    ∃ result, startPart buf p = some result ∧ ∀ start, result = some start → p < start ∧ start ≤ buf.length := by
  obtain ⟨q, hq, hpq, hqe⟩ := skipTo_ends buf (fun c => c != 32 && c != 9) (buf.length + 1) hp le_rfl (by omega)
  rw [startPart, hq, Option.bind_some]
  by_cases heq : q = buf.length
  · exact ⟨none, if_pos heq, nofun⟩
  · obtain ⟨cr, hcr, -⟩ := isAt_reads buf true q 13 fun _ => by omega
    rw [if_neg heq, hcr, Option.bind_some]
    have hnext : p ≤ (if cr then q + 1 else q) ∧ (if cr then q + 1 else q) ≤ buf.length := by split <;> omega
    dsimp only
    generalize (if cr then q + 1 else q) = r at hnext
    obtain ⟨lf, hlf, hne⟩ := isAt_reads buf (decide (r ≠ buf.length)) r 10 fun hd => by
      have := of_decide_eq_true hd
      omega
    rw [hlf, Option.map_some]
    refine ⟨_, rfl, fun start hstart => ?_⟩
    split_ifs at hstart with htrue
    have := of_decide_eq_true (hne htrue)
    cases hstart
    omega

theorem partLoop_isSome (handlers : Handlers) (ctype : MediaType) (buf delim : Bytes) {turns curptr : Nat}
    (hcur : curptr + delim.length ≤ buf.length) (hturns : buf.length - curptr < turns) :
    ∃ parts, partLoop handlers ctype buf delim turns curptr = some parts := by
  induction turns generalizing curptr with
  | zero => cases hturns
  | succ turns ih =>
    rw [partLoop]
    generalize hp : curptr + delim.length = p at hcur
    obtain ⟨dash, hdash, hlt⟩ := isAt_reads buf (decide (p + 1 < buf.length)) p 45 fun hd => by
      have := of_decide_eq_true hd
      omega
    obtain ⟨close, hclose, -⟩ := isAt_reads buf dash (p + 1) 45 fun hd => of_decide_eq_true (hlt hd)
    rw [hdash, Option.bind_some, hclose, Option.bind_some]
    cases close with
    | true => exact ⟨some [], rfl⟩
    | false =>
      obtain ⟨start, hstart, hinside⟩ := startPart_inside hcur
      rw [if_neg Bool.noConfusion, hstart, Option.bind_some]
      cases start with
      | none => exact ⟨none, rfl⟩
      | some start =>
        obtain ⟨hlow, hhigh⟩ := hinside start rfl
        obtain ⟨next, hnext, hfound⟩ := search_inside delim hhigh
        dsimp only
        rw [hnext, Option.bind_some]
        cases next with
        | none => exact ⟨none, rfl⟩
        | some next =>
          obtain ⟨hle, hfits⟩ := hfound next rfl
          have hend : next ≤ buf.length := by omega
          obtain ⟨e, htrim, hse, hen⟩ := trimEnd_inside hle hend
          obtain ⟨part, hpart⟩ := parsePart_isSome handlers ctype hse (hen.trans hend)
          obtain ⟨parts, hparts⟩ := ih hfits (by omega)
          dsimp only
          rw [htrim, Option.bind_some, hpart, Option.bind_some, hparts, Option.map_some]
          exact ⟨_, rfl⟩

theorem findDashes_inside {buf : Bytes} (turns : Nat) {p : Nat} (hp : p ≤ buf.length) (hturns : buf.length - p < turns) :
    ∃ q, findDashes buf turns p = some q ∧ q ≤ buf.length := by
  induction turns generalizing p with
  | zero => cases hturns
  | succ turns ih =>
    obtain ⟨q, hq, hpq, hqe⟩ := skipTo_ends buf (· == 45) (buf.length + 1) hp le_rfl (by omega)
    rw [findDashes, hq, Option.bind_some]
    by_cases heq : q = buf.length
    · exact ⟨q, if_pos heq, hqe⟩
    · obtain ⟨dashes, hdashes, hlt⟩ := isAt_reads buf (decide (q + 1 < buf.length)) (q + 1) 45
        of_decide_eq_true
      obtain ⟨lf, hlf, -⟩ := isAt_reads buf (dashes && decide (0 < q)) (q - 1) 10 fun _ => by omega
      rw [if_neg heq, hdashes, Option.bind_some, hlf, Option.bind_some]
      split_ifs with hfound
      · have := of_decide_eq_true (hlt hfound.1)
        exact ⟨q + 2, rfl, by omega⟩
      · exact ih (by omega) (by omega)

/-- Every input is parsed to its end, with reads inside of the buffer alone. -/
theorem multipartParse_reads (handlers : Handlers) (ctype : MediaType) (buf : Bytes) :
    ∃ result, multipartParse handlers ctype buf = some result := by
  have hboundary : ∃ boundary, findBoundary ctype buf = some boundary := by
    rw [findBoundary]
    split_ifs with hgiven
    · exact ⟨_, rfl⟩
    · obtain ⟨p, hp, hle⟩ := findDashes_inside (buf.length + 1) (Nat.zero_le buf.length) (by omega)
      rw [hp, Option.bind_some]
      split_ifs with hend
      · exact ⟨none, rfl⟩
      · obtain ⟨q, hq, hpq, hqe⟩ := skipTo_ends buf Sdp.isspace (buf.length + 1) hle le_rfl (by omega)
        rw [hq, Option.bind_some, between_eq hpq hqe]
        exact ⟨_, rfl⟩
  rw [multipartParse]
  split_ifs with hnil
  · exact ⟨none, rfl⟩
  · obtain ⟨boundary, hboundary⟩ := hboundary
    rw [hboundary, Option.bind_some]
    cases boundary with
    | none => exact ⟨none, rfl⟩
    | some boundary =>
      obtain ⟨cur, hcur, hinside⟩ := search_inside (45 :: 45 :: boundary) (Nat.zero_le buf.length)
      dsimp only
      rw [hcur, Option.bind_some]
      cases cur with
      | none => exact ⟨none, rfl⟩
      | some cur => exact partLoop_isSome handlers ctype buf _ (hinside cur rfl).2 (by omega)

end PjProject.Multipart
