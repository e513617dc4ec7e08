import PjProject.SipTransactionKey
import PjProject.SipScan

/-! The header loop of the SIP parser (`sip_parser.c`) and the pointers of `rdata->msg_info`. A handler that throws drops its
line, and the loop goes on with the next one. Most handlers publish their header when it is parsed; those for Require and
Supported do it before, and merge later lines into the header that is published. What the other handlers make of the text of a
header is left open. -/

namespace PjProject.Sip

open Scan (isSpace isNewline)
open TsxKey (tokenSpec)
open Xml (stricmp)

/-- The headers of `msg_info`, and the others. -/
inductive Hdr
  | from
  | to
  | via
  | cid
  | cseq
  | clen
  | ctype
  | maxFwd
  | route
  | recordRoute
  | require
  | supported
  | other
  deriving DecidableEq

/-- The names in `pjsip_register_hdr_parser`. -/
def hdrNames : List (Bytes × Hdr) :=
  [(ascii "From", .from), (ascii "f", .from), (ascii "To", .to), (ascii "t", .to), (ascii "Via", .via), (ascii "v", .via),
    (ascii "Call-ID", .cid), (ascii "i", .cid), (ascii "CSeq", .cseq), (ascii "Content-Length", .clen), (ascii "l", .clen),
    (ascii "Content-Type", .ctype), (ascii "c", .ctype), (ascii "Max-Forwards", .maxFwd), (ascii "Route", .route),
    (ascii "Record-Route", .recordRoute), (ascii "Require", .require), (ascii "Supported", .supported),
    (ascii "k", .supported)]

/-- `find_handler`. -/
def findHandler (hname : Bytes) : Hdr := ((hdrNames.find? fun entry => stricmp hname entry.1 = 0).map Prod.snd).getD .other

/-- What start line and handlers do with the text before them. A handler throws (`none`), or returns a list of headers: one
more than the number, or for the other headers as many. The scanner never goes back. -/
structure Parsers where
  startLine : Bytes → Option Bytes
  hdr : Hdr → Bytes → Option Nat × Bytes
  startLine_le : ∀ text rest, startLine text = some rest → rest.length ≤ text.length
  hdr_le : ∀ kind text, (hdr kind text).2.length ≤ text.length

/-- The input that is left; the headers of the message, as the numbers of their allocations; the headers that are published;
the number of allocations; and the values of the Require and Supported headers that are published. -/
structure ParseState where
  input : Bytes
  hdrs : List Nat
  info : Hdr → Option Nat
  next : Nat
  values : Hdr → List Bytes

/-- `pjsip_NOT_COMMA_OR_NEWLINE`. -/
def notCommaOrNewline (c : UInt8) : Bool := c ≠ 0 && c ≠ 44 && !isNewline c

/-- `PJSIP_GENERIC_ARRAY_MAX_COUNT`. -/
def arrayMaxCount : Nat := 32

/-- `parse_hdr_end`. -/
def parseHdrEnd (l : Bytes) : Option Bytes :=
  if l = [] then some l else if l.headD 0 = 38 then (getChar l).map Prod.snd else getNewline l

def skipCommas : Nat → Bytes → Bytes
  | 0, l => l
  | n + 1, l =>
    if l.headD 0 = 44 then
      match getChar l with
      | some (_, l) => skipCommas n l
      | none => l
    else l

/-- The loop of `parse_generic_array_hdr` while there is room: the values, the input that is left, and whether it does not
throw. -/
def arrayLoop : Nat → List Bytes → Bytes → List Bytes × Bytes × Bool
  | 0, values, l => (values, l, true)
  | n + 1, values, l =>
    let l := skipCommas l.length l
    if l = [] ∨ isNewline (l.headD 0) then (values, l, true)
    else
      match get notCommaOrNewline l with
      | none => (values, l, false)
      | some (elem, rest) =>
        let values := if elem ≠ [] then values ++ [elem] else values
        if rest.headD 0 ≠ 44 then (values, rest, true) else arrayLoop n values rest

/-- `parse_generic_array_hdr`. -/
def parseGenericArrayHdr (values : List Bytes) (l : Bytes) : List Bytes × Bytes × Bool :=
  let finish (values : List Bytes) (l : Bytes) : List Bytes × Bytes × Bool :=
    match parseHdrEnd l with
    | some rest => (values, rest, true)
    | none => (values, l, false)
  if l = [] ∨ isNewline (l.headD 0) then finish values l
  else if arrayMaxCount ≤ values.length then (values, l, false)
  else
    match arrayLoop (arrayMaxCount - values.length) values l with
    | (values, l, true) => finish values l
    | (values, l, false) => (values, l, false)

/-- `parse_hdr_require` and `parse_hdr_supported`. -/
def parseHdrArray (kind : Hdr) (st : ParseState) : ParseState × Bool :=
  match st.info kind with
  | some _ =>
    let (values, input, ok) := parseGenericArrayHdr (st.values kind) st.input
    ({ st with input, values := Function.update st.values kind values }, ok)
  | none =>
    let hdr := st.next
    let (values, input, ok) := parseGenericArrayHdr [] st.input
    ({ st with
        input
        hdrs := if ok then st.hdrs ++ [hdr] else st.hdrs
        info := Function.update st.info kind (some hdr)
        next := st.next + 1
        values := Function.update st.values kind values }, ok)

/-- `count` new headers at the end of the message. -/
def ParseState.insert (st : ParseState) (count : Nat) : ParseState :=
  { st with hdrs := st.hdrs ++ List.range' st.next count, next := st.next + count }

/-- The handler of a header, on the text behind the colon. Of Via, Route and Record-Route the first header is published. -/
def handle (parsers : Parsers) (kind : Hdr) (st : ParseState) : ParseState × Bool :=
  if kind = .require ∨ kind = .supported then parseHdrArray kind st
  else
    match parsers.hdr kind st.input with
    | (none, input) => ({ st with input }, false)
    | (some n, input) =>
      if kind = .other then ({ st with input }.insert n, true)
      else
        let publish := ¬ ((kind = .via ∨ kind = .route ∨ kind = .recordRoute) ∧ (st.info kind).isSome)
        let info := if publish then Function.update st.info kind (some st.next) else st.info
        ({ st with input, info }.insert (n + 1), true)

/-- The name of a header with the text behind its colon; the input is left where the parser throws otherwise. -/
def parseHname (l : Bytes) : Except Bytes (Hdr × Bytes) :=
  match get tokenSpec l with
  | none => .error l
  | some (hname, rest) =>
    match getChar rest with
    | none => .error rest
    | some (c, text) => if c = 58 then .ok (findHandler hname, text) else .error text

/-- `pj_scan_skip_line`. -/
def skipLine (l : Bytes) : Bytes := (l.dropWhile (· ≠ 10)).tail

/-- The lines that are skipped after an exception: the rest of this one and its continuations. -/
def skipLines : Nat → Bytes → Bytes
  | 0, l => l
  | n + 1, l =>
    let l := skipLine l
    if isSpace (l.headD 0) then skipLines n l else l

/-- One turn of the loop, with what follows after an exception. -/
def parseHdr (parsers : Parsers) (st : ParseState) : ParseState × Bool :=
  let (next, ok) :=
    match parseHname st.input with
    | .error input => ({ st with input }, false)
    | .ok (kind, text) => handle parsers kind { st with input := text }
  if ok ∨ next.input = [] then (next, ok) else ({ next with input := skipLines next.input.length next.input }, ok)

/-- There is a next header line. -/
def ParseState.goesOn (st : ParseState) : Prop := st.input ≠ [] ∧ isNewline (st.input.headD 0) = false

instance (st : ParseState) : Decidable st.goesOn := inferInstanceAs (Decidable (_ ∧ _))

/-- The loop over the headers: the message is returned if the last line has been parsed. -/
def parseHdrs (parsers : Parsers) : Nat → ParseState → Option (ParseState × Bool)
  | 0, _ => none
  | n + 1, st =>
    let (next, ok) := parseHdr parsers st
    if next.goesOn then parseHdrs parsers n next else some (next, ok)

def parseStart (input : Bytes) : ParseState :=
  { input, hdrs := [], info := fun _ => none, next := 0, values := fun _ => [] }

/-- The text behind the start line, if there is one and its parser does not throw. -/
def headersAt (parsers : Parsers) (packet : Bytes) : Option Bytes :=
  let l := (skipHeader packet).dropWhile isNewline
  if l = [] then none else parsers.startLine l

/-- `int_parse_msg` up to the body, with a bound for the turns of its loop: the second `none` stands for `NULL`. -/
def intParseMsg (parsers : Parsers) (turns : Nat) (packet : Bytes) : Option (Option ParseState) :=
  match headersAt parsers packet with
  | none => some none
  | some rest => (parseHdrs parsers turns (parseStart rest)).map fun (st, ok) => if ok then some st else none

/-- Every published header is a header of the message. -/
def ParseState.Points (st : ParseState) : Prop := ∀ kind hdr, st.info kind = some hdr → hdr ∈ st.hdrs

/-- The line at the input is not a first Require or Supported header that its handler throws at. -/
def LineOk (st : ParseState) : Prop :=
  ∀ kind text, parseHname st.input = .ok (kind, text) → kind = .require ∨ kind = .supported → st.info kind = none →
    (parseGenericArrayHdr [] text).2.2 = true

/-- That holds of every line that the loop comes to. -/
def LinesOk (parsers : Parsers) : Nat → ParseState → Prop
  | 0, _ => True
  | n + 1, st => LineOk st ∧ ((parseHdr parsers st).1.goesOn → LinesOk parsers n (parseHdr parsers st).1)

/-! The loop comes to an end: each turn takes something from the input. -/

theorem length_dropWhile_le (p : UInt8 → Bool) (l : Bytes) : (l.dropWhile p).length ≤ l.length :=
  (List.dropWhile_suffix p).length_le

theorem length_dropNewline_le (l : Bytes) : (dropNewline l).length ≤ l.length := by
  have htail (c : UInt8) (m : Bytes) : (if m.headD 0 = c then m.tail else m).length ≤ m.length := by
    split
    · rw [List.length_tail]
      exact Nat.sub_le _ _
    · exact le_rfl
  exact (htail 10 _).trans (htail 13 l)

theorem length_skipHeader_le (l : Bytes) : (skipHeader l).length ≤ l.length := by
  have hspace := length_dropWhile_le isSpace l
  have hnewline := length_dropNewline_le (l.dropWhile isSpace)
  have hmore := length_dropWhile_le isSpace (dropNewline (l.dropWhile isSpace))
  unfold skipHeader
  dsimp only
  split <;> omega

theorem length_getChar_lt {l rest : Bytes} {c : UInt8} (h : getChar l = some (c, rest)) : rest.length < l.length := by
  cases l with
  | nil => cases h
  | cons d l =>
    rw [getChar] at h
    split_ifs at h
    obtain ⟨-, rfl⟩ := Prod.mk.inj (Option.some.inj h)
    exact Nat.lt_succ_of_le (length_skipHeader_le l)

theorem length_get_lt {spec : UInt8 → Bool} {l token rest : Bytes} (h : get spec l = some (token, rest)) :
    rest.length < l.length := by
  unfold get at h
  split_ifs at h with hcond
  obtain ⟨-, rfl⟩ := Prod.mk.inj (Option.some.inj h)
  cases l with
  | nil => exact absurd (Or.inl rfl) hcond
  | cons c l =>
    have hc : spec c = true := by simpa using hcond
    rw [List.dropWhile_cons_of_pos hc]
    exact Nat.lt_succ_of_le ((length_skipHeader_le _).trans (length_dropWhile_le spec l))

theorem length_skipCommas_le (n : Nat) (l : Bytes) : (skipCommas n l).length ≤ l.length := by
  induction n generalizing l with
  | zero => exact le_rfl
  | succ n ih =>
    rw [skipCommas]
    split
    · split
      · next hchar => exact (ih _).trans (length_getChar_lt hchar).le
      · exact le_rfl
    · exact le_rfl

theorem length_arrayLoop_le (n : Nat) (values : List Bytes) (l : Bytes) : (arrayLoop n values l).2.1.length ≤ l.length := by
  induction n generalizing values l with
  | zero => exact le_rfl
  | succ n ih =>
    have hcommas := length_skipCommas_le l.length l
    rw [arrayLoop]
    dsimp only
    split
    · exact hcommas
    · split
      · exact hcommas
      · next hget =>
        have hrest := length_get_lt hget
        split
        · exact hrest.le.trans hcommas
        · exact (ih _ _).trans (hrest.le.trans hcommas)

theorem length_parseHdrEnd_le {l rest : Bytes} (h : parseHdrEnd l = some rest) : rest.length ≤ l.length := by
  unfold parseHdrEnd at h
  split_ifs at h
  · rw [Option.some.inj h]
  · obtain ⟨⟨c, m⟩, hchar, rfl⟩ := Option.map_eq_some_iff.mp h
    exact (length_getChar_lt hchar).le
  · unfold getNewline at h
    split_ifs at h
    rw [← Option.some.inj h]
    exact length_dropNewline_le l

theorem length_parseGenericArrayHdr_le (values : List Bytes) (l : Bytes) :
    (parseGenericArrayHdr values l).2.1.length ≤ l.length := by
  have hfinish (values : List Bytes) (m : Bytes) :
      (match parseHdrEnd m with
        | some rest => (values, rest, true)
        | none => (values, m, false)).2.1.length ≤ m.length := by
    cases hend : parseHdrEnd m with
    | none => exact le_rfl
    | some rest => exact length_parseHdrEnd_le hend
  have hloop := length_arrayLoop_le (arrayMaxCount - values.length) values l
  unfold parseGenericArrayHdr
  dsimp only
  split_ifs
  · exact hfinish values l
  · exact le_rfl
  · generalize arrayLoop (arrayMaxCount - values.length) values l = result at hloop ⊢
    obtain ⟨values', rest, ok⟩ := result
    cases ok with
    | false => exact hloop
    | true => exact (hfinish values' rest).trans hloop

theorem length_handle_le (parsers : Parsers) (kind : Hdr) (st : ParseState) :
    (handle parsers kind st).1.input.length ≤ st.input.length := by
  unfold handle
  split
  · unfold parseHdrArray
    cases st.info kind with
    | none => exact length_parseGenericArrayHdr_le [] st.input
    | some hdr => exact length_parseGenericArrayHdr_le (st.values kind) st.input
  · have hle := parsers.hdr_le kind st.input
    generalize parsers.hdr kind st.input = result at hle
    obtain ⟨_ | n, input⟩ := result
    · exact hle
    · dsimp only
      split <;> exact hle

theorem length_parseHname {l text : Bytes} {kind : Hdr} (h : parseHname l = .ok (kind, text)) : text.length < l.length := by
  unfold parseHname at h
  cases hname : get tokenSpec l with
  | none => simp [hname] at h
  | some result =>
    obtain ⟨hname', rest⟩ := result
    cases hchar : getChar rest with
    | none => simp [hname, hchar] at h
    | some result =>
      obtain ⟨c, m⟩ := result
      have hrest := length_get_lt hname
      have hm := length_getChar_lt hchar
      by_cases hc : c = 58 <;> simp [hname, hchar, hc] at h
      rw [← h.2]
      omega

theorem length_parseHname_error {l rest : Bytes} (h : parseHname l = .error rest) : rest.length ≤ l.length := by
  unfold parseHname at h
  cases hname : get tokenSpec l with
  | none => simp_all
  | some result =>
    obtain ⟨hname', m⟩ := result
    have hm := length_get_lt hname
    cases hchar : getChar m with
    | none =>
      simp only [hname, hchar, Except.error.injEq] at h
      rw [← h]
      exact hm.le
    | some result =>
      obtain ⟨c, text⟩ := result
      have htext := length_getChar_lt hchar
      by_cases hc : c = 58 <;> simp [hname, hchar, hc] at h
      rw [← h]
      omega

theorem length_skipLine_le (l : Bytes) : (skipLine l).length ≤ l.length - 1 := by
  rw [skipLine, List.length_tail]
  have := length_dropWhile_le (· ≠ 10) l
  omega

theorem length_skipLines_le (n : Nat) (l : Bytes) : (skipLines (n + 1) l).length ≤ l.length - 1 := by
  induction n generalizing l with
  | zero =>
    rw [skipLines]
    split <;> exact length_skipLine_le l
  | succ n ih =>
    have hline := length_skipLine_le l
    rw [skipLines]
    split
    · have := ih (skipLine l)
      omega
    · exact hline

theorem length_parseHdr_lt {parsers : Parsers} {st : ParseState} (h : (parseHdr parsers st).1.goesOn) :
    (parseHdr parsers st).1.input.length < st.input.length := by
  have hnext : ∃ next : ParseState × Bool, next.1.input.length ≤ st.input.length ∧
      (next.2 = true → next.1.input.length < st.input.length) ∧
      parseHdr parsers st = if next.2 = true ∨ next.1.input = [] then next
        else ({ next.1 with input := skipLines next.1.input.length next.1.input }, next.2) := by
    unfold parseHdr
    cases hname : parseHname st.input with
    | error input => exact ⟨({ st with input }, false), length_parseHname_error hname, nofun, rfl⟩
    | ok result =>
      obtain ⟨kind, text⟩ := result
      have htext := length_parseHname hname
      have hle := length_handle_le parsers kind { st with input := text }
      exact ⟨handle parsers kind { st with input := text }, hle.trans htext.le, fun _ => hle.trans_lt htext, rfl⟩
  obtain ⟨⟨next, ok⟩, hle, hlt, heq⟩ := hnext
  rw [heq] at h ⊢
  split_ifs at h ⊢ with hcond
  · rcases hcond with hok | hnil
    · exact hlt hok
    · exact absurd hnil h.1
  · have hpos : 0 < next.input.length := List.length_pos_iff.mpr fun hnil => hcond (Or.inr hnil)
    have hskip := length_skipLines_le (next.input.length - 1) next.input
    rw [Nat.sub_add_cancel hpos] at hskip
    dsimp only at hle ⊢
    omega

theorem parseHdrs_isSome (parsers : Parsers) {turns : Nat} {st : ParseState} (h : st.input.length < turns) :
    (parseHdrs parsers turns st).isSome := by
  induction turns generalizing st with
  | zero => omega
  | succ n ih =>
    rw [parseHdrs]
    dsimp only
    split
    · next hgoes =>
      have := length_parseHdr_lt hgoes
      exact ih (by omega)
    · rfl

/-! The pointers. -/

/-- The numbers of headers and pointers have been given out. -/
def ParseState.Given (st : ParseState) : Prop := (∀ hdr ∈ st.hdrs, hdr < st.next) ∧ ∀ kind hdr, st.info kind = some hdr → hdr < st.next

/-- A published header that will never be in the message. -/
def ParseState.Lost (st : ParseState) : Prop :=
  ∃ kind hdr, (kind = .require ∨ kind = .supported) ∧ st.info kind = some hdr ∧ hdr ∉ st.hdrs

/-- What a turn adds to the message and to the pointers. -/
structure Adds (st next : ParseState) (ok : Prop) (count : Nat) : Prop where
  hdrs : next.hdrs = st.hdrs ++ List.range' st.next count
  next_le : st.next + count ≤ next.next
  info : next.info = st.info ∧ ok ∨
    ∃ kind, next.info = Function.update st.info kind (some st.next) ∧ st.next < next.next ∧
      (kind = .require ∨ kind = .supported → st.info kind = none) ∧
      (0 < count ∧ ok ∨ (kind = .require ∨ kind = .supported) ∧ count = 0 ∧ ¬ ok)

theorem adds_nothing (st : ParseState) (input : Bytes) {ok : Prop} (hok : ok) : Adds st { st with input } ok 0 :=
  ⟨by simp, le_rfl, Or.inl ⟨rfl, hok⟩⟩

/-- A handler adds headers and publishes the first; for Require and Supported it publishes even if it throws. -/
theorem handle_adds (parsers : Parsers) (kind : Hdr) (st : ParseState) :
    ∃ count, Adds st (handle parsers kind st).1
      (kind = .require ∨ kind = .supported → st.info kind = none → (parseGenericArrayHdr [] st.input).2.2 = true) count := by
  unfold handle
  by_cases harray : kind = .require ∨ kind = .supported
  · rw [if_pos harray, parseHdrArray]
    cases hinfo : st.info kind with
    | some hdr => exact ⟨0, by simp, le_rfl, Or.inl ⟨rfl, fun _ h => nomatch h⟩⟩
    | none =>
      cases hok : (parseGenericArrayHdr [] st.input).2.2 with
      | true => exact ⟨1, by simp [hok], le_rfl, Or.inr ⟨kind, rfl, Nat.lt_succ_self _, fun _ => hinfo, Or.inl ⟨one_pos, by simp⟩⟩⟩
      | false =>
        exact ⟨0, by simp [hok], Nat.le_succ _, Or.inr ⟨kind, rfl, Nat.lt_succ_self _, fun _ => hinfo,
          Or.inr ⟨harray, rfl, by simp [harray]⟩⟩⟩
  · rw [if_neg harray]
    have hok : kind = .require ∨ kind = .supported → st.info kind = none → (parseGenericArrayHdr [] st.input).2.2 = true :=
      fun h => absurd h harray
    generalize parsers.hdr kind st.input = result
    obtain ⟨_ | n, input⟩ := result
    · exact ⟨0, adds_nothing st input hok⟩
    · dsimp only
      split_ifs with hother hpublish
      · exact ⟨n, rfl, le_rfl, Or.inl ⟨rfl, hok⟩⟩
      · exact ⟨n + 1, rfl, le_rfl, Or.inl ⟨rfl, hok⟩⟩
      · exact ⟨n + 1, rfl, le_rfl, Or.inr ⟨kind, rfl, by simp [ParseState.insert], fun h => absurd h harray,
          Or.inl ⟨Nat.succ_pos n, hok⟩⟩⟩

theorem parseHdr_adds (parsers : Parsers) (st : ParseState) : ∃ count, Adds st (parseHdr parsers st).1 (LineOk st) count := by
  have hskip (next : ParseState × Bool) {count : Nat} (h : Adds st next.1 (LineOk st) count) :
      Adds st (if next.2 = true ∨ next.1.input = [] then next
        else ({ next.1 with input := skipLines next.1.input.length next.1.input }, next.2)).1 (LineOk st) count := by
    split
    · exact h
    · exact ⟨h.hdrs, h.next_le, h.info⟩
  unfold parseHdr
  cases hname : parseHname st.input with
  | error input =>
    refine ⟨0, hskip ({ st with input }, false) (adds_nothing st input fun kind text h => ?_)⟩
    rw [hname] at h
    cases h
  | ok result =>
    obtain ⟨kind, text⟩ := result
    obtain ⟨count, hadds⟩ := handle_adds parsers kind { st with input := text }
    have hline : LineOk st ↔ (kind = .require ∨ kind = .supported → st.info kind = none →
        (parseGenericArrayHdr [] text).2.2 = true) := by
      constructor
      · exact fun h => h kind text hname
      · intro h kind' text' hname'
        rw [hname] at hname'
        cases hname'
        exact h
    refine ⟨count, hskip (handle parsers kind { st with input := text }) ⟨hadds.hdrs, hadds.next_le, ?_⟩⟩
    rw [hline]
    exact hadds.info

section Adds

variable {st next : ParseState} {ok : Prop} {count : Nat}

theorem Adds.given (h : Adds st next ok count) (hst : st.Given) : next.Given := by
  have hle := h.next_le
  constructor
  · intro hdr hmem
    rw [h.hdrs, List.mem_append, List.mem_range'_1] at hmem
    rcases hmem with hmem | hmem
    · have := hst.1 hdr hmem
      omega
    · omega
  · intro kind hdr hinfo
    rcases h.info with ⟨hsame, -⟩ | ⟨kind', hupdate, hlt, -⟩
    · rw [hsame] at hinfo
      have := hst.2 kind hdr hinfo
      omega
    · rw [hupdate, Function.update_apply] at hinfo
      split_ifs at hinfo
      · rw [← Option.some.inj hinfo]
        exact hlt
      · have := hst.2 kind hdr hinfo
        omega

theorem Adds.points (h : Adds st next ok count) (hok : ok) (hst : st.Points) : next.Points := by
  intro kind hdr hinfo
  rw [h.hdrs, List.mem_append]
  rcases h.info with ⟨hsame, -⟩ | ⟨kind', hupdate, -, -, ⟨hcount, -⟩ | ⟨-, -, hnot⟩⟩
  · rw [hsame] at hinfo
    exact Or.inl (hst kind hdr hinfo)
  · rw [hupdate, Function.update_apply] at hinfo
    split_ifs at hinfo
    · rw [← Option.some.inj hinfo]
      exact Or.inr (List.mem_range'_1.mpr (by omega))
    · exact Or.inl (hst kind hdr hinfo)
  · exact absurd hok hnot

theorem Adds.lost_of_not (h : Adds st next ok count) (hnot : ¬ ok) (hst : st.Given) : next.Lost := by
  rcases h.info with ⟨-, hok⟩ | ⟨kind, hupdate, -, -, ⟨-, hok⟩ | ⟨harray, hzero, -⟩⟩
  · exact absurd hok hnot
  · exact absurd hok hnot
  · refine ⟨kind, st.next, harray, by rw [hupdate, Function.update_self], fun hmem => ?_⟩
    rw [h.hdrs, hzero, List.range'_zero, List.append_nil] at hmem
    exact lt_irrefl _ (hst.1 _ hmem)

/-- Later lines are merged into the header that was lost. -/
theorem Adds.lost (h : Adds st next ok count) (hst : st.Given) (hlost : st.Lost) : next.Lost := by
  obtain ⟨kind, hdr, harray, hinfo, hout⟩ := hlost
  have hlt := hst.2 kind hdr hinfo
  refine ⟨kind, hdr, harray, ?_, fun hmem => ?_⟩
  · rcases h.info with ⟨hsame, -⟩ | ⟨kind', hupdate, -, hnone, -⟩
    · rw [hsame, hinfo]
    · rw [hupdate, Function.update_apply, hinfo]
      split_ifs with heq
      · subst heq
        rw [hnone harray] at hinfo
        cases hinfo
      · rfl
  · rw [h.hdrs, List.mem_append, List.mem_range'_1] at hmem
    rcases hmem with hmem | hmem
    · exact hout hmem
    · omega

end Adds

theorem not_points_of_lost {st : ParseState} (h : st.Lost) : ¬ st.Points := by
  obtain ⟨kind, hdr, -, hinfo, hout⟩ := h
  exact fun hpoints => hout (hpoints kind hdr hinfo)

theorem parseHdrs_lost {parsers : Parsers} {turns : Nat} {st last : ParseState} {ok : Bool} (hst : st.Given) (hlost : st.Lost)
    (h : parseHdrs parsers turns st = some (last, ok)) : last.Lost := by
  induction turns generalizing st with
  | zero => cases h
  | succ n ih =>
    obtain ⟨count, hadds⟩ := parseHdr_adds parsers st
    rw [parseHdrs] at h
    dsimp only at h
    split at h
    · exact ih (hadds.given hst) (hadds.lost hst hlost) h
    · rw [← (Prod.mk.inj (Option.some.inj h)).1]
      exact hadds.lost hst hlost

/-- From a state whose pointers are right, they are right at the end exactly when every line on the way is. -/
theorem parseHdrs_points_iff {parsers : Parsers} {turns : Nat} {st last : ParseState} {ok : Bool} (hst : st.Given)
    (hpoints : st.Points) (h : parseHdrs parsers turns st = some (last, ok)) : last.Points ↔ LinesOk parsers turns st := by
  induction turns generalizing st with
  | zero => cases h
  | succ n ih =>
    obtain ⟨count, hadds⟩ := parseHdr_adds parsers st
    rw [parseHdrs] at h
    dsimp only at h
    rw [LinesOk]
    by_cases hline : LineOk st
    · rw [and_iff_right hline]
      split at h
      · next hgoes =>
        rw [imp_iff_right hgoes]
        exact ih (hadds.given hst) (hadds.points hline hpoints) h
      · next hgoes =>
        rw [← (Prod.mk.inj (Option.some.inj h)).1]
        exact iff_of_true (hadds.points hline hpoints) fun hyes => absurd hyes hgoes
    · refine iff_of_false (not_points_of_lost ?_) fun hyes => hline hyes.1
      split at h
      · exact parseHdrs_lost (hadds.given hst) (hadds.lost_of_not hline hst) h
      · rw [← (Prod.mk.inj (Option.some.inj h)).1]
        exact hadds.lost_of_not hline hst

/-- The parser ends, and in a message that it returns every pointer is one to a header of the message, exactly when no first
Require or Supported header of the packet is dropped. -/
theorem intParseMsg_points_iff (parsers : Parsers) (packet : Bytes) :
    ∃ result, intParseMsg parsers (packet.length + 1) packet = some result ∧
      ∀ st, result = some st →
        (st.Points ↔ ∀ rest, headersAt parsers packet = some rest → LinesOk parsers (packet.length + 1) (parseStart rest)) := by
  unfold intParseMsg
  cases hat : headersAt parsers packet with
  | none => exact ⟨none, rfl, nofun⟩
  | some rest =>
    have hlen : rest.length ≤ packet.length := by
      unfold headersAt at hat
      dsimp only at hat
      split_ifs at hat
      exact (parsers.startLine_le _ _ hat).trans ((length_dropWhile_le _ _).trans (length_skipHeader_le packet))
    obtain ⟨⟨last, ok⟩, hrun⟩ := Option.isSome_iff_exists.mp
      (parseHdrs_isSome parsers (show (parseStart rest).input.length < packet.length + 1 by exact Nat.lt_succ_of_le hlen))
    refine ⟨if ok then some last else none, by simp [hrun], fun st hst => ?_⟩
    cases ok with
    | false => cases hst
    | true =>
      obtain rfl := Option.some.inj hst
      have hiff := @parseHdrs_points_iff _ _ (parseStart rest) _ _ ⟨nofun, nofun⟩ nofun hrun
      exact hiff.trans ⟨fun h rest' heq => (Option.some.inj heq) ▸ h, fun h => h rest rfl⟩

/-- Handlers that skip the line, and one for `OPTIONS sip:a SIP/2.0`. -/
def lineParsers : Parsers where
  startLine text := some (skipLine text)
  hdr kind text := (some (if kind = .other then 1 else 0), skipLine text)
  startLine_le text _ h := (Option.some.inj h) ▸ (length_skipLine_le text).trans (Nat.sub_le _ _)
  hdr_le _ text := (length_skipLine_le text).trans (Nat.sub_le _ _)

/-- A packet with a NUL in its Require line, and another header. -/
def nulPacket : Bytes :=
  ascii "OPTIONS sip:a SIP/2.0" ++ [13, 10] ++ ascii "Require: a" ++ [0, 13, 10] ++ ascii "X: y" ++ [13, 10, 13, 10]

/-- The Require header is published and not in the message. -/
theorem require_lost : ∃ st, intParseMsg lineParsers 3 nulPacket = some (some st) ∧ st.info .require = some 0 ∧ ¬ st.Points := by
  have hrun : (intParseMsg lineParsers 3 nulPacket).map (·.map fun st => (st.info .require, st.hdrs)) =
      some (some (some 0, [1])) := by decide +kernel
  obtain ⟨result, hresult, hpart⟩ := Option.map_eq_some_iff.mp hrun
  obtain ⟨st, rfl, hst⟩ := Option.map_eq_some_iff.mp hpart
  obtain ⟨hinfo, hhdrs⟩ := Prod.mk.inj hst
  refine ⟨st, hresult, hinfo, fun hpoints => ?_⟩
  have hmem := hpoints _ _ hinfo
  rw [hhdrs] at hmem
  exact absurd hmem (by decide)

end PjProject.Sip
