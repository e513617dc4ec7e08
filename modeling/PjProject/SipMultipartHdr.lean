import PjProject.SipMessages
import PjProject.SipMultipart
import PjProject.SipMultipartPrint

/-! The headers of a part that were printed are parsed again. The Content-Type header gives the media type that it was printed
for, and the loop over the lines the media type of the last such header. -/

namespace PjProject.Multipart

open Sip (Bytes get getChar skipHeader parseHname skipLines skipLine isDigit strtoiValidate findHandler skipHeader_cons
  skipHeader_lineEnd skipHeader_spaces digit_plain)
open Scan (isNewline isSpace)
open TsxKey (tokenSpec parsePvalue Quoted)
open SipUriCmp (Param)
open MsgPrint (crlf ended clenLine clenHdr ctypeHdr)

/-! The content types. -/

def Stops (text : Bytes) : Prop := skipHeader text = text ∧ tokenSpec (text.headD 0) = false

theorem stops_cons {c : UInt8} (hspace : isSpace c = false) (hnewline : isNewline c = false) (htoken : tokenSpec c = false)
    (l : Bytes) : Stops (c :: l) := ⟨skipHeader_cons hspace hnewline l, htoken⟩

theorem tokenSpec_cr : tokenSpec 13 = false := by decide

/-- The end of a line, unless the header is continued. -/
theorem stops_crlf {rest : Bytes} (h : isSpace (rest.headD 0) = false) : Stops (crlf ++ rest) :=
  ⟨skipHeader_lineEnd (fun _ hc => absurd hc List.not_mem_nil) h, tokenSpec_cr⟩

theorem token_plain {c : UInt8} (h : tokenSpec c = true) : isSpace c = false ∧ isNewline c = false ∧ c ≠ 0 := by
  refine ⟨?_, ?_, ?_⟩
  · by_contra hspace
    rw [Bool.not_eq_false, isSpace, Bool.or_eq_true, beq_iff_eq, beq_iff_eq] at hspace
    rcases hspace with rfl | rfl <;> (revert h; decide)
  · by_contra hnewline
    rw [Bool.not_eq_false, isNewline, Bool.or_eq_true, beq_iff_eq, beq_iff_eq] at hnewline
    rcases hnewline with rfl | rfl <;> (revert h; decide)
  · rintro rfl
    revert h
    decide

/-- A token, which the scanner takes as a whole. -/
structure Token (text : Bytes) : Prop where
  ne_nil : text ≠ []
  spec : ∀ c ∈ text, tokenSpec c = true

theorem token_of_all {text : Bytes} (hne : text ≠ []) (h : text.all tokenSpec = true) : Token text :=
  ⟨hne, List.all_eq_true.mp h⟩

theorem Token.skip {text : Bytes} (h : Token text) (l : Bytes) : skipHeader (text ++ l) = text ++ l := by
  obtain ⟨c, text', rfl⟩ := List.exists_cons_of_ne_nil h.ne_nil
  have hc := token_plain (h.spec c List.mem_cons_self)
  exact skipHeader_cons hc.1 hc.2.1 _

theorem while_append {spec : UInt8 → Bool} {text l : Bytes} (h : ∀ c ∈ text, spec c = true) (hl : spec (l.headD 0) = false) :
    (text ++ l).takeWhile spec = text ∧ (text ++ l).dropWhile spec = l := by
  rw [List.takeWhile_append_of_pos h, List.dropWhile_append_of_pos h]
  cases l with
  | nil => exact ⟨List.append_nil _, rfl⟩
  | cons c l =>
    have hc : ¬spec c = true := by
      rw [Bool.not_eq_true]
      exact hl
    rw [List.takeWhile_cons_of_neg hc, List.dropWhile_cons_of_neg hc, List.append_nil]
    exact ⟨rfl, rfl⟩

theorem get_append {spec : UInt8 → Bool} {text l : Bytes} (hne : text ≠ []) (h : ∀ c ∈ text, spec c = true)
    (hskip : skipHeader l = l) (hl : spec (l.headD 0) = false) : get spec (text ++ l) = some (text, l) := by
  obtain ⟨htake, hdrop⟩ := while_append h hl
  obtain ⟨c, text', rfl⟩ := List.exists_cons_of_ne_nil hne
  have hc := h c List.mem_cons_self
  rw [Sip.get, htake, hdrop, hskip, if_neg (by simp [hc])]

theorem Token.get {text l : Bytes} (h : Token text) (hl : Stops l) : get tokenSpec (text ++ l) = some (text, l) :=
  get_append h.ne_nil h.spec hl.1 hl.2

theorem getChar_cons {c : UInt8} (hc : c ≠ 0) {l : Bytes} (hl : skipHeader l = l) : getChar (c :: l) = some (c, l) := by
  rw [getChar, if_neg hc, hl]

/-- What a value of a parameter is: missing, a token or a quoted string on one line. -/
def ParamValue (value : Bytes) : Prop := value = [] ∨ Token value ∨ (Quoted value ∧ 10 ∉ value)

structure WellFormed (media : MediaType) : Prop where
  type : Token media.type
  subtype : Token media.subtype
  name : ∀ p ∈ media.param, Token p.name
  value : ∀ p ∈ media.param, ParamValue p.value

/-- `pjsip_param_print_on`, where nothing has to be escaped. -/
def paramText (p : Param) : Bytes := 59 :: (p.name ++ if p.value = [] then [] else 61 :: p.value)

def mediaText (media : MediaType) : Bytes :=
  media.type ++ 47 :: (media.subtype ++ media.param.flatMap paramText)

theorem parsePvalue_append {value l : Bytes} (hne : value ≠ []) (h : ParamValue value) (hl : Stops l) :
    parsePvalue tokenSpec (value ++ l) = some value ∧ skipHeader (value ++ l) = value ++ l := by
  rcases h with rfl | htoken | ⟨⟨w, rfl, hclose⟩, -⟩
  · exact absurd rfl hne
  · refine ⟨?_, htoken.skip l⟩
    obtain ⟨htake, -⟩ := while_append htoken.spec hl.2
    obtain ⟨c, text, rfl⟩ := List.exists_cons_of_ne_nil hne
    have hc := htoken.spec c List.mem_cons_self
    have hpeek : Scan.Input.peek (c :: text ++ l) = c := rfl
    have hcons : c :: text ++ l ≠ [] := List.cons_ne_nil _ _
    rw [parsePvalue, if_neg hcons, hpeek, if_neg (TsxKey.token_ne hc).1, if_pos hc, Scan.Input.get, hpeek,
      if_neg (by simp [hc]), Option.map_some, Scan.Input.token, htake, List.take_left]
  · refine ⟨?_, skipHeader_cons (by decide) (by decide) _⟩
    have hpos : 0 < w.length := by
      refine List.length_pos_iff.mpr ?_
      rintro rfl
      cases hclose []
    have hpeek : Scan.Input.peek (34 :: w ++ l) = 34 := rfl
    have hcons : 34 :: w ++ l ≠ [] := List.cons_ne_nil _ _
    rw [parsePvalue, if_neg hcons, hpeek, if_pos rfl, List.cons_append, TsxKey.getQuotes_quote, hclose, Option.map_some,
      Option.map_some, Scan.Input.token, show w.length - 1 + 2 = (34 :: w).length by rw [List.length_cons]; omega]
    exact congrArg some (@List.take_left _ (34 :: w) l)

theorem scanned_some {α : Type} (l : Bytes) (x : α) : scanned l (some x) = .ok x := rfl

theorem parseParam_append {p : Param} (hname : Token p.name) (hvalue : ParamValue p.value) {l : Bytes} (hl : Stops l)
    (hne : l.headD 0 ≠ 61) : parseParam (paramText p ++ l) = .ok (p, l) := by
  rw [paramText, List.cons_append, List.append_assoc, parseParam, getChar_cons (by decide) (hname.skip _), scanned_some,
    Except.bind]
  dsimp only
  by_cases hnil : p.value = []
  · rw [if_pos hnil, List.nil_append, hname.get hl, scanned_some, Except.bind]
    dsimp only
    rw [if_neg hne, ← hnil]
  · obtain ⟨hparse, hskip⟩ := parsePvalue_append hnil hvalue hl
    have hequal : Stops (61 :: (p.value ++ l)) := stops_cons (by decide) (by decide) (by decide) _
    rw [if_neg hnil, List.cons_append, hname.get hequal, scanned_some, Except.bind]
    dsimp only
    rw [List.headD_cons, if_pos rfl, getChar_cons (by decide) hskip, scanned_some, Except.bind]
    dsimp only
    rw [hparse, Option.map_some, scanned_some, if_neg hnil, List.drop_left, hl.1]

/-- What follows a parameter: another one, or the end of the line. -/
theorem stops_params (params : List Param) {l : Bytes} (hl : Stops l) (hne : l.headD 0 ≠ 61) :
    Stops (params.flatMap paramText ++ l) ∧ (params.flatMap paramText ++ l).headD 0 ≠ 61 := by
  cases params with
  | nil => exact ⟨hl, hne⟩
  | cons p params =>
    have hsemicolon (t : Bytes) : Stops (59 :: t) := stops_cons (by decide) (by decide) (by decide) t
    exact ⟨hsemicolon _, fun heq => absurd (show (59 : UInt8) = 61 from heq) (by decide)⟩

theorem parseParams_append {params : List Param} (hname : ∀ p ∈ params, Token p.name)
    (hvalue : ∀ p ∈ params, ParamValue p.value) {l : Bytes} (hl : Stops l) (hne : l.headD 0 ≠ 61) (hend : l.headD 0 ≠ 59)
    (turns : Nat) (hturns : params.length < turns) :
    parseParams turns (params.flatMap paramText ++ l) = some (.ok (params, l)) := by
  induction params generalizing turns with
  | nil =>
    obtain ⟨turns, rfl⟩ := Nat.exists_eq_add_one_of_ne_zero (Nat.ne_of_gt hturns)
    rw [parseParams, List.flatMap_nil, List.nil_append, if_pos hend]
  | cons p params ih =>
    obtain ⟨turns, rfl⟩ := Nat.exists_eq_add_one_of_ne_zero (Nat.ne_of_gt (Nat.zero_lt_of_lt hturns))
    obtain ⟨hstops, hnext⟩ := stops_params params hl hne
    have hmore := ih (fun p hp => hname p (List.mem_cons_of_mem _ hp)) (fun p hp => hvalue p (List.mem_cons_of_mem _ hp))
      _ (Nat.lt_of_succ_lt_succ hturns)
    have hhead : ¬(paramText p ++ (params.flatMap paramText ++ l)).headD 0 ≠ 59 := not_not.mpr rfl
    rw [List.flatMap_cons, List.append_assoc, parseParams, if_neg hhead,
      parseParam_append (hname p List.mem_cons_self) (hvalue p List.mem_cons_self) hstops hnext]
    dsimp only
    rw [hmore]
    rfl

theorem length_params (params : List Param) : params.length ≤ (params.flatMap paramText).length := by
  induction params with
  | nil => exact Nat.le_refl 0
  | cons p params ih =>
    rw [List.flatMap_cons, List.length_append, List.length_cons, paramText, List.length_cons]
    omega

theorem parseHdrContentType_append {media : MediaType} (h : WellFormed media) {rest : Bytes}
    (hrest : isSpace (rest.headD 0) = false) :
    parseHdrContentType (mediaText media ++ (crlf ++ rest)) = some (.ok (media, rest)) := by
  have hcrlf := stops_crlf hrest
  have hcr : (crlf ++ rest).headD 0 = 13 := rfl
  obtain ⟨hstops, -⟩ := stops_params media.param hcrlf (by rw [hcr]; decide)
  have hslash (t : Bytes) : Stops (47 :: t) := stops_cons (by decide) (by decide) (by decide) t
  have htypes : parseTypes (mediaText media ++ (crlf ++ rest)) =
      .ok ((media.type, media.subtype), media.param.flatMap paramText ++ (crlf ++ rest)) := by
    rw [mediaText, List.append_assoc, List.cons_append, List.append_assoc, parseTypes, h.type.get (hslash _), scanned_some,
      Except.bind]
    dsimp only
    rw [getChar_cons (by decide) (h.subtype.skip _), scanned_some, Except.bind]
    dsimp only
    rw [h.subtype.get hstops, scanned_some, Except.bind]
  have hturns : media.param.length < (media.param.flatMap paramText ++ (crlf ++ rest)).length + 1 := by
    rw [List.length_append]
    have := length_params media.param
    omega
  have hparams := parseParams_append h.name h.value hcrlf (by rw [hcr]; decide) (by rw [hcr]; decide)
    ((media.param.flatMap paramText ++ (crlf ++ rest)).length + 1) hturns
  rw [parseHdrContentType, htypes]
  dsimp only
  rw [hparams]
  rfl

/-! The header lines. -/

structure Reads (handlers : Handlers) (line : Bytes) (media : Option MediaType) : Prop where
  starts : isSpace (line.headD 10) = false ∧ isNewline (line.headD 10) = false
  no_lf : 10 ∉ line
  reads : ∀ rest, isSpace (rest.headD 0) = false → nextHdr handlers (line ++ (crlf ++ rest)) = some (media, rest)

theorem skipHeader_blank (l : Bytes) : skipHeader (32 :: l) = skipHeader l := by
  rw [skipHeader, skipHeader, List.dropWhile_cons_of_pos (by decide)]

theorem parseHname_token {name : Bytes} (hname : Token name) (l : Bytes) :
    parseHname (name ++ 58 :: 32 :: l) = .ok (findHandler name, skipHeader l) := by
  have hcolon : Stops (58 :: 32 :: l) := stops_cons (by decide) (by decide) (by decide) _
  rw [parseHname, hname.get hcolon]
  dsimp only
  rw [getChar, if_neg (by decide), skipHeader_blank]
  rfl

theorem Token.no_lf {text : Bytes} (h : Token text) : 10 ∉ text := fun hmem => absurd (h.spec 10 hmem) (by decide)

theorem Token.head {text : Bytes} (h : Token text) (l : Bytes) :
    isSpace ((text ++ l).headD 10) = false ∧ isNewline ((text ++ l).headD 10) = false := by
  obtain ⟨c, text', rfl⟩ := List.exists_cons_of_ne_nil h.ne_nil
  have hc := token_plain (h.spec c List.mem_cons_self)
  exact ⟨hc.1, hc.2.1⟩

theorem mediaText_no_lf {media : MediaType} (h : WellFormed media) : 10 ∉ mediaText media := by
  rw [mediaText, List.mem_append, List.mem_cons, List.mem_append, List.mem_flatMap]
  rintro (htype | hslash | hsub | ⟨p, hp, hmem⟩)
  · exact h.type.no_lf htype
  · exact absurd hslash (by decide)
  · exact h.subtype.no_lf hsub
  · rw [paramText, List.mem_cons, List.mem_append] at hmem
    rcases hmem with hsep | hname | hvalue
    · exact absurd hsep (by decide)
    · exact (h.name p hp).no_lf hname
    · split_ifs at hvalue
      · cases hvalue
      · rcases List.mem_cons.mp hvalue with heq | hvalue
        · exact absurd heq (by decide)
        · rcases h.value p hp with hnil | htoken | hquoted
          · rw [hnil] at hvalue
            cases hvalue
          · exact htoken.no_lf hvalue
          · exact hquoted.2 hvalue

theorem ctypeHdr_name (compact : Bool) :
    ∃ name, ctypeHdr compact = name ++ [58, 32] ∧ Token name ∧ findHandler name = .ctype := by
  cases compact with
  | false => exact ⟨ascii "Content-Type", by decide +kernel, token_of_all (by decide +kernel) (by decide), by decide +kernel⟩
  | true => exact ⟨ascii "c", by decide, token_of_all (by decide) (by decide), by decide⟩

theorem clenHdr_name : ∃ name, clenHdr false = name ++ [58, 32] ∧ Token name ∧ findHandler name = .clen :=
  ⟨ascii "Content-Length", by decide, token_of_all (by decide) (by decide), by decide⟩

theorem reads_ctype (handlers : Handlers) (compact : Bool) {media : MediaType} (h : WellFormed media) :
    Reads handlers (ctypeHdr compact ++ mediaText media) (some media) := by
  obtain ⟨name, heq, hname, hfind⟩ := ctypeHdr_name compact
  rw [heq, List.append_assoc]
  refine ⟨hname.head _, ?_, fun rest hrest => ?_⟩
  · rw [List.mem_append, List.mem_append]
    rintro (hmem | hmem | hmem)
    · exact hname.no_lf hmem
    · exact absurd hmem (by decide)
    · exact mediaText_no_lf h hmem
  · have hline : name ++ ([58, 32] ++ mediaText media) ++ (crlf ++ rest) =
        name ++ 58 :: 32 :: (mediaText media ++ (crlf ++ rest)) := by simp
    have hskip : skipHeader (mediaText media ++ (crlf ++ rest)) = mediaText media ++ (crlf ++ rest) := by
      rw [mediaText, List.append_assoc]
      exact h.type.skip _
    rw [hline, nextHdr, parseLine, parseHname_token hname, hfind, hskip]
    dsimp only
    rw [if_pos rfl, parseHdrContentType_append h hrest]
    rfl

theorem isDigit_utoa (n : Nat) : ∀ c ∈ Numbers.written (Numbers.utoa n), isDigit c = true := by
  intro c hc
  rw [TsxKey.written_utoa] at hc
  obtain ⟨d, hd, rfl⟩ := List.mem_map.mp hc
  have hlt := Numbers.lowDigits_lt (List.mem_reverse.mp hd)
  interval_cases d <;> decide

theorem utoa_ne_nil (n : Nat) : Numbers.written (Numbers.utoa n) ≠ [] := by
  rw [TsxKey.written_utoa, Ne, List.map_eq_nil_iff, List.reverse_eq_nil_iff]
  exact Numbers.lowDigits_ne_nil n

/-- The scanner reads the digits up to the end of the line, or throws there. -/
theorem parseHdrContentLen_append {digits rest : Bytes} (hne : digits ≠ []) (h : ∀ c ∈ digits, isDigit c = true)
    (hrest : isSpace (rest.headD 0) = false) :
    parseHdrContentLen (digits ++ (crlf ++ rest)) = .error (crlf ++ rest) ∨
      ∃ len, parseHdrContentLen (digits ++ (crlf ++ rest)) = .ok (len, rest) := by
  have hdigits : Sip.get isDigit (digits ++ (crlf ++ rest)) = some (digits, crlf ++ rest) :=
    get_append hne h (stops_crlf hrest).1 (by rfl)
  rw [parseHdrContentLen, hdigits, scanned_some, Except.bind]
  dsimp only
  cases strtoiValidate digits 0 0x7FFFFFFF with
  | none => exact .inl rfl
  | some len => exact .inr ⟨len, rfl⟩

theorem reads_clen (handlers : Handlers) (n : Nat) : Reads handlers (clenLine n) none := by
  obtain ⟨name, heq, hname, hfind⟩ := clenHdr_name
  have hdigits := isDigit_utoa n
  have hne := utoa_ne_nil n
  rw [clenLine, heq, List.append_assoc]
  generalize Numbers.written (Numbers.utoa n) = digits at hdigits hne
  refine ⟨hname.head _, ?_, fun rest hrest => ?_⟩
  · rw [List.mem_append, List.mem_append, List.mem_append]
    rintro (hmem | hmem | hmem | hmem)
    · exact hname.no_lf hmem
    · exact absurd hmem (by decide)
    · exact absurd (List.eq_of_mem_replicate hmem) (by decide)
    · exact absurd (hdigits 10 hmem) (by decide)
  · have hline : name ++ ([58, 32] ++ (List.replicate (MsgPrint.clenSpace - digits.length) 32 ++ digits)) ++ (crlf ++ rest) =
        name ++ 58 :: 32 :: (List.replicate (MsgPrint.clenSpace - digits.length) 32 ++ (digits ++ (crlf ++ rest))) := by simp
    have hskip : skipHeader (List.replicate (MsgPrint.clenSpace - digits.length) 32 ++ (digits ++ (crlf ++ rest))) =
        digits ++ (crlf ++ rest) := by
      obtain ⟨c, digits', rfl⟩ := List.exists_cons_of_ne_nil hne
      obtain ⟨hspace, hnewline, -⟩ := digit_plain (hdigits c List.mem_cons_self)
      exact skipHeader_spaces (fun d hd => by rw [List.eq_of_mem_replicate hd]; rfl) hspace hnewline _
    have hkind : parseLine handlers (name ++ 58 :: 32 :: (List.replicate (MsgPrint.clenSpace - digits.length) 32 ++
          (digits ++ (crlf ++ rest)))) =
        some ((parseHdrContentLen (digits ++ (crlf ++ rest))).map fun x => (none, x.2)) := by
      rw [parseLine, parseHname_token hname, hfind, hskip]
      rfl
    rw [hline, nextHdr, hkind]
    rcases parseHdrContentLen_append hne hdigits hrest with herror | ⟨len, hok⟩
    · -- the rest of the line is skipped, and nothing more
      have hlines : skipLines (crlf ++ rest).length (crlf ++ rest) = rest := by
        have hrest' : skipLine (crlf ++ rest) = rest := rfl
        rw [show (crlf ++ rest).length = rest.length + 1 + 1 from rfl, skipLines, hrest',
          if_neg (by rw [hrest]; exact Bool.false_ne_true)]
      rw [herror]
      exact congrArg (fun l => some (none, l)) hlines
    · rw [hok]
      rfl

def lastMedia (medias : List (Option MediaType)) : Option MediaType := medias.foldr (fun media later => later.or media) none

theorem lastMedia_eq {medias : List (Option MediaType)} {media : MediaType} (h : ∀ m ∈ medias, m = none ∨ m = some media) :
    lastMedia medias = if some media ∈ medias then some media else none := by
  induction medias with
  | nil => rfl
  | cons m medias ih =>
    have hmore := ih fun m hm => h m (List.mem_cons_of_mem _ hm)
    have hcons : lastMedia (m :: medias) = (lastMedia medias).or m := rfl
    rw [hcons, hmore]
    rcases h m List.mem_cons_self with rfl | rfl
    · by_cases hmem : some media ∈ medias <;> simp [hmem]
    · by_cases hmem : some media ∈ medias <;> simp [hmem]

/-- What stands behind the headers: nothing, or an empty line. -/
def HdrEnd (text : Bytes) : Prop := text = [] ∨ text = crlf

theorem ended_cons (line : Bytes) (lines : List Bytes) (text : Bytes) :
    ended (line :: lines) ++ text = line ++ (crlf ++ (ended lines ++ text)) := by
  simp [ended]

theorem next_line {handlers : Handlers} {lines : List Bytes} {medias : List (Option MediaType)}
    (h : List.Forall₂ (Reads handlers) lines medias) {text : Bytes} (htext : HdrEnd text) :
    isSpace ((ended lines ++ text).headD 0) = false ∧
      (ended lines ++ text ≠ [] ∧ isNewline ((ended lines ++ text).headD 0) = false ↔ lines ≠ []) := by
  cases h with
  | nil => rcases htext with rfl | rfl <;> simp [ended, crlf, isSpace, isNewline]
  | @cons line media lines medias hline hlines =>
    obtain ⟨hspace, hnewline⟩ := hline.starts
    rw [ended_cons]
    cases line with
    | nil => exact absurd hnewline (by decide)
    | cons c line => exact ⟨hspace, fun _ => List.cons_ne_nil _ _, fun _ => ⟨List.cons_ne_nil _ _, hnewline⟩⟩

theorem hdrLoop_lines {handlers : Handlers} {lines : List Bytes} {medias : List (Option MediaType)}
    (h : List.Forall₂ (Reads handlers) lines medias) (hne : lines ≠ []) {text : Bytes} (htext : HdrEnd text) {turns : Nat}
    (hturns : lines.length < turns) : hdrLoop handlers turns (ended lines ++ text) = some (lastMedia medias) := by
  induction h generalizing turns with
  | nil => exact absurd rfl hne
  | @cons line media lines medias hline hlines ih =>
    obtain ⟨turns, rfl⟩ := Nat.exists_eq_add_one_of_ne_zero (Nat.ne_of_gt (Nat.zero_lt_of_lt hturns))
    obtain ⟨hspace, hnext⟩ := next_line hlines htext
    rw [ended_cons, hdrLoop, hline.reads _ hspace, Option.bind_some]
    dsimp only
    by_cases hnil : lines = []
    · rw [if_neg fun hmore => hnext.mp hmore hnil]
      subst hnil
      cases hlines
      rfl
    · rw [if_pos (hnext.mpr hnil), ih hnil (Nat.lt_of_succ_lt_succ hturns)]
      rfl

theorem length_ended (lines : List Bytes) : lines.length ≤ (ended lines).length := by
  induction lines with
  | nil => exact Nat.le_refl 0
  | cons line lines ih =>
    have hcons := ended_cons line lines []
    rw [List.append_nil, List.append_nil] at hcons
    rw [hcons, List.length_append, List.length_append, List.length_cons]
    have : crlf.length = 2 := rfl
    omega

theorem parseHeaders_lines {handlers : Handlers} {lines : List Bytes} {medias : List (Option MediaType)}
    (h : List.Forall₂ (Reads handlers) lines medias) (hne : lines ≠ []) {text : Bytes} (htext : HdrEnd text) :
    parseHeaders handlers (ended lines ++ text) = some (lastMedia medias) := by
  obtain ⟨hspace, hnext⟩ := next_line h htext
  obtain ⟨hcons, hnewline⟩ := hnext.mpr hne
  have hskip : skipHeader (ended lines ++ text) = ended lines ++ text := by
    obtain ⟨c, l, heq⟩ := List.exists_cons_of_ne_nil hcons
    rw [heq] at hspace hnewline ⊢
    exact skipHeader_cons hspace hnewline l
  rw [parseHeaders, hskip]
  refine hdrLoop_lines h hne htext (Nat.lt_succ_of_le ?_)
  rw [List.length_append]
  exact (length_ended lines).trans (Nat.le_add_right _ _)

end PjProject.Multipart
