import PjProject.Bytes
import PjProject.Runs

/-! The text scanner (`scanner.c`). Pointers are addresses below `word`, the size of the address space, and
the buffer is NUL-terminated: the byte at `end` is zero. A syntax error calls the callback, which throws or
returns; either way the scanner is as before, and the operation gives `none` here. -/

namespace PjProject.Scan

/-- `pj_str_t`. -/
structure Str where
  ptr : Nat
  slen : Nat
  deriving DecidableEq, Repr

/-- `pj_scanner`; `buf` holds the bytes from `begin` up to `end`. -/
structure Scanner where
  buf : List UInt8
  begin : Nat
  curptr : Nat
  line : Nat
  startLine : Nat
  skipWs : Nat
  deriving DecidableEq, Repr

/-- `pj_scan_state`. -/
structure ScanState where
  curptr : Nat
  line : Nat
  startLine : Nat
  deriving DecidableEq, Repr

/-- `PJ_SCAN_AUTOSKIP_WS`, `PJ_SCAN_AUTOSKIP_WS_HEADER` and `PJ_SCAN_AUTOSKIP_NEWLINE`. -/
def autoskipWs : Nat := 1
def autoskipWsHeader : Nat := 3
def autoskipNewline : Nat := 4

def isSpace (c : UInt8) : Bool := c == 32 || c == 9

def isNewline (c : UInt8) : Bool := c == 13 || c == 10

/-- `PJ_SCAN_IS_PROBABLY_SPACE` of a signed `char`. -/
def isProbablySpace (c : UInt8) : Bool := c ≤ 32 || 128 ≤ c

/-- The value of a signed `char`. -/
def charVal (c : UInt8) : Int := if c < 128 then c.toNat else c.toNat - 256

def isxdigit (c : UInt8) : Bool := (48 ≤ c && c ≤ 57) || (65 ≤ c && c ≤ 70) || (97 ≤ c && c ≤ 102)

/-- `pj_hex_digit_to_val`. -/
def hexDigitToVal (c : UInt8) : UInt8 :=
  if c ≤ 57 then (c - 48) &&& 0x0F
  else if c ≤ 70 then (c - 65 + 10) &&& 0x0F
  else (c - 97 + 10) &&& 0x0F

namespace Scanner

/-- `end`. -/
def stop (s : Scanner) : Nat := s.begin + s.buf.length

/-- The bytes from `curptr` up to `end`. -/
def rest (s : Scanner) : List UInt8 := s.buf.drop (s.curptr - s.begin)

/-- `pj_scan_is_eof`. -/
def isEof (s : Scanner) : Bool := s.stop ≤ s.curptr

def byte (s : Scanner) (p : Nat) : UInt8 := byteAt s.buf (p - s.begin)

/-- How far `while (s != end && p(*s)) ++s` goes from the address `start`. -/
def run (s : Scanner) (start : Nat) (p : UInt8 → Bool) : Nat :=
  ((s.buf.drop (start - s.begin)).takeWhile p).length

/-- The loop over several lines of `pj_scan_skip_whitespace`, for the bytes from `pos` on: where it ends,
the line and where the line starts. -/
def skipNewlines : List UInt8 → Nat → Nat → Nat → Nat × Nat × Nat
  | [], pos, line, startLine => (pos, line, startLine)
  | c :: more, pos, line, startLine =>
    if c = 13 then
      match more with
      | [] => (pos + 1, line, startLine)
      | c' :: more' =>
        if c' = 10 then skipNewlines more' (pos + 2) (line + 1) (pos + 2)
        else skipNewlines (c' :: more') (pos + 1) (line + 1) (pos + 1)
    else if c = 10 then skipNewlines more (pos + 1) (line + 1) (pos + 1)
    else if isSpace c then skipNewlines more (pos + 1) line startLine
    else (pos, line, startLine)

/-- The header continuation of `pj_scan_skip_whitespace`, from the newline at `pos` on. -/
def skipContinuation (s : Scanner) (pos : Nat) : Scanner :=
  let pos' := if s.byte pos = 13 then pos + 1 else pos
  let pos' := if pos' ≠ s.stop ∧ s.byte pos' = 10 then pos' + 1 else pos'
  if pos' ≠ s.stop ∧ isSpace (s.byte pos') then
    { s with curptr := pos' + s.run pos' isSpace, line := s.line + 1, startLine := pos' }
  else { s with curptr := pos, startLine := pos' }

def skipWhitespace (s : Scanner) : Scanner :=
  let pos := s.curptr + s.run s.curptr isSpace
  let (pos, line, startLine) :=
    if pos ≠ s.stop ∧ isNewline (s.byte pos) ∧ s.skipWs &&& autoskipNewline ≠ 0 then
      skipNewlines (s.buf.drop (pos - s.begin)) pos s.line s.startLine
    else (pos, s.line, s.startLine)
  let s := { s with line := line, startLine := startLine }
  if pos ≠ s.stop ∧ isNewline (s.byte pos) ∧ s.skipWs &&& autoskipWsHeader = autoskipWsHeader then
    s.skipContinuation pos
  else { s with curptr := pos }

/-- `if (!pj_scan_is_eof(scanner) && PJ_SCAN_IS_PROBABLY_SPACE(*curptr) && skip_ws)`. -/
def autoSkip (s : Scanner) (skip : Bool) : Scanner :=
  if !s.isEof && isProbablySpace (s.byte s.curptr) && skip then s.skipWhitespace else s

/-- The token of `n` bytes at `curptr`, and the scanner behind it. -/
def token (s : Scanner) (n : Nat) : Str × Scanner :=
  (⟨s.curptr, n⟩, { s with curptr := s.curptr + n }.autoSkip (s.skipWs != 0))

/-- `pj_scan_init`. -/
def init (buf : List UInt8) (bufstart options : Nat) : Scanner :=
  let s : Scanner := ⟨buf, bufstart, bufstart, 1, bufstart, options⟩
  if options = 0 then s else s.skipWhitespace

def skipLine (s : Scanner) : Scanner :=
  if s.isEof then s
  else
    let n := s.run s.curptr (· != 10)
    if s.curptr + n = s.stop then { s with curptr := s.stop }
    else { s with curptr := s.curptr + n + 1, startLine := s.curptr + n + 1, line := s.line + 1 }

/-- `pj_scan_peek` and `pj_scan_peek_until`: the token and the byte behind it. -/
def peekWhile (s : Scanner) (p : UInt8 → Bool) : Option (Str × UInt8) :=
  if s.stop ≤ s.curptr then none
  else some (⟨s.curptr, s.run s.curptr p⟩, s.byte (s.curptr + s.run s.curptr p))

def peek (s : Scanner) (spec : UInt8 → Bool) : Option (Str × UInt8) := s.peekWhile spec

def peekUntil (s : Scanner) (spec : UInt8 → Bool) : Option (Str × UInt8) := s.peekWhile fun c => !spec c

/-- `pj_scan_peek_n`. -/
def peekN (word : Nat) (s : Scanner) (len : Nat) : Option (Str × UInt8) :=
  let endpos := (s.curptr + len) % word
  if s.stop < endpos then none else some (⟨s.curptr, len⟩, s.byte endpos)

def get (s : Scanner) (spec : UInt8 → Bool) : Option (Str × Scanner) :=
  if s.isEof || !spec (s.byte s.curptr) then none else some (s.token (s.run s.curptr spec))

/-- The loop of `pj_scan_get_unescape` over the bytes up to `end`: what it writes, and how far it reads. A
`%` without two hex digits is copied with the byte behind it, and ends the loop. -/
def unescape (spec : UInt8 → Bool) : List UInt8 → List UInt8 × Nat
  | [] => ([], 0)
  | c :: more =>
    if c = 37 then
      match more with
      | h1 :: h2 :: more' =>
        if isxdigit h1 && isxdigit h2 then
          let (out, n) := unescape spec more'
          (((hexDigitToVal h1 <<< 4) + hexDigitToVal h2) :: out, n + 3)
        else ([37, h1], 2)
      | [h1] => ([37, h1], 2)
      | [] => ([37, 0], 2)
    else if spec c then
      let (out, n) := unescape spec more
      (c :: out, n + 1)
    else ([], 0)

/-- Bytes written from an offset of the buffer on. What goes behind its end meets the terminating zero. -/
def patch (buf : List UInt8) (pos : Nat) (out : List UInt8) : List UInt8 :=
  (buf.take pos ++ (out ++ buf.drop (pos + out.length))).take buf.length

def getUnescape (s : Scanner) (spec : UInt8 → Bool) : Option (Str × Scanner) :=
  if s.isEof || (!spec (s.byte s.curptr) && s.byte s.curptr != 37) then none
  else
    let (out, n) := unescape spec s.rest
    let s' := { s with buf := patch s.buf (s.curptr - s.begin) out, curptr := s.curptr + n }
    some (⟨s.curptr, out.length⟩, s'.autoSkip (s.skipWs != 0))

/-- The search for the end quote, with the bytes since the begin quote before it: the bytes before the end
quote. It is escaped by an odd number of backslashes. -/
def closeQuote (endQuote : UInt8) : List UInt8 → List UInt8 → Option Nat
  | _, [] => none
  | front, c :: more =>
    if c = endQuote then
      if (front.reverse.takeWhile (· == 92)).length % 2 = 0 then some front.length
      else closeQuote endQuote (front ++ [c]) more
    else if c = 10 then none
    else closeQuote endQuote (front ++ [c]) more

/-- `pj_scan_get_quotes`, with the begin and end quotes as pairs; the token has both quotes. -/
def getQuotes (s : Scanner) (quotes : List (UInt8 × UInt8)) : Option (Str × Scanner) :=
  if s.isEof then none
  else
    match quotes.find? fun q => q.1 == s.byte s.curptr with
    | none => none
    | some (_, endQuote) =>
      match closeQuote endQuote [] s.rest.tail with
      | none => none
      | some n => some (s.token (n + 2))

/-- `pj_scan_get_n`. -/
def getN (word : Nat) (s : Scanner) (n : Nat) : Option (Str × Scanner) :=
  let endpos := (s.curptr + n) % word
  if s.stop < endpos then none
  else some (⟨s.curptr, n⟩, { s with curptr := endpos }.autoSkip (s.skipWs != 0))

def getChar (s : Scanner) : Option (UInt8 × Scanner) :=
  if s.stop ≤ s.curptr ∨ s.byte s.curptr = 0 then none
  else some (s.byte s.curptr, { s with curptr := s.curptr + 1 }.autoSkip (s.skipWs != 0))

def getNewline (s : Scanner) : Option Scanner :=
  if s.isEof || !isNewline (s.byte s.curptr) then none
  else
    let p := if s.byte s.curptr = 13 then s.curptr + 1 else s.curptr
    let p := if p < s.stop ∧ s.byte p = 10 then p + 1 else p
    some { s with curptr := p, line := s.line + 1, startLine := p }

/-- `pj_scan_get_until`, `pj_scan_get_until_ch` and `pj_scan_get_until_chr`. -/
def getUntilP (s : Scanner) (p : UInt8 → Bool) : Option (Str × Scanner) :=
  if s.stop ≤ s.curptr then none else some (s.token (s.run s.curptr fun c => !p c))

def getUntil (s : Scanner) (spec : UInt8 → Bool) : Option (Str × Scanner) := s.getUntilP spec

def getUntilCh (s : Scanner) (untilChar : Int) : Option (Str × Scanner) :=
  s.getUntilP fun c => charVal c == untilChar

def getUntilChr (s : Scanner) (untilSpec : List UInt8) : Option (Str × Scanner) :=
  s.getUntilP fun c => untilSpec.contains c

/-- `pj_scan_advance_n`. -/
def advanceN (word : Nat) (s : Scanner) (n : Nat) (skip : Bool) : Option Scanner :=
  let endpos := (s.curptr + n) % word
  if s.stop < endpos then none else some ({ s with curptr := endpos }.autoSkip skip)

/-- `strncmp` and `strncasecmp`, by `fold`. -/
def compareN (fold : UInt8 → UInt8) : Nat → List UInt8 → List UInt8 → Int
  | 0, _, _ => 0
  | n + 1, a, b =>
    let ca := fold (a.headD 0)
    let cb := fold (b.headD 0)
    if ca ≠ cb then (ca.toNat : Int) - cb.toNat
    else if ca = 0 then 0
    else compareN fold n a.tail b.tail

/-- `pj_scan_strcmp`, `pj_scan_stricmp` and `pj_scan_stricmp_alnum`; the length is an `int`. -/
def compareAt (word : Nat) (fold : UInt8 → UInt8) (s : Scanner) (str : List UInt8) (len : Int) : Option Int :=
  if (s.stop : Int) < ((s.curptr : Int) + len) % word then none
  else some (compareN fold (len % word).toNat s.rest str)

def strcmp (word : Nat) (s : Scanner) (str : List UInt8) (len : Int) : Option Int := compareAt word id s str len

def stricmp (word : Nat) (s : Scanner) (str : List UInt8) (len : Int) : Option Int :=
  compareAt word toLower s str len

def stricmpAlnum (word : Nat) (s : Scanner) (str : List UInt8) (len : Int) : Option Int :=
  compareAt word toLower s str len

def saveState (s : Scanner) : ScanState := ⟨s.curptr, s.line, s.startLine⟩

def restoreState (s : Scanner) (st : ScanState) : Scanner :=
  { s with curptr := st.curptr, line := st.line, startLine := st.startLine }

end Scanner

/-- A scanner with the states saved from it and the string that the last operation returned. -/
structure Session where
  scanner : Scanner
  saved : List ScanState
  out : Option Str
  deriving DecidableEq, Repr

inductive Op
  | skipWhitespace
  | skipLine
  | peek (spec : UInt8 → Bool)
  | peekN (len : Nat)
  | peekUntil (spec : UInt8 → Bool)
  | get (spec : UInt8 → Bool)
  | getUnescape (spec : UInt8 → Bool)
  | getQuote (beginQuote endQuote : UInt8)
  | getQuotes (quotes : List (UInt8 × UInt8))
  | getN (n : Nat)
  | getChar
  | getNewline
  | getUntil (spec : UInt8 → Bool)
  | getUntilCh (untilChar : Int)
  | getUntilChr (untilSpec : List UInt8)
  | advanceN (n : Nat) (skip : Bool)
  | strcmp (str : List UInt8) (len : Int)
  | stricmp (str : List UInt8) (len : Int)
  | stricmpAlnum (str : List UInt8) (len : Int)
  | saveState
  | restoreState (n : Nat)

namespace Session

/-- The result of an operation that returns a string; a syntax error leaves the scanner as it is. -/
def got (x : Session) : Option (Str × Scanner) → Session
  | none => { x with out := none }
  | some (str, s) => { x with scanner := s, out := some str }

def peeked (x : Session) (r : Option (Str × UInt8)) : Session := { x with out := r.map Prod.fst }

/-- A comparison returns a number and leaves the scanner alone. -/
def compared (x : Session) (_ : Option Int) : Session := { x with out := none }

def moved (x : Session) (r : Option Scanner) : Session := { x with scanner := r.getD x.scanner, out := none }

end Session

/-- One operation; `none` where an assertion on its arguments fails, or a state that was never saved is to
be restored. -/
def step (word : Nat) (x : Session) : Op → Option Session
  | .skipWhitespace => some (x.moved (some x.scanner.skipWhitespace))
  | .skipLine => some (x.moved (some x.scanner.skipLine))
  | .peek spec => some (x.peeked (x.scanner.peek spec))
  | .peekN len => some (x.peeked (x.scanner.peekN word len))
  | .peekUntil spec => some (x.peeked (x.scanner.peekUntil spec))
  | .get spec => if spec 0 then none else some (x.got (x.scanner.get spec))
  | .getUnescape spec => if spec 0 || spec 37 then none else some (x.got (x.scanner.getUnescape spec))
  | .getQuote beginQuote endQuote => some (x.got (x.scanner.getQuotes [(beginQuote, endQuote)]))
  | .getQuotes quotes => if quotes = [] then none else some (x.got (x.scanner.getQuotes quotes))
  | .getN n => some (x.got (x.scanner.getN word n))
  | .getChar => some (x.moved (x.scanner.getChar.map Prod.snd))
  | .getNewline => some (x.moved x.scanner.getNewline)
  | .getUntil spec => some (x.got (x.scanner.getUntil spec))
  | .getUntilCh untilChar => some (x.got (x.scanner.getUntilCh untilChar))
  | .getUntilChr untilSpec => some (x.got (x.scanner.getUntilChr untilSpec))
  | .advanceN n skip => some (x.moved (x.scanner.advanceN word n skip))
  | .strcmp str len => some (x.compared (x.scanner.strcmp word str len))
  | .stricmp str len => some (x.compared (x.scanner.stricmp word str len))
  | .stricmpAlnum str len => some (x.compared (x.scanner.stricmpAlnum word str len))
  | .saveState => some { x with saved := x.saved ++ [x.scanner.saveState], out := none }
  | .restoreState n => x.saved[n]?.map fun st => { x with scanner := x.scanner.restoreState st, out := none }

/-- A scanner that was just initialised. -/
def start (buf : List UInt8) (bufstart options : Nat) : Session := ⟨.init buf bufstart options, [], none⟩

end PjProject.Scan
