import PjProject.ScannerSafety
import Mathlib.Data.List.TakeWhile

/-! The scanner as its users see it, with white space and newlines skipped automatically: an operation takes
the remaining input to what it returns and the input that is left. Each operation here is matched with the
one of the scanner. -/

namespace PjProject.Scan.Input

def isBlank (c : UInt8) : Bool := isSpace c || isNewline c

/-- `pj_scan_skip_whitespace` with `PJ_SCAN_AUTOSKIP_WS | PJ_SCAN_AUTOSKIP_NEWLINE`. -/
def skip (l : List UInt8) : List UInt8 := l.dropWhile isBlank

/-- `*scanner->curptr`; the byte behind the input is zero. -/
def peek (l : List UInt8) : UInt8 := l.headD 0

/-- `*(scanner->curptr+1)`. -/
def peek1 (l : List UInt8) : UInt8 := l.tail.headD 0

/-- The first `n` bytes, and what is left behind them. -/
def token (n : Nat) (l : List UInt8) : List UInt8 × List UInt8 := (l.take n, skip (l.drop n))

def getChar : List UInt8 → Option (UInt8 × List UInt8)
  | [] => none
  | c :: more => if c = 0 then none else some (c, skip more)

def get (spec : UInt8 → Bool) (l : List UInt8) : Option (List UInt8 × List UInt8) :=
  if l = [] ∨ spec (peek l) = false then none else some (token (l.takeWhile spec).length l)

/-- `pj_scan_get_until`, `pj_scan_get_until_ch` and `pj_scan_get_until_chr`. -/
def getUntil (p : UInt8 → Bool) (l : List UInt8) : Option (List UInt8 × List UInt8) :=
  if l = [] then none else some (token (l.takeWhile fun c => !p c).length l)

def getUntilCh (untilChar : UInt8) (l : List UInt8) : Option (List UInt8 × List UInt8) :=
  getUntil (· == untilChar) l

def getUntilChr (untilSpec : List UInt8) (l : List UInt8) : Option (List UInt8 × List UInt8) :=
  getUntil (fun c => untilSpec.contains c) l

def getQuotes (quotes : List (UInt8 × UInt8)) (l : List UInt8) : Option (List UInt8 × List UInt8) :=
  if l = [] then none
  else
    match quotes.find? fun q => q.1 == peek l with
    | none => none
    | some (_, endQuote) =>
      match Scanner.closeQuote endQuote [] l.tail with
      | none => none
      | some n => some (token (n + 2) l)

/-- `pj_scan_advance_n`. -/
def advanceN (n : Nat) (skipWs : Bool) (l : List UInt8) : Option (List UInt8) :=
  if l.length < n then none else some (if skipWs then skip (l.drop n) else l.drop n)

/-- `pj_scan_strcmp(scanner, str, strlen(str)) == 0`, and a syntax error where the input is too short. -/
def startsWith (str l : List UInt8) : Option Bool :=
  if l.length < str.length then none else some (l.take str.length == str)

/-- The end of a parser: `error` where it returns `NULL` or throws. -/
inductive Result (α : Type)
  | ok (a : α)
  | error
  | outOfFuel
  deriving DecidableEq, Repr

def Result.bind {α β : Type} : Result α → (α → Result β) → Result β
  | .ok a, f => f a
  | .error, _ => .error
  | .outOfFuel, _ => .outOfFuel

instance : Monad Result where
  pure := .ok
  bind := .bind

/-- A syntax error of the scanner throws. -/
def Result.ofOption {α : Type} : Option α → Result α
  | some a => .ok a
  | none => .error

@[simp] theorem Result.ok_bind {α β : Type} (a : α) (f : α → Result β) : (Result.ok a >>= f) = f a := rfl

@[simp] theorem Result.ofOption_some {α : Type} (a : α) : Result.ofOption (some a) = .ok a := rfl

theorem isBlank_of_isSpace {c : UInt8} (h : isSpace c = true) : isBlank c = true := by
  rw [isBlank, h, Bool.true_or]

theorem isBlank_iff {c : UInt8} : isBlank c = true ↔ (c = 32 ∨ c = 9) ∨ c = 13 ∨ c = 10 := by
  simp only [isBlank, isSpace, isNewline, Bool.or_eq_true, beq_iff_eq]

theorem isProbablySpace_of_isBlank {c : UInt8} (h : isBlank c = true) : isProbablySpace c = true := by
  rcases isBlank_iff.mp h with (rfl | rfl) | rfl | rfl <;> decide

/-- The scanner with its options, and the input that is left. -/
structure Views (s : Scanner) (l : List UInt8) : Prop where
  bounds : InBounds s
  rest : s.rest = l
  opts : s.skipWs = autoskipWs ||| autoskipNewline

section Views

variable {s : Scanner} {l : List UInt8}

theorem Views.drop (h : Views s l) {n : Nat} : s.buf.drop (s.curptr + n - s.begin) = l.drop n := by
  have hlo := h.bounds.lo
  rw [← h.rest, Scanner.rest, List.drop_drop]
  congr 1
  omega

theorem Views.length (h : Views s l) : s.curptr + l.length = s.stop := by
  rw [← h.rest]
  exact length_rest h.bounds

theorem Views.byte (h : Views s l) {n : Nat} : s.byte (s.curptr + n) = (l.drop n).headD 0 := by
  rw [← h.drop, Scanner.byte, byteAt, List.getD_eq_getElem?_getD, List.headD_eq_head?_getD, List.head?_drop]

theorem Views.run (h : Views s l) (p : UInt8 → Bool) : s.run s.curptr p = (l.takeWhile p).length := by
  have hdrop := h.drop (n := 0)
  rw [Nat.add_zero, List.drop_zero] at hdrop
  rw [Scanner.run, hdrop]

theorem Views.isEof (h : Views s l) : s.isEof = l.isEmpty := by
  have hlen := h.length
  cases l with
  | nil => simpa [Scanner.isEof] using Nat.le_of_eq hlen.symm
  | cons c more =>
    rw [List.length_cons] at hlen
    simp only [Scanner.isEof, List.isEmpty_cons, decide_eq_false_iff_not]
    omega

end Views

theorem skipNewlines_pos (l : List UInt8) (pos line startLine : Nat) :
    (Scanner.skipNewlines l pos line startLine).1 = pos + (l.takeWhile isBlank).length := by
  have hcr : isBlank 13 = true := by decide
  have hlf : isBlank 10 = true := by decide
  fun_induction Scanner.skipNewlines l pos line startLine with
  | case1 => rfl
  | case2 => rfl
  | case3 pos line startLine more ih =>
    rw [ih, List.takeWhile_cons_of_pos hcr, List.takeWhile_cons_of_pos hlf, List.length_cons, List.length_cons]
    omega
  | case4 pos line startLine c more hc ih =>
    rw [ih, List.takeWhile_cons_of_pos hcr, List.length_cons]
    omega
  | case5 more pos line startLine hne ih =>
    rw [ih, List.takeWhile_cons_of_pos hlf, List.length_cons]
    omega
  | case6 c more pos line startLine hcr' hlf' hspace ih =>
    rw [ih, List.takeWhile_cons_of_pos (isBlank_of_isSpace hspace), List.length_cons]
    omega
  | case7 c more pos line startLine hcr' hlf' hspace =>
    rw [List.takeWhile_cons_of_neg]
    · rfl
    · intro hblank
      rcases isBlank_iff.mp hblank with (rfl | rfl) | rfl | rfl
      · exact hspace (by decide)
      · exact hspace (by decide)
      · exact hcr' rfl
      · exact hlf' rfl

theorem takeWhile_isBlank (l : List UInt8) :
    (l.takeWhile isBlank).length = (l.takeWhile isSpace).length + ((l.dropWhile isSpace).takeWhile isBlank).length := by
  induction l with
  | nil => rfl
  | cons c more ih =>
    by_cases hspace : isSpace c = true
    · rw [List.takeWhile_cons_of_pos (isBlank_of_isSpace hspace), List.takeWhile_cons_of_pos hspace,
        List.dropWhile_cons_of_pos hspace, List.length_cons, List.length_cons, ih]
      omega
    · rw [List.takeWhile_cons_of_neg hspace, List.dropWhile_cons_of_neg hspace, List.length_nil, Nat.zero_add]

theorem drop_takeWhile (p : UInt8 → Bool) (l : List UInt8) : l.drop (l.takeWhile p).length = l.dropWhile p := by
  induction l with
  | nil => rfl
  | cons c more ih =>
    by_cases hc : p c = true
    · rw [List.takeWhile_cons_of_pos hc, List.dropWhile_cons_of_pos hc, List.length_cons, List.drop_succ_cons, ih]
    · rw [List.takeWhile_cons_of_neg hc, List.dropWhile_cons_of_neg hc, List.length_nil, List.drop_zero]

theorem takeWhile_isBlank_eq_nil {l : List UInt8} (h : isNewline ((l.dropWhile isSpace).headD 0) = false) :
    (l.dropWhile isSpace).takeWhile isBlank = [] := by
  cases hd : l.dropWhile isSpace with
  | nil => rfl
  | cons c more =>
    rw [hd] at h
    have hspace : ¬ isSpace c = true := by
      have hnot := List.dropWhile_get_zero_not (p := isSpace) l (by rw [hd]; exact Nat.succ_pos _)
      simpa [hd] using hnot
    rw [List.takeWhile_cons_of_neg]
    intro hblank
    rw [isBlank, Bool.or_eq_true] at hblank
    rcases hblank with hblank | hblank
    · exact hspace hblank
    · exact absurd (h.symm.trans hblank) (by decide)

section Skip

variable {s : Scanner} {l : List UInt8}

theorem curptr_skipWhitespace (h : Views s l) :
    s.skipWhitespace.curptr = s.curptr + (l.takeWhile isBlank).length := by
  have hnewline : s.skipWs &&& autoskipNewline ≠ 0 := by
    rw [h.opts]
    decide
  have hheader : ¬ s.skipWs &&& autoskipWsHeader = autoskipWsHeader := by
    rw [h.opts]
    decide
  have hbyte : s.byte (s.curptr + (l.takeWhile isSpace).length) = (l.dropWhile isSpace).headD 0 := by
    rw [h.byte, drop_takeWhile]
  rw [Scanner.skipWhitespace, h.run isSpace, takeWhile_isBlank]
  simp only [hheader, and_false, if_false, h.drop, drop_takeWhile, hbyte]
  split
  · rw [skipNewlines_pos, Nat.add_assoc]
  · rename_i hcond
    have hnil : (l.dropWhile isSpace).takeWhile isBlank = [] := by
      by_cases hend : s.curptr + (l.takeWhile isSpace).length = s.stop
      · have hlen := h.length
        have hsplit := congrArg List.length (List.takeWhile_append_dropWhile (p := isSpace) (l := l))
        rw [List.length_append] at hsplit
        have hzero : (l.dropWhile isSpace).length = 0 := by omega
        rw [List.length_eq_zero_iff.mp hzero]
        rfl
      · apply takeWhile_isBlank_eq_nil
        by_contra hnot
        exact hcond ⟨hend, Bool.not_eq_false _ ▸ hnot, hnewline⟩
    rw [hnil]
    rfl

theorem skipContinuation_same (s : Scanner) (pos : Nat) :
    (s.skipContinuation pos).buf = s.buf ∧ (s.skipContinuation pos).skipWs = s.skipWs := by
  obtain ⟨p, hp⟩ : ∃ p, p = if s.byte pos = 13 then pos + 1 else pos := ⟨_, rfl⟩
  obtain ⟨q, hq⟩ : ∃ q, q = if p ≠ s.stop ∧ s.byte p = 10 then p + 1 else p := ⟨_, rfl⟩
  rw [Scanner.skipContinuation, ← hp, ← hq]
  split
  · exact ⟨rfl, rfl⟩
  · exact ⟨rfl, rfl⟩

theorem skipWhitespace_same (s : Scanner) : s.skipWhitespace.buf = s.buf ∧ s.skipWhitespace.skipWs = s.skipWs := by
  obtain ⟨pos, hpos⟩ : ∃ p, p = s.curptr + s.run s.curptr isSpace := ⟨_, rfl⟩
  obtain ⟨q, hq⟩ : ∃ q, q = if pos ≠ s.stop ∧ isNewline (s.byte pos) ∧ s.skipWs &&& autoskipNewline ≠ 0 then
      Scanner.skipNewlines (s.buf.drop (pos - s.begin)) pos s.line s.startLine
    else (pos, s.line, s.startLine) := ⟨_, rfl⟩
  rw [Scanner.skipWhitespace, ← hpos, ← hq]
  show (if _ then _ else _ : Scanner).buf = _ ∧ (if _ then _ else _ : Scanner).skipWs = _
  split
  · exact skipContinuation_same { s with line := q.2.1, startLine := q.2.2 } q.1
  · exact ⟨rfl, rfl⟩

theorem autoSkip_buf (s : Scanner) (skip : Bool) : (s.autoSkip skip).buf = s.buf := by
  rw [Scanner.autoSkip]
  split
  · exact (skipWhitespace_same s).1
  · rfl

theorem views_skipWhitespace (h : Views s l) : Views s.skipWhitespace (skip l) := by
  have hkeeps := keeps_skipWhitespace h.bounds
  obtain ⟨hbuf, hopts⟩ := skipWhitespace_same s
  refine ⟨hkeeps.bounds, ?_, hopts.trans h.opts⟩
  rw [Scanner.rest, hbuf, hkeeps.begin, curptr_skipWhitespace h, h.drop, drop_takeWhile]
  rfl

theorem views_autoSkip (h : Views s l) : Views (s.autoSkip true) (skip l) := by
  rw [Scanner.autoSkip]
  split
  · exact views_skipWhitespace h
  · rename_i hcond
    suffices hskip : skip l = l by
      rw [hskip]
      exact h
    cases l with
    | nil => rfl
    | cons c more =>
      rw [skip, List.dropWhile_cons_of_neg]
      intro hblank
      have hbyte := h.byte (n := 0)
      rw [Nat.add_zero, List.drop_zero, List.headD_cons] at hbyte
      apply hcond
      rw [h.isEof, hbyte, isProbablySpace_of_isBlank hblank]
      rfl

/-- The cursor moves over `n` bytes of the input. -/
theorem views_advance (h : Views s l) {n : Nat} (hn : n ≤ l.length) :
    Views { s with curptr := s.curptr + n } (l.drop n) := by
  have hlo := h.bounds.lo
  have hlen := h.length
  refine ⟨⟨?_, ?_⟩, h.drop, h.opts⟩
  · exact Nat.le_trans hlo (Nat.le_add_right _ _)
  · show s.curptr + n ≤ s.stop
    omega

end Skip

/-! The operations of the scanner against those of the input. -/

/-- The bytes of a string in the buffer. -/
def text (s : Scanner) (str : Str) : List UInt8 := slice s.buf (str.ptr - s.begin) str.slen

/-- A scanner operation that returns a string does what the one of the input does. -/
inductive Matches (s : Scanner) : Option (Str × Scanner) → Option (List UInt8 × List UInt8) → Prop
  | error : Matches s none none
  | token {str : Str} {s' : Scanner} {tok l' : List UInt8} (htext : text s str = tok) (hbuf : s'.buf = s.buf)
      (hviews : Views s' l') : Matches s (some (str, s')) (some (tok, l'))

section Operations

variable {s : Scanner} {l : List UInt8}

theorem matches_token (h : Views s l) {n : Nat} (hn : n ≤ l.length) :
    Matches s (some (s.token n)) (some (token n l)) := by
  have hskip : (s.skipWs != 0) = true := by
    rw [h.opts]
    decide
  rw [Scanner.token, hskip]
  refine .token ?_ (autoSkip_buf _ _) (views_autoSkip (views_advance h hn))
  show (s.buf.drop (s.curptr - s.begin)).take n = l.take n
  have hdrop := h.drop (n := 0)
  rw [Nat.add_zero, List.drop_zero] at hdrop
  rw [hdrop]

theorem length_takeWhile_le (p : UInt8 → Bool) (l : List UInt8) : (l.takeWhile p).length ≤ l.length :=
  (List.takeWhile_sublist p).length_le

theorem byte_curptr (h : Views s l) : s.byte s.curptr = peek l := by
  have hbyte := h.byte (n := 0)
  rwa [Nat.add_zero, List.drop_zero] at hbyte

theorem stop_le_iff (h : Views s l) : s.stop ≤ s.curptr ↔ l = [] := by
  have hlen := h.length
  rw [← List.length_eq_zero_iff]
  omega

theorem matches_get (h : Views s l) (spec : UInt8 → Bool) : Matches s (s.get spec) (get spec l) := by
  have hcond : (s.isEof || !spec (s.byte s.curptr)) = true ↔ l = [] ∨ spec (peek l) = false := by
    rw [byte_curptr h, h.isEof, Bool.or_eq_true, List.isEmpty_iff, Bool.not_eq_true']
  rw [Scanner.get, get, h.run]
  by_cases hend : l = [] ∨ spec (peek l) = false
  · rw [if_pos (hcond.mpr hend), if_pos hend]
    exact .error
  · rw [if_neg (fun hyes => hend (hcond.mp hyes)), if_neg hend]
    exact matches_token h (length_takeWhile_le spec l)

theorem matches_getUntilP (h : Views s l) (p : UInt8 → Bool) : Matches s (s.getUntilP p) (getUntil p l) := by
  rw [Scanner.getUntilP, getUntil, h.run]
  by_cases hend : l = []
  · rw [if_pos ((stop_le_iff h).mpr hend), if_pos hend]
    exact .error
  · rw [if_neg (fun hyes => hend ((stop_le_iff h).mp hyes)), if_neg hend]
    exact matches_token h (length_takeWhile_le _ l)

/-- An ASCII character is sought as an `int`. -/
theorem charVal_beq {untilChar : Int} (h : 0 ≤ untilChar ∧ untilChar < 128) :
    (fun c => charVal c == untilChar) = fun c => c == UInt8.ofNat untilChar.toNat := by
  obtain ⟨n, rfl⟩ := Int.eq_ofNat_of_zero_le h.1
  funext c
  have hn : (UInt8.ofNat n).toNat = n := UInt8.toNat_ofNat_of_lt' (by rw [UInt8.size]; omega)
  have hc := c.toNat_lt
  rw [Int.toNat_natCast, Bool.eq_iff_iff, beq_iff_eq, beq_iff_eq, charVal, ← UInt8.toNat_inj, hn]
  split
  · omega
  · rename_i hge
    have hge' : ¬ c.toNat < 128 := fun hlt => hge (UInt8.lt_iff_toNat_lt.mpr hlt)
    omega

theorem matches_getQuotes (h : Views s l) (quotes : List (UInt8 × UInt8)) :
    Matches s (s.getQuotes quotes) (getQuotes quotes l) := by
  rw [Scanner.getQuotes, getQuotes, byte_curptr h, h.rest]
  by_cases hend : l = []
  · rw [if_pos (by rw [h.isEof, hend]; rfl), if_pos hend]
    exact .error
  · rw [if_neg (by rw [h.isEof]; simpa using hend), if_neg hend]
    generalize quotes.find? (fun q => q.1 == peek l) = pair
    rcases pair with _ | ⟨beginQuote, endQuote⟩
    · exact .error
    · show Matches s
        (match Scanner.closeQuote endQuote [] l.tail with | none => none | some n => some (s.token (n + 2)))
        (match Scanner.closeQuote endQuote [] l.tail with | none => none | some n => some (token (n + 2) l))
      cases hn : Scanner.closeQuote endQuote [] l.tail with
      | none => exact .error
      | some n =>
        have hlt := closeQuote_le hn
        rw [List.length_nil, List.length_tail] at hlt
        exact matches_token h (by omega)

/-- The same for an operation that only moves the cursor. -/
inductive Moves (s : Scanner) : Option Scanner → Option (List UInt8) → Prop
  | error : Moves s none none
  | moved {s' : Scanner} {l' : List UInt8} (hbuf : s'.buf = s.buf) (hviews : Views s' l') :
      Moves s (some s') (some l')

theorem matches_getChar (h : Views s l) :
    s.getChar.map Prod.fst = (getChar l).map Prod.fst ∧
      Moves s (s.getChar.map Prod.snd) ((getChar l).map Prod.snd) := by
  have hskip : (s.skipWs != 0) = true := by
    rw [h.opts]
    decide
  cases l with
  | nil =>
    rw [Scanner.getChar, if_pos (Or.inl ((stop_le_iff h).mpr rfl))]
    exact ⟨rfl, .error⟩
  | cons c more =>
    have hbyte : s.byte s.curptr = c := byte_curptr h
    have hstop : ¬ s.stop ≤ s.curptr := fun hle => absurd ((stop_le_iff h).mp hle) (List.cons_ne_nil c more)
    by_cases hc : c = 0
    · rw [Scanner.getChar, if_pos (Or.inr (hbyte.trans hc)), getChar, if_pos hc]
      exact ⟨rfl, .error⟩
    · have hcond : ¬ (s.stop ≤ s.curptr ∨ s.byte s.curptr = 0) := by
        rw [hbyte]
        exact not_or.mpr ⟨hstop, hc⟩
      rw [Scanner.getChar, if_neg hcond, getChar, if_neg hc, hskip]
      exact ⟨congrArg some hbyte, .moved (autoSkip_buf _ _)
        (views_autoSkip (views_advance h (Nat.succ_le_succ (Nat.zero_le _))))⟩

theorem matches_advanceN {word : Nat} (h : Views s l) {n : Nat} (hn : s.curptr + n < word) (skipWs : Bool) :
    Moves s (s.advanceN word n skipWs) (advanceN n skipWs l) := by
  have hlen := h.length
  rw [Scanner.advanceN, advanceN, Nat.mod_eq_of_lt hn]
  by_cases hend : l.length < n
  · rw [if_pos hend]
    show Moves s (if s.stop < s.curptr + n then none else _) none
    rw [if_pos (by omega)]
    exact .error
  · rw [if_neg hend]
    show Moves s (if s.stop < s.curptr + n then none else _) _
    rw [if_neg (by omega)]
    have hviews := views_advance h (Nat.not_lt.mp hend)
    cases skipWs with
    | false =>
      have hsame : Scanner.autoSkip { s with curptr := s.curptr + n } false = { s with curptr := s.curptr + n } := by
        rw [Scanner.autoSkip, Bool.and_false, if_neg Bool.false_ne_true]
      rw [hsame]
      exact .moved rfl hviews
    | true => exact .moved (autoSkip_buf _ _) (views_autoSkip hviews)

/-- `strncmp` of as many bytes as the string has. -/
theorem compareN_eq_zero_iff {str a : List UInt8} (hlen : str.length ≤ a.length) (hstr : 0 ∉ str) :
    Scanner.compareN id str.length a str = 0 ↔ a.take str.length = str := by
  induction str generalizing a with
  | nil => simp [Scanner.compareN]
  | cons c more ih =>
    cases a with
    | nil => simp at hlen
    | cons b a =>
      have hc : c ≠ 0 := fun hzero => hstr (hzero ▸ List.mem_cons_self)
      have hmore : 0 ∉ more := fun hmem => hstr (List.mem_cons_of_mem c hmem)
      rw [List.length_cons, List.take_succ_cons, List.cons.injEq]
      show (if b ≠ c then (b.toNat : Int) - c.toNat
        else if b = 0 then 0 else Scanner.compareN id more.length a more) = 0 ↔ _
      by_cases hbc : b = c
      · rw [if_neg (not_not.mpr hbc), if_neg (hbc ▸ hc), ih (by simpa using hlen) hmore]
        exact (and_iff_right hbc).symm
      · rw [if_pos hbc]
        have hne : b.toNat ≠ c.toNat := fun heq => hbc (UInt8.toNat_inj.mp heq)
        constructor
        · intro hzero
          omega
        · intro heq
          exact absurd heq.1 hbc

theorem matches_strcmp {word : Nat} (h : Views s l) {str : List UInt8} (hstr : 0 ∉ str)
    (hn : s.curptr + str.length < word) :
    (s.strcmp word str str.length).map (fun r => decide (r = 0)) = startsWith str l := by
  have hlen := h.length
  have hmod : ((s.curptr : Int) + str.length) % word = s.curptr + str.length := Int.emod_eq_of_lt (by omega) (by omega)
  have hmod' : ((str.length : Int) % word).toNat = str.length := by
    rw [Int.emod_eq_of_lt (by omega) (by omega)]
    rfl
  rw [Scanner.strcmp, Scanner.compareAt, hmod, hmod', startsWith, h.rest]
  by_cases hend : l.length < str.length
  · rw [if_pos (by omega), if_pos hend]
    rfl
  · rw [if_neg (by omega), if_neg hend]
    have hiff := compareN_eq_zero_iff (Nat.not_lt.mp hend) hstr
    show some (decide _) = some _
    congr 1
    by_cases heq : l.take str.length = str
    · rw [decide_eq_true (hiff.mpr heq), beq_iff_eq.mpr heq]
    · rw [decide_eq_false fun hzero => heq (hiff.mp hzero), beq_eq_false_iff_ne.mpr heq]

end Operations

/-- `pj_scan_init` on the whole buffer. -/
theorem views_init (buf : List UInt8) (bufstart : Nat) :
    Views (Scanner.init buf bufstart (autoskipWs ||| autoskipNewline)) (skip buf) := by
  have hstart : Views ⟨buf, bufstart, bufstart, 1, bufstart, autoskipWs ||| autoskipNewline⟩ buf := by
    refine ⟨⟨le_rfl, Nat.le_add_right _ _⟩, ?_, rfl⟩
    rw [Scanner.rest, Nat.sub_self, List.drop_zero]
  rw [Scanner.init, if_neg (by decide)]
  exact views_skipWhitespace hstart

/-! The same over runs. -/

/-- What an operation returns and leaves; a syntax error leaves the input as it is. -/
def got (l : List UInt8) (r : Option (List UInt8 × List UInt8)) : Option (List UInt8) × List UInt8 :=
  r.elim (none, l) fun (tok, rest) => (some tok, rest)

/-- The operations that the JSON and the XML parser use; `none` for another one. -/
def reads : Option (List UInt8) × List UInt8 → Op → Option (Option (List UInt8) × List UInt8)
  | (_, l), .get spec => some (got l (get spec l))
  | (_, l), .getQuote beginQuote endQuote => some (got l (getQuotes [(beginQuote, endQuote)] l))
  | (_, l), .getQuotes quotes => some (got l (getQuotes quotes l))
  | (_, l), .getUntil spec => some (got l (getUntil spec l))
  | (_, l), .getUntilCh untilChar =>
    if 0 ≤ untilChar ∧ untilChar < 128 then some (got l (getUntilCh (UInt8.ofNat untilChar.toNat) l)) else none
  | (_, l), .getUntilChr untilSpec => some (got l (getUntilChr untilSpec l))
  | (_, l), .getChar => some (none, ((getChar l).map Prod.snd).getD l)
  | (_, l), .advanceN n skipWs => some (none, (advanceN n skipWs l).getD l)
  | (_, l), .strcmp _ _ => some (none, l)
  | _, _ => none

theorem text_congr {s s' : Scanner} (hbuf : s'.buf = s.buf) (hbegin : s'.begin = s.begin) (str : Str) :
    text s' str = text s str := by
  rw [text, text, hbuf, hbegin]

/-- The string of the last operation, and the input before the scanner. -/
structure Follows (x : Session) (p : Option (List UInt8) × List UInt8) : Prop where
  views : Views x.scanner p.2
  out : x.out.map (text x.scanner) = p.1

section Follows

variable {x : Session} {l : List UInt8}

theorem Follows.got (h : Views x.scanner l) {r : Option (Str × Scanner)} {r' : Option (List UInt8 × List UInt8)}
    (hmatch : Matches x.scanner r r') (hreturns : Returns x.scanner r) : Follows (x.got r) (got l r') := by
  cases hmatch with
  | error => exact ⟨h, rfl⟩
  | token htext hbuf hviews =>
    exact ⟨hviews, congrArg some ((text_congr hbuf (hreturns _ _ rfl).2.begin _).trans htext)⟩

theorem Follows.moved (h : Views x.scanner l) {r : Option Scanner} {r' : Option (List UInt8)}
    (hmoves : Moves x.scanner r r') : Follows (x.moved r) (none, r'.getD l) := by
  cases hmoves with
  | error => exact ⟨h, rfl⟩
  | moved hbuf hviews => exact ⟨hviews, rfl⟩

theorem Follows.step {word : Nat} {y : Session} {p q : Option (List UInt8) × List UInt8} {op : Op} (h : Follows x p)
    (hcare : Careful word x op) (hstep : step word x op = some y) (hreads : reads p op = some q) : Follows y q := by
  have hviews := h.views
  have hbounds := hviews.bounds
  cases op with
  | get spec =>
    obtain rfl := Option.some.inj hreads
    obtain ⟨-, hy⟩ := Option.ite_none_left_eq_some.mp hstep
    exact Option.some.inj hy ▸ .got hviews (matches_get hviews spec) (returns_get hbounds spec)
  | getQuote beginQuote endQuote =>
    obtain rfl := Option.some.inj hreads
    exact Option.some.inj hstep ▸ .got hviews (matches_getQuotes hviews _) (returns_getQuotes hbounds _)
  | getQuotes quotes =>
    obtain rfl := Option.some.inj hreads
    obtain ⟨-, hy⟩ := Option.ite_none_left_eq_some.mp hstep
    exact Option.some.inj hy ▸ .got hviews (matches_getQuotes hviews quotes) (returns_getQuotes hbounds quotes)
  | getUntilCh untilChar =>
    obtain ⟨hchar, hq⟩ := Option.ite_none_right_eq_some.mp hreads
    obtain rfl := Option.some.inj hq
    rw [getUntilCh, ← charVal_beq hchar]
    exact Option.some.inj hstep ▸ .got hviews (matches_getUntilP hviews _) (returns_getUntilP hbounds _)
  | getUntil spec | getUntilChr untilSpec =>
    obtain rfl := Option.some.inj hreads
    exact Option.some.inj hstep ▸ .got hviews (matches_getUntilP hviews _) (returns_getUntilP hbounds _)
  | getChar =>
    obtain rfl := Option.some.inj hreads
    exact Option.some.inj hstep ▸ .moved hviews (matches_getChar hviews).2
  | advanceN n skipWs =>
    obtain rfl := Option.some.inj hreads
    exact Option.some.inj hstep ▸ .moved hviews (matches_advanceN hviews (decide_eq_true_eq.mp hcare) skipWs)
  | strcmp str len =>
    obtain rfl := Option.some.inj hreads
    exact Option.some.inj hstep ▸ ⟨hviews, rfl⟩
  | _ => cases hreads

end Follows

/-- Over every run the scanner does to its buffer what the operations do to a list of bytes: it returns the same strings,
and has the same input before it, with the same characters to be looked at and compared. -/
theorem follows_of_run {word bufstart : Nat} {buf : List UInt8} {ops : List Op} {x : Session}
    {q : Option (List UInt8) × List UInt8}
    (hcare : Meets (step word) (Careful word) (start buf bufstart (autoskipWs ||| autoskipNewline)) ops)
    (hrun : exec (step word) (start buf bufstart (autoskipWs ||| autoskipNewline)) ops = some x)
    (hreads : exec reads (none, skip buf) ops = some q) :
    Follows x q ∧ x.scanner.byte x.scanner.curptr = peek q.2 ∧
      x.scanner.getChar.map Prod.fst = (getChar q.2).map Prod.fst ∧
      ∀ str, 0 ∉ str → x.scanner.curptr + str.length < word →
        (x.scanner.strcmp word str str.length).map (fun r => decide (r = 0)) = startsWith str q.2 := by
  have hstep (x : Session) (p : Option (List UInt8) × List UInt8) (op : Op) (y : Session)
      (q : Option (List UInt8) × List UInt8) (h : Follows x p) (hcare : Careful word x op) (hy : step word x op = some y)
      (hq : reads p op = some q) : Follows y q := h.step hcare hy hq
  have hfollows : Follows x q := exec_related_of_meets hstep ⟨views_init buf bufstart, rfl⟩ hcare hrun hreads
  exact ⟨hfollows, byte_curptr hfollows.views, (matches_getChar hfollows.views).1,
    fun _ hstr hword => matches_strcmp hfollows.views hstr hword⟩

/-- ` ab "c" ,`: a word and a quoted string, and a comma is next. -/
theorem follows_quoted : ∃ x q, exec (step 0x100000000)
      (start (ascii " ab \"c\" ,") 4096 (autoskipWs ||| autoskipNewline)) [.get isLetter, .getQuote 34 34] = some x ∧
    exec reads (none, skip (ascii " ab \"c\" ,")) [.get isLetter, .getQuote 34 34] = some q ∧
    q = (some (ascii "\"c\""), ascii ",") ∧ Follows x q := by
  have hrun := Option.some_get (x := exec (step 0x100000000)
    (start (ascii " ab \"c\" ,") 4096 (autoskipWs ||| autoskipNewline)) [.get isLetter, .getQuote 34 34]) (by decide +kernel)
  have hreads : exec reads (none, skip (ascii " ab \"c\" ,")) [.get isLetter, .getQuote 34 34] =
      some (some (ascii "\"c\""), ascii ",") := by
    decide +kernel
  exact ⟨_, _, hrun.symm, hreads, rfl, (follows_of_run (by decide +kernel) hrun.symm hreads).1⟩


/-! The operations on a text that is known. -/

theorem skip_cons_of_not_blank {c : UInt8} (h : isBlank c = false) (l : List UInt8) : skip (c :: l) = c :: l :=
  List.dropWhile_cons_of_neg (by rw [h]; exact Bool.false_ne_true)

theorem skip_append_of_blank {front : List UInt8} (h : ∀ c ∈ front, isBlank c = true) (l : List UInt8) :
    skip (front ++ l) = skip l := List.dropWhile_append_of_pos h

theorem blank_replicate {n : Nat} {c : UInt8} (h : c ∈ List.replicate n (32 : UInt8)) : isBlank c = true := by
  rw [List.eq_of_mem_replicate h]
  decide

theorem token_append (front rest : List UInt8) : token front.length (front ++ rest) = (front, skip rest) := by
  rw [token, List.take_left, List.drop_left]

theorem getChar_cons {c : UInt8} (h : c ≠ 0) (l : List UInt8) : getChar (c :: l) = some (c, skip l) := by
  rw [getChar, if_neg h]

/-- The text up to the first byte that ends it. -/
theorem getUntil_append {p : UInt8 → Bool} {s : List UInt8} (hs : ∀ b ∈ s, p b = false) {c : UInt8} (hc : p c = true)
    (rest : List UInt8) : getUntil p (s ++ c :: rest) = some (s, skip (c :: rest)) := by
  have htake : ((s ++ c :: rest).takeWhile fun b => !p b) = s := by
    rw [List.takeWhile_append_of_pos (fun b hb => by rw [hs b hb]; rfl),
      List.takeWhile_cons_of_neg (by rw [hc]; decide), List.append_nil]
  rw [getUntil, if_neg (by simp), htake, token_append]

theorem getUntilCh_append {s : List UInt8} {c : UInt8} (h : c ∉ s) (hblank : isBlank c = false) (rest : List UInt8) :
    getUntilCh c (s ++ c :: rest) = some (s, c :: rest) := by
  rw [getUntilCh, getUntil_append (p := (· == c)) _ (beq_self_eq_true c), skip_cons_of_not_blank hblank]
  intro b hb
  exact beq_eq_false_iff_ne.mpr fun heq => h (heq ▸ hb)

theorem startsWith_eq {str l : List UInt8} (h : str.length ≤ l.length) :
    startsWith str l = some (l.take str.length == str) := by
  rw [startsWith, if_neg (Nat.not_lt.mpr h)]

theorem startsWith_append (str rest : List UInt8) : startsWith str (str ++ rest) = some true := by
  rw [startsWith_eq (by simp), List.take_left, beq_self_eq_true]

theorem advanceN_append (front rest : List UInt8) :
    advanceN front.length true (front ++ rest) = some (skip rest) := by
  rw [advanceN, if_neg (by simp), List.drop_left]
  rfl

/-- A text that begins with another letter. -/
theorem startsWith_of_head {str word : List UInt8} (h : word.head? ≠ str.head?) (hword : word ≠ [])
    {rest : List UInt8} (hlen : str.length ≤ (word ++ rest).length) (hstr : str ≠ []) :
    startsWith str (word ++ rest) = some false := by
  rw [startsWith_eq hlen]
  congr 1
  rw [beq_eq_false_iff_ne]
  intro heq
  apply h
  obtain ⟨n, hn⟩ := Nat.exists_eq_succ_of_ne_zero (List.length_pos_iff.mpr hstr).ne'
  rw [← heq, hn, List.head?_take, if_neg (Nat.succ_ne_zero n), List.head?_append_of_ne_nil _ hword]

theorem closeQuote_of_ne {c : UInt8} (hquote : c ≠ 34) (hnewline : c ≠ 10) (front more : List UInt8) :
    Scanner.closeQuote 34 front (c :: more) = Scanner.closeQuote 34 (front ++ [c]) more := by
  rw [Scanner.closeQuote, if_neg hquote, if_neg hnewline]

theorem closeQuote_of_odd {front : List UInt8} (h : trailing front % 2 ≠ 0) (more : List UInt8) :
    Scanner.closeQuote 34 front (34 :: more) = Scanner.closeQuote 34 (front ++ [34]) more := by
  rw [Scanner.closeQuote, if_pos rfl, ← trailing, if_neg h]

theorem closeQuote_of_even {front : List UInt8} (h : trailing front % 2 = 0) (more : List UInt8) :
    Scanner.closeQuote 34 front (34 :: more) = some front.length := by
  rw [Scanner.closeQuote, if_pos rfl, ← trailing, if_pos h]

theorem getQuotes_append {quotes : List (UInt8 × UInt8)} (hfind : quotes.find? (fun q => q.1 == 34) = some (34, 34))
    {body rest : List UInt8} (hclose : Scanner.closeQuote 34 [] (body ++ 34 :: rest) = some body.length) :
    getQuotes quotes (34 :: (body ++ 34 :: rest)) = some (34 :: (body ++ [34]), skip rest) := by
  have hsplit : 34 :: (body ++ 34 :: rest) = (34 :: (body ++ [34])) ++ rest := by simp
  have hlen : body.length + 2 = (34 :: (body ++ [34])).length := by simp
  have hpeek : peek (34 :: (body ++ 34 :: rest)) = 34 := rfl
  rw [getQuotes, if_neg (List.cons_ne_nil _ _), hpeek, hfind]
  show (match Scanner.closeQuote 34 [] (body ++ 34 :: rest) with | none => none | some n => _) = _
  rw [hclose]
  show some (token (body.length + 2) _) = _
  rw [hlen, hsplit, token_append]

theorem closeQuote_append {body : List UInt8} (hquote : 34 ∉ body) (hnewline : 10 ∉ body) {front : List UInt8}
    (heven : trailing (front ++ body) % 2 = 0) (rest : List UInt8) :
    Scanner.closeQuote 34 front (body ++ 34 :: rest) = some (front ++ body).length := by
  induction body generalizing front with
  | nil =>
    rw [List.append_nil] at heven ⊢
    exact closeQuote_of_even heven rest
  | cons c more ih =>
    have hc : c ≠ 34 := fun heq => hquote (heq ▸ List.mem_cons_self)
    have hc' : c ≠ 10 := fun heq => hnewline (heq ▸ List.mem_cons_self)
    have hsplit : front ++ c :: more = front ++ [c] ++ more := by simp
    rw [hsplit] at heven ⊢
    rw [List.cons_append, closeQuote_of_ne hc hc']
    exact ih (fun h => hquote (List.mem_cons_of_mem c h)) (fun h => hnewline (List.mem_cons_of_mem c h)) heven

/-! Parsers come to an end: what an operation leaves of the input. -/

/-- The parser did not run out of fuel, and `P` holds of what it returned. -/
inductive Result.Ends {α : Type} (P : α → Prop) : Result α → Prop
  | ok {a : α} (h : P a) : Ends P (.ok a)
  | error : Ends P .error

theorem Result.Ends.bind {α β : Type} {P : α → Prop} {Q : β → Prop} {r : Result α} {f : α → Result β}
    (h : r.Ends P) (hf : ∀ a, P a → (f a).Ends Q) : (r >>= f).Ends Q := by
  cases h with
  | ok ha => exact hf _ ha
  | error => exact .error

theorem Result.Ends.mono {α : Type} {P Q : α → Prop} {r : Result α} (h : r.Ends P) (hPQ : ∀ a, P a → Q a) :
    r.Ends Q := by
  cases h with
  | ok ha => exact .ok (hPQ _ ha)
  | error => exact .error

theorem Result.Ends.ne_outOfFuel {α : Type} {P : α → Prop} {r : Result α} (h : r.Ends P) : r ≠ .outOfFuel := by
  cases h with
  | ok _ => simp
  | error => simp

theorem length_skip_le (l : List UInt8) : (skip l).length ≤ l.length := (List.dropWhile_sublist isBlank).length_le

theorem ends_getUntil (p : UInt8 → Bool) (l : List UInt8) :
    (Result.ofOption (getUntil p l)).Ends fun x => x.2.length ≤ l.length := by
  rw [getUntil]
  split
  · exact .error
  · apply Result.Ends.ok
    show (skip _).length ≤ _
    exact Nat.le_trans (length_skip_le _) (by simp)

theorem ends_getChar (l : List UInt8) : (Result.ofOption (getChar l)).Ends fun x => x.2.length < l.length := by
  cases l with
  | nil => exact .error
  | cons c more =>
    rw [getChar]
    split
    · exact .error
    · exact .ok (Nat.lt_succ_of_le (length_skip_le more))

theorem ends_getQuotes (quotes : List (UInt8 × UInt8)) (l : List UInt8) :
    (Result.ofOption (getQuotes quotes l)).Ends fun x => x.2.length ≤ l.length := by
  rw [getQuotes]
  split
  · exact .error
  · split
    · exact .error
    · split
      · exact .error
      · apply Result.Ends.ok
        show (skip _).length ≤ _
        exact Nat.le_trans (length_skip_le _) (by simp)

theorem ends_advanceN (n : Nat) (skipWs : Bool) (l : List UInt8) :
    (Result.ofOption (advanceN n skipWs l)).Ends fun l' => l'.length + n ≤ l.length := by
  have hskip := length_skip_le (l.drop n)
  have hdrop := List.length_drop (l := l) (i := n)
  rw [advanceN]
  split
  · exact .error
  · apply Result.Ends.ok
    split
    · omega
    · omega

theorem ends_startsWith (str l : List UInt8) : (Result.ofOption (startsWith str l)).Ends fun _ => True := by
  rw [startsWith]
  split
  · exact .error
  · exact .ok trivial

end PjProject.Scan.Input
