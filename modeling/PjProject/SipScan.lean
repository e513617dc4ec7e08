import PjProject.ScanInput
import PjProject.Sdp

/-! The scanner as the SIP parser uses it, with white space and header continuations skipped automatically: an operation takes
the remaining input to what it returns and the input that is left. Numbers are read into a `long` of 32 bits. -/

namespace PjProject.Sip

open Scan (Scanner isSpace isNewline isProbablySpace InBounds autoskipWsHeader)

abbrev Bytes := List UInt8

def isDigit (c : UInt8) : Bool := 48 ≤ c && c ≤ 57

/-- `pj_scan_get_newline`, behind its check. -/
def dropNewline (l : Bytes) : Bytes :=
  let l := if l.headD 0 = 13 then l.tail else l
  if l.headD 0 = 10 then l.tail else l

/-- `pj_scan_skip_whitespace` with `PJ_SCAN_AUTOSKIP_WS_HEADER`: spaces, and a newline that spaces follow. -/
def skipHeader (l : Bytes) : Bytes :=
  let p := l.dropWhile isSpace
  let q := dropNewline p
  if isNewline (p.headD 0) ∧ isSpace (q.headD 0) then q.dropWhile isSpace else p

def getNewline (l : Bytes) : Option Bytes := if isNewline (l.headD 0) then some (dropNewline l) else none

def getChar : Bytes → Option (UInt8 × Bytes)
  | [] => none
  | c :: l => if c = 0 then none else some (c, skipHeader l)

def get (spec : UInt8 → Bool) (l : Bytes) : Option (Bytes × Bytes) :=
  if l = [] ∨ spec (l.headD 0) = false then none else some (l.takeWhile spec, skipHeader (l.dropWhile spec))

def advanceN (n : Nat) (l : Bytes) : Option Bytes := if l.length < n then none else some (skipHeader (l.drop n))

/-! Numbers. -/

def maxLong : Nat := 0x7FFFFFFF

/-- `pj_strtoul3` in base 10: the value and whether it fits. -/
def strtoul3 (str : Bytes) : Option (Nat × Bool) :=
  let s := str.dropWhile Sdp.isspace
  if isDigit (s.headD 0) then
    let n := Sdp.number (s.takeWhile isDigit)
    some (if n < 0x100000000 then (n, true) else (0xFFFFFFFF, false))
  else none

/-- `pj_strtol2`: the value and whether it fits. -/
def strtol2 (str : Bytes) : Option (Int × Bool) :=
  match str.dropWhile Sdp.isspace with
  | [] => none
  | c :: t =>
    let negative := c == 45
    (strtoul3 (if c = 43 ∨ c = 45 then t else c :: t)).map fun (value, fits) =>
      if fits = false then (if negative then -(maxLong + 1 : Int) else maxLong, false)
      else if maxLong < value ∧ negative = false then ((maxLong : Int), false)
      else if maxLong + 1 < value ∧ negative then (-(maxLong + 1 : Int), false)
      else (if negative then -(value : Int) else value, true)

/-- `strtoi_validate`; `none` where it throws. -/
def strtoiValidate (str : Bytes) (minVal maxVal : Int) : Option Int :=
  match strtol2 str with
  | none => none
  | some (value, fits) => if value < minVal ∨ maxVal < value ∨ fits = false then none else some value

/-! The operations of the scanner against those of the input. -/

/-- The scanner has the input before it, and skips header continuations. -/
structure At (s : Scanner) (l : Bytes) : Prop where
  bounds : InBounds s
  rest : s.rest = l
  opts : s.skipWs = autoskipWsHeader

section Operations

variable {s : Scanner} {l : Bytes}

/-- The same place seen with other options. -/
theorem At.views (h : At s l) : Scan.Input.Views { s with skipWs := Scan.autoskipWs ||| Scan.autoskipNewline } l :=
  ⟨⟨h.bounds.lo, h.bounds.hi⟩, h.rest, rfl⟩

theorem At.drop (h : At s l) {n : Nat} : s.buf.drop (s.curptr + n - s.begin) = l.drop n := h.views.drop

theorem At.length (h : At s l) : s.curptr + l.length = s.stop := h.views.length

theorem At.byte (h : At s l) {n : Nat} : s.byte (s.curptr + n) = (l.drop n).headD 0 := h.views.byte

theorem At.run (h : At s l) (p : UInt8 → Bool) : s.run s.curptr p = (l.takeWhile p).length := h.views.run p

theorem At.advance (h : At s l) {n : Nat} (hn : n ≤ l.length) : At { s with curptr := s.curptr + n } (l.drop n) := by
  obtain ⟨hbounds, hrest, -⟩ := Scan.Input.views_advance h.views hn
  exact ⟨⟨hbounds.lo, hbounds.hi⟩, hrest, h.opts⟩

theorem At.curptr (h : At s l) : s.byte s.curptr = l.headD 0 := by
  have hbyte := h.byte (n := 0)
  rwa [Nat.add_zero, List.drop_zero] at hbyte

theorem At.stop_iff (h : At s l) : s.stop ≤ s.curptr ↔ l = [] := by
  have hlen := h.length
  rw [← List.length_eq_zero_iff]
  omega

/-- What the scanner reads behind the input is no byte that it looks for. -/
theorem At.headD_iff (h : At s l) {p : UInt8 → Prop} (hzero : ¬ p 0) :
    s.curptr ≠ s.stop ∧ p (s.byte s.curptr) ↔ p (l.headD 0) := by
  rw [h.curptr]
  refine ⟨And.right, fun hp => ⟨fun hend => ?_, hp⟩⟩
  rw [h.stop_iff.mp (Nat.le_of_eq hend.symm)] at hp
  exact hzero hp

/-- The cursor behind one byte. -/
theorem At.next (h : At s l) {c : UInt8} (hc : c ≠ 0) (hhead : l.headD 0 = c) :
    At { s with curptr := s.curptr + 1 } l.tail := by
  cases l with
  | nil => exact absurd hhead.symm hc
  | cons d t => exact h.advance (Nat.le_add_left 1 _)

def newlineEnd (s : Scanner) (p : Nat) : Nat :=
  let p := if s.byte p = 13 then p + 1 else p
  if p ≠ s.stop ∧ s.byte p = 10 then p + 1 else p

theorem At.newlineEnd (h : At s l) : At { s with curptr := newlineEnd s s.curptr } (dropNewline l) := by
  have hcr : At { s with curptr := if s.byte s.curptr = 13 then s.curptr + 1 else s.curptr }
      (if l.headD 0 = 13 then l.tail else l) := by
    rw [h.curptr]
    by_cases hhead : l.headD 0 = 13
    · rw [if_pos hhead, if_pos hhead]
      exact h.next (by decide) hhead
    · rw [if_neg hhead, if_neg hhead]
      exact h
  unfold Sip.newlineEnd dropNewline
  dsimp only
  generalize (if s.byte s.curptr = 13 then s.curptr + 1 else s.curptr) = p at hcr
  generalize (if l.headD 0 = 13 then l.tail else l) = t at hcr
  have hiff := hcr.headD_iff (p := fun c => c = 10) (by decide)
  by_cases hlf : t.headD 0 = 10
  · have hcond : p ≠ s.stop ∧ s.byte p = 10 := hiff.mpr hlf
    rw [if_pos hlf, if_pos hcond]
    exact hcr.next (by decide) hlf
  · have hcond : ¬ (p ≠ s.stop ∧ s.byte p = 10) := fun hyes => hlf (hiff.mp hyes)
    rw [if_neg hlf, if_neg hcond]
    exact hcr

theorem At.dropWhile (h : At s l) (p : UInt8 → Bool) : At { s with curptr := s.curptr + s.run s.curptr p } (l.dropWhile p) := by
  rw [h.run, ← Scan.Input.drop_takeWhile p l]
  exact h.advance (List.takeWhile_sublist p).length_le

theorem At.of_eq (h : At s l) {s' : Scanner} (hbuf : s'.buf = s.buf) (hbegin : s'.begin = s.begin)
    (hcurptr : s'.curptr = s.curptr) (hopts : s'.skipWs = s.skipWs) : At s' l := by
  obtain ⟨⟨hlo, hhi⟩, hrest, hheader⟩ := h
  refine ⟨⟨by rw [hbegin, hcurptr]; exact hlo, ?_⟩, ?_, hopts.trans hheader⟩
  · rw [Scanner.stop, hbegin, hbuf, hcurptr]
    exact hhi
  · rw [Scanner.rest, hbuf, hbegin, hcurptr]
    exact hrest

theorem curptr_skipContinuation (s : Scanner) (pos : Nat) :
    (s.skipContinuation pos).curptr =
      if newlineEnd s pos ≠ s.stop ∧ isSpace (s.byte (newlineEnd s pos)) then
        newlineEnd s pos + s.run (newlineEnd s pos) isSpace
      else pos := by
  unfold Scanner.skipContinuation newlineEnd
  exact apply_ite Scanner.curptr _ _ _

theorem curptr_skipWhitespace (hopts : s.skipWs = autoskipWsHeader) :
    s.skipWhitespace.curptr =
      if s.curptr + s.run s.curptr isSpace ≠ s.stop ∧ isNewline (s.byte (s.curptr + s.run s.curptr isSpace)) then
        (s.skipContinuation (s.curptr + s.run s.curptr isSpace)).curptr
      else s.curptr + s.run s.curptr isSpace := by
  have hnewline : ¬ s.skipWs &&& Scan.autoskipNewline ≠ 0 := by
    rw [hopts]
    decide
  have hheader : s.skipWs &&& autoskipWsHeader = autoskipWsHeader := by
    rw [hopts]
    rfl
  unfold Scanner.skipWhitespace
  simp only [hnewline, hheader, and_false, and_true, if_false]
  exact apply_ite Scanner.curptr _ _ _

theorem At.skipWhitespace (h : At s l) : At s.skipWhitespace (skipHeader l) := by
  obtain ⟨hbuf, hopts⟩ := Scan.Input.skipWhitespace_same s
  have hbegin := (Scan.keeps_skipWhitespace h.bounds).begin
  have hp := h.dropWhile isSpace
  suffices hplace : At { s with curptr := s.skipWhitespace.curptr } (skipHeader l) from hplace.of_eq hbuf hbegin rfl hopts
  rw [curptr_skipWhitespace h.opts, curptr_skipContinuation]
  unfold skipHeader
  dsimp only
  generalize s.curptr + s.run s.curptr isSpace = pos at hp
  generalize l.dropWhile isSpace = p at hp
  have hq := hp.newlineEnd
  have hfirst := hp.headD_iff (p := fun c => isNewline c = true) (by decide)
  have hsecond := hq.headD_iff (p := fun c => isSpace c = true) (by decide)
  by_cases hnl : isNewline (p.headD 0) = true
  · have hcond : pos ≠ s.stop ∧ isNewline (s.byte pos) = true := hfirst.mpr hnl
    rw [if_pos hcond]
    by_cases hspace : isSpace ((dropNewline p).headD 0) = true
    · have hcond : Sip.newlineEnd s pos ≠ s.stop ∧ isSpace (s.byte (Sip.newlineEnd s pos)) = true := hsecond.mpr hspace
      rw [if_pos hcond, if_pos ⟨hnl, hspace⟩]
      exact hq.dropWhile isSpace
    · have hcond : ¬ (Sip.newlineEnd s pos ≠ s.stop ∧ isSpace (s.byte (Sip.newlineEnd s pos)) = true) :=
        fun hyes => hspace (hsecond.mp hyes)
      rw [if_neg hcond, if_neg fun hyes => hspace hyes.2]
      exact hp
  · have hcond : ¬ (pos ≠ s.stop ∧ isNewline (s.byte pos) = true) := fun hyes => hnl (hfirst.mp hyes)
    rw [if_neg hcond, if_neg fun hyes => hnl hyes.1]
    exact hp

theorem skipHeader_of_not {l : Bytes} (h : isProbablySpace (l.headD 0) = false ∨ l = []) : skipHeader l = l := by
  have hsame : l.dropWhile isSpace = l ∧ isNewline (l.headD 0) = false := by
    rcases h with h | rfl
    · cases l with
      | nil => exact ⟨rfl, rfl⟩
      | cons c t =>
        rw [List.headD_cons] at h ⊢
        have hspace : ¬ isSpace c = true := by
          intro hspace
          rw [Scan.Input.isProbablySpace_of_isBlank (Scan.Input.isBlank_of_isSpace hspace)] at h
          cases h
        refine ⟨List.dropWhile_cons_of_neg hspace, Bool.eq_false_iff.mpr fun hnl => ?_⟩
        have hblank : Scan.Input.isBlank c = true := by
          rw [Scan.Input.isBlank, hnl, Bool.or_true]
        rw [Scan.Input.isProbablySpace_of_isBlank hblank] at h
        cases h
    · exact ⟨rfl, rfl⟩
  unfold skipHeader
  dsimp only
  rw [hsame.1, hsame.2]
  exact if_neg fun hyes => absurd hyes.1 (by decide)

theorem At.autoSkip (h : At s l) : At (s.autoSkip (s.skipWs != 0)) (skipHeader l) := by
  have hskip : (s.skipWs != 0) = true := by
    rw [h.opts]
    rfl
  rw [hskip]
  unfold Scanner.autoSkip
  split
  · exact h.skipWhitespace
  · next hcond =>
    rw [skipHeader_of_not]
    · exact h
    · by_cases hnil : l = []
      · exact .inr hnil
      · refine .inl (Bool.eq_false_iff.mpr fun hspace => hcond ?_)
        have heof : s.isEof = false := decide_eq_false fun hle => hnil (h.stop_iff.mp hle)
        rw [heof, h.curptr, hspace]
        rfl

theorem at_init (buf : Bytes) (bufstart : Nat) : At (Scanner.init buf bufstart autoskipWsHeader) (skipHeader buf) := by
  have hstart : At ⟨buf, bufstart, bufstart, 1, bufstart, autoskipWsHeader⟩ buf := by
    refine ⟨⟨le_rfl, Nat.le_add_right _ _⟩, ?_, rfl⟩
    unfold Scanner.rest
    dsimp only
    rw [Nat.sub_self]
    rfl
  exact hstart.skipWhitespace

/-- A scanner operation that returns something does what the one of the input does. -/
inductive Agrees {α β : Type} (s : Scanner) (same : α → β → Prop) : Option (α × Scanner) → Option (β × Bytes) → Prop
  | error : Agrees s same none none
  | ok {a : α} {b : β} {s' : Scanner} {l' : Bytes} (hsame : same a b) (hbuf : s'.buf = s.buf) (hat : At s' l') :
      Agrees s same (some (a, s')) (some (b, l'))

def moves {γ : Type} (r : Option γ) : Option (Unit × γ) := r.map fun c => ((), c)

theorem Agrees.moved {α β : Type} {s : Scanner} {same : α → β → Prop} {r : Option (α × Scanner)} {r' : Option (β × Bytes)}
    (h : Agrees s same r r') : Agrees s (fun _ _ => True) (moves (r.map Prod.snd)) (moves (r'.map Prod.snd)) := by
  cases h with
  | error => exact .error
  | ok _ hbuf hat => exact .ok trivial hbuf hat

theorem Agrees.fst_eq {α : Type} {s : Scanner} {r : Option (α × Scanner)} {r' : Option (α × Bytes)}
    (h : Agrees s (fun c d => c = d) r r') : r.map Prod.fst = r'.map Prod.fst := by
  cases h with
  | error => rfl
  | ok hsame _ _ => exact congrArg some hsame

theorem At.getChar (h : At s l) : Agrees s (fun c d => c = d) s.getChar (Sip.getChar l) := by
  unfold Scanner.getChar
  cases l with
  | nil =>
    rw [if_pos (.inl (h.stop_iff.mpr rfl))]
    exact .error
  | cons c t =>
    have hstop : ¬ s.stop ≤ s.curptr := fun hle => absurd (h.stop_iff.mp hle) (List.cons_ne_nil c t)
    rw [h.curptr, List.headD_cons]
    unfold Sip.getChar
    dsimp only
    by_cases hzero : c = 0
    · rw [if_pos (.inr hzero), if_pos hzero]
      exact .error
    · rw [if_neg fun hyes => hyes.elim hstop hzero, if_neg hzero]
      exact .ok rfl (Scan.Input.autoSkip_buf _ _) (h.advance (n := 1) (Nat.le_add_left 1 _)).autoSkip

theorem At.get (h : At s l) (spec : UInt8 → Bool) :
    Agrees s (fun str tok => Scan.Input.text s str = tok) (s.get spec) (Sip.get spec l) := by
  unfold Scanner.get Sip.get
  rw [h.curptr, h.run]
  have heof : s.isEof = true ↔ l = [] := by
    rw [Scanner.isEof, decide_eq_true_iff]
    exact h.stop_iff
  by_cases hcond : l = [] ∨ spec (l.headD 0) = false
  · rw [if_pos hcond, if_pos]
    · exact .error
    · rw [Bool.or_eq_true, Bool.not_eq_true', heof]
      exact hcond
  · rw [if_neg hcond, if_neg]
    · rw [← Scan.Input.drop_takeWhile spec l]
      refine .ok ?_ (Scan.Input.autoSkip_buf _ _) (h.advance (List.takeWhile_sublist spec).length_le).autoSkip
      have hdrop := h.drop (n := 0)
      rw [Nat.add_zero, List.drop_zero] at hdrop
      unfold Scan.Input.text slice
      dsimp only
      rw [hdrop]
      exact (List.prefix_iff_eq_take.mp (List.takeWhile_prefix spec)).symm
    · rw [Bool.or_eq_true, Bool.not_eq_true', heof]
      exact hcond

theorem At.getNewline (h : At s l) : Agrees s (fun _ _ => True) (moves s.getNewline) (moves (Sip.getNewline l)) := by
  unfold Scanner.getNewline Sip.getNewline
  rw [h.curptr]
  have hend := h.newlineEnd
  have heof : s.isEof = true ↔ l = [] := by
    rw [Scanner.isEof, decide_eq_true_iff]
    exact h.stop_iff
  by_cases hnl : isNewline (l.headD 0) = true
  · have hne : l ≠ [] := by
      rintro rfl
      exact absurd hnl (by decide)
    rw [if_pos hnl, if_neg]
    · refine .ok trivial rfl (hend.of_eq rfl rfl ?_ rfl)
      unfold Sip.newlineEnd
      rw [h.curptr]
      dsimp only
      have hlen := h.length
      have hpos := List.length_pos_iff.mpr hne
      -- the cursor is not behind the end
      by_cases hcr : l.headD 0 = 13
      · rw [if_pos hcr]
        refine if_congr (and_congr_left fun _ => ?_) rfl rfl
        omega
      · rw [if_neg hcr]
        refine if_congr (and_congr_left fun _ => ?_) rfl rfl
        omega
    · rw [Bool.or_eq_true, Bool.not_eq_true', heof, hnl]
      exact fun hyes => hyes.elim hne (by decide)
  · rw [if_neg hnl, if_pos]
    · exact .error
    · rw [Bool.or_eq_true, Bool.not_eq_true']
      exact .inr (Bool.eq_false_iff.mpr hnl)

theorem At.advanceN (h : At s l) {word n : Nat} (hword : s.curptr + n < word) :
    Agrees s (fun _ _ => True) (moves (s.advanceN word n true)) (moves (Sip.advanceN n l)) := by
  unfold Scanner.advanceN Sip.advanceN
  dsimp only
  rw [Nat.mod_eq_of_lt hword]
  have hlen := h.length
  have hskip : (s.skipWs != 0) = true := by
    rw [h.opts]
    rfl
  by_cases hshort : l.length < n
  · rw [if_pos hshort, if_pos (by omega)]
    exact .error
  · rw [if_neg hshort, if_neg (by omega)]
    have hat := (h.advance (Nat.not_lt.mp hshort)).autoSkip
    dsimp only at hat
    rw [hskip] at hat
    exact .ok trivial (Scan.Input.autoSkip_buf _ _) hat

end Operations

/-- The operations of the parser; `none` for another one. -/
def reads : Option Bytes × Bytes → Scan.Op → Option (Option Bytes × Bytes)
  | (_, l), .get spec => some (Scan.Input.got l (get spec l))
  | (_, l), .getChar => some (none, ((getChar l).map Prod.snd).getD l)
  | (_, l), .getNewline => some (none, (getNewline l).getD l)
  | (_, l), .advanceN n true => some (none, (advanceN n l).getD l)
  | _, _ => none

/-- The string of the last operation, and the input before the scanner. -/
structure Reads (x : Scan.Session) (p : Option Bytes × Bytes) : Prop where
  input : At x.scanner p.2
  out : x.out.map (Scan.Input.text x.scanner) = p.1

section Reads

variable {x y : Scan.Session}

theorem Reads.moved {r : Option Scanner} {l : Bytes} {r' : Option Bytes} (h : At x.scanner l)
    (hagrees : Agrees x.scanner (fun _ _ => True) (moves r) (moves r')) : Reads (x.moved r) (none, r'.getD l) := by
  cases r <;> cases r' <;> cases hagrees
  · exact ⟨h, rfl⟩
  · exact ⟨‹_›, rfl⟩

theorem Reads.step {word : Nat} {p q : Option Bytes × Bytes} {op : Scan.Op} (h : Reads x p)
    (hcare : Scan.Careful word x op) (hstep : Scan.step word x op = some y) (hreads : reads p op = some q) :
    Reads y q := by
  have hat := h.input
  cases op with
  | get spec =>
    obtain rfl := Option.some.inj hreads
    obtain ⟨-, hy⟩ := Option.ite_none_left_eq_some.mp hstep
    obtain rfl := Option.some.inj hy
    have hagrees := hat.get spec
    have hreturns := Scan.returns_get hat.bounds spec
    generalize x.scanner.get spec = r at hagrees hreturns
    generalize Sip.get spec p.2 = r' at hagrees
    cases hagrees with
    | error => exact ⟨hat, rfl⟩
    | ok hsame hbuf hnext =>
      exact ⟨hnext, congrArg some ((Scan.Input.text_congr hbuf (hreturns _ _ rfl).2.begin _).trans hsame)⟩
  | getChar =>
    obtain rfl := Option.some.inj hreads
    exact Option.some.inj hstep ▸ .moved hat hat.getChar.moved
  | getNewline =>
    obtain rfl := Option.some.inj hreads
    exact Option.some.inj hstep ▸ .moved hat hat.getNewline
  | advanceN n skip =>
    cases skip with
    | false => cases hreads
    | true =>
      obtain rfl := Option.some.inj hreads
      exact Option.some.inj hstep ▸ .moved hat (hat.advanceN (decide_eq_true_eq.mp hcare))
  | _ => cases hreads

end Reads

/-- Over every run the scanner with `PJ_SCAN_AUTOSKIP_WS_HEADER` does to its buffer what the operations do to a
list of bytes. -/
theorem reads_of_run {word bufstart : Nat} {buf : Bytes} {ops : List Scan.Op} {x : Scan.Session} {q : Option Bytes × Bytes}
    (hcare : Meets (Scan.step word) (Scan.Careful word) (Scan.start buf bufstart autoskipWsHeader) ops)
    (hrun : exec (Scan.step word) (Scan.start buf bufstart autoskipWsHeader) ops = some x)
    (hreads : exec reads (none, skipHeader buf) ops = some q) :
    Reads x q ∧ x.scanner.byte x.scanner.curptr = q.2.headD 0 ∧
      x.scanner.getChar.map Prod.fst = (getChar q.2).map Prod.fst := by
  have hstep (x : Scan.Session) (p : Option Bytes × Bytes) (op : Scan.Op) (y : Scan.Session) (q : Option Bytes × Bytes)
      (h : Reads x p) (hcare : Scan.Careful word x op) (hy : Scan.step word x op = some y)
      (hq : reads p op = some q) : Reads y q := h.step hcare hy hq
  have hend : Reads x q := exec_related_of_meets hstep ⟨at_init buf bufstart, rfl⟩ hcare hrun hreads
  exact ⟨hend, hend.input.curptr, hend.input.getChar.fst_eq⟩

/-- A name, a colon behind a space and a number on the next line of the header. -/
theorem reads_folded : ∃ x q, exec (Scan.step 0x100000000) (Scan.start (ascii "l :\r\n 42\r\n") 4096 autoskipWsHeader)
      [.advanceN 1 true, .getChar, .get isDigit] = some x ∧
    exec reads (none, skipHeader (ascii "l :\r\n 42\r\n")) [.advanceN 1 true, .getChar, .get isDigit] = some q ∧
    q = (some (ascii "42"), ascii "\r\n") ∧ Reads x q := by
  have hrun := Option.some_get (x := exec (Scan.step 0x100000000)
    (Scan.start (ascii "l :\r\n 42\r\n") 4096 autoskipWsHeader) [.advanceN 1 true, .getChar, .get isDigit]) (by decide +kernel)
  have hreads : exec reads (none, skipHeader (ascii "l :\r\n 42\r\n")) [.advanceN 1 true, .getChar, .get isDigit] =
      some (some (ascii "42"), ascii "\r\n") := by
    decide +kernel
  exact ⟨_, _, hrun.symm, hreads, rfl, (reads_of_run (by decide +kernel) hrun.symm hreads).1⟩

end PjProject.Sip
