import PjProject.Scanner

/-! The cursor of the scanner stays in the buffer: what each operation does to it, and what holds after any
sequence of operations. -/

namespace PjProject.Scan

open Scanner

def trailing (text : List UInt8) : Nat := (text.reverse.takeWhile (· == 92)).length

theorem trailing_concat (text : List UInt8) (c : UInt8) :
    trailing (text ++ [c]) = if c = 92 then trailing text + 1 else 0 := by
  rw [trailing, List.reverse_append, List.reverse_singleton, List.singleton_append]
  split
  · rename_i hc
    rw [List.takeWhile_cons_of_pos (p := (· == 92)) (beq_iff_eq.mpr hc), List.length_cons]
    rfl
  · rename_i hc
    rw [List.takeWhile_cons_of_neg (p := (· == 92)) (fun h => hc (beq_iff_eq.mp h)), List.length_nil]

/-- `begin <= curptr <= end`. -/
structure InBounds (s : Scanner) : Prop where
  lo : s.begin ≤ s.curptr
  hi : s.curptr ≤ s.stop

/-- The string lies in the buffer. -/
structure Inside (s : Scanner) (str : Str) : Prop where
  lo : s.begin ≤ str.ptr
  hi : str.ptr + str.slen ≤ s.stop

/-- The buffer is where it was, and the cursor is in it. -/
structure Keeps (s s' : Scanner) : Prop where
  begin : s'.begin = s.begin
  length : s'.buf.length = s.buf.length
  bounds : InBounds s'

theorem Keeps.stop {s s' : Scanner} (h : Keeps s s') : s'.stop = s.stop := by
  rw [Scanner.stop, Scanner.stop, h.begin, h.length]

/-- Only the place of the buffer counts in the scanner before. -/
theorem Keeps.of_eq {s s' t : Scanner} (h : Keeps s s') (hbegin : s.begin = t.begin)
    (hlength : s.buf.length = t.buf.length) : Keeps t s' :=
  ⟨h.begin.trans hbegin, h.length.trans hlength, h.bounds⟩

theorem Keeps.inside {s s' : Scanner} (h : Keeps s s') {str : Str} (hstr : Inside s str) : Inside s' str := by
  constructor
  · rw [h.begin]
    exact hstr.lo
  · rw [h.stop]
    exact hstr.hi

theorem add_run_le {s : Scanner} {start : Nat} (p : UInt8 → Bool) (hlo : s.begin ≤ start) (hhi : start ≤ s.stop) :
    start + s.run start p ≤ s.stop := by
  have hle : s.run start p ≤ s.buf.length - (start - s.begin) := by
    rw [Scanner.run, ← List.length_drop]
    exact (List.takeWhile_sublist p).length_le
  rw [Scanner.stop] at hhi ⊢
  omega

theorem skipNewlines_bounds (l : List UInt8) (pos line startLine : Nat) :
    pos ≤ (skipNewlines l pos line startLine).1 ∧ (skipNewlines l pos line startLine).1 ≤ pos + l.length := by
  fun_induction skipNewlines l pos line startLine with
  | case1 => exact ⟨le_rfl, le_rfl⟩
  | case2 => simp
  | case3 => simp only [List.length_cons] at *; omega
  | case4 => simp only [List.length_cons] at *; omega
  | case5 => simp only [List.length_cons] at *; omega
  | case6 => simp only [List.length_cons] at *; omega
  | case7 => simp

theorem keeps_skipContinuation {s : Scanner} {pos : Nat} (hlo : s.begin ≤ pos) (hhi : pos < s.stop) :
    Keeps s (s.skipContinuation pos) := by
  obtain ⟨p1, hp1⟩ : ∃ p, p = if s.byte pos = 13 then pos + 1 else pos := ⟨_, rfl⟩
  obtain ⟨p2, hp2⟩ : ∃ p, p = if p1 ≠ s.stop ∧ s.byte p1 = 10 then p1 + 1 else p1 := ⟨_, rfl⟩
  have h1 : s.begin ≤ p1 ∧ p1 ≤ s.stop := by
    rw [hp1]
    split <;> omega
  have h2 : s.begin ≤ p2 ∧ p2 ≤ s.stop := by
    rw [hp2]
    split <;> omega
  rw [Scanner.skipContinuation, ← hp1, ← hp2]
  split
  · exact ⟨rfl, rfl, Nat.le_trans h2.1 (Nat.le_add_right _ _), add_run_le isSpace h2.1 h2.2⟩
  · exact ⟨rfl, rfl, hlo, Nat.le_of_lt hhi⟩

theorem keeps_skipWhitespace {s : Scanner} (h : InBounds s) : Keeps s s.skipWhitespace := by
  obtain ⟨pos, hpos⟩ : ∃ p, p = s.curptr + s.run s.curptr isSpace := ⟨_, rfl⟩
  have hbounds : s.begin ≤ pos ∧ pos ≤ s.stop := by
    rw [hpos]
    exact ⟨Nat.le_trans h.lo (Nat.le_add_right _ _), add_run_le isSpace h.lo h.hi⟩
  obtain ⟨q, hq⟩ : ∃ q, q = if pos ≠ s.stop ∧ isNewline (s.byte pos) ∧ s.skipWs &&& autoskipNewline ≠ 0 then
      skipNewlines (s.buf.drop (pos - s.begin)) pos s.line s.startLine
    else (pos, s.line, s.startLine) := ⟨_, rfl⟩
  have hq1 : s.begin ≤ q.1 ∧ q.1 ≤ s.stop := by
    rw [hq]
    split
    · have hlines := skipNewlines_bounds (s.buf.drop (pos - s.begin)) pos s.line s.startLine
      rw [List.length_drop] at hlines
      rw [Scanner.stop] at hbounds ⊢
      omega
    · exact hbounds
  rw [Scanner.skipWhitespace, ← hpos, ← hq]
  show Keeps s (if _ then _ else _)
  split
  · rename_i hcond
    exact (keeps_skipContinuation (s := { s with line := q.2.1, startLine := q.2.2 }) hq1.1
      (Nat.lt_of_le_of_ne hq1.2 hcond.1)).of_eq rfl rfl
  · exact ⟨rfl, rfl, hq1.1, hq1.2⟩

theorem keeps_autoSkip {s : Scanner} (h : InBounds s) (skip : Bool) : Keeps s (s.autoSkip skip) := by
  rw [Scanner.autoSkip]
  split
  · exact keeps_skipWhitespace h
  · exact ⟨rfl, rfl, h⟩

/-- The cursor moves to an address in the buffer, and white space is skipped. -/
theorem keeps_moved {s : Scanner} {pos : Nat} (hlo : s.begin ≤ pos) (hhi : pos ≤ s.stop) (skip : Bool) :
    Keeps s ({ s with curptr := pos }.autoSkip skip) :=
  (keeps_autoSkip (s := { s with curptr := pos }) ⟨hlo, hhi⟩ skip).of_eq rfl rfl

theorem keeps_token {s : Scanner} {n : Nat} (h : InBounds s) (hn : s.curptr + n ≤ s.stop) :
    Inside s (s.token n).1 ∧ Keeps s (s.token n).2 :=
  ⟨⟨h.lo, hn⟩, keeps_moved (Nat.le_trans h.lo (Nat.le_add_right _ _)) hn _⟩

theorem keeps_init (buf : List UInt8) (bufstart options : Nat) : InBounds (init buf bufstart options) := by
  have hstart : InBounds ⟨buf, bufstart, bufstart, 1, bufstart, options⟩ :=
    ⟨le_rfl, Nat.le_add_right _ _⟩
  rw [Scanner.init]
  split
  · exact hstart
  · exact (keeps_skipWhitespace hstart).bounds

/-- What an operation that returns a string leaves behind. -/
def Returns (s : Scanner) (r : Option (Str × Scanner)) : Prop :=
  ∀ str s', r = some (str, s') → Inside s str ∧ Keeps s s'

theorem returns_token {s : Scanner} {n : Nat} (h : InBounds s) (hn : s.curptr + n ≤ s.stop) :
    Returns s (some (s.token n)) := by
  rintro str s' hr
  obtain rfl := (Prod.mk.inj (Option.some.inj hr)).1
  obtain rfl := (Prod.mk.inj (Option.some.inj hr)).2
  exact keeps_token h hn

theorem returns_none (s : Scanner) : Returns s none := by
  rintro str s' hr
  cases hr

theorem returns_getUntilP {s : Scanner} (h : InBounds s) (p : UInt8 → Bool) : Returns s (s.getUntilP p) := by
  rw [Scanner.getUntilP]
  split
  · exact returns_none s
  · exact returns_token h (add_run_le _ h.lo h.hi)

theorem returns_get {s : Scanner} (h : InBounds s) (spec : UInt8 → Bool) : Returns s (s.get spec) := by
  rw [Scanner.get]
  split
  · exact returns_none s
  · exact returns_token h (add_run_le _ h.lo h.hi)

theorem closeQuote_le {endQuote : UInt8} {front l : List UInt8} {n : Nat}
    (h : closeQuote endQuote front l = some n) : n < front.length + l.length := by
  fun_induction closeQuote endQuote front l with
  | case1 => cases h
  | case2 front more heven =>
    obtain rfl := Option.some.inj h
    rw [List.length_cons]
    omega
  | case3 front more hodd ih =>
    have := ih h
    simp only [List.length_append, List.length_cons, List.length_nil] at this ⊢
    omega
  | case4 => cases h
  | case5 front c more hc hnl ih =>
    have := ih h
    simp only [List.length_append, List.length_cons, List.length_nil] at this ⊢
    omega

theorem length_rest {s : Scanner} (h : InBounds s) : s.curptr + s.rest.length = s.stop := by
  have hlo := h.lo
  have hhi := h.hi
  rw [Scanner.stop] at hhi ⊢
  rw [Scanner.rest, List.length_drop]
  omega

theorem returns_getQuotes {s : Scanner} (h : InBounds s) (quotes : List (UInt8 × UInt8)) :
    Returns s (s.getQuotes quotes) := by
  rw [Scanner.getQuotes]
  split
  · exact returns_none s
  · split
    · exact returns_none s
    · split
      · exact returns_none s
      · rename_i n hn
        apply returns_token h
        have hlt := closeQuote_le hn
        have hlen := length_rest h
        rw [List.length_nil, List.length_tail] at hlt
        omega

/-- The remaining input is made of characters of the set and of `%` with two hex digits, and then a single
`%` as its last byte. -/
def trailingPercent (spec : UInt8 → Bool) : List UInt8 → Bool
  | [] => false
  | c :: more =>
    if c = 37 then
      match more with
      | [] => true
      | h1 :: h2 :: more' => isxdigit h1 && isxdigit h2 && trailingPercent spec more'
      | [_] => false
    else spec c && trailingPercent spec more

/-- The loop writes no more than it reads, and reads behind the end only after a trailing `%`. -/
theorem unescape_bounds (spec : UInt8 → Bool) (l : List UInt8) :
    (unescape spec l).1.length ≤ (unescape spec l).2 ∧
      (trailingPercent spec l = false → (unescape spec l).2 ≤ l.length) := by
  fun_induction unescape spec l with
  | case1 => simp
  | case2 h1 h2 more' hhex out n heq ih =>
    rw [heq] at ih
    dsimp only at ih
    simp only [List.length_cons]
    refine ⟨by omega, fun h => ?_⟩
    rw [trailingPercent, if_pos rfl] at h
    simp only [hhex, Bool.true_and] at h
    have := ih.2 h
    omega
  | case3 h1 h2 more' hhex => simp
  | case4 h1 => simp
  | case5 => simp [trailingPercent]
  | case6 c more hc hspec out n heq ih =>
    rw [heq] at ih
    dsimp only at ih
    simp only [List.length_cons]
    refine ⟨by omega, fun h => ?_⟩
    unfold trailingPercent at h
    rw [if_neg hc, hspec, Bool.true_and] at h
    have := ih.2 h
    omega
  | case7 c more hc hspec => simp

theorem length_patch {buf out : List UInt8} {pos : Nat} (hpos : pos ≤ buf.length) :
    (patch buf pos out).length = buf.length := by
  rw [patch, List.length_take, List.length_append, List.length_append, List.length_take, List.length_drop]
  omega

theorem returns_getUnescape {s : Scanner} (h : InBounds s) {spec : UInt8 → Bool}
    (hpercent : trailingPercent spec s.rest = false) : Returns s (s.getUnescape spec) := by
  rw [Scanner.getUnescape]
  split
  · exact returns_none s
  · rintro str s' hr
    obtain ⟨rfl, rfl⟩ := Prod.mk.inj (Option.some.inj hr)
    obtain ⟨hout, hread⟩ := unescape_bounds spec s.rest
    have hlen := length_rest h
    have hread := hread hpercent
    have hbuf : (patch s.buf (s.curptr - s.begin) (unescape spec s.rest).1).length = s.buf.length := by
      apply length_patch
      have hlo := h.lo
      have hhi := h.hi
      rw [Scanner.stop] at hhi
      omega
    refine ⟨⟨h.lo, by show s.curptr + (unescape spec s.rest).1.length ≤ s.stop; omega⟩, ?_⟩
    refine (keeps_autoSkip ⟨?_, ?_⟩ _).of_eq rfl hbuf
    · exact Nat.le_trans h.lo (Nat.le_add_right _ _)
    · rw [Scanner.stop, hbuf]
      show s.curptr + (unescape spec s.rest).2 ≤ s.stop
      omega

/-- Where the sum does not leave the address space, the check of the end is right. -/
theorem returns_getN {word : Nat} {s : Scanner} (h : InBounds s) {n : Nat} (hn : s.curptr + n < word) :
    Returns s (s.getN word n) := by
  rw [Scanner.getN, Nat.mod_eq_of_lt hn]
  show Returns s (if _ then _ else _)
  split
  · exact returns_none s
  · rename_i hend
    rintro str s' hr
    obtain ⟨rfl, rfl⟩ := Prod.mk.inj (Option.some.inj hr)
    exact ⟨⟨h.lo, Nat.not_lt.mp hend⟩, keeps_moved (Nat.le_trans h.lo (Nat.le_add_right _ _)) (Nat.not_lt.mp hend) _⟩

theorem keeps_advanceN {word : Nat} {s s' : Scanner} (h : InBounds s) {n : Nat} (hn : s.curptr + n < word)
    {skip : Bool} (hr : s.advanceN word n skip = some s') : Keeps s s' := by
  rw [Scanner.advanceN, Nat.mod_eq_of_lt hn] at hr
  split at hr
  · cases hr
  · rename_i hend
    obtain rfl := Option.some.inj hr
    exact keeps_moved (Nat.le_trans h.lo (Nat.le_add_right _ _)) (Nat.not_lt.mp hend) _

theorem keeps_getChar {s s' : Scanner} {c : UInt8} (h : InBounds s) (hr : s.getChar = some (c, s')) : Keeps s s' := by
  rw [Scanner.getChar] at hr
  split at hr
  · cases hr
  · rename_i hend
    obtain ⟨-, rfl⟩ := Prod.mk.inj (Option.some.inj hr)
    exact keeps_moved (Nat.le_trans h.lo (Nat.le_add_right _ _)) (by omega) _

theorem keeps_getNewline {s s' : Scanner} (h : InBounds s) (hr : s.getNewline = some s') : Keeps s s' := by
  rw [Scanner.getNewline] at hr
  split at hr
  · cases hr
  · rename_i hend
    obtain rfl := Option.some.inj hr
    have hlt : s.curptr < s.stop := by
      simp only [Scanner.isEof, Bool.or_eq_true, decide_eq_true_eq, not_or] at hend
      omega
    have hlo := h.lo
    refine ⟨rfl, rfl, ?_, ?_⟩
    · show s.begin ≤ _
      simp only []
      split <;> split <;> omega
    · show _ ≤ s.stop
      simp only []
      split <;> split <;> omega

theorem keeps_skipLine {s : Scanner} (h : InBounds s) : Keeps s s.skipLine := by
  have hlo := h.lo
  have hrun := add_run_le (fun c => c != 10) h.lo h.hi
  rw [Scanner.skipLine]
  split
  · exact ⟨rfl, rfl, h⟩
  · simp only []
    split
    · exact ⟨rfl, rfl, Nat.le_add_right _ _, le_rfl⟩
    · rename_i hne
      have hend : s.curptr + s.run s.curptr (fun c => c != 10) + 1 ≤ s.stop := by omega
      exact ⟨rfl, rfl, by show s.begin ≤ s.curptr + s.run s.curptr _ + 1; omega, hend⟩

theorem inside_peekWhile {s : Scanner} (h : InBounds s) {p : UInt8 → Bool} {str : Str} {c : UInt8}
    (hr : s.peekWhile p = some (str, c)) : Inside s str := by
  rw [Scanner.peekWhile] at hr
  split at hr
  · cases hr
  · obtain ⟨rfl, -⟩ := Prod.mk.inj (Option.some.inj hr)
    exact ⟨h.lo, add_run_le p h.lo h.hi⟩

theorem inside_peekN {word : Nat} {s : Scanner} (h : InBounds s) {n : Nat} (hn : s.curptr + n < word) {str : Str}
    {c : UInt8} (hr : s.peekN word n = some (str, c)) : Inside s str := by
  rw [Scanner.peekN, Nat.mod_eq_of_lt hn] at hr
  split at hr
  · cases hr
  · rename_i hend
    obtain ⟨rfl, -⟩ := Prod.mk.inj (Option.some.inj hr)
    exact ⟨h.lo, Nat.not_lt.mp hend⟩

/-- The cursor and every saved cursor are in the buffer, and so is the string that was returned. -/
structure Safe (x : Session) : Prop where
  bounds : InBounds x.scanner
  out : ∀ str, x.out = some str → Inside x.scanner str
  saved : ∀ st ∈ x.saved, x.scanner.begin ≤ st.curptr ∧ st.curptr ≤ x.scanner.stop

/-- What a step has to avoid: a `%` as the last byte that `pj_scan_get_unescape` comes to, and a count that
takes the cursor around the end of the address space. -/
def careful (word : Nat) (x : Session) : Op → Bool
  | .getUnescape spec => !trailingPercent spec x.scanner.rest
  | .peekN len => x.scanner.curptr + len < word
  | .getN n => x.scanner.curptr + n < word
  | .advanceN n _ => x.scanner.curptr + n < word
  | _ => true

def Careful (word : Nat) (x : Session) (op : Op) : Prop := careful word x op = true

instance (word : Nat) (x : Session) (op : Op) : Decidable (Careful word x op) :=
  inferInstanceAs (Decidable (careful word x op = true))

section Step

variable {x : Session}

theorem safe_moved (h : Safe x) {r : Option Scanner} (hr : ∀ s, r = some s → Keeps x.scanner s) :
    Safe (x.moved r) := by
  cases r with
  | none => exact ⟨h.bounds, fun _ hout => (nomatch hout), h.saved⟩
  | some s =>
    have hkeeps := hr s rfl
    refine ⟨hkeeps.bounds, fun _ hout => (nomatch hout), fun st hst => ?_⟩
    show s.begin ≤ st.curptr ∧ st.curptr ≤ s.stop
    rw [hkeeps.begin, hkeeps.stop]
    exact h.saved st hst

theorem safe_got (h : Safe x) {r : Option (Str × Scanner)} (hr : Returns x.scanner r) : Safe (x.got r) := by
  rcases r with _ | ⟨str, s⟩
  · exact ⟨h.bounds, fun _ hout => (nomatch hout), h.saved⟩
  · obtain ⟨hinside, hkeeps⟩ := hr str s rfl
    refine ⟨hkeeps.bounds, fun str' hout => ?_, fun st hst => ?_⟩
    · exact Option.some.inj hout ▸ hkeeps.inside hinside
    · show s.begin ≤ st.curptr ∧ st.curptr ≤ s.stop
      rw [hkeeps.begin, hkeeps.stop]
      exact h.saved st hst

theorem safe_peeked (h : Safe x) {r : Option (Str × UInt8)}
    (hr : ∀ str c, r = some (str, c) → Inside x.scanner str) : Safe (x.peeked r) := by
  refine ⟨h.bounds, fun str hout => ?_, h.saved⟩
  obtain ⟨⟨str', c⟩, hsome, rfl⟩ := Option.map_eq_some_iff.mp hout
  exact hr _ _ hsome

theorem safe_step {word : Nat} {y : Session} {op : Op} (h : Safe x) (hcare : Careful word x op)
    (hstep : step word x op = some y) : Safe y := by
  have hsilent : Safe { x with out := none } :=
    ⟨h.bounds, fun _ hout => (nomatch hout), h.saved⟩
  cases op with
  | skipWhitespace =>
    obtain rfl := Option.some.inj hstep
    exact safe_moved h fun s hs => Option.some.inj hs ▸ keeps_skipWhitespace h.bounds
  | skipLine =>
    obtain rfl := Option.some.inj hstep
    exact safe_moved h fun s hs => Option.some.inj hs ▸ keeps_skipLine h.bounds
  | peek spec =>
    obtain rfl := Option.some.inj hstep
    exact safe_peeked h fun _ _ => inside_peekWhile h.bounds
  | peekN len =>
    obtain rfl := Option.some.inj hstep
    exact safe_peeked h fun _ _ => inside_peekN h.bounds (of_decide_eq_true hcare)
  | peekUntil spec =>
    obtain rfl := Option.some.inj hstep
    exact safe_peeked h fun _ _ => inside_peekWhile h.bounds
  | get spec =>
    simp only [step] at hstep
    split at hstep
    · cases hstep
    · obtain rfl := Option.some.inj hstep
      exact safe_got h (returns_get h.bounds spec)
  | getUnescape spec =>
    simp only [step] at hstep
    split at hstep
    · cases hstep
    · obtain rfl := Option.some.inj hstep
      exact safe_got h (returns_getUnescape h.bounds (Bool.not_eq_true' _ ▸ hcare))
  | getQuote beginQuote endQuote =>
    obtain rfl := Option.some.inj hstep
    exact safe_got h (returns_getQuotes h.bounds _)
  | getQuotes quotes =>
    simp only [step] at hstep
    split at hstep
    · cases hstep
    · obtain rfl := Option.some.inj hstep
      exact safe_got h (returns_getQuotes h.bounds quotes)
  | getN n =>
    obtain rfl := Option.some.inj hstep
    exact safe_got h (returns_getN h.bounds (of_decide_eq_true hcare))
  | getChar =>
    obtain rfl := Option.some.inj hstep
    apply safe_moved h
    intro s hs
    obtain ⟨⟨c, s'⟩, hsome, rfl⟩ := Option.map_eq_some_iff.mp hs
    exact keeps_getChar h.bounds hsome
  | getNewline =>
    obtain rfl := Option.some.inj hstep
    exact safe_moved h fun s hs => keeps_getNewline h.bounds hs
  | getUntil spec =>
    obtain rfl := Option.some.inj hstep
    exact safe_got h (returns_getUntilP h.bounds _)
  | getUntilCh untilChar =>
    obtain rfl := Option.some.inj hstep
    exact safe_got h (returns_getUntilP h.bounds _)
  | getUntilChr untilSpec =>
    obtain rfl := Option.some.inj hstep
    exact safe_got h (returns_getUntilP h.bounds _)
  | advanceN n skip =>
    obtain rfl := Option.some.inj hstep
    exact safe_moved h fun s hs => keeps_advanceN h.bounds (of_decide_eq_true hcare) hs
  | strcmp str len =>
    obtain rfl := Option.some.inj hstep
    exact hsilent
  | stricmp str len =>
    obtain rfl := Option.some.inj hstep
    exact hsilent
  | stricmpAlnum str len =>
    obtain rfl := Option.some.inj hstep
    exact hsilent
  | saveState =>
    obtain rfl := Option.some.inj hstep
    refine ⟨h.bounds, fun _ hout => (nomatch hout), fun st hst => ?_⟩
    rcases List.mem_append.mp hst with hold | hnew
    · exact h.saved st hold
    · obtain rfl := List.mem_singleton.mp hnew
      exact ⟨h.bounds.lo, h.bounds.hi⟩
  | restoreState n =>
    obtain ⟨st, hst, rfl⟩ := Option.map_eq_some_iff.mp hstep
    obtain ⟨hlo, hhi⟩ := h.saved st (List.mem_of_getElem? hst)
    exact ⟨⟨hlo, hhi⟩, fun _ hout => (nomatch hout), h.saved⟩

end Step

theorem safe_start (buf : List UInt8) (bufstart options : Nat) : Safe (start buf bufstart options) :=
  ⟨keeps_init buf bufstart options, fun _ hout => (nomatch hout), nofun⟩

/-- After every sequence of operations that are all careful, the cursor is in the buffer and so is every
string returned. -/
theorem scanner_safe (word : Nat) (buf : List UInt8) (bufstart options : Nat) (ops : List Op) (x : Session)
    (hcare : Meets (step word) (Careful word) (start buf bufstart options) ops)
    (hrun : exec (step word) (start buf bufstart options) ops = some x) :
    InBounds x.scanner ∧ ∀ str, x.out = some str → Inside x.scanner str := by
  have hsafe : Safe x :=
    exec_invariant_of_meets (fun _ _ _ => safe_step) (safe_start buf bufstart options) hcare hrun
  exact ⟨hsafe.bounds, hsafe.out⟩

def isLetter (c : UInt8) : Bool := 97 ≤ c && c ≤ 122

/-- `ab%20c` is taken apart in place, and then two more characters. -/
theorem scanner_safe_escape :
    exec (step 0x100000000) (start (ascii "ab%20c; d") 4096 autoskipWs)
        [.getUnescape isLetter, .getChar, .getN 1] =
      some ⟨⟨ascii "ab c0c; d", 4096, 4105, 1, 4096, autoskipWs⟩, [], some ⟨4104, 1⟩⟩ ∧
    InBounds ⟨ascii "ab c0c; d", 4096, 4105, 1, 4096, autoskipWs⟩ := by
  have hrun : exec (step 0x100000000) (start (ascii "ab%20c; d") 4096 autoskipWs)
        [.getUnescape isLetter, .getChar, .getN 1] =
      some ⟨⟨ascii "ab c0c; d", 4096, 4105, 1, 4096, autoskipWs⟩, [], some ⟨4104, 1⟩⟩ := by
    decide +kernel
  exact ⟨hrun, (scanner_safe 0x100000000 (ascii "ab%20c; d") 4096 autoskipWs _ _ (by decide +kernel) hrun).1⟩

/-- `ab%`: the zero behind the `%` is taken for its second character, and the cursor ends behind `end`. -/
theorem scanner_overrun :
    exec (step 0x100000000) (start (ascii "ab%") 4096 autoskipWs) [.getUnescape isLetter] =
      some ⟨⟨ascii "ab%", 4096, 4100, 1, 4096, autoskipWs⟩, [], some ⟨4096, 4⟩⟩ ∧
    ¬ InBounds ⟨ascii "ab%", 4096, 4100, 1, 4096, autoskipWs⟩ ∧
    ¬ Inside ⟨ascii "ab%", 4096, 4100, 1, 4096, autoskipWs⟩ ⟨4096, 4⟩ :=
  ⟨by decide, fun h => absurd h.hi (by decide), fun h => absurd h.hi (by decide)⟩

end PjProject.Scan
