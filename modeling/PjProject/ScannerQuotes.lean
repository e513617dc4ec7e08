import PjProject.ScannerSafety

/-! `pj_scan_get_quotes` with its loops: the search for the next newline or end quote, the count of the
backslashes before it, back to the opening quote, and the loop around them. -/

namespace PjProject.Scan

namespace Scanner

/-- `while (s != end && *s != '\n' && *s != end_quote) ++s`, from `pos` on. -/
def skipToQuote (s : Scanner) (endQuote : UInt8) : Nat → Nat → Option Nat
  | 0, _ => none
  | fuel + 1, pos =>
    if pos ≠ s.stop ∧ s.byte pos ≠ 10 ∧ s.byte pos ≠ endQuote then s.skipToQuote endQuote fuel (pos + 1)
    else some pos

/-- `for (r = s; r > low && *(r-1) == '\\'; --r) ++nbackslash`. -/
def backslashes (s : Scanner) (low : Nat) : Nat → Nat
  | 0 => 0
  | r + 1 => if low < r + 1 ∧ s.byte r = 92 then s.backslashes low r + 1 else 0

def quoteLoop (s : Scanner) (endQuote : UInt8) (size : Nat) : Nat → Nat → Option Nat
  | 0, _ => none
  | fuel + 1, pos =>
    match s.skipToQuote endQuote size pos with
    | none => none
    | some pos =>
      if pos = s.stop ∨ s.byte pos ≠ endQuote then some pos
      else if s.backslashes (s.curptr + 1) pos &&& 1 = 0 then some pos
      else s.quoteLoop endQuote size fuel (pos + 1)

/-- `pj_scan_get_quotes`; the outer `none` where the fuel does not last. -/
def quotesLoop (s : Scanner) (quotes : List (UInt8 × UInt8)) (fuel : Nat) : Option (Option (Str × Scanner)) :=
  if s.isEof then some none
  else
    match quotes.find? fun q => q.1 == s.byte s.curptr with
    | none => some none
    | some (_, endQuote) =>
      (s.quoteLoop endQuote fuel fuel (s.curptr + 1)).map fun pos =>
        if pos = s.stop ∨ s.byte pos ≠ endQuote then none else some (s.token (pos + 1 - s.curptr))

end Scanner

/-- The byte at `n` closes what was opened before the text `front ++ l`, of which `front` is behind the
search: it is the end quote, an even number of backslashes is before it, and no newline but one that is
itself the end quote. -/
structure Closes (endQuote : UInt8) (front l : List UInt8) (n : Nat) : Prop where
  quote : l[n]? = some endQuote
  line : 10 ∈ l.take n → endQuote = 10
  even : trailing (front ++ l.take n) % 2 = 0

section Search

variable {endQuote c : UInt8} {front l : List UInt8}

theorem closes_zero : Closes endQuote front (c :: l) 0 ↔ c = endQuote ∧ trailing front % 2 = 0 := by
  constructor
  · intro h
    have heven := h.even
    rw [List.take_zero, List.append_nil] at heven
    exact ⟨Option.some.inj h.quote, heven⟩
  · rintro ⟨hc, heven⟩
    refine ⟨congrArg some hc, nofun, ?_⟩
    rw [List.take_zero, List.append_nil]
    exact heven

theorem closes_succ {n : Nat} :
    Closes endQuote front (c :: l) (n + 1) ↔ (c = 10 → endQuote = 10) ∧ Closes endQuote (front ++ [c]) l n := by
  have hsplit : front ++ c :: l.take n = front ++ [c] ++ l.take n := by simp
  constructor
  · intro h
    have hquote := h.quote
    have hline := h.line
    have heven := h.even
    rw [List.getElem?_cons_succ] at hquote
    rw [List.take_succ_cons] at hline heven
    rw [hsplit] at heven
    exact ⟨fun hc => hline (hc ▸ List.mem_cons_self), hquote, fun h => hline (List.mem_cons_of_mem c h), heven⟩
  · rintro ⟨hc, hquote, hline, heven⟩
    refine ⟨by rwa [List.getElem?_cons_succ], ?_, by rwa [List.take_succ_cons, hsplit]⟩
    rw [List.take_succ_cons, List.mem_cons]
    rintro (h | h)
    · exact hc h.symm
    · exact hline h

/-- The search finds the first byte that closes. -/
theorem closeQuote_some {k : Nat} (h : Scanner.closeQuote endQuote front l = some k) :
    ∃ n, k = front.length + n ∧ Closes endQuote front l n ∧ ∀ m < n, ¬ Closes endQuote front l m := by
  induction l generalizing front with
  | nil => cases h
  | cons d l ih =>
    have hstep (h : Scanner.closeQuote endQuote (front ++ [d]) l = some k) (hd : d = 10 → endQuote = 10)
        (hzero : ¬ Closes endQuote front (d :: l) 0) :
        ∃ n, k = front.length + n ∧ Closes endQuote front (d :: l) n ∧
          ∀ m < n, ¬ Closes endQuote front (d :: l) m := by
      obtain ⟨n, hk, hclose, hfirst⟩ := ih h
      rw [List.length_append, List.length_singleton] at hk
      refine ⟨n + 1, by omega, closes_succ.mpr ⟨hd, hclose⟩, ?_⟩
      intro m hm hcloses
      cases m with
      | zero => exact hzero hcloses
      | succ m => exact hfirst m (by omega) (closes_succ.mp hcloses).2
    rw [Scanner.closeQuote] at h
    split_ifs at h with hquote heven hnewline
    · exact ⟨0, (Option.some.inj h).symm, closes_zero.mpr ⟨hquote, heven⟩, fun m hm => absurd hm m.not_lt_zero⟩
    · exact hstep h (fun hd => hquote ▸ hd) fun hcloses => heven (closes_zero.mp hcloses).2
    · exact hstep h (fun hd => absurd hd hnewline) fun hcloses => hquote (closes_zero.mp hcloses).1

theorem closeQuote_none (h : Scanner.closeQuote endQuote front l = none) (n : Nat) : ¬ Closes endQuote front l n := by
  induction l generalizing front n with
  | nil => exact fun hcloses => nomatch hcloses.quote
  | cons d l ih =>
    intro hcloses
    rw [Scanner.closeQuote] at h
    split_ifs at h with hquote heven hnewline
    · cases n with
      | zero => exact heven (closes_zero.mp hcloses).2
      | succ n => exact ih h n (closes_succ.mp hcloses).2
    · cases n with
      | zero => exact hquote (closes_zero.mp hcloses).1
      | succ n => exact hquote (hnewline.trans ((closes_succ.mp hcloses).1 hnewline).symm)
    · cases n with
      | zero => exact hquote (closes_zero.mp hcloses).1
      | succ n => exact ih h n (closes_succ.mp hcloses).2

theorem closeQuote_skip {w more : List UInt8} (hw : ∀ d ∈ w, d ≠ 10 ∧ d ≠ endQuote) :
    Scanner.closeQuote endQuote front (w ++ more) = Scanner.closeQuote endQuote (front ++ w) more := by
  induction w generalizing front with
  | nil => rw [List.nil_append, List.append_nil]
  | cons d w ih =>
    obtain ⟨hnewline, hquote⟩ := hw d List.mem_cons_self
    rw [List.cons_append, Scanner.closeQuote, if_neg hquote, if_neg hnewline,
      ih fun e he => hw e (List.mem_cons_of_mem d he), List.append_assoc, List.singleton_append]

end Search

/-! The loops over the buffer are the search over the text behind the opening quote. -/

section Loops

variable {s : Scanner} {endQuote : UInt8} {front l : List UInt8} {low : Nat}

/-- From `low` on the buffer holds `front` and then `l`. -/
structure Behind (s : Scanner) (low : Nat) (front l : List UInt8) : Prop where
  lo : s.begin ≤ low
  bytes : s.buf.drop (low - s.begin) = front ++ l
  hi : low + front.length + l.length = s.stop

theorem Behind.byte {c : UInt8} (h : Behind s low front (c :: l)) : s.byte (low + front.length) = c := by
  have hlo := h.lo
  have hget : (s.buf.drop (low - s.begin))[front.length]? = some c := by
    rw [h.bytes, List.getElem?_append_right le_rfl, Nat.sub_self]
    rfl
  rw [List.getElem?_drop] at hget
  have hpos : low - s.begin + front.length = low + front.length - s.begin := by omega
  rw [Scanner.byte, byteAt, List.getD_eq_getElem?_getD, ← hpos, hget]
  rfl

theorem Behind.next {w : List UInt8} (h : Behind s low front (w ++ l)) : Behind s low (front ++ w) l := by
  refine ⟨h.lo, by rw [h.bytes, List.append_assoc], ?_⟩
  have hhi := h.hi
  rw [List.length_append] at hhi ⊢
  omega

theorem backslashes_eq (h : Behind s low front l) :
    s.backslashes low (low + front.length) = trailing front := by
  induction front using List.reverseRecOn generalizing l with
  | nil =>
    rw [List.length_nil, Nat.add_zero]
    cases low with
    | zero => rfl
    | succ low => rw [Scanner.backslashes, if_neg fun hlt => Nat.lt_irrefl _ hlt.1]; rfl
  | append_singleton front c ih =>
    have hback : Behind s low front (c :: l) := by
      refine ⟨h.lo, by rw [h.bytes, List.append_assoc, List.singleton_append], ?_⟩
      have hhi := h.hi
      rw [List.length_append, List.length_singleton] at hhi
      rw [List.length_cons]
      omega
    rw [List.length_append, List.length_singleton, ← Nat.add_assoc, Scanner.backslashes, hback.byte,
      trailing_concat, ih hback]
    by_cases hc : c = 92
    · rw [if_pos ⟨by omega, hc⟩, if_pos hc]
    · rw [if_neg fun hboth => hc hboth.2, if_neg hc]

theorem skipToQuote_eq (endQuote : UInt8) (h : Behind s low front l) {fuel : Nat} (hfuel : l.length < fuel) :
    ∃ w more, l = w ++ more ∧ s.skipToQuote endQuote fuel (low + front.length) = some (low + (front ++ w).length) ∧
      (∀ d ∈ w, d ≠ 10 ∧ d ≠ endQuote) ∧ ∀ d ∈ more.head?, d = 10 ∨ d = endQuote := by
  induction l generalizing front fuel with
  | nil =>
    obtain ⟨fuel, rfl⟩ := Nat.exists_eq_succ_of_ne_zero (Nat.ne_of_gt hfuel)
    have hhi := h.hi
    rw [List.length_nil, Nat.add_zero] at hhi
    refine ⟨[], [], rfl, ?_, nofun, fun d hd => nomatch hd⟩
    rw [Scanner.skipToQuote, if_neg fun hskip => hskip.1 hhi, List.append_nil]
  | cons c l ih =>
    obtain ⟨fuel, rfl⟩ := Nat.exists_eq_succ_of_ne_zero (Nat.ne_of_gt (Nat.zero_lt_of_lt hfuel))
    have hne : low + front.length ≠ s.stop := by
      have hhi := h.hi
      rw [List.length_cons] at hhi
      omega
    rw [Scanner.skipToQuote, h.byte]
    by_cases hc : c ≠ 10 ∧ c ≠ endQuote
    · have hnext : Behind s low (front ++ [c]) l := Behind.next h
      have hshort : l.length < fuel := by
        rw [List.length_cons] at hfuel
        omega
      obtain ⟨w, more, hl, hskip, hw, hmore⟩ := ih hnext hshort
      refine ⟨c :: w, more, congrArg (c :: ·) hl, ?_, ?_, hmore⟩
      · rw [if_pos ⟨hne, hc⟩]
        rw [List.length_append, List.length_singleton, List.append_assoc, List.singleton_append] at hskip
        exact hskip
      · intro d hd
        rcases List.mem_cons.mp hd with rfl | hd
        · exact hc
        · exact hw d hd
    · refine ⟨[], c :: l, rfl, ?_, nofun, ?_⟩
      · rw [if_neg fun hskip => hc hskip.2, List.append_nil]
      · intro d hd
        rw [← Option.some.inj hd]
        by_cases hnewline : c = 10
        · exact Or.inl hnewline
        · exact Or.inr (not_not.mp fun hquote => hc ⟨hnewline, hquote⟩)

/-- The outer loop ends, at the end quote if the search finds one and else where there is none. -/
theorem quoteLoop_eq (endQuote : UInt8) (hlow : low = s.curptr + 1) {size fuel : Nat} (hsize : l.length < size)
    (h : Behind s low front l) (hfuel : l.length < fuel) :
    ∃ pos, s.quoteLoop endQuote size fuel (low + front.length) = some pos ∧
      (Scanner.closeQuote endQuote front l = none ∧ (pos = s.stop ∨ s.byte pos ≠ endQuote) ∨
        ∃ n, Scanner.closeQuote endQuote front l = some n ∧ pos = low + n ∧ pos ≠ s.stop ∧ s.byte pos = endQuote) := by
  induction fuel generalizing front l with
  | zero => cases hfuel
  | succ fuel ih =>
    obtain ⟨w, more, rfl, hskip, hw, hmore⟩ := skipToQuote_eq endQuote h hsize
    have hnext := Behind.next h
    have hhi := hnext.hi
    rw [closeQuote_skip hw]
    dsimp only [Scanner.quoteLoop]
    rw [hskip]
    dsimp only
    cases more with
    | nil =>
      rw [List.length_nil, Nat.add_zero] at hhi
      exact ⟨_, if_pos (Or.inl hhi), Or.inl ⟨rfl, Or.inl hhi⟩⟩
    | cons c more =>
      have hbyte := hnext.byte
      rw [List.length_cons] at hhi
      have hne : low + (front ++ w).length ≠ s.stop := by omega
      rw [Scanner.closeQuote]
      by_cases hquote : c = endQuote
      · rw [if_neg (not_or.mpr ⟨hne, not_not.mpr (hbyte.trans hquote)⟩), if_pos hquote, ← hlow, backslashes_eq hnext,
          Nat.and_one_is_mod, ← trailing]
        by_cases heven : trailing (front ++ w) % 2 = 0
        · rw [if_pos heven, if_pos heven]
          exact ⟨_, rfl, Or.inr ⟨_, rfl, rfl, hne, hbyte.trans hquote⟩⟩
        · rw [if_neg heven, if_neg heven]
          have hlength : (front ++ w ++ [c]).length = (front ++ w).length + 1 := by
            rw [List.length_append, List.length_singleton]
          rw [List.length_append, List.length_cons] at hfuel hsize
          have hrec := ih (by omega) (Behind.next hnext : Behind s low (front ++ w ++ [c]) more) (by omega)
          rwa [hlength] at hrec
      · have hnewline : c = 10 := (hmore c rfl).resolve_right hquote
        have hstop : s.byte (low + (front ++ w).length) ≠ endQuote := fun heq => hquote (hbyte.symm.trans heq)
        rw [if_pos (Or.inr hstop), if_neg hquote, if_pos hnewline]
        exact ⟨_, rfl, Or.inl ⟨rfl, Or.inr hstop⟩⟩

end Loops

/-- The loops end, with the result of the search. -/
theorem quotesLoop_eq {s : Scanner} (h : InBounds s) (quotes : List (UInt8 × UInt8)) {fuel : Nat}
    (hfuel : s.buf.length < fuel) : s.quotesLoop quotes fuel = some (s.getQuotes quotes) := by
  rw [Scanner.quotesLoop, Scanner.getQuotes]
  by_cases hend : s.isEof = true
  · rw [if_pos hend, if_pos hend]
  · rw [if_neg hend, if_neg hend]
    cases hpair : quotes.find? fun q => q.1 == s.byte s.curptr with
    | none => rfl
    | some pair =>
      obtain ⟨beginQuote, endQuote⟩ := pair
      have hlo := h.lo
      have hlen := length_rest h
      have hlt : s.curptr < s.stop := by
        rw [Scanner.isEof, decide_eq_true_eq] at hend
        omega
      have htail : (s.rest.tail).length + 1 = s.rest.length := by
        rw [List.length_tail]
        omega
      have hbehind : Behind s (s.curptr + 1) [] s.rest.tail := by
        refine ⟨by omega, ?_, by rw [List.length_nil]; omega⟩
        rw [Scanner.rest, List.tail_drop, List.nil_append]
        congr 1
        omega
      have hshort : s.rest.tail.length < fuel := by
        have : s.rest.length ≤ s.buf.length := by
          rw [Scanner.rest, List.length_drop]
          omega
        omega
      obtain ⟨pos, hloop, hresult⟩ := quoteLoop_eq endQuote rfl hshort hbehind hshort
      rw [List.length_nil, Nat.add_zero] at hloop
      dsimp only
      rw [hloop, Option.map_some]
      rcases hresult with ⟨hnone, hstop⟩ | ⟨n, hsome, rfl, hne, hbyte⟩
      · rw [hnone, if_pos hstop]
      · rw [hsome, if_neg (not_or.mpr ⟨hne, not_not.mpr hbyte⟩)]
        congr 3
        omega

/-- What `pj_scan_get_quotes` returns, for a scanner whose cursor is in its buffer. -/
structure GetsQuotes (s : Scanner) (quotes : List (UInt8 × UInt8)) (result : Option (Str × Scanner)) : Prop where
  closed : ∀ q n, s.curptr < s.stop → quotes.find? (fun q => q.1 == s.byte s.curptr) = some q →
    Closes q.2 [] s.rest.tail n → (∀ m < n, ¬ Closes q.2 [] s.rest.tail m) → result = some (s.token (n + 2))
  error : (∀ q, s.curptr < s.stop → quotes.find? (fun q => q.1 == s.byte s.curptr) = some q →
    ∀ n, ¬ Closes q.2 [] s.rest.tail n) → result = none

theorem scanner_quotes (s : Scanner) (h : InBounds s) (quotes : List (UInt8 × UInt8)) (fuel : Nat)
    (hfuel : s.buf.length < fuel) : ∃ result, s.quotesLoop quotes fuel = some result ∧ GetsQuotes s quotes result := by
  refine ⟨_, quotesLoop_eq h quotes hfuel, ?_, ?_⟩
  · intro q n hlt hpair hcloses hfirst
    have hend : ¬ s.isEof = true := by
      rw [Scanner.isEof, decide_eq_true_eq]
      omega
    rw [Scanner.getQuotes, if_neg hend, hpair]
    dsimp only
    cases hsearch : Scanner.closeQuote q.2 [] s.rest.tail with
    | none => exact absurd hcloses (closeQuote_none hsearch n)
    | some k =>
      obtain ⟨n', rfl, hcloses', hfirst'⟩ := closeQuote_some hsearch
      rw [List.length_nil, Nat.zero_add]
      have heq : n' = n := by
        rcases Nat.lt_trichotomy n' n with hlt | heq | hlt
        · exact absurd hcloses' (hfirst n' hlt)
        · exact heq
        · exact absurd hcloses (hfirst' n hlt)
      rw [heq]
  · intro hnone
    rw [Scanner.getQuotes]
    by_cases hend : s.isEof = true
    · rw [if_pos hend]
    · rw [if_neg hend]
      rw [Scanner.isEof, decide_eq_true_eq, Nat.not_le] at hend
      cases hpair : quotes.find? fun q => q.1 == s.byte s.curptr with
      | none => rfl
      | some q =>
        dsimp only
        cases hsearch : Scanner.closeQuote q.2 [] s.rest.tail with
        | none => rfl
        | some k =>
          obtain ⟨n, -, hcloses, -⟩ := closeQuote_some hsearch
          exact absurd hcloses (hnone q hend hpair n)

/-- `"a\"b"` up to its last quote. -/
def quotedText : Scanner := ⟨[34, 97, 92, 34, 98, 34, 44], 0, 0, 1, 0, 0⟩

theorem scanner_quotes_text :
    ∃ result, quotedText.quotesLoop [(34, 34)] 8 = some result ∧ GetsQuotes quotedText [(34, 34)] result :=
  scanner_quotes quotedText ⟨by decide, by decide⟩ [(34, 34)] 8 (by decide)

/-- A newline as the end quote, escaped the first time: the quote is closed by the next one, with a newline
before it. -/
theorem newline_before_close :
    let s : Scanner := ⟨[60, 92, 10, 97, 10], 0, 0, 1, 0, 0⟩
    (s.quotesLoop [(60, 10)] 6 = some (some (s.token 5))) ∧
      ∀ n, s.rest.tail[n]? = some 10 → 10 ∉ s.rest.tail.take n → trailing (s.rest.tail.take n) % 2 ≠ 0 := by
  refine ⟨by decide, ?_⟩
  intro n hquote hnewline
  match n with
  | 0 => cases hquote
  | 1 => decide
  | n + 2 => exact absurd (List.mem_cons_of_mem _ List.mem_cons_self) hnewline

end PjProject.Scan
