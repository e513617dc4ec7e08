import PjProject.Json

/-! What the JSON writer writes is parsed back. The writer escapes names and strings, but the parser only
takes the escapes out of strings that have a name; so names and strings without a name come back when they
need no escape and do not begin with a space, which the scanner skips. -/

namespace PjProject.Json

open Scan (isxdigit hexDigitToVal isSpace isNewline trailing trailing_concat)
open Scan.Input

/-! Strings: the escape of one byte, and of all of them. -/

theorem hexDigits_value (c : UInt8) :
    hexDigitToVal (hexDigit (c >>> 4)) * 16 + hexDigitToVal (hexDigit (c &&& 0x0F)) = c :=
  forall_uint8 (p := fun c => hexDigitToVal (hexDigit (c >>> 4)) * 16 + hexDigitToVal (hexDigit (c &&& 0x0F)) = c)
    (by decide +kernel) c

theorem hexDigit_mem (v : UInt8) : hexDigit v ∈ (0 : UInt8) :: ascii "0123456789abcdef" := by
  rw [hexDigit, byteAt, List.getD_eq_getElem?_getD]
  cases h : (ascii "0123456789abcdef")[v.toNat]? with
  | none => exact List.mem_cons_self
  | some c => exact List.mem_cons_of_mem _ (List.mem_of_getElem? h)

inductive Escaped : UInt8 → List UInt8 → Prop
  | quote : Escaped 34 [92, 34]
  | backslash : Escaped 92 [92, 92]
  | letter {c e : UInt8} (h : (c, e) ∈ [((47 : UInt8), (47 : UInt8)), (8, 98), (12, 102), (10, 110), (13, 114), (9, 116)]) :
      Escaped c [92, e]
  | plain {c : UInt8} (hquote : c ≠ 34) (hslash : c ≠ 92) (hlow : 32 ≤ c) : Escaped c [c]
  | hex (c : UInt8) : Escaped c [92, 117, 48, 48, hexDigit (c >>> 4), hexDigit (c &&& 0x0F)]

theorem escaped_escapeByte (c : UInt8) : Escaped c (escapeByte c) := by
  rw [escapeByte]
  by_cases h34 : c = 34
  · rw [if_pos h34, h34]
    exact .quote
  rw [if_neg h34]
  by_cases h92 : c = 92
  · rw [if_pos h92, h92]
    exact .backslash
  rw [if_neg h92]
  split_ifs with h47 h8 h12 h10 h13 h9 hplain
  · exact .letter (by simp [h47])
  · exact .letter (by simp [h8])
  · exact .letter (by simp [h12])
  · exact .letter (by simp [h10])
  · exact .letter (by simp [h13])
  · exact .letter (by simp [h9])
  · exact .plain h34 h92 hplain.1
  · exact .hex c

theorem Escaped.unescape {c : UInt8} {e : List UInt8} (h : Escaped c e) (more : List UInt8) :
    Json.unescape (e ++ more) = (Json.unescape more).map (c :: ·) := by
  cases h with
  | quote => simp [Json.unescape]
  | backslash => simp [Json.unescape]
  | letter h =>
    simp only [List.mem_cons, Prod.mk.injEq, List.not_mem_nil, or_false] at h
    rcases h with ⟨rfl, rfl⟩ | ⟨rfl, rfl⟩ | ⟨rfl, rfl⟩ | ⟨rfl, rfl⟩ | ⟨rfl, rfl⟩ | ⟨rfl, rfl⟩ <;>
      simp [Json.unescape]
  | plain hquote hslash hlow => simp [Json.unescape, hslash]
  | hex =>
    simp only [List.cons_append, List.nil_append, Json.unescape]
    rw [hexDigits_value]

theorem unescape_escape (s : List UInt8) : unescape (escape s) = some s := by
  induction s with
  | nil => rfl
  | cons c more ih =>
    have hcons : escape (c :: more) = escapeByte c ++ escape more := rfl
    rw [hcons, (escaped_escapeByte c).unescape, ih]
    rfl

theorem unescape_of_notMem {s : List UInt8} (h : 92 ∉ s) : unescape s = some s := by
  induction s with
  | nil => rfl
  | cons c more ih =>
    have hc : c ≠ 92 := fun heq => h (heq ▸ List.mem_cons_self)
    rw [unescape, ih fun hmem => h (List.mem_cons_of_mem c hmem)]
    · rfl
    all_goals simp [hc]

/-- The search for the end quote passes over an escaped byte. -/
theorem Escaped.closeQuote {c : UInt8} {e : List UInt8} (h : Escaped c e) {front : List UInt8}
    (hfront : trailing front % 2 = 0) (more : List UInt8) :
    Scan.Scanner.closeQuote 34 front (e ++ more) = Scan.Scanner.closeQuote 34 (front ++ e) more ∧
      trailing (front ++ e) % 2 = 0 := by
  have hstart : ∀ rest, Scan.Scanner.closeQuote 34 front (92 :: rest) =
      Scan.Scanner.closeQuote 34 (front ++ [92]) rest := closeQuote_of_ne (by decide) (by decide) front
  have hodd : trailing (front ++ [92]) = trailing front + 1 := by rw [trailing_concat, if_pos rfl]
  cases h with
  | quote =>
    have hsplit : front ++ [92, 34] = front ++ [92] ++ [34] := by simp
    rw [hsplit, trailing_concat, if_neg (by decide)]
    exact ⟨(hstart _).trans (closeQuote_of_odd (by omega) more), rfl⟩
  | backslash =>
    have hsplit : front ++ [92, 92] = front ++ [92] ++ [92] := by simp
    rw [hsplit, trailing_concat, if_pos rfl, hodd]
    exact ⟨(hstart _).trans (closeQuote_of_ne (by decide) (by decide) _ _), by omega⟩
  | @letter c e hmem =>
    have he : e ≠ 34 ∧ e ≠ 10 ∧ e ≠ 92 := by
      simp only [List.mem_cons, Prod.mk.injEq, List.not_mem_nil, or_false] at hmem
      rcases hmem with ⟨-, rfl⟩ | ⟨-, rfl⟩ | ⟨-, rfl⟩ | ⟨-, rfl⟩ | ⟨-, rfl⟩ | ⟨-, rfl⟩ <;> decide
    have hsplit : front ++ [92, e] = front ++ [92] ++ [e] := by simp
    rw [hsplit, trailing_concat, if_neg he.2.2]
    exact ⟨(hstart _).trans (closeQuote_of_ne he.1 he.2.1 _ _), rfl⟩
  | plain hquote hslash hlow =>
    rw [trailing_concat, if_neg hslash]
    refine ⟨closeQuote_of_ne hquote ?_ _ _, rfl⟩
    rintro rfl
    exact absurd hlow (by decide)
  | hex =>
    have hdigit : ∀ v, hexDigit v ≠ 34 ∧ hexDigit v ≠ 10 ∧ hexDigit v ≠ 92 := by
      intro v
      have hall : ∀ d ∈ (0 : UInt8) :: ascii "0123456789abcdef", d ≠ 34 ∧ d ≠ 10 ∧ d ≠ 92 := by decide +kernel
      exact hall _ (hexDigit_mem v)
    have hsplit : front ++ [92, 117, 48, 48, hexDigit (c >>> 4), hexDigit (c &&& 0x0F)] =
        front ++ [(92 : UInt8)] ++ [(117 : UInt8)] ++ [(48 : UInt8)] ++ [(48 : UInt8)] ++ [hexDigit (c >>> 4)] ++
          [hexDigit (c &&& 0x0F)] := by simp
    rw [hsplit, trailing_concat, if_neg (hdigit _).2.2]
    refine ⟨?_, rfl⟩
    simp only [List.cons_append, List.nil_append]
    rw [hstart, closeQuote_of_ne (by decide) (by decide), closeQuote_of_ne (by decide) (by decide),
      closeQuote_of_ne (by decide) (by decide), closeQuote_of_ne (hdigit _).1 (hdigit _).2.1,
      closeQuote_of_ne (hdigit _).1 (hdigit _).2.1]

theorem closeQuote_escape (s : List UInt8) {front : List UInt8} (hfront : trailing front % 2 = 0)
    (more : List UInt8) :
    Scan.Scanner.closeQuote 34 front (escape s ++ 34 :: more) = some (front ++ escape s).length := by
  induction s generalizing front with
  | nil =>
    rw [show escape [] = [] from rfl, List.nil_append, List.append_nil]
    exact closeQuote_of_even hfront more
  | cons c rest ih =>
    have hcons : escape (c :: rest) = escapeByte c ++ escape rest := rfl
    obtain ⟨hstep, heven⟩ := (escaped_escapeByte c).closeQuote hfront (escape rest ++ 34 :: more)
    rw [hcons, List.append_assoc, hstep, ih heven, List.append_assoc]

theorem parseQuotedString_escape (s rest : List UInt8) :
    parseQuotedString (34 :: (escape s ++ 34 :: rest)) = some (s, skip rest) := by
  have hclose : Scan.Scanner.closeQuote 34 [] (escape s ++ 34 :: rest) = some (escape s).length :=
    closeQuote_escape s rfl rest
  have hquotes : getQuotes [(34, 34)] (34 :: (escape s ++ 34 :: rest)) = some (34 :: (escape s ++ [34]), skip rest) :=
    getQuotes_append rfl hclose
  have htoken : (34 :: (escape s ++ [34])).tail.dropLast = escape s := by simp
  rw [parseQuotedString, hquotes]
  show (if (34 :: (escape s ++ [34])).tail.dropLast.contains 92 then _ else _) = _
  rw [htoken]
  by_cases hmem : 92 ∈ escape s
  · rw [if_pos (by simpa using hmem), unescape_escape]
    rfl
  · rw [if_neg (by simpa using hmem)]
    have hsame : escape s = s := by
      have := (unescape_of_notMem hmem).symm.trans (unescape_escape s)
      exact Option.some.inj this
    rw [hsame]

/-! Names and strings that need no escape. -/

def plainByte (c : UInt8) : Bool := 32 ≤ c && c < 127 && c != 34 && c != 92 && c != 47

/-- Nothing to escape, and no space in front. -/
def plain (s : List UInt8) : Bool := s.all plainByte && s.head? != some 32

theorem plainByte_spec {c : UInt8} (h : plainByte c = true) : 32 ≤ c ∧ c < 127 ∧ c ≠ 34 ∧ c ≠ 92 ∧ c ≠ 47 := by
  simpa [plainByte, and_assoc] using h

theorem escapeByte_of_plain {c : UInt8} (h : plainByte c = true) : escapeByte c = [c] := by
  obtain ⟨hlow, hhigh, h34, h92, h47⟩ := plainByte_spec h
  have hne : ∀ d : UInt8, d < 32 → c ≠ d := by
    rintro d hd rfl
    exact absurd hlow (UInt8.not_le.mpr hd)
  rw [escapeByte, if_neg h34, if_neg h92, if_neg h47, if_neg (hne 8 (by decide)), if_neg (hne 12 (by decide)),
    if_neg (hne 10 (by decide)), if_neg (hne 13 (by decide)), if_neg (hne 9 (by decide)), if_pos ⟨hlow, hhigh⟩]

theorem escape_of_plain {s : List UInt8} (h : s.all plainByte = true) : escape s = s := by
  induction s with
  | nil => rfl
  | cons c more ih =>
    rw [List.all_cons, Bool.and_eq_true] at h
    have hcons : escape (c :: more) = escapeByte c ++ escape more := rfl
    rw [hcons, escapeByte_of_plain h.1, ih h.2]
    rfl

theorem skip_of_plain {s : List UInt8} (h : plain s = true) (hne : s ≠ []) (rest : List UInt8) :
    skip (s ++ rest) = s ++ rest := by
  cases s with
  | nil => exact absurd rfl hne
  | cons c more =>
    rw [plain, Bool.and_eq_true, List.all_cons, Bool.and_eq_true] at h
    obtain ⟨hlow, -, -, -, -⟩ := plainByte_spec h.1.1
    apply skip_cons_of_not_blank
    rw [Bool.eq_false_iff]
    intro hblank
    rcases isBlank_iff.mp hblank with (rfl | rfl) | rfl | rfl
    · simp at h
    · exact absurd hlow (by decide)
    · exact absurd hlow (by decide)
    · exact absurd hlow (by decide)

theorem notMem_of_plain {s : List UInt8} (h : plain s = true) : (34 : UInt8) ∉ s := by
  rw [plain, Bool.and_eq_true, List.all_eq_true] at h
  intro hmem
  exact (plainByte_spec (h.1 34 hmem)).2.2.1 rfl

theorem parseName_named {name : List UInt8} (h : plain name = true) (hne : name ≠ []) (rest : List UInt8) :
    parseName (34 :: (name ++ 34 :: 58 :: rest)) = some (name, [], skip rest) := by
  have hcolon : skip ((58 : UInt8) :: rest) = 58 :: rest := skip_cons_of_not_blank (by decide) rest
  rw [parseName, if_pos (show peek (34 :: _) = 34 from rfl), getChar_cons (by decide), skip_of_plain h hne]
  simp only [Option.bind_eq_bind, Option.bind_some]
  rw [getUntilCh_append (notMem_of_plain h) (by decide)]
  simp only [Option.bind_some]
  rw [getChar_cons (by decide), hcolon]
  simp only [Option.bind_some]
  rw [if_pos (show peek (58 :: _) = 58 from rfl), getChar_cons (by decide)]
  rfl

/-- A quoted text before anything else is a string without a name. -/
theorem parseName_unnamed {str rest : List UInt8} (h : plain str = true) (hne : str ≠ [])
    (hcolon : peek (skip rest) ≠ 58) : parseName (34 :: (str ++ 34 :: rest)) = some ([], str, skip rest) := by
  rw [parseName, if_pos (show peek (34 :: _) = 34 from rfl), getChar_cons (by decide), skip_of_plain h hne]
  simp only [Option.bind_eq_bind, Option.bind_some]
  rw [getUntilCh_append (notMem_of_plain h) (by decide)]
  simp only [Option.bind_some]
  rw [getChar_cons (by decide)]
  simp only [Option.bind_some]
  rw [if_neg hcolon]

/-! The words. -/

theorem parseWord_false {F : Type} (name rest : List UInt8) :
    parseWord (F := F) name (ascii "false" ++ rest) = some (.bool name false, skip rest) := by
  simp only [parseWord, startsWith_append, Option.bind_eq_bind, Option.bind_some, if_true]
  rw [show 5 = (ascii "false").length from rfl, advanceN_append]
  rfl

theorem parseWord_true {F : Type} (name : List UInt8) {rest : List UInt8} (hne : rest ≠ []) :
    parseWord (F := F) name (ascii "true" ++ rest) = some (.bool name true, skip rest) := by
  have hlen : 0 < rest.length := List.length_pos_iff.mpr hne
  have hfalse : startsWith (ascii "false") (ascii "true" ++ rest) = some false :=
    startsWith_of_head (by decide) (by decide) (by rw [List.length_append]; exact Nat.add_le_add_left hlen 4) (by decide)
  simp only [parseWord, hfalse, startsWith_append, Option.bind_eq_bind, Option.bind_some, if_true,
    Bool.false_eq_true, if_false]
  rw [show 4 = (ascii "true").length from rfl, advanceN_append]
  rfl

theorem parseWord_null {F : Type} (name : List UInt8) {rest : List UInt8} (hne : rest ≠ []) :
    parseWord (F := F) name (ascii "null" ++ rest) = some (.null name, skip rest) := by
  have hlen : 0 < rest.length := List.length_pos_iff.mpr hne
  have hfalse : startsWith (ascii "false") (ascii "null" ++ rest) = some false :=
    startsWith_of_head (by decide) (by decide) (by rw [List.length_append]; exact Nat.add_le_add_left hlen 4) (by decide)
  have htrue : startsWith (ascii "true") (ascii "null" ++ rest) = some false :=
    startsWith_of_head (by decide) (by decide) (by rw [List.length_append]; exact Nat.le_add_right 4 _) (by decide)
  simp only [parseWord, hfalse, htrue, startsWith_append, Option.bind_eq_bind, Option.bind_some, if_true,
    Bool.false_eq_true, if_false]
  rw [show 4 = (ascii "null").length from rfl, advanceN_append]
  rfl

/-! The name in front of a value. -/

/-- A name that is written and read back: none in an array, and nothing to escape elsewhere. -/
def readableName (noName : Bool) (name : List UInt8) : Bool := name == [] || (!noName && plain name)

theorem indentBytes_eq {indent : Nat} (h : indent ≤ maxIndent) : indentBytes indent = List.replicate indent 32 := by
  rw [indentBytes, List.take_append_of_le_length (by rwa [List.length_replicate]), List.take_replicate,
    Nat.min_eq_left h]

theorem skip_indentBytes {indent : Nat} (h : indent ≤ maxIndent) (l : List UInt8) :
    skip (indentBytes indent ++ l) = skip l := by
  rw [indentBytes_eq h]
  exact skip_append_of_blank (fun _ => blank_replicate) l

theorem namePieces_flatten {name : List UInt8} (h : plain name = true) (hne : name ≠ []) (indent : Nat) :
    ∃ pad, (∀ c ∈ pad, isBlank c = true) ∧
      (namePieces indent false name).flatten = indentBytes indent ++ (34 :: (name ++ 34 :: 58 :: pad)) := by
  have hescape : escape name = name := escape_of_plain (Bool.and_eq_true _ _ ▸ h).1
  rw [namePieces, if_neg hne, if_neg Bool.false_ne_true, hescape]
  split
  · refine ⟨32 :: List.replicate (nameMinLen - name.length) 32, ?_, ?_⟩
    · intro c hc
      rcases List.mem_cons.mp hc with rfl | hc
      · decide
      · exact blank_replicate hc
    · simp
  · exact ⟨[32], by decide +kernel, by simp⟩

section Values

variable {F : Type} (ops : FloatOps F)

theorem parseElem_value {indent : Nat} (hindent : indent ≤ maxIndent) {noName : Bool} {name : List UInt8}
    (hname : readableName noName name = true) {c : UInt8} {v : List UInt8} (hblank : isBlank c = false)
    (hquote : name = [] → c ≠ 34) (n : Nat) :
    parseElem ops (n + 1) (skip ((namePieces indent noName name).flatten ++ c :: v)) =
      parseValue ops n name (c :: v) := by
  have hskip : skip (c :: v) = c :: v := skip_cons_of_not_blank hblank v
  have hparse : parseName (skip ((namePieces indent noName name).flatten ++ c :: v)) = some (name, [], c :: v) := by
    by_cases hne : name = []
    · subst hne
      rw [namePieces, if_pos rfl, List.flatten_nil, List.nil_append, hskip, parseName,
        if_neg (show peek (c :: v) ≠ 34 from hquote rfl)]
    · rw [readableName, Bool.or_eq_true, beq_iff_eq, or_iff_right hne, Bool.and_eq_true, Bool.not_eq_true'] at hname
      obtain ⟨hin, hplain⟩ := hname
      obtain ⟨pad, hpad, hflat⟩ := namePieces_flatten hplain hne indent
      have hsplit : indentBytes indent ++ (34 :: (name ++ 34 :: 58 :: pad)) ++ c :: v =
          indentBytes indent ++ (34 :: (name ++ 34 :: 58 :: (pad ++ c :: v))) := by simp
      rw [hin, hflat, hsplit, skip_indentBytes hindent, skip_cons_of_not_blank (by decide),
        parseName_named hplain hne, skip_append_of_blank hpad, hskip]
  rw [parseElem, hparse, Result.ofOption_some, Result.ok_bind]
  exact if_neg (not_not.mpr rfl)

theorem parseValue_string (n : Nat) (name str rest : List UInt8) :
    parseValue ops (n + 1) name (34 :: (escape str ++ 34 :: rest)) = .ok (.string name str, skip rest) := by
  have hpeek : peek (34 :: (escape str ++ 34 :: rest)) = 34 := rfl
  rw [parseValue, hpeek, if_neg (by decide), if_pos rfl, parseQuotedString_escape]
  rfl

theorem parseValue_word (n : Nat) (name : List UInt8) {l : List UInt8} (h : peek l = 110 ∨ peek l = 116 ∨ peek l = 102) :
    parseValue ops (n + 1) name l = .ofOption (parseWord name l) := by
  rw [parseValue]
  rcases h with h | h | h <;> rw [h, if_neg (by decide), if_neg (by decide), if_pos (by decide)]

theorem parseValue_array (n : Nat) (name : List UInt8) {l rest : List UInt8} {children : List (Elem F)}
    (h : parseChildren ops n 93 (skip l) = .ok (children, 93 :: rest)) :
    parseValue ops (n + 1) name (91 :: l) = .ok (.array name children, skip rest) := by
  have hpeek : peek (91 :: l) = 91 := rfl
  rw [parseValue, hpeek, if_neg (by decide), if_neg (by decide), if_neg (by decide), if_pos rfl,
    getChar_cons (by decide)]
  simp only [Result.ofOption_some, Result.ok_bind, h]
  rw [getChar_cons (by decide)]
  rfl

theorem parseValue_obj (n : Nat) (name : List UInt8) {l rest : List UInt8} {children : List (Elem F)}
    (h : parseChildren ops n 125 (skip l) = .ok (children, 125 :: rest)) :
    parseValue ops (n + 1) name (123 :: l) = .ok (.obj name children, skip rest) := by
  have hpeek : peek (123 :: l) = 123 := rfl
  rw [parseValue, hpeek, if_neg (by decide), if_neg (by decide), if_neg (by decide), if_neg (by decide), if_pos rfl,
    getChar_cons (by decide)]
  simp only [Result.ofOption_some, Result.ok_bind, h]
  rw [getChar_cons (by decide)]
  rfl

theorem skipCommas_of_ne {l : List UInt8} (h : peek l ≠ 44) : skipCommas l = l := by
  rw [skipCommas, if_neg h]

theorem skipCommas_comma {blanks l : List UInt8} (hblanks : ∀ c ∈ blanks, isBlank c = true)
    (h : peek (skip l) ≠ 44) : skipCommas (44 :: (blanks ++ l)) = skip l := by
  have hpeek : peek (44 :: (blanks ++ l)) = 44 := rfl
  rw [skipCommas, if_pos hpeek, List.dropWhile_cons_of_pos (by decide), List.dropWhile_append_of_pos
    (fun c hc => by rw [hblanks c hc, Bool.or_true])]
  induction l with
  | nil => rfl
  | cons c more ih =>
    by_cases hc : isBlank c = true
    · have hskip : skip (c :: more) = skip more := List.dropWhile_cons_of_pos hc
      rw [hskip] at h ⊢
      rw [List.dropWhile_cons_of_pos (by rw [hc, Bool.or_true])]
      exact ih h rfl
    · rw [skip_cons_of_not_blank (Bool.eq_false_iff.mpr hc)] at h ⊢
      have hne : c ≠ 44 := h
      rw [List.dropWhile_cons_of_neg (by simp [hne, hc])]

theorem parseChildren_comma (n : Nat) {endQuote : UInt8} (hend : endQuote ≠ 44) {blanks l : List UInt8}
    (hblanks : ∀ c ∈ blanks, isBlank c = true) (h : peek (skip l) ≠ 44) :
    parseChildren ops n endQuote (44 :: (blanks ++ l)) = parseChildren ops n endQuote (skip l) := by
  cases n with
  | zero => rfl
  | succ n =>
    have hpeek : peek (44 :: (blanks ++ l)) = 44 := rfl
    rw [parseChildren, parseChildren, hpeek, if_neg hend.symm, skipCommas_comma hblanks h, skipCommas_of_ne h]
    by_cases hlast : peek (skip l) = endQuote
    · rw [if_pos hlast, if_pos hlast]
    · rw [if_neg hlast, if_neg hlast]

end Values

/-! Trees. -/

section Trees

variable {F : Type} (ops : FloatOps F)

def childIndent (indent : Nat) (children : List (Elem F)) : Nat :=
  if firstName children = [] then indent else deeper indent

mutual

/-- The elements that are read back as they were: no number, every name readable, a string without a name not
empty and without escapes, and every indentation inside `indent_buf`. -/
def readable (indent : Nat) (noName : Bool) : Elem F → Bool
  | .null name => readableName noName name
  | .bool name _ => readableName noName name
  | .number _ _ => false
  | .string name str => readableName noName name && (name != [] || (str != [] && plain str))
  | .array name children =>
    readableName noName name && decide (childIndent indent children ≤ maxIndent) &&
      allReadable (childIndent indent children) true children
  | .obj name children =>
    readableName noName name && decide (childIndent indent children ≤ maxIndent) &&
      allReadable (childIndent indent children) false children

def allReadable (indent : Nat) (noName : Bool) : List (Elem F) → Bool
  | [] => true
  | child :: more => readable indent noName child && allReadable indent noName more

end

/-- `null` and `true`, which the parser compares with `false` first. -/
def shortWord : Elem F → Bool
  | .null _ => true
  | .bool _ value => value
  | _ => false

def elemText (indent : Nat) (noName : Bool) (elem : Elem F) : List UInt8 :=
  (elemPieces ops indent noName elem).flatten

def childText (indent : Nat) (noName : Bool) (sep : List UInt8) (last : List (List UInt8)) (children : List (Elem F)) :
    List UInt8 := (childPieces ops indent noName sep last children).flatten

/-- What stands in a list behind its open quote and the space. -/
def listText (indent : Nat) (noName : Bool) (children : List (Elem F)) : List UInt8 :=
  if firstName children = [] then childText ops indent noName [44, 32] [] children
  else 10 :: (childText ops (deeper indent) noName [44, 10] [[10]] children ++ indentBytes indent)

theorem wrapPieces_flatten (openQuote closeQuote : UInt8) (indent : Nat) (noName : Bool) (children : List (Elem F)) :
    (wrapPieces openQuote closeQuote indent children (childPieces ops indent noName [44, 32] [] children)
      (childPieces ops (deeper indent) noName [44, 10] [[10]] children)).flatten =
      openQuote :: 32 :: (listText ops indent noName children ++ [closeQuote]) := by
  rw [wrapPieces, listText]
  split
  · simp [childText]
  · simp [childText]

theorem elemText_array (indent : Nat) (noName : Bool) (name : List UInt8) (children : List (Elem F)) :
    elemText ops indent noName (.array name children) =
      (namePieces indent noName name).flatten ++ 91 :: 32 :: (listText ops indent true children ++ [93]) := by
  rw [elemText, elemPieces, List.flatten_append, wrapPieces_flatten]

theorem elemText_obj (indent : Nat) (noName : Bool) (name : List UInt8) (children : List (Elem F)) :
    elemText ops indent noName (.obj name children) =
      (namePieces indent noName name).flatten ++ 123 :: 32 :: (listText ops indent false children ++ [125]) := by
  rw [elemText, elemPieces, List.flatten_append, wrapPieces_flatten]

theorem elemText_string (indent : Nat) (noName : Bool) (name str : List UInt8) :
    elemText ops indent noName (.string name str) =
      (namePieces indent noName name).flatten ++ 34 :: (escape str ++ [34]) := by
  simp [elemText, elemPieces]

theorem elemText_null (indent : Nat) (noName : Bool) (name : List UInt8) :
    elemText ops indent noName (.null name) = (namePieces indent noName name).flatten ++ ascii "null" := by
  simp [elemText, elemPieces]

theorem elemText_bool (indent : Nat) (noName : Bool) (name : List UInt8) (value : Bool) :
    elemText ops indent noName (.bool name value) =
      (namePieces indent noName name).flatten ++ if value then ascii "true" else ascii "false" := by
  simp [elemText, elemPieces]

theorem childText_cons (indent : Nat) (noName : Bool) (sep : List UInt8) (last : List (List UInt8))
    (child : Elem F) (more : List (Elem F)) :
    childText ops indent noName sep last (child :: more) =
      elemText ops indent noName child ++ ((if more.isEmpty then last.flatten else sep) ++
        childText ops indent noName sep last more) := by
  rw [childText, childPieces, List.flatten_append, List.flatten_append, List.append_assoc]
  cases more with
  | nil => rfl
  | cons next more => simp [elemText, childText]

def firstBytes : List UInt8 := [34, 110, 116, 102, 91, 123]

theorem peek_nameText {indent : Nat} (hindent : indent ≤ maxIndent) {noName : Bool} {name : List UInt8}
    (hname : readableName noName name = true) {c : UInt8} (hc : c ∈ firstBytes) (v : List UInt8) :
    peek (skip ((namePieces indent noName name).flatten ++ c :: v)) ∈ firstBytes := by
  have hblank : ∀ d ∈ firstBytes, isBlank d = false := by decide +kernel
  by_cases hne : name = []
  · rw [namePieces, if_pos hne, List.flatten_nil, List.nil_append, skip_cons_of_not_blank (hblank c hc)]
    exact hc
  · rw [readableName, Bool.or_eq_true, beq_iff_eq, or_iff_right hne, Bool.and_eq_true, Bool.not_eq_true'] at hname
    obtain ⟨hin, hplain⟩ := hname
    obtain ⟨pad, -, hflat⟩ := namePieces_flatten hplain hne indent
    rw [hin, hflat, List.append_assoc, skip_indentBytes hindent, List.cons_append,
      skip_cons_of_not_blank (by decide)]
    exact List.mem_cons_self

theorem peek_elemText {indent : Nat} (hindent : indent ≤ maxIndent) {noName : Bool} {elem : Elem F}
    (h : readable indent noName elem = true) (rest : List UInt8) :
    peek (skip (elemText ops indent noName elem ++ rest)) ∈ firstBytes := by
  cases elem with
  | null name =>
    rw [elemText_null, List.append_assoc]
    exact peek_nameText hindent h (by decide) _
  | bool name value =>
    rw [elemText_bool, List.append_assoc]
    cases value with
    | true => exact peek_nameText hindent h (by decide) _
    | false => exact peek_nameText hindent h (by decide) _
  | number name num => cases h
  | string name str =>
    rw [readable, Bool.and_eq_true] at h
    rw [elemText_string, List.append_assoc]
    exact peek_nameText hindent h.1 (by decide) _
  | array name children =>
    rw [readable, Bool.and_eq_true, Bool.and_eq_true] at h
    rw [elemText_array, List.append_assoc]
    exact peek_nameText hindent h.1.1 (by decide) _
  | obj name children =>
    rw [readable, Bool.and_eq_true, Bool.and_eq_true] at h
    rw [elemText_obj, List.append_assoc]
    exact peek_nameText hindent h.1.1 (by decide) _

/-- With fuel for its text, the element is parsed and what follows it is left. -/
def ParsesBack (elem : Elem F) : Prop :=
  ∀ {indent : Nat} {noName : Bool} {n : Nat} {rest : List UInt8}, indent ≤ maxIndent →
    readable indent noName elem = true → 2 * (elemText ops indent noName elem).length ≤ n →
    (shortWord elem = true → rest ≠ []) → peek (skip rest) ≠ 58 →
    parseElem ops n (skip (elemText ops indent noName elem ++ rest)) = .ok (elem, skip rest)

theorem elemText_pos {indent : Nat} (hindent : indent ≤ maxIndent) {noName : Bool} {elem : Elem F}
    (h : readable indent noName elem = true) : 0 < (elemText ops indent noName elem).length := by
  have hpeek := peek_elemText ops hindent h []
  rw [List.append_nil] at hpeek
  rw [List.length_pos_iff]
  intro hnil
  rw [hnil] at hpeek
  exact absurd hpeek (by decide)

theorem parseChildren_childText {children : List (Elem F)} (hall : ∀ child ∈ children, ParsesBack ops child)
    {indent : Nat} (hindent : indent ≤ maxIndent) {noName : Bool}
    (hread : allReadable indent noName children = true) {blanks : List UInt8} {last : List (List UInt8)}
    (hblanks : ∀ c ∈ blanks, isBlank c = true) (hlast : ∀ c ∈ last.flatten, isBlank c = true)
    {endQuote : UInt8} (hend : endQuote = 93 ∨ endQuote = 125) {tail rest : List UInt8}
    (htail : skip tail = endQuote :: rest) {n : Nat}
    (hn : 2 * (childText ops indent noName (44 :: blanks) last children).length + 1 ≤ n) :
    parseChildren ops n endQuote (skip (childText ops indent noName (44 :: blanks) last children ++ tail)) =
      .ok (children, endQuote :: rest) := by
  have hcomma : endQuote ≠ 44 := by rcases hend with rfl | rfl <;> decide
  have hcolon : endQuote ≠ 58 := by rcases hend with rfl | rfl <;> decide
  have hfirst : endQuote ∉ firstBytes := by rcases hend with rfl | rfl <;> decide
  have hnocomma : (44 : UInt8) ∉ firstBytes := by decide
  induction children generalizing n with
  | nil =>
    obtain ⟨n, rfl⟩ := Nat.exists_eq_add_of_le' (Nat.le_trans (Nat.le_add_left 1 _) hn)
    have hnil : childText ops indent noName (44 :: blanks) last ([] : List (Elem F)) = [] := rfl
    have hpeek : peek (endQuote :: rest) = endQuote := rfl
    rw [hnil, List.nil_append, htail, parseChildren, if_pos hpeek]
  | cons child more ih =>
    rw [allReadable, Bool.and_eq_true] at hread
    have hpos := elemText_pos ops hindent hread.1
    rw [childText_cons] at hn ⊢
    rw [List.length_append, List.length_append] at hn
    obtain ⟨n, rfl⟩ := Nat.exists_eq_add_of_le' (Nat.le_trans (Nat.le_add_left 1 _) hn)
    obtain ⟨behind, hbehind⟩ : ∃ l, l = (if more.isEmpty then last.flatten else 44 :: blanks) ++
        childText ops indent noName (44 :: blanks) last more ++ tail := ⟨_, rfl⟩
    -- what the loop finds behind the child
    have hmore : parseChildren ops n endQuote (skip behind) = .ok (more, endQuote :: rest) ∧ behind ≠ [] ∧
        peek (skip behind) ≠ 58 := by
      have hloop := ih (fun c hc => hall c (List.mem_cons_of_mem child hc)) hread.2 (n := n) (by omega)
      cases more with
      | nil =>
        have hnil : childText ops indent noName (44 :: blanks) last ([] : List (Elem F)) = [] := rfl
        rw [hnil, List.nil_append] at hloop
        rw [hnil, List.append_nil, List.isEmpty_nil, if_pos rfl] at hbehind
        rw [hbehind, skip_append_of_blank hlast, htail]
        refine ⟨htail ▸ hloop, ?_, hcolon⟩
        intro hnil
        rw [(List.append_eq_nil_iff.mp hnil).2] at htail
        exact absurd htail (List.cons_ne_nil _ _).symm
      | cons next more =>
        have hpeek : peek (skip (childText ops indent noName (44 :: blanks) last (next :: more) ++ tail)) ≠ 44 := by
          have hnext := (Bool.and_eq_true _ _ ▸ hread.2 : _ ∧ _).1
          rw [childText_cons, List.append_assoc]
          intro heq
          exact hnocomma (heq ▸ peek_elemText ops hindent hnext _)
        rw [List.isEmpty_cons, if_neg Bool.false_ne_true, List.cons_append, List.cons_append,
          List.append_assoc] at hbehind
        rw [hbehind, skip_cons_of_not_blank (by decide), parseChildren_comma ops n hcomma hblanks hpeek]
        exact ⟨hloop, List.cons_ne_nil _ _, show (44 : UInt8) ≠ 58 by decide⟩
    obtain ⟨hloop, hne, hnocolon⟩ := hmore
    have hpeek := peek_elemText ops hindent hread.1 behind
    have hchild : parseElem ops n (skip (elemText ops indent noName child ++ behind)) = .ok (child, skip behind) :=
      hall child List.mem_cons_self hindent hread.1 (by omega) (fun _ => hne) hnocolon
    have hnotend : peek (skip (elemText ops indent noName child ++ behind)) ≠ endQuote :=
      fun heq => hfirst (heq ▸ hpeek)
    have hnotcomma : peek (skip (elemText ops indent noName child ++ behind)) ≠ 44 :=
      fun heq => hnocomma (heq ▸ hpeek)
    rw [List.append_assoc, ← hbehind, parseChildren, if_neg hnotend, skipCommas_of_ne hnotcomma, if_neg hnotend,
      hchild]
    simp only [Result.ok_bind, hloop]

theorem parseChildren_listText {children : List (Elem F)} (hall : ∀ child ∈ children, ParsesBack ops child)
    {indent : Nat} (hindent : indent ≤ maxIndent) (hchild : childIndent indent children ≤ maxIndent) {noName : Bool}
    (hread : allReadable (childIndent indent children) noName children = true)
    {endQuote : UInt8} (hend : endQuote = 93 ∨ endQuote = 125) (rest : List UInt8) {n : Nat}
    (hn : 2 * (listText ops indent noName children).length + 1 ≤ n) :
    parseChildren ops n endQuote (skip (listText ops indent noName children ++ endQuote :: rest)) =
      .ok (children, endQuote :: rest) := by
  have hblank : isBlank endQuote = false := by rcases hend with rfl | rfl <;> decide
  have hskip : skip (endQuote :: rest) = endQuote :: rest := skip_cons_of_not_blank hblank rest
  rw [childIndent] at hchild hread
  rw [listText] at hn ⊢
  by_cases hfirst : firstName children = []
  · rw [if_pos hfirst] at hchild hread hn ⊢
    exact parseChildren_childText ops hall hindent hread (by decide +kernel) (by simp) hend hskip hn
  · rw [if_neg hfirst] at hchild hread hn ⊢
    have htail : skip (indentBytes indent ++ endQuote :: rest) = endQuote :: rest := by
      rw [skip_indentBytes hindent, hskip]
    have hnewline : ∀ l, skip (10 :: l) = skip l := fun l => List.dropWhile_cons_of_pos (by decide)
    rw [List.length_cons, List.length_append] at hn
    rw [List.cons_append, hnewline, List.append_assoc]
    exact parseChildren_childText ops hall hchild hread (by decide +kernel) (by decide +kernel) hend htail (by omega)

theorem elem_induction {P : Elem F → Prop} (hnull : ∀ name, P (.null name)) (hbool : ∀ name value, P (.bool name value))
    (hnumber : ∀ name num, P (.number name num)) (hstring : ∀ name str, P (.string name str))
    (harray : ∀ name children, (∀ child ∈ children, P child) → P (.array name children))
    (hobj : ∀ name children, (∀ child ∈ children, P child) → P (.obj name children)) (elem : Elem F) : P elem :=
  @Elem.rec F P (fun children => ∀ child ∈ children, P child)
    hnull hbool hnumber hstring harray hobj nofun
    (fun _ _ hhead htail => List.forall_mem_cons.mpr ⟨hhead, htail⟩) elem

section Element

variable {indent : Nat} {noName : Bool} {name : List UInt8}

theorem parseElem_word (hindent : indent ≤ maxIndent) (hname : readableName noName name = true) {word : List UInt8}
    (hword : word.head? ∈ [some 110, some 116, some (102 : UInt8)]) (rest : List UInt8) (n : Nat) :
    parseElem ops (n + 2) (skip ((namePieces indent noName name).flatten ++ (word ++ rest))) =
      .ofOption (parseWord name (word ++ rest)) := by
  cases word with
  | nil => exact absurd hword (by decide)
  | cons c more =>
    have hc : c = 110 ∨ c = 116 ∨ c = 102 := by simpa using hword
    have hblank : isBlank c = false := by rcases hc with rfl | rfl | rfl <;> decide
    have hquote : c ≠ 34 := by rcases hc with rfl | rfl | rfl <;> decide
    rw [List.cons_append, parseElem_value ops hindent hname hblank (fun _ => hquote)]
    exact parseValue_word ops n name hc

theorem parseElem_named (hindent : indent ≤ maxIndent) (hname : readableName noName name = true) (hne : name ≠ [])
    (str rest : List UInt8) (n : Nat) :
    parseElem ops (n + 2) (skip ((namePieces indent noName name).flatten ++ 34 :: (escape str ++ 34 :: rest))) =
      .ok (.string name str, skip rest) := by
  rw [parseElem_value ops hindent hname (by decide) (fun hnil => absurd hnil hne), parseValue_string]

theorem parseElem_unnamed {str : List UInt8} (hplain : plain str = true) (hne : str ≠ []) {rest : List UInt8}
    (hcolon : peek (skip rest) ≠ 58) (n : Nat) :
    parseElem ops (n + 1) (skip (34 :: (escape str ++ 34 :: rest))) = .ok (.string [] str, skip rest) := by
  have hescape : escape str = str := escape_of_plain (Bool.and_eq_true _ _ ▸ hplain).1
  rw [hescape, skip_cons_of_not_blank (by decide), parseElem, parseName_unnamed hplain hne hcolon,
    Result.ofOption_some, Result.ok_bind]
  exact if_pos hne

theorem parseElem_array (hindent : indent ≤ maxIndent) (hname : readableName noName name = true)
    {children : List (Elem F)} (hall : ∀ child ∈ children, ParsesBack ops child)
    (hchild : childIndent indent children ≤ maxIndent)
    (hread : allReadable (childIndent indent children) true children = true) (rest : List UInt8) {n : Nat}
    (hn : 2 * (listText ops indent true children).length + 1 ≤ n) :
    parseElem ops (n + 2) (skip ((namePieces indent noName name).flatten ++
      91 :: 32 :: (listText ops indent true children ++ 93 :: rest))) = .ok (.array name children, skip rest) := by
  have hspace : ∀ l, skip (32 :: l) = skip l := fun l => List.dropWhile_cons_of_pos (by decide)
  have hlist := parseChildren_listText ops hall hindent hchild hread (Or.inl rfl) rest hn
  rw [parseElem_value ops hindent hname (by decide) (fun _ => by decide)]
  exact parseValue_array ops n name ((congrArg _ (hspace _)).trans hlist)

theorem parseElem_obj (hindent : indent ≤ maxIndent) (hname : readableName noName name = true)
    {children : List (Elem F)} (hall : ∀ child ∈ children, ParsesBack ops child)
    (hchild : childIndent indent children ≤ maxIndent)
    (hread : allReadable (childIndent indent children) false children = true) (rest : List UInt8) {n : Nat}
    (hn : 2 * (listText ops indent false children).length + 1 ≤ n) :
    parseElem ops (n + 2) (skip ((namePieces indent noName name).flatten ++
      123 :: 32 :: (listText ops indent false children ++ 125 :: rest))) = .ok (.obj name children, skip rest) := by
  have hspace : ∀ l, skip (32 :: l) = skip l := fun l => List.dropWhile_cons_of_pos (by decide)
  have hlist := parseChildren_listText ops hall hindent hchild hread (Or.inr rfl) rest hn
  rw [parseElem_value ops hindent hname (by decide) (fun _ => by decide)]
  exact parseValue_obj ops n name ((congrArg _ (hspace _)).trans hlist)

end Element

theorem ParsesBack.of_fuel {elem : Elem F}
    (h : ∀ {indent : Nat} {noName : Bool} {n : Nat} {rest : List UInt8}, indent ≤ maxIndent →
      readable indent noName elem = true → 2 * (elemText ops indent noName elem).length ≤ n + 2 →
      (shortWord elem = true → rest ≠ []) → peek (skip rest) ≠ 58 →
      parseElem ops (n + 2) (skip (elemText ops indent noName elem ++ rest)) = .ok (elem, skip rest)) :
    ParsesBack ops elem := by
  intro indent noName n rest hindent hread hn hrest hcolon
  have hpos := elemText_pos ops hindent hread
  obtain ⟨n, rfl⟩ : ∃ m, n = m + 2 := ⟨n - 2, by omega⟩
  exact h hindent hread hn hrest hcolon

theorem parsesBack (elem : Elem F) : ParsesBack ops elem := by
  induction elem using elem_induction with
  | hnull name =>
    apply ParsesBack.of_fuel
    intro indent noName n rest hindent h _ hrest _
    rw [elemText_null, List.append_assoc, parseElem_word ops hindent h (by decide),
      parseWord_null name (hrest rfl)]
    rfl
  | hbool name value =>
    apply ParsesBack.of_fuel
    intro indent noName n rest hindent h _ hrest _
    rw [elemText_bool, List.append_assoc]
    cases value with
    | true =>
      rw [if_pos rfl, parseElem_word ops hindent h (by decide), parseWord_true name (hrest rfl)]
      rfl
    | false =>
      rw [if_neg Bool.false_ne_true, parseElem_word ops hindent h (by decide), parseWord_false name]
      rfl
  | hnumber name num =>
    intro indent noName n rest _ h
    cases h
  | hstring name str =>
    apply ParsesBack.of_fuel
    intro indent noName n rest hindent h _ _ hcolon
    rw [readable, Bool.and_eq_true, Bool.or_eq_true, Bool.and_eq_true, bne_iff_ne, bne_iff_ne] at h
    rw [elemText_string, List.append_assoc, List.cons_append, List.append_assoc]
    by_cases hne : name = []
    · subst hne
      rw [or_iff_right (not_not.mpr rfl)] at h
      exact parseElem_unnamed ops h.2.2 h.2.1 hcolon (n + 1)
    · exact parseElem_named ops hindent h.1 hne str rest n
  | harray name children ih =>
    apply ParsesBack.of_fuel
    intro indent noName n rest hindent h hn _ _
    rw [readable, Bool.and_eq_true, Bool.and_eq_true, decide_eq_true_iff] at h
    rw [elemText_array] at hn ⊢
    simp only [List.length_append, List.length_cons, List.length_nil] at hn
    rw [List.append_assoc, List.cons_append, List.cons_append, List.append_assoc]
    exact parseElem_array ops hindent h.1.1 ih h.1.2 h.2 rest (by omega)
  | hobj name children ih =>
    apply ParsesBack.of_fuel
    intro indent noName n rest hindent h hn _ _
    rw [readable, Bool.and_eq_true, Bool.and_eq_true, decide_eq_true_iff] at h
    rw [elemText_obj] at hn ⊢
    simp only [List.length_append, List.length_cons, List.length_nil] at hn
    rw [List.append_assoc, List.cons_append, List.cons_append, List.append_assoc]
    exact parseElem_obj ops hindent h.1.1 ih h.1.2 h.2 rest (by omega)

end Trees

/-! The buffer of the writer, and the whole document. -/

theorem foldlM_bufWriter {pieces : List (List UInt8)} (hne : pieces ≠ []) (out : List UInt8) (size : Nat) :
    pieces.foldlM bufWriter (out, size) =
      if pieces.flatten.length + 1 < size then some (out ++ pieces.flatten, size - pieces.flatten.length) else none := by
  induction pieces generalizing out size with
  | nil => exact absurd rfl hne
  | cons piece more ih =>
    rw [List.foldlM_cons, List.flatten_cons, List.length_append]
    show (if size ≤ piece.length + 1 then none else some (out ++ piece, size - piece.length)).bind _ = _
    by_cases hfull : size ≤ piece.length + 1
    · rw [if_pos hfull, if_neg (by omega)]
      rfl
    · rw [if_neg hfull, Option.bind_some]
      cases more with
      | nil =>
        rw [List.flatten_nil, List.length_nil, List.append_nil, if_pos (by omega)]
        rfl
      | cons next more =>
        rw [ih (List.cons_ne_nil _ _), List.append_assoc, Nat.sub_sub]
        by_cases hfit : piece.length + (next :: more).flatten.length + 1 < size
        · rw [if_pos hfit, if_pos (by omega)]
        · rw [if_neg hfit, if_neg (by omega)]

section Document

variable {F : Type} (ops : FloatOps F)

theorem anyLongNumber_of_readable {children : List (Elem F)} {indent : Nat} {noName : Bool}
    (hall : ∀ child ∈ children, readable indent noName child = true → hasLongNumber ops child = false)
    (h : allReadable indent noName children = true) : anyLongNumber ops children = false := by
  induction children with
  | nil => rfl
  | cons child more ih =>
    rw [allReadable, Bool.and_eq_true] at h
    rw [anyLongNumber, hall child List.mem_cons_self h.1,
      ih (fun c hc => hall c (List.mem_cons_of_mem child hc)) h.2]
    rfl

theorem hasLongNumber_of_readable (elem : Elem F) {indent : Nat} {noName : Bool}
    (h : readable indent noName elem = true) : hasLongNumber ops elem = false := by
  induction elem using elem_induction generalizing indent noName with
  | hnull name => rfl
  | hbool name value => rfl
  | hnumber name num => cases h
  | hstring name str => rfl
  | harray name children ih =>
    rw [readable, Bool.and_eq_true] at h
    exact anyLongNumber_of_readable ops (fun child hmem hread => ih child hmem hread) h.2
  | hobj name children ih =>
    rw [readable, Bool.and_eq_true] at h
    exact anyLongNumber_of_readable ops (fun child hmem hread => ih child hmem hread) h.2

theorem elemPieces_ne_nil (elem : Elem F) (indent : Nat) (noName : Bool) : elemPieces ops indent noName elem ≠ [] := by
  cases elem <;> simp [elemPieces, wrapPieces]

theorem jsonWrite_eq {elem : Elem F} (h : readable 0 false elem = true) (size : Nat) :
    jsonWrite ops elem size =
      if (elemText ops 0 false elem).length + 1 < size then some (elemText ops 0 false elem) else none := by
  rw [jsonWrite, hasLongNumber_of_readable ops elem h, if_neg Bool.false_ne_true,
    foldlM_bufWriter (elemPieces_ne_nil ops elem 0 false), ← elemText]
  split
  · rfl
  · rfl

/-- A document of readable elements is written and parsed back. A lone `null` or `true` is not: the parser
compares with `false`, for which the text is too short. -/
theorem jsonParse_jsonWrite (elem : Elem F) (hread : readable 0 false elem = true) (hword : shortWord elem = false) :
    ∃ text, (∀ size, jsonWrite ops elem size = if text.length + 1 < size then some text else none) ∧
      jsonParse ops text = .ok (elem, []) := by
  refine ⟨elemText ops 0 false elem, jsonWrite_eq ops hread, ?_⟩
  have hpos := elemText_pos ops (Nat.zero_le _) hread
  have hparse : parseElem ops (3 * (elemText ops 0 false elem).length + 3) (skip (elemText ops 0 false elem ++ [])) =
      .ok (elem, skip []) :=
    parsesBack ops elem (Nat.zero_le _) hread (by omega)
      (fun hshort => absurd (hword.symm.trans hshort) Bool.false_ne_true) (by decide)
  rw [List.append_nil] at hparse
  rw [jsonParse, if_neg (List.length_pos_iff.mp hpos), hparse]
  rfl

end Document

/-- Integers for `float`, printed without a sign. -/
def natOps : FloatOps Nat where
  strtof l := l.foldl (fun n c => 10 * n + (c.toNat - 48)) 0
  neg n := n
  print n := ascii (toString n)

/-- An object with a boolean, a string that needs escapes, and an array of strings without names. -/
theorem jsonParse_jsonWrite_obj :
    ∃ text, (∀ size, jsonWrite natOps (.obj [] [.bool (ascii "on") true, .string (ascii "path") (ascii "a/b"),
        .array (ascii "codecs") [.string [] (ascii "PCMU"), .null []]]) size =
          if text.length + 1 < size then some text else none) ∧
      jsonParse natOps text = .ok (.obj [] [.bool (ascii "on") true, .string (ascii "path") (ascii "a/b"),
        .array (ascii "codecs") [.string [] (ascii "PCMU"), .null []]], []) :=
  jsonParse_jsonWrite natOps _ (by decide) rfl

def parsedName : Result (Elem Nat × List UInt8) → List UInt8
  | .ok (.array _ children, _) => firstName children
  | _ => []

/-- The name of an element in an array is not written, so that it cannot be read back. -/
theorem array_loses_name :
    jsonWrite natOps (.array [] [.null (ascii "x")]) 64 = some (ascii "[ \n   null\n]") ∧
      jsonParse natOps (ascii "[ \n   null\n]") ≠ .ok (.array [] [.null (ascii "x")], []) := by
  refine ⟨by decide +kernel, ?_⟩
  intro heq
  exact absurd (congrArg parsedName heq) (by decide +kernel)

end PjProject.Json
