import PjProject.SipFraming

/-! Messages of a SIP stream as a sender writes them, and what `pjsip_find_msg` makes of one of them at the front of the buffer:
the header section has CRLF line ends and one Content-Length header, which has the length of the body. -/

namespace PjProject.Sip

open Scan (isSpace isNewline isProbablySpace)

def crlf : Bytes := [13, 10]

def IsLine (line : Bytes) : Prop := line ≠ [] ∧ ∀ c ∈ line, isNewline c = false

def linesText (lines : List Bytes) : Bytes := lines.flatMap (· ++ crlf)

def headerName (line : Bytes) : Bytes := line.takeWhile fun c => !(isSpace c || c == 58)

def isContentLengthName (name : Bytes) : Bool :=
  name.map toLower == ascii "content-length" || name.map toLower == ascii "l"

def Spaces (l : Bytes) : Prop := ∀ c ∈ l, isSpace c = true

/-- A Content-Length header; behind the colon the line may be folded. -/
structure ContentLength where
  name : Bytes
  before : Bytes
  behind : Bytes
  fold : Option Bytes
  digits : Bytes
  trailing : Bytes
  hname : isContentLengthName name = true
  hbefore : Spaces before
  hbehind : Spaces behind
  hfold : ∀ l ∈ fold, l ≠ [] ∧ Spaces l
  hdigits : digits ≠ [] ∧ ∀ c ∈ digits, isDigit c = true
  htrailing : Spaces trailing

def ContentLength.lines (cl : ContentLength) : List Bytes :=
  match cl.fold with
  | none => [cl.name ++ cl.before ++ 58 :: (cl.behind ++ cl.digits ++ cl.trailing)]
  | some l => [cl.name ++ cl.before ++ 58 :: cl.behind, l ++ cl.digits ++ cl.trailing]

def OtherLine (line : Bytes) : Prop := IsLine line ∧ isContentLengthName (headerName line) = false

/-- A message. The line behind the Content-Length header is no continuation of it. -/
structure Message where
  startLine : Bytes
  front : List Bytes
  contentLength : ContentLength
  back : List Bytes
  body : Bytes
  hstart : IsLine startLine
  hfront : ∀ line ∈ front, OtherLine line
  hback : ∀ line ∈ back, OtherLine line
  hnext : ∀ line ∈ back.head?, isSpace (line.headD 0) = false
  hsize : Sdp.number contentLength.digits = body.length
  hmax : (linesText (startLine :: (front ++ contentLength.lines ++ back)) ++ crlf).length + body.length < maxPktLen

namespace Message

def lines (m : Message) : List Bytes := m.startLine :: (m.front ++ m.contentLength.lines ++ m.back)

/-- The header section with the empty line. -/
def head (m : Message) : Bytes := linesText m.lines ++ crlf

def bytes (m : Message) : Bytes := m.head ++ m.body

end Message

/-! Bytes. -/

theorem not_newline_of_isSpace {c : UInt8} (h : isSpace c = true) : isNewline c = false := by
  rw [isSpace, Bool.or_eq_true, beq_iff_eq, beq_iff_eq] at h
  rcases h with rfl | rfl
  · decide
  · decide

theorem digit_plain {c : UInt8} (h : isDigit c = true) :
    isSpace c = false ∧ isNewline c = false ∧ Sdp.isspace c = false ∧ c ≠ 43 ∧ c ≠ 45 ∧ c ≠ 0 := by
  revert h
  exact forall_uint8 (p := fun c => isDigit c = true →
    isSpace c = false ∧ isNewline c = false ∧ Sdp.isspace c = false ∧ c ≠ 43 ∧ c ≠ 45 ∧ c ≠ 0) (by decide +kernel) c

/-! White space. -/

theorem skipHeader_spaces {spaces : Bytes} (h : Spaces spaces) {c : UInt8} (hspace : isSpace c = false)
    (hnewline : isNewline c = false) (t : Bytes) : skipHeader (spaces ++ c :: t) = c :: t := by
  have hdrop : (spaces ++ c :: t).dropWhile isSpace = c :: t := by
    rw [List.dropWhile_append_of_pos h, List.dropWhile_cons_of_neg (by rw [hspace]; exact Bool.false_ne_true)]
  unfold skipHeader
  dsimp only
  rw [hdrop, List.headD_cons, hnewline]
  exact if_neg fun hyes => absurd hyes.1 Bool.false_ne_true

theorem skipHeader_fold {behind l : Bytes} (h : Spaces behind) (hne : l ≠ []) (hl : Spaces l) {c : UInt8}
    (hspace : isSpace c = false) (t : Bytes) : skipHeader (behind ++ (crlf ++ (l ++ c :: t))) = c :: t := by
  have hdrop : (behind ++ (crlf ++ (l ++ c :: t))).dropWhile isSpace = crlf ++ (l ++ c :: t) := by
    rw [List.dropWhile_append_of_pos h]
    rfl
  have hhead : isSpace ((l ++ c :: t).headD 0) = true := by
    cases l with
    | nil => exact absurd rfl hne
    | cons d l => exact hl d List.mem_cons_self
  unfold skipHeader
  dsimp only
  rw [hdrop]
  have hnext : dropNewline (crlf ++ (l ++ c :: t)) = l ++ c :: t := rfl
  rw [hnext, if_pos ⟨rfl, hhead⟩, List.dropWhile_append_of_pos hl,
    List.dropWhile_cons_of_neg (by rw [hspace]; exact Bool.false_ne_true)]

theorem skipHeader_lineEnd {trailing : Bytes} (h : Spaces trailing) {t : Bytes} (hnext : isSpace (t.headD 0) = false) :
    skipHeader (trailing ++ (crlf ++ t)) = crlf ++ t := by
  have hdrop : (trailing ++ (crlf ++ t)).dropWhile isSpace = crlf ++ t := by
    rw [List.dropWhile_append_of_pos h]
    rfl
  unfold skipHeader
  dsimp only
  rw [hdrop]
  have hrest : dropNewline (crlf ++ t) = t := rfl
  rw [hrest, hnext]
  exact if_neg fun hyes => absurd hyes.2 Bool.false_ne_true

/-! Comparison of names. -/

theorem compareN_eq_zero {fold : UInt8 → UInt8} (hfold : fold 0 = 0) {n : Nat} {a b : Bytes} (hlen : n ≤ b.length)
    (hb : ∀ c ∈ b, fold c ≠ 0) :
    Scan.Scanner.compareN fold n a b = 0 ↔ (a.take n).map fold = (b.take n).map fold := by
  induction n generalizing a b with
  | zero => simp only [Scan.Scanner.compareN, List.take_zero]
  | succ n ih =>
    cases b with
    | nil => exact absurd hlen (Nat.not_succ_le_zero n)
    | cons d b =>
      have hd := hb d List.mem_cons_self
      unfold Scan.Scanner.compareN
      dsimp only
      rw [List.headD_cons, List.tail_cons]
      cases a with
      | nil =>
        have hne : fold (List.headD [] 0) ≠ fold d := by
          rw [List.headD_nil, hfold]
          exact fun h => hd h.symm
        rw [if_pos hne, List.headD_nil, hfold, List.take_nil, List.map_nil, List.take_succ_cons, List.map_cons]
        refine iff_of_false (fun h => hd ?_) (fun h => by cases h)
        refine UInt8.toNat_inj.mp ?_
        rw [UInt8.toNat_zero] at h ⊢
        omega
      | cons c a =>
        rw [List.headD_cons, List.tail_cons, List.take_succ_cons, List.take_succ_cons, List.map_cons, List.map_cons]
        by_cases hcd : fold c = fold d
        · rw [if_neg (not_not_intro hcd), hcd, if_neg hd,
            ih (Nat.le_of_succ_le_succ hlen) fun e he => hb e (List.mem_cons_of_mem d he)]
          exact ⟨fun h => by rw [h], fun h => (List.cons.inj h).2⟩
        · rw [if_pos hcd]
          refine iff_of_false (fun h => hcd (UInt8.toNat_inj.mp (by omega))) fun h => hcd (List.cons.inj h).1

/-! The end of the header section. -/

theorem strstr_cons_of_ne {c : UInt8} (h : c ≠ 10) (l : Bytes) :
    strstr [10, 13, 10] (c :: l) = (strstr [10, 13, 10] l).map (· + 1) := by
  rw [strstr]
  refine if_neg ?_
  rw [List.isPrefixOf_iff_prefix]
  rintro ⟨t, ht⟩
  exact h (List.cons.inj ht).1.symm

theorem strstr_append_of_forall {x : Bytes} (h : ∀ c ∈ x, c ≠ 10) (l : Bytes) :
    strstr [10, 13, 10] (x ++ l) = (strstr [10, 13, 10] l).map (· + x.length) := by
  induction x with
  | nil => exact (congrFun Option.map_id _).symm
  | cons c x ih =>
    rw [List.cons_append, strstr_cons_of_ne (h c List.mem_cons_self), ih fun d hd => h d (List.mem_cons_of_mem c hd),
      Option.map_map]
    rfl

theorem strstr_lf {l : Bytes} (h : l.headD 0 ≠ 13) : strstr [10, 13, 10] (10 :: l) = (strstr [10, 13, 10] l).map (· + 1) := by
  rw [strstr]
  refine if_neg ?_
  rw [List.isPrefixOf_iff_prefix]
  rintro ⟨t, ht⟩
  obtain ⟨-, rfl⟩ := List.cons.inj ht
  exact h rfl

theorem strstr_le {sub l : Bytes} {k : Nat} (h : strstr sub l = some k) : k + sub.length ≤ l.length := by
  induction l generalizing k with
  | nil => cases h
  | cons c l ih =>
    unfold strstr at h
    by_cases hpre : sub.isPrefixOf (c :: l) = true
    · rw [if_pos hpre] at h
      obtain rfl := Option.some.inj h
      rw [Nat.zero_add]
      exact (List.isPrefixOf_iff_prefix.mp hpre).length_le
    · rw [if_neg hpre] at h
      obtain ⟨j, hj, rfl⟩ := Option.map_eq_some_iff.mp h
      have := ih hj
      rw [List.length_cons]
      omega

theorem strstr_append {sub l : Bytes} {k : Nat} (h : strstr sub l = some k) (more : Bytes) : strstr sub (l ++ more) = some k := by
  induction l generalizing k with
  | nil => cases h
  | cons c l ih =>
    have hle := strstr_le h
    unfold strstr at h
    rw [List.cons_append]
    unfold strstr
    have hlong : c :: l <+: c :: (l ++ more) := List.prefix_append (c :: l) more
    by_cases hpre : sub.isPrefixOf (c :: l) = true
    · rw [if_pos hpre] at h
      rw [if_pos (List.isPrefixOf_iff_prefix.mpr ((List.isPrefixOf_iff_prefix.mp hpre).trans hlong))]
      exact h
    · rw [if_neg hpre] at h
      have hnot : ¬ sub.isPrefixOf (c :: (l ++ more)) = true := by
        intro hpre'
        refine hpre (List.isPrefixOf_iff_prefix.mpr ?_)
        exact List.prefix_of_prefix_length_le (List.isPrefixOf_iff_prefix.mp hpre') hlong (by omega)
      obtain ⟨j, hj, rfl⟩ := Option.map_eq_some_iff.mp h
      rw [if_neg hnot, ih hj]
      rfl

theorem IsLine.noLf {line : Bytes} (h : IsLine line) {c : UInt8} (hc : c ∈ line) : c ≠ 10 := by
  rintro rfl
  exact absurd (h.2 10 hc) (by decide)

theorem IsLine.head {line : Bytes} (h : IsLine line) (t : Bytes) : isNewline ((line ++ t).headD 0) = false := by
  obtain ⟨hne, hall⟩ := h
  cases line with
  | nil => exact absurd rfl hne
  | cons c line => exact hall c List.mem_cons_self

theorem linesText_cons (line : Bytes) (lines : List Bytes) : linesText (line :: lines) = line ++ (crlf ++ linesText lines) := by
  unfold linesText
  rw [List.flatMap_cons, List.append_assoc]

theorem linesText_append (l1 l2 : List Bytes) : linesText (l1 ++ l2) = linesText l1 ++ linesText l2 := List.flatMap_append

theorem length_crlf : crlf.length = 2 := rfl

theorem strstr_lines {lines : List Bytes} (hne : lines ≠ []) (h : ∀ line ∈ lines, IsLine line) (t : Bytes) :
    strstr [10, 13, 10] (linesText lines ++ (crlf ++ t)) = some ((linesText lines).length - 1) := by
  induction lines with
  | nil => exact absurd rfl hne
  | cons line rest ih =>
    have hline := h line List.mem_cons_self
    have hnolf : ∀ c ∈ line ++ [13], c ≠ 10 := by
      intro c hc
      rcases List.mem_append.mp hc with hc | hc
      · exact hline.noLf hc
      · obtain rfl := List.mem_singleton.mp hc
        decide
    have hsplit : linesText (line :: rest) ++ (crlf ++ t) = (line ++ [13]) ++ 10 :: (linesText rest ++ (crlf ++ t)) := by
      rw [linesText_cons]
      simp only [crlf, List.append_assoc, List.cons_append, List.nil_append]
    rw [hsplit, strstr_append_of_forall hnolf, linesText_cons]
    simp only [List.length_append, length_crlf, List.length_singleton]
    cases rest with
    | nil =>
      have hfound : strstr [10, 13, 10] (10 :: (linesText [] ++ (crlf ++ t))) = some 0 := rfl
      rw [hfound, Option.map_some]
      have hzero : (linesText []).length = 0 := rfl
      rw [hzero]
      congr 1
      omega
    | cons next more =>
      have hnext := h next (List.mem_cons_of_mem line List.mem_cons_self)
      have hstart : (linesText (next :: more) ++ (crlf ++ t)).headD 0 ≠ 13 := by
        rw [linesText_cons, List.append_assoc]
        intro heq
        have := hnext.head ((crlf ++ linesText more) ++ (crlf ++ t))
        rw [heq] at this
        exact absurd this (by decide)
      have hpos : 2 ≤ (linesText (next :: more)).length := by
        rw [linesText_cons]
        simp only [List.length_append, length_crlf]
        omega
      rw [strstr_lf hstart, ih (List.cons_ne_nil next more) fun l hl => h l (List.mem_cons_of_mem line hl), Option.map_some,
        Option.map_some]
      congr 1
      omega

/-! The search for the Content-Length header. -/

theorem findContentLength_skip {hdrEnd pos : Nat} {status : Status} {x : Bytes} (h : ∀ c ∈ x, c ≠ 10) (l : Bytes) :
    findContentLength hdrEnd pos status (x ++ l) = findContentLength hdrEnd (pos + x.length) status l := by
  induction x generalizing pos with
  | nil => rfl
  | cons c x ih =>
    rw [List.cons_append, findContentLength]
    have hlen : pos + 1 + x.length = pos + (c :: x).length := by
      rw [List.length_cons]
      omega
    rw [if_neg (h c List.mem_cons_self), ih fun d hd => h d (List.mem_cons_of_mem c hd), hlen]

theorem ascii_contentLength : ascii "Content-Length" = [67, 111, 110, 116, 101, 110, 116, 45, 76, 101, 110, 103, 116, 104] :=
  (ascii_ofList _).trans rfl

theorem ascii_lower_contentLength :
    ascii "content-length" = [99, 111, 110, 116, 101, 110, 116, 45, 108, 101, 110, 103, 116, 104] :=
  (ascii_ofList _).trans rfl

/-- The lower case of `Content-Length`. -/
theorem lower_contentLength : (ascii "Content-Length").map toLower = ascii "content-length" := by
  rw [ascii_contentLength, ascii_lower_contentLength]
  decide

theorem length_contentLength : (ascii "Content-Length").length = 14 := by
  rw [ascii_contentLength]
  rfl

theorem isContentLengthName_iff {name : Bytes} :
    isContentLengthName name = true ↔ name.map toLower = ascii "content-length" ∨ name.map toLower = ascii "l" := by
  rw [isContentLengthName, Bool.or_eq_true, beq_iff_eq, beq_iff_eq]

theorem compareN_contentLength {l : Bytes} :
    Scan.Scanner.compareN toLower 14 l (ascii "Content-Length") = 0 ↔ (l.take 14).map toLower = ascii "content-length" := by
  have htake : (ascii "Content-Length").take 14 = ascii "Content-Length" :=
    List.take_of_length_le length_contentLength.le
  have hbytes : ∀ c ∈ ascii "Content-Length", toLower c ≠ 0 := by
    rw [ascii_contentLength]
    simp only [List.forall_mem_cons]
    decide +kernel
  rw [compareN_eq_zero rfl length_contentLength.ge hbytes, htake, ← lower_contentLength]

theorem letter_of_lower {c : UInt8} : (toLower c = 99 ↔ c = 67 ∨ c = 99) ∧ (toLower c = 108 ↔ c = 108 ∨ c = 76) :=
  forall_uint8 (p := fun c =>
    (toLower c = 99 ↔ c = 67 ∨ c = 99) ∧ (toLower c = 108 ↔ c = 108 ∨ c = 76)) (by decide +kernel) c

/-- The letters of `content-length` are no blanks. -/
theorem contentLength_plain {c : UInt8} (h : toLower c ∈ ascii "content-length") :
    isSpace c = false ∧ isNewline c = false ∧ c ≠ 58 := by
  have hnot : ∀ b ∈ [(32 : UInt8), 9, 13, 10, 58], toLower b ∉ ascii "content-length" := by
    rw [ascii_lower_contentLength]
    simp only [List.forall_mem_cons]
    decide +kernel
  have hne : ∀ b ∈ [(32 : UInt8), 9, 13, 10, 58], c ≠ b := fun b hb heq => hnot b hb (heq ▸ h)
  simp only [List.forall_mem_cons] at hne
  obtain ⟨hspace, htab, hcr, hlf, hcolon, -⟩ := hne
  simp only [isSpace, isNewline, Bool.or_eq_false_iff, beq_eq_false_iff_ne]
  exact ⟨⟨hspace, htab⟩, ⟨hcr, hlf⟩, hcolon⟩

theorem headerName_append {n : Bytes} (h : ∀ c ∈ n, isSpace c = false ∧ c ≠ 58) (z : Bytes) :
    headerName (n ++ z) = n ++ headerName z := by
  unfold headerName
  refine List.takeWhile_append_of_pos fun c hc => ?_
  obtain ⟨hspace, hcolon⟩ := h c hc
  rw [hspace, Bool.false_or, beq_eq_false_iff_ne.mpr hcolon]
  rfl

/-- A line that is compared equal has the whole name. -/
theorem take_line {line t : Bytes} (h : ((line ++ (crlf ++ t)).take 14).map toLower = ascii "content-length") :
    (line.take 14).map toLower = ascii "content-length" ∧ 14 ≤ line.length := by
  have hlong : 14 ≤ line.length := by
    by_contra hshort
    have hmem : toLower 13 ∈ ((line ++ (crlf ++ t)).take 14).map toLower := by
      refine List.mem_map_of_mem ?_
      rw [List.take_append]
      refine List.mem_append_right _ ?_
      obtain ⟨k, hk⟩ : ∃ k, 14 - line.length = k + 1 := ⟨13 - line.length, by omega⟩
      rw [hk]
      exact List.mem_cons_self
    rw [h] at hmem
    exact absurd hmem (by decide)
  rw [List.take_append_of_le_length hlong] at h
  exact ⟨h, hlong⟩

theorem skipHeader_cons {c : UInt8} (hspace : isSpace c = false) (hnewline : isNewline c = false) (t : Bytes) :
    skipHeader (c :: t) = c :: t :=
  skipHeader_spaces (fun _ hc => absurd hc List.not_mem_nil) hspace hnewline t

theorem scan_other {line : Bytes} (h : OtherLine line) {t : Bytes}
    (hstarts : startsContentLength (line ++ (crlf ++ t)) = true) (w : Bytes) :
    scanContentLength (line ++ (crlf ++ w)) = none := by
  obtain ⟨⟨hne, hplain⟩, hother⟩ := h
  cases line with
  | nil => exact absurd rfl hne
  | cons c line =>
  rw [startsContentLength, Bool.or_eq_true, Bool.and_eq_true, Bool.and_eq_true, Bool.or_eq_true, beq_iff_eq, beq_iff_eq,
    beq_iff_eq, compareN_contentLength] at hstarts
  rcases hstarts with ⟨hfirst, hname⟩ | ⟨hfirst, hsecond⟩
  · obtain ⟨hlower, hlong⟩ := take_line hname
    have hletters : ∀ d ∈ (c :: line).take 14, isSpace d = false ∧ isNewline d = false ∧ d ≠ 58 := by
      intro d hd
      refine contentLength_plain ?_
      rw [← hlower]
      exact List.mem_map_of_mem hd
    have hsplit := List.take_append_drop 14 (c :: line)
    have hmore : headerName ((c :: line).drop 14) ≠ [] := by
      intro hnil
      rw [← hsplit, headerName_append fun d hd => ⟨(hletters d hd).1, (hletters d hd).2.2⟩, hnil, List.append_nil,
        isContentLengthName, hlower] at hother
      exact absurd hother (by decide)
    cases hz : (c :: line).drop 14 with
    | nil =>
      rw [hz] at hmore
      exact absurd rfl hmore
    | cons d z =>
      rw [hz, headerName] at hmore
      have hd : isSpace d = false ∧ d ≠ 58 := by
        by_contra hnot
        refine hmore (List.takeWhile_cons_of_neg ?_)
        intro hyes
        rw [Bool.not_eq_true', Bool.or_eq_false_iff, beq_eq_false_iff_ne] at hyes
        exact hnot hyes
      have hnewline := hplain d (List.mem_of_mem_drop (by rw [hz]; exact List.mem_cons_self))
      obtain ⟨hcspace, hcnewline, -⟩ := hletters c List.mem_cons_self
      have hdrop : (c :: line ++ (crlf ++ w)).drop 14 = d :: (z ++ (crlf ++ w)) := by
        rw [List.drop_append_of_le_length hlong, hz]
        rfl
      have hfits : ¬ (c :: line ++ (crlf ++ w)).length < 14 := by
        rw [List.length_append]
        omega
      have hletter : c = 67 ∨ c = 99 := hfirst
      rw [scanContentLength, List.cons_append, skipHeader_cons hcspace hcnewline, List.headD_cons, if_pos hletter, advanceN,
        ← List.cons_append, if_neg hfits, hdrop, skipHeader_cons hd.1 hnewline, Option.bind_eq_bind, Option.bind_some, getChar]
      split
      · rfl
      · rw [Option.bind_eq_bind, Option.bind_some]
        exact if_pos hd.2
  · -- the name is the one letter
    rw [Bool.or_eq_true, beq_iff_eq, beq_iff_eq] at hfirst
    have hletter : toLower c = 108 := letter_of_lower.2.mpr hfirst
    have hname : headerName (c :: line) = [c] := by
      have hc : ∀ d ∈ [c], isSpace d = false ∧ d ≠ 58 := by
        intro d hd
        obtain rfl := List.mem_singleton.mp hd
        rcases letter_of_lower.2.mp hletter with rfl | rfl
        · decide
        · decide
      rw [← List.singleton_append, headerName_append hc]
      cases line with
      | nil => rfl
      | cons d line =>
        have hblank : ¬ (!(isSpace d || d == 58)) = true := by
          rw [Bool.or_eq_true, Bool.or_eq_true, beq_iff_eq, beq_iff_eq, beq_iff_eq] at hsecond
          change (d = 32 ∨ d = 9) ∨ d = 58 at hsecond
          rcases hsecond with (rfl | rfl) | rfl
          · decide
          · decide
          · decide
        rw [headerName, List.takeWhile_cons_of_neg (p := fun c => !(isSpace c || c == 58)) hblank]
        rfl
    rw [hname, isContentLengthName, List.map_singleton, hletter] at hother
    exact absurd hother (by decide)

/-- The search goes on behind the line of another header. -/
theorem find_other {hdrEnd pos : Nat} {line : Bytes} (h : OtherLine line) (hpos : pos + (line.length + 2) < hdrEnd)
    (status : Status) (rest : Bytes) :
    ∃ status', findContentLength hdrEnd pos status (10 :: (line ++ (crlf ++ rest))) =
      findContentLength hdrEnd (pos + (line.length + 2)) status' (10 :: rest) := by
  have hskip : ∀ status', findContentLength hdrEnd (pos + 1) status' (line ++ (crlf ++ rest)) =
      findContentLength hdrEnd (pos + (line.length + 2)) status' (10 :: rest) := by
    intro status'
    have hnolf : ∀ c ∈ line ++ [13], c ≠ 10 := by
      intro c hc
      rcases List.mem_append.mp hc with hc | hc
      · exact h.1.noLf hc
      · obtain rfl := List.mem_singleton.mp hc
        decide
    have hsplit : line ++ (crlf ++ rest) = (line ++ [13]) ++ 10 :: rest := by
      simp only [crlf, List.append_assoc, List.cons_append, List.nil_append]
    have hlen : pos + 1 + (line ++ [13]).length = pos + (line.length + 2) := by
      rw [List.length_append, List.length_singleton]
      omega
    rw [hsplit, findContentLength_skip hnolf, hlen]
  rw [findContentLength, if_pos rfl, if_neg (by omega)]
  by_cases hstarts : startsContentLength (line ++ (crlf ++ rest)) = true
  · have htake : (line ++ (crlf ++ rest)).take (hdrEnd - (pos + 1)) =
        line ++ (crlf ++ rest.take (hdrEnd - (pos + 1) - line.length - 2)) := by
      rw [List.take_append, List.take_of_length_le (by omega), List.take_append, List.take_of_length_le]
      · rfl
      · rw [length_crlf]
        omega
    rw [if_pos hstarts, parseContentLength, htake, scan_other h hstarts]
    exact ⟨_, hskip _⟩
  · rw [if_neg hstarts]
    exact ⟨_, hskip _⟩

theorem find_others {hdrEnd : Nat} {lines : List Bytes} (h : ∀ line ∈ lines, OtherLine line) (rest : Bytes) :
    ∀ (pos : Nat) (status : Status), pos + (linesText lines).length < hdrEnd →
      ∃ status', findContentLength hdrEnd pos status (10 :: (linesText lines ++ rest)) =
        findContentLength hdrEnd (pos + (linesText lines).length) status' (10 :: rest) := by
  induction lines with
  | nil => exact fun pos status _ => ⟨status, rfl⟩
  | cons line lines ih =>
    intro pos status hpos
    have hlen : (linesText (line :: lines)).length = line.length + 2 + (linesText lines).length := by
      rw [linesText_cons, List.length_append, List.length_append, length_crlf]
      omega
    rw [hlen] at hpos ⊢
    obtain ⟨status', hfirst⟩ := find_other (h line List.mem_cons_self) (by omega : pos + (line.length + 2) < hdrEnd)
      status (linesText lines ++ rest)
    obtain ⟨status'', hrest⟩ := ih (fun l hl => h l (List.mem_cons_of_mem line hl)) (pos + (line.length + 2)) status'
      (by omega)
    refine ⟨status'', ?_⟩
    rw [linesText_cons, List.append_assoc, List.append_assoc, hfirst, hrest, Nat.add_assoc]

/-! The Content-Length header itself. -/

namespace ContentLength

/-- What stands between the colon and the digits. -/
def gap (cl : ContentLength) : Bytes :=
  match cl.fold with
  | none => cl.behind
  | some l => cl.behind ++ (crlf ++ l)

theorem text (cl : ContentLength) : linesText cl.lines =
    cl.name ++ (cl.before ++ 58 :: (cl.gap ++ (cl.digits ++ (cl.trailing ++ crlf)))) := by
  unfold lines gap
  cases cl.fold with
  | none => simp only [linesText, List.flatMap_cons, List.flatMap_nil, List.append_assoc, List.cons_append, List.append_nil]
  | some l =>
    simp only [linesText, List.flatMap_cons, List.flatMap_nil, List.append_assoc, List.cons_append, List.append_nil]

theorem skip_gap (cl : ContentLength) {d : UInt8} (hd : isDigit d = true) (t : Bytes) :
    skipHeader (cl.gap ++ d :: t) = d :: t := by
  obtain ⟨hspace, hnewline, -⟩ := digit_plain hd
  unfold gap
  cases hfold : cl.fold with
  | none => exact skipHeader_spaces cl.hbehind hspace hnewline t
  | some l =>
    obtain ⟨hne, hl⟩ := cl.hfold l hfold
    dsimp only
    rw [List.append_assoc, List.append_assoc]
    exact skipHeader_fold cl.hbehind hne hl hspace t

/-- The name is `Content-Length` or `l`. -/
theorem name_cases (cl : ContentLength) : ∃ c rest, cl.name = c :: rest ∧ isSpace c = false ∧ isNewline c = false ∧
    ((c = 67 ∨ c = 99) ∧ rest.length = 13 ∧ cl.name.map toLower = ascii "content-length" ∨
      (c = 108 ∨ c = 76) ∧ rest = []) := by
  rcases isContentLengthName_iff.mp cl.hname with hlong | hshort
  · have hlen := congrArg List.length hlong
    rw [List.length_map] at hlen
    have hfourteen : (ascii "content-length").length = 14 := by
      rw [ascii_lower_contentLength]
      rfl
    cases hname : cl.name with
    | nil =>
      rw [hname] at hlen
      exact absurd (hlen.trans hfourteen) (by decide)
    | cons c rest =>
      rw [hname] at hlen hlong
      have hmem : toLower c ∈ ascii "content-length" := by
        rw [← hlong]
        exact List.mem_cons_self
      obtain ⟨hspace, hnewline, -⟩ := contentLength_plain hmem
      have hfirst : toLower c = 99 := by
        have hhead := congrArg (fun l : Bytes => l.headD 0) hlong
        exact hhead.trans (by decide)
      rw [List.length_cons, hfourteen] at hlen
      exact ⟨c, rest, rfl, hspace, hnewline, .inl ⟨letter_of_lower.1.mp hfirst, Nat.succ.inj hlen, hlong⟩⟩
  · have hone : ascii "l" = [108] := by decide
    rw [hone] at hshort
    cases hname : cl.name with
    | nil =>
      rw [hname] at hshort
      cases hshort
    | cons c rest =>
      rw [hname, List.map_cons] at hshort
      obtain ⟨hc, hrest⟩ := List.cons.inj hshort
      have hletter := letter_of_lower.2.mp hc
      refine ⟨c, rest, rfl, ?_, ?_, .inr ⟨hletter, List.map_eq_nil_iff.mp hrest⟩⟩
      · rcases hletter with rfl | rfl
        · decide
        · decide
      · rcases hletter with rfl | rfl
        · decide
        · decide

theorem starts (cl : ContentLength) (rest : Bytes) : startsContentLength (linesText cl.lines ++ rest) = true := by
  rw [cl.text, startsContentLength, Bool.or_eq_true, Bool.and_eq_true, Bool.and_eq_true, Bool.or_eq_true, Bool.or_eq_true,
    Bool.or_eq_true, Bool.or_eq_true]
  simp only [beq_iff_eq, compareN_contentLength]
  obtain ⟨c, name, hname, -, -, ⟨hfirst, hlen, hlower⟩ | ⟨hfirst, rfl⟩⟩ := cl.name_cases
  · refine .inl ⟨?_, ?_⟩
    · rw [hname]
      exact hfirst
    · have hfourteen : cl.name.length = 14 := by
        rw [hname, List.length_cons, hlen]
      rw [List.append_assoc, List.take_left' hfourteen, hlower]
  · refine .inr ⟨?_, ?_⟩
    · rw [hname]
      exact hfirst
    · rw [hname, List.append_assoc]
      change ((cl.before ++ _ ++ rest).headD 0 = 32 ∨ (cl.before ++ _ ++ rest).headD 0 = 9) ∨
        (cl.before ++ _ ++ rest).headD 0 = 58
      cases hbefore : cl.before with
      | nil => exact .inr rfl
      | cons d before =>
        have hspace := cl.hbefore d (by rw [hbefore]; exact List.mem_cons_self)
        rw [isSpace, Bool.or_eq_true, beq_iff_eq, beq_iff_eq] at hspace
        exact .inl hspace

theorem scan (cl : ContentLength) {rest : Bytes} (hnext : isSpace (rest.headD 0) = false) :
    scanContentLength (linesText cl.lines ++ rest) = some cl.digits := by
  obtain ⟨hne, hdigits⟩ := cl.hdigits
  obtain ⟨c, name, hname, hcspace, hcnewline, hcases⟩ := cl.name_cases
  have htext : linesText cl.lines ++ rest =
      cl.name ++ (cl.before ++ 58 :: (cl.gap ++ (cl.digits ++ (cl.trailing ++ (crlf ++ rest))))) := by
    rw [cl.text]
    simp only [List.append_assoc, List.cons_append]
  have hcount : (if c = 67 ∨ c = 99 then 14 else 1) = cl.name.length := by
    rcases hcases with ⟨hfirst, hlen, -⟩ | ⟨hfirst, rfl⟩
    · rw [if_pos hfirst, hname, List.length_cons, hlen]
    · have hnot : ¬ (c = 67 ∨ c = 99) := by
        rcases hfirst with rfl | rfl
        · decide
        · decide
      rw [if_neg hnot, hname]
      rfl
  have hstart : skipHeader (linesText cl.lines ++ rest) = linesText cl.lines ++ rest := by
    rw [htext, hname, List.cons_append]
    exact skipHeader_cons hcspace hcnewline _
  have hhead : (linesText cl.lines ++ rest).headD 0 = c := by
    rw [htext, hname]
    rfl
  have hadvance : advanceN cl.name.length (linesText cl.lines ++ rest) =
      some (58 :: (cl.gap ++ (cl.digits ++ (cl.trailing ++ (crlf ++ rest))))) := by
    have hfits : ¬ (linesText cl.lines ++ rest).length < cl.name.length := by
      rw [htext, List.length_append]
      omega
    rw [advanceN, if_neg hfits, htext, List.drop_left]
    exact congrArg some (skipHeader_spaces cl.hbefore (by decide) (by decide) _)
  have hget : get isDigit (cl.digits ++ (cl.trailing ++ (crlf ++ rest))) = some (cl.digits, crlf ++ rest) := by
    have hstop : isDigit ((cl.trailing ++ (crlf ++ rest)).headD 0) = false := by
      cases htrailing : cl.trailing with
      | nil => rfl
      | cons d trailing =>
        have hspace := cl.htrailing d (by rw [htrailing]; exact List.mem_cons_self)
        refine Bool.eq_false_iff.mpr fun hdigit => ?_
        rw [List.cons_append, List.headD_cons] at hdigit
        rw [(digit_plain hdigit).1] at hspace
        cases hspace
    have hsplit : (cl.digits ++ (cl.trailing ++ (crlf ++ rest))).takeWhile isDigit = cl.digits ∧
        (cl.digits ++ (cl.trailing ++ (crlf ++ rest))).dropWhile isDigit = cl.trailing ++ (crlf ++ rest) := by
      rw [List.takeWhile_append_of_pos hdigits, List.dropWhile_append_of_pos hdigits]
      cases hmore : cl.trailing ++ (crlf ++ rest) with
      | nil => exact ⟨List.append_nil _, rfl⟩
      | cons d more =>
        rw [hmore, List.headD_cons] at hstop
        have hd : ¬ isDigit d = true := by
          rw [hstop]
          exact Bool.false_ne_true
        rw [List.takeWhile_cons_of_neg hd, List.dropWhile_cons_of_neg hd, List.append_nil]
        exact ⟨rfl, rfl⟩
    have hcond : ¬ (cl.digits ++ (cl.trailing ++ (crlf ++ rest)) = [] ∨
        isDigit ((cl.digits ++ (cl.trailing ++ (crlf ++ rest))).headD 0) = false) := by
      cases hcl : cl.digits with
      | nil => exact absurd hcl hne
      | cons d digits =>
        have hd := hdigits d (by rw [hcl]; exact List.mem_cons_self)
        rw [List.cons_append, List.headD_cons, hd]
        exact fun hyes => hyes.elim (List.cons_ne_nil _ _) nofun
    rw [get, if_neg hcond, hsplit.1, hsplit.2, skipHeader_lineEnd cl.htrailing hnext]
  have hcolon : getChar (58 :: (cl.gap ++ (cl.digits ++ (cl.trailing ++ (crlf ++ rest))))) =
      some (58, cl.digits ++ (cl.trailing ++ (crlf ++ rest))) := by
    cases hcl : cl.digits with
    | nil => exact absurd hcl hne
    | cons d digits =>
      have hd := hdigits d (by rw [hcl]; exact List.mem_cons_self)
      rw [getChar, if_neg (by decide), List.cons_append, cl.skip_gap hd]
  have hnewline : getNewline (crlf ++ rest) = some rest := rfl
  unfold scanContentLength
  rw [hhead, hcount, hstart, hadvance, Option.bind_eq_bind, Option.bind_some, hcolon, Option.bind_eq_bind, Option.bind_some]
  dsimp only
  rw [if_neg (fun h => h rfl), hget, Option.bind_eq_bind, Option.bind_some]
  dsimp only
  rw [hnewline, Option.bind_some]

end ContentLength

theorem strtoiValidate_digits {digits : Bytes} (hne : digits ≠ []) (h : ∀ c ∈ digits, isDigit c = true) {n maxVal : Nat}
    (hn : Sdp.number digits = n) (hmax : n ≤ maxVal) (hlong : maxVal ≤ 0x7FFFFFFF) :
    strtoiValidate digits 0 maxVal = some (n : Int) := by
  cases digits with
  | nil => exact absurd rfl hne
  | cons c t =>
    obtain ⟨-, -, hspace, hplus, hminus, -⟩ := digit_plain (h c List.mem_cons_self)
    have hspace' : ¬ Sdp.isspace c = true := by
      rw [hspace]
      exact Bool.false_ne_true
    have hsmall : n < 0x100000000 := by omega
    have hfits : n ≤ maxLong := by
      change n ≤ 0x7FFFFFFF
      omega
    have hul : strtoul3 (c :: t) = some (n, true) := by
      rw [strtoul3, List.dropWhile_cons_of_neg hspace', List.headD_cons]
      dsimp only
      rw [if_pos (h c List.mem_cons_self), List.takeWhile_eq_self_iff.mpr h, hn, if_pos hsmall]
    have hminus' : (c == 45) = false := beq_eq_false_iff_ne.mpr hminus
    have hl : strtol2 (c :: t) = some ((n : Int), true) := by
      unfold strtol2
      rw [List.dropWhile_cons_of_neg hspace']
      dsimp only
      rw [if_neg (not_or.mpr ⟨hplus, hminus⟩), hul, hminus', Option.map_some]
      dsimp only
      rw [if_neg (by decide), if_neg (by omega), if_neg fun h => absurd h.2 Bool.false_ne_true, if_neg (by decide)]
    rw [strtoiValidate, hl]
    dsimp only
    rw [if_neg]
    rintro (hneg | hbig | hbad)
    · omega
    · omega
    · cases hbad

theorem Spaces.plain {l : Bytes} (h : Spaces l) {c : UInt8} (hc : c ∈ l) : isNewline c = false :=
  not_newline_of_isSpace (h c hc)

theorem ContentLength.isLine (cl : ContentLength) {line : Bytes} (h : line ∈ cl.lines) : IsLine line := by
  have hname : ∀ c ∈ cl.name, isNewline c = false := by
    intro c hc
    have hmem := List.mem_map_of_mem (f := toLower) hc
    rcases isContentLengthName_iff.mp cl.hname with hlong | hshort
    · rw [hlong] at hmem
      exact (contentLength_plain hmem).2.1
    · have hone : ascii "l" = [108] := by decide
      rw [hshort, hone] at hmem
      rcases letter_of_lower.2.mp (List.mem_singleton.mp hmem) with rfl | rfl
      · decide
      · decide
  have hfirst : ∀ more : Bytes, (∀ c ∈ more, isNewline c = false) → IsLine (cl.name ++ cl.before ++ 58 :: more) := by
    intro more hmore
    refine ⟨List.append_ne_nil_of_right_ne_nil _ (List.cons_ne_nil 58 more), fun c hc => ?_⟩
    rcases List.mem_append.mp hc with hc | hc
    · rcases List.mem_append.mp hc with hc | hc
      · exact hname c hc
      · exact cl.hbefore.plain hc
    · rcases List.mem_cons.mp hc with rfl | hc
      · decide
      · exact hmore c hc
  have hlast : ∀ c ∈ cl.digits ++ cl.trailing, isNewline c = false := by
    intro c hc
    rcases List.mem_append.mp hc with hc | hc
    · exact (digit_plain (cl.hdigits.2 c hc)).2.1
    · exact cl.htrailing.plain hc
  unfold ContentLength.lines at h
  cases hfold : cl.fold with
  | none =>
    rw [hfold] at h
    obtain rfl := List.mem_singleton.mp h
    refine hfirst _ fun c hc => ?_
    rw [List.append_assoc] at hc
    rcases List.mem_append.mp hc with hc | hc
    · exact cl.hbehind.plain hc
    · exact hlast c hc
  | some l =>
    obtain ⟨hne, hl⟩ := cl.hfold l hfold
    rw [hfold] at h
    rcases List.mem_cons.mp h with rfl | h
    · exact hfirst _ fun c hc => cl.hbehind.plain hc
    · obtain rfl := List.mem_singleton.mp h
      rw [List.append_assoc]
      refine ⟨List.append_ne_nil_of_left_ne_nil hne _, fun c hc => ?_⟩
      rcases List.mem_append.mp hc with hc | hc
      · exact hl.plain hc
      · exact hlast c hc

namespace Message

theorem isLine (m : Message) {line : Bytes} (h : line ∈ m.lines) : IsLine line := by
  rcases List.mem_cons.mp h with rfl | h
  · exact m.hstart
  · rcases List.mem_append.mp h with h | h
    · rcases List.mem_append.mp h with h | h
      · exact (m.hfront line h).1
      · exact m.contentLength.isLine h
    · exact (m.hback line h).1

theorem lines_text (m : Message) : linesText m.lines =
    m.startLine ++ (crlf ++ (linesText m.front ++ (linesText m.contentLength.lines ++ linesText m.back))) := by
  rw [lines, linesText_cons, linesText_append, linesText_append, List.append_assoc]

theorem back_next (m : Message) : isSpace ((linesText m.back).headD 0) = false := by
  cases hback : m.back with
  | nil => rfl
  | cons line more =>
    have hnext := m.hnext line (by rw [hback]; rfl)
    have hline := (m.hback line (by rw [hback]; exact List.mem_cons_self)).1.1
    rw [linesText_cons]
    cases line with
    | nil => exact absurd rfl hline
    | cons c line => exact hnext

theorem length_bytes (m : Message) : m.bytes.length = m.head.length + m.body.length := List.length_append

theorem length_head (m : Message) : m.head.length = (linesText m.lines).length + 2 := by
  rw [head, List.length_append, length_crlf]

theorem lt_maxPktLen (m : Message) : m.bytes.length < maxPktLen := by
  rw [length_bytes]
  exact m.hmax

theorem findContentLength_head (m : Message) (b : Bytes) (status : Status) :
    findContentLength (linesText m.lines).length 0 status (m.head ++ b) = .ok m.body.length := by
  have hnolf : ∀ c ∈ m.startLine ++ [13], c ≠ 10 := by
    intro c hc
    rcases List.mem_append.mp hc with hc | hc
    · exact m.hstart.noLf hc
    · obtain rfl := List.mem_singleton.mp hc
      decide
  have hsplit : m.head ++ b = (m.startLine ++ [13]) ++ 10 :: (linesText m.front ++
      (linesText m.contentLength.lines ++ (linesText m.back ++ (crlf ++ b)))) := by
    rw [head, lines_text]
    simp only [crlf, List.append_assoc, List.cons_append, List.nil_append]
  have hlen : (linesText m.lines).length = m.startLine.length + 2 + ((linesText m.front).length +
      ((linesText m.contentLength.lines).length + (linesText m.back).length)) := by
    rw [lines_text]
    simp only [List.length_append, length_crlf]
    omega
  have hfield : 0 < (linesText m.contentLength.lines).length := by
    rw [m.contentLength.text]
    simp only [List.length_append, List.length_cons]
    omega
  have hstart : 0 + (m.startLine ++ [13]).length = m.startLine.length + 1 := by
    rw [List.length_append, List.length_singleton]
    omega
  have hbefore : m.startLine.length + 1 + (linesText m.front).length < (linesText m.lines).length := by omega
  obtain ⟨status', hothers⟩ := find_others m.hfront
    (linesText m.contentLength.lines ++ (linesText m.back ++ (crlf ++ b))) (m.startLine.length + 1) status hbefore
  have htake : (linesText m.contentLength.lines ++ (linesText m.back ++ (crlf ++ b))).take
      ((linesText m.lines).length - (m.startLine.length + 1 + (linesText m.front).length + 1)) =
      linesText m.contentLength.lines ++ linesText m.back := by
    have hcount : (linesText m.lines).length - (m.startLine.length + 1 + (linesText m.front).length + 1) =
        (linesText m.contentLength.lines ++ linesText m.back).length := by
      rw [List.length_append]
      omega
    rw [hcount, ← List.append_assoc, List.take_left]
  obtain ⟨hne, hdigits⟩ := m.contentLength.hdigits
  have hmax := m.lt_maxPktLen
  rw [length_bytes] at hmax
  have hvalue : strtoiValidate m.contentLength.digits 0 0x7FFFFFFF = some (m.body.length : Int) := by
    have hsmall : m.body.length ≤ 0x7FFFFFFF := by
      change m.head.length + m.body.length < 4000 at hmax
      omega
    exact strtoiValidate_digits hne hdigits m.hsize hsmall le_rfl
  rw [hsplit, findContentLength_skip hnolf, hstart, hothers, findContentLength, if_pos rfl, if_neg (by omega),
    if_pos (m.contentLength.starts _), parseContentLength, htake, m.contentLength.scan m.back_next]
  dsimp only
  rw [hvalue]
  rfl

theorem findMsg_head (m : Message) (b : Bytes) :
    findMsg (m.head ++ b) false =
      (if m.body.length ≤ b.length then .success else .epartialmsg, m.head.length + m.body.length) := by
  have hpos : 1 ≤ (linesText m.lines).length := by
    rw [lines_text]
    simp only [List.length_append, length_crlf]
    omega
  have hend : strstr [10, 13, 10] (m.head ++ b) = some ((linesText m.lines).length - 1) := by
    rw [head, List.append_assoc]
    exact strstr_lines (List.cons_ne_nil _ _) (fun line h => m.isLine h) b
  have hplace : (linesText m.lines).length - 1 + 1 = (linesText m.lines).length := Nat.sub_add_cancel hpos
  rw [findMsg, if_neg Bool.false_ne_true, hend]
  dsimp only
  rw [hplace, m.findContentLength_head]
  dsimp only
  have hsize : (linesText m.lines).length - 1 + 3 + m.body.length = m.head.length + m.body.length := by
    rw [length_head]
    omega
  have hcond : m.head.length + m.body.length ≤ (m.head ++ b).length ↔ m.body.length ≤ b.length := by
    rw [List.length_append]
    omega
  rw [hsize]
  simp only [hcond]

theorem findMsg_bytes (m : Message) (more : Bytes) : findMsg (m.bytes ++ more) false = (.success, m.bytes.length) := by
  have hlong : m.body.length ≤ (m.body ++ more).length := by
    rw [List.length_append]
    exact Nat.le_add_right _ _
  rw [bytes, List.append_assoc, findMsg_head, if_pos hlong, ← List.length_append]

theorem findMsg_prefix (m : Message) {p q : Bytes} (h : p ++ q = m.bytes) (hq : q ≠ []) :
    (findMsg p false).1 = .epartialmsg := by
  have hlen := congrArg List.length h
  have hpos := List.length_pos_iff.mpr hq
  rw [List.length_append, length_bytes] at hlen
  by_cases hheader : m.head.length ≤ p.length
  · -- the header section is complete
    obtain ⟨b, rfl⟩ : ∃ b, p = m.head ++ b :=
      (List.prefix_of_prefix_length_le ⟨m.body, rfl⟩ ⟨q, h⟩ hheader).imp fun _ h => h.symm
    rw [List.length_append] at hlen
    rw [findMsg_head, if_neg (by omega)]
  · have hend : strstr [10, 13, 10] m.bytes = some ((linesText m.lines).length - 1) := by
      rw [bytes, head, List.append_assoc]
      exact strstr_lines (List.cons_ne_nil _ _) (fun line h => m.isLine h) m.body
    have hnone : strstr [10, 13, 10] p = none := by
      cases hfound : strstr [10, 13, 10] p with
      | none => rfl
      | some k =>
        have hk := strstr_append hfound q
        rw [h, hend] at hk
        have hle := strstr_le hfound
        have hplace := Option.some.inj hk
        have hthree : ([10, 13, 10] : Bytes).length = 3 := rfl
        rw [length_head] at hheader
        omega
    rw [findMsg, if_neg Bool.false_ne_true, hnone]

end Message

end PjProject.Sip
