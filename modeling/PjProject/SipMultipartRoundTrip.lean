import PjProject.SipMultipartHdr

/-! A multipart body that is printed and parsed again. The search for the delimiter comes to the delimiters that were printed,
and a part is split where its headers end. -/

namespace PjProject.Multipart

open Sip (Bytes strstr)
open SipUriCmp (Param paramFind)
open MsgPrint (Str Media Printer PartHdr Body Parts crlf delimiter partLines ended printMediaType printBody)

/-! Reading the buffer. -/

section Reading

variable {buf front back : Bytes} {c : UInt8}

theorem byte_at (hbuf : buf = front ++ c :: back) {p : Nat} (hp : p = front.length) : buf[p]? = some c := by
  rw [hbuf, hp, List.getElem?_append_right le_rfl, Nat.sub_self, List.getElem?_cons_zero]

theorem isAt_at (hbuf : buf = front ++ c :: back) {p : Nat} (hp : p = front.length) {cond : Bool} (hcond : cond = true)
    (d : UInt8) : isAt buf cond p d = some (c == d) := by
  rw [isAt, if_pos hcond, byte_at hbuf hp, Option.map_some]

theorem skipTo_at (stop : UInt8 → Bool) {text : Bytes} (hbuf : buf = front ++ (text ++ c :: back))
    (htext : ∀ d ∈ text, stop d = false) (hstop : stop c = true) (endptr turns : Nat)
    (hend : front.length + text.length < endptr) (hturns : text.length < turns) :
    skipTo buf stop endptr turns front.length = some (front.length + text.length) := by
  induction text generalizing front turns with
  | nil =>
    obtain ⟨turns, rfl⟩ := Nat.exists_eq_add_one_of_ne_zero (Nat.ne_of_gt hturns)
    have hne : ¬front.length = endptr := Nat.ne_of_lt hend
    rw [skipTo, if_neg hne, byte_at hbuf rfl, Option.bind_some, if_pos hstop]
    rfl
  | cons d text ih =>
    obtain ⟨turns, rfl⟩ := Nat.exists_eq_add_one_of_ne_zero (Nat.ne_of_gt (Nat.zero_lt_of_lt hturns))
    rw [List.length_cons] at hend hturns
    have hne : ¬front.length = endptr := by omega
    have hd : ¬stop d = true := by
      rw [htext d List.mem_cons_self]
      exact Bool.false_ne_true
    have hbuf' : buf = (front ++ [d]) ++ (text ++ c :: back) := by rw [hbuf]; simp
    have hmore := ih hbuf' (fun e he => htext e (List.mem_cons_of_mem d he)) turns
      (by rw [List.length_append, List.length_singleton]; omega) (by omega)
    have hlength : (front ++ [d]).length = front.length + 1 := List.length_append
    rw [hlength] at hmore
    rw [skipTo, if_neg hne, byte_at hbuf rfl, Option.bind_some, if_neg hd, hmore, List.length_cons]
    congr 1
    omega

end Reading

/-! The delimiter. -/

theorem not_infix_append {delim a b : Bytes} {c : UInt8} (hc : c ∉ delim) (ha : ¬delim <:+: a) (hb : ¬delim <:+: b) :
    ¬delim <:+: a ++ c :: b := by
  rintro ⟨s, t, h⟩
  rw [List.append_assoc, List.append_eq_append_iff] at h
  rcases h with ⟨x, rfl, h⟩ | ⟨x, rfl, h⟩
  · rw [List.append_eq_append_iff] at h
    rcases h with ⟨y, rfl, -⟩ | ⟨y, rfl, h⟩
    · exact ha ⟨s, y, List.append_assoc _ _ _⟩
    · cases y with
      | nil => exact ha ⟨s, [], by simp⟩
      | cons d y =>
        obtain rfl := (List.cons.inj h).1
        exact hc (by simp)
  · cases x with
    | nil =>
      cases delim with
      | nil => exact ha (List.nil_infix)
      | cons d delim => exact hc (by rw [(List.cons.inj h).1]; exact List.mem_cons_self)
    | cons d x =>
      obtain ⟨rfl, rfl⟩ := List.cons.inj h
      exact hb ⟨x, t, List.append_assoc _ _ _⟩

theorem not_infix_ended {delim : Bytes} (hcr : (13 : UInt8) ∉ delim) (hlf : (10 : UInt8) ∉ delim) (hne : delim ≠ [])
    {lines : List Bytes} (h : ∀ line ∈ lines, ¬delim <:+: line) {text : Bytes} (htext : ¬delim <:+: text) :
    ¬delim <:+: ended lines ++ text := by
  induction lines with
  | nil => exact htext
  | cons line lines ih =>
    rw [ended_cons]
    refine not_infix_append hcr (h line List.mem_cons_self) ?_
    refine not_infix_append (a := []) hlf (fun hnil => hne (List.infix_nil.mp hnil)) ?_
    exact ih fun line' hline' => h line' (List.mem_cons_of_mem _ hline')

theorem not_prefix_append {delim text : Bytes} {c : UInt8} (hc : c ∉ delim) (h : ¬delim <:+: text ++ [c]) (rest : Bytes) :
    delim.isPrefixOf (text ++ c :: rest) = false := by
  rw [Bool.eq_false_iff, Ne, List.isPrefixOf_iff_prefix]
  intro hprefix
  have hall : text ++ [c] <+: text ++ c :: rest := ⟨rest, by simp⟩
  rcases List.prefix_or_prefix_of_prefix hprefix hall with hin | hin
  · exact h hin.isInfix
  · exact hc (hin.subset (by simp))

/-- The delimiter is found behind a text of which it is no part, and that ends with a byte that is not in it. -/
theorem strstr_at {delim text : Bytes} {c : UInt8} (hc : c ∉ delim) (h : ¬delim <:+: text ++ [c]) (back : Bytes) :
    strstr delim (text ++ c :: (delim ++ back)) = some (text.length + 1) := by
  have hfirst := not_prefix_append hc h (delim ++ back)
  induction text with
  | nil =>
    have hfound : strstr delim (delim ++ back) = some 0 := by
      cases delim with
      | nil => exact absurd List.nil_infix h
      | cons d delim =>
        rw [List.cons_append, strstr, if_pos]
        exact List.isPrefixOf_iff_prefix.mpr ⟨back, rfl⟩
    rw [List.nil_append] at hfirst ⊢
    rw [strstr, hfirst, if_neg Bool.false_ne_true, hfound]
    rfl
  | cons d text ih =>
    have hmore : ¬delim <:+: text ++ [c] := fun hin => h (hin.trans (List.infix_cons (List.infix_refl _)))
    rw [List.cons_append] at hfirst ⊢
    rw [strstr, hfirst, if_neg Bool.false_ne_true, ih hmore (not_prefix_append hc hmore _)]
    rfl

/-! The split of a part. -/

def partText (lines : List Bytes) (body : Bytes) : Bytes := ended lines ++ (crlf ++ body)

theorem isAt_of_not (buf : Bytes) {cond : Bool} (hcond : cond = false) (p : Nat) (c : UInt8) :
    isAt buf cond p c = some false := by
  rw [isAt, hcond]
  rfl

theorem length_partText (lines : List Bytes) (body : Bytes) :
    (partText lines body).length = (ended lines).length + 2 + body.length := by
  rw [partText, List.length_append, List.length_append, Nat.add_assoc]
  rfl

/-- A turn of the loop, with what it reads before the line feed. -/
theorem splitHeader_turn {buf : Bytes} {start endptr p q : Nat} {second lf cr crlf : Bool}
    (hskip : skipTo buf (· == 10) endptr (buf.length + 1) p = some q) (hne : q ≠ endptr)
    (hsecond : isAt buf (q = start + 1) (q - 1) 13 = some second) (hlf : isAt buf (start + 1 ≤ q) (q - 1) 10 = some lf)
    (hcr : isAt buf (start + 2 ≤ q) (q - 1) 13 = some cr) (hcrlf : isAt buf cr (q - 2) 10 = some crlf) (turns : Nat) :
    splitHeader buf start endptr (turns + 1) p =
      if q = start ∨ second then some (some start, q + 1)
      else if q + 1 = endptr then some (some endptr, q + 1)
      else if lf ∨ crlf then some (some (if cr then q - 1 else q), q + 1)
      else splitHeader buf start endptr turns (q + 1) := by
  rw [splitHeader, hskip, Option.bind_some, if_neg hne, hsecond, hlf, Option.bind_some, Option.bind_some, hcr,
    Option.bind_some, hcrlf, Option.bind_some]

/-- The header area ends with its last line, or behind the empty line if nothing follows that. -/
theorem splitHeader_lines {lines : List Bytes} (hlines : ∀ line ∈ lines, line ≠ [] ∧ (10 : UInt8) ∉ line)
    {buf front body back : Bytes} (hbuf : buf = front ++ (partText lines body ++ back)) {start endptr : Nat}
    (hstart : front.length = start ∨ start + 2 ≤ front.length ∧ ∃ before, front = before ++ [10])
    (hend : endptr = front.length + (partText lines body).length) {turns : Nat} (hturns : lines.length < turns) :
    ∃ endHdr, splitHeader buf start endptr turns front.length =
        some (some endHdr, front.length + (ended lines).length + 2) ∧
      (endHdr = front.length + (ended lines).length ∨
        endHdr = front.length + (ended lines).length + 2 ∧ (lines ≠ [] ∨ front.length ≠ start)) := by
  rw [length_partText] at hend
  induction lines generalizing front turns with
  | nil =>
    obtain ⟨turns, rfl⟩ := Nat.exists_eq_add_one_of_ne_zero (Nat.ne_of_gt hturns)
    have hzero : (ended []).length = 0 := rfl
    have hcr : buf = front ++ 13 :: (10 :: (body ++ back)) := hbuf
    have hlf : buf = front ++ ([13] ++ 10 :: (body ++ back)) := hbuf
    have hskip := skipTo_at (· == 10) hlf (List.forall_mem_singleton.mpr rfl) (by decide) endptr (buf.length + 1)
      (by rw [List.length_singleton]; omega) (by rw [hcr]; simp)
    have hq : front.length + 1 - 1 = front.length := Nat.add_sub_cancel _ _
    rw [hzero]
    rcases hstart with hfirst | ⟨hlater, before, hbefore⟩
    · rw [splitHeader_turn hskip (by rw [List.length_singleton]; omega) (isAt_at hcr hq (decide_eq_true (by rw [hfirst]; rfl)) 13)
        (isAt_at hcr hq (decide_eq_true (by rw [List.length_singleton]; omega)) 10)
        (isAt_of_not buf (decide_eq_false (by rw [List.length_singleton]; omega)) _ _) (isAt_of_not buf rfl _ _),
        if_pos (.inr rfl)]
      exact ⟨start, rfl, .inl hfirst.symm⟩
    · have hlast : buf = before ++ 10 :: (13 :: 10 :: (body ++ back)) := by
        rw [hcr, hbefore]
        simp
      have hq2 : front.length + 1 - 2 = before.length := by
        rw [hbefore, List.length_append]
        rfl
      rw [splitHeader_turn hskip (by rw [List.length_singleton]; omega)
        (isAt_of_not buf (decide_eq_false (by rw [List.length_singleton]; omega)) _ _)
        (isAt_at hcr hq (decide_eq_true (by rw [List.length_singleton]; omega)) 10)
        (isAt_at hcr hq (decide_eq_true (by rw [List.length_singleton]; omega)) 13) (isAt_at hlast hq2 rfl 10),
        if_neg (by rw [List.length_singleton]; simp; omega)]
      by_cases hnil : front.length + 1 + 1 = endptr
      · exact ⟨endptr, if_pos hnil, .inr ⟨hnil.symm, .inr (by omega)⟩⟩
      · exact ⟨front.length, if_neg hnil, .inl rfl⟩
  | cons line lines ih =>
    obtain ⟨turns, rfl⟩ := Nat.exists_eq_add_one_of_ne_zero (Nat.ne_of_gt (Nat.zero_lt_of_lt hturns))
    obtain ⟨hne, hno⟩ := hlines line List.mem_cons_self
    obtain ⟨init, z, hconcat⟩ := (List.eq_nil_or_concat line).resolve_left hne
    rw [List.concat_eq_append] at hconcat
    subst hconcat
    have hz : (z == 10) = false := beq_false_of_ne fun heq => hno (by rw [heq]; simp)
    have hpart : partText ((init ++ [z]) :: lines) body = init ++ z :: 13 :: 10 :: partText lines body := by
      rw [partText, ended_cons, List.append_assoc]
      rfl
    have hended : (ended ((init ++ [z]) :: lines)).length = init.length + 3 + (ended lines).length := by
      have hcons := ended_cons (init ++ [z]) lines []
      rw [List.append_nil, List.append_nil] at hcons
      rw [hcons, List.length_append, List.length_append, List.length_append]
      have : crlf.length = 2 := rfl
      simp only [List.length_singleton]
      omega
    rw [hended] at hend ⊢
    have hle : start ≤ front.length := by omega
    have hlf : buf = front ++ ((init ++ [z, 13]) ++ 10 :: (partText lines body ++ back)) := by rw [hbuf, hpart]; simp
    have hcr : buf = (front ++ (init ++ [z])) ++ 13 :: 10 :: (partText lines body ++ back) := by rw [hbuf, hpart]; simp
    have hlast : buf = (front ++ init) ++ z :: 13 :: 10 :: (partText lines body ++ back) := by rw [hbuf, hpart]; simp
    have hstop : ∀ d ∈ init ++ [z, 13], (d == 10) = false := by
      intro d hd
      refine beq_false_of_ne ?_
      rintro rfl
      simp only [List.mem_append, List.mem_cons, List.not_mem_nil, or_false] at hd hno
      rcases hd with hd | hd | hd
      · exact hno (.inl hd)
      · exact hno (.inr hd)
      · exact absurd hd (by decide)
    have hskip := skipTo_at (· == 10) hlf hstop (by decide) endptr (buf.length + 1)
      (by simp only [List.length_append, List.length_cons, List.length_nil]; omega) (by rw [hlf]; simp; omega)
    have hlength : (init ++ [z, 13]).length = init.length + 2 := List.length_append
    rw [hlength, ← Nat.add_assoc] at hskip
    have hq : front.length + init.length + 2 - 1 = (front ++ (init ++ [z])).length := by simp; omega
    have hq2 : front.length + init.length + 2 - 2 = (front ++ init).length := by simp
    have hafter := isAt_at hlast hq2 (rfl : true = true) 10
    rw [hz] at hafter
    rw [splitHeader_turn hskip (by omega) (isAt_of_not buf (decide_eq_false (by omega)) _ _)
      (isAt_at hcr hq (decide_eq_true (by omega)) 10) (isAt_at hcr hq (decide_eq_true (by omega)) 13) hafter,
      if_neg (by simp; omega), if_neg (by omega), if_neg (by decide)]
    have hnext : front.length + init.length + 2 + 1 = (front ++ (init ++ [z, 13, 10])).length := by simp; omega
    have hrest : buf = (front ++ (init ++ [z, 13, 10])) ++ (partText lines body ++ back) := by rw [hbuf, hpart]; simp
    obtain ⟨endHdr, hsplit, hcases⟩ := ih (fun line hline => hlines line (List.mem_cons_of_mem _ hline)) hrest
      (.inr ⟨by omega, front ++ (init ++ [z, 13]), by simp⟩) (by omega) (Nat.lt_of_succ_lt_succ hturns)
    have hbody : front.length + (init.length + 3 + (ended lines).length) + 2 =
        (front ++ (init ++ [z, 13, 10])).length + (ended lines).length + 2 := by omega
    rw [hnext, hbody]
    refine ⟨endHdr, hsplit, ?_⟩
    rcases hcases with heq | ⟨heq, -⟩
    · exact .inl (by omega)
    · exact .inr ⟨by omega, .inl (List.cons_ne_nil _ _)⟩

theorem between_at {buf front text back : Bytes} (hbuf : buf = front ++ (text ++ back)) {start endptr : Nat}
    (hstart : start = front.length) (hend : endptr = front.length + text.length) : between buf start endptr = some text := by
  have hle : endptr ≤ buf.length := by
    rw [hbuf, List.length_append, List.length_append]
    omega
  rw [between_eq (by omega) hle, hend, hstart, Nat.add_sub_cancel_left, hbuf, slice_append]

theorem forall_lines {handlers : Handlers} {lines : List Bytes} {medias : List (Option MediaType)}
    (h : List.Forall₂ (Reads handlers) lines medias) : ∀ line ∈ lines, line ≠ [] ∧ (10 : UInt8) ∉ line := by
  induction h with
  | nil => exact nofun
  | cons hline _ ih =>
    refine List.forall_mem_cons.mpr ⟨⟨?_, hline.no_lf⟩, ih⟩
    rintro rfl
    exact absurd hline.starts.2 (by decide)

theorem parsePart_lines {handlers : Handlers} {lines : List Bytes} {medias : List (Option MediaType)}
    (hreads : List.Forall₂ (Reads handlers) lines medias) (ctype : MediaType) {buf front body back : Bytes}
    (hbuf : buf = front ++ (partText lines body ++ back)) {endptr : Nat}
    (hend : endptr = front.length + (partText lines body).length) :
    parsePart handlers ctype buf front.length endptr = some ⟨(lastMedia medias).getD (defaultType ctype), body⟩ := by
  have hturns : lines.length < buf.length + 1 := by
    have hle := length_ended lines
    rw [hbuf, List.length_append, List.length_append, length_partText]
    omega
  obtain ⟨endHdr, hsplit, hcases⟩ := splitHeader_lines (forall_lines hreads) hbuf (.inl rfl) hend hturns
  have hmedia : partMedia handlers buf front.length (some endHdr) = some (lastMedia medias) := by
    rw [partMedia]
    by_cases hne : lines = []
    · subst hne
      cases hreads
      have hnot : ¬front.length < endHdr := by
        rcases hcases with heq | ⟨-, hmore | hmore⟩
        · exact fun hlt => absurd heq (Nat.ne_of_gt hlt)
        · exact absurd rfl hmore
        · exact absurd rfl hmore
      exact if_neg hnot
    · have hpos : 0 < (ended lines).length := Nat.lt_of_lt_of_le (List.length_pos_iff.mpr hne) (length_ended lines)
      have hlt : front.length < endHdr := by rcases hcases with heq | ⟨heq, -⟩ <;> omega
      rw [if_pos hlt]
      rcases hcases with heq | ⟨heq, -⟩
      · have hbuf' : buf = front ++ (ended lines ++ (crlf ++ (body ++ back))) := by
          rw [hbuf, partText, List.append_assoc, List.append_assoc]
        have hparse := parseHeaders_lines hreads hne (.inl rfl)
        rw [List.append_nil] at hparse
        rw [between_at hbuf' rfl heq, Option.bind_some, hparse]
      · have hbuf' : buf = front ++ ((ended lines ++ crlf) ++ (body ++ back)) := by
          rw [hbuf, partText, List.append_assoc, List.append_assoc, List.append_assoc]
        have hlength : endHdr = front.length + (ended lines ++ crlf).length := by
          rw [List.length_append]
          exact heq
        rw [between_at hbuf' rfl hlength, Option.bind_some, parseHeaders_lines hreads hne (.inr rfl)]
  have hbody : (if front.length + (ended lines).length + 2 < endptr then
      between buf (front.length + (ended lines).length + 2) endptr else some []) = some body := by
    rw [length_partText] at hend
    split_ifs with hmore
    · have hbuf' : buf = (front ++ (ended lines ++ crlf)) ++ (body ++ back) := by
        rw [hbuf, partText, List.append_assoc, List.append_assoc, List.append_assoc, List.append_assoc]
      have hlength : (front ++ (ended lines ++ crlf)).length = front.length + (ended lines).length + 2 := by
        rw [List.length_append, List.length_append]
        rfl
      exact between_at hbuf' hlength.symm (by omega)
    · rw [List.length_eq_zero_iff.mp (show body.length = 0 by omega)]
  rw [parsePart, hsplit, Option.bind_some]
  dsimp only
  rw [hmedia, Option.bind_some, hbody, Option.bind_some]

/-! The loop over the parts. -/

theorem startPart_at {buf front back : Bytes} (hbuf : buf = front ++ (crlf ++ back)) :
    startPart buf front.length = some (some (front.length + 2)) := by
  have hcr : buf = front ++ ([] ++ 13 :: 10 :: back) := hbuf
  have hlf : buf = (front ++ [13]) ++ 10 :: back := by rw [hcr]; simp
  have hlength : front.length < buf.length ∧ front.length + 1 ≠ buf.length := by
    rw [hcr]
    simp
  have hskip : skipTo buf (fun c => c != 32 && c != 9) buf.length (buf.length + 1) front.length = some front.length :=
    skipTo_at _ hcr (by simp) (by decide) _ _ hlength.1 (Nat.succ_pos _)
  have hp : front.length + 1 = (front ++ [13]).length := by rw [List.length_append]; rfl
  rw [startPart, hskip, Option.bind_some, if_neg (Nat.ne_of_lt hlength.1), isAt_at hcr rfl rfl, Option.bind_some]
  exact congrArg (Option.map _) (isAt_at hlf hp (decide_eq_true hlength.2) 10)

theorem trimEnd_at {buf front text back : Bytes} (hbuf : buf = front ++ (text ++ (crlf ++ back))) :
    trimEnd buf front.length (front.length + (text ++ crlf).length) = some (front.length + text.length) := by
  have hlength : front.length + (text ++ crlf).length = front.length + text.length + 2 := by
    rw [List.length_append, ← Nat.add_assoc]
    rfl
  have hcr : buf = (front ++ text) ++ 13 :: (10 :: back) := by rw [hbuf]; simp [crlf]
  have hlf : buf = (front ++ text ++ [13]) ++ 10 :: back := by rw [hbuf]; simp [crlf]
  have hp : front.length + text.length + 2 - 1 = (front ++ text ++ [13]).length := by simp; omega
  have hp' : front.length + text.length + 2 - 1 - 1 = (front ++ text).length := by simp
  have hsecond : isAt buf (front.length < front.length + text.length + 2 - 1) (front.length + text.length + 2 - 1 - 1) 13 =
      some true := isAt_at hcr hp' (decide_eq_true (by omega)) 13
  rw [hlength, trimEnd, isAt_at hlf hp (decide_eq_true (by omega)), Option.bind_some]
  exact congrArg (Option.map _) hsecond

theorem search_at {buf front text delim back : Bytes} {c : UInt8} (hbuf : buf = front ++ (text ++ c :: (delim ++ back)))
    (hc : c ∉ delim) (h : ¬delim <:+: text ++ [c]) :
    search buf delim front.length = some (some (front.length + (text.length + 1))) := by
  have hle : front.length ≤ buf.length := by
    rw [hbuf, List.length_append]
    exact Nat.le_add_right _ _
  rw [search, if_pos hle, hbuf, List.drop_left, strstr_at hc h back, Option.map_some]

/-- A part in the text: its delimiter and what stands behind it, up to the next one. -/
def pieceText (delim : Bytes) (piece : List Bytes × Bytes) : Bytes :=
  crlf ++ (delim ++ (crlf ++ partText piece.1 piece.2))

def Apart (delim : Bytes) (piece : List Bytes × Bytes) : Prop :=
  (∀ line ∈ piece.1, ¬delim <:+: line) ∧ ¬delim <:+: piece.2

/-- What the headers and the body of a part come back as. -/
structure Gives (handlers : Handlers) (ctype : MediaType) (delim : Bytes) (piece : List Bytes × Bytes) (part : Part) :
    Prop where
  reads : ∃ medias, List.Forall₂ (Reads handlers) piece.1 medias ∧
    part.contentType = (lastMedia medias).getD (defaultType ctype)
  body : part.body = piece.2
  apart : Apart delim piece

def closing (delim : Bytes) : Bytes := crlf ++ (delim ++ 45 :: 45 :: crlf)

section Loop

variable {handlers : Handlers} {ctype : MediaType} {delim buf front back : Bytes}

theorem not_infix_part (hne : delim ≠ []) (hcr : (13 : UInt8) ∉ delim) (hlf : (10 : UInt8) ∉ delim)
    {piece : List Bytes × Bytes} (h : Apart delim piece) : ¬delim <:+: (partText piece.1 piece.2 ++ [13]) ++ [10] := by
  have hnil : ¬delim <:+: [] := fun hin => hne (List.infix_nil.mp hin)
  have hbody : ¬delim <:+: piece.2 ++ 13 :: ([] ++ 10 :: []) :=
    not_infix_append hcr h.2 (not_infix_append hlf hnil hnil)
  have hempty : ¬delim <:+: [] ++ 13 :: ([] ++ 10 :: (piece.2 ++ 13 :: ([] ++ 10 :: []))) :=
    not_infix_append hcr hnil (not_infix_append hlf hnil hbody)
  have hall := not_infix_ended hcr hlf hne h.1 hempty
  simpa [partText, crlf] using hall

theorem partLoop_piece (hne : delim ≠ []) (hcr : (13 : UInt8) ∉ delim) (hlf : (10 : UInt8) ∉ delim)
    {piece : List Bytes × Bytes} {part : Part} (h : Gives handlers ctype delim piece part)
    (hbuf : buf = front ++ (pieceText delim piece ++ (crlf ++ (delim ++ back)))) (turns : Nat) :
    partLoop handlers ctype buf delim (turns + 1) (front.length + 2) =
      (partLoop handlers ctype buf delim turns ((front ++ pieceText delim piece).length + 2)).map (·.map (part :: ·)) := by
  obtain ⟨lines, body⟩ := piece
  obtain ⟨⟨medias, hreads, hmedia⟩, hbody, hapart⟩ := h
  have hpart : part = ⟨(lastMedia medias).getD (defaultType ctype), body⟩ := by
    cases part
    exact congr (congrArg Part.mk hmedia) hbody
  have hp : front.length + 2 + delim.length = (front ++ (crlf ++ delim)).length := by
    rw [List.length_append, List.length_append, Nat.add_assoc]
    rfl
  have hline : buf = (front ++ (crlf ++ delim)) ++ (crlf ++ (partText lines body ++ (crlf ++ (delim ++ back)))) := by
    rw [hbuf, pieceText]
    simp only [List.append_assoc]
  have hnext : buf = (front ++ (crlf ++ delim)) ++ 13 :: (10 :: (partText lines body ++ (crlf ++ (delim ++ back)))) := hline
  have htext : buf = (front ++ (crlf ++ (delim ++ crlf))) ++ (partText lines body ++ (crlf ++ (delim ++ back))) := by
    rw [hbuf, pieceText]
    simp only [List.append_assoc]
  have hsearchText : buf = (front ++ (crlf ++ (delim ++ crlf))) ++ ((partText lines body ++ [13]) ++ 10 :: (delim ++ back)) := by
    rw [htext]
    simp [crlf]
  have hstart : (front ++ (crlf ++ delim)).length + 2 = (front ++ (crlf ++ (delim ++ crlf))).length := by
    simp only [List.length_append, Nat.add_assoc]
    rfl
  have hsearch := search_at hsearchText hlf (not_infix_part hne hcr hlf hapart)
  have hlength : (partText lines body ++ [13]).length + 1 = (partText lines body ++ crlf).length := by
    simp only [List.length_append, Nat.add_assoc]
    rfl
  rw [hlength] at hsearch
  have hposition : (front ++ (crlf ++ (delim ++ crlf))).length + (partText lines body ++ crlf).length =
      (front ++ pieceText delim (lines, body)).length + 2 := by
    rw [pieceText]
    simp only [List.length_append, Nat.add_assoc]
    rfl
  have hfirst : isAt buf (front.length + 2 + delim.length + 1 < buf.length) (front.length + 2 + delim.length) 45 =
      some false := by
    refine isAt_at hnext hp (decide_eq_true ?_) 45
    rw [hp, hnext]
    simp only [List.length_append, List.length_cons]
    omega
  rw [partLoop, hfirst, Option.bind_some, isAt_of_not buf rfl, Option.bind_some, if_neg Bool.false_ne_true, hp, startPart_at hline,
    Option.bind_some]
  dsimp only
  rw [hstart, hsearch, Option.bind_some]
  dsimp only
  rw [trimEnd_at htext, Option.bind_some, parsePart_lines hreads ctype htext rfl, Option.bind_some, hposition, ← hpart]

theorem partLoop_closing (hbuf : buf = front ++ closing delim) (turns : Nat) :
    partLoop handlers ctype buf delim (turns + 1) (front.length + 2) = some (some []) := by
  have hp : front.length + 2 + delim.length = (front ++ (crlf ++ delim)).length := by
    rw [List.length_append, List.length_append, Nat.add_assoc]
    rfl
  have hp' : front.length + 2 + delim.length + 1 = (front ++ (crlf ++ (delim ++ [45]))).length := by
    rw [hp]
    simp only [List.length_append, Nat.add_assoc]
    rfl
  have hfirst : buf = (front ++ (crlf ++ delim)) ++ 45 :: (45 :: crlf) := by
    rw [hbuf, closing]
    simp only [List.append_assoc]
  have hsecond : buf = (front ++ (crlf ++ (delim ++ [45]))) ++ 45 :: crlf := by
    rw [hbuf, closing]
    simp
  have hmore : front.length + 2 + delim.length + 1 < buf.length := by
    rw [hp', hsecond]
    simp
  have hdash : isAt buf (front.length + 2 + delim.length + 1 < buf.length) (front.length + 2 + delim.length) 45 =
      some true := isAt_at hfirst hp (decide_eq_true hmore) 45
  rw [partLoop, hdash, Option.bind_some, isAt_at hsecond hp' rfl, Option.bind_some]
  exact if_pos rfl

theorem partLoop_pieces (hne : delim ≠ []) (hcr : (13 : UInt8) ∉ delim) (hlf : (10 : UInt8) ∉ delim)
    {pieces : List (List Bytes × Bytes)} {parts : List Part} (h : List.Forall₂ (Gives handlers ctype delim) pieces parts)
    (hbuf : buf = front ++ (pieces.flatMap (pieceText delim) ++ closing delim)) {turns : Nat} (hturns : pieces.length < turns) :
    partLoop handlers ctype buf delim turns (front.length + 2) = some (some parts) := by
  obtain ⟨turns, rfl⟩ := Nat.exists_eq_add_one_of_ne_zero (Nat.ne_of_gt (Nat.zero_lt_of_lt hturns))
  induction h generalizing front turns with
  | nil => exact partLoop_closing hbuf turns
  | @cons piece part pieces parts hpiece hpieces ih =>
    have hall : buf = (front ++ pieceText delim piece) ++ (pieces.flatMap (pieceText delim) ++ closing delim) := by
      rw [hbuf, List.flatMap_cons]
      simp only [List.append_assoc]
    obtain ⟨back, hback⟩ : ∃ back, pieces.flatMap (pieceText delim) ++ closing delim = crlf ++ (delim ++ back) := by
      cases pieces with
      | nil => exact ⟨45 :: 45 :: crlf, rfl⟩
      | cons next pieces =>
        rw [List.flatMap_cons, pieceText]
        simp only [List.append_assoc]
        exact ⟨_, rfl⟩
    have hstep : buf = front ++ (pieceText delim piece ++ (crlf ++ (delim ++ back))) := by
      rw [hall, hback, List.append_assoc]
    rw [List.length_cons] at hturns
    obtain ⟨turns, rfl⟩ := Nat.exists_eq_add_one_of_ne_zero (Nat.ne_of_gt (show 0 < turns by omega))
    rw [partLoop_piece hne hcr hlf hpiece hstep, ih hall turns (by omega)]
    rfl

end Loop

end PjProject.Multipart
