import PjProject.Xml

/-! The XML parser comes to an end on every input: every loop takes a byte in each turn. -/

namespace PjProject.Xml

open Scan.Input

theorem ends_skipPi {n : Nat} {l : List UInt8} (h : l.length + 1 ≤ n) :
    (skipPi n l).Ends fun l' => l'.length ≤ l.length := by
  induction n generalizing l with
  | zero => cases h
  | succ n ih =>
    rw [skipPi]
    refine (ends_getUntil _ l).bind ?_
    rintro ⟨_, l1⟩ (h1 : l1.length ≤ l.length)
    show (if _ then _ else _ : Result (List UInt8)).Ends _
    split
    · exact (ends_advanceN 2 true l1).mono fun l2 h2 => by omega
    · refine (ends_advanceN 1 false l1).bind fun l2 h2 => ?_
      exact (ih (by omega)).mono fun l3 h3 => by omega

theorem ends_skipComment {n : Nat} {l : List UInt8} (h : l.length + 1 ≤ n) :
    (skipComment n l).Ends fun l' => l'.length ≤ l.length := by
  induction n generalizing l with
  | zero => cases h
  | succ n ih =>
    rw [skipComment]
    refine (ends_getUntil _ l).bind ?_
    rintro ⟨_, l1⟩ (h1 : l1.length ≤ l.length)
    refine (ends_startsWith _ l1).bind fun found _ => ?_
    cases found with
    | true => exact (ends_advanceN 1 true l1).mono fun l2 h2 => by omega
    | false =>
      refine (ends_advanceN 1 false l1).bind fun l2 h2 => ?_
      exact (ih (by omega)).mono fun l3 h3 => by omega

theorem ends_skipMisc {n : Nat} {l : List UInt8} (h : l.length + 1 ≤ n) :
    (skipMisc n l).Ends fun l' => l'.length ≤ l.length := by
  induction n generalizing l with
  | zero => cases h
  | succ n ih =>
    rw [skipMisc]
    split
    · exact .error
    · split
      · refine (ends_advanceN 2 false l).bind fun l1 h1 => ?_
        refine (ends_skipPi le_rfl).bind fun l2 h2 => ?_
        exact (ih (by omega)).mono fun l3 h3 => by omega
      · refine (ends_startsWith _ l).bind fun found _ => ?_
        cases found with
        | true =>
          refine (ends_advanceN 2 false l).bind fun l1 h1 => ?_
          refine (ends_skipComment le_rfl).bind fun l2 h2 => ?_
          exact (ih (by omega)).mono fun l3 h3 => by omega
        | false => exact .ok le_rfl

theorem ends_parseAttrValue (l : List UInt8) :
    (parseAttrValue l).Ends fun x => x.2.length ≤ l.length ∧ (peek l = 61 → x.2.length < l.length) := by
  rw [parseAttrValue]
  split
  · refine (ends_getChar l).bind ?_
    rintro ⟨_, l1⟩ (h1 : l1.length < l.length)
    refine (ends_getQuotes _ l1).bind ?_
    rintro ⟨value, l2⟩ (h2 : l2.length ≤ l1.length)
    have hlt : l2.length < l.length := Nat.lt_of_le_of_lt h2 h1
    exact .ok ⟨Nat.le_of_lt hlt, fun _ => hlt⟩
  · rename_i hne
    exact .ok ⟨le_rfl, fun heq => absurd heq hne⟩

/-- The name of an attribute takes a byte, unless the value follows at once. -/
theorem ends_attrName {l : List UInt8} (h : peek l ≠ 62) :
    (Result.ofOption (getUntilChr (ascii "=> \t\r\n") l)).Ends
      fun x => x.2.length < l.length ∨ (x.2.length ≤ l.length ∧ peek x.2 = 61) := by
  cases l with
  | nil => exact .error
  | cons c more =>
    have hstop : ∀ d : UInt8, (ascii "=> \t\r\n").contains d = true → d = 61 ∨ d = 62 ∨ isBlank d = true := by
      intro d hd
      have hmem : d = 61 ∨ d = 62 ∨ d = 32 ∨ d = 9 ∨ d = 13 ∨ d = 10 := by
        simpa [ascii] using hd
      rcases hmem with rfl | rfl | rfl | rfl | rfl | rfl <;> decide
    rw [getUntilChr, getUntil, if_neg (List.cons_ne_nil c more)]
    apply Result.Ends.ok
    by_cases hc : (ascii "=> \t\r\n").contains c = true
    · rw [List.takeWhile_cons_of_neg (by rw [hc]; decide)]
      show (skip (c :: more)).length < _ ∨ _
      rcases hstop c hc with rfl | rfl | hblank
      · right
        show (skip (61 :: more)).length ≤ _ ∧ peek (skip (61 :: more)) = 61
        rw [skip_cons_of_not_blank (by decide)]
        exact ⟨le_rfl, rfl⟩
      · exact absurd rfl h
      · left
        rw [show skip (c :: more) = skip more from List.dropWhile_cons_of_pos hblank]
        exact Nat.lt_succ_of_le (length_skip_le more)
    · left
      rw [List.takeWhile_cons_of_pos (by simpa using hc)]
      show (skip ((c :: more).drop (_ + 1))).length < _
      exact Nat.lt_succ_of_le (Nat.le_trans (length_skip_le _) (by simp))

theorem ends_parseAttrs {n : Nat} {l : List UInt8} (h : l.length + 1 ≤ n) :
    (parseAttrs n l).Ends fun x => x.2.length ≤ l.length := by
  induction n generalizing l with
  | zero => cases h
  | succ n ih =>
    rw [parseAttrs]
    split
    · rename_i hpeek
      refine (ends_attrName hpeek.1).bind ?_
      rintro ⟨name, l1⟩ h1
      refine (ends_parseAttrValue l1).bind ?_
      rintro ⟨value, l2⟩ h2
      have hlt : l2.length < l.length := by
        rcases h1 with h1 | h1
        · exact Nat.lt_of_le_of_lt h2.1 h1
        · exact Nat.lt_of_lt_of_le (h2.2 h1.2) h1.1
      refine (ih (l := l2) (by omega)).bind ?_
      rintro ⟨more, l3⟩ (h3 : l3.length ≤ l2.length)
      exact .ok (by show l3.length ≤ l.length; omega)
    · exact .ok le_rfl

theorem ends_cdataEnd {n : Nat} {l : List UInt8} (h : l.length + 1 ≤ n) :
    (cdataEnd n l).Ends fun l' => l'.length ≤ l.length := by
  induction n generalizing l with
  | zero => cases h
  | succ n ih =>
    rw [cdataEnd]
    refine (ends_startsWith _ l).bind fun found _ => ?_
    cases found with
    | true => exact .ok le_rfl
    | false =>
      refine (ends_advanceN 1 false l).bind fun l1 h1 => ?_
      refine (ends_getUntil _ l1).bind ?_
      rintro ⟨_, l2⟩ (h2 : l2.length ≤ l1.length)
      exact (ih (by omega)).mono fun l3 h3 => by omega

theorem ends_parseText (l : List UInt8) : (parseText l).Ends fun x => x.2.length ≤ l.length := by
  rw [parseText]
  split
  · exact ends_getUntil _ l
  · exact .ok le_rfl

theorem ends_parseCdata (content l : List UInt8) : (parseCdata content l).Ends fun x => x.2.length ≤ l.length := by
  rw [parseCdata]
  split
  · refine (ends_startsWith _ l).bind fun found _ => ?_
    cases found with
    | true =>
      refine (ends_advanceN 9 false l).bind fun l1 h1 => ?_
      refine (ends_getUntil _ l1).bind ?_
      rintro ⟨_, l2⟩ (h2 : l2.length ≤ l1.length)
      refine (ends_cdataEnd le_rfl).bind fun l3 h3 => ?_
      refine (ends_advanceN 3 true l3).bind fun l4 h4 => ?_
      exact .ok (by show l4.length ≤ l.length; omega)
    | false => exact .ok le_rfl
  · exact .ok le_rfl

theorem ends_expectChar (c : UInt8) (l : List UInt8) : (expectChar c l).Ends fun l' => l'.length < l.length := by
  rw [expectChar]
  refine (ends_getChar l).bind ?_
  rintro ⟨d, l1⟩ (h1 : l1.length < l.length)
  show (if _ then _ else _ : Result (List UInt8)).Ends _
  split
  · exact .error
  · exact .ok h1

theorem ends_parseEnd (name l : List UInt8) : (parseEnd name l).Ends fun l' => l'.length ≤ l.length := by
  rw [parseEnd]
  refine (ends_expectChar 60 l).bind fun l1 h1 => ?_
  refine (ends_expectChar 47 l1).bind fun l2 h2 => ?_
  refine (ends_getUntil _ l2).bind ?_
  rintro ⟨endName, l3⟩ (h3 : l3.length ≤ l2.length)
  show (if _ then _ else _ : Result (List UInt8)).Ends _
  split
  · exact .error
  · exact (ends_expectChar 62 l3).mono fun l4 h4 => by omega

/-- The two functions of the parser, by induction on the fuel. -/
theorem ends_parseNode (n : Nat) :
    (∀ recLevel l, 2 * l.length + 1 ≤ n → (parseNode n recLevel l).Ends fun x => x.2.length < l.length) ∧
      (∀ recLevel l, 2 * l.length + 2 ≤ n → (parseNodes n recLevel l).Ends fun x => x.2.length ≤ l.length) := by
  induction n with
  | zero => exact ⟨fun _ _ h => absurd h (by omega), fun _ _ h => absurd h (by omega)⟩
  | succ n ih =>
    refine ⟨fun recLevel l h => ?_, fun recLevel l h => ?_⟩
    · rw [parseNode]
      split
      · exact .error
      refine (ends_skipMisc le_rfl).bind fun l1 h1 => ?_
      refine (ends_getChar l1).bind ?_
      rintro ⟨_, l2⟩ (h2 : l2.length < l1.length)
      refine (ends_getUntil _ l2).bind ?_
      rintro ⟨name, l3⟩ (h3 : l3.length ≤ l2.length)
      refine (ends_parseAttrs le_rfl).bind ?_
      rintro ⟨attrs, l4⟩ (h4 : l4.length ≤ l3.length)
      have hlt : l4.length < l.length := by omega
      show (if _ then _ else _ : Result (Node × List UInt8)).Ends _
      split
      · refine (ends_getChar l4).bind ?_
        rintro ⟨_, l5⟩ (h5 : l5.length < l4.length)
        refine (ends_expectChar 62 l5).bind fun l6 h6 => ?_
        exact .ok (by show l6.length < l.length; omega)
      · refine (ends_expectChar 62 l4).bind fun l5 h5 => ?_
        refine (ih.2 (recLevel + 1) l5 (by omega)).bind ?_
        rintro ⟨children, l6⟩ (h6 : l6.length ≤ l5.length)
        refine (ends_parseText l6).bind ?_
        rintro ⟨text, l7⟩ (h7 : l7.length ≤ l6.length)
        refine (ends_parseCdata text l7).bind ?_
        rintro ⟨content, l8⟩ (h8 : l8.length ≤ l7.length)
        refine (ends_parseEnd name l8).bind fun l9 h9 => ?_
        exact .ok (by show l9.length < l.length; omega)
    · rw [parseNodes]
      split
      · refine (ih.1 recLevel l (by omega)).bind ?_
        rintro ⟨node, l1⟩ (h1 : l1.length < l.length)
        refine (ih.2 recLevel l1 (by omega)).bind ?_
        rintro ⟨more, l2⟩ (h2 : l2.length ≤ l1.length)
        exact .ok (by show l2.length ≤ l.length; omega)
      · exact .ok le_rfl

/-- `pj_xml_parse` ends with a tree or with `NULL`. -/
theorem xmlParse_ends (msg : List UInt8) : xmlParse msg = .error ∨ ∃ node, xmlParse msg = .ok node := by
  have hends : (xmlParse msg).Ends fun _ => True := by
    rw [xmlParse]
    split
    · exact .error
    · refine ((ends_parseNode _).1 0 (skip msg) ?_).bind fun _ _ => .ok trivial
      have hle := length_skip_le msg
      omega
  cases hres : xmlParse msg with
  | ok node => exact Or.inr ⟨node, rfl⟩
  | error => exact Or.inl rfl
  | outOfFuel => exact absurd hres hends.ne_outOfFuel

end PjProject.Xml
