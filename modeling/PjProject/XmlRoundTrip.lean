import PjProject.XmlSafety

/-! What the XML printer prints is parsed back. The printer checks the size of its buffer before every piece; with
a byte to spare all checks pass and it writes the text of the node. -/

namespace PjProject.Xml

open Scan.Input
open Scan (trailing)

/-! The printer in a buffer that is big enough. -/

def attrsText (attrs : List Attr) : List UInt8 := attrs.flatMap attrText

mutual

def nodeText (indent : Nat) : Node → List UInt8
  | .mk name attrs children content =>
    List.replicate indent 32 ++ 60 :: (name ++ (attrsText attrs ++
      if content.isEmpty && children.isEmpty then [32, 47, 62]
      else 62 :: (nodesText indent children ++ (content ++
        ((if children.isEmpty then [] else 10 :: List.replicate indent 32) ++ endTag name)))))

def nodesText (indent : Nat) : List Node → List UInt8
  | [] => []
  | node :: more => 10 :: (nodeText (indent + 1) node ++ nodesText indent more)

end

theorem node_induction {P : Node → Prop}
    (hnode : ∀ name attrs children content, (∀ child ∈ children, P child) → P (.mk name attrs children content))
    (node : Node) : P node :=
  @Node.rec P (fun children => ∀ child ∈ children, P child) hnode
    nofun
    (fun _ _ hhead htail => List.forall_mem_cons.mpr ⟨hhead, htail⟩) node

theorem sizeLeft_eq {len written : Nat} (hlen : len < 0x80000000) (hle : written ≤ len) :
    sizeLeft len written = ((len - written : Nat) : Int) := by
  rw [sizeLeft, Int.bmod_eq_of_le (by omega) (by omega)]
  omega

theorem put_eq {len need : Nat} (hlen : len < 0x80000000) {p : List UInt8} (h : p.length + need ≤ len)
    (piece : List UInt8) : put len need piece p = some (p ++ piece) := by
  rw [put, sizeLeft_eq hlen (by omega), if_neg (by omega)]

theorem length_attrText (attr : Attr) : attr.name.length + attr.value.length + 4 ≤ (attrText attr).length + 3 := by
  rw [attrText, List.length_cons, List.length_append]
  split
  · rename_i hvalue
    rw [hvalue, List.length_nil]
  · simp only [List.length_append, List.length_cons, List.length_nil]
    omega

theorem printAttrs_eq {len : Nat} (hlen : len < 0x80000000) {attrs : List Attr} {p : List UInt8}
    (h : p.length + (attrsText attrs).length + 3 ≤ len) : printAttrs len attrs p = some (p ++ attrsText attrs) := by
  induction attrs generalizing p with
  | nil =>
    rw [printAttrs, attrsText, List.flatMap_nil, List.append_nil]
  | cons attr more ih =>
    have hcons : attrsText (attr :: more) = attrText attr ++ attrsText more := rfl
    have hattr := length_attrText attr
    rw [hcons, List.length_append] at h
    rw [printAttrs, put_eq hlen (by omega)]
    simp only [Option.bind_eq_bind, Option.bind_some]
    rw [ih (by rw [List.length_append]; omega), hcons, List.append_assoc]

def Prints (node : Node) : Prop :=
  ∀ {indent len : Nat}, len < 0x80000000 → (nodeText indent node).length + 1 ≤ len →
    printNode indent len node = some (nodeText indent node)

theorem indent_le_nodeText (indent : Nat) (node : Node) : indent + 4 ≤ (nodeText indent node).length := by
  cases node with
  | mk name attrs children content =>
    rw [nodeText]
    split
    · simp only [List.length_append, List.length_replicate, List.length_cons, List.length_nil]
      omega
    · simp only [endTag, List.length_append, List.length_replicate, List.length_cons, List.length_nil]
      omega

theorem printNodes_eq {children : List Node} (hall : ∀ child ∈ children, Prints child) {indent len : Nat}
    (hlen : len < 0x80000000) {p : List UInt8} (h : p.length + (nodesText indent children).length + 1 ≤ len) :
    printNodes indent len children p = some (p ++ nodesText indent children) := by
  induction children generalizing p with
  | nil =>
    rw [printNodes, nodesText, List.append_nil]
  | cons child more ih =>
    have hpos := indent_le_nodeText (indent + 1) child
    rw [nodesText, List.length_cons, List.length_append] at h
    have hp : (p ++ [10]).length = p.length + 1 := List.length_append
    rw [printNodes, put_eq hlen (by omega)]
    simp only [Option.bind_eq_bind, Option.bind_some]
    rw [sizeLeft_eq hlen (by omega), Int.toNat_natCast,
      hall child List.mem_cons_self (by omega) (by omega)]
    simp only [Option.bind_some]
    rw [ih (fun c hc => hall c (List.mem_cons_of_mem child hc)) (by rw [List.length_append]; omega), nodesText]
    simp

theorem printContent_eq {len : Nat} (hlen : len < 0x80000000) {p content : List UInt8}
    (h : p.length + content.length ≤ len) : printContent len content p = some (p ++ content) := by
  rw [printContent]
  cases content with
  | nil => rw [List.isEmpty_nil, if_pos rfl, List.append_nil]
  | cons c more => rw [List.isEmpty_cons, if_neg Bool.false_ne_true, put_eq hlen h]

theorem putEnd_eq {len indent : Nat} (hlen : len < 0x80000000) {p name : List UInt8} {children : List Node}
    (h : p.length + ((if children.isEmpty then [] else 10 :: List.replicate indent 32) ++ endTag name).length + 1 ≤ len) :
    (if children.isEmpty then put len (name.length + 3) (endTag name) p
      else put len (name.length + 5 + indent) (10 :: (List.replicate indent 32 ++ endTag name)) p) =
      some (p ++ ((if children.isEmpty then [] else 10 :: List.replicate indent 32) ++ endTag name)) := by
  cases children with
  | nil =>
    rw [List.isEmpty_nil, if_pos rfl, List.nil_append] at h
    rw [List.isEmpty_nil, if_pos rfl, if_pos rfl, List.nil_append, put_eq hlen]
    simp only [endTag, List.length_append, List.length_cons, List.length_nil] at h
    omega
  | cons child more =>
    rw [List.isEmpty_cons, if_neg Bool.false_ne_true] at h
    rw [List.isEmpty_cons, if_neg Bool.false_ne_true, if_neg Bool.false_ne_true, List.cons_append, put_eq hlen]
    simp only [endTag, List.length_append, List.length_replicate, List.length_cons, List.length_nil] at h
    omega

theorem prints (node : Node) : Prints node := by
  induction node using node_induction with
  | hnode name attrs children content ih =>
    intro indent len hlen h
    rw [nodeText] at h ⊢
    rw [List.length_append, List.length_replicate, List.length_cons, List.length_append, List.length_append] at h
    have hstart : (List.replicate indent (32 : UInt8) ++ 60 :: name).length = indent + name.length + 1 := by
      simp only [List.length_append, List.length_replicate, List.length_cons]
      omega
    by_cases hempty : (content.isEmpty && children.isEmpty) = true
    · rw [if_pos hempty] at h ⊢
      simp only [List.length_cons, List.length_nil] at h
      rw [printNode, put_eq hlen (by rw [List.length_nil]; omega), List.nil_append]
      simp only [Option.bind_eq_bind, Option.bind_some]
      rw [printAttrs_eq hlen (by omega)]
      simp only [Option.bind_some]
      rw [if_pos hempty, put_eq hlen (by rw [List.length_append]; omega)]
      simp
    · rw [if_neg hempty] at h ⊢
      obtain ⟨close, hclose⟩ : ∃ l, l = (if children.isEmpty then [] else 10 :: List.replicate indent (32 : UInt8)) ++
          endTag name := ⟨_, rfl⟩
      have hpos : 3 ≤ close.length := by
        rw [hclose, endTag]
        simp only [List.length_append, List.length_cons, List.length_nil]
        omega
      rw [← hclose] at h ⊢
      simp only [List.length_cons, List.length_append] at h
      rw [printNode, put_eq hlen (by rw [List.length_nil]; omega), List.nil_append]
      simp only [Option.bind_eq_bind, Option.bind_some]
      rw [printAttrs_eq hlen (by omega)]
      simp only [Option.bind_some]
      rw [if_neg hempty, put_eq hlen (by rw [List.length_append]; omega)]
      simp only [Option.bind_some]
      rw [printNodes_eq ih hlen (by simp only [List.length_append, List.length_cons, List.length_nil] at hstart ⊢; omega)]
      simp only [Option.bind_some]
      rw [printContent_eq hlen (by simp only [List.length_append, List.length_cons, List.length_nil] at hstart ⊢; omega)]
      simp only [Option.bind_some]
      rw [putEnd_eq hlen, ← hclose]
      · simp
      · rw [← hclose]
        simp only [List.length_append, List.length_cons, List.length_nil] at hstart ⊢
        omega

/-! The texts that are read back. -/

/-- No markup, quote or white space. -/
def cleanByte (c : UInt8) : Bool := !(ascii "<>/=\"'").contains c && !isBlank c

def clean (s : List UInt8) : Bool := s.all cleanByte

theorem cleanByte_spec {c : UInt8} (h : cleanByte c = true) :
    (c ≠ 60 ∧ c ≠ 62 ∧ c ≠ 47 ∧ c ≠ 61 ∧ c ≠ 34 ∧ c ≠ 39) ∧ isBlank c = false := by
  rw [cleanByte, Bool.and_eq_true, Bool.not_eq_true', Bool.not_eq_true'] at h
  refine ⟨?_, h.2⟩
  have hmem := h.1
  simp only [ascii, List.contains_eq_mem, decide_eq_false_iff_not] at hmem
  refine ⟨?_, ?_, ?_, ?_, ?_, ?_⟩ <;> rintro rfl <;> exact hmem (by decide)

theorem cleanByte_of_mem {s : List UInt8} (h : clean s = true) {c : UInt8} (hc : c ∈ s) : cleanByte c = true :=
  List.all_eq_true.mp h c hc

theorem notMem_of_clean {s : List UInt8} (h : clean s = true) {c : UInt8} (hc : cleanByte c = false) : c ∉ s :=
  fun hmem => absurd (hc.symm.trans (cleanByte_of_mem h hmem)) Bool.false_ne_true

theorem skip_clean {s : List UInt8} (h : clean s = true) (hne : s ≠ []) (rest : List UInt8) :
    skip (s ++ rest) = s ++ rest := by
  cases s with
  | nil => exact absurd rfl hne
  | cons c more => exact skip_cons_of_not_blank (cleanByte_spec (cleanByte_of_mem h List.mem_cons_self)).2 _

theorem getUntilChr_clean {stop s : List UInt8} (hstop : stop.all (fun d => !cleanByte d) = true) (hs : clean s = true)
    {c : UInt8} (hc : stop.contains c = true) (rest : List UInt8) :
    getUntilChr stop (s ++ c :: rest) = some (s, skip (c :: rest)) := by
  refine getUntil_append (fun b hb => ?_) hc rest
  rw [Bool.eq_false_iff]
  intro hmem
  have hnot := List.all_eq_true.mp hstop b (List.contains_iff_mem.mp hmem)
  rw [cleanByte_of_mem hs hb] at hnot
  exact absurd hnot (by decide)

/-! Attributes. -/

/-- The attributes that are read back. One without a name has a value, and does not follow one without a value:
the parser would take the value for the earlier name. -/
def attrsPrintable (bare : Bool) : List Attr → Bool
  | [] => true
  | attr :: more =>
    clean attr.name && clean attr.value && decide (trailing attr.value % 2 = 0) &&
      (attr.name != [] || (attr.value != [] && !bare)) && attrsPrintable (attr.value == []) more

theorem attrsPrintable_cons {bare : Bool} {attr : Attr} {more : List Attr}
    (h : attrsPrintable bare (attr :: more) = true) :
    clean attr.name = true ∧ clean attr.value = true ∧ trailing attr.value % 2 = 0 ∧
      (attr.name ≠ [] ∨ attr.value ≠ [] ∧ bare = false) ∧ attrsPrintable (attr.value == []) more = true := by
  simpa [attrsPrintable, and_assoc] using h

/-- What stands behind an attribute name: the value, or nothing. -/
def valueText (value : List UInt8) : List UInt8 := if value = [] then [] else [61, 34] ++ value ++ [34]

theorem skip_attrText {bare : Bool} {attr : Attr} {more : List Attr} (h : attrsPrintable bare (attr :: more) = true)
    (rest : List UInt8) : skip (attrText attr ++ rest) = attr.name ++ (valueText attr.value ++ rest) := by
  obtain ⟨hname, -, -, hne, -⟩ := attrsPrintable_cons h
  have hsplit : attrText attr ++ rest = 32 :: (attr.name ++ (valueText attr.value ++ rest)) := by
    simp [attrText, valueText]
  have hblank : ∀ l, skip (32 :: l) = skip l := fun l => List.dropWhile_cons_of_pos (by decide)
  rw [hsplit, hblank]
  by_cases hnil : attr.name = []
  · have hvalue := hne.resolve_left (not_not.mpr hnil)
    rw [hnil, List.nil_append, valueText, if_neg hvalue.1]
    exact skip_cons_of_not_blank (by decide) _
  · exact skip_clean hname hnil _

/-- What can follow an attribute: the next one or the end of the tag. -/
theorem attrsText_head {attrs : List Attr} {tail : List UInt8}
    (htail : ∃ c rest, tail = c :: rest ∧ (ascii "=> \t\r\n").contains c = true) :
    ∃ c rest, attrsText attrs ++ tail = c :: rest ∧ (ascii "=> \t\r\n").contains c = true := by
  cases attrs with
  | nil => exact htail
  | cons attr more => exact ⟨32, _, rfl, by decide⟩

theorem peek_attrsText {attrs : List Attr} (h : attrsPrintable true attrs = true) {tail : List UInt8}
    (htail : peek (skip tail) ≠ 61) : peek (skip (attrsText attrs ++ tail)) ≠ 61 := by
  cases attrs with
  | nil => exact htail
  | cons attr more =>
    obtain ⟨hname, -, -, hne, -⟩ := attrsPrintable_cons h
    have hname' : attr.name ≠ [] := hne.resolve_right fun hbare => absurd hbare.2 (by decide)
    have hcons : attrsText (attr :: more) = attrText attr ++ attrsText more := rfl
    rw [hcons, List.append_assoc, skip_attrText h]
    cases hn : attr.name with
    | nil => exact absurd hn hname'
    | cons c rest =>
      rw [hn] at hname
      exact (cleanByte_spec (cleanByte_of_mem hname List.mem_cons_self)).1.2.2.2.1

theorem parseAttrValue_text {value : List UInt8} (hvalue : clean value = true) (heven : trailing value % 2 = 0)
    {rest : List UInt8} (hrest : value = [] → peek (skip rest) ≠ 61) :
    parseAttrValue (skip (valueText value ++ rest)) = .ok (value, skip rest) := by
  by_cases hne : value = []
  · rw [hne, valueText, if_pos rfl, List.nil_append, parseAttrValue, if_neg (hrest hne)]
  · have hquote := notMem_of_clean hvalue (c := 34) (by decide)
    have hnewline := notMem_of_clean hvalue (c := 10) (by decide)
    have hsplit : [61, 34] ++ value ++ [34] ++ rest = 61 :: 34 :: (value ++ 34 :: rest) := by simp
    have hpeek : peek (61 :: 34 :: (value ++ 34 :: rest)) = 61 := rfl
    have hbody : (34 :: (value ++ [34])).tail.dropLast = value := by simp
    rw [valueText, if_neg hne, hsplit, skip_cons_of_not_blank (by decide), parseAttrValue, if_pos hpeek,
      getChar_cons (by decide), skip_cons_of_not_blank (by decide)]
    simp only [Result.ofOption_some, Result.ok_bind]
    have hfront : trailing ([] ++ value) % 2 = 0 := heven
    have hclose : Scan.Scanner.closeQuote 34 [] (value ++ 34 :: rest) = some value.length :=
      closeQuote_append hquote hnewline hfront rest
    rw [getQuotes_append rfl hclose]
    simp only [Result.ofOption_some, Result.ok_bind, hbody]

theorem parseAttrs_text {attrs : List Attr} {bare : Bool} (h : attrsPrintable bare attrs = true) {tail : List UInt8}
    (htail : ∃ c rest, tail = c :: rest ∧ (ascii "=> \t\r\n").contains c = true)
    (hend : peek (skip tail) = 62 ∨ peek (skip tail) = 47) {n : Nat} (hn : attrs.length + 1 ≤ n) :
    parseAttrs n (skip (attrsText attrs ++ tail)) = .ok (attrs, skip tail) := by
  induction attrs generalizing bare n with
  | nil =>
    obtain ⟨n, rfl⟩ : ∃ m, n = m + 1 := ⟨n - 1, by omega⟩
    rw [attrsText, List.flatMap_nil, List.nil_append, parseAttrs, if_neg]
    exact fun hno => hend.elim hno.1 hno.2
  | cons attr more ih =>
    obtain ⟨n, rfl⟩ : ∃ m, n = m + 1 := ⟨n - 1, by omega⟩
    obtain ⟨hname, hvalue, heven, hne, hmore⟩ := attrsPrintable_cons h
    have hcons : attrsText (attr :: more) = attrText attr ++ attrsText more := rfl
    have hpeek : peek (attr.name ++ (valueText attr.value ++ (attrsText more ++ tail))) ≠ 62 ∧
        peek (attr.name ++ (valueText attr.value ++ (attrsText more ++ tail))) ≠ 47 := by
      cases hn : attr.name with
      | nil =>
        have hval := hne.resolve_left (not_not.mpr hn)
        rw [valueText, if_neg hval.1]
        exact ⟨show (61 : UInt8) ≠ 62 by decide, show (61 : UInt8) ≠ 47 by decide⟩
      | cons c rest =>
        rw [hn] at hname
        have hc := (cleanByte_spec (cleanByte_of_mem hname List.mem_cons_self)).1
        exact ⟨hc.2.1, hc.2.2.1⟩
    have hgetname : getUntilChr (ascii "=> \t\r\n") (attr.name ++ (valueText attr.value ++ (attrsText more ++ tail))) =
        some (attr.name, skip (valueText attr.value ++ (attrsText more ++ tail))) := by
      by_cases hnil : attr.value = []
      · obtain ⟨c, rest, hrest, hc⟩ : ∃ c rest, attrsText more ++ tail = c :: rest ∧
            (ascii "=> \t\r\n").contains c = true := attrsText_head htail
        rw [hnil, valueText, if_pos rfl, List.nil_append, hrest]
        exact getUntilChr_clean (by decide) hname hc rest
      · rw [valueText, if_neg hnil]
        exact getUntilChr_clean (by decide) hname (by decide) _
    have hgetvalue : parseAttrValue (skip (valueText attr.value ++ (attrsText more ++ tail))) =
        .ok (attr.value, skip (attrsText more ++ tail)) := by
      refine parseAttrValue_text hvalue heven fun hnil => ?_
      rw [hnil] at hmore
      exact peek_attrsText hmore (by rcases hend with h | h <;> rw [h] <;> decide)
    rw [List.length_cons] at hn
    rw [hcons, List.append_assoc, skip_attrText h, parseAttrs, if_pos hpeek, hgetname]
    simp only [Result.ofOption_some, Result.ok_bind, hgetvalue]
    rw [ih hmore (by omega)]
    rfl

/-! Nodes. -/

mutual

/-- The nodes that are read back: clean texts, no name that begins a processing instruction or a comment, no
attributes behind an empty name, and sub nodes or content but not both. -/
def printable : Node → Bool
  | .mk name attrs children content =>
    clean name && decide (peek name ≠ 63 ∧ peek name ≠ 33) && (name != [] || attrs.isEmpty) &&
      attrsPrintable false attrs && clean content && (content.isEmpty || children.isEmpty) && allPrintable children

def allPrintable : List Node → Bool
  | [] => true
  | node :: more => printable node && allPrintable more

end

mutual

/-- The level of the deepest node, 0 for the root. -/
def depth : Node → Nat
  | .mk _ _ children _ => childDepth children

def childDepth : List Node → Nat
  | [] => 0
  | node :: more => max (depth node + 1) (childDepth more)

end

theorem printable_mk {name : List UInt8} {attrs : List Attr} {children : List Node} {content : List UInt8}
    (h : printable (.mk name attrs children content) = true) :
    clean name = true ∧ (peek name ≠ 63 ∧ peek name ≠ 33) ∧ (name ≠ [] ∨ attrs = []) ∧
      attrsPrintable false attrs = true ∧ clean content = true ∧ (content = [] ∨ children = []) ∧
      allPrintable children = true := by
  simpa only [printable, Bool.and_eq_true, Bool.or_eq_true, decide_eq_true_eq, bne_iff_ne, List.isEmpty_iff,
    and_assoc] using h

theorem skip_indent (indent : Nat) (l : List UInt8) : skip (List.replicate indent 32 ++ l) = skip l :=
  skip_append_of_blank (fun _ => blank_replicate) l

theorem skip_newline (l : List UInt8) : skip (10 :: l) = skip l := List.dropWhile_cons_of_pos (by decide)

/-- Neither a processing instruction nor a comment. -/
theorem skipMisc_tag {c : UInt8} (hpi : c ≠ 63) (hcomment : c ≠ 33) (n : Nat) (more : List UInt8) :
    skipMisc (n + 1) (60 :: c :: more) = .ok (60 :: c :: more) := by
  have hpeek : peek (60 :: c :: more) = 60 := rfl
  have hpeek1 : peek1 (60 :: c :: more) = c := rfl
  have hstarts : startsWith (ascii "<!") (60 :: c :: more) = some false := by
    have hlen : (ascii "<!").length ≤ (60 :: c :: more).length := Nat.le_add_left 2 more.length
    rw [startsWith_eq hlen]
    have htake : (60 :: c :: more).take (ascii "<!").length = [60, c] := rfl
    rw [htake]
    congr 1
    rw [beq_eq_false_iff_ne]
    intro heq
    exact hcomment (List.cons.inj (List.cons.inj heq).2).1
  rw [skipMisc, hpeek, hpeek1, if_neg (not_not.mpr rfl), if_neg hpi, hstarts]
  rfl

theorem compareN_self (fold : UInt8 → UInt8) (n : Nat) (l : List UInt8) : Scan.Scanner.compareN fold n l l = 0 := by
  induction n generalizing l with
  | zero => rfl
  | succ n ih =>
    rw [Scan.Scanner.compareN]
    simp only [ne_eq, not_true_eq_false, if_false]
    split
    · rfl
    · exact ih l.tail

theorem stricmp_self (name : List UInt8) : stricmp name name = 0 := by
  by_cases hnil : name = []
  · rw [stricmp, if_pos hnil, if_pos hnil]
  · rw [stricmp, if_neg hnil, if_neg hnil, compareN_self]
    simp

theorem expectChar_cons {c : UInt8} (h : c ≠ 0) (l : List UInt8) : expectChar c (c :: l) = .ok (skip l) := by
  rw [expectChar, getChar_cons h]
  simp

theorem skip_name {name : List UInt8} (h : clean name = true) {c : UInt8} (hc : isBlank c = false) (l : List UInt8) :
    skip (name ++ c :: l) = name ++ c :: l := by
  by_cases hnil : name = []
  · rw [hnil, List.nil_append, skip_cons_of_not_blank hc]
  · exact skip_clean h hnil _

theorem parseEnd_text {name : List UInt8} (h : clean name = true) (rest : List UInt8) :
    parseEnd name (endTag name ++ rest) = .ok (skip rest) := by
  have hsplit : endTag name ++ rest = 60 :: 47 :: (name ++ 62 :: rest) := by simp [endTag]
  rw [hsplit, parseEnd, expectChar_cons (by decide), skip_cons_of_not_blank (by decide)]
  simp only [Result.ok_bind]
  rw [expectChar_cons (by decide), skip_name h (by decide)]
  simp only [Result.ok_bind]
  rw [getUntilChr_clean (by decide) h (by decide), skip_cons_of_not_blank (by decide)]
  simp only [Result.ofOption_some, Result.ok_bind]
  rw [stricmp_self, if_neg (not_not.mpr rfl), expectChar_cons (by decide)]

theorem parseText_text {content : List UInt8} (h : clean content = true) (more : List UInt8) :
    parseText (skip (content ++ 60 :: more)) = .ok (content, 60 :: more) := by
  rw [skip_name h (by decide), parseText]
  cases content with
  | nil =>
    have hpeek : peek (60 :: more) = 60 := rfl
    rw [List.nil_append, if_neg fun hand => hand.2 hpeek]
  | cons c rest =>
    have hc := (cleanByte_spec (cleanByte_of_mem h List.mem_cons_self)).1.1
    rw [if_pos ⟨List.cons_ne_nil _ _, hc⟩, getUntilCh_append (notMem_of_clean h (by decide)) (by decide)]
    rfl

theorem parseCdata_tag (content more : List UInt8) :
    parseCdata content (60 :: 47 :: more) = .ok (content, 60 :: 47 :: more) := by
  have hpeek1 : peek1 (60 :: 47 :: more) = 47 := rfl
  rw [parseCdata, if_neg fun hand => absurd (hpeek1.symm.trans hand.2) (by decide)]

theorem length_le_attrsText {attrs : List Attr} {bare : Bool} (h : attrsPrintable bare attrs = true)
    (tail : List UInt8) : attrs.length ≤ (skip (attrsText attrs ++ tail)).length := by
  have hall : ∀ l : List Attr, l.length ≤ (attrsText l).length := by
    intro l
    induction l with
    | nil => exact le_rfl
    | cons attr more ih =>
      have hcons : attrsText (attr :: more) = attrText attr ++ attrsText more := rfl
      rw [hcons, List.length_append, List.length_cons, attrText, List.length_cons]
      omega
  cases attrs with
  | nil => exact Nat.zero_le _
  | cons attr more =>
    obtain ⟨-, -, -, hne, -⟩ := attrsPrintable_cons h
    have hcons : attrsText (attr :: more) = attrText attr ++ attrsText more := rfl
    have hmore := hall more
    have hpos : 0 < attr.name.length + (valueText attr.value).length := by
      rcases hne with hname | hvalue
      · exact Nat.add_pos_left (List.length_pos_iff.mpr hname) _
      · rw [valueText, if_neg hvalue.1]
        exact Nat.add_pos_right _ (Nat.succ_pos _)
    rw [hcons, List.append_assoc, skip_attrText h]
    simp only [List.length_append, List.length_cons]
    omega

/-- The name and the attributes of a start tag, up to the bytes `tail` that end it. -/
theorem parseTag_text {name : List UInt8} {attrs : List Attr} (hname : clean name = true)
    (hne : name ≠ [] ∨ attrs = []) (hattrs : attrsPrintable false attrs = true) {tail : List UInt8}
    (htail : (∃ rest, tail = 32 :: 47 :: rest) ∨ ∃ rest, tail = 62 :: rest) :
    getUntilChr (ascii " />\t\r\n") (skip (name ++ (attrsText attrs ++ tail))) =
        some (name, skip (attrsText attrs ++ tail)) ∧
      parseAttrs ((skip (attrsText attrs ++ tail)).length + 1) (skip (attrsText attrs ++ tail)) =
        .ok (attrs, skip tail) := by
  have hend : peek (skip tail) = 62 ∨ peek (skip tail) = 47 := by
    rcases htail with ⟨rest, rfl⟩ | ⟨rest, rfl⟩
    · exact Or.inr rfl
    · exact Or.inl rfl
  have hhead : ∃ c rest, tail = c :: rest ∧ (ascii "=> \t\r\n").contains c = true := by
    rcases htail with ⟨rest, rfl⟩ | ⟨rest, rfl⟩
    · exact ⟨32, _, rfl, by decide⟩
    · exact ⟨62, _, rfl, by decide⟩
  refine ⟨?_, parseAttrs_text hattrs hhead hend (Nat.succ_le_succ (length_le_attrsText hattrs tail))⟩
  by_cases hnil : name = []
  · have hnone := hne.resolve_left (not_not.mpr hnil)
    rw [hnil, hnone, List.nil_append, attrsText, List.flatMap_nil, List.nil_append]
    rcases htail with ⟨rest, rfl⟩ | ⟨rest, rfl⟩
    · have hskip : skip (32 :: 47 :: rest) = 47 :: rest := rfl
      rw [hskip]
      exact getUntilChr_clean (s := []) (by decide) rfl (by decide) rest
    · have hskip : skip (62 :: rest) = 62 :: rest := rfl
      rw [hskip]
      exact getUntilChr_clean (s := []) (by decide) rfl (by decide) rest
  · rw [skip_clean hname hnil]
    cases attrs with
    | nil =>
      rcases htail with ⟨rest, rfl⟩ | ⟨rest, rfl⟩
      · exact getUntilChr_clean (by decide) hname (by decide) _
      · exact getUntilChr_clean (by decide) hname (by decide) _
    | cons attr more => exact getUntilChr_clean (by decide) hname (by decide) _

/-- With fuel for its text, the node is parsed and what follows it is left. Processing instructions and comments
may stand in front. -/
def ParsesBack (node : Node) : Prop :=
  ∀ {indent n recLevel : Nat} {rest l : List UInt8}, printable node = true → recLevel + depth node < maxNesting →
    2 * (nodeText indent node).length ≤ n →
    skipMisc (l.length + 1) l = .ok (skip (nodeText indent node ++ rest)) →
    parseNode n recLevel l = .ok (node, skip rest)

theorem nodeText_start {node : Node} (h : printable node = true) (indent : Nat) (rest : List UInt8) :
    ∃ c more, skip (nodeText indent node ++ rest) = 60 :: c :: more ∧ c ≠ 63 ∧ c ≠ 33 ∧ c ≠ 47 := by
  cases node with
  | mk name attrs children content =>
    obtain ⟨hname, hfirst, hne, -, -, -, -⟩ := printable_mk h
    rw [nodeText, List.append_assoc, skip_indent, List.cons_append, skip_cons_of_not_blank (by decide)]
    cases hn : name with
    | nil =>
      have hnone := hne.resolve_left (not_not.mpr hn)
      rw [hnone]
      split
      · exact ⟨32, _, rfl, by decide⟩
      · exact ⟨62, _, rfl, by decide⟩
    | cons c more =>
      rw [hn] at hname hfirst
      have hslash := (cleanByte_spec (cleanByte_of_mem hname List.mem_cons_self)).1.2.2.1
      exact ⟨c, _, rfl, hfirst.1, hfirst.2, hslash⟩

theorem parseNodes_text {children : List Node} (hall : ∀ child ∈ children, ParsesBack child)
    (hprint : allPrintable children = true) {recLevel : Nat}
    (hdepth : ∀ child ∈ children, recLevel + depth child < maxNesting) {indent : Nat} {tail : List UInt8}
    (htail : peek (skip tail) ≠ 60 ∨ peek1 (skip tail) = 47) {n : Nat}
    (hn : 2 * (nodesText indent children).length + 1 ≤ n) :
    parseNodes n recLevel (skip (nodesText indent children ++ tail)) = .ok (children, skip tail) := by
  induction children generalizing n with
  | nil =>
    obtain ⟨n, rfl⟩ : ∃ m, n = m + 1 := ⟨n - 1, by omega⟩
    rw [nodesText, List.nil_append, parseNodes, if_neg]
    exact fun hand => htail.elim (fun h => h hand.1) hand.2.1
  | cons child more ih =>
    obtain ⟨n, rfl⟩ : ∃ m, n = m + 1 := ⟨n - 1, by omega⟩
    rw [allPrintable, Bool.and_eq_true] at hprint
    rw [nodesText, List.length_cons, List.length_append] at hn
    have hsplit : nodesText indent (child :: more) ++ tail =
        10 :: (nodeText (indent + 1) child ++ (nodesText indent more ++ tail)) := by simp [nodesText]
    rw [hsplit, skip_newline]
    obtain ⟨c, text, hstart, hpi, hcomment, hslash⟩ :=
      nodeText_start hprint.1 (indent + 1) (nodesText indent more ++ tail)
    have hmisc := skipMisc_tag hpi hcomment (60 :: c :: text).length text
    rw [← hstart] at hmisc
    have hchild := hall child List.mem_cons_self hprint.1 (hdepth child List.mem_cons_self) (n := n) (by omega) hmisc
    have hcond : peek (skip (nodeText (indent + 1) child ++ (nodesText indent more ++ tail))) = 60 ∧
        peek1 (skip (nodeText (indent + 1) child ++ (nodesText indent more ++ tail))) ≠ 47 ∧
        peek1 (skip (nodeText (indent + 1) child ++ (nodesText indent more ++ tail))) ≠ 33 := by
      rw [hstart]
      exact ⟨rfl, hslash, hcomment⟩
    rw [parseNodes, if_pos hcond, hchild]
    simp only [Result.ok_bind]
    rw [ih (fun c hc => hall c (List.mem_cons_of_mem child hc)) hprint.2
      (fun c hc => hdepth c (List.mem_cons_of_mem child hc)) (by omega)]
    rfl

theorem depth_lt_of_mem {child : Node} {children : List Node} (h : child ∈ children) :
    depth child + 1 ≤ childDepth children := by
  induction children with
  | nil => cases h
  | cons node more ih =>
    rw [childDepth]
    rcases List.mem_cons.mp h with rfl | hmem
    · exact Nat.le_max_left _ _
    · exact Nat.le_trans (ih hmem) (Nat.le_max_right _ _)

section Tags

variable {name : List UInt8} {attrs : List Attr} {recLevel : Nat} {l : List UInt8}

theorem parseNode_empty (hname : clean name = true) (hne : name ≠ [] ∨ attrs = [])
    (hattrs : attrsPrintable false attrs = true) (hlevel : recLevel < maxNesting) {rest : List UInt8}
    (hmisc : skipMisc (l.length + 1) l = .ok (60 :: (name ++ (attrsText attrs ++ 32 :: 47 :: 62 :: rest)))) (n : Nat) :
    parseNode (n + 1) recLevel l = .ok (.mk name attrs [] [], skip rest) := by
  obtain ⟨hgetname, hgetattrs⟩ := parseTag_text hname hne hattrs (Or.inl ⟨62 :: rest, rfl⟩)
  have hskip : skip (32 :: 47 :: 62 :: rest) = 47 :: 62 :: rest := rfl
  have hpeek : peek (47 :: 62 :: rest) = 47 := rfl
  rw [hskip] at hgetattrs
  rw [parseNode, if_neg (Nat.not_le.mpr hlevel), hmisc]
  simp only [Result.ok_bind]
  rw [getChar_cons (by decide)]
  simp only [Result.ofOption_some, Result.ok_bind, hgetname, hgetattrs]
  rw [if_pos hpeek, getChar_cons (by decide), skip_cons_of_not_blank (by decide)]
  simp only [Result.ofOption_some, Result.ok_bind]
  rw [expectChar_cons (by decide)]
  rfl

theorem parseNode_full (hname : clean name = true) (hne : name ≠ [] ∨ attrs = [])
    (hattrs : attrsPrintable false attrs = true) (hlevel : recLevel < maxNesting) {inner : List UInt8}
    (hmisc : skipMisc (l.length + 1) l = .ok (60 :: (name ++ (attrsText attrs ++ 62 :: inner)))) {n : Nat}
    {children : List Node} {content rest : List UInt8} (hcontent : clean content = true) {behind : List UInt8}
    (hnodes : parseNodes n (recLevel + 1) (skip inner) = .ok (children, skip (content ++ behind)))
    (hbehind : skip behind = endTag name ++ rest) (hindent : content = [] ∨ behind = endTag name ++ rest) :
    parseNode (n + 1) recLevel l = .ok (.mk name attrs children content, skip rest) := by
  obtain ⟨hgetname, hgetattrs⟩ := parseTag_text hname hne hattrs (Or.inr ⟨inner, rfl⟩)
  have hskip : skip (62 :: inner) = 62 :: inner := rfl
  have hpeek : peek (62 :: inner) ≠ 47 := show (62 : UInt8) ≠ 47 by decide
  have htext : parseText (skip (content ++ behind)) = .ok (content, endTag name ++ rest) := by
    rcases hindent with hnil | hend
    · have hsame : skip (content ++ behind) = skip (content ++ (endTag name ++ rest)) := by
        rw [hnil, List.nil_append, List.nil_append, hbehind]
        rfl
      rw [hsame]
      exact parseText_text hcontent _
    · rw [hend]
      exact parseText_text hcontent _
  rw [hskip] at hgetattrs
  rw [parseNode, if_neg (Nat.not_le.mpr hlevel), hmisc]
  simp only [Result.ok_bind]
  rw [getChar_cons (by decide)]
  simp only [Result.ofOption_some, Result.ok_bind, hgetname, hgetattrs]
  rw [if_neg hpeek, expectChar_cons (by decide)]
  simp only [Result.ok_bind, hnodes, htext]
  have hcdata : parseCdata content (endTag name ++ rest) = .ok (content, endTag name ++ rest) := by
    rw [endTag, List.append_assoc, List.append_assoc]
    exact parseCdata_tag content _
  rw [hcdata]
  simp only [Result.ok_bind]
  rw [parseEnd_text hname rest]
  rfl

end Tags

theorem parsesBack (node : Node) : ParsesBack node := by
  induction node using node_induction with
  | hnode name attrs children content ih =>
    intro indent n recLevel rest l h hdepth hn hmisc
    obtain ⟨hname, hfirst, hne, hattrs, hcontent, hone, hchildren⟩ := printable_mk h
    have hpos := indent_le_nodeText indent (.mk name attrs children content)
    obtain ⟨n, rfl⟩ : ∃ m, n = m + 1 := ⟨n - 1, by omega⟩
    rw [depth] at hdepth
    rw [nodeText] at hn hmisc
    rw [List.append_assoc, skip_indent, List.cons_append, skip_cons_of_not_blank (by decide), List.append_assoc,
      List.append_assoc] at hmisc
    by_cases hempty : (content.isEmpty && children.isEmpty) = true
    · rw [if_pos hempty] at hmisc
      rw [Bool.and_eq_true, List.isEmpty_iff, List.isEmpty_iff] at hempty
      rw [hempty.1, hempty.2]
      exact parseNode_empty hname hne hattrs (by omega) hmisc n
    · rw [if_neg hempty] at hmisc hn
      rw [List.cons_append, List.append_assoc, List.append_assoc, List.append_assoc] at hmisc
      simp only [List.length_append, List.length_cons] at hn
      obtain ⟨blanks, hblanks⟩ : ∃ l, l = if children.isEmpty then [] else 10 :: List.replicate indent (32 : UInt8) :=
        ⟨_, rfl⟩
      rw [← hblanks] at hmisc
      have hbehind : skip (blanks ++ (endTag name ++ rest)) = endTag name ++ rest := by
        have hall : ∀ c ∈ blanks, isBlank c = true := by
          rw [hblanks]
          intro c hc
          split at hc
          · cases hc
          · rcases List.mem_cons.mp hc with rfl | hc
            · decide
            · exact blank_replicate hc
        rw [skip_append_of_blank hall]
        rfl
      refine parseNode_full hname hne hattrs (by omega) hmisc hcontent ?_ hbehind ?_
      · refine parseNodes_text ih hchildren (fun child hmem => ?_) ?_ (by omega)
        · have hle := depth_lt_of_mem hmem
          omega
        · by_cases hnil : content = []
          · right
            rw [hnil, List.nil_append, hbehind]
            rfl
          · left
            rw [skip_clean hcontent hnil]
            cases hc : content with
            | nil => exact absurd hc hnil
            | cons c more =>
              rw [hc] at hcontent
              exact (cleanByte_spec (cleanByte_of_mem hcontent List.mem_cons_self)).1.1
      · rcases hone with hnil | hnil
        · exact Or.inl hnil
        · right
          rw [hblanks, hnil]
          rfl

/-! Whole documents. -/

theorem skipMisc_prolog (n : Nat) (l : List UInt8) : skipMisc (n + 1) (prolog ++ l) = skipMisc n (skip l) := by
  obtain ⟨body, hbody⟩ : ∃ b, b = ascii "xml version=\"1.0\" encoding=\"UTF-8\"" := ⟨_, rfl⟩
  have hnot : 63 ∉ body := by
    rw [hbody]
    decide +kernel
  have hprolog : prolog = 60 :: 63 :: (body ++ [63, 62, 10]) := by
    rw [hbody]
    decide +kernel
  have hsplit : prolog ++ l = 60 :: 63 :: (body ++ 63 :: 62 :: 10 :: l) := by
    rw [hprolog]
    simp
  have hpeek : peek (60 :: 63 :: (body ++ 63 :: 62 :: 10 :: l)) = 60 := rfl
  have hpeek1 : peek1 (60 :: 63 :: (body ++ 63 :: 62 :: 10 :: l)) = 63 := rfl
  have hopen : advanceN 2 false (60 :: 63 :: (body ++ 63 :: 62 :: 10 :: l)) = some (body ++ 63 :: 62 :: 10 :: l) := by
    rw [advanceN, if_neg (by simp)]
    rfl
  have hclose : advanceN 2 true (63 :: 62 :: 10 :: l) = some (skip l) := by
    rw [advanceN, if_neg (by simp)]
    exact congrArg some (skip_newline l)
  rw [hsplit, skipMisc, hpeek, hpeek1, if_neg (not_not.mpr rfl), if_pos rfl, hopen]
  simp only [Result.ofOption_some, Result.ok_bind]
  rw [skipPi, getUntilCh_append hnot (by decide)]
  simp only [Result.ofOption_some, Result.ok_bind]
  have hend : peek (63 :: 62 :: 10 :: l) = 63 ∧ peek1 (63 :: 62 :: 10 :: l) = 62 := ⟨rfl, rfl⟩
  rw [if_pos hend, hclose]
  rfl

theorem length_prolog : prolog.length = 39 := by decide

/-- What `pj_xml_print` prints. -/
def docText (node : Node) (includeProlog : Bool) : List UInt8 :=
  (if includeProlog then prolog else []) ++ nodeText 0 node ++ [10]

theorem xmlPrint_eq (node : Node) {len : Nat} {includeProlog : Bool} (h : (docText node includeProlog).length ≤ len)
    (hlen : len < 0x80000000) :
    xmlPrint node len includeProlog = (((docText node includeProlog).length : Int), docText node includeProlog) := by
  obtain ⟨front, hfront⟩ : ∃ l, l = if includeProlog then prolog else [] := ⟨_, rfl⟩
  rw [docText, ← hfront] at h ⊢
  simp only [List.length_append, List.length_cons, List.length_nil] at h
  have hsize : Int.bmod (len : Int) 0x100000000 = len := Int.bmod_eq_of_le (by omega) (by omega)
  have hprint : printNode 0 (len - front.length) node = some (nodeText 0 node) := prints node (by omega) (by omega)
  rw [xmlPrint, if_neg (by omega)]
  simp only [← hfront]
  rw [hsize, if_neg (by omega), hprint]
  show (if (front ++ nodeText 0 node).length + 1 ≤ len then _ else _) = _
  rw [if_pos (by rw [List.length_append]; omega)]
  simp only [List.length_append, List.length_cons, List.length_nil]
  rfl

theorem xmlParse_docText {node : Node} (h : printable node = true) (hdepth : depth node < maxNesting)
    (includeProlog : Bool) : xmlParse (docText node includeProlog) = .ok node := by
  obtain ⟨c, more, hstart, hpi, hcomment, -⟩ := nodeText_start h 0 [10]
  have hne : docText node includeProlog ≠ [] := by simp [docText]
  have hmisc : skipMisc ((skip (docText node includeProlog)).length + 1) (skip (docText node includeProlog)) =
      .ok (skip (nodeText 0 node ++ [10])) := by
    cases includeProlog with
    | false =>
      have htext : docText node false = nodeText 0 node ++ [10] := rfl
      rw [htext, hstart]
      exact skipMisc_tag hpi hcomment _ more
    | true =>
      have htext : docText node true = prolog ++ (nodeText 0 node ++ [10]) := by simp [docText]
      have hskip : skip (prolog ++ (nodeText 0 node ++ [10])) = prolog ++ (nodeText 0 node ++ [10]) := rfl
      rw [htext, hskip, skipMisc_prolog, List.length_append, length_prolog, Nat.add_comm, hstart]
      exact skipMisc_tag hpi hcomment _ more
  have hlen : (nodeText 0 node).length ≤ (docText node includeProlog).length := by
    simp only [docText, List.length_append]
    omega
  have hfuel : 2 * (nodeText 0 node).length ≤ 2 * (docText node includeProlog).length + 2 := by omega
  have hparse : parseNode (2 * (docText node includeProlog).length + 2) 0 (skip (docText node includeProlog)) =
      .ok (node, skip [10]) := parsesBack node h (by omega) hfuel hmisc
  rw [xmlParse, if_neg hne, hparse]
  rfl

/-- What is printed in a buffer that is big enough is parsed back, and the parser ends on every input. -/
theorem xmlParse_xmlPrint (node : Node) (hprint : printable node = true) (hdepth : depth node < maxNesting)
    (includeProlog : Bool) :
    (∃ text, (∀ len, text.length ≤ len → len < 0x80000000 →
        xmlPrint node len includeProlog = ((text.length : Int), text)) ∧ xmlParse text = .ok node) ∧
      ∀ msg, xmlParse msg = .error ∨ ∃ parsed, xmlParse msg = .ok parsed :=
  ⟨⟨docText node includeProlog, fun _ h hlen => xmlPrint_eq node h hlen, xmlParse_docText hprint hdepth includeProlog⟩,
    xmlParse_ends⟩

/-- A presence document with an attribute, a node with content and an empty node. -/
theorem xmlParse_xmlPrint_presence :
    (∃ text, (∀ len, text.length ≤ len → len < 0x80000000 →
        xmlPrint (.mk (ascii "presence") [⟨ascii "entity", ascii "sip:a@b"⟩]
          [.mk (ascii "basic") [] [] (ascii "open"), .mk (ascii "note") [] [] []] []) len true =
          ((text.length : Int), text)) ∧
        xmlParse text = .ok (.mk (ascii "presence") [⟨ascii "entity", ascii "sip:a@b"⟩]
          [.mk (ascii "basic") [] [] (ascii "open"), .mk (ascii "note") [] [] []] [])) ∧
      ∀ msg, xmlParse msg = .error ∨ ∃ parsed, xmlParse msg = .ok parsed :=
  xmlParse_xmlPrint _ (by decide) (by decide) true

def parsedName : Result Node → List UInt8
  | .ok (.mk name _ _ _) => name
  | _ => []

/-- The parser takes the attribute behind an empty name for the name. -/
theorem empty_name_takes_attr :
    xmlPrint (.mk [] [⟨ascii "a", ascii "b"⟩] [] []) 64 false = (11, ascii "< a=\"b\" />\n") ∧
      xmlParse (ascii "< a=\"b\" />\n") ≠ .ok (.mk [] [⟨ascii "a", ascii "b"⟩] [] []) := by
  refine ⟨by decide, ?_⟩
  intro heq
  exact absurd (congrArg parsedName heq) (by decide)

end PjProject.Xml
