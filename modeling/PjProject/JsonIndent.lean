import PjProject.JsonRoundTrip

/-! The indentation of the JSON writer (`json.c`). It grows by three for a list with names as long as it is below the
size of `indent_buf`, and with 99 it is, so that it comes to 102 where 34 such lists are nested. -/

namespace PjProject.Json

/-- What the writer is called with. -/
inductive Source
  | indentBuf (size : Nat)
  | text (bytes : List UInt8)
  deriving DecidableEq

/-- A call of the writer, with `st->indent` at the time. -/
structure Call where
  indent : Nat
  source : Source
  deriving DecidableEq

def Call.piece (c : Call) : List UInt8 :=
  match c.source with
  | .indentBuf size => indentBytes size
  | .text bytes => bytes

/-- The calls of a part of `pj_json_writef`, and `st->indent` behind it; `none` when it has failed. A writer that fails
cuts the calls off. -/
abbrev Trace := List Call × Option Nat

def andThen (t : Trace) (next : Nat → Trace) : Trace :=
  match t.2 with
  | none => t
  | some indent => (t.1 ++ (next indent).1, (next indent).2)

def steady (indent : Nat) (sources : List Source) : Trace := (sources.map (⟨indent, ·⟩), some indent)

/-- What `elem_write` writes before the value. -/
def nameSources (indent : Nat) (noName : Bool) (name : List UInt8) : List Source :=
  if name = [] then []
  else
    .indentBuf indent ::
      if noName then []
      else
        [.text [34], .text (escape name), .text [34, 58, 32]] ++
          if name.length < nameMinLen then [.text (List.replicate (nameMinLen - name.length) 32)] else []

/-- `write_children` around its loop: `added` is `indent_added`. -/
def wrapCalls {F : Type} (openQuote closeQuote : UInt8) (indent : Nat) (children : List (Elem F))
    (simple named : Nat → Trace) : Trace :=
  andThen (steady indent [.text [openQuote], .text [32]]) fun indent =>
    andThen
      (if firstName children = [] then simple indent
      else
        let added := decide (indent < maxIndent)
        let indent := if added then indent + indentSize else indent
        andThen (steady indent [.text [10]]) fun indent =>
          andThen (named indent) fun indent =>
            let indent := if added then indent - indentSize else indent
            steady indent [.indentBuf indent])
      fun indent => steady indent [.text [closeQuote]]

section

variable {F : Type} (ops : FloatOps F)

mutual

/-- `elem_write`. -/
def elemCalls (noName : Bool) : Elem F → Nat → Trace
  | .null name, indent => steady indent (nameSources indent noName name ++ [.text (ascii "null")])
  | .bool name value, indent =>
    steady indent (nameSources indent noName name ++ [.text (if value then ascii "true" else ascii "false")])
  | .number name num, indent =>
    andThen (steady indent (nameSources indent noName name)) fun indent =>
      if 65 ≤ (ops.print num).length then ([], none) else steady indent [.text (ops.print num)]
  | .string name str, indent =>
    steady indent (nameSources indent noName name ++ [.text [34], .text (escape str), .text [34]])
  | .array name children, indent =>
    andThen (steady indent (nameSources indent noName name)) fun indent =>
      wrapCalls 91 93 indent children (childCalls true [44, 32] [] children) (childCalls true [44, 10] [.text [10]] children)
  | .obj name children, indent =>
    andThen (steady indent (nameSources indent noName name)) fun indent =>
      wrapCalls 123 125 indent children (childCalls false [44, 32] [] children)
        (childCalls false [44, 10] [.text [10]] children)

/-- The loops of `write_children`. -/
def childCalls (noName : Bool) (sep : List UInt8) (last : List Source) : List (Elem F) → Nat → Trace
  | [], indent => steady indent []
  | child :: more, indent =>
    andThen (elemCalls noName child indent) fun indent =>
      andThen (steady indent (if more.isEmpty then last else [.text sep])) fun indent =>
        childCalls noName sep last more indent

end

mutual

/-- The lists with names that the writer comes to, each by the number of such lists that it is in, itself included; and
whether the writer comes to the end. -/
def levels : Elem F → Nat → List Nat × Bool
  | .null _, _ => ([], true)
  | .bool _ _, _ => ([], true)
  | .string _ _, _ => ([], true)
  | .number _ num, _ => ([], !decide (65 ≤ (ops.print num).length))
  | .array _ children, level =>
    if firstName children = [] then childLevels children level
    else ((level + 1) :: (childLevels children (level + 1)).1, (childLevels children (level + 1)).2)
  | .obj _ children, level =>
    if firstName children = [] then childLevels children level
    else ((level + 1) :: (childLevels children (level + 1)).1, (childLevels children (level + 1)).2)

def childLevels : List (Elem F) → Nat → List Nat × Bool
  | [], _ => ([], true)
  | child :: more, level =>
    if (levels child level).2 then ((levels child level).1 ++ (childLevels more level).1, (childLevels more level).2)
    else ((levels child level).1, false)

end

end

/-! The calls write the pieces of the document. -/

/-- The bytes that a part writes when it does not fail; it leaves the indentation as it has found it. -/
structure Writes (indent : Nat) (t : Trace) (pieces : List (List UInt8)) : Prop where
  pieces : t.1.map Call.piece = pieces
  behind : t.2 = some indent

theorem andThen_of_none {t : Trace} (h : t.2 = none) (next : Nat → Trace) : andThen t next = t := by
  rw [andThen, h]

theorem andThen_of_some {t : Trace} {indent : Nat} (h : t.2 = some indent) (next : Nat → Trace) :
    andThen t next = (t.1 ++ (next indent).1, (next indent).2) := by
  rw [andThen, h]

def Source.bytes : Source → List UInt8
  | .indentBuf size => indentBytes size
  | .text bytes => bytes

theorem writes_steady (indent : Nat) (sources : List Source) :
    Writes indent (steady indent sources) (sources.map Source.bytes) := by
  refine ⟨?_, rfl⟩
  rw [steady, List.map_map]
  exact List.map_congr_left fun source _ => by cases source <;> rfl

theorem Writes.followed {indent : Nat} {t : Trace} {p q : List (List UInt8)} (h : Writes indent t p)
    (next : Nat → Trace) (hnext : Writes indent (next indent) q) : Writes indent (andThen t next) (p ++ q) := by
  rw [andThen_of_some h.behind]
  refine ⟨?_, hnext.behind⟩
  rw [List.map_append, h.pieces, hnext.pieces]

theorem map_bytes_nameSources (indent : Nat) (noName : Bool) (name : List UInt8) :
    (nameSources indent noName name).map Source.bytes = namePieces indent noName name := by
  unfold nameSources namePieces
  split
  · rfl
  · cases noName with
    | true => rfl
    | false =>
      rw [if_neg Bool.false_ne_true, if_neg Bool.false_ne_true]
      split <;> rfl

section

variable {F : Type} (ops : FloatOps F)

/-- The indentation that `write_children` goes back to. -/
theorem deeper_back (indent : Nat) :
    (if decide (indent < maxIndent) then deeper indent - indentSize else deeper indent) = indent := by
  simp only [decide_eq_true_eq, deeper]
  split
  · exact Nat.add_sub_cancel ..
  · rfl

theorem writes_wrapCalls (openQuote closeQuote : UInt8) (indent : Nat) (children : List (Elem F))
    {simple named : Nat → Trace} {p q : List (List UInt8)} (hsimple : Writes indent (simple indent) p)
    (hnamed : Writes (deeper indent) (named (deeper indent)) q) :
    Writes indent (wrapCalls openQuote closeQuote indent children simple named)
      (wrapPieces openQuote closeQuote indent children p q) := by
  have hdeeper : (if decide (indent < maxIndent) then indent + indentSize else indent) = deeper indent := by
    simp only [decide_eq_true_eq]
    rfl
  unfold wrapCalls wrapPieces
  rw [List.append_assoc]
  refine (writes_steady indent _).followed _ (Writes.followed ?_ _ (writes_steady indent _))
  split
  · exact hsimple
  · dsimp only
    rw [hdeeper, andThen_of_some rfl, andThen_of_some hnamed.behind, deeper_back]
    refine ⟨?_, rfl⟩
    rw [List.map_append, List.map_append, hnamed.pieces]
    rfl

theorem writes_childCalls {children : List (Elem F)}
    (hall : ∀ child ∈ children, ∀ noName indent, hasLongNumber ops child = false →
      Writes indent (elemCalls ops noName child indent) (elemPieces ops indent noName child))
    (noName : Bool) (sep : List UInt8) (last : List Source) (indent : Nat) (h : anyLongNumber ops children = false) :
    Writes indent (childCalls ops noName sep last children indent)
      (childPieces ops indent noName sep (last.map Source.bytes) children) := by
  induction children with
  | nil => exact writes_steady indent []
  | cons child more ih =>
    rw [anyLongNumber, Bool.or_eq_false_iff] at h
    have hmore := ih (fun c hc => hall c (List.mem_cons_of_mem child hc)) h.2
    have hsep := writes_steady indent (if more.isEmpty then last else [.text sep])
    rw [childCalls, childPieces, List.append_assoc]
    refine (hall child List.mem_cons_self noName indent h.1).followed _ ?_
    have hboth := hsep.followed _ hmore
    convert hboth using 1
    cases more <;> rfl

/-- Without a number whose text is too long, the writer is called with the pieces of the document, one by one. -/
theorem writes_elemCalls (elem : Elem F) : ∀ noName indent, hasLongNumber ops elem = false →
    Writes indent (elemCalls ops noName elem indent) (elemPieces ops indent noName elem) := by
  have hvalue (noName : Bool) (indent : Nat) (name : List UInt8) (texts : List Source) :
      Writes indent (steady indent (nameSources indent noName name ++ texts))
        (namePieces indent noName name ++ texts.map Source.bytes) := by
    rw [← map_bytes_nameSources, ← List.map_append]
    exact writes_steady indent _
  have hname (noName : Bool) (indent : Nat) (name : List UInt8) :
      Writes indent (steady indent (nameSources indent noName name)) (namePieces indent noName name) := by
    rw [← map_bytes_nameSources]
    exact writes_steady indent _
  induction elem using elem_induction with
  | hnull name => exact fun noName indent _ => hvalue noName indent name _
  | hbool name value => exact fun noName indent _ => hvalue noName indent name _
  | hnumber name num =>
    intro noName indent h
    rw [hasLongNumber, decide_eq_false_iff_not] at h
    rw [elemCalls, elemPieces]
    refine (hname noName indent name).followed _ ?_
    rw [if_neg h]
    exact writes_steady indent _
  | hstring name str => exact fun noName indent _ => hvalue noName indent name _
  | harray name children ih =>
    intro noName indent h
    rw [hasLongNumber] at h
    rw [elemCalls, elemPieces]
    refine (hname noName indent name).followed _ ?_
    exact writes_wrapCalls 91 93 indent children (writes_childCalls ops ih true _ _ indent h)
      (writes_childCalls ops ih true _ _ (deeper indent) h)
  | hobj name children ih =>
    intro noName indent h
    rw [hasLongNumber] at h
    rw [elemCalls, elemPieces]
    refine (hname noName indent name).followed _ ?_
    exact writes_wrapCalls 123 125 indent children (writes_childCalls ops ih false _ _ indent h)
      (writes_childCalls ops ih false _ _ (deeper indent) h)

/-- `pj_json_write` succeeds exactly when the text that `pj_json_writef` hands on, call by call, leaves two bytes of the
buffer; the indentation is zero again behind it. -/
theorem jsonWrite_calls (elem : Elem F) (h : hasLongNumber ops elem = false) :
    (elemCalls ops false elem 0).2 = some 0 ∧ ∀ size, jsonWrite ops elem size =
      if ((elemCalls ops false elem 0).1.flatMap Call.piece).length + 1 < size then
        some ((elemCalls ops false elem 0).1.flatMap Call.piece)
      else none := by
  have hwrites := writes_elemCalls ops elem false 0 h
  refine ⟨hwrites.behind, fun size => ?_⟩
  rw [List.flatMap_def, hwrites.pieces, jsonWrite, h, if_neg Bool.false_ne_true,
    foldlM_bufWriter (elemPieces_ne_nil ops elem 0 false)]
  split
  · rfl
  · rfl

/-- `[ 7, null]` needs twelve bytes. -/
theorem jsonWrite_calls_number :
    jsonWrite natOps (.array [] [.number [] 7, .null []]) 12 = some (ascii "[ 7, null]") ∧
      jsonWrite natOps (.array [] [.number [] 7, .null []]) 11 = none := by
  have hwrite := (jsonWrite_calls natOps (.array [] [.number [] 7, .null []]) (by decide +kernel)).2
  have htext : (elemCalls natOps false (.array [] [.number [] 7, .null []]) 0).1.flatMap Call.piece = ascii "[ 7, null]" := by
    decide +kernel
  rw [htext] at hwrite
  exact ⟨hwrite 12, hwrite 11⟩

end

/-! The indentation is that of the level. -/

/-- The indentation in so many lists with names. -/
def indentAt (level : Nat) : Nat := min (indentSize * level) 102

theorem indentAt_le_iff (level : Nat) : indentAt level ≤ maxIndent ↔ level ≤ 33 := by
  unfold indentAt indentSize maxIndent
  omega

/-- The guard of `write_children` leads to the indentation of the next level. -/
theorem indentAt_succ (level : Nat) :
    (if decide (indentAt level < maxIndent) then indentAt level + indentSize else indentAt level) = indentAt (level + 1) := by
  simp only [decide_eq_true_eq]
  unfold indentAt indentSize maxIndent
  split <;> omega

theorem indentAt_back (level : Nat) :
    (if decide (indentAt level < maxIndent) then indentAt (level + 1) - indentSize else indentAt (level + 1)) =
      indentAt level := by
  simp only [decide_eq_true_eq]
  unfold indentAt indentSize maxIndent
  split <;> omega

/-- What is known of a part of the writer that begins at this level: the indentation is that of the level, or of one of
the lists that it comes to, each of which has a call of its own. -/
structure Agrees (level : Nat) (t : Trace) (r : List Nat × Bool) : Prop where
  behind : t.2 = if r.2 then some (indentAt level) else none
  calls : ∀ c ∈ t.1, c.indent = indentAt level ∨ ∃ l ∈ r.1, c.indent = indentAt l
  levels : ∀ l ∈ r.1, ∃ c ∈ t.1, c.indent = indentAt l
  sizes : ∀ c ∈ t.1, ∀ size, c.source = .indentBuf size → size = c.indent

theorem agrees_steady {level : Nat} {sources : List Source}
    (hsizes : ∀ size, .indentBuf size ∈ sources → size = indentAt level) :
    Agrees level (steady (indentAt level) sources) ([], true) where
  behind := rfl
  calls c hc := by
    obtain ⟨source, -, rfl⟩ := List.mem_map.mp hc
    exact .inl rfl
  levels l hl := absurd hl List.not_mem_nil
  sizes c hc size hsize := by
    obtain ⟨source, hsource, rfl⟩ := List.mem_map.mp hc
    exact hsizes size (hsize ▸ hsource)

theorem Agrees.followed {level : Nat} {t : Trace} {r r' : List Nat × Bool} (h : Agrees level t r) (next : Nat → Trace)
    (hnext : Agrees level (next (indentAt level)) r') :
    Agrees level (andThen t next) (if r.2 then (r.1 ++ r'.1, r'.2) else (r.1, false)) := by
  have hbehind := h.behind
  cases hr : r.2 with
  | false =>
    rw [hr, if_neg Bool.false_ne_true] at hbehind
    rw [andThen_of_none hbehind, if_neg Bool.false_ne_true]
    exact ⟨hbehind, h.calls, h.levels, h.sizes⟩
  | true =>
    rw [hr, if_pos rfl] at hbehind
    rw [andThen_of_some hbehind, if_pos rfl]
    refine ⟨hnext.behind, fun c hc => ?_, fun l hl => ?_, fun c hc => ?_⟩
    · rcases List.mem_append.mp hc with hc | hc
      · exact (h.calls c hc).imp_right fun ⟨l, hl, heq⟩ => ⟨l, List.mem_append_left _ hl, heq⟩
      · exact (hnext.calls c hc).imp_right fun ⟨l, hl, heq⟩ => ⟨l, List.mem_append_right _ hl, heq⟩
    · rcases List.mem_append.mp hl with hl | hl
      · obtain ⟨c, hc, heq⟩ := h.levels l hl
        exact ⟨c, List.mem_append_left _ hc, heq⟩
      · obtain ⟨c, hc, heq⟩ := hnext.levels l hl
        exact ⟨c, List.mem_append_right _ hc, heq⟩
    · rcases List.mem_append.mp hc with hc | hc
      · exact h.sizes c hc
      · exact hnext.sizes c hc

theorem Agrees.behind_steady {level : Nat} {sources : List Source} {next : Nat → Trace} {r : List Nat × Bool}
    (h : Agrees level (next (indentAt level)) r)
    (hsizes : ∀ size, .indentBuf size ∈ sources → size = indentAt level) :
    Agrees level (andThen (steady (indentAt level) sources) next) r :=
  (agrees_steady hsizes).followed next h

/-- And a part in front of them. -/
theorem Agrees.before_steady {level : Nat} {t : Trace} {r : List Nat × Bool} (h : Agrees level t r)
    {sources : List Source} (hsizes : ∀ size, .indentBuf size ∈ sources → size = indentAt level) :
    Agrees level (andThen t fun indent => steady indent sources) r := by
  have hboth := h.followed (fun indent => steady indent sources) (agrees_steady hsizes)
  rw [List.append_nil] at hboth
  convert hboth using 1
  obtain ⟨l, ok⟩ := r
  cases ok <;> rfl

/-- The part of `write_children` for a list with names. -/
def namedCalls (named : Nat → Trace) (indent : Nat) : Trace :=
  let added := decide (indent < maxIndent)
  let indent := if added then indent + indentSize else indent
  andThen (steady indent [.text [10]]) fun indent =>
    andThen (named indent) fun indent =>
      let indent := if added then indent - indentSize else indent
      steady indent [.indentBuf indent]

theorem andThen_assoc (t : Trace) (f g : Nat → Trace) :
    andThen (andThen t f) g = andThen t fun indent => andThen (f indent) g := by
  cases ht : t.2 with
  | none => rw [andThen_of_none ht, andThen_of_none ht, andThen_of_none ht]
  | some indent =>
    rw [andThen_of_some ht, andThen_of_some ht]
    cases hf : (f indent).2 with
    | none => rw [andThen_of_none hf, andThen_of_none rfl, hf]
    | some indent' => rw [andThen_of_some hf, andThen_of_some rfl, List.append_assoc]

/-- A part at the next level, with the call behind it for which the indentation is that of the level again. -/
theorem Agrees.inner {level : Nat} {t : Trace} {r : List Nat × Bool} (h : Agrees (level + 1) t r)
    (hcall : ∃ c ∈ t.1, c.indent = indentAt (level + 1)) {back : Nat → Nat}
    (hback : back (indentAt (level + 1)) = indentAt level) :
    Agrees level (andThen t fun indent => steady (back indent) [.indentBuf (back indent)])
      ((level + 1) :: r.1, r.2) := by
  have hbehind := h.behind
  have hcalls : ∀ c ∈ t.1, c.indent = indentAt level ∨ ∃ l ∈ (level + 1) :: r.1, c.indent = indentAt l := by
    intro c hc
    rcases h.calls c hc with heq | ⟨l, hl, heq⟩
    · exact .inr ⟨level + 1, List.mem_cons_self, heq⟩
    · exact .inr ⟨l, List.mem_cons_of_mem _ hl, heq⟩
  have hlevels : ∀ l ∈ (level + 1) :: r.1, ∃ c ∈ t.1, c.indent = indentAt l := by
    intro l hl
    rcases List.mem_cons.mp hl with rfl | hl
    · exact hcall
    · exact h.levels l hl
  cases hr : r.2 with
  | false =>
    rw [hr, if_neg Bool.false_ne_true] at hbehind
    rw [andThen_of_none hbehind]
    exact ⟨hbehind, hcalls, hlevels, h.sizes⟩
  | true =>
    rw [hr, if_pos rfl] at hbehind
    rw [andThen_of_some hbehind, hback]
    refine ⟨rfl, fun c hc => ?_, fun l hl => ?_, fun c hc => ?_⟩
    · rcases List.mem_append.mp hc with hc | hc
      · exact hcalls c hc
      · exact .inl (by rw [List.mem_singleton.mp hc])
    · obtain ⟨c, hc, heq⟩ := hlevels l hl
      exact ⟨c, List.mem_append_left _ hc, heq⟩
    · rcases List.mem_append.mp hc with hc | hc
      · exact h.sizes c hc
      · intro size hsize
        rw [List.mem_singleton.mp hc] at hsize ⊢
        exact (Source.indentBuf.inj hsize).symm

theorem agrees_namedCalls {level : Nat} {named : Nat → Trace} {r : List Nat × Bool}
    (h : Agrees (level + 1) (named (indentAt (level + 1))) r) :
    Agrees level (namedCalls named (indentAt level)) ((level + 1) :: r.1, r.2) := by
  unfold namedCalls
  dsimp only
  rw [indentAt_succ, ← andThen_assoc]
  refine Agrees.inner (h.behind_steady fun size hsize => ?_) ?_ (indentAt_back level)
  · cases List.mem_singleton.mp hsize
  · have hfirst : ⟨indentAt (level + 1), .text [10]⟩ ∈ (steady (indentAt (level + 1)) [.text [10]]).1 :=
      List.mem_singleton_self _
    refine ⟨⟨indentAt (level + 1), .text [10]⟩, ?_, rfl⟩
    rw [andThen_of_some rfl]
    exact List.mem_append_left _ hfirst

/-- `write_children` around its loops. -/
theorem agrees_wrapCalls {F : Type} {level : Nat} {children : List (Elem F)} {simple named : Nat → Trace}
    {r r' : List Nat × Bool} (openQuote closeQuote : UInt8) (hsimple : Agrees level (simple (indentAt level)) r)
    (hnamed : Agrees (level + 1) (named (indentAt (level + 1))) r') :
    Agrees level (wrapCalls openQuote closeQuote (indentAt level) children simple named)
      (if firstName children = [] then r else ((level + 1) :: r'.1, r'.2)) := by
  unfold wrapCalls
  refine Agrees.behind_steady (Agrees.before_steady ?_ ?_) ?_
  · split
    · exact hsimple
    · exact agrees_namedCalls hnamed
  · intro size hsize
    cases List.mem_singleton.mp hsize
  · intro size hsize
    rcases List.mem_cons.mp hsize with h | h
    · cases h
    · cases List.mem_singleton.mp h

theorem nameSources_sizes {indent : Nat} {noName : Bool} {name : List UInt8} {size : Nat}
    (h : .indentBuf size ∈ nameSources indent noName name) : size = indent := by
  unfold nameSources at h
  split at h
  · cases h
  · rcases List.mem_cons.mp h with h | h
    · exact Source.indentBuf.inj h
    · split at h
      · cases h
      · rcases List.mem_append.mp h with h | h
        · simp at h
        · split at h <;> simp at h

section

variable {F : Type} (ops : FloatOps F)

theorem agrees_childCalls {children : List (Elem F)}
    (hall : ∀ child ∈ children, ∀ noName level, Agrees level (elemCalls ops noName child (indentAt level)) (levels ops child level))
    (noName : Bool) {sep : List UInt8} {last : List Source} (hlast : ∀ size, .indentBuf size ∉ last) (level : Nat) :
    Agrees level (childCalls ops noName sep last children (indentAt level)) (childLevels ops children level) := by
  induction children with
  | nil =>
    rw [childCalls, childLevels]
    exact agrees_steady nofun
  | cons child more ih =>
    have hchild := hall child List.mem_cons_self noName level
    have hmore := ih fun c hc => hall c (List.mem_cons_of_mem child hc)
    rw [childCalls, childLevels]
    have hsizes : ∀ size, .indentBuf size ∈ (if more.isEmpty then last else [.text sep]) → size = indentAt level := by
      intro size hsize
      split at hsize
      · exact absurd hsize (hlast size)
      · cases List.mem_singleton.mp hsize
    exact hchild.followed _ (hmore.behind_steady hsizes)

theorem agrees_elemCalls (elem : Elem F) :
    ∀ noName level, Agrees level (elemCalls ops noName elem (indentAt level)) (levels ops elem level) := by
  have hvalue (noName : Bool) (level : Nat) (name : List UInt8) {texts : List Source}
      (htexts : ∀ size, .indentBuf size ∉ texts) :
      Agrees level (steady (indentAt level) (nameSources (indentAt level) noName name ++ texts)) ([], true) := by
    refine agrees_steady fun size hsize => ?_
    rcases List.mem_append.mp hsize with h | h
    · exact nameSources_sizes h
    · exact absurd h (htexts size)
  induction elem using elem_induction with
  | hnull name =>
    intro noName level
    rw [elemCalls, levels]
    exact hvalue noName level name (by simp)
  | hbool name value =>
    intro noName level
    rw [elemCalls, levels]
    exact hvalue noName level name (by simp)
  | hnumber name num =>
    intro noName level
    rw [elemCalls, levels]
    refine Agrees.behind_steady ?_ fun size hsize => nameSources_sizes hsize
    by_cases hlong : 65 ≤ (ops.print num).length
    · rw [if_pos hlong, decide_eq_true hlong]
      exact ⟨rfl, nofun, nofun,
        nofun⟩
    · rw [if_neg hlong, decide_eq_false hlong]
      exact agrees_steady fun size hsize => by cases List.mem_singleton.mp hsize
  | hstring name str =>
    intro noName level
    rw [elemCalls, levels]
    exact hvalue noName level name (by simp)
  | harray name children ih =>
    intro noName level
    rw [elemCalls, levels]
    refine Agrees.behind_steady ?_ fun size hsize => nameSources_sizes hsize
    exact agrees_wrapCalls 91 93 (agrees_childCalls ops ih true (by simp) level)
      (agrees_childCalls ops ih true (by simp) (level + 1))
  | hobj name children ih =>
    intro noName level
    rw [elemCalls, levels]
    refine Agrees.behind_steady ?_ fun size hsize => nameSources_sizes hsize
    exact agrees_wrapCalls 123 125 (agrees_childCalls ops ih false (by simp) level)
      (agrees_childCalls ops ih false (by simp) (level + 1))

/-- Whenever the writer is called, the indentation is within `indent_buf`, and so are the bytes that are taken from it;
a writer that fails has been called `n` times. -/
def IndentInRange (elem : Elem F) : Prop :=
  ∀ n, ∀ c ∈ (elemCalls ops false elem 0).1.take n,
    c.indent ≤ maxIndent ∧ ∀ size, c.source = .indentBuf size → size ≤ maxIndent

/-- `pj_json_writef` stays in `indent_buf`, whatever the writer does, if and only if it comes to no list with names that
is inside 33 others. -/
theorem indentInRange_iff (elem : Elem F) : IndentInRange ops elem ↔ ∀ l ∈ (levels ops elem 0).1, l ≤ 33 := by
  have hagrees := agrees_elemCalls ops elem false 0
  have hzero : indentAt 0 = 0 := rfl
  rw [hzero] at hagrees
  constructor
  · intro h l hl
    obtain ⟨c, hc, heq⟩ := hagrees.levels l hl
    rw [← indentAt_le_iff, ← heq]
    refine (h (elemCalls ops false elem 0).1.length c ?_).1
    rwa [List.take_length]
  · intro h n c hc
    have hmem := List.mem_of_mem_take hc
    have hindent : c.indent ≤ maxIndent := by
      rcases hagrees.calls c hmem with heq | ⟨l, hl, heq⟩
      · rw [heq]
        exact Nat.zero_le _
      · rw [heq]
        exact (indentAt_le_iff l).mpr (h l hl)
    exact ⟨hindent, fun size hsize => (hagrees.sizes c hmem size hsize).le.trans hindent⟩

end

/-- Objects with one named member, one in the other. -/
def nested : Nat → Elem Nat
  | 0 => .null (ascii "a")
  | n + 1 => .obj (ascii "a") [nested n]

/-- With 34 objects the last one is indented by 102. -/
theorem indent_past_buf :
    (⟨102, .indentBuf 102⟩ : Call) ∈ (elemCalls natOps false (nested 34) 0).1 ∧ maxIndent < 102 := by
  decide +kernel

example : (levels natOps (nested 33) 0).1.all (· ≤ 33) = true := by decide

end PjProject.Json
