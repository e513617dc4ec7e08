import PjProject.SipMsgPrint

/-! The text of a multipart body. A run of the printing code that leaves nothing out has printed the text that is known from the
body, with the lengths of its parts in the blanks of their Content-Length headers. -/

namespace PjProject.MsgPrint

open Numbers (utoa written)

/-! The text of a body. -/

/-- A Content-Length line, with the length right-aligned. -/
def clenLine (len : Nat) : Str :=
  clenHdr false ++ (List.replicate (clenSpace - (written (utoa len)).length) 32 ++ written (utoa len))

/-- Content-Type and Content-Length are added to the headers of the part. -/
def addsType (hdr : List PartHdr) (media : Media) : Prop := media.type ≠ [] ∧ hdr.all (fun h => !h.isContentType)

instance (hdr : List PartHdr) (media : Media) : Decidable (addsType hdr media) := inferInstanceAs (Decidable (_ ∧ _))

def partLines (compact : Bool) (hdr : List PartHdr) (media : Media) (len : Nat) : List Str :=
  hdr.map (·.printer.text) ++
    if addsType hdr media then [ctypeHdr compact ++ (printMediaType media).text, clenLine len] else []

def ended (lines : List Str) : Str := lines.flatMap (· ++ crlf)

theorem ended_append (lines lines' : List Str) : ended (lines ++ lines') = ended lines ++ ended lines' :=
  List.flatMap_append

theorem ctypeHdr_ne_nil (compact : Bool) : ctypeHdr compact ≠ [] := by
  cases compact <;> decide

mutual

def Body.printed (compact : Bool) : Body → Str
  | .text _ data => data
  | .multipart _ boundary parts => parts.printed compact boundary ++ (delimiter boundary ++ 45 :: 45 :: crlf)

def Parts.printed (compact : Bool) (boundary : Str) : Parts → Str
  | .nil => []
  | .bare hdr more => delimiter boundary ++ crlf ++ (ended (hdr.map (·.printer.text)) ++ crlf ++ more.printed compact boundary)
  | .cons hdr body more =>
    delimiter boundary ++ crlf ++
      (ended (partLines compact hdr body.contentType (body.printed compact).length) ++ crlf ++ body.printed compact ++
        more.printed compact boundary)

end

/-! Runs that print everything. -/

/-- The run of the code comes to its end, and nothing was left out. -/
def Complete (size : Nat) (steps : List Step) (st : State) (n : Nat) (last : State) : Prop :=
  run size steps st = (some n, last) ∧ n = st.out.length + total steps

def Prints (size : Nat) (steps : List Step) (text : Str) : Prop :=
  ∀ rest st n last, Complete size (steps ++ rest) st n last →
    ∃ next : State, next.out = st.out ++ text ∧ next.marks = st.marks ∧ Complete size rest next n last

theorem setClen_out_length (st : State) (start : Nat) (marks : List Nat) :
    (st.setClen start marks).out.length = st.out.length := length_overwrite _ _ _

theorem run_le (size : Nat) (steps : List Step) {st last : State} {n : Nat} (h : run size steps st = (some n, last)) :
    n ≤ st.out.length + total steps := by
  induction steps generalizing st with
  | nil =>
    rw [run] at h
    have := Option.some.inj (Prod.mk.inj h).1
    omega
  | cons step more ih =>
    have hput (text : Str) (h : run size more (st.put text) = (some n, last)) :
        n ≤ st.out.length + (text.length + total more) := by
      have hle := ih h
      simp only [State.put, List.length_append] at hle
      omega
    cases step with
    | need k =>
      rw [run] at h
      split_ifs at h
      · cases h
      · exact ih h
    | fail => cases h
    | checked k text enough =>
      rw [run] at h
      split_ifs at h
      · cases h
      · exact hput text h
    | put text => exact hput text h
    | nul =>
      rw [run] at h
      have hle := ih h
      exact hle
    | call printer reserve =>
      rw [run] at h
      split_ifs at h
      · exact hput printer.text h
      · cases h
    | ctype k hdr enough printer =>
      rw [run] at h
      split_ifs at h
      · cases h
      all_goals
        have hle := ih h
        simp only [State.put, List.length_append, List.length_dropLast] at hle
        rw [total]
        omega
    | mark =>
      rw [run] at h
      have hle := ih h
      exact hle
    | clen =>
      rw [run] at h
      split at h
      · exact ih h
      · split_ifs at h
        · cases h
        · have hle := ih h
          rw [setClen_out_length] at hle
          exact hle

section Prints

variable {size : Nat}

theorem Prints.nil : Prints size [] [] :=
  fun _ st _ _ h => ⟨st, (List.append_nil _).symm, rfl, h⟩

theorem Prints.append {a b : List Step} {x y : Str} (ha : Prints size a x) (hb : Prints size b y) :
    Prints size (a ++ b) (x ++ y) := by
  intro rest st n last h
  rw [List.append_assoc] at h
  obtain ⟨mid, hout, hmarks, hmid⟩ := ha (b ++ rest) st n last h
  obtain ⟨next, hout', hmarks', hnext⟩ := hb rest mid n last hmid
  exact ⟨next, by rw [hout', hout, List.append_assoc], hmarks'.trans hmarks, hnext⟩

theorem prints_put (text : Str) : Prints size [.put text] text := by
  intro rest st n last h
  refine ⟨st.put text, rfl, rfl, h.1, ?_⟩
  have hn := h.2
  simp only [List.cons_append, List.nil_append, total] at hn
  simp only [State.put, List.length_append]
  omega

theorem prints_checked {k : Nat} {text : Str} (enough : text.length ≤ k) : Prints size [.checked k text enough] text := by
  intro rest st n last h
  obtain ⟨hrun, hn⟩ := h
  simp only [List.cons_append, List.nil_append, run, total] at hrun hn
  split_ifs at hrun
  · cases hrun
  · refine ⟨st.put text, rfl, rfl, hrun, ?_⟩
    simp only [State.put, List.length_append]
    omega

theorem prints_call (printer : Printer) (reserve : Nat) : Prints size [.call printer reserve] printer.text := by
  intro rest st n last h
  obtain ⟨hrun, hn⟩ := h
  simp only [List.cons_append, List.nil_append, run, total] at hrun hn
  split_ifs at hrun
  · refine ⟨st.put printer.text, rfl, rfl, hrun, ?_⟩
    simp only [State.put, List.length_append]
    omega
  · cases hrun

/-- A media type that is left out makes the text shorter. -/
theorem prints_ctype {k : Nat} {hdr : Str} (enough : hdr.length ≤ k) (printer : Printer) (hne : hdr ≠ []) :
    Prints size [.ctype k hdr enough printer] (hdr ++ printer.text) := by
  intro rest st n last h
  obtain ⟨hrun, hn⟩ := h
  simp only [List.cons_append, List.nil_append, run, total] at hrun hn
  split_ifs at hrun
  · cases hrun
  · refine ⟨(st.put hdr).put printer.text, List.append_assoc _ _ _, rfl, hrun, ?_⟩
    simp only [State.put, List.length_append]
    omega
  · have hle := run_le size rest hrun
    have hpos := List.length_pos_iff.mpr hne
    simp only [List.length_append, List.length_dropLast] at hle
    omega

theorem overwrite_append (front old back text : Str) (h : text.length = old.length) :
    overwrite (front ++ (old ++ back)) front.length text = front ++ (text ++ back) := by
  induction text generalizing front old with
  | nil =>
    rw [List.length_eq_zero_iff.mp h.symm]
    rfl
  | cons c text ih =>
    cases old with
    | nil => cases h
    | cons d old =>
      rw [overwrite, List.cons_append, List.set_append_right _ _ le_rfl, Nat.sub_self, List.set_cons_zero]
      have hmore := ih (front ++ [c]) old (Nat.succ.inj h)
      rw [List.length_append, List.append_assoc, List.append_assoc] at hmore
      exact hmore

/-- A body behind its Content-Length header. -/
theorem prints_clen {steps : List Step} {text : Str} {k : Nat} (enough : (clenText false).length ≤ k)
    (h : Prints size steps text) :
    Prints size ([.checked k (clenText false) enough, .mark] ++ steps ++ [.clen])
      (clenLine text.length ++ crlf ++ crlf ++ text) := by
  intro rest st n last hall
  obtain ⟨st1, hout1, hmarks1, h1⟩ := prints_checked enough (.mark :: (steps ++ .clen :: rest)) st n last (by simpa using hall)
  have hmarked : Complete size (steps ++ .clen :: rest) { st1 with marks := st1.out.length :: st1.marks } n last := by
    obtain ⟨hrun, hn⟩ := h1
    rw [run] at hrun
    exact ⟨hrun, hn⟩
  obtain ⟨st2, hout2, hmarks2, hrun, hn⟩ := h (.clen :: rest) _ n last hmarked
  rw [run, hmarks2] at hrun
  dsimp only at hrun hout2
  have hlen : st2.out.length - st1.out.length = text.length := by
    rw [hout2, List.length_append, Nat.add_sub_cancel_left]
  split_ifs at hrun with hdigits
  · cases hrun
  · rw [hlen] at hdigits
    refine ⟨st2.setClen st1.out.length st1.marks, ?_, hmarks1, hrun, ?_⟩
    · rw [State.setClen]
      dsimp only
      rw [hlen, hout2, hout1]
      generalize hd : written (utoa text.length) = digits at hdigits
      have hblank : List.replicate clenSpace (32 : UInt8) =
          List.replicate (clenSpace - digits.length) 32 ++ List.replicate digits.length 32 := by
        rw [List.replicate_append_replicate, Nat.sub_add_cancel (Nat.le_of_not_lt hdigits)]
      have hover := overwrite_append (st.out ++ (clenHdr false ++ List.replicate (clenSpace - digits.length) 32))
        (List.replicate digits.length 32) (crlf ++ (crlf ++ text)) digits List.length_replicate.symm
      have hpos : (st.out ++ (clenHdr false ++ List.replicate (clenSpace - digits.length) 32)).length =
          (st.out ++ clenText false).length - 4 - digits.length := by
        simp only [clenText, crlf, clenSpace, List.length_append, List.length_replicate, List.length_cons, List.length_nil]
        have : digits.length ≤ 4 := Nat.le_of_not_lt hdigits
        omega
      rw [← hpos, clenLine, hd, clenText, hblank]
      simp only [List.append_assoc] at hover ⊢
      exact hover
    · rw [setClen_out_length]
      exact hn

theorem prints_hdrs (hdr : List PartHdr) :
    Prints size (hdr.flatMap fun h => [.call h.printer 2, .put crlf]) (ended (hdr.map (·.printer.text))) := by
  induction hdr with
  | nil => exact Prints.nil
  | cons h hdr ih => exact ((prints_call h.printer 2).append (prints_put crlf)).append ih

theorem prints_hdrSteps (boundary : Str) (hdr : List PartHdr) :
    Prints size (hdrSteps boundary hdr) (delimiter boundary ++ crlf ++ ended (hdr.map (·.printer.text))) :=
  (prints_checked _).append (prints_hdrs hdr)

mutual

theorem prints_body (compact : Bool) : (body : Body) → Prints size (body.steps compact) (body.printed compact)
  | .text _ data => prints_call (printTextBody data) 0
  | .multipart contentType boundary parts => by
      have hparts := prints_parts compact boundary parts
      cases parts with
      | nil =>
        intro rest st n last h
        cases h.1
      | bare hdr more => exact hparts.append (prints_checked _)
      | cons hdr body more => exact hparts.append (prints_checked _)

theorem prints_parts (compact : Bool) (boundary : Str) :
    (parts : Parts) → Prints size (parts.steps compact boundary) (parts.printed compact boundary)
  | .nil => Prints.nil
  | .bare hdr more => by
      have hall := ((prints_hdrSteps boundary hdr).append (prints_put crlf)).append (prints_parts compact boundary more)
      simp only [List.append_assoc] at hall
      simpa only [Parts.steps, Parts.printed, List.append_assoc] using hall
  | .cons hdr body more => by
      have hbody := prints_body compact body
      have hhdr : Prints size _ _ := prints_hdrSteps boundary hdr
      have hmore := prints_parts compact boundary more
      by_cases hadds : body.contentType.type ≠ [] ∧ hdr.all (fun h => !h.isContentType)
      · have htype : Prints size _ _ := (prints_ctype
          (ctypeHdr_enough compact (body.contentType.type.length + body.contentType.subtype.length))
          (printMediaType body.contentType) (ctypeHdr_ne_nil compact)).append (prints_put crlf)
        have hall := (hhdr.append (htype.append (prints_clen (clenText_enough false) hbody))).append hmore
        have hlines : partLines compact hdr body.contentType (body.printed compact).length = hdr.map (·.printer.text) ++
            [ctypeHdr compact ++ (printMediaType body.contentType).text, clenLine (body.printed compact).length] := by
          exact congrArg _ (if_pos hadds)
        rw [Parts.steps, if_pos hadds, Parts.printed, hlines, ended_append]
        simpa [ended, List.append_assoc] using hall
      · have hall := (hhdr.append ((prints_put crlf).append hbody)).append hmore
        have hlines : partLines compact hdr body.contentType (body.printed compact).length = hdr.map (·.printer.text) := by
          exact (congrArg _ (if_neg hadds)).trans (List.append_nil _)
        rw [Parts.steps, if_neg hadds, Parts.printed, hlines]
        simpa only [List.append_assoc] using hall

end

end Prints

end PjProject.MsgPrint
