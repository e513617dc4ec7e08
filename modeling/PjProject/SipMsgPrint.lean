import PjProject.Numbers

/-! The printing of SIP messages (`sip_msg.c`) and of multipart bodies (`sip_multipart.c`) in a buffer. Both are straight lines
of steps for a given message: a check of the bytes that are left, a text that is copied without one, and a printer that gets
the bytes that are left as its size. What is not checked by itself has to fit by the checks before it. -/

namespace PjProject.MsgPrint

open Numbers (utoa written)

abbrev Str := List UInt8

/-- A printer that respects its size argument: it prints its text, or fails after it has written some of it. -/
structure Printer where
  text : Str
  prints : Nat → Bool
  wrote : Nat → Nat
  text_le : ∀ size, prints size = true → text.length ≤ size
  wrote_le : ∀ size, wrote size ≤ size

/-- A part of the printing code. A text is copied after a check of so many bytes, which are enough for it, or without one;
`ctype` is a checked header name and a media type of a body part. -/
inductive Step
  | need (k : Nat)
  | fail
  | checked (k : Nat) (text : Str) (enough : text.length ≤ k)
  | put (text : Str)
  | nul
  | call (printer : Printer) (reserve : Nat)
  | ctype (k : Nat) (hdr : Str) (enough : hdr.length ≤ k) (printer : Printer)
  | mark
  | clen

/-- What is between the start of the buffer and `p`, how far the buffer was written to, and where the bodies begin that are
being printed. -/
structure State where
  out : Str
  high : Nat
  marks : List Nat

def State.put (st : State) (text : Str) : State :=
  { st with out := st.out ++ text, high := max st.high (st.out.length + text.length) }

/-- The bytes that are left, as `pj_size_t`. -/
def room (size pos : Nat) : Nat := (((size : Int) - pos) % 2 ^ 32).toNat

/-- `pj_memcpy` over what is there. -/
def overwrite (out : Str) (pos : Nat) : Str → Str
  | [] => out
  | c :: more => overwrite (out.set pos c) (pos + 1) more

/-- `CLEN_SPACE`, for a `PJSIP_MAX_PKT_LEN` of 4000. -/
def clenSpace : Nat := 4

/-- The length of the body that began at the mark, right-aligned in the blanks of its Content-Length header. -/
def State.setClen (st : State) (start : Nat) (marks : List Nat) : State :=
  let digits := written (utoa (st.out.length - start))
  { st with out := overwrite st.out (start - 4 - digits.length) digits, marks }

/-- The run of the code in a buffer: `none` stands for a negative value. -/
def run (size : Nat) : List Step → State → Option Nat × State
  | [], st => (some st.out.length, st)
  | .need k :: more, st => if size < st.out.length + k then (none, st) else run size more st
  | .fail :: _, st => (none, st)
  | .checked k text _ :: more, st => if size < st.out.length + k then (none, st) else run size more (st.put text)
  | .put text :: more, st => run size more (st.put text)
  | .nul :: more, st => run size more { st with high := max st.high (st.out.length + 1) }
  | .call printer reserve :: more, st =>
    let left := room size (st.out.length + reserve)
    if printer.prints left then run size more (st.put printer.text)
    else (none, { st with high := max st.high (st.out.length + printer.wrote left) })
  | .ctype k hdr _ printer :: more, st =>
    let left := room size (st.out.length + hdr.length)
    if size < st.out.length + k then (none, st)
    else if printer.prints left then run size more ((st.put hdr).put printer.text)
    else
      -- the printer returns -1, which is added to `p`
      run size more
        { st with
          out := st.out ++ hdr.dropLast
          high := max st.high (st.out.length + hdr.length + printer.wrote left) }
  | .mark :: more, st => run size more { st with marks := st.out.length :: st.marks }
  | .clen :: more, st =>
    match st.marks with
    | [] => run size more st
    | start :: marks =>
      if clenSpace < (written (utoa (st.out.length - start))).length then (none, st)
      else run size more (st.setClen start marks)

/-- `pjsip_media_type`. -/
structure Media where
  type : Str
  subtype : Str
  params : Printer

/-- `print_media_type`. -/
def printMediaType (media : Media) : Printer where
  text := media.type ++ 47 :: (media.subtype ++ media.params.text)
  prints len := media.type.length < len && media.subtype.length ≤ len - media.type.length - 1 &&
    media.params.prints (len - media.type.length - 1 - media.subtype.length)
  wrote len :=
    if media.type.length < len ∧ media.subtype.length ≤ len - media.type.length - 1 then
      media.type.length + 1 + media.subtype.length +
        media.params.wrote (len - media.type.length - 1 - media.subtype.length)
    else 0
  text_le len hprints := by
    simp only [Bool.and_eq_true, decide_eq_true_eq] at hprints
    have := media.params.text_le _ hprints.2
    simp only [List.length_append, List.length_cons]
    omega
  wrote_le len := by
    have := media.params.wrote_le (len - media.type.length - 1 - media.subtype.length)
    split <;> omega

/-- `pjsip_print_text_body`. -/
def printTextBody (data : Str) : Printer where
  text := data
  prints size := data.length ≤ size
  wrote _ := 0
  text_le _ hprints := of_decide_eq_true hprints
  wrote_le _ := Nat.zero_le _

/-- A header of a body part; the Content-Type header is known by its `type`. -/
structure PartHdr where
  printer : Printer
  isContentType : Bool

mutual

/-- `pjsip_msg_body`. -/
inductive Body
  | text (contentType : Media) (data : Str)
  | multipart (contentType : Media) (boundary : Str) (parts : Parts)

/-- The list of `pjsip_multipart_part`. -/
inductive Parts
  | nil
  | bare (hdr : List PartHdr) (more : Parts)
  | cons (hdr : List PartHdr) (body : Body) (more : Parts)

end

def Body.contentType : Body → Media
  | .text contentType _ => contentType
  | .multipart contentType _ _ => contentType

def crlf : Str := [13, 10]

/-- The names of the headers, which depend on `use_compact_form`; in a multipart body Content-Length is not shortened. -/
def clenHdr (compact : Bool) : Str := if compact then ascii "l: " else ascii "Content-Length: "

def ctypeHdr (compact : Bool) : Str := if compact then ascii "c: " else ascii "Content-Type: "

/-- The end of the headers, with a Content-Length header that has blanks for the length. -/
def clenText (compact : Bool) : Str := clenHdr compact ++ List.replicate clenSpace 32 ++ crlf ++ crlf

theorem clenText_enough (compact : Bool) : (clenText compact).length ≤ (clenHdr compact).length + clenSpace + 4 := by
  simp [clenText, crlf]
  omega

theorem ctypeHdr_enough (compact : Bool) (n : Nat) : (ctypeHdr compact).length ≤ 24 + n := by
  have hshort : (ctypeHdr compact).length ≤ 24 := by cases compact <;> decide
  omega

def delimiter (boundary : Str) : Str := crlf ++ 45 :: 45 :: boundary

def hdrSteps (boundary : Str) (hdr : List PartHdr) : List Step :=
  .checked ((boundary.length + 8) * 2 + 1) (delimiter boundary ++ crlf) (by simp [delimiter, crlf]; omega) ::
    hdr.flatMap fun h => [.call h.printer 2, .put crlf]

mutual

/-- `print_body`: `pjsip_print_text_body` or `multipart_print_body`. -/
def Body.steps (compact : Bool) : Body → List Step
  | .text _ data => [.call (printTextBody data) 0]
  | .multipart _ _ .nil => [.fail]
  | .multipart _ boundary parts =>
    parts.steps compact boundary ++
      [.checked (boundary.length + 8) (delimiter boundary ++ 45 :: 45 :: crlf) (by simp [delimiter, crlf])]

/-- The loop of `multipart_print_body`. Content-Type and Content-Length are printed for a body with a type if there is no
Content-Type header yet. -/
def Parts.steps (compact : Bool) (boundary : Str) : Parts → List Step
  | .nil => []
  | .bare hdr more => hdrSteps boundary hdr ++ [.put crlf] ++ more.steps compact boundary
  | .cons hdr body more =>
    let media := body.contentType
    hdrSteps boundary hdr ++
      (if media.type ≠ [] ∧ hdr.all (fun h => !h.isContentType) then
        [.ctype (24 + (media.type.length + media.subtype.length)) (ctypeHdr compact) (ctypeHdr_enough compact _)
            (printMediaType media),
          .put crlf, .checked ((clenHdr false).length + clenSpace + 4) (clenText false) (clenText_enough false), .mark] ++
          body.steps compact ++ [.clen]
      else [.put crlf] ++ body.steps compact) ++
      more.steps compact boundary

end

/-- `pjsip_request_line` and `pjsip_status_line`. -/
inductive StartLine
  | request (method : Str) (uri : Printer)
  | status (code : UInt32) (reason : Str)

/-- `pjsip_msg`. -/
structure Msg where
  line : StartLine
  hdr : List Printer
  body : Option Body

def StartLine.steps : StartLine → List Step
  | .request method uri =>
    [.put (method ++ [32]), .call uri 0] ++
      if uri.text = [] then [.fail] else [.checked 16 (ascii " SIP/2.0" ++ crlf) (by decide)]
  | .status code reason => [.put (ascii "SIP/2.0 " ++ written (utoa code.toNat) ++ 32 :: (reason ++ crlf))]

/-- A header that prints nothing has no line. -/
def msgHdrSteps (printer : Printer) : List Step :=
  .call printer 0 :: if printer.text = [] then [] else [.checked 4 crlf (by decide)]

/-- `pjsip_msg_print` after its first check. -/
def Msg.steps (compact : Bool) (msg : Msg) : List Step :=
  msg.line.steps ++ msg.hdr.flatMap msgHdrSteps ++
    (match msg.body with
    | none =>
      [.checked ((clenHdr compact).length + 8) (clenHdr compact ++ 32 :: 48 :: (crlf ++ crlf)) (by simp [crlf])]
    | some body =>
      let media := body.contentType
      if media.type ≠ [] then
        [.checked (24 + (media.type.length + media.subtype.length)) (ctypeHdr compact) (ctypeHdr_enough compact _),
          .call (printMediaType media) 0, .put crlf,
          .checked ((clenHdr compact).length + clenSpace + 4) (clenText compact) (clenText_enough compact), .mark] ++
          body.steps compact ++ [.need 0, .clen]
      else [.put crlf] ++ body.steps compact ++ [.need 0]) ++
    [.nul]

def start : State := { out := [], high := 0, marks := [] }

/-- `pjsip_msg_print`. -/
def msgPrint (compact : Bool) (msg : Msg) (size : Nat) : Option Nat × State :=
  if size < 256 then (none, start) else run size (msg.steps compact) start

/-- `multipart_print_body` of a multipart body. -/
def printBody (compact : Bool) (body : Body) (size : Nat) : Option Nat × State := run size (body.steps compact) start

/-- The number of bytes of the complete text. -/
def total : List Step → Nat
  | [] => 0
  | .checked _ text _ :: more | .put text :: more => text.length + total more
  | .call printer _ :: more => printer.text.length + total more
  | .ctype _ hdr _ printer :: more => hdr.length + printer.text.length + total more
  | .need _ :: more | .fail :: more | .nul :: more | .mark :: more | .clen :: more => total more

/-- The number of bytes that a printer writes. -/
def Printer.reach (printer : Printer) (left : Nat) : Nat :=
  if printer.prints left then printer.text.length else printer.wrote left

/-- What is written without a check fits, as far as the checks and printers on the way let the code come to it. A printer
needs its reserve; when it is not there, its size argument is a number near `2 ^ 32`. A media type of a body part that does
not fit is left out, and `lost` is the part of the text that is left out. -/
def Fits (size : Nat) : List Step → Nat → List Nat → Nat → Prop
  | [], _, _, lost => lost = 0
  | .need k :: more, pos, marks, lost => pos + k ≤ size → Fits size more pos marks lost
  | .fail :: _, _, _, _ => True
  | .checked k text _ :: more, pos, marks, lost => pos + k ≤ size → Fits size more (pos + text.length) marks lost
  | .put text :: more, pos, marks, lost => pos + text.length ≤ size ∧ Fits size more (pos + text.length) marks lost
  | .nul :: more, pos, marks, lost => pos + 1 ≤ size ∧ Fits size more pos marks lost
  | .call printer reserve :: more, pos, marks, lost =>
    (size < pos + reserve → pos + printer.reach (room size (pos + reserve)) ≤ size) ∧
      (printer.prints (room size (pos + reserve)) = true → Fits size more (pos + printer.text.length) marks lost)
  | .ctype k hdr _ printer :: more, pos, marks, lost =>
    pos + k ≤ size →
      if printer.prints (room size (pos + hdr.length)) then
        Fits size more (pos + hdr.length + printer.text.length) marks lost
      else
        Fits size more (pos + (hdr.length - 1)) marks (lost + (hdr.length - (hdr.length - 1)) + printer.text.length)
  | .mark :: more, pos, marks, lost => Fits size more pos (pos :: marks) lost
  | .clen :: more, pos, [], lost => Fits size more pos [] lost
  | .clen :: more, pos, begin :: marks, lost =>
    (written (utoa (pos - begin))).length ≤ clenSpace → Fits size more pos marks lost

/-- Nothing is written behind the end of the buffer, and what is returned is negative or the number of bytes. -/
def Respects (size count : Nat) (result : Option Nat × State) : Prop :=
  result.2.high ≤ size ∧ ∀ ret, result.1 = some ret → ret = count

@[simp] theorem length_overwrite (out : Str) (pos : Nat) (text : Str) : (overwrite out pos text).length = out.length := by
  induction text generalizing out pos with
  | nil => rfl
  | cons c more ih => rw [overwrite, ih, List.length_set]

theorem room_le {size pos : Nat} (h : pos ≤ size) : pos + room size pos ≤ size := by
  unfold room
  omega

theorem reach_le (printer : Printer) (left : Nat) : printer.reach left ≤ left := by
  unfold Printer.reach
  split
  · exact printer.text_le left ‹_›
  · exact printer.wrote_le left

/-- A run that goes on from `st` respects the buffer when it has done so until now and what is left fits. -/
theorem respects_run_iff (size : Nat) (steps : List Step) {st : State} (hst : st.out.length ≤ st.high) (lost : Nat) :
    Respects size (st.out.length + lost + total steps) (run size steps st) ↔
      st.high ≤ size ∧ Fits size steps st.out.length st.marks lost := by
  induction steps generalizing st lost with
  | nil => simp [run, Respects, total, Fits]
  | cons step more ih =>
    have hput (text : Str) : Respects size (st.out.length + lost + (text.length + total more)) (run size more (st.put text)) ↔
        (st.high ≤ size ∧ st.out.length + text.length ≤ size) ∧
          Fits size more (st.out.length + text.length) st.marks lost := by
      have hnext : (st.put text).out.length ≤ (st.put text).high := by
        simp only [State.put, List.length_append]
        exact le_max_right _ _
      have h := ih hnext lost
      simp only [State.put, List.length_append, max_le_iff] at h
      rw [← h, show st.out.length + lost + (text.length + total more) = st.out.length + text.length + lost + total more by omega]
      rfl
    cases step with
    | need k =>
      by_cases hleft : size < st.out.length + k
      · simp [run, Fits, Respects, hleft, Nat.not_le.mpr hleft]
      · simpa [run, Fits, total, hleft, Nat.not_lt.mp hleft] using ih hst lost
    | fail => simp [run, Fits, Respects]
    | checked k text enough =>
      by_cases hleft : size < st.out.length + k
      · simp [run, Fits, Respects, hleft, Nat.not_le.mpr hleft]
      · have hroom : st.out.length + text.length ≤ size := by omega
        rw [run, if_neg hleft, total, hput, Fits, imp_iff_right (Nat.not_lt.mp hleft), and_iff_left hroom]
    | put text => rw [run, total, hput, Fits, and_assoc]
    | nul =>
      have h := @ih { st with high := max st.high (st.out.length + 1) } (le_max_of_le_left hst) lost
      rw [run, total, Fits, h, max_le_iff, and_assoc]
    | call printer reserve =>
      simp only [run, total, Fits]
      generalize hleft : room size (st.out.length + reserve) = left
      generalize hmore : Fits size more (st.out.length + printer.text.length) st.marks lost = fits
      have hreach (hhigh : st.high ≤ size) : (size < st.out.length + reserve → st.out.length + printer.reach left ≤ size) ↔
          st.out.length + printer.reach left ≤ size := by
        refine ⟨fun h => ?_, fun h _ => h⟩
        by_cases hroom : size < st.out.length + reserve
        · exact h hroom
        · have := room_le (Nat.not_lt.mp hroom)
          have := reach_le printer left
          omega
      have hsplit : (st.high ≤ size ∧ (size < st.out.length + reserve → st.out.length + printer.reach left ≤ size) ∧
          (printer.prints left = true → fits)) ↔
          (st.high ≤ size ∧ st.out.length + printer.reach left ≤ size) ∧ (printer.prints left = true → fits) := by
        rw [and_assoc]
        exact and_congr_right fun hhigh => and_congr_left fun _ => hreach hhigh
      rw [hsplit]
      by_cases hprints : printer.prints left = true
      · rw [if_pos hprints, hput, hmore, Printer.reach, if_pos hprints, imp_iff_right hprints]
      · simp [Respects, Printer.reach, hprints]
    | ctype k hdr enough printer =>
      simp only [run, total, Fits]
      by_cases hleft : size < st.out.length + k
      · simp [Respects, hleft, Nat.not_le.mpr hleft]
      · have hroom := room_le (show st.out.length + hdr.length ≤ size by omega)
        rw [if_neg hleft, imp_iff_right (Nat.not_lt.mp hleft)]
        generalize room size (st.out.length + hdr.length) = left at hroom
        have hreach := reach_le printer left
        by_cases hprints : printer.prints left = true
        · have hnext : ((st.put hdr).put printer.text).out.length ≤ ((st.put hdr).put printer.text).high := by
            simp only [State.put, List.length_append]
            exact le_max_right _ _
          have h := ih hnext lost
          have hlen : ((st.put hdr).put printer.text).out.length = st.out.length + hdr.length + printer.text.length := by
            simp only [State.put, List.length_append]
          have hhigh : ((st.put hdr).put printer.text).high = max (max st.high (st.out.length + hdr.length))
              (st.out.length + hdr.length + printer.text.length) := by
            simp only [State.put, List.length_append]
          rw [hlen, hhigh, max_le_iff, max_le_iff] at h
          rw [Printer.reach, if_pos hprints] at hreach
          rw [if_pos hprints, if_pos hprints, show st.out.length + lost + (hdr.length + printer.text.length + total more) =
            st.out.length + hdr.length + printer.text.length + lost + total more by omega]
          refine h.trans (and_congr_left fun _ => ⟨fun hhigh => hhigh.1.1, fun hhigh => ⟨⟨hhigh, ?_⟩, ?_⟩⟩) <;> omega
        · rw [Printer.reach, if_neg hprints] at hreach
          have h := @ih { st with
            out := st.out ++ hdr.dropLast
            high := max st.high (st.out.length + hdr.length + printer.wrote left) } (by
              simp only [List.length_append, List.length_dropLast]
              omega) (lost + (hdr.length - (hdr.length - 1)) + printer.text.length)
          simp only [List.length_append, List.length_dropLast, max_le_iff] at h
          rw [if_neg hprints, if_neg hprints, show st.out.length + lost + (hdr.length + printer.text.length + total more) =
            st.out.length + (hdr.length - 1) + (lost + (hdr.length - (hdr.length - 1)) + printer.text.length) +
              total more by omega]
          exact h.trans (and_congr_left fun _ => ⟨fun hhigh => hhigh.1, fun hhigh => ⟨hhigh, by omega⟩⟩)
    | mark => exact @ih { st with marks := st.out.length :: st.marks } hst lost
    | clen =>
      rw [run, total]
      cases hmarks : st.marks with
      | nil =>
        rw [Fits]
        have h := ih hst lost
        rw [hmarks] at h
        exact h
      | cons begin marks =>
        rw [Fits]
        by_cases hdigits : clenSpace < (written (utoa (st.out.length - begin))).length
        · simp [Respects, hdigits, Nat.not_le.mpr hdigits]
        · have h := @ih (st.setClen begin marks) (by simpa [State.setClen] using hst) lost
          simp only [State.setClen, length_overwrite] at h
          simpa [hdigits, Nat.not_lt.mp hdigits, State.setClen] using h

/-- A body is printed within its buffer and completely, or not, exactly when what is written without a check fits. -/
theorem respects_printBody_iff (compact : Bool) (body : Body) (size : Nat) :
    Respects size (total (body.steps compact)) (printBody compact body size) ↔ Fits size (body.steps compact) 0 [] 0 := by
  simpa [start, printBody] using @respects_run_iff size (body.steps compact) start le_rfl 0

theorem respects_msgPrint_iff (compact : Bool) (msg : Msg) (size : Nat) :
    Respects size (total (msg.steps compact)) (msgPrint compact msg size) ↔
      size < 256 ∨ Fits size (msg.steps compact) 0 [] 0 := by
  unfold msgPrint
  by_cases hsize : size < 256
  · simp [Respects, start, hsize]
  · simpa [start, hsize] using @respects_run_iff size (msg.steps compact) start le_rfl 0

/-- Messages and multipart bodies are printed within their buffer exactly when what is written without a check fits. -/
theorem printing_respects_iff (compact : Bool) (msg : Msg) (contentType : Media) (boundary : Str) (parts : Parts) (size : Nat) :
    (Respects size (total (msg.steps compact)) (msgPrint compact msg size) ↔
        size < 256 ∨ Fits size (msg.steps compact) 0 [] 0) ∧
      (Respects size (total ((Body.multipart contentType boundary parts).steps compact))
          (printBody compact (.multipart contentType boundary parts) size) ↔
        Fits size ((Body.multipart contentType boundary parts).steps compact) 0 [] 0) :=
  ⟨respects_msgPrint_iff compact msg size, respects_printBody_iff compact _ size⟩

/-- `INFO sip:a` with a body of 234 bytes and nothing else. -/
def full : Msg where
  line := .request [73, 78, 70, 79] (printTextBody [115, 105, 112, 58, 97])
  hdr := []
  body := some (.text ⟨[], [], printTextBody []⟩ (List.replicate 234 65))

/-- The terminating zero of a message that fills the buffer is behind its end. -/
theorem full_overflows : ¬ Respects 256 (total (full.steps false)) (msgPrint false full 256) := by
  have hversion : (ascii " SIP/2.0" ++ crlf).length = 10 := by decide
  have hcrlf : crlf.length = 2 := rfl
  rw [respects_msgPrint_iff]
  simp only [full, Msg.steps, StartLine.steps, Body.steps, Body.contentType, printTextBody, List.flatMap_nil,
    List.append_nil, ne_eq, not_true_eq_false, if_false, reduceCtorEq, List.cons_append, List.nil_append, Fits, hversion,
    hcrlf, List.length_cons, List.length_nil, List.length_replicate]
  simp [room]

end PjProject.MsgPrint
