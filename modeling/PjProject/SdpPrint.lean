import PjProject.Sdp
import PjProject.SockaddrRoundTrip

/-! The buffer that a session description is printed in (`pjmedia_sdp_print`). Every line, and every format of a media
line, is written after a check that so many bytes are left. The lengths are numbers of 32 bits, signed or not as the
source has them, and what is left of the buffer is a difference of pointers. A number that is printed is ended by a null
character, which the next character of the line overwrites. -/

namespace PjProject.Sdp

open Sock (decimal)

inductive Line
  | version
  | origin (o : Origin)
  | name (str : Str)
  | conn (c : Conn)
  | bandw (b : Bandw)
  | time (start stop : Nat)
  | attr (a : Attr)
  | media (m : Media)
  | other
  deriving DecidableEq, Repr

def crlf : Str := [13, 10]

/-- `%.*s` of `snprintf` stops at a null character. -/
def cut (str : Str) : Str := str.takeWhile (· != 0)

def Line.text : Line → Str
  | .version => ascii "v=0" ++ crlf
  | .origin o =>
    ascii "o=" ++ o.user ++ [32] ++ decimal o.id ++ [32] ++ decimal o.version ++ [32] ++ o.netType ++ [32] ++ o.addrType ++
      [32] ++ o.addr ++ crlf
  | .name str => ascii "s=" ++ str ++ crlf
  | .conn c => ascii "c=" ++ cut c.netType ++ [32] ++ cut c.addrType ++ [32] ++ cut c.addr ++ crlf
  | .bandw b => ascii "b=" ++ b.modifier ++ [58] ++ decimal b.value ++ crlf
  | .time start stop => ascii "t=" ++ decimal start ++ [32] ++ decimal stop ++ crlf
  | .attr a => ascii "a=" ++ a.name ++ (if a.value ≠ [] then 58 :: a.value else []) ++ crlf
  | .media m =>
    ascii "m=" ++ m.media ++ [32] ++ decimal m.port ++ (if 1 < m.portCount then 47 :: decimal m.portCount else []) ++
      [32] ++ m.transport ++ m.fmt.flatMap (fun fmt => 32 :: fmt) ++ crlf
  | .other => []

/-! The lines of a session. -/

/-- The fields of the media line itself. -/
def Media.head (m : Media) : Media := { m with conn := none, bandw := [], attr := [] }

def mediaLines (m : Media) : List Line :=
  .media m.head :: (m.conn.toList.map Line.conn ++ m.bandw.map Line.bandw ++ m.attr.map Line.attr)

def sessionLines (s : Session) : List Line :=
  [.version, .origin s.origin, .name s.name] ++ s.conn.toList.map Line.conn ++ s.bandw.map Line.bandw ++
    [.time s.start s.stop] ++ s.attr.map Line.attr ++ s.media.flatMap mediaLines

end PjProject.Sdp

namespace PjProject.SdpPrint

open Sdp (Str Session Media Conn Bandw Attr Line Origin crlf cut sessionLines mediaLines)
open Sock (decimal)

/-- A number as `int` and `pj_ssize_t`, and as `pj_size_t`. -/
def int32 (x : Int) : Int := Int.bmod x 4294967296
def size32 (x : Int) : Int := x % 4294967296

/-- What a printing function has done: the bytes it has written are the first `touched` from where it starts, and it has
returned the length of the text, or -1. -/
structure Printed where
  touched : Nat
  text : Option Str
  deriving DecidableEq, Repr

/-- A printing function, when so many bytes are left up to the end of the buffer. -/
abbrev Printer := Int → Printed

/-- A text is written if the check of the bytes that are left succeeds. -/
def put (check : Int → Bool) (text : Str) : Printer := fun left =>
  if check left then ⟨text.length, some text⟩ else ⟨0, none⟩

/-- The second function goes on behind the text of the first. -/
def Printer.andThen (f g : Printer) : Printer := fun left =>
  match (f left).text with
  | none => f left
  | some text =>
    let rest := g (left - text.length)
    ⟨max (f left).touched (text.length + rest.touched), rest.text.map (text ++ ·)⟩

/-- A loop over an array. -/
def printEach {α : Type} (print : α → Printer) : List α → Printer
  | [] => fun _ => ⟨0, some []⟩
  | x :: l => (print x).andThen (printEach print l)

/-- `print_connection_info`: `snprintf` writes the null character behind the text, and cuts the text where the buffer
ends. -/
def printConnectionInfo (c : Conn) : Printer := fun left =>
  let text := (Line.conn c).text
  let len := int32 left
  ⟨min (text.length + 1) (size32 len).toNat,
    if int32 text.length < 1 ∨ len ≤ int32 text.length then none else some text⟩

/-- `print_bandw`. -/
def printBandw (bandw : Bandw) : Printer :=
  put (fun left => !decide (int32 left < int32 (bandw.modifier.length + 10 + 5))) (Line.bandw bandw).text

/-- `print_attr`. -/
def printAttr (attr : Attr) : Printer :=
  put (fun left => !decide (int32 left < int32 (attr.name.length + attr.value.length + 10))) (Line.attr attr).text

/-- The `m=` line up to the formats. -/
def mediaStart (m : Media) : Str :=
  ascii "m=" ++ m.media ++ [32] ++ decimal m.port ++ (if 1 < m.portCount then 47 :: decimal m.portCount else []) ++
    [32] ++ m.transport

/-- `print_media_desc`. -/
def printMediaDesc (m : Media) : Printer :=
  (((((put (fun left => !decide (size32 left < size32 (m.media.length + m.transport.length + 12 + 24)))
        (mediaStart m)).andThen
      (printEach (fun fmt => put (fun left => decide (left > fmt.length)) (32 :: fmt)) m.fmt)).andThen
      (put (fun left => decide (left ≥ 2)) crlf)).andThen
      (printEach printConnectionInfo m.conn.toList)).andThen
      (printEach printBandw m.bandw)).andThen
    (printEach printAttr m.attr)

/-- `print_session`. -/
def printSession (ses : Session) : Printer :=
  ((((((put (fun left => !decide (left < int32 (5 + 2 + ses.origin.user.length + 20 + 20 + 3 + ses.origin.netType.length +
          ses.origin.addrType.length + ses.origin.addr.length + 2 + 2)))
        (Line.version.text ++ (Line.origin ses.origin).text)).andThen
      (put (fun left => !decide (left < int32 (8 + ses.name.length))) (Line.name ses.name).text)).andThen
      (printEach printConnectionInfo ses.conn.toList)).andThen
      (printEach printBandw ses.bandw)).andThen
      (put (fun left => !decide (left < 2 + 20 + 1 + 20 + 2)) (Line.time ses.start ses.stop).text)).andThen
      (printEach printAttr ses.attr)).andThen
    (printEach printMediaDesc ses.media)

/-- `pjmedia_sdp_print`, for a buffer of `size` bytes. -/
def sdpPrint (ses : Session) (size : Nat) : Printed := printSession ses (int32 size)

/-- What is returned. -/
def Printed.ret (p : Printed) : Int := p.text.elim (-1) fun text => int32 text.length

/-! What is reserved for the parts of the text. -/

/-- A part of the text, and the number of bytes that must be left for it to be written. -/
structure Piece where
  need : Nat
  text : Str

/-- The number of bytes is enough, and it is one of 31 bits. -/
def Piece.Sound (p : Piece) : Prop := p.text.length ≤ p.need ∧ p.need < 2147483648

/-- Each part finds the bytes that it needs. -/
def fits : List Piece → Nat → Bool
  | [], _ => true
  | p :: pieces, left => decide (p.need ≤ left) && fits pieces (left - p.text.length)

def connPieces (c : Conn) : List Piece := [⟨(Line.conn c).text.length + 1, (Line.conn c).text⟩]

def bandwPieces (b : Bandw) : List Piece := [⟨b.modifier.length + 10 + 5, (Line.bandw b).text⟩]

def attrPieces (a : Attr) : List Piece := [⟨a.name.length + a.value.length + 10, (Line.attr a).text⟩]

def mediaPieces (m : Media) : List Piece :=
  [⟨m.media.length + m.transport.length + 12 + 24, mediaStart m⟩] ++
    m.fmt.flatMap (fun fmt => [⟨fmt.length + 1, 32 :: fmt⟩]) ++ [⟨2, crlf⟩] ++ m.conn.toList.flatMap connPieces ++
    m.bandw.flatMap bandwPieces ++ m.attr.flatMap attrPieces

def sessionPieces (s : Session) : List Piece :=
  [⟨5 + 2 + s.origin.user.length + 20 + 20 + 3 + s.origin.netType.length + s.origin.addrType.length +
      s.origin.addr.length + 2 + 2, Line.version.text ++ (Line.origin s.origin).text⟩] ++
    [⟨8 + s.name.length, (Line.name s.name).text⟩] ++ s.conn.toList.flatMap connPieces ++
    s.bandw.flatMap bandwPieces ++ [⟨2 + 20 + 1 + 20 + 2, (Line.time s.start s.stop).text⟩] ++
    s.attr.flatMap attrPieces ++ s.media.flatMap mediaPieces

def sessionText (s : Session) : Str := (sessionLines s).flatMap Line.text

/-! The lengths of the parts. -/

theorem length_decimal {n k : Nat} (hk : 0 < k) (hn : n < 10 ^ k) : (decimal n).length ≤ k := by
  rw [decimal, List.length_map]
  exact (Nat.length_toDigits_le_iff (by decide) hk).mpr hn

structure Media.Typed (m : Media) : Prop where
  port : m.port < 65536
  portCount : m.portCount < 4294967296
  bandw : ∀ b ∈ m.bandw, b.value < 4294967296

structure Typed (s : Session) : Prop where
  id : s.origin.id < 18446744073709551616
  version : s.origin.version < 18446744073709551616
  start : s.start < 18446744073709551616
  stop : s.stop < 18446744073709551616
  bandw : ∀ b ∈ s.bandw, b.value < 4294967296
  media : ∀ m ∈ s.media, Media.Typed m

theorem length_two (c d : Char) : (ascii (String.ofList [c, d])).length = 2 := by
  rw [ascii_ofList]
  rfl

theorem length_bandw {b : Bandw} (hvalue : b.value < 4294967296) :
    (Line.bandw b).text.length ≤ b.modifier.length + 10 + 5 := by
  have hdigits := length_decimal (k := 10) (by decide) (hvalue.trans (by decide))
  have hfront : (ascii "b=").length = 2 := length_two 'b' '='
  simp only [Line.text, List.length_append, List.length_cons, List.length_nil, crlf, hfront]
  omega

theorem length_attr (a : Attr) : (Line.attr a).text.length ≤ a.name.length + a.value.length + 10 := by
  have hfront : (ascii "a=").length = 2 := length_two 'a' '='
  simp only [Line.text, List.length_append, List.length_cons, List.length_nil, crlf, hfront]
  split
  · rw [List.length_cons]
    omega
  · rw [List.length_nil]
    omega

theorem length_mediaStart {m : Media} (h : Media.Typed m) :
    (mediaStart m).length ≤ m.media.length + m.transport.length + 12 + 24 := by
  have hport := length_decimal (k := 5) (by decide) (h.port.trans (by decide))
  have hcount := length_decimal (k := 10) (by decide) (h.portCount.trans (by decide))
  have hfront : (ascii "m=").length = 2 := length_two 'm' '='
  simp only [mediaStart, List.length_append, List.length_cons, List.length_nil, hfront]
  split
  · rw [List.length_cons]
    omega
  · rw [List.length_nil]
    omega

theorem length_origin {o : Origin} (hid : o.id < 18446744073709551616) (hversion : o.version < 18446744073709551616) :
    (Line.version.text ++ (Line.origin o).text).length ≤
      5 + 2 + o.user.length + 20 + 20 + 3 + o.netType.length + o.addrType.length + o.addr.length + 2 + 2 := by
  have hid' := length_decimal (k := 20) (by decide) (hid.trans (by decide))
  have hversion' := length_decimal (k := 20) (by decide) (hversion.trans (by decide))
  have hfront : (ascii "o=").length = 2 := length_two 'o' '='
  have hfirst : (ascii "v=0").length = 3 := by
    rw [show ascii "v=0" = _ from ascii_ofList ['v', '=', '0']]
    rfl
  simp only [Line.text, List.length_append, List.length_cons, List.length_nil, crlf, hfront, hfirst]
  omega

theorem length_name (name : Str) : (Line.name name).text.length ≤ 8 + name.length := by
  have hfront : (ascii "s=").length = 2 := length_two 's' '='
  simp only [Line.text, List.length_append, List.length_cons, List.length_nil, crlf, hfront]
  omega

theorem length_time {start stop : Nat} (hstart : start < 18446744073709551616) (hstop : stop < 18446744073709551616) :
    (Line.time start stop).text.length ≤ 2 + 20 + 1 + 20 + 2 := by
  have hstart' := length_decimal (k := 20) (by decide) (hstart.trans (by decide))
  have hstop' := length_decimal (k := 20) (by decide) (hstop.trans (by decide))
  have hfront : (ascii "t=").length = 2 := length_two 't' '='
  simp only [Line.text, List.length_append, List.length_cons, List.length_nil, crlf, hfront]
  omega

/-! The parts one behind the other. -/

theorem fits_append (pieces more : List Piece) (left : Nat) :
    fits (pieces ++ more) left = (fits pieces left && fits more (left - (pieces.flatMap Piece.text).length)) := by
  induction pieces generalizing left with
  | nil => rfl
  | cons p pieces ih =>
    rw [List.cons_append, fits, fits, ih, Bool.and_assoc, List.flatMap_cons, List.length_append, Nat.sub_sub]

/-- What finds its bytes is not longer than the buffer. -/
theorem length_of_fits {pieces : List Piece} (hsound : ∀ p ∈ pieces, p.Sound) {left : Nat}
    (hfits : fits pieces left = true) : (pieces.flatMap Piece.text).length ≤ left := by
  induction pieces generalizing left with
  | nil => exact Nat.zero_le _
  | cons p pieces ih =>
    obtain ⟨hhead, htail⟩ := List.forall_mem_cons.mp hsound
    rw [fits, Bool.and_eq_true, decide_eq_true_eq] at hfits
    have hlength := hhead.1
    have hrest := ih htail hfits.2
    rw [List.flatMap_cons, List.length_append]
    omega

/-- The function writes the parts if each finds its bytes, and returns -1 if not; it stays in the buffer in both
cases. -/
def Writes (f : Printer) (pieces : List Piece) : Prop :=
  (∀ p ∈ pieces, p.Sound) → ∀ left : Nat, left < 2147483648 →
    (f left).touched ≤ left ∧ (f left).text = if fits pieces left then some (pieces.flatMap Piece.text) else none

theorem int32_of_lt {x : Nat} (h : x < 2147483648) : int32 x = x := by
  unfold int32
  rw [Int.bmod_def]
  omega

theorem size32_of_lt {x : Nat} (h : x < 2147483648) : size32 x = x := by
  unfold size32
  omega

theorem put_writes {check : Int → Bool} {need : Nat} {text : Str}
    (hcheck : need < 2147483648 → ∀ left : Nat, left < 2147483648 → check left = decide (need ≤ left)) :
    Writes (put check text) [⟨need, text⟩] := by
  intro hsound left hleft
  obtain ⟨hlength, hneed⟩ := hsound _ (List.mem_singleton_self _)
  rw [put, hcheck hneed left hleft]
  by_cases hroom : need ≤ left
  · have hfits : fits [⟨need, text⟩] left = true := by
      rw [fits, fits, Bool.and_true]
      exact decide_eq_true hroom
    rw [if_pos (decide_eq_true hroom), if_pos hfits]
    exact ⟨hlength.trans hroom, by rw [List.flatMap_singleton]⟩
  · have hfits : ¬fits [⟨need, text⟩] left = true := by
      rw [fits, fits, Bool.and_true]
      exact fun h => hroom (of_decide_eq_true h)
    rw [if_neg fun h => hroom (of_decide_eq_true h), if_neg hfits]
    exact ⟨Nat.zero_le _, rfl⟩

theorem Writes.andThen {f g : Printer} {pieces more : List Piece} (hf : Writes f pieces) (hg : Writes g more) :
    Writes (f.andThen g) (pieces ++ more) := by
  intro hsound left hleft
  have hpieces : ∀ p ∈ pieces, p.Sound := fun p hp => hsound p (List.mem_append_left _ hp)
  have hmore : ∀ p ∈ more, p.Sound := fun p hp => hsound p (List.mem_append_right _ hp)
  obtain ⟨htouched, htext⟩ := hf hpieces left hleft
  unfold Printer.andThen
  rw [fits_append]
  by_cases hfits : fits pieces left = true
  · have hlength := length_of_fits hpieces hfits
    obtain ⟨htouched', htext'⟩ := hg hmore (left - (pieces.flatMap Piece.text).length) (by omega)
    rw [if_pos hfits] at htext
    rw [htext, hfits, Bool.true_and]
    dsimp only
    rw [← Int.ofNat_sub hlength, htext', List.flatMap_append]
    refine ⟨by omega, ?_⟩
    split
    · rfl
    · rfl
  · rw [if_neg hfits] at htext
    rw [htext, Bool.eq_false_iff.mpr hfits, Bool.false_and]
    exact ⟨htouched, htext⟩

theorem printEach_writes {α : Type} {print : α → Printer} {pieces : α → List Piece} (h : ∀ x, Writes (print x) (pieces x))
    (l : List α) : Writes (printEach print l) (l.flatMap pieces) := by
  induction l with
  | nil => exact fun _ left _ => ⟨Nat.zero_le _, rfl⟩
  | cons x l ih =>
    rw [List.flatMap_cons]
    exact (h x).andThen ih

/-! The lines. -/

theorem signed_check {need left : Nat} (hneed : need < 2147483648) (hleft : left < 2147483648) :
    (!decide (int32 left < int32 need)) = decide (need ≤ left) := by
  rw [int32_of_lt hneed, int32_of_lt hleft, ← decide_not]
  exact decide_eq_decide.mpr (by omega)

theorem unsigned_check {need left : Nat} (hneed : need < 2147483648) (hleft : left < 2147483648) :
    (!decide (size32 left < size32 need)) = decide (need ≤ left) := by
  rw [size32_of_lt hneed, size32_of_lt hleft, ← decide_not]
  exact decide_eq_decide.mpr (by omega)

theorem printConnectionInfo_writes (c : Conn) : Writes (printConnectionInfo c) (connPieces c) := by
  intro hsound left hleft
  obtain ⟨-, hneed⟩ := hsound _ (List.mem_singleton_self _)
  dsimp only at hneed
  have hpos : 0 < (Line.conn c).text.length := by
    simp only [Line.text, List.length_append, List.length_cons]
    omega
  rw [printConnectionInfo]
  dsimp only
  rw [int32_of_lt hleft, size32_of_lt hleft, int32_of_lt (by omega), Int.toNat_natCast]
  refine ⟨Nat.min_le_right .., ?_⟩
  rw [connPieces, fits, fits, Bool.and_true, List.flatMap_singleton]
  by_cases hroom : (Line.conn c).text.length + 1 ≤ left
  · rw [if_neg (by omega), if_pos (decide_eq_true hroom)]
  · rw [if_pos (by omega), if_neg fun h => hroom (of_decide_eq_true h)]

theorem printBandw_writes (b : Bandw) : Writes (printBandw b) (bandwPieces b) :=
  put_writes fun hneed _ hleft => signed_check hneed hleft

theorem printAttr_writes (a : Attr) : Writes (printAttr a) (attrPieces a) :=
  put_writes fun hneed _ hleft => signed_check hneed hleft

theorem printMediaDesc_writes (m : Media) : Writes (printMediaDesc m) (mediaPieces m) := by
  have hstart : Writes (put (fun left => !decide (size32 left < size32 (m.media.length + m.transport.length + 12 + 24)))
      (mediaStart m)) [⟨m.media.length + m.transport.length + 12 + 24, mediaStart m⟩] :=
    put_writes fun hneed _ hleft => unsigned_check hneed hleft
  have hfmt : ∀ fmt : Str, Writes (put (fun left => decide (left > fmt.length)) (32 :: fmt))
      [⟨fmt.length + 1, 32 :: fmt⟩] := fun fmt => put_writes fun _ left _ => decide_eq_decide.mpr (by omega)
  have hend : Writes (put (fun left => decide (left ≥ 2)) crlf) [⟨2, crlf⟩] :=
    put_writes fun _ left _ => decide_eq_decide.mpr (by omega)
  exact ((((hstart.andThen (printEach_writes hfmt m.fmt)).andThen hend).andThen
    (printEach_writes printConnectionInfo_writes m.conn.toList)).andThen
    (printEach_writes printBandw_writes m.bandw)).andThen (printEach_writes printAttr_writes m.attr)

theorem printSession_writes (s : Session) : Writes (printSession s) (sessionPieces s) := by
  have hsigned : ∀ (need : Nat) (text : Str),
      Writes (put (fun left => !decide (left < int32 need)) text) [⟨need, text⟩] := fun need text =>
    put_writes fun hneed left hleft => by
      rw [← signed_check hneed hleft, int32_of_lt hleft]
  have htime : Writes (put (fun left => !decide (left < 2 + 20 + 1 + 20 + 2)) (Line.time s.start s.stop).text)
      [⟨2 + 20 + 1 + 20 + 2, (Line.time s.start s.stop).text⟩] :=
    put_writes fun _ left _ => by
      rw [← decide_not]
      exact decide_eq_decide.mpr (by omega)
  have hfirst := hsigned (5 + 2 + s.origin.user.length + 20 + 20 + 3 + s.origin.netType.length +
    s.origin.addrType.length + s.origin.addr.length + 2 + 2) (Line.version.text ++ (Line.origin s.origin).text)
  have hname := hsigned (8 + s.name.length) (Line.name s.name).text
  exact (((((hfirst.andThen hname).andThen
    (printEach_writes printConnectionInfo_writes s.conn.toList)).andThen
    (printEach_writes printBandw_writes s.bandw)).andThen htime).andThen
    (printEach_writes printAttr_writes s.attr)).andThen (printEach_writes printMediaDesc_writes s.media)

/-! A session. -/

theorem mediaPieces_long {m : Media} (h : Media.Typed m) : ∀ p ∈ mediaPieces m, p.text.length ≤ p.need := by
  intro p hp
  simp only [mediaPieces, connPieces, bandwPieces, attrPieces, List.mem_append, List.mem_flatMap, List.mem_singleton] at hp
  rcases hp with ((((rfl | ⟨fmt, -, rfl⟩) | rfl) | ⟨c, -, rfl⟩) | ⟨b, hb, rfl⟩) | ⟨a, -, rfl⟩
  · exact length_mediaStart h
  · exact le_rfl
  · exact le_rfl
  · exact Nat.le_succ _
  · exact length_bandw (h.bandw b hb)
  · exact length_attr a

theorem sessionPieces_long {s : Session} (h : Typed s) : ∀ p ∈ sessionPieces s, p.text.length ≤ p.need := by
  intro p hp
  simp only [sessionPieces, connPieces, bandwPieces, attrPieces, List.mem_append, List.mem_flatMap,
    List.mem_singleton] at hp
  rcases hp with (((((rfl | rfl) | ⟨c, -, rfl⟩) | ⟨b, hb, rfl⟩) | rfl) | ⟨a, -, rfl⟩) | ⟨m, hm, hp⟩
  · exact length_origin h.id h.version
  · exact length_name s.name
  · exact Nat.le_succ _
  · exact length_bandw (h.bandw b hb)
  · exact length_time h.start h.stop
  · exact length_attr a
  · exact mediaPieces_long (h.media m hm) p hp

theorem mediaPieces_text (m : Media) : (mediaPieces m).flatMap Piece.text = (mediaLines m).flatMap Line.text := by
  simp only [mediaPieces, mediaLines, connPieces, bandwPieces, attrPieces, List.flatMap_append, List.flatMap_cons,
    List.flatMap_nil, List.flatMap_map, List.flatMap_assoc, List.append_nil]
  simp only [Line.text, mediaStart, Sdp.Media.head, List.append_assoc]
  rfl

theorem sessionPieces_text (s : Session) : (sessionPieces s).flatMap Piece.text = sessionText s := by
  have hmedia : s.media.flatMap (fun m => (mediaPieces m).flatMap Piece.text) =
      s.media.flatMap fun m => (mediaLines m).flatMap Line.text :=
    congrArg (fun text => s.media.flatMap text) (funext mediaPieces_text)
  simp only [sessionText, sessionPieces, sessionLines, connPieces, bandwPieces, attrPieces, List.flatMap_append,
    List.flatMap_cons, List.flatMap_nil, List.flatMap_map, List.flatMap_assoc, List.append_nil, List.append_assoc,
    hmedia]

theorem andThen_of_refused {f g : Printer} {left : Int} (h : f left = ⟨0, none⟩) : (f.andThen g) left = ⟨0, none⟩ := by
  unfold Printer.andThen
  rw [h]

/-- A length of 2 ^ 31 or more is a negative number. -/
theorem printSession_negative (s : Session) (hneeds : ∀ p ∈ sessionPieces s, p.need < 2147483648) {left : Int}
    (hleft : left < 0) : printSession s left = ⟨0, none⟩ := by
  have hneed := hneeds _ (List.mem_append_left _ (List.mem_append_left _ (List.mem_append_left _
    (List.mem_append_left _ (List.mem_append_left _ (List.mem_append_left _ (List.mem_singleton_self _)))))))
  have hput : ∀ {need : Nat} (text : Str), need < 2147483648 →
      put (fun left => !decide (left < int32 need)) text left = ⟨0, none⟩ := by
    intro need text hneed
    have hlt : left < int32 need := by
      rw [int32_of_lt hneed]
      exact hleft.trans_le (Int.natCast_nonneg need)
    rw [put, decide_eq_true hlt]
    rfl
  have hfirst := hput (Line.version.text ++ (Line.origin s.origin).text) hneed
  exact andThen_of_refused (andThen_of_refused (andThen_of_refused (andThen_of_refused (andThen_of_refused
    (andThen_of_refused hfirst)))))

/-- Nothing is written behind the end of the buffer, and what is returned is -1 or the length of the complete text, which
has been written. It is -1 if the text does not fit; else it is the length exactly when the length of the buffer is below
2 ^ 31 and each part of the text finds the bytes that are reserved for it. -/
theorem sdpPrint_inside (s : Session) (htyped : Typed s) (hneeds : ∀ p ∈ sessionPieces s, p.need < 2147483648)
    (size : Nat) (hsize : size < 4294967296) :
    (sdpPrint s size).touched ≤ size ∧
      (size < (sessionText s).length → (sdpPrint s size).ret = -1) ∧
      ((sdpPrint s size).ret ≠ -1 →
        (sdpPrint s size).ret = (sessionText s).length ∧ (sdpPrint s size).text = some (sessionText s)) ∧
      ((sdpPrint s size).ret ≠ -1 ↔ size < 2147483648 ∧ fits (sessionPieces s) size = true) := by
  have hsound : ∀ p ∈ sessionPieces s, p.Sound := fun p hp => ⟨sessionPieces_long htyped p hp, hneeds p hp⟩
  by_cases hsmall : size < 2147483648
  · obtain ⟨htouched, htext⟩ := printSession_writes s hsound size hsmall
    rw [sessionPieces_text] at htext
    rw [sdpPrint, int32_of_lt hsmall, Printed.ret, htext]
    by_cases hfits : fits (sessionPieces s) size = true
    · have hlength := length_of_fits hsound hfits
      rw [sessionPieces_text] at hlength
      rw [if_pos hfits]
      rw [Option.elim_some, int32_of_lt (hlength.trans_lt hsmall)]
      exact ⟨htouched, fun h => by omega, fun _ => ⟨rfl, rfl⟩, fun _ => ⟨hsmall, hfits⟩, fun _ => by omega⟩
    · rw [if_neg hfits]
      exact ⟨htouched, fun _ => rfl, fun h => absurd rfl h, fun h => absurd rfl h, fun h => absurd h.2 hfits⟩
  · have hneg : int32 size < 0 := by
      unfold int32
      rw [Int.bmod_def]
      omega
    rw [sdpPrint, printSession_negative s hneeds hneg]
    exact ⟨Nat.zero_le _, fun _ => rfl, fun h => absurd rfl h, fun h => absurd rfl h, fun h => absurd h.1 hsmall⟩

/-- A session and a media line with a connection, a bandwidth and an attribute each. -/
def sampleLines : Session :=
  ⟨⟨ascii "a", 7, 8, ascii "IN", ascii "IP4", ascii "h"⟩, ascii "s", some ⟨ascii "IN", ascii "IP4", ascii "h", 0, 0⟩,
    [⟨ascii "AS", 84⟩], 0, 0, [⟨ascii "tool", ascii "x"⟩],
    [⟨ascii "audio", 4000, 2, ascii "RTP/AVP", [ascii "0", ascii "96"], some ⟨ascii "IN", ascii "IP4", ascii "g", 0, 0⟩,
      [⟨ascii "TIAS", 64000⟩], [⟨ascii "sendrecv", []⟩]⟩]⟩

theorem sdpPrint_inside_lines :
    (sdpPrint sampleLines 190).touched ≤ 190 ∧ (sdpPrint sampleLines 190).ret = (sessionText sampleLines).length ∧
      (sdpPrint sampleLines 190).text = some (sessionText sampleLines) := by
  have htyped : Typed sampleLines :=
    ⟨by decide, by decide, by decide, by decide, by decide, fun m hm => by
      obtain rfl := List.mem_singleton.mp hm
      exact ⟨by decide, by decide, by decide⟩⟩
  have hinside := sdpPrint_inside sampleLines htyped (by decide) 190 (by decide)
  have hprinted := hinside.2.2.2.mpr ⟨by decide, by decide +kernel⟩
  exact ⟨hinside.1, hinside.2.2.1 hprinted⟩

/-- A session without media lines, whose name is `s`. -/
def sample : Session :=
  ⟨⟨[45], 1, 1, [73, 78], [73, 80, 52], [49]⟩, [115], none, [], 0, 0, [], []⟩

/-- The text has 35 bytes, and is not printed in a buffer of 35 bytes. -/
theorem sdpPrint_exact_buffer : (sessionText sample).length = 35 ∧ (sdpPrint sample 35).ret = -1 := by decide

end PjProject.SdpPrint
