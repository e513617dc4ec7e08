import PjProject.SdpNegOffer
import PjProject.SockaddrRoundTrip

/-! Comparison of two session descriptions (`sdp_cmp.c`, without a registered callback). The comparison is symmetric and
transitive. It is not reflexive: a description with a malformed `rtpmap` or `fmtp`, or with two different ones for the
same format, is not equal to itself. -/

namespace PjProject.Sdp

open Sock (isDigit strtoul)

/-- `compare_conn`. -/
def connCmp (c1 c2 : Conn) : Bool := c1.netType == c2.netType && c1.addrType == c2.addrType && c1.addr == c2.addr

def optConnCmp : Option Conn → Option Conn → Bool
  | none, none => true
  | some c1, some c2 => connCmp c1 c2
  | _, _ => false

/-- The format and the parameters of an `fmtp`, if it is well formed. -/
def Attr.getFmtp (a : Attr) : Option (Str × Str) :=
  (SdpNeg.getFmtpParam a.value).map fun param => (a.value.takeWhile isDigit, param)

/-- The `rtpmap`, if it is well formed. -/
def Attr.rtpmap? (a : Attr) : Option Rtpmap := if a.getRtpmap.2 then some a.getRtpmap.1 else none

/-- One attribute compared with those of the other description: only directions, `fmtp` and `rtpmap` count. -/
def attrCmp (attrs : List Attr) (a1 : Attr) : Bool :=
  if isDirection a1.name then hasAttr attrs a1.name
  else if a1.name = strFmtp then
    match a1.getFmtp with
    | none => false
    | some (fmt, param) => ((attrFind attrs strFmtp fmt).bind Attr.getFmtp).any fun f => f.2 == param
  else if a1.name = strRtpmap then
    match a1.rtpmap? with
    | none => false
    | some r => (attrFind attrs strRtpmap r.pt).bind Attr.rtpmap? == some r
  else true

/-- `compare_attr`. -/
def attrsCmp (attrs1 attrs2 : List Attr) : Bool := attrs1.all (attrCmp attrs2) && attrs2.all (attrCmp attrs1)

/-- `pjmedia_sdp_media_cmp`. -/
def mediaCmp (m1 m2 : Media) : Bool :=
  m1.media == m2.media && m1.port == m2.port && m1.portCount == m2.portCount && m1.transport == m2.transport &&
    (m1.port == 0 || (m1.fmt == m2.fmt && optConnCmp m1.conn m2.conn && attrsCmp m1.attr m2.attr))

def mediasCmp : List Media → List Media → Bool
  | [], [] => true
  | m1 :: more1, m2 :: more2 => mediaCmp m1 m2 && mediasCmp more1 more2
  | _, _ => false

/-- `pjmedia_sdp_session_cmp`. -/
def sessionCmp (s1 s2 : Session) : Bool :=
  s1.origin == s2.origin && s1.name == s2.name && optConnCmp s1.conn s2.conn && s1.start == s2.start &&
    s1.stop == s2.stop && attrsCmp s1.attr s2.attr && mediasCmp s1.media s2.media

/-! Symmetry. -/

theorem connCmp_comm (c1 c2 : Conn) : connCmp c1 c2 = connCmp c2 c1 := by
  unfold connCmp
  rw [BEq.comm (a := c1.netType), BEq.comm (a := c1.addrType), BEq.comm (a := c1.addr)]

theorem optConnCmp_comm (c1 c2 : Option Conn) : optConnCmp c1 c2 = optConnCmp c2 c1 := by
  cases c1 <;> cases c2
  · rfl
  · rfl
  · rfl
  · exact connCmp_comm _ _

theorem attrsCmp_comm (attrs1 attrs2 : List Attr) : attrsCmp attrs1 attrs2 = attrsCmp attrs2 attrs1 := Bool.and_comm _ _

theorem mediaCmp_symm {m1 m2 : Media} (h : mediaCmp m1 m2) : mediaCmp m2 m1 := by
  simp only [mediaCmp, Bool.and_eq_true, Bool.or_eq_true, beq_iff_eq] at h ⊢
  obtain ⟨⟨⟨⟨hmedia, hport⟩, hcount⟩, htransport⟩, hrest⟩ := h
  rw [optConnCmp_comm, attrsCmp_comm, ← hport]
  refine ⟨⟨⟨⟨hmedia.symm, rfl⟩, hcount.symm⟩, htransport.symm⟩, hrest.imp_right ?_⟩
  exact fun ⟨⟨hfmt, hconn⟩, hattr⟩ => ⟨⟨hfmt.symm, hconn⟩, hattr⟩

theorem mediasCmp_symm {l1 l2 : List Media} (h : mediasCmp l1 l2) : mediasCmp l2 l1 := by
  induction l1 generalizing l2 with
  | nil =>
    cases l2 with
    | nil => rfl
    | cons m2 more2 => cases h
  | cons m1 more1 ih =>
    cases l2 with
    | nil => cases h
    | cons m2 more2 =>
      simp only [mediasCmp, Bool.and_eq_true] at h ⊢
      exact ⟨mediaCmp_symm h.1, ih h.2⟩

theorem sessionCmp_symm {s1 s2 : Session} (h : sessionCmp s1 s2) : sessionCmp s2 s1 := by
  simp only [sessionCmp, Bool.and_eq_true, beq_iff_eq] at h ⊢
  obtain ⟨⟨⟨⟨⟨⟨horigin, hname⟩, hconn⟩, hstart⟩, hstop⟩, hattr⟩, hmedia⟩ := h
  rw [optConnCmp_comm, attrsCmp_comm]
  exact ⟨⟨⟨⟨⟨⟨horigin.symm, hname.symm⟩, hconn⟩, hstart.symm⟩, hstop.symm⟩, hattr⟩, mediasCmp_symm hmedia⟩

/-! Transitivity. -/

theorem connCmp_trans {c1 c2 c3 : Conn} (h12 : connCmp c1 c2) (h23 : connCmp c2 c3) : connCmp c1 c3 := by
  simp only [connCmp, Bool.and_eq_true, beq_iff_eq] at h12 h23 ⊢
  obtain ⟨⟨hnet, htype⟩, haddr⟩ := h12
  rw [hnet, htype, haddr]
  exact h23

theorem optConnCmp_trans {c1 c2 c3 : Option Conn} (h12 : optConnCmp c1 c2) (h23 : optConnCmp c2 c3) :
    optConnCmp c1 c3 := by
  cases c1 with
  | none =>
    cases c2 with
    | none => exact h23
    | some c2 => cases h12
  | some c1 =>
    cases c2 with
    | none => cases h12
    | some c2 =>
      cases c3 with
      | none => cases h23
      | some c3 => exact connCmp_trans h12 h23

/-! The payload type at the start of a value. -/

theorem strtoul_eq_number (str : Str) : strtoul str = number (str.takeWhile isDigit) % 4294967296 := by
  rw [strtoul, Sock.foldl_mod _ 0]
  unfold number
  congr 2
  funext value c
  rw [Nat.mul_comm]

theorem strtoul3_takeWhile {value : Str} {pt : Nat} (h : strtoul3 (value.takeWhile isDigit) = some pt) :
    strtoul value = pt := by
  have hdigits : ∀ c ∈ value.takeWhile isDigit, isDigit c = true := fun c hc => (List.mem_takeWhile_imp hc)
  have hspace : (value.takeWhile isDigit).dropWhile isspace = value.takeWhile isDigit := by
    rcases hl : value.takeWhile isDigit with _ | ⟨c, more⟩
    · rfl
    · have hc : isDigit c = true := hdigits c (by rw [hl]; exact List.mem_cons_self)
      refine List.dropWhile_cons_of_neg ?_
      simp only [isDigit, isspace, Bool.and_eq_true, Bool.or_eq_true, decide_eq_true_eq, beq_iff_eq,
        UInt8.le_iff_toNat_le, ← UInt8.toNat_inj] at hc ⊢
      rintro (heq | hle)
      · exact absurd (heq ▸ hc.1) (by decide)
      · exact absurd (hc.1.trans hle.2) (by decide)
  simp only [strtoul3, strtoulBelow, hspace, Sock.takeWhile_of_all hdigits] at h
  split at h
  case isTrue hif =>
    rw [strtoul_eq_number, Nat.mod_eq_of_lt hif.2]
    exact Option.some.inj h
  case isFalse => cases h

theorem attrFind_eq_some {attrs : List Attr} {name fmt : Str} {a : Attr} (h : attrFind attrs name fmt = some a) :
    ∃ pt, strtoul3 fmt = some pt ∧ attrs.find? (Attr.isFor name pt) = some a ∧ a ∈ attrs ∧ a.name = name ∧
      strtoul a.value = pt := by
  obtain ⟨pt, hpt, hfind⟩ := Option.bind_eq_some_iff.mp h
  have hfor : a.isFor name pt = true := List.find?_some hfind
  simp only [Attr.isFor, Bool.and_eq_true, beq_iff_eq] at hfor
  exact ⟨pt, hpt, hfind, List.mem_of_find?_eq_some hfind, hfor.1.1, hfor.2⟩

/-- What is found for a format is found for the format of an attribute that was itself found for it. -/
theorem attrFind_of_found {attrs2 attrs3 : List Attr} {name fmt : Str} {a2 a3 : Attr}
    (h2 : attrFind attrs2 name fmt = some a2) (h3 : attrFind attrs3 name (a2.value.takeWhile isDigit) = some a3) :
    attrFind attrs3 name fmt = some a3 := by
  obtain ⟨pt, hpt, _, _, _, hval⟩ := attrFind_eq_some h2
  obtain ⟨pt', hpt', hfind, _⟩ := attrFind_eq_some h3
  rw [attrFind, hpt, Option.bind_some, ← hval, strtoul3_takeWhile hpt']
  exact hfind

theorem isDirection_strFmtp : isDirection strFmtp = false := by decide

theorem isDirection_strRtpmap : isDirection strRtpmap = false := by decide

theorem strRtpmap_ne_strFmtp : strRtpmap ≠ strFmtp := by decide

/-! What the comparison of one attribute says, for each kind of attribute. -/

theorem attrCmp_direction {attrs : List Attr} {a : Attr} (hname : isDirection a.name) :
    attrCmp attrs a ↔ ∃ b ∈ attrs, b.name = a.name := by
  rw [attrCmp, if_pos hname, hasAttr, List.any_eq_true]
  simp only [beq_iff_eq]

theorem attrCmp_fmtp {attrs : List Attr} {a : Attr} (hname : a.name = strFmtp) :
    attrCmp attrs a ↔ ∃ fmt param, a.getFmtp = some (fmt, param) ∧
      ∃ b fmt', attrFind attrs strFmtp fmt = some b ∧ b.getFmtp = some (fmt', param) := by
  rw [attrCmp, if_neg (by rw [hname, isDirection_strFmtp]; exact Bool.false_ne_true), if_pos hname]
  rcases a.getFmtp with _ | ⟨fmt, param⟩
  · simp
  · simp only [Option.any_eq_true, Option.bind_eq_some_iff, Option.some.injEq, Prod.mk.injEq, beq_iff_eq]
    constructor
    · rintro ⟨⟨fmt', param'⟩, ⟨b, hb, hf⟩, rfl⟩
      exact ⟨fmt, param', ⟨rfl, rfl⟩, b, fmt', hb, hf⟩
    · rintro ⟨_, _, ⟨rfl, rfl⟩, b, fmt', hb, hf⟩
      exact ⟨(fmt', param), ⟨b, hb, hf⟩, rfl⟩

theorem attrCmp_rtpmap {attrs : List Attr} {a : Attr} (hname : a.name = strRtpmap) :
    attrCmp attrs a ↔ ∃ r, a.rtpmap? = some r ∧ ∃ b, attrFind attrs strRtpmap r.pt = some b ∧ b.rtpmap? = some r := by
  rw [attrCmp, if_neg (by rw [hname, isDirection_strRtpmap]; exact Bool.false_ne_true),
    if_neg (by rw [hname]; exact strRtpmap_ne_strFmtp), if_pos hname]
  rcases a.rtpmap? with _ | r
  · simp
  · simp [Option.bind_eq_some_iff]

theorem attrCmp_trans {attrs2 attrs3 : List Attr} {a : Attr} (h2 : attrCmp attrs2 a)
    (h23 : attrs2.all (attrCmp attrs3)) : attrCmp attrs3 a := by
  have hall : ∀ b ∈ attrs2, attrCmp attrs3 b := List.all_eq_true.mp h23
  by_cases hdir : isDirection a.name
  · obtain ⟨b, hb, hname⟩ := (attrCmp_direction hdir).mp h2
    obtain ⟨c, hc, hname'⟩ := (attrCmp_direction (hname ▸ hdir)).mp (hall b hb)
    exact (attrCmp_direction hdir).mpr ⟨c, hc, hname'.trans hname⟩
  by_cases hfmtp : a.name = strFmtp
  · obtain ⟨fmt, param, ha, b, fmt', hb, hparam⟩ := (attrCmp_fmtp hfmtp).mp h2
    obtain ⟨pt, hpt, hfind, hmem, hname, hval⟩ := attrFind_eq_some hb
    obtain ⟨fmt2, param2, hb2, c, fmt3, hc, hparam3⟩ := (attrCmp_fmtp hname).mp (hall b hmem)
    obtain ⟨rfl, rfl⟩ := Prod.mk.inj (Option.some.inj (hparam.symm.trans hb2))
    obtain ⟨_, _, hpair⟩ := Option.map_eq_some_iff.mp hparam
    rw [← (Prod.mk.inj hpair).1] at hc
    exact (attrCmp_fmtp hfmtp).mpr ⟨fmt, param, ha, c, fmt3, attrFind_of_found hb hc, hparam3⟩
  by_cases hrtpmap : a.name = strRtpmap
  · obtain ⟨r, ha, b, hb, hr⟩ := (attrCmp_rtpmap hrtpmap).mp h2
    obtain ⟨pt, hpt, hfind, hmem, hname, hval⟩ := attrFind_eq_some hb
    obtain ⟨r2, hb2, c, hc, hr3⟩ := (attrCmp_rtpmap hname).mp (hall b hmem)
    obtain rfl := Option.some.inj (hr.symm.trans hb2)
    exact (attrCmp_rtpmap hrtpmap).mpr ⟨r, ha, c, hc, hr3⟩
  · rw [attrCmp, if_neg hdir, if_neg hfmtp, if_neg hrtpmap]

theorem attrsCmp_trans {attrs1 attrs2 attrs3 : List Attr} (h12 : attrsCmp attrs1 attrs2)
    (h23 : attrsCmp attrs2 attrs3) : attrsCmp attrs1 attrs3 := by
  simp only [attrsCmp, Bool.and_eq_true] at h12 h23 ⊢
  constructor
  · exact List.all_eq_true.mpr fun a ha => attrCmp_trans (List.all_eq_true.mp h12.1 a ha) h23.1
  · exact List.all_eq_true.mpr fun a ha => attrCmp_trans (List.all_eq_true.mp h23.2 a ha) h12.2

theorem mediaCmp_trans {m1 m2 m3 : Media} (h12 : mediaCmp m1 m2) (h23 : mediaCmp m2 m3) : mediaCmp m1 m3 := by
  simp only [mediaCmp, Bool.and_eq_true, Bool.or_eq_true, beq_iff_eq] at h12 h23 ⊢
  obtain ⟨⟨⟨⟨hmedia, hport⟩, hcount⟩, htransport⟩, hrest⟩ := h12
  obtain ⟨hhead, hrest'⟩ := h23
  rw [hmedia, hport, hcount, htransport]
  refine ⟨hhead, ?_⟩
  rcases hrest with hzero | ⟨⟨hfmt, hconn⟩, hattr⟩
  · exact Or.inl (hport ▸ hzero)
  · refine hrest'.imp_right fun ⟨⟨hfmt', hconn'⟩, hattr'⟩ => ?_
    exact ⟨⟨hfmt.trans hfmt', optConnCmp_trans hconn hconn'⟩, attrsCmp_trans hattr hattr'⟩

theorem mediasCmp_trans {l1 l2 l3 : List Media} (h12 : mediasCmp l1 l2) (h23 : mediasCmp l2 l3) : mediasCmp l1 l3 := by
  induction l1 generalizing l2 l3 with
  | nil =>
    cases l2 with
    | nil => exact h23
    | cons m2 more2 => cases h12
  | cons m1 more1 ih =>
    cases l2 with
    | nil => cases h12
    | cons m2 more2 =>
      cases l3 with
      | nil => cases h23
      | cons m3 more3 =>
        simp only [mediasCmp, Bool.and_eq_true] at h12 h23 ⊢
        exact ⟨mediaCmp_trans h12.1 h23.1, ih h12.2 h23.2⟩

theorem sessionCmp_trans {s1 s2 s3 : Session} (h12 : sessionCmp s1 s2) (h23 : sessionCmp s2 s3) : sessionCmp s1 s3 := by
  simp only [sessionCmp, Bool.and_eq_true, beq_iff_eq] at h12 h23 ⊢
  obtain ⟨⟨⟨⟨⟨⟨horigin, hname⟩, hconn⟩, hstart⟩, hstop⟩, hattr⟩, hmedia⟩ := h12
  obtain ⟨⟨⟨⟨⟨⟨horigin', hname'⟩, hconn'⟩, hstart'⟩, hstop'⟩, hattr'⟩, hmedia'⟩ := h23
  exact ⟨⟨⟨⟨⟨⟨horigin.trans horigin', hname.trans hname'⟩, optConnCmp_trans hconn hconn'⟩, hstart.trans hstart'⟩,
    hstop.trans hstop'⟩, attrsCmp_trans hattr hattr'⟩, mediasCmp_trans hmedia hmedia'⟩

theorem origin_eq_of_sessionCmp {s1 s2 : Session} (h : sessionCmp s1 s2) : s1.origin = s2.origin := by
  simp only [sessionCmp, Bool.and_eq_true, beq_iff_eq] at h
  exact h.1.1.1.1.1.1

end PjProject.Sdp
