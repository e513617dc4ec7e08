import PjProject.SdpNegOffer
import Mathlib.Data.List.GetD
import Mathlib.Data.List.Perm.Subperm

/-! The formats that `match_offer` selects for one line: each comes from a format of the master and one of the slave that
match, and no two come from the same format of the master. Which formats of a line may be selected together depends on
their kinds. -/

namespace PjProject.SdpNeg

open Sdp
open Sock (isDigit strtoul)
open Xml (stricmp)

/-- The callbacks leave the `rtpmap` attributes of the answer as they are. -/
def KeepsRtpmaps (fmtMatch : FmtMatch) : Prop :=
  ∀ name offer i answer j modify attrs, fmtMatch name offer i answer j modify = some attrs →
    ∀ fmt, attrFind attrs strRtpmap fmt = attrFind answer.attr strRtpmap fmt

/-! Formats of the master. -/

inductive FmtKind
  | codec
  | telephoneEvent
  | red
  | other
  deriving DecidableEq, Repr

def fmtKind (m : Media) (fmt : Str) : FmtKind :=
  if isDigit (fmt.headD 0) = false then .other
  else if strtoul fmt < 96 then .codec
  else
    match (m.rtpmap fmt).map fun r => kind r.encName with
    | some .telephoneEvent => .telephoneEvent
    | some .red => .red
    | _ => .codec

/-- Two formats of these kinds may both be selected. -/
def together (multiple : Bool) : FmtKind → FmtKind → Bool
  | .codec, .codec => multiple
  | .telephoneEvent, .telephoneEvent => false
  | .other, .other => false
  | _, _ => true

def MasterMatch (master slave : Media) (f g : Str) : Prop :=
  if isDigit (f.headD 0) = false then g = f
  else if strtoul f < 96 then isDigit (g.headD 0) ∧ strtoul g = strtoul f
  else ∃ r r', master.rtpmap f = some r ∧ slave.rtpmap g = some r' ∧ sameFormat r r'

/-- The parameters of the redundancy format of the offer are well formed. -/
def redParses (ls : Lines) (f g : Str) : Bool :=
  (parseFmtp ls.offer (strtoul (if ls.preferRemote then f else g))).isSome

/-- A line with this format of the master is answered with formats: the format is one that must have a match, or it has
a match. -/
def Selectable (ls : Lines) (f : Str) : Prop :=
  match fmtKind ls.master f with
  | .codec => True
  | .other => True
  | .telephoneEvent => ∃ g ∈ ls.slave.fmt, MasterMatch ls.master ls.slave f g
  | .red => ∃ g ∈ ls.slave.fmt, MasterMatch ls.master ls.slave f g ∧ redParses ls f g

/-! The selection. -/

def Lines.masterFmt (ls : Lines) (i : Nat) : Str := ls.master.fmt.getD i []
def Lines.slaveFmt (ls : Lines) (j : Nat) : Str := ls.slave.fmt.getD j []

/-- The loop over the formats of the slave can go on behind a match: a callback refuses it, with the attributes as
earlier callbacks have left them, or the parameters of redundancy are not well formed. -/
def MayPass (fmtMatch : FmtMatch) (ls : Lines) (i j : Nat) : Prop :=
  match fmtKind ls.master (ls.masterFmt i) with
  | .codec => 96 ≤ strtoul (ls.masterFmt i) ∧ ∃ r attr, ls.master.rtpmap (ls.masterFmt i) = some r ∧
      fmtMatch r.encName ls.offer (ls.offerIdx i j) { ls.preanswer with attr := attr } (ls.answerIdx i j) true = none
  | .red => redParses ls (ls.masterFmt i) (ls.slaveFmt j) = false
  | .telephoneEvent | .other => False

/-- The match that is taken for a format of the master when the format is selected. -/
def Reached (fmtMatch : FmtMatch) (ls : Lines) (i j : Nat) : Prop :=
  MasterMatch ls.master ls.slave (ls.masterFmt i) (ls.slaveFmt j) ∧
    ∀ k < j, MasterMatch ls.master ls.slave (ls.masterFmt i) (ls.slaveFmt k) → MayPass fmtMatch ls i k

/-- The formats of the offer and of the local line for an index of the master and one of the slave. -/
def Lines.pair (ls : Lines) (pick : Nat × Nat) : Str × Str :=
  (ls.offer.fmt.getD (ls.offerIdx pick.1 pick.2) [], ls.preanswer.fmt.getD (ls.answerIdx pick.1 pick.2) [])

/-- After the first `n` formats of the master, the picks are those of its formats that were selected with their
matches. -/
structure Picks (fmtMatch : FmtMatch) (ls : Lines) (n : Nat) (sel : Selection) (picks : List (Nat × Nat)) : Prop where
  pairs : sel.pairs = picks.map ls.pair
  attr : ∀ fmt, attrFind sel.attr strRtpmap fmt = attrFind ls.preanswer.attr strRtpmap fmt
  bound : ∀ p ∈ picks, p.1 < n ∧ p.1 < ls.master.fmt.length ∧ p.2 < ls.slave.fmt.length
  sorted : picks.Pairwise fun p q => p.1 < q.1
  reached : ∀ p ∈ picks, Reached fmtMatch ls p.1 p.2
  selectable : ∀ p ∈ picks, Selectable ls (ls.masterFmt p.1)
  apart : picks.Pairwise fun p q => p.2 = q.2 →
    together ls.multiple (fmtKind ls.master (ls.masterFmt p.1)) (fmtKind ls.master (ls.masterFmt q.1))
  codec : (∃ p ∈ picks, fmtKind ls.master (ls.masterFmt p.1) = .codec) ↔ sel.foundCodec
  other : (∃ p ∈ picks, fmtKind ls.master (ls.masterFmt p.1) = .other) ↔ sel.foundOther
  clock : ∀ rate, rate ∈ sel.telClockrate ↔ ∃ p ∈ picks, fmtKind ls.master (ls.masterFmt p.1) = .telephoneEvent ∧
    ∃ r, ls.master.rtpmap (ls.masterFmt p.1) = some r ∧ r.clockRate = rate
  event : sel.foundTelephoneEvent → picks ≠ []
  visited : ∀ i < n, i < ls.master.fmt.length → Selectable ls (ls.masterFmt i) → picks ≠ [] ∨
    (fmtKind ls.master (ls.masterFmt i) = .codec ∧ sel.masterHasCodec) ∨
    (fmtKind ls.master (ls.masterFmt i) = .other ∧ sel.masterHasOther)

section Steps

variable {fmtMatch : FmtMatch} {ls : Lines} {n : Nat} {sel sel' : Selection} {picks : List (Nat × Nat)}

theorem Picks.skip (h : Picks fmtMatch ls n sel picks) (hpairs : sel'.pairs = sel.pairs) (hattr : sel'.attr = sel.attr)
    (hcodec : sel'.foundCodec = sel.foundCodec) (hother : sel'.foundOther = sel.foundOther)
    (hclock : sel'.telClockrate = sel.telClockrate) (hevent : sel'.foundTelephoneEvent = sel.foundTelephoneEvent)
    (hmaster : sel.masterHasCodec → sel'.masterHasCodec)
    (hmaster' : sel.masterHasOther → sel'.masterHasOther)
    (hvisit : Selectable ls (ls.masterFmt n) → picks ≠ [] ∨
      (fmtKind ls.master (ls.masterFmt n) = .codec ∧ sel'.masterHasCodec) ∨
      (fmtKind ls.master (ls.masterFmt n) = .other ∧ sel'.masterHasOther)) : Picks fmtMatch ls (n + 1) sel' picks where
  pairs := hpairs.trans h.pairs
  attr := hattr ▸ h.attr
  bound p hp := ⟨Nat.lt_succ_of_lt (h.bound p hp).1, (h.bound p hp).2⟩
  sorted := h.sorted
  reached := h.reached
  selectable := h.selectable
  apart := h.apart
  codec := hcodec ▸ h.codec
  other := hother ▸ h.other
  clock := hclock ▸ h.clock
  event := hevent ▸ h.event
  visited i hi hlen hsel := by
    rcases Nat.lt_succ_iff_lt_or_eq.mp hi with hlt | rfl
    · exact (h.visited i hlt hlen hsel).imp_right (Or.imp (And.imp_right hmaster) (And.imp_right hmaster'))
    · exact hvisit hsel

theorem Picks.pick (h : Picks fmtMatch ls n sel picks) {j : Nat} (hn : n < ls.master.fmt.length) (hj : j < ls.slave.fmt.length)
    (hreached : Reached fmtMatch ls n j)
    (hselectable : Selectable ls (ls.masterFmt n)) (hpairs : sel'.pairs = sel.pairs ++ [ls.pair (n, j)])
    (hattr : ∀ fmt, attrFind sel'.attr strRtpmap fmt = attrFind sel.attr strRtpmap fmt)
    (hcodec : sel'.foundCodec = (sel.foundCodec || fmtKind ls.master (ls.masterFmt n) == .codec))
    (hother : sel'.foundOther = (sel.foundOther || fmtKind ls.master (ls.masterFmt n) == .other))
    (hclock : ∀ rate, rate ∈ sel'.telClockrate ↔ rate ∈ sel.telClockrate ∨
      (fmtKind ls.master (ls.masterFmt n) = .telephoneEvent ∧
        ∃ r, ls.master.rtpmap (ls.masterFmt n) = some r ∧ r.clockRate = rate))
    (hapart : ∀ p ∈ picks, p.2 = j →
      together ls.multiple (fmtKind ls.master (ls.masterFmt p.1)) (fmtKind ls.master (ls.masterFmt n))) :
    Picks fmtMatch ls (n + 1) sel' (picks ++ [(n, j)]) where
  pairs := by rw [hpairs, h.pairs, List.map_append, List.map_singleton]
  attr fmt := (hattr fmt).trans (h.attr fmt)
  bound p hp := by
    rcases List.mem_append.mp hp with hold | hnew
    · exact ⟨Nat.lt_succ_of_lt (h.bound p hold).1, (h.bound p hold).2⟩
    · obtain rfl := List.mem_singleton.mp hnew
      exact ⟨Nat.lt_succ_self n, hn, hj⟩
  sorted := List.pairwise_append.mpr ⟨h.sorted, List.pairwise_singleton _ _, fun p hp q hq => by
    obtain rfl := List.mem_singleton.mp hq
    exact (h.bound p hp).1⟩
  reached p hp := by
    rcases List.mem_append.mp hp with hold | hnew
    · exact h.reached p hold
    · obtain rfl := List.mem_singleton.mp hnew
      exact hreached
  selectable p hp := by
    rcases List.mem_append.mp hp with hold | hnew
    · exact h.selectable p hold
    · obtain rfl := List.mem_singleton.mp hnew
      exact hselectable
  apart := List.pairwise_append.mpr ⟨h.apart, List.pairwise_singleton _ _, fun p hp q hq => by
    obtain rfl := List.mem_singleton.mp hq
    exact hapart p hp⟩
  codec := by
    rw [hcodec, Bool.or_eq_true, beq_iff_eq, ← h.codec]
    simp only [List.mem_append, List.mem_singleton, or_and_right, exists_or, exists_eq_left]
  other := by
    rw [hother, Bool.or_eq_true, beq_iff_eq, ← h.other]
    simp only [List.mem_append, List.mem_singleton, or_and_right, exists_or, exists_eq_left]
  clock rate := by
    rw [hclock, h.clock]
    simp only [List.mem_append, List.mem_singleton, or_and_right, exists_or, exists_eq_left]
  event _ := List.append_ne_nil_of_right_ne_nil _ (List.cons_ne_nil _ _)
  visited _ _ _ _ := Or.inl (List.append_ne_nil_of_right_ne_nil _ (List.cons_ne_nil _ _))

/-- A codec may be selected when there is none yet or several are allowed. -/
theorem Picks.apart_codec (h : Picks fmtMatch ls n sel picks) (hmay : ¬(ls.multiple = false ∧ sel.foundCodec))
    {p : Nat × Nat} (hp : p ∈ picks) : together ls.multiple (fmtKind ls.master (ls.masterFmt p.1)) .codec := by
  rcases hkind : fmtKind ls.master (ls.masterFmt p.1) with _ | _ | _ | _
  · have hfound : sel.foundCodec := h.codec.mp ⟨p, hp, hkind⟩
    rcases hmultiple : ls.multiple with _ | _
    · exact absurd ⟨hmultiple, hfound⟩ hmay
    · rfl
  · rfl
  · rfl
  · rfl

theorem Picks.apart_other (h : Picks fmtMatch ls n sel picks) (hmay : sel.foundOther = false) {p : Nat × Nat} (hp : p ∈ picks) :
    together ls.multiple (fmtKind ls.master (ls.masterFmt p.1)) .other := by
  rcases hkind : fmtKind ls.master (ls.masterFmt p.1) with _ | _ | _ | _
  · rfl
  · rfl
  · rfl
  · exact absurd (h.other.mp ⟨p, hp, hkind⟩) (Bool.eq_false_iff.mp hmay)

theorem together_red (multiple : Bool) (k : FmtKind) : together multiple k .red := by
  cases k <;> rfl

theorem clockRate_eq_of_sameFormat {r r' : Rtpmap} (h : sameFormat r r') : r.clockRate = r'.clockRate := by
  simp only [sameFormat, Bool.and_eq_true, beq_iff_eq] at h
  exact h.1.2

theorem Picks.apart_telephoneEvent (h : Picks fmtMatch ls n sel picks) {j : Nat} {r r' : Rtpmap}
    (hslave : ls.slave.rtpmap (ls.slaveFmt j) = some r') (hsame : sameFormat r r')
    (hnew : r.clockRate ∉ sel.telClockrate) {p : Nat × Nat} (hp : p ∈ picks) (hj : p.2 = j) :
    together ls.multiple (fmtKind ls.master (ls.masterFmt p.1)) .telephoneEvent := by
  rcases hkind : fmtKind ls.master (ls.masterFmt p.1) with _ | _ | _ | _
  · rfl
  · -- both have the clock rate of the format of the slave
    have hmatch := (h.reached p hp).1
    rw [MasterMatch] at hmatch
    have hdigit : ¬isDigit ((ls.masterFmt p.1).headD 0) = false := fun hno => by
      rw [fmtKind, if_pos hno] at hkind
      cases hkind
    have hdynamic : ¬strtoul (ls.masterFmt p.1) < 96 := fun hstatic => by
      rw [fmtKind, if_neg hdigit, if_pos hstatic] at hkind
      cases hkind
    rw [if_neg hdigit, if_neg hdynamic] at hmatch
    obtain ⟨rp, rp', hmaster, hslave', hsame'⟩ := hmatch
    obtain rfl := Option.some.inj ((hj ▸ hslave').symm.trans hslave)
    have hrate : rp.clockRate = r.clockRate :=
      (clockRate_eq_of_sameFormat hsame').trans (clockRate_eq_of_sameFormat hsame).symm
    exact absurd ((h.clock r.clockRate).mpr ⟨p, hp, hkind, rp, hmaster, hrate⟩) hnew
  · rfl
  · rfl

theorem rtpmap_masterNow (hattr : ∀ fmt, attrFind sel.attr strRtpmap fmt = attrFind ls.preanswer.attr strRtpmap fmt)
    (fmt : Str) : (ls.masterNow sel).rtpmap fmt = ls.master.rtpmap fmt := by
  unfold Lines.masterNow Lines.master
  split
  · rfl
  · rw [Media.rtpmap, Media.rtpmap, hattr]

theorem rtpmap_slaveNow (hattr : ∀ fmt, attrFind sel.attr strRtpmap fmt = attrFind ls.preanswer.attr strRtpmap fmt)
    (fmt : Str) : (ls.slaveNow sel).rtpmap fmt = ls.slave.rtpmap fmt := by
  unfold Lines.slaveNow Lines.slave
  split
  · rw [Media.rtpmap, Media.rtpmap, hattr]
  · rfl

theorem selectAmong_cases (fmtMatch : FmtMatch) (ls : Lines) (i : Nat) (r : Rtpmap) (n j : Nat) (sel : Selection) :
    (selectAmong fmtMatch ls i r n j sel = sel ∧ ∀ k r', j ≤ k → k < j + n →
      (ls.slaveNow sel).rtpmap (ls.slaveFmt k) = some r' → sameFormat r r' → take fmtMatch ls sel i k r = none) ∨
    ∃ k r' sel', j ≤ k ∧ k < j + n ∧ (∀ l r', j ≤ l → l < k → (ls.slaveNow sel).rtpmap (ls.slaveFmt l) = some r' →
        sameFormat r r' → take fmtMatch ls sel i l r = none) ∧
      (ls.slaveNow sel).rtpmap (ls.slaveFmt k) = some r' ∧ sameFormat r r' ∧
      take fmtMatch ls sel i k r = some sel' ∧ selectAmong fmtMatch ls i r n j sel = sel'.match ls i k := by
  induction n generalizing j with
  | zero => exact Or.inl ⟨rfl, fun k r' hle hlt => absurd hlt (Nat.not_lt.mpr hle)⟩
  | succ n ih =>
    -- the formats behind this one
    have hrest : (∀ r', (ls.slaveNow sel).rtpmap (ls.slaveFmt j) = some r' → sameFormat r r' →
          take fmtMatch ls sel i j r = none) →
        selectAmong fmtMatch ls i r (n + 1) j sel = selectAmong fmtMatch ls i r n (j + 1) sel →
        (selectAmong fmtMatch ls i r (n + 1) j sel = sel ∧ ∀ k r', j ≤ k → k < j + (n + 1) →
          (ls.slaveNow sel).rtpmap (ls.slaveFmt k) = some r' → sameFormat r r' → take fmtMatch ls sel i k r = none) ∨
        ∃ k r' sel', j ≤ k ∧ k < j + (n + 1) ∧ (∀ l r', j ≤ l → l < k →
            (ls.slaveNow sel).rtpmap (ls.slaveFmt l) = some r' → sameFormat r r' → take fmtMatch ls sel i l r = none) ∧
          (ls.slaveNow sel).rtpmap (ls.slaveFmt k) = some r' ∧ sameFormat r r' ∧
          take fmtMatch ls sel i k r = some sel' ∧
          selectAmong fmtMatch ls i r (n + 1) j sel = sel'.match ls i k := by
      intro hno heq
      rw [heq]
      rcases ih (j + 1) with ⟨hsame, hall⟩ | ⟨k, r', sel', hle, hlt, hbefore, hfound⟩
      · refine Or.inl ⟨hsame, fun k r' hle hlt hr hs => ?_⟩
        rcases Nat.eq_or_lt_of_le hle with rfl | hjk
        · exact hno r' hr hs
        · exact hall k r' hjk (by omega) hr hs
      · refine Or.inr ⟨k, r', sel', by omega, by omega, fun l r' hle hlt hr hs => ?_, hfound⟩
        rcases Nat.eq_or_lt_of_le hle with rfl | hjl
        · exact hno r' hr hs
        · exact hbefore l r' hjl hlt hr hs
    rcases hr : (ls.slaveNow sel).rtpmap (ls.slaveFmt j) with _ | r'
    · refine hrest (fun r' hr' => ?_) ?_
      · rw [hr] at hr'
        cases hr'
      · rw [Lines.slaveFmt] at hr
        simp only [selectAmong, hr]
    · by_cases hs : sameFormat r r'
      · rcases htake : take fmtMatch ls sel i j r with _ | sel'
        · refine hrest (fun _ _ _ => htake) ?_
          rw [Lines.slaveFmt] at hr
          simp only [selectAmong, hr, hs, if_true, htake]
        · refine Or.inr ⟨j, r', sel', le_refl j, by omega, fun l r' hle hlt => absurd hlt (Nat.not_lt.mpr hle), hr, hs,
            htake, ?_⟩
          rw [Lines.slaveFmt] at hr
          simp only [selectAmong, hr, hs, if_true, htake]
      · refine hrest (fun r'' hr'' hs' => ?_) ?_
        · obtain rfl := Option.some.inj (hr.symm.trans hr'')
          exact absurd hs' hs
        · rw [Lines.slaveFmt] at hr
          simp only [selectAmong, hr, hs, Bool.false_eq_true, if_false]

theorem slaveFmt_mem {j : Nat} (hj : j < ls.slave.fmt.length) : ls.slaveFmt j ∈ ls.slave.fmt := by
  rw [Lines.slaveFmt, List.getD_eq_getElem _ _ hj]
  exact List.getElem_mem hj

theorem fmtKind_other {f : Str} (h : isDigit (f.headD 0) = false) (m : Media) : fmtKind m f = .other := by
  rw [fmtKind, if_pos h]

theorem fmtKind_static {f : Str} (hdigit : ¬isDigit (f.headD 0) = false) (h : strtoul f < 96) (m : Media) :
    fmtKind m f = .codec := by
  rw [fmtKind, if_neg hdigit, if_pos h]

theorem fmtKind_dynamic {m : Media} {f : Str} {r : Rtpmap} (hdigit : ¬isDigit (f.headD 0) = false)
    (h : ¬strtoul f < 96) (hr : m.rtpmap f = some r) :
    fmtKind m f =
      match kind r.encName with
      | .codec => .codec
      | .telephoneEvent => .telephoneEvent
      | .red => .red := by
  rw [fmtKind, if_neg hdigit, if_neg h, hr]
  simp only [Option.map_some]
  cases kind r.encName <;> rfl

theorem Picks.static (h : Picks fmtMatch ls n sel picks) (hn : n < ls.master.fmt.length)
    (hdigit : ¬isDigit ((ls.masterFmt n).headD 0) = false) (hstatic : strtoul (ls.masterFmt n) < 96) :
    ∃ picks', Picks fmtMatch ls (n + 1) (selectStatic ls sel n) picks' := by
  have hkind := fmtKind_static hdigit hstatic ls.master
  unfold selectStatic
  dsimp only
  split
  · exact ⟨picks, h.skip rfl rfl rfl rfl rfl rfl (fun _ => rfl) id fun _ => Or.inr (Or.inl ⟨hkind, rfl⟩)⟩
  case isFalse hmay =>
    split
    · exact ⟨picks, h.skip rfl rfl rfl rfl rfl rfl (fun _ => rfl) id fun _ => Or.inr (Or.inl ⟨hkind, rfl⟩)⟩
    case h_2 j hfind =>
      obtain ⟨hj, hmatch, hfirst⟩ := List.findIdx?_eq_some_iff_getElem.mp hfind
      rw [Bool.and_eq_true, beq_iff_eq] at hmatch
      have hstaticMatch : ∀ k (hk : k < ls.slave.fmt.length),
          MasterMatch ls.master ls.slave (ls.masterFmt n) (ls.slaveFmt k) ↔
            isDigit (ls.slave.fmt[k].headD 0) ∧ strtoul ls.slave.fmt[k] = strtoul (ls.masterFmt n) := fun k hk => by
        have hslave : ls.slaveFmt k = ls.slave.fmt[k] := List.getD_eq_getElem _ _ hk
        rw [MasterMatch, if_neg hdigit, if_pos hstatic, hslave]
      refine ⟨_, h.pick hn hj ?_ ?_ rfl (fun _ => rfl) ?_ ?_ (fun rate => ?_) fun p hp _ => ?_⟩
      · refine ⟨(hstaticMatch j hj).mpr ⟨hmatch.2, hmatch.1⟩, fun k hk hm => absurd ?_ (hfirst k hk)⟩
        rw [Bool.and_eq_true, beq_iff_eq]
        exact ((hstaticMatch k (hk.trans hj)).mp hm).symm
      · rw [Selectable, hkind]
        trivial
      · rw [hkind]
        exact (Bool.or_true _).symm
      · rw [hkind]
        exact (Bool.or_false _).symm
      · rw [hkind]
        exact ⟨Or.inl, fun hor => hor.resolve_right fun hand => FmtKind.noConfusion hand.1⟩
      · rw [hkind]
        exact h.apart_codec hmay hp

theorem Picks.named (h : Picks fmtMatch ls n sel picks) (hn : n < ls.master.fmt.length)
    (hother : isDigit ((ls.masterFmt n).headD 0) = false) :
    ∃ picks', Picks fmtMatch ls (n + 1) (selectOther ls sel n) picks' := by
  have hkind := fmtKind_other hother ls.master
  unfold selectOther
  dsimp only
  split
  · exact ⟨picks, h.skip rfl rfl rfl rfl rfl rfl id (fun _ => rfl) fun _ => Or.inr (Or.inr ⟨hkind, rfl⟩)⟩
  case isFalse hmay =>
    split
    · exact ⟨picks, h.skip rfl rfl rfl rfl rfl rfl id (fun _ => rfl) fun _ => Or.inr (Or.inr ⟨hkind, rfl⟩)⟩
    case h_2 j hfind =>
      obtain ⟨hj, hmatch, hfirst⟩ := List.idxOf?_eq_some_iff.mp hfind
      have hotherMatch : ∀ k (hk : k < ls.slave.fmt.length),
          MasterMatch ls.master ls.slave (ls.masterFmt n) (ls.slaveFmt k) ↔ ls.slave.fmt[k] = ls.masterFmt n :=
        fun k hk => by
          have hslave : ls.slaveFmt k = ls.slave.fmt[k] := List.getD_eq_getElem _ _ hk
          rw [MasterMatch, if_pos hother, hslave]
      refine ⟨_, h.pick hn hj ?_ ?_ rfl (fun _ => rfl) ?_ ?_ (fun rate => ?_) fun p hp _ => ?_⟩
      · refine ⟨(hotherMatch j hj).mpr hmatch, fun k hk hm => absurd ((hotherMatch k (hk.trans hj)).mp hm) ?_⟩
        exact hfirst k hk
      · rw [Selectable, hkind]
        trivial
      · rw [hkind]
        exact (Bool.or_false _).symm
      · rw [hkind]
        exact (Bool.or_true _).symm
      · rw [hkind]
        exact ⟨Or.inl, fun hor => hor.resolve_right fun hand => FmtKind.noConfusion hand.1⟩
      · rw [hkind]
        exact h.apart_other (Bool.eq_false_iff.mpr hmay) hp

theorem offered_eq (ls : Lines) (i j : Nat) :
    ls.offer.fmt.getD (ls.offerIdx i j) [] = if ls.preferRemote then ls.masterFmt i else ls.slaveFmt j := by
  unfold Lines.offerIdx Lines.masterFmt Lines.slaveFmt Lines.master Lines.slave
  split <;> rfl

theorem answered_eq (ls : Lines) (i j : Nat) :
    ls.preanswer.fmt.getD (ls.answerIdx i j) [] = if ls.preferRemote then ls.slaveFmt j else ls.masterFmt i := by
  unfold Lines.answerIdx Lines.masterFmt Lines.slaveFmt Lines.master Lines.slave
  split <;> rfl

theorem Picks.among (hkeeps : KeepsRtpmaps fmtMatch) (h : Picks fmtMatch ls n sel picks)
    (hn : n < ls.master.fmt.length) (hdigit : ¬isDigit ((ls.masterFmt n).headD 0) = false)
    (hdynamic : ¬strtoul (ls.masterFmt n) < 96) {r : Rtpmap} (hr : ls.master.rtpmap (ls.masterFmt n) = some r)
    (hmay : kind r.encName = .codec → ¬(ls.multiple = false ∧ sel.foundCodec))
    (hmaster : kind r.encName = .codec → sel.masterHasCodec) :
    ∃ picks', Picks fmtMatch ls (n + 1) (selectAmong fmtMatch ls n r ls.slave.fmt.length 0 sel) picks' := by
  have hkind := fmtKind_dynamic hdigit hdynamic hr
  have hmatch : ∀ g, MasterMatch ls.master ls.slave (ls.masterFmt n) g ↔
      ∃ r', ls.slave.rtpmap g = some r' ∧ sameFormat r r' := fun g => by
    rw [MasterMatch, if_neg hdigit, if_neg hdynamic, hr]
    simp only [Option.some.injEq, exists_and_left, exists_eq_left']
  rcases selectAmong_cases fmtMatch ls n r ls.slave.fmt.length 0 sel with
    ⟨hsame, hall⟩ | ⟨j, r', sel', _, hj, hbefore, hslave, hs, htake, hresult⟩
  · rw [hsame]
    refine ⟨picks, h.skip rfl rfl rfl rfl rfl rfl id id fun hsel => ?_⟩
    -- a match that is not taken
    have hrefused : ∀ g ∈ ls.slave.fmt, MasterMatch ls.master ls.slave (ls.masterFmt n) g →
        ∃ j, g = ls.slaveFmt j ∧ take fmtMatch ls sel n j r = none := by
      intro g hg hm
      obtain ⟨j, hj, rfl⟩ := List.mem_iff_getElem.mp hg
      have hslave : ls.slaveFmt j = ls.slave.fmt[j] := List.getD_eq_getElem _ _ hj
      obtain ⟨r', hr', hs⟩ := (hmatch _).mp hm
      refine ⟨j, hslave.symm, hall j r' (Nat.zero_le j) (by omega) ?_ hs⟩
      rw [rtpmap_slaveNow h.attr, hslave]
      exact hr'
    rw [Selectable] at hsel
    rcases hk : kind r.encName with _ | _ | _
    · rw [hk] at hkind
      exact Or.inr (Or.inl ⟨hkind, hmaster hk⟩)
    · rw [hkind, hk] at hsel
      obtain ⟨g, hg, hm⟩ := hsel
      obtain ⟨j, _, hnone⟩ := hrefused g hg hm
      simp only [take, hk] at hnone
      split at hnone
      case isTrue hcontains =>
        obtain ⟨p, hp, _⟩ := (h.clock r.clockRate).mp (List.contains_iff_mem.mp hcontains)
        exact Or.inl (List.ne_nil_of_mem hp)
      · cases hnone
    · rw [hkind, hk] at hsel
      obtain ⟨g, hg, hm, hparses⟩ := hsel
      obtain ⟨j, rfl, hnone⟩ := hrefused g hg hm
      simp only [take, hk, offered_eq, Option.map_eq_none_iff] at hnone
      rw [redParses, hnone] at hparses
      cases hparses
  · rw [hresult]
    rw [rtpmap_slaveNow h.attr] at hslave
    have hj : j < ls.slave.fmt.length := by omega
    have hm : MasterMatch ls.master ls.slave (ls.masterFmt n) (ls.slaveFmt j) := (hmatch _).mpr ⟨r', hslave, hs⟩
    -- the matches in front of it were not taken
    have hpassed : ∀ k < j, MasterMatch ls.master ls.slave (ls.masterFmt n) (ls.slaveFmt k) →
        take fmtMatch ls sel n k r = none := fun k hk hm => by
      obtain ⟨r'', hr'', hs'⟩ := (hmatch _).mp hm
      refine hbefore k r'' (Nat.zero_le k) hk ?_ hs'
      rw [rtpmap_slaveNow h.attr]
      exact hr''
    rcases hk' : kind r.encName with _ | _ | _
    · rw [hk'] at hkind
      simp only [take, hk'] at htake
      obtain ⟨attr, hcallback, rfl⟩ := Option.map_eq_some_iff.mp htake
      refine ⟨_, h.pick hn hj ⟨hm, fun k hk hmk => ?_⟩ ?_ rfl (fun fmt => ?_) ?_ ?_ (fun rate => ?_) fun p hp _ => ?_⟩
      · have hnone := hpassed k hk hmk
        simp only [take, hk', Option.map_eq_none_iff] at hnone
        rw [MayPass, hkind]
        exact ⟨Nat.not_lt.mp hdynamic, r, sel.attr, hr, hnone⟩
      · rw [Selectable, hkind]
        trivial
      · exact hkeeps _ _ _ _ _ _ _ hcallback fmt
      · rw [hkind]
        exact (Bool.or_true _).symm
      · rw [hkind]
        exact (Bool.or_false _).symm
      · rw [hkind]
        exact ⟨Or.inl, fun hor => hor.resolve_right fun hand => FmtKind.noConfusion hand.1⟩
      · rw [hkind]
        exact h.apart_codec (hmay hk') hp
    · rw [hk'] at hkind
      simp only [take, hk'] at htake
      split at htake
      · cases htake
      case isFalse hnew =>
        obtain rfl := Option.some.inj htake
        refine ⟨_, h.pick hn hj ⟨hm, fun k hk hmk => ?_⟩ ?_ rfl (fun fmt => rfl) ?_ ?_ (fun rate => ?_)
          fun p hp hpj => ?_⟩
        · have hnone := hpassed k hk hmk
          simp only [take, hk'] at hnone
          rw [if_neg hnew] at hnone
          cases hnone
        · rw [Selectable, hkind]
          exact ⟨_, slaveFmt_mem hj, hm⟩
        · rw [hkind]
          exact (Bool.or_false _).symm
        · rw [hkind]
          exact (Bool.or_false _).symm
        · rw [hkind, hr]
          simp [Selection.match, eq_comm]
        · rw [hkind]
          refine h.apart_telephoneEvent hslave hs (fun hmem => hnew (List.contains_iff_mem.mpr hmem)) hp hpj
    · rw [hk'] at hkind
      simp only [take, hk'] at htake
      obtain ⟨params, hparse, rfl⟩ := Option.map_eq_some_iff.mp htake
      refine ⟨_, h.pick hn hj ⟨hm, fun k hk hmk => ?_⟩ ?_ rfl (fun fmt => rfl) ?_ ?_ (fun rate => ?_) fun p hp _ => ?_⟩
      · have hnone := hpassed k hk hmk
        simp only [take, hk', offered_eq, Option.map_eq_none_iff] at hnone
        rw [MayPass, hkind]
        simp only [redParses, hnone, Option.isSome_none]
      · rw [Selectable, hkind]
        refine ⟨_, slaveFmt_mem hj, hm, ?_⟩
        rw [redParses, ← offered_eq, hparse]
        rfl
      · rw [hkind]
        exact (Bool.or_false _).symm
      · rw [hkind]
        exact (Bool.or_false _).symm
      · rw [hkind]
        exact ⟨Or.inl, fun hor => hor.resolve_right fun hand => FmtKind.noConfusion hand.1⟩
      · rw [hkind]
        exact together_red _ _

theorem selectFormat_picks (hkeeps : KeepsRtpmaps fmtMatch) (h : Picks fmtMatch ls n sel picks)
    (hn : n < ls.master.fmt.length) (hstep : selectFormat fmtMatch ls sel n = .ok sel') :
    ∃ picks', Picks fmtMatch ls (n + 1) sel' picks' := by
  unfold selectFormat at hstep
  dsimp only at hstep
  split at hstep
  case isFalse hother =>
    obtain rfl := Except.ok.inj hstep
    exact h.named hn (Bool.eq_false_iff.mpr hother)
  case isTrue hdigit =>
    have hdigit' : ¬isDigit ((ls.masterFmt n).headD 0) = false := fun hno => Bool.false_ne_true (hno.symm.trans hdigit)
    split at hstep
    case isTrue hstatic =>
      obtain rfl := Except.ok.inj hstep
      exact h.static hn hdigit' hstatic
    case isFalse hdynamic =>
      unfold selectDynamic at hstep
      rw [rtpmap_masterNow h.attr] at hstep
      split at hstep
      · cases hstep
      case h_2 r hr =>
        split at hstep
        case isTrue hcodec =>
          dsimp only at hstep
          -- the master has a codec, whatever is selected
          have hnoted : Picks fmtMatch ls n { sel with masterHasCodec := true } picks :=
            ⟨h.pairs, h.attr, h.bound, h.sorted, h.reached, h.selectable, h.apart, h.codec, h.other, h.clock, h.event,
              fun i hi hlen hsel => (h.visited i hi hlen hsel).imp_right (Or.imp_left (And.imp_right fun _ => rfl))⟩
          split at hstep
          · obtain rfl := Except.ok.inj hstep
            have hkind := fmtKind_dynamic hdigit' hdynamic hr
            rw [hcodec] at hkind
            exact ⟨picks, hnoted.skip rfl rfl rfl rfl rfl rfl id id fun _ => Or.inr (Or.inl ⟨hkind, rfl⟩)⟩
          case isFalse hmay =>
            obtain rfl := Except.ok.inj hstep
            exact hnoted.among hkeeps hn hdigit' hdynamic hr (fun _ => hmay) fun _ => rfl
        case isFalse hcodec =>
          obtain rfl := Except.ok.inj hstep
          exact h.among hkeeps hn hdigit' hdynamic hr (fun hk => absurd hk hcodec) fun hk => absurd hk hcodec

end Steps

theorem selectFormat_error {fmtMatch : FmtMatch} {ls : Lines} {sel : Selection} {i : Nat} {error : Errno}
    {attr : List Attr} (h : selectFormat fmtMatch ls sel i = .error (error, attr)) : attr = sel.attr := by
  unfold selectFormat at h
  dsimp only at h
  split at h
  · split at h
    · cases h
    · unfold selectDynamic at h
      split at h
      · exact (Prod.mk.inj (Except.error.inj h)).2.symm
      · split at h
        · dsimp only at h
          split at h
          all_goals cases h
        · cases h
  · cases h

/-- What is known of the first `n` formats of the master: what was selected, or the attributes when it failed. -/
def Selects (fmtMatch : FmtMatch) (ls : Lines) (n : Nat) : Except (Errno × List Attr) Selection → Prop
  | .ok sel => ∃ picks, Picks fmtMatch ls n sel picks
  | .error (_, attr) => ∀ fmt, attrFind attr strRtpmap fmt = attrFind ls.preanswer.attr strRtpmap fmt

theorem selectFormats_selects {fmtMatch : FmtMatch} (hkeeps : KeepsRtpmaps fmtMatch) (ls : Lines) :
    Selects fmtMatch ls ls.master.fmt.length (selectFormats fmtMatch ls) := by
  have hrun : ∀ n ≤ ls.master.fmt.length, Selects fmtMatch ls n ((List.range n).foldlM (selectFormat fmtMatch ls)
      ⟨false, false, false, false, false, false, [], 0, [], [], ls.preanswer.attr⟩) := by
    intro n
    induction n with
    | zero =>
      refine fun _ => ⟨[], rfl, fun _ => rfl, fun p hp => ?_, List.Pairwise.nil, fun p hp => ?_, fun p hp => ?_,
        List.Pairwise.nil, ?_, ?_, fun rate => ?_, nofun,
        nofun⟩
      · cases hp
      · cases hp
      · cases hp
      · exact iff_of_false (fun ⟨p, hp, _⟩ => absurd hp List.not_mem_nil) Bool.false_ne_true
      · exact iff_of_false (fun ⟨p, hp, _⟩ => absurd hp List.not_mem_nil) Bool.false_ne_true
      · exact iff_of_false List.not_mem_nil fun ⟨p, hp, _⟩ => absurd hp List.not_mem_nil
    | succ n ih =>
      intro hle
      have hfirst := ih (Nat.le_of_succ_le hle)
      rw [List.range_succ, List.foldlM_append]
      generalize (List.range n).foldlM (selectFormat fmtMatch ls)
        ⟨false, false, false, false, false, false, [], 0, [], [], ls.preanswer.attr⟩ = result at hfirst ⊢
      rcases result with ⟨error, attr⟩ | sel
      · exact hfirst
      · obtain ⟨picks, hpicks⟩ := hfirst
        change Selects fmtMatch ls (n + 1) ([n].foldlM (selectFormat fmtMatch ls) sel)
        rw [List.foldlM_cons]
        rcases hformat : selectFormat fmtMatch ls sel n with ⟨error, attr⟩ | sel'
        · intro fmt
          rw [selectFormat_error hformat]
          exact hpicks.attr fmt
        · exact selectFormat_picks hkeeps hpicks hle hformat
  exact hrun _ le_rfl

/-! What was selected. -/

/-- Payload number, or encoding name, clock rate and channel count match. A format that is not a number is the same in
both lines. -/
def FormatsMatch (offer lcl : Media) (f g : Str) : Prop :=
  (isDigit (f.headD 0) ∧ isDigit (g.headD 0) ∧ strtoul f = strtoul g) ∨
    (∃ r r', offer.rtpmap f = some r ∧ lcl.rtpmap g = some r' ∧ sameFormat r r') ∨
    (isDigit (f.headD 0) = false ∧ f = g)

/-- What the negotiation of two lines relies on. Some format of the master has to have a match or has one. With the local
order, no format of the offer is the one taken for two formats of the local line that may be selected together. The
formats of the local line have names. -/
structure LineCond (fmtMatch : FmtMatch) (ls : Lines) : Prop where
  some_format : ∃ f ∈ ls.master.fmt, Selectable ls f
  once : ls.preferRemote = false → ∀ i i' j, i < i' → i' < ls.master.fmt.length → j < ls.slave.fmt.length →
    Reached fmtMatch ls i j → Reached fmtMatch ls i' j →
    together ls.multiple (fmtKind ls.master (ls.masterFmt i)) (fmtKind ls.master (ls.masterFmt i')) = false
  named : [] ∉ ls.preanswer.fmt

theorem compareN_symm {fold : UInt8 → UInt8} {n : Nat} {a b : Str} (h : Scan.Scanner.compareN fold n a b = 0) :
    Scan.Scanner.compareN fold n b a = 0 := by
  induction n generalizing a b with
  | zero => rfl
  | succ n ih =>
    simp only [Scan.Scanner.compareN] at h ⊢
    by_cases hne : fold (a.headD 0) = fold (b.headD 0)
    · rw [if_neg (not_not.mpr hne)] at h
      rw [if_neg (not_not.mpr hne.symm), ← hne]
      split
      · rfl
      case isFalse hzero =>
        rw [if_neg hzero] at h
        exact ih h
    · rw [if_pos hne] at h
      exact absurd (UInt8.toNat_inj.mp (by omega)) hne

theorem stricmp_symm {a b : Str} (h : stricmp a b = 0) : stricmp b a = 0 := by
  unfold stricmp at h ⊢
  by_cases ha : a = []
  · rw [if_pos ha] at h
    by_cases hb : b = []
    · rw [if_pos hb, if_pos ha]
    · rw [if_neg hb] at h
      cases h
  · rw [if_neg ha] at h
    by_cases hb : b = []
    · rw [if_pos hb] at h
      cases h
    · rw [if_neg hb] at h ⊢
      rw [if_neg ha]
      dsimp only at h ⊢
      split at h
      case isTrue hzero =>
        rw [Nat.min_comm, compareN_symm hzero, if_pos rfl]
        split at h
        · cases h
        · split at h
          case isTrue hlen => rw [if_neg (by omega), if_pos hlen.symm]
          · cases h
      case isFalse hzero => exact absurd h hzero

theorem sameFormat_symm {r r' : Rtpmap} (h : sameFormat r r') : sameFormat r' r := by
  simp only [sameFormat, Bool.and_eq_true, Bool.or_eq_true, beq_iff_eq] at h ⊢
  obtain ⟨⟨hname, hrate⟩, hparam⟩ := h
  refine ⟨⟨stricmp_symm hname, hrate.symm⟩, ?_⟩
  rcases hparam with (hparam | ⟨hnil, hone⟩) | ⟨hnil, hone⟩
  · exact Or.inl (Or.inl (stricmp_symm hparam))
  · exact Or.inr ⟨hnil, hone⟩
  · exact Or.inl (Or.inr ⟨hnil, hone⟩)

theorem MasterMatch.formatsMatch {master slave : Media} {f g : Str} (h : MasterMatch master slave f g) :
    FormatsMatch master slave f g ∧ FormatsMatch slave master g f := by
  rw [MasterMatch] at h
  split at h
  case isTrue hother =>
    rw [h]
    exact ⟨Or.inr (Or.inr ⟨hother, rfl⟩), Or.inr (Or.inr ⟨hother, rfl⟩)⟩
  case isFalse hdigit =>
    rw [Bool.not_eq_false] at hdigit
    split at h
    · exact ⟨Or.inl ⟨hdigit, h.1, h.2.symm⟩, Or.inl ⟨h.1, hdigit, h.2⟩⟩
    · obtain ⟨r, r', hr, hr', hs⟩ := h
      exact ⟨Or.inr (Or.inl ⟨r, r', hr, hr', hs⟩), Or.inr (Or.inl ⟨r', r, hr', hr, sameFormat_symm hs⟩)⟩

theorem map_getD_subperm {α : Type} {idx : List Nat} (hnodup : idx.Nodup) {xs : List α} (hlt : ∀ i ∈ idx, i < xs.length)
    (d : α) : (idx.map fun i => xs.getD i d).Subperm xs := by
  have hall : (List.range xs.length).map (fun i => xs.getD i d) = xs := by
    refine List.ext_getElem (by rw [List.length_map, List.length_range]) fun i h h' => ?_
    rw [List.getElem_map, List.getElem_range, List.getD_eq_getElem _ _ h']
  obtain ⟨l, hperm, hsub⟩ : idx.Subperm (List.range xs.length) :=
    hnodup.subperm fun i hi => List.mem_range.mpr (hlt i hi)
  have hsub' := hsub.map fun i => xs.getD i d
  rw [hall] at hsub'
  exact ⟨_, hperm.map _, hsub'⟩

section Selected

variable {fmtMatch : FmtMatch} {ls : Lines} {n : Nat} {sel : Selection} {picks : List (Nat × Nat)}

theorem Picks.formatsMatch (h : Picks fmtMatch ls n sel picks) {pair : Str × Str} (hpair : pair ∈ sel.pairs) :
    FormatsMatch ls.offer ls.preanswer pair.1 pair.2 := by
  rw [h.pairs] at hpair
  obtain ⟨p, hp, rfl⟩ := List.mem_map.mp hpair
  have hmatch := (h.reached p hp).1.formatsMatch
  rw [Lines.pair, offered_eq, answered_eq]
  unfold Lines.master Lines.slave at hmatch
  by_cases hprefer : ls.preferRemote
  · simp only [if_pos hprefer] at hmatch ⊢
    exact hmatch.1
  · simp only [if_neg hprefer] at hmatch ⊢
    exact hmatch.2

/-- No two formats are selected for the same format of the offer. -/
theorem Picks.offered_subperm (h : Picks fmtMatch ls n sel picks) (hcond : LineCond fmtMatch ls) :
    (sel.pairs.map Prod.fst).Subperm ls.offer.fmt := by
  have hidx : sel.pairs.map Prod.fst =
      (picks.map fun p => ls.offerIdx p.1 p.2).map fun i => ls.offer.fmt.getD i [] := by
    rw [h.pairs, List.map_map, List.map_map]
    rfl
  rw [hidx]
  by_cases hprefer : ls.preferRemote = true
  · have hfirst : ∀ p : Nat × Nat, ls.offerIdx p.1 p.2 = p.1 := fun p => if_pos hprefer
    simp only [hfirst]
    refine map_getD_subperm (List.pairwise_map.mpr (h.sorted.imp fun hlt => Nat.ne_of_lt hlt)) (fun i hi => ?_) _
    obtain ⟨p, hp, rfl⟩ := List.mem_map.mp hi
    have hlt := (h.bound p hp).2.1
    rwa [Lines.master, if_pos hprefer] at hlt
  · have hsecond : ∀ p : Nat × Nat, ls.offerIdx p.1 p.2 = p.2 := fun p => if_neg hprefer
    simp only [hsecond]
    refine map_getD_subperm (List.pairwise_map.mpr ?_) (fun i hi => ?_) _
    · refine (h.sorted.and h.apart).imp_of_mem fun {p q} hp hq hboth heq => ?_
      have hfirst := h.reached p hp
      rw [heq] at hfirst
      have hnot := hcond.once (Bool.eq_false_iff.mpr hprefer) p.1 q.1 q.2 hboth.1 (h.bound q hq).2.1 (h.bound q hq).2.2
        hfirst (h.reached q hq)
      exact Bool.false_ne_true (hnot.symm.trans (hboth.2 heq))
    · obtain ⟨p, hp, rfl⟩ := List.mem_map.mp hi
      have hlt := (h.bound p hp).2.2
      rwa [Lines.slave, if_neg hprefer] at hlt

/-- Where no format that must have a match is without one, something is selected exactly when some format of the master
is selectable. -/
theorem Picks.ne_nil_iff (h : Picks fmtMatch ls ls.master.fmt.length sel picks)
    (hcodec : ¬(sel.masterHasCodec ∧ sel.foundCodec = false))
    (hother : ¬(sel.masterHasOther ∧ sel.foundOther = false)) :
    sel.pairs ≠ [] ↔ ∃ f ∈ ls.master.fmt, Selectable ls f := by
  have hpairs : sel.pairs ≠ [] ↔ picks ≠ [] := by rw [h.pairs, ne_eq, List.map_eq_nil_iff]
  rw [hpairs]
  constructor
  · intro hne
    obtain ⟨p, hp⟩ := List.exists_mem_of_ne_nil _ hne
    refine ⟨ls.masterFmt p.1, ?_, h.selectable p hp⟩
    rw [Lines.masterFmt, List.getD_eq_getElem _ _ (h.bound p hp).2.1]
    exact List.getElem_mem _
  · rintro ⟨f, hf, hsel⟩
    obtain ⟨i, hi, rfl⟩ := List.mem_iff_getElem.mp hf
    have hfmt : ls.masterFmt i = ls.master.fmt[i] := List.getD_eq_getElem _ _ hi
    rcases h.visited i hi hi (hfmt.symm ▸ hsel) with hne | ⟨_, hhas⟩ | ⟨_, hhas⟩
    · exact hne
    · obtain ⟨p, hp, _⟩ := h.codec.mpr ((Bool.not_eq_false _).mp fun hno => hcodec ⟨hhas, hno⟩)
      exact List.ne_nil_of_mem hp
    · obtain ⟨p, hp, _⟩ := h.other.mpr ((Bool.not_eq_false _).mp fun hno => hother ⟨hhas, hno⟩)
      exact List.ne_nil_of_mem hp

end Selected

end PjProject.SdpNeg
