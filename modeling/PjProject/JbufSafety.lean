import PjProject.JbufPut

/-! The count of the discarded frames, over whole runs. A frame is discarded once as long as the schedule of the
progressive algorithm moves past the last discard; with frames so long that the distance becomes zero it does not. -/

namespace PjProject.JitterBuffer

open Circular

namespace Framelist

section Behind

def Behind (fl : Framelist) (ref : Int) : Prop :=
  ∀ i < fl.size, (fl.slotAt i).type = .discarded → fl.origin + i ≤ ref

variable {fl fl' base : Framelist} {seq ref : Int} {frame : Frame}

theorem behind_last (fl : Framelist) : fl.Behind (fl.origin + fl.size - 1) := by
  intro i hi _
  omega

theorem Advanced.behind {c : Nat} (hadv : Advanced fl fl' c) (h : fl.Behind ref) : fl'.Behind ref := by
  intro i hi hdisc
  rw [hadv.slotAt i hi] at hdisc
  have hsize := hadv.size
  have hle := h (c + i) (by omega) hdisc
  rw [hadv.origin]
  push_cast at hle
  omega

theorem Kept.behind (hkept : Kept fl seq fl') (h : fl.Behind ref) : fl'.Behind ref := by
  cases hkept with
  | same => exact h
  | restarted hback =>
    intro i hi hdisc
    have hle := h i hi hdisc
    show seq - fl.size + i ≤ ref
    omega

theorem behind_of_empty (hsize : fl.size = 0) : fl.Behind ref := by
  intro i hi _
  omega

theorem Moved.behind (hmoved : Moved fl base seq) (h : fl.Behind ref) : base.Behind ref := by
  cases hmoved with
  | kept hkept hadv => exact hadv.behind (hkept.behind h)
  | fresh hfresh => exact behind_of_empty hfresh.size

theorem Stored.behind {d : Nat} (hstored : Stored base fl' seq frame d) (hbase : base.Sound)
    (h : base.Behind ref) : fl'.Behind ref := by
  intro i hi hdisc
  have hlt : i < base.maxCount := by
    have hsize := hstored.size
    have hd := hstored.lt
    have hmax := hbase.size
    omega
  rw [hstored.slotAt i hlt] at hdisc
  split at hdisc
  · exact nomatch hdisc
  · rw [hstored.origin]
    by_cases hin : i < base.size
    · exact h i hin hdisc
    · rw [hbase.outside i (by omega) hlt] at hdisc
      exact absurd hdisc (by decide)

theorem Moved.counted (hmoved : Moved fl base seq) (h : fl.Sound) (hseq : InRange seq) (hcounted : fl.Counted) :
    base.Counted := by
  cases hmoved with
  | kept hkept hadv => exact hadv.keeps (hkept.counted hcounted) (hkept.sound h hseq)
  | fresh hfresh => exact hfresh.counted hcounted

/-- Outside of the window there is nothing to count. -/
theorem discardedIn_maxCount (h : fl.Sound) : fl.discardedIn fl.maxCount = fl.discardedIn fl.size := by
  have hsize := h.size
  obtain ⟨n, hn⟩ := Nat.le.dest hsize
  have hrest : Nat.count (fun i => (fl.slotAt (fl.size + i)).type = .discarded) n = 0 := by
    apply count_eq_zero
    intro i hi
    rw [h.outside (fl.size + i) (by omega) (by omega)]
    decide
  rw [← hn, discardedIn, Nat.count_add, hrest]
  rfl

theorem Stored.counted {d : Nat} (hstored : Stored base fl' seq frame d) (hbase : base.Sound)
    (h : base.Counted) : fl'.Counted := by
  refine ⟨?_, hstored.failed.trans h.failed⟩
  rw [hstored.discardedNum, h.discarded, ← discardedIn_maxCount hbase, ← discardedIn_maxCount hstored.sound,
    hstored.maxCount]
  apply count_congr
  intro i hi
  rw [hstored.slotAt i hi]
  split
  · rename_i heq
    rw [heq, hstored.missing]
    exact iff_of_false nofun nofun
  · exact Iff.rfl

end Behind

theorem Marked.counted {fl fl' : Framelist} {d : Nat} (hmarked : Marked fl fl' d) (h : fl.Sound) (hcounted : fl.Counted)
    (hd : d < fl.size) (hslot : (fl.slotAt d).type ≠ .discarded) : fl'.Counted := by
  have hsize := h.size
  have hmore : fl'.discardedIn fl'.size = fl.discardedIn fl.size + 1 := by
    rw [hmarked.size]
    refine count_insert hd hslot ?_
    intro i hi
    rw [hmarked.slotAt i (by omega)]
    split
    · rename_i heq
      exact iff_of_true rfl (Or.inl heq)
    · rename_i hne
      rw [or_iff_right hne]
  have hnum : uint32 (fl.discardedNum + 1) = fl.discardedNum + 1 := by
    have hlimit := h.limit
    have hcount := hcounted.discarded
    have hbound := fl.discardedIn_le fl.size
    rw [seqLimit] at hlimit
    rw [uint32_eq (by omega) (by omega)]
    omega
  exact ⟨by rw [hmarked.discardedNum, hnum, hmore, hcounted.discarded], hmarked.failed.trans hcounted.failed⟩

theorem Marked.behind {fl fl' : Framelist} {d : Nat} (hmarked : Marked fl fl' d) (h : fl.Sound) {ref : Int}
    (hbehind : fl.Behind ref) (hle : ref ≤ fl.origin + d) : fl'.Behind (fl.origin + d) := by
  intro i hi hdisc
  have hsize := h.size
  have hsize' := hmarked.size
  rw [hmarked.slotAt i (by omega)] at hdisc
  rw [hmarked.origin]
  split at hdisc
  · omega
  · exact Int.le_trans (hbehind i (by omega) hdisc) hle

end Framelist

/-! The schedule of the progressive algorithm. -/

section Schedule

variable {settings : Settings}

theorem le_discardDuration (burstLevel : Nat) : proDiscT1 ≤ discardDuration burstLevel := by
  rw [discardDuration]
  split
  · exact le_rfl
  · split
    · decide
    · exact Nat.le_add_right _ _

theorem discardDuration_le (burstLevel : Nat) : discardDuration burstLevel ≤ proDiscT2 := by
  rw [discardDuration]
  split
  · decide
  · split
    · exact le_rfl
    · rename_i hmin hmax
      rw [proDiscMinBurst] at hmin
      rw [proDiscMaxBurst] at hmax
      rw [proDiscT1, proDiscT2, proDiscMinBurst, proDiscMaxBurst]
      omega

theorem scheduleDist_le (hdenum : settings.framePtimeDenum = 1) (hgap : settings.minShrinkGap ≤ discMinGap)
    (curSize burstLevel : Nat) : scheduleDist settings curSize burstLevel ≤ proDiscT2 := by
  rw [scheduleDist, hdenum, Nat.mul_one]
  refine Nat.max_le.mpr ⟨Nat.le_trans hgap (by decide), ?_⟩
  calc
    _ ≤ discardDuration burstLevel / (curSize - max burstLevel settings.minDelay) := Nat.div_le_self _ _
    _ ≤ discardDuration burstLevel := Nat.div_le_self _ _
    _ ≤ proDiscT2 := discardDuration_le burstLevel

/-- The distance of two discards is not zero: there is a gap to keep, or no latency is long enough to ask for two
discards in one frame. -/
def Spaced (settings : Settings) : Prop :=
  settings.discardAlgo = .progressive → 1 ≤ settings.minShrinkGap ∨
    (0 < settings.framePtime ∧ (settings.maxCount - 1) * settings.framePtime ≤ proDiscT1)

theorem scheduleDist_pos (hdenum : settings.framePtimeDenum = 1) (hspaced : Spaced settings)
    (halgo : settings.discardAlgo = .progressive) {curSize burstLevel : Nat} (hcur : curSize + 1 ≤ settings.maxCount)
    (hburst : burstLevel < curSize) (hdelay : settings.minDelay < curSize) :
    1 ≤ scheduleDist settings curSize burstLevel := by
  rw [scheduleDist, hdenum, Nat.mul_one]
  rcases hspaced halgo with hgap | ⟨hptime, hlong⟩
  · exact Nat.le_trans hgap (Nat.le_max_left _ _)
  · refine Nat.le_trans ?_ (Nat.le_max_right _ _)
    have hoverflow : curSize - max burstLevel settings.minDelay ≤ settings.maxCount - 1 := by omega
    have hpos : 0 < curSize - max burstLevel settings.minDelay := by omega
    rw [Nat.div_div_eq_div_mul, Nat.le_div_iff_mul_le (Nat.mul_pos hpos hptime), Nat.one_mul]
    calc
      _ ≤ (settings.maxCount - 1) * settings.framePtime := Nat.mul_le_mul_right _ hoverflow
      _ ≤ proDiscT1 := hlong
      _ ≤ discardDuration burstLevel := le_discardDuration burstLevel

end Schedule

/-- What every call keeps. While a discard is scheduled, all discarded frames are at or before the reference. -/
structure Inv (jb : Jbuf) : Prop where
  sound : jb.framelist.Sound
  counted : jb.framelist.Counted
  maxCount : jb.settings.maxCount = jb.framelist.maxCount
  frameSize : jb.settings.frameSize = jb.framelist.frameSize
  denum : jb.settings.framePtimeDenum = 1
  gap : jb.settings.minShrinkGap ≤ discMinGap
  spaced : Spaced jb.settings
  low : -2 * (seqLimit : Int) ≤ jb.discardRef
  high : jb.discardRef ≤ seqLimit
  idle : jb.settings.discardAlgo ≠ .progressive → jb.discardDist = 0
  behind : jb.discardDist ≠ 0 → jb.framelist.Behind jb.discardRef

/-- The levels may change; what the invariant is about does not. -/
structure SameCore (jb jb' : Jbuf) : Prop where
  settings : jb'.settings = jb.settings
  framelist : jb'.framelist = jb.framelist
  discardRef : jb'.discardRef = jb.discardRef
  discardDist : jb'.discardDist = jb.discardDist

section Steps

variable {jb jb' : Jbuf}

theorem Inv.of_sameCore (h : Inv jb) (hsame : SameCore jb jb') : Inv jb' := by
  obtain ⟨hsettings, hframelist, href, hdist⟩ := hsame
  constructor
  · exact hframelist ▸ h.sound
  · exact hframelist ▸ h.counted
  · rw [hsettings, hframelist]
    exact h.maxCount
  · rw [hsettings, hframelist]
    exact h.frameSize
  · exact hsettings ▸ h.denum
  · exact hsettings ▸ h.gap
  · exact hsettings ▸ h.spaced
  · exact href ▸ h.low
  · exact href ▸ h.high
  · rw [hsettings, hdist]
    exact h.idle
  · rw [hdist, hframelist, href]
    exact h.behind

theorem Inv.with_framelist (h : Inv jb) {fl : Framelist} (hsound : fl.Sound) (hcounted : fl.Counted)
    (hmax : fl.maxCount = jb.framelist.maxCount) (hframe : fl.frameSize = jb.framelist.frameSize)
    (hbehind : jb.framelist.Behind jb.discardRef → fl.Behind jb.discardRef) :
    Inv { jb with framelist := fl } where
  sound := hsound
  counted := hcounted
  maxCount := h.maxCount.trans hmax.symm
  frameSize := h.frameSize.trans hframe.symm
  denum := h.denum
  gap := h.gap
  spaced := h.spaced
  low := h.low
  high := h.high
  idle := h.idle
  behind hdist := hbehind (h.behind hdist)

theorem Inv.advance (h : Inv jb) {fl : Framelist} {c : Nat} (hadv : Framelist.Advanced jb.framelist fl c) :
    Inv { jb with framelist := fl } :=
  h.with_framelist hadv.sound (hadv.keeps h.counted h.sound) hadv.maxCount hadv.frameSize hadv.behind

theorem sameCore_prefetch (jb : Jbuf) : SameCore jb jb.adaptPrefetch ∧ SameCore jb jb.raisePrefetch := by
  rw [Jbuf.adaptPrefetch, Jbuf.raisePrefetch]
  split
  · exact ⟨⟨rfl, rfl, rfl, rfl⟩, ⟨rfl, rfl, rfl, rfl⟩⟩
  · exact ⟨⟨rfl, rfl, rfl, rfl⟩, ⟨rfl, rfl, rfl, rfl⟩⟩

theorem sameCore_calculateJitter (jb : Jbuf) : SameCore jb (calculateJitter jb) := by
  simp only [calculateJitter]
  split
  · split
    · obtain ⟨h1, h2, h3, h4⟩ := (sameCore_prefetch _).1
      exact ⟨h1, h2, h3, h4⟩
    · exact ⟨rfl, rfl, rfl, rfl⟩
  · split
    · obtain ⟨h1, h2, h3, h4⟩ := (sameCore_prefetch _).2
      exact ⟨h1, h2, h3, h4⟩
    · exact ⟨rfl, rfl, rfl, rfl⟩

theorem sameCore_endBurst (jb : Jbuf) (oper : Op) : SameCore jb (endBurst jb oper) := by
  rw [endBurst]
  split
  · obtain ⟨h1, h2, h3, h4⟩ := sameCore_calculateJitter jb
    exact ⟨h1, h2, h3, h4⟩
  · exact ⟨rfl, rfl, rfl, rfl⟩

theorem Inv.discardStatic (h : Inv jb) (hidle : jb.discardDist = 0) : Inv (discardStatic jb) := by
  have hlow := h.sound.low
  have hhigh := h.sound.high
  rw [JitterBuffer.discardStatic]
  split
  · exact h
  split
  · simp only
    obtain ⟨ref, href⟩ : ∃ ref, ref = if jb.framelist.origin < jb.discardRef then jb.framelist.origin
        else jb.discardRef := ⟨_, rfl⟩
    rw [← href]
    have hrange : -2 * (seqLimit : Int) ≤ ref ∧ ref ≤ seqLimit := by
      rw [href]
      split
      · exact ⟨hlow, by omega⟩
      · exact ⟨h.low, h.high⟩
    split
    · have hadv := Framelist.advanced_removeHead h.sound 1
      have hhigh' := hadv.sound.high
      exact
        { h.advance hadv with
          low := hadv.sound.low
          high := by
            show (jb.framelist.removeHead 1).origin ≤ seqLimit
            omega
          behind := fun hdist => absurd hidle hdist }
    · exact
        { h with
          low := hrange.1
          high := hrange.2
          behind := fun hdist => absurd hidle hdist }
  · exact h

theorem Inv.discardDue (h : Inv jb) (halgo : jb.settings.discardAlgo = .progressive)
    (hdist : jb.discardDist ≤ proDiscT2) (hbehind : jb.framelist.Behind jb.discardRef)
    (hspaced : (∃ i < jb.framelist.size, (jb.framelist.slotAt i).type = .discarded) → 1 ≤ jb.discardDist)
    (hsize : 0 < jb.framelist.size) : Inv (discardDue jb (jb.framelist.origin + jb.framelist.size - 1)) := by
  have hlow := h.low
  have hhigh := h.high
  have horigin := h.sound.low
  have hend := h.sound.high
  have hint : int32 (jb.discardRef + jb.discardDist) = jb.discardRef + jb.discardDist := by
    rw [proDiscT2] at hdist
    rw [seqLimit] at hlow hhigh
    exact int32_eq (by omega) (by omega)
  rw [JitterBuffer.discardDue, hint]
  split
  · obtain ⟨d, hd⟩ : ∃ d : Nat, max (jb.discardRef + jb.discardDist) jb.framelist.origin = jb.framelist.origin + d :=
      ⟨(max (jb.discardRef + jb.discardDist) jb.framelist.origin - jb.framelist.origin).toNat, by omega⟩
    have hlt : d < jb.framelist.size := by omega
    have hslot : (jb.framelist.slotAt d).type ≠ .discarded := by
      intro hdisc
      have hpos := hspaced ⟨d, hlt, hdisc⟩
      have hle := hbehind d hlt hdisc
      omega
    have hmarked := Framelist.marked_discard h.sound hlt
    simp only [hd]
    exact
      { sound := hmarked.sound
        counted := hmarked.counted h.sound h.counted hlt hslot
        maxCount := h.maxCount.trans hmarked.maxCount.symm
        frameSize := h.frameSize.trans hmarked.frameSize.symm
        denum := h.denum
        gap := h.gap
        spaced := h.spaced
        low := by
          show -2 * (seqLimit : Int) ≤ jb.framelist.origin + d
          omega
        high := by
          show jb.framelist.origin + d ≤ seqLimit
          omega
        idle := fun hne => absurd halgo hne
        behind := fun _ => hmarked.behind h.sound hbehind (by omega) }
  · exact h

theorem Inv.discardProgressive (h : Inv jb) (halgo : jb.settings.discardAlgo = .progressive) :
    Inv (discardProgressive jb) := by
  rw [JitterBuffer.discardProgressive]
  split
  · exact h
  simp only
  split
  · exact { h with idle := fun _ => rfl, behind := fun hne => absurd rfl hne }
  rename_i hlong
  obtain ⟨hburst, hdelay⟩ := not_or.mp hlong
  have heff := Framelist.effSize_eq h.sound h.counted
  have hlow := h.sound.low
  have hhigh := h.sound.high
  have hlast : int32 (jb.framelist.origin + jb.framelist.size - 1) = jb.framelist.origin + jb.framelist.size - 1 := by
    rw [seqLimit] at hlow hhigh
    exact int32_eq (by omega) (by omega)
  rw [hlast]
  obtain ⟨ref, href⟩ : ∃ ref, ref =
      if jb.discardDist = 0 ∨ jb.framelist.origin + jb.framelist.size - 1 < jb.discardRef then
        jb.framelist.origin + jb.framelist.size - 1 else jb.discardRef := ⟨_, rfl⟩
  rw [← href]
  have hcore : jb.framelist.Behind ref ∧ -2 * (seqLimit : Int) ≤ ref ∧ ref ≤ seqLimit := by
    rw [href]
    split
    · exact ⟨jb.framelist.behind_last, by omega, by omega⟩
    · rename_i hold
      exact ⟨h.behind fun hzero => hold (Or.inl hzero), h.low, h.high⟩
  obtain ⟨hbehind, hreflow, hrefhigh⟩ := hcore
  have hnext : Inv { jb with
      discardRef := ref
      discardDist := scheduleDist jb.settings jb.framelist.effSize (uint32 (max jb.effLevel jb.level)) } :=
    { h with
      low := hreflow
      high := hrefhigh
      idle := fun hne => absurd halgo hne
      behind := fun _ => hbehind }
  refine hnext.discardDue halgo ?_ hbehind ?_ ?_
  · exact scheduleDist_le h.denum h.gap _ _
  · rintro ⟨i, hi, hdisc⟩
    -- with a frame discarded, the effective size is less than the size
    have hcount : 1 ≤ jb.framelist.discardedIn jb.framelist.size := by
      rw [Framelist.discardedIn, Nat.one_le_iff_ne_zero, Ne, Nat.count_iff_forall_not]
      exact fun hnone => hnone i hi hdisc
    have hmax := h.maxCount
    have hsize := h.sound.size
    exact scheduleDist_pos h.denum h.spaced halgo (by omega) (by omega) (by omega)
  · show 0 < jb.framelist.size
    omega

theorem Inv.runDiscard (h : Inv jb) : Inv (runDiscard jb) := by
  rw [JitterBuffer.runDiscard]
  split
  · split
    · exact h
    · rename_i halgo
      exact h.discardStatic (h.idle (by rw [halgo]; decide))
    · rename_i halgo
      exact h.discardProgressive halgo
  · exact h

theorem Inv.update (h : Inv jb) (oper : Op) : Inv (update jb oper) := by
  rw [JitterBuffer.update]
  split
  · simp only
    split
    · refine Inv.runDiscard (Inv.of_sameCore ?_ (sameCore_endBurst _ oper))
      exact h.of_sameCore ⟨rfl, rfl, rfl, rfl⟩
    · split
      · refine Inv.runDiscard (Inv.of_sameCore ?_ (sameCore_endBurst _ oper))
        exact h.of_sameCore ⟨rfl, rfl, rfl, rfl⟩
      · exact h.of_sameCore ⟨rfl, rfl, rfl, rfl⟩
  · exact h.runDiscard

theorem Inv.stored (h : Inv jb) (curSize : Int) : Inv (stored jb curSize) := by
  rw [JitterBuffer.stored]
  refine Inv.update ?_ .put
  exact h.of_sameCore ⟨rfl, rfl, rfl, rfl⟩

theorem Inv.putFrame (h : Inv jb) {seq : Int} (hseq : Framelist.InRange seq) (frame : Frame) :
    ∃ jb' discarded, putFrame jb seq frame = some (jb', discarded) ∧ Inv jb' := by
  have hlen : ({ frame with content := frame.content.take jb.settings.frameSize } : Frame).content.length ≤
      jb.framelist.frameSize := by
    rw [← h.frameSize]
    exact List.length_take_le _ _
  obtain ⟨⟨fl, status⟩, hroom, hput, hstatus⟩ := Framelist.makeRoom_ends h.sound hseq hlen
  rw [← h.maxCount] at hroom
  have hnext : Inv { jb with framelist := fl } := by
    cases hput with
    | late _ => exact h
    | duplicate _ _ _ => exact h
    | crowded _ _ _ => exact absurd rfl hstatus
    | stored hmoved hstored =>
      have hbase := hmoved.sound
      refine h.with_framelist hstored.sound (hstored.counted hbase (hmoved.counted h.sound hseq h.counted)) ?_ ?_
        fun hbehind => hstored.behind hbase (hmoved.behind hbehind)
      · exact hstored.maxCount.trans hmoved.maxCount
      · exact hstored.frameSize.trans hmoved.frameSize
  simp only [JitterBuffer.putFrame, hroom, Option.map_some]
  split
  · exact ⟨_, _, rfl, hnext.stored _⟩
  · exact ⟨_, _, rfl, hnext⟩

theorem Inv.getFrame (h : Inv jb) (size : Option Nat) : ∃ jb' r, getFrame jb size = some (jb', r) ∧ Inv jb' := by
  have hnext : ∀ jb' : Jbuf, Inv jb' → Inv (JitterBuffer.update { jb' with level := jb'.level + 1 } .get) := by
    intro jb' h'
    refine Inv.update ?_ .get
    exact h'.of_sameCore ⟨rfl, rfl, rfl, rfl⟩
  rw [JitterBuffer.getFrame]
  split
  · exact ⟨_, _, rfl, hnext jb h⟩
  split
  · exact ⟨_, _, rfl, hnext jb h⟩
  obtain ⟨fl, got, c, hget, hadv, _⟩ := Framelist.get_ends h.sound size
  rw [hget]
  cases got with
  | some got => exact ⟨_, _, rfl, hnext _ (h.advance hadv)⟩
  | none => exact ⟨_, _, rfl, hnext _ ((h.advance hadv).of_sameCore ⟨rfl, rfl, rfl, rfl⟩)⟩

theorem removeLoop_ends {n : Nat} {fl : Framelist} (h : fl.Sound) {lastDiscardNum : Nat} (hn : lastDiscardNum + 1 ≤ n) :
    ∃ fl' c, removeLoop n fl lastDiscardNum = some fl' ∧ Framelist.Advanced fl fl' c := by
  induction n generalizing fl lastDiscardNum with
  | zero => cases hn
  | succ n ih =>
    rw [removeLoop]
    split
    · have hadv := Framelist.advanced_removeHead h (lastDiscardNum - fl.discardedNum)
      have hfewer : fl.discardedNum + 1 ≤ n := by omega
      obtain ⟨fl', c, hloop, hadv'⟩ := ih hadv.sound hfewer
      exact ⟨fl', _, hloop, hadv.trans hadv'⟩
    · exact ⟨fl, 0, rfl, Framelist.advanced_refl h⟩

theorem Inv.removeFrame (h : Inv jb) (frameCnt : Nat) : ∃ jb', removeFrame jb frameCnt = some jb' ∧ Inv jb' := by
  have hadv := Framelist.advanced_removeHead h.sound frameCnt
  obtain ⟨fl, c, hloop, hadv'⟩ :=
    removeLoop_ends (n := jb.framelist.discardedNum + 2) hadv.sound (Nat.le_succ _)
  rw [JitterBuffer.removeFrame, hloop]
  exact ⟨_, rfl, h.advance (hadv.trans hadv')⟩

theorem Inv.reset (h : Inv jb) : Inv (reset jb) := by
  have hempty := Framelist.emptied_reset h.sound
  have hnext := h.with_framelist hempty.sound ⟨rfl, h.counted.failed⟩ rfl rfl
    fun _ => Framelist.behind_of_empty hempty.size
  exact { hnext with idle := fun _ => rfl, behind := fun hne => absurd rfl hne }

def Call.InRange : Call → Prop
  | .put seq _ => Framelist.InRange seq
  | _ => True

theorem Inv.step (h : Inv jb) (call : Call) (hcall : call.InRange) : ∃ jb', step jb call = some jb' ∧ Inv jb' := by
  cases call with
  | put seq frame =>
    obtain ⟨jb', discarded, hput, h'⟩ := h.putFrame hcall frame
    exact ⟨jb', congrArg (Option.map Prod.fst) hput, h'⟩
  | get size =>
    obtain ⟨jb', r, hget, h'⟩ := h.getFrame size
    exact ⟨jb', congrArg (Option.map Prod.fst) hget, h'⟩
  | peek offset =>
    obtain ⟨r, hr⟩ := Option.ne_none_iff_exists'.mp (Framelist.peek_ends h.sound h.counted offset)
    exact ⟨jb, congrArg (Option.map fun _ => jb) hr, h⟩
  | remove frameCnt => exact h.removeFrame frameCnt
  | reset => exact ⟨_, rfl, h.reset⟩

end Steps

/-- Discards are at least one frame apart: a frame is short enough for a gap, or the buffer is. -/
def DiscardsApart (ptime maxCount : Nat) (algo : DiscardAlgo) : Prop :=
  algo = .progressive → ptime ≤ discMinGap ∨ (maxCount - 1) * ptime ≤ proDiscT1

theorem inv_create {frameSize ptime maxCount : Nat} {algo : DiscardAlgo} {jb : Jbuf}
    (hcreate : create frameSize ptime maxCount algo = some jb) (hpos : 1 ≤ maxCount) (hlimit : maxCount ≤ seqLimit)
    (hapart : DiscardsApart ptime maxCount algo) : Inv jb := by
  rw [create] at hcreate
  split at hcreate
  · cases hcreate
  rename_i hptime
  rw [← Option.some.inj hcreate]
  apply Inv.reset
  exact
    { sound := Framelist.sound_init hpos hlimit
      counted := ⟨rfl, rfl⟩
      maxCount := rfl
      frameSize := rfl
      denum := rfl
      gap := Nat.div_le_self _ _
      spaced := by
        intro halgo
        rcases hapart halgo with hshort | hlong
        · exact Or.inl (Nat.div_pos hshort (Nat.pos_of_ne_zero hptime))
        · exact Or.inr ⟨Nat.pos_of_ne_zero hptime, hlong⟩
      low := show -2 * (0x20000000 : Int) ≤ 0 by decide
      high := show (0 : Int) ≤ 0x20000000 by decide
      idle := fun _ => rfl
      behind := fun hne => absurd rfl hne }

/-- The frame list after a call, in terms of its arrays and counters. -/
structure FrameListOk (fl : Framelist) : Prop where
  size : fl.size ≤ fl.maxCount
  outside : ∀ i, fl.size ≤ i → i < fl.maxCount → (fl.slots ((fl.head + i) % fl.maxCount)).type = .missing
  discarded : fl.discardedNum = Nat.count (fun i => (fl.slots ((fl.head + i) % fl.maxCount)).type = .discarded) fl.size
  effSize : fl.effSize + fl.discardedNum = fl.size
  peek : ∀ offset, fl.peek offset ≠ none
  asserts : fl.failed = false

theorem Inv.frameListOk {jb : Jbuf} (h : Inv jb) : FrameListOk jb.framelist where
  size := h.sound.size
  outside := h.sound.outside
  discarded := h.counted.discarded
  effSize := by
    have heff := Framelist.effSize_eq h.sound h.counted
    have hle := jb.framelist.discardedIn_le jb.framelist.size
    have hnum := h.counted.discarded
    omega
  peek := Framelist.peek_ends h.sound h.counted
  asserts := h.counted.failed

/-- In every run of calls, all of them return, and the frame list is in order after each. -/
theorem frame_list_in_order {frameSize ptime maxCount : Nat} {algo : DiscardAlgo} {jb : Jbuf}
    (hcreate : create frameSize ptime maxCount algo = some jb) (hpos : 1 ≤ maxCount) (hlimit : maxCount ≤ seqLimit)
    (hapart : DiscardsApart ptime maxCount algo) {calls : List Call} (hcalls : ∀ call ∈ calls, call.InRange) :
    ∃ jb', exec step jb calls = some jb' ∧ FrameListOk jb'.framelist := by
  obtain ⟨jb', hrun, h⟩ := exec_returns_of_meets (fun _ call h hcall => Inv.step h call hcall)
    (inv_create hcreate hpos hlimit hapart) (meets_of_forall hcalls jb)
  exact ⟨jb', hrun, h.frameListOk⟩

def lateFourth : List Call :=
  let put (seq : Int) : Call := .put seq ⟨[1], 0, 0⟩
  let get : Call := .get none
  [put 0, get, put 1, get, put 2, get, put 4, get, put 5, get, put 6, get, put 3]

theorem frame_list_in_order_lateFourth :
    ∃ jb, create 4 20 8 .progressive = some jb ∧
      ∃ jb', exec step jb lateFourth = some jb' ∧ FrameListOk jb'.framelist := by
  obtain ⟨jb, hcreate⟩ : ∃ jb, create 4 20 8 .progressive = some jb := ⟨_, rfl⟩
  refine ⟨jb, hcreate, frame_list_in_order hcreate (by decide) (by decide) (fun _ => Or.inl (by decide)) ?_⟩
  intro call hcall
  simp only [lateFourth, List.mem_cons, List.not_mem_nil, or_false] at hcall
  rcases hcall with rfl | rfl | rfl | rfl | rfl | rfl | rfl | rfl | rfl | rfl | rfl | rfl | rfl
  all_goals first | exact trivial | exact ⟨by decide, by decide⟩

/-- With frames of one second, the sixth frame is discarded again when the fourth arrives. -/
theorem long_frames_discard_twice :
    ¬ ∀ (frameSize ptime maxCount : Nat) (algo : DiscardAlgo) (jb jb' : Jbuf) (calls : List Call),
      create frameSize ptime maxCount algo = some jb → 1 ≤ maxCount → exec step jb calls = some jb' →
        FrameListOk jb'.framelist := by
  intro hall
  let read (jb : Jbuf) : Nat × Nat := (jb.framelist.discardedNum,
    Nat.count (fun i => (jb.framelist.slots ((jb.framelist.head + i) % jb.framelist.maxCount)).type = .discarded)
      jb.framelist.size)
  have hread : ((create 4 1000 8 .progressive).bind fun jb => (exec step jb lateFourth).map read) = some (2, 1) := by
    decide
  obtain ⟨jb, hcreate, hrest⟩ := Option.bind_eq_some_iff.mp hread
  obtain ⟨jb', hrun, heq⟩ := Option.map_eq_some_iff.mp hrest
  have hok := (hall 4 1000 8 .progressive jb jb' lateFourth hcreate (by decide) hrun).discarded
  rw [Prod.ext_iff] at heq
  have htwo : jb'.framelist.discardedNum = 2 := heq.1
  rw [hok] at htwo
  exact absurd (htwo.symm.trans heq.2) (by decide)

end PjProject.JitterBuffer
