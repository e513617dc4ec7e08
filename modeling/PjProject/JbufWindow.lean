import PjProject.Jbuf
import PjProject.Circular

/-! What the operations of the frame list do to its window. The slots are seen by their offset from the head; an
operation moves the window on, stores one frame in it, or starts a new one. -/

namespace PjProject.JitterBuffer

open Circular

/-- Sequence numbers and sizes up to here keep all `int` computations in range. -/
def seqLimit : Nat := 0x20000000

theorem int32_eq {n : Int} (hlo : -0x80000000 ≤ n) (hhi : n < 0x80000000) : int32 n = n :=
  Int.bmod_eq_of_le (by omega) (by omega)

theorem uint32_eq {n : Int} (hlo : 0 ≤ n) (hhi : n < 0x100000000) : uint32 n = n.toNat := by
  rw [uint32, Int.emod_eq_of_lt hlo hhi]

namespace Framelist

def slotAt (fl : Framelist) (i : Nat) : Slot := view fl.slots fl.maxCount fl.head i

/-- The number of discarded frames at the first `n` offsets. -/
def discardedIn (fl : Framelist) (n : Nat) : Nat := Nat.count (fun i => (fl.slotAt i).type = .discarded) n

/-- The window lies in the ring, everything outside of it is missing, and the numbers are in range. -/
structure Sound (fl : Framelist) : Prop where
  pos : 0 < fl.maxCount
  head : fl.head < fl.maxCount
  size : fl.size ≤ fl.maxCount
  outside : ∀ i, fl.size ≤ i → i < fl.maxCount → (fl.slotAt i).type = .missing
  limit : fl.maxCount ≤ seqLimit
  low : -2 * (seqLimit : Int) ≤ fl.origin
  high : fl.origin + fl.size ≤ seqLimit

/-- `discarded_num` counts the discarded frames of the window, and no assertion has failed. -/
structure Counted (fl : Framelist) : Prop where
  discarded : fl.discardedNum = fl.discardedIn fl.size
  failed : fl.failed = false

theorem discardedIn_le (fl : Framelist) (n : Nat) : fl.discardedIn n ≤ n := Nat.count_le _

theorem sound_init {frameSize maxCount : Nat} (hpos : 0 < maxCount) (hlimit : maxCount ≤ seqLimit) :
    (framelistInit frameSize maxCount).Sound where
  pos := hpos
  head := hpos
  size := Nat.zero_le _
  outside _ _ _ := rfl
  limit := hlimit
  low := show -2 * (0x20000000 : Int) ≤ -9999 by decide
  high := show (-9999 : Int) + 0 ≤ 0x20000000 by decide

/-- The window starts anew, with no frame in it. -/
structure Emptied (fl fl' : Framelist) : Prop where
  maxCount : fl'.maxCount = fl.maxCount
  frameSize : fl'.frameSize = fl.frameSize
  size : fl'.size = 0
  sound : fl'.Sound

theorem emptied_reset {fl : Framelist} (h : fl.Sound) : Emptied fl fl.reset where
  maxCount := rfl
  frameSize := rfl
  size := rfl
  sound :=
    { pos := h.pos
      head := h.pos
      size := Nat.zero_le _
      outside := fun _ _ _ => rfl
      limit := h.limit
      low := show -2 * (0x20000000 : Int) ≤ -9999 by decide
      high := show (-9999 : Int) + 0 ≤ 0x20000000 by decide }

/-- The window has moved on by `c` frames. -/
structure Advanced (fl fl' : Framelist) (c : Nat) : Prop where
  maxCount : fl'.maxCount = fl.maxCount
  frameSize : fl'.frameSize = fl.frameSize
  size : fl'.size + c = fl.size
  origin : fl'.origin = fl.origin + c
  slotAt : ∀ i < fl'.size, fl'.slotAt i = fl.slotAt (c + i)
  counted : fl.discardedIn c ≤ fl.discardedNum → fl.discardedNum < 0x100000000 →
    fl'.discardedNum + fl.discardedIn c = fl.discardedNum ∧ fl'.failed = fl.failed
  sound : fl'.Sound

theorem advanced_refl {fl : Framelist} (h : fl.Sound) : Advanced fl fl 0 where
  maxCount := rfl
  frameSize := rfl
  size := rfl
  origin := (Int.add_zero _).symm
  slotAt i _ := by rw [Nat.zero_add]
  counted _ _ := ⟨by rw [discardedIn, Nat.count_zero, Nat.add_zero], rfl⟩
  sound := h

section Advance

variable {fl fl' : Framelist} {c : Nat}

theorem Advanced.discardedIn (h : Advanced fl fl' c) {n : Nat} (hn : n ≤ fl'.size) :
    fl.discardedIn (c + n) = fl.discardedIn c + fl'.discardedIn n := by
  rw [Framelist.discardedIn, Nat.count_add]
  congr 1
  apply count_congr
  intro i hi
  rw [h.slotAt i (Nat.lt_of_lt_of_le hi hn)]

theorem Advanced.trans {fl'' : Framelist} {d : Nat} (h : Advanced fl fl' c) (h' : Advanced fl' fl'' d) :
    Advanced fl fl'' (c + d) where
  maxCount := h'.maxCount.trans h.maxCount
  frameSize := h'.frameSize.trans h.frameSize
  size := by
    have h1 := h.size
    have h2 := h'.size
    omega
  origin := by
    rw [h'.origin, h.origin]
    push_cast
    omega
  slotAt i hi := by
    have h2 := h'.size
    rw [h'.slotAt i hi, h.slotAt (d + i) (by omega), Nat.add_assoc]
  counted hle hlt := by
    have h2 := h'.size
    have hsplit := h.discardedIn (n := d) (by omega)
    obtain ⟨hfirst, hfailed⟩ := h.counted (by omega) hlt
    obtain ⟨hsecond, hfailed'⟩ := h'.counted (by omega) (by omega)
    exact ⟨by omega, hfailed'.trans hfailed⟩
  sound := h'.sound

theorem Advanced.keeps (h : Advanced fl fl' c) (hcounted : fl.Counted) (hsound : fl.Sound) : fl'.Counted := by
  have hsize := h.size
  have hlimit := hsound.limit
  have hmax := hsound.size
  have hsplit := h.discardedIn (n := fl'.size) le_rfl
  rw [Nat.add_comm c, hsize] at hsplit
  have hnum := hcounted.discarded
  have hle := fl.discardedIn_le fl.size
  rw [seqLimit] at hlimit
  obtain ⟨hadd, hfailed⟩ := h.counted (by omega) (by omega)
  exact ⟨by omega, hfailed.trans hcounted.failed⟩

end Advance

/-! `jb_framelist_remove_head`. -/

theorem headPositions_eq {fl : Framelist} (h : fl.Sound) {c : Nat} (hc : c ≤ fl.maxCount) :
    fl.headPositions c = positions fl.maxCount fl.head c := by
  rw [positions_eq h.head hc, headPositions]

theorem countDown_positions {fl : Framelist} (c : Nat) {discardedNum : Nat} {failed : Bool}
    (hle : fl.discardedIn c ≤ discardedNum) (hlt : discardedNum < 0x100000000) :
    countDown fl.slots (positions fl.maxCount fl.head c) discardedNum failed =
      (discardedNum - fl.discardedIn c, failed) := by
  have happend : ∀ (l more : List Nat) (n : Nat) (f : Bool), countDown fl.slots (l ++ more) n f =
      countDown fl.slots more (countDown fl.slots l n f).1 (countDown fl.slots l n f).2 := by
    intro l more
    induction l with
    | nil => intro n f; rfl
    | cons p l ih =>
      intro n f
      rw [List.cons_append, countDown, countDown]
      split
      · exact ih _ _
      · exact ih _ _
  induction c with
  | zero => rfl
  | succ c ih =>
    have hcount : fl.discardedIn (c + 1) =
        fl.discardedIn c + if (fl.slotAt c).type = .discarded then 1 else 0 := Nat.count_succ _ _
    have hsplit : positions fl.maxCount fl.head (c + 1) =
        positions fl.maxCount fl.head c ++ [(fl.head + c) % fl.maxCount] := by
      rw [positions, positions, List.range_succ, List.map_append]
      rfl
    rw [hcount] at hle
    rw [hsplit, happend, ih (Nat.le_trans (Nat.le_add_right _ _) hle)]
    show countDown fl.slots [(fl.head + c) % fl.maxCount] (discardedNum - fl.discardedIn c) failed = _
    have hslot : fl.slots ((fl.head + c) % fl.maxCount) = fl.slotAt c := rfl
    rw [countDown, hcount, hslot]
    by_cases hdisc : (fl.slotAt c).type = .discarded
    · rw [if_pos hdisc] at hle ⊢
      rw [if_pos hdisc, countDown, uint32_eq (by omega) (by omega)]
      have hne : (discardedNum - fl.discardedIn c == 0) = false := beq_eq_false_iff_ne.mpr (by omega)
      rw [hne, Bool.or_false]
      congr 1
      omega
    · rw [if_neg hdisc, if_neg hdisc, countDown]
      rfl

theorem advanced_removeHead {fl : Framelist} (h : fl.Sound) (count : Nat) :
    Advanced fl (fl.removeHead count) (min count fl.size) := by
  obtain ⟨c, hc⟩ : ∃ c, c = min count fl.size := ⟨_, rfl⟩
  have hsize := h.size
  have hhead := h.head
  have hhigh := h.high
  have hlow := h.low
  have hlimit := h.limit
  have hcle : c ≤ fl.size := hc ▸ Nat.min_le_right _ _
  have hpos : fl.headPositions c = positions fl.maxCount fl.head c := headPositions_eq h (by omega)
  have horigin : int32 (fl.origin + c) = fl.origin + c := by
    rw [seqLimit] at hhigh hlow
    exact int32_eq (by omega) (by omega)
  have hview : ∀ i < fl.maxCount, (fl.removeHead count).slotAt i =
      if c + i < fl.maxCount then fl.slotAt (c + i) else (fl.slotAt (c + i - fl.maxCount)).clear := by
    intro i hi
    rw [slotAt, removeHead, ← hc]
    simp only [hpos]
    exact view_change_advance Slot.clear hi (by omega)
  have hnewsize : (fl.removeHead count).size = fl.size - c := by rw [removeHead, ← hc]
  have hneworigin : (fl.removeHead count).origin = fl.origin + c := by
    rw [removeHead, ← hc]
    exact horigin
  rw [← hc]
  refine ⟨rfl, rfl, by omega, hneworigin, ?_, ?_, ?_⟩
  · intro i hi
    rw [hview i (by omega), if_pos (by omega)]
  · intro hle hlt
    have hdown : countDown fl.slots (positions fl.maxCount fl.head c) fl.discardedNum fl.failed =
        (fl.discardedNum - fl.discardedIn c, fl.failed) := countDown_positions c hle hlt
    rw [removeHead, ← hc]
    simp only [hpos, hdown]
    exact ⟨by omega, trivial⟩
  · refine ⟨h.pos, ?_, ?_, ?_, h.limit, ?_, ?_⟩
    · rw [removeHead, ← hc]
      exact Nat.mod_lt _ h.pos
    · rw [hnewsize]
      exact Nat.le_trans (Nat.sub_le _ _) hsize
    · intro i hi hlt
      have hlt' : i < fl.maxCount := hlt
      rw [hnewsize] at hi
      rw [hview i hlt']
      split
      · exact h.outside _ (by omega) (by omega)
      · rfl
    · rw [hneworigin]
      omega
    · rw [hneworigin, hnewsize]
      omega

/-! `jb_framelist_get`. -/

theorem slotAt_zero {fl : Framelist} (h : fl.Sound) : fl.slotAt 0 = fl.slots fl.head := by
  rw [slotAt, view, Nat.add_zero, Nat.mod_eq_of_lt h.head]

theorem skipDiscarded_ends {n : Nat} {fl : Framelist} (h : fl.Sound) (hn : fl.size + 1 ≤ n) (prev : Bool) :
    ∃ fl' c, skipDiscarded n fl prev = some (fl', prev || decide (0 < c)) ∧ Advanced fl fl' c ∧
      (fl'.slotAt 0).type ≠ .discarded := by
  induction n generalizing fl prev with
  | zero => cases hn
  | succ n ih =>
    rw [skipDiscarded, ← slotAt_zero h]
    by_cases hdisc : (fl.slotAt 0).type = .discarded
    · have hne : fl.size ≠ 0 := by
        intro hzero
        rw [h.outside 0 (Nat.le_of_eq hzero) h.pos] at hdisc
        exact absurd hdisc (by decide)
      have hfirst := advanced_removeHead h 1
      rw [Nat.min_eq_left (by omega)] at hfirst
      have hsize := hfirst.size
      obtain ⟨fl', c, heq, hadv, hlast⟩ := ih hfirst.sound (by omega) true
      refine ⟨fl', 1 + c, ?_, hfirst.trans hadv, hlast⟩
      rw [if_pos hdisc, heq, Bool.true_or, decide_eq_true (by omega), Bool.or_true]
    · exact ⟨fl, 0, by rw [if_neg hdisc, decide_eq_false (by omega), Bool.or_false], advanced_refl h, hdisc⟩

theorem advanced_takeHead {fl : Framelist} (h : fl.Sound) (hne : fl.size ≠ 0)
    (hdisc : (fl.slotAt 0).type ≠ .discarded) : Advanced fl fl.takeHead 1 := by
  have hhigh := h.high
  have hlow := h.low
  have hsize := h.size
  have horigin : int32 (fl.origin + 1) = fl.origin + 1 := by
    rw [seqLimit] at hhigh hlow
    exact int32_eq (by omega) (by omega)
  have hhead : (fl.head + 0) % fl.maxCount = fl.head := by rw [Nat.add_zero, Nat.mod_eq_of_lt h.head]
  have hview : ∀ i < fl.maxCount, fl.takeHead.slotAt i =
      if 1 + i < fl.maxCount then fl.slotAt (1 + i) else ⟨.missing, [], 0, 0⟩ := by
    intro i hi
    have hupdate : ∀ k < fl.maxCount,
        view (Function.update fl.slots ((fl.head + 0) % fl.maxCount) ⟨.missing, [], 0, 0⟩) fl.maxCount fl.head k =
          if k = 0 then ⟨.missing, [], 0, 0⟩ else view fl.slots fl.maxCount fl.head k :=
      fun k hk => view_update hk h.pos _
    rw [hhead] at hupdate
    show view (Function.update fl.slots fl.head ⟨.missing, [], 0, 0⟩) fl.maxCount ((fl.head + 1) % fl.maxCount) i = _
    rw [view_advance]
    split
    · rename_i hlt
      rw [hupdate _ hlt, if_neg (by omega)]
      rfl
    · have hend : 1 + i = fl.maxCount + 0 := by omega
      rw [hend, view_add_size, hupdate _ h.pos, if_pos rfl]
  have hsize' : fl.takeHead.size + 1 = fl.size := by
    show fl.size - 1 + 1 = fl.size
    omega
  refine ⟨rfl, rfl, hsize', horigin, ?_, ?_, ?_⟩
  · intro i hi
    rw [hview i (by omega), if_pos (by omega)]
  · intro _ _
    have hnone : fl.discardedIn 1 = 0 := by
      apply count_eq_zero
      intro i hi
      rw [Nat.lt_one_iff.mp hi]
      exact hdisc
    rw [hnone]
    exact ⟨rfl, rfl⟩
  · refine ⟨h.pos, Nat.mod_lt _ h.pos, ?_, ?_, h.limit, ?_, ?_⟩
    · show fl.size - 1 ≤ fl.maxCount
      omega
    · intro i hi hlt
      have hlt' : i < fl.maxCount := hlt
      rw [hview i hlt']
      split
      · exact h.outside _ (by omega) (by omega)
      · rfl
    · show -2 * (seqLimit : Int) ≤ int32 (fl.origin + 1)
      omega
    · show int32 (fl.origin + 1) + ((fl.size - 1 : Nat) : Int) ≤ seqLimit
      omega

/-- What is handed out was in the window: the frame before the new head. -/
structure Taken (fl : Framelist) (maxSize : Option Nat) (got : Got) (i : Nat) : Prop where
  seq : got.seq = fl.origin + i
  slot : got.type = .normal → (fl.slotAt i).type = .normal ∧
    got.content = (fl.slotAt i).content.take (maxSize.getD (fl.slotAt i).content.length) ∧
    got.bitInfo = (fl.slotAt i).bitInfo ∧ got.ts = (fl.slotAt i).ts

/-- `jb_framelist_get` ends; it moves the window on, and what it returns is the last frame it passes. -/
theorem get_ends {fl : Framelist} (h : fl.Sound) (maxSize : Option Nat) :
    ∃ fl' got c, fl.get maxSize = some (fl', got) ∧ Advanced fl fl' c ∧
      ∀ g, got = some g → ∃ i, c = i + 1 ∧ Taken fl maxSize g i := by
  rw [get]
  by_cases hzero : fl.size = 0
  · exact ⟨fl, none, 0, if_pos hzero, advanced_refl h, fun _ hg => nomatch hg⟩
  obtain ⟨fl', c, heq, hadv, hdisc⟩ := skipDiscarded_ends h le_rfl false
  rw [if_neg hzero, heq]
  by_cases hzero' : fl'.size = 0
  · exact ⟨fl', none, c, congrArg some (if_pos hzero'), hadv, fun _ hg => nomatch hg⟩
  refine ⟨fl'.takeHead, some (fl'.headGot (false || decide (0 < c)) maxSize), c + 1, congrArg some (if_neg hzero'),
    hadv.trans (advanced_takeHead hadv.sound hzero' hdisc), ?_⟩
  intro g hg
  refine ⟨c, rfl, ?_⟩
  have hslot : fl.slotAt c = fl'.slots fl'.head := by
    rw [← slotAt_zero hadv.sound, hadv.slotAt 0 (Nat.pos_of_ne_zero hzero')]
    rfl
  rw [← Option.some.inj hg, headGot]
  split
  · exact ⟨hadv.origin, fun hbad => nomatch hbad⟩
  · refine ⟨hadv.origin, fun htype => ?_⟩
    rw [hslot]
    exact ⟨htype, rfl, rfl, rfl⟩

/-! `jb_framelist_peek`. -/

theorem peekLoop_ends {fl : Framelist} {n i idx : Nat} (hn : fl.size ≤ n + i)
    (hidx : idx + fl.discardedIn fl.size + i < fl.size + fl.discardedIn i) :
    fl.peekLoop n ((fl.head + i) % fl.maxCount) idx ≠ none := by
  induction n generalizing i idx with
  | zero =>
    have hmono : fl.discardedIn i ≤ fl.discardedIn fl.size + (i - fl.size) := by
      have hsplit : fl.discardedIn (fl.size + (i - fl.size)) ≤ fl.discardedIn fl.size + (i - fl.size) := by
        rw [discardedIn, Nat.count_add]
        exact Nat.add_le_add_left (Nat.count_le _) _
      rwa [Nat.add_sub_cancel' (by omega)] at hsplit
    omega
  | succ n ih =>
    have hnext : ((fl.head + i) % fl.maxCount + 1) % fl.maxCount = (fl.head + (i + 1)) % fl.maxCount := by
      rw [Nat.mod_add_mod, Nat.add_assoc]
    have hcount : fl.discardedIn (i + 1) =
        fl.discardedIn i + if (fl.slotAt i).type = .discarded then 1 else 0 := Nat.count_succ _ _
    have hslot : fl.slots ((fl.head + i) % fl.maxCount) = fl.slotAt i := rfl
    rw [peekLoop, hnext, hslot]
    by_cases hdisc : (fl.slotAt i).type = .discarded
    · rw [if_pos hdisc] at hcount
      rw [if_neg (not_not.mpr hdisc)]
      exact ih (by omega) (by omega)
    · rw [if_neg hdisc] at hcount
      rw [if_pos hdisc]
      split
      · exact Option.some_ne_none _
      · exact ih (by omega) (by omega)

theorem effSize_eq {fl : Framelist} (h : fl.Sound) (hcounted : fl.Counted) :
    fl.effSize = fl.size - fl.discardedIn fl.size := by
  have hle := fl.discardedIn_le fl.size
  have hsize := h.size
  have hlimit := h.limit
  rw [seqLimit] at hlimit
  rw [effSize, hcounted.discarded, uint32_eq (by omega) (by omega)]
  omega

theorem peek_ends {fl : Framelist} (h : fl.Sound) (hcounted : fl.Counted) (offset : Nat) : fl.peek offset ≠ none := by
  have heff := effSize_eq h hcounted
  have hle := fl.discardedIn_le fl.size
  have hsize := h.size
  rw [peek]
  split
  · exact Option.some_ne_none _
  · rename_i hlt
    have hzero : fl.discardedIn 0 = 0 := Nat.count_zero _
    have hfuel : fl.maxCount ≤ (offset + 1) * fl.maxCount := Nat.le_mul_of_pos_left _ (Nat.succ_pos _)
    have hhead : (fl.head + 0) % fl.maxCount = fl.head := by rw [Nat.add_zero, Nat.mod_eq_of_lt h.head]
    have hloop : fl.peekLoop ((offset + 1) * fl.maxCount) ((fl.head + 0) % fl.maxCount) offset ≠ none :=
      peekLoop_ends (by omega) (by omega)
    rw [hhead] at hloop
    rw [Ne, Option.map_eq_none_iff]
    exact hloop

/-! `jb_framelist_discard`. -/

/-- The frame at the offset `d` is marked as discarded. -/
structure Marked (fl fl' : Framelist) (d : Nat) : Prop where
  maxCount : fl'.maxCount = fl.maxCount
  frameSize : fl'.frameSize = fl.frameSize
  size : fl'.size = fl.size
  origin : fl'.origin = fl.origin
  slotAt : ∀ i < fl.maxCount, fl'.slotAt i = if i = d then { fl.slotAt d with type := .discarded } else fl.slotAt i
  discardedNum : fl'.discardedNum = uint32 (fl.discardedNum + 1)
  failed : fl'.failed = fl.failed
  sound : fl'.Sound

theorem int32_end {fl : Framelist} (h : fl.Sound) : int32 (fl.origin + fl.size) = fl.origin + fl.size := by
  have hlow := h.low
  have hhigh := h.high
  rw [seqLimit] at hlow hhigh
  exact int32_eq (by omega) (by omega)

theorem marked_discard {fl : Framelist} (h : fl.Sound) {d : Nat} (hd : d < fl.size) :
    Marked fl (fl.discard (fl.origin + d)) d := by
  have hsize := h.size
  have hdist : (fl.origin + d - fl.origin).toNat = d := by omega
  have hdiscard : fl.discard (fl.origin + d) =
      { fl with
        slots := Function.update fl.slots ((fl.head + d) % fl.maxCount)
          { fl.slots ((fl.head + d) % fl.maxCount) with type := .discarded }
        discardedNum := uint32 (fl.discardedNum + 1) } := by
    rw [discard, int32_end h, if_pos ⟨by omega, by omega⟩, hdist]
  rw [hdiscard]
  have hview : ∀ i < fl.maxCount, view (Function.update fl.slots ((fl.head + d) % fl.maxCount)
      { fl.slots ((fl.head + d) % fl.maxCount) with type := .discarded }) fl.maxCount fl.head i =
      if i = d then { fl.slotAt d with type := .discarded } else fl.slotAt i := by
    intro i hi
    exact view_update hi (by omega) _
  refine ⟨rfl, rfl, rfl, rfl, hview, rfl, rfl, h.pos, h.head, hsize, ?_, h.limit, h.low, h.high⟩
  intro i hi hlt
  have hsame := hview i hlt
  have hne : i ≠ d := by
    have hle : fl.size ≤ i := hi
    omega
  rw [if_neg hne] at hsame
  rw [slotAt, hsame]
  exact h.outside i hi hlt

end Framelist

end PjProject.JitterBuffer
