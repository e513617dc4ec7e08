import PjProject.JbufOrder

/-! What `pjmedia_jbuf_peek_frame` reports. It finds the frame behind the discarded ones, but counts its number from the
origin without them. -/

namespace PjProject.JitterBuffer

namespace Framelist

/-- The loop stops at the frame that is left when `idx` frames that are not discarded have been passed. -/
theorem peekLoop_stops {fl : Framelist} {n i idx pos : Nat} (h : fl.peekLoop n ((fl.head + i) % fl.maxCount) idx = some pos) :
    ∃ j, i ≤ j ∧ pos = (fl.head + j) % fl.maxCount ∧ (fl.slotAt j).type ≠ .discarded ∧
      j + fl.discardedIn i = i + idx + fl.discardedIn j := by
  induction n generalizing i idx with
  | zero => cases h
  | succ n ih =>
    have hnext : ((fl.head + i) % fl.maxCount + 1) % fl.maxCount = (fl.head + (i + 1)) % fl.maxCount := by
      rw [Nat.mod_add_mod, Nat.add_assoc]
    have hcount : fl.discardedIn (i + 1) =
        fl.discardedIn i + if (fl.slotAt i).type = .discarded then 1 else 0 := Nat.count_succ _ _
    have hslot : fl.slots ((fl.head + i) % fl.maxCount) = fl.slotAt i := rfl
    rw [peekLoop, hnext, hslot] at h
    by_cases hdisc : (fl.slotAt i).type = .discarded
    · rw [if_neg (not_not.mpr hdisc)] at h
      rw [if_pos hdisc] at hcount
      obtain ⟨j, hij, hpos, htype, hj⟩ := ih h
      exact ⟨j, by omega, hpos, htype, by omega⟩
    · rw [if_pos hdisc] at h
      rw [if_neg hdisc] at hcount
      split at h
      · rename_i hzero
        exact ⟨i, Nat.le_refl i, (Option.some.inj h).symm, hdisc, by omega⟩
      · obtain ⟨j, hij, hpos, htype, hj⟩ := ih h
        exact ⟨j, by omega, hpos, htype, by omega⟩

/-- The frame at the offset `i` is the one behind `n` frames of the window that are not discarded. -/
structure IsNth (fl : Framelist) (n i : Nat) : Prop where
  lt : i < fl.size
  type : (fl.slotAt i).type ≠ .discarded
  behind : i = n + fl.discardedIn i

theorem peek_eq {fl : Framelist} (h : fl.Sound) (hcounted : fl.Counted) {offset : Nat} (hlt : offset < fl.effSize) :
    ∃ i, fl.IsNth offset i ∧ fl.peek offset = some (some (fl.slotAt i, fl.origin + offset)) := by
  have hne := peek_ends h hcounted offset
  have heff := effSize_eq h hcounted
  have hle := fl.discardedIn_le fl.size
  have hsize := h.size
  have hlimits := h.low
  have hhigh := h.high
  have hlimit := h.limit
  rw [seqLimit] at hlimits hhigh hlimit
  rw [peek, if_neg (Nat.not_le.mpr hlt)] at hne ⊢
  rw [show int32 (fl.origin + offset) = fl.origin + offset from int32_eq (by omega) (by omega)] at hne ⊢
  cases hloop : fl.peekLoop ((offset + 1) * fl.maxCount) fl.head offset with
  | none =>
    rw [hloop] at hne
    exact absurd rfl hne
  | some pos =>
    have hhead : (fl.head + 0) % fl.maxCount = fl.head := by rw [Nat.add_zero, Nat.mod_eq_of_lt h.head]
    rw [← hhead] at hloop
    obtain ⟨j, -, rfl, htype, hj⟩ := peekLoop_stops hloop
    have hzero : fl.discardedIn 0 = 0 := Nat.count_zero _
    -- A frame behind the window would have too many frames of the window before it.
    have hin : j < fl.size := by
      by_contra hout
      have hrest : fl.discardedIn j = fl.discardedIn fl.size +
          Nat.count (fun k => (fl.slotAt (fl.size + k)).type = .discarded) (j - fl.size) := by
        rw [discardedIn, discardedIn, ← Nat.count_add, Nat.add_sub_cancel' (by omega)]
      have hmore := Nat.count_le (p := fun k => (fl.slotAt (fl.size + k)).type = .discarded) (n := j - fl.size)
      omega
    exact ⟨j, ⟨hin, htype, by omega⟩, rfl⟩

theorem IsNth.unique {fl : Framelist} {n i j : Nat} (hi : fl.IsNth n i) (hj : fl.IsNth n j) : i = j := by
  have hpast : ∀ {i j : Nat}, fl.IsNth n i → fl.IsNth n j → ¬i < j := by
    intro i j hi hj hlt
    have hcount : fl.discardedIn j = fl.discardedIn (i + 1) +
        Nat.count (fun k => (fl.slotAt (i + 1 + k)).type = .discarded) (j - (i + 1)) := by
      rw [discardedIn, discardedIn, ← Nat.count_add, Nat.add_sub_cancel' hlt]
    have hone : fl.discardedIn (i + 1) = fl.discardedIn i := by
      rw [discardedIn, Nat.count_succ, if_neg hi.type]
      rfl
    have hmore := Nat.count_le (p := fun k => (fl.slotAt (i + 1 + k)).type = .discarded) (n := j - (i + 1))
    have hbi := hi.behind
    have hbj := hj.behind
    omega
  exact Nat.le_antisymm (Nat.not_lt.mp (hpast hj hi)) (Nat.not_lt.mp (hpast hi hj))

/-- A frame far before the origin that does not restart the numbers is the first of a new window. -/
theorem put_back {fl : Framelist} {seq : Int} {frame : Frame} (h : fl.Sound) (hseq : InRange seq)
    (hlen : frame.content.length ≤ fl.frameSize) (hback : seq + 100 ≤ fl.origin)
    (hno : ¬maxFrameIndex ≤ uint32 (fl.origin + fl.size)) :
    ∃ base fl' d, Fresh fl base seq ∧ Stored base fl' seq frame d ∧ fl.putAt seq frame = (fl', .success) := by
  obtain ⟨hdistance, hbehind⟩ := int32_distance h hseq
  have hjump := fresh_jumpTo h hseq (Or.inl hback)
  obtain ⟨base, hanchor, hfresh⟩ := fresh_anchor hjump.sound hseq hjump.size (Int.le_refl _) 0
  have hbase := hfresh.sound
  have hpos := hbase.pos
  have hsettle : fl.settle seq = (fl.jumpTo seq, 0) := by
    rw [settle, hdistance]
    simp only [if_pos (show seq - fl.origin < 0 by omega), if_neg hno]
  obtain ⟨hstatus, hstored⟩ := store_outside frame hbase hseq hpos (d := 0) (by rw [hfresh.origin]; omega)
    (hbase.outside 0 (by rw [hfresh.size]) hpos)
  refine ⟨base, _, 0, ⟨hfresh.maxCount, hfresh.frameSize, hfresh.size, hfresh.origin, Or.inl hback,
    fun hcounted => hfresh.counted (hjump.counted hcounted), hbase⟩, hstored, ?_⟩
  rw [putAt, if_neg (Nat.not_lt.mpr hlen), if_neg (by rw [hdistance, hbehind, maxMisorder]; omega), hsettle]
  simp only [hanchor]
  rw [if_neg (by omega)]
  exact Prod.ext rfl hstatus

end Framelist

/-! The numbers under which the frames were put. -/

/-- The buffer with the puts that it accepted since it last started anew: at a reset, or at a frame far before the
others. -/
structure Record where
  jb : Jbuf
  accepted : List (Int × Frame)

def Record.step (r : Record) : Call → Option Record
  | .put seq frame => (putFrame r.jb seq frame).map fun (jb, discarded) =>
    ⟨jb, if discarded then r.accepted
      else if seq + 100 ≤ r.jb.framelist.origin then [(seq, frame)] else r.accepted ++ [(seq, frame)]⟩
  | .reset => some ⟨reset r.jb, []⟩
  | call => (JitterBuffer.step r.jb call).map fun jb => ⟨jb, r.accepted⟩

/-- The frame that is peeked at is the one at its place among those that are not discarded, with the number under which
it was put. -/
def PeekAgrees (r : Record) (offset : Nat) : Prop :=
  ∃ i seq, r.jb.framelist.IsNth offset i ∧
    r.jb.framelist.peek offset = some (some (r.jb.framelist.slotAt i, seq)) ∧ seq = r.jb.framelist.origin + i ∧
    ((r.jb.framelist.slotAt i).type = .normal →
      ∃ frame, FirstPut r.accepted seq frame ∧ r.jb.framelist.slotAt i = frame.kept r.jb.framelist.frameSize)

def KeepsNumbers (r : Record) : Call → Prop
  | .put seq _ => Framelist.InRange seq ∧ ¬(seq + 100 ≤ r.jb.framelist.origin ∧
      maxFrameIndex ≤ uint32 (r.jb.framelist.origin + r.jb.framelist.size))
  | _ => True

theorem callInRange {r : Record} {call : Call} (h : KeepsNumbers r call) : call.InRange := by
  cases call with
  | put seq frame => exact h.1
  | _ => trivial

structure Record.Inv (r : Record) : Prop where
  inv : JitterBuffer.Inv r.jb
  history : r.jb.framelist.History r.accepted

theorem history_empty {fl : Framelist} (h : fl.size = 0) : fl.History [] :=
  ⟨nofun, nofun,
    fun i hi => absurd hi (by omega)⟩

theorem Record.Inv.put {r : Record} (h : r.Inv) {seq : Int} {frame : Frame} (hkeeps : KeepsNumbers r (.put seq frame)) :
    ∃ r', r.step (.put seq frame) = some r' ∧ r'.Inv := by
  obtain ⟨hseq, hno⟩ := hkeeps
  obtain ⟨hinv, hhistory⟩ := h
  obtain ⟨jb', discarded, hput, hinv'⟩ := hinv.putFrame hseq frame
  refine ⟨_, by rw [step, hput]; rfl, hinv', ?_⟩
  have hlen : ({ frame with content := frame.content.take r.jb.settings.frameSize } : Frame).content.length ≤
      r.jb.framelist.frameSize := by
    rw [← hinv.frameSize]
    exact List.length_take_le _ _
  obtain ⟨⟨fl, status⟩, hroom, hcases, hstatus⟩ := Framelist.makeRoom_ends hinv.sound hseq hlen
  rw [putFrame, hinv.maxCount, hroom] at hput
  cases hcases with
  | late _ =>
    obtain ⟨rfl, rfl⟩ := Prod.mk.inj (Option.some.inj hput)
    exact hhistory
  | duplicate _ _ _ =>
    obtain ⟨rfl, rfl⟩ := Prod.mk.inj (Option.some.inj hput)
    exact hhistory
  | crowded _ _ _ => exact absurd rfl hstatus
  | stored hmoved hstored =>
    rename_i base d
    obtain ⟨rfl, rfl⟩ := Prod.mk.inj (Option.some.inj hput)
    have hsize : r.jb.settings.frameSize = base.frameSize := hinv.frameSize.trans hmoved.frameSize.symm
    rw [hsize] at hstored
    obtain ⟨-, c, hthin⟩ := @updated_update { r.jb with
      framelist := fl
      prefetching := r.jb.prefetching && decide (int32 fl.effSize < r.jb.prefetch)
      level := r.jb.level + if int32 r.jb.framelist.effSize < int32 fl.effSize then
        int32 fl.effSize - int32 r.jb.framelist.effSize else 1 } hstored.sound .put
    refine hthin.history ?_
    simp only [Bool.false_eq_true, if_false]
    split
    · rename_i hback
      obtain ⟨base', fl', d', hfresh, hstored', hputAt⟩ :=
        Framelist.put_back hinv.sound hseq hlen hback fun hle => hno ⟨hback, hle⟩
      rw [makeRoom, hputAt] at hroom
      obtain ⟨rfl, -⟩ := Prod.mk.inj (Option.some.inj hroom)
      have hsize' : r.jb.settings.frameSize = base'.frameSize := hinv.frameSize.trans hfresh.frameSize.symm
      rw [hsize'] at hstored'
      exact hstored'.history hfresh.sound (history_empty hfresh.size)
    · rename_i hnear
      exact hstored.history hmoved.sound (hmoved.history (by omega) hhistory)

theorem Record.Inv.step {r : Record} {call : Call} (h : r.Inv) (hkeeps : KeepsNumbers r call) :
    ∃ r', r.step call = some r' ∧ r'.Inv := by
  obtain ⟨jb', hstep, hinv'⟩ := h.inv.step call (callInRange hkeeps)
  have hthinned : ∀ {c : Nat}, Framelist.Thinned r.jb.framelist jb'.framelist c → Record.Inv ⟨jb', r.accepted⟩ :=
    fun hthin => ⟨hinv', hthin.history h.history⟩
  cases call with
  | put seq frame => exact h.put hkeeps
  | reset =>
    obtain rfl := Option.some.inj hstep
    exact ⟨_, rfl, hinv', history_empty rfl⟩
  | peek offset =>
    refine ⟨_, congrArg (Option.map fun jb => (⟨jb, r.accepted⟩ : Record)) hstep, ?_⟩
    obtain ⟨-, -, rfl⟩ := Option.map_eq_some_iff.mp hstep
    exact h
  | remove frameCnt =>
    refine ⟨_, congrArg (Option.map fun jb => (⟨jb, r.accepted⟩ : Record)) hstep, ?_⟩
    have hadv := Framelist.advanced_removeHead h.inv.sound frameCnt
    obtain ⟨fl, c, hloop, hadv'⟩ := removeLoop_ends (n := r.jb.framelist.discardedNum + 2) hadv.sound (Nat.le_succ _)
    rw [JitterBuffer.step, removeFrame, hloop] at hstep
    obtain rfl := Option.some.inj hstep
    exact hthinned (hadv.trans hadv').thinned
  | get size =>
    refine ⟨_, congrArg (Option.map fun jb => (⟨jb, r.accepted⟩ : Record)) hstep, ?_⟩
    have hnext : ∀ (jb : Jbuf) {c : Nat}, jb.framelist.Sound → Framelist.Thinned r.jb.framelist jb.framelist c →
        jb' = update { jb with level := jb.level + 1 } .get → Record.Inv ⟨jb', r.accepted⟩ := by
      intro jb c hsound hthin heq
      obtain ⟨-, c', hthin'⟩ := @updated_update { jb with level := jb.level + 1 } hsound .get
      subst heq
      exact ⟨hinv', hthin'.history (hthin.history h.history)⟩
    have hrefl := Framelist.thinned_refl h.inv.sound
    obtain ⟨fl, got, c, hget, hadv, -⟩ := Framelist.get_ends h.inv.sound size
    rw [JitterBuffer.step, getFrame, hget] at hstep
    split at hstep
    · exact hnext r.jb h.inv.sound hrefl (Option.some.inj hstep).symm
    · split at hstep
      · exact hnext r.jb h.inv.sound hrefl (Option.some.inj hstep).symm
      · cases got with
        | some got => exact hnext { r.jb with framelist := fl } hadv.sound hadv.thinned (Option.some.inj hstep).symm
        | none =>
          exact hnext { r.jb with
            framelist := fl, prefetching := r.jb.prefetching || decide (r.jb.prefetch ≠ 0) } hadv.sound hadv.thinned
            (Option.some.inj hstep).symm

/-- In every run without a restart of the numbers, a frame is peeked at with its own number exactly when no frame
before it has been discarded. -/
theorem peek_agrees_iff {frameSize ptime maxCount : Nat} {algo : DiscardAlgo} {jb : Jbuf}
    (hcreate : create frameSize ptime maxCount algo = some jb) (hpos : 1 ≤ maxCount) (hlimit : maxCount ≤ seqLimit)
    (hapart : DiscardsApart ptime maxCount algo) {calls : List Call} (hcalls : Meets Record.step KeepsNumbers ⟨jb, []⟩ calls) :
    ∃ r, exec Record.step ⟨jb, []⟩ calls = some r ∧ ∀ offset < r.jb.framelist.effSize,
      (PeekAgrees r offset ↔ ∀ i ≤ offset, (r.jb.framelist.slotAt i).type ≠ .discarded) := by
  have hstart : Record.Inv ⟨jb, []⟩ := by
    refine ⟨inv_create hcreate hpos hlimit hapart, history_empty ?_⟩
    rw [create] at hcreate
    split at hcreate
    · cases hcreate
    · rw [← Option.some.inj hcreate]
      rfl
  obtain ⟨r, hrun, hinv, hhistory⟩ := exec_returns_of_meets (fun _ _ h hkeeps => Record.Inv.step h hkeeps) hstart hcalls
  refine ⟨r, hrun, fun offset hoffset => ?_⟩
  obtain ⟨i, hnth, hpeek⟩ := Framelist.peek_eq hinv.sound hinv.counted hoffset
  have hbehind := hnth.behind
  have hnone : r.jb.framelist.discardedIn i = 0 ↔ ∀ k < i, (r.jb.framelist.slotAt k).type ≠ .discarded :=
    Nat.count_iff_forall_not
  constructor
  · rintro ⟨j, seq, hnth', hpeek', hseq, -⟩
    obtain rfl := hnth.unique hnth'
    rw [hpeek] at hpeek'
    have heq : r.jb.framelist.origin + offset = seq := (Prod.mk.inj (Option.some.inj (Option.some.inj hpeek'))).2
    have hzero : r.jb.framelist.discardedIn i = 0 := by omega
    intro k hk
    rcases Nat.lt_or_eq_of_le hk with hlt | rfl
    · exact hnone.mp hzero k (by omega)
    · rw [show k = i by omega]
      exact hnth.type
  · intro hall
    have heff := Framelist.effSize_eq hinv.sound hinv.counted
    have hzero : r.jb.framelist.discardedIn offset = 0 := Nat.count_iff_forall_not.mpr fun k hk => hall k (by omega)
    obtain rfl := hnth.unique ⟨by omega, hall offset (Nat.le_refl _), by omega⟩
    exact ⟨i, _, hnth, hpeek, rfl, hhistory.content i hnth.lt⟩

instance (r : Record) : (call : Call) → Decidable (KeepsNumbers r call)
  | .put seq _ => decidable_of_iff ((-(seqLimit : Int) ≤ seq ∧ seq < seqLimit) ∧
      ¬(seq + 100 ≤ r.jb.framelist.origin ∧ maxFrameIndex ≤ uint32 (r.jb.framelist.origin + r.jb.framelist.size)))
      ⟨fun h => ⟨⟨h.1.1, h.1.2⟩, h.2⟩, fun h => ⟨⟨h.1.low, h.1.high⟩, h.2⟩⟩
  | .get _ | .peek _ | .remove _ | .reset => .isTrue trivial

/-- The frames are taken out more slowly than they come; `seq` is the number and the content. -/
def slowReader : List Call :=
  let put (seq : Nat) : Call := .put seq ⟨[.ofNat seq], 0, 0⟩
  let get : Call := .get none
  [put 0, get, put 1, get, put 2, get, put 3, put 4, get, put 5, put 6, get, put 7, put 8, put 9]

theorem slowReader_keepsNumbers {jb : Jbuf} (hcreate : create 4 200 8 .progressive = some jb) :
    Meets Record.step KeepsNumbers ⟨jb, []⟩ slowReader := by
  have hall : ((create 4 200 8 .progressive).all fun jb =>
      decide (Meets Record.step KeepsNumbers ⟨jb, []⟩ slowReader)) = true := by decide
  rw [hcreate] at hall
  exact of_decide_eq_true hall

theorem peek_agrees_slowReader :
    ∃ jb, create 4 200 8 .progressive = some jb ∧ ∃ r, exec Record.step ⟨jb, []⟩ slowReader = some r ∧
      ∀ offset < r.jb.framelist.effSize,
        (PeekAgrees r offset ↔ ∀ i ≤ offset, (r.jb.framelist.slotAt i).type ≠ .discarded) := by
  obtain ⟨jb, hcreate⟩ : ∃ jb, create 4 200 8 .progressive = some jb := ⟨_, rfl⟩
  exact ⟨jb, hcreate, peek_agrees_iff hcreate (by decide) (by decide) (fun _ => Or.inl (by decide))
    (slowReader_keepsNumbers hcreate)⟩

/-- The frame with the number 8 has been discarded, and the next one is reported under its number. -/
theorem peek_misnumbers :
    ∃ jb, create 4 200 8 .progressive = some jb ∧ ∃ r slot, exec Record.step ⟨jb, []⟩ slowReader = some r ∧
      6 < r.jb.framelist.effSize ∧ r.jb.framelist.peek 6 = some (some (slot, 8)) ∧ slot.content = [9] ∧
      r.accepted.drop 8 = [(8, ⟨[8], 0, 0⟩), (9, ⟨[9], 0, 0⟩)] := by
  have hread : ((create 4 200 8 .progressive).bind fun jb => (exec Record.step ⟨jb, []⟩ slowReader).map fun r =>
      (decide (6 < r.jb.framelist.effSize), (r.jb.framelist.peek 6).map fun p => p.map fun p => (p.1.content, p.2),
        r.accepted.drop 8)) =
      some (true, some (some ([9], 8)), [(8, ⟨[8], 0, 0⟩), (9, ⟨[9], 0, 0⟩)]) := rfl
  obtain ⟨jb, hcreate, hread⟩ := Option.bind_eq_some_iff.mp hread
  obtain ⟨r, hrun, hread⟩ := Option.map_eq_some_iff.mp hread
  obtain ⟨hlt, hread⟩ := Prod.mk.inj hread
  obtain ⟨hpeek, haccepted⟩ := Prod.mk.inj hread
  obtain ⟨result, hresult, hpeek⟩ := Option.map_eq_some_iff.mp hpeek
  obtain ⟨⟨slot, seq⟩, rfl, hpeek⟩ := Option.map_eq_some_iff.mp hpeek
  obtain ⟨hcontent, rfl⟩ := Prod.mk.inj (Option.some.inj hpeek)
  exact ⟨jb, hcreate, r, slot, hrun, of_decide_eq_true hlt, hresult, hcontent, haccepted⟩

end PjProject.JitterBuffer
