import PjProject.JbufSafety

/-! The frames that come out, over runs of puts and gets: in the order of their sequence numbers, each of them once,
with what was put first under that number. -/

namespace PjProject.JitterBuffer

/-- The first put with this sequence number, among those that were accepted. -/
def FirstPut (accepted : List (Int × Frame)) (seq : Int) (frame : Frame) : Prop :=
  accepted.find? (fun put => put.1 = seq) = some (seq, frame)

theorem FirstPut.append {accepted : List (Int × Frame)} {seq : Int} {frame : Frame}
    (h : FirstPut accepted seq frame) (more : List (Int × Frame)) : FirstPut (accepted ++ more) seq frame := by
  rw [FirstPut, List.find?_append, show accepted.find? _ = _ from h]
  rfl

theorem firstPut_new {accepted : List (Int × Frame)} {seq : Int} (hnew : ∀ put ∈ accepted, put.1 ≠ seq)
    (frame : Frame) : FirstPut (accepted ++ [(seq, frame)]) seq frame := by
  have hnone : accepted.find? (fun put => put.1 = seq) = none := by
    rw [List.find?_eq_none]
    intro put hput heq
    exact hnew put hput (of_decide_eq_true heq)
  have hlast : [(seq, frame)].find? (fun put => put.1 = seq) = some (seq, frame) :=
    List.find?_cons_of_pos (decide_eq_true rfl)
  rw [FirstPut, List.find?_append, hnone, hlast]
  rfl

def Frame.kept (frame : Frame) (frameSize : Nat) : Slot :=
  ⟨.normal, frame.content.take frameSize, frame.bitInfo, frame.ts⟩

namespace Framelist

/-- The window has moved on by `c` frames, and some of those left may have been discarded. -/
structure Thinned (fl fl' : Framelist) (c : Nat) : Prop where
  maxCount : fl'.maxCount = fl.maxCount
  frameSize : fl'.frameSize = fl.frameSize
  size : fl'.size + c = fl.size
  origin : fl'.origin = fl.origin + c
  slotAt : ∀ i < fl'.size, fl'.slotAt i = fl.slotAt (c + i) ∨ (fl'.slotAt i).type = .discarded
  sound : fl'.Sound

/-- What the window has to do with the puts that were accepted. -/
structure History (fl : Framelist) (accepted : List (Int × Frame)) : Prop where
  before : ∀ put ∈ accepted, put.1 < fl.origin + fl.size
  filled : ∀ put ∈ accepted, ∀ i < fl.size, put.1 = fl.origin + i → (fl.slotAt i).type ≠ .missing
  content : ∀ i < fl.size, (fl.slotAt i).type = .normal →
    ∃ frame, FirstPut accepted (fl.origin + i) frame ∧ fl.slotAt i = frame.kept fl.frameSize

section Window

variable {fl fl' base : Framelist} {seq : Int} {c : Nat} {accepted : List (Int × Frame)}

theorem Advanced.thinned (hadv : Advanced fl fl' c) : Thinned fl fl' c where
  maxCount := hadv.maxCount
  frameSize := hadv.frameSize
  size := hadv.size
  origin := hadv.origin
  slotAt i hi := Or.inl (hadv.slotAt i hi)
  sound := hadv.sound

theorem thinned_discard (h : fl.Sound) (index : Int) : Thinned fl (fl.discard index) 0 := by
  by_cases hin : fl.origin ≤ index ∧ index < int32 (fl.origin + fl.size)
  · obtain ⟨hle, hlt⟩ := hin
    rw [int32_end h] at hlt
    obtain ⟨d, rfl⟩ : ∃ d : Nat, index = fl.origin + d := ⟨(index - fl.origin).toNat, by omega⟩
    have hmarked := marked_discard h (d := d) (by omega)
    refine ⟨hmarked.maxCount, hmarked.frameSize, hmarked.size, ?_, ?_, hmarked.sound⟩
    · rw [hmarked.origin]
      exact (Int.add_zero _).symm
    · intro i hi
      have hsize := hmarked.size
      have hmax := h.size
      rw [hmarked.slotAt i (by omega), Nat.zero_add]
      split
      · exact Or.inr rfl
      · exact Or.inl rfl
  · rw [discard, if_neg hin]
    refine ⟨rfl, rfl, rfl, (Int.add_zero _).symm, fun i _ => Or.inl ?_, ?_⟩
    · rw [Nat.zero_add]
      rfl
    · exact ⟨h.pos, h.head, h.size, h.outside, h.limit, h.low, h.high⟩

theorem thinned_refl (h : fl.Sound) : Thinned fl fl 0 := (advanced_refl h).thinned

theorem Thinned.history (hthin : Thinned fl fl' c) (h : History fl accepted) : History fl' accepted := by
  have hsize := hthin.size
  have horigin := hthin.origin
  refine ⟨?_, ?_, ?_⟩
  · intro put hput
    have hlt := h.before put hput
    omega
  · intro put hput i hi heq
    rcases hthin.slotAt i hi with hslot | hslot
    · rw [hslot]
      exact h.filled put hput (c + i) (by omega) (by push_cast; omega)
    · rw [hslot]
      exact nofun
  · intro i hi htype
    rcases hthin.slotAt i hi with hslot | hslot
    · rw [hslot] at htype ⊢
      obtain ⟨frame, hfirst, hkept⟩ := h.content (c + i) (by omega) htype
      refine ⟨frame, ?_, by rw [hkept, hthin.frameSize]⟩
      rw [horigin, Int.add_assoc]
      exact hfirst
    · rw [hslot] at htype
      exact nomatch htype

/-- In a window that starts anew behind all that was accepted. -/
theorem Fresh.history (hfresh : Fresh fl base seq) (hle : fl.origin < seq + 100) (h : History fl accepted) :
    History base accepted := by
  have hsize := hfresh.size
  have horigin := hfresh.origin
  refine ⟨?_, fun _ _ i hi => absurd hi (by omega), fun i hi => absurd hi (by omega)⟩
  intro put hput
  have hlt := h.before put hput
  rcases hfresh.apart with hback | hbehind
  · omega
  · omega

/-- Without a restart the window moves on, or it starts anew. -/
theorem Moved.history (hmoved : Moved fl base seq) (hle : fl.origin < seq + 100) (h : History fl accepted) :
    History base accepted := by
  cases hmoved with
  | kept hkept hadv =>
    cases hkept with
    | same => exact hadv.thinned.history h
    | restarted hback => omega
  | fresh hfresh => exact hfresh.history hle h

theorem Moved.origin_le (hmoved : Moved fl base seq) (hle : fl.origin < seq + 100) : fl.origin ≤ base.origin := by
  cases hmoved with
  | kept hkept hadv =>
    have horigin := hadv.origin
    cases hkept with
    | same => omega
    | restarted hback => omega
  | fresh hfresh =>
    have horigin := hfresh.origin
    rcases hfresh.apart with hback | hbehind
    · omega
    · omega

/-- A slot that is missing has had no frame before. -/
theorem Stored.history {d : Nat} {frame : Frame}
    (hstored : Stored base fl' seq { frame with content := frame.content.take base.frameSize } d) (hbase : base.Sound)
    (h : History base accepted) : History fl' (accepted ++ [(seq, frame)]) := by
  have hseq := hstored.seq
  have hsize := hstored.size
  have horigin := hstored.origin
  have hlt := hstored.lt
  have hmax := hbase.size
  have hnew : ∀ put ∈ accepted, put.1 ≠ seq := by
    intro put hput heq
    have hbefore := h.before put hput
    exact h.filled put hput d (by omega) (by omega) hstored.missing
  refine ⟨?_, ?_, ?_⟩
  · intro put hput
    rcases List.mem_append.mp hput with hold | hlast
    · have hbefore := h.before put hold
      omega
    · rw [List.mem_singleton.mp hlast]
      show seq < fl'.origin + fl'.size
      omega
  · intro put hput i hi heq
    rw [hstored.slotAt i (by omega)]
    split
    · exact nofun
    · rename_i hne
      rcases List.mem_append.mp hput with hold | hlast
      · have hbefore := h.before put hold
        exact h.filled put hold i (by omega) (by omega)
      · rw [List.mem_singleton.mp hlast] at heq
        have hsame : seq = fl'.origin + i := heq
        omega
  · intro i hi htype
    rw [hstored.slotAt i (by omega)] at htype ⊢
    rw [horigin, hstored.frameSize]
    split
    · rename_i heq
      subst heq
      rw [← hseq]
      exact ⟨frame, firstPut_new hnew frame, rfl⟩
    · rename_i hne
      rw [if_neg hne] at htype
      have hin : i < base.size := by
        by_contra hout
        rw [hbase.outside i (by omega) (by omega)] at htype
        exact nomatch htype
      obtain ⟨old, hfirst, hkept⟩ := h.content i hin htype
      exact ⟨old, hfirst.append _, hkept⟩

end Window

end Framelist

/-- What the calls leave to the frame list when the levels are updated. -/
structure Updated (jb jb' : Jbuf) : Prop where
  settings : jb'.settings = jb.settings
  framelist : ∃ c, Framelist.Thinned jb.framelist jb'.framelist c

section Updates

variable {jb jb' : Jbuf}

/-- The levels are of no concern. -/
theorem Updated.of_core {core : Jbuf} (hsettings : core.settings = jb.settings)
    (hframelist : core.framelist = jb.framelist) (h : Updated core jb') : Updated jb jb' := by
  obtain ⟨hsame, c, hthin⟩ := h
  exact ⟨hsame.trans hsettings, c, hframelist ▸ hthin⟩

theorem updated_discardDue (h : jb.framelist.Sound) (lastSeq : Int) : Updated jb (discardDue jb lastSeq) := by
  rw [discardDue]
  split
  · exact ⟨rfl, 0, Framelist.thinned_discard h _⟩
  · exact ⟨rfl, 0, Framelist.thinned_refl h⟩

theorem updated_runDiscard (h : jb.framelist.Sound) : Updated jb (runDiscard jb) := by
  have hrefl : Updated jb jb := ⟨rfl, 0, Framelist.thinned_refl h⟩
  rw [runDiscard]
  split
  · split
    · exact hrefl
    · rw [discardStatic]
      split
      · exact hrefl
      split
      · simp only
        generalize (if jb.framelist.origin < jb.discardRef then jb.framelist.origin else jb.discardRef) = ref
        split
        · exact ⟨rfl, _, (Framelist.advanced_removeHead h 1).thinned⟩
        · exact ⟨rfl, 0, Framelist.thinned_refl h⟩
      · exact hrefl
    · rw [discardProgressive]
      split
      · exact hrefl
      simp only
      split
      · exact ⟨rfl, 0, Framelist.thinned_refl h⟩
      · refine Updated.of_core ?_ ?_ (updated_discardDue ?_ _)
        · rfl
        · rfl
        · exact h
  · exact hrefl

theorem updated_update (h : jb.framelist.Sound) (oper : Op) : Updated jb (update jb oper) := by
  have hburst : ∀ core : Jbuf, core.settings = jb.settings → core.framelist = jb.framelist →
      Updated jb (runDiscard (endBurst core oper)) := by
    intro core hsettings hframelist
    have hsame := sameCore_endBurst core oper
    have hfl : (endBurst core oper).framelist = jb.framelist := hsame.framelist.trans hframelist
    exact .of_core (hsame.settings.trans hsettings) hfl (updated_runDiscard (hfl ▸ h))
  rw [update]
  split
  · simp only
    split
    · exact hburst _ rfl rfl
    · split
      · exact hburst _ rfl rfl
      · exact ⟨rfl, 0, Framelist.thinned_refl h⟩
  · exact updated_runDiscard h

end Updates

/-- The calls of one user who puts and one who gets. -/
inductive Use
  | put (seq : Int) (frame : Frame)
  | get (size : Option Nat)

/-- What was returned as a normal frame, with the size of the buffer it was returned in. -/
structure Returned where
  size : Option Nat
  got : Framelist.Got

/-- The buffer, with the puts it has accepted and the normal frames it has returned so far. -/
structure Trace where
  jb : Jbuf
  accepted : List (Int × Frame)
  returned : List Returned

/-- One call; `none` if it does not return. -/
def Trace.step (t : Trace) : Use → Option Trace
  | .put seq frame => (putFrame t.jb seq frame).map fun (jb, discarded) =>
    ⟨jb, if discarded then t.accepted else t.accepted ++ [(seq, frame)], t.returned⟩
  | .get size => (getFrame t.jb size).map fun (jb, type, got) =>
    match type, got with
    | .normal, some got => ⟨jb, t.accepted, t.returned ++ [⟨size, got⟩]⟩
    | _, _ => ⟨jb, t.accepted, t.returned⟩

/-- A frame that comes back: one that was put first under its number, as far as there is room for it. -/
def Faithful (frameSize : Nat) (accepted : List (Int × Frame)) (r : Returned) : Prop :=
  ∃ frame, FirstPut accepted r.got.seq frame ∧
    r.got.content = (frame.content.take frameSize).take (r.size.getD (frame.content.take frameSize).length) ∧
    r.got.bitInfo = frame.bitInfo ∧ r.got.ts = frame.ts

/-- A put that is in range, and neither a restart of the sequence nor a jump back. -/
def Ordinary (t : Trace) : Use → Prop
  | .put seq _ => Framelist.InRange seq ∧ t.jb.framelist.origin < seq + 100
  | .get _ => True

/-- What every call keeps. -/
structure Trace.Inv (bytes : Nat) (t : Trace) : Prop where
  sound : t.jb.framelist.Sound
  maxCount : t.jb.settings.maxCount = t.jb.framelist.maxCount
  frameSize : t.jb.settings.frameSize = t.jb.framelist.frameSize
  size : t.jb.framelist.frameSize = bytes
  history : t.jb.framelist.History t.accepted
  passed : ∀ r ∈ t.returned, r.got.seq < t.jb.framelist.origin
  increasing : t.returned.Pairwise fun r r' => r.got.seq < r'.got.seq
  faithful : ∀ r ∈ t.returned, Faithful bytes t.accepted r

section Traces

variable {t : Trace} {bytes : Nat}

/-- The buffer is replaced by one whose window has moved on. -/
theorem Trace.Inv.thin (h : t.Inv bytes) {jb : Jbuf} {c : Nat} (hsettings : jb.settings = t.jb.settings)
    (hthin : Framelist.Thinned t.jb.framelist jb.framelist c) : Trace.Inv bytes { t with jb := jb } where
  sound := hthin.sound
  maxCount := (congrArg Settings.maxCount hsettings).trans (h.maxCount.trans hthin.maxCount.symm)
  frameSize := (congrArg Settings.frameSize hsettings).trans (h.frameSize.trans hthin.frameSize.symm)
  size := hthin.frameSize.trans h.size
  history := hthin.history h.history
  passed r hr := by
    have hlt := h.passed r hr
    have horigin := hthin.origin
    show r.got.seq < jb.framelist.origin
    omega
  increasing := h.increasing
  faithful := h.faithful

theorem Trace.Inv.update (h : t.Inv bytes) (oper : Op) {jb : Jbuf} (hsettings : jb.settings = t.jb.settings)
    (hframelist : jb.framelist = t.jb.framelist) : Trace.Inv bytes { t with jb := update jb oper } := by
  have hsound : jb.framelist.Sound := hframelist ▸ h.sound
  obtain ⟨hsame, c, hthin⟩ := updated_update hsound oper
  rw [hframelist] at hthin
  exact h.thin (hsame.trans hsettings) hthin

theorem Trace.Inv.put (h : t.Inv bytes) {seq : Int} {frame : Frame} (hput : Ordinary t (.put seq frame)) :
    ∃ t', t.step (.put seq frame) = some t' ∧ t'.Inv bytes := by
  obtain ⟨hseq, hnear⟩ := hput
  have hlen : ({ frame with content := frame.content.take t.jb.settings.frameSize } : Frame).content.length ≤
      t.jb.framelist.frameSize := by
    rw [← h.frameSize]
    exact List.length_take_le _ _
  obtain ⟨⟨fl, status⟩, hroom, hput, hstatus⟩ := Framelist.makeRoom_ends h.sound hseq hlen
  rw [← h.maxCount] at hroom
  simp only [Trace.step, putFrame, hroom, Option.map_some]
  refine ⟨_, rfl, ?_⟩
  cases hput with
  | late _ => exact h
  | duplicate _ _ _ => exact h
  | crowded _ _ _ => exact absurd rfl hstatus
  | stored hmoved hstored =>
    rename_i base d
    have hbase := hmoved.sound
    have hsize : t.jb.settings.frameSize = base.frameSize := h.frameSize.trans hmoved.frameSize.symm
    rw [hsize] at hstored
    have hhistory := hstored.history hbase (hmoved.history hnear h.history)
    have hnext : Trace.Inv bytes ⟨{ t.jb with framelist := fl }, t.accepted ++ [(seq, frame)], t.returned⟩ :=
      { sound := hstored.sound
        maxCount := h.maxCount.trans (hstored.maxCount.trans hmoved.maxCount).symm
        frameSize := h.frameSize.trans (hstored.frameSize.trans hmoved.frameSize).symm
        size := (hstored.frameSize.trans hmoved.frameSize).trans h.size
        history := hhistory
        passed := by
          intro r hr
          have hlt := h.passed r hr
          have hle := hmoved.origin_le hnear
          have horigin := hstored.origin
          show r.got.seq < fl.origin
          omega
        increasing := h.increasing
        faithful := by
          intro r hr
          obtain ⟨old, hfirst, hrest⟩ := h.faithful r hr
          exact ⟨old, hfirst.append _, hrest⟩ }
    exact hnext.update .put rfl rfl

theorem Trace.Inv.get (h : t.Inv bytes) (size : Option Nat) : ∃ t', t.step (.get size) = some t' ∧ t'.Inv bytes := by
  have hnext : ∀ jb : Jbuf, Trace.Inv bytes { t with jb := jb } →
      Trace.Inv bytes { t with jb := JitterBuffer.update { jb with level := jb.level + 1 } .get } := by
    intro jb h'
    exact h'.update .get rfl rfl
  rw [Trace.step, getFrame]
  split
  · exact ⟨_, rfl, hnext _ h⟩
  split
  · exact ⟨_, rfl, hnext _ h⟩
  obtain ⟨fl, got, c, hget, hadv, htaken⟩ := Framelist.get_ends h.sound size
  have hmoved : Trace.Inv bytes { t with jb := { t.jb with framelist := fl } } := h.thin rfl hadv.thinned
  rw [hget]
  cases got with
  | none =>
    refine ⟨_, rfl, ?_⟩
    exact hmoved.update .get rfl rfl
  | some got =>
    obtain ⟨i, hi, hseq, hslot⟩ := htaken got rfl
    by_cases hnormal : got.type = .normal
    · refine ⟨_, by simp only [Option.map_some, if_pos hnormal]; rfl, ?_⟩
      have horigin := hadv.origin
      have hsize := hadv.size
      obtain ⟨htype, hcontent, hbit, hts⟩ := hslot hnormal
      obtain ⟨frame, hfirst, hkept⟩ := h.history.content i (by omega) htype
      rw [hkept, h.size] at hcontent hbit hts
      have hlast : Trace.Inv bytes
          { jb := { t.jb with framelist := fl }
            accepted := t.accepted
            returned := t.returned ++ [⟨size, got⟩] } :=
        { hmoved with
          passed := by
            intro r hr
            rcases List.mem_append.mp hr with hold | hlast
            · exact hmoved.passed r hold
            · rw [List.mem_singleton.mp hlast]
              show got.seq < fl.origin
              omega
          increasing := by
            refine List.pairwise_append.mpr ⟨h.increasing, List.pairwise_singleton _ _, ?_⟩
            intro r hr r' hr'
            rw [List.mem_singleton.mp hr']
            have hlt := h.passed r hr
            show r.got.seq < got.seq
            omega
          faithful := by
            intro r hr
            rcases List.mem_append.mp hr with hold | hlast
            · exact h.faithful r hold
            · rw [List.mem_singleton.mp hlast]
              refine ⟨frame, ?_, hcontent, hbit, hts⟩
              show FirstPut t.accepted got.seq frame
              rw [hseq]
              exact hfirst }
      exact hlast.update .get rfl rfl
    · refine ⟨_, by simp only [Option.map_some, if_neg hnormal]; rfl, ?_⟩
      exact hmoved.update .get rfl rfl

theorem Trace.Inv.step (h : t.Inv bytes) (use : Use) (huse : Ordinary t use) :
    ∃ t', t.step use = some t' ∧ t'.Inv bytes := by
  cases use with
  | put seq frame => exact h.put huse
  | get size => exact h.get size

theorem Trace.inv_create {ptime maxCount : Nat} {algo : DiscardAlgo} {jb : Jbuf}
    (hcreate : create bytes ptime maxCount algo = some jb) (hpos : 1 ≤ maxCount) (hlimit : maxCount ≤ seqLimit) :
    Trace.Inv bytes ⟨jb, [], []⟩ := by
  rw [create] at hcreate
  split at hcreate
  · cases hcreate
  rw [← Option.some.inj hcreate]
  exact
    { sound := (Framelist.emptied_reset (Framelist.sound_init hpos hlimit)).sound
      maxCount := rfl
      frameSize := rfl
      size := rfl
      history :=
        ⟨fun _ hmem => absurd hmem List.not_mem_nil, fun _ hmem => absurd hmem List.not_mem_nil,
          fun i hi => absurd hi (Nat.not_lt_zero i)⟩
      passed := fun _ hmem => absurd hmem List.not_mem_nil
      increasing := .nil
      faithful := fun _ hmem => absurd hmem List.not_mem_nil }

end Traces

/-- In every run of puts and gets without a restart of the sequence, the normal frames come out in the order of their
numbers, each with what was put first under its number. -/
theorem normal_frames_in_order {frameSize ptime maxCount : Nat} {algo : DiscardAlgo} {jb : Jbuf}
    (hcreate : create frameSize ptime maxCount algo = some jb) (hpos : 1 ≤ maxCount) (hlimit : maxCount ≤ seqLimit)
    {uses : List Use} (huses : Meets Trace.step Ordinary ⟨jb, [], []⟩ uses) :
    ∃ t, exec Trace.step ⟨jb, [], []⟩ uses = some t ∧
      t.returned.Pairwise (fun r r' => r.got.seq < r'.got.seq) ∧ ∀ r ∈ t.returned, Faithful frameSize t.accepted r := by
  obtain ⟨t, hrun, h⟩ := exec_returns_of_meets (fun _ use h huse => Trace.Inv.step h use huse)
    (Trace.inv_create hcreate hpos hlimit) huses
  exact ⟨t, hrun, h.increasing, h.faithful⟩

instance (t : Trace) : (use : Use) → Decidable (Ordinary t use)
  | .put seq _ => decidable_of_iff ((-(seqLimit : Int) ≤ seq ∧ seq < seqLimit) ∧ t.jb.framelist.origin < seq + 100)
      ⟨fun h => ⟨⟨h.1.1, h.1.2⟩, h.2⟩, fun h => ⟨⟨h.1.low, h.1.high⟩, h.2⟩⟩
  | .get _ => .isTrue trivial

/-- Two frames out of order, the first of them twice. -/
def twoFrames : List Use :=
  [.put 7 ⟨[1], 0, 0⟩, .put 9 ⟨[3], 0, 160⟩, .put 8 ⟨[2], 0, 80⟩, .put 9 ⟨[4], 0, 160⟩, .get none, .get none, .get none]

theorem normal_frames_in_order_twoFrames :
    ∃ jb, create 4 20 4 .static = some jb ∧ ∃ t, exec Trace.step ⟨jb, [], []⟩ twoFrames = some t ∧
      t.returned.Pairwise (fun r r' => r.got.seq < r'.got.seq) ∧ ∀ r ∈ t.returned, Faithful 4 t.accepted r := by
  obtain ⟨jb, hcreate⟩ : ∃ jb, create 4 20 4 .static = some jb := ⟨_, rfl⟩
  have hmeets : ∀ jb, create 4 20 4 .static = some jb → Meets Trace.step Ordinary ⟨jb, [], []⟩ twoFrames := by
    intro jb hjb
    have hall : ((create 4 20 4 .static).all fun jb => decide (Meets Trace.step Ordinary ⟨jb, [], []⟩ twoFrames)) =
        true := by decide
    rw [hjb] at hall
    exact of_decide_eq_true hall
  exact ⟨jb, hcreate, normal_frames_in_order hcreate (by decide) (by decide) (hmeets jb hcreate)⟩

/-- The put takes none of the branches for a restart of the sequence and for a far jump. -/
def NoJump (t : Trace) : Use → Prop
  | .put seq _ =>
    let fl := t.jb.framelist
    ¬ (int32 (seq - fl.origin) < 0 ∧ maxMisorder ≤ int32 (fl.origin - seq)) ∧
      ¬ (fl.size ≠ 0 ∧ fl.maxCount ≤ int32 (seq - fl.origin) ∧ maxDropout < int32 (seq - fl.origin))
  | .get _ => True

instance (t : Trace) : (use : Use) → Decidable (NoJump t use)
  | .put _ _ => inferInstanceAs (Decidable (¬ _ ∧ ¬ _))
  | .get _ => .isTrue trivial

/-- A frame of five bytes in a buffer for four. -/
def longFrame : List Use := [.put 0 ⟨[1, 2, 3, 4, 5], 0, 0⟩, .get none]

/-- Numbers that go on past the largest `int`. -/
def wrappedFrames : List Use :=
  [.put 0 ⟨[1], 0, 0⟩, .get none, .put 0x40000000 ⟨[1], 0, 0⟩, .get none, .put 0x7FFFFFFF ⟨[1], 0, 0⟩, .get none,
    .put (-0x80000000) ⟨[1], 0, 0⟩, .get none]

/-- A frame that is too long does not come out as it was put, and after the largest `int` comes the smallest. -/
theorem truncated_and_wrapped :
    (∃ jb t r, create 4 20 2 .none = some jb ∧ Meets Trace.step NoJump ⟨jb, [], []⟩ longFrame ∧
      exec Trace.step ⟨jb, [], []⟩ longFrame = some t ∧ r ∈ t.returned ∧
      ¬ ∃ frame, FirstPut t.accepted r.got.seq frame ∧ r.got.content = frame.content) ∧
    ∃ jb t, create 4 20 2 .none = some jb ∧ Meets Trace.step NoJump ⟨jb, [], []⟩ wrappedFrames ∧
      exec Trace.step ⟨jb, [], []⟩ wrappedFrames = some t ∧
      ¬ t.returned.Pairwise (fun r r' => r.got.seq < r'.got.seq) := by
  have hnojump : ((create 4 20 2 .none).all fun jb => decide (Meets Trace.step NoJump ⟨jb, [], []⟩ longFrame) &&
      decide (Meets Trace.step NoJump ⟨jb, [], []⟩ wrappedFrames)) = true := by decide
  have hlong : ((create 4 20 2 .none).bind fun jb => (exec Trace.step ⟨jb, [], []⟩ longFrame).map fun t =>
      (t.accepted, t.returned.map fun r => (r.got.seq, r.got.content))) =
      some ([(0, ⟨[1, 2, 3, 4, 5], 0, 0⟩)], [(0, [1, 2, 3, 4])]) := by decide
  have hwrapped : ((create 4 20 2 .none).bind fun jb => (exec Trace.step ⟨jb, [], []⟩ wrappedFrames).map fun t =>
      t.returned.map fun r => r.got.seq) = some [0, 0x40000000, 0x7FFFFFFF, -0x80000000] := by decide
  obtain ⟨jb, hcreate⟩ : ∃ jb, create 4 20 2 .none = some jb := ⟨_, rfl⟩
  rw [hcreate] at hnojump hlong hwrapped
  obtain ⟨hnolong, hnowrap⟩ := Bool.and_eq_true_iff.mp hnojump
  constructor
  · obtain ⟨t, hrun, hread⟩ := Option.map_eq_some_iff.mp hlong
    have haccepted : t.accepted = [(0, ⟨[1, 2, 3, 4, 5], 0, 0⟩)] := congrArg Prod.fst hread
    have hreturned : t.returned.map (fun r => (r.got.seq, r.got.content)) = [(0, [1, 2, 3, 4])] :=
      congrArg Prod.snd hread
    have hmem : (0, [1, 2, 3, 4]) ∈ t.returned.map fun r => (r.got.seq, r.got.content) := by
      rw [hreturned]
      exact List.mem_singleton.mpr rfl
    obtain ⟨r, hr, hrest⟩ := List.mem_map.mp hmem
    have hseq : r.got.seq = 0 := congrArg Prod.fst hrest
    have hcontent : r.got.content = [1, 2, 3, 4] := congrArg Prod.snd hrest
    refine ⟨jb, t, r, hcreate, of_decide_eq_true hnolong, hrun, hr, ?_⟩
    rintro ⟨frame, hfirst, hsame⟩
    rw [haccepted, hseq] at hfirst
    obtain rfl : (⟨[1, 2, 3, 4, 5], 0, 0⟩ : Frame) = frame := (Prod.ext_iff.mp (Option.some.inj hfirst)).2
    rw [hcontent] at hsame
    exact absurd hsame (by decide)
  · obtain ⟨t, hrun, hread⟩ := Option.map_eq_some_iff.mp hwrapped
    refine ⟨jb, t, hcreate, of_decide_eq_true hnowrap, hrun, ?_⟩
    intro hpairwise
    have hsorted : (t.returned.map fun r => r.got.seq).Pairwise (· < ·) := List.pairwise_map.mpr hpairwise
    rw [hread] at hsorted
    exact absurd hsorted (by decide)

end PjProject.JitterBuffer
