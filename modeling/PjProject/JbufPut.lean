import PjProject.JbufWindow

/-! What `jb_framelist_put_at` and the loop around it do with a frame: it is late, or it is there already, or it is
stored in a window that was kept, numbered anew or started anew. -/

namespace PjProject.JitterBuffer

open Circular

namespace Framelist

/-- The sequence numbers of a put that keep all `int` computations in range. -/
structure InRange (seq : Int) : Prop where
  low : -(seqLimit : Int) ≤ seq
  high : seq < seqLimit

/-- A frame went into the slot of its sequence number, `d` frames behind the origin, which was missing. -/
structure Stored (base fl' : Framelist) (seq : Int) (frame : Frame) (d : Nat) : Prop where
  seq : seq = base.origin + d
  lt : d < base.maxCount
  missing : (base.slotAt d).type = .missing
  maxCount : fl'.maxCount = base.maxCount
  frameSize : fl'.frameSize = base.frameSize
  origin : fl'.origin = base.origin
  size : fl'.size = max base.size (d + 1)
  slotAt : ∀ i < base.maxCount, fl'.slotAt i =
    if i = d then ⟨.normal, frame.content, frame.bitInfo, frame.ts⟩ else base.slotAt i
  discardedNum : fl'.discardedNum = base.discardedNum
  failed : fl'.failed = base.failed
  sound : fl'.Sound

/-- The window starts anew at a sequence number that is not near the old window, or behind it. -/
structure Fresh (fl base : Framelist) (seq : Int) : Prop where
  maxCount : base.maxCount = fl.maxCount
  frameSize : base.frameSize = fl.frameSize
  size : base.size = 0
  origin : base.origin = seq
  apart : seq + 100 ≤ fl.origin ∨ fl.origin + fl.size ≤ seq
  counted : fl.Counted → base.Counted
  sound : base.Sound

/-- The sequence restart: the same window, numbered so that `seq` comes next. -/
def renumber (fl : Framelist) (seq : Int) : Framelist := { fl with origin := seq - fl.size }

inductive Kept (fl : Framelist) (seq : Int) : Framelist → Prop
  | same : Kept fl seq fl
  | restarted : seq + 100 ≤ fl.origin → Kept fl seq (fl.renumber seq)

/-- What happened to the window before a frame was stored. -/
inductive Moved (fl base : Framelist) (seq : Int) : Prop
  | kept {mid : Framelist} {c : Nat} : Kept fl seq mid → Advanced mid base c → Moved fl base seq
  | fresh : Fresh fl base seq → Moved fl base seq

/-- The outcomes of `jb_framelist_put_at`. -/
inductive Put (fl : Framelist) (seq : Int) (frame : Frame) : Framelist × Status → Prop
  | late : seq < fl.origin → Put fl seq frame (fl, .etoosmall)
  | duplicate {d : Nat} : seq = fl.origin + d → d < fl.size → (fl.slotAt d).type ≠ .missing →
      Put fl seq frame (fl, .eexists)
  | crowded {fl' : Framelist} : Kept fl seq fl' → fl'.size ≠ 0 → fl'.origin + fl'.maxCount ≤ seq →
      Put fl seq frame (fl', .etoomany)
  | stored {base fl' : Framelist} {d : Nat} : Moved fl base seq → Stored base fl' seq frame d →
      Put fl seq frame (fl', .success)

section Outcomes

variable {fl fl' base : Framelist} {seq : Int} {frame : Frame}

theorem sound_renumber (h : fl.Sound) (hseq : InRange seq) : (fl.renumber seq).Sound where
  pos := h.pos
  head := h.head
  size := h.size
  outside := h.outside
  limit := h.limit
  low := by
    have hlow := hseq.low
    have hsize := h.size
    have hlimit := h.limit
    show -2 * (seqLimit : Int) ≤ seq - fl.size
    omega
  high := by
    have hhigh := hseq.high
    show seq - fl.size + fl.size ≤ seqLimit
    omega

theorem Kept.sound (hkept : Kept fl seq fl') (h : fl.Sound) (hseq : InRange seq) : fl'.Sound := by
  cases hkept with
  | same => exact h
  | restarted _ => exact sound_renumber h hseq

theorem Kept.counted (hkept : Kept fl seq fl') (h : fl.Counted) : fl'.Counted := by
  cases hkept with
  | same => exact h
  | restarted _ => exact ⟨h.discarded, h.failed⟩

theorem Kept.maxCount (hkept : Kept fl seq fl') : fl'.maxCount = fl.maxCount := by
  cases hkept <;> rfl

theorem Kept.frameSize (hkept : Kept fl seq fl') : fl'.frameSize = fl.frameSize := by
  cases hkept <;> rfl

theorem Fresh.of_kept (hkept : Kept fl seq fl') (hfresh : Fresh fl' base seq) : Fresh fl base seq where
  maxCount := hfresh.maxCount.trans hkept.maxCount
  frameSize := hfresh.frameSize.trans hkept.frameSize
  size := hfresh.size
  origin := hfresh.origin
  apart := by
    cases hkept with
    | same => exact hfresh.apart
    | restarted hback => exact Or.inl hback
  counted h := hfresh.counted (hkept.counted h)
  sound := hfresh.sound

theorem Fresh.of_advanced {c : Nat} (hadv : Advanced fl fl' c) (h : fl.Sound) (hle : fl'.origin ≤ seq)
    (hfresh : Fresh fl' base seq) : Fresh fl base seq where
  maxCount := hfresh.maxCount.trans hadv.maxCount
  frameSize := hfresh.frameSize.trans hadv.frameSize
  size := hfresh.size
  origin := hfresh.origin
  apart := by
    have horigin := hadv.origin
    have hsize := hadv.size
    rcases hfresh.apart with hback | hbehind
    · omega
    · exact Or.inr (by omega)
  counted hcounted := hfresh.counted (hadv.keeps hcounted h)
  sound := hfresh.sound

/-- An empty window at a sequence number in range. -/
theorem sound_fresh (hpos : 0 < fl.maxCount) (hhead : fl.head < fl.maxCount) (hlimit : fl.maxCount ≤ seqLimit)
    (hsize : fl.size = 0) (hmissing : ∀ i < fl.maxCount, (fl.slotAt i).type = .missing) (hseq : InRange seq)
    (horigin : fl.origin = seq) : fl.Sound where
  pos := hpos
  head := hhead
  size := by omega
  outside i _ hi := hmissing i hi
  limit := hlimit
  low := by
    have hlow := hseq.low
    omega
  high := by
    have hhigh := hseq.high
    omega

theorem fresh_jumpTo (h : fl.Sound) (hseq : InRange seq)
    (hapart : seq + 100 ≤ fl.origin ∨ fl.origin + fl.size ≤ seq) : Fresh fl (fl.jumpTo seq) seq where
  maxCount := rfl
  frameSize := rfl
  size := rfl
  origin := rfl
  apart := hapart
  counted hcounted := ⟨rfl, hcounted.failed⟩
  sound := sound_fresh h.pos h.pos h.limit rfl (fun _ _ => rfl) hseq rfl

theorem store_outside (frame : Frame) (h : fl.Sound) (hseq : InRange seq) {d : Nat} (hd : d < fl.maxCount)
    (heq : seq = fl.origin + d) (hmissing : (fl.slotAt d).type = .missing) :
    (fl.store d seq frame).2 = .success ∧ Stored fl (fl.store d seq frame).1 seq frame d := by
  have hpos : (fl.slots ((fl.head + (d : Int).toNat) % fl.maxCount)).type = .missing := hmissing
  have hlow := h.low
  have hhigh := h.high
  have hsize := h.size
  have hseqhigh := hseq.high
  have hend := int32_end h
  obtain ⟨fl', hfl'⟩ : ∃ fl', fl' = (fl.store d seq frame).1 := ⟨_, rfl⟩
  have hstore : fl.store d seq frame =
      ({ fl with
          slots := Function.update fl.slots ((fl.head + d) % fl.maxCount)
            ⟨.normal, frame.content, frame.bitInfo, frame.ts⟩
          size := max fl.size (d + 1) }, .success) := by
    rw [store, if_neg (not_not.mpr hpos), hend, Int.toNat_natCast]
    have hmax : (if fl.origin + fl.size ≤ seq then d + 1 else fl.size) = max fl.size (d + 1) := by
      split
      · omega
      · omega
    rw [hmax]
  rw [hstore] at hfl' ⊢
  have hslot : ∀ i < fl.maxCount, fl'.slotAt i =
      if i = d then ⟨.normal, frame.content, frame.bitInfo, frame.ts⟩ else fl.slotAt i := by
    intro i hi
    rw [hfl']
    exact view_update hi hd _
  refine ⟨rfl, ?_⟩
  rw [← hfl']
  refine ⟨heq, hd, hmissing, by rw [hfl'], by rw [hfl'], by rw [hfl'], by rw [hfl'], hslot, by rw [hfl'],
    by rw [hfl'], ?_⟩
  have hmax : fl'.maxCount = fl.maxCount := by rw [hfl']
  have horigin : fl'.origin = fl.origin := by rw [hfl']
  have hsize' : fl'.size = max fl.size (d + 1) := by rw [hfl']
  refine ⟨hmax ▸ h.pos, ?_, by omega, ?_, hmax ▸ h.limit, by omega, by omega⟩
  · rw [hfl']
    exact h.head
  · intro i hi hlt
    rw [hslot i (by omega), if_neg (by omega)]
    exact h.outside i (by omega) (by omega)

theorem int32_distance (h : fl.Sound) (hseq : InRange seq) :
    int32 (seq - fl.origin) = seq - fl.origin ∧ int32 (fl.origin - seq) = fl.origin - seq := by
  have hlow := h.low
  have hhigh := h.high
  have hseqlow := hseq.low
  have hseqhigh := hseq.high
  rw [seqLimit] at hlow hhigh hseqlow hseqhigh
  exact ⟨int32_eq (by omega) (by omega), int32_eq (by omega) (by omega)⟩

/-- A frame before the origin that is not merely late restarts the sequence, or the buffer. -/
theorem settle_cases (h : fl.Sound) (hseq : InRange seq)
    (hlate : ¬ (int32 (seq - fl.origin) < 0 ∧ int32 (fl.origin - seq) < maxMisorder)) :
    (∃ fl', Kept fl seq fl' ∧ fl'.origin ≤ seq ∧ (fl' ≠ fl → seq = fl'.origin + fl'.size) ∧
      fl.settle seq = (fl', seq - fl'.origin)) ∨
      (seq + 100 ≤ fl.origin ∧ fl.settle seq = (fl.jumpTo seq, 0)) := by
  obtain ⟨hdistance, hback⟩ := int32_distance h hseq
  rw [hdistance, hback, maxMisorder] at hlate
  rw [settle, hdistance]
  by_cases hneg : seq - fl.origin < 0
  · simp only [if_pos hneg]
    by_cases hrestart : maxFrameIndex ≤ uint32 (fl.origin + fl.size)
    · have hint : int32 (seq - fl.size) = seq - fl.size := by
        have hsize := h.size
        have hlimit := h.limit
        have hseqlow := hseq.low
        have hseqhigh := hseq.high
        rw [seqLimit] at hlimit hseqlow hseqhigh
        exact int32_eq (by omega) (by omega)
      have hend : seq - (fl.renumber seq).origin = fl.size := by
        show seq - (seq - fl.size) = fl.size
        omega
      refine Or.inl ⟨fl.renumber seq, .restarted (by omega), ?_, ?_, ?_⟩
      · show seq - (fl.size : Int) ≤ seq
        omega
      · intro _
        show seq = seq - (fl.size : Int) + fl.size
        omega
      · rw [if_pos hrestart, hint, hend]
        rfl
    · exact Or.inr ⟨by omega, if_neg hrestart⟩
  · exact Or.inl ⟨fl, .same, by omega, fun hne => absurd rfl hne, if_neg hneg⟩

theorem Moved.maxCount (hmoved : Moved fl base seq) : base.maxCount = fl.maxCount := by
  cases hmoved with
  | kept hkept hadv => exact hadv.maxCount.trans hkept.maxCount
  | fresh hfresh => exact hfresh.maxCount

theorem Moved.frameSize (hmoved : Moved fl base seq) : base.frameSize = fl.frameSize := by
  cases hmoved with
  | kept hkept hadv => exact hadv.frameSize.trans hkept.frameSize
  | fresh hfresh => exact hfresh.frameSize

theorem Moved.sound (hmoved : Moved fl base seq) : base.Sound := by
  cases hmoved with
  | kept _ hadv => exact hadv.sound
  | fresh hfresh => exact hfresh.sound

/-- An empty window takes its origin from the frame. -/
theorem fresh_anchor (h : fl.Sound) (hseq : InRange seq) (hzero : fl.size = 0) (hle : fl.origin ≤ seq)
    (distance : Int) : ∃ base, fl.anchor distance seq = (base, 0) ∧ Fresh fl base seq := by
  have hmissing : ∀ i < fl.maxCount, (fl.slotAt i).type = .missing := by
    intro i hi
    exact h.outside i (by omega) hi
  refine ⟨_, if_pos hzero, rfl, rfl, hzero, rfl, Or.inr (by omega), ?_, sound_fresh h.pos h.head h.limit hzero hmissing hseq rfl⟩
  intro hcounted
  have hnum : fl.discardedNum = 0 := by
    rw [hcounted.discarded, hzero]
    rfl
  refine ⟨hcounted.discarded, ?_⟩
  show (fl.failed || fl.discardedNum != 0) = false
  rw [hcounted.failed, hnum]
  rfl

theorem put_fresh (hseq : InRange seq) (hfresh : Fresh fl base seq) : Put fl seq frame (base.store 0 seq frame) := by
  have hbase := hfresh.sound
  have hsize := hfresh.size
  have heq : seq = base.origin + (0 : Nat) := by
    rw [hfresh.origin]
    omega
  obtain ⟨hstatus, hstored⟩ :=
    store_outside frame hbase hseq hbase.pos heq (hbase.outside 0 (by omega) hbase.pos)
  have hpair : base.store 0 seq frame = ((base.store 0 seq frame).1, .success) := Prod.ext rfl hstatus
  rw [hpair]
  exact .stored (.fresh hfresh) hstored

theorem put_kept {fl' : Framelist} (h : fl.Sound) (hseq : InRange seq) (hkept : Kept fl seq fl')
    (hsize : fl'.size ≠ 0) (hle : fl'.origin ≤ seq) (hnext : fl' ≠ fl → seq = fl'.origin + fl'.size) :
    Put fl seq frame
      (if fl'.maxCount ≤ seq - fl'.origin then
        if maxDropout < seq - fl'.origin then (fl'.jumpTo seq).store 0 seq frame else (fl', .etoomany)
      else fl'.store (seq - fl'.origin) seq frame) := by
  have hsound := hkept.sound h hseq
  have hsize' := hsound.size
  split
  · split
    · exact put_fresh hseq (.of_kept hkept (fresh_jumpTo hsound hseq (Or.inr (by omega))))
    · exact .crowded hkept hsize (by omega)
  · obtain ⟨d, hd⟩ : ∃ d : Nat, seq - fl'.origin = d := ⟨(seq - fl'.origin).toNat, by omega⟩
    rw [hd]
    by_cases hmissing : (fl'.slotAt d).type = .missing
    · obtain ⟨hstatus, hstored⟩ :=
        store_outside frame hsound hseq (by omega) (by omega) hmissing
      have hpair : fl'.store d seq frame = ((fl'.store d seq frame).1, .success) := Prod.ext rfl hstatus
      rw [hpair]
      exact .stored (.kept hkept (advanced_refl hsound)) hstored
    · have hpair : fl'.store d seq frame = (fl', .eexists) := if_pos hmissing
      rw [hpair]
      have hin : d < fl'.size := by
        by_contra hout
        exact hmissing (hsound.outside d (by omega) (by omega))
      -- the slot behind a window that was numbered anew is missing
      have hsame : fl' = fl := by
        by_contra hne
        have hend := hnext hne
        omega
      subst hsame
      exact .duplicate (by omega) hin hmissing

theorem put_putAt (h : fl.Sound) (hseq : InRange seq) (hlen : frame.content.length ≤ fl.frameSize) :
    Put fl seq frame (fl.putAt seq frame) := by
  rw [putAt, if_neg (Nat.not_lt.mpr hlen)]
  split
  · rename_i hlate
    rw [(int32_distance h hseq).1] at hlate
    exact .late (by omega)
  · rename_i hlate
    rcases settle_cases h hseq hlate with ⟨fl', hkept, hle, hnext, hsettle⟩ | ⟨hback, hsettle⟩
    · rw [hsettle]
      by_cases hzero : fl'.size = 0
      · obtain ⟨base, hanchor, hfresh⟩ := fresh_anchor (hkept.sound h hseq) hseq hzero hle (seq - fl'.origin)
        have hpos := hfresh.sound.pos
        simp only [hanchor]
        rw [if_neg (by omega)]
        exact put_fresh hseq (.of_kept hkept hfresh)
      · have hanchor : fl'.anchor (seq - fl'.origin) seq = (fl', seq - fl'.origin) := if_neg hzero
        simp only [hanchor]
        exact put_kept h hseq hkept hzero hle hnext
    · have hjump := fresh_jumpTo h hseq (Or.inl hback)
      obtain ⟨base, hanchor, hfresh⟩ := fresh_anchor hjump.sound hseq hjump.size (Int.le_refl _) 0
      have hpos := hfresh.sound.pos
      rw [hsettle]
      simp only [hanchor]
      rw [if_neg (by omega)]
      refine put_fresh hseq ⟨hfresh.maxCount, hfresh.frameSize, hfresh.size, hfresh.origin, Or.inl hback, ?_,
        hfresh.sound⟩
      exact fun hcounted => hfresh.counted (hjump.counted hcounted)

theorem stored_of_crowded {fl' : Framelist} {c : Nat} {r : Framelist × Status} (h : fl.Sound) (hseq : InRange seq)
    (hkept : Kept fl seq base) (hcrowded : base.origin + base.maxCount ≤ seq) (hadv : Advanced base fl' c)
    (hc : c = base.size ∨ base.origin + c + base.maxCount = seq + 1) (hput : Put fl' seq frame r) :
    Put fl seq frame r ∧ r.2 = .success := by
  have hbase := hkept.sound h hseq
  have hsize := hbase.size
  have horigin := hadv.origin
  have hadd := hadv.size
  have hmax := hadv.maxCount
  have hle : fl'.origin ≤ seq := by
    rcases hc with hc | hc
    · omega
    · have hpos := hbase.pos
      omega
  have hsame : ∀ mid, Kept fl' seq mid → mid = fl' := by
    intro mid hmid
    cases hmid with
    | same => rfl
    | restarted hback => omega
  cases hput with
  | late hlate => omega
  | duplicate heq hlt _ => omega
  | crowded hkept' hne hfull =>
    obtain rfl := hsame _ hkept'
    rcases hc with hc | hc
    · omega
    · omega
  | stored hmoved hstored =>
    refine ⟨.stored ?_ hstored, rfl⟩
    cases hmoved with
    | kept hmid hadv' =>
      obtain rfl := hsame _ hmid
      exact .kept hkept (hadv.trans hadv')
    | fresh hfresh => exact .fresh (.of_kept hkept (.of_advanced hadv hbase hle hfresh))

/-- `pjmedia_jbuf_put_frame3` makes room once at most. -/
theorem makeRoom_ends (h : fl.Sound) (hseq : InRange seq) (hlen : frame.content.length ≤ fl.frameSize) :
    ∃ r, makeRoom fl.maxCount 3 fl seq frame = some r ∧ Put fl seq frame r ∧ r.2 ≠ .etoomany := by
  have hput := put_putAt h hseq hlen
  rw [makeRoom]
  generalize fl.putAt seq frame = r at hput
  cases hput with
  | late hlate => exact ⟨_, rfl, .late hlate, nofun⟩
  | duplicate heq hlt hslot => exact ⟨_, rfl, .duplicate heq hlt hslot, nofun⟩
  | stored hmoved hstored => exact ⟨_, rfl, .stored hmoved hstored, nofun⟩
  | crowded hkept hne hfull =>
    rename_i base
    have hbase := hkept.sound h hseq
    have hmax := hkept.maxCount
    obtain ⟨n, hn⟩ : ∃ n : Nat, seq - base.origin - fl.maxCount + 1 = n :=
      ⟨(seq - base.origin - fl.maxCount + 1).toNat, by omega⟩
    have hlow := hbase.low
    have hseqhigh := hseq.high
    rw [seqLimit] at hlow hseqhigh
    have hdistance : int32 (int32 (seq - base.origin) - fl.maxCount + 1) = n := by
      rw [(int32_distance hbase hseq).1, hn]
      exact int32_eq (by omega) (by omega)
    have hcount : uint32 n = n := uint32_eq (by omega) (by omega)
    have hfailed : { base with failed := base.failed || decide ((n : Int) ≤ 0) } = base := by
      rw [decide_eq_false (by omega), Bool.or_false]
    simp only [hdistance, hcount, hfailed]
    have hadv := advanced_removeHead hbase n
    have hlen' : frame.content.length ≤ (base.removeHead n).frameSize := by
      rw [hadv.frameSize, hkept.frameSize]
      exact hlen
    obtain ⟨hstored, hstatus⟩ := stored_of_crowded h hseq hkept hfull hadv
      (by rcases Nat.le_total n base.size with hle | hle
          · right
            rw [Nat.min_eq_left hle]
            omega
          · left
            exact Nat.min_eq_right hle)
      (put_putAt hadv.sound hseq hlen')
    rw [makeRoom]
    generalize (base.removeHead n).putAt seq frame = r at hstored hstatus
    obtain ⟨fl'', status⟩ := r
    simp only at hstatus
    rw [hstatus] at hstored ⊢
    exact ⟨_, rfl, hstored, nofun⟩

end Outcomes

end Framelist

end PjProject.JitterBuffer
