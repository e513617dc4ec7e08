import PjProject.CircBuf

/-! The delay buffer (`delaybuf.c`). Without WSOLA it is a simple FIFO of frames. Its size is computed in 32 bits. -/

namespace PjProject

open CircBuf (Op Queues Sums)

/-- `pjmedia_delay_buf`, with the fields that decide how samples are stored. -/
structure DelayBuf (α : Type) where
  samplesPerFrame : Nat
  maxCnt : Nat
  circBuf : CircBuf α

namespace DelayBuf

variable {α : Type}

/-- `DEFAULT_MAX_DELAY`. -/
def defaultMaxDelay : Nat := 400

/-- The frame time that `pjmedia_delay_buf_create` computes, in milliseconds. -/
def ptime (clockRate samplesPerFrame channelCount : Nat) : Nat :=
  samplesPerFrame * 1000 % 4294967296 / clockRate / channelCount

def delay (maxDelay ptime : Nat) : Nat := if maxDelay < ptime then max defaultMaxDelay ptime else maxDelay

/-- `pjmedia_delay_buf_create` when there is memory for the buffer; `none` where it divides by zero. -/
def create (memory : Nat → α) (clockRate samplesPerFrame channelCount maxDelay : Nat) : Option (DelayBuf α) :=
  let ptime := ptime clockRate samplesPerFrame channelCount
  if ptime = 0 then none
  else
    let maxCnt := samplesPerFrame * delay maxDelay ptime % 4294967296 / ptime
    some ⟨samplesPerFrame, maxCnt, .create memory maxCnt⟩

/-- `pjmedia_delay_buf_put`; `shrink` is what WSOLA makes of the buffer, and leaves it as it is in a simple FIFO. -/
def put (shrink : CircBuf α → CircBuf α) (b : DelayBuf α) (frame : List α) : DelayBuf α :=
  let full (cb : CircBuf α) : Prop := b.maxCnt < (cb.len + b.samplesPerFrame) % 4294967296
  let cb :=
    if full b.circBuf then
      let cb := shrink b.circBuf
      if full cb then cb.advReadPtr ((cb.len + b.samplesPerFrame - b.maxCnt) % 4294967296) else cb
    else b.circBuf
  { b with circBuf := (cb.write frame).2 }

/-- `pjmedia_delay_buf_get` of a simple FIFO: the frame, and the buffer. -/
def get (silence : α) (b : DelayBuf α) : List α × DelayBuf α :=
  if b.circBuf.len < b.samplesPerFrame then
    let (r, cb) := b.circBuf.read b.circBuf.len
    (r.data ++ List.replicate (b.samplesPerFrame - b.circBuf.len) silence, { b with circBuf := cb.reset })
  else
    let (r, cb) := b.circBuf.read b.samplesPerFrame
    (r.data, { b with circBuf := cb })

/-- The buffer is valid and has room for `maxCnt` samples. -/
structure Valid (b : DelayBuf α) : Prop where
  circBuf : b.circBuf.Valid
  capacity : b.circBuf.capacity = b.maxCnt

/-- A frame is stored behind samples that are there. -/
theorem content_write {cb : CircBuf α} (h : cb.Valid) (frame : List α) (hroom : cb.len + frame.length ≤ cb.capacity) :
    (cb.write frame).2.Valid ∧ (cb.write frame).2.capacity = cb.capacity ∧
      (cb.write frame).2.content = cb.content ++ frame := by
  rw [CircBuf.write_eq cb h, if_pos (by rw [CircBuf.length_content]; exact hroom)]
  exact ⟨⟨hroom, h.inside, h.size⟩, rfl, CircBuf.content_stored h hroom⟩

theorem content_dropped {cb : CircBuf α} (h : cb.Valid) (frame : List α) (hfits : frame.length ≤ cb.capacity)
    (hsum : cb.len + frame.length < 4294967296) :
    let dropped := if cb.capacity < (cb.len + frame.length) % 4294967296 then
      cb.advReadPtr ((cb.len + frame.length - cb.capacity) % 4294967296) else cb
    (dropped.write frame).2.Valid ∧ (dropped.write frame).2.capacity = cb.capacity ∧
      (dropped.write frame).2.content = cb.content.drop (cb.len + frame.length - cb.capacity) ++ frame := by
  have hlen := h.fits
  intro dropped
  by_cases hfull : cb.capacity < cb.len + frame.length
  · have hdropped : dropped = cb.advReadPtr (cb.len + frame.length - cb.capacity) := by
      dsimp only [dropped]
      rw [Nat.mod_eq_of_lt hsum, if_pos hfull, Nat.mod_eq_of_lt (by omega)]
    have hcontent := CircBuf.content_advReadPtr h (cb.len + frame.length - cb.capacity)
    have hlength := congrArg List.length hcontent
    rw [CircBuf.length_content, List.length_drop, CircBuf.length_content] at hlength
    have hcap := CircBuf.capacity_advReadPtr cb (cb.len + frame.length - cb.capacity)
    have hvalid := h.advReadPtr (cb.len + frame.length - cb.capacity)
    obtain ⟨hv, hc, hstored⟩ := content_write hvalid frame (by omega)
    rw [hdropped]
    exact ⟨hv, hc.trans hcap, by rw [hstored, hcontent]⟩
  · have hdropped : dropped = cb := by
      dsimp only [dropped]
      rw [Nat.mod_eq_of_lt hsum, if_neg hfull]
    obtain ⟨hv, hc, hstored⟩ := content_write h frame (by omega)
    rw [hdropped, Nat.sub_eq_zero_of_le (by omega), List.drop_zero]
    exact ⟨hv, hc, hstored⟩

theorem put_id {b : DelayBuf α} (h : b.Valid) (hfits : b.samplesPerFrame ≤ b.maxCnt)
    (hsum : b.circBuf.len + b.samplesPerFrame < 4294967296) {frame : List α} (hframe : frame.length = b.samplesPerFrame) :
    (b.put id frame).Valid ∧ (b.put id frame).circBuf.content =
      b.circBuf.content.drop (b.circBuf.len + b.samplesPerFrame - b.maxCnt) ++ frame := by
  obtain ⟨hvalid, hcapacity⟩ := h
  have hdropped := content_dropped hvalid frame (by omega) (by omega)
  rw [hframe, hcapacity] at hdropped
  rw [put]
  dsimp only [id] at hdropped ⊢
  by_cases hfull : b.maxCnt < (b.circBuf.len + b.samplesPerFrame) % 4294967296
  · rw [if_pos hfull] at hdropped
    rw [if_pos hfull, if_pos hfull]
    exact ⟨⟨hdropped.1, hdropped.2.1⟩, hdropped.2.2⟩
  · rw [if_neg hfull] at hdropped
    rw [if_neg hfull]
    exact ⟨⟨hdropped.1, hdropped.2.1⟩, hdropped.2.2⟩

/-- A get returns the oldest samples, with silence behind them when there are too few. -/
theorem get_eq (silence : α) {b : DelayBuf α} (h : b.Valid) : (b.get silence).2.Valid ∧
    (b.get silence).1 = b.circBuf.content.take b.samplesPerFrame ++
      List.replicate (b.samplesPerFrame - b.circBuf.content.length) silence ∧
    (b.get silence).2.circBuf.content = b.circBuf.content.drop b.samplesPerFrame := by
  obtain ⟨hvalid, hcapacity⟩ := h
  rw [get, CircBuf.length_content]
  by_cases hfew : b.circBuf.len < b.samplesPerFrame
  · rw [if_pos hfew, CircBuf.read_eq hvalid, CircBuf.length_content, if_pos le_rfl]
    have hcap := CircBuf.capacity_advReadPtr b.circBuf b.circBuf.len
    refine ⟨⟨(hvalid.advReadPtr _).reset, hcap.trans hcapacity⟩, ?_, ?_⟩
    · rw [List.take_of_length_le (CircBuf.length_content _).le, List.take_of_length_le]
      rw [CircBuf.length_content]
      exact hfew.le
    · rw [List.drop_eq_nil_of_le]
      · rfl
      · rw [CircBuf.length_content]
        exact hfew.le
  · rw [if_neg hfew, CircBuf.read_eq hvalid, CircBuf.length_content, if_pos (by omega)]
    have hcap := CircBuf.capacity_advReadPtr b.circBuf b.samplesPerFrame
    refine ⟨⟨hvalid.advReadPtr _, hcap.trans hcapacity⟩, ?_, CircBuf.content_advReadPtr hvalid _⟩
    rw [Nat.sub_eq_zero_of_le (by omega)]
    exact (List.append_nil _).symm

inductive Call (α : Type)
  | put (frame : List α)
  | get

def Call.Sized (samplesPerFrame : Nat) : Call α → Prop
  | .put frame => frame.length = samplesPerFrame
  | .get => True

/-- A call of a simple FIFO: the frame that is returned, and the buffer. -/
def call (silence : α) (b : DelayBuf α) : Call α → List α × DelayBuf α
  | .put frame => ([], b.put id frame)
  | .get => b.get silence

/-- A delay buffer with an empty circular buffer. -/
def fresh (memory : Nat → α) (samplesPerFrame maxCnt : Nat) : DelayBuf α :=
  ⟨samplesPerFrame, maxCnt, .create memory maxCnt⟩

def calls (silence : α) (b : DelayBuf α) (l : List (Call α)) : DelayBuf α :=
  l.foldl (fun b c => (b.call silence c).2) b

/-- A FIFO of at most `maxCnt` samples. -/
def Delays (silence : α) (samplesPerFrame maxCnt : Nat) (l out next : List α) : Call α → Prop
  | .put frame => out = [] ∧ next = l.drop (l.length + samplesPerFrame - maxCnt) ++ frame
  | .get => out = l.take samplesPerFrame ++ List.replicate (samplesPerFrame - l.length) silence ∧
      next = l.drop samplesPerFrame

theorem call_delays (silence : α) {b : DelayBuf α} (h : b.Valid) (hfits : b.samplesPerFrame ≤ b.maxCnt)
    (hsum : b.maxCnt + b.samplesPerFrame < 4294967296) {c : Call α} (hc : c.Sized b.samplesPerFrame) :
    ((b.call silence c).2.Valid ∧ (b.call silence c).2.samplesPerFrame = b.samplesPerFrame ∧
      (b.call silence c).2.maxCnt = b.maxCnt) ∧
    Delays silence b.samplesPerFrame b.maxCnt b.circBuf.content (b.call silence c).1 (b.call silence c).2.circBuf.content c := by
  have hlen := h.circBuf.fits
  rw [h.capacity] at hlen
  cases c with
  | put frame =>
    obtain ⟨hvalid, hcontent⟩ := put_id h hfits (by omega) hc
    rw [← CircBuf.length_content] at hcontent
    exact ⟨⟨hvalid, rfl, rfl⟩, rfl, hcontent⟩
  | get =>
    obtain ⟨hvalid, hframe, hcontent⟩ := get_eq silence h
    refine ⟨⟨hvalid, ?_⟩, hframe, hcontent⟩
    rw [call, get]
    split <;> exact ⟨rfl, rfl⟩

theorem calls_valid (silence : α) {samplesPerFrame maxCnt : Nat} (hfits : samplesPerFrame ≤ maxCnt)
    (hsum : maxCnt + samplesPerFrame < 4294967296) {l : List (Call α)} (hl : ∀ c ∈ l, c.Sized samplesPerFrame)
    {b : DelayBuf α} (h : b.Valid ∧ b.samplesPerFrame = samplesPerFrame ∧ b.maxCnt = maxCnt) :
    (b.calls silence l).Valid ∧ (b.calls silence l).samplesPerFrame = samplesPerFrame ∧
      (b.calls silence l).maxCnt = maxCnt := by
  induction l generalizing b with
  | nil => exact h
  | cons c l ih =>
    obtain ⟨hvalid, rfl, rfl⟩ := h
    obtain ⟨hnext, -⟩ := call_delays silence hvalid hfits hsum (hl c List.mem_cons_self)
    exact ih (fun d hd => hl d (List.mem_cons_of_mem c hd)) hnext

theorem fresh_valid (memory : Nat → α) (samplesPerFrame : Nat) {maxCnt : Nat} (h : maxCnt < 4294967296) :
    (fresh memory samplesPerFrame maxCnt).Valid := ⟨CircBuf.valid_create memory h, rfl⟩

def circStep (fuel : Nat) (cb : CircBuf α) (op : Op α) : Option (CircBuf α) := (cb.call fuel op).map Prod.snd

/-! The size of the buffer. -/

/-- WSOLA leaves the circular buffer valid. -/
def Shrinks (shrink : CircBuf α → CircBuf α) : Prop :=
  ∀ cb, cb.Valid → (shrink cb).Valid ∧ (shrink cb).capacity = cb.capacity

theorem shrinks_id : Shrinks (id : CircBuf α → CircBuf α) := fun _ h => ⟨h, rfl⟩

/-- A frame is put, with WSOLA or without, or the circular buffer is changed in another way and stays valid. -/
inductive Reaches (b₀ : DelayBuf α) : DelayBuf α → Prop
  | created : Reaches b₀ b₀
  | put {b : DelayBuf α} {shrink : CircBuf α → CircBuf α} {frame : List α} (h : Reaches b₀ b) (hshrink : Shrinks shrink)
      (hframe : frame.length = b.samplesPerFrame) : Reaches b₀ (b.put shrink frame)
  | change {b : DelayBuf α} {cb : CircBuf α} (h : Reaches b₀ b) (hvalid : cb.Valid)
      (hcapacity : cb.capacity = b.circBuf.capacity) : Reaches b₀ { b with circBuf := cb }

/-- The buffer is created with room for a frame, and every later put stores its whole frame. -/
def RoomForFrames (memory : Nat → BitVec 16) (clockRate samplesPerFrame channelCount maxDelay : Nat) : Prop :=
  ∃ b₀, create memory clockRate samplesPerFrame channelCount maxDelay = some b₀ ∧ b₀.samplesPerFrame ≤ b₀.maxCnt ∧
    ∀ b, Reaches b₀ b → ∀ shrink (frame : List (BitVec 16)), Shrinks shrink → frame.length = b.samplesPerFrame →
      ∃ kept, (b.put shrink frame).circBuf.content = kept ++ frame

theorem put_stores {b : DelayBuf α} (h : b.Valid) (hfits : b.samplesPerFrame ≤ b.maxCnt)
    (hsum : b.maxCnt + b.samplesPerFrame < 4294967296) {shrink : CircBuf α → CircBuf α} (hshrink : Shrinks shrink)
    {frame : List α} (hframe : frame.length = b.samplesPerFrame) :
    (b.put shrink frame).Valid ∧ ∃ kept, (b.put shrink frame).circBuf.content = kept ++ frame := by
  obtain ⟨hvalid, hcapacity⟩ := h
  rw [put]
  by_cases hfull : b.maxCnt < (b.circBuf.len + b.samplesPerFrame) % 4294967296
  · obtain ⟨hshrunk, hcap⟩ := hshrink _ hvalid
    have hlen := hshrunk.fits
    have hdropped := content_dropped hshrunk frame (by omega) (by omega)
    rw [hframe, hcap, hcapacity] at hdropped
    dsimp only at hdropped ⊢
    rw [if_pos hfull]
    exact ⟨⟨hdropped.1, hdropped.2.1⟩, _, hdropped.2.2⟩
  · have hlen := hvalid.fits
    have hdropped := content_dropped hvalid frame (by omega) (by omega)
    rw [hframe, hcapacity] at hdropped
    dsimp only at hdropped ⊢
    rw [if_neg hfull] at hdropped ⊢
    exact ⟨⟨hdropped.1, hdropped.2.1⟩, _, hdropped.2.2⟩

theorem Reaches.valid {b₀ b : DelayBuf α} (hreaches : Reaches b₀ b) (h : b₀.Valid)
    (hfits : b₀.samplesPerFrame ≤ b₀.maxCnt) (hsum : b₀.maxCnt + b₀.samplesPerFrame < 4294967296) :
    b.Valid ∧ b.samplesPerFrame = b₀.samplesPerFrame ∧ b.maxCnt = b₀.maxCnt := by
  induction hreaches with
  | created => exact ⟨h, rfl, rfl⟩
  | put _ hshrink hframe ih =>
    obtain ⟨hvalid, hspf, hmax⟩ := ih
    exact ⟨(put_stores hvalid (by omega) (by omega) hshrink hframe).1, hspf, hmax⟩
  | change _ hvalid hcapacity ih =>
    obtain ⟨hold, hspf, hmax⟩ := ih
    exact ⟨⟨hvalid, hcapacity.trans hold.capacity⟩, hspf, hmax⟩

/-- Frames are put until the sum of the length and the size of a frame is too large, or the buffer is full. -/
theorem reaches_full {b₀ : DelayBuf α} (silence : α) (h : b₀.Valid) (hempty : b₀.circBuf.len = 0)
    (hfits : b₀.samplesPerFrame ≤ b₀.maxCnt) (n : Nat) : ∃ b, Reaches b₀ b ∧ b.Valid ∧
      b.samplesPerFrame = b₀.samplesPerFrame ∧ b.maxCnt = b₀.maxCnt ∧
      (4294967296 ≤ b.circBuf.len + b.samplesPerFrame ∨ b.circBuf.len = min (n * b.samplesPerFrame) b.maxCnt) := by
  induction n with
  | zero => exact ⟨b₀, .created, h, rfl, rfl, Or.inr (by omega)⟩
  | succ n ih =>
    obtain ⟨b, hreaches, hvalid, hspf, hmax, hlen⟩ := ih
    by_cases hsum : 4294967296 ≤ b.circBuf.len + b.samplesPerFrame
    · exact ⟨b, hreaches, hvalid, hspf, hmax, Or.inl hsum⟩
    · have hframe : (List.replicate b.samplesPerFrame silence).length = b.samplesPerFrame := List.length_replicate
      obtain ⟨hnext, hcontent⟩ := put_id hvalid (by omega) (by omega) hframe
      refine ⟨_, hreaches.put shrinks_id hframe, hnext, hspf, hmax, Or.inr ?_⟩
      have hlength := congrArg List.length hcontent
      rw [CircBuf.length_content, List.length_append, List.length_drop, CircBuf.length_content, hframe] at hlength
      have hsame : (b.put id (List.replicate b.samplesPerFrame silence)).samplesPerFrame = b.samplesPerFrame ∧
          (b.put id (List.replicate b.samplesPerFrame silence)).maxCnt = b.maxCnt := ⟨rfl, rfl⟩
      rw [hlength, hsame.1, hsame.2, Nat.succ_mul]
      omega

theorem put_lost {b : DelayBuf α} (h : b.Valid) (hsum : 4294967296 ≤ b.circBuf.len + b.samplesPerFrame)
    (hfits : b.samplesPerFrame ≤ b.maxCnt) {frame : List α} (hframe : frame.length = b.samplesPerFrame) :
    (b.put id frame).circBuf.content = b.circBuf.content := by
  obtain ⟨hvalid, hcapacity⟩ := h
  have hlen := hvalid.fits
  have hsize := hvalid.size
  have hnot : ¬ b.maxCnt < (b.circBuf.len + b.samplesPerFrame) % 4294967296 := by omega
  rw [put]
  dsimp only
  rw [if_neg hnot, CircBuf.write_eq _ hvalid, if_neg (by rw [CircBuf.length_content]; omega)]

end DelayBuf

end PjProject
