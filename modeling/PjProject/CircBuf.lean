import PjProject.Circular
import PjProject.Runs
import Mathlib.Data.List.GetD
import Mathlib.Tactic.SplitIfs

/-! The circular buffer (`circbuf.h`). A pointer into the buffer is an offset from `buf`, and a sum of two counts is one of
32 bits. What the buffer holds is a list of samples, and the operations are those of a bounded queue. -/

namespace PjProject

/-- `pjmedia_circ_buf`; `start` is an offset. -/
structure CircBuf (α : Type) where
  buf : Nat → α
  capacity : Nat
  start : Nat
  len : Nat

namespace CircBuf

variable {α : Type}

inductive Status
  | success
  | tooBig
  deriving DecidableEq

/-- What a function returns: its status, and the samples that it has copied to its caller. -/
structure Result (α : Type) where
  status : Status
  data : List α

/-- `n` samples from an offset on. -/
def samples (buf : Nat → α) (offset n : Nat) : List α := (List.range n).map fun i => buf (offset + i)

/-- `pjmedia_copy_samples` into the buffer. -/
def store (buf : Nat → α) (offset : Nat) (data : List α) : Nat → α := fun p =>
  if p < offset then buf p else data.getD (p - offset) (buf p)

/-- `pjmedia_move_samples` and `pjmedia_copy_samples` inside the buffer. -/
def move (buf : Nat → α) (dst src n : Nat) : Nat → α := store buf dst (samples buf src n)

/-- `pjmedia_circ_buf_create`; the samples are those of the memory. -/
def create (memory : Nat → α) (capacity : Nat) : CircBuf α := ⟨memory, capacity, 0, 0⟩

def reset (cb : CircBuf α) : CircBuf α := { cb with start := 0, len := 0 }

def advReadPtr (cb : CircBuf α) (count : Nat) : CircBuf α :=
  if cb.len ≤ count then cb.reset
  else
    let start := cb.start + count
    { cb with start := if cb.capacity ≤ start then start - cb.capacity else start, len := cb.len - count }

def advWritePtr (cb : CircBuf α) (count : Nat) : Result α × CircBuf α :=
  if cb.capacity < (count + cb.len) % 4294967296 then (⟨.tooBig, []⟩, cb)
  else (⟨.success, []⟩, { cb with len := cb.len + count })

/-- The regions that have samples: `reg1`, `reg1_len` and `reg2_len`, where `reg2` is the start of the buffer. -/
def readRegions (cb : CircBuf α) : Nat × Nat × Nat :=
  if cb.capacity < cb.start + cb.len then
    (cb.start, cb.capacity - cb.start, cb.len - (cb.capacity - cb.start))
  else (cb.start, cb.len, 0)

def writeRegions (cb : CircBuf α) : Nat × Nat × Nat :=
  let reg1 := if cb.capacity ≤ cb.start + cb.len then cb.start + cb.len - cb.capacity else cb.start + cb.len
  let reg1Len := cb.capacity - cb.len
  if cb.capacity < reg1 + reg1Len then (reg1, cb.capacity - reg1, cb.start) else (reg1, reg1Len, 0)

def read (cb : CircBuf α) (count : Nat) : Result α × CircBuf α :=
  if cb.len < count then (⟨.tooBig, []⟩, cb)
  else
    let (reg1, reg1cnt, _) := cb.readRegions
    let data :=
      if count ≤ reg1cnt then samples cb.buf reg1 count
      else samples cb.buf reg1 reg1cnt ++ samples cb.buf 0 (count - reg1cnt)
    (⟨.success, data⟩, cb.advReadPtr count)

/-- The buffer with the samples that `pjmedia_circ_buf_write` copies. -/
def stored (cb : CircBuf α) (data : List α) : Nat → α :=
  let (reg1, reg1cnt, _) := cb.writeRegions
  if data.length ≤ reg1cnt then store cb.buf reg1 data
  else store (store cb.buf reg1 (data.take reg1cnt)) 0 (data.drop reg1cnt)

def write (cb : CircBuf α) (data : List α) : Result α × CircBuf α :=
  if cb.capacity - cb.len < data.length then (⟨.tooBig, []⟩, cb)
  else { cb with buf := cb.stored data }.advWritePtr data.length

def copy (cb : CircBuf α) (startIdx count : Nat) : Result α :=
  if cb.len < (count + startIdx) % 4294967296 then ⟨.tooBig, []⟩
  else
    let (reg1, reg1cnt, _) := cb.readRegions
    if startIdx < reg1cnt then
      let tmpLen := min (reg1cnt - startIdx) count
      ⟨.success, samples cb.buf (reg1 + startIdx) tmpLen ++
        if tmpLen < count then samples cb.buf 0 (count - tmpLen) else []⟩
    else ⟨.success, samples cb.buf (startIdx - reg1cnt) count⟩

/-- `do { … } while (reg2cnt > 0)` of `pjmedia_circ_buf_pack_buffer`: the buffer and `reg1` behind it. -/
def roll : Nat → (Nat → α) → Nat → Nat → Nat → Nat → Option ((Nat → α) × Nat)
  | 0, _, _, _, _, _ => none
  | fuel + 1, buf, reg1, reg1cnt, reg2cnt, gap =>
    let gap := if reg2cnt < gap then reg2cnt else gap
    let buf := move buf (reg1 - gap) reg1 reg1cnt
    let buf := move buf (reg1 + reg1cnt - gap) 0 gap
    let buf := if gap < reg2cnt then move buf 0 gap (reg2cnt - gap) else buf
    if 0 < reg2cnt - gap then roll fuel buf (reg1 - gap) (reg1cnt + gap) (reg2cnt - gap) gap
    else some (buf, reg1 - gap)

/-- `pjmedia_circ_buf_pack_buffer`; `none` where the loop runs out of fuel. -/
def packBuffer (fuel : Nat) (cb : CircBuf α) : Option (Result α × CircBuf α) :=
  let (reg1, reg1cnt, reg2cnt) := cb.readRegions
  let shift (rolled : (Nat → α) × Nat) : CircBuf α :=
    { cb with buf := if rolled.2 ≠ 0 then move rolled.1 0 rolled.2 cb.len else rolled.1, start := 0 }
  if reg2cnt ≠ 0 then
    let gap := cb.capacity - cb.len
    if gap = 0 then some (⟨.tooBig, []⟩, cb)
    else (roll fuel cb.buf reg1 reg1cnt reg2cnt gap).map fun rolled => (⟨.success, []⟩, shift rolled)
  else some (⟨.success, []⟩, shift (cb.buf, reg1))

inductive Op (α : Type)
  | write (data : List α)
  | read (count : Nat)
  | copy (startIdx count : Nat)
  | advReadPtr (count : Nat)
  | advWritePtr (count : Nat)
  | packBuffer
  | reset

def call (fuel : Nat) (cb : CircBuf α) : Op α → Option (Result α × CircBuf α)
  | .write data => some (cb.write data)
  | .read count => some (cb.read count)
  | .copy startIdx count => some (cb.copy startIdx count, cb)
  | .advReadPtr count => some (⟨.success, []⟩, cb.advReadPtr count)
  | .advWritePtr count => some (cb.advWritePtr count)
  | .packBuffer => cb.packBuffer fuel
  | .reset => some (⟨.success, []⟩, cb.reset)

/-- The samples of the buffer, the oldest one first. -/
def content (cb : CircBuf α) : List α := (List.range cb.len).map (Circular.view cb.buf cb.capacity cb.start)

def Sums (cb : CircBuf α) : Op α → Prop
  | .copy startIdx count => count + startIdx < 4294967296
  | .advWritePtr count => count + cb.len < 4294967296
  | _ => True

/-- A queue of at most `capacity` samples: what an operation returns, and the queue after it. -/
def Queues (capacity : Nat) (l : List α) (r : Result α) (next : List α) : Op α → Prop
  | .write data =>
    if l.length + data.length ≤ capacity then r = ⟨.success, []⟩ ∧ next = l ++ data else r = ⟨.tooBig, []⟩ ∧ next = l
  | .read count =>
    if count ≤ l.length then r = ⟨.success, l.take count⟩ ∧ next = l.drop count else r = ⟨.tooBig, []⟩ ∧ next = l
  | .copy startIdx count =>
    (r = if startIdx + count ≤ l.length then ⟨.success, (l.drop startIdx).take count⟩ else ⟨.tooBig, []⟩) ∧ next = l
  | .advReadPtr count => r = ⟨.success, []⟩ ∧ next = l.drop count
  | .advWritePtr count =>
    if l.length + count ≤ capacity then r = ⟨.success, []⟩ ∧ ∃ more, more.length = count ∧ next = l ++ more
    else r = ⟨.tooBig, []⟩ ∧ next = l
  | .packBuffer => next = l
  | .reset => r = ⟨.success, []⟩ ∧ next = []

/-- The region starts in the buffer, and does not overlap itself. -/
structure Valid (cb : CircBuf α) : Prop where
  fits : cb.len ≤ cb.capacity
  inside : cb.start < cb.capacity ∨ cb.start = 0
  size : cb.capacity < 4294967296

@[simp] theorem length_content (cb : CircBuf α) : cb.content.length = cb.len := by
  rw [content, List.length_map, List.length_range]

@[simp] theorem length_samples (buf : Nat → α) (offset n : Nat) : (samples buf offset n).length = n := by
  rw [samples, List.length_map, List.length_range]

theorem samples_congr {buf buf' : Nat → α} {offset offset' n : Nat}
    (h : ∀ i < n, buf (offset + i) = buf' (offset' + i)) : samples buf offset n = samples buf' offset' n :=
  List.map_congr_left fun i hi => h i (List.mem_range.mp hi)

theorem samples_add (buf : Nat → α) (offset m n : Nat) :
    samples buf offset (m + n) = samples buf offset m ++ samples buf (offset + m) n := by
  rw [samples, List.range_add, List.map_append, List.map_map, samples, samples]
  congr 1
  apply List.map_congr_left
  intro i _
  rw [Function.comp_apply, Nat.add_assoc]

theorem samples_take {offset m n : Nat} (buf : Nat → α) (h : m ≤ n) :
    (samples buf offset n).take m = samples buf offset m := by
  obtain ⟨k, rfl⟩ := Nat.exists_eq_add_of_le h
  rw [samples_add, List.take_left' (length_samples _ _ _)]

theorem samples_drop {offset m n : Nat} (buf : Nat → α) :
    (samples buf offset n).drop m = samples buf (offset + m) (n - m) := by
  by_cases h : m ≤ n
  · obtain ⟨k, rfl⟩ := Nat.exists_eq_add_of_le h
    rw [samples_add, List.drop_left' (length_samples _ _ _), Nat.add_sub_cancel_left]
  · rw [List.drop_eq_nil_of_le (by rw [length_samples]; omega), Nat.sub_eq_zero_of_le (by omega)]
    rfl

theorem store_outside {buf : Nat → α} {offset p : Nat} {data : List α} (h : p < offset ∨ offset + data.length ≤ p) :
    store buf offset data p = buf p := by
  rw [store]
  split
  · rfl
  · rw [List.getD_eq_default _ _ (by omega)]

theorem store_inside (buf : Nat → α) (offset : Nat) {i : Nat} {data : List α} (h : i < data.length) :
    store buf offset data (offset + i) = data[i] := by
  rw [store, if_neg (by omega), Nat.add_sub_cancel_left, List.getD_eq_getElem _ _ h]

theorem samples_store_inside (buf : Nat → α) (offset : Nat) (data : List α) :
    samples (store buf offset data) offset data.length = data := by
  apply List.ext_getElem (length_samples _ _ _)
  intro i _ hi
  simp only [samples, List.getElem_map, List.getElem_range]
  exact store_inside buf offset hi

theorem samples_move_outside {buf : Nat → α} {dst src m at' n : Nat} (h : at' + n ≤ dst ∨ dst + m ≤ at') :
    samples (move buf dst src m) at' n = samples buf at' n :=
  samples_congr fun i hi => store_outside (by rw [length_samples]; omega)

theorem samples_move_inside (buf : Nat → α) (dst src n : Nat) :
    samples (move buf dst src n) dst n = samples buf src n := by
  have hstored := samples_store_inside buf dst (samples buf src n)
  rwa [length_samples] at hstored

theorem content_eq {cb : CircBuf α} (h : cb.Valid) :
    cb.content = samples cb.buf cb.readRegions.1 cb.readRegions.2.1 ++ samples cb.buf 0 cb.readRegions.2.2 := by
  have hfits := h.fits
  have hinside := h.inside
  have hview {i : Nat} (hi : cb.start + i < cb.capacity) :
      Circular.view cb.buf cb.capacity cb.start i = cb.buf (cb.start + i) := by
    rw [Circular.view, Nat.mod_eq_of_lt hi]
  rw [readRegions]
  split
  · obtain ⟨k, hk⟩ : ∃ k, cb.len = cb.capacity - cb.start + k := ⟨cb.len - (cb.capacity - cb.start), by omega⟩
    rw [content, hk, List.range_add, List.map_append, List.map_map]
    congr 1
    · exact List.map_congr_left fun i hi => hview (by rw [List.mem_range] at hi; omega)
    · rw [Nat.add_sub_cancel_left]
      apply List.map_congr_left
      intro i hi
      rw [List.mem_range] at hi
      rw [Function.comp_apply, Circular.view, Nat.mod_eq_sub_mod (by omega), Nat.mod_eq_of_lt (by omega)]
      congr 1
      omega
  · rw [content, samples, samples, List.range_zero, List.map_nil, List.append_nil]
    exact List.map_congr_left fun i hi => hview (by rw [List.mem_range] at hi; omega)

theorem content_append {buf : Nat → α} {capacity start len n : Nat} :
    content ⟨buf, capacity, start, len + n⟩ =
      content ⟨buf, capacity, start, len⟩ ++ (List.range n).map fun i => Circular.view buf capacity start (len + i) := by
  rw [content, List.range_add, List.map_append, List.map_map]
  rfl

section Operations

variable {cb : CircBuf α}

theorem valid_create (memory : Nat → α) {capacity : Nat} (h : capacity < 4294967296) : (create memory capacity).Valid :=
  ⟨Nat.zero_le _, Or.inr rfl, h⟩

theorem Valid.reset (h : cb.Valid) : cb.reset.Valid := ⟨Nat.zero_le _, Or.inr rfl, h.size⟩

theorem Valid.advReadPtr (h : cb.Valid) (count : Nat) : (cb.advReadPtr count).Valid := by
  have hfits := h.fits
  have hinside := h.inside
  rw [CircBuf.advReadPtr]
  split
  · exact h.reset
  · refine ⟨by dsimp only; omega, ?_, h.size⟩
    dsimp only
    split <;> omega

theorem capacity_advReadPtr (cb : CircBuf α) (count : Nat) : (cb.advReadPtr count).capacity = cb.capacity := by
  rw [CircBuf.advReadPtr]
  split <;> rfl

theorem content_advReadPtr (h : cb.Valid) (count : Nat) : (cb.advReadPtr count).content = cb.content.drop count := by
  have hfits := h.fits
  have hinside := h.inside
  rw [CircBuf.advReadPtr]
  by_cases hall : cb.len ≤ count
  · rw [if_pos hall, List.drop_eq_nil_of_le (by rw [length_content]; exact hall)]
    rfl
  · have hstart : (if cb.capacity ≤ cb.start + count then cb.start + count - cb.capacity else cb.start + count) =
        (cb.start + count) % cb.capacity := by
      split
      · rw [Nat.mod_eq_sub_mod (by omega), Nat.mod_eq_of_lt (by omega)]
      · rw [Nat.mod_eq_of_lt (by omega)]
    rw [if_neg hall]
    dsimp only
    rw [hstart, content, content, ← List.map_drop]
    apply List.ext_getElem
    · simp only [List.length_map, List.length_range, List.length_drop]
    · intro i _ _
      rw [List.getElem_map, List.getElem_map, List.getElem_drop, List.getElem_range, List.getElem_range]
      exact Circular.view_advance

theorem read_eq (h : cb.Valid) (count : Nat) : cb.read count =
    if count ≤ cb.content.length then (⟨.success, cb.content.take count⟩, cb.advReadPtr count)
    else (⟨.tooBig, []⟩, cb) := by
  rw [read, length_content]
  by_cases hcount : cb.len < count
  · rw [if_pos hcount, if_neg (by omega)]
  · rw [if_neg hcount, if_pos (by omega), content_eq h]
    dsimp only
    by_cases hreg1 : count ≤ cb.readRegions.2.1
    · rw [if_pos hreg1, List.take_append_of_le_length (by rw [length_samples]; exact hreg1), samples_take _ hreg1]
    · have hlen : cb.readRegions.2.1 + cb.readRegions.2.2 = cb.len := by
        have hinside := h.inside
        rw [readRegions]
        split
        · dsimp only
          omega
        · rfl
      rw [if_neg hreg1, List.take_append, length_samples, List.take_of_length_le (by rw [length_samples]; omega),
        samples_take _ (by omega)]

theorem copy_eq (h : cb.Valid) {startIdx count : Nat} (hsum : count + startIdx < 4294967296) : cb.copy startIdx count =
    if startIdx + count ≤ cb.content.length then ⟨.success, (cb.content.drop startIdx).take count⟩ else ⟨.tooBig, []⟩ := by
  rw [copy, length_content, Nat.mod_eq_of_lt hsum]
  by_cases hcount : cb.len < count + startIdx
  · rw [if_pos hcount, if_neg (by omega)]
  · have hlen : cb.readRegions.2.1 + cb.readRegions.2.2 = cb.len := by
      have hinside := h.inside
      rw [readRegions]
      split
      · dsimp only
        omega
      · rfl
    rw [if_neg hcount, if_pos (by omega), content_eq h, List.drop_append, length_samples, samples_drop, samples_drop]
    generalize cb.readRegions = regions at hlen
    obtain ⟨reg1, reg1cnt, reg2cnt⟩ := regions
    dsimp only at hlen ⊢
    by_cases hreg1 : startIdx < reg1cnt
    · have hskip : startIdx - reg1cnt = 0 := by omega
      rw [if_pos hreg1, List.take_append, length_samples, hskip, Nat.sub_zero, Nat.add_zero]
      by_cases htmp : count ≤ reg1cnt - startIdx
      · have hrest : count - (reg1cnt - startIdx) = 0 := by omega
        rw [Nat.min_eq_right htmp, if_neg (lt_irrefl _), samples_take _ htmp, hrest, List.take_zero]
      · rw [Nat.min_eq_left (by omega), if_pos (by omega), List.take_of_length_le (by rw [length_samples]; omega),
          samples_take _ (by omega)]
    · have hskip : reg1cnt - startIdx = 0 := by omega
      have hempty : samples cb.buf (reg1 + startIdx) 0 = [] := rfl
      rw [if_neg hreg1, hskip, hempty, List.nil_append, samples_take _ (by omega), Nat.zero_add]

/-- Where the samples behind those of the buffer are stored. -/
theorem position_write (h : cb.Valid) {k : Nat} (hk : k < cb.capacity - cb.len) :
    (cb.start + (cb.len + k)) % cb.capacity =
      if k < cb.writeRegions.2.1 then cb.writeRegions.1 + k else k - cb.writeRegions.2.1 := by
  have hinside := h.inside
  have hposition : (cb.start + (cb.len + k)) % cb.capacity =
      if cb.start + (cb.len + k) < cb.capacity then cb.start + (cb.len + k) else cb.start + (cb.len + k) - cb.capacity := by
    split
    · rw [Nat.mod_eq_of_lt (by omega)]
    · rw [Nat.mod_eq_sub_mod (by omega), Nat.mod_eq_of_lt (by omega)]
  rw [hposition, writeRegions]
  split_ifs <;> (try dsimp only at *) <;> omega

theorem length_second (cb : CircBuf α) : cb.capacity - cb.len - cb.writeRegions.2.1 ≤ cb.writeRegions.1 := by
  rw [writeRegions]
  split_ifs <;> dsimp only <;> omega

theorem stored_new (h : cb.Valid) {data : List α} (hroom : data.length ≤ cb.capacity - cb.len) {k : Nat}
    (hk : k < data.length) : cb.stored data ((cb.start + (cb.len + k)) % cb.capacity) = data[k] := by
  have hsecond := length_second cb
  rw [position_write h (by omega), stored]
  generalize cb.writeRegions = regions at hsecond ⊢
  obtain ⟨reg1, reg1cnt, reg2cnt⟩ := regions
  dsimp only at hsecond ⊢
  by_cases hone : data.length ≤ reg1cnt
  · rw [if_pos hone, if_pos (by omega), store_inside _ _ hk]
  · rw [if_neg hone]
    by_cases hreg1 : k < reg1cnt
    · rw [if_pos hreg1, store_outside (by rw [List.length_drop]; omega),
        store_inside _ _ (by rw [List.length_take]; omega), List.getElem_take]
    · have hdrop : k - reg1cnt < (data.drop reg1cnt).length := by
        rw [List.length_drop]
        omega
      have hstored := store_inside (store cb.buf reg1 (data.take reg1cnt)) 0 hdrop
      rw [Nat.zero_add] at hstored
      rw [if_neg hreg1, hstored, List.getElem_drop]
      congr 1
      omega

theorem stored_old (h : cb.Valid) {data : List α} (hroom : data.length ≤ cb.capacity - cb.len) {i : Nat}
    (hi : i < cb.len) : cb.stored data ((cb.start + i) % cb.capacity) = cb.buf ((cb.start + i) % cb.capacity) := by
  have hfits := h.fits
  have hother {k : Nat} (hk : k < data.length) :
      (if k < cb.writeRegions.2.1 then cb.writeRegions.1 + k else k - cb.writeRegions.2.1) ≠ (cb.start + i) % cb.capacity := by
    intro heq
    rw [← position_write h (by omega)] at heq
    have := Circular.offset_injective (by omega) (by omega) heq
    omega
  generalize (cb.start + i) % cb.capacity = p at hother ⊢
  rw [stored]
  generalize cb.writeRegions = regions at hother ⊢
  obtain ⟨reg1, reg1cnt, reg2cnt⟩ := regions
  dsimp only at hother ⊢
  have hfirst : p < reg1 ∨ reg1 + min reg1cnt data.length ≤ p := by
    by_contra hinside
    have := hother (k := p - reg1) (by omega)
    rw [if_pos (by omega)] at this
    omega
  by_cases hone : data.length ≤ reg1cnt
  · rw [if_pos hone, store_outside (by omega)]
  · have hrest : data.length - reg1cnt ≤ p := by
      by_contra hinside
      have := hother (k := reg1cnt + p) (by omega)
      rw [if_neg (by omega)] at this
      omega
    rw [if_neg hone, store_outside (by rw [List.length_drop]; omega), store_outside (by rw [List.length_take]; omega)]

theorem write_eq (cb : CircBuf α) (h : cb.Valid) (data : List α) : cb.write data =
    if cb.content.length + data.length ≤ cb.capacity then
      (⟨.success, []⟩, ⟨cb.stored data, cb.capacity, cb.start, cb.len + data.length⟩) else (⟨.tooBig, []⟩, cb) := by
  have hfits := h.fits
  have hsize := h.size
  rw [length_content, write]
  by_cases hroom : cb.capacity - cb.len < data.length
  · rw [if_pos hroom, if_neg (by omega)]
  · have hsum : ¬ cb.capacity < (data.length + cb.len) % 4294967296 := by
      rw [Nat.mod_eq_of_lt (by omega)]
      omega
    rw [if_neg hroom, if_pos (by omega), CircBuf.advWritePtr, if_neg hsum]

theorem content_stored (h : cb.Valid) {data : List α} (hroom : cb.len + data.length ≤ cb.capacity) :
    content ⟨cb.stored data, cb.capacity, cb.start, cb.len + data.length⟩ = cb.content ++ data := by
  rw [content_append]
  congr 1
  · apply List.map_congr_left
    intro i hi
    exact stored_old h (by omega) (List.mem_range.mp hi)
  · apply List.ext_getElem (by rw [List.length_map, List.length_range])
    intro k _ hk
    rw [List.getElem_map, List.getElem_range]
    exact stored_new h (by omega) hk

/-! Packing. -/

/-- A turn of the loop keeps the samples of the two regions in order, and moves the first one left. -/
theorem roll_step (buf : Nat → α) (reg1cnt : Nat) {reg1 reg2cnt gap : Nat} (hle : gap ≤ reg2cnt)
    (hgap : reg2cnt + gap ≤ reg1) :
    let first := move buf (reg1 - gap) reg1 reg1cnt
    let second := move first (reg1 + reg1cnt - gap) 0 gap
    let third := if gap < reg2cnt then move second 0 gap (reg2cnt - gap) else second
    samples third (reg1 - gap) (reg1cnt + gap) ++ samples third 0 (reg2cnt - gap) =
      samples buf reg1 reg1cnt ++ samples buf 0 reg2cnt := by
  intro first second third
  have hmoved : samples second (reg1 - gap) reg1cnt = samples buf reg1 reg1cnt :=
    (samples_move_outside (by omega)).trans (samples_move_inside buf _ _ _)
  have hleft {at' n : Nat} (hat : at' + n ≤ reg1 - gap) : samples second at' n = samples buf at' n :=
    (samples_move_outside (by omega)).trans (samples_move_outside (by omega))
  have hcopied : samples second (reg1 - gap + reg1cnt) gap = samples buf 0 gap := by
    have hcopy := samples_move_inside first (reg1 + reg1cnt - gap) 0 gap
    rw [show reg1 - gap + reg1cnt = reg1 + reg1cnt - gap by omega]
    exact hcopy.trans (samples_move_outside (by omega))
  have hsplit := samples_add buf 0 gap (reg2cnt - gap)
  rw [Nat.add_sub_cancel' hle, Nat.zero_add] at hsplit
  rw [hsplit, samples_add, List.append_assoc]
  by_cases hmore : gap < reg2cnt
  · have hthird : third = move second 0 gap (reg2cnt - gap) := if_pos hmore
    have hsame {at' n : Nat} (hat : reg2cnt - gap ≤ at') : samples third at' n = samples second at' n := by
      rw [hthird]
      exact samples_move_outside (by omega)
    have hrest : samples third 0 (reg2cnt - gap) = samples second gap (reg2cnt - gap) := by
      rw [hthird]
      exact samples_move_inside _ _ _ _
    rw [hsame (by omega), hsame (by omega), hrest, hmoved, hcopied, hleft (by omega)]
  · have hthird : third = second := if_neg hmore
    have hnone : reg2cnt - gap = 0 := by omega
    rw [hthird, hmoved, hcopied, hnone]
    rfl

/-- The loop ends when all samples are in one region. -/
theorem roll_eq (buf : Nat → α) (reg1cnt : Nat) {fuel reg1 reg2cnt gap : Nat} (hpos : 0 < reg2cnt) (hgap : 0 < gap)
    (hroom : reg2cnt + gap ≤ reg1) (hfuel : reg2cnt < fuel) :
    ∃ rolled, roll fuel buf reg1 reg1cnt reg2cnt gap = some rolled ∧
      samples rolled.1 rolled.2 (reg1cnt + reg2cnt) = samples buf reg1 reg1cnt ++ samples buf 0 reg2cnt := by
  induction fuel generalizing buf reg1 reg1cnt reg2cnt gap with
  | zero => cases hfuel
  | succ fuel ih =>
    obtain ⟨g, hg⟩ : ∃ g, g = if reg2cnt < gap then reg2cnt else gap := ⟨_, rfl⟩
    have hbounds : 0 < g ∧ g ≤ reg2cnt ∧ g ≤ gap := by
      rw [hg]
      split <;> omega
    have hstep := roll_step buf reg1cnt hbounds.2.1 (show reg2cnt + g ≤ reg1 by omega)
    rw [roll, ← hg]
    dsimp only at hstep ⊢
    rw [← hstep]
    by_cases hmore : 0 < reg2cnt - g
    · have hgap' : g = gap := by
        rw [hg] at hmore ⊢
        split at hmore
        · omega
        · rw [if_neg (by assumption)]
      rw [if_pos hmore]
      have hsum : reg1cnt + reg2cnt = reg1cnt + g + (reg2cnt - g) := by omega
      rw [hsum]
      exact ih _ _ hmore hbounds.1 (by omega) (by omega)
    · refine ⟨_, if_neg hmore, ?_⟩
      have hlast : reg2cnt = g := by omega
      rw [hlast, Nat.sub_self]
      exact (List.append_nil _).symm

theorem content_contiguous (buf : Nat → α) {capacity len : Nat} (h : len ≤ capacity) :
    content ⟨buf, capacity, 0, len⟩ = samples buf 0 len := by
  apply List.map_congr_left
  intro i hi
  have hlt : i < len := List.mem_range.mp hi
  have hmod : (0 + i) % capacity = 0 + i := Nat.mod_eq_of_lt (by omega)
  exact congrArg buf hmod

/-- The samples are packed, unless they are in two regions with no gap between them. -/
theorem packBuffer_eq (h : cb.Valid) {fuel : Nat} (hfuel : cb.capacity < fuel) :
    (cb.packBuffer fuel = some (⟨.tooBig, []⟩, cb)) ∨
      ∃ buf, cb.packBuffer fuel = some (⟨.success, []⟩, ⟨buf, cb.capacity, 0, cb.len⟩) ∧
        content ⟨buf, cb.capacity, 0, cb.len⟩ = cb.content := by
  have hfits := h.fits
  have hinside := h.inside
  have hshift {buf : Nat → α} {reg1 : Nat} (hreg : samples buf reg1 cb.len = cb.content) :
      content ⟨if reg1 ≠ 0 then move buf 0 reg1 cb.len else buf, cb.capacity, 0, cb.len⟩ = cb.content := by
    rw [content_contiguous _ hfits]
    by_cases hzero : reg1 = 0
    · rw [if_neg (not_not.mpr hzero), ← hreg, hzero]
    · rw [if_pos hzero, ← hreg]
      exact samples_move_inside buf 0 reg1 cb.len
  have hcontent := content_eq h
  rw [packBuffer]
  by_cases hwraps : cb.capacity < cb.start + cb.len
  · have hregions : cb.readRegions = (cb.start, cb.capacity - cb.start, cb.len - (cb.capacity - cb.start)) := if_pos hwraps
    rw [hregions] at hcontent ⊢
    dsimp only at hcontent ⊢
    rw [if_pos (by omega)]
    by_cases hfull : cb.capacity - cb.len = 0
    · exact .inl (if_pos hfull)
    · have hpos : 0 < cb.len - (cb.capacity - cb.start) := by omega
      have hgap : 0 < cb.capacity - cb.len := by omega
      have hroom : cb.len - (cb.capacity - cb.start) + (cb.capacity - cb.len) ≤ cb.start := by omega
      have hturns : cb.len - (cb.capacity - cb.start) < fuel := by omega
      have hcount : cb.capacity - cb.start + (cb.len - (cb.capacity - cb.start)) = cb.len := by omega
      obtain ⟨rolled, hroll, hsamples⟩ :=
        roll_eq cb.buf (cb.capacity - cb.start) hpos hgap hroom hturns
      rw [if_neg hfull, hroll]
      rw [← hcontent, hcount] at hsamples
      exact .inr ⟨_, rfl, hshift hsamples⟩
  · have hregions : cb.readRegions = (cb.start, cb.len, 0) := if_neg hwraps
    rw [hregions] at hcontent ⊢
    exact .inr ⟨_, rfl, hshift (hcontent.trans (List.append_nil _)).symm⟩

/-- An operation keeps the buffer valid and is the one of the queue; one that fails changes nothing. -/
theorem call_queues (h : cb.Valid) {fuel : Nat} (hfuel : cb.capacity < fuel) {op : Op α} (hsums : cb.Sums op) :
    ∃ r next, cb.call fuel op = some (r, next) ∧ next.Valid ∧ next.capacity = cb.capacity ∧
      Queues cb.capacity cb.content r next.content op ∧ (r.status ≠ .success → next = cb) ∧
      (op = .packBuffer → r.status = .success → next.start + next.len ≤ next.capacity) := by
  have hfits := h.fits
  cases op with
  | write data =>
    refine ⟨(cb.write data).1, (cb.write data).2, rfl, ?_⟩
    rw [write_eq cb h]
    by_cases hroom : cb.content.length + data.length ≤ cb.capacity
    · have hroom' := hroom
      rw [length_content] at hroom'
      rw [if_pos hroom]
      refine ⟨⟨hroom', h.inside, h.size⟩, rfl, ?_, fun hne => absurd rfl hne, nofun⟩
      rw [Queues, if_pos hroom]
      exact ⟨rfl, content_stored h hroom'⟩
    · rw [if_neg hroom]
      refine ⟨h, rfl, ?_, fun _ => rfl, nofun⟩
      rw [Queues, if_neg hroom]
      exact ⟨rfl, rfl⟩
  | read count =>
    refine ⟨(cb.read count).1, (cb.read count).2, rfl, ?_⟩
    rw [read_eq h]
    by_cases hcount : count ≤ cb.content.length
    · rw [if_pos hcount]
      refine ⟨h.advReadPtr count, capacity_advReadPtr cb count, ?_, fun hne => absurd rfl hne, nofun⟩
      rw [Queues, if_pos hcount]
      exact ⟨rfl, content_advReadPtr h count⟩
    · rw [if_neg hcount]
      refine ⟨h, rfl, ?_, fun _ => rfl, nofun⟩
      rw [Queues, if_neg hcount]
      exact ⟨rfl, rfl⟩
  | copy startIdx count => exact ⟨_, _, rfl, h, rfl, ⟨copy_eq h hsums, rfl⟩, fun _ => rfl, nofun⟩
  | advReadPtr count =>
    exact ⟨_, _, rfl, h.advReadPtr count, capacity_advReadPtr cb count, ⟨rfl, content_advReadPtr h count⟩,
      fun hne => absurd rfl hne, nofun⟩
  | advWritePtr count =>
    refine ⟨(cb.advWritePtr count).1, (cb.advWritePtr count).2, rfl, ?_⟩
    have hsum : (count + cb.len) % 4294967296 = count + cb.len := Nat.mod_eq_of_lt hsums
    rw [CircBuf.advWritePtr, hsum, Queues, length_content]
    by_cases hroom : cb.len + count ≤ cb.capacity
    · rw [if_neg (by omega), if_pos hroom]
      refine ⟨⟨hroom, h.inside, h.size⟩, rfl, ⟨rfl, _, ?_, content_append⟩, fun hne => absurd rfl hne, nofun⟩
      rw [List.length_map, List.length_range]
    · rw [if_pos (by omega), if_neg hroom]
      exact ⟨h, rfl, ⟨rfl, rfl⟩, fun _ => rfl, nofun⟩
  | packBuffer =>
    rcases packBuffer_eq h hfuel with hfull | ⟨buf, hpack, hcontent⟩
    · exact ⟨_, _, hfull, h, rfl, rfl, fun _ => rfl, fun _ hsuccess => Status.noConfusion hsuccess⟩
    · refine ⟨_, _, hpack, ⟨hfits, Or.inr rfl, h.size⟩, rfl, hcontent, fun hne => absurd rfl hne, fun _ _ => ?_⟩
      dsimp only
      omega
  | reset =>
    exact ⟨_, _, rfl, h.reset, rfl, ⟨rfl, rfl⟩, fun hne => absurd rfl hne, nofun⟩

end Operations

end CircBuf

end PjProject
