import PjProject.FifoBufSafety

/-! When the FIFO buffer serves a request. `pj_fifobuf_available_size` and `pj_fifobuf_alloc` look at the
free gaps of the buffer each on its own, and in every layout they mean the same largest gap. They differ
where the size of the block with its header is no `unsigned` value: the sum wraps to less than a header,
and the buffer hands out that little for a request it can never hold. -/

namespace PjProject.FifoBuf

/-- The longest run of bytes in front of, between or behind the used parts. -/
def largestGap (f : Fifobuf) : Nat :=
  if f.ubegin ≤ f.uend then max (f.last - f.uend) (f.ubegin - f.first) else f.ubegin - f.uend

/-- The request is served when and only when its size is available, and changes nothing when it is not. -/
def Exact (s : State) (size : Nat) : Prop :=
  ((fifobufAlloc s.buf s.mem size).1.isSome ↔ size ≤ fifobufAvailableSize s.buf) ∧
    ((fifobufAlloc s.buf s.mem size).1 = none → (fifobufAlloc s.buf s.mem size).2 = (s.buf, s.mem))

/-- A request whose size wraps with its header meets a buffer that has not even the wrapped size left. -/
def Unwrapped (s : State) : Action → Prop
  | .alloc size => size + headerSize < wordSize ∨ s.buf.full = true ∨ largestGap s.buf < size + headerSize - wordSize
  | _ => True

theorem availableSize_of_full {f : Fifobuf} (hfull : f.full = true) : fifobufAvailableSize f = 0 := by
  unfold fifobufAvailableSize
  rw [if_pos hfull]

theorem availableSize_eq_largestGap {f : Fifobuf} (hnot : f.full = false) :
    fifobufAvailableSize f = largestGap f - headerSize := by
  have hpos : 0 < headerSize := by decide
  unfold fifobufAvailableSize largestGap
  rw [if_neg (by rw [hnot]; exact Bool.false_ne_true)]
  split
  · -- a gap of at most a header's size is passed over for the other one
    simp only
    generalize f.last - f.uend = s1
    generalize f.ubegin - f.first = s2
    split
    · split <;> omega
    split
    · split <;> omega
    split <;> split <;> omega
  · simp only
    split <;> omega

theorem blockSize_of_wraps {size : Nat} (hsize : size < wordSize) (hwraps : wordSize ≤ size + headerSize) :
    blockSize size = size + headerSize - wordSize := by
  have hless : headerSize < wordSize := by decide
  rw [blockSize, Nat.mod_eq_sub_mod hwraps]
  exact Nat.mod_eq_of_lt (by omega)

theorem Layout.allocPlace_isSome {f : Fifobuf} {live : List Interval} (h : Layout f live) (hnot : f.full = false)
    (size : Nat) : (FifoBuf.allocPlace f size).isSome ↔ blockSize size ≤ largestGap f := by
  rw [FifoBuf.allocPlace, if_neg (by rw [hnot]; exact Bool.false_ne_true), Option.isSome_or, Bool.or_eq_true,
    FifoBuf.allocTail, FifoBuf.allocFront, Option.isSome_ite, Option.isSome_ite, largestGap]
  cases h with
  | linear hfirst hused hend hfull hempty =>
    rw [hfull, decide_eq_false_iff_not] at hnot
    have hle := hused.le
    rw [if_pos hle, le_max_iff, and_iff_right hle]
    by_cases heq : f.uend = f.ubegin
    · -- with no live block the tail is the whole buffer
      have hnil : live = [] := by
        by_contra hne
        exact absurd (hused.lt_of_ne_nil hne) (by omega)
      have hbegin := hempty hnil
      rw [if_pos heq.le]
      omega
    · rw [if_neg (by omega)]
  | wrapped _ _ _ _ _ hle _ _ hfull =>
    rw [hfull, decide_eq_false_iff_not] at hnot
    rw [if_pos hle, if_neg (by omega)]
    omega

theorem alloc_isSome (f : Fifobuf) (mem : Memory) (size : Nat) :
    (fifobufAlloc f mem size).1.isSome = (allocPlace f size).isSome := by
  unfold fifobufAlloc
  cases allocPlace f size with
  | none => rfl
  | some place => rfl

theorem alloc_eq_of_none {f : Fifobuf} {mem : Memory} {size : Nat} (h : (fifobufAlloc f mem size).1 = none) :
    (fifobufAlloc f mem size).2 = (f, mem) := by
  unfold fifobufAlloc at h ⊢
  cases hplace : allocPlace f size with
  | none => rfl
  | some place =>
    rw [hplace] at h
    cases h

theorem Inv.exact_iff {s : State} (h : Inv s) {size : Nat} (hpos : 1 ≤ size) (hsize : size < wordSize) :
    Exact s size ↔ Unwrapped s (.alloc size) := by
  rw [Exact, and_iff_left alloc_eq_of_none, alloc_isSome, Unwrapped]
  by_cases hfull : s.buf.full = true
  · rw [availableSize_of_full hfull, allocPlace, if_pos hfull, Option.isSome_none]
    refine iff_of_true (iff_of_false Bool.false_ne_true (by omega)) (.inr (.inl hfull))
  rw [Bool.not_eq_true] at hfull
  have hgap := h.layout.allocPlace_isSome hfull size
  rw [hgap, availableSize_eq_largestGap hfull]
  by_cases hfit : size + headerSize < wordSize
  · have hblock : blockSize size = size + headerSize := Nat.mod_eq_of_lt hfit
    rw [hblock]
    refine iff_of_true ?_ (.inl hfit)
    omega
  · -- no gap holds a request that large, header or not
    have hless : largestGap s.buf < wordSize := by
      have hlast := h.last_lt
      have hbegin : s.buf.ubegin ≤ s.buf.last := by
        cases h.layout with
        | linear _ hused hend =>
          have hle := hused.le
          omega
        | wrapped _ _ _ _ _ _ hlt => exact hlt.le
      unfold largestGap
      split <;> omega
    have hblock := blockSize_of_wraps hsize (Nat.le_of_not_lt hfit)
    have hfalse : ¬ size ≤ largestGap s.buf - headerSize := by omega
    rw [hblock, hfull, iff_false_right hfalse, not_le, or_iff_right hfit, or_iff_right Bool.false_ne_true]

/-- A step whose request does not get a wrapped block keeps the layout. -/
theorem Inv.step_of_unwrapped {s t : State} {a : Action} (h : Inv s) (hcond : Unwrapped s a)
    (hs : FifoBuf.step s a = some t) : Inv t := by
  cases a with
  | alloc size =>
    by_cases hfit : size + headerSize < wordSize
    · exact (Inv.step h (a := .alloc size) hfit hs).1
    have hplace : allocPlace s.buf size = none := by
      simp only [FifoBuf.step, Option.ite_none_right_eq_some] at hs
      by_cases hfull : s.buf.full = true
      · rw [allocPlace, if_pos hfull]
      · rw [Bool.not_eq_true] at hfull
        rw [← Option.not_isSome_iff_eq_none, h.layout.allocPlace_isSome hfull,
          blockSize_of_wraps hs.1 (Nat.le_of_not_lt hfit), not_le]
        rcases hcond with hcond | hcond | hcond
        · exact absurd hcond hfit
        · exact absurd (hfull.symm.trans hcond) Bool.false_ne_true
        · exact hcond
    simp only [FifoBuf.step, fifobufAlloc, hplace, Option.ite_none_right_eq_some, Option.some.injEq] at hs
    rw [← hs.2]
    exact h
  | free => exact (Inv.step h (a := .free) trivial hs).1
  | write addr byte => exact (Inv.step h (a := .write addr byte) trivial hs).1

/-- After every run of requests none of which gets a wrapped block, of releases in allocation order and of
writes, a request is served exactly when its size is available, unless it gets a wrapped block. -/
theorem exact_iff_of_run {buffer size : Nat} {mem : Memory} (hlast : buffer + size < wordSize)
    {acts : List Action} (hmeets : Meets step Unwrapped (start buffer size mem) acts) {s : State}
    (hrun : exec step (start buffer size mem) acts = some s) {n : Nat} (hpos : 1 ≤ n) (hn : n < wordSize) :
    Exact s n ↔ Unwrapped s (.alloc n) := by
  have hinv : Inv s := exec_invariant_of_meets (fun _ _ _ h hcond hs => h.step_of_unwrapped hcond hs)
    (Inv.start hlast mem) hmeets hrun
  exact hinv.exact_iff hpos hn

instance (s : State) : DecidablePred (Unwrapped s)
  | .alloc _ => inferInstanceAs (Decidable (_ ∨ _ ∨ _))
  | .free => .isTrue trivial
  | .write _ _ => .isTrue trivial

/-- A buffer of 20 bytes whose larger gap is the one in front of the used part. -/
theorem exact_of_front_gap : ∃ s,
    exec step (start 4096 20 0) [.alloc 2, .alloc 4, .free, .alloc 1] = some s ∧
      fifobufAvailableSize s.buf = 2 ∧ Exact s 2 := by
  have hsome := Option.some_get (x := exec step (start 4096 20 0) [.alloc 2, .alloc 4, .free, .alloc 1]) (by decide)
  refine ⟨_, hsome.symm, by decide, ?_⟩
  exact (exact_iff_of_run (by decide) (by decide) hsome.symm (by decide) (by decide)).mpr (by decide)

/-- A fresh buffer of 20 bytes has 16 available and serves a request of 4294967295. -/
theorem served_beyond_available : (fifobufAlloc (start 4096 20 0).buf 0 4294967295).1 = some 4100 ∧
    fifobufAvailableSize (start 4096 20 0).buf = 16 ∧ ¬Exact (start 4096 20 0) 4294967295 := by
  refine ⟨by decide, by decide, fun h => ?_⟩
  exact absurd (h.1.mp (by decide)) (by decide)

end PjProject.FifoBuf
