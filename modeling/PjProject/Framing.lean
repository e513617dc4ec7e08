import Mathlib.Data.List.Basic

/-! Streams of frames. A decoder takes one frame from the front of a list, and what it decodes does not
depend on what stands behind the frame. The frames of a stream are handed to a handler one after another
until it stops or the rest is no whole frame: a stream may come in pieces, where the rest of each piece
is put before the next one. -/

namespace PjProject

structure Decoder (α φ : Type*) where
  /-- The frame at the front of the list and its length. -/
  decode : List α → Option (φ × Nat)
  pos : ∀ {l f n}, decode l = some (f, n) → 0 < n
  le : ∀ {l f n}, decode l = some (f, n) → n ≤ l.length
  append : ∀ {l f n}, decode l = some (f, n) → ∀ more, decode (l ++ more) = some (f, n)

namespace Decoder

variable {α φ σ : Type*} (d : Decoder α φ) (handle : σ → φ → σ × Bool)

/-- Up to `turns` frames from the front of the list; the rest is `none` when the handler stopped. -/
def deliverUpTo : Nat → σ → List α → σ × Option (List α)
  | 0, s, l => (s, some l)
  | turns + 1, s, l =>
    match d.decode l with
    | none => (s, some l)
    | some (f, n) =>
      if (handle s f).2 then deliverUpTo turns (handle s f).1 (l.drop n) else ((handle s f).1, none)

def deliver (s : σ) (l : List α) : σ × Option (List α) := d.deliverUpTo handle l.length s l

variable {d handle}

theorem decode_nil : d.decode [] = none := by
  cases h : d.decode [] with
  | none => rfl
  | some x =>
    have hpos := d.pos h
    have hle := d.le h
    rw [List.length_nil] at hle
    omega

theorem deliverUpTo_nil (turns : Nat) (s : σ) : d.deliverUpTo handle turns s [] = (s, some []) := by
  cases turns with
  | zero => rfl
  | succ turns => simp only [deliverUpTo, decode_nil]

/-- A frame takes a byte or more, so any number of turns from the length of the list on is enough. -/
theorem deliverUpTo_eq {turns turns' : Nat} {s : σ} {l : List α} (h : l.length ≤ turns)
    (h' : l.length ≤ turns') : d.deliverUpTo handle turns s l = d.deliverUpTo handle turns' s l := by
  induction turns generalizing turns' s l with
  | zero =>
    rw [List.length_eq_zero_iff.mp (Nat.le_zero.mp h)]
    simp only [deliverUpTo_nil]
  | succ turns ih =>
    cases turns' with
    | zero =>
      rw [List.length_eq_zero_iff.mp (Nat.le_zero.mp h')]
      simp only [deliverUpTo_nil]
    | succ turns' =>
      cases hdecode : d.decode l with
      | none => simp only [deliverUpTo, hdecode]
      | some x =>
        have hpos := d.pos hdecode
        have hlen : (l.drop x.2).length = l.length - x.2 := List.length_drop
        simp only [deliverUpTo, hdecode]
        rw [ih (by omega) (by omega : (l.drop x.2).length ≤ turns')]

theorem deliver_of_none {s : σ} {l : List α} (h : d.decode l = none) : d.deliver handle s l = (s, some l) := by
  rw [deliver, deliverUpTo_eq (Nat.le_refl _) (Nat.le_succ l.length), deliverUpTo, h]

theorem deliver_of_some {s : σ} {l : List α} {f : φ} {n : Nat} (h : d.decode l = some (f, n)) :
    d.deliver handle s l =
      if (handle s f).2 then d.deliver handle (handle s f).1 (l.drop n) else ((handle s f).1, none) := by
  have hshort : (l.drop n).length ≤ l.length := by
    rw [List.length_drop]
    exact Nat.sub_le _ _
  rw [deliver, deliverUpTo_eq (Nat.le_refl _) (Nat.le_succ l.length), deliverUpTo, h]
  simp only [deliver, deliverUpTo_eq hshort (Nat.le_refl _)]

theorem frame_induction (d : Decoder α φ) {P : List α → Prop} (hnone : ∀ l, d.decode l = none → P l)
    (hsome : ∀ l f n, d.decode l = some (f, n) → P (l.drop n) → P l) (l : List α) : P l := by
  induction hlen : l.length using Nat.strongRecOn generalizing l with
  | ind len ih =>
    cases hdecode : d.decode l with
    | none => exact hnone l hdecode
    | some x =>
      have hpos := d.pos hdecode
      have hle := d.le hdecode
      refine hsome l x.1 x.2 hdecode (ih _ ?_ _ rfl)
      rw [List.length_drop]
      omega

theorem decode_rest {s t : σ} {l rest : List α} (h : d.deliver handle s l = (t, some rest)) :
    d.decode rest = none := by
  induction l using d.frame_induction generalizing s with
  | hnone l hdecode =>
    rw [deliver_of_none hdecode] at h
    cases h
    exact hdecode
  | hsome l f n hdecode ih =>
    rw [deliver_of_some hdecode] at h
    split at h
    · exact ih h
    · cases h

/-- A stream in two pieces: what is left of the first goes before the second. -/
theorem deliver_append (s : σ) (l more : List α) :
    d.deliver handle s (l ++ more) =
      match d.deliver handle s l with
      | (t, some rest) => d.deliver handle t (rest ++ more)
      | (t, none) => (t, none) := by
  induction l using d.frame_induction generalizing s with
  | hnone l hdecode => rw [deliver_of_none hdecode]
  | hsome l f n hdecode ih =>
    rw [deliver_of_some hdecode, deliver_of_some (d.append hdecode more),
      List.drop_append_of_le_length (d.le hdecode)]
    split
    · exact ih _
    · rfl

/-- What is left does not depend on the state where the frames alone decide when the handler stops. -/
theorem rest_eq {τ : Type*} {other : τ → φ → τ × Bool} (hstop : ∀ s t f, (handle s f).2 = (other t f).2)
    (s : σ) (t : τ) (l : List α) : (d.deliver handle s l).2 = (d.deliver other t l).2 := by
  induction l using d.frame_induction generalizing s t with
  | hnone l hdecode => rw [deliver_of_none hdecode, deliver_of_none hdecode]
  | hsome l f n hdecode ih =>
    rw [deliver_of_some hdecode, deliver_of_some hdecode, hstop s t]
    split
    · exact ih _ _
    · rfl

theorem length_rest_le {s t : σ} {l rest : List α} (h : d.deliver handle s l = (t, some rest)) :
    rest.length ≤ l.length := by
  induction l using d.frame_induction generalizing s with
  | hnone l hdecode =>
    rw [deliver_of_none hdecode] at h
    cases h
    exact (Nat.le_refl _)
  | hsome l f n hdecode ih =>
    rw [deliver_of_some hdecode] at h
    split at h
    · refine Nat.le_trans (ih h) ?_
      rw [List.length_drop]
      exact Nat.sub_le _ _
    · cases h

theorem stopped {P : σ → Prop} (hstop : ∀ s f, (handle s f).2 = false → P (handle s f).1) {s t : σ}
    {l : List α} (h : d.deliver handle s l = (t, none)) : P t := by
  induction l using d.frame_induction generalizing s with
  | hnone l hdecode =>
    rw [deliver_of_none hdecode] at h
    cases h
  | hsome l f n hdecode ih =>
    rw [deliver_of_some hdecode] at h
    split at h
    · exact ih h
    · rename_i hmore
      cases h
      exact hstop s f (Bool.eq_false_iff.mpr hmore)

theorem running {P : σ → Prop} (hmore : ∀ s f, (handle s f).2 = true → P (handle s f).1) {s t : σ} {l rest : List α}
    (hs : P s) (h : d.deliver handle s l = (t, some rest)) : P t := by
  induction l using d.frame_induction generalizing s with
  | hnone l hdecode =>
    rw [deliver_of_none hdecode] at h
    cases h
    exact hs
  | hsome l f n hdecode ih =>
    rw [deliver_of_some hdecode] at h
    split at h
    · rename_i hgo
      exact ih (hmore s f hgo) h
    · cases h

end Decoder

end PjProject
