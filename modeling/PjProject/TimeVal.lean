import Mathlib.Order.Basic

/-! `pj_time_val` with the comparisons of `types.h` and `pj_time_val_normalize`. The comparisons are
the lexicographic order of seconds and milliseconds, whether or not the values are normalized. -/

namespace PjProject

structure TimeVal where
  sec : Int
  msec : Int
  deriving DecidableEq

namespace TimeVal

/-- `PJ_TIME_VAL_GT`. -/
def gt (t1 t2 : TimeVal) : Bool := decide (t1.sec > t2.sec) || (t1.sec == t2.sec && decide (t1.msec > t2.msec))

/-- `PJ_TIME_VAL_EQ`. -/
def eq (t1 t2 : TimeVal) : Bool := t1.sec == t2.sec && t1.msec == t2.msec

/-- `PJ_TIME_VAL_GTE`. -/
def gte (t1 t2 : TimeVal) : Bool := gt t1 t2 || eq t1 t2

/-- `PJ_TIME_VAL_LT`. -/
def lt (t1 t2 : TimeVal) : Bool := !gte t1 t2

/-- `PJ_TIME_VAL_LTE`. -/
def lte (t1 t2 : TimeVal) : Bool := !gt t1 t2

/-- `pj_time_val_normalize`. C division truncates, and the loop that raises `msec` above `-1000`
subtracts `-msec / 1000` seconds. -/
def normalize (t : TimeVal) : TimeVal :=
  let t :=
    if t.msec ≥ 1000 then { sec := t.sec + t.msec.tdiv 1000, msec := t.msec.tmod 1000 }
    else if t.msec ≤ -1000 then
      { sec := t.sec - (-t.msec).tdiv 1000, msec := -((-t.msec).tmod 1000) }
    else t
  if t.sec ≥ 1 ∧ t.msec < 0 then { sec := t.sec - 1, msec := t.msec + 1000 }
  else if t.sec < 0 ∧ t.msec > 0 then { sec := t.sec + 1, msec := t.msec - 1000 }
  else t

/-- `PJ_TIME_VAL_ADD`. -/
def add (t1 t2 : TimeVal) : TimeVal := normalize { sec := t1.sec + t2.sec, msec := t1.msec + t2.msec }

/-- `PJ_TIME_VAL_SUB`. -/
def sub (t1 t2 : TimeVal) : TimeVal := normalize { sec := t1.sec - t2.sec, msec := t1.msec - t2.msec }

theorem gte_iff {t1 t2 : TimeVal} : gte t1 t2 = true ↔ t2.sec < t1.sec ∨ (t1.sec = t2.sec ∧ t2.msec ≤ t1.msec) := by
  simp only [gte, gt, eq, Bool.or_eq_true, Bool.and_eq_true, decide_eq_true_eq, beq_iff_eq]
  omega

theorem lt_iff {t1 t2 : TimeVal} : lt t1 t2 = true ↔ t1.sec < t2.sec ∨ (t1.sec = t2.sec ∧ t1.msec < t2.msec) := by
  rw [lt, Bool.not_eq_true', ← Bool.not_eq_true, gte_iff]
  omega

theorem gte_refl (t : TimeVal) : gte t t = true := by
  rw [gte_iff]
  omega

theorem gte_trans {t1 t2 t3 : TimeVal} (h1 : gte t1 t2 = true) (h2 : gte t2 t3 = true) : gte t1 t3 = true := by
  rw [gte_iff] at *
  omega

theorem gte_of_lt {t1 t2 : TimeVal} (h : lt t1 t2 = true) : gte t2 t1 = true := by
  rw [lt_iff] at h
  rw [gte_iff]
  omega

theorem gte_of_not_lt {t1 t2 : TimeVal} (h : lt t1 t2 = false) : gte t1 t2 = true := by
  simpa [lt] using h

instance : Preorder TimeVal where
  le t1 t2 := gte t2 t1 = true
  le_refl := gte_refl
  le_trans _ _ _ h1 h2 := gte_trans h2 h1

theorem lte_iff {t1 t2 : TimeVal} : lte t1 t2 = true ↔ t1 ≤ t2 := by
  have hle : t1 ≤ t2 ↔ gte t2 t1 = true := Iff.rfl
  rw [hle, gte_iff, lte, Bool.not_eq_true', ← Bool.not_eq_true]
  simp only [gt, Bool.or_eq_true, Bool.and_eq_true, decide_eq_true_eq, beq_iff_eq]
  omega

instance : PartialOrder TimeVal where
  le_antisymm t1 t2 h1 h2 := by
    have hle : ∀ u v : TimeVal, u ≤ v ↔ gte v u = true := fun _ _ => Iff.rfl
    rw [hle, gte_iff] at h1 h2
    obtain ⟨sec1, msec1⟩ := t1
    obtain ⟨sec2, msec2⟩ := t2
    simp only at h1 h2
    rw [mk.injEq]
    omega

/-- The milliseconds of a value. -/
def total (t : TimeVal) : Int := 1000 * t.sec + t.msec

/-- Normalizing keeps the milliseconds, and gives seconds and milliseconds one sign. -/
theorem normalize_spec (t : TimeVal) : (normalize t).total = t.total ∧
    (0 ≤ (normalize t).sec ∧ 0 ≤ (normalize t).msec ∨ (normalize t).sec ≤ 0 ∧ (normalize t).msec ≤ 0) ∧
    -1000 < (normalize t).msec ∧ (normalize t).msec < 1000 := by
  have hcarry : ∀ u : TimeVal, -1000 < u.msec → u.msec < 1000 → u.total = t.total →
      normalize t = (if u.sec ≥ 1 ∧ u.msec < 0 then { sec := u.sec - 1, msec := u.msec + 1000 }
        else if u.sec < 0 ∧ u.msec > 0 then { sec := u.sec + 1, msec := u.msec - 1000 } else u) →
      (normalize t).total = t.total ∧
      (0 ≤ (normalize t).sec ∧ 0 ≤ (normalize t).msec ∨ (normalize t).sec ≤ 0 ∧ (normalize t).msec ≤ 0) ∧
      -1000 < (normalize t).msec ∧ (normalize t).msec < 1000 := by
    intro u hlo hhi htotal hnorm
    rw [hnorm]
    unfold total at htotal ⊢
    split_ifs with hpos hneg
    · simp only
      omega
    · simp only
      omega
    · omega
  by_cases hge : t.msec ≥ 1000
  · refine hcarry { sec := t.sec + t.msec.tdiv 1000, msec := t.msec.tmod 1000 } ?_ ?_ ?_ ?_
    · have hnonneg := Int.tmod_nonneg (a := t.msec) 1000 (by omega)
      simp only
      omega
    · exact Int.tmod_lt_of_pos t.msec (by decide)
    · have hdiv := Int.tdiv_mul_add_tmod t.msec 1000
      unfold total
      simp only
      omega
    · rw [normalize, if_pos hge]
  · by_cases hle : t.msec ≤ -1000
    · refine hcarry { sec := t.sec - (-t.msec).tdiv 1000, msec := -((-t.msec).tmod 1000) } ?_ ?_ ?_ ?_
      · have hlt := Int.tmod_lt_of_pos (-t.msec) (b := 1000) (by decide)
        simp only
        omega
      · have hnonneg := Int.tmod_nonneg (a := -t.msec) 1000 (by omega)
        simp only
        omega
      · have hdiv := Int.tdiv_mul_add_tmod (-t.msec) 1000
        unfold total
        simp only
        omega
      · rw [normalize, if_neg hge, if_pos hle]
    · refine hcarry t (by omega) (by omega) rfl ?_
      rw [normalize, if_neg hge, if_neg hle]

/-- The time from one value to another, or none if it is negative. -/
def span (t1 t2 : TimeVal) : TimeVal where
  sec := max 0 (t1.total - t2.total) / 1000
  msec := max 0 (t1.total - t2.total) % 1000

/-- `PJ_TIME_VAL_SUB` with a negative difference set to zero. -/
theorem sub_eq_span (t1 t2 : TimeVal) :
    (if (t1.sub t2).sec < 0 ∨ (t1.sub t2).msec < 0 then { sec := 0, msec := 0 } else t1.sub t2) = span t1 t2 := by
  obtain ⟨htotal, hsign, hlo, hhi⟩ := normalize_spec { sec := t1.sec - t2.sec, msec := t1.msec - t2.msec }
  have hsub : t1.sub t2 = normalize { sec := t1.sec - t2.sec, msec := t1.msec - t2.msec } := rfl
  rw [← hsub] at htotal hsign hlo hhi
  generalize t1.sub t2 = d at htotal hsign hlo hhi
  have hdiff : d.total = t1.total - t2.total := by
    rw [htotal]
    unfold total
    simp only
    omega
  unfold span
  rw [← hdiff]
  unfold total
  split_ifs with hneg
  · have hmax : max 0 (1000 * d.sec + d.msec) = 0 := by omega
    rw [hmax]
    rfl
  · obtain ⟨sec, msec⟩ := d
    simp only [TimeVal.mk.injEq] at hneg hsign hlo hhi ⊢
    omega

end TimeVal

end PjProject
