import Mathlib.Logic.Function.Basic
import Mathlib.Data.List.Basic
import Mathlib.Algebra.BigOperators.Group.Finset.Basic
import Mathlib.Data.Fintype.BigOperators

/-! Runs of a guarded step function. A system is a partial function `step`: an action that is not
enabled in a state gives `none`. What holds of every state a run reaches is proved once here from
what one step keeps, with and without a condition on the steps taken. -/

namespace PjProject

variable {σ ι : Type*}

/-- The state after the actions, taken one after another; `none` when one of them is not enabled. -/
def exec (step : σ → ι → Option σ) : σ → List ι → Option σ
  | s, [] => some s
  | s, a :: rest => (step s a).bind fun t => exec step t rest

/-- Every step of the run from `s` is taken in a state in which it meets `cond`. -/
def Meets (step : σ → ι → Option σ) (cond : σ → ι → Prop) : σ → List ι → Prop
  | _, [] => True
  | s, a :: rest => cond s a ∧ ∀ t, step s a = some t → Meets step cond t rest

instance decidableMeets (step : σ → ι → Option σ) (cond : σ → ι → Prop)
    [∀ s a, Decidable (cond s a)] : (s : σ) → (acts : List ι) → Decidable (Meets step cond s acts)
  | _, [] => .isTrue trivial
  | s, a :: rest =>
    match hstep : step s a with
    | none => decidable_of_iff (cond s a) ⟨fun h => ⟨h, fun t ht => by rw [hstep] at ht; cases ht⟩, And.left⟩
    | some t =>
      have := decidableMeets step cond t rest
      decidable_of_iff (cond s a ∧ Meets step cond t rest)
        ⟨fun h => ⟨h.1, fun u hu => Option.some.inj (hstep.symm.trans hu) ▸ h.2⟩, fun h => ⟨h.1, h.2 t hstep⟩⟩

@[simp] theorem exec_nil (step : σ → ι → Option σ) (s : σ) : exec step s [] = some s := rfl

theorem exec_cons (step : σ → ι → Option σ) (s : σ) (a : ι) (rest : List ι) :
    exec step s (a :: rest) = (step s a).bind fun t => exec step t rest := rfl

theorem exec_cons_eq_some {step : σ → ι → Option σ} {s u : σ} {a : ι} {rest : List ι} :
    exec step s (a :: rest) = some u ↔ ∃ t, step s a = some t ∧ exec step t rest = some u := by
  rw [exec_cons, Option.bind_eq_some_iff]

/-- A run goes on where its first actions have led. -/
theorem exec_append_of_exec {step : σ → ι → Option σ} {s t : σ} {acts more : List ι} (h : exec step s acts = some t) :
    exec step s (acts ++ more) = exec step t more := by
  induction acts generalizing s with
  | nil => rw [List.nil_append, Option.some.inj h]
  | cons a rest ih =>
    obtain ⟨r, hr, hrest⟩ := exec_cons_eq_some.mp h
    rw [List.cons_append, exec_cons, hr, Option.bind_some]
    exact ih hrest

theorem exec_append {step : σ → ι → Option σ} {s t u : σ} {acts more : List ι}
    (h : exec step s acts = some t) (hmore : exec step t more = some u) : exec step s (acts ++ more) = some u := by
  rw [exec_append_of_exec h]
  exact hmore

theorem meets_append {step : σ → ι → Option σ} {cond : σ → ι → Prop} {s t : σ} {acts more : List ι}
    (h : Meets step cond s (acts ++ more)) (hrun : exec step s acts = some t) :
    Meets step cond s acts ∧ Meets step cond t more := by
  induction acts generalizing s with
  | nil =>
    rw [← Option.some.inj hrun]
    exact ⟨trivial, h⟩
  | cons a rest ih =>
    obtain ⟨r, hr, hrest⟩ := exec_cons_eq_some.mp hrun
    refine ⟨⟨h.1, fun u hu => ?_⟩, (ih (h.2 r hr) hrest).2⟩
    have hru : r = u := Option.some.inj (hr.symm.trans hu)
    rw [← hru]
    exact (ih (h.2 r hr) hrest).1

/-- A condition on the actions alone is met by every run of such actions. -/
theorem meets_of_forall {step : σ → ι → Option σ} {p : ι → Prop} {acts : List ι} (h : ∀ a ∈ acts, p a) :
    ∀ s, Meets step (fun _ a => p a) s acts := by
  induction acts with
  | nil => exact fun _ => trivial
  | cons a rest ih =>
    intro s
    exact ⟨h a List.mem_cons_self, fun t _ => ih (fun b hb => h b (List.mem_cons_of_mem a hb)) t⟩

theorem exec_invariant_of_meets {step : σ → ι → Option σ} {cond : σ → ι → Prop} {P : σ → Prop}
    (hstep : ∀ s a t, P s → cond s a → step s a = some t → P t) :
    ∀ {acts : List ι} {s u : σ}, P s → Meets step cond s acts → exec step s acts = some u → P u := by
  intro acts
  induction acts with
  | nil =>
    intro s u hs _ hrun
    exact Option.some.inj hrun ▸ hs
  | cons a rest ih =>
    intro s u hs hmeets hrun
    obtain ⟨t, hst, hrest⟩ := exec_cons_eq_some.mp hrun
    exact ih (hstep s a t hs hmeets.1 hst) (hmeets.2 t hst) hrest

theorem exec_invariant {step : σ → ι → Option σ} {P : σ → Prop}
    (hstep : ∀ s a t, P s → step s a = some t → P t) {acts : List ι} {s u : σ} (hs : P s)
    (hrun : exec step s acts = some u) : P u := by
  induction acts generalizing s with
  | nil => exact Option.some.inj hrun ▸ hs
  | cons a rest ih =>
    obtain ⟨t, hst, hrest⟩ := exec_cons_eq_some.mp hrun
    exact ih (hstep s a t hs hst) hrest

/-- Two systems that take the same actions stay related, as long as the steps of the first meet the condition. -/
theorem exec_related_of_meets {τ : Type*} {step₁ : σ → ι → Option σ} {step₂ : τ → ι → Option τ}
    {cond : σ → ι → Prop} {R : σ → τ → Prop}
    (hstep : ∀ s t a s' t', R s t → cond s a → step₁ s a = some s' → step₂ t a = some t' → R s' t') {s s' : σ} {t t' : τ}
    {acts : List ι} (h : R s t) (hcond : Meets step₁ cond s acts) (hrun₁ : exec step₁ s acts = some s')
    (hrun₂ : exec step₂ t acts = some t') : R s' t' := by
  induction acts generalizing s t with
  | nil =>
    obtain rfl := Option.some.inj hrun₁
    obtain rfl := Option.some.inj hrun₂
    exact h
  | cons a rest ih =>
    obtain ⟨u, hu, hrest₁⟩ := exec_cons_eq_some.mp hrun₁
    obtain ⟨v, hv, hrest₂⟩ := exec_cons_eq_some.mp hrun₂
    exact ih (hstep s t a u v h hcond.1 hu hv) (hcond.2 u hu) hrest₁ hrest₂

/-- Where every step that meets the condition is enabled, a run of such steps goes through to its end. -/
theorem exec_returns_of_meets {step : σ → ι → Option σ} {cond : σ → ι → Prop} {P : σ → Prop}
    (hstep : ∀ s a, P s → cond s a → ∃ t, step s a = some t ∧ P t) :
    ∀ {acts : List ι} {s : σ}, P s → Meets step cond s acts → ∃ u, exec step s acts = some u ∧ P u := by
  intro acts
  induction acts with
  | nil => exact fun hs _ => ⟨_, rfl, hs⟩
  | cons a rest ih =>
    intro s hs hmeets
    obtain ⟨t, hst, ht⟩ := hstep s a hs hmeets.1
    obtain ⟨u, hrest, hu⟩ := ih ht (hmeets.2 t hst)
    exact ⟨u, exec_cons_eq_some.mpr ⟨t, hst, hrest⟩, hu⟩

/-- Where a step leads to a good state when and only when it meets the condition, the states of a run are
good when and only when all its steps meet it. -/
theorem forall_take_iff_meets {step : σ → ι → Option σ} {cond : σ → ι → Prop} {P good : σ → Prop}
    (hstep : ∀ s a t, P s → good s → step s a = some t → P t ∧ (good t ↔ cond s a)) {acts : List ι}
    {s u : σ} (hs : P s) (hgood : good s) (hrun : exec step s acts = some u) :
    (∀ n v, exec step s (acts.take n) = some v → good v) ↔ Meets step cond s acts := by
  induction acts generalizing s with
  | nil =>
    refine ⟨fun _ => trivial, fun _ n v hv => ?_⟩
    rw [List.take_nil, exec_nil] at hv
    exact Option.some.inj hv ▸ hgood
  | cons a rest ih =>
    obtain ⟨t, hst, hrest⟩ := exec_cons_eq_some.mp hrun
    obtain ⟨ht, hiff⟩ := hstep s a t hs hgood hst
    constructor
    · intro hall
      have htgood : good t := hall 1 t (exec_cons_eq_some.mpr ⟨t, hst, rfl⟩)
      refine ⟨hiff.mp htgood, fun t' ht' => ?_⟩
      obtain rfl := Option.some.inj (hst.symm.trans ht')
      exact (ih ht htgood hrest).mp fun n v hv => hall (n + 1) v (exec_cons_eq_some.mpr ⟨t, hst, hv⟩)
    · rintro ⟨hcond, hmeets⟩ n v hv
      cases n with
      | zero => exact Option.some.inj hv ▸ hgood
      | succ n =>
        obtain ⟨t', ht', hv⟩ := exec_cons_eq_some.mp hv
        obtain rfl := Option.some.inj (hst.symm.trans ht')
        exact (ih ht (hiff.mpr hcond) hrest).mpr (hmeets t hst) n v hv

/-- Where two conditions on the steps agree in the states that one of them leads to, a run meets both or none. -/
theorem meets_iff_of_invariant {step : σ → ι → Option σ} {cond good : σ → ι → Prop} {P : σ → Prop}
    (hiff : ∀ s a, P s → (good s a ↔ cond s a)) (hstep : ∀ s a t, P s → cond s a → step s a = some t → P t)
    {acts : List ι} : ∀ {s : σ}, P s → (Meets step good s acts ↔ Meets step cond s acts) := by
  induction acts with
  | nil => exact fun _ => Iff.rfl
  | cons a rest ih =>
    intro s hs
    constructor
    · rintro ⟨hgood, hrest⟩
      have hcond := (hiff s a hs).mp hgood
      exact ⟨hcond, fun t ht => (ih (hstep s a t hs hcond ht)).mp (hrest t ht)⟩
    · rintro ⟨hcond, hrest⟩
      exact ⟨(hiff s a hs).mpr hcond, fun t ht => (ih (hstep s a t hs hcond ht)).mpr (hrest t ht)⟩

/-- What the invariant and the condition give for a step holds of every step of a run that meets the condition. -/
theorem meets_of_invariant {step : σ → ι → Option σ} {cond good : σ → ι → Prop} {P : σ → Prop}
    (hgood : ∀ s a, P s → cond s a → good s a) (hstep : ∀ s a t, P s → cond s a → step s a = some t → P t)
    {acts : List ι} : ∀ {s : σ}, P s → Meets step cond s acts → Meets step good s acts := by
  induction acts with
  | nil => exact fun _ _ => trivial
  | cons a rest ih =>
    intro s hs hmeets
    exact ⟨hgood s a hs hmeets.1, fun t ht => ih (hstep s a t hs hmeets.1 ht) (hmeets.2 t ht)⟩

def recorded {ε : Type*} (step : σ → ι → Option σ) (report : σ → ι → List ε) (s : σ × List ε) (a : ι) :
    Option (σ × List ε) := (step s.1 a).map fun t => (t, (report s.1 a).reverse ++ s.2)

theorem meets_recorded {ε : Type*} {step : σ → ι → Option σ} {report : σ → ι → List ε} {cond : σ → ι → Prop}
    {acts : List ι} {s : σ} {past : List ε} (h : Meets step cond s acts) :
    Meets (recorded step report) (fun r a => cond r.1 a) (s, past) acts := by
  induction acts generalizing s past with
  | nil => trivial
  | cons a rest ih =>
    refine ⟨h.1, fun r hr => ?_⟩
    obtain ⟨t, ht, heq⟩ := Option.map_eq_some_iff.mp hr
    rw [← heq]
    exact ih (h.2 t ht)

/-- A quantity summed over the threads of a system, when one thread moves. -/
theorem sum_update_add {α β : Type*} [Fintype α] [DecidableEq α] (w : β → Nat) (g : α → β) (t : α)
    (x : β) : ∑ u, w (Function.update g t x u) + w (g t) = ∑ u, w (g u) + w x := by
  have hrest : ∑ u ∈ Finset.univ.erase t, w (Function.update g t x u) =
      ∑ u ∈ Finset.univ.erase t, w (g u) := by
    refine Finset.sum_congr rfl fun u hu => ?_
    rw [Function.update_of_ne (Finset.ne_of_mem_erase hu)]
  rw [← Finset.sum_erase_add _ _ (Finset.mem_univ t), ← Finset.sum_erase_add _ _ (Finset.mem_univ t),
    hrest, Function.update_self]
  omega

/-! Loops with a bound on their turns. A turn is a partial function that gives `none` when the condition of the loop
fails; the loop gives `none` when the bound was too low. -/

/-- The state in which the loop ends, unless it takes `bound` turns or more. -/
def loop (turn : σ → Option σ) : Nat → σ → Option σ
  | 0, _ => none
  | bound + 1, s =>
    match turn s with
    | none => some s
    | some t => loop turn bound t

theorem loop_of_none {turn : σ → Option σ} {s : σ} (h : turn s = none) {bound : Nat} (hbound : 0 < bound) :
    loop turn bound s = some s := by
  cases bound with
  | zero => exact absurd hbound (Nat.lt_irrefl 0)
  | succ bound => simp only [loop, h]

theorem loop_of_some {turn : σ → Option σ} {s t : σ} (h : turn s = some t) (bound : Nat) :
    loop turn (bound + 1) s = loop turn bound t := by
  simp only [loop, h]

theorem loop_ends {turn : σ → Option σ} (Inv : Nat → σ → Prop)
    (hturn : ∀ n s t, Inv n s → turn s = some t → ∃ m, m < n ∧ Inv m t) {n bound : Nat} {s : σ}
    (hs : Inv n s) (hbound : n < bound) : ∃ t m, loop turn bound s = some t ∧ Inv m t ∧ turn t = none := by
  induction bound generalizing n s with
  | zero => cases hbound
  | succ bound ih =>
    cases hstep : turn s with
    | none => exact ⟨s, n, loop_of_none hstep (Nat.succ_pos bound), hs, hstep⟩
    | some t =>
      obtain ⟨m, hm, ht⟩ := hturn n s t hs hstep
      rw [loop_of_some hstep]
      exact ih ht (by omega)

end PjProject
