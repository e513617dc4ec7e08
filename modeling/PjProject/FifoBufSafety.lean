import PjProject.FifoBuf

/-! The two layouts of a FIFO buffer in use. Either the live blocks lie end to end from `ubegin` to
`uend`, or the older ones lie from `ubegin` up to where the region wrapped and the younger ones from
`first` to `uend`. Every request and every release of the oldest block leads from one layout to the
other, and what the buffer promises is read off the layout. -/

namespace PjProject.FifoBuf

open PjProject.Interval

/-- How the live blocks, oldest first, lie in the buffer. `top` is where the used part ended when the
region wrapped: the bytes from there to `last` are skipped. -/
inductive Layout (f : Fifobuf) : List Interval → Prop
  | linear {live : List Interval} (hfirst : f.first ≤ f.ubegin) (hused : Chain f.ubegin live f.uend)
      (hend : f.uend < f.last ∨ f.first = f.last ∧ f.uend = f.last)
      (hfull : f.full = decide (f.first = f.last)) (hempty : live = [] → f.ubegin = f.first) :
      Layout f live
  | wrapped {live upper lower : List Interval} {top : Nat} (hlive : live = upper ++ lower)
      (hne : live ≠ []) (hupper : Chain f.ubegin upper top) (htop : top ≤ f.last)
      (hlower : Chain f.first lower f.uend) (hle : f.uend ≤ f.ubegin) (hlt : f.ubegin < f.last)
      (hskip : lower = [] → top = f.last) (hfull : f.full = decide (f.uend = f.ubegin)) : Layout f live

/-- The header in front of a live block still holds its size. -/
def Headers (mem : Memory) (live : List Interval) : Prop :=
  ∀ b ∈ live, b.lo + headerSize ≤ b.hi ∧ getSize mem b.lo = b.hi - b.lo

structure Inv (s : State) : Prop where
  last_lt : s.buf.last < wordSize
  layout : Layout s.buf s.live
  headers : Headers s.mem s.live

theorem layout_init (buffer size : Nat) : Layout (fifobufInit buffer size) [] := by
  refine .linear le_rfl rfl ?_ ?_ fun _ => rfl
  · simp only [fifobufInit]
    omega
  · show decide (buffer + size = buffer) = decide (buffer = buffer + size)
    exact decide_eq_decide.mpr eq_comm

namespace Layout

variable {f : Fifobuf} {live : List Interval}

theorem bounds (h : Layout f live) {b : Interval} (hb : b ∈ live) : f.first ≤ b.lo ∧ b.hi ≤ f.last := by
  cases h with
  | linear hfirst hused hend =>
    have := hused.bounds hb
    omega
  | wrapped hlive _ hupper htop hlower hle hlt =>
    subst hlive
    have hfirst := hlower.le
    rcases List.mem_append.mp hb with hb | hb
    · have := hupper.bounds hb
      omega
    · have := hlower.bounds hb
      omega

theorem apart (h : Layout f live) : live.Pairwise Apart := by
  cases h with
  | linear _ hused => exact hused.apart
  | wrapped hlive _ hupper _ hlower hle =>
    subst hlive
    refine List.pairwise_append.mpr ⟨hupper.apart, hlower.apart, fun b hb c hc => .inr ?_⟩
    exact ((hlower.bounds hc).2.trans hle).trans (hupper.bounds hb).1

/-- With no live block the buffer is as `pj_fifobuf_init` left it. -/
theorem of_nil (h : Layout f []) : f = fifobufInit f.first (f.last - f.first) := by
  cases h with
  | linear hfirst hused hend hfull hempty =>
    have hbegin := hempty rfl
    have huend : f.ubegin = f.uend := hused
    obtain ⟨first, last, ubegin, uend, full⟩ := f
    simp only at *
    subst huend hbegin
    rw [fifobufInit, Nat.add_sub_of_le (by omega), hfull]
    congr 1
    exact decide_eq_decide.mpr eq_comm
  | wrapped _ hne => exact absurd rfl hne

/-- `full` tells the two layouts with `uend == ubegin` apart. -/
theorem full_iff (h : Layout f live) : f.full = true ↔ f.uend = f.ubegin ∧ (live ≠ [] ∨ f.first = f.last) := by
  cases h with
  | linear hfirst hused hend hfull hempty =>
    rw [hfull, decide_eq_true_iff]
    constructor
    · intro heq
      have := hused.le
      exact ⟨by omega, .inr heq⟩
    · rintro ⟨heq, hne | heq⟩
      · have := hused.lt_of_ne_nil hne
        omega
      · exact heq
  | wrapped _ hne _ _ _ _ _ _ hfull =>
    rw [hfull, decide_eq_true_iff]
    exact ⟨fun heq => ⟨heq, .inl hne⟩, And.left⟩

/-- When the buffer is full, the bytes no live block has are the tail skipped at the wrap. -/
theorem behind_of_full (h : Layout f live) (hfull : f.full = true) {x : Nat} (hfirst : f.first ≤ x)
    (hlast : x < f.last) (hx : ∀ b ∈ live, ¬(b.lo ≤ x ∧ x < b.hi)) : ∀ b ∈ live, b.hi ≤ x := by
  cases h with
  | linear _ hused _ hfull' =>
    rw [hfull', decide_eq_true_iff] at hfull
    omega
  | @wrapped _ _ top hlive _ hupper htop hlower hle hlt hskip hfull' =>
    subst hlive
    rw [hfull', decide_eq_true_iff] at hfull
    have hge : top ≤ x := by
      by_contra hlt
      by_cases hxb : x < f.uend
      · obtain ⟨b, hb, hin⟩ := hlower.covers hfirst hxb
        exact hx b (List.mem_append_right _ hb) hin
      · obtain ⟨b, hb, hin⟩ := hupper.covers (x := x) (by omega) (by omega)
        exact hx b (List.mem_append_left _ hb) hin
    have hbegin := hupper.le
    intro b hb
    rcases List.mem_append.mp hb with hb | hb
    · exact (hupper.bounds hb).2.trans hge
    · have := (hlower.bounds hb).2
      omega

/-- The bytes the pointers of the buffer keep from being handed out. -/
def Reserved (f : Fifobuf) (x : Nat) : Prop :=
  if f.full then f.first ≤ x ∧ x < f.last
  else if f.ubegin ≤ f.uend then f.ubegin ≤ x ∧ x < f.uend
  else f.ubegin ≤ x ∧ x < f.last ∨ f.first ≤ x ∧ x < f.uend

theorem reserved_of_mem (h : Layout f live) {b : Interval} (hb : b ∈ live) {x : Nat} (hlo : b.lo ≤ x)
    (hhi : x < b.hi) : Reserved f x := by
  have hbounds := h.bounds hb
  cases h with
  | linear hfirst hused hend hfull =>
    have := hused.bounds hb
    rw [Reserved, hfull]
    split
    · omega
    · rw [if_pos hused.le]
      omega
  | wrapped hlive _ hupper htop hlower hle hlt hskip hfull =>
    subst hlive
    rw [Reserved, hfull]
    split
    · omega
    · rename_i hne
      rw [decide_eq_true_iff] at hne
      rw [if_neg (by omega)]
      rcases List.mem_append.mp hb with hb | hb
      · have := hupper.bounds hb
        exact .inl (by omega)
      · have := hlower.bounds hb
        exact .inr (by omega)

/-- A block at the end of the used part keeps the layout, wrapping when it ends at `last`. -/
theorem allocTail (h : Layout f live) (hnot : f.full = false) {size ptr : Nat} {f' : Fifobuf}
    (hfit : size + headerSize < wordSize) (heq : FifoBuf.allocTail f size = some (ptr, f')) :
    Layout f' (live ++ [⟨ptr, ptr + (size + headerSize)⟩]) ∧
      ∀ x, ptr ≤ x → x < ptr + (size + headerSize) → ¬Reserved f x := by
  have hsize : blockSize size = size + headerSize := Nat.mod_eq_of_lt hfit
  have hpos : 0 < headerSize := by decide
  simp only [FifoBuf.allocTail, hsize, Option.ite_none_right_eq_some, Option.some.injEq,
    Prod.mk.injEq] at heq
  obtain ⟨⟨hle, hspace⟩, rfl, rfl⟩ := heq
  cases h with
  | linear hfirst hused hend hfull =>
    rw [hfull, decide_eq_false_iff_not] at hnot
    have hchain := hused.concat (c := f.uend + (size + headerSize)) (by omega)
    refine ⟨?_, fun x hlo hhi => ?_⟩
    · by_cases hmoved : f.uend + (size + headerSize) = f.last
      · refine .wrapped (List.append_nil _).symm (by simp) hchain hmoved.le ?_ ?_ ?_ ?_ ?_
        · simp [hmoved, Chain]
        · simpa [hmoved] using hfirst
        · simp only
          omega
        · exact fun _ => hmoved
        · simp [hmoved, hfull, hnot]
      · refine .linear hfirst ?_ ?_ ?_ (by simp)
        · simpa [hmoved] using hchain
        · simp only [hmoved, if_false]
          omega
        · simp only [hmoved, if_false, hfull]
          rw [if_neg (by omega)]
    · simp only [Reserved, hfull, hnot, decide_false, Bool.false_eq_true, if_false, if_pos hle]
      omega
  | wrapped _ _ _ _ _ hle' _ _ hfull =>
    rw [hfull, decide_eq_false_iff_not] at hnot
    omega

/-- A block in front of the oldest one wraps the region, or extends the wrapped part. -/
theorem allocFront (h : Layout f live) (hnot : f.full = false) {size ptr : Nat} {f' : Fifobuf}
    (hfit : size + headerSize < wordSize) (heq : FifoBuf.allocFront f size = some (ptr, f')) :
    Layout f' (live ++ [⟨ptr, ptr + (size + headerSize)⟩]) ∧
      ∀ x, ptr ≤ x → x < ptr + (size + headerSize) → ¬Reserved f x := by
  have hsize : blockSize size = size + headerSize := Nat.mod_eq_of_lt hfit
  have hpos : 0 < headerSize := by decide
  simp only [FifoBuf.allocFront, hsize, Option.ite_none_right_eq_some, Option.some.injEq,
    Prod.mk.injEq] at heq
  obtain ⟨hspace, rfl, rfl⟩ := heq
  cases h with
  | linear hfirst hused hend hfull hempty =>
    rw [hfull, decide_eq_false_iff_not] at hnot
    have hused_le := hused.le
    have hne : ¬f.uend ≤ f.ubegin := by
      intro hle
      rw [if_pos hle] at hspace
      omega
    rw [if_neg hne] at hspace ⊢
    refine ⟨?_, fun x hlo hhi => ?_⟩
    · refine .wrapped rfl (by simp) hused (by simp only; omega) ⟨rfl, ?_, rfl⟩ ?_ ?_ (by simp) ?_
      · simp only
        omega
      · simp only
        omega
      · simp only
        omega
      · simp [hfull, hnot]
    · simp only [Reserved, hfull, hnot, decide_false, Bool.false_eq_true, if_false, if_pos hused_le]
      omega
  | wrapped hlive hne hupper htop hlower hle hlt hskip hfull =>
    subst hlive
    rw [hfull, decide_eq_false_iff_not] at hnot
    rw [if_pos hle] at hspace ⊢
    refine ⟨?_, fun x hlo hhi => ?_⟩
    · refine .wrapped (List.append_assoc ..) (by simp) hupper htop (hlower.concat ?_) ?_ hlt (by simp) ?_
      · omega
      · simp only
        omega
      · simp [hfull, hnot]
    · simp only [Reserved, hfull, hnot, decide_false, Bool.false_eq_true, if_false]
      rw [if_neg (by omega)]
      omega

end Layout

/-- What a release up to `hi` leaves of the pointers. -/
def released (f : Fifobuf) (hi : Nat) : Fifobuf :=
  let ubegin := if hi = f.last then f.first else hi
  if ubegin = f.uend then { f with ubegin := f.first, uend := f.first, full := false }
  else { f with ubegin := ubegin, full := false }

/-- A block at `ubegin` or at `first` whose header is intact passes every check of `pj_fifobuf_free`. -/
theorem fifobufFree_eq {f : Fifobuf} {mem : Memory} {b : Interval} (hlast : f.last < wordSize)
    (hfirst : f.first ≤ b.lo) (hhi : b.hi ≤ f.last) (hplace : b.lo = f.ubegin ∨ b.lo = f.first)
    (hend : f.ubegin < f.uend → b.hi ≤ f.uend) (hsize : b.lo + headerSize ≤ b.hi ∧ getSize mem b.lo = b.hi - b.lo) :
    fifobufFree f mem (b.lo + headerSize) = (.success, released f b.hi) := by
  have hpos : 0 < headerSize := by decide
  have hptr : (wordSize + (b.lo + headerSize) - headerSize) % wordSize = b.lo := by
    rw [← Nat.add_assoc, Nat.add_sub_cancel, Nat.add_mod_left, Nat.mod_eq_of_lt (by omega)]
  have hmoved : b.lo + (b.hi - b.lo) = b.hi := by omega
  have hstop : ¬(if f.ubegin < f.uend then f.uend else f.last) < b.hi := by
    split
    · rename_i hlt
      exact not_lt.mpr (hend hlt)
    · exact not_lt.mpr hhi
  simp only [fifobufFree, hptr, hsize.2, hmoved, released]
  rw [if_neg (by omega), if_neg (by omega), if_neg hstop]
  split <;> split <;> rfl

namespace Layout

variable {f : Fifobuf} {b : Interval} {rest : List Interval}

/-- The oldest block lies where `pj_fifobuf_free` looks for it. -/
theorem oldest (h : Layout f (b :: rest)) :
    (b.lo = f.ubegin ∨ b.lo = f.first) ∧ (f.ubegin < f.uend → b.hi ≤ f.uend) := by
  cases h with
  | linear _ hused => exact ⟨.inl hused.1, fun _ => hused.2.2.le⟩
  | @wrapped upper lower _ hlive _ hupper _ hlower hle =>
    refine ⟨?_, fun hlt => absurd hle (not_le.mpr hlt)⟩
    cases upper with
    | nil =>
      obtain rfl := hlive
      exact .inr hlower.1
    | cons c upper =>
      obtain ⟨rfl, _⟩ := List.cons.inj hlive
      exact .inl hupper.1

/-- A release that empties the buffer leaves it as after `pj_fifobuf_init`. -/
theorem released_last (hlt : f.first < f.last) (heq : (if b.hi = f.last then f.first else b.hi) = f.uend) :
    Layout (FifoBuf.released f b.hi) [] ∧
      ∀ x, b.lo ≤ x → x < b.hi → ¬Reserved (FifoBuf.released f b.hi) x := by
  simp only [FifoBuf.released, if_pos heq]
  refine ⟨.linear le_rfl rfl (.inl hlt) (by simp [hlt.ne]) fun _ => rfl, fun x _ _ => ?_⟩
  simp [Reserved]

/-- The blocks behind the released one end at `uend`. -/
theorem released_of_chain (hfirst : f.first ≤ b.lo) (hlt : b.lo < b.hi)
    (hchain : Chain b.hi rest f.uend) (hend : f.uend < f.last) :
    Layout (FifoBuf.released f b.hi) rest ∧
      ∀ x, b.lo ≤ x → x < b.hi → ¬Reserved (FifoBuf.released f b.hi) x := by
  have hle := hchain.le
  have hlast : b.hi ≠ f.last := by omega
  cases rest with
  | nil =>
    have heq : b.hi = f.uend := hchain
    exact released_last (by omega) (by rw [if_neg hlast, heq])
  | cons c rest =>
    have hne : b.hi < f.uend := hchain.lt_of_ne_nil (by simp)
    have hsize : f.first ≠ f.last := by omega
    simp only [FifoBuf.released, if_neg hlast, if_neg hne.ne]
    refine ⟨.linear (by simp only; omega) hchain (.inl hend) (by simp [hsize]) (by simp), ?_⟩
    intro x _ hhi
    simp only [Reserved, Bool.false_eq_true, if_false, if_pos hle]
    omega

/-- The released block was the last one before the wrap, and ended at `last`. -/
theorem released_rollover (hlo : f.uend ≤ b.lo) (hlt : b.lo < b.hi) (hhi : b.hi = f.last)
    (hchain : Chain f.first rest f.uend) :
    Layout (FifoBuf.released f b.hi) rest ∧
      ∀ x, b.lo ≤ x → x < b.hi → ¬Reserved (FifoBuf.released f b.hi) x := by
  have hle := hchain.le
  cases rest with
  | nil =>
    have heq : f.first = f.uend := hchain
    exact released_last (by omega) (by rw [if_pos hhi, heq])
  | cons c rest =>
    have hne : f.first < f.uend := hchain.lt_of_ne_nil (by simp)
    have hsize : f.first ≠ f.last := by omega
    simp only [FifoBuf.released, if_pos hhi, if_neg hne.ne]
    refine ⟨.linear le_rfl hchain (.inl (by simp only; omega)) (by simp [hsize]) (by simp), ?_⟩
    intro x hx _
    simp only [Reserved, Bool.false_eq_true, if_false, if_pos hle]
    omega

/-- The released block ended before the wrap, or before the tail skipped there. -/
theorem released_upper {upper lower : List Interval} {top : Nat} (hlo : f.ubegin = b.lo)
    (hlt : b.lo < b.hi) (hchain : Chain b.hi upper top) (htop : top ≤ f.last)
    (hlower : Chain f.first lower f.uend) (hle : f.uend ≤ f.ubegin) (hlast : b.hi ≠ f.last)
    (hskip : lower = [] → top = f.last) :
    Layout (FifoBuf.released f b.hi) (upper ++ lower) ∧
      ∀ x, b.lo ≤ x → x < b.hi → ¬Reserved (FifoBuf.released f b.hi) x := by
  have htop_le := hchain.le
  have hne : b.hi ≠ f.uend := by omega
  have hlive : upper ++ lower ≠ [] := by
    intro hnil
    obtain ⟨rfl, rfl⟩ := List.append_eq_nil_iff.mp hnil
    have heq : b.hi = top := hchain
    exact hlast (heq.trans (hskip rfl))
  simp only [FifoBuf.released, if_neg hlast, if_neg hne]
  refine ⟨.wrapped rfl hlive hchain htop hlower ?_ ?_ hskip ?_, fun x hx hhi => ?_⟩
  · simp only
    omega
  · simp only
    omega
  · simp [hne.symm]
  · simp only [Reserved, Bool.false_eq_true, if_false]
    rw [if_neg (by omega)]
    omega

/-- Releasing the oldest block leaves a layout of the others, in which its bytes are free again. -/
theorem released (h : Layout f (b :: rest)) :
    Layout (FifoBuf.released f b.hi) rest ∧
      ∀ x, b.lo ≤ x → x < b.hi → ¬Reserved (FifoBuf.released f b.hi) x := by
  have hbounds := h.bounds List.mem_cons_self
  cases h with
  | linear hfirst hused hend =>
    obtain ⟨hlo, hlt, hchain⟩ := hused
    have hle := hchain.le
    exact released_of_chain hbounds.1 hlt hchain (by omega)
  | @wrapped upper lower top hlive _ hupper htop hlower hle hlast hskip =>
    cases upper with
    | nil =>
      obtain rfl := hlive
      obtain ⟨hlo, hlt, hchain⟩ := hlower
      exact released_of_chain hbounds.1 hlt hchain (hle.trans_lt hlast)
    | cons c upper =>
      obtain ⟨rfl, rfl⟩ := List.cons.inj hlive
      obtain ⟨hlo, hlt, hchain⟩ := hupper
      by_cases hhi : b.hi = f.last
      · have hnil : upper = [] := by
          by_contra hne
          have := hchain.lt_of_ne_nil hne
          omega
        subst hnil
        exact released_rollover (by omega) hlt hhi hlower
      · exact released_upper hlo.symm hlt hchain htop hlower hle hhi hskip

end Layout

/-- A block that `pj_fifobuf_alloc` places lies behind the live ones and takes only free bytes. -/
theorem Layout.allocPlace {f f' : Fifobuf} {live : List Interval} (h : Layout f live) {size ptr : Nat}
    (hfit : size + headerSize < wordSize) (heq : FifoBuf.allocPlace f size = some (ptr, f')) :
    Layout f' (live ++ [⟨ptr, ptr + (size + headerSize)⟩]) ∧
      ∀ x, ptr ≤ x → x < ptr + (size + headerSize) → ¬Reserved f x := by
  simp only [FifoBuf.allocPlace, Option.ite_none_left_eq_some, Bool.not_eq_true, Option.or_eq_some_iff]
    at heq
  obtain ⟨hnot, htail | ⟨_, hfront⟩⟩ := heq
  · exact h.allocTail hnot hfit htail
  · exact h.allocFront hnot hfit hfront

theorem allocPlace_last {f f' : Fifobuf} {size ptr : Nat} (h : allocPlace f size = some (ptr, f')) :
    f'.first = f.first ∧ f'.last = f.last := by
  simp only [allocPlace, allocTail, allocFront, Option.ite_none_left_eq_some, Option.or_eq_some_iff,
    Option.ite_none_right_eq_some, Option.some.injEq, Prod.mk.injEq] at h
  obtain ⟨_, ⟨_, _, rfl⟩ | ⟨_, _, _, rfl⟩⟩ := h <;> exact ⟨rfl, rfl⟩

theorem released_ends (f : Fifobuf) (hi : Nat) : (released f hi).first = f.first ∧ (released f hi).last = f.last := by
  simp only [released]
  split <;> split <;> exact ⟨rfl, rfl⟩

/-- The header of a new block is written outside the blocks that were live before. -/
theorem Headers.putSize {mem : Memory} {live : List Interval} (h : Headers mem live) {ptr size : Nat}
    (hfit : size + headerSize < wordSize)
    (hapart : (live ++ [⟨ptr, ptr + (size + headerSize)⟩] : List Interval).Pairwise Apart) :
    Headers (FifoBuf.putSize mem ptr (size + headerSize)) (live ++ [⟨ptr, ptr + (size + headerSize)⟩]) := by
  obtain ⟨_, _, hnew⟩ := List.pairwise_append.mp hapart
  intro b hb
  rcases List.mem_append.mp hb with hb | hb
  · obtain ⟨hle, hsize⟩ := h b hb
    refine ⟨hle, (getSize_congr fun a hlo hhi => putSize_of_outside ?_).trans hsize⟩
    have hsep : b.hi ≤ ptr ∨ ptr + (size + headerSize) ≤ b.lo := hnew b hb _ (List.mem_singleton.mpr rfl)
    omega
  · obtain rfl := List.mem_singleton.mp hb
    refine ⟨by simp only; omega, (getSize_putSize mem ptr hfit).trans ?_⟩
    simp only
    omega

theorem Headers.update {mem : Memory} {live : List Interval} (h : Headers mem live)
    (hapart : live.Pairwise Apart) {c : Interval} (hc : c ∈ live) {addr : Nat} {byte : UInt8}
    (hlo : c.lo + headerSize ≤ addr) (hhi : addr < c.hi) : Headers (Function.update mem addr byte) live := by
  intro b hb
  obtain ⟨hle, hsize⟩ := h b hb
  refine ⟨hle, (getSize_congr fun a ha ha' => Function.update_of_ne ?_ _ _).trans hsize⟩
  by_cases hbc : b = c
  · subst hbc
    omega
  · rcases hapart.forall hb hc hbc with hsep | hsep <;> omega

theorem Inv.start {buffer size : Nat} (hlast : buffer + size < wordSize) (mem : Memory) :
    Inv (start buffer size mem) :=
  ⟨hlast, layout_init buffer size, nofun⟩

theorem Inv.fifobufFree {s : State} (h : Inv s) {b : Interval} {rest : List Interval} (hlive : s.live = b :: rest) :
    FifoBuf.fifobufFree s.buf s.mem (b.lo + headerSize) = (.success, released s.buf b.hi) := by
  have hlayout := hlive ▸ h.layout
  have hmem : b ∈ s.live := hlive ▸ List.mem_cons_self
  have hbounds := h.layout.bounds hmem
  exact fifobufFree_eq h.last_lt hbounds.1 hbounds.2 hlayout.oldest.1 hlayout.oldest.2 (h.headers b hmem)

theorem Inv.step {s t : State} {a : Action} (h : Inv s) (hfit : Fits a) (hs : step s a = some t) :
    Inv t ∧ t.buf.first = s.buf.first ∧ t.buf.last = s.buf.last := by
  cases a with
  | alloc size =>
    have hsize : blockSize size = size + headerSize := Nat.mod_eq_of_lt hfit
    simp only [FifoBuf.step, fifobufAlloc, Option.ite_none_right_eq_some] at hs
    obtain ⟨_, hs⟩ := hs
    cases hplace : allocPlace s.buf size with
    | none =>
      simp only [hplace, Option.some.injEq] at hs
      subst hs
      exact ⟨h, rfl, rfl⟩
    | some place =>
      obtain ⟨ptr, f'⟩ := place
      simp only [hplace, hsize, blockAt, Nat.add_sub_cancel, Option.some.injEq] at hs
      subst hs
      obtain ⟨hlayout, _⟩ := h.layout.allocPlace hfit hplace
      obtain ⟨hfirst, hlast⟩ := allocPlace_last hplace
      exact ⟨⟨hlast ▸ h.last_lt, hlayout, h.headers.putSize hfit hlayout.apart⟩, hfirst, hlast⟩
  | free =>
    cases hlive : s.live with
    | nil => simp [FifoBuf.step, hlive] at hs
    | cons b rest =>
      simp only [FifoBuf.step, hlive, h.fifobufFree hlive, Option.some.injEq] at hs
      subst hs
      have hlayout := hlive ▸ h.layout
      obtain ⟨hfirst, hlast⟩ := released_ends s.buf b.hi
      refine ⟨⟨hlast ▸ h.last_lt, hlayout.released.1, fun c hc => ?_⟩, hfirst, hlast⟩
      exact h.headers c (hlive ▸ List.mem_cons_of_mem b hc)
  | write addr byte =>
    simp only [FifoBuf.step, Option.ite_none_right_eq_some, Option.some.injEq] at hs
    obtain ⟨⟨c, hc, hlo, hhi⟩, rfl⟩ := hs
    exact ⟨⟨h.last_lt, h.layout, h.headers.update h.layout.apart hc hlo hhi⟩, rfl, rfl⟩

/-- What the buffer promises of a state: the live blocks with their headers lie inside it and do not
meet; the oldest one can be released, which frees its bytes and no byte of another; `full` is set when
`uend` has met `ubegin` with a block live (or the buffer has no byte), and then only the tail skipped at
a wrap, behind every live block, is not in one; with no live block everything is available again. -/
structure Safe (s : State) : Prop where
  inside : ∀ b ∈ s.live, s.buf.first ≤ b.lo ∧ b.hi ≤ s.buf.last
  apart : s.live.Pairwise Apart
  fresh : ∀ size ptr, size + headerSize < wordSize → (fifobufAlloc s.buf s.mem size).1 = some ptr →
    ∀ x, (blockAt ptr size).lo ≤ x → x < (blockAt ptr size).hi → ¬Layout.Reserved s.buf x
  oldest : ∀ b rest, s.live = b :: rest → ∃ f,
    fifobufFree s.buf s.mem (b.lo + headerSize) = (.success, f) ∧
    (∀ x, b.lo ≤ x → x < b.hi → ¬Layout.Reserved f x) ∧
    ∀ c ∈ rest, ∀ x, c.lo ≤ x → x < c.hi → Layout.Reserved f x
  full_iff : s.buf.full = true ↔
    s.buf.uend = s.buf.ubegin ∧ (s.live ≠ [] ∨ s.buf.first = s.buf.last)
  behind : s.buf.full = true → ∀ x, s.buf.first ≤ x → x < s.buf.last →
    (∀ b ∈ s.live, ¬(b.lo ≤ x ∧ x < b.hi)) → ∀ b ∈ s.live, b.hi ≤ x
  restored : s.live = [] → fifobufAvailableSize s.buf = s.buf.last - s.buf.first - headerSize ∧
    (headerSize ≤ s.buf.last - s.buf.first → fifobufAvailableSize s.buf = fifobufCapacity s.buf) ∧
    ∀ size, size + headerSize < wordSize →
      ((fifobufAlloc s.buf s.mem size).1.isSome ↔ size + headerSize ≤ s.buf.last - s.buf.first)

/-- A buffer as `pj_fifobuf_init` leaves it has its capacity available. -/
theorem available_init (buffer size : Nat) : fifobufAvailableSize (fifobufInit buffer size) = size - headerSize := by
  simp only [fifobufAvailableSize, fifobufInit, headerSize, Nat.add_eq_left, Nat.add_sub_cancel_left]
  by_cases hzero : size = 0
  · simp [hzero]
  · by_cases hsmall : size ≤ 4
    · simp [hzero, hsmall]
    · have hle : 4 ≤ size := by omega
      simp [hzero, hsmall, hle]

theorem alloc_init (buffer : Nat) {size n : Nat} (mem : Memory) (hfit : n + headerSize < wordSize) :
    (fifobufAlloc (fifobufInit buffer size) mem n).1.isSome ↔ n + headerSize ≤ size := by
  have hsize : blockSize n = n + headerSize := Nat.mod_eq_of_lt hfit
  have hpos : 0 < headerSize := by decide
  simp only [fifobufAlloc, allocPlace, allocTail, allocFront, fifobufInit, hsize, Nat.add_eq_left,
    Nat.add_sub_cancel_left, Nat.le_refl, true_and]
  by_cases hzero : size = 0
  · simp only [hzero, decide_true, if_true, Option.isSome_none, Bool.false_eq_true, false_iff]
    omega
  · by_cases hle : n + headerSize ≤ size
    · simp [hzero, hle]
    · simp [hzero, hle, hpos.ne']

theorem Inv.safe {s : State} (h : Inv s) : Safe s where
  inside b hb := h.layout.bounds hb
  apart := h.layout.apart
  fresh size ptr hfit hptr := by
    simp only [fifobufAlloc] at hptr
    cases hplace : allocPlace s.buf size with
    | none => simp [hplace] at hptr
    | some place =>
      obtain ⟨lo, f⟩ := place
      simp only [hplace, Option.some.injEq] at hptr
      subst hptr
      simp only [blockAt, Nat.add_sub_cancel]
      exact (h.layout.allocPlace hfit hplace).2
  oldest b rest hlive := by
    obtain ⟨hlayout, hfreed⟩ := (hlive ▸ h.layout).released
    refine ⟨_, h.fifobufFree hlive, hfreed, fun c hc x hlo hhi => ?_⟩
    exact hlayout.reserved_of_mem hc hlo hhi
  full_iff := h.layout.full_iff
  behind hfull x hfirst hlast := h.layout.behind_of_full hfull hfirst hlast
  restored hlive := by
    have hinit := (hlive ▸ h.layout).of_nil
    have havailable : fifobufAvailableSize s.buf = s.buf.last - s.buf.first - headerSize := by
      rw [hinit, available_init]
      simp [fifobufInit]
    have hlast := h.last_lt
    have hpos : 0 < headerSize := by decide
    refine ⟨havailable, fun hle => ?_, fun size hfit => ?_⟩
    · rw [havailable, fifobufCapacity, if_pos (by omega), Nat.add_sub_assoc hle, Nat.add_mod_left, Nat.mod_eq_of_lt (by omega)]
    · rw [hinit, alloc_init _ _ hfit]
      simp [fifobufInit]

/-- Every run of requests whose size fits with its header, releases of the oldest block and writes into
the blocks keeps what the buffer promises. -/
theorem safe_of_fifo_run {buffer size : Nat} {mem : Memory} (hlast : buffer + size < wordSize)
    {acts : List Action} (hfits : ∀ a ∈ acts, Fits a) {s : State}
    (hrun : exec step (start buffer size mem) acts = some s) : Safe s :=
  (exec_invariant_of_meets (fun _ _ _ h hfit hs => (h.step hfit hs).1) (Inv.start hlast mem)
    (meets_of_forall hfits _) hrun).safe

/-- A buffer of 20 bytes that wraps: the third block goes in front of the second. -/
theorem safe_of_fifo_run_wrapped : ∃ s,
    exec step (start 4096 20 0) [.alloc 4, .alloc 4, .write 4100 7, .free, .alloc 4] = some s ∧
    s.live = [⟨4104, 4112⟩, ⟨4096, 4104⟩] ∧ Safe s := by
  have hsome := Option.some_get
    (x := exec step (start 4096 20 0) [.alloc 4, .alloc 4, .write 4100 7, .free, .alloc 4]) (by decide)
  exact ⟨_, hsome.symm, by decide, safe_of_fifo_run (by decide) (by decide) hsome.symm⟩

/-- There the buffer is full, and the four bytes behind the second block are in no block. -/
theorem full_with_free_tail : ∃ s,
    exec step (start 4096 20 0) [.alloc 4, .alloc 4, .free, .alloc 4] = some s ∧
    s.buf.full = true ∧ s.buf.last = 4116 ∧ ∀ b ∈ s.live, ¬(b.lo ≤ 4112 ∧ 4112 < b.hi) := by
  have hsome := Option.some_get
    (x := exec step (start 4096 20 0) [.alloc 4, .alloc 4, .free, .alloc 4]) (by decide)
  exact ⟨_, hsome.symm, by decide, by decide, by decide⟩

end PjProject.FifoBuf
