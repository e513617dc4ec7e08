import PjProject.Dns
import Mathlib.Tactic.IntervalCases

/-! Where `pj_dns_make_query` writes. The function fills the caller's buffer through a moving pointer, after
one comparison of the buffer's size with a length computed from the name; the stores are followed here one
by one. That length leaves room for the labels and not for the zero behind them, nor for the length byte of
a name that does not end in a dot, so the stores of an accepted query can run past the buffer. -/

namespace PjProject.Dns

/-- The bytes stored into the buffer, each with its offset, in the order of the stores. -/
abbrev Stores := List (UInt8 × Nat)

/-- The pointer `p`, as an offset into the buffer, and the stores made so far. -/
structure Out where
  p : Nat
  stores : Stores

/-- Bytes are stored from `p` on, and `p` moves behind them. -/
def Out.put (out : Out) (bytes : List UInt8) : Out :=
  { p := out.p + bytes.length
    stores := out.stores ++ bytes.zipIdx out.p }

/-- The loop over the rest of the name: a length byte, the label, and `p` behind it. -/
def putLabels : Nat → List UInt8 → Out → Out
  | turns + 1, c :: rest, out =>
    let label := (c :: rest).takeWhile (· ≠ dot)
    putLabels turns (((c :: rest).dropWhile (· ≠ dot)).drop 1) ((out.put [.ofNat label.length]).put label)
  | _, _, out => out

/-- The header is cleared, and three of its fields are set. -/
def putHeader (id : UInt16) : Stores :=
  (List.replicate headerSize 0).zipIdx 0 ++ (write16 id.toNat).zipIdx 0 ++ (write16 (2 ^ 8)).zipIdx 2 ++
    (write16 1).zipIdx 4

/-- `pj_dns_make_query` as it fills the buffer: its stores, and the value left in `*size`. -/
def makeQueryInto (size : Nat) (id : UInt16) (qtype : Int) (name : List UInt8) : Except Error (Stores × Nat) :=
  if qtype = 0 then .error .einval
  else if size < headerSize + name.length + 4 then .error .qryTooSmall
  else
    let labels := putLabels name.length name ⟨headerSize, putHeader id⟩
    let out := ((labels.put [0]).put (write16 (qtype % 2 ^ 16).toNat)).put (write16 1)
    .ok (out.stores, out.p)

/-- The caller's buffer is respected: every store is inside it, and the bytes stored are as many as `*size`
says, from the start of the buffer on. -/
def Respects (size : Nat) : Except Error (Stores × Nat) → Prop
  | .error _ => True
  | .ok (stores, written) => (∀ w ∈ stores, w.2 < size) ∧ ∀ off, off < written ↔ ∃ b, (b, off) ∈ stores

theorem Out.put_nil (out : Out) : out.put [] = out := by
  unfold Out.put
  rw [List.zipIdx_nil, List.append_nil, List.length_nil, Nat.add_zero]

theorem Out.put_put (out : Out) (first next : List UInt8) : (out.put first).put next = out.put (first ++ next) := by
  unfold Out.put
  rw [List.zipIdx_append, List.length_append, Nat.add_assoc, List.append_assoc]

theorem putLabels_eq (turns : Nat) (name : List UInt8) (out : Out) :
    putLabels turns name out = out.put (encodeName turns name) := by
  induction turns generalizing name out with
  | zero =>
    rw [putLabels, encodeName, Out.put_nil]
    all_goals exact nofun
  | succ turns ih =>
    cases name with
    | nil =>
      rw [putLabels, encodeName, Out.put_nil]
      all_goals exact nofun
    | cons c rest =>
      rw [putLabels, encodeName, ih, Out.put_put, Out.put_put]
      rfl

/-- What is stored behind the header. -/
def queryTail (qtype : Int) (name : List UInt8) : List UInt8 :=
  encodeName name.length name ++ [0] ++ write16 (qtype % 2 ^ 16).toNat ++ write16 1

theorem makeQueryInto_eq {size : Nat} {qtype : Int} {name : List UInt8} (id : UInt16) (hqtype : qtype ≠ 0)
    (hsize : headerSize + name.length + 4 ≤ size) :
    makeQueryInto size id qtype name =
      .ok (putHeader id ++ (queryTail qtype name).zipIdx headerSize, headerSize + (queryTail qtype name).length) := by
  unfold makeQueryInto
  rw [if_neg hqtype, if_neg (not_lt.mpr hsize)]
  simp only
  have htail : encodeName name.length name ++ ([0] ++ (write16 (qtype % 2 ^ 16).toNat ++ write16 1)) =
      queryTail qtype name := by
    rw [queryTail, List.append_assoc, List.append_assoc]
  rw [putLabels_eq, Out.put_put, Out.put_put, Out.put_put, htail]
  rfl

/-- The stores, done on the buffer one after another. -/
def replay (mem : Nat → UInt8) (stores : Stores) : Nat → UInt8 :=
  stores.foldl (fun mem w => Function.update mem w.2 w.1) mem

theorem replay_append (mem : Nat → UInt8) (stores more : Stores) :
    replay mem (stores ++ more) = replay (replay mem stores) more := by
  unfold replay
  rw [List.foldl_append]

theorem replay_zipIdx (mem : Nat → UInt8) (bytes : List UInt8) (p off : Nat) :
    replay mem (bytes.zipIdx p) off = if p ≤ off ∧ off < p + bytes.length then byteAt bytes (off - p) else mem off := by
  induction bytes generalizing mem p with
  | nil =>
    rw [if_neg (by rw [List.length_nil]; omega)]
    rfl
  | cons b rest ih =>
    have hcons : replay mem ((b :: rest).zipIdx p) = replay (Function.update mem p b) (rest.zipIdx (p + 1)) := by
      rw [List.zipIdx_cons]
      rfl
    rw [hcons, ih, List.length_cons]
    by_cases heq : off = p
    · rw [heq, if_neg (by omega), if_pos (by omega), Function.update_self, Nat.sub_self]
      rfl
    rw [Function.update_of_ne heq]
    by_cases hin : p + 1 ≤ off ∧ off < p + 1 + rest.length
    · have hoff : off - p = off - (p + 1) + 1 := by omega
      rw [if_pos hin, if_pos (by omega), hoff]
      rfl
    · rw [if_neg hin, if_neg (by omega)]

/-- The header as `makeQuery` has it. -/
def header (id : UInt16) : List UInt8 :=
  write16 id.toNat ++ write16 (2 ^ 8) ++ write16 1 ++ write16 0 ++ write16 0 ++ write16 0

theorem length_header (id : UInt16) : (header id).length = headerSize := rfl

theorem replay_putHeader (mem : Nat → UInt8) (id : UInt16) (off : Nat) :
    replay mem (putHeader id) off = if off < headerSize then byteAt (header id) off else mem off := by
  unfold putHeader
  rw [replay_append, replay_append, replay_append, replay_zipIdx, replay_zipIdx, replay_zipIdx, replay_zipIdx]
  by_cases hoff : off < headerSize
  · have hlt : off < 12 := hoff
    interval_cases off <;> rfl
  · rw [if_neg hoff]
    simp only [headerSize, write16, length_toBytes, List.length_replicate] at hoff ⊢
    rw [if_neg (by omega), if_neg (by omega), if_neg (by omega), if_neg (by omega)]

/-- The bytes an offset below `written` gets are those of the packet, and the others stay. -/
theorem replay_makeQueryInto {size written : Nat} {id : UInt16} {qtype : Int} {name : List UInt8} {stores : Stores}
    (h : makeQueryInto size id qtype name = .ok (stores, written)) (mem : Nat → UInt8) :
    ∃ pkt, makeQuery size id qtype name = .ok pkt ∧ written = pkt.length ∧
      replay mem stores = fun off => if off < pkt.length then byteAt pkt off else mem off := by
  have hqtype : qtype ≠ 0 := by
    intro hzero
    rw [makeQueryInto, if_pos hzero] at h
    cases h
  have hsize : headerSize + name.length + 4 ≤ size := by
    by_contra hless
    rw [makeQueryInto, if_neg hqtype, if_pos (not_le.mp hless)] at h
    cases h
  rw [makeQueryInto_eq id hqtype hsize] at h
  obtain ⟨hstores, hwritten⟩ := Prod.mk.inj (Except.ok.inj h)
  have hmake : makeQuery size id qtype name = .ok (header id ++ queryTail qtype name) := by
    rw [makeQuery, if_neg hqtype, if_neg (not_lt.mpr hsize), queryTail, header]
  refine ⟨_, hmake, ?_, ?_⟩
  · rw [← hwritten, List.length_append, length_header]
  · funext off
    rw [← hstores, replay_append, replay_zipIdx, replay_putHeader, List.length_append, length_header]
    by_cases hoff : off < headerSize
    · rw [if_neg (by omega), if_pos hoff, if_pos (by omega), byteAt_append_left _ (by rw [length_header]; exact hoff)]
    · by_cases hin : off < headerSize + (queryTail qtype name).length
      · rw [if_pos ⟨by omega, hin⟩, if_pos hin]
        unfold byteAt
        rw [List.getD_eq_getElem?_getD, List.getD_eq_getElem?_getD,
          List.getElem?_append_right (by rw [length_header]; omega), length_header]
      · rw [if_neg (by omega), if_neg hoff, if_neg hin]

/-- The name `a` in memory that is all ones. -/
theorem replay_makeQueryInto_a : ∃ stores pkt, makeQueryInto 512 7 1 [97] = .ok (stores, 19) ∧ pkt.length = 19 ∧
    replay (fun _ => 255) stores = fun off => if off < pkt.length then byteAt pkt off else 255 := by
  obtain ⟨pkt, -, hwritten, hreplay⟩ := replay_makeQueryInto
    (show makeQueryInto 512 7 1 [97] = .ok (_, 19) from rfl) fun _ => 255
  exact ⟨_, pkt, rfl, hwritten.symm, hreplay⟩

/-- Every dot stands where a length byte was stored; one more is stored for a last label without a dot. -/
theorem length_encodeName {turns : Nat} {name : List UInt8} (h : name.length ≤ turns) :
    (encodeName turns name).length = name.length + if name = [] ∨ name.getLast? = some dot then 0 else 1 := by
  induction turns generalizing name with
  | zero =>
    have hnil : name = [] := List.eq_nil_of_length_eq_zero (Nat.le_zero.mp h)
    rw [hnil, if_pos (.inl rfl)]
    rfl
  | succ turns ih =>
    cases name with
    | nil =>
      rw [if_pos (.inl rfl)]
      rfl
    | cons c rest =>
      have hsplit := List.takeWhile_append_dropWhile (p := (· ≠ dot)) (l := c :: rest)
      rw [encodeName]
      generalize hlabel : (c :: rest).takeWhile (· ≠ dot) = label at hsplit
      generalize hafter : (c :: rest).dropWhile (· ≠ dot) = after at hsplit
      rw [← hsplit] at h ⊢
      cases after with
      | nil =>
        -- the last label: no byte of the name is a dot
        have hall : ∀ b ∈ label, b ≠ dot := by
          intro b hb
          rw [← hlabel] at hb
          exact of_decide_eq_true (List.all_eq_true.mp (List.all_takeWhile) b hb)
        have hne : label ≠ [] := by
          intro hnil
          rw [hnil] at hsplit
          cases hsplit
        have hlast : label.getLast? ≠ some dot := by
          intro hlast
          exact hall dot (List.mem_of_getLast? hlast) rfl
        rw [List.append_nil, if_neg (by rw [not_or]; exact ⟨hne, hlast⟩), List.drop_nil, List.length_cons,
          List.length_append]
        cases turns <;> rfl
      | cons b more =>
        have hdot : b = dot := by
          have hnot := List.head_dropWhile_not (· ≠ dot) (l := c :: rest) (by rw [hafter]; exact List.cons_ne_nil _ _)
          simp only [hafter, List.head_cons] at hnot
          simpa using hnot
        rw [List.length_append, List.length_cons] at h
        have hmore := @ih more (by omega)
        rw [List.drop_succ_cons, List.drop_zero, List.length_cons, List.length_append, hmore, List.length_append,
          List.length_cons, hdot]
        cases more with
        | nil =>
          rw [if_pos (.inl rfl), if_pos (.inr List.getLast?_concat)]
          simp only [List.length_nil]
        | cons d more =>
          have hiff : (label ++ dot :: d :: more = [] ∨ (label ++ dot :: d :: more).getLast? = some dot) ↔
              (d :: more = [] ∨ (d :: more).getLast? = some dot) := by
            simp
          rw [if_congr hiff rfl rfl]
          omega

theorem length_queryTail (qtype : Int) (name : List UInt8) :
    (queryTail qtype name).length = name.length + if name = [] ∨ name.getLast? = some dot then 5 else 6 := by
  rw [queryTail, List.length_append, List.length_append, List.length_append, length_encodeName le_rfl, write16,
    write16, length_toBytes, length_toBytes, List.length_singleton]
  split <;> omega

theorem mem_putHeader {id : UInt16} {off : Nat} : (∃ b, (b, off) ∈ putHeader id) ↔ off < headerSize := by
  constructor
  · rintro ⟨b, hb⟩
    simp only [putHeader, List.mem_append, List.mem_zipIdx_iff_le_and_getElem?_sub] at hb
    rcases hb with ((⟨-, hb⟩ | ⟨-, hb⟩) | ⟨-, hb⟩) | ⟨-, hb⟩
    all_goals
      have hlt := (List.getElem?_eq_some_iff.mp hb).1
      simp only [List.length_replicate, write16, length_toBytes, headerSize] at hlt ⊢
      omega
  · intro hoff
    refine ⟨0, ?_⟩
    simp only [putHeader, List.mem_append]
    refine .inl (.inl (.inl ?_))
    rw [List.mem_zipIdx_iff_getElem?]
    exact List.getElem?_replicate_of_lt hoff

/-- The buffer is respected when and only when the query is refused or the buffer has room for the labels, the
zero behind them, the type and the class. -/
theorem respects_iff (size : Nat) (id : UInt16) (qtype : Int) (name : List UInt8) :
    Respects size (makeQueryInto size id qtype name) ↔
      qtype = 0 ∨ size < headerSize + name.length + 4 ∨
        headerSize + name.length + (if name = [] ∨ name.getLast? = some dot then 5 else 6) ≤ size := by
  by_cases hqtype : qtype = 0
  · rw [makeQueryInto, if_pos hqtype]
    exact iff_of_true trivial (.inl hqtype)
  by_cases hsize : size < headerSize + name.length + 4
  · rw [makeQueryInto, if_neg hqtype, if_pos hsize]
    exact iff_of_true trivial (.inr (.inl hsize))
  rw [makeQueryInto_eq id hqtype (not_lt.mp hsize), or_iff_right hqtype, or_iff_right hsize, Nat.add_assoc,
    ← length_queryTail qtype name, Respects]
  generalize queryTail qtype name = tail
  have hmem : ∀ off, (∃ b, (b, off) ∈ putHeader id ++ tail.zipIdx headerSize) ↔ off < headerSize + tail.length := by
    intro off
    constructor
    · rintro ⟨b, hb⟩
      rcases List.mem_append.mp hb with hb | hb
      · have hlt := mem_putHeader.mp ⟨b, hb⟩
        omega
      · rw [List.mem_zipIdx_iff_le_and_getElem?_sub] at hb
        have hlt := (List.getElem?_eq_some_iff.mp hb.2).1
        omega
    · intro hoff
      by_cases hheader : off < headerSize
      · obtain ⟨b, hb⟩ := mem_putHeader.mpr hheader
        exact ⟨b, List.mem_append_left _ hb⟩
      · refine ⟨tail.get ⟨off - headerSize, by omega⟩, List.mem_append_right _ ?_⟩
        rw [List.mem_zipIdx_iff_le_and_getElem?_sub]
        exact ⟨not_lt.mp hheader, List.getElem?_eq_getElem _⟩
  constructor
  · rintro ⟨hstores, -⟩
    by_contra hless
    obtain ⟨b, hb⟩ := (hmem size).mpr (not_le.mp hless)
    exact absurd (hstores _ hb) (Nat.lt_irrefl _)
  · intro hroom
    refine ⟨fun w hw => ?_, fun off => (hmem off).symm⟩
    have hlt := (hmem w.2).mp ⟨w.1, hw⟩
    omega

/-- A query for the name `abc` is put into a buffer of 19 bytes, and takes 21. -/
theorem not_respects_abc : (∃ stores, makeQueryInto 19 7 1 [97, 98, 99] = .ok (stores, 21) ∧ (1, 20) ∈ stores) ∧
    ¬Respects 19 (makeQueryInto 19 7 1 [97, 98, 99]) := by
  have hmake : ∃ stores, makeQueryInto 19 7 1 [97, 98, 99] = .ok (stores, 21) ∧ (1, 20) ∈ stores :=
    ⟨_, Eq.refl _, by decide⟩
  refine ⟨hmake, fun h => ?_⟩
  obtain ⟨stores, heq, hmem⟩ := hmake
  rw [heq] at h
  exact absurd (h.1 _ hmem) (by decide)

end PjProject.Dns
