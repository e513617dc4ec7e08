import PjProject.Dns

/-! The two readers of a name in a DNS packet. `get_name_len` reports how long the name is and `get_name`
copies it into a buffer of that length; both follow the labels and the compression pointers of a packet
that anyone may have sent. One walk over the packet, with what each of them does at a label, a pointer and
the end, gives both; the walk lists the bytes it reads, each with the `rec_counter` of the call. -/

namespace PjProject.Dns

/-- `MAX_NAME_RECURSION`. -/
def maxNameRecursion : Nat := 5

/-- A byte of the packet that is read, and the `rec_counter` of the call that reads it. -/
structure Read where
  recCounter : Nat
  off : Nat

/-- The bytes a call reads, in order, and what it returns. -/
structure Pass (σ : Type) where
  reads : List Read
  result : Except Error σ

def Pass.after {σ : Type} (reads : List Read) (pass : Pass σ) : Pass σ :=
  { pass with reads := reads ++ pass.reads }

/-- What a reader of names keeps in `σ`: at a label, found at an offset and of a length; for the call at a
pointer, and after it; and at the end. `copied` are the bytes of a label it reads. -/
structure Visitor (σ : Type) where
  label : List UInt8 → σ → Nat → Nat → σ
  enter : σ → σ
  leave : σ → σ → σ
  stop : σ → σ
  copied : Nat → Nat → List Nat

variable {σ : Type}

/-- The loop over the labels; `target` is the call for the name a pointer leads to. It is `none` when the
turns do not suffice. -/
def walk (v : Visitor σ) (pkt : List UInt8) (recCounter : Nat) (target : Nat → σ → Option (Pass σ)) :
    Nat → Nat → σ → Option (Pass σ)
  | 0, _, _ => none
  | turns + 1, p, s =>
    if p < pkt.length then
      if byteAt pkt p = 0 then some ⟨[⟨recCounter, p⟩], .ok (v.stop s)⟩
      else if isPointer (byteAt pkt p) then
        if pkt.length ≤ p + 1 then some ⟨[⟨recCounter, p⟩], .error .inNamePtr⟩
        else if pkt.length ≤ pointerOffset pkt p then
          some ⟨[⟨recCounter, p⟩, ⟨recCounter, p + 1⟩], .error .inNamePtr⟩
        else
          (target (pointerOffset pkt p) (v.enter s)).map fun pass =>
            ⟨⟨recCounter, p⟩ :: ⟨recCounter, p + 1⟩ :: pass.reads, pass.result.map (v.leave s)⟩
      else
        let labelLen := (byteAt pkt p).toNat
        if pkt.length < p + 1 + labelLen + 1 then some ⟨[⟨recCounter, p⟩], .error .inNamePtr⟩
        else
          (walk v pkt recCounter target turns (p + (labelLen + 1)) (v.label pkt s p labelLen)).map
            (Pass.after ((p :: v.copied p labelLen ++ [p + (labelLen + 1)]).map (Read.mk recCounter)))
    else some ⟨[], .ok (v.stop s)⟩

/-- A call for the name at `start`. The first argument bounds the calls inside each other; it is `none` when
they are more. -/
def callAt (v : Visitor σ) (pkt : List UInt8) : Nat → Nat → Nat → σ → Option (Pass σ)
  | 0, _, _, _ => none
  | calls + 1, recCounter, start, s =>
    if maxNameRecursion < recCounter then some ⟨[], .error .inNamePtr⟩
    else if pkt.length ≤ start then some ⟨[], .error .inNamePtr⟩
    else walk v pkt recCounter (callAt v pkt calls (recCounter + 1)) (pkt.length + 1) start s

/-- `get_name_len` keeps `*parsed_len` and `*name_len`. -/
def lenVisitor : Visitor (Nat × Nat) where
  label pkt s p labelLen :=
    (s.1 + (labelLen + 1), s.2 + if byteAt pkt (p + (labelLen + 1)) ≠ 0 then labelLen + 1 else labelLen)
  enter _ := (0, 0)
  leave s target := (s.1 + 2, s.2 + target.2)
  stop s := (s.1 + 1, s.2)
  copied _ _ := []

/-- `get_name` keeps the name, and copies the bytes of the labels. -/
def nameVisitor : Visitor (List UInt8) where
  label pkt name p labelLen :=
    let name := name ++ slice pkt (p + 1) labelLen
    if byteAt pkt (p + (labelLen + 1)) ≠ 0 then name ++ [dot] else name
  enter name := name
  leave _ target := target
  stop name := name
  copied p labelLen := (List.range labelLen).map (p + 1 + ·)

/-- The calls that can be inside each other: those with `rec_counter` up to `MAX_NAME_RECURSION`, and the one
that is refused. -/
def maxCalls : Nat := maxNameRecursion + 2

/-- `get_name_len` of a name of the packet. -/
def getNameLenPass (pkt : List UInt8) (start : Nat) : Option (Pass (Nat × Nat)) :=
  callAt lenVisitor pkt maxCalls 0 start (0, 0)

/-- `get_name` into an empty buffer. -/
def getNamePass (pkt : List UInt8) (start : Nat) : Option (Pass (List UInt8)) :=
  callAt nameVisitor pkt maxCalls 0 start []

/-- The two calls for the name at `start` succeed or fail together; the name that is appended to one of `base`
bytes is as long as reported, and its labels and pointer lie in front of `max`. -/
def Agree (pkt : List UInt8) (start base : Nat) : Except Error (Nat × Nat) → Except Error (List UInt8) → Prop
  | .ok (parsedLen, nameLen), .ok name => name.length = base + nameLen ∧ start + parsedLen ≤ pkt.length
  | .error e, .error e' => e = e'
  | _, _ => False

section Reads

/-- The reads of a pass are inside the packet, by calls the recursion limit allows. -/
def Inside (pkt : List UInt8) (pass : Pass σ) : Prop :=
  ∀ r ∈ pass.reads, r.off < pkt.length ∧ r.recCounter ≤ maxNameRecursion

def Visitor.Copies (v : Visitor σ) : Prop := ∀ p labelLen, ∀ o ∈ v.copied p labelLen, o < p + 1 + labelLen

theorem lenVisitor_copies : lenVisitor.Copies := by
  intro p labelLen o ho
  cases ho

theorem nameVisitor_copies : nameVisitor.Copies := by
  intro p labelLen o ho
  obtain ⟨i, hi, rfl⟩ := List.mem_map.mp ho
  have hlt := List.mem_range.mp hi
  omega

/-- The walk ends within the turns, and reads inside the packet, when the calls it makes do. -/
theorem walk_inside {v : Visitor σ} (hcopies : v.Copies) {pkt : List UInt8} {recCounter : Nat}
    (hrec : recCounter ≤ maxNameRecursion) {target : Nat → σ → Option (Pass σ)}
    (htarget : ∀ off s, ∃ pass, target off s = some pass ∧ Inside pkt pass) {turns p : Nat}
    (hturns : pkt.length - p < turns) (s : σ) :
    ∃ pass, walk v pkt recCounter target turns p s = some pass ∧ Inside pkt pass := by
  induction turns generalizing p s with
  | zero => omega
  | succ turns ih =>
    rw [walk]
    by_cases hp : p < pkt.length
    swap
    · rw [if_neg hp]
      exact ⟨_, rfl, nofun⟩
    have hread : ∀ r ∈ [(⟨recCounter, p⟩ : Read)], r.off < pkt.length ∧ r.recCounter ≤ maxNameRecursion := by
      intro r hr
      rw [List.mem_singleton.mp hr]
      exact ⟨hp, hrec⟩
    rw [if_pos hp]
    by_cases hzero : byteAt pkt p = 0
    · rw [if_pos hzero]
      exact ⟨_, rfl, hread⟩
    rw [if_neg hzero]
    by_cases hptr : isPointer (byteAt pkt p) = true
    · rw [if_pos hptr]
      by_cases hlast : pkt.length ≤ p + 1
      · rw [if_pos hlast]
        exact ⟨_, rfl, hread⟩
      rw [if_neg hlast]
      have hreads : ∀ r ∈ [(⟨recCounter, p⟩ : Read), ⟨recCounter, p + 1⟩],
          r.off < pkt.length ∧ r.recCounter ≤ maxNameRecursion := by
        intro r hr
        rcases List.mem_cons.mp hr with rfl | hr
        · exact ⟨hp, hrec⟩
        · rw [List.mem_singleton.mp hr]
          exact ⟨not_le.mp hlast, hrec⟩
      by_cases hoff : pkt.length ≤ pointerOffset pkt p
      · rw [if_pos hoff]
        exact ⟨_, rfl, hreads⟩
      rw [if_neg hoff]
      obtain ⟨pass, hpass, hinside⟩ := htarget (pointerOffset pkt p) (v.enter s)
      rw [hpass, Option.map_some]
      refine ⟨_, rfl, fun r hr => ?_⟩
      have hsplit : r ∈ [(⟨recCounter, p⟩ : Read), ⟨recCounter, p + 1⟩] ++ pass.reads := hr
      rcases List.mem_append.mp hsplit with hr | hr
      · exact hreads r hr
      · exact hinside r hr
    rw [if_neg hptr]
    by_cases hlabel : pkt.length < p + 1 + (byteAt pkt p).toNat + 1
    · simp only [if_pos hlabel]
      exact ⟨_, rfl, hread⟩
    simp only [if_neg hlabel]
    have hpos := toNat_pos_of_ne hzero
    have hless : pkt.length - (p + ((byteAt pkt p).toNat + 1)) < turns := by omega
    obtain ⟨pass, hpass, hinside⟩ := ih hless (v.label pkt s p (byteAt pkt p).toNat)
    rw [hpass, Option.map_some]
    refine ⟨_, rfl, fun r hr => ?_⟩
    rcases List.mem_append.mp hr with hr | hr
    · obtain ⟨o, ho, rfl⟩ := List.mem_map.mp hr
      refine ⟨?_, hrec⟩
      rcases List.mem_append.mp ho with ho | ho
      · rcases List.mem_cons.mp ho with rfl | ho
        · exact hp
        · have hlt := hcopies _ _ o ho
          simp only
          omega
      · rw [List.mem_singleton.mp ho]
        simp only
        omega
    · exact hinside r hr

/-- Calls inside each other are as many as the recursion limit allows, whatever the packet. -/
theorem callAt_inside {v : Visitor σ} (hcopies : v.Copies) (pkt : List UInt8) {calls recCounter : Nat}
    (hcalls : maxCalls ≤ calls + recCounter) (hpos : 0 < calls) (start : Nat) (s : σ) :
    ∃ pass, callAt v pkt calls recCounter start s = some pass ∧ Inside pkt pass := by
  induction calls generalizing recCounter start s with
  | zero => omega
  | succ calls ih =>
    rw [callAt]
    by_cases hrec : maxNameRecursion < recCounter
    · rw [if_pos hrec]
      exact ⟨_, rfl, nofun⟩
    rw [if_neg hrec]
    by_cases hstart : pkt.length ≤ start
    · rw [if_pos hstart]
      exact ⟨_, rfl, nofun⟩
    rw [if_neg hstart]
    have hmore : 0 < calls := by
      have hmax : maxCalls = maxNameRecursion + 2 := rfl
      omega
    exact walk_inside hcopies (not_lt.mp hrec) (fun off t => ih (by omega) hmore off t) (by omega) s

end Reads

section Results

/-- The walk of `get_name_len` returns what its loop does. -/
theorem walk_lenVisitor {pkt : List UInt8} {recCounter : Nat} {target : Nat → Nat × Nat → Option (Pass (Nat × Nat))}
    {len : Nat → Except Error (Nat × Nat)} (htarget : ∀ off, (target off (0, 0)).map Pass.result = some (len off))
    {turns p : Nat} (hturns : pkt.length - p < turns) (parsedLen nameLen : Nat) :
    (walk lenVisitor pkt recCounter target turns p (parsedLen, nameLen)).map Pass.result =
      some (nameLenLoop pkt len turns p parsedLen nameLen) := by
  induction turns generalizing p parsedLen nameLen with
  | zero => omega
  | succ turns ih =>
    rw [walk, nameLenLoop]
    by_cases hp : p < pkt.length
    swap
    · rw [if_neg hp, if_neg (fun h => hp h.1)]
      rfl
    rw [if_pos hp]
    by_cases hzero : byteAt pkt p = 0
    · rw [if_pos hzero, if_neg (fun h => h.2 hzero)]
      rfl
    have hgo : p < pkt.length ∧ byteAt pkt p ≠ 0 := ⟨hp, hzero⟩
    rw [if_neg hzero, if_pos hgo]
    by_cases hptr : isPointer (byteAt pkt p) = true
    · rw [if_pos hptr, if_pos hptr]
      by_cases hlast : pkt.length ≤ p + 1
      · rw [if_pos hlast, if_pos hlast]
        rfl
      rw [if_neg hlast, if_neg hlast]
      by_cases hoff : pkt.length ≤ pointerOffset pkt p
      · rw [if_pos hoff, if_pos hoff]
        rfl
      rw [if_neg hoff, if_neg hoff]
      obtain ⟨pass, hpass, hresult⟩ := Option.map_eq_some_iff.mp (htarget (pointerOffset pkt p))
      have henter : lenVisitor.enter (parsedLen, nameLen) = (0, 0) := rfl
      rw [henter, hpass, ← hresult, Option.map_some, Option.map_some]
      cases pass.result with
      | error e => rfl
      | ok found => rfl
    rw [if_neg hptr, if_neg hptr]
    by_cases hlabel : pkt.length < p + 1 + (byteAt pkt p).toNat + 1
    · simp only [if_pos hlabel]
      rfl
    simp only [if_neg hlabel]
    have hpos := toNat_pos_of_ne hzero
    rw [Option.map_map]
    exact ih (by omega) _ _

/-- The walk of `get_name` returns what its loop does. -/
theorem walk_nameVisitor {pkt : List UInt8} {recCounter : Nat} {target : Nat → List UInt8 → Option (Pass (List UInt8))}
    {copy : Nat → List UInt8 → Except Error (List UInt8)}
    (htarget : ∀ off name, (target off name).map Pass.result = some (copy off name)) {turns p : Nat}
    (hturns : pkt.length - p < turns) (name : List UInt8) :
    (walk nameVisitor pkt recCounter target turns p name).map Pass.result =
      some (nameLoop pkt copy turns p name) := by
  induction turns generalizing p name with
  | zero => omega
  | succ turns ih =>
    rw [walk, nameLoop]
    by_cases hp : p < pkt.length
    swap
    · rw [if_neg hp, if_neg (fun h => hp h.1)]
      rfl
    rw [if_pos hp]
    by_cases hzero : byteAt pkt p = 0
    · rw [if_pos hzero, if_neg (fun h => h.2 hzero)]
      rfl
    have hgo : p < pkt.length ∧ byteAt pkt p ≠ 0 := ⟨hp, hzero⟩
    rw [if_neg hzero, if_pos hgo]
    by_cases hptr : isPointer (byteAt pkt p) = true
    · rw [if_pos hptr, if_pos hptr]
      by_cases hlast : pkt.length ≤ p + 1
      · rw [if_pos hlast, if_pos hlast]
        rfl
      rw [if_neg hlast, if_neg hlast]
      by_cases hoff : pkt.length ≤ pointerOffset pkt p
      · rw [if_pos hoff, if_pos hoff]
        rfl
      rw [if_neg hoff, if_neg hoff]
      obtain ⟨pass, hpass, hresult⟩ := Option.map_eq_some_iff.mp (htarget (pointerOffset pkt p) name)
      have henter : nameVisitor.enter name = name := rfl
      rw [henter, hpass, ← hresult, Option.map_some, Option.map_some]
      cases pass.result with
      | error e => rfl
      | ok found => rfl
    rw [if_neg hptr, if_neg hptr]
    by_cases hlabel : pkt.length < p + 1 + (byteAt pkt p).toNat + 1
    · simp only [if_pos hlabel]
      rfl
    simp only [if_neg hlabel]
    have hpos := toNat_pos_of_ne hzero
    rw [Option.map_map]
    exact ih (by omega) _

theorem callAt_lenVisitor (pkt : List UInt8) {depth recCounter : Nat} (hdepth : depth + recCounter = maxDepth)
    (start : Nat) : (callAt lenVisitor pkt (depth + 1) recCounter start (0, 0)).map Pass.result =
      some (getNameLen pkt depth start) := by
  have hmax : maxDepth = maxNameRecursion + 1 := rfl
  induction depth generalizing recCounter start with
  | zero =>
    rw [callAt, if_pos (by omega)]
    rfl
  | succ depth ih =>
    rw [callAt, if_neg (by omega), getNameLen]
    by_cases hstart : pkt.length ≤ start
    · rw [if_pos hstart, if_pos hstart]
      rfl
    rw [if_neg hstart, if_neg hstart]
    exact walk_lenVisitor (fun off => ih (by omega) off) (by omega) 0 0

theorem callAt_nameVisitor (pkt : List UInt8) {depth recCounter : Nat} (hdepth : depth + recCounter = maxDepth)
    (start : Nat) (name : List UInt8) :
    (callAt nameVisitor pkt (depth + 1) recCounter start name).map Pass.result =
      some (getName pkt depth start name) := by
  have hmax : maxDepth = maxNameRecursion + 1 := rfl
  induction depth generalizing recCounter start name with
  | zero =>
    rw [callAt, if_pos (by omega)]
    rfl
  | succ depth ih =>
    rw [callAt, if_neg (by omega), getName]
    by_cases hstart : pkt.length ≤ start
    · rw [if_pos hstart, if_pos hstart]
      rfl
    rw [if_neg hstart, if_neg hstart]
    exact walk_nameVisitor (fun off found => ih (by omega) off found) (by omega) name

end Results

section Lengths

theorem length_slice {pkt : List UInt8} {p n : Nat} (h : p + n ≤ pkt.length) : (slice pkt p n).length = n := by
  rw [slice, List.length_take, List.length_drop]
  omega

/-- Label by label the two loops count the same, from a byte inside the packet to the next. -/
theorem loops_agree {pkt : List UInt8} {len : Nat → Except Error (Nat × Nat)}
    {copy : Nat → List UInt8 → Except Error (List UInt8)}
    (htarget : ∀ off name, Agree pkt off name.length (len off) (copy off name)) {start base : Nat} (turns : Nat)
    {p parsedLen nameLen : Nat} {name : List UInt8} (hp : p < pkt.length) (hparsed : start + parsedLen = p)
    (hname : name.length = base + nameLen) :
    Agree pkt start base (nameLenLoop pkt len turns p parsedLen nameLen) (nameLoop pkt copy turns p name) := by
  induction turns generalizing p parsedLen nameLen name with
  | zero => rfl
  | succ turns ih =>
    rw [nameLenLoop, nameLoop]
    by_cases hzero : byteAt pkt p = 0
    · rw [if_neg (fun h => h.2 hzero), if_neg (fun h => h.2 hzero)]
      exact ⟨hname, by omega⟩
    have hgo : p < pkt.length ∧ byteAt pkt p ≠ 0 := ⟨hp, hzero⟩
    rw [if_pos hgo, if_pos hgo]
    by_cases hptr : isPointer (byteAt pkt p) = true
    · rw [if_pos hptr, if_pos hptr]
      by_cases hlast : pkt.length ≤ p + 1
      · rw [if_pos hlast, if_pos hlast]
        rfl
      rw [if_neg hlast, if_neg hlast]
      by_cases hoff : pkt.length ≤ pointerOffset pkt p
      · rw [if_pos hoff, if_pos hoff]
        rfl
      rw [if_neg hoff, if_neg hoff]
      have hagree := htarget (pointerOffset pkt p) name
      generalize len (pointerOffset pkt p) = found at hagree
      generalize copy (pointerOffset pkt p) name = copied at hagree
      cases found with
      | ok lens =>
        cases copied with
        | ok more =>
          refine ⟨?_, by omega⟩
          rw [hagree.1, hname, Nat.add_assoc]
        | error _ => exact hagree.elim
      | error _ =>
        cases copied with
        | ok _ => exact hagree.elim
        | error _ => exact hagree
    rw [if_neg hptr, if_neg hptr]
    by_cases hlabel : pkt.length < p + 1 + (byteAt pkt p).toNat + 1
    · simp only [if_pos hlabel]
      rfl
    simp only [if_neg hlabel]
    apply ih
    · omega
    · omega
    · have hslice : (slice pkt (p + 1) (byteAt pkt p).toNat).length = (byteAt pkt p).toNat := length_slice (by omega)
      by_cases hmore : byteAt pkt (p + ((byteAt pkt p).toNat + 1)) ≠ 0
      · rw [if_pos hmore, if_pos hmore, List.length_append, List.length_append, List.length_singleton, hslice]
        omega
      · rw [if_neg hmore, if_neg hmore, List.length_append, hslice]
        omega

theorem getName_agrees (pkt : List UInt8) (depth start : Nat) (name : List UInt8) :
    Agree pkt start name.length (getNameLen pkt depth start) (getName pkt depth start name) := by
  induction depth generalizing start name with
  | zero => rfl
  | succ depth ih =>
    rw [getNameLen, getName]
    by_cases hstart : pkt.length ≤ start
    · rw [if_pos hstart, if_pos hstart]
      rfl
    rw [if_neg hstart, if_neg hstart]
    exact loops_agree ih _ (not_le.mp hstart) (Nat.add_zero start) (Nat.add_zero name.length).symm

end Lengths

/-- For every packet and every offset, `get_name_len` and `get_name` both return, with calls no deeper than
`MAX_NAME_RECURSION`; they read below `max` only, they succeed or fail together, and the name has the length
reported. -/
theorem name_passes_agree (pkt : List UInt8) (start : Nat) : ∃ lenPass namePass,
    getNameLenPass pkt start = some lenPass ∧ getNamePass pkt start = some namePass ∧
      lenPass.result = getNameLen pkt maxDepth start ∧ namePass.result = getName pkt maxDepth start [] ∧
      Inside pkt lenPass ∧ Inside pkt namePass ∧ Agree pkt start 0 lenPass.result namePass.result := by
  have hmax : maxCalls = maxDepth + 1 := Eq.refl _
  have hcalls : maxCalls ≤ maxCalls + 0 := Nat.le_refl _
  have hpos : 0 < maxCalls := by decide
  obtain ⟨lenPass, hlen, hlenIn⟩ := callAt_inside lenVisitor_copies pkt hcalls hpos start (0, 0)
  obtain ⟨namePass, hname, hnameIn⟩ := callAt_inside nameVisitor_copies pkt hcalls hpos start []
  have hlenResult := callAt_lenVisitor pkt (Nat.add_zero maxDepth) start
  have hnameResult := callAt_nameVisitor pkt (Nat.add_zero maxDepth) start []
  rw [← hmax, hlen, Option.map_some] at hlenResult
  rw [← hmax, hname, Option.map_some] at hnameResult
  refine ⟨lenPass, namePass, hlen, hname, Option.some.inj hlenResult, Option.some.inj hnameResult, hlenIn, hnameIn, ?_⟩
  rw [Option.some.inj hlenResult, Option.some.inj hnameResult]
  exact getName_agrees pkt maxDepth start []

end PjProject.Dns
