import PjProject.Dns

/-! Where the parser of DNS packets reads the records, and where the packet says they are. The packet
declares a record to end `RDLENGTH` bytes behind its header; the parser moves its cursor by what the type
of the record makes of the data. The two agree on a packet when and only when every record, found by the
declared lengths, has the length its type has by nature. -/

namespace PjProject.Dns

section Names

/-- The bytes an encoded name takes in the packet: labels up to a zero byte or a compression pointer. -/
def wireNameLen (pkt : List UInt8) : Nat → Nat → Nat
  | 0, _ => 0
  | turns + 1, p =>
    if byteAt pkt p = 0 then 1
    else if isPointer (byteAt pkt p) then 2
    else (byteAt pkt p).toNat + 1 + wireNameLen pkt turns (p + ((byteAt pkt p).toNat + 1))

def nameSize (pkt : List UInt8) (p : Nat) : Nat := wireNameLen pkt (pkt.length + 1) p

theorem nameLenLoop_eq_ok {pkt : List UInt8} {target : Nat → Except Error (Nat × Nat)}
    {turns p parsedLen nameLen parsedLen' nameLen' : Nat}
    (h : nameLenLoop pkt target turns p parsedLen nameLen = .ok (parsedLen', nameLen')) :
    parsedLen' = parsedLen + wireNameLen pkt turns p := by
  induction turns generalizing p parsedLen nameLen with
  | zero => simp [nameLenLoop] at h
  | succ turns ih =>
    rw [nameLenLoop] at h
    rw [wireNameLen]
    by_cases hzero : byteAt pkt p = 0
    · rw [if_neg (by simp [hzero])] at h
      rw [if_pos hzero]
      exact (Prod.mk.inj (Except.ok.inj h)).1.symm
    · have hlt : p < pkt.length := by
        by_contra hge
        exact hzero (byteAt_of_le (not_lt.mp hge))
      rw [if_pos ⟨hlt, hzero⟩] at h
      rw [if_neg hzero]
      by_cases hptr : isPointer (byteAt pkt p) = true
      · rw [if_pos hptr] at h ⊢
        split at h
        · cases h
        · split at h
          · cases h
          · split at h
            · cases h
            · exact (Prod.mk.inj (Except.ok.inj h)).1.symm
      · rw [if_neg hptr] at h ⊢
        simp only at h
        split at h
        · cases h
        · rw [ih h]
          omega

theorem parseName_eq_ok {pkt : List UInt8} {start partLen : Nat} {name : List UInt8}
    (h : parseName pkt start = .ok (partLen, name)) : partLen = nameSize pkt start := by
  rw [parseName, maxDepth, getNameLen] at h
  by_cases hstart : pkt.length ≤ start
  · simp [hstart] at h
  · rw [if_neg hstart] at h
    split at h
    · cases h
    · rename_i partLen' nameLen' hlen
      split at h
      · cases h
      · obtain ⟨rfl, _⟩ := Prod.mk.inj (Except.ok.inj h)
        exact (nameLenLoop_eq_ok hlen).trans (Nat.zero_add _)

end Names

section Records

/-- `RDLENGTH` of the record at the offset. -/
def rdlengthAt (pkt : List UInt8) (o : Nat) : Nat := read16 pkt (o + nameSize pkt o + 8)

/-- The length the data of a record has by its type: an address, a name, the fields of `SRV` and a name;
for the other types any. -/
def naturalLength (pkt : List UInt8) (o : Nat) : Nat :=
  let type := read16 pkt (o + nameSize pkt o)
  let data := o + nameSize pkt o + 10
  if type = typeA then 4
  else if type = typeAaaa then 16
  else if type = typeCname ∨ type = typeNs ∨ type = typePtr then nameSize pkt data
  else if type = typeSrv then 6 + nameSize pkt (data + 6)
  else rdlengthAt pkt o

/-- The offset the packet declares for what follows the record. -/
def nextDeclared (pkt : List UInt8) (o : Nat) : Nat := o + (nameSize pkt o + 10 + rdlengthAt pkt o)

theorem parseRdata_eq_ok {pkt : List UInt8} {type rdlength p dataLen : Nat} {rdata : Rdata}
    (h : parseRdata pkt type rdlength p = .ok (rdata, dataLen)) :
    dataLen =
      if type = typeA then 4
      else if type = typeAaaa then 16
      else if type = typeCname ∨ type = typeNs ∨ type = typePtr then nameSize pkt p
      else if type = typeSrv then 6 + nameSize pkt (p + 6)
      else rdlength := by
  rw [parseRdata] at h
  split at h
  · rename_i htype
    rw [if_pos htype]
    split at h
    · cases h
    · exact (Prod.mk.inj (Except.ok.inj h)).2.symm
  · rename_i hA
    rw [if_neg hA]
    split at h
    · rename_i htype
      rw [if_pos htype]
      split at h
      · cases h
      · exact (Prod.mk.inj (Except.ok.inj h)).2.symm
    · rename_i hAaaa
      rw [if_neg hAaaa]
      split at h
      · rename_i htype
        rw [if_pos htype]
        split at h
        · cases h
        · rename_i partLen name hname
          rw [← (Prod.mk.inj (Except.ok.inj h)).2, parseName_eq_ok hname]
      · rename_i hname
        rw [if_neg hname]
        split at h
        · rename_i htype
          rw [if_pos htype]
          split at h
          · cases h
          · split at h
            · cases h
            · rename_i partLen target htarget
              rw [← (Prod.mk.inj (Except.ok.inj h)).2, parseName_eq_ok htarget]
        · rename_i hsrv
          rw [if_neg hsrv]
          exact (Prod.mk.inj (Except.ok.inj h)).2.symm

/-- How far the parser moves over a record. -/
theorem parseRr_eq_ok {pkt : List UInt8} {start parsedLen : Nat} {rr : Rr}
    (h : parseRr pkt start = .ok (rr, parsedLen)) :
    rr.rdlength = rdlengthAt pkt start ∧
      parsedLen = nameSize pkt start + 10 + naturalLength pkt start := by
  rw [parseRr] at h
  split at h
  · cases h
  · rename_i partLen name hname
    obtain rfl := parseName_eq_ok hname
    simp only at h
    split at h
    · cases h
    · split at h
      · cases h
      · split at h
        · cases h
        · split at h
          · cases h
          · rename_i rdata dataLen hdata
            obtain ⟨rfl, rfl⟩ := Prod.mk.inj (Except.ok.inj h)
            refine ⟨rfl, ?_⟩
            rw [parseRdata_eq_ok hdata, naturalLength, rdlengthAt]
            omega

def NaturalRecords (pkt : List UInt8) : Nat → Nat → Prop
  | 0, _ => True
  | count + 1, o => rdlengthAt pkt o = naturalLength pkt o ∧ NaturalRecords pkt count (nextDeclared pkt o)

instance decidableNaturalRecords (pkt : List UInt8) :
    (count o : Nat) → Decidable (NaturalRecords pkt count o)
  | 0, _ => .isTrue trivial
  | count + 1, o =>
    have := decidableNaturalRecords pkt count (nextDeclared pkt o)
    inferInstanceAs (Decidable (_ ∧ _))

def declaredOffsets (pkt : List UInt8) : Nat → Nat → List Nat
  | 0, _ => []
  | count + 1, o => o :: declaredOffsets pkt count (nextDeclared pkt o)

/-- A parsed record, with where it was read and how far the cursor moved: it took its encoded name, the
header and `RDLENGTH` bytes. -/
def Exact (pkt : List UInt8) (item : Rr × Nat × Nat) : Prop :=
  item.2.2 = nameSize pkt item.2.1 + 10 + item.1.rdlength

theorem parseSection_add {β : Type} {parse : Nat → Except Error (β × Nat)} {n m o mid stop : Nat}
    {xs ys : List (β × Nat × Nat)} (hxs : parseSection parse n o = .ok (xs, mid))
    (hys : parseSection parse m mid = .ok (ys, stop)) : parseSection parse (n + m) o = .ok (xs ++ ys, stop) := by
  induction n generalizing o xs with
  | zero =>
    obtain ⟨rfl, rfl⟩ := Prod.mk.inj (Except.ok.inj hxs)
    rwa [Nat.zero_add]
  | succ n ih =>
    rw [Nat.succ_add, parseSection]
    rw [parseSection] at hxs
    split at hxs
    · cases hxs
    · rename_i item parsedLen hitem
      split at hxs
      · cases hxs
      · rename_i items mid' hitems
        obtain ⟨rfl, rfl⟩ := Prod.mk.inj (Except.ok.inj hxs)
        rw [ih hitems]
        rfl

/-- As long as the records have the declared lengths, the next one is read where the packet declares it. -/
theorem parseSection_records {pkt : List UInt8} {count o stop : Nat} {items : List (Rr × Nat × Nat)}
    (h : parseSection (parseRr pkt) count o = .ok (items, stop)) :
    (∀ item ∈ items, Exact pkt item) ∧ items.map (fun item => item.2.1) = declaredOffsets pkt count o ↔
      NaturalRecords pkt count o := by
  induction count generalizing o items with
  | zero =>
    obtain ⟨rfl, _⟩ := Prod.mk.inj (Except.ok.inj h)
    simp [NaturalRecords, declaredOffsets]
  | succ count ih =>
    rw [parseSection] at h
    split at h
    · cases h
    · rename_i rr parsedLen hrr
      split at h
      · cases h
      · rename_i rest stop' hrest
        obtain ⟨rfl, rfl⟩ := Prod.mk.inj (Except.ok.inj h)
        obtain ⟨hlength, hparsed⟩ := parseRr_eq_ok hrr
        have hexact : Exact pkt (rr, o, parsedLen) ↔ rdlengthAt pkt o = naturalLength pkt o := by
          simp only [Exact, hlength, hparsed]
          omega
        have hnext : rdlengthAt pkt o = naturalLength pkt o → o + parsedLen = nextDeclared pkt o := by
          intro hnatural
          rw [nextDeclared, hparsed, hnatural]
        rw [NaturalRecords, declaredOffsets, List.map_cons, List.forall_mem_cons, hexact]
        constructor
        · rintro ⟨⟨hnatural, hall⟩, hoffsets⟩
          refine ⟨hnatural, (ih (hnext hnatural ▸ hrest)).mp ⟨hall, ?_⟩⟩
          exact (List.cons.inj hoffsets).2
        · rintro ⟨hnatural, hrecords⟩
          obtain ⟨hall, hoffsets⟩ := (ih (hnext hnatural ▸ hrest)).mpr hrecords
          exact ⟨⟨hnatural, hall⟩, by rw [hoffsets]⟩

end Records

section Packets

/-- The offset behind the questions: a name, a type and a class each. -/
def questionsEnd (pkt : List UInt8) : Nat → Nat → Nat
  | 0, o => o
  | count + 1, o => questionsEnd pkt count (o + (nameSize pkt o + 4))

theorem parseQuery_eq_ok {pkt : List UInt8} {start parsedLen : Nat} {q : Query}
    (h : parseQuery pkt start = .ok (q, parsedLen)) : parsedLen = nameSize pkt start + 4 := by
  rw [parseQuery] at h
  split at h
  · cases h
  · rename_i partLen name hname
    obtain rfl := parseName_eq_ok hname
    simp only at h
    split at h
    · cases h
    · obtain ⟨_, rfl⟩ := Prod.mk.inj (Except.ok.inj h)
      omega

theorem parseSection_questions {pkt : List UInt8} {count o stop : Nat} {items : List (Query × Nat × Nat)}
    (h : parseSection (parseQuery pkt) count o = .ok (items, stop)) : stop = questionsEnd pkt count o := by
  induction count generalizing o items with
  | zero => exact (Prod.mk.inj (Except.ok.inj h)).2.symm
  | succ count ih =>
    rw [parseSection] at h
    split at h
    · cases h
    · rename_i q parsedLen hq
      split at h
      · cases h
      · rename_i rest stop' hrest
        obtain ⟨_, rfl⟩ := Prod.mk.inj (Except.ok.inj h)
        rw [questionsEnd, ← parseQuery_eq_ok hq]
        exact ih hrest

def Packet.records (res : Packet) : List (Rr × Nat × Nat) := res.ans ++ res.ns ++ res.arr

/-- How many records the header declares. -/
def recordCount (pkt : List UInt8) : Nat :=
  (parseHeader pkt).anscount + (parseHeader pkt).nscount + (parseHeader pkt).arcount

/-- Where the packet declares its first record. -/
def recordsStart (pkt : List UInt8) : Nat := questionsEnd pkt (parseHeader pkt).qdcount headerSize

theorem bind_eq_ok {ε β γ : Type} {x : Except ε β} {f : β → Except ε γ} {r : γ} :
    (x >>= f) = .ok r ↔ ∃ b, x = .ok b ∧ f b = .ok r := by
  cases x with
  | error e => simp [bind, Except.bind]
  | ok b => simp [bind, Except.bind]

theorem parsePacket_eq_ok {pkt : List UInt8} {res : Packet} (h : parsePacket pkt = .ok res) :
    ∃ stop, parseSection (parseRr pkt) (recordCount pkt) (recordsStart pkt) = .ok (res.records, stop) := by
  rw [parsePacket] at h
  split at h
  · cases h
  · split at h
    · cases h
    · simp only at h
      split at h
      · cases h
      · obtain ⟨⟨q, o⟩, hq, h⟩ := bind_eq_ok.mp h
        obtain ⟨⟨ans, o'⟩, hans, h⟩ := bind_eq_ok.mp h
        obtain ⟨⟨ns, o''⟩, hns, h⟩ := bind_eq_ok.mp h
        obtain ⟨⟨arr, stop⟩, harr, h⟩ := bind_eq_ok.mp h
        obtain rfl := Except.ok.inj h
        refine ⟨stop, ?_⟩
        rw [recordsStart, ← parseSection_questions hq]
        exact parseSection_add (parseSection_add hans hns) harr

/-- An accepted packet is parsed by its declared lengths, record by record, when and only when every
record it declares has the length its type has. -/
theorem exact_iff_natural {pkt : List UInt8} {res : Packet} (h : parsePacket pkt = .ok res) :
    (∀ item ∈ res.records, Exact pkt item) ∧
        res.records.map (fun item => item.2.1) = declaredOffsets pkt (recordCount pkt) (recordsStart pkt) ↔
      NaturalRecords pkt (recordCount pkt) (recordsStart pkt) := by
  obtain ⟨stop, hsection⟩ := parsePacket_eq_ok h
  exact parseSection_records hsection

/-- A response with one A record of the root name, whose `RDLENGTH` is `n`, and `n` bytes of data. -/
def oneRecord (n : Nat) : List UInt8 :=
  write16 7 ++ write16 0x8000 ++ write16 0 ++ write16 1 ++ write16 0 ++ write16 0 ++
    ([0] ++ write16 1 ++ write16 1 ++ toBytes 4 60 ++ write16 n ++ List.replicate n 9)

theorem exact_iff_natural_four : ∃ res, parsePacket (oneRecord 4) = .ok res ∧
    NaturalRecords (oneRecord 4) (recordCount (oneRecord 4)) (recordsStart (oneRecord 4)) ∧
    ∀ item ∈ res.records, Exact (oneRecord 4) item := by
  have hnatural : NaturalRecords (oneRecord 4) (recordCount (oneRecord 4)) (recordsStart (oneRecord 4)) := by
    decide
  have hok : parsePacket (oneRecord 4) = .ok ⟨⟨7, 0x8000, 0, 1, 0, 0⟩, [],
      [(⟨[], 1, 1, 60, 4, .a [9, 9, 9, 9]⟩, 12, 15)], [], []⟩ := by decide
  exact ⟨_, hok, hnatural, ((exact_iff_natural hok).mpr hnatural).1⟩

/-- With five bytes of data the packet is accepted and the parser stops one byte before the end the
record declares. -/
theorem not_exact_five : ∃ res, parsePacket (oneRecord 5) = .ok res ∧
    ∃ item ∈ res.records, ¬Exact (oneRecord 5) item := by
  have hok : parsePacket (oneRecord 5) = .ok ⟨⟨7, 0x8000, 0, 1, 0, 0⟩, [],
      [(⟨[], 1, 1, 60, 5, .a [9, 9, 9, 9]⟩, 12, 15)], [], []⟩ := by decide
  refine ⟨_, hok, (⟨[], 1, 1, 60, 5, .a [9, 9, 9, 9]⟩, 12, 15), by simp [Packet.records], ?_⟩
  unfold Exact
  decide

end Packets

end PjProject.Dns
