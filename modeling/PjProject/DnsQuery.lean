import PjProject.Dns

/-! A query that `pj_dns_make_query` builds is read back by `pj_dns_parse_packet`: the encoder and both
passes of the decoder are compared with the sequence of labels they stand for. -/

namespace PjProject.Dns

/-- A label: not empty, at most 63 bytes, no dot in it. -/
structure IsLabel (label : List UInt8) : Prop where
  pos : 0 < label.length
  le : label.length ≤ 63
  no_dot : dot ∉ label

/-- The labels with dots between them, and one behind the last if `trailing`. -/
def nameOf (trailing : Bool) : List (List UInt8) → List UInt8
  | [] => []
  | [label] => label ++ if trailing then [dot] else []
  | label :: next :: rest => label ++ dot :: nameOf trailing (next :: rest)

/-- The labels as a packet has them, without the zero behind the last. -/
def encodeLabels (labels : List (List UInt8)) : List UInt8 :=
  labels.flatMap fun label => .ofNat label.length :: label

section Encode

theorem span_label {label rest : List UInt8} (h : IsLabel label) (hrest : rest.head? ∈ [none, some dot]) :
    (label ++ rest).takeWhile (· ≠ dot) = label ∧ (label ++ rest).dropWhile (· ≠ dot) = rest := by
  have hall : ∀ c ∈ label, (decide (c ≠ dot)) = true := by
    intro c hc
    exact decide_eq_true fun heq => h.no_dot (heq ▸ hc)
  rw [List.takeWhile_append_of_pos hall, List.dropWhile_append_of_pos hall]
  cases rest with
  | nil => exact ⟨List.append_nil _, rfl⟩
  | cons c rest =>
    obtain rfl : c = dot := by simpa using hrest
    exact ⟨by simp, by simp⟩

theorem encodeName_label {label rest : List UInt8} (h : IsLabel label) (turns : Nat)
    (hrest : rest.head? ∈ [none, some dot]) :
    encodeName (turns + 1) (label ++ rest) =
      .ofNat label.length :: (label ++ encodeName turns (rest.drop 1)) := by
  obtain ⟨htake, hdrop⟩ := span_label h hrest
  obtain ⟨c, tail, hcons⟩ := List.exists_cons_of_length_pos h.pos
  have happ : label ++ rest = c :: (tail ++ rest) := by rw [hcons, List.cons_append]
  rw [happ] at htake hdrop
  rw [happ, encodeName, htake, hdrop]

theorem encodeName_nameOf {trailing : Bool} {labels : List (List UInt8)} (h : ∀ l ∈ labels, IsLabel l)
    {turns : Nat} (hturns : (nameOf trailing labels).length ≤ turns) :
    encodeName turns (nameOf trailing labels) = encodeLabels labels := by
  induction labels generalizing turns with
  | nil => cases turns <;> rfl
  | cons label rest ih =>
    have hlabel := h label List.mem_cons_self
    have hpos := hlabel.pos
    cases rest with
    | nil =>
      rw [nameOf, List.length_append] at hturns
      obtain ⟨turns, rfl⟩ : ∃ n, turns = n + 1 := ⟨turns - 1, by omega⟩
      rw [nameOf, encodeName_label hlabel turns (by cases trailing <;> simp)]
      have hend : encodeName turns ((if trailing then [dot] else []).drop 1) = [] := by
        cases trailing <;> cases turns <;> rfl
      rw [hend]
      simp [encodeLabels]
    | cons next rest =>
      rw [nameOf, List.length_append, List.length_cons] at hturns
      obtain ⟨turns, rfl⟩ : ∃ n, turns = n + 1 := ⟨turns - 1, by omega⟩
      rw [nameOf, encodeName_label hlabel turns (by simp), List.drop_one, List.tail_cons,
        ih (fun l hl => h l (List.mem_cons_of_mem label hl)) (by omega)]
      rfl

end Encode

section Decode

theorem IsLabel.lengthByte {label : List UInt8} (h : IsLabel label) :
    UInt8.ofNat label.length ≠ 0 ∧ isPointer (.ofNat label.length) = false ∧
      (UInt8.ofNat label.length).toNat = label.length := by
  have hall : ∀ n : Fin 63, UInt8.ofNat (n + 1) ≠ 0 ∧ isPointer (.ofNat (n + 1)) = false := by decide
  have hpos := h.pos
  have hle := h.le
  obtain ⟨hne, hptr⟩ := hall ⟨label.length - 1, by omega⟩
  rw [Nat.sub_add_cancel hpos] at hne hptr
  refine ⟨hne, hptr, ?_⟩
  rw [UInt8.toNat_ofNat']
  omega

variable {label : List UInt8} {labels : List (List UInt8)}

theorem byteAt_head (front rest label : List UInt8) (labels : List (List UInt8)) :
    byteAt (front ++ (encodeLabels (label :: labels) ++ 0 :: rest)) front.length = .ofNat label.length :=
  byteAt_append front _ _

/-- The first label and the byte behind it are in the packet. -/
theorem head_le_length (front rest label : List UInt8) (labels : List (List UInt8)) :
    front.length + 1 + label.length + 1 ≤
      (front ++ (encodeLabels (label :: labels) ++ 0 :: rest)).length := by
  simp [encodeLabels]
  omega

theorem slice_head (front rest label : List UInt8) (labels : List (List UInt8)) :
    slice (front ++ (encodeLabels (label :: labels) ++ 0 :: rest)) (front.length + 1) label.length = label := by
  have hsplit : front ++ (encodeLabels (label :: labels) ++ 0 :: rest) =
      (front ++ [.ofNat label.length]) ++ (label ++ (encodeLabels labels ++ 0 :: rest)) := by
    simp [encodeLabels]
  have hfront : (front ++ [UInt8.ofNat label.length]).length = front.length + 1 := by simp
  rw [hsplit, ← hfront, slice_append]

theorem byteAt_labels (front rest : List UInt8) (h : ∀ l ∈ labels, IsLabel l) :
    byteAt (front ++ (encodeLabels labels ++ 0 :: rest)) front.length ≠ 0 ↔ labels ≠ [] := by
  cases labels with
  | nil => simp [encodeLabels]
  | cons label labels => simp [byteAt_head, (h label List.mem_cons_self).lengthByte.1]

/-- The packet with one label moved to the part already read. -/
theorem labels_shift (front rest label : List UInt8) (labels : List (List UInt8)) :
    front ++ (encodeLabels (label :: labels) ++ 0 :: rest) =
      (front ++ (.ofNat label.length :: label)) ++ (encodeLabels labels ++ 0 :: rest) := by
  simp [encodeLabels]

theorem length_shift (front label : List UInt8) :
    (front ++ (UInt8.ofNat label.length :: label)).length = front.length + (label.length + 1) := by
  simp

theorem nameLenLoop_labels (front rest : List UInt8) (target : Nat → Except Error (Nat × Nat))
    (h : ∀ l ∈ labels, IsLabel l) {turns : Nat} (hturns : labels.length < turns) (parsedLen nameLen : Nat) :
    nameLenLoop (front ++ (encodeLabels labels ++ 0 :: rest)) target turns front.length parsedLen nameLen =
      .ok (parsedLen + (encodeLabels labels).length + 1, nameLen + (nameOf false labels).length) := by
  induction labels generalizing front turns parsedLen nameLen with
  | nil =>
    obtain ⟨turns, rfl⟩ : ∃ n, turns = n + 1 := ⟨turns - 1, by omega⟩
    have hzero : byteAt (front ++ (encodeLabels [] ++ 0 :: rest)) front.length = 0 := byteAt_append front _ _
    rw [nameLenLoop, if_neg (by simp [hzero])]
    rfl
  | cons label labels ih =>
    obtain ⟨turns, rfl⟩ : ∃ n, turns = n + 1 := ⟨turns - 1, by omega⟩
    obtain ⟨hne, hptr, hlen⟩ := (h label List.mem_cons_self).lengthByte
    have hrest := fun l hl => h l (List.mem_cons_of_mem label hl)
    have hbyte := byteAt_head front rest label labels
    have hlength := head_le_length front rest label labels
    have hnext := ih (front ++ (.ofNat label.length :: label)) hrest
      (by simpa using hturns : labels.length < turns) (parsedLen + (label.length + 1))
      (nameLen + if labels ≠ [] then label.length + 1 else label.length)
    have hstop := byteAt_labels (front ++ (.ofNat label.length :: label)) rest hrest
    rw [length_shift, ← labels_shift] at hnext hstop
    rw [nameLenLoop, if_pos ⟨by omega, by rwa [hbyte]⟩, hbyte, hptr]
    simp only [Bool.false_eq_true, if_false, hlen, not_lt.mpr hlength]
    rw [if_congr hstop rfl rfl, hnext]
    cases labels with
    | nil => simp [encodeLabels, nameOf]
    | cons next labels =>
      simp [encodeLabels, nameOf]
      omega

theorem nameLoop_labels (front rest : List UInt8) (target : Nat → List UInt8 → Except Error (List UInt8))
    (h : ∀ l ∈ labels, IsLabel l) {turns : Nat} (hturns : labels.length < turns) (name : List UInt8) :
    nameLoop (front ++ (encodeLabels labels ++ 0 :: rest)) target turns front.length name =
      .ok (name ++ nameOf false labels) := by
  induction labels generalizing front turns name with
  | nil =>
    obtain ⟨turns, rfl⟩ : ∃ n, turns = n + 1 := ⟨turns - 1, by omega⟩
    have hzero : byteAt (front ++ (encodeLabels [] ++ 0 :: rest)) front.length = 0 := byteAt_append front _ _
    rw [nameLoop, if_neg (by simp [hzero])]
    simp [nameOf]
  | cons label labels ih =>
    obtain ⟨turns, rfl⟩ : ∃ n, turns = n + 1 := ⟨turns - 1, by omega⟩
    obtain ⟨hne, hptr, hlen⟩ := (h label List.mem_cons_self).lengthByte
    have hrest := fun l hl => h l (List.mem_cons_of_mem label hl)
    have hbyte := byteAt_head front rest label labels
    have hlength := head_le_length front rest label labels
    have hnext := ih (front ++ (.ofNat label.length :: label)) hrest
      (by simpa using hturns : labels.length < turns) (if labels ≠ [] then name ++ label ++ [dot] else name ++ label)
    have hstop := byteAt_labels (front ++ (.ofNat label.length :: label)) rest hrest
    rw [length_shift, ← labels_shift] at hnext hstop
    rw [nameLoop, if_pos ⟨by omega, by rwa [hbyte]⟩, hbyte, hptr]
    simp only [Bool.false_eq_true, if_false, hlen, not_lt.mpr hlength, slice_head]
    rw [if_congr hstop rfl rfl, hnext]
    cases labels with
    | nil => simp [nameOf]
    | cons next labels => simp [nameOf]

theorem length_le_encodeLabels (labels : List (List UInt8)) : labels.length ≤ (encodeLabels labels).length := by
  induction labels with
  | nil => exact le_rfl
  | cons label labels ih =>
    simp only [encodeLabels, List.flatMap_cons, List.length_append, List.length_cons] at ih ⊢
    omega

/-- Both passes read the labels up to the zero. -/
theorem parseName_labels (front rest : List UInt8) (h : ∀ l ∈ labels, IsLabel l) :
    parseName (front ++ (encodeLabels labels ++ 0 :: rest)) front.length =
      .ok ((encodeLabels labels).length + 1, nameOf false labels) := by
  have hlength : (front ++ (encodeLabels labels ++ 0 :: rest)).length =
      front.length + (encodeLabels labels).length + 1 + rest.length := by
    simp only [List.length_append, List.length_cons]
    omega
  have hlabels := length_le_encodeLabels labels
  have hstart : ¬(front ++ (encodeLabels labels ++ 0 :: rest)).length ≤ front.length := by omega
  have hlen := nameLenLoop_labels front rest (getNameLen (front ++ (encodeLabels labels ++ 0 :: rest)) 5) h
    (by omega : labels.length < (front ++ (encodeLabels labels ++ 0 :: rest)).length + 1) 0 0
  have hname := nameLoop_labels front rest (getName (front ++ (encodeLabels labels ++ 0 :: rest)) 5) h
    (by omega : labels.length < (front ++ (encodeLabels labels ++ 0 :: rest)).length + 1) []
  rw [parseName, maxDepth, getNameLen, if_neg hstart, hlen]
  simp only
  rw [getName, if_neg hstart, hname]
  simp

theorem read16_append (front rest : List UInt8) {v : Nat} (h : v < 2 ^ 16) :
    read16 (front ++ (write16 v ++ rest)) front.length = v := by
  have hslice : slice (front ++ (write16 v ++ rest)) front.length 2 = write16 v := by
    rw [← length_toBytes 2 v]
    exact slice_append front (write16 v) rest
  rw [read16, hslice]
  exact ofBytes_toBytes h

theorem parseQuery_labels (front : List UInt8) (h : ∀ l ∈ labels, IsLabel l) {type dnsclass : Nat}
    (htype : type < 2 ^ 16) (hclass : dnsclass < 2 ^ 16) :
    ∃ parsedLen,
      parseQuery (front ++ (encodeLabels labels ++ [0] ++ write16 type ++ write16 dnsclass)) front.length =
        .ok (⟨nameOf false labels, type, dnsclass⟩, parsedLen) := by
  generalize hpkt : front ++ (encodeLabels labels ++ [0] ++ write16 type ++ write16 dnsclass) = pkt
  have hname : parseName pkt front.length = .ok ((encodeLabels labels).length + 1, nameOf false labels) := by
    rw [← hpkt]
    simpa using parseName_labels front (write16 type ++ write16 dnsclass) h
  have hat : (front ++ (encodeLabels labels ++ [0])).length = front.length + ((encodeLabels labels).length + 1) := by
    simp
  have hread : read16 pkt (front.length + ((encodeLabels labels).length + 1)) = type := by
    have hsplit : pkt = (front ++ (encodeLabels labels ++ [0])) ++ (write16 type ++ write16 dnsclass) := by
      rw [← hpkt]
      simp only [List.append_assoc]
    rw [← hat, hsplit]
    exact read16_append _ _ htype
  have hat' : (front ++ (encodeLabels labels ++ [0]) ++ write16 type).length =
      front.length + ((encodeLabels labels).length + 1) + 2 := by
    rw [List.length_append, hat, write16, length_toBytes]
  have hread' : read16 pkt (front.length + ((encodeLabels labels).length + 1) + 2) = dnsclass := by
    have hsplit : pkt = (front ++ (encodeLabels labels ++ [0]) ++ write16 type) ++ (write16 dnsclass ++ []) := by
      rw [← hpkt]
      simp only [List.append_assoc, List.append_nil]
    rw [← hat', hsplit]
    exact read16_append _ _ hclass
  have hlength : ¬pkt.length < front.length + ((encodeLabels labels).length + 1) + 4 := by
    rw [← hpkt]
    simp only [List.length_append, List.length_singleton, write16, length_toBytes]
    omega
  rw [parseQuery, hname]
  simp only [if_neg hlength, hread, hread']
  exact ⟨_, rfl⟩

end Decode

/-- A query for labels of up to 63 bytes, with or without a trailing dot, is parsed back: the header has
the id and one question, of the type, class IN and the name without the trailing dot. -/
theorem parsePacket_makeQuery {size : Nat} {id : UInt16} {qtype : Int} {labels : List (List UInt8)}
    {trailing : Bool} {pkt : List UInt8} (hlabels : ∀ l ∈ labels, IsLabel l)
    (hmake : makeQuery size id qtype (nameOf trailing labels) = .ok pkt) :
    ∃ res, parsePacket pkt = .ok res ∧ res.hdr = ⟨id.toNat, 2 ^ 8, 1, 0, 0, 0⟩ ∧
      res.q.map Prod.fst = [⟨nameOf false labels, (qtype % 2 ^ 16).toNat, 1⟩] ∧
      res.ans = [] ∧ res.ns = [] ∧ res.arr = [] := by
  have htype : (qtype % 2 ^ 16).toNat < 2 ^ 16 := by omega
  simp only [makeQuery, encodeName_nameOf hlabels le_rfl] at hmake
  split at hmake
  · cases hmake
  · split at hmake
    · cases hmake
    · generalize hfront : write16 id.toNat ++ write16 (2 ^ 8) ++ write16 1 ++ write16 0 ++ write16 0 ++
        write16 0 = front at hmake
      obtain ⟨parsedLen, hquery⟩ := parseQuery_labels front hlabels htype (by decide : 1 < 2 ^ 16)
      have hlen : front.length = headerSize := by rw [← hfront]; rfl
      obtain rfl := Except.ok.inj hmake
      generalize htail : encodeLabels labels ++ [0] ++ write16 (qtype % 2 ^ 16).toNat ++ write16 1 = tail at *
      have hheader : parseHeader (front ++ tail) = ⟨id.toNat, 2 ^ 8, 1, 0, 0, 0⟩ := by
        have hid : read16 (front ++ tail) 0 = ofBytes (toBytes 2 id.toNat) := by rw [← hfront]; rfl
        rw [ofBytes_toBytes (UInt16.toNat_lt id)] at hid
        rw [parseHeader, hid, ← hfront]
        rfl
      have hsize : headerSize ≤ (front ++ tail).length := by
        rw [List.length_append]
        omega
      have hpos : 0 < headerSize := by decide
      rw [hlen] at hquery
      rw [parsePacket, if_neg (by omega), if_neg (by omega), hheader]
      refine ⟨⟨⟨id.toNat, 2 ^ 8, 1, 0, 0, 0⟩,
        [(⟨nameOf false labels, (qtype % 2 ^ 16).toNat, 1⟩, headerSize, parsedLen)], [], [], []⟩, ?_, ?_⟩
      · simp [parseSection, hquery, maxSectionCount, bind, Except.bind]
      · simp

/-- The query for `a.bc.` of type A. -/
theorem parsePacket_makeQuery_abc : ∃ pkt,
    makeQuery 512 7 1 (nameOf true [[97], [98, 99]]) = .ok pkt ∧ pkt.length = 22 ∧
    ∃ res, parsePacket pkt = .ok res ∧ res.hdr = ⟨(7 : UInt16).toNat, 2 ^ 8, 1, 0, 0, 0⟩ ∧
      res.q.map Prod.fst = [⟨nameOf false [[97], [98, 99]], ((1 : Int) % 2 ^ 16).toNat, 1⟩] ∧
      res.ans = [] ∧ res.ns = [] ∧ res.arr = [] := by
  refine ⟨_, rfl, by decide, @parsePacket_makeQuery 512 7 1 [[97], [98, 99]] true _ ?_ rfl⟩
  intro l hl
  rcases List.mem_cons.mp hl with rfl | hl
  · exact ⟨by decide, by decide, by decide⟩
  · obtain rfl := List.mem_singleton.mp hl
    exact ⟨by decide, by decide, by decide⟩

end PjProject.Dns
