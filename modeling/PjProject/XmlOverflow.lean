import PjProject.XmlRoundTrip

/-! The printer in a buffer of any length (`xml.c`). Each piece is written behind a check of its own, some of which ask
for a byte more than the piece takes, and the length of the prolog is added to whatever the node gives, also to -1. -/

namespace PjProject.Xml

/-! The printer with the bytes that it has written where it fails. -/

abbrev Written := Except (List UInt8) (List UInt8)

def tryPut (len need : Nat) (piece p : List UInt8) : Written :=
  if sizeLeft len p.length < need then .error p else .ok (p ++ piece)

def tryAttrs (len : Nat) : List Attr → List UInt8 → Written
  | [], p => .ok p
  | attr :: more, p => do
    let p ← tryPut len (attr.name.length + attr.value.length + 4) (attrText attr) p
    tryAttrs len more p

def tryContent (len : Nat) (content p : List UInt8) : Written :=
  if content.isEmpty then .ok p else tryPut len content.length content p

mutual

def tryNode (indent len : Nat) : Node → Written
  | .mk name attrs children content => do
    let p ← tryPut len (name.length + indent + 5) (List.replicate indent 32 ++ 60 :: name) []
    let p ← tryAttrs len attrs p
    if content.isEmpty && children.isEmpty then tryPut len 3 [32, 47, 62] p
    else
      let p ← tryPut len 1 [62] p
      let p ← tryNodes indent len children p
      let p ← tryContent len content p
      if children.isEmpty then tryPut len (name.length + 3) (endTag name) p
      else tryPut len (name.length + 5 + indent) (10 :: (List.replicate indent 32 ++ endTag name)) p

def tryNodes (indent len : Nat) : List Node → List UInt8 → Written
  | [], p => .ok p
  | node :: more, p => do
    let p ← tryPut len (indent + 3) [10] p
    match tryNode (indent + 1) (sizeLeft len p.length).toNat node with
    | .error sub => .error (p ++ sub)
    | .ok printed => tryNodes indent len more (p ++ printed)

end

/-- `pj_xml_print` with all the bytes that it writes, in the order of their places. -/
def tryPrint (node : Node) (len : Nat) (includeProlog : Bool) : Int × List UInt8 :=
  if len = 0 then (0, [])
  else
    let front := if includeProlog then prolog else []
    if includeProlog ∧ Int.bmod len 0x100000000 < front.length then (-1, [])
    else
      match tryNode 0 (len - front.length) node with
      | .error text => if includeProlog then (front.length, front ++ text) else (-1, text)
      | .ok text =>
        if (front ++ text).length + 1 ≤ len then ((front ++ text).length + 1, front ++ text ++ [10])
        else ((front ++ text).length, front ++ text)

theorem toOption_bind (x : Written) (f : List UInt8 → Written) :
    (x >>= f).toOption = x.toOption >>= fun p => (f p).toOption := by
  cases x <;> rfl

theorem toOption_tryPut (len need : Nat) (piece p : List UInt8) :
    (tryPut len need piece p).toOption = put len need piece p := by
  unfold tryPut put
  split <;> rfl

theorem toOption_tryAttrs (len : Nat) (attrs : List Attr) (p : List UInt8) :
    (tryAttrs len attrs p).toOption = printAttrs len attrs p := by
  induction attrs generalizing p with
  | nil => rfl
  | cons attr more ih =>
    rw [tryAttrs, toOption_bind, toOption_tryPut, printAttrs]
    exact congrArg _ (funext fun p => ih p)

theorem toOption_tryContent (len : Nat) (content p : List UInt8) :
    (tryContent len content p).toOption = printContent len content p := by
  unfold tryContent printContent
  split
  · rfl
  · exact toOption_tryPut len _ content p

theorem toOption_tryNodes {indent len : Nat} {children : List Node}
    (hall : ∀ child ∈ children, ∀ indent len, (tryNode indent len child).toOption = printNode indent len child)
    (p : List UInt8) : (tryNodes indent len children p).toOption = printNodes indent len children p := by
  induction children generalizing p with
  | nil => rw [tryNodes, printNodes]; rfl
  | cons child more ih =>
    have hmore := ih fun c hc => hall c (List.mem_cons_of_mem child hc)
    rw [tryNodes, toOption_bind, toOption_tryPut, printNodes]
    refine congrArg _ (funext fun p => ?_)
    rw [← hall child List.mem_cons_self]
    cases tryNode (indent + 1) (sizeLeft len p.length).toNat child with
    | error sub => rfl
    | ok printed => exact hmore (p ++ printed)

theorem toOption_tryNode (node : Node) : ∀ indent len, (tryNode indent len node).toOption = printNode indent len node := by
  induction node using node_induction with
  | hnode name attrs children content ih =>
    intro indent len
    rw [tryNode, toOption_bind, toOption_tryPut, printNode]
    refine congrArg _ (funext fun p => ?_)
    rw [toOption_bind, toOption_tryAttrs]
    refine congrArg _ (funext fun p => ?_)
    split
    · exact toOption_tryPut len 3 _ p
    rw [toOption_bind, toOption_tryPut]
    refine congrArg _ (funext fun p => ?_)
    rw [toOption_bind, toOption_tryNodes ih]
    refine congrArg _ (funext fun p => ?_)
    rw [toOption_bind, toOption_tryContent]
    refine congrArg _ (funext fun p => ?_)
    split
    · exact toOption_tryPut len _ _ p
    · exact toOption_tryPut len _ _ p

theorem tryNode_fst (node : Node) (len : Nat) (front : List UInt8) (failed : Int) (n : Nat) :
    (match tryNode 0 n node with
      | .error text => (failed, front ++ text)
      | .ok text =>
        if (front ++ text).length + 1 ≤ len then (((front ++ text).length : Int) + 1, front ++ text ++ [10])
        else (((front ++ text).length : Int), front ++ text)).1 =
      (match printNode 0 n node with
      | none => (failed, front)
      | some text =>
        if (front ++ text).length + 1 ≤ len then (((front ++ text).length : Int) + 1, front ++ text ++ [10])
        else (((front ++ text).length : Int), front ++ text)).1 := by
  rw [← toOption_tryNode node 0 n]
  cases tryNode 0 n node <;> rfl

/-- What is returned does not depend on the bytes of a failure. -/
theorem tryPrint_fst (node : Node) (len : Nat) (includeProlog : Bool) :
    (tryPrint node len includeProlog).1 = (xmlPrint node len includeProlog).1 := by
  obtain ⟨front, hfront⟩ : ∃ l, l = if includeProlog then prolog else [] := ⟨_, rfl⟩
  rw [tryPrint, xmlPrint]
  by_cases hzero : len = 0
  · rw [if_pos hzero, if_pos hzero]
  rw [if_neg hzero, if_neg hzero]
  simp only [← hfront]
  by_cases hshort : includeProlog = true ∧ Int.bmod len 0x100000000 < front.length
  · rw [if_pos hshort, if_pos hshort]
  rw [if_neg hshort, if_neg hshort]
  cases includeProlog with
  | false =>
    rw [hfront]
    exact tryNode_fst node len [] (-1) len
  | true => exact tryNode_fst node len front front.length (len - front.length)

/-! No byte is written behind the end. -/

def written : Written → List UInt8
  | .ok p => p
  | .error p => p

theorem sizeLeft_le {len written : Nat} (h : written ≤ len) : sizeLeft len written ≤ ((len - written : Nat) : Int) := by
  unfold sizeLeft
  rw [Int.bmod_def]
  split <;> omega

theorem written_tryPut_le {len need : Nat} {piece p : List UInt8} (hp : p.length ≤ len) (hpiece : piece.length ≤ need) :
    (written (tryPut len need piece p)).length ≤ len := by
  have hleft := sizeLeft_le hp
  unfold tryPut
  split
  · exact hp
  · rw [written, List.length_append]
    omega

theorem written_bind_le {len : Nat} {x : Written} {f : List UInt8 → Written} (hx : (written x).length ≤ len)
    (hf : ∀ p, p.length ≤ len → (written (f p)).length ≤ len) : (written (x >>= f)).length ≤ len := by
  cases x with
  | error p => exact hx
  | ok p => exact hf p hx

theorem length_attrText_le (attr : Attr) : (attrText attr).length ≤ attr.name.length + attr.value.length + 4 := by
  unfold attrText
  split <;> simp only [List.length_append, List.length_cons, List.length_nil] <;> omega

theorem written_tryAttrs_le {len : Nat} (attrs : List Attr) {p : List UInt8} (hp : p.length ≤ len) :
    (written (tryAttrs len attrs p)).length ≤ len := by
  induction attrs generalizing p with
  | nil => exact hp
  | cons attr more ih => exact written_bind_le (written_tryPut_le hp (length_attrText_le attr)) fun p hp => ih hp

theorem written_tryContent_le {len : Nat} (content : List UInt8) {p : List UInt8} (hp : p.length ≤ len) :
    (written (tryContent len content p)).length ≤ len := by
  unfold tryContent
  split
  · exact hp
  · exact written_tryPut_le hp le_rfl

theorem written_tryNodes_le {children : List Node}
    (hall : ∀ child ∈ children, ∀ indent len, (written (tryNode indent len child)).length ≤ len) {indent len : Nat}
    {p : List UInt8} (hp : p.length ≤ len) : (written (tryNodes indent len children p)).length ≤ len := by
  induction children generalizing p with
  | nil => exact hp
  | cons child more ih =>
    rw [tryNodes]
    refine written_bind_le (written_tryPut_le hp ?_) fun p hp => ?_
    · exact Nat.le_add_left 1 (indent + 2)
    have hchild := hall child List.mem_cons_self (indent + 1) (sizeLeft len p.length).toNat
    have hleft := sizeLeft_le hp
    cases htry : tryNode (indent + 1) (sizeLeft len p.length).toNat child with
    | error sub =>
      rw [htry, written] at hchild
      show (p ++ sub).length ≤ len
      rw [List.length_append]
      omega
    | ok printed =>
      rw [htry, written] at hchild
      refine ih (fun c hc => hall c (List.mem_cons_of_mem child hc)) ?_
      rw [List.length_append]
      omega

theorem written_tryNode_le (node : Node) : ∀ indent len, (written (tryNode indent len node)).length ≤ len := by
  induction node using node_induction with
  | hnode name attrs children content ih =>
    intro indent len
    have hend : (10 :: (List.replicate indent 32 ++ endTag name)).length ≤ name.length + 5 + indent := by
      simp only [endTag, List.length_append, List.length_replicate, List.length_cons, List.length_nil]
      omega
    rw [tryNode]
    refine written_bind_le (written_tryPut_le (Nat.zero_le _) ?_) fun p hp => ?_
    · simp only [List.length_append, List.length_replicate, List.length_cons]
      omega
    refine written_bind_le (written_tryAttrs_le attrs hp) fun p hp => ?_
    split
    · exact written_tryPut_le hp (Nat.le_refl 3)
    refine written_bind_le (written_tryPut_le hp (Nat.le_refl 1)) fun p hp => ?_
    refine written_bind_le (written_tryNodes_le ih hp) fun p hp => ?_
    refine written_bind_le (written_tryContent_le content hp) fun p hp => ?_
    split
    · refine written_tryPut_le hp ?_
      simp only [endTag, List.length_append, List.length_cons, List.length_nil]
      omega
    · exact written_tryPut_le hp hend

/-- `pj_xml_print` writes into the buffer only. -/
theorem tryPrint_within (node : Node) (len : UInt32) (includeProlog : Bool) :
    (tryPrint node len.toNat includeProlog).2.length ≤ len.toNat := by
  have hlt := len.toNat_lt
  obtain ⟨front, hfront⟩ : ∃ l, l = if includeProlog then prolog else [] := ⟨_, rfl⟩
  have hbare : includeProlog = false → front.length = 0 := by
    rintro rfl
    rw [hfront]
    rfl
  rw [tryPrint]
  simp only [← hfront]
  split
  · exact Nat.zero_le _
  split
  · exact Nat.zero_le _
  case isFalse hlong =>
  have hroom : front.length ≤ len.toNat := by
    cases includeProlog with
    | false =>
      rw [hbare rfl]
      exact Nat.zero_le _
    | true =>
      have hle := not_lt.mp fun h => hlong ⟨rfl, h⟩
      rw [Int.bmod_def] at hle
      split at hle <;> omega
  have hnode := written_tryNode_le node 0 (len.toNat - front.length)
  split
  case h_1 text htext =>
    rw [htext] at hnode
    have htext : text.length ≤ len.toNat - front.length := hnode
    split
    · simp only [List.length_append]
      omega
    · exact htext.trans (Nat.sub_le _ _)
  case h_2 text htext =>
    rw [htext] at hnode
    have htext : text.length ≤ len.toNat - front.length := hnode
    split
    case isTrue hnewline =>
      simp only [List.length_append, List.length_cons, List.length_nil] at hnewline ⊢
      omega
    case isFalse =>
      simp only [List.length_append]
      omega

/-! What is printed is the text. -/

/-- The last check of the node asks for a byte more than the rest of its text. -/
def needsSpare : Node → Bool
  | .mk _ attrs children content => !children.isEmpty || (attrs.isEmpty && content.isEmpty)

theorem put_some {len need : Nat} {piece p q : List UInt8} (h : put len need piece p = some q) (hp : p.length ≤ len) :
    q = p ++ piece ∧ p.length + need ≤ len := by
  have hleft := sizeLeft_le hp
  unfold put at h
  split at h
  case isTrue => cases h
  case isFalse hroom => exact ⟨(Option.some.inj h).symm, by omega⟩

theorem printAttrs_some {len : Nat} {attrs : List Attr} {p q : List UInt8} (h : printAttrs len attrs p = some q)
    (hp : p.length ≤ len) : q = p ++ attrsText attrs ∧ q.length ≤ len := by
  induction attrs generalizing p with
  | nil =>
    obtain rfl := Option.some.inj h
    exact ⟨(List.append_nil p).symm, hp⟩
  | cons attr more ih =>
    obtain ⟨p', hput, hmore⟩ := Option.bind_eq_some_iff.mp h
    obtain ⟨rfl, hroom⟩ := put_some hput hp
    have hattr := length_attrText_le attr
    obtain ⟨hq, hle⟩ := ih hmore (by rw [List.length_append]; omega)
    refine ⟨?_, hle⟩
    rw [hq, List.append_assoc]
    rfl

theorem printContent_some {len : Nat} {content p q : List UInt8} (h : printContent len content p = some q)
    (hp : p.length ≤ len) : q = p ++ content ∧ q.length ≤ len := by
  unfold printContent at h
  split at h
  case isTrue hempty =>
    obtain rfl := Option.some.inj h
    rw [List.isEmpty_iff.mp hempty]
    exact ⟨(List.append_nil p).symm, hp⟩
  case isFalse =>
    obtain ⟨rfl, hroom⟩ := put_some h hp
    exact ⟨rfl, by rw [List.length_append]; omega⟩

/-- The printer gives the text only, and only where the text has room. -/
def PrintsOnly (node : Node) : Prop :=
  ∀ {indent len : Nat} {text : List UInt8}, printNode indent len node = some text →
    text = nodeText indent node ∧ text.length + (needsSpare node).toNat ≤ len

theorem printNodes_some {children : List Node} (hall : ∀ child ∈ children, PrintsOnly child) {indent len : Nat}
    {p q : List UInt8} (h : printNodes indent len children p = some q) (hp : p.length ≤ len) :
    q = p ++ nodesText indent children ∧ q.length ≤ len := by
  induction children generalizing p with
  | nil =>
    rw [printNodes] at h
    obtain rfl := Option.some.inj h
    rw [nodesText, List.append_nil]
    exact ⟨rfl, hp⟩
  | cons child more ih =>
    rw [printNodes] at h
    obtain ⟨p', hput, h⟩ := Option.bind_eq_some_iff.mp h
    obtain ⟨rfl, hroom⟩ := put_some hput hp
    obtain ⟨printed, hchild, h⟩ := Option.bind_eq_some_iff.mp h
    obtain ⟨rfl, hle⟩ := hall child List.mem_cons_self hchild
    have hp' : (p ++ [10]).length ≤ len := by
      rw [List.length_append, List.length_singleton]
      omega
    have hleft := sizeLeft_le hp'
    obtain ⟨hq, hend⟩ := ih (fun c hc => hall c (List.mem_cons_of_mem child hc)) h (by
      rw [List.length_append]
      omega)
    refine ⟨?_, hend⟩
    rw [hq, nodesText, List.append_assoc, List.append_assoc]
    rfl

theorem printsOnly (node : Node) : PrintsOnly node := by
  induction node using node_induction with
  | hnode name attrs children content ih =>
    intro indent len text h
    rw [printNode] at h
    obtain ⟨p, hput, h⟩ := Option.bind_eq_some_iff.mp h
    obtain ⟨rfl, hname⟩ := put_some hput (Nat.zero_le _)
    rw [List.length_nil, List.nil_append] at *
    obtain ⟨p, hattrs, h⟩ := Option.bind_eq_some_iff.mp h
    obtain ⟨rfl, hle⟩ := printAttrs_some hattrs (by
      simp only [List.length_append, List.length_replicate, List.length_cons]
      omega)
    rw [nodeText]
    by_cases hempty : (content.isEmpty && children.isEmpty) = true
    · rw [if_pos hempty] at h ⊢
      obtain ⟨rfl, hroom⟩ := put_some h hle
      refine ⟨by simp only [List.append_assoc, List.cons_append], ?_⟩
      rw [Bool.and_eq_true] at hempty
      rw [needsSpare, hempty.1, hempty.2, Bool.not_true, Bool.false_or, Bool.and_true]
      cases attrs with
      | nil =>
        simp only [attrsText, List.flatMap_nil, List.length_append, List.length_replicate, List.length_cons,
          List.length_nil, List.isEmpty_nil, Bool.toNat_true]
        omega
      | cons attr more =>
        rw [List.length_append, List.isEmpty_cons, Bool.toNat_false]
        exact hroom
    · rw [if_neg hempty] at h ⊢
      obtain ⟨p, hclose, h⟩ := Option.bind_eq_some_iff.mp h
      obtain ⟨rfl, hone⟩ := put_some hclose hle
      obtain ⟨p, hnodes, h⟩ := Option.bind_eq_some_iff.mp h
      obtain ⟨rfl, hle⟩ := printNodes_some ih hnodes (by
        rw [List.length_append, List.length_singleton]
        omega)
      obtain ⟨p, hcontent, h⟩ := Option.bind_eq_some_iff.mp h
      obtain ⟨rfl, hle⟩ := printContent_some hcontent hle
      cases children with
      | nil =>
        rw [List.isEmpty_nil, if_pos rfl] at h ⊢
        obtain ⟨rfl, hend⟩ := put_some h hle
        refine ⟨by simp only [List.append_assoc, List.cons_append, List.nil_append], ?_⟩
        rw [List.isEmpty_nil, Bool.and_true] at hempty
        have hsame : needsSpare (.mk name attrs [] content) = false := by
          rw [needsSpare, Bool.eq_false_iff.mpr hempty, Bool.and_false]
          rfl
        have htag : (endTag name).length = name.length + 3 := by
          simp only [endTag, List.length_append, List.length_cons, List.length_nil]
          omega
        rw [hsame, Bool.toNat_false, List.length_append, htag]
        exact hend
      | cons child more =>
        rw [List.isEmpty_cons, if_neg Bool.false_ne_true] at h ⊢
        obtain ⟨rfl, hend⟩ := put_some h hle
        refine ⟨by simp only [List.append_assoc, List.cons_append, List.nil_append], ?_⟩
        have hspare : (needsSpare (.mk name attrs (child :: more) content)).toNat ≤ 1 := Bool.toNat_le _
        have htag : (10 :: (List.replicate indent (32 : UInt8) ++ endTag name)).length = name.length + indent + 4 := by
          simp only [endTag, List.length_append, List.length_replicate, List.length_cons, List.length_nil]
          omega
        rw [List.length_append, htag]
        omega

/-- A node whose last check is exact is printed into a buffer of just its size. -/
theorem printNode_exact {node : Node} (hspare : needsSpare node = false) {indent len : Nat} (hlen : len < 0x80000000)
    (h : (nodeText indent node).length ≤ len) : printNode indent len node = some (nodeText indent node) := by
  cases node with
  | mk name attrs children content =>
    rw [needsSpare, Bool.or_eq_false_iff, Bool.not_eq_false'] at hspare
    obtain rfl : children = [] := List.isEmpty_iff.mp hspare.1
    rw [nodeText] at h ⊢
    rw [List.length_append, List.length_replicate, List.length_cons, List.length_append, List.length_append] at h
    have hstart : (List.replicate indent (32 : UInt8) ++ 60 :: name).length = indent + name.length + 1 := by
      simp only [List.length_append, List.length_replicate, List.length_cons]
      omega
    rw [List.isEmpty_nil, Bool.and_true] at h ⊢
    rw [printNode, List.isEmpty_nil, Bool.and_true, if_pos rfl]
    cases content with
    | nil =>
      rw [List.isEmpty_nil, if_pos rfl] at h ⊢
      simp only [List.length_cons, List.length_nil] at h
      have hattrs : 1 ≤ (attrsText attrs).length := by
        cases attrs with
        | nil => cases hspare.2
        | cons attr more => exact Nat.le_add_left 1 _
      rw [put_eq hlen (by rw [List.length_nil]; omega), List.nil_append]
      simp only [Option.bind_eq_bind, Option.bind_some]
      rw [printAttrs_eq hlen (by omega)]
      simp only [Option.bind_some]
      rw [put_eq hlen (by rw [List.length_append]; omega)]
      simp
    | cons c content =>
      rw [List.isEmpty_cons, if_neg Bool.false_ne_true] at h ⊢
      simp only [nodesText, endTag, List.length_cons, List.length_append, List.length_nil, List.nil_append] at h
      rw [put_eq hlen (by rw [List.length_nil]; omega), List.nil_append]
      simp only [Option.bind_eq_bind, Option.bind_some]
      rw [printAttrs_eq hlen (by omega)]
      simp only [Option.bind_some]
      rw [if_neg Bool.false_ne_true, put_eq hlen (by rw [List.length_append]; omega)]
      simp only [Option.bind_some]
      rw [printNodes]
      simp only [Option.bind_some]
      simp only [if_true, List.length_nil, Nat.zero_add] at h
      rw [printContent_eq hlen (by
        rw [List.length_append, List.length_append, hstart]
        simp only [List.length_cons, List.length_nil]
        omega)]
      simp only [Option.bind_some]
      rw [if_pos trivial, put_eq hlen (by
        rw [List.length_append, List.length_append, List.length_append, hstart]
        simp only [List.length_cons, List.length_nil]
        omega)]
      simp [nodesText]

/-- The printer in a buffer of any size below the range of `int`. -/
theorem printNode_eq (node : Node) {len : Nat} (hlen : len < 0x80000000) :
    printNode 0 len node =
      if (nodeText 0 node).length + (needsSpare node).toNat ≤ len then some (nodeText 0 node) else none := by
  split
  case isTrue hfits =>
    cases hspare : needsSpare node with
    | false => exact printNode_exact hspare hlen (by omega)
    | true =>
      rw [hspare, Bool.toNat_true] at hfits
      exact prints node hlen hfits
  case isFalse hshort =>
    cases hprint : printNode 0 len node with
    | none => rfl
    | some text =>
      obtain ⟨rfl, hle⟩ := printsOnly node hprint
      exact absurd hle hshort

/-- Behind the range of `int` nothing is printed. -/
theorem printNode_none (node : Node) {len : Nat} (hlow : 0x80000000 ≤ len) (hlen : len < 2 ^ 32) :
    printNode 0 len node = none := by
  have hleft : sizeLeft len 0 < 0 := by
    unfold sizeLeft
    rw [Int.bmod_def]
    split <;> omega
  cases node with
  | mk name attrs children content =>
    rw [printNode, put, List.length_nil, if_pos (by omega)]
    rfl

/-! The whole document. -/

/-- The text of the document; a line feed follows where there is room for it. -/
def bodyText (node : Node) (includeProlog : Bool) : List UInt8 := (if includeProlog then prolog else []) ++ nodeText 0 node

def printed (node : Node) (includeProlog : Bool) (len : Nat) : List UInt8 :=
  if (bodyText node includeProlog).length + 1 ≤ len then bodyText node includeProlog ++ [10] else bodyText node includeProlog

/-- The result is -1 when and only when the text does not fit, and else the length of what was printed. -/
def Reports (node : Node) (includeProlog : Bool) (len : Nat) : Prop :=
  ((xmlPrint node len includeProlog).1 = -1 ↔ len < (bodyText node includeProlog).length) ∧
    ((bodyText node includeProlog).length ≤ len →
      xmlPrint node len includeProlog = (((printed node includeProlog len).length : Int), printed node includeProlog len))

/-- A text that fits is in a buffer within the range of `int`, and has a byte to spare where the node needs it; one
that does not fit is without a prolog, or there is not even room for the prolog. -/
def Reportable (node : Node) (includeProlog : Bool) (len : Nat) : Prop :=
  if (bodyText node includeProlog).length ≤ len then
    len < 0x80000000 ∧ (needsSpare node = true → (bodyText node includeProlog).length < len)
  else len ≠ 0 ∧ (includeProlog = true → len < prolog.length ∨ 0x80000000 ≤ len)

theorem length_bodyText (node : Node) (includeProlog : Bool) :
    (bodyText node includeProlog).length = (if includeProlog then prolog else []).length + (nodeText 0 node).length :=
  List.length_append

theorem xmlPrint_low (node : Node) (includeProlog : Bool) {len : Nat} (hpos : len ≠ 0) (hlen : len < 0x80000000) :
    xmlPrint node len includeProlog =
      if (bodyText node includeProlog).length + (needsSpare node).toNat ≤ len then
        (((printed node includeProlog len).length : Int), printed node includeProlog len)
      else if includeProlog = true ∧ prolog.length ≤ len then (prolog.length, prolog) else (-1, []) := by
  have hnode := indent_le_nodeText 0 node
  have hlength := length_bodyText node includeProlog
  have hsize : Int.bmod (len : Int) 0x100000000 = len := Int.bmod_eq_of_le (by omega) (by omega)
  obtain ⟨front, hfront⟩ : ∃ l, l = if includeProlog then prolog else [] := ⟨_, rfl⟩
  have htrue : includeProlog = true → front = prolog := fun h => by rw [hfront, if_pos h]
  have hbody : bodyText node includeProlog = front ++ nodeText 0 node := by rw [bodyText, ← hfront]
  rw [← hfront] at hlength
  rw [xmlPrint, if_neg hpos]
  simp only [← hfront]
  rw [hsize]
  by_cases hshort : includeProlog = true ∧ (len : Int) < front.length
  · have hnofront : ¬(includeProlog = true ∧ prolog.length ≤ len) := by
      rintro ⟨hprolog, hle⟩
      rw [← htrue hprolog] at hle
      omega
    rw [if_pos hshort, if_neg (by omega), if_neg hnofront]
  rw [if_neg hshort, printNode_eq node (by omega)]
  by_cases hfits : (bodyText node includeProlog).length + (needsSpare node).toNat ≤ len
  · rw [if_pos hfits, if_pos (by omega)]
    dsimp only
    rw [printed, hbody]
    split
    · rw [@List.length_append _ (front ++ nodeText 0 node) [10]]
      rfl
    · rfl
  · rw [if_neg hfits, if_neg (by omega)]
    dsimp only
    cases includeProlog with
    | false =>
      rw [if_neg Bool.false_ne_true, if_neg fun h => Bool.false_ne_true h.1]
    | true =>
      rw [if_pos rfl, htrue rfl] at *
      have hroom : prolog.length ≤ len := by
        have hle := not_lt.mp fun h => hshort ⟨rfl, h⟩
        omega
      rw [if_pos ⟨rfl, hroom⟩]

theorem xmlPrint_high (node : Node) (includeProlog : Bool) {len : Nat} (hlow : 0x80000000 ≤ len)
    (hlen : len < 2 ^ 32) : xmlPrint node len includeProlog = (-1, []) := by
  have hsize : Int.bmod (len : Int) 0x100000000 < 0 := by
    rw [Int.bmod_def]
    split <;> omega
  rw [xmlPrint, if_neg (by omega)]
  cases includeProlog with
  | true => exact if_pos ⟨rfl, by omega⟩
  | false =>
    dsimp only
    rw [if_neg fun h => Bool.false_ne_true h.1, if_neg Bool.false_ne_true, List.length_nil, Nat.sub_zero,
      printNode_none node hlow hlen, if_neg Bool.false_ne_true]

theorem total_pos (node : Node) (includeProlog : Bool) : 0 < (bodyText node includeProlog).length := by
  have hnode := indent_le_nodeText 0 node
  rw [length_bodyText]
  omega

theorem length_le_printed (node : Node) (includeProlog : Bool) (len : Nat) :
    (bodyText node includeProlog).length ≤ (printed node includeProlog len).length := by
  unfold printed
  split
  · rw [List.length_append]
    exact Nat.le_add_right _ _
  · exact le_rfl

/-- A buffer behind the range of `int` is refused. -/
theorem reports_high (node : Node) (includeProlog : Bool) {len : Nat} (hlow : 0x80000000 ≤ len) (hlen : len < 2 ^ 32) :
    Reports node includeProlog len ↔ Reportable node includeProlog len := by
  rw [Reports, Reportable, xmlPrint_high node includeProlog hlow hlen]
  split
  case isTrue hfits =>
    refine iff_of_false (fun h => ?_) fun h => absurd hlow (not_le.mpr h.1)
    exact absurd (h.1.mp rfl) (not_lt.mpr hfits)
  case isFalse hlong =>
    refine iff_of_true ⟨iff_of_true rfl (not_le.mp hlong), fun hfits => absurd hfits hlong⟩ ?_
    exact ⟨by omega, fun _ => .inr hlow⟩

theorem reports_low (node : Node) (includeProlog : Bool) {len : Nat} (hpos : len ≠ 0) (hlen : len < 0x80000000) :
    Reports node includeProlog len ↔ Reportable node includeProlog len := by
  have hspare : (needsSpare node).toNat ≤ 1 := Bool.toNat_le _
  rw [Reports, Reportable, xmlPrint_low node includeProlog hpos hlen]
  by_cases hroom : (bodyText node includeProlog).length + (needsSpare node).toNat ≤ len
  · have hfits : (bodyText node includeProlog).length ≤ len := by omega
    rw [if_pos hroom, if_pos hfits]
    refine iff_of_true ⟨iff_of_false (fun h => ?_) (not_lt.mpr hfits), fun _ => rfl⟩ ⟨hlen, fun hneeds => ?_⟩
    · have hneg : ((printed node includeProlog len).length : Int) = -1 := h
      omega
    · rw [hneeds, Bool.toNat_true] at hroom
      exact hroom
  rw [if_neg hroom]
  by_cases hfits : (bodyText node includeProlog).length ≤ len
  · rw [if_pos hfits]
    refine iff_of_false (fun h => ?_) fun h => ?_
    · have hresult := h.2 hfits
      split at hresult
      case isTrue hprolog =>
        have hlength := length_bodyText node includeProlog
        have hnode := indent_le_nodeText 0 node
        have hle := length_le_printed node includeProlog len
        have hsame : (prolog.length : Int) = (printed node includeProlog len).length := congrArg Prod.fst hresult
        rw [if_pos hprolog.1] at hlength
        omega
      case isFalse =>
        have hneg : (-1 : Int) = ((printed node includeProlog len).length : Int) := congrArg Prod.fst hresult
        omega
    · have hneeds : needsSpare node = true := by
        by_contra hno
        rw [Bool.not_eq_true] at hno
        rw [hno, Bool.toNat_false] at hroom
        exact hroom hfits
      rw [hneeds, Bool.toNat_true] at hroom
      exact hroom (h.2 hneeds)
  · rw [if_neg hfits]
    by_cases hprolog : includeProlog = true ∧ prolog.length ≤ len
    · rw [if_pos hprolog]
      refine iff_of_false (fun h => ?_) fun h => ?_
      · have hminus : (prolog.length : Int) = -1 := h.1.mpr (not_le.mp hfits)
        omega
      · have hshort := h.2 hprolog.1
        omega
    · rw [if_neg hprolog]
      refine iff_of_true ⟨iff_of_true rfl (not_le.mp hfits), fun h => absurd h hfits⟩ ⟨hpos, fun htrue => ?_⟩
      exact .inl (not_le.mp fun h => hprolog ⟨htrue, h⟩)

/-- `pj_xml_print` never writes outside the buffer, and its result is right in just these cases. -/
theorem xmlPrint_reports_iff (node : Node) (includeProlog : Bool) (len : UInt32) :
    (tryPrint node len.toNat includeProlog).1 = (xmlPrint node len.toNat includeProlog).1 ∧
      (tryPrint node len.toNat includeProlog).2.length ≤ len.toNat ∧
      (Reports node includeProlog len.toNat ↔ Reportable node includeProlog len.toNat) := by
  refine ⟨tryPrint_fst node len.toNat includeProlog, tryPrint_within node len includeProlog, ?_⟩
  by_cases hzero : len.toNat = 0
  · have htotal := total_pos node includeProlog
    rw [hzero, Reports, Reportable, if_neg (by omega)]
    refine iff_of_false (fun h => ?_) fun h => h.1 rfl
    have hminus : (0 : Int) = -1 := h.1.mpr htotal
    omega
  · by_cases hlow : len.toNat < 0x80000000
    · exact reports_low node includeProlog hzero hlow
    · exact reports_high node includeProlog (not_lt.mp hlow) len.toNat_lt

/-- The node `<a>bc</a>` behind the prolog in a buffer that is a byte too small, and `<a />` in one of its size. -/
theorem overflow_lost_in_prolog :
    47 < (bodyText (.mk (ascii "a") [] [] (ascii "bc")) true).length ∧
      (xmlPrint (.mk (ascii "a") [] [] (ascii "bc")) 47 true).1 = 39 ∧
      (bodyText (.mk (ascii "a") [] [] []) false).length = 5 ∧
      (xmlPrint (.mk (ascii "a") [] [] []) 5 false).1 = -1 := by
  decide +kernel

end PjProject.Xml
