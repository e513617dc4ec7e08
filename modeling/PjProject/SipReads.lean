import PjProject.SipSegments

/-! Reads of any bytes. As long as no error is passed on, it makes no difference how the bytes of the stream are cut into
reads: the end of a message that was found does not depend on what comes behind it. -/

namespace PjProject.Sip

open Scan (isNewline)

theorem strstr_split {sub l : Bytes} {k : Nat} (h : strstr sub l = some k) :
    ∃ x rest, l = x ++ (sub ++ rest) ∧ x.length = k := by
  induction l generalizing k with
  | nil => cases h
  | cons c l ih =>
    unfold strstr at h
    by_cases hpre : sub.isPrefixOf (c :: l) = true
    · rw [if_pos hpre] at h
      obtain ⟨rest, hrest⟩ := List.isPrefixOf_iff_prefix.mp hpre
      exact ⟨[], rest, hrest.symm, Option.some.inj h⟩
    · rw [if_neg hpre] at h
      obtain ⟨j, hj, rfl⟩ := Option.map_eq_some_iff.mp h
      obtain ⟨x, rest, rfl, rfl⟩ := ih hj
      exact ⟨c :: x, rest, rfl, rfl⟩

theorem startsContentLength_append {l : Bytes} (h : 10 ∈ l) (more : Bytes) :
    startsContentLength (l ++ more) = startsContentLength l := by
  have htake : ((l ++ more).take 14).map toLower = ascii "content-length" ↔
      (l.take 14).map toLower = ascii "content-length" := by
    by_cases hlen : 14 ≤ l.length
    · rw [List.take_append_of_le_length hlen]
    · have hlf : (10 : UInt8) ∉ ascii "content-length" := by
        rw [ascii_lower_contentLength]
        decide
      have hmem : (10 : UInt8) ∈ (l ++ more).take 14 := by
        rw [List.take_append]
        exact List.mem_append_left _ (by rw [List.take_of_length_le (by omega)]; exact h)
      rw [List.take_of_length_le (by omega : l.length ≤ 14)]
      exact ⟨fun heq => absurd (heq ▸ List.mem_map_of_mem (f := toLower) hmem) hlf,
        fun heq => absurd (heq ▸ List.mem_map_of_mem (f := toLower) h) hlf⟩
  cases l with
  | nil => cases h
  | cons c l =>
    unfold startsContentLength
    have hname : (Scan.Scanner.compareN toLower 14 (c :: l ++ more) (ascii "Content-Length") == 0) =
        (Scan.Scanner.compareN toLower 14 (c :: l) (ascii "Content-Length") == 0) := by
      rw [Bool.eq_iff_iff, beq_iff_eq, beq_iff_eq, compareN_contentLength, compareN_contentLength, htake]
    rw [hname]
    cases l with
    | nil =>
      obtain rfl := List.mem_singleton.mp h
      rfl
    | cons d l => rfl

theorem findContentLength_append (x rest more : Bytes) (p : Nat) (status : Status) :
    findContentLength (p + x.length + 1) p status (x ++ 10 :: 13 :: 10 :: rest ++ more) =
      findContentLength (p + x.length + 1) p status (x ++ 10 :: 13 :: 10 :: rest) := by
  induction x generalizing p status with
  | nil => simp [findContentLength, startsContentLength]
  | cons c x ih =>
    have hplace : p + (c :: x).length + 1 = p + 1 + x.length + 1 := by
      rw [List.length_cons]
      omega
    have hmem : 10 ∈ x ++ 10 :: 13 :: 10 :: rest := by simp
    have hlength : p + 1 + x.length + 1 - (p + 1) ≤ (x ++ 10 :: 13 :: 10 :: rest).length := by
      simp
      omega
    rw [hplace, List.cons_append, List.cons_append, findContentLength, findContentLength,
      startsContentLength_append hmem, List.take_append_of_le_length hlength]
    simp only [ih]

theorem findContentLength_error {hdrEnd p : Nat} {status : Status} (h : status ≠ .success) (l : Bytes) :
    findContentLength hdrEnd p status l ≠ .error .success := by
  induction l generalizing p status with
  | nil => exact fun herror => h (Except.error.inj herror)
  | cons c l ih =>
    rw [findContentLength]
    split_ifs
    · exact fun herror => h (Except.error.inj herror)
    · unfold parseContentLength
      cases scanContentLength (l.take (hdrEnd - (p + 1))) with
      | none => exact ih (by decide)
      | some clen =>
        dsimp only
        cases strtoiValidate clen 0 0x7FFFFFFF with
        | none => exact ih (by decide)
        | some n => exact fun herror => by cases herror
    · exact ih h
    · exact ih h

/-- A message that was found is found when more comes behind it. -/
theorem findMsg_append {buf : Bytes} {size : Nat} (h : findMsg buf false = (.success, size)) (more : Bytes) :
    findMsg (buf ++ more) false = (.success, size) ∧ 0 < size ∧ size ≤ buf.length := by
  rw [findMsg, if_neg Bool.false_ne_true] at h ⊢
  cases hend : strstr [10, 13, 10] buf with
  | none =>
    rw [hend] at h
    cases h
  | some pos =>
    obtain ⟨x, rest, rfl, rfl⟩ := strstr_split hend
    have hfound := findContentLength_append x rest more 0 .emissinghdr
    rw [Nat.zero_add] at hfound
    rw [hend] at h
    rw [strstr_append hend]
    dsimp only [List.cons_append, List.nil_append] at h ⊢
    rw [hfound]
    cases hlength : findContentLength (x.length + 1) 0 .emissinghdr (x ++ 10 :: 13 :: 10 :: rest) with
    | error status =>
      rw [hlength] at h
      obtain rfl := (Prod.mk.inj h).1
      exact absurd hlength (findContentLength_error (by decide) _)
    | ok contentLength =>
      rw [hlength] at h
      dsimp only at h ⊢
      obtain ⟨hstatus, rfl⟩ := Prod.mk.inj h
      have hle : x.length + 3 + contentLength ≤ (x ++ 10 :: 13 :: 10 :: rest).length := by
        by_contra hlt
        rw [if_neg hlt] at hstatus
        cases hstatus
      refine ⟨?_, by omega, hle⟩
      rw [if_pos]
      simp only [List.length_append, List.length_cons] at hle ⊢
      omega

/-- What is passed on of the bytes, and what is left of them, when there is no error. -/
inductive Receives : Bytes → List Report → Bytes → Prop
  | nil : Receives [] [] []
  | newline {c : UInt8} {l rest : Bytes} {reports : List Report} (hc : isNewline c = true) (h : Receives l reports rest) :
      Receives (c :: l) reports rest
  | message {c : UInt8} {l rest : Bytes} {reports : List Report} {size : Nat} (hc : isNewline c = false)
      (hfind : findMsg (c :: l) false = (.success, size)) (h : Receives ((c :: l).drop size) reports rest) :
      Receives (c :: l) (.parse ((c :: l).take size) :: reports) rest
  | part {c : UInt8} {l : Bytes} (hc : isNewline c = false) (hfind : (findMsg (c :: l) false).1 = .epartialmsg)
      (hmax : (c :: l).length ≠ maxPktLen) : Receives (c :: l) [] (c :: l)

namespace Receives

variable {l rest : Bytes} {reports : List Report}

theorem newlines {n : Bytes} (hn : ∀ c ∈ n, isNewline c = true) (h : Receives l reports rest) :
    Receives (n ++ l) reports rest := by
  induction n with
  | nil => exact h
  | cons c n ih => exact .newline (hn c List.mem_cons_self) (ih fun d hd => hn d (List.mem_cons_of_mem c hd))

theorem left (h : Receives l reports rest) : Receives rest [] rest := by
  induction h with
  | nil => exact .nil
  | newline _ _ ih => exact ih
  | message _ _ _ ih => exact ih
  | part hc hfind hmax => exact .part hc hfind hmax

theorem append (h : Receives l reports rest) {future rest' : Bytes} {reports' : List Report}
    (hmore : Receives (rest ++ future) reports' rest') : Receives (l ++ future) (reports ++ reports') rest' := by
  induction h with
  | nil => exact hmore
  | newline hc _ ih => exact .newline hc (ih hmore)
  | @message c l rest reports size hc hfind _ ih =>
    obtain ⟨hlong, -, hle⟩ := findMsg_append hfind future
    have hih := ih hmore
    rw [← List.drop_append_of_le_length hle] at hih
    rw [← @List.take_append_of_le_length _ (c :: l) future _ hle]
    exact .message hc hlong hih
  | part => exact hmore

theorem receiveLoop (h : Receives l reports rest) {turns : Nat} (hlen : l.length ≤ turns) :
    Sip.receiveLoop false turns l = (reports, rest) := by
  induction h generalizing turns with
  | nil => cases turns <;> rfl
  | @newline c l rest reports hc _ ih =>
    cases turns with
    | zero => cases hlen
    | succ turns =>
      rw [← ih (Nat.le_of_succ_le hlen), Sip.receiveLoop, Sip.receiveLoop, List.dropWhile_cons_of_pos hc]
  | @message c l rest reports size hc hfind _ ih =>
    cases turns with
    | zero => cases hlen
    | succ turns =>
      obtain ⟨-, hpos, -⟩ := findMsg_append hfind []
      have hloop := @ih turns (by rw [List.length_drop]; omega)
      rw [Sip.receiveLoop, List.dropWhile_cons_of_neg (by simp [hc])]
      dsimp only
      rw [hfind]
      dsimp only
      rw [hloop]
  | @part c l hc hfind hmax =>
    cases turns with
    | zero => cases hlen
    | succ turns =>
      rw [Sip.receiveLoop, List.dropWhile_cons_of_neg (by simp [hc])]
      dsimp only
      generalize findMsg (c :: l) false = r at hfind
      obtain ⟨status, size⟩ := r
      obtain rfl : status = .epartialmsg := hfind
      exact if_pos hmax

end Receives

theorem receives_of_receiveLoop {turns : Nat} {pkt : Bytes} (hlen : pkt.length ≤ turns)
    (hparse : ∀ status, .error status ∉ (receiveLoop false turns pkt).1) :
    Receives pkt (receiveLoop false turns pkt).1 (receiveLoop false turns pkt).2 := by
  induction turns generalizing pkt with
  | zero =>
    obtain rfl := List.length_eq_zero_iff.mp (Nat.le_zero.mp hlen)
    exact .nil
  | succ turns ih =>
    obtain ⟨n, hsplit, hn⟩ := dropWhile_split isNewline pkt
    rw [receiveLoop] at hparse ⊢
    cases hp : pkt.dropWhile isNewline with
    | nil =>
      rw [hp] at hsplit
      rw [hsplit]
      exact Receives.nil.newlines hn
    | cons c more =>
      have hc : isNewline c = false := by
        have hnot := List.dropWhile_get_zero_not (p := isNewline) pkt (by rw [hp]; exact Nat.succ_pos _)
        simpa [hp] using hnot
      rw [hp] at hsplit hparse
      have hle : (c :: more).length ≤ turns + 1 := by
        rw [hsplit, List.length_append] at hlen
        omega
      rw [hsplit]
      refine Receives.newlines hn ?_
      dsimp only at hparse ⊢
      generalize hfind : findMsg (c :: more) false = r at hparse ⊢
      obtain ⟨status, size⟩ := r
      cases status with
      | success =>
        obtain ⟨-, hpos, -⟩ := findMsg_append hfind []
        refine .message hc hfind (ih ?_ fun status hr => hparse status (List.mem_cons_of_mem _ hr))
        rw [List.length_drop]
        omega
      | epartialmsg =>
        dsimp only at hparse ⊢
        by_cases hmax : (c :: more).length ≠ maxPktLen
        · rw [if_pos hmax]
          exact .part hc (by rw [hfind]) hmax
        · rw [if_neg hmax] at hparse
          exact absurd List.mem_cons_self (hparse _)
      | emissinghdr | einvalidhdr | erxoverflow => exact absurd List.mem_cons_self (hparse _)

theorem onDataRead_newlines (keepAlive : Bool) (data : Bytes) :
    ∃ n data', data = n ++ data' ∧ (∀ c ∈ n, isNewline c = true) ∧
      (onDataRead keepAlive data = receiveLoop false data'.length data' ∨
        onDataRead keepAlive data = ([], data') ∧ ∀ c ∈ data', isNewline c = true) := by
  obtain ⟨n, hsplit, hn⟩ : ∃ n, data = n ++ (if keepAlive then dropPings data.length data else data) ∧
      ∀ c ∈ n, isNewline c = true := by
    cases keepAlive with
    | true => exact dropPings_split data.length data
    | false => exact ⟨[], rfl, nofun⟩
  refine ⟨n, _, hsplit, hn, ?_⟩
  unfold onDataRead
  dsimp only
  generalize (if keepAlive then dropPings data.length data else data) = data'
  by_cases hping : keepAlive ∧ (partialPing data' ∨ data' = [])
  · rw [if_pos hping]
    refine .inr ⟨rfl, fun c hc => ?_⟩
    rcases hping.2 with hpartial | rfl
    · rw [partialPing, Bool.and_eq_true] at hpartial
      have hmem := (List.isPrefixOf_iff_prefix.mp hpartial.2).subset hc
      exact (by decide +kernel : ∀ c ∈ crlfPing, isNewline c = true) c hmem
    · cases hc
  · rw [if_neg hping, receivePacket]
    exact .inl (Prod.ext rfl (List.suffix_iff_eq_drop.mp (receiveLoop_suffix false data'.length data')).symm)

theorem receives_onDataRead (keepAlive : Bool) {data : Bytes}
    (hparse : ∀ status, .error status ∉ (onDataRead keepAlive data).1) :
    ∃ rest, Receives (onDataRead keepAlive data).2 [] rest ∧
      ∀ {future rest' : Bytes} {reports : List Report}, Receives ((onDataRead keepAlive data).2 ++ future) reports rest' →
        Receives (data ++ future) ((onDataRead keepAlive data).1 ++ reports) rest' := by
  obtain ⟨n, data', rfl, hn, hread | ⟨hread, hall⟩⟩ := onDataRead_newlines keepAlive data
  · rw [hread] at hparse ⊢
    have hloop := receives_of_receiveLoop le_rfl hparse
    refine ⟨_, hloop.left, fun hmore => ?_⟩
    rw [List.append_assoc]
    exact (hloop.append hmore).newlines hn
  · rw [hread]
    refine ⟨[], ?_, fun hmore => ?_⟩
    · rw [← List.append_nil data']
      exact Receives.nil.newlines hall
    · rw [List.append_assoc]
      exact hmore.newlines hn

theorem reports_grow (keepAlive : Bool) (reads : List Bytes) (conn : Connection) :
    conn.reports <+: (reads.foldl (Connection.read keepAlive) conn).reports := by
  induction reads generalizing conn with
  | nil => exact List.prefix_refl _
  | cons data reads ih => exact (List.prefix_append conn.reports _).trans (ih (conn.read keepAlive data))

theorem receives_reads (keepAlive : Bool) {reads : List Bytes} {conn : Connection} {rest : Bytes}
    (h : Receives conn.kept [] rest)
    (hparse : ∀ status, .error status ∉ (reads.foldl (Connection.read keepAlive) conn).reports) :
    ∃ reports rest', Receives (conn.kept ++ reads.flatten) reports rest' ∧
      (reads.foldl (Connection.read keepAlive) conn).reports = conn.reports ++ reports := by
  induction reads generalizing conn rest with
  | nil =>
    refine ⟨[], rest, ?_, (List.append_nil _).symm⟩
    rw [List.flatten_nil, List.append_nil]
    exact h
  | cons data reads ih =>
    have hgrows := reports_grow keepAlive reads (conn.read keepAlive data)
    obtain ⟨rest', hkept, hstands⟩ := @receives_onDataRead keepAlive (conn.kept ++ data)
      fun status hr => hparse status (hgrows.subset (List.mem_append_right _ hr))
    obtain ⟨reports, last, hreads, hreports⟩ := @ih (conn.read keepAlive data) _ hkept hparse
    have hall := hstands hreads
    rw [List.append_assoc, ← List.flatten_cons] at hall
    exact ⟨_, last, hall, hreports.trans (List.append_assoc ..)⟩

/-- Reads of any bytes: when no error is passed on, the reports are those of one read of all the bytes. -/
theorem reads_eq_receivePacket (keepAlive : Bool) (reads : List Bytes)
    (hparse : ∀ status, .error status ∉ (readAll keepAlive reads).reports) :
    (readAll keepAlive reads).reports = (receivePacket false reads.flatten).1 := by
  obtain ⟨reports, rest, hreads, hreports⟩ := @receives_reads keepAlive reads ⟨[], []⟩ [] .nil hparse
  have hloop := @Receives.receiveLoop _ _ _ hreads reads.flatten.length le_rfl
  rw [List.nil_append] at hloop
  rw [receivePacket, hloop]
  exact hreports

/-- A header section with bare newlines, in two reads. -/
theorem reads_eq_receivePacket_bare :
    (readAll true [[65, 10, 108], [58, 48, 10, 13, 10]]).reports =
      (receivePacket false [65, 10, 108, 58, 48, 10, 13, 10]).1 := by
  refine reads_eq_receivePacket true [[65, 10, 108], [58, 48, 10, 13, 10]] ?_
  have hreports : (readAll true [[65, 10, 108], [58, 48, 10, 13, 10]]).reports =
      [.parse [65, 10, 108, 58, 48, 10, 13, 10]] := by
    decide +kernel
  rw [hreports]
  exact fun status hr => by cases List.mem_singleton.mp hr

end PjProject.Sip
