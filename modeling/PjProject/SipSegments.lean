import PjProject.SipMessages

/-! A stream of messages is handed to the parser message by message, however it is cut into reads: what is left of the
messages and newlines of the stream starts with what is kept. -/

namespace PjProject.Sip

open Scan (isNewline)

/-- The bytes of messages, with any number of CR and LF bytes before, between and behind them. -/
inductive Stream : Bytes → List Message → Prop
  | nil : Stream [] []
  | newline {c : UInt8} {l : Bytes} {ms : List Message} (hc : isNewline c = true) (h : Stream l ms) : Stream (c :: l) ms
  | message (m : Message) {l : Bytes} {ms : List Message} (h : Stream l ms) : Stream (m.bytes ++ l) (m :: ms)

theorem Message.first (m : Message) (l : Bytes) : ∃ c t, m.bytes ++ l = c :: t ∧ isNewline c = false := by
  obtain ⟨hne, hplain⟩ := m.hstart
  rw [Message.bytes, Message.head, Message.lines_text]
  cases hstart : m.startLine with
  | nil => exact absurd hstart hne
  | cons c line => exact ⟨c, _, rfl, hplain c (by rw [hstart]; exact List.mem_cons_self)⟩

theorem Stream.of_nil {ms : List Message} (h : Stream [] ms) : ms = [] := by
  generalize hl : ([] : Bytes) = l at h
  cases h with
  | nil => rfl
  | newline => cases hl
  | message m h =>
    obtain ⟨c, t, heq, -⟩ := m.first ‹_›
    rw [heq] at hl
    cases hl

theorem Stream.tail {c : UInt8} {l : Bytes} {ms : List Message} (h : Stream (c :: l) ms) (hc : isNewline c = true) :
    Stream l ms := by
  generalize hcl : c :: l = l' at h
  cases h with
  | nil => cases hcl
  | newline _ h =>
    obtain ⟨rfl, rfl⟩ := List.cons.inj hcl
    exact h
  | message m h =>
    obtain ⟨d, t, heq, hd⟩ := m.first ‹_›
    rw [heq] at hcl
    rw [(List.cons.inj hcl).1, hd] at hc
    cases hc

theorem Stream.dropNewlines {n l : Bytes} {ms : List Message} (h : Stream (n ++ l) ms) (hn : ∀ c ∈ n, isNewline c = true) :
    Stream l ms := by
  induction n with
  | nil => exact h
  | cons c n ih => exact ih (h.tail (hn c List.mem_cons_self)) fun d hd => hn d (List.mem_cons_of_mem c hd)

theorem Stream.of_newlines {l : Bytes} {ms : List Message} (h : Stream l ms) (hl : ∀ c ∈ l, isNewline c = true) : ms = [] := by
  rw [← List.append_nil l] at h
  exact (h.dropNewlines hl).of_nil

theorem Stream.start {c : UInt8} {l : Bytes} {ms : List Message} (h : Stream (c :: l) ms) (hc : isNewline c = false) :
    ∃ m more rest, ms = m :: rest ∧ c :: l = m.bytes ++ more ∧ Stream more rest := by
  generalize hcl : c :: l = l' at h
  cases h with
  | nil => cases hcl
  | newline hd h =>
    obtain ⟨rfl, -⟩ := List.cons.inj hcl
    rw [hc] at hd
    cases hd
  | message m h => exact ⟨m, _, _, rfl, rfl, h⟩

theorem dropWhile_split (p : UInt8 → Bool) (l : Bytes) : ∃ n, l = n ++ l.dropWhile p ∧ ∀ c ∈ n, p c = true :=
  ⟨l.takeWhile p, List.takeWhile_append_dropWhile.symm, fun _ hc => List.mem_takeWhile_imp hc⟩

def parses (ms : List Message) : List Report := ms.map fun m => .parse m.bytes

/-- The loop passes on the messages that are whole, and leaves the beginning of the next one. -/
theorem receiveLoop_stream (turns : Nat) : ∀ {pkt future : Bytes} {ms : List Message}, pkt.length ≤ turns →
    Stream (pkt ++ future) ms →
      ∃ done left rest, receiveLoop false turns pkt = (parses done, rest) ∧ ms = done ++ left ∧
        Stream (rest ++ future) left ∧ (future = [] → left = []) := by
  induction turns with
  | zero =>
    intro pkt future ms hlen h
    obtain rfl := List.length_eq_zero_iff.mp (Nat.le_zero.mp hlen)
    refine ⟨[], ms, [], rfl, rfl, h, ?_⟩
    rintro rfl
    exact h.of_nil
  | succ turns ih =>
    intro pkt future ms hlen h
    obtain ⟨n, hsplit, hn⟩ := dropWhile_split isNewline pkt
    rw [receiveLoop]
    cases hp : pkt.dropWhile isNewline with
    | nil =>
      rw [hp, List.append_nil] at hsplit
      rw [hsplit] at h
      refine ⟨[], ms, [], rfl, rfl, h.dropNewlines hn, ?_⟩
      rintro rfl
      exact (h.dropNewlines hn).of_nil
    | cons c more =>
      rw [hp] at hsplit
      have hc : isNewline c = false := by
        have hnot := List.dropWhile_get_zero_not (p := isNewline) pkt (by rw [hp]; exact Nat.succ_pos _)
        simpa [hp] using hnot
      rw [hsplit, List.append_assoc] at h
      have hstream := h.dropNewlines hn
      have hle : (c :: more).length ≤ turns + 1 := by
        rw [hsplit, List.length_append] at hlen
        omega
      obtain ⟨m, behind, rest, rfl, hbytes, hrest⟩ := hstream.start hc
      dsimp only
      by_cases hwhole : m.bytes.length ≤ (c :: more).length
      · -- the message is in the packet
        obtain ⟨t, ht⟩ : m.bytes <+: c :: more := by
          refine List.prefix_of_prefix_length_le ⟨behind, hbytes.symm⟩ ?_ hwhole
          exact List.prefix_append (c :: more) future
        have hbehind : behind = t ++ future := by
          have heq : m.bytes ++ (t ++ future) = m.bytes ++ behind := by
            rw [← List.append_assoc, ht]
            exact hbytes
          exact (List.append_cancel_left heq).symm
        have hpos : 0 < m.bytes.length := by
          obtain ⟨d, u, hd, -⟩ := m.first []
          rw [List.append_nil] at hd
          rw [hd]
          exact Nat.succ_pos _
        have htail : t.length ≤ turns := by
          rw [← ht, List.length_append] at hle
          omega
        rw [hbehind] at hrest
        obtain ⟨done, left, kept, hloop, hms, hkept, hlast⟩ := ih htail hrest
        refine ⟨m :: done, left, kept, ?_, by rw [hms]; rfl, hkept, hlast⟩
        rw [← ht, m.findMsg_bytes]
        dsimp only
        rw [List.drop_left, List.take_left, hloop]
        rfl
      · -- only its beginning
        obtain ⟨q, hq⟩ : c :: more <+: m.bytes := by
          refine List.prefix_of_prefix_length_le (List.prefix_append (c :: more) future) ?_ (Nat.le_of_not_le hwhole)
          exact ⟨behind, hbytes.symm⟩
        have hne : q ≠ [] := by
          rintro rfl
          rw [List.append_nil] at hq
          exact hwhole (by rw [hq])
        have hpartial := m.findMsg_prefix hq hne
        have hmax : (c :: more).length ≠ maxPktLen := by
          have := m.lt_maxPktLen
          omega
        refine ⟨[], m :: rest, c :: more, ?_, rfl, hstream, ?_⟩
        · generalize findMsg (c :: more) false = r at hpartial
          obtain ⟨status, size⟩ := r
          obtain rfl : status = .epartialmsg := hpartial
          dsimp only
          rw [if_pos hmax]
          rfl
        · rintro rfl
          have hall : (c :: more) ++ [] = m.bytes ++ behind := hbytes
          rw [List.append_nil] at hall
          rw [hall, List.length_append] at hwhole
          exact absurd (Nat.le_add_right _ _) hwhole

/-- What is left is the end of the packet. -/
theorem receiveLoop_suffix (isDatagram : Bool) (turns : Nat) (pkt : Bytes) :
    (receiveLoop isDatagram turns pkt).2 <:+ pkt := by
  induction turns generalizing pkt with
  | zero => exact List.suffix_refl pkt
  | succ turns ih =>
    rw [receiveLoop]
    cases hp : pkt.dropWhile isNewline with
    | nil => exact List.nil_suffix
    | cons c more =>
      have hsuffix : c :: more <:+ pkt := by
        rw [← hp]
        exact List.dropWhile_suffix _
      dsimp only
      generalize findMsg (c :: more) isDatagram = r
      obtain ⟨status, size⟩ := r
      cases status with
      | success => exact ((ih _).trans (List.drop_suffix size _)).trans hsuffix
      | epartialmsg =>
        dsimp only
        split
        · exact hsuffix
        · exact List.nil_suffix
      | emissinghdr => exact List.nil_suffix
      | einvalidhdr => exact List.nil_suffix
      | erxoverflow => exact List.nil_suffix

/-- `pjsip_tpmgr_receive_packet` on a part of the stream. -/
theorem receivePacket_stream {pkt future : Bytes} {ms : List Message} (h : Stream (pkt ++ future) ms) :
    ∃ done left, (receivePacket false pkt).1 = parses done ∧ ms = done ++ left ∧
      Stream (pkt.drop (receivePacket false pkt).2 ++ future) left ∧ (future = [] → left = []) := by
  obtain ⟨done, left, rest, hloop, hms, hrest, hlast⟩ := receiveLoop_stream pkt.length le_rfl h
  have hsuffix := receiveLoop_suffix false pkt.length pkt
  have hkept : pkt.drop (receivePacket false pkt).2 = rest := by
    rw [receivePacket]
    rw [hloop] at hsuffix ⊢
    exact (List.suffix_iff_eq_drop.mp hsuffix).symm
  refine ⟨done, left, ?_, hms, by rw [hkept]; exact hrest, hlast⟩
  rw [receivePacket, hloop]

theorem dropPings_split (turns : Nat) (data : Bytes) :
    ∃ n, data = n ++ dropPings turns data ∧ ∀ c ∈ n, isNewline c = true := by
  induction turns generalizing data with
  | zero => exact ⟨[], rfl, nofun⟩
  | succ turns ih =>
    rw [dropPings]
    by_cases hping : crlfPing.isPrefixOf data = true
    · rw [if_pos hping]
      obtain ⟨t, rfl⟩ := List.isPrefixOf_iff_prefix.mp hping
      have hdrop : (crlfPing ++ t).drop 4 = t := rfl
      obtain ⟨n, hn, hall⟩ := ih t
      rw [hdrop]
      refine ⟨crlfPing ++ n, by rw [List.append_assoc, ← hn], fun c hc => ?_⟩
      rcases List.mem_append.mp hc with hc | hc
      · exact (by decide +kernel : ∀ c ∈ crlfPing, isNewline c = true) c hc
      · exact hall c hc
    · rw [if_neg hping]
      exact ⟨[], rfl, nofun⟩

theorem onDataRead_stream (keepAlive : Bool) {data future : Bytes} {ms : List Message} (h : Stream (data ++ future) ms) :
    ∃ done left, (onDataRead keepAlive data).1 = parses done ∧ ms = done ++ left ∧
      Stream ((onDataRead keepAlive data).2 ++ future) left ∧ (future = [] → left = []) := by
  obtain ⟨n, hsplit, hn⟩ : ∃ n, data = n ++ (if keepAlive then dropPings data.length data else data) ∧
      ∀ c ∈ n, isNewline c = true := by
    cases keepAlive with
    | true => exact dropPings_split data.length data
    | false => exact ⟨[], rfl, nofun⟩
  unfold onDataRead
  dsimp only
  generalize (if keepAlive then dropPings data.length data else data) = data' at hsplit
  rw [hsplit, List.append_assoc] at h
  have hstream := h.dropNewlines hn
  by_cases hping : keepAlive ∧ (partialPing data' ∨ data' = [])
  · rw [if_pos hping]
    refine ⟨[], ms, rfl, rfl, hstream, ?_⟩
    rintro rfl
    rw [List.append_nil] at hstream
    refine hstream.of_newlines fun c hc => ?_
    rcases hping.2 with hpartial | rfl
    · rw [partialPing, Bool.and_eq_true] at hpartial
      have hmem := (List.isPrefixOf_iff_prefix.mp hpartial.2).subset hc
      exact (by decide +kernel : ∀ c ∈ crlfPing, isNewline c = true) c hmem
    · cases hc
  · rw [if_neg hping]
    exact receivePacket_stream hstream

/-- The reads so far have passed on some messages of the stream; the others start with what is kept. -/
theorem reads_stream (keepAlive : Bool) {reads : List Bytes} : ∀ {conn : Connection} {ms : List Message},
    Stream (conn.kept ++ reads.flatten) ms → (reads = [] → ms = []) →
      (reads.foldl (Connection.read keepAlive) conn).reports = conn.reports ++ parses ms := by
  induction reads with
  | nil =>
    intro conn ms _ hlast
    rw [hlast rfl]
    exact (List.append_nil _).symm
  | cons data reads ih =>
    intro conn ms h _
    rw [List.flatten_cons, ← List.append_assoc] at h
    obtain ⟨done, left, hdone, rfl, hleft, hlast⟩ := onDataRead_stream keepAlive h
    have hread : conn.read keepAlive data =
        ⟨conn.reports ++ parses done, (onDataRead keepAlive (conn.kept ++ data)).2⟩ := by
      rw [← hdone]
      rfl
    rw [List.foldl_cons, hread, ih hleft fun hnil => hlast (by rw [hnil]; rfl), List.append_assoc]
    exact congrArg (conn.reports ++ ·) List.map_append.symm

/-- For every stream of messages and every way of cutting it into reads, the parser gets exactly the messages of the stream. -/
theorem reads_parse_messages (keepAlive : Bool) {bytes : Bytes} {ms : List Message} {reads : List Bytes}
    (hstream : Stream bytes ms) (hcut : reads.flatten = bytes) : (readAll keepAlive reads).reports = parses ms := by
  refine @reads_stream keepAlive reads ⟨[], []⟩ ms ?_ ?_
  · rw [hcut]
    exact hstream
  · rintro rfl
    rw [← hcut] at hstream
    exact hstream.of_nil

def tiny : Message where
  startLine := [65]
  front := []
  contentLength :=
    { name := [108], before := [], behind := [32], fold := none, digits := [49], trailing := []
      hname := by decide
      hbefore := fun _ hc => absurd hc List.not_mem_nil
      hbehind := fun _ hc => by rw [List.mem_singleton.mp hc]; rfl
      hfold := fun _ hl => by cases hl
      hdigits := ⟨List.cons_ne_nil _ _, fun _ hc => by rw [List.mem_singleton.mp hc]; rfl⟩
      htrailing := fun _ hc => absurd hc List.not_mem_nil }
  back := []
  body := [120]
  hstart := ⟨List.cons_ne_nil _ _, fun _ hc => by rw [List.mem_singleton.mp hc]; rfl⟩
  hfront := fun _ hl => absurd hl List.not_mem_nil
  hback := fun _ hl => absurd hl List.not_mem_nil
  hnext := fun _ hl => by cases hl
  hsize := rfl
  hmax := by decide

/-- Two messages behind a newline, in three reads. -/
theorem reads_parse_two : (readAll true [13 :: 10 :: tiny.bytes.take 3, tiny.bytes.drop 3 ++ tiny.bytes.take 7,
    tiny.bytes.drop 7]).reports = parses [tiny, tiny] := by
  have hstream : Stream (13 :: 10 :: (tiny.bytes ++ (tiny.bytes ++ []))) [tiny, tiny] :=
    .newline rfl (.newline rfl (.message tiny (.message tiny .nil)))
  exact reads_parse_messages true hstream rfl

end PjProject.Sip
