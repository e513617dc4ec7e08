import PjProject.Rtcp
import Mathlib

/-! The number of lost packets that an RTCP session counts. Behind the probation it is the number of the sequence numbers
that are missing, as long as the session is told of no more than 2^32 packets: its count of the packets wraps then, and the
next one is taken for the first. -/

namespace PjProject.Rtcp

open Rtp (seqOf seqUpdate seqOf_lt SeqSession)

/-- A packet with its true sequence number. -/
def receive (sess : Session) (number : ℤ) : Session := rxRtp2 sess (seqOf number)

def receiveAll (sess : Session) (numbers : List ℤ) : Session := numbers.foldl receive sess

def EndsProbation (sess : Session) (number : ℤ) : Prop := sess.InProbation ∧ ¬ (receive sess number).InProbation

/-- Each packet is less than 3000 above and less than 100 below the highest one so far. -/
def InWindow : ℤ → List ℤ → Prop
  | _, [] => True
  | highest, number :: more =>
    (number < highest + 3000 ∧ highest - 100 < number) ∧ InWindow (max highest number) more

/-- A stream behind its probation: no number comes twice, all are above the one that ended the probation by less than
2^31, and in the window. -/
structure Stream (start : ℤ) (numbers : List ℤ) : Prop where
  nodup : numbers.Nodup
  above : ∀ number ∈ numbers, start < number ∧ number < start + 2147483648
  window : InWindow start numbers

/-- The numbers that were not received, of those above `start` up to `highest`. -/
noncomputable def missing (start highest : ℤ) (numbers : List ℤ) : Nat :=
  ((Finset.Ioc start highest).filter (· ∉ numbers)).card

/-- After each packet in order the loss is the number of packets that are missing. -/
def LossExact (early : List ℤ) (start : ℤ) (numbers : List ℤ) : Prop :=
  ∀ front number back, numbers = front ++ number :: back → (∀ other ∈ front, other < number) →
    (receiveAll init (early ++ start :: (front ++ [number]))).loss = missing start number (front ++ [number])

theorem receiveAll_append (sess : Session) (front back : List ℤ) :
    receiveAll sess (front ++ back) = receiveAll (receiveAll sess front) back := List.foldl_append

theorem receiveAll_pkt (sess : Session) (numbers : List ℤ) :
    (receiveAll sess numbers).pkt % 4294967296 = (sess.pkt + numbers.length) % 4294967296 := by
  unfold receiveAll
  induction numbers generalizing sess with
  | nil => rfl
  | cons number numbers ih =>
    have hpkt : (receive sess number).pkt = (sess.pkt + 1) % 4294967296 := (rxRtp2_kept sess _).2.1
    rw [List.foldl_cons, ih, hpkt, List.length_cons]
    omega

theorem missing_eq {start highest : ℤ} {numbers : List ℤ} (hnodup : numbers.Nodup)
    (hmem : ∀ number ∈ numbers, start < number ∧ number ≤ highest) :
    missing start highest numbers + numbers.length = (highest - start).toNat := by
  have hin : (Finset.Ioc start highest).filter (· ∈ numbers) = numbers.toFinset := by
    ext number
    rw [Finset.mem_filter, Finset.mem_Ioc, List.mem_toFinset]
    exact ⟨And.right, fun h => ⟨hmem number h, h⟩⟩
  have hcard := Finset.card_filter_add_card_filter_not (s := Finset.Ioc start highest) (· ∈ numbers)
  rw [hin, List.toFinset_card_of_nodup hnodup, Int.card_Ioc] at hcard
  rw [missing, ← hcard, Nat.add_comm]

/-! The probation. -/

/-- Behind the probation it stays there until the count of the packets wraps. -/
theorem rxRtp2_settled {sess : Session} {seq : Nat} (h : ¬ sess.InProbation)
    (hpkt : (sess.pkt + 1) % 4294967296 ≠ 0) : ¬ (rxRtp2 sess seq).InProbation := by
  obtain ⟨hctrl, hcount, -, -⟩ := rxRtp2_kept sess seq
  obtain ⟨hstart, hprobation⟩ := Session.seqStart_settled h seq
  rw [Session.InProbation, hctrl, hcount, hstart, not_or, not_not]
  exact ⟨hpkt, Rtp.seqUpdate_settled hprobation seq⟩

def OnProbation (sess : Session) : Prop := sess.seqCtrl.InRange ∧ (sess.InProbation → Fresh sess)

theorem onProbation_receive {sess : Session} (h : OnProbation sess) (number : ℤ)
    (hpkt : (sess.pkt + 1) % 4294967296 ≠ 0) : OnProbation (receive sess number) := by
  refine ⟨?_, fun hin => ?_⟩
  · rw [receive, (rxRtp2_kept sess _).1]
    exact (Session.seqStart_inRange h.1 (seqOf_lt number)).seqUpdate (seqOf_lt number)
  · by_cases hwas : sess.InProbation
    · exact (rxRtp2_probation hwas (h.2 hwas) _).1
    · exact absurd hin (rxRtp2_settled hwas hpkt)

theorem onProbation_receiveAll {sess : Session} (h : OnProbation sess) (numbers : List ℤ)
    (hpkt : sess.pkt + numbers.length < 4294967296) : OnProbation (receiveAll sess numbers) := by
  unfold receiveAll
  induction numbers generalizing sess with
  | nil => exact h
  | cons number numbers ih =>
    rw [List.length_cons] at hpkt
    have hnext : (receive sess number).pkt = sess.pkt + 1 := by
      rw [receive, (rxRtp2_kept sess _).2.1]
      omega
    exact ih (onProbation_receive h number (by omega)) (by omega)

theorem onProbation_init : OnProbation init := ⟨⟨by decide, by decide, rfl, by decide⟩, fun _ => ⟨rfl, rfl⟩⟩

/-! Behind the probation. -/

/-- The session has counted the numbers above `start`, of which `highest` is the highest. -/
structure Counts (sess : Session) (start highest : ℤ) (numbers : List ℤ) : Prop where
  probation : sess.seqCtrl.probation = 0
  inRange : sess.seqCtrl.InRange
  maxSeq : sess.seqCtrl.maxSeq = seqOf highest
  extended : ((sess.seqCtrl.cycles : ℤ) + sess.seqCtrl.maxSeq - sess.seqCtrl.baseSeq - (highest - start)) % 4294967296 = 0
  received : sess.received = numbers.length
  attained : highest = start ∨ highest ∈ numbers
  bound : ∀ number ∈ numbers, number ≤ highest

theorem expected_eq {seqCtrl : SeqSession} (h : seqCtrl.InRange) {distance : ℤ} (hlow : 0 ≤ distance)
    (hhigh : distance < 4294967296)
    (hext : ((seqCtrl.cycles : ℤ) + seqCtrl.maxSeq - seqCtrl.baseSeq - distance) % 4294967296 = 0) :
    expected seqCtrl = distance.toNat := by
  have hbase := h.baseSeq
  unfold expected since
  omega

theorem counts_ends {sess : Session} {start : ℤ} (h : OnProbation sess) (hends : EndsProbation sess start) :
    Counts (receive sess start) start start [] := by
  obtain ⟨hin, hsettled⟩ := hends
  rw [Session.InProbation, not_or, not_not] at hsettled
  obtain ⟨hmax, hbase⟩ := rxRtp2_ends hin hsettled.2
  obtain ⟨⟨hreceived, hcycles⟩, -⟩ := rxRtp2_probation hin (h.2 hin) (seqOf start)
  refine ⟨hsettled.2, ?_, hmax, ?_, hreceived, .inl rfl, fun _ hmem => absurd hmem List.not_mem_nil⟩
  · rw [receive, (rxRtp2_kept sess _).1]
    exact (Session.seqStart_inRange h.1 (seqOf_lt start)).seqUpdate (seqOf_lt start)
  · rw [receive, hmax, hbase, hcycles]
    omega

theorem Counts.receive {sess : Session} {start highest : ℤ} {numbers : List ℤ}
    (h : Counts sess start highest numbers) (number : ℤ) (hpkt : sess.pkt ≠ 0) (hnodup : (numbers ++ [number]).Nodup)
    (habove : ∀ other ∈ numbers ++ [number], start < other ∧ other < start + 2147483648)
    (hwindow : number < highest + 3000 ∧ highest - 100 < number) :
    Counts (receive sess number) start (max highest number) (numbers ++ [number]) ∧
      (highest < number → (Rtcp.receive sess number).loss = missing start number (numbers ++ [number])) := by
  obtain ⟨hprobation, hrange, hmax, hext, hreceived, hattained, hbound⟩ := h
  have hstart : sess.seqStart (seqOf number) = sess.seqCtrl := if_neg hpkt
  obtain ⟨hmax', hext', hdiff, hbad, hrestart⟩ := Rtp.seqUpdate_window hprobation hmax hwindow.2 hwindow.1 hext
  obtain ⟨hbehind, -, -, hstill⟩ := Rtp.seqUpdate_moved hprobation hrange (seqOf_lt number) hrestart
  have hctrl : (Rtcp.receive sess number).seqCtrl = (seqUpdate sess.seqCtrl (seqOf number)).1 := by
    rw [Rtcp.receive, (rxRtp2_kept sess _).1, hstart]
  rw [← hstart] at hbad hrestart hbehind
  obtain ⟨hcount, -, -, hloss⟩ := rxRtp2_good hrestart hbad hbehind
  have hrange' : (Rtcp.receive sess number).seqCtrl.InRange := by
    rw [hctrl]
    exact hrange.seqUpdate (seqOf_lt number)
  rw [← hctrl] at hmax' hext'
  have hbound' : ∀ other ∈ numbers ++ [number], start < other ∧ other ≤ max highest number := by
    intro other hmem
    refine ⟨(habove other hmem).1, ?_⟩
    rcases List.mem_append.mp hmem with hmem | hmem
    · exact (hbound other hmem).trans (le_max_left _ _)
    · rw [List.mem_singleton.mp hmem]
      exact le_max_right _ _
  have hattained' : max highest number = start ∨ max highest number ∈ numbers ++ [number] := by
    rcases max_choice highest number with hmax | hmax
    · rw [hmax]
      exact hattained.imp_right (List.mem_append_left _)
    · rw [hmax]
      exact .inr (List.mem_append_right _ List.mem_cons_self)
  have hfar : start ≤ max highest number ∧ max highest number < start + 2147483648 := by
    rcases hattained' with heq | hmem
    · omega
    · exact ⟨(habove _ hmem).1.le, (habove _ hmem).2⟩
  have hall := missing_eq hnodup hbound'
  rw [List.length_append, List.length_singleton] at hall
  have hnum : (sess.received + 1) % 4294967296 = numbers.length + 1 := by omega
  refine ⟨⟨?_, hrange', hmax', hext', ?_, hattained', fun other hmem => (hbound' other hmem).2⟩, fun hnew => ?_⟩
  · rw [hctrl]
    exact Rtp.seqUpdate_settled hprobation _
  · rw [List.length_append, List.length_singleton]
    exact hcount.trans hnum
  · have hhigh : max highest number = number := max_eq_right hnew.le
    rw [hhigh] at hdiff hext' hfar hall
    have horder : (seqUpdate (sess.seqStart (seqOf number)) (seqOf number)).2.outorder = false := by
      rw [hstart]
      refine eq_false_of_ne_true fun hout => ?_
      have hzero := hstill (.inr hout)
      omega
    have hlost : (Rtcp.receive sess number).loss = expected (Rtcp.receive sess number).seqCtrl - _ := hloss horder
    rw [hlost, hnum, expected_eq hrange' (by omega) (by omega) hext']
    omega

theorem inWindow_append {highest number : ℤ} {front back : List ℤ} (h : InWindow highest (front ++ number :: back)) :
    InWindow highest front ∧ ∀ top, (∀ other ∈ front, other ≤ top) → highest ≤ top →
      (top = highest ∨ top ∈ front) → number < top + 3000 ∧ top - 100 < number := by
  induction front generalizing highest with
  | nil =>
    refine ⟨trivial, fun top _ _ htop => ?_⟩
    rw [htop.resolve_right List.not_mem_nil]
    exact h.1
  | cons first front ih =>
    obtain ⟨hfront, hnext⟩ := ih h.2
    refine ⟨⟨h.1, hfront⟩, fun top hall hle htop => ?_⟩
    have hfirst := hall first List.mem_cons_self
    refine hnext top (fun other hmem => hall other (List.mem_cons_of_mem first hmem)) (max_le hle hfirst) ?_
    rcases htop with rfl | htop
    · exact .inl (max_eq_left hfirst).symm
    · rcases List.mem_cons.mp htop with rfl | htop
      · exact .inl (max_eq_right hle).symm
      · exact .inr htop

theorem counts_receiveAll {sess : Session} {start highest : ℤ} {numbers more : List ℤ}
    (h : Counts sess start highest numbers) (hpkt : ∀ n < more.length, (sess.pkt + n) % 4294967296 ≠ 0)
    (hnodup : (numbers ++ more).Nodup)
    (habove : ∀ other ∈ numbers ++ more, start < other ∧ other < start + 2147483648)
    (hwindow : InWindow highest more) :
    ∃ top, highest ≤ top ∧ (top = highest ∨ top ∈ more) ∧
      Counts (receiveAll sess more) start top (numbers ++ more) := by
  induction more generalizing sess highest numbers with
  | nil =>
    rw [List.append_nil]
    exact ⟨highest, le_rfl, .inl rfl, h⟩
  | cons number more ih =>
    have hsplit : numbers ++ number :: more = (numbers ++ [number]) ++ more := List.append_cons numbers number more
    rw [hsplit] at hnodup habove ⊢
    have hfirst : sess.pkt ≠ 0 := by
      have hzero := hpkt 0 (Nat.zero_lt_succ _)
      omega
    obtain ⟨hnext, -⟩ := h.receive number hfirst (List.nodup_append.mp hnodup).1
      (fun other hmem => habove other (List.mem_append_left more hmem)) hwindow.1
    have hlater (n : Nat) (hn : n < more.length) : ((receive sess number).pkt + n) % 4294967296 ≠ 0 := by
      have hsecond := hpkt (n + 1) (by rw [List.length_cons]; omega)
      rw [receive, (rxRtp2_kept sess _).2.1]
      omega
    obtain ⟨top, hle, htop, hcounts⟩ := ih hnext hlater hnodup habove hwindow.2
    refine ⟨top, (le_max_left _ _).trans hle, ?_, hcounts⟩
    rcases htop with rfl | htop
    · rcases max_choice highest number with hmax | hmax
      · exact .inl hmax
      · rw [hmax]
        exact .inr List.mem_cons_self
    · exact .inr (List.mem_cons_of_mem number htop)

/-- As long as the session is told of no more than 2^32 packets its loss is exact. -/
theorem loss_exact (early : List ℤ) (start : ℤ) (numbers : List ℤ)
    (hends : EndsProbation (receiveAll init early) start) (hstream : Stream start numbers)
    (hpkt : early.length + 1 + numbers.length ≤ 4294967296) : LossExact early start numbers := by
  intro front number back hsplit hhighest
  rw [hsplit] at hstream
  obtain ⟨hnodup, habove, hwindow⟩ := hstream
  rw [hsplit, List.length_append, List.length_cons] at hpkt
  have hpkt₀ : init.pkt = 0 := rfl
  have hearly := onProbation_receiveAll onProbation_init early (by omega)
  have hnodup' : (front ++ [number]).Nodup := by
    rw [List.append_cons] at hnodup
    exact (List.nodup_append.mp hnodup).1
  have habove' : ∀ other ∈ front ++ [number], start < other ∧ other < start + 2147483648 := by
    intro other hmem
    refine habove other ?_
    rw [List.append_cons]
    exact List.mem_append_left back hmem
  obtain ⟨hfront, hlast⟩ := inWindow_append hwindow
  have hcount (n : Nat) (hn : n < front.length + 1) :
      ((receive (receiveAll init early) start).pkt + n) % 4294967296 ≠ 0 := by
    have hlen := receiveAll_pkt init early
    rw [receive, (rxRtp2_kept _ _).2.1]
    omega
  obtain ⟨top, hle, htop, hcounts⟩ := counts_receiveAll (counts_ends hearly hends)
    (fun n hn => hcount n (Nat.lt_succ_of_lt hn)) (List.nodup_append.mp hnodup').1
    (fun other hmem => habove' other (List.mem_append_left _ hmem)) hfront
  have hnow : (receiveAll (receive (receiveAll init early) start) front).pkt ≠ 0 := by
    have hlen := receiveAll_pkt (receive (receiveAll init early) start) front
    have hne := hcount front.length (Nat.lt_succ_self _)
    omega
  obtain ⟨-, hloss⟩ := hcounts.receive number hnow hnodup' habove'
    (hlast top hcounts.bound hle htop)
  rw [receiveAll_append]
  change (receiveAll (receive (receiveAll init early) start) (front ++ [number])).loss = _
  rw [receiveAll_append]
  refine hloss ?_
  rcases htop with rfl | htop
  · exact (habove' number (List.mem_append_right _ List.mem_cons_self)).1
  · exact hhighest top htop

/-- A late packet, around a wrap. -/
theorem loss_exact_late : LossExact [65533] 65534 [65537, 65535, 65538] := by
  refine loss_exact [65533] 65534 _ ⟨.inr (by decide), not_or.mpr ⟨by decide, by decide⟩⟩
    ⟨by decide, by decide, ?_⟩ (by decide)
  simp only [InWindow]
  decide

/-! The count of the packets wraps. -/

/-- Packets that never come in sequence. -/
def evens (n : Nat) : List ℤ := (List.range n).map fun k : Nat => 2 * (k : ℤ)

theorem evens_succ (n : Nat) : evens (n + 1) = evens n ++ [2 * (n : ℤ)] := by
  rw [evens, List.range_succ, List.map_append]
  rfl

theorem seqUpdate_skips {sess : SeqSession} {seq : Nat} (hprobation : sess.probation ≠ 0)
    (hseq : seq ≠ (sess.maxSeq + 1) % 65536) :
    (seqUpdate sess seq).1.probation = 1 ∧ (seqUpdate sess seq).1.maxSeq = seq := by
  unfold seqUpdate
  dsimp only
  rw [if_pos hprobation, if_neg hseq]
  exact ⟨rfl, rfl⟩

theorem seqUpdate_next {sess : SeqSession} {seq : Nat} (hprobation : sess.probation = 1)
    (hseq : seq = (sess.maxSeq + 1) % 65536) : (seqUpdate sess seq).1.probation = 0 := by
  unfold seqUpdate
  dsimp only
  rw [hprobation, if_pos one_ne_zero, if_pos hseq, if_pos rfl]

theorem receiveAll_evens {n : Nat} (hn : n + 1 < 4294967296) :
    (receiveAll init (evens (n + 1))).pkt = n + 1 ∧ (receiveAll init (evens (n + 1))).seqCtrl.probation = 1 ∧
      (receiveAll init (evens (n + 1))).seqCtrl.maxSeq = seqOf (2 * (n : ℤ)) := by
  induction n with
  | zero => decide
  | succ n ih =>
    obtain ⟨hpkt, hprobation, hmax⟩ := ih (by omega)
    rw [evens_succ, receiveAll_append]
    generalize receiveAll init (evens (n + 1)) = sess at hpkt hprobation hmax
    change (receive sess (2 * ((n + 1 : Nat) : ℤ))).pkt = _ ∧
      (receive sess (2 * ((n + 1 : Nat) : ℤ))).seqCtrl.probation = 1 ∧
      (receive sess (2 * ((n + 1 : Nat) : ℤ))).seqCtrl.maxSeq = _
    obtain ⟨hctrl, hcount, -⟩ := rxRtp2_kept sess (seqOf (2 * ((n + 1 : Nat) : ℤ)))
    have hstart : sess.seqStart (seqOf (2 * ((n + 1 : Nat) : ℤ))) = sess.seqCtrl := if_neg (by omega)
    rw [hstart] at hctrl
    rw [receive, hctrl, hcount]
    refine ⟨by omega, seqUpdate_skips (by omega) ?_⟩
    rw [hmax]
    unfold seqOf
    omega

theorem rxRtp2_first {sess : Session} (hpkt : sess.pkt = 0) (seq : Nat) : (rxRtp2 sess seq).loss = sess.loss := by
  have hprobation := Session.seqStart_probation (.inl hpkt) seq
  obtain ⟨-, hrestart, -, -⟩ := @Rtp.seqUpdate_probation (sess.seqStart seq) seq hprobation
  exact (count_idle _ hrestart (.inr (Rtp.seqUpdate_marked hprobation seq))).2.2.2

/-- The packet that ends the probation late, the next one, which is the last that is counted, and one behind a gap. -/
theorem receive_at_wrap {sess : Session} (start : ℤ) (h : OnProbation sess) (hpkt : sess.pkt = 4294967294)
    (hprobation : sess.seqCtrl.probation = 1) (hmax : seqOf start = (sess.seqCtrl.maxSeq + 1) % 65536) :
    EndsProbation sess start ∧ (receive (receive (receive sess start) (start + 1)) (start + 3)).loss = 0 := by
  obtain ⟨hctrl, hcount, -⟩ := rxRtp2_kept sess (seqOf start)
  have hone : (receive sess start).pkt = 4294967295 := by
    rw [receive, hcount, hpkt]
  have hends : EndsProbation sess start := by
    refine ⟨.inr (by omega), not_or.mpr ⟨by omega, not_not_intro ?_⟩⟩
    rw [receive, hctrl, Session.seqStart, if_neg (by omega)]
    exact seqUpdate_next hprobation hmax
  refine ⟨hends, ?_⟩
  obtain ⟨-, hnone⟩ := (counts_ends h hends).receive (start + 1) (by omega) (List.nodup_singleton _)
    (fun other hmem => by rw [List.mem_singleton.mp hmem]; omega) (by omega)
  have hzero : (receive (receive sess start) (start + 1)).pkt = 0 := by
    rw [receive, (rxRtp2_kept _ _).2.1, hone]
  have hall := @missing_eq start (start + 1) _ (List.nodup_singleton (start + 1))
    (fun other hmem => by rw [List.mem_singleton.mp hmem]; exact ⟨lt_add_one start, le_rfl⟩)
  rw [receive, rxRtp2_first hzero, hnone (lt_add_one start), List.nil_append]
  rw [List.length_singleton] at hall
  omega

/-- When the count of the packets is zero again, a gap is not counted. -/
theorem not_loss_exact : ¬ ∀ (early : List ℤ) (start : ℤ) (numbers : List ℤ),
    EndsProbation (receiveAll init early) start → Stream start numbers → LossExact early start numbers := by
  intro h
  have hpkt₀ : init.pkt = 0 := rfl
  obtain ⟨n, hn⟩ : ∃ n, n + 1 = 4294967294 := ⟨4294967293, rfl⟩
  obtain ⟨hpkt, hprobation, hmax⟩ := receiveAll_evens (n := n) (by omega)
  have hearly := onProbation_receiveAll onProbation_init (evens (n + 1))
    (by rw [evens, List.length_map, List.length_range, hn, hpkt₀]; decide)
  have hstart : (8589934587 : ℤ) = 2 * (n : ℤ) + 1 := by omega
  obtain ⟨hends, hzero⟩ := receive_at_wrap 8589934587 hearly (hpkt.trans hn) hprobation
    (by rw [hmax, hstart]; unfold seqOf; omega)
  have hloss := h (evens (n + 1)) 8589934587 [8589934588, 8589934590] hends
    ⟨by decide, by decide, by simp only [InWindow]; decide⟩ [8589934588] 8589934590 [] rfl (by decide)
  have hsecond : (8589934587 : ℤ) + 1 = 8589934588 ∧ (8589934587 : ℤ) + 3 = 8589934590 := by decide
  rw [hsecond.1, hsecond.2] at hzero
  rw [receiveAll_append] at hloss
  generalize receiveAll init (evens (n + 1)) = sess at hzero hloss
  simp only [receiveAll, List.cons_append, List.nil_append, List.foldl_cons, List.foldl_nil] at hloss
  rw [hzero] at hloss
  exact absurd hloss (by decide)

end PjProject.Rtcp
