import PjProject.Rtp

/-! What an RTCP session counts of the RTP packets that it is told of (`rtcp.c`), and the report block that it builds from
the counts. All counts have 32 bits. The number of lost packets is right while the count of all packets does not wrap: at
the next packet it is zero, which is how the first packet is recognised. -/

namespace PjProject.Rtcp

open Rtp (SeqSession Status seqInit seqUpdate inRange_seqInit seqUpdate_probation seqUpdate_settled seqUpdate_marked
  seqUpdate_restart)

/-- `pjmedia_rtcp_rr` in the report that it is part of, as it is stored: `last_seq` is in network byte order. -/
structure Rr where
  lastSeq : Nat
  fractLost : Nat
  totalLost : Nat
  deriving DecidableEq, Repr

/-- What `pjmedia_rtcp_session` counts. `pkt`, `discard`, `loss`, `reorder` and `dup` are those of `stat.rx`, `txPkt` is
`stat.tx.pkt`, and `senderPcount` is the one of the last sender report. -/
structure Session where
  seqCtrl : SeqSession
  received : Nat
  expPrior : Nat
  rxPrior : Nat
  pkt : Nat
  discard : Nat
  loss : Nat
  reorder : Nat
  dup : Nat
  txPkt : Nat
  senderPcount : Nat
  srRr : Rr
  rrRr : Rr
  deriving DecidableEq, Repr

/-- `pjmedia_rtcp_init2`. -/
def init : Session := ⟨⟨0, 0, 0, 0, 0⟩, 0, 0, 0, 0, 0, 0, 0, 0, 0, 0, ⟨0, 0, 0⟩, ⟨0, 0, 0⟩⟩

/-- `rtcp_init_seq`. -/
def rtcpInitSeq (sess : Session) : Session := { sess with received := 0, expPrior := 0, rxPrior := 0 }

/-- The sequence numbers start on the first packet. -/
def Session.seqStart (sess : Session) (seq : Nat) : SeqSession :=
  if sess.pkt = 0 then seqInit sess.seqCtrl seq else sess.seqCtrl

/-- A difference of 32 bits. -/
def since (now prior : Nat) : Nat := (now + 4294967296 - prior) % 4294967296

/-- The number of packets that are expected: `last_seq - base_seq`. -/
def expected (seqCtrl : SeqSession) : Nat := since ((seqCtrl.maxSeq + seqCtrl.cycles) % 4294967296) seqCtrl.baseSeq

/-- What a packet is counted as, with the status of its sequence number. -/
def count (sess : Session) (st : Status) : Session :=
  let sess := if st.restart then rtcpInitSeq sess else sess
  let sess := if st.dup then { sess with dup := (sess.dup + 1) % 4294967296 } else sess
  let sess := if st.outorder && !st.probation then { sess with reorder := (sess.reorder + 1) % 4294967296 } else sess
  if st.bad then { sess with discard := (sess.discard + 1) % 4294967296 }
  else
    let sess := if !st.probation then { sess with received := (sess.received + 1) % 4294967296 } else sess
    if !st.probation && !st.outorder then
      { sess with
        loss := if sess.received < expected sess.seqCtrl then expected sess.seqCtrl - sess.received else 0 }
    else sess

/-- `pjmedia_rtcp_rx_rtp2`. -/
def rxRtp2 (sess : Session) (seq : Nat) : Session :=
  let (seqCtrl, st) := seqUpdate (sess.seqStart seq) seq
  count { sess with seqCtrl, pkt := (sess.pkt + 1) % 4294967296 } st

section Counts

variable (sess : Session) {st : Status}

/-- No packet changes what the sequence numbers and the reports are. -/
theorem count_kept (st : Status) : (count sess st).seqCtrl = sess.seqCtrl ∧ (count sess st).pkt = sess.pkt ∧
    (count sess st).txPkt = sess.txPkt ∧ (count sess st).senderPcount = sess.senderPcount := by
  obtain ⟨bad, _, _, dup, outorder, probation, restart, _⟩ := st
  cases bad <;> cases dup <;> cases outorder <;> cases probation <;> cases restart <;> exact ⟨rfl, rfl, rfl, rfl⟩

theorem count_idle (hrestart : st.restart = false) (h : st.bad = true ∨ st.probation = true) :
    (count sess st).received = sess.received ∧ (count sess st).expPrior = sess.expPrior ∧
      (count sess st).rxPrior = sess.rxPrior ∧ (count sess st).loss = sess.loss := by
  obtain ⟨bad, _, _, dup, outorder, probation, restart, _⟩ := st
  dsimp only at hrestart h
  subst hrestart
  rcases h with rfl | rfl
  · cases dup <;> cases outorder <;> cases probation <;> exact ⟨rfl, rfl, rfl, rfl⟩
  · cases bad <;> cases dup <;> cases outorder <;> exact ⟨rfl, rfl, rfl, rfl⟩

theorem count_restart (hrestart : st.restart = true) (h : st.probation = true) :
    (count sess st).received = 0 ∧ (count sess st).expPrior = 0 ∧ (count sess st).rxPrior = 0 := by
  obtain ⟨bad, _, _, dup, outorder, probation, restart, _⟩ := st
  dsimp only at hrestart h
  subst hrestart h
  cases bad <;> cases dup <;> cases outorder <;> exact ⟨rfl, rfl, rfl⟩

theorem count_good (hrestart : st.restart = false) (hbad : st.bad = false) (hprobation : st.probation = false) :
    (count sess st).received = (sess.received + 1) % 4294967296 ∧ (count sess st).expPrior = sess.expPrior ∧
      (count sess st).rxPrior = sess.rxPrior ∧
      (st.outorder = false → (count sess st).loss = expected sess.seqCtrl - (sess.received + 1) % 4294967296) := by
  obtain ⟨bad, _, _, dup, outorder, probation, restart, _⟩ := st
  dsimp only at hrestart hbad hprobation
  subst hrestart hbad hprobation
  have hloss (n m : Nat) : (if n < m then m - n else 0) = m - n := by
    split
    · rfl
    · omega
  cases dup <;> cases outorder
  · exact ⟨rfl, rfl, rfl, fun _ => hloss _ _⟩
  · exact ⟨rfl, rfl, rfl, nofun⟩
  · exact ⟨rfl, rfl, rfl, fun _ => hloss _ _⟩
  · exact ⟨rfl, rfl, rfl, nofun⟩

theorem rxRtp2_kept (seq : Nat) : (rxRtp2 sess seq).seqCtrl = (seqUpdate (sess.seqStart seq) seq).1 ∧
    (rxRtp2 sess seq).pkt = (sess.pkt + 1) % 4294967296 ∧ (rxRtp2 sess seq).txPkt = sess.txPkt ∧
    (rxRtp2 sess seq).senderPcount = sess.senderPcount := count_kept _ _

end Counts

/-- No packet was received, or more have to come in sequence. -/
def Session.InProbation (sess : Session) : Prop := sess.pkt = 0 ∨ sess.seqCtrl.probation ≠ 0

/-- What the sequence numbers start from is in range, and in the probation when the packet is in it. -/
theorem Session.seqStart_inRange {sess : Session} (h : sess.seqCtrl.InRange) {seq : Nat} (hseq : seq < 65536) :
    (sess.seqStart seq).InRange := by
  unfold Session.seqStart
  split
  · exact inRange_seqInit _ hseq
  · exact h

theorem Session.seqStart_probation {sess : Session} (h : sess.InProbation) (seq : Nat) :
    (sess.seqStart seq).probation ≠ 0 := by
  unfold Session.seqStart
  split
  · exact two_ne_zero
  next hpkt => exact h.resolve_left hpkt

theorem Session.seqStart_settled {sess : Session} (h : ¬ sess.InProbation) (seq : Nat) :
    sess.seqStart seq = sess.seqCtrl ∧ sess.seqCtrl.probation = 0 := by
  rw [Session.InProbation, not_or, not_not] at h
  exact ⟨if_neg h.1, h.2⟩

/-- A restart: nothing is counted yet, from the packet on. -/
theorem rxRtp2_restart {sess : Session} {seq : Nat} (hrestart : (seqUpdate (sess.seqStart seq) seq).2.restart = true) :
    (rxRtp2 sess seq).received = 0 ∧ (rxRtp2 sess seq).expPrior = 0 ∧ (rxRtp2 sess seq).rxPrior = 0 ∧
      (rxRtp2 sess seq).seqCtrl.cycles = 0 ∧ (rxRtp2 sess seq).seqCtrl.maxSeq = (rxRtp2 sess seq).seqCtrl.baseSeq := by
  obtain ⟨hctrl, hmarked⟩ := seqUpdate_restart hrestart
  obtain ⟨hreceived, hexp, hrx⟩ := count_restart { sess with
    seqCtrl := (seqUpdate (sess.seqStart seq) seq).1
    pkt := (sess.pkt + 1) % 4294967296 } hrestart hmarked
  rw [(rxRtp2_kept sess seq).1, hctrl]
  exact ⟨hreceived, hexp, hrx, rfl, rfl⟩

theorem rxRtp2_bad {sess : Session} {seq : Nat} (hrestart : (seqUpdate (sess.seqStart seq) seq).2.restart = false)
    (hbad : (seqUpdate (sess.seqStart seq) seq).2.bad = true) :
    (rxRtp2 sess seq).received = sess.received ∧ (rxRtp2 sess seq).expPrior = sess.expPrior ∧
      (rxRtp2 sess seq).rxPrior = sess.rxPrior := by
  obtain ⟨hreceived, hexp, hrx, -⟩ := count_idle { sess with
    seqCtrl := (seqUpdate (sess.seqStart seq) seq).1
    pkt := (sess.pkt + 1) % 4294967296 } hrestart (.inl hbad)
  exact ⟨hreceived, hexp, hrx⟩

theorem rxRtp2_good {sess : Session} {seq : Nat} (hrestart : (seqUpdate (sess.seqStart seq) seq).2.restart = false)
    (hbad : (seqUpdate (sess.seqStart seq) seq).2.bad = false)
    (hprobation : (seqUpdate (sess.seqStart seq) seq).2.probation = false) :
    (rxRtp2 sess seq).received = (sess.received + 1) % 4294967296 ∧ (rxRtp2 sess seq).expPrior = sess.expPrior ∧
      (rxRtp2 sess seq).rxPrior = sess.rxPrior ∧
      ((seqUpdate (sess.seqStart seq) seq).2.outorder = false →
        (rxRtp2 sess seq).loss = expected (rxRtp2 sess seq).seqCtrl - (sess.received + 1) % 4294967296) := by
  rw [(rxRtp2_kept sess seq).1]
  exact count_good _ hrestart hbad hprobation

/-- A session that counted no packet behind its probation. -/
structure Fresh (sess : Session) : Prop where
  received : sess.received = 0
  cycles : sess.seqCtrl.cycles = 0

theorem rxRtp2_probation {sess : Session} (h : sess.InProbation) (hfresh : Fresh sess) (seq : Nat) :
    Fresh (rxRtp2 sess seq) ∧ (rxRtp2 sess seq).expPrior = sess.expPrior ∧ (rxRtp2 sess seq).rxPrior = sess.rxPrior := by
  have hprobation := Session.seqStart_probation h seq
  obtain ⟨hcycles, hrestart, -, -⟩ := @seqUpdate_probation (sess.seqStart seq) seq hprobation
  obtain ⟨hreceived, hexp, hrx, -⟩ := count_idle
    { sess with seqCtrl := (seqUpdate (sess.seqStart seq) seq).1, pkt := (sess.pkt + 1) % 4294967296 }
    hrestart (.inr (seqUpdate_marked hprobation seq))
  refine ⟨⟨hreceived.trans hfresh.received, ?_⟩, hexp, hrx⟩
  rw [(rxRtp2_kept sess seq).1, hcycles, Session.seqStart]
  split
  · rfl
  · exact hfresh.cycles

/-- The packet in sequence that ends the probation leaves both numbers at its own. -/
theorem rxRtp2_ends {sess : Session} {seq : Nat} (h : sess.InProbation)
    (hzero : (rxRtp2 sess seq).seqCtrl.probation = 0) :
    (rxRtp2 sess seq).seqCtrl.maxSeq = seq ∧ (rxRtp2 sess seq).seqCtrl.baseSeq = seq := by
  have hctrl := (rxRtp2_kept sess seq).1
  rw [hctrl] at hzero
  obtain ⟨-, -, hgood, hbad⟩ :=
    @seqUpdate_probation (sess.seqStart seq) seq (Session.seqStart_probation h seq)
  have hstatus : (seqUpdate (sess.seqStart seq) seq).2.bad = false :=
    eq_false_of_ne_true fun hst => one_ne_zero ((hbad hst).symm.trans hzero)
  obtain ⟨hless, hmax, hbase⟩ := hgood hstatus
  have hone : (sess.seqStart seq).probation = 1 := by
    have hprobation := Session.seqStart_probation h seq
    omega
  rw [hctrl]
  exact ⟨hmax, hbase hone⟩

end PjProject.Rtcp
