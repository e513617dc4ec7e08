import PjProject.Rtcp

/-! The report blocks of an RTCP session. The fraction of lost packets is the one of the packets since the report before,
as long as no report is built while the probation has left the first sequence number, fewer than 2^24 packets are lost
between two reports, and the counts do not wrap. -/

namespace PjProject.Rtcp

open Rtp (Status seqUpdate)

/-- `pj_htonl` and `pj_ntohl`. -/
def swap32 (n : Nat) : Nat :=
  n % 256 * 16777216 + n / 256 % 256 * 65536 + n / 65536 % 256 * 256 + n / 16777216 % 256

/-- `fract_lost` has eight bits, and the shift is one of 32 bits. -/
def fractLost (expectedInterval receivedInterval : Nat) : Nat :=
  let lostInterval := if receivedInterval ≤ expectedInterval then expectedInterval - receivedInterval else 0
  if expectedInterval = 0 ∨ lostInterval = 0 then 0
  else lostInterval * 256 % 4294967296 / expectedInterval % 256

/-- The sequence number is added to what the block has. -/
def Rr.addSeq (rr : Rr) (maxSeq : Nat) : Rr := { rr with lastSeq := (rr.lastSeq + maxSeq) % 4294967296 }

/-- What goes into the block of the report, and the session when it is built. -/
def fillBlock (sess : Session) (rr : Rr) : Session × Rr :=
  let lastSeq := swap32 rr.lastSeq
  let expected := since (swap32 lastSeq) sess.seqCtrl.baseSeq
  ({ sess with expPrior := expected, rxPrior := sess.received },
    { lastSeq
      fractLost := fractLost (since expected sess.expPrior) (since sess.received sess.rxPrior)
      totalLost := sess.loss % 16777216 })

/-- `pjmedia_rtcp_build_rtcp`: the session, and the block of the report, which is a sender report when packets were sent
since the last one. The sequence number is added to the block of the other report too. -/
def buildRtcp (sess : Session) : Session × Rr :=
  let cycles := sess.seqCtrl.cycles / 65536 * 65536
  if sess.txPkt ≠ sess.senderPcount then
    let (sess', rr) := fillBlock sess (Rr.addSeq { sess.srRr with lastSeq := cycles } sess.seqCtrl.maxSeq)
    ({ sess' with senderPcount := sess.txPkt, srRr := rr, rrRr := sess.rrRr.addSeq sess.seqCtrl.maxSeq }, rr)
  else
    let (sess', rr) := fillBlock sess (Rr.addSeq { sess.rrRr with lastSeq := cycles } sess.seqCtrl.maxSeq)
    ({ sess' with srRr := sess.srRr.addSeq sess.seqCtrl.maxSeq, rrRr := rr }, rr)

/-- `pjmedia_rtcp_tx_rtp`. -/
def txRtp (sess : Session) : Session := { sess with txPkt := (sess.txPkt + 1) % 4294967296 }

/-- What happens to a session: a packet is received or sent, or a report is built. -/
inductive Event where
  | rx (seq : Nat)
  | tx
  | report
  deriving DecidableEq, Repr

def Session.status (sess : Session) (seq : Nat) : Status := (seqUpdate (sess.seqStart seq) seq).2

/-- How many packets there were, and how many were expected and received behind the probation since the last report. When
the numbers start again, so do the counts. -/
structure Tally where
  packets : Nat
  expected : Nat
  received : Nat
  deriving DecidableEq, Repr

def Tally.packet (tally : Tally) (st : Status) : Tally :=
  if st.restart then ⟨tally.packets + 1, 0, 0⟩
  else if st.probation then { tally with packets := tally.packets + 1 }
  else ⟨tally.packets + 1, tally.expected + st.diff, tally.received + if st.bad then 0 else 1⟩

def Tally.reported (tally : Tally) : Tally := { tally with expected := 0, received := 0 }

def Tally.lost (tally : Tally) : Nat := tally.expected - tally.received

/-- The fraction of the packets that were lost, of 256. -/
def Tally.fraction (tally : Tally) : Nat :=
  if tally.expected = 0 then 0 else min 255 (256 * tally.lost / tally.expected)

/-- A report has the extended number of the highest packet and the fraction of the packets lost. -/
def Right (sess : Session) (tally : Tally) (rr : Rr) : Prop :=
  swap32 rr.lastSeq = sess.seqCtrl.cycles + sess.seqCtrl.maxSeq ∧ rr.fractLost = tally.fraction

def Reports : Session → Tally → List Event → Prop
  | _, _, [] => True
  | sess, tally, .rx seq :: more =>
    Reports (rxRtp2 sess (seq % 65536)) (tally.packet (sess.status (seq % 65536))) more
  | sess, tally, .tx :: more => Reports (txRtp sess) tally more
  | sess, tally, .report :: more =>
    Right sess tally (buildRtcp sess).2 ∧ Reports (buildRtcp sess).1 tally.reported more

/-- There are no more than 2^32 packets. At a report in the probation the last packet is the first one or its copy, and
fewer than 2^24 packets were lost of fewer than 2^32. -/
def Permitted : Session → Tally → List Event → Prop
  | _, _, [] => True
  | sess, tally, .rx seq :: more => tally.packets < 4294967296 ∧
    Permitted (rxRtp2 sess (seq % 65536)) (tally.packet (sess.status (seq % 65536))) more
  | sess, tally, .tx :: more => Permitted (txRtp sess) tally more
  | sess, tally, .report :: more =>
    ((sess.seqCtrl.probation ≠ 0 → sess.seqCtrl.maxSeq = sess.seqCtrl.baseSeq) ∧ tally.lost < 16777216 ∧
      tally.expected < 4294967296) ∧ Permitted (buildRtcp sess).1 tally.reported more

/-! What a report has. -/

theorem swap32_bytes {a b c d : Nat} (ha : a < 256) (hb : b < 256) (hc : c < 256) (hd : d < 256) :
    swap32 (a * 16777216 + b * 65536 + c * 256 + d) = d * 16777216 + c * 65536 + b * 256 + a := by
  have hlow : (a * 16777216 + b * 65536 + c * 256 + d) % 256 = d := by omega
  have hsecond : (a * 16777216 + b * 65536 + c * 256 + d) / 256 % 256 = c := by omega
  have hthird : (a * 16777216 + b * 65536 + c * 256 + d) / 65536 % 256 = b := by omega
  have htop : (a * 16777216 + b * 65536 + c * 256 + d) / 16777216 % 256 = a := by omega
  rw [swap32, hlow, hsecond, hthird, htop]

theorem swap32_swap32 {n : Nat} (hn : n < 4294967296) : swap32 (swap32 n) = n := by
  have hbyte (m : Nat) : m % 256 < 256 := Nat.mod_lt m (by decide)
  have hback := swap32_bytes (hbyte n) (hbyte (n / 256)) (hbyte (n / 65536)) (hbyte (n / 16777216))
  rw [swap32.eq_def n, hback]
  omega

/-- What a report keeps, and what it has, when its block has the number of the highest packet. -/
theorem fillBlock_eq {sess : Session} (h : sess.seqCtrl.InRange) {rr : Rr}
    (hrr : rr.lastSeq = sess.seqCtrl.cycles + sess.seqCtrl.maxSeq) :
    (fillBlock sess rr).1 = { sess with expPrior := expected sess.seqCtrl, rxPrior := sess.received } ∧
      swap32 (fillBlock sess rr).2.lastSeq = sess.seqCtrl.cycles + sess.seqCtrl.maxSeq ∧
      (fillBlock sess rr).2.fractLost =
        fractLost (since (expected sess.seqCtrl) sess.expPrior) (since sess.received sess.rxPrior) := by
  have hmax := h.maxSeq
  obtain ⟨hcycles, hlt⟩ := h.cycles
  have hlast : sess.seqCtrl.cycles + sess.seqCtrl.maxSeq < 4294967296 := by omega
  have hexpected : since (sess.seqCtrl.cycles + sess.seqCtrl.maxSeq) sess.seqCtrl.baseSeq = expected sess.seqCtrl := by
    rw [expected, Nat.add_comm sess.seqCtrl.maxSeq, Nat.mod_eq_of_lt hlast]
  rw [fillBlock, hrr, swap32_swap32 hlast, hexpected]
  exact ⟨rfl, rfl, rfl⟩

theorem addSeq_cycles {seqCtrl : Rtp.SeqSession} (h : seqCtrl.InRange) (rr : Rr) :
    (Rr.addSeq { rr with lastSeq := seqCtrl.cycles / 65536 * 65536 } seqCtrl.maxSeq).lastSeq =
      seqCtrl.cycles + seqCtrl.maxSeq := by
  have hmax := h.maxSeq
  obtain ⟨hcycles, hlt⟩ := h.cycles
  rw [Rr.addSeq]
  dsimp only
  omega

theorem buildRtcp_eq {sess : Session} (h : sess.seqCtrl.InRange) :
    ((buildRtcp sess).1.expPrior = expected sess.seqCtrl ∧ (buildRtcp sess).1.rxPrior = sess.received) ∧
      ((buildRtcp sess).1.seqCtrl = sess.seqCtrl ∧ (buildRtcp sess).1.pkt = sess.pkt ∧
        (buildRtcp sess).1.received = sess.received) ∧
      swap32 (buildRtcp sess).2.lastSeq = sess.seqCtrl.cycles + sess.seqCtrl.maxSeq ∧
      (buildRtcp sess).2.fractLost =
        fractLost (since (expected sess.seqCtrl) sess.expPrior) (since sess.received sess.rxPrior) := by
  rw [buildRtcp]
  split
  · obtain ⟨hsess, hlast, hfract⟩ := fillBlock_eq h (addSeq_cycles h sess.srRr)
    dsimp only
    rw [hsess]
    exact ⟨⟨rfl, rfl⟩, ⟨rfl, rfl, rfl⟩, hlast, hfract⟩
  · obtain ⟨hsess, hlast, hfract⟩ := fillBlock_eq h (addSeq_cycles h sess.rrRr)
    dsimp only
    rw [hsess]
    exact ⟨⟨rfl, rfl⟩, ⟨rfl, rfl, rfl⟩, hlast, hfract⟩

/-- With some packet received, of those expected, the fraction has eight bits. -/
theorem fractLost_eq {tally : Tally} (hreceived : tally.expected ≠ 0 → tally.received ≠ 0)
    (hlost : tally.lost < 16777216) : fractLost tally.expected tally.received = tally.fraction := by
  have hloss : (if tally.received ≤ tally.expected then tally.expected - tally.received else 0) = tally.lost := by
    unfold Tally.lost
    split
    · rfl
    · omega
  unfold fractLost Tally.fraction
  dsimp only
  rw [hloss]
  by_cases hzero : tally.expected = 0
  · rw [if_pos (.inl hzero), if_pos hzero]
  · rw [if_neg hzero]
    by_cases hnone : tally.lost = 0
    · rw [if_pos (.inr hnone), hnone, Nat.mul_zero, Nat.zero_div, Nat.min_zero]
    · have hless : tally.lost < tally.expected := by
        have hsome := hreceived hzero
        unfold Tally.lost
        omega
      have hfits : 256 * tally.lost / tally.expected < 256 := by
        rw [Nat.div_lt_iff_lt_mul (Nat.pos_of_ne_zero hzero)]
        omega
      have hshift : tally.lost * 256 % 4294967296 = 256 * tally.lost := by omega
      rw [if_neg (not_or.mpr ⟨hzero, hnone⟩), hshift, Nat.mod_eq_of_lt hfits]
      omega

/-! The counts of the session and of the tally. -/

/-- Before the first packet behind the probation. -/
def Early (sess : Session) (tally : Tally) : Prop := tally.packets = 0 ∨ sess.seqCtrl.probation ≠ 0

/-- The counts since the last report. -/
structure Agrees (sess : Session) (tally : Tally) : Prop where
  inRange : sess.seqCtrl.InRange
  pkt : sess.pkt = tally.packets % 4294967296
  prior : sess.expPrior < 4294967296 ∧ sess.rxPrior < 4294967296
  early : Early sess tally → Fresh sess ∧ sess.expPrior = 0 ∧ sess.rxPrior = 0 ∧ tally.expected = 0
  start : tally.packets = 0 → sess.seqCtrl.maxSeq = sess.seqCtrl.baseSeq
  expected : ¬ Early sess tally → expected sess.seqCtrl = (sess.expPrior + tally.expected) % 4294967296
  received : sess.received = (sess.rxPrior + tally.received) % 4294967296
  bound : tally.received ≤ tally.packets - 1
  attained : tally.expected ≠ 0 → tally.received ≠ 0

theorem agrees_init : Agrees init ⟨0, 0, 0⟩ where
  inRange := ⟨by decide, by decide, rfl, by decide⟩
  pkt := rfl
  prior := by decide
  early _ := ⟨⟨rfl, rfl⟩, rfl, rfl, rfl⟩
  start _ := rfl
  expected h := absurd (.inl rfl) h
  received := rfl
  bound := by decide
  attained h := absurd rfl h

theorem expected_start {seqCtrl : Rtp.SeqSession} (h : seqCtrl.InRange) (hcycles : seqCtrl.cycles = 0)
    (hmax : seqCtrl.maxSeq = seqCtrl.baseSeq) : expected seqCtrl = 0 := by
  have hbase := h.baseSeq
  rw [expected, since, hcycles, hmax]
  omega

/-- The number of packets that are expected moves with the extended number. -/
theorem expected_moved {old new : Rtp.SeqSession} {diff prior interval : Nat} (h : new.InRange)
    (hbase : new.baseSeq = old.baseSeq) (hext : (new.cycles + new.maxSeq) % 4294967296 =
      (old.cycles + old.maxSeq + diff) % 4294967296) (hold : expected old = (prior + interval) % 4294967296) :
    expected new = (prior + (interval + diff)) % 4294967296 := by
  have hrange := h.baseSeq
  unfold expected since at hold ⊢
  rw [hbase] at hrange ⊢
  rw [Nat.add_comm new.maxSeq, hext]
  omega

theorem Agrees.tx {sess : Session} {tally : Tally} (h : Agrees sess tally) : Agrees (txRtp sess) tally where
  inRange := h.inRange
  pkt := h.pkt
  prior := h.prior
  early hearly := ⟨⟨(h.early hearly).1.received, (h.early hearly).1.cycles⟩, (h.early hearly).2⟩
  start := h.start
  expected := h.expected
  received := h.received
  bound := h.bound
  attained := h.attained

theorem Agrees.inProbation {sess : Session} {tally : Tally} (h : Agrees sess tally) (hpackets : tally.packets < 4294967296) :
    sess.InProbation ↔ Early sess tally := by
  rw [Session.InProbation, Early, h.pkt, Nat.mod_eq_of_lt hpackets]

/-- A packet of the probation: nothing is counted, and the packet that ends it is the one that the numbers start from. -/
theorem Agrees.rx_early {sess : Session} {tally : Tally} {seq : Nat} (h : Agrees sess tally)
    (hpackets : tally.packets < 4294967296) (hseq : seq < 65536) (hearly : Early sess tally) :
    Agrees (rxRtp2 sess seq) (tally.packet (sess.status seq)) := by
  have hin := (h.inProbation hpackets).mpr hearly
  have hprobation := Session.seqStart_probation hin seq
  have hrestart := (@Rtp.seqUpdate_probation (sess.seqStart seq) seq hprobation).2.1
  obtain ⟨hfresh, hexp, hrx, hnone⟩ := h.early hearly
  obtain ⟨hfresh', hexp', hrx'⟩ := rxRtp2_probation hin hfresh seq
  obtain ⟨hctrl, hpkt, -, -⟩ := rxRtp2_kept sess seq
  have hrange : (rxRtp2 sess seq).seqCtrl.InRange := by
    rw [hctrl]
    exact (Session.seqStart_inRange h.inRange hseq).seqUpdate hseq
  have htally : tally.packet (sess.status seq) = { tally with packets := tally.packets + 1 } := by
    rw [Tally.packet, Session.status, hrestart, if_neg Bool.false_ne_true, Rtp.seqUpdate_marked hprobation, if_pos rfl]
  have hpkt₀ := h.pkt
  have hbound := h.bound
  rw [htally]
  refine ⟨hrange, by rw [hpkt]; dsimp only; omega, by omega, fun _ => ⟨hfresh', by omega, by omega, hnone⟩,
    fun hzero => absurd hzero (Nat.succ_ne_zero _), fun hends => ?_, ?_, by dsimp only; omega, h.attained⟩
  · rw [Early, not_or, not_not] at hends
    obtain ⟨hmax, hbase⟩ := rxRtp2_ends hin hends.2
    rw [expected_start hrange hfresh'.cycles (hmax.trans hbase.symm), hexp', hexp, hnone]
  · rw [hfresh'.received, hrx', ← h.received, hfresh.received]

theorem Agrees.rx_settled {sess : Session} {tally : Tally} {seq : Nat} (h : Agrees sess tally)
    (hpackets : tally.packets < 4294967296) (hseq : seq < 65536) (hearly : ¬ Early sess tally) :
    Agrees (rxRtp2 sess seq) (tally.packet (sess.status seq)) := by
  have hin := mt (h.inProbation hpackets).mp hearly
  obtain ⟨hstart, hprobation⟩ := Session.seqStart_settled hin seq
  obtain ⟨hctrl, hpkt, -, -⟩ := rxRtp2_kept sess seq
  have hrange : (rxRtp2 sess seq).seqCtrl.InRange := by
    rw [hctrl]
    exact (Session.seqStart_inRange h.inRange hseq).seqUpdate hseq
  have hsettled : (rxRtp2 sess seq).seqCtrl.probation = 0 := by
    rw [hctrl, hstart]
    exact Rtp.seqUpdate_settled hprobation seq
  have hpkt₀ := h.pkt
  have hbound := h.bound
  have hsome : tally.packets ≠ 0 := (not_or.mp hearly).1
  cases hrestart : (seqUpdate (sess.seqStart seq) seq).2.restart with
  | true =>
    obtain ⟨hreceived, hexp, hrx, hcycles, hmax⟩ := rxRtp2_restart hrestart
    rw [Tally.packet, Session.status, hrestart, if_pos rfl]
    refine ⟨hrange, by rw [hpkt]; dsimp only; omega, by omega, fun hearly => ?_, fun _ => hmax, fun _ => ?_, ?_,
      Nat.zero_le _, fun hne => absurd rfl hne⟩
    · exact absurd hsettled (hearly.resolve_left (Nat.succ_ne_zero _))
    · rw [expected_start hrange hcycles hmax, hexp]
      rfl
    · rw [hreceived, hrx]
      rfl
  | false =>
    have hmoved : (seqUpdate sess.seqCtrl seq).2.restart = false := hstart ▸ hrestart
    obtain ⟨hmarked, hbase, hext, hstill⟩ := Rtp.seqUpdate_moved hprobation h.inRange hseq hmoved
    have hcounts : (rxRtp2 sess seq).received =
        (sess.received + if (seqUpdate (sess.seqStart seq) seq).2.bad then 0 else 1) % 4294967296 ∧
        (rxRtp2 sess seq).expPrior = sess.expPrior ∧ (rxRtp2 sess seq).rxPrior = sess.rxPrior := by
      cases hbad : (seqUpdate (sess.seqStart seq) seq).2.bad with
      | true =>
        obtain ⟨hreceived, hprior⟩ := rxRtp2_bad hrestart hbad
        have hrange := h.received
        refine ⟨?_, hprior⟩
        rw [hreceived, if_pos rfl]
        omega
      | false =>
        obtain ⟨hreceived, hexp, hrx, -⟩ := rxRtp2_good hrestart hbad (hstart ▸ hmarked)
        exact ⟨hreceived, hexp, hrx⟩
    rw [hstart] at hrestart hctrl hcounts
    obtain ⟨hreceived, hexp, hrx⟩ := hcounts
    rw [← hctrl] at hbase hext
    rw [Tally.packet, Session.status, hstart, hrestart, if_neg Bool.false_ne_true, hmarked, if_neg Bool.false_ne_true]
    have hone : (if (seqUpdate sess.seqCtrl seq).2.bad then 0 else 1) ≤ 1 := by split <;> decide
    have hprior := h.prior
    have hold := h.received
    refine ⟨hrange, by rw [hpkt]; dsimp only; omega, by omega, fun hearly => ?_,
      fun hzero => absurd hzero (Nat.succ_ne_zero _), fun _ => ?_, ?_, by dsimp only; omega, fun hne => ?_⟩
    · exact absurd hsettled (hearly.resolve_left (Nat.succ_ne_zero _))
    · rw [hexp]
      exact expected_moved hrange hbase hext (h.expected hearly)
    · rw [hreceived, hrx]
      dsimp only
      omega
    · dsimp only at hne ⊢
      cases hbad : (seqUpdate sess.seqCtrl seq).2.bad with
      | true =>
        have hzero := hstill (.inl hbad)
        have hattained := h.attained (by omega)
        omega
      | false =>
        rw [if_neg Bool.false_ne_true]
        exact Nat.succ_ne_zero _

theorem Agrees.report {sess : Session} {tally : Tally} (h : Agrees sess tally) (hpackets : tally.packets ≤ 4294967296)
    (hfirst : sess.seqCtrl.probation ≠ 0 → sess.seqCtrl.maxSeq = sess.seqCtrl.baseSeq) (hlost : tally.lost < 16777216)
    (hexpected : tally.expected < 4294967296) :
    Right sess tally (buildRtcp sess).2 ∧ Agrees (buildRtcp sess).1 tally.reported := by
  obtain ⟨⟨hexp, hrx⟩, ⟨hctrl, hpkt, hreceived⟩, hlast, hfract⟩ := buildRtcp_eq h.inRange
  have hprior := h.prior
  have hold := h.received
  have hbound := h.bound
  have hzero (hearly : Early sess tally) : Rtcp.expected sess.seqCtrl = 0 :=
    expected_start h.inRange (h.early hearly).1.cycles (hearly.elim h.start hfirst)
  have hnow : Rtcp.expected sess.seqCtrl = (sess.expPrior + tally.expected) % 4294967296 := by
    by_cases hearly : Early sess tally
    · obtain ⟨-, hexp, -, hnone⟩ := h.early hearly
      rw [hzero hearly, hexp, hnone]
    · exact h.expected hearly
  have hinterval : since (Rtcp.expected sess.seqCtrl) sess.expPrior = tally.expected := by
    rw [hnow, since]
    omega
  have hgot : since sess.received sess.rxPrior = tally.received := by
    rw [hold, since]
    omega
  refine ⟨⟨hlast, ?_⟩, ?_⟩
  · rw [hfract, hinterval, hgot]
    exact fractLost_eq h.attained hlost
  · have hsame : Early (buildRtcp sess).1 tally.reported → Early sess tally := by
      rw [Early, Early, hctrl]
      exact id
    refine ⟨hctrl ▸ h.inRange, hpkt.trans h.pkt, by omega, fun hearly => ?_, fun hnone => ?_, fun _ => ?_, ?_,
      Nat.zero_le _, fun hne => absurd rfl hne⟩
    · obtain ⟨⟨hnothing, hcycles⟩, -⟩ := h.early (hsame hearly)
      exact ⟨⟨hreceived.trans hnothing, (congrArg _ hctrl).trans hcycles⟩, hexp.trans (hzero (hsame hearly)),
        hrx.trans hnothing, rfl⟩
    · rw [hctrl]
      exact h.start hnone
    · rw [hctrl, hexp, hnow]
      exact (Nat.mod_mod _ _).symm
    · rw [hreceived, hrx, hold]
      exact (Nat.mod_mod _ _).symm

theorem packets_packet_le {sess : Session} {tally : Tally} {seq : Nat} (hpackets : tally.packets < 4294967296) :
    (tally.packet (sess.status seq)).packets ≤ 4294967296 := by
  unfold Tally.packet
  split_ifs <;> exact hpackets

theorem Agrees.reports {sess : Session} {tally : Tally} {events : List Event} (h : Agrees sess tally)
    (hpackets : tally.packets ≤ 4294967296) (hpermitted : Permitted sess tally events) : Reports sess tally events := by
  induction events generalizing sess tally with
  | nil => trivial
  | cons event events ih =>
    cases event with
    | rx seq =>
      obtain ⟨hfew, hmore⟩ := hpermitted
      have hseq : seq % 65536 < 65536 := Nat.mod_lt _ (by decide)
      refine ih ?_ (packets_packet_le hfew) hmore
      by_cases hearly : Early sess tally
      · exact h.rx_early hfew hseq hearly
      · exact h.rx_settled hfew hseq hearly
    | tx => exact ih h.tx hpackets hpermitted
    | report =>
      obtain ⟨⟨hfirst, hlost, hexpected⟩, hmore⟩ := hpermitted
      obtain ⟨hright, hnext⟩ := h.report hpackets hfirst hlost hexpected
      exact ⟨hright, ih hnext hpackets hmore⟩

/-- In every permitted run every report is right. -/
theorem reports_right (events : List Event) (h : Permitted init ⟨0, 0, 0⟩ events) : Reports init ⟨0, 0, 0⟩ events :=
  agrees_init.reports (Nat.zero_le _) h

/-- Reports of both kinds, with a gap, a late packet and a wrap. -/
theorem reports_right_gap : Reports init ⟨0, 0, 0⟩
    [.rx 65532, .report, .rx 65533, .tx, .report, .rx 65535, .rx 0, .rx 3, .report, .rx 1, .tx, .rx 4, .report] :=
  reports_right _ (by simp only [Permitted]; decide +kernel)

/-- A report in the probation makes the next one wrong, although no packet is lost. -/
theorem not_reports_right : ¬ ∀ events, Reports init ⟨0, 0, 0⟩ events := by
  intro h
  have hwrong := h [.rx 20, .rx 10, .report, .rx 11, .rx 12, .report]
  obtain ⟨-, ⟨-, hfract⟩, -⟩ := hwrong
  exact absurd hfract (by decide +kernel)

end PjProject.Rtcp
