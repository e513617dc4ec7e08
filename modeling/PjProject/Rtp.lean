import Mathlib.Algebra.Order.Ring.Int
import Mathlib.Data.List.Basic

/-! Sequence numbers of received RTP packets (`rtp.c`). A session follows the extended number of the sender through the
wraps of the 16 bits that a packet carries, from the packet that ends the probation on, until its 32-bit count of received
packets wraps itself: at the next packet the count is zero, which is how the first packet is recognised, and the numbers
start again. -/

namespace PjProject.Rtp

/-- `pjmedia_rtp_seq_session`: `max_seq` has 16 bits, the others have 32. -/
structure SeqSession where
  maxSeq : Nat
  cycles : Nat
  baseSeq : Nat
  badSeq : Nat
  probation : Nat
  deriving DecidableEq, Repr

/-- `pjmedia_rtp_status`. -/
structure Status where
  bad : Bool
  badpt : Bool
  badssrc : Bool
  dup : Bool
  outorder : Bool
  probation : Bool
  restart : Bool
  diff : Nat
  deriving DecidableEq, Repr

def Status.zero : Status := ⟨false, false, false, false, false, false, false, 0⟩

/-- `RTP_SEQ_MOD`, `MAX_DROPOUT`, `MAX_MISORDER` and `MIN_SEQUENTIAL`. -/
def rtpSeqMod : Nat := 65536
def maxDropout : Nat := 3000
def maxMisorder : Nat := 100
def minSequential : Nat := 2

/-- `pjmedia_rtp_seq_restart`. -/
def seqRestart (sess : SeqSession) (seq : Nat) : SeqSession :=
  { sess with baseSeq := seq, maxSeq := seq, badSeq := rtpSeqMod + 1, cycles := 0 }

/-- `pjmedia_rtp_seq_init`. -/
def seqInit (sess : SeqSession) (seq : Nat) : SeqSession :=
  { seqRestart sess seq with maxSeq := (seq + 65535) % 65536, probation := minSequential }

/-- `pjmedia_rtp_seq_update`. -/
def seqUpdate (sess : SeqSession) (seq : Nat) : SeqSession × Status :=
  let udelta := (seq + 65536 - sess.maxSeq) % 65536
  let st := Status.zero
  if sess.probation ≠ 0 then
    let st := { st with probation := true }
    if seq = (sess.maxSeq + 1) % 65536 then
      let sess := { sess with probation := sess.probation - 1, maxSeq := seq }
      (if sess.probation = 0 then { sess with baseSeq := seq } else sess, { st with diff := 1 })
    else
      ({ sess with probation := minSequential - 1, maxSeq := seq },
        if seq = sess.maxSeq then { st with bad := true, dup := true } else { st with bad := true, outorder := true })
  else if udelta = 0 then (sess, { st with dup := true })
  else if udelta < maxDropout then
    let cycles := if seq < sess.maxSeq then (sess.cycles + rtpSeqMod) % 4294967296 else sess.cycles
    ({ sess with cycles, maxSeq := seq }, { st with diff := udelta })
  else if udelta ≤ rtpSeqMod - maxMisorder then
    if seq = sess.badSeq then (seqRestart sess seq, { st with restart := true, probation := true, diff := 1 })
    else ({ sess with badSeq := (seq + 1) % rtpSeqMod }, { st with bad := true, outorder := true })
  else (sess, { st with outorder := true })

/-- What `pjmedia_rtp_session` has for received packets. -/
structure Session where
  seqCtrl : SeqSession
  outPt : Nat
  hasPeerSsrc : Bool
  peerSsrc : Nat
  received : Nat
  deriving DecidableEq, Repr

/-- What of a packet's header is read, in host byte order. -/
structure Hdr where
  pt : Nat
  seq : Nat
  ssrc : Nat
  deriving DecidableEq, Repr

/-- `pjmedia_rtp_session_init2`, with the peer's SSRC when the settings give one. -/
def sessionInit (outPt : Nat) (peerSsrc : Option Nat) : Session :=
  ⟨⟨0, 0, 0, 0, 0⟩, outPt, peerSsrc.isSome, peerSsrc.getD 0, 0⟩

def Session.notePeer (ses : Session) (hdr : Hdr) : Session :=
  if ses.hasPeerSsrc then ses else { ses with peerSsrc := hdr.ssrc }

/-- The sequence numbers start on the first packet received. -/
def Session.seqStart (ses : Session) (seq : Nat) : SeqSession :=
  if ses.received = 0 then seqInit ses.seqCtrl seq else ses.seqCtrl

/-- `pjmedia_rtp_session_update2`: the session and what `p_seq_st` is set to; the difference is left as it is when the
payload type is wrong. -/
def sessionUpdate2 (ses : Session) (hdr : Hdr) (seqSt : Status) (checkPt : Bool) : Session × Status :=
  let peerSsrc := if !ses.hasPeerSsrc && ses.peerSsrc == 0 then hdr.ssrc else ses.peerSsrc
  let ses' := ses.notePeer hdr
  if checkPt ∧ hdr.pt ≠ ses.outPt then
    (ses', { Status.zero with bad := true, badpt := true, badssrc := hdr.ssrc != peerSsrc, diff := seqSt.diff })
  else
    let (seqCtrl, st) := seqUpdate (ses.seqStart hdr.seq) hdr.seq
    let received := if st.restart ∨ ¬ st.bad then (ses.received + 1) % 4294967296 else ses.received
    ({ ses' with seqCtrl, received }, st)

/-! Packets with their true sequence numbers. -/

/-- What a packet carries of a sequence number. -/
def seqOf (number : ℤ) : Nat := (number % 65536).toNat

/-- A packet, and whether its payload type is checked when it is received. -/
structure Packet where
  number : ℤ
  pt : Nat
  ssrc : Nat
  checkPt : Bool
  deriving DecidableEq, Repr

/-- The payload type is the one of the session, or is not looked at. -/
def Packet.accepted (outPt : Nat) (p : Packet) : Bool := !p.checkPt || p.pt == outPt

def receive (ses : Session) (p : Packet) : Session × Status :=
  sessionUpdate2 ses ⟨p.pt, seqOf p.number, p.ssrc⟩ Status.zero p.checkPt

def receiveAll (ses : Session) (packets : List Packet) : Session := packets.foldl (fun ses p => (receive ses p).1) ses

theorem receive_rejected {ses : Session} {p : Packet} (h : p.accepted ses.outPt = false) :
    (receive ses p).1 = ses.notePeer ⟨p.pt, seqOf p.number, p.ssrc⟩ := by
  rw [Packet.accepted, Bool.or_eq_false_iff, Bool.not_eq_false', beq_eq_false_iff_ne] at h
  rw [receive, sessionUpdate2]
  dsimp only
  rw [if_pos h]

theorem receive_accepted {ses : Session} {p : Packet} (h : p.accepted ses.outPt = true) :
    (receive ses p).1.seqCtrl = (seqUpdate (ses.seqStart (seqOf p.number)) (seqOf p.number)).1 ∧
      (receive ses p).2 = (seqUpdate (ses.seqStart (seqOf p.number)) (seqOf p.number)).2 ∧
      (receive ses p).1.received =
        (if (receive ses p).2.restart ∨ ¬ (receive ses p).2.bad then (ses.received + 1) % 4294967296
          else ses.received) := by
  have hcheck : ¬ (p.checkPt = true ∧ p.pt ≠ ses.outPt) := by
    rintro ⟨hpt, hne⟩
    rw [Packet.accepted, hpt, Bool.not_true, Bool.false_or, beq_iff_eq] at h
    exact hne h
  rw [receive, sessionUpdate2]
  dsimp only
  rw [if_neg hcheck]
  exact ⟨rfl, rfl, rfl⟩

@[simp] theorem notePeer_seqCtrl (ses : Session) (hdr : Hdr) : (ses.notePeer hdr).seqCtrl = ses.seqCtrl := by
  unfold Session.notePeer
  split <;> rfl

@[simp] theorem notePeer_received (ses : Session) (hdr : Hdr) : (ses.notePeer hdr).received = ses.received := by
  unfold Session.notePeer
  split <;> rfl

@[simp] theorem notePeer_outPt (ses : Session) (hdr : Hdr) : (ses.notePeer hdr).outPt = ses.outPt := by
  unfold Session.notePeer
  split <;> rfl

theorem receive_outPt (ses : Session) (p : Packet) : (receive ses p).1.outPt = ses.outPt := by
  rw [receive, sessionUpdate2]
  dsimp only
  split
  · exact notePeer_outPt ses _
  · exact notePeer_outPt ses _

theorem receiveAll_outPt (ses : Session) (packets : List Packet) : (receiveAll ses packets).outPt = ses.outPt := by
  unfold receiveAll
  induction packets generalizing ses with
  | nil => rfl
  | cons p packets ih =>
    rw [List.foldl_cons, ih]
    exact receive_outPt ses p

/-! The probation. -/

/-- No packet was received, or more have to come in sequence. -/
def Session.inProbation (ses : Session) : Prop := ses.received = 0 ∨ ses.seqCtrl.probation ≠ 0

def EndsProbation (ses : Session) (p : Packet) : Prop := ses.inProbation ∧ ¬ (receive ses p).1.inProbation

/-- In the probation one packet was received in sequence at most, and no wrap was counted. -/
def OnProbation (ses : Session) : Prop :=
  ses.inProbation → ses.received = 0 ∨
    (ses.received = 1 ∧ ses.seqCtrl.probation = 1 ∧ ses.seqCtrl.cycles = 0)

theorem seqOf_lt (number : ℤ) : seqOf number < 65536 := by
  unfold seqOf
  omega

theorem seqUpdate_probation {sess : SeqSession} {seq : Nat} (hprobation : sess.probation ≠ 0) :
    (seqUpdate sess seq).1.cycles = sess.cycles ∧
      ((seqUpdate sess seq).2.restart = false) ∧
      ((seqUpdate sess seq).2.bad = false →
        (seqUpdate sess seq).1.probation = sess.probation - 1 ∧ (seqUpdate sess seq).1.maxSeq = seq ∧
          (sess.probation = 1 → (seqUpdate sess seq).1.baseSeq = seq)) ∧
      ((seqUpdate sess seq).2.bad = true → (seqUpdate sess seq).1.probation = 1) := by
  unfold seqUpdate
  dsimp only
  rw [if_pos hprobation]
  split
  · split
    · exact ⟨rfl, rfl, fun _ => ⟨rfl, rfl, fun _ => rfl⟩, nofun⟩
    next hmore =>
      refine ⟨rfl, rfl, fun _ => ⟨rfl, rfl, fun hone => ?_⟩, nofun⟩
      rw [hone] at hmore
      exact absurd rfl hmore
  · split
    · exact ⟨rfl, rfl, nofun, fun _ => rfl⟩
    · exact ⟨rfl, rfl, nofun, fun _ => rfl⟩

theorem seqUpdate_first (sess : SeqSession) {seq : Nat} (hseq : seq < 65536) :
    (seqUpdate (seqInit sess seq) seq).2 = { Status.zero with probation := true, diff := 1 } := by
  have hnext : seq = ((seq + 65535) % 65536 + 1) % 65536 := by omega
  unfold seqUpdate seqInit
  dsimp only [seqRestart]
  rw [if_pos (by decide), if_pos hnext]

/-- After the probation there is no probation, unless the numbers are started again. -/
theorem seqUpdate_settled {sess : SeqSession} (hprobation : sess.probation = 0) (seq : Nat) :
    (seqUpdate sess seq).1.probation = 0 := by
  unfold seqUpdate
  dsimp only
  rw [if_neg (not_not_intro hprobation)]
  split_ifs <;> exact hprobation

structure SeqSession.InRange (sess : SeqSession) : Prop where
  maxSeq : sess.maxSeq < 65536
  baseSeq : sess.baseSeq < 65536
  cycles : sess.cycles % 65536 = 0 ∧ sess.cycles < 4294967296

theorem inRange_seqInit (sess : SeqSession) {seq : Nat} (hseq : seq < 65536) : (seqInit sess seq).InRange :=
  ⟨Nat.mod_lt _ (by decide), hseq, rfl, Nat.zero_lt_succ _⟩

theorem SeqSession.InRange.seqUpdate {sess : SeqSession} (h : sess.InRange) {seq : Nat} (hseq : seq < 65536) :
    (seqUpdate sess seq).1.InRange := by
  obtain ⟨hmax, hbase, hcycles⟩ := h
  have hwrapped : (sess.cycles + 65536) % 4294967296 % 65536 = 0 ∧ (sess.cycles + 65536) % 4294967296 < 4294967296 := by
    omega
  unfold Rtp.seqUpdate rtpSeqMod
  dsimp only
  split_ifs
  · exact ⟨hseq, hseq, hcycles⟩
  · exact ⟨hseq, hbase, hcycles⟩
  · exact ⟨hseq, hbase, hcycles⟩
  · exact ⟨hseq, hbase, hcycles⟩
  · exact ⟨hmax, hbase, hcycles⟩
  · exact ⟨hseq, hbase, hwrapped⟩
  · exact ⟨hseq, hbase, hcycles⟩
  · exact ⟨hseq, hseq, rfl, Nat.zero_lt_succ _⟩
  · exact ⟨hmax, hbase, hcycles⟩
  · exact ⟨hmax, hbase, hcycles⟩

theorem seqUpdate_marked {sess : SeqSession} (hprobation : sess.probation ≠ 0) (seq : Nat) :
    (seqUpdate sess seq).2.probation = true := by
  unfold seqUpdate
  dsimp only
  rw [if_pos hprobation]
  split_ifs <;> rfl

theorem seqUpdate_restart {sess : SeqSession} {seq : Nat} (hrestart : (seqUpdate sess seq).2.restart = true) :
    (seqUpdate sess seq).1 = seqRestart sess seq ∧ (seqUpdate sess seq).2.probation = true := by
  unfold seqUpdate at hrestart ⊢
  dsimp only at hrestart ⊢
  split_ifs at hrestart ⊢ <;> first | exact absurd hrestart Bool.false_ne_true | exact ⟨rfl, rfl⟩

/-- Behind the probation the extended number moves by the difference that is reported, which only a packet in order has. -/
theorem seqUpdate_moved {sess : SeqSession} {seq : Nat} (hprobation : sess.probation = 0) (h : sess.InRange)
    (hseq : seq < 65536) (hrestart : (seqUpdate sess seq).2.restart = false) :
    (seqUpdate sess seq).2.probation = false ∧ (seqUpdate sess seq).1.baseSeq = sess.baseSeq ∧
      ((seqUpdate sess seq).1.cycles + (seqUpdate sess seq).1.maxSeq) % 4294967296 =
        (sess.cycles + sess.maxSeq + (seqUpdate sess seq).2.diff) % 4294967296 ∧
      ((seqUpdate sess seq).2.bad = true ∨ (seqUpdate sess seq).2.outorder = true →
        (seqUpdate sess seq).2.diff = 0) := by
  have hmax := h.maxSeq
  unfold seqUpdate at hrestart ⊢
  dsimp only at hrestart ⊢
  rw [if_neg (not_not_intro hprobation)] at hrestart ⊢
  split at hrestart
  next hsame =>
    rw [if_pos hsame]
    exact ⟨rfl, rfl, rfl, fun _ => rfl⟩
  next hdiff =>
    rw [if_neg hdiff]
    split at hrestart
    next hgap =>
      rw [if_pos hgap]
      refine ⟨rfl, rfl, ?_, (Or.elim · (absurd · Bool.false_ne_true) (absurd · Bool.false_ne_true))⟩
      dsimp only [rtpSeqMod]
      split <;> omega
    next hfar =>
      rw [if_neg hfar]
      split at hrestart
      next hjump =>
        rw [if_pos hjump]
        split at hrestart
        · cases hrestart
        next hbad =>
          rw [if_neg hbad]
          exact ⟨rfl, rfl, rfl, fun _ => rfl⟩
      next hold =>
        rw [if_neg hold]
        exact ⟨rfl, rfl, rfl, fun _ => rfl⟩

theorem onProbation_rejected {ses : Session} {p : Packet} (haccept : p.accepted ses.outPt = false) :
    (receive ses p).1.seqCtrl = ses.seqCtrl ∧ (receive ses p).1.received = ses.received := by
  rw [receive_rejected haccept]
  exact ⟨notePeer_seqCtrl ses _, notePeer_received ses _⟩

theorem receive_onProbation {ses : Session} (hses : OnProbation ses) (p : Packet) :
    OnProbation (receive ses p).1 ∧
      (EndsProbation ses p → p.accepted ses.outPt = true ∧ (receive ses p).1.received = 2 ∧
        (receive ses p).1.seqCtrl.cycles = 0 ∧ (receive ses p).1.seqCtrl.probation = 0 ∧
        (receive ses p).1.seqCtrl.maxSeq = seqOf p.number ∧ (receive ses p).1.seqCtrl.baseSeq = seqOf p.number) := by
  cases haccept : p.accepted ses.outPt with
  | false =>
    obtain ⟨hctrl, hreceived⟩ := onProbation_rejected haccept
    have hsame : (receive ses p).1.inProbation ↔ ses.inProbation := by
      rw [Session.inProbation, Session.inProbation, hctrl, hreceived]
    refine ⟨?_, fun hends => absurd (hsame.mpr hends.1) hends.2⟩
    rw [OnProbation, hsame, hctrl, hreceived]
    exact hses
  | true =>
    obtain ⟨hctrl, hstatus, hreceived⟩ := receive_accepted haccept
    by_cases hin : ses.inProbation
    · rcases hses hin with hfirst | ⟨hone, hprobation, hcycles⟩
      · -- the first packet: one more has to come in sequence
        have hstart : ses.seqStart (seqOf p.number) = seqInit ses.seqCtrl (seqOf p.number) := if_pos hfirst
        have hbad : (seqUpdate (seqInit ses.seqCtrl (seqOf p.number)) (seqOf p.number)).2.bad = false := by
          rw [seqUpdate_first ses.seqCtrl (seqOf_lt p.number)]
          rfl
        obtain ⟨hcycles, -, hgood, -⟩ :=
          @seqUpdate_probation (seqInit ses.seqCtrl (seqOf p.number)) (seqOf p.number) two_ne_zero
        rw [hstart] at hctrl hstatus
        rw [hstatus, hbad, hfirst, if_pos (.inr Bool.false_ne_true)] at hreceived
        have hnew : (receive ses p).1.seqCtrl.probation = 1 := by
          rw [hctrl]
          exact (hgood hbad).1
        refine ⟨fun _ => .inr ⟨hreceived, hnew, ?_⟩, fun hends => absurd (.inr ?_) hends.2⟩
        · rw [hctrl]
          exact hcycles
        · rw [hnew]
          exact one_ne_zero
      · have hstart : ses.seqStart (seqOf p.number) = ses.seqCtrl := if_neg (by rw [hone]; exact one_ne_zero)
        obtain ⟨hcycles', hrestart, hgood, hbad⟩ :=
          @seqUpdate_probation ses.seqCtrl (seqOf p.number) (by rw [hprobation]; exact one_ne_zero)
        rw [hstart] at hctrl hstatus
        rw [hstatus, hrestart, hone] at hreceived
        cases hst : (seqUpdate ses.seqCtrl (seqOf p.number)).2.bad with
        | true =>
          rw [hst] at hreceived
          have hnew : (receive ses p).1.seqCtrl.probation = 1 := by
            rw [hctrl]
            exact hbad hst
          refine ⟨fun _ => .inr ⟨hreceived, hnew, ?_⟩, fun hends => absurd (.inr ?_) hends.2⟩
          · rw [hctrl, hcycles']
            exact hcycles
          · rw [hnew]
            exact one_ne_zero
        | false =>
          rw [hst] at hreceived
          obtain ⟨hzero, hmax, hbase⟩ := hgood hst
          have hreceived : (receive ses p).1.received = 2 := hreceived
          have hzero : (receive ses p).1.seqCtrl.probation = 0 := by rw [hctrl, hzero, hprobation]
          have hcycles : (receive ses p).1.seqCtrl.cycles = 0 := by rw [hctrl, hcycles', hcycles]
          have hmax : (receive ses p).1.seqCtrl.maxSeq = seqOf p.number := by rw [hctrl, hmax]
          have hbase : (receive ses p).1.seqCtrl.baseSeq = seqOf p.number := by rw [hctrl, hbase hprobation]
          refine ⟨?_, fun _ => ⟨rfl, hreceived, hcycles, hzero, hmax, hbase⟩⟩
          rintro (h | h)
          · rw [hreceived] at h
            exact absurd h two_ne_zero
          · exact absurd hzero h
    · have hsettled : ses.received ≠ 0 ∧ ses.seqCtrl.probation = 0 := by
        rw [Session.inProbation, not_or, not_not] at hin
        exact hin
      have hstart : ses.seqStart (seqOf p.number) = ses.seqCtrl := if_neg hsettled.1
      rw [hstart] at hctrl
      refine ⟨?_, fun hends => absurd hends.1 hin⟩
      rintro (h | h)
      · exact .inl h
      · rw [hctrl] at h
        exact absurd (seqUpdate_settled hsettled.2 _) h

theorem onProbation_receiveAll {ses : Session} (hses : OnProbation ses) (packets : List Packet) :
    OnProbation (receiveAll ses packets) := by
  unfold receiveAll
  induction packets generalizing ses with
  | nil => exact hses
  | cons p packets ih => exact ih (receive_onProbation hses p).1

/-! After the probation. -/

/-- The extended number of the highest packet, counted from the packet that ended the probation. -/
def Extended (ses : Session) (start highest : ℤ) : Prop :=
  ((ses.seqCtrl.cycles : ℤ) + ses.seqCtrl.maxSeq - ses.seqCtrl.baseSeq - (highest - start)) % 4294967296 = 0

def InWindow (outPt : Nat) : ℤ → List Packet → Prop
  | _, [] => True
  | highest, p :: more =>
    if p.accepted outPt then
      (p.number < highest + 3000 ∧ highest - 100 < p.number) ∧ InWindow outPt (max highest p.number) more
    else InWindow outPt highest more

/-- In every state the extended number is right, and every packet that is received is reported with the increase of the
highest number, neither as bad nor as a restart. -/
def Followed (start : ℤ) : Session → ℤ → List Packet → Prop
  | ses, highest, [] => Extended ses start highest
  | ses, highest, p :: more =>
    Extended ses start highest ∧
      if p.accepted ses.outPt then
        ((receive ses p).2.diff = (max highest p.number - highest).toNat ∧ (receive ses p).2.bad = false ∧
          (receive ses p).2.restart = false) ∧ Followed start (receive ses p).1 (max highest p.number) more
      else Followed start (receive ses p).1 highest more

structure Follows (ses : Session) (start highest : ℤ) : Prop where
  probation : ses.seqCtrl.probation = 0
  maxSeq : ses.seqCtrl.maxSeq = seqOf highest
  extended : Extended ses start highest

theorem seqUpdate_window {sess : SeqSession} {start highest number : ℤ} (hprobation : sess.probation = 0)
    (hmax : sess.maxSeq = seqOf highest) (hlow : highest - 100 < number) (hhigh : number < highest + 3000)
    (hext : ((sess.cycles : ℤ) + sess.maxSeq - sess.baseSeq - (highest - start)) % 4294967296 = 0) :
    (seqUpdate sess (seqOf number)).1.maxSeq = seqOf (max highest number) ∧
      (((seqUpdate sess (seqOf number)).1.cycles : ℤ) + (seqUpdate sess (seqOf number)).1.maxSeq -
        (seqUpdate sess (seqOf number)).1.baseSeq - (max highest number - start)) % 4294967296 = 0 ∧
      (seqUpdate sess (seqOf number)).2.diff = (max highest number - highest).toNat ∧
      (seqUpdate sess (seqOf number)).2.bad = false ∧ (seqUpdate sess (seqOf number)).2.restart = false := by
  have hseq : (seqOf number : ℤ) = number % 65536 := by
    unfold seqOf
    omega
  have hmaxz : (sess.maxSeq : ℤ) = highest % 65536 := by
    rw [hmax]
    unfold seqOf
    omega
  unfold seqUpdate
  dsimp only
  rw [if_neg (not_not_intro hprobation)]
  generalize hdelta : (seqOf number + 65536 - sess.maxSeq) % 65536 = udelta
  rcases lt_trichotomy number highest with hlt | heq | hgt
  · -- an old packet: the difference is close to 65536
    have hkeep : max highest number = highest := max_eq_left hlt.le
    have hclose : rtpSeqMod - maxMisorder < udelta := by
      unfold rtpSeqMod maxMisorder
      omega
    have hnot0 : ¬ udelta = 0 := by omega
    have hfar : ¬ udelta < maxDropout := by
      unfold maxDropout
      omega
    rw [if_neg hnot0, if_neg hfar, if_neg (Nat.not_le.mpr hclose), hkeep, sub_self]
    exact ⟨hmax, hext, rfl, rfl, rfl⟩
  · have hsame : udelta = 0 := by omega
    rw [if_pos hsame, heq, max_self, sub_self]
    exact ⟨hmax, hext, rfl, rfl, rfl⟩
  · have hnew : max highest number = number := max_eq_right hgt.le
    have hnot0 : ¬ udelta = 0 := by omega
    have hgap : udelta < maxDropout := by
      unfold maxDropout
      omega
    rw [if_neg hnot0, if_pos hgap, hnew]
    refine ⟨rfl, ?_, ?_, rfl, rfl⟩
    · dsimp only [rtpSeqMod]
      split <;> omega
    · dsimp only
      omega

theorem Follows.receive_accepted {ses : Session} {start highest : ℤ} (h : Follows ses start highest) {p : Packet}
    (haccept : p.accepted ses.outPt = true) (hlow : highest - 100 < p.number) (hhigh : p.number < highest + 3000)
    (hreceived : ses.received ≠ 0) :
    Follows (receive ses p).1 start (max highest p.number) ∧
      ((receive ses p).2.diff = (max highest p.number - highest).toNat ∧ (receive ses p).2.bad = false ∧
        (receive ses p).2.restart = false) ∧
      (receive ses p).1.received = (ses.received + 1) % 4294967296 := by
  obtain ⟨hctrl, hstatus, hcount⟩ := Rtp.receive_accepted haccept
  have hstart : ses.seqStart (seqOf p.number) = ses.seqCtrl := if_neg hreceived
  rw [hstart] at hctrl hstatus
  obtain ⟨hmax, hext, hdiff, hbad, hrestart⟩ := seqUpdate_window h.probation h.maxSeq hlow hhigh h.extended
  rw [← hctrl] at hmax hext
  rw [← hstatus] at hdiff hbad hrestart
  refine ⟨⟨?_, hmax, hext⟩, ⟨hdiff, hbad, hrestart⟩, ?_⟩
  · rw [hctrl]
    exact seqUpdate_settled h.probation _
  · rw [hcount, hbad, if_pos (.inr Bool.false_ne_true)]

theorem Follows.receive_rejected {ses : Session} {start highest : ℤ} (h : Follows ses start highest) {p : Packet}
    (haccept : p.accepted ses.outPt = false) :
    Follows (receive ses p).1 start highest ∧ (receive ses p).1.received = ses.received := by
  obtain ⟨hctrl, hreceived⟩ := onProbation_rejected haccept
  refine ⟨⟨?_, ?_, ?_⟩, hreceived⟩
  · rw [hctrl]
    exact h.probation
  · rw [hctrl]
    exact h.maxSeq
  · rw [Extended, hctrl]
    exact h.extended

def Uncounted (ses : Session) (more : List Packet) : Prop :=
  (more.filter (Packet.accepted ses.outPt)).length = 0 ∨
    (ses.received ≠ 0 ∧ ses.received + (more.filter (Packet.accepted ses.outPt)).length ≤ 4294967296)

theorem Follows.followed {ses : Session} {start highest : ℤ} (h : Follows ses start highest) {more : List Packet}
    (hwindow : InWindow ses.outPt highest more) (hcount : Uncounted ses more) : Followed start ses highest more := by
  induction more generalizing ses highest with
  | nil => exact h.extended
  | cons p more ih =>
    refine ⟨h.extended, ?_⟩
    rw [InWindow] at hwindow
    have houtPt := receive_outPt ses p
    cases haccept : p.accepted ses.outPt with
    | true =>
      rw [if_pos haccept] at hwindow
      obtain ⟨⟨hhigh, hlow⟩, hmore⟩ := hwindow
      rw [Uncounted, List.filter_cons_of_pos haccept, List.length_cons] at hcount
      have hreceived : ses.received ≠ 0 := by omega
      obtain ⟨hnext, hstatus, hnum⟩ := h.receive_accepted haccept hlow hhigh hreceived
      rw [if_pos rfl]
      refine ⟨hstatus, ih hnext ?_ ?_⟩
      · rw [houtPt]
        exact hmore
      · rw [Uncounted, hnum, houtPt]
        omega
    | false =>
      rw [haccept, if_neg Bool.false_ne_true] at hwindow
      obtain ⟨hnext, hnum⟩ := h.receive_rejected haccept
      have hskip : ¬ p.accepted ses.outPt = true := by rw [haccept]; exact Bool.false_ne_true
      rw [Uncounted, List.filter_cons_of_neg hskip] at hcount
      rw [if_neg Bool.false_ne_true]
      refine ih hnext ?_ ?_
      · rw [houtPt]
        exact hwindow
      · rw [Uncounted, hnum, houtPt]
        exact hcount

theorem follows_of_endsProbation {ses : Session} (hses : OnProbation ses) {p : Packet} (hends : EndsProbation ses p) :
    Follows (receive ses p).1 p.number p.number ∧ (receive ses p).1.received = 2 := by
  obtain ⟨-, hreceived, hcycles, hprobation, hmax, hbase⟩ := (receive_onProbation hses p).2 hends
  refine ⟨⟨hprobation, hmax, ?_⟩, hreceived⟩
  rw [Extended, hcycles, hmax, hbase, sub_self]
  omega

theorem onProbation_init (outPt : Nat) (peerSsrc : Option Nat) : OnProbation (sessionInit outPt peerSsrc) :=
  fun _ => .inl rfl

/-- A session that has received packets until the probation ended follows the sender through all packets of the window
after that, any number of times around, as long as no more than 2^32 - 2 of them are received. -/
theorem followed_after_probation (outPt : Nat) (peerSsrc : Option Nat) (early : List Packet) (p : Packet)
    (more : List Packet) (hends : EndsProbation (receiveAll (sessionInit outPt peerSsrc) early) p)
    (hwindow : InWindow outPt p.number more) (hcount : (more.filter (Packet.accepted outPt)).length ≤ 4294967294) :
    Followed p.number (receiveAll (sessionInit outPt peerSsrc) (early ++ [p])) p.number more := by
  have hprobation := onProbation_receiveAll (onProbation_init outPt peerSsrc) early
  obtain ⟨hfollows, hreceived⟩ := follows_of_endsProbation hprobation hends
  have hrun : receiveAll (sessionInit outPt peerSsrc) (early ++ [p]) =
      (receive (receiveAll (sessionInit outPt peerSsrc) early) p).1 := by
    rw [receiveAll, List.foldl_append]
    rfl
  have houtPt : (receive (receiveAll (sessionInit outPt peerSsrc) early) p).1.outPt = outPt := by
    rw [receive_outPt, receiveAll_outPt]
    rfl
  rw [hrun]
  refine hfollows.followed ?_ ?_
  · rw [houtPt]
    exact hwindow
  · rw [Uncounted, houtPt, hreceived]
    omega

/-- Packets around a wrap, one of them late. -/
theorem followed_around_wrap :
    Followed 65534 (receiveAll (sessionInit 0 none) [⟨65533, 0, 7, true⟩, ⟨65534, 0, 7, true⟩]) 65534
      [⟨65537, 0, 7, true⟩, ⟨65535, 0, 7, true⟩, ⟨65538, 0, 7, true⟩] := by
  refine followed_after_probation 0 none [⟨65533, 0, 7, true⟩] ⟨65534, 0, 7, true⟩ _ ?_ ?_ ?_
  · exact ⟨.inr (by decide), not_or.mpr ⟨by decide, by decide⟩⟩
  · simp only [InWindow]
    decide
  · decide

/-! The count of received packets wraps. -/

/-- Copies of the highest packet: when the count comes to zero, the next one is taken for the first packet. -/
theorem not_followed_copies {ses : Session} {start : ℤ} {p : Packet} (h : Follows ses start p.number)
    (haccept : p.accepted ses.outPt = true) {n : Nat} (hn : n < 4294967296)
    (hwrap : (ses.received + n) % 4294967296 = 0) (hreceived : ses.received < 4294967296) :
    ¬ Followed start ses p.number (List.replicate (n + 1) p) := by
  induction n generalizing ses with
  | zero =>
    have hzero : ses.received = 0 := by omega
    have hstart : ses.seqStart (seqOf p.number) = seqInit ses.seqCtrl (seqOf p.number) := if_pos hzero
    obtain ⟨-, hstatus, -⟩ := Rtp.receive_accepted haccept
    rintro ⟨-, hnext⟩
    rw [if_pos haccept, hstatus, hstart, seqUpdate_first _ (seqOf_lt _), max_self, sub_self] at hnext
    exact absurd hnext.1.1 one_ne_zero
  | succ n ih =>
    rw [List.replicate_succ]
    rintro ⟨-, hnext⟩
    rw [if_pos haccept, max_self] at hnext
    obtain ⟨hfollows, -, hnum⟩ :=
      h.receive_accepted haccept (sub_lt_self _ (by decide)) (lt_add_of_pos_right _ (by decide)) (by omega)
    rw [max_self] at hfollows
    refine ih hfollows ?_ (by omega) ?_ ?_ hnext.2
    · rw [receive_outPt]
      exact haccept
    · rw [hnum]
      omega
    · rw [hnum]
      exact Nat.mod_lt _ (by decide)

theorem inWindow_copies {outPt : Nat} {p : Packet} (haccept : p.accepted outPt = true) (n : Nat) :
    InWindow outPt p.number (List.replicate n p) := by
  induction n with
  | zero => trivial
  | succ n ih =>
    rw [List.replicate_succ, InWindow, if_pos haccept, max_self]
    exact ⟨⟨lt_add_of_pos_right _ (by decide), sub_lt_self _ (by decide)⟩, ih⟩

/-- After 2^32 packets the numbers start again. -/
theorem not_followed_at_wrap :
    ¬ ∀ (outPt : Nat) (peerSsrc : Option Nat) (early : List Packet) (p : Packet) (more : List Packet),
      EndsProbation (receiveAll (sessionInit outPt peerSsrc) early) p → InWindow outPt p.number more →
        Followed p.number (receiveAll (sessionInit outPt peerSsrc) (early ++ [p])) p.number more := by
  intro h
  have hends : EndsProbation (receiveAll (sessionInit 0 none) [⟨0, 0, 7, true⟩]) ⟨1, 0, 7, true⟩ :=
    ⟨.inr (by decide), not_or.mpr ⟨by decide, by decide⟩⟩
  have hprobation := onProbation_receiveAll (onProbation_init 0 none) [⟨0, 0, 7, true⟩]
  obtain ⟨hfollows, hreceived⟩ := follows_of_endsProbation hprobation hends
  refine not_followed_copies hfollows (by decide) (n := 4294967294) (by decide) ?_ ?_
    (h 0 none [⟨0, 0, 7, true⟩] ⟨1, 0, 7, true⟩ _ hends (inWindow_copies (by decide) _))
  · rw [hreceived]
  · rw [hreceived]
    decide

end PjProject.Rtp
