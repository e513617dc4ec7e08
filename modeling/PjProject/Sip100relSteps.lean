import PjProject.Sip100rel
import PjProject.SockaddrRoundTrip

/-! What the functions for reliable responses do, said once: a transmission goes out or leaves the dialog as it was, and
`on_retransmit` transmits the response at the head of the list, repeats it, or gives up. -/

namespace PjProject.Sip100rel

open Sock (isDigit strtoul)

def State.list (s : State) : List TxData := (s.uasState.map (·.txDataList)).getD []

def State.timer (s : State) : Bool := (s.uasState.map (·.retransmitTimer)).getD false

/-- The INVITE transaction still takes responses. -/
def Open (s : State) : Prop := ∃ tsx, s.inviteTsx = some tsx ∧ tsx.final = false

/-- A response that `pjsip_100rel_tx_response` sends reliably. -/
def Tdata.reliable (t : Tdata) : Bool := 100 < t.code && t.code < 200

def State.transmitted (s : State) (t : Tdata) : State :=
  { s with
      inviteTsx := s.inviteTsx.map fun tsx => { tsx with final := 200 ≤ t.code }
      established := s.established || t.code / 100 = 2
      log := .sent t :: s.log }

theorem sendMsg_of_open {s : State} {io : Io} (hopen : Open s) (htakes : io.takes = true) (t : Tdata) :
    sendMsg s t io = (s.transmitted t, true) := by
  obtain ⟨tsx, htsx, hfinal⟩ := hopen
  have htaken : ¬ (tsx.final = true ∨ io.takes = false) := by
    rw [hfinal, htakes]
    decide
  unfold sendMsg State.transmitted
  rw [htsx]
  dsimp only
  rw [if_neg htaken]
  rfl

theorem sendMsg_of_not {s : State} {io : Io} (h : ¬ (Open s ∧ io.takes = true)) (t : Tdata) :
    sendMsg s t io = (s, false) := by
  unfold sendMsg
  cases htsx : s.inviteTsx with
  | none => rfl
  | some tsx =>
    refine if_pos ?_
    by_contra hnot
    obtain ⟨hfinal, htakes⟩ := not_or.mp hnot
    exact h ⟨⟨tsx, htsx, Bool.eq_false_iff.mpr hfinal⟩, (Bool.not_eq_false _).mp htakes⟩

/-- A transmission goes out, or nothing changes. -/
theorem sendMsg_cases (s : State) (t : Tdata) (io : Io) :
    (Open s ∧ io.takes = true ∧ sendMsg s t io = (s.transmitted t, true)) ∨
      (¬ (Open s ∧ io.takes = true) ∧ sendMsg s t io = (s, false)) := by
  by_cases h : Open s ∧ io.takes = true
  · exact .inl ⟨h.1, h.2, sendMsg_of_open h.1 h.2 t⟩
  · exact .inr ⟨h, sendMsg_of_not h t⟩

theorem open_transmitted {s : State} {t : Tdata} : Open (s.transmitted t) ↔ s.inviteTsx ≠ none ∧ t.code < 200 := by
  unfold Open State.transmitted
  dsimp only
  cases htsx : s.inviteTsx with
  | none => exact iff_of_false (fun ⟨tsx, h, _⟩ => by cases h) fun h => h.1 rfl
  | some tsx =>
    rw [Option.map_some]
    constructor
    · rintro ⟨tsx', h, hfinal⟩
      obtain rfl := Option.some.inj h
      exact ⟨Option.some_ne_none tsx, Nat.lt_of_not_le (of_decide_eq_false hfinal)⟩
    · rintro ⟨-, hcode⟩
      exact ⟨_, rfl, decide_eq_false (Nat.not_le_of_lt hcode)⟩

/-- The ways of `on_retransmit`. -/
inductive Retransmits (s : State) (u : UasState) (io : Io) : State → Prop
  /-- The transaction is gone: the list is cleared. -/
  | gone (hgone : s.inviteTsx = none) :
      Retransmits s u io { s with uasState := some { u.clearAllResponses with retransmitTimer := false } }
  /-- The seventh time: the list is cleared and the INVITE is rejected, if that goes well. -/
  | rejects (tsx : Tsx) (htsx : s.inviteTsx = some tsx) (hcount : 6 ≤ u.retransmitCount) (hopen : Open s)
      (hends : io.endsSession = true) (htakes : io.takes = true) (hnew : s.established = false) :
      Retransmits s u io (State.transmitted { s with uasState := some { u with
        retransmitCount := u.retransmitCount + 1
        retransmitTimer := false
        txDataList := [] } } (timedOut tsx))
  | givesUp (hcount : 6 ≤ u.retransmitCount) (htsx : s.inviteTsx ≠ none)
      (hnot : ¬ (Open s ∧ io.takes = true ∧ io.endsSession = true ∧ s.established = false)) :
      Retransmits s u io { s with uasState := some { u with
        retransmitCount := u.retransmitCount + 1
        retransmitTimer := false
        txDataList := [] } }
  /-- There is nothing to transmit. -/
  | empty (hcount : u.retransmitCount < 6) (htsx : s.inviteTsx ≠ none) (hlist : u.txDataList = []) :
      Retransmits s u io { s with uasState := some { u with
        retransmitCount := u.retransmitCount + 1
        retransmitTimer := false } }
  /-- The response at the head is transmitted the first time. -/
  | first (tl : TxData) (rest : List TxData) (hlist : u.txDataList = tl :: rest) (hcount : u.retransmitCount = 0)
      (hopen : Open s) (htakes : io.takes = true) :
      Retransmits s u io { s.transmitted tl.tdata with uasState := some { u with
        retransmitCount := 1
        retransmitTimer := !decide (200 ≤ tl.tdata.code)
        txDataList := if 200 ≤ tl.tdata.code then [] else tl :: rest } }
  /-- The first transmission fails. -/
  | fails (tl : TxData) (rest : List TxData) (hlist : u.txDataList = tl :: rest) (hcount : u.retransmitCount = 0)
      (htsx : s.inviteTsx ≠ none) (hnot : ¬ (Open s ∧ io.takes = true)) :
      Retransmits s u io { s with uasState := some { u with retransmitCount := 1, retransmitTimer := false } }
  /-- The response at the head is transmitted again. -/
  | again (tl : TxData) (rest : List TxData) (hlist : u.txDataList = tl :: rest) (hcount : 0 < u.retransmitCount)
      (hless : u.retransmitCount < 6) (htsx : s.inviteTsx ≠ none) :
      Retransmits s u io { s with
        log := .resent tl.tdata :: s.log
        uasState := some { u with
          retransmitCount := u.retransmitCount + 1
          retransmitTimer := !decide (200 ≤ tl.tdata.code)
          txDataList := if 200 ≤ tl.tdata.code then [] else tl :: rest } }

theorem afterTransmission_eq (s : State) (u : UasState) (t : Tdata) (hoff : u.retransmitTimer = false) :
    afterTransmission s u t = { s with uasState := some { u with
      retransmitTimer := !decide (200 ≤ t.code)
      txDataList := if 200 ≤ t.code then [] else u.txDataList } } := by
  unfold afterTransmission UasState.clearAllResponses
  by_cases hfinal : 200 ≤ t.code
  · rw [if_pos hfinal, if_pos hfinal, decide_eq_true hfinal, hoff]
    rfl
  · rw [if_neg hfinal, if_neg hfinal, decide_eq_false hfinal]
    rfl

theorem onRetransmit_cases (s : State) (u : UasState) (io : Io) : Retransmits s u io (onRetransmit s u io) := by
  obtain ⟨uas, inviteTsx, established, log⟩ := s
  unfold onRetransmit
  dsimp only
  cases inviteTsx with
  | none => exact .gone rfl
  | some tsx =>
    have hne : some tsx ≠ none := Option.some_ne_none tsx
    dsimp only
    by_cases hcount : 7 ≤ u.retransmitCount + 1
    · rw [if_pos hcount]
      unfold reject
      dsimp only
      by_cases hends : established = true ∨ io.endsSession = false
      · rw [if_pos hends]
        refine .givesUp (Nat.le_of_succ_le_succ hcount) hne ?_
        rintro ⟨-, -, hio, hnew⟩
        rcases hends with hold | hio'
        · rw [hold] at hnew
          cases hnew
        · rw [hio] at hio'
          cases hio'
      · rw [if_neg hends]
        obtain ⟨hnew, hio⟩ := not_or.mp hends
        show Retransmits _ u io (sendMsg ⟨some ⟨u.cseq, u.rseq, [], u.retransmitCount + 1, false⟩, some tsx, established,
          log⟩ (timedOut tsx) io).1
        rcases sendMsg_cases ⟨some ⟨u.cseq, u.rseq, [], u.retransmitCount + 1, false⟩, some tsx, established, log⟩
          (timedOut tsx) io with ⟨hopen, htakes, hsend⟩ | ⟨hnot, hsend⟩
        · rw [hsend]
          exact .rejects tsx rfl (Nat.le_of_succ_le_succ hcount) hopen ((Bool.not_eq_false _).mp hio) htakes
            (Bool.eq_false_iff.mpr hnew)
        · rw [hsend]
          exact .givesUp (Nat.le_of_succ_le_succ hcount) hne fun h => hnot ⟨h.1, h.2.1⟩
    · rw [if_neg hcount]
      obtain ⟨cseq, rseq, list, count, timer⟩ := u
      dsimp only at hcount ⊢
      cases list with
      | nil => exact .empty (by dsimp only; omega) hne rfl
      | cons tl rest =>
        dsimp only
        by_cases hfirst : count + 1 = 1
        · obtain rfl : count = 0 := Nat.succ.inj hfirst
          rw [if_pos hfirst]
          rcases sendMsg_cases ⟨some ⟨cseq, rseq, tl :: rest, 0 + 1, false⟩, some tsx, established, log⟩ tl.tdata io with
            ⟨hopen, htakes, hsend⟩ | ⟨hnot, hsend⟩
          · rw [hsend]
            dsimp only
            rw [if_pos rfl, afterTransmission_eq _ _ _ rfl]
            exact .first tl rest rfl rfl hopen htakes
          · rw [hsend]
            exact .fails tl rest rfl rfl hne hnot
        · rw [if_neg hfirst, afterTransmission_eq _ _ _ rfl]
          exact .again tl rest rfl (by dsimp only; omega) (by dsimp only; omega) hne

/-- A transmission that goes out or leaves the state as it was. -/
def Sends (s : State) (t : Tdata) (io : Io) (s' : State) : Prop :=
  Open s ∧ io.takes = true ∧ s' = s.transmitted t ∨ ¬ (Open s ∧ io.takes = true) ∧ s' = s

theorem sends_sendMsg (s : State) (t : Tdata) (io : Io) : Sends s t io (sendMsg s t io).1 := by
  rcases sendMsg_cases s t io with ⟨hopen, htakes, hsend⟩ | ⟨hnot, hsend⟩
  · exact .inl ⟨hopen, htakes, by rw [hsend]⟩
  · exact .inr ⟨hnot, by rw [hsend]⟩

/-- The response without the headers of this module. -/
def Tdata.plain (t : Tdata) : Tdata := { t with rseq := none }

def State.uasFor (s : State) (t : Tdata) (rand : Nat) : UasState := s.uasState.getD (newUasState t.cseq rand)

/-- The UAS with one more reliable response. -/
def UasState.push (u : UasState) (t : Tdata) : UasState :=
  { u with rseq := (u.rseq + 1) % 0x100000000, txDataList := u.txDataList ++ [⟨u.rseq, u.number t⟩] }

def UasState.pop (u : UasState) (rest : List TxData) : UasState :=
  { u with txDataList := rest, retransmitCount := 0, retransmitTimer := false }

/-- The PRACK is for the response at the head of the list. -/
def PrackFor (u : UasState) (tl : TxData) (rack : Bytes) : Prop :=
  (parseRack rack).1 = tl.rseq ∧ (parseRack rack).2.1 = u.cseq

inductive Steps (s : State) : Action → State → Prop
  | invite (cseq : Nat) (hnone : s.inviteTsx = none) :
      Steps s (.invite cseq) { s with inviteTsx := some ⟨cseq, false⟩, log := .invite :: s.log }
  | tsxGone : Steps s .tsxGone { s with inviteTsx := none }
  | trying (t : Tdata) (rand : Nat) (io : Io) (s' : State) (hcode : t.code = 100) (hsends : Sends s t io s') :
      Steps s (.txResponse t rand io) s'
  | queued (t : Tdata) (rand : Nat) (io : Io) (u : UasState) (hcode : t.code / 100 = 2) (hu : s.uasState = some u)
      (hsdp : u.hasSdp = true) :
      Steps s (.txResponse t rand io) { s with
        uasState := some { u with txDataList := u.txDataList ++ [⟨0xFFFFFFFF, t.plain⟩] }
        log := .given t.plain :: s.log }
  | final (t : Tdata) (rand : Nat) (io : Io) (uas : Option UasState) (s' : State) (hcode : 200 ≤ t.code)
      (huas : uas = s.uasState.map UasState.cancel ∧ (t.code / 100 = 2 → ∀ u ∈ s.uasState, u.hasSdp = false) ∧
          (300 ≤ t.code → s.list = [] ∨ s.timer = true) ∨
        uas = s.uasState ∧ 300 ≤ t.code ∧ s.timer = false)
      (hsends : Sends { s with uasState := uas, log := .given t.plain :: s.log } t.plain io s') :
      Steps s (.txResponse t rand io) s'
  | refused (t : Tdata) (rand : Nat) (io : Io) (u : UasState) (hcode : t.reliable = true) (hu : s.uasState = some u)
      (hcseq : t.cseq ≠ u.cseq) : Steps s (.txResponse t rand io) { s with log := .given t.plain :: s.log }
  | enqueued (t : Tdata) (rand : Nat) (io : Io) (u : UasState) (hcode : t.reliable = true) (hu : s.uasState = some u)
      (hcseq : t.cseq = u.cseq) (hlist : u.txDataList ≠ []) :
      Steps s (.txResponse t rand io) { s with
        uasState := some (u.push t.plain)
        log := .given (u.number t.plain) :: s.log }
  | alone (t : Tdata) (rand : Nat) (io : Io) (s' : State) (hcode : t.reliable = true)
      (hcseq : t.cseq = (s.uasFor t rand).cseq) (hlist : (s.uasFor t rand).txDataList = [])
      (hretransmits : Retransmits { s with log := .given ((s.uasFor t rand).number t.plain) :: s.log }
        { (s.uasFor t rand).push t.plain with retransmitCount := 0 } io s') : Steps s (.txResponse t rand io) s'
  | ignored (rack : Option Bytes) (io : Io)
      (hnot : ∀ u r tl rest, s.uasState = some u → rack = some r → u.txDataList = tl :: rest → ¬ PrackFor u tl r) :
      Steps s (.rxPrack rack io) s
  | ackedLast (rack : Bytes) (io : Io) (u : UasState) (tl : TxData) (hu : s.uasState = some u)
      (hlist : u.txDataList = [tl]) (hmatch : PrackFor u tl rack) :
      Steps s (.rxPrack (some rack) io) { s with uasState := some (u.pop []), log := .acked tl.tdata rack :: s.log }
  | ackedNext (rack : Bytes) (io : Io) (u : UasState) (tl next : TxData) (rest : List TxData) (s' : State)
      (hu : s.uasState = some u) (hlist : u.txDataList = tl :: next :: rest) (hmatch : PrackFor u tl rack)
      (hretransmits : Retransmits { s with
        uasState := some (u.pop (next :: rest))
        log := .acked tl.tdata rack :: s.log } (u.pop (next :: rest)) io s') : Steps s (.rxPrack (some rack) io) s'
  | timeout (io : Io) (u : UasState) (s' : State) (hu : s.uasState = some u) (htimer : u.retransmitTimer = true)
      (hretransmits : Retransmits s u io s') : Steps s (.timeout io) s'

theorem steps_txResponse {s : State} {t : Tdata} (hcode : 100 ≤ t.code) (rand : Nat) (io : Io) :
    Steps s (.txResponse t rand io) (txResponse s t rand io).1 := by
  unfold txResponse
  by_cases htrying : t.code = 100
  · rw [if_pos htrying]
    exact .trying t rand io _ htrying (sends_sendMsg s t io)
  · rw [if_neg htrying]
    dsimp only
    by_cases hsuccess : t.code / 100 = 2
    · rw [if_pos hsuccess]
      unfold txSuccess
      dsimp only
      cases hu : s.uasState with
      | none =>
        dsimp only
        refine .final t rand io none _ (by omega) (.inl ⟨by rw [hu]; rfl, fun _ u hsome => ?_, fun _ => .inl ?_⟩)
          (sends_sendMsg _ _ _)
        · rw [hu] at hsome
          cases hsome
        · rw [State.list, hu]
          rfl
      | some u =>
        dsimp only
        by_cases hsdp : u.hasSdp = true
        · rw [if_pos hsdp]
          exact .queued t rand io u hsuccess hu hsdp
        · rw [if_neg hsdp]
          refine .final t rand io (some u.cancel) _ (by omega) (.inl ⟨by rw [hu]; rfl, fun _ v hsome => ?_, fun h => ?_⟩)
            (sends_sendMsg _ _ _)
          · rw [hu] at hsome
            obtain rfl := Option.some.inj hsome
            exact Bool.eq_false_iff.mpr hsdp
          · omega
    · rw [if_neg hsuccess]
      by_cases hfailure : 300 ≤ t.code
      · rw [if_pos hfailure]
        unfold txFailure
        dsimp only
        cases hu : s.uasState with
        | none =>
          dsimp only
          refine .final t rand io none _ (by omega) (.inl ⟨by rw [hu]; rfl, fun h => absurd h hsuccess, fun _ => .inl ?_⟩)
            (sends_sendMsg _ _ _)
          rw [State.list, hu]
          rfl
        | some u =>
          dsimp only
          by_cases htimer : u.retransmitTimer = true
          · rw [if_pos htimer]
            refine .final t rand io (some u.cancel) _ (by omega)
              (.inl ⟨by rw [hu]; rfl, fun h => absurd h hsuccess, fun _ => .inr ?_⟩) (sends_sendMsg _ _ _)
            rw [State.timer, hu]
            exact htimer
          · rw [if_neg htimer]
            refine .final t rand io (some u) _ (by omega) (.inr ⟨hu.symm, hfailure, ?_⟩) ?_
            · rw [State.timer, hu]
              exact Bool.eq_false_iff.mpr htimer
            · exact sends_sendMsg _ _ _
      · rw [if_neg hfailure]
        have hreliable : t.reliable = true := by
          rw [Tdata.reliable, Bool.and_eq_true, decide_eq_true_iff, decide_eq_true_iff]
          omega
        unfold txProvisional
        dsimp only
        by_cases hcseq : t.cseq = (s.uasFor t rand).cseq
        · rw [State.uasFor] at hcseq
          rw [if_neg (not_not_intro hcseq)]
          by_cases hlist : (s.uasFor t rand).txDataList = []
          · rw [State.uasFor] at hlist
            rw [if_neg (not_not_intro hlist)]
            exact .alone t rand io _ hreliable hcseq hlist (onRetransmit_cases _ _ _)
          · rw [State.uasFor] at hlist
            rw [if_pos hlist]
            cases hu : s.uasState with
            | none =>
              rw [hu] at hlist
              exact absurd rfl hlist
            | some u =>
              rw [hu] at hlist hcseq
              exact .enqueued t rand io u hreliable hu hcseq hlist
        · rw [State.uasFor] at hcseq
          rw [if_pos hcseq]
          cases hu : s.uasState with
          | none =>
            rw [hu] at hcseq
            exact absurd rfl hcseq
          | some u =>
            rw [hu] at hcseq
            have hrefused := Steps.refused t rand io u hreliable hu hcseq
            rw [hu] at hrefused
            exact hrefused

theorem steps_onRxPrack (s : State) (rack : Option Bytes) (io : Io) :
    Steps s (.rxPrack rack io) (onRxPrack s rack io) := by
  unfold onRxPrack
  cases hu : s.uasState with
  | none => exact .ignored rack io fun u r tl rest h => by rw [hu] at h; cases h
  | some u =>
    cases rack with
    | none => exact .ignored none io nofun
    | some rack =>
      dsimp only
      cases hlist : u.txDataList with
      | nil =>
        refine .ignored (some rack) io fun u' r tl rest hu' _ h => ?_
        obtain rfl := Option.some.inj (hu.symm.trans hu')
        rw [hlist] at h
        cases h
      | cons tl rest =>
        dsimp only
        by_cases hmatch : (parseRack rack).1 = tl.rseq ∧ (parseRack rack).2.1 = u.cseq
        · rw [if_pos hmatch]
          cases rest with
          | nil =>
            rw [if_pos rfl]
            exact .ackedLast rack io u tl hu hlist hmatch
          | cons next rest =>
            rw [if_neg (List.cons_ne_nil next rest)]
            exact .ackedNext rack io u tl next rest _ hu hlist hmatch (onRetransmit_cases _ _ _)
        · rw [if_neg hmatch]
          refine .ignored (some rack) io fun u' r tl' rest' hu' hr h => ?_
          obtain rfl := Option.some.inj (hu.symm.trans hu')
          obtain rfl := Option.some.inj hr
          obtain ⟨rfl, -⟩ := List.cons.inj (hlist.symm.trans h)
          exact hmatch

theorem steps_of_step {s s' : State} {a : Action} (h : step s a = some s') : Steps s a s' := by
  cases a with
  | invite cseq =>
    unfold step at h
    dsimp only at h
    split at h
    · next hnone =>
      obtain rfl := Option.some.inj h
      exact .invite cseq hnone
    · cases h
  | tsxGone =>
    obtain rfl := Option.some.inj h
    exact .tsxGone
  | txResponse t rand io =>
    unfold step at h
    dsimp only at h
    split at h
    · next hguard =>
      obtain rfl := Option.some.inj h
      exact steps_txResponse hguard.1 rand io
    · cases h
  | rxPrack rack io =>
    obtain rfl := Option.some.inj h
    exact steps_onRxPrack s rack io
  | timeout io =>
    unfold step at h
    dsimp only at h
    split at h
    · next u hu =>
      split at h
      · next htimer =>
        obtain rfl := Option.some.inj h
        exact .timeout io u _ hu htimer (onRetransmit_cases s u io)
      · cases h
    · cases h

end PjProject.Sip100rel
