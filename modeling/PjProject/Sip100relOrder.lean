import PjProject.Sip100relSteps

/-! Reliable provisional responses go out one at a time. Within one INVITE transaction the responses that were given are, in
order, those that were acknowledged and those in the list; only the head of the list was transmitted. A transaction whose
final response was not taken, or whose 504 response was not made, goes on without what the list had. -/

namespace PjProject.Sip100rel

open Sock (isDigit strtoul)

/-! What the log says. -/

/-- The provisional responses that were given, newest first. -/
def provisional (log : List Event) : List Tdata :=
  log.filterMap fun
    | .given t => if t.reliable then some t else none
    | _ => none

/-- The responses that were acknowledged, newest first. -/
def ackedOf (log : List Event) : List Tdata :=
  log.filterMap fun
    | .acked t _ => some t
    | _ => none

def numberOf (text : Bytes) : Nat := (text.takeWhile isDigit).foldl (fun value c => 10 * value + (c.toNat - 48)) 0

def rackNumbers (rack : Bytes) : Nat × Nat :=
  (numberOf rack, numberOf (rack.drop ((rack.takeWhile isDigit).length + 1)))

/-- Consecutive RSeq numbers in the order given. -/
def Numbered (log : List Event) : Prop :=
  (∀ t ∈ provisional log, t.rseq ≠ none) ∧
    (provisional log).IsChain fun newer older => newer.rseq = older.rseq.map fun n => (n + 1) % 0x100000000

/-- Each provisional response is transmitted when exactly the ones that were given before it are acknowledged. -/
def OneAtATime (log : List Event) : Prop :=
  ∀ t pre, .sent t :: pre <:+ log → t.reliable = true → ∃ later, provisional pre = later ++ t :: ackedOf pre

/-- Each acknowledged response has a PRACK with its RSeq and its CSeq. -/
def Acknowledged (log : List Event) : Prop :=
  ∀ t rack, .acked t rack ∈ log → t.reliable = true → ∃ n, t.rseq = some n ∧ rackNumbers rack = (n, t.cseq)

/-- A 2xx response is transmitted when all provisional responses with a body that were transmitted are acknowledged. -/
def SuccessLast (log : List Event) : Prop :=
  ∀ f pre, .sent f :: pre <:+ log → f.code / 100 = 2 →
    ∀ t, .sent t ∈ pre → t.reliable = true → t.body = true → t ∈ ackedOf pre

/-- The PRACK has the RSeq and the CSeq of the provisional response that is outstanding. -/
def Matches (s : State) (rack : Option Bytes) : Prop :=
  ∃ u r tl rest, s.uasState = some u ∧ rack = some r ∧ u.txDataList = tl :: rest ∧ tl.tdata.code < 200 ∧
    rackNumbers r = (tl.rseq, u.cseq)

/-! Numbers. -/

theorem strtoul_eq (text : Bytes) : strtoul text = numberOf text % 0x100000000 := Sock.foldl_mod _ 0

theorem numberOf_takeWhile (text : Bytes) : numberOf (text.takeWhile isDigit) = numberOf text := by
  unfold numberOf
  rw [List.takeWhile_takeWhile]
  simp only [and_self, Bool.decide_eq_true]

/-- For numbers of 32 bits `parse_rack` reads what the header has. -/
theorem parseRack_eq {rack : Bytes} (hsmall : (rackNumbers rack).1 < 0x100000000 ∧ (rackNumbers rack).2 < 0x100000000) :
    (parseRack rack).1 = (rackNumbers rack).1 ∧ (parseRack rack).2.1 = (rackNumbers rack).2 := by
  obtain ⟨hfirst, hsecond⟩ := hsmall
  unfold parseRack
  dsimp only
  rw [strtoul_eq, strtoul_eq, numberOf_takeWhile, numberOf_takeWhile]
  exact ⟨Nat.mod_eq_of_lt hfirst, Nat.mod_eq_of_lt hsecond⟩

/-! Logs. -/

structure LogOk (log : List Event) : Prop where
  numbered : Numbered log
  inOrder : OneAtATime log
  acked : Acknowledged log
  last : SuccessLast log

theorem provisional_cons_given (t : Tdata) (log : List Event) :
    provisional (.given t :: log) = if t.reliable then t :: provisional log else provisional log := by
  unfold provisional
  by_cases h : t.reliable = true
  · rw [if_pos h]
    exact List.filterMap_cons_some (if_pos h)
  · rw [if_neg h]
    exact List.filterMap_cons_none (if_neg h)

theorem LogOk.nil : LogOk [] where
  numbered := ⟨nofun, .nil⟩
  inOrder := fun t pre hsuffix => by cases List.suffix_nil.mp hsuffix
  acked := nofun
  last := fun f pre hsuffix => by cases List.suffix_nil.mp hsuffix

/-- A response is transmitted. -/
theorem LogOk.sent {log : List Event} (h : LogOk log) {t : Tdata}
    (hone : t.reliable = true → ∃ later, provisional log = later ++ t :: ackedOf log)
    (hlast : t.code / 100 = 2 → ∀ a, .sent a ∈ log → a.reliable = true → a.body = true → a ∈ ackedOf log) :
    LogOk (.sent t :: log) where
  numbered := h.numbered
  inOrder := by
    intro b pre hsuffix hreliable
    rcases List.suffix_cons_iff.mp hsuffix with heq | hsuffix
    · obtain ⟨hb, rfl⟩ := List.cons.inj heq
      obtain rfl := Event.sent.inj hb
      exact hone hreliable
    · exact h.inOrder b pre hsuffix hreliable
  acked := by
    intro b rack hb
    rcases List.mem_cons.mp hb with hb | hb
    · cases hb
    · exact h.acked b rack hb
  last := by
    intro f pre hsuffix hsuccess
    rcases List.suffix_cons_iff.mp hsuffix with heq | hsuffix
    · obtain ⟨hf, rfl⟩ := List.cons.inj heq
      obtain rfl := Event.sent.inj hf
      exact hlast hsuccess
    · exact h.last f pre hsuffix hsuccess

/-- What is not transmitted changes nothing about what was transmitted. -/
theorem LogOk.cons {log : List Event} (h : LogOk log) {e : Event} (hsent : ∀ t, e ≠ .sent t)
    (hnumbered : Numbered (e :: log))
    (hacked : ∀ t rack, e = .acked t rack → t.reliable = true → ∃ n, t.rseq = some n ∧ rackNumbers rack = (n, t.cseq)) :
    LogOk (e :: log) where
  numbered := hnumbered
  inOrder := by
    intro b pre hsuffix
    rcases List.suffix_cons_iff.mp hsuffix with heq | hsuffix
    · exact absurd (List.cons.inj heq).1.symm (hsent b)
    · exact h.inOrder b pre hsuffix
  acked := by
    intro b rack hb
    rcases List.mem_cons.mp hb with hb | hb
    · exact hacked b rack hb.symm
    · exact h.acked b rack hb
  last := by
    intro f pre hsuffix
    rcases List.suffix_cons_iff.mp hsuffix with heq | hsuffix
    · exact absurd (List.cons.inj heq).1.symm (hsent f)
    · exact h.last f pre hsuffix

theorem LogOk.resent {log : List Event} (h : LogOk log) (t : Tdata) : LogOk (.resent t :: log) :=
  h.cons nofun h.numbered nofun

theorem LogOk.final {log : List Event} (h : LogOk log) {t : Tdata} (hfinal : t.reliable = false) :
    LogOk (.given t :: log) := by
  refine h.cons nofun ?_ nofun
  have hsame : provisional (.given t :: log) = provisional log := by
    rw [provisional_cons_given, hfinal]
    rfl
  rw [Numbered, hsame]
  exact h.numbered

theorem LogOk.given {log : List Event} (h : LogOk log) {t : Tdata} {n : Nat} (hrseq : t.rseq = some n)
    (hreliable : t.reliable = true)
    (hnext : ∀ a ∈ (provisional log).head?, ∃ m, a.rseq = some m ∧ n = (m + 1) % 0x100000000) :
    LogOk (.given t :: log) := by
  refine h.cons nofun ?_ nofun
  have hcons : provisional (.given t :: log) = t :: provisional log := by
    rw [provisional_cons_given, hreliable]
    rfl
  obtain ⟨hsome, hchain⟩ := h.numbered
  rw [Numbered, hcons]
  refine ⟨List.forall_mem_cons.mpr ⟨by rw [hrseq]; exact Option.some_ne_none n, hsome⟩, ?_⟩
  cases hlog : provisional log with
  | nil => exact .singleton t
  | cons a rest =>
    rw [hlog] at hchain hnext
    obtain ⟨m, hm, rfl⟩ := hnext a rfl
    refine List.isChain_cons_cons.mpr ⟨?_, hchain⟩
    rw [hrseq, hm]
    rfl

theorem LogOk.ack {log : List Event} (h : LogOk log) {t : Tdata} {rack : Bytes}
    (hrack : t.reliable = true → ∃ n, t.rseq = some n ∧ rackNumbers rack = (n, t.cseq)) : LogOk (.acked t rack :: log) := by
  refine h.cons nofun h.numbered fun t' rack' he => ?_
  obtain ⟨rfl, rfl⟩ := Event.acked.inj he
  exact hrack

/-! The invariant. -/

/-- While the transaction is open: what was given is what was acknowledged and what is in the list, and of the list only the
head was transmitted. -/
structure Ready (list : List TxData) (log : List Event) : Prop where
  given : provisional log = ((list.map (·.tdata)).filter Tdata.reliable).reverse ++ ackedOf log
  sent : ∀ t, .sent t ∈ log → t.reliable = true → t ∈ ackedOf log ∨ ∃ tl ∈ list.head?, tl.tdata = t

def Entry (u : UasState) (tl : TxData) : Prop :=
  tl.tdata.reliable = true ∧ tl.tdata.rseq = some tl.rseq ∧ tl.tdata.cseq = u.cseq ∨ 200 ≤ tl.tdata.code

structure UasOk (u : UasState) (log : List Event) : Prop where
  next : ∀ t ∈ (provisional log).head?, ∃ n, t.rseq = some n ∧ u.rseq = (n + 1) % 0x100000000
  entries : ∀ tl ∈ u.txDataList, Entry u tl

structure Inv (s : State) : Prop where
  log : LogOk s.log
  uas : ∀ u ∈ s.uasState, UasOk u s.log
  unused : s.uasState = none → provisional s.log = []
  ready : Open s → Ready s.list s.log
  head : ∀ tl ∈ s.list.head?, tl.tdata.code < 200

theorem UasOk.of_eq {u u' : UasState} {log log' : List Event} (h : UasOk u log) (hrseq : u'.rseq = u.rseq)
    (hcseq : u'.cseq = u.cseq) (hgiven : provisional log' = provisional log)
    (hlist : ∀ tl ∈ u'.txDataList, tl ∈ u.txDataList) : UasOk u' log' where
  next := by
    rw [hgiven, hrseq]
    exact h.next
  entries := by
    intro tl htl
    rcases h.entries tl (hlist tl htl) with ⟨hreliable, hnumber, hc⟩ | hfinal
    · exact .inl ⟨hreliable, hnumber, hc.trans hcseq.symm⟩
    · exact .inr hfinal

theorem reliable_lt {t : Tdata} (h : t.reliable = true) : t.code < 200 := by
  rw [Tdata.reliable, Bool.and_eq_true, decide_eq_true_iff, decide_eq_true_iff] at h
  exact h.2

theorem not_reliable {t : Tdata} (h : 200 ≤ t.code) : t.reliable = false := by
  refine Bool.eq_false_iff.mpr fun hreliable => ?_
  exact absurd (reliable_lt hreliable) (Nat.not_lt.mpr h)

theorem timedOut_code (tsx : Tsx) : (timedOut tsx).code = 504 := rfl

theorem Entry.reliable {u : UasState} {tl : TxData} (h : Entry u tl) (hcode : tl.tdata.code < 200) :
    tl.tdata.reliable = true ∧ tl.tdata.rseq = some tl.rseq ∧ tl.tdata.cseq = u.cseq := by
  rcases h with h | h
  · exact h
  · exact absurd hcode (Nat.not_lt.mpr h)

theorem Ready.head {tl : TxData} {rest : List TxData} {log : List Event} (h : Ready (tl :: rest) log)
    (hreliable : tl.tdata.reliable = true) : ∃ later, provisional log = later ++ tl.tdata :: ackedOf log := by
  refine ⟨((rest.map (·.tdata)).filter Tdata.reliable).reverse, ?_⟩
  rw [h.given, List.map_cons, List.filter_cons_of_pos hreliable, List.reverse_cons, List.append_assoc]
  rfl

/-- Before a 2xx response nothing with a body waits for its PRACK. -/
theorem Ready.acked {list : List TxData} {log : List Event} (h : Ready list log)
    (hhead : ∀ tl ∈ list.head?, tl.tdata.reliable = true → tl.tdata.body = false) {t : Tdata} (hsent : .sent t ∈ log)
    (hreliable : t.reliable = true) (hbody : t.body = true) : t ∈ ackedOf log := by
  rcases h.sent t hsent hreliable with hacked | ⟨tl, htl, rfl⟩
  · exact hacked
  · rw [hhead tl htl hreliable] at hbody
    cases hbody

theorem Ready.transmit {list : List TxData} {log : List Event} (h : Ready list log) {t : Tdata}
    (hhead : t.reliable = true → ∃ tl ∈ list.head?, tl.tdata = t) : Ready list (.sent t :: log) where
  given := h.given
  sent := by
    intro a ha hreliable
    rcases List.mem_cons.mp ha with ha | ha
    · obtain rfl := Event.sent.inj ha
      exact .inr (hhead hreliable)
    · exact h.sent a ha hreliable

theorem Ready.resent {list : List TxData} {log : List Event} (h : Ready list log) (t : Tdata) :
    Ready list (.resent t :: log) where
  given := h.given
  sent := by
    intro a ha
    rcases List.mem_cons.mp ha with ha | ha
    · cases ha
    · exact h.sent a ha

/-- The response at the head is acknowledged. -/
theorem Ready.ack {tl : TxData} {rest : List TxData} {log : List Event} (h : Ready (tl :: rest) log)
    (hreliable : tl.tdata.reliable = true) (rack : Bytes) : Ready rest (.acked tl.tdata rack :: log) where
  given := by
    obtain hgiven := h.given
    rw [List.map_cons, List.filter_cons_of_pos hreliable, List.reverse_cons, List.append_assoc] at hgiven
    exact hgiven
  sent := by
    intro a ha hrel
    rcases List.mem_cons.mp ha with ha | ha
    · cases ha
    · refine .inl ?_
      rcases h.sent a ha hrel with hacked | ⟨b, hb, rfl⟩
      · exact List.mem_cons_of_mem _ hacked
      · obtain rfl := Option.some.inj hb
        exact List.mem_cons_self

theorem Ready.given_append {list : List TxData} {log : List Event} (h : Ready list log) (tl : TxData) :
    Ready (list ++ [tl]) (.given tl.tdata :: log) where
  given := by
    rw [provisional_cons_given, List.map_append, List.filter_append, List.reverse_append, h.given]
    by_cases hreliable : tl.tdata.reliable = true
    · rw [if_pos hreliable, List.map_singleton, List.filter_cons_of_pos hreliable]
      rfl
    · rw [if_neg hreliable, List.map_singleton, List.filter_cons_of_neg hreliable]
      rfl
  sent := by
    intro a ha hreliable
    rcases List.mem_cons.mp ha with ha | ha
    · cases ha
    · rcases h.sent a ha hreliable with hacked | ⟨b, hb, rfl⟩
      · exact .inl hacked
      · exact .inr ⟨b, by rw [List.head?_append, hb]; rfl, rfl⟩

theorem Ready.given_final {list : List TxData} {log : List Event} (h : Ready list log) {t : Tdata}
    (hfinal : t.reliable = false) : Ready list (.given t :: log) where
  given := by
    rw [provisional_cons_given, hfinal]
    exact h.given
  sent := by
    intro a ha
    rcases List.mem_cons.mp ha with ha | ha
    · cases ha
    · exact h.sent a ha

/-- `on_retransmit` keeps the order, when a final response at the head goes out and the 504 response is made. -/
theorem Inv.retransmits {s s' : State} {u : UasState} {io : Io} (h : Retransmits s u io s') (hlog : LogOk s.log)
    (huas : UasOk u s.log) (hready : Open s → Ready u.txDataList s.log) (hhead : ∀ tl ∈ u.txDataList.head?,
      tl.tdata.code < 200 ∨ u.retransmitCount = 0 ∧ (s.inviteTsx = none ∨ Open s ∧ io.takes = true))
    (hgive : Open s → 6 ≤ u.retransmitCount → io.takes = true ∧ io.endsSession = true ∧ s.established = false) :
    Inv s' := by
  cases h with
  | gone hgone =>
    refine ⟨hlog, fun v hv => ?_, fun hnone => (Option.some_ne_none _ hnone).elim, fun hopen => ?_, fun tl htl => ?_⟩
    · obtain rfl := Option.some.inj hv
      exact huas.of_eq rfl rfl rfl nofun
    · obtain ⟨tsx, htsx, -⟩ := hopen
      rw [hgone] at htsx
      cases htsx
    · cases htl
  | rejects tsx htsx hcount hopen hends htakes hnew =>
    refine ⟨hlog.sent nofun (fun h => by rw [timedOut_code] at h; omega), fun v hv => ?_,
      fun hnone => (Option.some_ne_none _ hnone).elim, fun hopen' => ?_, fun tl htl => ?_⟩
    · obtain rfl := Option.some.inj hv
      exact huas.of_eq rfl rfl rfl nofun
    · obtain ⟨-, hcode⟩ := open_transmitted.mp hopen'
      rw [timedOut_code] at hcode
      omega
    · cases htl
  | givesUp hcount htsx hnot =>
    refine ⟨hlog, fun v hv => ?_, fun hnone => (Option.some_ne_none _ hnone).elim, fun hopen => ?_, fun tl htl => ?_⟩
    · obtain rfl := Option.some.inj hv
      exact huas.of_eq rfl rfl rfl nofun
    · exact absurd ⟨hopen, hgive hopen hcount⟩ hnot
    · cases htl
  | empty hcount htsx hlist =>
    refine ⟨hlog, fun v hv => ?_, fun hnone => (Option.some_ne_none _ hnone).elim, hready, fun tl htl => ?_⟩
    · obtain rfl := Option.some.inj hv
      exact huas.of_eq rfl rfl rfl fun tl htl => htl
    · change tl ∈ u.txDataList.head? at htl
      rw [hlist] at htl
      cases htl
  | first tl rest hlist hcount hopen htakes =>
    have hr := hready hopen
    rw [hlist] at hr
    have hentry := huas.entries tl (by rw [hlist]; exact List.mem_cons_self)
    refine ⟨hlog.sent hr.head (fun hsuccess a ha => hr.acked (fun b hb hreliable => ?_) ha), fun v hv => ?_,
      fun hnone => (Option.some_ne_none _ hnone).elim, fun hopen' => ?_, fun b hb => ?_⟩
    · obtain rfl := Option.some.inj hb
      have := reliable_lt hreliable
      omega
    · obtain rfl := Option.some.inj hv
      refine huas.of_eq rfl rfl rfl fun b hb => ?_
      dsimp only at hb
      split at hb
      · cases hb
      · rw [hlist]
        exact hb
    · obtain ⟨-, hcode⟩ := open_transmitted.mp hopen'
      change Ready (if 200 ≤ tl.tdata.code then [] else tl :: rest) (.sent tl.tdata :: s.log)
      rw [if_neg (Nat.not_le.mpr hcode)]
      exact hr.transmit fun _ => ⟨tl, rfl, rfl⟩
    · change b ∈ (if 200 ≤ tl.tdata.code then [] else tl :: rest).head? at hb
      split at hb
      · cases hb
      · next hcode =>
        obtain rfl := Option.some.inj hb
        exact Nat.not_le.mp hcode
  | fails tl rest hlist hcount htsx hnot =>
    refine ⟨hlog, fun v hv => ?_, fun hnone => (Option.some_ne_none _ hnone).elim, hready, fun b hb => ?_⟩
    · obtain rfl := Option.some.inj hv
      exact huas.of_eq rfl rfl rfl fun b hb => hb
    · rcases hhead b hb with hcode | ⟨-, hgone | hgoes⟩
      · exact hcode
      · exact absurd hgone htsx
      · exact absurd hgoes hnot
  | again tl rest hlist hcount hless htsx =>
    have hcode : tl.tdata.code < 200 := by
      rcases hhead tl (by rw [hlist]; rfl) with hcode | ⟨hzero, -⟩
      · exact hcode
      · omega
    have hstays : (if 200 ≤ tl.tdata.code then [] else tl :: rest) = u.txDataList := by
      rw [if_neg (Nat.not_le.mpr hcode), hlist]
    rw [hstays]
    refine ⟨hlog.resent tl.tdata, fun v hv => ?_, fun hnone => (Option.some_ne_none _ hnone).elim,
      fun hopen => (hready hopen).resent tl.tdata, fun b hb => ?_⟩
    · obtain rfl := Option.some.inj hv
      exact huas.of_eq rfl rfl rfl fun b hb => hb
    · change b ∈ u.txDataList.head? at hb
      rw [hlist] at hb
      obtain rfl := Option.some.inj hb
      exact hcode

/-! One step. -/

/-- A final response that is sent at once, so that the list is dropped. -/
def Drops (s : State) (t : Tdata) : Prop :=
  200 ≤ t.code ∧ s.list ≠ [] ∧ (t.code / 100 = 2 → ∀ u ∈ s.uasState, u.hasSdp = false) ∧
    (300 ≤ t.code → s.timer = true)

/-- One INVITE transaction. A provisional response has the CSeq of the first one, the transaction takes the final responses
for which the list is dropped or which come next, RAck numbers have 32 bits, and a 504 response is made and taken. -/
def Meant (s : State) : Action → Prop
  | .invite _ => False
  | .tsxGone => True
  | .txResponse t _ io =>
    (t.reliable = true → ∀ u ∈ s.uasState, t.cseq = u.cseq) ∧ (Drops s t → Open s → io.takes = true)
  | .rxPrack rack io =>
    (∀ r ∈ rack, (rackNumbers r).1 < 0x100000000 ∧ (rackNumbers r).2 < 0x100000000) ∧
      ∀ next ∈ s.list.tail.head?, 200 ≤ next.tdata.code → s.inviteTsx = none ∨ Open s ∧ io.takes = true
  | .timeout io =>
    Open s → (∀ u ∈ s.uasState, 6 ≤ u.retransmitCount) →
      io.takes = true ∧ io.endsSession = true ∧ s.established = false

theorem provisional_given_final {t : Tdata} (hfinal : t.reliable = false) (log : List Event) :
    provisional (.given t :: log) = provisional log := by
  rw [provisional_cons_given, hfinal]
  rfl

/-- A message that is not a provisional response of this module. -/
theorem Inv.sends {s s' : State} {t : Tdata} {io : Io} (h : Inv s) (hreliable : t.reliable = false)
    (hlast : Open s → t.code / 100 = 2 → ∀ a, .sent a ∈ s.log → a.reliable = true → a.body = true → a ∈ ackedOf s.log)
    (hsends : Sends s t io s') : Inv s' := by
  rcases hsends with ⟨hopen, -, rfl⟩ | ⟨-, rfl⟩
  · refine ⟨h.log.sent (fun hrel => ?_) (hlast hopen), fun u hu => (h.uas u hu).of_eq rfl rfl rfl fun tl htl => htl,
      h.unused, fun _ => (h.ready hopen).transmit fun hrel => ?_, h.head⟩
    · rw [hreliable] at hrel
      cases hrel
    · rw [hreliable] at hrel
      cases hrel
  · exact h

theorem list_uasFor (s : State) (t : Tdata) (rand : Nat) : (s.uasFor t rand).txDataList = s.list := by
  unfold State.uasFor State.list
  cases s.uasState with
  | none => rfl
  | some u => rfl

theorem Inv.uasFor {s : State} (h : Inv s) (t : Tdata) (rand : Nat) : UasOk (s.uasFor t rand) s.log := by
  unfold State.uasFor
  cases hu : s.uasState with
  | none =>
    refine ⟨fun a ha => ?_, nofun⟩
    rw [h.unused hu] at ha
    cases ha
  | some u => exact h.uas u hu

theorem UasOk.push {u : UasState} {log : List Event} (h : UasOk u log) {t : Tdata} (hreliable : t.reliable = true)
    (hcseq : t.cseq = u.cseq) : UasOk (u.push t) (.given (u.number t) :: log) where
  next := by
    intro a ha
    rw [provisional_cons_given, if_pos (show (u.number t).reliable = true from hreliable)] at ha
    obtain rfl := Option.some.inj ha
    exact ⟨u.rseq, rfl, rfl⟩
  entries := by
    intro tl htl
    rcases List.mem_append.mp htl with htl | htl
    · exact h.entries tl htl
    · obtain rfl := List.mem_singleton.mp htl
      exact .inl ⟨hreliable, rfl, hcseq⟩

theorem LogOk.push {u : UasState} {log : List Event} (h : LogOk log) (huas : UasOk u log) {t : Tdata}
    (hreliable : t.reliable = true) : LogOk (.given (u.number t) :: log) :=
  h.given rfl hreliable huas.next

theorem prack_numbers {u : UasState} {tl : TxData} {rack : Bytes}
    (hsmall : (rackNumbers rack).1 < 0x100000000 ∧ (rackNumbers rack).2 < 0x100000000) (hmatch : PrackFor u tl rack) :
    rackNumbers rack = (tl.rseq, u.cseq) := by
  obtain ⟨hfirst, hsecond⟩ := parseRack_eq hsmall
  exact Prod.ext (hfirst.symm.trans hmatch.1) (hsecond.symm.trans hmatch.2)

theorem LogOk.pop {u : UasState} {tl : TxData} {log : List Event} {rack : Bytes} (h : LogOk log) (hentry : Entry u tl)
    (hcode : tl.tdata.code < 200)
    (hsmall : (rackNumbers rack).1 < 0x100000000 ∧ (rackNumbers rack).2 < 0x100000000) (hmatch : PrackFor u tl rack) :
    LogOk (.acked tl.tdata rack :: log) := by
  obtain ⟨-, hrseq, hcseq⟩ := hentry.reliable hcode
  refine h.ack fun _ => ⟨tl.rseq, hrseq, ?_⟩
  rw [prack_numbers hsmall hmatch, hcseq]

theorem list_of_some {s : State} {u : UasState} (hu : s.uasState = some u) : s.list = u.txDataList := by
  rw [State.list, hu]
  rfl

theorem Inv.final {s s' : State} {t : Tdata} {io : Io} {uas : Option UasState} (h : Inv s) (hcode : 200 ≤ t.code)
    (htakes : Drops s t → Open s → io.takes = true)
    (huas : uas = s.uasState.map UasState.cancel ∧ (t.code / 100 = 2 → ∀ u ∈ s.uasState, u.hasSdp = false) ∧
        (300 ≤ t.code → s.list = [] ∨ s.timer = true) ∨ uas = s.uasState ∧ 300 ≤ t.code ∧ s.timer = false)
    (hsends : Sends { s with uasState := uas, log := .given t.plain :: s.log } t.plain io s') : Inv s' := by
  have hfinal : t.plain.reliable = false := not_reliable hcode
  have hsame : ∀ v ∈ uas, UasOk v (.given t.plain :: s.log) := by
    intro v hv
    rcases huas with ⟨rfl, -, -⟩ | ⟨rfl, -, -⟩
    · obtain ⟨u, hu, rfl⟩ := Option.mem_map.mp hv
      exact (h.uas u hu).of_eq rfl rfl (provisional_given_final hfinal _) nofun
    · exact (h.uas v hv).of_eq rfl rfl (provisional_given_final hfinal _) fun tl htl => htl
  have hunused : uas = none → provisional (.given t.plain :: s.log) = [] := by
    intro hnone
    rw [provisional_given_final hfinal]
    refine h.unused ?_
    rcases huas with ⟨rfl, -, -⟩ | ⟨rfl, -, -⟩
    · exact Option.map_eq_none_iff.mp hnone
    · exact hnone
  have hlist : (uas.map (·.txDataList)).getD [] = [] ∨ (uas.map (·.txDataList)).getD [] = s.list := by
    rcases huas with ⟨rfl, -, -⟩ | ⟨rfl, -, -⟩
    · refine .inl ?_
      cases s.uasState with
      | none => rfl
      | some u => rfl
    · exact .inr rfl
  have hhead : ∀ tl ∈ ((uas.map (·.txDataList)).getD []).head?, tl.tdata.code < 200 := by
    intro tl htl
    rcases hlist with hnil | hsame
    · rw [hnil] at htl
      cases htl
    · rw [hsame] at htl
      exact h.head tl htl
  rcases hsends with ⟨hopen, -, rfl⟩ | ⟨hnot, rfl⟩
  · have hready := h.ready hopen
    refine ⟨(h.log.final hfinal).sent (fun hrel => ?_) (fun hsuccess a ha => ?_),
      fun v hv => (hsame v hv).of_eq rfl rfl rfl fun tl htl => htl, hunused, fun hopen' => ?_, hhead⟩
    · rw [hfinal] at hrel
      cases hrel
    · rcases List.mem_cons.mp ha with ha | ha
      · cases ha
      · refine hready.acked (fun tl htl _ => ?_) ha
        rcases huas with ⟨-, hsdp, -⟩ | ⟨-, hfailure, -⟩
        · cases hu : s.uasState with
          | none =>
            rw [State.list, hu] at htl
            cases htl
          | some u =>
            rw [list_of_some hu] at htl
            have hnone := List.any_eq_false.mp (hsdp hsuccess u hu) tl (List.mem_of_mem_head? htl)
            exact Bool.eq_false_iff.mpr hnone
        · change t.code / 100 = 2 at hsuccess
          omega
    · obtain ⟨-, hless⟩ := open_transmitted.mp hopen'
      exact absurd hless (Nat.not_lt.mpr hcode)
  · refine ⟨h.log.final hfinal, hsame, hunused, fun hopen => ?_, hhead⟩
    have hready := (h.ready hopen).given_final hfinal
    have hdrops : ¬ Drops s t := fun hdrops => hnot ⟨hopen, htakes hdrops hopen⟩
    rcases huas with ⟨rfl, hsdp, htimer⟩ | ⟨rfl, -, -⟩
    · have hnil : s.list = [] := by
        by_contra hne
        exact hdrops ⟨hcode, hne, hsdp, fun hfailure => (htimer hfailure).resolve_left hne⟩
      rw [hnil] at hready
      cases hu : s.uasState with
      | none => exact hready
      | some u => exact hready
    · exact hready

theorem Inv.steps {s s' : State} {a : Action} (h : Inv s) (hmeant : Meant s a) (hstep : Steps s a s') : Inv s' := by
  cases hstep with
  | invite cseq hnone => exact hmeant.elim
  | tsxGone =>
    refine ⟨h.log, h.uas, h.unused, fun hopen => ?_, h.head⟩
    obtain ⟨tsx, htsx, -⟩ := hopen
    cases htsx
  | trying t rand io s' hcode hsends =>
    refine h.sends ?_ (fun _ hsuccess => by omega) hsends
    rw [Tdata.reliable, hcode]
    rfl
  | queued t rand io u hcode hu hsdp =>
    have hfinal : t.plain.reliable = false := not_reliable (by change 200 ≤ t.code; omega)
    have hne : u.txDataList ≠ [] := by
      intro hnil
      rw [UasState.hasSdp, hnil] at hsdp
      cases hsdp
    refine ⟨h.log.final hfinal, fun v hv => ?_, fun hnone => (Option.some_ne_none _ hnone).elim, fun hopen => ?_,
      fun tl htl => ?_⟩
    · obtain rfl := Option.some.inj hv
      obtain ⟨hnext, hentries⟩ := h.uas u hu
      refine ⟨?_, fun tl htl => ?_⟩
      · rw [provisional_given_final hfinal]
        exact hnext
      · rcases List.mem_append.mp htl with htl | htl
        · exact hentries tl htl
        · obtain rfl := List.mem_singleton.mp htl
          exact .inr (by change 200 ≤ t.code; omega)
    · have hready := h.ready hopen
      rw [list_of_some hu] at hready
      exact hready.given_append _
    · change tl ∈ (u.txDataList ++ [_]).head? at htl
      rw [List.head?_append_of_ne_nil _ hne] at htl
      exact h.head tl (by rw [list_of_some hu]; exact htl)
  | final t rand io uas s' hcode huas hsends =>
    have hfinal : t.plain.reliable = false := not_reliable hcode
    exact h.final hcode hmeant.2 huas hsends
  | refused t rand io u hcode hu hcseq => exact absurd (hmeant.1 hcode u hu) hcseq
  | enqueued t rand io u hcode hu hcseq hlist =>
    have huas := h.uas u hu
    refine ⟨h.log.push huas hcode, fun v hv => ?_, fun hnone => (Option.some_ne_none _ hnone).elim, fun hopen => ?_,
      fun tl htl => ?_⟩
    · obtain rfl := Option.some.inj hv
      exact huas.push hcode hcseq
    · have hready := h.ready hopen
      rw [list_of_some hu] at hready
      exact hready.given_append ⟨u.rseq, u.number t.plain⟩
    · change tl ∈ (u.txDataList ++ [_]).head? at htl
      rw [List.head?_append_of_ne_nil _ hlist] at htl
      exact h.head tl (by rw [list_of_some hu]; exact htl)
  | alone t rand io s' hcode hcseq hlist hretransmits =>
    have huas := h.uasFor t rand
    have hone : ((s.uasFor t rand).push t.plain).txDataList =
        [⟨(s.uasFor t rand).rseq, (s.uasFor t rand).number t.plain⟩] := by
      rw [UasState.push, hlist]
      rfl
    refine Inv.retransmits hretransmits (h.log.push huas hcode)
      ((huas.push hcode hcseq).of_eq rfl rfl rfl fun tl htl => htl) (fun hopen => ?_) (fun tl htl => .inl ?_)
      fun _ hcount => absurd hcount (Nat.not_succ_le_zero 5)
    · have hready := h.ready hopen
      rw [← list_uasFor s t rand] at hready
      exact hready.given_append ⟨(s.uasFor t rand).rseq, (s.uasFor t rand).number t.plain⟩
    · dsimp only at htl
      rw [hone] at htl
      obtain rfl := Option.some.inj htl
      exact reliable_lt hcode
  | ignored rack io hnot => exact h
  | ackedLast rack io u tl hu hlist hmatch =>
    have hcode := h.head tl (by rw [list_of_some hu, hlist]; rfl)
    have hentry := (h.uas u hu).entries tl (by rw [hlist]; exact List.mem_cons_self)
    refine ⟨h.log.pop hentry hcode (hmeant.1 rack rfl) hmatch, fun v hv => ?_,
      fun hnone => (Option.some_ne_none _ hnone).elim, fun hopen => ?_, fun b hb => by cases hb⟩
    · obtain rfl := Option.some.inj hv
      exact (h.uas u hu).of_eq rfl rfl rfl fun b hb => absurd hb List.not_mem_nil
    · have hready := h.ready hopen
      rw [list_of_some hu, hlist] at hready
      exact hready.ack (hentry.reliable hcode).1 rack
  | ackedNext rack io u tl next rest s' hu hlist hmatch hretransmits =>
    have hcode := h.head tl (by rw [list_of_some hu, hlist]; rfl)
    have hentry := (h.uas u hu).entries tl (by rw [hlist]; exact List.mem_cons_self)
    refine Inv.retransmits hretransmits (h.log.pop hentry hcode (hmeant.1 rack rfl) hmatch)
      ((h.uas u hu).of_eq rfl rfl rfl fun b hb => ?_) (fun hopen => ?_) (fun b hb => ?_)
      fun _ hcount => absurd hcount (Nat.not_succ_le_zero 5)
    · rw [hlist]
      exact List.mem_cons_of_mem tl hb
    · have hready := h.ready hopen
      rw [list_of_some hu, hlist] at hready
      exact hready.ack (hentry.reliable hcode).1 rack
    · obtain rfl := Option.some.inj hb
      rcases Nat.lt_or_ge next.tdata.code 200 with hless | hfinal
      · exact .inl hless
      · exact .inr ⟨rfl, hmeant.2 next (by rw [list_of_some hu, hlist]; rfl) hfinal⟩
  | timeout io u s' hu htimer hretransmits =>
    refine Inv.retransmits hretransmits h.log (h.uas u hu) (fun hopen => ?_) (fun b hb => .inl ?_) fun hopen hcount => ?_
    · have hready := h.ready hopen
      rw [list_of_some hu] at hready
      exact hready
    · exact h.head b (by rw [list_of_some hu]; exact hb)
    · refine hmeant hopen fun v hv => ?_
      obtain rfl := Option.some.inj (hu.symm.trans hv)
      exact hcount

/-! Runs. -/

/-- An INVITE transaction that nothing was given to. -/
def Starts (s : State) : Prop := Open s ∧ s.log = [] ∧ s.list = []

theorem Inv.of_starts {s : State} (h : Starts s) : Inv s := by
  obtain ⟨-, hlog, hlist⟩ := h
  refine ⟨by rw [hlog]; exact .nil, fun u hu => ⟨fun t ht => ?_, fun tl htl => ?_⟩, fun _ => by rw [hlog]; rfl,
    fun _ => ?_, fun tl htl => ?_⟩
  · rw [hlog] at ht
    cases ht
  · rw [← list_of_some hu, hlist] at htl
    cases htl
  · rw [hlog, hlist]
    exact ⟨rfl, nofun⟩
  · rw [hlist] at htl
    cases htl

theorem Inv.run {s u : State} {acts : List Action} (hstart : Starts s) (hmeant : Meets step Meant s acts)
    (hrun : exec step s acts = some u) : Inv u :=
  exec_invariant_of_meets (fun _ _ _ h hmeant hstep => h.steps hmeant (steps_of_step hstep)) (.of_starts hstart) hmeant hrun

theorem Inv.ignores {s : State} (h : Inv s) {rack : Option Bytes}
    (hsmall : ∀ r ∈ rack, (rackNumbers r).1 < 0x100000000 ∧ (rackNumbers r).2 < 0x100000000) (hnot : ¬ Matches s rack)
    (io : Io) : step s (.rxPrack rack io) = some s := by
  have hsteps := steps_onRxPrack s rack io
  change some (onRxPrack s rack io) = some s
  generalize onRxPrack s rack io = s' at hsteps
  cases hsteps with
  | ignored => rfl
  | ackedLast r io u tl hu hlist hmatch =>
    exact absurd ⟨u, r, tl, [], hu, rfl, hlist, h.head tl (by rw [list_of_some hu, hlist]; rfl),
      prack_numbers (hsmall r rfl) hmatch⟩ hnot
  | ackedNext r io u tl next rest s' hu hlist hmatch =>
    exact absurd ⟨u, r, tl, next :: rest, hu, rfl, hlist, h.head tl (by rw [list_of_some hu, hlist]; rfl),
      prack_numbers (hsmall r rfl) hmatch⟩ hnot

/-- In every run of such steps the reliable responses go out one at a time. -/
theorem one_at_a_time_of_run {s u : State} {acts : List Action} (hstart : Starts s) (hmeant : Meets step Meant s acts)
    (hrun : exec step s acts = some u) :
    Numbered u.log ∧ OneAtATime u.log ∧ Acknowledged u.log ∧ SuccessLast u.log ∧
      ∀ rack io, (∀ r ∈ rack, (rackNumbers r).1 < 0x100000000 ∧ (rackNumbers r).2 < 0x100000000) → ¬ Matches u rack →
        step u (.rxPrack rack io) = some u := by
  have h := Inv.run hstart hmeant hrun
  exact ⟨h.log.numbered, h.log.inOrder, h.log.acked, h.log.last, fun rack io hsmall hnot => h.ignores hsmall hnot io⟩

/-- A session progress response with a description, and the 2xx response. -/
def progress : Tdata := ⟨1, 183, 1, true, none⟩

def ok : Tdata := ⟨2, 200, 1, true, none⟩

/-- Everything goes well. -/
def calm : Io := ⟨true, true⟩

/-- The first INVITE of a session, or a later one. -/
def fresh (established : Bool) : State := ⟨none, some ⟨1, false⟩, established, []⟩

theorem starts_fresh (established : Bool) : Starts (fresh established) := ⟨⟨_, rfl, rfl⟩, rfl, rfl⟩

def rackInvite : Bytes := [0x31, 0x20, 0x31, 0x20, 0x49, 0x4e, 0x56, 0x49, 0x54, 0x45]

/-- The 2xx response waits for the PRACK. -/
theorem one_at_a_time_progress : ∃ u, exec step (fresh false)
    [.txResponse progress 0 calm, .txResponse ok 0 calm, .rxPrack (some rackInvite) calm] = some u ∧ SuccessLast u.log := by
  have hmeant : Meets step Meant (fresh false)
      [.txResponse progress 0 calm, .txResponse ok 0 calm, .rxPrack (some rackInvite) calm] := by
    refine ⟨⟨fun _ _ hu => (by cases hu), fun _ _ => rfl⟩, fun t ht => ?_⟩
    obtain rfl := Option.some.inj ht
    refine ⟨⟨fun hrel => absurd hrel (by decide), fun _ _ => rfl⟩, fun t ht => ?_⟩
    obtain rfl := Option.some.inj ht
    refine ⟨⟨fun r hr => ?_, fun next _ _ => .inr ⟨⟨_, rfl, rfl⟩, rfl⟩⟩, fun t ht => trivial⟩
    obtain rfl := Option.some.inj hr
    decide
  exact ⟨_, rfl, (one_at_a_time_of_run (starts_fresh false) hmeant rfl).2.2.2.1⟩

/-- In an established session the 504 response is not made: after seven times the list is dropped, and the 2xx response is
transmitted although the response with a description is not acknowledged. -/
theorem not_one_at_a_time_established : Starts (fresh true) ∧
    ∃ u, exec step (fresh true) [.txResponse progress 0 calm, .timeout calm, .timeout calm, .timeout calm, .timeout calm,
      .timeout calm, .timeout calm, .txResponse ok 0 calm] = some u ∧ ¬ SuccessLast u.log := by
  refine ⟨starts_fresh true, _, rfl, fun h => ?_⟩
  have hacked := h ok _ (List.suffix_refl _) rfl { progress with rseq := some 1 } (by decide) rfl rfl
  exact absurd hacked (by decide)

end PjProject.Sip100rel
