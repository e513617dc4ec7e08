import PjProject.Sip100relOrder

/-! Reliable responses are kept until they are acknowledged. The head of the list was transmitted and the timer runs for it;
what was given since the INVITE was transmitted or waits behind the head. A second INVITE of the dialog, whose CSeq the UAS
does not take over, and a first transmission that fails break this. -/

namespace PjProject.Sip100rel

/-- What happened since the last INVITE, newest first. -/
def sinceInvite (log : List Event) : List Event := log.takeWhile fun e => e ≠ .invite

/-- While the transaction is open, each reliable response was transmitted or is in the list. -/
def Kept (s : State) : Prop :=
  Open s → ∀ t, .given t ∈ sinceInvite s.log → t.reliable = true →
    .sent t ∈ sinceInvite s.log ∨ ∃ tl ∈ s.list, tl.tdata = t

def Running (s : State) : Prop := s.list ≠ [] → s.timer = true

theorem sinceInvite_cons {e : Event} (h : e ≠ .invite) (log : List Event) :
    sinceInvite (e :: log) = e :: sinceInvite log := by
  unfold sinceInvite
  exact List.takeWhile_cons_of_pos (decide_eq_true h)

/-- What was given and was not transmitted is in the list. -/
def KeptIn (list : List TxData) (log : List Event) : Prop :=
  ∀ t, .given t ∈ sinceInvite log → t.reliable = true → .sent t ∈ sinceInvite log ∨ ∃ tl ∈ list, tl.tdata = t

theorem KeptIn.cons {list : List TxData} {log : List Event} (h : KeptIn list log) {e : Event} (hinvite : e ≠ .invite)
    (hgiven : ∀ t, e = .given t → t.reliable = true → ∃ tl ∈ list, tl.tdata = t) : KeptIn list (e :: log) := by
  intro t ht hreliable
  rw [sinceInvite_cons hinvite] at ht ⊢
  rcases List.mem_cons.mp ht with heq | ht
  · exact .inr (hgiven t heq.symm hreliable)
  · exact (h t ht hreliable).imp_left (List.mem_cons_of_mem e)

theorem KeptIn.sent {tl : TxData} {rest : List TxData} {log : List Event} (h : KeptIn (tl :: rest) log) :
    KeptIn rest (.sent tl.tdata :: log) := by
  intro t ht hreliable
  have hsent : Event.sent tl.tdata ≠ .invite := nofun
  rw [sinceInvite_cons hsent] at ht ⊢
  rcases List.mem_cons.mp ht with heq | ht
  · cases heq
  · rcases h t ht hreliable with hsent | ⟨b, hb, rfl⟩
    · exact .inl (List.mem_cons_of_mem _ hsent)
    · rcases List.mem_cons.mp hb with rfl | hb
      · exact .inl List.mem_cons_self
      · exact .inr ⟨b, hb, rfl⟩

theorem KeptIn.mono {list list' : List TxData} {log : List Event} (h : KeptIn list log)
    (hsub : ∀ tl ∈ list, tl ∈ list') : KeptIn list' log := by
  intro t ht hreliable
  refine (h t ht hreliable).imp_right ?_
  rintro ⟨tl, htl, rfl⟩
  exact ⟨tl, hsub tl htl, rfl⟩

/-- The responses that were not transmitted. -/
def UasState.waiting (u : UasState) : List TxData :=
  if u.retransmitCount = 0 then u.txDataList else u.txDataList.tail

/-- The head of the list was transmitted, and the timer runs. -/
structure Live (s : State) : Prop where
  kept : Open s → KeptIn s.list.tail s.log
  timer : s.list ≠ [] → s.timer = true
  takes : s.list ≠ [] → s.inviteTsx = none ∨ Open s
  head : ∀ tl ∈ s.list.head?, tl.tdata.code < 200
  count : ∀ u ∈ s.uasState, u.txDataList ≠ [] → 0 < u.retransmitCount ∧ u.retransmitCount ≤ 6

theorem timer_of_some {s : State} {u : UasState} (hu : s.uasState = some u) : s.timer = u.retransmitTimer := by
  rw [State.timer, hu]
  rfl

theorem Live.nothing_lost {s : State} (h : Live s) : Kept s ∧ Running s := by
  refine ⟨fun hopen t ht hreliable => ?_, h.timer⟩
  refine (h.kept hopen t ht hreliable).imp_right ?_
  rintro ⟨tl, htl, rfl⟩
  exact ⟨tl, List.mem_of_mem_tail htl, rfl⟩

theorem Live.of_nil {s : State} (hlist : s.list = []) (hkept : Open s → KeptIn [] s.log) : Live s where
  kept := by
    rw [hlist]
    exact hkept
  timer := fun hne => absurd hlist hne
  takes := fun hne => absurd hlist hne
  head := by
    rw [hlist]
    intro tl htl
    cases htl
  count := by
    intro u hu hne
    rw [← list_of_some hu] at hne
    exact absurd hlist hne

theorem Live.of_cons {s : State} {u : UasState} {tl : TxData} {rest : List TxData} (hu : s.uasState = some u)
    (hlist : u.txDataList = tl :: rest) (hkept : Open s → KeptIn rest s.log) (htimer : u.retransmitTimer = true)
    (htakes : s.inviteTsx = none ∨ Open s) (hcode : tl.tdata.code < 200)
    (hcount : 0 < u.retransmitCount ∧ u.retransmitCount ≤ 6) : Live s where
  kept := by
    rw [list_of_some hu, hlist]
    exact hkept
  timer := by
    rw [timer_of_some hu]
    exact fun _ => htimer
  takes := fun _ => htakes
  head := by
    rw [list_of_some hu, hlist]
    intro b hb
    obtain rfl := Option.some.inj hb
    exact hcode
  count := by
    intro v hv _
    obtain rfl := Option.some.inj (hu.symm.trans hv)
    exact hcount

/-- `on_retransmit` keeps what waits, when a first transmission goes out and the 504 response is made where something is
lost without it. -/
theorem Live.retransmits {s s' : State} {u : UasState} {io : Io} (h : Retransmits s u io s')
    (hkept : Open s → KeptIn u.waiting s.log)
    (hgoes : u.retransmitCount = 0 → u.txDataList ≠ [] → s.inviteTsx = none ∨ Open s ∧ io.takes = true)
    (hopens : u.txDataList ≠ [] → s.inviteTsx = none ∨ Open s)
    (hhead : u.retransmitCount ≠ 0 → ∀ tl ∈ u.txDataList.head?, tl.tdata.code < 200)
    (hgive : 6 ≤ u.retransmitCount → u.txDataList.tail ≠ [] → Open s →
      io.takes = true ∧ io.endsSession = true ∧ s.established = false) : Live s' := by
  cases h with
  | gone hgone =>
    refine .of_nil rfl fun hopen => ?_
    obtain ⟨tsx, htsx, -⟩ := hopen
    rw [hgone] at htsx
    cases htsx
  | rejects tsx htsx hcount hopen hends htakes hnew =>
    refine .of_nil rfl fun hopen' => ?_
    obtain ⟨-, hcode⟩ := open_transmitted.mp hopen'
    rw [timedOut_code] at hcode
    omega
  | givesUp hcount htsx hnot =>
    refine .of_nil rfl fun hopen => ?_
    have htail : u.txDataList.tail = [] := by
      by_contra hne
      exact hnot ⟨hopen, hgive hcount hne hopen⟩
    have hwaits := hkept hopen
    rw [UasState.waiting, if_neg (by omega), htail] at hwaits
    exact hwaits
  | empty hcount htsx hlist =>
    refine .of_nil hlist fun hopen => ?_
    have hwaits := hkept hopen
    rw [UasState.waiting, hlist] at hwaits
    exact hwaits.mono fun tl htl => by rw [List.tail_nil, ite_self] at htl; exact htl
  | first tl rest hlist hcount hopen htakes =>
    have hwaits := hkept hopen
    rw [UasState.waiting, if_pos hcount, hlist] at hwaits
    by_cases hfinal : 200 ≤ tl.tdata.code
    · rw [if_pos hfinal]
      refine .of_nil rfl fun hopen' => ?_
      exact absurd (open_transmitted.mp hopen').2 (Nat.not_lt.mpr hfinal)
    · have hcode : tl.tdata.code < 200 := Nat.not_le.mp hfinal
      rw [if_neg hfinal, decide_eq_false hfinal]
      refine .of_cons rfl rfl (fun _ => hwaits.sent) rfl (.inr ?_) hcode ⟨Nat.one_pos, Nat.le_add_left 1 5⟩
      obtain ⟨tsx, htsx, -⟩ := hopen
      refine open_transmitted.mpr ⟨?_, hcode⟩
      rw [htsx]
      exact Option.some_ne_none tsx
  | fails tl rest hlist hcount htsx hnot =>
    rcases hgoes hcount (by rw [hlist]; exact List.cons_ne_nil tl rest) with hgone | hgoes
    · exact absurd hgone htsx
    · exact absurd hgoes hnot
  | again tl rest hlist hcount hless htsx =>
    have hcode : tl.tdata.code < 200 := hhead (by omega) tl (by rw [hlist]; rfl)
    have hfinal : ¬ 200 ≤ tl.tdata.code := Nat.not_le.mpr hcode
    rw [if_neg hfinal, decide_eq_false hfinal]
    refine .of_cons rfl rfl (fun hopen => ?_) rfl (hopens (by rw [hlist]; exact List.cons_ne_nil tl rest)) hcode
      ⟨Nat.succ_pos _, hless⟩
    have hwaits := hkept hopen
    rw [UasState.waiting, if_neg (by omega), hlist] at hwaits
    exact hwaits.cons (fun h => by cases h) fun t h => by cases h

/-! One step. -/

/-- A provisional response has the CSeq of the UAS, and a first transmission goes out. Where more than the head is in the
list, a final response that drops the list goes out, and so does the 504 response. -/
def Safe (s : State) : Action → Prop
  | .invite _ => True
  | .tsxGone => True
  | .txResponse t _ io =>
    (t.reliable = true → (∀ u ∈ s.uasState, t.cseq = u.cseq) ∧ (s.list = [] → Open s ∧ io.takes = true)) ∧
      (Drops s t → 2 ≤ s.list.length → Open s → io.takes = true)
  | .rxPrack _ io => 2 ≤ s.list.length → Open s → io.takes = true
  | .timeout io =>
    2 ≤ s.list.length → Open s → (∀ u ∈ s.uasState, 6 ≤ u.retransmitCount) →
      io.takes = true ∧ io.endsSession = true ∧ s.established = false

theorem length_of_tail_ne_nil {α : Type*} {l : List α} (h : l.tail ≠ []) : 2 ≤ l.length := by
  match l, h with
  | [], h => exact absurd rfl h
  | [a], h => exact absurd rfl h
  | a :: b :: rest, _ => exact Nat.le_add_left 2 _

/-- A message that is not a provisional response of this module, sent outside of the list. -/
theorem Live.sends {s s' : State} {t : Tdata} {io : Io} (h : Live s) (hopen : s.list ≠ [] → t.code < 200)
    (hsends : Sends s t io s') : Live s' := by
  rcases hsends with ⟨hs, -, rfl⟩ | ⟨-, rfl⟩
  · have hkept := (h.kept hs).cons (e := .sent t) (fun h => by cases h) fun t h => by cases h
    refine ⟨fun _ => hkept, h.timer, fun hne => .inr ?_, h.head, h.count⟩
    obtain ⟨tsx, htsx, -⟩ := hs
    refine open_transmitted.mpr ⟨?_, hopen hne⟩
    rw [htsx]
    exact Option.some_ne_none tsx
  · exact h

/-- One more response waits behind the head. -/
theorem Live.append {s : State} {u u' : UasState} (h : Live s) (tl : TxData) (hu : s.uasState = some u)
    (hne : u.txDataList ≠ []) (hlist : u'.txDataList = u.txDataList ++ [tl])
    (htimer : u'.retransmitTimer = u.retransmitTimer) (hcount : u'.retransmitCount = u.retransmitCount) :
    Live { s with uasState := some u', log := .given tl.tdata :: s.log } := by
  have hhead := h.head
  have htakes := h.takes
  have hruns := h.timer
  have hkept := h.kept
  rw [list_of_some hu] at hhead htakes hruns hkept
  rw [timer_of_some hu] at hruns
  cases hold : u.txDataList with
  | nil => exact absurd hold hne
  | cons first rest =>
    rw [hold] at hlist hhead htakes hruns hkept
    refine .of_cons rfl hlist (fun hopen => ?_) (htimer.trans (hruns (List.cons_ne_nil first rest)))
      (htakes (List.cons_ne_nil first rest)) (hhead first rfl) (hcount ▸ h.count u hu hne)
    refine ((hkept hopen).mono fun b hb => List.mem_append_left [tl] hb).cons nofun fun t ht _ => ?_
    obtain rfl := Event.given.inj ht
    exact ⟨tl, List.mem_append_right rest (List.mem_singleton_self tl), rfl⟩

theorem Live.final {s s' : State} {t : Tdata} {io : Io} {uas : Option UasState} (h : Live s) (hcode : 200 ≤ t.code)
    (htakes : Drops s t → 2 ≤ s.list.length → Open s → io.takes = true)
    (huas : uas = s.uasState.map UasState.cancel ∧ (t.code / 100 = 2 → ∀ u ∈ s.uasState, u.hasSdp = false) ∧
        (300 ≤ t.code → s.list = [] ∨ s.timer = true) ∨ uas = s.uasState ∧ 300 ≤ t.code ∧ s.timer = false)
    (hsends : Sends { s with uasState := uas, log := .given t.plain :: s.log } t.plain io s') : Live s' := by
  have hnil : (uas.map (·.txDataList)).getD [] = [] := by
    rcases huas with ⟨rfl, -, -⟩ | ⟨rfl, -, hoff⟩
    · cases s.uasState with
      | none => rfl
      | some u => rfl
    · by_contra hne
      rw [h.timer hne] at hoff
      cases hoff
  rcases hsends with ⟨-, -, rfl⟩ | ⟨hnot, rfl⟩
  · refine .of_nil hnil fun hopen => ?_
    exact absurd (open_transmitted.mp hopen).2 (Nat.not_lt.mpr hcode)
  · refine .of_nil hnil fun hopen => ?_
    have htail : s.list.tail = [] := by
      by_contra hne
      have hlen := length_of_tail_ne_nil hne
      have hfull : s.list ≠ [] := fun h => by rw [h] at hlen; exact absurd hlen (by decide)
      rcases huas with ⟨rfl, hsdp, htimer⟩ | ⟨rfl, -, hoff⟩
      · exact hnot ⟨hopen, htakes ⟨hcode, hfull, hsdp, fun hfailure => (htimer hfailure).resolve_left hfull⟩ hlen hopen⟩
      · rw [h.timer hfull] at hoff
        cases hoff
    have hkept := h.kept hopen
    rw [htail] at hkept
    refine hkept.cons nofun fun a ha hreliable => ?_
    obtain rfl := Event.given.inj ha
    exact absurd (reliable_lt hreliable) (Nat.not_lt.mpr hcode)

theorem Live.steps {s s' : State} {a : Action} (h : Live s) (hsafe : Safe s a) (hstep : Steps s a s') : Live s' := by
  cases hstep with
  | invite cseq hnone =>
    refine ⟨fun _ t ht => ?_, h.timer, fun _ => .inr ⟨_, rfl, rfl⟩, h.head, h.count⟩
    exact absurd ht List.not_mem_nil
  | tsxGone =>
    refine ⟨fun hopen => ?_, h.timer, fun _ => .inl rfl, h.head, h.count⟩
    obtain ⟨tsx, htsx, -⟩ := hopen
    cases htsx
  | trying t rand io s' hcode hsends => exact h.sends (fun _ => by omega) hsends
  | queued t rand io u hcode hu hsdp =>
    have hne : u.txDataList ≠ [] := by
      intro hnil
      rw [UasState.hasSdp, hnil] at hsdp
      cases hsdp
    exact h.append ⟨0xFFFFFFFF, t.plain⟩ hu hne rfl rfl rfl
  | final t rand io uas s' hcode huas hsends => exact h.final hcode hsafe.2 huas hsends
  | refused t rand io u hcode hu hcseq => exact absurd ((hsafe.1 hcode).1 u hu) hcseq
  | enqueued t rand io u hcode hu hcseq hlist => exact h.append ⟨u.rseq, u.number t.plain⟩ hu hlist rfl rfl rfl
  | alone t rand io s' hcode hcseq hlist hretransmits =>
    have hgoes := (hsafe.1 hcode).2 (by rw [← list_uasFor s t rand]; exact hlist)
    have hone : ((s.uasFor t rand).push t.plain).txDataList =
        [⟨(s.uasFor t rand).rseq, (s.uasFor t rand).number t.plain⟩] := by
      rw [UasState.push, hlist]
      rfl
    refine Live.retransmits hretransmits (fun hopen => ?_) (fun _ _ => .inr hgoes) (fun _ => .inr hgoes.1)
      (fun hcount => absurd rfl hcount) fun hcount => absurd hcount (Nat.not_succ_le_zero 5)
    rw [UasState.waiting, if_pos rfl]
    dsimp only
    rw [hone]
    have hkept := h.kept hopen
    rw [← list_uasFor s t rand, hlist] at hkept
    refine (hkept.mono fun b hb => absurd hb List.not_mem_nil).cons (fun h => by cases h) fun a ha _ => ?_
    obtain rfl := Event.given.inj ha
    exact ⟨_, List.mem_singleton_self _, rfl⟩
  | ignored rack io hnot => exact h
  | ackedLast rack io u tl hu hlist hmatch =>
    refine .of_nil rfl fun hopen => ?_
    have hkept := h.kept hopen
    rw [list_of_some hu, hlist] at hkept
    exact hkept.cons (fun h => by cases h) fun t ht => by cases ht
  | ackedNext rack io u tl next rest s' hu hlist hmatch hretransmits =>
    have hfull : s.list = tl :: next :: rest := (list_of_some hu).trans hlist
    have hopens := h.takes (by rw [hfull]; exact List.cons_ne_nil _ _)
    have hlen : 2 ≤ s.list.length := by
      rw [hfull]
      exact Nat.le_add_left 2 _
    refine Live.retransmits hretransmits (fun hopen => ?_)
      (fun _ _ => hopens.imp_right fun hopen => ⟨hopen, hsafe hlen hopen⟩) (fun _ => hopens)
      (fun hcount => absurd rfl hcount) fun hcount => absurd hcount (Nat.not_succ_le_zero 5)
    have hkept := h.kept hopen
    rw [hfull] at hkept
    have hzero : (u.pop (next :: rest)).retransmitCount = 0 := rfl
    rw [UasState.waiting, if_pos hzero]
    exact hkept.cons (fun h => by cases h) fun t ht => by cases ht
  | timeout io u s' hu htimer hretransmits =>
    have hfull := list_of_some hu
    refine Live.retransmits hretransmits (fun hopen => ?_) (fun hzero hne => ?_) (fun hne => h.takes (hfull ▸ hne))
      (fun _ tl htl => h.head tl (hfull ▸ htl)) fun hcount htail hopen => ?_
    · have hkept := h.kept hopen
      rw [hfull] at hkept
      rw [UasState.waiting]
      split
      · exact hkept.mono fun tl htl => List.mem_of_mem_tail htl
      · exact hkept
    · have hpos := (h.count u hu hne).1
      omega
    · refine hsafe (hfull ▸ length_of_tail_ne_nil htail) hopen fun v hv => ?_
      obtain rfl := Option.some.inj (hu.symm.trans hv)
      exact hcount

/-! A final response in the list. Each expiration of the timer, and each PRACK that takes the head away, brings it nearer. -/

def isTimeout : Action → Bool
  | .timeout _ => true
  | _ => false

def Ongoing : Action → Prop
  | .txResponse t _ _ => t.code < 200
  | .rxPrack _ _ => True
  | .timeout _ => True
  | _ => False

/-- From the one state to the other the response was transmitted, or a 504 response. -/
def Answered (s s' : State) (f : Tdata) : Prop :=
  ∃ new, s'.log = new ++ s.log ∧ (.sent f ∈ new ∨ ∃ tsx, .sent (timedOut tsx) ∈ new)

/-- The first final response in the list; `n` bounds the timer expirations before it. -/
structure Waits (s : State) (f : Tdata) (n : Nat) : Prop where
  opens : Open s
  place : ∃ u before tl after, s.uasState = some u ∧ u.txDataList = before ++ tl :: after ∧
    (∀ b ∈ before, b.tdata.code < 200) ∧ tl.tdata = f ∧ 200 ≤ f.code ∧ 7 * before.length + 7 ≤ n + u.retransmitCount

theorem Retransmits.grows {s s' : State} {u : UasState} {io : Io} (h : Retransmits s u io s') : s.log <:+ s'.log := by
  cases h with
  | gone => exact List.suffix_refl _
  | rejects tsx => exact List.suffix_cons _ _
  | givesUp => exact List.suffix_refl _
  | empty => exact List.suffix_refl _
  | first tl => exact List.suffix_cons _ _
  | fails => exact List.suffix_refl _
  | again tl => exact List.suffix_cons _ _

theorem Sends.grows {s s' : State} {t : Tdata} {io : Io} (h : Sends s t io s') : s.log <:+ s'.log := by
  rcases h with ⟨-, -, rfl⟩ | ⟨-, rfl⟩
  · exact List.suffix_cons _ _
  · exact List.suffix_refl _

theorem Steps.grows {s s' : State} {a : Action} (h : Steps s a s') : s.log <:+ s'.log := by
  cases h with
  | invite => exact List.suffix_cons _ _
  | tsxGone => exact List.suffix_refl _
  | trying t rand io s' hcode hsends => exact hsends.grows
  | queued => exact List.suffix_cons _ _
  | final t rand io uas s' hcode huas hsends => exact (List.suffix_cons _ _).trans hsends.grows
  | refused => exact List.suffix_cons _ _
  | enqueued => exact List.suffix_cons _ _
  | alone t rand io s' hcode hcseq hlist hretransmits => exact (List.suffix_cons _ _).trans hretransmits.grows
  | ignored => exact List.suffix_refl _
  | ackedLast => exact List.suffix_cons _ _
  | ackedNext rack io u tl next rest s' hu hlist hmatch hretransmits =>
    exact (List.suffix_cons _ _).trans hretransmits.grows
  | timeout io u s' hu htimer hretransmits => exact hretransmits.grows

theorem Answered.trans_left {s s' s'' : State} {f : Tdata} (hgrows : s.log <:+ s'.log) (h : Answered s' s'' f) :
    Answered s s'' f := by
  obtain ⟨new, hnew, hsent⟩ := h
  obtain ⟨before, hbefore⟩ := hgrows
  refine ⟨new ++ before, by rw [hnew, ← hbefore, List.append_assoc], ?_⟩
  exact hsent.imp (List.mem_append_left before) fun ⟨tsx, h⟩ => ⟨tsx, List.mem_append_left before h⟩

theorem Answered.trans_right {s s' s'' : State} {f : Tdata} (h : Answered s s' f) (hgrows : s'.log <:+ s''.log) :
    Answered s s'' f := by
  obtain ⟨new, hnew, hsent⟩ := h
  obtain ⟨more, hmore⟩ := hgrows
  refine ⟨more ++ new, by rw [← hmore, hnew, List.append_assoc], ?_⟩
  exact hsent.imp (List.mem_append_right more) fun ⟨tsx, h⟩ => ⟨tsx, List.mem_append_right more h⟩

/-- `on_retransmit` transmits the final response, rejects the INVITE, or counts. -/
theorem Retransmits.waits {s s' : State} {u : UasState} {io : Io} (h : Retransmits s u io s') (hopen : Open s)
    {before after : List TxData} {tl : TxData} (hlist : u.txDataList = before ++ tl :: after)
    (hbefore : ∀ b ∈ before, b.tdata.code < 200) (hfirst : u.retransmitCount ≠ 0 → before ≠ [])
    (hgoes : u.retransmitCount = 0 → io.takes = true)
    (hgive : 6 ≤ u.retransmitCount → io.takes = true ∧ io.endsSession = true ∧ s.established = false) :
    Answered s s' tl.tdata ∨ Open s' ∧ ∃ u', s'.uasState = some u' ∧ u'.txDataList = u.txDataList ∧
      u'.retransmitCount = u.retransmitCount + 1 := by
  obtain ⟨tsx₀, htsx₀, hfinal₀⟩ := id hopen
  cases h with
  | gone hgone =>
    rw [hgone] at htsx₀
    cases htsx₀
  | rejects tsx => exact .inl ⟨[_], rfl, .inr ⟨tsx, List.mem_singleton_self _⟩⟩
  | givesUp hcount htsx hnot => exact absurd ⟨hopen, hgive hcount⟩ hnot
  | empty hcount htsx hnil =>
    rw [hnil] at hlist
    cases before with
    | nil => cases hlist
    | cons b rest => cases hlist
  | first b rest hcons hcount _ htakes =>
    rw [hcons] at hlist
    cases before with
    | nil =>
      obtain ⟨rfl, -⟩ := List.cons.inj hlist
      exact .inl ⟨[_], rfl, .inl (List.mem_singleton_self _)⟩
    | cons b' before =>
      obtain ⟨rfl, -⟩ := List.cons.inj hlist
      have hcode := hbefore b List.mem_cons_self
      refine .inr ⟨open_transmitted.mpr ⟨?_, hcode⟩, _, rfl, ?_, ?_⟩
      · rw [htsx₀]
        exact Option.some_ne_none tsx₀
      · dsimp only
        rw [if_neg (Nat.not_le.mpr hcode), hcons]
      · rw [hcount]
  | fails b rest hcons hcount htsx hnot => exact absurd ⟨hopen, hgoes hcount⟩ hnot
  | again b rest hcons hcount hless htsx =>
    rw [hcons] at hlist
    cases before with
    | nil => exact absurd rfl (hfirst (by omega))
    | cons b' before =>
      obtain ⟨rfl, -⟩ := List.cons.inj hlist
      have hcode := hbefore b List.mem_cons_self
      refine .inr ⟨hopen, _, rfl, ?_, rfl⟩
      dsimp only
      rw [if_neg (Nat.not_le.mpr hcode), hcons]

theorem Waits.steps {s s' : State} {a : Action} {f : Tdata} {n : Nat} (h : Waits s f n) (hlive : Live s)
    (hsafe : Safe s a) (hongoing : Ongoing a) (hstep : Steps s a s') :
    Answered s s' f ∨ ∃ m, Waits s' f m ∧ m + [a].countP isTimeout ≤ n := by
  obtain ⟨hopen, u, before, tl, after, hu, hlist, hbefore, rfl, hfinal, hn⟩ := id h
  have hfull : s.list = before ++ tl :: after := (list_of_some hu).trans hlist
  have hne : u.txDataList ≠ [] := by
    rw [hlist]
    exact List.append_ne_nil_of_right_ne_nil before (List.cons_ne_nil tl after)
  obtain ⟨hpos, hsix⟩ := hlive.count u hu hne
  -- the head is not final
  have hfirst : before ≠ [] := by
    rintro rfl
    exact absurd (hlive.head tl (by rw [hfull]; rfl)) (Nat.not_lt.mpr hfinal)
  have hlen : 2 ≤ s.list.length := by
    rw [hfull, List.length_append, List.length_cons]
    have := List.length_pos_iff.mpr hfirst
    omega
  cases hstep with
  | invite => exact hongoing.elim
  | tsxGone => exact hongoing.elim
  | trying t rand io s' hcode hsends =>
    refine .inr ⟨n, ?_, Nat.le_refl n⟩
    rcases hsends with ⟨-, -, rfl⟩ | ⟨-, rfl⟩
    · obtain ⟨tsx, htsx, -⟩ := hopen
      refine ⟨open_transmitted.mpr ⟨?_, by omega⟩, u, before, tl, after, hu, hlist, hbefore, rfl, hfinal, hn⟩
      rw [htsx]
      exact Option.some_ne_none tsx
    · exact h
  | queued t rand io v hcode =>
    change t.code < 200 at hongoing
    omega
  | final t rand io uas s' hcode =>
    change t.code < 200 at hongoing
    omega
  | refused t rand io v hcode hv hcseq => exact absurd ((hsafe.1 hcode).1 v hv) hcseq
  | enqueued t rand io v hcode hv hcseq hlist' =>
    obtain rfl := Option.some.inj (hu.symm.trans hv)
    refine .inr ⟨n, ⟨hopen, _, before, tl, after ++ [⟨u.rseq, u.number t.plain⟩], rfl, ?_, hbefore, rfl,
      hfinal, hn⟩, Nat.le_refl n⟩
    rw [UasState.push, hlist, List.append_assoc, List.cons_append]
  | alone t rand io s' hcode hcseq hlist' =>
    rw [list_uasFor, hfull] at hlist'
    exact absurd hlist' (List.append_ne_nil_of_right_ne_nil before (List.cons_ne_nil tl after))
  | ignored => exact .inr ⟨n, h, Nat.le_refl n⟩
  | ackedLast rack io v b hv hone =>
    obtain rfl := Option.some.inj (hu.symm.trans hv)
    rw [list_of_some hu, hone] at hlen
    exact absurd hlen (Nat.not_succ_le_self 1)
  | ackedNext rack io v b next rest s' hv hcons hmatch hretransmits =>
    obtain rfl := Option.some.inj (hu.symm.trans hv)
    cases before with
    | nil => exact absurd rfl hfirst
    | cons b' before =>
      rw [hlist, List.cons_append] at hcons
      obtain ⟨rfl, hrest⟩ := List.cons.inj hcons
      have htail : (u.pop (next :: rest)).txDataList = before ++ tl :: after := hrest.symm
      rcases hretransmits.waits hopen htail (fun c hc => hbefore c (List.mem_cons_of_mem b' hc))
        (fun hcount => absurd rfl hcount) (fun _ => hsafe hlen hopen)
        (fun hcount => absurd hcount (Nat.not_succ_le_zero 5)) with hdone | ⟨hopen', u', hu', hlist', hcount'⟩
      · exact .inl (hdone.trans_left (List.suffix_cons _ _))
      · refine .inr ⟨n, ⟨hopen', u', before, tl, after, hu', hlist'.trans htail,
          fun c hc => hbefore c (List.mem_cons_of_mem b' hc), rfl, hfinal, ?_⟩, Nat.le_refl n⟩
        rw [List.length_cons] at hn
        omega
  | timeout io v s' hv htimer hretransmits =>
    obtain rfl := Option.some.inj (hu.symm.trans hv)
    have hgive : 6 ≤ u.retransmitCount → io.takes = true ∧ io.endsSession = true ∧ s.established = false := by
      intro hcount
      refine hsafe hlen hopen fun v hv => ?_
      obtain rfl := Option.some.inj (hu.symm.trans hv)
      exact hcount
    rcases hretransmits.waits hopen hlist hbefore (fun _ => hfirst) (fun hzero => by omega) hgive with
      hdone | ⟨hopen', u', hu', hlist', hcount'⟩
    · exact .inl hdone
    · refine .inr ⟨n - 1, ⟨hopen', u', before, tl, after, hu', hlist'.trans hlist, hbefore, rfl, hfinal, ?_⟩, ?_⟩
      · omega
      · have hone : [Action.timeout io].countP isTimeout = 1 := rfl
        omega

theorem Waits.run {acts : List Action} : ∀ {s v : State} {f : Tdata} {n : Nat}, Waits s f n → Live s →
    Meets step Safe s acts → (∀ a ∈ acts, Ongoing a) → exec step s acts = some v →
      Answered s v f ∨ ∃ m, Waits v f m ∧ m + acts.countP isTimeout ≤ n := by
  induction acts with
  | nil =>
    intro s v f n h _ _ _ hrun
    obtain rfl := Option.some.inj hrun
    exact .inr ⟨n, h, Nat.le_refl n⟩
  | cons a rest ih =>
    intro s v f n h hlive hsafe hongoing hrun
    obtain ⟨t, hstep, hrest⟩ := exec_cons_eq_some.mp hrun
    have hsteps := steps_of_step hstep
    have hgrows : t.log <:+ v.log := exec_invariant (P := fun w => t.log <:+ w.log)
      (fun _ _ _ h hw => h.trans (steps_of_step hw).grows) (List.suffix_refl _) hrest
    rcases h.steps hlive hsafe.1 (hongoing a List.mem_cons_self) hsteps with hdone | ⟨m, hm, hle⟩
    · exact .inl (hdone.trans_right hgrows)
    · rcases ih hm (hlive.steps hsafe.1 hsteps) (hsafe.2 t hstep) (fun b hb => hongoing b (List.mem_cons_of_mem a hb))
        hrest with hdone | ⟨k, hk, hk'⟩
      · exact .inl (hdone.trans_left hsteps.grows)
      · refine .inr ⟨k, hk, ?_⟩
        rw [← List.singleton_append, List.countP_append]
        omega

/-! Runs. -/

/-- A dialog without an INVITE. -/
def idle : State := ⟨none, none, false, []⟩

theorem Live.run {u : State} {acts : List Action} (hsafe : Meets step Safe idle acts) (hrun : exec step idle acts = some u) :
    Live u :=
  exec_invariant_of_meets (fun _ _ _ h hsafe hstep => h.steps hsafe (steps_of_step hstep))
    (.of_nil rfl fun _ _ ht => absurd ht List.not_mem_nil) hsafe hrun

/-- In every run of safe steps, over any number of INVITEs, no response is lost and the timer runs while the list is not
empty. A final response that waits in the list is transmitted, or a 504 response, before the timer expires a bounded number of
times. -/
theorem responses_kept_of_run {u : State} {acts : List Action} (hsafe : Meets step Safe idle acts)
    (hrun : exec step idle acts = some u) :
    Kept u ∧ Running u ∧
      ∀ before tl after more v, Open u → u.list = before ++ tl :: after → (∀ b ∈ before, b.tdata.code < 200) →
        200 ≤ tl.tdata.code → Meets step Safe u more → (∀ a ∈ more, Ongoing a) → exec step u more = some v →
          Answered u v tl.tdata ∨ v.timer = true ∧ more.countP isTimeout < 7 * before.length + 6 := by
  have hlive := Live.run hsafe hrun
  refine ⟨hlive.nothing_lost.1, hlive.nothing_lost.2, ?_⟩
  intro before tl after more v hopen hlist hbefore hfinal hmore hongoing hexec
  cases hu : u.uasState with
  | none =>
    rw [State.list, hu] at hlist
    exact absurd hlist.symm (List.append_ne_nil_of_right_ne_nil before (List.cons_ne_nil tl after))
  | some w =>
    rw [list_of_some hu] at hlist
    have hne : w.txDataList ≠ [] := by
      rw [hlist]
      exact List.append_ne_nil_of_right_ne_nil before (List.cons_ne_nil tl after)
    have hpos := (hlive.count w hu hne).1
    have hwaits : Waits u tl.tdata (7 * before.length + 6) :=
      ⟨hopen, w, before, tl, after, hu, hlist, hbefore, rfl, hfinal, by omega⟩
    rcases hwaits.run hlive hmore hongoing hexec with hdone | ⟨m, hm, hle⟩
    · exact .inl hdone
    · have hlive' : Live v := exec_invariant_of_meets (fun _ _ _ h hsafe hstep => h.steps hsafe (steps_of_step hstep))
        hlive hmore hexec
      obtain ⟨-, w', before', tl', after', hw', hlist', -, -, -, hm'⟩ := hm
      have hne' : w'.txDataList ≠ [] := by
        rw [hlist']
        exact List.append_ne_nil_of_right_ne_nil before' (List.cons_ne_nil tl' after')
      have hsix := (hlive'.count w' hw' hne').2
      refine .inr ⟨hlive'.timer ?_, by omega⟩
      rw [list_of_some hw']
      exact hne'

/-- The 2xx response waits in the list and follows the PRACK. -/
theorem responses_kept_progress : ∃ u, exec step idle [.invite 1, .txResponse progress 0 calm, .txResponse ok 0 calm,
    .rxPrack (some rackInvite) calm] = some u ∧ Kept u ∧ Running u := by
  have hsafe : Meets step Safe idle [.invite 1, .txResponse progress 0 calm, .txResponse ok 0 calm,
      .rxPrack (some rackInvite) calm] := by
    refine ⟨trivial, fun t ht => ?_⟩
    obtain rfl := Option.some.inj ht
    refine ⟨⟨fun _ => ⟨fun _ hu => (by cases hu), fun _ => ⟨⟨_, rfl, rfl⟩, rfl⟩⟩, fun _ _ _ => rfl⟩, fun t ht => ?_⟩
    obtain rfl := Option.some.inj ht
    refine ⟨⟨fun hrel => absurd hrel (by decide), fun _ _ _ => rfl⟩, fun t ht => ?_⟩
    obtain rfl := Option.some.inj ht
    exact ⟨fun _ _ => rfl, fun t ht => trivial⟩
  have hkept := responses_kept_of_run hsafe rfl
  exact ⟨_, rfl, hkept.1, hkept.2.1⟩

/-- The first INVITE's responses are acknowledged; the response to the second INVITE is refused. -/
theorem not_responses_kept_second : ∃ u, exec step idle [.invite 1, .txResponse progress 0 calm,
    .rxPrack (some rackInvite) calm, .txResponse ok 0 calm, .tsxGone, .invite 2,
    .txResponse { progress with cseq := 2 } 0 calm] = some u ∧ ¬ Kept u := by
  refine ⟨_, rfl, fun h => ?_⟩
  rcases h ⟨_, rfl, rfl⟩ { progress with cseq := 2 } (by decide) rfl with hsent | ⟨tl, htl, -⟩
  · exact absurd hsent (by decide)
  · exact absurd htl List.not_mem_nil

end PjProject.Sip100rel
