import PjProject.StunTsx

/-! Whether a STUN client transaction comes to its end. While a request is under way the transaction hangs on its one
timer entry; the calls that cancel it without setting it again are named here. -/

namespace PjProject.StunTsx

/-- A request was sent, and the transaction is there and neither complete nor being destroyed. -/
def State.awaits (s : State) : Prop :=
  s.gone = false ∧ s.sent = true ∧ s.tsx.complete = false ∧ s.tsx.isDestroying = false

instance (s : State) : Decidable s.awaits := inferInstanceAs (Decidable (_ ∧ _))

/-- `on_complete` is called once at most; while the transaction awaits its end the timer is scheduled, and if it expires
again and again the end comes. -/
structure Ends (s : State) : Prop where
  once : s.completions.length ≤ 1
  timed : s.awaits → s.tsx.retransmitTimer.scheduled = true
  comes : s.awaits → ∀ envs : Nat → Env, ∃ n t, exec step s ((List.range n).map fun i => .expire (envs i)) = some t ∧
    (t.gone = true ∨ t.tsx.complete = true)

/-- The call leaves the transaction with a timer. While the end is awaited no response has a code up to 200; a
retransmission that is counted is made of a transaction that retransmits, and is scheduled and goes out; and no other
retransmission is refused as an invalid operation. -/
def KeepsTimer (s : State) : Call → Prop
  | .retransmit true env =>
    s.awaits → (s.tsx.requireRetransmit = true → env.schedule = true) ∧
      (env.sendMsg = .estundestroyed ∨ s.tsx.requireRetransmit = true ∧ env.goesOut)
  | .retransmit false env => s.awaits → env.sendMsg ≠ .einvalidop
  | .onRxMsg msg => s.awaits → isResponse msg.hdr.type = true → ∀ code ∈ errCode msg, 200 < code
  | _ => True

instance (s : State) : (call : Call) → Decidable (KeepsTimer s call)
  | .retransmit true env => inferInstanceAs (Decidable (s.awaits → (s.tsx.requireRetransmit = true → env.schedule = true) ∧
      (env.sendMsg = .estundestroyed ∨ s.tsx.requireRetransmit = true ∧ env.goesOut)))
  | .retransmit false env => inferInstanceAs (Decidable (s.awaits → env.sendMsg ≠ .einvalidop))
  | .onRxMsg msg => inferInstanceAs (Decidable (s.awaits → isResponse msg.hdr.type = true → ∀ code ∈ errCode msg, 200 < code))
  | .sendMsg _ _ _ | .expire _ | .scheduleDestroy _ | .destroyExpire => .isTrue trivial

/-! One step. -/

/-- While the end is awaited the timer is scheduled. -/
def State.Timed (s : State) : Prop := s.awaits → s.tsx.retransmitTimer.scheduled = true

/-- The timers of a transaction that is there. -/
structure Live (tsx : Tsx) : Prop where
  timer : tsx.retransmitTimer = .inactive ∨ tsx.retransmitTimer = .active
  destroying : tsx.isDestroying = true → tsx.retransmitTimer = .inactive
  destroyTimer : tsx.isDestroying = false → tsx.destroyTimer = .inactive

structure Inv (s : State) : Prop where
  once : s.completions.length ≤ 1
  pending : s.tsx.complete = false → s.completions = []
  live : s.gone = false → Live s.tsx
  /-- The timer of a transaction that does not retransmit is its timeout. -/
  reliable : s.awaits → s.tsx.retransmitTimer = .active → s.tsx.requireRetransmit = false →
    s.tsx.transmitCount = maxTransmitCount + 1

/-- Nothing is awaited of a transaction that has been destroyed. -/
theorem inv_gone {tsx : Tsx} {sent : Bool} {completions : List Status} (honce : completions.length ≤ 1)
    (hpending : tsx.complete = false → completions = []) :
    Inv ⟨tsx, sent, completions, true⟩ ∧ State.Timed ⟨tsx, sent, completions, true⟩ :=
  ⟨⟨honce, hpending, nofun, fun h => absurd h.1.symm Bool.false_ne_true⟩,
    fun h => absurd h.1.symm Bool.false_ne_true⟩

theorem Tsx.Kept.awaits_iff {tsx tsx' : Tsx} (h : tsx.Kept tsx') (sent : Bool) (completions : List Status) :
    State.awaits ⟨tsx', sent, completions, false⟩ ↔ State.awaits ⟨tsx, sent, completions, false⟩ := by
  unfold State.awaits
  dsimp only
  rw [h.complete, h.isDestroying]

theorem Tsx.Kept.live {tsx tsx' : Tsx} (h : tsx.Kept tsx') (hlive : Live tsx)
    (htimer : tsx'.retransmitTimer = .inactive ∨ tsx'.retransmitTimer = .active ∧ tsx.isDestroying = false) :
    Live tsx' := by
  refine ⟨htimer.imp_right And.left, ?_, ?_⟩
  · intro hdestroying
    rw [h.isDestroying] at hdestroying
    refine htimer.resolve_right fun hactive => ?_
    rw [hdestroying] at hactive
    exact Bool.false_ne_true hactive.2.symm
  · rw [h.isDestroying, h.destroyTimer]
    exact hlive.destroyTimer

theorem timed_of_inactive {s : State} (htimer : s.tsx.retransmitTimer = .inactive) : s.Timed ↔ ¬s.awaits := by
  unfold State.Timed
  rw [htimer]
  exact ⟨fun h hawaits => Bool.false_ne_true (h hawaits), fun h hawaits => absurd hawaits h⟩

theorem timed_of_active {s : State} (htimer : s.tsx.retransmitTimer = .active) : s.Timed := by
  intro _
  rw [htimer]
  rfl

/-- The transaction as it is when it has ended. -/
theorem finish_spec (tsx : Tsx) (status : Status) :
    (tsx.finish status).1 = { tsx with complete := true } ∧ (tsx.finish status).2.length ≤ 1 ∧
      (tsx.complete = true → (tsx.finish status).2 = []) := by
  unfold Tsx.finish
  by_cases hcomplete : tsx.complete = true
  · rw [if_pos hcomplete]
    refine ⟨?_, Nat.zero_le _, fun _ => rfl⟩
    cases tsx
    exact congrArg (Tsx.mk _ · _ _ _ _ _ _ _ _ _) hcomplete
  · rw [if_neg hcomplete]
    refine ⟨rfl, ?_, fun h => absurd h hcomplete⟩
    dsimp only
    split
    · exact Nat.le_refl 1
    · exact Nat.zero_le 1

theorem inv_finish {s : State} (hinv : Inv s) {tsx : Tsx} (hkept : s.tsx.Kept tsx) (hlive : Live s.tsx)
    (htimer : tsx.retransmitTimer = .inactive) (status : Status) {t : State}
    (ht : t = ⟨(tsx.finish status).1, s.sent, s.completions ++ (tsx.finish status).2, false⟩) : Inv t ∧ t.Timed := by
  obtain ⟨hfinish, hlength, hnone⟩ := finish_spec tsx status
  have hlive' := hkept.live hlive (.inl htimer)
  have hcomplete : t.tsx.complete = true := by rw [ht, hfinish]
  have hnot : ¬t.awaits := fun h => by
    rw [State.awaits, hcomplete] at h
    exact Bool.false_ne_true h.2.2.1.symm
  refine ⟨⟨?_, fun h => ?_, fun _ => ?_, fun h => absurd h hnot⟩, fun h => absurd h hnot⟩
  · rw [ht, List.length_append]
    by_cases hdone : s.tsx.complete = true
    · rw [hnone (hkept.complete.trans hdone)]
      exact hinv.once
    · rw [hinv.pending (Bool.eq_false_iff.mpr hdone), List.length_nil, Nat.zero_add]
      exact hlength
  · rw [hcomplete] at h
    cases h
  · rw [ht, hfinish]
    exact ⟨hlive'.timer, hlive'.destroying, hlive'.destroyTimer⟩

/-- The result of a call that ends nothing, when the transaction is still there. -/
theorem inv_kept {s : State} (hinv : Inv s) {tsx : Tsx} (hkept : s.tsx.Kept tsx) (hlive : Live tsx) {sent : Bool}
    (hreliable : State.awaits ⟨tsx, sent, s.completions, false⟩ → tsx.retransmitTimer = .active →
      tsx.requireRetransmit = false → tsx.transmitCount = maxTransmitCount + 1) :
    Inv ⟨tsx, sent, s.completions, false⟩ := by
  refine ⟨hinv.once, fun h => hinv.pending ?_, fun _ => hlive, hreliable⟩
  rw [← hkept.complete]
  exact h

/-- What a step has to show: the invariant, and that the timer is there if and only if the call has kept it. -/
def Steps (s : State) (call : Call) (t : State) : Prop := Inv t ∧ (t.Timed ↔ KeepsTimer s call)

section

variable {s : State} (hinv : Inv s) (htimed : s.Timed)
include hinv htimed

theorem steps_same {call : Call} (hkeeps : KeepsTimer s call) : Steps s call s := ⟨hinv, iff_of_true htimed hkeeps⟩

/-- A request is sent when the timer is not running, so that nothing was awaited before. -/
theorem steps_sendMsg (hgone : s.gone = false) {retransmit : Bool} {pkt : List UInt8} {env : Env} {t : State}
    (h : step s (.sendMsg retransmit pkt env) = some t) : Steps s (.sendMsg retransmit pkt env) t := by
  have hlive := hinv.live hgone
  rw [step, if_neg (by rw [hgone]; exact Bool.false_ne_true)] at h
  obtain ⟨hkept, hsending⟩ := sendMsg_spec hlive.timer retransmit pkt env
  dsimp only at h
  generalize s.tsx.sendMsg retransmit pkt env = result at hkept hsending h
  obtain ⟨tsx, status⟩ := result
  dsimp only at hkept hsending h
  have hs : (⟨s.tsx, s.sent, s.completions, false⟩ : State) = s := by rw [← hgone]
  rw [← Option.some.inj h]
  cases hsending with
  | refused hstatus hnotgone hsame =>
    rw [decide_eq_false hstatus, decide_eq_false hnotgone, Bool.false_and, Bool.or_false, hsame, hs]
    exact steps_same hinv htimed trivial
  | ignored hdestroying hsame =>
    rw [decide_eq_false (by decide : ¬Status.success = .estundestroyed), hdestroying, Bool.not_true, Bool.and_false,
      Bool.or_false, hsame, hs]
    exact steps_same hinv htimed trivial
  | destroyed =>
    obtain ⟨hinv', htimed'⟩ := inv_gone hinv.once fun h => hinv.pending (hkept.complete.symm.trans h)
    exact ⟨hinv', iff_of_true htimed' trivial⟩
  | sent hdestroying hactive hreliable =>
    have hlive' := hkept.live hlive (.inr ⟨hactive, hdestroying⟩)
    exact ⟨inv_kept hinv hkept hlive' fun _ _ => hreliable, iff_of_true (timed_of_active hactive) trivial⟩
  | failed hstatus hnotgone hbefore hafter =>
    have hnot : ¬State.awaits ⟨tsx, s.sent, s.completions, false⟩ := by
      rw [hkept.awaits_iff s.sent s.completions, hs]
      exact (timed_of_inactive hbefore).mp htimed
    rw [decide_eq_false hstatus, decide_eq_false hnotgone, Bool.false_and, Bool.or_false]
    exact ⟨inv_kept hinv hkept (hkept.live hlive (.inl hafter)) fun h => absurd h hnot,
      iff_of_true (fun h => absurd h hnot) trivial⟩

omit htimed in
theorem steps_expire (hgone : s.gone = false) {env : Env} {t : State} (h : step s (.expire env) = some t) :
    Steps s (.expire env) t := by
  have hlive := hinv.live hgone
  rw [step, if_neg (by rw [hgone]; exact Bool.false_ne_true)] at h
  dsimp only at h
  by_cases hscheduled : s.tsx.retransmitTimer.scheduled = true
  · rw [if_pos hscheduled] at h
    have hactive : s.tsx.retransmitTimer = .active := hlive.timer.resolve_left fun hinactive => by
      rw [hinactive] at hscheduled
      exact Bool.false_ne_true hscheduled
    have hdestroying : s.tsx.isDestroying = false := Bool.eq_false_iff.mpr fun hdestroying => by
      have hboth := hactive.symm.trans (hlive.destroying hdestroying)
      exact absurd hboth (by decide)
    have hkept : s.tsx.Kept s.tsx.popTimer := ⟨rfl, rfl, rfl⟩
    have hpop : s.tsx.popTimer.retransmitTimer.scheduled = false := rfl
    have hexpiry := retransmitTimerCallback_spec (hkept.isDestroying.trans hdestroying) hpop env
    generalize s.tsx.popTimer.retransmitTimerCallback env = result at hexpiry h
    rw [← Option.some.inj h]
    cases hexpiry with
    | finished hkept' htimer hnotgone =>
      obtain ⟨hinv', htimed'⟩ := inv_finish hinv (hkept.trans hkept') hlive htimer _ rfl
      rw [decide_eq_false hnotgone]
      exact ⟨hinv', iff_of_true htimed' trivial⟩
    | destroyed hkept' =>
      obtain ⟨hinv', htimed'⟩ := inv_gone hinv.once fun h =>
        hinv.pending ((hkept.trans hkept').complete.symm.trans h)
      rw [List.append_nil]
      exact ⟨hinv', iff_of_true htimed' trivial⟩
    | again hkept' hlow hcount' hretransmit' htimer =>
      rename_i tsx'
      have hall := hkept.trans hkept'
      have hs : (⟨s.tsx, s.sent, s.completions, false⟩ : State) = s := by rw [← hgone]
      have hawaits : State.awaits ⟨tsx', s.sent, s.completions, false⟩ ↔ s.awaits := by
        rw [hall.awaits_iff s.sent s.completions, hs]
      -- the timer of a transaction that does not retransmit expires after the last transmission only
      have hagain : s.awaits → s.tsx.requireRetransmit = true := by
        intro hs'
        by_contra hnot
        have hmax := hinv.reliable hs' hactive (Bool.eq_false_iff.mpr hnot)
        have hlow' : s.tsx.transmitCount < maxTransmitCount := hlow
        rw [hmax] at hlow'
        exact absurd hlow' (by decide)
      rw [List.append_nil, decide_eq_false (by decide : ¬Status.success = .estundestroyed)]
      have hflag : tsx'.requireRetransmit = s.tsx.requireRetransmit := hretransmit'
      have hafter : tsx'.retransmitTimer = if s.tsx.requireRetransmit then .active else .inactive := htimer
      have hlive' : Live tsx' := by
        refine hall.live hlive ?_
        by_cases hset : s.tsx.requireRetransmit = true
        · exact .inr ⟨by rw [hafter, if_pos hset], hdestroying⟩
        · exact .inl (by rw [hafter, if_neg hset])
      refine ⟨inv_kept hinv hall hlive' fun hs' _ hfalse => ?_, iff_of_true (fun hs' => ?_) trivial⟩
      · exact absurd ((hflag.trans (hagain (hawaits.mp hs'))).symm.trans hfalse) (Bool.false_ne_true ∘ Eq.symm)
      · dsimp only
        rw [hafter, if_pos (hagain (hawaits.mp hs'))]
        rfl
  · rw [if_neg hscheduled] at h
    cases h

theorem steps_retransmit (hgone : s.gone = false) {modCount : Bool} {env : Env} {t : State}
    (h : step s (.retransmit modCount env) = some t) : Steps s (.retransmit modCount env) t := by
  have hlive := hinv.live hgone
  have hs : (⟨s.tsx, s.sent, s.completions, false⟩ : State) = s := by rw [← hgone]
  rw [step, if_neg (by rw [hgone]; exact Bool.false_ne_true)] at h
  dsimp only at h
  rw [← Option.some.inj h]
  unfold Tsx.retransmit
  by_cases hdestroying : s.tsx.isDestroying = true
  · have hnot : ¬s.awaits := fun h => Bool.false_ne_true (h.2.2.2.symm.trans hdestroying)
    rw [if_pos (.inr hdestroying), decide_eq_false (by exact Status.noConfusion), hs]
    refine steps_same hinv htimed ?_
    cases modCount <;> exact fun h => absurd h hnot
  have hfalse := Bool.eq_false_iff.mpr hdestroying
  rw [if_neg fun h => h.elim (fun hid => hid (by rw [hlive.destroyTimer hfalse]; rfl)) hdestroying]
  dsimp only
  cases modCount with
  | true =>
    rw [if_pos rfl]
    have hinactive := cancelTimer_of_live hlive.timer
    obtain ⟨hkept, hcounted⟩ := transmitMsg_counted (.inl hinactive) env
    generalize s.tsx.cancelTimer.transmitMsg true env = result at hkept hcounted
    obtain ⟨tsx, status⟩ := result
    have hkept' : s.tsx.Kept tsx := ⟨hkept.1, hkept.2, hkept.3⟩
    have hawaits : State.awaits ⟨tsx, s.sent, s.completions, false⟩ ↔ s.awaits := by
      rw [hkept'.awaits_iff s.sent s.completions, hs]
    dsimp only at hcounted ⊢
    cases hcounted with
    | destroyed henv hschedule =>
      obtain ⟨hinv', htimed'⟩ := inv_gone hinv.once fun h => hinv.pending (hkept'.complete.symm.trans h)
      exact ⟨hinv', iff_of_true htimed' fun _ => ⟨hschedule, .inl henv⟩⟩
    | failed hstatus hnotgone hwhy hafter =>
      rw [decide_eq_false hnotgone]
      refine ⟨inv_kept hinv hkept' (hkept'.live hlive (.inl hafter)) fun _ hactive => ?_, ?_⟩
      · exact absurd (hafter.symm.trans hactive) (by decide)
      · -- the timer was cancelled, and the transmission has not set it again
        rw [timed_of_inactive hafter, hawaits]
        refine ⟨fun hnot h => absurd h hnot, fun hkeeps h => ?_⟩
        obtain ⟨hschedule, hout⟩ := hkeeps h
        rcases hwhy with ⟨hset, hnone⟩ | ⟨hnotdestroyed, hnotout⟩
        · exact Bool.false_ne_true (hnone.symm.trans (hschedule hset))
        · exact hout.elim hnotdestroyed fun hboth => hnotout hboth.2
    | sent henv hschedule hcount hretransmit hafter =>
      rw [decide_eq_false (by decide : ¬Status.success = .estundestroyed)]
      have hflag : tsx.requireRetransmit = s.tsx.requireRetransmit := hretransmit
      have htimer : tsx.retransmitTimer = if s.tsx.requireRetransmit then .active else .inactive := by
        rw [hinactive] at hafter
        exact hafter
      by_cases hset : s.tsx.requireRetransmit = true
      · rw [if_pos hset] at htimer
        refine ⟨inv_kept hinv hkept' (hkept'.live hlive (.inr ⟨htimer, hfalse⟩)) fun _ _ hnone => ?_,
          iff_of_true (timed_of_active htimer) fun _ => ⟨hschedule, .inr ⟨hset, henv⟩⟩⟩
        exact absurd (hnone.symm.trans (hflag.trans hset)) Bool.false_ne_true
      · rw [if_neg hset] at htimer
        refine ⟨inv_kept hinv hkept' (hkept'.live hlive (.inl htimer)) fun _ hactive => ?_, ?_⟩
        · exact absurd (htimer.symm.trans hactive) (by decide)
        · rw [timed_of_inactive htimer, hawaits]
          refine ⟨fun hnot h => absurd h hnot, fun hkeeps h => ?_⟩
          rcases (hkeeps h).2 with hdestroyed | ⟨hset', -⟩
          · rw [Env.goesOut, hdestroyed] at henv
            exact absurd henv (by decide)
          · exact hset hset'
  | false =>
    rw [if_neg Bool.false_ne_true, Tsx.transmitMsg, if_neg fun h => Bool.false_ne_true h.2.2,
      if_neg fun h => Bool.false_ne_true h.2]
    obtain ⟨hkept, hcount, hflag, houtcome⟩ := transmit_spec s.tsx false env
    generalize s.tsx.transmit false env = result at hkept hcount hflag houtcome
    obtain ⟨tsx, status⟩ := result
    dsimp only at hkept hcount hflag houtcome ⊢
    have hawaits : State.awaits ⟨tsx, s.sent, s.completions, false⟩ ↔ s.awaits := by
      rw [hkept.awaits_iff s.sent s.completions, hs]
    -- where the timer is as it was, everything that is awaited is as it was
    have hkeep : tsx.retransmitTimer = s.tsx.retransmitTimer →
        Inv ⟨tsx, s.sent, s.completions, false⟩ ∧ State.Timed ⟨tsx, s.sent, s.completions, false⟩ := by
      intro htimer
      refine ⟨inv_kept hinv hkept (hkept.live hlive ?_) fun h hactive hnone => ?_, fun h => ?_⟩
      · rw [htimer]
        exact hlive.timer.imp_right fun hactive => ⟨hactive, hfalse⟩
      · rw [hcount]
        exact hinv.reliable (hawaits.mp h) (htimer.symm.trans hactive) (hflag.symm.trans hnone)
      · dsimp only
        rw [htimer]
        exact htimed (hawaits.mp h)
    cases houtcome with
    | destroyed henv =>
      obtain ⟨hinv', htimed'⟩ := inv_gone hinv.once fun h => hinv.pending (hkept.complete.symm.trans h)
      refine ⟨hinv', iff_of_true htimed' fun _ => ?_⟩
      rw [henv]
      exact Status.noConfusion
    | sent henv htimer =>
      rw [decide_eq_false (by decide : ¬Status.success = .estundestroyed)]
      obtain ⟨hinv', htimed'⟩ := hkeep htimer
      refine ⟨hinv', iff_of_true htimed' fun _ hinvalid => ?_⟩
      rw [Env.goesOut, hinvalid] at henv
      exact absurd henv (by decide)
    | failed hstatus hnotgone henv hout htimer =>
      rw [decide_eq_false hnotgone]
      by_cases hinvalid : status = .einvalidop
      · rw [if_pos (.inr hinvalid)] at htimer
        have hinactive : tsx.retransmitTimer = .inactive := htimer.trans (cancelTimer_of_live hlive.timer)
        refine ⟨inv_kept hinv hkept (hkept.live hlive (.inl hinactive)) fun _ hactive => ?_, ?_⟩
        · exact absurd (hinactive.symm.trans hactive) (by decide)
        · rw [timed_of_inactive hinactive, hawaits]
          exact ⟨fun hnot h => absurd h hnot, fun hkeeps h => hkeeps h (henv.trans hinvalid)⟩
      · rw [if_neg fun h => h.elim Bool.false_ne_true hinvalid] at htimer
        obtain ⟨hinv', htimed'⟩ := hkeep htimer
        exact ⟨hinv', iff_of_true htimed' fun _ h => hinvalid (henv.symm.trans h)⟩

theorem steps_onRxMsg (hgone : s.gone = false) {msg : Stun.Msg} {t : State} (h : step s (.onRxMsg msg) = some t) :
    Steps s (.onRxMsg msg) t := by
  have hlive := hinv.live hgone
  have hs : (⟨s.tsx, s.sent, s.completions, false⟩ : State) = s := by rw [← hgone]
  rw [step, if_neg (by rw [hgone]; exact Bool.false_ne_true)] at h
  dsimp only at h
  rw [← Option.some.inj h]
  unfold Tsx.onRxMsg
  by_cases hresponse : isResponse msg.hdr.type = false
  · rw [if_pos hresponse, List.append_nil, hs]
    exact steps_same hinv htimed fun _ h => absurd (h.symm.trans hresponse) (Bool.false_ne_true ∘ Eq.symm)
  rw [if_neg hresponse]
  have hinactive := cancelTimer_of_live hlive.timer
  have hkept : s.tsx.Kept s.tsx.cancelTimer := ⟨rfl, rfl, rfl⟩
  dsimp only
  cases herr : errCode msg with
  | none =>
    obtain ⟨hinv', htimed'⟩ := inv_finish hinv hkept hlive hinactive _ rfl
    refine ⟨hinv', iff_of_true htimed' fun _ _ code hcode => ?_⟩
    rw [herr] at hcode
    cases hcode
  | some code =>
    dsimp only
    by_cases hlow : code ≤ 200
    · rw [if_pos hlow, List.append_nil]
      have hawaits : State.awaits ⟨s.tsx.cancelTimer, s.sent, s.completions, false⟩ ↔ s.awaits := by
        rw [hkept.awaits_iff s.sent s.completions, hs]
      refine ⟨inv_kept hinv hkept (hkept.live hlive (.inl hinactive)) fun _ hactive => ?_, ?_⟩
      · exact absurd (hinactive.symm.trans hactive) (by decide)
      · rw [timed_of_inactive hinactive, hawaits]
        refine ⟨fun hnot h => absurd h hnot, fun hkeeps h => ?_⟩
        exact absurd hlow (Int.not_le.mpr (hkeeps h (Bool.not_eq_false _ ▸ hresponse) code herr))
    · rw [if_neg hlow]
      obtain ⟨hinv', htimed'⟩ := inv_finish hinv hkept hlive hinactive _ rfl
      refine ⟨hinv', iff_of_true htimed' fun _ _ code' hcode => ?_⟩
      rw [herr] at hcode
      rw [← Option.some.inj hcode]
      exact Int.not_le.mp hlow

theorem steps_scheduleDestroy (hgone : s.gone = false) {schedule : Bool} {t : State}
    (h : step s (.scheduleDestroy schedule) = some t) : Steps s (.scheduleDestroy schedule) t := by
  have hlive := hinv.live hgone
  rw [step, if_neg (by rw [hgone]; exact Bool.false_ne_true)] at h
  rw [← Option.some.inj h]
  unfold Tsx.scheduleDestroy
  by_cases hnone : s.tsx.onDestroy = false
  · rw [if_pos hnone]
    exact steps_same hinv htimed trivial
  rw [if_neg hnone]
  by_cases hdestroying : s.tsx.isDestroying = true
  · rw [if_pos hdestroying]
    exact steps_same hinv htimed trivial
  rw [if_neg hdestroying]
  have hinactive : s.tsx.retransmitTimer.cancelIfActive = .inactive := cancelTimer_of_live hlive.timer
  cases schedule with
  | true =>
    refine ⟨⟨hinv.once, hinv.pending, fun _ => ⟨.inl hinactive, fun _ => hinactive, fun h => absurd h.symm ?_⟩,
      fun h => absurd h.2.2.2.symm ?_⟩, iff_of_true (fun h => absurd h.2.2.2.symm ?_) trivial⟩
    all_goals exact Bool.false_ne_true
  | false =>
    refine ⟨⟨hinv.once, hinv.pending, fun _ => ⟨.inl hinactive, fun _ => hinactive, fun h => absurd h.symm ?_⟩,
      fun h => absurd h.2.2.2.symm ?_⟩, iff_of_true (fun h => absurd h.2.2.2.symm ?_) trivial⟩
    all_goals exact Bool.false_ne_true

omit htimed in
theorem steps_destroyExpire (hgone : s.gone = false) {t : State} (h : step s .destroyExpire = some t) :
    Steps s .destroyExpire t := by
  rw [step, if_neg (by rw [hgone]; exact Bool.false_ne_true)] at h
  dsimp only at h
  by_cases hscheduled : s.tsx.destroyTimer.scheduled = true
  · rw [if_pos hscheduled] at h
    rw [← Option.some.inj h]
    have hpending : ({ s.tsx with destroyTimer := ⟨0, false⟩ } : Tsx).complete = false → s.completions = [] := hinv.pending
    obtain ⟨hinv', htimed'⟩ := inv_gone hinv.once hpending
    exact ⟨hinv', iff_of_true htimed' trivial⟩
  · rw [if_neg hscheduled] at h
    cases h

theorem steps {call : Call} {t : State} (h : step s call = some t) : Steps s call t := by
  cases hgone : s.gone with
  | true =>
    rw [step.eq_def, if_pos hgone] at h
    cases h
  | false =>
    cases call with
    | sendMsg retransmit pkt env => exact steps_sendMsg hinv htimed hgone h
    | expire env => exact steps_expire hinv hgone h
    | retransmit modCount env => exact steps_retransmit hinv htimed hgone h
    | onRxMsg msg => exact steps_onRxMsg hinv htimed hgone h
    | scheduleDestroy schedule => exact steps_scheduleDestroy hinv htimed hgone h
    | destroyExpire => exact steps_destroyExpire hinv hgone h

end

/-! The timer that expires again and again. -/

theorem step_expire {s : State} (hgone : s.gone = false) (hscheduled : s.tsx.retransmitTimer.scheduled = true) (env : Env) :
    step s (.expire env) = some ⟨(s.tsx.popTimer.retransmitTimerCallback env).1, s.sent,
      s.completions ++ (s.tsx.popTimer.retransmitTimerCallback env).2.2,
      (s.tsx.popTimer.retransmitTimerCallback env).2.1 = .estundestroyed⟩ := by
  rw [step, if_neg (by rw [hgone]; exact Bool.false_ne_true)]
  exact if_pos hscheduled

theorem exists_expire {s : State} (htimed : s.Timed) (hs : s.awaits) (env : Env) :
    ∃ t, step s (.expire env) = some t ∧ ((t.gone = true ∨ t.tsx.complete = true) ∨
      s.tsx.transmitCount < maxTransmitCount ∧ t.tsx.transmitCount = s.tsx.transmitCount + 1 ∧ t.awaits) := by
  have hscheduled := htimed hs
  obtain ⟨hgone, hsent, hcomplete, hdestroying⟩ := hs
  have hpop : s.tsx.popTimer.retransmitTimer.scheduled = false := rfl
  have hkept : s.tsx.Kept s.tsx.popTimer := ⟨rfl, rfl, rfl⟩
  have hexpiry := retransmitTimerCallback_spec (hkept.isDestroying.trans hdestroying) hpop env
  refine ⟨_, step_expire hgone hscheduled env, ?_⟩
  generalize s.tsx.popTimer.retransmitTimerCallback env = result at hexpiry
  cases hexpiry with
  | finished hkept' htimer hnotgone =>
    refine .inl (.inr ?_)
    dsimp only
    rw [(finish_spec _ _).1]
  | destroyed hkept' => exact .inl (.inl (decide_eq_true (Eq.refl Status.estundestroyed)))
  | again hkept' hlow hcount hretransmit htimer =>
    have hlow' : s.tsx.transmitCount < maxTransmitCount := hlow
    refine .inr ⟨hlow', ?_, decide_eq_false (Status.noConfusion : ¬Status.success = .estundestroyed), hsent, ?_, ?_⟩
    · have hsmall : s.tsx.transmitCount + 1 < 2 ^ 32 := (Nat.succ_le_of_lt hlow').trans_lt (by decide)
      dsimp only
      rw [hcount]
      exact Nat.mod_eq_of_lt hsmall
    · exact hkept'.complete.trans hcomplete
    · exact hkept'.isDestroying.trans hdestroying

theorem exists_end {s : State} (hinv : Inv s) (htimed : s.Timed) (hs : s.awaits) (envs : Nat → Env) :
    ∃ n t, exec step s ((List.range n).map fun i => .expire (envs i)) = some t ∧
      (t.gone = true ∨ t.tsx.complete = true) := by
  obtain ⟨k, hk⟩ : ∃ k, maxTransmitCount ≤ s.tsx.transmitCount + k := ⟨maxTransmitCount, Nat.le_add_left _ _⟩
  induction k generalizing s envs with
  | zero =>
    obtain ⟨t, ht, hend | ⟨hlow, -⟩⟩ := exists_expire htimed hs (envs 0)
    · exact ⟨1, t, exec_cons_eq_some.mpr ⟨t, ht, rfl⟩, hend⟩
    · exact absurd hlow (Nat.not_lt.mpr hk)
  | succ k ih =>
    obtain ⟨t, ht, hend | ⟨hlow, hcount, hawaits⟩⟩ := exists_expire htimed hs (envs 0)
    · exact ⟨1, t, exec_cons_eq_some.mpr ⟨t, ht, rfl⟩, hend⟩
    · obtain ⟨hinv', htimed'⟩ := steps hinv htimed ht
      obtain ⟨n, u, hu, hend⟩ := ih hinv' (htimed'.mpr trivial) hawaits (fun i => envs (i + 1)) (by omega)
      refine ⟨n + 1, u, ?_, hend⟩
      rw [List.range_succ_eq_map, List.map_cons, List.map_map]
      exact exec_cons_eq_some.mpr ⟨t, ht, hu⟩

/-- A state that the invariant holds in is a good one when the timer is there. -/
theorem ends_iff {s : State} (hinv : Inv s) : Ends s ↔ s.Timed :=
  ⟨fun h => h.timed, fun htimed => ⟨hinv.once, htimed, exists_end hinv htimed⟩⟩

theorem inv_start (rtoMsec : Nat) (onComplete onDestroy : Bool) : Inv (start rtoMsec onComplete onDestroy) := by
  have hlive : Live (create rtoMsec onComplete onDestroy) := ⟨.inl rfl, fun _ => rfl, fun _ => rfl⟩
  exact ⟨Nat.zero_le _, fun _ => rfl, fun _ => hlive, fun h => absurd h.2.1 Bool.false_ne_true⟩

/-- In a run of whatever calls the transaction always comes to its end, at once or by its timer, exactly when every call
leaves it with a timer. -/
theorem ends_iff_keepsTimer (rtoMsec : Nat) (onComplete onDestroy : Bool) (calls : List Call) (u : State)
    (h : exec step (start rtoMsec onComplete onDestroy) calls = some u) :
    (∀ n v, exec step (start rtoMsec onComplete onDestroy) (calls.take n) = some v → Ends v) ↔
      Meets step KeepsTimer (start rtoMsec onComplete onDestroy) calls := by
  have hinv := inv_start rtoMsec onComplete onDestroy
  have hstart : Ends (start rtoMsec onComplete onDestroy) := (ends_iff hinv).mpr fun h => absurd h.2.1 Bool.false_ne_true
  refine forall_take_iff_meets (P := Inv) (fun s call t hs hgood hstep => ?_) hinv hstart h
  obtain ⟨ht, hiff⟩ := steps hs ((ends_iff hs).mp hgood) hstep
  exact ⟨ht, (ends_iff ht).trans hiff⟩

/-- The heap takes the timer and the message goes out. -/
def accepted : Env := ⟨true, .success⟩

def response (type : UInt16) (attrs : List Stun.Attr) : Stun.Msg := ⟨⟨type, 0, Stun.stunMagic, Stun.sampleTsxId⟩, attrs⟩

/-- A request is sent, retransmitted by the timer and by hand, and answered. -/
def answered : List Call :=
  [.sendMsg true [0] accepted, .expire accepted, .retransmit false accepted, .onRxMsg (response 0x0101 [])]

theorem ends_iff_keepsTimer_answered :
    ∃ u, exec step (start 100 true true) answered = some u ∧
      ∀ n v, exec step (start 100 true true) (answered.take n) = some v → Ends v := by
  refine ⟨_, rfl, (ends_iff_keepsTimer 100 true true _ _ rfl).mpr ?_⟩
  decide

/-- The timer gets lost when a retransmission is counted though the transport is reliable, when a response has a code
up to 200, and when a retransmission that is counted fails. -/
theorem timer_lost :
    (∃ v, exec step (start 100 true true) [.sendMsg false [0] accepted, .retransmit true accepted] = some v ∧ ¬Ends v) ∧
      (∃ v, exec step (start 100 true true) [.sendMsg true [0] accepted,
        .onRxMsg (response 0x0111 [.errcode ⟨0x0009, 4⟩ 100 []])] = some v ∧ ¬Ends v) ∧
      ∃ v, exec step (start 100 true true) [.sendMsg true [0] accepted, .retransmit true ⟨true, .failure 2⟩] = some v ∧
        ¬Ends v := by
  refine ⟨⟨_, rfl, fun h => ?_⟩, ⟨_, rfl, fun h => ?_⟩, ⟨_, rfl, fun h => ?_⟩⟩
  all_goals exact absurd (h.timed (by decide)) (by decide)

end PjProject.StunTsx
