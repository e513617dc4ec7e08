import PjProject.SessionTimer

/-! The session timers of a call. The two fields that say who refreshes the session are read here as an endpoint of the
call, which does not depend on the transaction: a step never changes it, as long as no 2xx response is created for an
INVITE when the endpoint has taken the other role since it processed that INVITE. -/

namespace PjProject.SessionTimer

/-- The endpoint that has to refresh the session, in the eyes of `me`. -/
def Timer.refreshedBy (me : End) (t : Timer) : Option End :=
  match t.refresher, t.role with
  | .unknown, _ => none
  | .uac, .uac | .uas, .uas => some me
  | .uac, .uas | .uas, .uac => some me.other

/-- The endpoint that a header names when the transaction has this client. -/
def Refresher.named (client : End) : Refresher → Option End
  | .unknown => none
  | .uac => some client
  | .uas => some client.other

@[simp] theorem other_other (e : End) : e.other.other = e := by
  cases e <;> rfl

theorem asRefresher_eq (me : End) {t : Timer} {e : End} (h : t.refreshedBy me = some e) :
    t.asRefresher = decide (e = me) := by
  cases hrefresher : t.refresher <;> cases hrole : t.role <;> cases me <;> cases e <;>
    simp_all [Timer.refreshedBy, Timer.asRefresher, End.other]

/-! What the functions of `sip_timer.c` make of it. -/

theorem refreshedBy_updateReq (me : End) (t : Timer) : (updateReq t).refreshedBy me = t.refreshedBy me := by
  unfold updateReq
  split
  · rfl
  · cases hrefresher : t.refresher <;> cases hrole : t.role <;> simp_all [Timer.refreshedBy, Timer.asRefresher]

/-- The header of a request names the refresher of the endpoint that sends it. -/
theorem named_updateReq (me : End) (t : Timer) : (updateReq t).refresher.named me = t.refreshedBy me := by
  unfold updateReq
  split
  · rename_i hunknown
    rw [hunknown, Timer.refreshedBy, hunknown]
    rfl
  · cases hrefresher : t.refresher <;> cases hrole : t.role <;>
      simp_all [Timer.refreshedBy, Timer.asRefresher, Refresher.named]

theorem updateReq_unchanged (t : Timer) :
    (updateReq t).sessExpires = t.sessExpires ∧ (updateReq t).minSe = t.minSe ∧
      (updateReq t).active = t.active ∧ (updateReq t).scheduled = t.scheduled := by
  unfold updateReq
  split <;> exact ⟨rfl, rfl, rfl, rfl⟩

/-- A request whose interval is not too small is taken as it is. -/
theorem processReq_of_le (opt : Options) (me : End) (t : Timer) {hdr : SessExpiresHdr} {minSe : Nat}
    (hle : max minSe t.minSe ≤ hdr.sessExpires) :
    ∃ next, processReq opt t (some hdr) (some minSe) true = (next, .success) ∧
      next.sessExpires = hdr.sessExpires ∧ next.minSe = t.minSe ∧ next.active = true ∧ next.scheduled = t.scheduled ∧
      next.role = .uas ∧
      next.refreshedBy me = some (((hdr.refresher.named me.other).or (t.refreshedBy me)).getD me.other) := by
  unfold processReq
  rw [Option.getD_some]
  simp only [if_neg (Nat.not_lt.mpr hle)]
  refine ⟨_, rfl, rfl, rfl, rfl, rfl, rfl, ?_⟩
  obtain ⟨sessExpires, refresher⟩ := hdr
  cases refresher with
  | uac => rfl
  | uas => simp [reqRefresher, Timer.refreshedBy, Refresher.named]
  | unknown =>
    cases hrefresher : t.refresher <;> cases hrole : t.role <;>
      simp [reqRefresher, Timer.refreshedBy, Timer.asRefresher, Refresher.named, hrefresher, hrole]

theorem processReq_of_lt (opt : Options) {t : Timer} {hdr : SessExpiresHdr} {minSe : Nat}
    (hlt : hdr.sessExpires < max minSe t.minSe) : processReq opt t (some hdr) (some minSe) true = (t, .tooSmall) := by
  unfold processReq
  rw [Option.getD_some]
  simp only [if_pos hlt]

/-- In the role of the server, the header of a response names the refresher of the endpoint that sends it. -/
theorem named_of_uas (me : End) {t : Timer} (hrole : t.role = .uas) :
    t.refresher.named me.other = t.refreshedBy me := by
  cases hrefresher : t.refresher <;> simp [Refresher.named, Timer.refreshedBy, hrefresher, hrole]

/-- A response with the interval that the endpoint has already. -/
theorem processResp2xx_of_eq (opt : Options) (me : End) {t : Timer} {hdr : SessExpiresHdr} {e : End}
    (heq : hdr.sessExpires = t.sessExpires) (hmin : t.minSe ≤ t.sessExpires) (hnamed : hdr.refresher.named me = some e) :
    ∃ next, processResp2xx opt t (some hdr) = (next, .success) ∧
      next.sessExpires = t.sessExpires ∧ next.minSe = t.minSe ∧ next.active = true ∧
      next.refreshedBy me = some e ∧ next.scheduled = some next.delays := by
  have haccept : acceptBadSe t hdr = t := by
    unfold acceptBadSe
    rw [if_neg fun h => by omega]
  have hupdate : updateSe t hdr = { t with sessExpires := hdr.sessExpires } := by
    unfold updateSe
    rw [haccept, if_pos ⟨heq.le, heq ▸ hmin⟩]
  unfold processResp2xx
  simp only [hupdate]
  refine ⟨_, rfl, heq, rfl, rfl, ?_, rfl⟩
  obtain ⟨sessExpires, refresher⟩ := hdr
  cases refresher with
  | unknown => cases hnamed
  | uac => exact hnamed
  | uas => exact hnamed

/-! The system. -/

theorem timer_setTimer_self (s : Call) (e : End) (t : Timer) : (s.setTimer e t).timer e = t :=
  Function.update_self ..

theorem timer_setTimer_of_ne (s : Call) {e other : End} (hne : other ≠ e) (t : Timer) :
    (s.setTimer e t).timer other = s.timer other :=
  Function.update_of_ne hne ..

theorem setTimer_timer (s : Call) (e : End) : s.setTimer e (s.timer e) = s := by
  unfold Call.setTimer
  rw [Function.update_eq_self]

/-- What an endpoint has once it has processed a request. -/
structure Timer.Engaged (me : End) (t : Timer) : Prop where
  active : t.active = true
  refreshed : t.refreshedBy me = some .caller

/-- The timers of an endpoint are scheduled for what it takes the session to be. -/
structure Timer.Settled (me : End) (t : Timer) : Prop extends t.Engaged me where
  scheduled : t.scheduled = some t.delays

structure Request.Good (interval : Nat) (req : Request) : Prop where
  sessExpires : req.seHdr.sessExpires = interval
  minSe : req.minSe ≤ interval
  named : req.seHdr.refresher.named req.sender = some .caller ∨
    req.seHdr.refresher = .unknown ∧ req.sender = .caller

def Msg.Good (interval : Nat) : Msg → Prop
  | .request req => req.Good interval
  | .ok e seHdr => ∃ hdr, seHdr = some hdr ∧ hdr.sessExpires = interval ∧ hdr.refresher.named e = some .caller
  | .tooSmall _ _ _ _ => False
  | .failed _ => True

/-- The call after the callee has processed a request. The caller knows no refresher until it has processed a message of the
callee. -/
structure Joined (interval : Nat) (s : Call) : Prop where
  joined : s.joined = true
  sessExpires : ∀ e, (s.timer e).sessExpires = interval
  minSe : ∀ e, (s.timer e).minSe ≤ interval
  callee : (s.timer .callee).Engaged .callee
  caller : (s.timer .caller).Engaged .caller ∨ (s.timer .caller).refresher = .unknown
  net : ∀ msg ∈ s.net, msg.Good interval
  pending : ∀ req ∈ s.pending, req.Good interval ∧ (s.timer req.sender.other).Engaged req.sender.other
  settled : 0 < s.answered → ∀ e, (s.timer e).Settled e ∨ ∃ seHdr, .ok e seHdr ∈ s.net

/-- A message before that: the first INVITE with the headers of the timer, or a final response to it. -/
def Msg.First (t : Timer) : Msg → Prop
  | .request req => req.sender = .caller ∧ req.seHdr = t.seHdr ∧ req.minSe = t.minSe
  | .ok _ _ => False
  | .tooSmall e _ _ _ => e = .caller
  | .failed _ => True

structure Before (s : Call) : Prop where
  joined : s.joined = false
  refresher : ∀ e, (s.timer e).refresher = .unknown
  minSe : (s.timer .caller).minSe ≤ (s.timer .caller).sessExpires
  net : s.net = [] ∨ s.started = true ∧ ∃ msg, s.net = [msg] ∧ msg.First (s.timer .caller)
  pending : s.pending = []
  answered : s.answered = 0

def Inv (s : Call) : Prop := Before s ∨ ∃ interval, Joined interval s

/-- An endpoint that creates a 2xx response for a pending INVITE is still in the role of the server. -/
def AnsweredAsServer (s : Call) : Action → Prop
  | .answer i => ∀ req ∈ s.pending[i]?, (s.timer req.sender.other).role = .uas
  | _ => True

instance decidableAnsweredAsServer (s : Call) : (a : Action) → Decidable (AnsweredAsServer s a)
  | .answer i => inferInstanceAs (Decidable (∀ req ∈ s.pending[i]?, (s.timer req.sender.other).role = .uas))
  | .send _ _ | .request _ _ | .response _ _ | .initialAnswer _ | .refuse _ => .isTrue trivial

/-- A timer may take the place of the one that the endpoint has in a call with this session interval. -/
structure Timer.Keeps (interval : Nat) (me : End) (t next : Timer) : Prop where
  sessExpires : next.sessExpires = interval
  minSe : next.minSe ≤ interval
  engaged : t.Engaged me → next.Engaged me
  unknown : t.refresher = .unknown → next.Engaged me ∨ next.refresher = .unknown
  settled : t.Settled me → next.Settled me

/-- The delays depend on the session interval and on who refreshes the session. -/
theorem Timer.Settled.congr {me : End} {t next : Timer} (hsettled : t.Settled me) (hengaged : next.Engaged me)
    (hsess : next.sessExpires = t.sessExpires) (hscheduled : next.scheduled = t.scheduled) : next.Settled me where
  toEngaged := hengaged
  scheduled := by
    rw [hscheduled, hsettled.scheduled]
    unfold Timer.delays
    rw [asRefresher_eq me hengaged.refreshed, asRefresher_eq me hsettled.refreshed, hsess]

theorem keeps_of_settled {interval : Nat} {me : End} (t : Timer) {next : Timer} (hsess : next.sessExpires = interval)
    (hmin : next.minSe ≤ interval) (hsettled : next.Settled me) : t.Keeps interval me next where
  sessExpires := hsess
  minSe := hmin
  engaged _ := hsettled.toEngaged
  unknown _ := .inl hsettled.toEngaged
  settled _ := hsettled

theorem keeps_updateReq {interval : Nat} (me : End) {t : Timer} (hsess : t.sessExpires = interval)
    (hmin : t.minSe ≤ interval) : t.Keeps interval me (updateReq t) := by
  obtain ⟨hsess', hmin', hactive, hscheduled⟩ := updateReq_unchanged t
  have hengaged (h : t.Engaged me) : (updateReq t).Engaged me :=
    ⟨hactive.trans h.active, (refreshedBy_updateReq me t).trans h.refreshed⟩
  refine ⟨hsess'.trans hsess, hmin'.le.trans hmin, hengaged, fun h => .inr ?_, fun h => ?_⟩
  · unfold updateReq
    rw [if_pos h]
    exact h
  · exact h.congr (hengaged h.toEngaged) hsess' hscheduled

/-- An endpoint takes over what a request of the other one says. -/
theorem exists_processReq {interval : Nat} (opt : Options) {me : End} {t : Timer} {req : Request}
    (hsess : t.sessExpires = interval) (hmin : t.minSe ≤ interval) (hgood : req.Good interval)
    (hsender : req.sender = me.other) (hcallee : me = .callee → t.Engaged me) :
    ∃ next, processReq opt t (some req.seHdr) (some req.minSe) true = (next, .success) ∧
      next.Engaged me ∧ next.role = .uas ∧ t.Keeps interval me next := by
  obtain ⟨next, heq, hnext, hminSe, hactive, hscheduled, hrole, hrefreshed⟩ :=
    processReq_of_le opt me t (hgood.sessExpires.symm ▸ Nat.max_le.mpr ⟨hgood.minSe, hmin⟩)
  have hengaged : next.Engaged me := by
    refine ⟨hactive, hrefreshed.trans ?_⟩
    rcases hgood.named with hnamed | ⟨hunknown, hcaller⟩
    · rw [← hsender, hnamed]
      rfl
    · have hme : me = .callee := by
        rw [← other_other me, ← hsender, hcaller]
        rfl
      rw [hunknown, (hcallee hme).refreshed]
      rfl
  have hinterval : next.sessExpires = interval := hnext.trans hgood.sessExpires
  exact ⟨next, heq, hengaged, hrole, hinterval, hminSe.le.trans hmin, fun _ => hengaged, fun _ => .inl hengaged,
    fun h => h.congr hengaged (hinterval.trans hsess.symm) hscheduled⟩

/-! What keeps a call joined. -/

namespace Joined

variable {interval : Nat} {s : Call}

theorem setTimer (h : Joined interval s) {e : End} {t : Timer} (hkeeps : (s.timer e).Keeps interval e t) :
    Joined interval (s.setTimer e t) := by
  have hcases (other : End) : (s.setTimer e t).timer other = s.timer other ∨
      e = other ∧ (s.setTimer e t).timer other = t := by
    by_cases heq : e = other
    · exact .inr ⟨heq, by rw [← heq, timer_setTimer_self]⟩
    · exact .inl (timer_setTimer_of_ne s (Ne.symm heq) t)
  have hengaged (other : End) (hold : (s.timer other).Engaged other) :
      ((s.setTimer e t).timer other).Engaged other := by
    rcases hcases other with heq | ⟨rfl, heq⟩
    · rw [heq]
      exact hold
    · rw [heq]
      exact hkeeps.engaged hold
  refine ⟨h.joined, fun other => ?_, fun other => ?_, hengaged .callee h.callee, ?_, h.net,
    fun req hreq => ⟨(h.pending req hreq).1, hengaged _ (h.pending req hreq).2⟩, fun hanswered other => ?_⟩
  · rcases hcases other with heq | ⟨rfl, heq⟩
    · rw [heq]
      exact h.sessExpires other
    · rw [heq]
      exact hkeeps.sessExpires
  · rcases hcases other with heq | ⟨rfl, heq⟩
    · rw [heq]
      exact h.minSe other
    · rw [heq]
      exact hkeeps.minSe
  · rcases hcases .caller with heq | ⟨rfl, heq⟩
    · rw [heq]
      exact h.caller
    · rw [heq]
      exact h.caller.elim (fun hold => .inl (hkeeps.engaged hold)) hkeeps.unknown
  · refine (h.settled hanswered other).imp_left fun hold => ?_
    rcases hcases other with heq | ⟨rfl, heq⟩
    · rw [heq]
      exact hold
    · rw [heq]
      exact hkeeps.settled hold

theorem put (h : Joined interval s) (msg : Msg) (hgood : msg.Good interval) : Joined interval (s.put msg) where
  joined := h.joined
  sessExpires := h.sessExpires
  minSe := h.minSe
  callee := h.callee
  caller := h.caller
  net other hother := by
    rcases List.mem_append.mp hother with hold | hnew
    · exact h.net other hold
    · rw [List.mem_singleton.mp hnew]
      exact hgood
  pending := h.pending
  settled hanswered e := (h.settled hanswered e).imp_right fun ⟨seHdr, hmem⟩ => ⟨seHdr, List.mem_append_left _ hmem⟩

/-- A message is delivered; when it is a 2xx response, the endpoint has its timers scheduled already. -/
theorem eraseNet (h : Joined interval s) {i : Nat}
    (hok : ∀ e seHdr, s.net[i]? = some (.ok e seHdr) → (s.timer e).Settled e) :
    Joined interval { s with net := s.net.eraseIdx i } where
  joined := h.joined
  sessExpires := h.sessExpires
  minSe := h.minSe
  callee := h.callee
  caller := h.caller
  net msg hmsg := h.net msg (List.mem_of_mem_eraseIdx hmsg)
  pending := h.pending
  settled hanswered e := by
    rcases h.settled hanswered e with hsettled | ⟨seHdr, hmem⟩
    · exact .inl hsettled
    · obtain ⟨j, hj⟩ := List.mem_iff_getElem?.mp hmem
      by_cases hji : j = i
      · exact .inl (hok e seHdr (hji ▸ hj))
      · exact .inr ⟨seHdr, List.mem_eraseIdx_iff_getElem?.mpr ⟨j, hji, hj⟩⟩

theorem setPending (h : Joined interval s) {pending : List Request}
    (hpending : ∀ req ∈ pending, req.Good interval ∧ (s.timer req.sender.other).Engaged req.sender.other) :
    Joined interval { s with pending } where
  joined := h.joined
  sessExpires := h.sessExpires
  minSe := h.minSe
  callee := h.callee
  caller := h.caller
  net := h.net
  pending := hpending
  settled := h.settled

theorem erasePending (h : Joined interval s) (i : Nat) : Joined interval { s with pending := s.pending.eraseIdx i } :=
  h.setPending fun req hreq => h.pending req (List.mem_of_mem_eraseIdx hreq)

theorem putPending (h : Joined interval s) {req : Request} (hgood : req.Good interval)
    (hengaged : (s.timer req.sender.other).Engaged req.sender.other) :
    Joined interval { s with pending := s.pending ++ [req] } := by
  apply h.setPending
  intro other hother
  rcases List.mem_append.mp hother with hold | hnew
  · exact h.pending other hold
  · rw [List.mem_singleton.mp hnew]
    exact ⟨hgood, hengaged⟩

theorem engaged_or (h : Joined interval s) (e : End) :
    (s.timer e).Engaged e ∨ e = .caller ∧ (s.timer e).refresher = .unknown := by
  cases e with
  | callee => exact .inl h.callee
  | caller => exact h.caller.imp_right fun hunknown => ⟨rfl, hunknown⟩

/-- Either endpoint may send a request. -/
theorem send (h : Joined interval s) (e : End) (method : Method) :
    Joined interval ((s.setTimer e (updateReq (s.timer e))).send e method) := by
  have hnext := h.setTimer (keeps_updateReq e (h.sessExpires e) (h.minSe e))
  have hself : (s.setTimer e (updateReq (s.timer e))).timer e = updateReq (s.timer e) := timer_setTimer_self ..
  have hgood : Request.Good interval
      { sender := e
        method := method
        cseq := s.cseq e
        seHdr := ((s.setTimer e (updateReq (s.timer e))).timer e).seHdr
        minSe := ((s.setTimer e (updateReq (s.timer e))).timer e).minSe } := by
    refine ⟨hnext.sessExpires e, hnext.minSe e, ?_⟩
    rw [hself]
    rcases h.engaged_or e with hengaged | ⟨hcaller, hunknown⟩
    · exact .inl ((named_updateReq e _).trans hengaged.refreshed)
    · refine .inr ⟨?_, hcaller⟩
      unfold updateReq
      rw [if_pos hunknown]
      exact hunknown
  have hput := hnext.put (.request _) hgood
  exact ⟨hput.joined, hput.sessExpires, hput.minSe, hput.callee, hput.caller, hput.net, hput.pending, hput.settled⟩

theorem process (h : Joined interval s) (opt : End → Options) {req : Request} (hgood : req.Good interval)
    (next : Call → Call) :
    ∃ t, s.process opt req next = next { s.setTimer req.sender.other t with joined := true } ∧
      t.Engaged req.sender.other ∧ t.role = .uas ∧
      Joined interval { s.setTimer req.sender.other t with joined := true } := by
  obtain ⟨t, heq, hengaged, hrole, hkeeps⟩ := exists_processReq (opt req.sender.other)
    (h.sessExpires req.sender.other) (h.minSe req.sender.other) hgood (other_other _).symm
    (fun hcallee => by rw [hcallee]; exact h.callee)
  have hset := h.setTimer hkeeps
  refine ⟨t, ?_, hengaged, hrole,
    ⟨rfl, hset.sessExpires, hset.minSe, hset.callee, hset.caller, hset.net, hset.pending, hset.settled⟩⟩
  unfold Call.process
  simp only [heq]

/-- A 2xx response of an endpoint that is in the role of the server. -/
theorem answerOk (h : Joined interval s) {req : Request}
    (hengaged : (s.timer req.sender.other).Engaged req.sender.other)
    (hrole : (s.timer req.sender.other).role = .uas) : Joined interval (s.answerOk req) := by
  have hresp : updateResp (s.timer req.sender.other) =
      (startTimer (s.timer req.sender.other), some (s.timer req.sender.other).seHdr) := by
    unfold updateResp
    rw [if_pos hengaged.active]
  have hsettled : (startTimer (s.timer req.sender.other)).Settled req.sender.other :=
    { active := hengaged.active, refreshed := hengaged.refreshed, scheduled := rfl }
  have hkeeps : (s.timer req.sender.other).Keeps interval req.sender.other (startTimer (s.timer req.sender.other)) :=
    keeps_of_settled _ (h.sessExpires req.sender.other) (h.minSe req.sender.other) hsettled
  have hset := h.setTimer hkeeps
  have hnamed : (s.timer req.sender.other).refresher.named req.sender = some .caller := by
    have hown := named_of_uas req.sender.other hrole
    rw [other_other] at hown
    exact hown.trans hengaged.refreshed
  have hput := hset.put (.ok req.sender (some (s.timer req.sender.other).seHdr))
    ⟨_, rfl, h.sessExpires req.sender.other, hnamed⟩
  unfold Call.answerOk
  simp only [hresp]
  refine ⟨hput.joined, hput.sessExpires, hput.minSe, hput.callee, hput.caller, hput.net, hput.pending, fun _ e => ?_⟩
  by_cases he : e = req.sender
  · refine .inr ⟨some (s.timer req.sender.other).seHdr, ?_⟩
    rw [he]
    exact List.mem_append_right _ (List.mem_singleton_self _)
  · have hother : e = req.sender.other := by
      cases e <;> cases hsender : req.sender <;> simp_all [End.other]
    refine .inl ?_
    rw [hother]
    show Timer.Settled _ ((s.setTimer req.sender.other (startTimer (s.timer req.sender.other))).timer req.sender.other)
    rw [timer_setTimer_self]
    exact hsettled

theorem step (h : Joined interval s) {opt : End → Options} {a : Action} {next : Call}
    (hstep : SessionTimer.step opt s a = some next) (hrole : AnsweredAsServer s a) : Joined interval next := by
  cases a with
  | send e method =>
    simp only [SessionTimer.step] at hstep
    rw [if_pos (.inl h.joined), Option.some.injEq] at hstep
    rw [← hstep]
    have hsend := h.send e method
    exact ⟨hsend.joined, hsend.sessExpires, hsend.minSe, hsend.callee, hsend.caller, hsend.net, hsend.pending,
      hsend.settled⟩
  | request i answer =>
    simp only [SessionTimer.step] at hstep
    split at hstep
    case h_2 => cases hstep
    case h_1 req hreq =>
      have hgood : req.Good interval := h.net _ (List.mem_of_getElem? hreq)
      have hrest := h.eraseNet (i := i) fun e seHdr hok => by rw [hreq] at hok; cases hok
      split at hstep
      · cases hstep
        exact hrest.put (.failed _) trivial
      all_goals
        obtain ⟨t, heq, hengaged, htrole, hnext⟩ := hrest.process opt hgood _
        rw [heq, Option.some.injEq] at hstep
        rw [← hstep]
        have hself : (Call.setTimer { s with net := s.net.eraseIdx i } req.sender.other t).timer req.sender.other = t :=
          timer_setTimer_self ..
      · exact hnext.put (.failed _) trivial
      · exact hnext.putPending hgood (by rw [← hself] at hengaged; exact hengaged)
      · exact hnext.answerOk (by rw [← hself] at hengaged; exact hengaged) (by rw [← hself] at htrole; exact htrole)
  | response i confirmed =>
    simp only [SessionTimer.step] at hstep
    split at hstep
    case h_1 e seHdr hok =>
      obtain ⟨hdr, rfl, hsess, hnamed⟩ := h.net _ (List.mem_of_getElem? hok)
      obtain ⟨t, heq, hsess', hmin, hactive, hrefreshed, hscheduled⟩ := processResp2xx_of_eq (opt e) e (t := s.timer e)
        (hsess.trans (h.sessExpires e).symm) (by rw [h.sessExpires e]; exact h.minSe e) hnamed
      simp only [heq, Option.some.injEq] at hstep
      rw [← hstep]
      have hsettled : t.Settled e := { active := hactive, refreshed := hrefreshed, scheduled := hscheduled }
      have hset := h.setTimer (keeps_of_settled _ (hsess'.trans (h.sessExpires e)) (hmin.le.trans (h.minSe e)) hsettled)
      refine hset.eraseNet (i := i) fun other otherHdr hother => ?_
      have hsame : some (Msg.ok e (some hdr)) = some (Msg.ok other otherHdr) := hok.symm.trans hother
      cases hsame
      rw [timer_setTimer_self]
      exact hsettled
    case h_2 e method cseq minSe hsmall => exact (h.net _ (List.mem_of_getElem? hsmall)).elim
    case h_3 e hfailed =>
      cases hstep
      exact h.eraseNet fun other seHdr hok => by rw [hfailed] at hok; cases hok
    case h_4 => cases hstep
  | initialAnswer i =>
    obtain ⟨req, hreq, hnext⟩ := Option.map_eq_some_iff.mp hstep
    obtain ⟨t, heq, hengaged, -, hprocess⟩ :=
      (h.erasePending i).process opt (h.pending req (List.mem_of_getElem? hreq)).1 _
    have hself : (Call.setTimer { s with pending := s.pending.eraseIdx i } req.sender.other t).timer req.sender.other = t :=
      timer_setTimer_self ..
    rw [← hnext, heq]
    exact hprocess.putPending (h.pending req (List.mem_of_getElem? hreq)).1 (by rw [← hself] at hengaged; exact hengaged)
  | answer i =>
    obtain ⟨req, hreq, hnext⟩ := Option.map_eq_some_iff.mp hstep
    rw [← hnext]
    exact (h.erasePending i).answerOk (h.pending req (List.mem_of_getElem? hreq)).2 (hrole req hreq)
  | refuse i =>
    obtain ⟨req, -, hnext⟩ := Option.map_eq_some_iff.mp hstep
    rw [← hnext]
    exact (h.erasePending i).put (.failed _) trivial

/-- When every message has been delivered, the endpoints agree. -/
theorem agrees (h : Joined interval s) (hquiet : s.Quiet) : s.Agrees := by
  obtain ⟨hnet, -, hanswered⟩ := hquiet
  have hsettled (e : End) : (s.timer e).Settled e := by
    refine (h.settled hanswered e).resolve_right fun ⟨seHdr, hmem⟩ => ?_
    rw [hnet] at hmem
    exact List.not_mem_nil hmem
  refine ⟨?_, (h.sessExpires .caller).trans (h.sessExpires .callee).symm,
    fun e => ⟨(hsettled e).active, (hsettled e).scheduled⟩⟩
  rw [asRefresher_eq .caller (hsettled .caller).refreshed, asRefresher_eq .callee (hsettled .callee).refreshed]
  decide

end Joined

/-! The first INVITE. -/

namespace Before

variable {s : Call}

/-- A message that is delivered is the only one. -/
theorem first_of_getElem? (h : Before s) {i : Nat} {msg : Msg} (hmsg : s.net[i]? = some msg) :
    s.started = true ∧ msg.First (s.timer .caller) ∧ Before { s with net := s.net.eraseIdx i } ∧ s.net.eraseIdx i = [] := by
  rcases h.net with hnet | ⟨hstarted, first, hnet, hfirst⟩
  · rw [hnet] at hmsg
    cases hmsg
  · rw [hnet] at hmsg
    have hzero : i = 0 := by
      have hlt := (List.getElem?_eq_some_iff.mp hmsg).1
      rw [List.length_singleton] at hlt
      omega
    have hsame : first = msg := by
      rw [hzero] at hmsg
      exact Option.some.inj hmsg
    rw [hsame] at hfirst
    have hrest : s.net.eraseIdx i = [] := by
      rw [hnet, hzero]
      rfl
    exact ⟨hstarted, hfirst, ⟨h.joined, h.refresher, h.minSe, .inl hrest, h.pending, h.answered⟩, hrest⟩

theorem put (h : Before s) (hstarted : s.started = true) (hnet : s.net = []) (msg : Msg)
    (hfirst : msg.First (s.timer .caller)) : Before (s.put msg) where
  joined := h.joined
  refresher := h.refresher
  minSe := h.minSe
  net := .inr ⟨hstarted, msg, by show s.net ++ [msg] = [msg]; rw [hnet, List.nil_append], hfirst⟩
  pending := h.pending
  answered := h.answered

theorem setTimer (h : Before s) (hnet : s.net = []) {t : Timer} (hrefresher : t.refresher = .unknown)
    (hmin : t.minSe ≤ t.sessExpires) : Before (s.setTimer .caller t) where
  joined := h.joined
  refresher e := by
    cases e with
    | caller => rw [timer_setTimer_self, hrefresher]
    | callee => rw [timer_setTimer_of_ne s (by decide), h.refresher .callee]
  minSe := by rw [timer_setTimer_self]; exact hmin
  net := .inl hnet
  pending := h.pending
  answered := h.answered

/-- The caller sends the INVITE, for the first time or after a 422 response. -/
theorem send (h : Before s) (hstarted : s.started = true) (hnet : s.net = []) (method : Method) :
    Before (s.send .caller method) :=
  have hput := h.put hstarted hnet (.request _) ⟨rfl, rfl, rfl⟩
  ⟨hput.joined, hput.refresher, hput.minSe, hput.net, hput.pending, hput.answered⟩

/-- The callee takes over what the first INVITE says, or answers 422. -/
theorem process (h : Before s) (hnet : s.net = []) (opt : End → Options) {req : Request}
    (hfirst : (Msg.request req).First (s.timer .caller)) (next : Call → Call) :
    (∃ minSe, s.process opt req next = s.put (.tooSmall .caller req.method req.cseq minSe)) ∨
      ∃ t, s.process opt req next = next { s.setTimer .callee t with joined := true } ∧
        req.Good req.seHdr.sessExpires ∧ req.sender.other = .callee ∧ t.Engaged .callee ∧ t.role = .uas ∧
        Joined req.seHdr.sessExpires { s.setTimer .callee t with joined := true } := by
  obtain ⟨hsender, hseHdr, hminSe⟩ := hfirst
  have hother : req.sender.other = .callee := by
    rw [hsender]
    rfl
  have hunknown : req.seHdr.refresher = .unknown := by
    rw [hseHdr]
    exact h.refresher .caller
  rcases Nat.lt_or_ge req.seHdr.sessExpires (max req.minSe (s.timer .callee).minSe) with hlt | hle
  · refine .inl ⟨(s.timer .callee).minSe, ?_⟩
    unfold Call.process
    simp only [hother, processReq_of_lt _ hlt, setTimer_timer]
    rw [hsender]
  · obtain ⟨t, heq, hsess, hmin, hactive, -, hrole, hrefreshed⟩ :=
      processReq_of_le (opt .callee) .callee (s.timer .callee) hle
    have hengaged : t.Engaged .callee := by
      refine ⟨hactive, hrefreshed.trans ?_⟩
      rw [hunknown]
      unfold Timer.refreshedBy
      rw [h.refresher .callee]
      rfl
    have hgood : req.Good req.seHdr.sessExpires :=
      ⟨rfl, (le_max_left _ _).trans hle, .inr ⟨hunknown, hsender⟩⟩
    have hcallee : (s.setTimer .callee t).timer .callee = t := timer_setTimer_self s _ t
    have hcaller : (s.setTimer .callee t).timer .caller = s.timer .caller :=
      timer_setTimer_of_ne s (by decide) t
    have hcallerSess : (s.timer .caller).sessExpires = req.seHdr.sessExpires := by
      rw [hseHdr]
      rfl
    have hprocess : s.process opt req next = next { s.setTimer .callee t with joined := true } := by
      unfold Call.process
      simp only [hother, heq]
    refine .inr ⟨t, hprocess, hgood, hother, hengaged, hrole, ?_⟩
    refine ⟨rfl, fun e => ?_, fun e => ?_, ?_, .inr ?_, ?_, ?_, ?_⟩
    · cases e with
      | caller => rw [hcaller, hcallerSess]
      | callee => rw [hcallee, hsess]
    · cases e with
      | caller =>
        rw [hcaller, ← hcallerSess]
        exact h.minSe
      | callee =>
        rw [hcallee, hmin]
        exact (le_max_right _ _).trans hle
    · rw [hcallee]
      exact hengaged
    · rw [hcaller]
      exact h.refresher .caller
    · show ∀ msg ∈ s.net, msg.Good _
      rw [hnet]
      exact nofun
    · show ∀ other ∈ s.pending, _
      rw [h.pending]
      exact nofun
    · show 0 < s.answered → _
      rw [h.answered]
      exact fun hpos => (Nat.lt_irrefl 0 hpos).elim

theorem step (h : Before s) {opt : End → Options} {a : Action} {next : Call}
    (hstep : SessionTimer.step opt s a = some next) : Before next ∨ ∃ interval, Joined interval next := by
  cases a with
  | send e method =>
    simp only [SessionTimer.step] at hstep
    split at hstep
    case isFalse => cases hstep
    case isTrue henabled =>
      obtain ⟨rfl, rfl, hstarted⟩ := henabled.resolve_left (by rw [h.joined]; exact Bool.false_ne_true)
      have hnet : s.net = [] := by
        refine h.net.resolve_right fun hmsg => ?_
        rw [hstarted] at hmsg
        exact Bool.false_ne_true hmsg.1
      have hsame : Call.setTimer { s with started := true } .caller (updateReq (s.timer .caller)) =
          { s with started := true } := by
        unfold updateReq Call.setTimer
        rw [if_pos (h.refresher .caller), Function.update_eq_self]
      rw [hsame, Option.some.injEq] at hstep
      have hstart : Before { s with started := true } :=
        ⟨h.joined, h.refresher, h.minSe, .inl hnet, h.pending, h.answered⟩
      rw [← hstep]
      exact .inl (hstart.send rfl hnet _)
  | request i answer =>
    simp only [SessionTimer.step] at hstep
    split at hstep
    case h_2 => cases hstep
    case h_1 req hreq =>
      obtain ⟨hstarted, hfirst, hrest, hnet⟩ := h.first_of_getElem? hreq
      split at hstep
      · cases hstep
        exact .inl (hrest.put hstarted hnet (.failed _) trivial)
      all_goals
        rcases hrest.process hnet opt hfirst _ with ⟨minSe, heq⟩ | ⟨t, heq, hgood, hother, hengaged, hrole, hnext⟩
        · rw [heq, Option.some.injEq] at hstep
          rw [← hstep]
          exact .inl (hrest.put hstarted hnet (.tooSmall _ _ _ _) rfl)
        rw [heq, Option.some.injEq] at hstep
        rw [← hstep]
        refine .inr ⟨req.seHdr.sessExpires, ?_⟩
        have hself : (Call.setTimer { s with net := s.net.eraseIdx i } .callee t).timer req.sender.other = t := by
          rw [hother, timer_setTimer_self]
        rw [← hother] at hengaged
      · exact hnext.put (.failed _) trivial
      · exact hnext.putPending hgood (by rw [← hself] at hengaged; exact hengaged)
      · exact hnext.answerOk (by rw [← hself] at hengaged; exact hengaged) (by rw [← hself] at hrole; exact hrole)
  | response i confirmed =>
    simp only [SessionTimer.step] at hstep
    split at hstep
    case h_1 e seHdr hok => exact (h.first_of_getElem? hok).2.1.elim
    case h_2 e method cseq minSe hsmall =>
      obtain ⟨hstarted, rfl, hrest, hnet⟩ := h.first_of_getElem? hsmall
      unfold processResp422 at hstep
      by_cases hagain : cseq = (s.timer .caller).last422Cseq + 1
      · simp only [if_pos hagain] at hstep
        cases confirmed with
        | false => cases hstep
        | true =>
          simp only [if_true, Option.some.injEq] at hstep
          have hsame := setTimer_timer { s with net := s.net.eraseIdx i } .caller
          rw [← hstep]
          rw [hsame]
          exact .inl hrest
      · simp only [if_neg hagain, Option.some.injEq] at hstep
        rw [← hstep]
        exact .inl ((hrest.setTimer hnet (by exact h.refresher .caller) (le_max_right _ _)).send hstarted hnet _)
    case h_3 e hfailed =>
      cases hstep
      exact .inl (h.first_of_getElem? hfailed).2.2.1
    case h_4 => cases hstep
  | initialAnswer i | answer i | refuse i =>
    obtain ⟨req, hreq, -⟩ := Option.map_eq_some_iff.mp hstep
    rw [h.pending] at hreq
    cases hreq

end Before

/-! Whole runs. -/

theorem inv_step {opt : End → Options} {s next : Call} {a : Action} (hinv : Inv s) (hrole : AnsweredAsServer s a)
    (hstep : step opt s a = some next) : Inv next := by
  rcases hinv with hbefore | ⟨interval, hjoined⟩
  · exact hbefore.step hstep
  · exact .inr ⟨interval, hjoined.step hstep hrole⟩

theorem initSession_eq_some {sessExpires minSe : Nat} {t : Timer} (hinit : initSession sessExpires minSe = some t) :
    t.refresher = .unknown ∧ t.minSe ≤ t.sessExpires := by
  unfold initSession at hinit
  split at hinit
  case isTrue hsetting =>
    cases hinit
    exact ⟨rfl, hsetting.2⟩
  case isFalse => cases hinit

theorem inv_start {timer : End → Timer} (cseq : End → Int) {sessExpires minSe : End → Nat}
    (hinit : ∀ e, initSession (sessExpires e) (minSe e) = some (timer e)) : Inv (start timer cseq) :=
  .inl ⟨rfl, fun e => (initSession_eq_some (hinit e)).1, (initSession_eq_some (hinit .caller)).2,
    .inl rfl, rfl, rfl⟩

/-- When the endpoint that creates a 2xx response for an INVITE is always in the role of the server, the endpoints agree
whenever there is nothing left to deliver or to answer. -/
theorem agrees_of_answeredAsServer (opt : End → Options) {timer : End → Timer} (cseq : End → Int)
    {sessExpires minSe : End → Nat} (hinit : ∀ e, initSession (sessExpires e) (minSe e) = some (timer e))
    {acts : List Action} {s : Call} (hexec : exec (step opt) (start timer cseq) acts = some s)
    (hrole : Meets (step opt) AnsweredAsServer (start timer cseq) acts) (hquiet : s.Quiet) : s.Agrees := by
  have hinv : Inv s := exec_invariant_of_meets (fun _ _ _ hinv hmeets hstep => inv_step hinv hmeets hstep)
    (inv_start cseq hinit) hrole hexec
  rcases hinv with hbefore | ⟨interval, hjoined⟩
  · exact absurd hquiet.2.2 (by rw [hbefore.answered]; exact Nat.lt_irrefl 0)
  · exact hjoined.agrees hquiet

def defaultTimer : Timer where
  sessExpires := 1800
  minSe := 90
  active := false
  refresher := .unknown
  role := .uac
  last422Cseq := 0
  scheduled := none

/-- The caller sends a second INVITE, and before it has an answer the callee sends an UPDATE. -/
def updateBeforeAnswer : List Action :=
  [.send .caller .invite, .request 0 .accept, .answer 0, .response 0 false,
    .send .caller .invite, .request 0 .accept, .initialAnswer 0,
    .send .callee .update, .request 0 .accept, .response 0 true,
    .answer 0, .response 0 true]

theorem agrees_of_answeredAsServer_first :
    ∃ s, exec (step fun _ => ⟨false, false⟩) (start (fun _ => defaultTimer) fun _ => 1) (updateBeforeAnswer.take 4) =
      some s ∧ s.Agrees := by
  refine ⟨_, rfl, ?_⟩
  exact @agrees_of_answeredAsServer (fun _ => ⟨false, false⟩) (fun _ => defaultTimer) (fun _ => 1) (fun _ => 1800)
    (fun _ => 90) (fun _ => by decide) (updateBeforeAnswer.take 4) _ rfl (by decide) (by decide)

/-- Then neither endpoint refreshes the session. -/
theorem no_refresher_of_update_before_answer :
    ∃ s, exec (step fun _ => ⟨false, false⟩) (start (fun _ => defaultTimer) fun _ => 1) updateBeforeAnswer = some s ∧
      s.Quiet ∧ ∀ e, (s.timer e).active = true ∧ (s.timer e).asRefresher = false := by
  refine ⟨_, rfl, ?_, ?_⟩
  · decide
  · intro e
    cases e <;> decide

end PjProject.SessionTimer
