import PjProject.SessionTimer

/-! A re-INVITE or UPDATE that an endpoint of an active session receives and does not accept. The timer processes the request
before the invite session knows its answer, and `pjsip_timer_update_resp` leaves the timer alone with an answer other than 2xx. -/

namespace PjProject.SessionTimer

/-- The headers of a re-INVITE or UPDATE that `pjsip_timer_process_req` reads. -/
structure Refresh where
  seHdr : Option SessExpiresHdr
  minSeHdr : Option Nat
  supportsTimer : Bool
  deriving DecidableEq

/-- What the invite session does with it, and whether the answer is a 2xx. What `inv_check_secure_dlg` refuses is not
processed; SDP negotiation and the application come after the timer. -/
def serve (opt : Options) (t : Timer) (req : Refresh) (answer : Answer) : Timer × Bool :=
  match answer, processReq opt t req.seHdr req.minSeHdr req.supportsTimer with
  | .refuse, _ => (t, false)
  | .refuseProcessed, (next, _) => (next, false)
  | .accept, (next, .success) => ((updateResp next).1, true)
  | .accept, (next, _) => (next, false)

/-- What `timer_cb` does. -/
inductive Expiry
  | refresh
  | endSession
  deriving DecidableEq

/-- `timer_cb`; the entry may be the one of `REFRESHER_EXPIRE_TIMER_ID`. -/
def timerCb (t : Timer) (expireEntry : Bool) : Expiry :=
  if t.asRefresher ∧ expireEntry = false then .refresh else .endSession

/-- The entries that are scheduled, with what `timer_cb` does with them. -/
def Timer.expiries (t : Timer) : Option ((Nat × Expiry) × Option (Nat × Expiry)) :=
  t.scheduled.map fun delays =>
    ((delays.timer, timerCb t false), delays.expireTimer.map fun delay => (delay, timerCb t true))

/-- The session interval, the refresher and the expiries are the same. -/
def Timer.Same (t next : Timer) : Prop :=
  next.sessExpires = t.sessExpires ∧ next.asRefresher = t.asRefresher ∧ next.expiries = t.expiries

instance (t next : Timer) : Decidable (t.Same next) := inferInstanceAs (Decidable (_ ∧ _ ∧ _))

/-- The smallest interval for the request. -/
def Refresh.minSe (req : Refresh) (t : Timer) : Nat := max (req.minSeHdr.getD 0) t.minSe

/-- There is a 422 answer. -/
def Refresh.TooSmall (req : Refresh) (t : Timer) : Prop := ∃ hdr, req.seHdr = some hdr ∧ hdr.sessExpires < req.minSe t

/-- The `refresher` parameter says what the endpoint has decided already. -/
def SessExpiresHdr.Confirms (hdr : SessExpiresHdr) (t : Timer) (supportsTimer : Bool) : Prop :=
  match hdr.refresher with
  | .uac => t.asRefresher = false
  | .uas => t.asRefresher = true
  | .unknown => t.refresher ≠ .unknown ∨ supportsTimer = true

/-- The request asks for what the session has. Without a Session-Expires header and without a reason to use the timer all the
same, the timers are cancelled. -/
def Refresh.Repeats (req : Refresh) (opt : Options) (t : Timer) : Prop :=
  match req.seHdr with
  | some hdr => hdr.sessExpires = t.sessExpires ∧ hdr.Confirms t req.supportsTimer
  | none =>
    req.minSe t ≤ t.sessExpires ∧
      if opt.requireTimer ∨ opt.alwaysUseTimer then t.refresher ≠ .unknown else t.scheduled = none

theorem Timer.Same.refl (t : Timer) : t.Same t := ⟨rfl, rfl, rfl⟩

theorem same_iff {t next : Timer} (hscheduled : next.scheduled = t.scheduled) :
    t.Same next ↔ next.sessExpires = t.sessExpires ∧ next.asRefresher = t.asRefresher := by
  refine ⟨fun h => ⟨h.1, h.2.1⟩, fun h => ⟨h.1, h.2, ?_⟩⟩
  simp only [Timer.expiries, timerCb, hscheduled, h.2]

theorem same_endSession {t next : Timer} (hrefresher : next.asRefresher = t.asRefresher) (hscheduled : next.scheduled = none) :
    t.Same next ↔ next.sessExpires = t.sessExpires ∧ t.scheduled = none := by
  unfold Timer.Same Timer.expiries
  rw [hscheduled]
  cases hold : t.scheduled <;> simp [hrefresher]

/-- In the role of the server, an endpoint is the refresher for `uas`. -/
theorem asRefresher_uas {t : Timer} (hrole : t.role = .uas) : t.asRefresher = decide (t.refresher = .uas) := by
  cases hrefresher : t.refresher <;> simp [Timer.asRefresher, hrole, hrefresher]

theorem reqRefresher_kept (t : Timer) {seHdr : Option SessExpiresHdr} (supportsTimer : Bool)
    (hunnamed : ∀ hdr, seHdr = some hdr → hdr.refresher = .unknown) (hknown : t.refresher ≠ .unknown) :
    decide (reqRefresher t seHdr supportsTimer = .uas) = t.asRefresher := by
  have hkeep : reqRefresher t seHdr supportsTimer = if t.asRefresher then .uas else .uac := by
    cases seHdr with
    | none => exact if_pos hknown
    | some hdr =>
      obtain ⟨sessExpires, refresher⟩ := hdr
      obtain rfl : refresher = .unknown := hunnamed _ rfl
      exact if_pos hknown
  rw [hkeep]
  cases t.asRefresher <;> rfl

theorem asRefresher_unknown {t : Timer} (hunknown : t.refresher = .unknown) : t.asRefresher = false := by
  simp [Timer.asRefresher, hunknown]

theorem confirms_iff (t : Timer) (hdr : SessExpiresHdr) (supportsTimer : Bool) :
    decide (reqRefresher t (some hdr) supportsTimer = .uas) = t.asRefresher ↔ hdr.Confirms t supportsTimer := by
  obtain ⟨sessExpires, refresher⟩ := hdr
  cases refresher with
  | uac => exact eq_comm
  | uas => exact eq_comm
  | unknown =>
    by_cases hknown : t.refresher = .unknown
    · rw [asRefresher_unknown hknown]
      cases supportsTimer <;> simp [reqRefresher, SessExpiresHdr.Confirms, hknown]
    · exact iff_of_true (reqRefresher_kept t supportsTimer (by rintro _ ⟨⟩; rfl) hknown) (Or.inl hknown)

theorem noHdr_iff (t : Timer) (supportsTimer : Bool) :
    decide (reqRefresher t none supportsTimer = .uas) = t.asRefresher ↔ t.refresher ≠ .unknown := by
  by_cases hknown : t.refresher = .unknown
  · simp [reqRefresher, hknown, asRefresher_unknown hknown]
  · exact iff_of_true (reqRefresher_kept t supportsTimer (by rintro _ ⟨⟩) hknown) hknown

theorem same_processReq (opt : Options) (t : Timer) (req : Refresh) :
    t.Same (processReq opt t req.seHdr req.minSeHdr req.supportsTimer).1 ↔ req.TooSmall t ∨ req.Repeats opt t := by
  obtain ⟨seHdr, minSeHdr, supportsTimer⟩ := req
  cases seHdr with
  | some hdr =>
    by_cases hsmall : hdr.sessExpires < max (minSeHdr.getD 0) t.minSe
    · refine iff_of_true ?_ (Or.inl ⟨hdr, rfl, hsmall⟩)
      simp only [processReq, if_pos hsmall]
      exact Timer.Same.refl t
    · have hlarge : ¬ Refresh.TooSmall ⟨some hdr, minSeHdr, supportsTimer⟩ t := by
        rintro ⟨_, ⟨⟩, hlt⟩
        exact hsmall hlt
      simp only [processReq, if_neg hsmall]
      rw [same_iff (by rfl), asRefresher_uas (by rfl), confirms_iff, or_iff_right hlarge]
      rfl
  | none =>
    have hlarge : ¬ Refresh.TooSmall ⟨none, minSeHdr, supportsTimer⟩ t := by rintro ⟨_, ⟨⟩, _⟩
    have hinterval : (if t.sessExpires < max (minSeHdr.getD 0) t.minSe then max (minSeHdr.getD 0) t.minSe
        else t.sessExpires) = t.sessExpires ↔ max (minSeHdr.getD 0) t.minSe ≤ t.sessExpires := by
      split <;> omega
    rw [or_iff_right hlarge]
    by_cases huse : opt.requireTimer ∨ opt.alwaysUseTimer
    · simp only [processReq, Refresh.Repeats, if_pos huse]
      rw [same_iff (by rfl), asRefresher_uas (by rfl)]
      exact and_congr hinterval (noHdr_iff _ _)
    · simp only [processReq, Refresh.Repeats, if_neg huse]
      rw [same_endSession (by rfl) (by rfl)]
      exact and_congr_left fun _ => hinterval

theorem serve_refused {opt : Options} {t : Timer} {req : Refresh} {answer : Answer}
    (hrefused : (serve opt t req answer).2 = false) (hanswer : answer ≠ .refuse) :
    (serve opt t req answer).1 = (processReq opt t req.seHdr req.minSeHdr req.supportsTimer).1 := by
  unfold serve at hrefused ⊢
  split at hrefused
  · exact absurd rfl hanswer
  · next heq => rw [heq]
  · cases hrefused
  · next heq => rw [heq]

/-- A refused request leaves the session as it is exactly when it is refused before the timer takes its values, or when they
are what the session has. -/
theorem same_of_refused_iff (opt : Options) (t : Timer) (req : Refresh) (answer : Answer) (_hactive : t.active = true)
    (hrefused : (serve opt t req answer).2 = false) :
    t.Same (serve opt t req answer).1 ↔ answer = .refuse ∨ req.TooSmall t ∨ req.Repeats opt t := by
  by_cases hanswer : answer = .refuse
  · subst hanswer
    exact iff_of_true (Timer.Same.refl t) (Or.inl rfl)
  · rw [serve_refused hrefused hanswer, same_processReq, or_iff_right hanswer]

/-- A session of 1800 s that this endpoint refreshes. -/
def refreshing : Timer :=
  startTimer
    { sessExpires := 1800, minSe := 90, active := true, refresher := .uac, role := .uac, last422Cseq := 0, scheduled := none }

theorem refreshing_kept :
    refreshing.Same (serve ⟨false, false⟩ refreshing ⟨some ⟨1800, .uas⟩, none, true⟩ .refuseProcessed).1 :=
  (same_of_refused_iff ⟨false, false⟩ refreshing ⟨some ⟨1800, .uas⟩, none, true⟩ .refuseProcessed rfl rfl).mpr
    (Or.inr (Or.inr ⟨rfl, rfl⟩))

/-- After a refused request with `Session-Expires: 90;refresher=uac`, the interval is 90 s, and the timer that runs ends the
session after 900 s instead of refreshing it. -/
theorem refused_changes_session :
    refreshing.active = true ∧
      (serve ⟨false, false⟩ refreshing ⟨some ⟨90, .uac⟩, none, true⟩ .refuseProcessed).2 = false ∧
      refreshing.expiries = some ((900, .refresh), some (1800, .endSession)) ∧
      (serve ⟨false, false⟩ refreshing ⟨some ⟨90, .uac⟩, none, true⟩ .refuseProcessed).1.expiries =
        some ((900, .endSession), some (1800, .endSession)) ∧
      ¬ refreshing.Same (serve ⟨false, false⟩ refreshing ⟨some ⟨90, .uac⟩, none, true⟩ .refuseProcessed).1 := by
  decide

end PjProject.SessionTimer
