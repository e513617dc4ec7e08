import PjProject.SdpNegMem

/-! What a failed exchange of descriptions leaves behind. The initial description of the time before the exchange is kept
aside, by every call that begins one, and put back by those that end one without success. -/

namespace PjProject.SdpNeg

open Sdp

/-! The negotiator of values. -/

/-- How the descriptions stand in an exchange that began with the initial description `begun`. -/
structure Begun (neg : Neg) (begun : Option Session) (succeeded : Bool) : Prop where
  idle : neg.state = .done → neg.initialSdpTmp = none ∧ neg.negLocalSdp = none ∧ neg.negRemoteSdp = none ∧
    neg.hasRemoteAnswer = false
  active : succeeded = true ↔ neg.activeLocalSdp ≠ none
  initial : succeeded = true → neg.initialSdp ≠ none
  before : succeeded = true → neg.state ≠ .done → begun ≠ none
  ready : neg.state = .waitNego ∨ neg.state = .localOffer → neg.initialSdp ≠ none
  remote : neg.state = .waitNego ∨ neg.state = .remoteOffer → neg.negRemoteSdp ≠ none
  localOffer : succeeded = true → neg.state = .localOffer → neg.initialSdpTmp = begun
  remoteOffer : succeeded = true → neg.state = .remoteOffer → neg.initialSdp = begun ∧ neg.hasRemoteAnswer = false
  waitNego : succeeded = true → neg.state = .waitNego → neg.initialSdpTmp = begun ∧
    (neg.hasRemoteAnswer = false → neg.initialSdp = begun)

/-- The negotiation is over: the active descriptions are those from before, nothing is negotiated, and the initial
description is the one from before. -/
structure Restored (neg neg' : Neg) (begun : Option Session) (succeeded : Bool) : Prop where
  activeLocal : neg'.activeLocalSdp = neg.activeLocalSdp
  activeRemote : neg'.activeRemoteSdp = neg.activeRemoteSdp
  done : neg'.state = .done
  cleared : neg'.initialSdpTmp = none ∧ neg'.negLocalSdp = none ∧ neg'.negRemoteSdp = none
  initial : succeeded = true → neg'.initialSdp = begun

section Values

variable {neg neg' : Neg} {begun : Option Session} {succeeded : Bool}

/-- Between two exchanges nothing depends on the one that was. -/
theorem begun_done (hdone : neg.state = .done) (hidle : neg.initialSdpTmp = none ∧ neg.negLocalSdp = none ∧
    neg.negRemoteSdp = none ∧ neg.hasRemoteAnswer = false) (hactive : succeeded = true ↔ neg.activeLocalSdp ≠ none)
    (hinitial : succeeded = true → neg.initialSdp ≠ none) : Begun neg begun succeeded := by
  refine ⟨fun _ => hidle, hactive, hinitial, fun _ h => absurd hdone h, ?_, ?_, ?_, ?_, ?_⟩
  all_goals rw [hdone]
  · rintro (h | h) <;> cases h
  · rintro (h | h) <;> cases h
  · exact nofun
  · exact nofun
  · exact nofun

theorem Begun.again (h : Begun neg begun succeeded) (hdone : neg.state = .done) (begun' : Option Session) :
    Begun neg begun' succeeded := begun_done hdone (h.idle hdone) h.active h.initial

/-- The initial description when the call is made, or when the exchange began. -/
def begunAt (neg : Neg) (begun : Option Session) : Option Session := if neg.state = .done then neg.initialSdp else begun

theorem begun_modifyLocalOffer2 {cfg : Config} {allowMediaChange : Bool} {sdp : Session} {status : Option Errno}
    (h : Begun neg begun succeeded) (hmodify : modifyLocalOffer2 cfg allowMediaChange neg sdp = some (status, neg')) :
    Begun neg' (begunAt neg begun) succeeded ∧
      (neg.state = .done → status ≠ none → Restored neg neg' (begunAt neg begun) succeeded) ∧
      (neg.state ≠ .done → status ≠ none ∧ neg' = neg) := by
  unfold modifyLocalOffer2 at hmodify
  by_cases hstate : neg.state = .done
  · rw [if_neg (not_not.mpr hstate)] at hmodify
    have hbegun : begunAt neg begun = neg.initialSdp := if_pos hstate
    rw [hbegun]
    obtain ⟨htmp, hlocal, hremote, hflag⟩ := h.idle hstate
    -- what fails here changes nothing
    have hsame : ∀ {status : Option Errno}, some (status, neg) = some (status, neg') →
        Begun neg' neg.initialSdp succeeded ∧ (neg.state = .done → status ≠ none →
          Restored neg neg' neg.initialSdp succeeded) ∧ (neg.state ≠ .done → status ≠ none ∧ neg' = neg) := by
      rintro status heq
      obtain ⟨-, rfl⟩ := Prod.mk.inj (Option.some.inj heq)
      exact ⟨h.again hstate _, fun _ _ => ⟨rfl, rfl, hstate, ⟨htmp, hlocal, hremote⟩, fun _ => rfl⟩,
        fun hnot => absurd hstate hnot⟩
    cases hvalid : validate sdp with
    | some error =>
      rw [hvalid] at hmodify
      obtain ⟨rfl, hneg⟩ := Prod.mk.inj (Option.some.inj hmodify)
      exact hsame (by rw [hneg])
    | none =>
      rw [hvalid] at hmodify
      dsimp only at hmodify
      cases hactive : neg.activeLocalSdp with
      | none =>
        rw [hactive] at hmodify
        obtain ⟨⟨maps, offer⟩, -, heq⟩ := Option.map_eq_some_iff.mp hmodify
        obtain ⟨rfl, rfl⟩ := Prod.mk.inj heq
        have hnot : ¬succeeded = true := fun hs => h.active.mp hs hactive
        refine ⟨⟨fun hd => (by cases hd), iff_of_false hnot (not_not.mpr rfl), fun hs => absurd hs hnot,
          fun hs => absurd hs hnot, fun _ => Option.some_ne_none _, ?_, fun hs => absurd hs hnot,
          fun hs => absurd hs hnot, fun hs => absurd hs hnot⟩, fun _ hs => absurd rfl hs,
          fun hs => absurd hstate hs⟩
        rintro (hs | hs) <;> cases hs
      | some old =>
        rw [hactive] at hmodify
        dsimp only at hmodify
        cases hmedia : modifiedMedia allowMediaChange old.media sdp with
        | none =>
          rw [hmedia] at hmodify
          obtain ⟨rfl, hneg⟩ := Prod.mk.inj (Option.some.inj hmodify)
          exact hsame (by rw [hneg])
        | some media =>
          rw [hmedia] at hmodify
          obtain ⟨⟨maps, offer⟩, -, heq⟩ := Option.map_eq_some_iff.mp hmodify
          obtain ⟨rfl, rfl⟩ := Prod.mk.inj heq
          refine ⟨⟨fun hd => (by cases hd), ?_, fun _ => Option.some_ne_none _, fun hs _ => h.initial hs,
            fun _ => Option.some_ne_none _, ?_, fun _ _ => rfl, nofun,
            nofun⟩, fun _ hs => absurd rfl hs, fun hs => absurd hstate hs⟩
          · rw [h.active, hactive]
          · rintro (hs | hs) <;> cases hs
  · rw [if_pos hstate] at hmodify
    obtain ⟨rfl, rfl⟩ := Prod.mk.inj (Option.some.inj hmodify)
    have hbegun : begunAt neg begun = begun := if_neg hstate
    rw [hbegun]
    exact ⟨h, fun hs => absurd hs hstate, fun _ => ⟨Option.some_ne_none _, rfl⟩⟩

theorem begun_sendLocalOffer {sdp : Session} (h : Begun neg begun succeeded)
    (hsend : sendLocalOffer neg = .ok (sdp, neg')) : Begun neg' (begunAt neg begun) succeeded := by
  unfold sendLocalOffer at hsend
  by_cases hstate : neg.state = .done
  · rw [if_pos hstate] at hsend
    have hbegun : begunAt neg begun = neg.initialSdp := if_pos hstate
    rw [hbegun]
    obtain ⟨htmp, hlocal, hremote, hflag⟩ := h.idle hstate
    cases hactive : neg.activeLocalSdp with
    | none =>
      rw [hactive] at hsend
      cases hsend
    | some active =>
      have hsucceeded : succeeded = true := h.active.mpr (by rw [hactive]; exact Option.some_ne_none _)
      have hinitial := h.initial hsucceeded
      rw [hactive] at hsend
      cases hlast : neg.lastSent with
      | none =>
        rw [hlast] at hsend
        cases hsend
      | some last =>
        rw [hlast] at hsend
        obtain ⟨-, rfl⟩ := Prod.mk.inj (Except.ok.inj hsend)
        refine ⟨fun hd => (by cases hd), ?_, fun _ => hinitial, fun _ _ => hinitial, fun _ => hinitial, ?_, fun _ _ => ?_,
          nofun, nofun⟩
        · rw [h.active, hactive]
        · rintro (hs | hs) <;> cases hs
        · obtain ⟨initial, hsome⟩ := Option.ne_none_iff_exists'.mp hinitial
          dsimp only
          rw [hsome]
          rfl
  · rw [if_neg hstate] at hsend
    have hbegun : begunAt neg begun = begun := if_neg hstate
    rw [hbegun]
    by_cases hlocal : neg.state = .localOffer
    · rw [if_pos hlocal] at hsend
      cases hneg : neg.negLocalSdp with
      | none =>
        rw [hneg] at hsend
        cases hsend
      | some offer =>
        rw [hneg] at hsend
        obtain ⟨-, rfl⟩ := Prod.mk.inj (Except.ok.inj hsend)
        exact h
    · rw [if_neg hlocal] at hsend
      cases hsend

theorem begun_setRemoteAnswer {remote : Session} (h : Begun neg begun succeeded)
    (hset : setRemoteAnswer neg remote = .ok neg') : Begun neg' begun succeeded := by
  unfold setRemoteAnswer at hset
  by_cases hstate : neg.state = .localOffer
  · rw [if_pos hstate] at hset
    rw [← Except.ok.inj hset]
    refine ⟨fun hd => (by cases hd), h.active, h.initial, fun hs _ => h.before hs ?_, fun _ => h.ready (.inr hstate),
      fun _ => Option.some_ne_none _, nofun, nofun,
      fun hs _ => ⟨h.localOffer hs hstate, nofun⟩⟩
    rw [hstate]
    exact NegState.noConfusion
  · rw [if_neg hstate] at hset
    cases hset

theorem begun_setRemoteOffer {remote : Session} (h : Begun neg begun succeeded)
    (hset : setRemoteOffer neg remote = .ok neg') : Begun neg' (begunAt neg begun) succeeded := by
  unfold setRemoteOffer at hset
  by_cases hstate : neg.state = .done
  · rw [if_pos hstate] at hset
    have hbegun : begunAt neg begun = neg.initialSdp := if_pos hstate
    rw [hbegun, ← Except.ok.inj hset]
    refine ⟨fun hd => (by cases hd), h.active, h.initial, fun hs _ => h.initial hs, ?_, fun _ => Option.some_ne_none _,
      nofun, fun _ _ => ⟨rfl, (h.idle hstate).2.2.2⟩, nofun⟩
    rintro (hs | hs) <;> cases hs
  · rw [if_neg hstate] at hset
    cases hset

/-- A local answer is set while an answer from the remote side waits, only if the initial description is still the one
from before. -/
def KeepsInitial (neg : Neg) (succeeded : Bool) : Call → Prop
  | .setLocalAnswer _ =>
    succeeded = true → neg.state = .waitNego → neg.hasRemoteAnswer = true → neg.initialSdp = neg.initialSdpTmp
  | _ => True

theorem begun_setLocalAnswer {sdp : Session} (h : Begun neg begun succeeded)
    (hkeeps : KeepsInitial neg succeeded (.setLocalAnswer sdp)) (hset : setLocalAnswer neg sdp = .ok neg') :
    Begun neg' begun succeeded := by
  unfold setLocalAnswer at hset
  by_cases hstate : neg.state = .remoteOffer ∨ neg.state = .waitNego
  · rw [if_pos hstate] at hset
    have hnotdone : neg.state ≠ .done := by
      rcases hstate with hs | hs <;> rw [hs] <;> exact NegState.noConfusion
    -- the initial description is the one from before, in whichever way the exchange has begun
    have hinitial : succeeded = true → neg.initialSdp = begun := by
      intro hs
      rcases hstate with hoffer | hwait
      · exact (h.remoteOffer hs hoffer).1
      · obtain ⟨htmp, hinitial⟩ := h.waitNego hs hwait
        cases hflag : neg.hasRemoteAnswer with
        | false => exact hinitial hflag
        | true => exact (hkeeps hs hwait hflag).trans htmp
    cases hsome : neg.initialSdp with
    | some initial =>
      rw [hsome] at hset hinitial
      rw [← Except.ok.inj hset]
      exact ⟨fun hd => (by cases hd), h.active, fun _ => Option.some_ne_none _, fun hs _ => h.before hs hnotdone,
        fun _ => Option.some_ne_none _, fun _ => h.remote hstate.symm, nofun,
        nofun, fun hs _ => ⟨hinitial hs, fun _ => hinitial hs⟩⟩
    | none =>
      have hnot : ¬succeeded = true := fun hs => h.initial hs hsome
      rw [hsome] at hset
      rw [← Except.ok.inj hset]
      exact ⟨fun hd => (by cases hd), h.active, fun _ => Option.some_ne_none _, fun hs => absurd hs hnot,
        fun _ => Option.some_ne_none _, fun _ => h.remote hstate.symm, fun hs => absurd hs hnot,
        fun hs => absurd hs hnot, fun hs => absurd hs hnot⟩
  · rw [if_neg hstate] at hset
    cases hset

theorem begun_cancelOffer (h : Begun neg begun succeeded) (hcancel : cancelOffer neg = .ok neg') :
    Begun neg' begun succeeded ∧ Restored neg neg' begun succeeded := by
  unfold cancelOffer at hcancel
  by_cases hlocal : neg.state = .localOffer
  · rw [if_pos hlocal] at hcancel
    rw [← Except.ok.inj hcancel]
    refine ⟨begun_done rfl ⟨rfl, rfl, rfl, rfl⟩ h.active fun hs => ?_, rfl, rfl, rfl, ⟨rfl, rfl, rfl⟩,
      fun hs => h.localOffer hs hlocal⟩
    have hbegun := h.before hs (by rw [hlocal]; exact NegState.noConfusion)
    exact (h.localOffer hs hlocal).symm ▸ hbegun
  rw [if_neg hlocal] at hcancel
  by_cases hremote : neg.state = .remoteOffer
  · rw [if_pos hremote] at hcancel
    rw [← Except.ok.inj hcancel]
    exact ⟨begun_done rfl ⟨rfl, rfl, rfl, rfl⟩ h.active h.initial, rfl, rfl, rfl, ⟨rfl, rfl, rfl⟩,
      fun hs => (h.remoteOffer hs hremote).1⟩
  · rw [if_neg hremote] at hcancel
    cases hcancel

theorem begun_failed (h : Begun neg begun succeeded) (hstate : neg.state = .waitNego) (maps : Nat → PtMap)
    {status status' : Option Errno} (hfailed : status ≠ none)
    (hfinish : ({ neg with maps := maps } : Neg).finish status = (status', neg')) :
    status' = status ∧ Begun neg' begun (succeeded || decide (status' = none)) ∧ Restored neg neg' begun succeeded := by
  obtain ⟨rfl, rfl⟩ := Prod.mk.inj hfinish
  rw [decide_eq_false hfailed, Bool.or_false, if_neg hfailed]
  refine ⟨rfl, begun_done rfl ⟨rfl, rfl, rfl, rfl⟩ h.active fun hs => ?_, rfl, rfl, rfl, ⟨rfl, rfl, rfl⟩,
    fun hs => (h.waitNego hs hstate).1⟩
  have hbegun := h.before hs (by rw [hstate]; exact NegState.noConfusion)
  exact (h.waitNego hs hstate).1.symm ▸ hbegun

theorem begun_succeeded (h : Begun neg begun succeeded) (hstate : neg.state = .waitNego) {next : Neg}
    (hinitial : next.initialSdp = neg.initialSdp) {active : Session} (hactive : next.activeLocalSdp = some active)
    {status : Option Errno} (hfinish : next.finish none = (status, neg')) :
    status = none ∧ Begun neg' begun (succeeded || decide (status = none)) := by
  obtain ⟨rfl, rfl⟩ := Prod.mk.inj hfinish
  rw [if_pos rfl, decide_eq_true rfl, Bool.or_true]
  refine ⟨rfl, begun_done rfl ⟨rfl, rfl, rfl, rfl⟩ (iff_of_true rfl ?_) fun _ => ?_⟩
  · rw [hactive]
    exact Option.some_ne_none _
  · rw [hinitial]
    exact h.ready (.inl hstate)

theorem begun_negotiate {cfg : Config} {allowAsym : Bool} {status : Option Errno} (h : Begun neg begun succeeded)
    (hnegotiate : negotiate cfg allowAsym neg = some (status, neg')) :
    Begun neg' begun (succeeded || decide (status = none)) ∧
      (neg.state = .waitNego → status ≠ none → Restored neg neg' begun succeeded) ∧
      (neg.state ≠ .waitNego → status ≠ none ∧ neg' = neg) := by
  unfold negotiate at hnegotiate
  by_cases hstate : neg.state = .waitNego
  · rw [if_neg (not_not.mpr hstate)] at hnegotiate
    have hfailed : ∀ {maps : Nat → PtMap} {status' : Option Errno}, status' ≠ none →
        ({ neg with maps := maps } : Neg).finish status' = (status, neg') →
        Begun neg' begun (succeeded || decide (status = none)) ∧
          (neg.state = .waitNego → status ≠ none → Restored neg neg' begun succeeded) ∧
          (neg.state ≠ .waitNego → status ≠ none ∧ neg' = neg) := fun hne hfinish => by
      obtain ⟨-, hbegun, hrestored⟩ := begun_failed h hstate _ hne hfinish
      exact ⟨hbegun, fun _ _ => hrestored, fun hs => absurd hstate hs⟩
    have hsucceeded : ∀ {next : Neg} {active : Session}, next.finish none = (status, neg') →
        next.initialSdp = neg.initialSdp → next.activeLocalSdp = some active →
        Begun neg' begun (succeeded || decide (status = none)) ∧
          (neg.state = .waitNego → status ≠ none → Restored neg neg' begun succeeded) ∧
          (neg.state ≠ .waitNego → status ≠ none ∧ neg' = neg) := fun hfinish hinitial hactive => by
      obtain ⟨hnone, hbegun⟩ := begun_succeeded h hstate hinitial hactive hfinish
      exact ⟨hbegun, fun _ hs => absurd hnone hs, fun hs => absurd hstate hs⟩
    cases hremote : neg.negRemoteSdp with
    | none => exact absurd hremote (h.remote (.inl hstate))
    | some remote =>
      rw [hremote] at hnegotiate
      dsimp only at hnegotiate
      cases hlocal : neg.negLocalSdp with
      | none =>
        rw [hlocal] at hnegotiate
        exact hfailed (Option.some_ne_none _) (Option.some.inj hnegotiate)
      | some sdp =>
        rw [hlocal] at hnegotiate
        dsimp only at hnegotiate
        by_cases hanswer : neg.hasRemoteAnswer = true
        · rw [if_pos hanswer, negotiateAnswer] at hnegotiate
          cases hprocess : processAnswer cfg.fmtMatch allowAsym sdp remote with
          | error error =>
            rw [hprocess] at hnegotiate
            exact hfailed (Option.some_ne_none _) (Option.some.inj hnegotiate)
          | ok result =>
            obtain ⟨active, answer⟩ := result
            rw [hprocess] at hnegotiate
            exact hsucceeded (Option.some.inj hnegotiate) rfl rfl
        · rw [if_neg hanswer, negotiateOffer] at hnegotiate
          dsimp only at hnegotiate
          cases hcreate : createAnswer cfg.fmtMatch neg.preferRemoteCodecOrder neg.answerWithMultipleCodecs sdp
              remote with
          | assertion =>
            rw [hcreate] at hnegotiate
            cases hnegotiate
          | failed status' =>
            rw [hcreate] at hnegotiate
            exact hfailed (createAnswer_failed hcreate) (Option.some.inj hnegotiate)
          | ok answer =>
            rw [hcreate] at hnegotiate
            obtain ⟨result, -, heq⟩ := Option.map_eq_some_iff.mp hnegotiate
            exact hsucceeded heq rfl rfl
  · rw [if_pos hstate] at hnegotiate
    obtain ⟨rfl, rfl⟩ := Prod.mk.inj (Option.some.inj hnegotiate)
    rw [decide_eq_false (Option.some_ne_none _), Bool.or_false]
    exact ⟨h, fun hs => absurd hs hstate, fun _ => ⟨Option.some_ne_none _, rfl⟩⟩

end Values

/-! Runs of the negotiator with its descriptions in memory. -/

/-- A negotiator in a run: the initial description when the last exchange began, whether one has succeeded, and what the
last call returned. -/
structure Exchange where
  neg : NegMem
  begun : Option Session
  succeeded : Bool
  status : Option Errno

namespace Exchange

def start (neg : NegMem) : Exchange := ⟨neg, none, false, none⟩

/-- A call that returns, and leaves everything as it is when it fails. -/
def after (s : Exchange) (begun : Option Session) : Except Errno NegMem → Exchange
  | .ok neg => ⟨neg, begun, s.succeeded, none⟩
  | .error error => ⟨s.neg, begun, s.succeeded, some error⟩

/-- One call. There is no result when an assertion fails. -/
def step (cfg : Config) (spoil : NegMem.Spoil) (s : Exchange) : Call → Option Exchange
  | .setPreferRemoteCodecOrder preferRemote =>
    some ⟨{ s.neg with preferRemoteCodecOrder := preferRemote }, s.begun, s.succeeded, none⟩
  | .setAnswerMultipleCodecs answerMultiple =>
    some ⟨{ s.neg with answerWithMultipleCodecs := answerMultiple }, s.begun, s.succeeded, none⟩
  | .modifyLocalOffer2 allowMediaChange sdp =>
    (s.neg.modifyLocalOffer2 cfg allowMediaChange sdp).map fun (status, neg) =>
      ⟨neg, begunAt s.neg.value s.begun, s.succeeded, status⟩
  | .sendLocalOffer => some (s.after (begunAt s.neg.value s.begun) (s.neg.sendLocalOffer.map Prod.snd))
  | .setRemoteAnswer remote => some (s.after s.begun (s.neg.setRemoteAnswer remote))
  | .setRemoteOffer remote => some (s.after (begunAt s.neg.value s.begun) (s.neg.setRemoteOffer remote))
  | .setLocalAnswer sdp => some (s.after s.begun (s.neg.setLocalAnswer sdp))
  | .cancelOffer => some (s.after s.begun s.neg.cancelOffer)
  | .negotiate allowAsym =>
    (s.neg.negotiate cfg spoil allowAsym).map fun (status, neg) =>
      ⟨neg, s.begun, s.succeeded || decide (status = none), status⟩

inductive Created : NegMem → Prop
  | wLocalOffer {mem : Memory} {sdp : Session} {neg : NegMem} (hcreate : NegMem.createWLocalOffer mem sdp = .ok neg) :
    Created neg
  | wRemoteOffer {mem : Memory} {initial : Option Session} {remote : Session} {neg : NegMem}
      (hcreate : NegMem.createWRemoteOffer mem initial remote = .ok neg) : Created neg

def Fails (s t : Exchange) : Call → Prop
  | .modifyLocalOffer2 _ _ => s.neg.state = .done ∧ t.status ≠ none
  | .cancelOffer => t.status = none
  | .negotiate _ => s.neg.state = .waitNego ∧ t.status ≠ none
  | .setPreferRemoteCodecOrder _ | .setAnswerMultipleCodecs _ | .sendLocalOffer | .setRemoteAnswer _
  | .setRemoteOffer _ | .setLocalAnswer _ => False

def Refused (s : Exchange) : Call → Prop
  | .modifyLocalOffer2 _ _ => s.neg.state ≠ .done
  | .cancelOffer => s.neg.state ≠ .localOffer ∧ s.neg.state ≠ .remoteOffer
  | .negotiate _ => s.neg.state ≠ .waitNego
  | .setPreferRemoteCodecOrder _ | .setAnswerMultipleCodecs _ | .sendLocalOffer | .setRemoteAnswer _
  | .setRemoteOffer _ | .setLocalAnswer _ => False

/-- A local answer is set while an answer from the remote side waits, only if the initial description is still the one
from before. -/
def Keeps (s : Exchange) (call : Call) : Prop := KeepsInitial s.neg.value s.succeeded call

/-- The pointers are as they must be, and the descriptions stand as they do in an exchange. -/
structure Stands (s : Exchange) : Prop where
  sound : s.neg.Sound
  begun : Begun s.neg.value s.begun s.succeeded

section

variable {cfg : Config} {spoil : NegMem.Spoil} {s t : Exchange}

/-- What a call that returns a negotiator leaves, when the negotiator of values does the same. -/
theorem stands_after {begun : Option Session} {result : Except Errno NegMem} {expected : Except Errno Neg}
    (hsimulates : NegMem.SimulatesOk result expected) (hstands : Stands ⟨s.neg, begun, s.succeeded, none⟩)
    (hbegun : ∀ neg, expected = .ok neg → Begun neg begun s.succeeded) : Stands (s.after begun result) := by
  cases hsimulates with
  | error => exact ⟨hstands.sound, hstands.begun⟩
  | ok hsound hvalue => exact ⟨hsound, by
      have hneg := hbegun _ rfl
      rw [← hvalue] at hneg
      exact hneg⟩

/-- The initial description is noted where an exchange begins, and nowhere else. -/
theorem Stands.noted (h : Stands s) : Stands ⟨s.neg, begunAt s.neg.value s.begun, s.succeeded, none⟩ := by
  refine ⟨h.sound, ?_⟩
  by_cases hdone : s.neg.value.state = .done
  · exact h.begun.again hdone _
  · rw [begunAt, if_neg hdone]
    exact h.begun

theorem stands_step {call : Call} (h : Stands s) (hkeeps : Keeps s call) (hstep : step cfg spoil s call = some t) :
    Stands t ∧ (Fails s t call → Restored s.neg.value t.neg.value t.begun s.succeeded) ∧
      (Refused s call → t.neg = s.neg ∧ t.status ≠ none) := by
  cases call with
  | setPreferRemoteCodecOrder preferRemote =>
    obtain rfl := Option.some.inj hstep
    have hb := h.begun
    have hs := h.sound
    exact ⟨⟨⟨hs.1, hs.2, hs.3, hs.4, hs.5, hs.6, hs.7⟩, ⟨hb.1, hb.2, hb.3, hb.4, hb.5, hb.6, hb.7, hb.8, hb.9⟩⟩,
      fun hfails => hfails.elim, fun hrefused => hrefused.elim⟩
  | setAnswerMultipleCodecs answerMultiple =>
    obtain rfl := Option.some.inj hstep
    have hb := h.begun
    have hs := h.sound
    exact ⟨⟨⟨hs.1, hs.2, hs.3, hs.4, hs.5, hs.6, hs.7⟩, ⟨hb.1, hb.2, hb.3, hb.4, hb.5, hb.6, hb.7, hb.8, hb.9⟩⟩,
      fun hfails => hfails.elim, fun hrefused => hrefused.elim⟩
  | modifyLocalOffer2 allowMediaChange sdp =>
    obtain ⟨⟨status, m⟩, hmodify, rfl⟩ := Option.map_eq_some_iff.mp hstep
    have hsimulates := NegMem.simulates_modifyLocalOffer2 h.sound cfg allowMediaChange sdp
    rw [hmodify] at hsimulates
    generalize hexpected : modifyLocalOffer2 cfg allowMediaChange s.neg.value sdp = expected at hsimulates
    cases hsimulates with
    | some hsound hvalue =>
      obtain ⟨hbegun, hfails, -⟩ := begun_modifyLocalOffer2 h.begun hexpected
      rw [← hvalue] at hbegun hfails
      refine ⟨⟨hsound, hbegun⟩, fun hf => hfails hf.1 hf.2, fun hrefused => ?_⟩
      rw [NegMem.modifyLocalOffer2, if_pos (by exact hrefused)] at hmodify
      obtain ⟨rfl, rfl⟩ := Prod.mk.inj (Option.some.inj hmodify)
      exact ⟨rfl, Option.some_ne_none _⟩
  | sendLocalOffer =>
    obtain rfl := Option.some.inj hstep
    refine ⟨?_, fun hfails => hfails.elim, fun hrefused => hrefused.elim⟩
    rcases NegMem.simulates_sendLocalOffer h.sound with ⟨error, hsend, -⟩ | ⟨sdp, m, neg, hsend, hexpected, hsound, hvalue⟩
    · rw [hsend]
      exact ⟨h.noted.sound, h.noted.begun⟩
    · rw [hsend]
      have hbegun := begun_sendLocalOffer h.begun hexpected
      rw [← hvalue] at hbegun
      exact ⟨hsound, hbegun⟩
  | setRemoteAnswer remote =>
    obtain rfl := Option.some.inj hstep
    exact ⟨stands_after (NegMem.simulates_setRemoteAnswer h.sound remote) ⟨h.sound, h.begun⟩ fun neg hset =>
      begun_setRemoteAnswer h.begun hset, fun hfails => hfails.elim, fun hrefused => hrefused.elim⟩
  | setRemoteOffer remote =>
    obtain rfl := Option.some.inj hstep
    exact ⟨stands_after (NegMem.simulates_setRemoteOffer h.sound remote) h.noted fun neg hset =>
      begun_setRemoteOffer h.begun hset, fun hfails => hfails.elim, fun hrefused => hrefused.elim⟩
  | setLocalAnswer sdp =>
    obtain rfl := Option.some.inj hstep
    exact ⟨stands_after (NegMem.simulates_setLocalAnswer h.sound sdp) ⟨h.sound, h.begun⟩ fun neg hset =>
      begun_setLocalAnswer h.begun hkeeps hset, fun hfails => hfails.elim, fun hrefused => hrefused.elim⟩
  | cancelOffer =>
    obtain rfl := Option.some.inj hstep
    have hsimulates := NegMem.simulates_cancelOffer h.sound
    generalize hresult : NegMem.cancelOffer s.neg = result at hsimulates
    generalize hexpected : cancelOffer s.neg.value = expected at hsimulates
    cases hsimulates with
    | error => exact ⟨⟨h.sound, h.begun⟩, nofun,
        fun _ => ⟨rfl, Option.some_ne_none _⟩⟩
    | ok hsound hvalue =>
      obtain ⟨hbegun, hrestored⟩ := begun_cancelOffer h.begun hexpected
      rw [← hvalue] at hbegun hrestored
      refine ⟨⟨hsound, hbegun⟩, fun _ => hrestored, fun hrefused => ?_⟩
      rw [NegMem.cancelOffer, if_neg hrefused.1, if_neg hrefused.2] at hresult
      cases hresult
  | negotiate allowAsym =>
    obtain ⟨⟨status, m⟩, hnegotiate, rfl⟩ := Option.map_eq_some_iff.mp hstep
    have hsimulates := NegMem.simulates_negotiate h.sound cfg spoil allowAsym
    rw [hnegotiate] at hsimulates
    generalize hexpected : negotiate cfg allowAsym s.neg.value = expected at hsimulates
    cases hsimulates with
    | some hsound hvalue =>
      obtain ⟨hbegun, hfails, -⟩ := begun_negotiate h.begun hexpected
      rw [← hvalue] at hbegun hfails
      refine ⟨⟨hsound, hbegun⟩, fun hf => hfails hf.1 hf.2, fun hrefused => ?_⟩
      rw [NegMem.negotiate, if_pos (by exact hrefused)] at hnegotiate
      obtain ⟨rfl, rfl⟩ := Prod.mk.inj (Option.some.inj hnegotiate)
      exact ⟨rfl, Option.some_ne_none _⟩

end

open NegMem in
theorem sound_of_created {neg : NegMem} (h : Created neg) : neg.Sound := by
  cases h with
  | @wLocalOffer mem sdp neg hcreate =>
    rw [eq_of_createWLocalOffer hcreate]
    have htop := apart_clone sdp (apart_clone_top sdp (has_none : Has mem none))
    exact ⟨htop, apart_none, apart_none, apart_none, apart_clone_top sdp has_none, has_none, htop⟩
  | @wRemoteOffer mem initial remote neg hcreate =>
    have hremote : Has (mem.clone remote) (some mem.top) := has_clone_top remote
    rcases cases_of_createWRemoteOffer hcreate with rfl | ⟨sdp, rfl⟩
    · exact ⟨apart_none, apart_none, apart_none, apart_none, apart_none, hremote, apart_none⟩
    · have hclone := has_clone sdp hremote
      exact ⟨apart_clone sdp (apart_clone_top sdp hremote), apart_none, apart_none, apart_none,
        apart_clone_top sdp hclone, has_clone sdp hclone, apart_none⟩

/-- Of an exchange before which none has succeeded, nothing is asked but that the descriptions it needs are there. -/
theorem begun_first {neg : Neg} (hstate : neg.state ≠ .done) (hactive : neg.activeLocalSdp = none)
    (hready : neg.state = .waitNego ∨ neg.state = .localOffer → neg.initialSdp ≠ none)
    (hremote : neg.state = .waitNego ∨ neg.state = .remoteOffer → neg.negRemoteSdp ≠ none) : Begun neg none false :=
  ⟨fun hdone => absurd hdone hstate, iff_of_false Bool.false_ne_true (not_not.mpr hactive),
    nofun, nofun, hready, hremote,
    nofun, nofun,
    nofun⟩

theorem stands_start {neg : NegMem} (h : Created neg) : Stands (start neg) := by
  refine ⟨sound_of_created h, ?_⟩
  cases h with
  | wLocalOffer hcreate =>
    rw [NegMem.eq_of_createWLocalOffer hcreate]
    refine begun_first NegState.noConfusion rfl (fun _ => Option.some_ne_none _) ?_
    rintro (hs | hs) <;> cases hs
  | wRemoteOffer hcreate =>
    rcases NegMem.cases_of_createWRemoteOffer hcreate with rfl | ⟨sdp, rfl⟩
    · refine begun_first NegState.noConfusion rfl ?_ fun _ => Option.some_ne_none _
      rintro (hs | hs) <;> cases hs
    · exact begun_first NegState.noConfusion rfl (fun _ => Option.some_ne_none _) fun _ => Option.some_ne_none _

/-- An exchange that ends without success leaves the active descriptions, the initial one and the state as they were
before it, and a call that has nothing to end leaves everything. -/
theorem failed_exchange_restores (cfg : Config) (spoil : NegMem.Spoil) {neg : NegMem} {calls : List Call} {call : Call}
    {s t : Exchange} (hcreated : Created neg) (hrun : exec (step cfg spoil) (start neg) calls = some s)
    (hkeeps : Meets (step cfg spoil) Keeps (start neg) (calls ++ [call])) (hstep : step cfg spoil s call = some t) :
    (Fails s t call → Restored s.neg.value t.neg.value t.begun s.succeeded) ∧
      (Refused s call → t.neg = s.neg ∧ t.status ≠ none) := by
  obtain ⟨hbefore, hcall, -⟩ := meets_append hkeeps hrun
  have hstands : Stands s := exec_invariant_of_meets (P := Stands)
    (fun _ _ _ h hk hs => (stands_step h hk hs).1) (stands_start hcreated) hbefore hrun
  exact (stands_step hstands hcall hstep).2

/-- Nothing is left of an answer that is refused, and there is no description before the negotiator is created. -/
def noSpoil : NegMem.Spoil := fun _ _ answer => { answer with media := [] }

def noMemory : Memory := ⟨fun _ => plainSession 0 [], 0⟩

/-- An offer that has no answer but one without media. -/
theorem failed_exchange_restores_answer :
    ∃ neg s t, Created neg ∧
      exec (step plainConfig noSpoil) (start neg) [.setRemoteAnswer (audioSession 5000 "0"), .negotiate false,
        .modifyLocalOffer2 false (audioSession 4000 "8"), .setRemoteAnswer (audioSession 0 "8")] = some s ∧
      step plainConfig noSpoil s (.negotiate false) = some t ∧ s.succeeded = true ∧ t.status ≠ none ∧
      Restored s.neg.value t.neg.value t.begun s.succeeded := by
  have hcreated : Created _ := .wLocalOffer (show NegMem.createWLocalOffer noMemory (audioSession 4000 "0") = .ok _ from rfl)
  refine ⟨_, _, _, hcreated, rfl, rfl, rfl, Option.some_ne_none Errno.enomedia, ?_⟩
  refine (failed_exchange_restores plainConfig noSpoil hcreated (show exec (step plainConfig noSpoil) (start _)
    [.setRemoteAnswer (audioSession 5000 "0"), .negotiate false, .modifyLocalOffer2 false (audioSession 4000 "8"),
      .setRemoteAnswer (audioSession 0 "8")] = some _ from rfl) ?_ (show step plainConfig noSpoil _ (.negotiate false) =
        some _ from rfl)).1 ⟨rfl, Option.some_ne_none Errno.enomedia⟩
  -- no local answer is set in this run
  exact ⟨trivial, fun _ _ => ⟨trivial, fun _ _ => ⟨trivial, fun _ _ => ⟨trivial, fun _ _ => ⟨trivial, fun _ _ =>
    trivial⟩⟩⟩⟩⟩

/-- A local answer that is set while an answer waits puts the new offer in the place of the initial description. -/
theorem initial_lost :
    ∃ neg s t, Created neg ∧
      exec (step plainConfig noSpoil) (start neg) [.setRemoteAnswer (audioSession 5000 "0"), .negotiate false,
        .modifyLocalOffer2 false (audioSession 4000 "8"), .setRemoteAnswer (audioSession 0 "8"),
        .setLocalAnswer (audioSession 4000 "8")] = some s ∧
      step plainConfig noSpoil s (.negotiate false) = some t ∧ Fails s t (.negotiate false) ∧ s.succeeded = true ∧
      t.neg.value.initialSdp ≠ t.begun := by
  have hcreated : Created _ := .wLocalOffer (show NegMem.createWLocalOffer noMemory (audioSession 4000 "0") = .ok _ from rfl)
  refine ⟨_, _, _, hcreated, rfl, rfl, ⟨rfl, ?_⟩, rfl, fun h => ?_⟩
  · exact Option.some_ne_none Errno.enomedia
  · have hversion := congrArg (Option.map fun sdp => sdp.origin.version) h
    exact absurd (show some 2 = some 1 from hversion) (by decide)

end Exchange

end PjProject.SdpNeg
