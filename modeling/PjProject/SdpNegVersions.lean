import PjProject.SdpNeg

/-! The versions of the descriptions that are handed out. A new description takes the version of the active one, of the
one sent last or of the application, and counts it up where it differs from the one sent last. Over a whole run the
versions identify the descriptions as long as none is derived from an older one than the last that was handed out; after
an offer that was cancelled or rejected this is not so. -/

namespace PjProject.SdpNeg

open Sdp

/-- The descriptions that were handed out to be sent. -/
def sentOf (history : List Event) : List Session :=
  history.filterMap fun event =>
    match event with
    | .sent sdp => some sdp
    | .received _ => none

/-- The version does not decrease, and two descriptions with the same identification and version are equal. -/
def FollowedBy (s1 s2 : Session) : Prop :=
  s1.origin.version ≤ s2.origin.version ∧
    (s1.origin.id = s2.origin.id → s1.origin.version = s2.origin.version → sessionCmp s1 s2)

def VersionsIdentify (sent : List Session) : Prop := sent.Pairwise FollowedBy

def System.lastOut (sys : System) : Option Session := (sentOf sys.history).getLast?

/-- What was handed out last is remembered as sent last, and a description with the given version is not older. The
version can be counted up. -/
def Derives (sys : System) (version : Nat) : Prop :=
  version + 1 < 18446744073709551616 ∧ ∀ last, sys.lastOut = some last →
    last.origin.version ≤ version ∧ ∃ sdp, sys.neg.lastSent = some sdp ∧ (sdp = last ∨ sessionCmp sdp last)

/-- A new description is derived from one that is not older than what was handed out last. An offer that is sent again
is equal to itself. -/
def Counted (sys : System) : Call → Prop
  | .modifyLocalOffer2 _ sdp =>
    sys.neg.state = .done → Derives sys (sys.neg.activeLocalSdp.elim sdp.origin.version fun old => old.origin.version)
  | .sendLocalOffer =>
    (sys.neg.state = .done → ∀ active, sys.neg.activeLocalSdp = some active → Derives sys active.origin.version) ∧
      (sys.neg.state = .localOffer → ∀ sdp, sys.neg.negLocalSdp = some sdp → sessionCmp sdp sdp)
  | .negotiate _ =>
    sys.neg.state = .waitNego → sys.neg.hasRemoteAnswer = false → ∀ last, sys.neg.lastSent = some last →
      Derives sys last.origin.version
  | _ => True

/-! One description more. -/

theorem followedBy_of_last {l : List Session} (h : VersionsIdentify l) {last sdp s : Session}
    (hlast : l.getLast? = some last) (hle : last.origin.version ≤ sdp.origin.version)
    (heq : last.origin.version = sdp.origin.version → sessionCmp last sdp) (hs : s ∈ l) : FollowedBy s sdp := by
  obtain ⟨before, rfl⟩ := List.getLast?_eq_some_iff.mp hlast
  rcases List.mem_append.mp hs with hbefore | hsingle
  · obtain ⟨hlower, hsame⟩ := (List.pairwise_append.mp h).2.2 s hbefore last (List.mem_singleton_self last)
    refine ⟨hlower.trans hle, fun hid hversion => ?_⟩
    -- nothing between the two has another version
    have hcmp : sessionCmp last sdp := heq (le_antisymm hle (hversion ▸ hlower))
    have horigin : last.origin = sdp.origin := origin_eq_of_sessionCmp hcmp
    exact sessionCmp_trans (hsame (by rw [horigin]; exact hid) (by rw [horigin]; exact hversion)) hcmp
  · obtain rfl := List.mem_singleton.mp hsingle
    exact ⟨hle, fun _ hversion => heq hversion⟩

theorem versionsIdentify_append {l : List Session} (h : VersionsIdentify l) {sdp : Session}
    (hnext : ∀ last, l.getLast? = some last → last.origin.version ≤ sdp.origin.version ∧
      (last.origin.version = sdp.origin.version → sessionCmp last sdp)) : VersionsIdentify (l ++ [sdp]) := by
  refine List.pairwise_append.mpr ⟨h, List.pairwise_singleton _ _, fun s hs s' hs' => ?_⟩
  obtain rfl := List.mem_singleton.mp hs'
  rcases hlast : l.getLast? with _ | last
  · rw [List.getLast?_eq_none_iff.mp hlast] at hs
    cases hs
  · obtain ⟨hle, heq⟩ := hnext last hlast
    exact followedBy_of_last h hlast hle heq hs

theorem bump_version {sdp : Session} (h : sdp.origin.version + 1 < 18446744073709551616) :
    (bump sdp).origin.version = sdp.origin.version + 1 := Nat.mod_eq_of_lt h

theorem versioned_next {sys : System} {sdp last : Session} (h : Derives sys sdp.origin.version)
    (hlast : sys.lastOut = some last) :
    last.origin.version ≤ (versioned sys.neg.lastSent sdp).origin.version ∧
      (last.origin.version = (versioned sys.neg.lastSent sdp).origin.version →
        sessionCmp last (versioned sys.neg.lastSent sdp)) := by
  obtain ⟨hbound, hderives⟩ := h
  obtain ⟨hle, sent, hsent, hsame⟩ := hderives last hlast
  rw [versioned, hsent]
  by_cases hcmp : sessionCmp sent sdp
  · rw [if_pos (show (some sent).any (sessionCmp · sdp) from hcmp)]
    refine ⟨hle, fun _ => ?_⟩
    rcases hsame with rfl | hsame
    · exact hcmp
    · exact sessionCmp_trans (sessionCmp_symm hsame) hcmp
  · rw [if_neg (show ¬(some sent).any (sessionCmp · sdp) from hcmp), bump_version hbound]
    exact ⟨hle.trans (Nat.le_succ _), fun heq => absurd hle (by omega)⟩

/-! What the calls do to the description that was sent last. -/

theorem assignSession_origin {cfg : Config} {isOffer : Bool} {maps maps' : Nat → PtMap} {sdp sdp' : Session}
    (h : assignSession cfg isOffer maps sdp = some (maps', sdp')) : sdp'.origin = sdp.origin := by
  obtain ⟨⟨_, media⟩, _, heq⟩ := Option.map_eq_some_iff.mp h
  obtain ⟨_, rfl⟩ := Prod.mk.inj heq
  rfl

theorem modifyLocalOffer2_cases {cfg : Config} {allowMediaChange : Bool} {neg neg' : Neg} {sdp : Session}
    {status : Option Errno} (h : modifyLocalOffer2 cfg allowMediaChange neg sdp = some (status, neg')) :
    (status ≠ none ∧ neg' = neg) ∨
      (status = none ∧ neg.state = .done ∧ ∃ offer,
        offer.origin.version = (neg.activeLocalSdp.elim sdp.origin.version fun old => old.origin.version) ∧
        neg'.negLocalSdp = some (versioned neg.lastSent offer) ∧
        neg'.lastSent = some (versioned neg.lastSent offer)) := by
  unfold modifyLocalOffer2 at h
  split at h
  · obtain ⟨rfl, rfl⟩ := Prod.mk.inj (Option.some.inj h)
    exact Or.inl ⟨Option.some_ne_none _, rfl⟩
  case isFalse hstate =>
    rw [not_not] at hstate
    split at h
    · obtain ⟨rfl, rfl⟩ := Prod.mk.inj (Option.some.inj h)
      exact Or.inl ⟨Option.some_ne_none _, rfl⟩
    · split at h
      case h_1 hactive =>
        obtain ⟨⟨maps, offer⟩, hassign, heq⟩ := Option.map_eq_some_iff.mp h
        obtain ⟨rfl, rfl⟩ := Prod.mk.inj heq
        refine Or.inr ⟨rfl, hstate, offer, ?_, rfl, rfl⟩
        rw [assignSession_origin hassign, hactive, Option.elim_none]
      case h_2 old hactive =>
        split at h
        · obtain ⟨rfl, rfl⟩ := Prod.mk.inj (Option.some.inj h)
          exact Or.inl ⟨Option.some_ne_none _, rfl⟩
        · obtain ⟨⟨maps, offer⟩, hassign, heq⟩ := Option.map_eq_some_iff.mp h
          obtain ⟨rfl, rfl⟩ := Prod.mk.inj heq
          refine Or.inr ⟨rfl, hstate, offer, ?_, rfl, rfl⟩
          rw [assignSession_origin hassign, hactive, Option.elim_some]

theorem sendLocalOffer_cases {neg neg' : Neg} {sdp : Session} (h : sendLocalOffer neg = .ok (sdp, neg')) :
    (neg.state = .localOffer ∧ neg.negLocalSdp = some sdp ∧ neg' = neg) ∨
      (neg.state = .done ∧ ∃ active, neg.activeLocalSdp = some active ∧ sdp = versioned neg.lastSent active ∧
        neg'.negLocalSdp = some sdp ∧ neg'.lastSent = some sdp) := by
  unfold sendLocalOffer at h
  split at h
  case isTrue hstate =>
    split at h
    case h_1 active _ hactive _ =>
      obtain ⟨rfl, rfl⟩ := Prod.mk.inj (Except.ok.inj h)
      exact Or.inr ⟨hstate, active, hactive, rfl, rfl, rfl⟩
    · cases h
  case isFalse hdone =>
    split at h
    case isTrue hstate =>
      split at h
      case h_1 _ hsdp =>
        obtain ⟨rfl, rfl⟩ := Prod.mk.inj (Except.ok.inj h)
        exact Or.inl ⟨hstate, hsdp, rfl⟩
      · cases h
    · cases h

theorem createAnswer_failed {fmtMatch : FmtMatch} {preferRemote multiple : Bool} {initial offer : Session}
    {status : Option Errno} (h : createAnswer fmtMatch preferRemote multiple initial offer = .failed status) :
    status ≠ none := by
  unfold createAnswer at h
  split at h
  · obtain rfl := CreateAnswer.failed.inj h
    exact Option.some_ne_none _
  · split at h
    · cases h
    · split at h
      · cases h
      case isFalse hnot =>
        obtain rfl := CreateAnswer.failed.inj h
        exact fun hnone => hnot (Or.inr hnone)

theorem finish_eq {neg neg' : Neg} {status status' : Option Errno} (h : neg.finish status = (status', neg')) :
    neg'.state = .done ∧ neg'.lastSent = neg.lastSent ∧ neg'.activeLocalSdp = neg.activeLocalSdp := by
  obtain ⟨_, rfl⟩ := Prod.mk.inj h
  exact ⟨rfl, rfl, rfl⟩

/-- An answer that was created is the one sent last; an answer from the remote side leaves what was sent last. -/
theorem negotiate_cases {cfg : Config} {allowAsym : Bool} {neg neg' : Neg} {status : Option Errno}
    (h : negotiate cfg allowAsym neg = some (status, neg')) :
    ((status ≠ none ∨ neg.hasRemoteAnswer) ∧ neg'.lastSent = neg.lastSent ∧ (neg' = neg ∨ neg'.state = .done)) ∨
      (status = none ∧ neg.state = .waitNego ∧ neg.hasRemoteAnswer = false ∧ neg'.state = .done ∧ ∃ answer,
        (∀ last, neg.lastSent = some last → answer.origin.version = last.origin.version) ∧
        neg'.activeLocalSdp = some (versioned neg.lastSent answer) ∧
        neg'.lastSent = some (versioned neg.lastSent answer)) := by
  unfold negotiate at h
  split at h
  · obtain ⟨rfl, rfl⟩ := Prod.mk.inj (Option.some.inj h)
    exact Or.inl ⟨Or.inl (Option.some_ne_none _), rfl, Or.inl rfl⟩
  case isFalse hstate =>
    rw [not_not] at hstate
    split at h
    · obtain ⟨rfl, rfl⟩ := Prod.mk.inj (Option.some.inj h)
      exact Or.inl ⟨Or.inl (Option.some_ne_none _), rfl, Or.inl rfl⟩
    · dsimp only at h
      split at h
      · obtain ⟨hdone, hsent, _⟩ := finish_eq (Option.some.inj h)
        obtain ⟨rfl, _⟩ := Prod.mk.inj (Option.some.inj h)
        exact Or.inl ⟨Or.inl (Option.some_ne_none _), hsent, Or.inr hdone⟩
      · split at h
        case isTrue hanswer =>
          rw [negotiateAnswer] at h
          split at h
          all_goals
            obtain ⟨hdone, hsent, _⟩ := finish_eq (Option.some.inj h)
            exact Or.inl ⟨Or.inr hanswer, hsent, Or.inr hdone⟩
        case isFalse hanswer =>
          rw [negotiateOffer] at h
          split at h
          · cases h
          case h_2 status' hfailed =>
            obtain ⟨hdone, hsent, _⟩ := finish_eq (Option.some.inj h)
            obtain ⟨rfl, _⟩ := Prod.mk.inj (Option.some.inj h)
            exact Or.inl ⟨Or.inl (createAnswer_failed hfailed), hsent, Or.inr hdone⟩
          case h_3 created _ =>
            obtain ⟨⟨maps, answer⟩, hsend, heq⟩ := Option.map_eq_some_iff.mp h
            obtain ⟨hdone, hsent, hactive⟩ := finish_eq heq
            obtain ⟨rfl, _⟩ := Prod.mk.inj heq
            obtain ⟨⟨maps', assigned⟩, _, heq'⟩ := Option.map_eq_some_iff.mp hsend
            obtain ⟨_, rfl⟩ := Prod.mk.inj heq'
            refine Or.inr ⟨rfl, hstate, Bool.eq_false_iff.mpr hanswer, hdone, _, fun last hlast => ?_, hactive, hsent⟩
            simp only [hlast, Option.elim_some]

/-! Every call keeps the invariant. -/

/-- The versions identify what was handed out, an offer that is waiting is what was handed out last, and something is
remembered as sent last when something was handed out. -/
structure Versions (sys : System) : Prop where
  identify : VersionsIdentify (sentOf sys.history)
  offer : sys.neg.state = .localOffer → ∀ sdp, sys.neg.negLocalSdp = some sdp → sys.lastOut = some sdp
  sent : sys.neg.lastSent = none → sys.lastOut = none

theorem sentOf_append (history : List Event) (sdp : Session) :
    sentOf (history ++ [.sent sdp]) = sentOf history ++ [sdp] := by
  unfold sentOf
  rw [List.filterMap_append]
  rfl

theorem sentOf_append_received (history : List Event) (sdp : Session) :
    sentOf (history ++ [.received sdp]) = sentOf history := by
  unfold sentOf
  rw [List.filterMap_append]
  exact List.append_nil _

theorem lastOut_append (neg : Neg) (history : List Event) (sdp : Session) :
    System.lastOut ⟨neg, history ++ [.sent sdp]⟩ = some sdp := by
  rw [System.lastOut, sentOf_append, List.getLast?_concat]

theorem Versions.hand_out {sys : System} (h : Versions sys) {neg : Neg} {sdp : Session}
    (hderives : ∀ last, sys.lastOut = some last → Derives sys sdp.origin.version)
    (hlocal : neg.state = .localOffer → neg.negLocalSdp = some (versioned sys.neg.lastSent sdp))
    (hsent : neg.lastSent = some (versioned sys.neg.lastSent sdp)) :
    Versions ⟨neg, sys.history ++ [.sent (versioned sys.neg.lastSent sdp)]⟩ := by
  refine ⟨?_, fun hstate sdp' hsdp' => ?_, fun hnone => ?_⟩
  · rw [sentOf_append]
    exact versionsIdentify_append h.identify fun last hlast => versioned_next (hderives last hlast) hlast
  · rw [lastOut_append]
    exact (hlocal hstate).symm.trans hsdp'
  · exact absurd (hnone.symm.trans hsent) (Option.some_ne_none _).symm

/-- Nothing is handed out. -/
theorem Versions.quiet {sys sys' : System} (h : Versions sys) (hhistory : sentOf sys'.history = sentOf sys.history)
    (hlocal : sys'.neg.state = .localOffer →
      sys.neg.state = .localOffer ∧ sys'.neg.negLocalSdp = sys.neg.negLocalSdp)
    (hsent : sys'.neg.lastSent = none → sys.neg.lastSent = none) : Versions sys' := by
  have hlast : sys'.lastOut = sys.lastOut := by rw [System.lastOut, System.lastOut, hhistory]
  refine ⟨hhistory ▸ h.identify, fun hstate sdp hsdp => ?_, fun hnone => hlast.trans (h.sent (hsent hnone))⟩
  obtain ⟨hstate, hsame⟩ := hlocal hstate
  exact hlast.trans (h.offer hstate sdp (hsame.symm.trans hsdp))

theorem step_versions {cfg : Config} {sys sys' : System} {call : Call} (h : Versions sys) (hcounted : Counted sys call)
    (hstep : step cfg sys call = some sys') : Versions sys' := by
  cases call with
  | setPreferRemoteCodecOrder preferRemote =>
    obtain rfl := Option.some.inj hstep
    exact h.quiet rfl (fun hstate => ⟨hstate, rfl⟩) id
  | setAnswerMultipleCodecs answerMultiple =>
    obtain rfl := Option.some.inj hstep
    exact h.quiet rfl (fun hstate => ⟨hstate, rfl⟩) id
  | modifyLocalOffer2 allowMediaChange sdp =>
    obtain ⟨⟨status, neg⟩, hmodify, rfl⟩ := Option.map_eq_some_iff.mp hstep
    rcases modifyLocalOffer2_cases hmodify with ⟨hstatus, rfl⟩ | ⟨rfl, hdone, offer, hversion, hlocal, hsent⟩
    · dsimp only
      rw [if_neg hstatus]
      exact h
    · dsimp only
      rw [if_pos rfl, hlocal]
      refine h.hand_out (fun _ _ => ?_) (fun _ => hlocal) hsent
      rw [hversion]
      exact hcounted hdone
  | sendLocalOffer =>
    simp only [step] at hstep
    rcases hsend : sendLocalOffer sys.neg with error | ⟨sdp, neg⟩
    · rw [hsend] at hstep
      exact Option.some.inj hstep ▸ h
    · rw [hsend] at hstep
      obtain rfl := Option.some.inj hstep
      rcases sendLocalOffer_cases hsend with ⟨hstate, hsdp, rfl⟩ | ⟨hdone, active, hactive, rfl, hlocal, hsent⟩
      · -- the offer is handed out once more
        have hlast : sys.lastOut = some sdp := h.offer hstate sdp hsdp
        refine ⟨?_, fun _ sdp' hsdp' => ?_, fun hnone => absurd ((h.sent hnone).symm.trans hlast) (Option.some_ne_none _).symm⟩
        · rw [sentOf_append]
          refine versionsIdentify_append h.identify fun last hlast' => ?_
          obtain rfl := Option.some.inj (hlast.symm.trans hlast')
          exact ⟨le_refl _, fun _ => hcounted.2 hstate sdp hsdp⟩
        · rw [lastOut_append]
          exact hsdp.symm.trans hsdp'
      · exact h.hand_out (fun _ _ => hcounted.1 hdone active hactive) (fun _ => hlocal) hsent
  | setRemoteAnswer remote =>
    obtain rfl := Option.some.inj hstep
    unfold setRemoteAnswer
    split
    · exact h.quiet (sentOf_append_received _ _) nofun id
    · exact h
  | setRemoteOffer remote =>
    obtain rfl := Option.some.inj hstep
    unfold setRemoteOffer
    split
    · exact h.quiet (sentOf_append_received _ _) nofun id
    · exact h
  | setLocalAnswer sdp =>
    obtain rfl := Option.some.inj hstep
    unfold setLocalAnswer
    split
    · split
      all_goals exact h.quiet (by rw [System.after, List.append_nil]) nofun id
    · exact h
  | cancelOffer =>
    obtain rfl := Option.some.inj hstep
    unfold cancelOffer
    split
    · refine h.quiet (by rw [System.after, List.append_nil]) nofun fun hnone => ?_
      exact (Option.or_eq_none_iff.mp hnone).2
    · split
      · exact h.quiet (by rw [System.after, List.append_nil]) nofun id
      · exact h
  | negotiate allowAsym =>
    obtain ⟨⟨status, neg⟩, hnego, rfl⟩ := Option.map_eq_some_iff.mp hstep
    rcases negotiate_cases hnego with
      ⟨hquiet, hsent, hneg⟩ | ⟨rfl, hwait, hanswer, hdone, answer, hversion, hactive, hsent⟩
    · have hnot : ¬(status = none ∧ sys.neg.hasRemoteAnswer = false) := fun ⟨hstatus, hanswer⟩ =>
        hquiet.elim (absurd hstatus) (Bool.eq_false_iff.mp hanswer)
      dsimp only
      rw [if_neg hnot]
      refine h.quiet rfl (fun hstate => ?_) fun hnone => hsent.symm.trans hnone
      rcases hneg with rfl | hdone
      · exact ⟨hstate, rfl⟩
      · exact absurd (hdone.symm.trans hstate) (by decide)
    · dsimp only
      rw [if_pos ⟨rfl, hanswer⟩, hactive]
      refine h.hand_out (fun last hlast => ?_) (fun hstate => absurd (hdone.symm.trans hstate) (by decide)) hsent
      rcases hlastSent : sys.neg.lastSent with _ | sent
      · exact absurd ((h.sent hlastSent).symm.trans hlast) (Option.some_ne_none _).symm
      · rw [hversion sent hlastSent]
        exact hcounted hwait hanswer sent hlastSent

theorem versions_of_created {sys : System} (h : Created sys) : Versions sys := by
  cases h with
  | @wLocalOffer sdp neg hcreate =>
    unfold createWLocalOffer at hcreate
    split at hcreate
    · cases hcreate
    · obtain rfl := Except.ok.inj hcreate
      exact ⟨List.pairwise_singleton _ _, fun _ _ hsdp => hsdp, nofun⟩
  | @wRemoteOffer initial remote neg hcreate =>
    refine ⟨List.Pairwise.nil, fun hstate _ _ => ?_, fun _ => rfl⟩
    unfold createWRemoteOffer at hcreate
    split at hcreate
    · cases hcreate
    · dsimp only at hcreate
      split at hcreate
      · obtain rfl := Except.ok.inj hcreate
        cases hstate
      · split at hcreate
        · cases hcreate
        · obtain rfl := Except.ok.inj hcreate
          cases hstate

/-- In every run in which each new description is derived from one that is not older than what was handed out last, the
versions identify what was handed out. -/
theorem versions_identify (cfg : Config) {sys sys' : System} {calls : List Call} (hcreated : Created sys)
    (hcounted : Meets (step cfg) Counted sys calls) (hrun : exec (step cfg) sys calls = some sys') :
    VersionsIdentify (sentOf sys'.history) :=
  (exec_invariant_of_meets (P := Versions) (fun _ _ _ h hcounted hstep => step_versions h hcounted hstep)
    (versions_of_created hcreated) hcounted hrun).identify

def audioSession (port : Nat) (fmt : String) : Session := plainSession 1 [plainMedia "audio" port [fmt] []]

/-- An offer that is answered, and a second one. -/
theorem versions_identify_twice :
    ∃ sys sys', Created sys ∧
      exec (step plainConfig) sys [.setRemoteAnswer (audioSession 5000 "0"), .negotiate false,
        .modifyLocalOffer2 false (audioSession 4000 "8")] = some sys' ∧
      (sentOf sys'.history).map (fun sdp => sdp.origin.version) = [1, 2] ∧ VersionsIdentify (sentOf sys'.history) := by
  have hcreated : Created ⟨_, [.sent (audioSession 4000 "0")]⟩ := .wLocalOffer rfl
  refine ⟨_, _, hcreated, rfl, rfl, versions_identify plainConfig hcreated ?_ (show exec (step plainConfig) _
    [.setRemoteAnswer (audioSession 5000 "0"), .negotiate false, .modifyLocalOffer2 false (audioSession 4000 "8")] =
      some _ from rfl)⟩
  refine ⟨trivial, fun _ hstep => ?_⟩
  obtain rfl := Option.some.inj hstep
  refine ⟨fun _ hanswer => absurd hanswer (by decide), fun _ hstep => ?_⟩
  obtain rfl := Option.some.inj hstep
  refine ⟨fun _ => ⟨by decide, fun last hlast => ?_⟩, fun _ _ => trivial⟩
  obtain rfl := Option.some.inj hlast
  exact ⟨le_refl _, _, rfl, Or.inl rfl⟩

/-- After an offer that is cancelled, the next one has its version and other formats. -/
theorem versions_reused :
    ∃ sys sys', Created sys ∧
      exec (step plainConfig) sys [.setRemoteAnswer (audioSession 5000 "0"), .negotiate false,
        .modifyLocalOffer2 false (audioSession 4000 "8"), .cancelOffer,
        .modifyLocalOffer2 false (audioSession 4000 "18")] = some sys' ∧
      ¬VersionsIdentify (sentOf sys'.history) := by
  have hcreated : Created ⟨_, [.sent (audioSession 4000 "0")]⟩ := .wLocalOffer rfl
  refine ⟨_, _, hcreated, rfl, fun h => ?_⟩
  have hlast := (List.pairwise_cons.mp (List.pairwise_cons.mp h).2).1 _ (List.mem_singleton_self _)
  exact absurd (hlast.2 (by decide) (by decide)) (by decide)

end PjProject.SdpNeg
