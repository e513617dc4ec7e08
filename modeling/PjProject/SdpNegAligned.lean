import PjProject.SdpNeg

/-! The active descriptions after an answer from the remote side. The answer is followed by media type: a line of the
offer whose type is not that of the next line of the answer is disabled, and nothing is put in its place in the answer.
So the lines with the same index need not belong together, and it is said here exactly when they do. -/

namespace PjProject.SdpNeg

open Sdp

/-- The lines with the same index describe the same stream, unless the local one is disabled. -/
def Aligned (active remote : Session) : Prop :=
  active.media.length = remote.media.length ∧
    ∀ (i : Nat) (l r : Media), active.media[i]? = some l → remote.media[i]? = some r →
      (l.port ≠ 0 ∧ r.port ≠ 0 ∧ l.media = r.media) ∨ l.port = 0

/-- The index of the line of the answer that each line of the offer is compared with. -/
def mates : List Media → List Media → List (Option Nat)
  | [], _ => []
  | _ :: offers, [] => none :: mates offers []
  | offer :: offers, answer :: answers =>
    if answer.media = offer.media then some 0 :: (mates offers answers).map (Option.map (· + 1))
    else none :: mates offers (answer :: answers)

/-- Some format of the offered line is found in the answering one. -/
def haveCommon (fmtMatch : FmtMatch) (allowAsym : Bool) (offer answer : Media) : Bool :=
  let offer := updateMediaDirection answer offer
  if allowAsym then answer.fmt.any fun fmt => (answer.fmt.take offer.fmt.length).contains fmt
  else
    match removeUnmatched fmtMatch (offer.media == ascii "audio") answer offer.fmt.length 0 [] offer with
    | .ok (offer, _) => offer.fmt ≠ []
    | .error _ => false

/-- The answering line stays enabled. -/
def Kept (fmtMatch : FmtMatch) (allowAsym : Bool) (offer answer : Media) : Prop :=
  answer.port ≠ 0 ∧ (offer.port ≠ 0 → haveCommon fmtMatch allowAsym offer answer)

/-- The offered line stays enabled. -/
def Taken (fmtMatch : FmtMatch) (allowAsym : Bool) (offer answer : Media) : Prop :=
  offer.port ≠ 0 ∧ Kept fmtMatch allowAsym offer answer

/-- The answer has as many lines as the offer, or its lines have the types of the first lines of the offer. Where a line
of the offer is taken, the line of the answer with the same index has the same type and stays enabled. -/
structure InStep (fmtMatch : FmtMatch) (allowAsym : Bool) (offers answers : List Media) : Prop where
  count : answers.length = offers.length ∨ answers.map Media.media <+: offers.map Media.media
  taken : ∀ (i j : Nat) (offer mate : Media), offers[i]? = some offer → (mates offers answers)[i]? = some (some j) →
    answers[j]? = some mate → Taken fmtMatch allowAsym offer mate →
    ∃ answer, answers[i]? = some answer ∧ answer.media = offer.media ∧ answer.port ≠ 0 ∧
      ∀ (i' : Nat) (offer' : Media), offers[i']? = some offer' → (mates offers answers)[i']? = some (some i) →
        Kept fmtMatch allowAsym offer' answer

/-! One line. -/

section Line

variable {fmtMatch : FmtMatch} {allowAsym isAudio : Bool}

theorem removeUnmatched_line {answer : Media} {n i : Nat} {prior prior' : List Nat} {offer offer' : Media}
    (h : removeUnmatched fmtMatch isAudio answer n i prior offer = .ok (offer', prior')) :
    offer'.media = offer.media ∧ offer'.port = offer.port := by
  induction n generalizing i prior offer with
  | zero =>
    obtain ⟨rfl, _⟩ := Prod.mk.inj (Except.ok.inj h)
    exact ⟨rfl, rfl⟩
  | succ n ih =>
    rw [removeUnmatched] at h
    split at h
    · cases h
    · have hline := ih h
      exact hline
    · exact ih h

theorem removeUnoffered_line (prior : List Nat) (n i delCnt : Nat) (answer : Media) :
    (removeUnoffered prior n i delCnt answer).media = answer.media ∧
      (removeUnoffered prior n i delCnt answer).port = answer.port := by
  induction n generalizing i delCnt answer with
  | zero => exact ⟨rfl, rfl⟩
  | succ n ih =>
    rw [removeUnoffered]
    split
    · exact ih (i + 1) delCnt answer
    · exact ih i (delCnt + 1) _

/-- What becomes of two lines of the same type. -/
structure LineSpec (fmtMatch : FmtMatch) (allowAsym : Bool) (offer answer offer' answer' : Media) : Prop where
  offer_media : offer'.media = offer.media
  answer_media : answer'.media = answer.media
  offer_port : offer'.port ≠ 0 ↔ Taken fmtMatch allowAsym offer answer
  answer_port : answer'.port ≠ 0 ↔ Kept fmtMatch allowAsym offer answer

theorem commonFormats_cases (fmtMatch : FmtMatch) (isAudio : Bool) (offer answer : Media) :
    (∃ error, commonFormats fmtMatch isAudio offer answer = .failed error) ∨
      ∃ offer' prior, removeUnmatched fmtMatch isAudio answer offer.fmt.length 0 [] offer = .ok (offer', prior) ∧
        ((offer'.fmt = [] ∧ commonFormats fmtMatch isAudio offer answer = .noCommonFormat offer' answer) ∨
          (offer'.fmt ≠ [] ∧ ∃ fmt l, commonFormats fmtMatch isAudio offer answer =
            .ok { offer' with fmt := fmt } (removeUnoffered l answer.fmt.length 0 0 answer))) := by
  unfold commonFormats
  rcases removeUnmatched fmtMatch isAudio answer offer.fmt.length 0 [] offer with error | ⟨offer', prior⟩
  · exact Or.inl ⟨error, rfl⟩
  · refine Or.inr ⟨offer', prior, rfl, ?_⟩
    dsimp only
    split
    case isTrue hnil => exact Or.inl ⟨hnil, rfl⟩
    case isFalse hne => exact Or.inr ⟨hne, _, _, rfl⟩

section Enabled

variable {offer answer offer' answer' : Media} (hzero : offer.port ≠ 0) (hmedia : offer'.media = offer.media)
  (hmedia' : answer'.media = answer.media)

include hzero hmedia hmedia'

/-- Two enabled lines with a format in common stay enabled. -/
theorem lineSpec_of_common (hport : answer.port ≠ 0) (hcommon : haveCommon fmtMatch allowAsym offer answer) (hoffer : offer'.port = offer.port)
    (hanswer : answer'.port = answer.port) : LineSpec fmtMatch allowAsym offer answer offer' answer' := by
  refine ⟨hmedia, hmedia', ?_, ?_⟩
  · rw [hoffer]
    exact iff_of_true hzero ⟨hzero, hport, fun _ => hcommon⟩
  · rw [hanswer]
    exact iff_of_true hport ⟨hport, fun _ => hcommon⟩

/-- Without a format in common both are disabled. -/
theorem lineSpec_of_no_common (hcommon : haveCommon fmtMatch allowAsym offer answer = false) :
    LineSpec fmtMatch allowAsym offer answer offer'.deactivate answer'.deactivate := by
  have hnot : ¬Kept fmtMatch allowAsym offer answer := fun h =>
    Bool.false_ne_true (hcommon.symm.trans (h.2 hzero))
  exact ⟨hmedia, hmedia', iff_of_false (fun h => h rfl) fun h => hnot h.2, iff_of_false (fun h => h rfl) hnot⟩

end Enabled

/-- How the comparison of two lines ends, where it does not end the negotiation. -/
theorem processMAnswer_spec (fmtMatch : FmtMatch) (allowAsym : Bool) (offer answer : Media) :
    match processMAnswer fmtMatch allowAsym offer answer with
    | .ok offer' answer' =>
      answer.media = offer.media ∧ LineSpec fmtMatch allowAsym offer answer offer' answer'
    | .mediaMismatch => answer.media ≠ offer.media
    | .noCommonFormat offer' answer' =>
      answer.media = offer.media ∧ LineSpec fmtMatch allowAsym offer answer offer'.deactivate answer'.deactivate
    | .failed _ => True := by
  by_cases hmedia : answer.media = offer.media
  · by_cases hport : answer.port = 0
    · rw [processMAnswer, if_neg (not_not.mpr hmedia), if_pos hport]
      refine ⟨hmedia, rfl, rfl, iff_of_false (fun h => h rfl) fun h => h.2.1 hport, ?_⟩
      exact iff_of_false (fun h => h hport) fun h => h.1 hport
    by_cases htransport : transportCmp answer.transport offer.transport = false
    · rw [processMAnswer, if_neg (not_not.mpr hmedia), if_neg hport, if_pos htransport]
      trivial
    by_cases hzero : offer.port = 0
    · rw [processMAnswer, if_neg (not_not.mpr hmedia), if_neg hport, if_neg htransport, if_pos hzero]
      refine ⟨hmedia, rfl, rfl, iff_of_false (fun h => h hzero) fun h => h.1 hzero, ?_⟩
      exact iff_of_true hport ⟨hport, fun h => absurd hzero h⟩
    rw [processMAnswer, if_neg (not_not.mpr hmedia), if_neg hport, if_neg htransport, if_neg hzero]
    obtain ⟨attrs, hdir⟩ := updateMediaDirection_eq answer offer
    rcases allowAsym with _ | _
    · rw [if_neg Bool.false_ne_true, hdir]
      rcases commonFormats_cases fmtMatch (offer.media == ascii "audio") { offer with attr := attrs } answer with
        ⟨error, hfailed⟩ | ⟨offer', prior, hremove, ⟨hnil, hno⟩ | ⟨hne, fmt, l, hok⟩⟩
      · rw [hfailed]
        trivial
      · rw [hno]
        refine ⟨hmedia, lineSpec_of_no_common hzero (removeUnmatched_line hremove).1 rfl ?_⟩
        simp [haveCommon, hdir, hremove, hnil]
      · rw [hok]
        obtain ⟨hkept, hkept'⟩ := removeUnoffered_line l answer.fmt.length 0 0 answer
        refine ⟨hmedia, lineSpec_of_common hzero (removeUnmatched_line hremove).1 hkept hport ?_
          (removeUnmatched_line hremove).2 hkept'⟩
        simp [haveCommon, hdir, hremove, hne]
    · rw [if_pos rfl, hdir]
      by_cases hany : answer.fmt.any fun fmt => (answer.fmt.take offer.fmt.length).contains fmt
      · rw [if_pos hany]
        exact ⟨hmedia, lineSpec_of_common hzero rfl rfl hport (by simp only [haveCommon, hdir, if_true, hany]) rfl rfl⟩
      · rw [if_neg hany]
        exact ⟨hmedia, lineSpec_of_no_common hzero rfl rfl (by simp only [haveCommon, hdir, if_true, hany])⟩
  · rw [processMAnswer, if_pos hmedia]
    exact hmedia

end Line

/-! The loop over the lines. -/

/-- The course of the loop: the lines of the offer and of the answer that are left, and what becomes of them. -/
inductive Follows (fmtMatch : FmtMatch) (allowAsym : Bool) : List Media → List Media → List Media → List Media → Prop
  | done (answers : List Media) : Follows fmtMatch allowAsym [] answers [] answers
  | missing {offer active remote : Media} {offers actives remotes : List Media} (hmedia : active.media = offer.media)
      (hactive : active.port = 0) (hremote : remote.port = 0) (hrest : Follows fmtMatch allowAsym offers [] actives remotes) :
      Follows fmtMatch allowAsym (offer :: offers) [] (active :: actives) (remote :: remotes)
  | pair {offer answer active remote : Media} {offers answers actives remotes : List Media}
      (hmedia : answer.media = offer.media) (hline : LineSpec fmtMatch allowAsym offer answer active remote)
      (hrest : Follows fmtMatch allowAsym offers answers actives remotes) :
      Follows fmtMatch allowAsym (offer :: offers) (answer :: answers) (active :: actives) (remote :: remotes)
  | mismatch {offer answer active : Media} {offers answers actives remotes : List Media}
      (hmedia : answer.media ≠ offer.media) (hkept : active.media = offer.media) (hactive : active.port = 0)
      (hrest : Follows fmtMatch allowAsym offers (answer :: answers) actives remotes) :
      Follows fmtMatch allowAsym (offer :: offers) (answer :: answers) (active :: actives) remotes

theorem eq_of_bind_ok {ε α β : Type} {x : Except ε α} {f : α → β} {b : β} (h : (x >>= fun a => .ok (f a)) = .ok b) :
    ∃ a, x = .ok a ∧ f a = b := by
  rcases x with error | a
  · cases h
  · exact ⟨a, rfl, Except.ok.inj h⟩

theorem processLines_follows {fmtMatch : FmtMatch} {allowAsym : Bool} {conn : Option Conn} {offers answers actives
    remotes : List Media} (h : processLines fmtMatch allowAsym conn offers answers = .ok (actives, remotes)) :
    Follows fmtMatch allowAsym offers answers actives remotes := by
  induction offers generalizing answers actives remotes with
  | nil =>
    obtain ⟨rfl, rfl⟩ := Prod.mk.inj (Except.ok.inj h)
    exact .done answers
  | cons offer offers ih =>
    cases answers with
    | nil =>
      obtain ⟨⟨actives', remotes'⟩, hrest, hlines⟩ := eq_of_bind_ok h
      obtain ⟨rfl, rfl⟩ := Prod.mk.inj hlines
      exact .missing rfl rfl (cloneDeactivate_spec _ _ _).1 (ih hrest)
    | cons answer answers =>
      have hspec := processMAnswer_spec fmtMatch allowAsym offer answer
      rw [processLines] at h
      generalize processMAnswer fmtMatch allowAsym offer answer = result at h hspec
      rcases result with ⟨offer', answer'⟩ | _ | ⟨offer', answer'⟩ | error
      · obtain ⟨⟨actives', remotes'⟩, hrest, hlines⟩ := eq_of_bind_ok h
        obtain ⟨rfl, rfl⟩ := Prod.mk.inj hlines
        exact .pair hspec.1 hspec.2 (ih hrest)
      · obtain ⟨⟨actives', remotes'⟩, hrest, hlines⟩ := eq_of_bind_ok h
        obtain ⟨rfl, rfl⟩ := Prod.mk.inj hlines
        exact .mismatch hspec rfl rfl (ih hrest)
      · obtain ⟨⟨actives', remotes'⟩, hrest, hlines⟩ := eq_of_bind_ok h
        obtain ⟨rfl, rfl⟩ := Prod.mk.inj hlines
        exact .pair hspec.1 hspec.2 (ih hrest)
      · cases h

theorem mates_pair {offer answer : Media} (h : answer.media = offer.media) (offers answers : List Media) :
    mates (offer :: offers) (answer :: answers) = some 0 :: (mates offers answers).map (Option.map (· + 1)) := by
  rw [mates, if_pos h]

theorem mates_mismatch {offer answer : Media} (h : answer.media ≠ offer.media) (offers answers : List Media) :
    mates (offer :: offers) (answer :: answers) = none :: mates offers (answer :: answers) := by
  rw [mates, if_neg h]

/-- The mates behind the first line are one further in the whole answer. -/
theorem getElem?_map_succ {l : List (Option Nat)} {i j : Nat} :
    (l.map (Option.map (· + 1)))[i]? = some (some j) ↔ ∃ k, j = k + 1 ∧ l[i]? = some (some k) := by
  rw [List.getElem?_map]
  rcases l[i]? with _ | _ | k
  · simp
  · simp
  · simp [eq_comm]

namespace Follows

variable {fmtMatch : FmtMatch} {allowAsym : Bool} {offers answers actives remotes : List Media}

theorem length_actives (h : Follows fmtMatch allowAsym offers answers actives remotes) :
    actives.length = offers.length := by
  induction h with
  | done answers => rfl
  | missing _ _ _ _ ih => rw [List.length_cons, List.length_cons, ih]
  | pair _ _ _ ih => rw [List.length_cons, List.length_cons, ih]
  | mismatch _ _ _ _ ih => rw [List.length_cons, List.length_cons, ih]

/-- The lines of the answer stay, and only lines for those of the offer are added. -/
theorem length_remotes (h : Follows fmtMatch allowAsym offers answers actives remotes) :
    answers.length ≤ remotes.length ∧ remotes.length ≤ max answers.length offers.length := by
  induction h with
  | done answers => exact ⟨le_refl _, le_max_left _ _⟩
  | missing _ _ _ _ ih =>
    simp only [List.length_cons, List.length_nil] at ih ⊢
    omega
  | pair _ _ _ ih =>
    simp only [List.length_cons] at ih ⊢
    omega
  | mismatch _ _ _ _ ih =>
    simp only [List.length_cons] at ih ⊢
    omega

theorem length_remotes_nil (h : Follows fmtMatch allowAsym offers [] actives remotes) :
    remotes.length = offers.length := by
  generalize hnil : ([] : List Media) = answers at h
  induction h with
  | done answers => rw [← hnil]
  | missing _ _ _ _ ih => rw [List.length_cons, List.length_cons, ih rfl]
  | pair => cases hnil
  | mismatch => cases hnil

/-- When both sides have the same number of lines. -/
theorem length_eq_iff (h : Follows fmtMatch allowAsym offers answers actives remotes) :
    actives.length = remotes.length ↔
      answers.length = offers.length ∨ answers.map Media.media <+: offers.map Media.media := by
  rw [h.length_actives]
  induction h with
  | done answers =>
    rw [List.map_nil, List.prefix_nil, List.map_eq_nil_iff, List.length_nil, List.length_eq_zero_iff, or_self,
      eq_comm, List.length_eq_zero_iff]
  | missing _ _ _ hrest _ =>
    refine iff_of_true ?_ (Or.inr (List.nil_prefix))
    rw [List.length_cons, List.length_cons, hrest.length_remotes_nil]
  | pair hmedia _ _ ih =>
    rw [List.length_cons, List.length_cons, List.length_cons, List.map_cons, List.map_cons, hmedia,
      List.prefix_cons_inj, Nat.add_right_cancel_iff, Nat.add_right_cancel_iff]
    exact ih
  | mismatch hmedia _ _ hrest _ =>
    have hlength := hrest.length_remotes
    rw [List.map_cons, List.map_cons, List.cons_prefix_cons]
    simp only [List.length_cons, hmedia, false_and, or_false] at hlength ⊢
    omega

theorem active (h : Follows fmtMatch allowAsym offers answers actives remotes) {i : Nat} {offer : Media}
    (hoffer : offers[i]? = some offer) :
    ∃ l, actives[i]? = some l ∧ l.media = offer.media ∧ (l.port ≠ 0 ↔ ∃ j mate,
      (mates offers answers)[i]? = some (some j) ∧ answers[j]? = some mate ∧ Taken fmtMatch allowAsym offer mate) := by
  induction h generalizing i with
  | done answers => cases hoffer
  | missing hmedia hactive _ _ ih =>
    cases i with
    | zero =>
      obtain rfl := Option.some.inj hoffer
      refine ⟨_, rfl, hmedia, iff_of_false (fun hport => hport hactive) ?_⟩
      rintro ⟨j, mate, hmate, _⟩
      cases hmate
    | succ i => exact ih hoffer
  | @pair _ answer _ _ offers answers _ _ hmedia hline _ ih =>
    rw [mates_pair hmedia]
    cases i with
    | zero =>
      obtain rfl := Option.some.inj hoffer
      refine ⟨_, rfl, hline.offer_media, hline.offer_port.trans ⟨fun htaken => ⟨0, answer, rfl, rfl, htaken⟩, ?_⟩⟩
      rintro ⟨j, mate, hj, hmate, htaken⟩
      obtain rfl := Option.some.inj (Option.some.inj hj)
      obtain rfl := Option.some.inj hmate
      exact htaken
    | succ i =>
      obtain ⟨l, hl, hkept, hport⟩ := ih hoffer
      refine ⟨l, hl, hkept, hport.trans ?_⟩
      rw [List.getElem?_cons_succ]
      constructor
      · rintro ⟨j, mate, hj, hmate, htaken⟩
        exact ⟨j + 1, mate, getElem?_map_succ.mpr ⟨j, rfl, hj⟩, hmate, htaken⟩
      · rintro ⟨_, mate, hj, hmate, htaken⟩
        obtain ⟨k, rfl, hk⟩ := getElem?_map_succ.mp hj
        exact ⟨k, mate, hk, hmate, htaken⟩
  | mismatch hmedia hkept hactive _ ih =>
    rw [mates_mismatch hmedia]
    cases i with
    | zero =>
      obtain rfl := Option.some.inj hoffer
      refine ⟨_, rfl, hkept, iff_of_false (fun hport => hport hactive) ?_⟩
      rintro ⟨j, mate, hmate, _⟩
      cases hmate
    | succ i => exact ih hoffer

theorem remote (h : Follows fmtMatch allowAsym offers answers actives remotes) {i : Nat} {answer : Media}
    (hanswer : answers[i]? = some answer) :
    ∃ r, remotes[i]? = some r ∧ r.media = answer.media ∧ (r.port ≠ 0 ↔ answer.port ≠ 0 ∧
      ∀ (i' : Nat) (offer : Media), offers[i']? = some offer → (mates offers answers)[i']? = some (some i) →
        Kept fmtMatch allowAsym offer answer) := by
  induction h generalizing i with
  | done answers => exact ⟨answer, hanswer, rfl, fun hport => ⟨hport, fun i' offer hoffer => by cases hoffer⟩, And.left⟩
  | missing => cases hanswer
  | @pair offer answer' _ remote offers answers _ _ hmedia hline _ ih =>
    rw [mates_pair hmedia]
    cases i with
    | zero =>
      obtain rfl := Option.some.inj hanswer
      refine ⟨remote, rfl, hline.answer_media, hline.answer_port.trans ⟨fun hkept => ⟨hkept.1, ?_⟩, ?_⟩⟩
      · intro i' offer' hoffer hmate
        cases i' with
        | zero => exact Option.some.inj hoffer ▸ hkept
        | succ i' =>
          obtain ⟨k, hk, _⟩ := getElem?_map_succ.mp hmate
          exact absurd hk (Nat.succ_ne_zero k).symm
      · exact fun hall => hall.2 0 offer rfl rfl
    | succ i =>
      obtain ⟨r, hr, hkept, hport⟩ := ih hanswer
      refine ⟨r, hr, hkept, hport.trans (and_congr_right fun _ => ⟨fun hall i' offer' hoffer hmate => ?_, ?_⟩)⟩
      · cases i' with
        | zero => exact absurd (Option.some.inj (Option.some.inj hmate)) (Nat.succ_ne_zero i).symm
        | succ i' =>
          obtain ⟨k, hk, hmate⟩ := getElem?_map_succ.mp hmate
          exact hall i' offer' hoffer (Nat.succ.inj hk ▸ hmate)
      · exact fun hall i' offer' hoffer hmate =>
          hall (i' + 1) offer' hoffer (getElem?_map_succ.mpr ⟨i, rfl, hmate⟩)
  | @mismatch offer answer' _ offers answers _ _ hmedia _ _ _ ih =>
    rw [mates_mismatch hmedia]
    obtain ⟨r, hr, hkept, hport⟩ := ih hanswer
    refine ⟨r, hr, hkept, hport.trans (and_congr_right fun _ => ⟨fun hall i' offer' hoffer hmate => ?_, ?_⟩)⟩
    · cases i' with
      | zero => cases hmate
      | succ i' => exact hall i' offer' hoffer hmate
    · exact fun hall i' offer' hoffer hmate => hall (i' + 1) offer' hoffer hmate

/-- The lines behind those of the answer are disabled. -/
theorem remote_added (h : Follows fmtMatch allowAsym offers answers actives remotes) {i : Nat} {r : Media}
    (hi : answers.length ≤ i) (hr : remotes[i]? = some r) : r.port = 0 := by
  induction h generalizing i with
  | done answers =>
    rw [List.getElem?_eq_none hi] at hr
    cases hr
  | missing _ _ hremote _ ih =>
    cases i with
    | zero => exact Option.some.inj hr ▸ hremote
    | succ i => exact ih (Nat.zero_le i) hr
  | pair _ _ _ ih =>
    cases i with
    | zero => cases hi
    | succ i => exact ih (Nat.le_of_succ_le_succ hi) hr
  | mismatch _ _ _ _ ih => exact ih hi hr

end Follows

/-- What the negotiation makes active comes from the loop over the lines. -/
theorem processAnswer_follows {fmtMatch : FmtMatch} {allowAsym : Bool} {offer answer active remote : Session}
    (h : processAnswer fmtMatch allowAsym offer answer = .ok (active, remote)) :
    Follows fmtMatch allowAsym offer.media answer.media active.media remote.media := by
  unfold processAnswer at h
  rcases hlines : processLines fmtMatch allowAsym offer.conn offer.media answer.media with error | ⟨actives, remotes⟩
  · rw [hlines] at h
    cases h
  · rw [hlines] at h
    change (if actives.any (fun m => m.port ≠ 0) then _ else _) = _ at h
    split at h
    · obtain ⟨rfl, rfl⟩ := Prod.mk.inj (Except.ok.inj h)
      exact processLines_follows hlines
    · cases h

/-- The lines with the same index belong together exactly when the answer is in step with the offer. -/
theorem aligned_iff_inStep {fmtMatch : FmtMatch} {allowAsym : Bool} {offer answer active remote : Session}
    (h : Follows fmtMatch allowAsym offer.media answer.media active.media remote.media) :
    Aligned active remote ↔ InStep fmtMatch allowAsym offer.media answer.media := by
  constructor
  · rintro ⟨hlength, hlines⟩
    refine ⟨h.length_eq_iff.mp hlength, fun i j offer' mate hoffer hj hmate htaken => ?_⟩
    obtain ⟨l, hl, hkept, hport⟩ := h.active hoffer
    have hactive : l.port ≠ 0 := hport.mpr ⟨j, mate, hj, hmate, htaken⟩
    obtain ⟨r, hr⟩ : ∃ r, remote.media[i]? = some r :=
      ⟨_, List.getElem?_eq_getElem (hlength ▸ (List.getElem?_eq_some_iff.mp hl).1)⟩
    rcases hlines i l r hl hr with ⟨_, hremote, hmedia⟩ | hzero
    · rcases Nat.lt_or_ge i answer.media.length with hi | hi
      · obtain ⟨r', hr', hkept', hport'⟩ := h.remote (List.getElem?_eq_getElem hi)
        obtain rfl := Option.some.inj (hr.symm.trans hr')
        obtain ⟨hanswer, hall⟩ := hport'.mp hremote
        exact ⟨_, List.getElem?_eq_getElem hi, hkept'.symm.trans (hmedia.symm.trans hkept), hanswer, hall⟩
      · exact absurd (h.remote_added hi hr) hremote
    · exact absurd hzero hactive
  · rintro ⟨hcount, htaken⟩
    refine ⟨h.length_eq_iff.mpr hcount, fun i l r hl hr => ?_⟩
    by_cases hzero : l.port = 0
    · exact Or.inr hzero
    · have hi : i < offer.media.length := h.length_actives ▸ (List.getElem?_eq_some_iff.mp hl).1
      obtain ⟨l', hl', hkept, hport⟩ := h.active (List.getElem?_eq_getElem hi)
      obtain rfl := Option.some.inj (hl.symm.trans hl')
      obtain ⟨j, mate, hj, hmate, hline⟩ := hport.mp hzero
      obtain ⟨answer', hanswer, hmedia, henabled, hall⟩ :=
        htaken i j _ mate (List.getElem?_eq_getElem hi) hj hmate hline
      obtain ⟨r', hr', hkept', hport'⟩ := h.remote hanswer
      obtain rfl := Option.some.inj (hr.symm.trans hr')
      exact Or.inl ⟨hzero, hport'.mpr ⟨henabled, hall⟩, hkept.trans (hmedia.symm.trans hkept'.symm)⟩

/-! An answer in the order of the offer. -/

theorem mates_of_initial {offers answers : List Media} (h : answers.map Media.media <+: offers.map Media.media)
    {i j : Nat} (hj : (mates offers answers)[i]? = some (some j)) : j = i := by
  induction offers generalizing answers i j with
  | nil => cases hj
  | cons offer offers ih =>
    cases answers with
    | nil =>
      cases i with
      | zero => cases hj
      | succ i =>
        have hmates : ∀ (l : List Media) (k : Nat), (mates l [])[k]? ≠ some (some j) := by
          intro l
          induction l with
          | nil => exact nofun
          | cons _ l ih =>
            intro k hk
            cases k with
            | zero => cases hk
            | succ k => exact ih k hk
        exact absurd hj (hmates offers i)
    | cons answer answers =>
      rw [List.map_cons, List.map_cons, List.cons_prefix_cons] at h
      rw [mates_pair h.1] at hj
      cases i with
      | zero => exact (Option.some.inj (Option.some.inj hj)).symm
      | succ i =>
        obtain ⟨k, rfl, hk⟩ := getElem?_map_succ.mp hj
        rw [ih h.2 hk]

/-- An answer whose lines have the types of the first lines of the offer, in their order, is in step with it. -/
theorem inStep_of_initial {fmtMatch : FmtMatch} {allowAsym : Bool} {offers answers : List Media}
    (h : answers.map Media.media <+: offers.map Media.media) : InStep fmtMatch allowAsym offers answers := by
  refine ⟨Or.inr h, fun i j offer mate hoffer hj hmate htaken => ?_⟩
  rw [mates_of_initial h hj] at hmate
  have hmedia : mate.media = offer.media := by
    obtain ⟨more, hmore⟩ := h
    have hmap : (offers.map Media.media)[i]? = some mate.media := by
      rw [← hmore, List.getElem?_append_left (by rw [List.length_map]; exact (List.getElem?_eq_some_iff.mp hmate).1),
        List.getElem?_map, hmate, Option.map_some]
    rw [List.getElem?_map, hoffer] at hmap
    exact (Option.some.inj hmap).symm
  refine ⟨mate, hmate, hmedia, htaken.2.1, fun i' offer' hoffer' hi' => ?_⟩
  rw [← mates_of_initial h hi'] at hoffer'
  exact Option.some.inj (hoffer.symm.trans hoffer') ▸ htaken.2

/-! The negotiation. -/

/-- After a negotiation that succeeds with an answer from the remote side, the active descriptions are in step exactly
when the answer is in step with the offer. -/
theorem negotiate_aligned_iff (cfg : Config) (allowAsym : Bool) {neg neg' : Neg} {offer answer : Session}
    (hanswer : neg.hasRemoteAnswer) (hoffer : neg.negLocalSdp = some offer) (hremote : neg.negRemoteSdp = some answer)
    (hnego : negotiate cfg allowAsym neg = some (none, neg')) :
    ∃ active remote, neg'.activeLocalSdp = some active ∧ neg'.activeRemoteSdp = some remote ∧
      (Aligned active remote ↔ InStep cfg.fmtMatch allowAsym offer.media answer.media) := by
  unfold negotiate at hnego
  split at hnego
  · cases hnego
  · rw [hremote] at hnego
    simp only [hoffer, hanswer, if_true, negotiateAnswer] at hnego
    rcases hprocess : processAnswer cfg.fmtMatch allowAsym offer answer with error | ⟨active, remote⟩
    · rw [hprocess] at hnego
      cases hnego
    · rw [hprocess] at hnego
      obtain ⟨_, rfl⟩ := Prod.mk.inj (Option.some.inj hnego)
      exact ⟨active, remote, rfl, rfl, aligned_iff_inStep (processAnswer_follows hprocess)⟩

def answered (offer answer : Session) : Neg :=
  { Neg.init with
    state := .waitNego, hasRemoteAnswer := true, initialSdp := some offer, negLocalSdp := some offer
    lastSent := some offer, negRemoteSdp := some answer }

def twoLines : Session := plainSession 1 [plainMedia "audio" 4000 ["0"] [], plainMedia "video" 4002 ["31"] []]

/-- The answer leaves the second line of the offer out. -/
theorem aligned_shorter :
    createWLocalOffer twoLines >>= (setRemoteAnswer · (plainSession 1 [plainMedia "audio" 5000 ["0"] []])) =
        .ok (answered twoLines (plainSession 1 [plainMedia "audio" 5000 ["0"] []])) ∧
      ∃ neg active remote,
        negotiate plainConfig false (answered twoLines (plainSession 1 [plainMedia "audio" 5000 ["0"] []])) =
          some (none, neg) ∧
        neg.activeLocalSdp = some active ∧ neg.activeRemoteSdp = some remote ∧ Aligned active remote := by
  obtain ⟨active, remote, hactive, hremote, hiff⟩ := negotiate_aligned_iff plainConfig false
    (show (answered twoLines (plainSession 1 [plainMedia "audio" 5000 ["0"] []])).hasRemoteAnswer from rfl) rfl rfl rfl
  exact ⟨rfl, _, active, remote, rfl, hactive, hremote,
    hiff.mpr (inStep_of_initial ⟨[ascii "video"], by decide⟩)⟩

/-- The answer has the two lines of the offer in the other order. -/
theorem not_aligned_swapped :
    ∃ answer neg neg' neg'' active remote,
      createWLocalOffer twoLines = .ok neg ∧ setRemoteAnswer neg answer = .ok neg' ∧
      negotiate plainConfig false neg' = some (none, neg'') ∧ neg''.activeLocalSdp = some active ∧
      neg''.activeRemoteSdp = some remote ∧ ¬Aligned active remote := by
  refine ⟨plainSession 1 [plainMedia "video" 5002 ["31"] [], plainMedia "audio" 5000 ["0"] []], _, _, _, _, _, rfl, rfl,
    rfl, rfl, rfl, fun haligned => ?_⟩
  -- the second lines are video and audio
  rcases haligned.2 1 _ _ rfl rfl with ⟨_, _, hmedia⟩ | hzero
  · exact absurd hmedia (by decide)
  · exact absurd hzero (by decide)

end PjProject.SdpNeg
