import PjProject.SdpNeg
import PjProject.SdpNegSelect

/-! The shape of a created answer. Its lines are those of the offer, in order and by type, each local line answers at
most one of them, and an enabled line has the formats that were selected, under the numbers of the offer. What was
selected may be nothing, or the same format twice; it is said here on which lines this does not happen. -/

namespace PjProject.SdpNeg

open Sdp
open Sock (isDigit strtoul)

/-! The formats of the answer. -/

/-- Without the telephone events that are not wanted nothing is there that was not selected, unless an empty format is put
back. -/
theorem filterTelephoneEvents_cases (preanswer : Media) (clockrate : List Nat) (pairs : List (Str × Str)) :
    (filterTelephoneEvents preanswer clockrate pairs).Subperm pairs ∨
      ([], []) ∈ filterTelephoneEvents preanswer clockrate pairs := by
  unfold filterTelephoneEvents
  dsimp only
  split
  · exact Or.inl List.filter_sublist.subperm
  case isFalse hnone =>
    rw [Bool.not_eq_true, List.any_eq_false] at hnone
    rcases hfind : pairs.find? fun pair => (telephoneEvent preanswer pair.2).isSome with _ | pair
    · rw [hfind]
      exact Or.inr (List.mem_append.mpr (Or.inr List.mem_cons_self))
    · -- the one that is put back was removed
      rw [hfind]
      refine Or.inl ?_
      have hkept : ∀ wanted : Str × Str → Bool,
          (∀ pair ∈ pairs.filter wanted, ¬(telephoneEvent preanswer pair.2).isSome = true) →
          (pairs.filter wanted).Sublist (pairs.filter fun pair => !(telephoneEvent preanswer pair.2).isSome) := by
        intro wanted hnone
        have hsub := List.Sublist.filter (fun pair : Str × Str => !(telephoneEvent preanswer pair.2).isSome)
          (List.filter_sublist (p := wanted) (l := pairs))
        rwa [List.filter_eq_self.mpr fun pair hpair => by
          rw [Bool.not_eq_true']
          exact Bool.eq_false_iff.mpr (hnone pair hpair)] at hsub
      have hisTel : (telephoneEvent preanswer pair.2).isSome = true :=
        List.find?_some (p := fun pair : Str × Str => (telephoneEvent preanswer pair.2).isSome) hfind
      have hback : [pair].Sublist (pairs.filter fun pair => (telephoneEvent preanswer pair.2).isSome) :=
        List.singleton_sublist.mpr (List.mem_filter.mpr ⟨List.mem_of_find?_eq_some hfind, hisTel⟩)
      exact ((hkept _ hnone).append hback).subperm.trans
        (List.perm_append_comm.trans (List.filter_append_perm _ pairs)).subperm

theorem filterTelephoneEvents_ne_nil (preanswer : Media) (clockrate : List Nat) (pairs : List (Str × Str)) :
    filterTelephoneEvents preanswer clockrate pairs ≠ [] := by
  unfold filterTelephoneEvents
  dsimp only
  split
  case isTrue hany =>
    obtain ⟨pair, hpair, _⟩ := List.any_eq_true.mp hany
    exact List.ne_nil_of_mem hpair
  case isFalse => exact List.append_ne_nil_of_right_ne_nil _ (List.cons_ne_nil _ _)

/-- The formats are exchanged, and those that were selected come first. -/
theorem reorder_spec {selected fmt fmt' : List Str} {n i : Nat} (h : reorder selected n i fmt = some fmt') :
    fmt'.Perm fmt ∧ fmt'.take i = fmt.take i ∧
      ∀ k, i ≤ k → k < i + n → fmt'[k]? = some (selected.getD k []) := by
  induction n generalizing i fmt with
  | zero =>
    obtain rfl := Option.some.inj h
    exact ⟨List.Perm.refl _, rfl, fun k hle hlt => absurd hlt (Nat.not_lt.mpr hle)⟩
  | succ n ih =>
    rw [reorder] at h
    split at h
    · cases h
    case h_2 k hfind =>
      obtain ⟨hk, hselected, _⟩ := List.idxOf?_eq_some_iff.mp hfind
      rw [List.length_drop] at hk
      rw [List.getElem_drop] at hselected
      rw [List.getD_eq_getElem _ _ (by omega), List.getD_eq_getElem _ _ (by omega)] at h
      obtain ⟨hperm, htake, hrest⟩ := ih h
      refine ⟨hperm.trans (List.set_set_perm (by omega) (by omega)), ?_, fun l hle hlt => ?_⟩
      · have hinitial := congrArg (List.take i) htake
        rw [List.take_take, List.take_take, Nat.min_eq_left (Nat.le_succ i)] at hinitial
        rw [hinitial, List.take_set_of_le (by omega), List.take_set_of_le le_rfl]
      · rcases Nat.eq_or_lt_of_le hle with rfl | hil
        · have hhead : fmt'[i]? = (fmt'.take (i + 1))[i]? := (List.getElem?_take_of_lt (Nat.lt_succ_self i)).symm
          rw [hhead, htake, List.getElem?_take_of_lt (Nat.lt_succ_self i), ← hselected]
          rcases Nat.eq_zero_or_pos k with rfl | hpos
          · simp only [Nat.add_zero]
            exact List.getElem?_set_self (by rw [List.length_set]; omega)
          · rw [List.getElem?_set_ne (by omega), List.getElem?_set_self (by omega)]
        · exact hrest l hil (by omega)

/-- The formats that were selected are formats of the local line. -/
theorem reorder_take {selected fmt fmt' : List Str} (h : reorder selected selected.length 0 fmt = some fmt') :
    fmt'.take selected.length = selected ∧ selected.Subperm fmt := by
  obtain ⟨hperm, _, hall⟩ := reorder_spec h
  have hinitial : fmt'.take selected.length = selected := by
    refine List.ext_getElem? fun k => ?_
    rcases Nat.lt_or_ge k selected.length with hlt | hge
    · rw [List.getElem?_take_of_lt hlt, hall k (Nat.zero_le k) (by omega), List.getD_eq_getElem _ _ hlt,
        List.getElem?_eq_getElem hlt]
    · rw [List.getElem?_eq_none hge, List.getElem?_eq_none (by rw [List.length_take]; omega)]
  have hsub := (List.take_sublist selected.length fmt').subperm
  rw [hinitial] at hsub
  exact ⟨hinitial, hsub.trans hperm.subperm⟩

theorem foldl_forget_eq (l : List Str) (m : Media) : ∃ attrs, l.foldl Media.forget m = { m with attr := attrs } := by
  induction l generalizing m with
  | nil => exact ⟨m.attr, rfl⟩
  | cons fmt l ih =>
    obtain ⟨attrs, heq⟩ := ih (m.forget fmt)
    exact ⟨attrs, heq⟩

/-- The answer to a line is the local line with the formats that were selected, under the numbers of the offer. -/
theorem buildAnswer_spec {offer preanswer answer : Media} {pairs : List (Str × Str)}
    (h : buildAnswer offer preanswer pairs = some answer) :
    (∃ attrs, answer = { preanswer with fmt := pairs.map Prod.fst, attr := attrs }) ∧
      (pairs.map Prod.snd).Subperm preanswer.fmt := by
  obtain ⟨fmt, hreorder, rfl⟩ := Option.map_eq_some_iff.mp h
  rw [show pairs.length = (pairs.map Prod.snd).length from (List.length_map _).symm] at hreorder
  obtain ⟨htake, hsub⟩ := reorder_take hreorder
  refine ⟨?_, hsub⟩
  dsimp only
  obtain ⟨attrs, hforget⟩ := foldl_forget_eq (fmt.drop pairs.length) { preanswer with fmt := fmt }
  rw [hforget]
  obtain ⟨attrs', hdir⟩ := updateMediaDirection_eq offer (applyAnswerSymmetricPt
    { preanswer with fmt := fmt.take pairs.length, attr := attrs } pairs)
  rw [hdir]
  refine ⟨attrs', ?_⟩
  have hnone : (fmt.take pairs.length).drop pairs.length = [] :=
    List.drop_eq_nil_of_le (by rw [List.length_take]; omega)
  rw [applyAnswerSymmetricPt]
  dsimp only
  rw [hnone, List.append_nil]

/-! One line of the offer. -/

structure AnswersLine (sdp : Session) (offer lcl answer : Media) : Prop where
  offered : offer.port ≠ 0 ∨ isBundleOnlyOffer sdp offer
  transport : profile answer.transport = profile offer.transport
  formats : answer.fmt ≠ []
  matched : ∃ pairs : List (Str × Str), answer.fmt = pairs.map Prod.fst ∧ (pairs.map Prod.fst).Subperm offer.fmt ∧
    (pairs.map Prod.snd).Subperm lcl.fmt ∧ ∀ pair ∈ pairs, FormatsMatch offer lcl pair.1 pair.2

/-- Two local lines that differ in attributes other than `rtpmap`. -/
def SameLine (m m' : Media) : Prop :=
  ∃ attrs, m' = { m with attr := attrs } ∧ ∀ fmt, attrFind attrs strRtpmap fmt = attrFind m.attr strRtpmap fmt

theorem SameLine.refl (m : Media) : SameLine m m := ⟨m.attr, rfl, fun _ => rfl⟩

theorem SameLine.trans {m m' m'' : Media} (h : SameLine m m') (h' : SameLine m' m'') : SameLine m m'' := by
  obtain ⟨attrs, rfl, hattrs⟩ := h
  obtain ⟨attrs', rfl, hattrs'⟩ := h'
  exact ⟨attrs', rfl, fun fmt => (hattrs' fmt).trans (hattrs fmt)⟩

/-- What becomes of two lines that are both in use. -/
structure Enabled (fmtMatch : FmtMatch) (ls : Lines) (answer : Media) : Prop where
  media : answer.media = ls.preanswer.media
  port : answer.port = ls.preanswer.port
  transport : answer.transport = ls.preanswer.transport
  formats : answer.fmt ≠ [] ↔ ∃ f ∈ ls.master.fmt, Selectable ls f
  matched : LineCond fmtMatch ls → ∃ pairs : List (Str × Str), answer.fmt = pairs.map Prod.fst ∧
    (pairs.map Prod.fst).Subperm ls.offer.fmt ∧ (pairs.map Prod.snd).Subperm ls.preanswer.fmt ∧
    ∀ pair ∈ pairs, FormatsMatch ls.offer ls.preanswer pair.1 pair.2

theorem reduceRed_eq (redLevel : Int) (preanswer : Media) (n i : Nat) :
    ∃ attrs, reduceRed redLevel preanswer n i = { preanswer with attr := attrs } := by
  induction n generalizing i with
  | zero => exact ⟨preanswer.attr, rfl⟩
  | succ n ih =>
    unfold reduceRed
    dsimp only
    split
    · exact ih (i + 1)
    · split
      · exact ih (i + 1)
      · split
        · split
          · exact ⟨_, rfl⟩
          · exact ⟨preanswer.attr, rfl⟩
        · exact ⟨preanswer.attr, rfl⟩

theorem matchEnabled_answer {fmtMatch : FmtMatch} (hkeeps : KeepsRtpmaps fmtMatch) {ls : Lines} {answer m : Media}
    (h : matchEnabled fmtMatch ls = .answer answer m) : Enabled fmtMatch ls answer := by
  have hselects := selectFormats_selects hkeeps ls
  unfold matchEnabled at h
  generalize selectFormats fmtMatch ls = result at h hselects
  rcases result with ⟨error, attr⟩ | sel
  · cases h
  · obtain ⟨picks, hpicks⟩ := hselects
    dsimp only at h
    split at h
    · cases h
    case isFalse hcodec =>
      split at h
      · cases h
      case isFalse hother =>
        -- the local line as it is then, and the formats that are left
        obtain ⟨attrs, hline⟩ : ∃ attrs, (if sel.foundRed = true then
            reduceRed sel.redLevel { ls.preanswer with attr := sel.attr } sel.pairs.length 0
          else { ls.preanswer with attr := sel.attr }) = { ls.preanswer with attr := attrs } := by
          split
          · exact reduceRed_eq _ { ls.preanswer with attr := sel.attr } _ _
          · exact ⟨sel.attr, rfl⟩
        rw [hline] at h
        generalize hpairs : (if sel.foundTelephoneEvent = true then
          filterTelephoneEvents { ls.preanswer with attr := attrs } sel.clockrate sel.pairs else sel.pairs) = pairs at h
        have hsub : pairs.Subperm sel.pairs ∨ ([], []) ∈ pairs := by
          rw [← hpairs]
          split
          · exact filterTelephoneEvents_cases _ _ _
          · exact Or.inl (List.Subperm.refl _)
        have hne : pairs ≠ [] ↔ sel.pairs ≠ [] := by
          rw [← hpairs]
          split
          case isTrue hevent =>
            refine iff_of_true (filterTelephoneEvents_ne_nil _ _ _) ?_
            rw [hpicks.pairs, ne_eq, List.map_eq_nil_iff]
            exact hpicks.event hevent
          · exact Iff.rfl
        split at h
        · cases h
        case h_2 built hbuild =>
          obtain ⟨rfl, _⟩ := MatchOffer.answer.inj h
          obtain ⟨⟨attrs', rfl⟩, hlocal⟩ := buildAnswer_spec hbuild
          refine ⟨rfl, rfl, rfl, ?_, fun hcond => ⟨pairs, rfl, ?_⟩⟩
          · rw [← hpicks.ne_nil_iff hcodec hother, ← hne, ne_eq, ne_eq, List.map_eq_nil_iff]
          · rcases hsub with hsub | hempty
            · obtain ⟨l, hperm, hsublist⟩ := hsub
              have hfirst : (pairs.map Prod.fst).Subperm (sel.pairs.map Prod.fst) :=
                ⟨l.map Prod.fst, hperm.map _, hsublist.map _⟩
              refine ⟨hfirst.trans (hpicks.offered_subperm hcond), hlocal, fun pair hpair => ?_⟩
              exact hpicks.formatsMatch (hsublist.subset (hperm.mem_iff.mpr hpair))
            · exact absurd (hlocal.subset (List.mem_map_of_mem hempty)) hcond.named

theorem matchEnabled_failed {fmtMatch : FmtMatch} (hkeeps : KeepsRtpmaps fmtMatch) {ls : Lines} {error : Errno}
    {m : Media} (h : matchEnabled fmtMatch ls = .failed error m) : SameLine ls.preanswer m := by
  have hselects := selectFormats_selects hkeeps ls
  unfold matchEnabled at h
  generalize selectFormats fmtMatch ls = result at h hselects
  rcases result with ⟨error', attr⟩ | sel
  · obtain ⟨_, rfl⟩ := MatchOffer.failed.inj h
    exact ⟨attr, rfl, hselects⟩
  · obtain ⟨picks, hpicks⟩ := hselects
    dsimp only at h
    split at h
    · obtain ⟨_, rfl⟩ := MatchOffer.failed.inj h
      exact ⟨sel.attr, rfl, hpicks.attr⟩
    · split at h
      · obtain ⟨_, rfl⟩ := MatchOffer.failed.inj h
        exact ⟨sel.attr, rfl, hpicks.attr⟩
      · split at h
        all_goals cases h

theorem matchOffer_answer {fmtMatch : FmtMatch} (hkeeps : KeepsRtpmaps fmtMatch) {ls : Lines} {bundleOnly : Bool}
    {conn : Option Conn} {answer m : Media} (h : matchOffer fmtMatch ls bundleOnly conn = .answer answer m)
    (hmedia : ls.offer.media = ls.preanswer.media) :
    answer.media = ls.offer.media ∧ (answer.port ≠ 0 →
      (ls.offer.port ≠ 0 ∨ bundleOnly) ∧ ls.preanswer.port ≠ 0 ∧ Enabled fmtMatch ls answer) := by
  unfold matchOffer at h
  split at h
  · obtain ⟨rfl, _⟩ := MatchOffer.answer.inj h
    have hclone := cloneDeactivate_spec ls.offer ls.preanswer conn
    exact ⟨hclone.2, fun hport => absurd hclone.1 hport⟩
  case isFalse hoffered =>
    split at h
    case isTrue hzero =>
      obtain ⟨rfl, _⟩ := MatchOffer.answer.inj h
      exact ⟨hmedia.symm, fun hport => absurd hzero hport⟩
    case isFalse hport =>
      have henabled := matchEnabled_answer hkeeps h
      refine ⟨henabled.media.trans hmedia.symm, fun _ => ⟨?_, hport, henabled⟩⟩
      rw [not_and_or, Bool.not_eq_false] at hoffered
      exact hoffered

theorem matchOffer_failed {fmtMatch : FmtMatch} (hkeeps : KeepsRtpmaps fmtMatch) {ls : Lines} {bundleOnly : Bool}
    {conn : Option Conn} {error : Errno} {m : Media} (h : matchOffer fmtMatch ls bundleOnly conn = .failed error m) :
    SameLine ls.preanswer m := by
  unfold matchOffer at h
  split at h
  · cases h
  · split at h
    · cases h
    · exact matchEnabled_failed hkeeps h

/-! The lines of the offer. -/

/-- The local lines that are not used are not used before either, and are the same. -/
def Later (lines lines' : List LocalLine) : Prop :=
  ∀ (k : Nat) (m' : Media), lines'[k]? = some (m', false) → ∃ m : Media, lines[k]? = some (m, false) ∧ SameLine m m'

theorem Later.cons {lines lines' : List LocalLine} (h : Later lines lines') {m m' : Media} {used used' : Bool}
    (hline : used' = false → used = false ∧ SameLine m m') : Later ((m, used) :: lines) ((m', used') :: lines') := by
  intro k m'' hk
  cases k with
  | zero =>
    obtain ⟨rfl, rfl⟩ := Prod.mk.inj (Option.some.inj hk)
    obtain ⟨rfl, hsame⟩ := hline rfl
    exact ⟨m, rfl, hsame⟩
  | succ k => exact h k m'' hk

/-- The local line that `match_offer` takes for a line of the offer. -/
def takenLine (fmtMatch : FmtMatch) (preferRemote multiple bundleOnly : Bool) (conn : Option Conn) (offer : Media) :
    List LocalLine → Option Media
  | [] => none
  | (m, used) :: more =>
    if offer.media = m.media ∧ profile offer.transport = profile m.transport ∧ used = false then
      match matchOffer fmtMatch ⟨preferRemote, multiple, offer, m⟩ bundleOnly conn with
      | .answer _ _ => some m
      | _ => takenLine fmtMatch preferRemote multiple bundleOnly conn offer more
    else takenLine fmtMatch preferRemote multiple bundleOnly conn offer more

/-- The lines that `match_offer` takes together: one of the offer, and a local one. -/
def taken (fmtMatch : FmtMatch) (preferRemote multiple : Bool) (conn : Option Conn) (sdp : Session) :
    List Media → List LocalLine → Option Errno → List (Media × Media)
  | [], _, _ => []
  | offer :: more, lines, status =>
    (takenLine fmtMatch preferRemote multiple (isBundleOnlyOffer sdp offer) conn offer lines).toList.map (offer, ·) ++
      (findLine fmtMatch preferRemote multiple (isBundleOnlyOffer sdp offer) conn offer lines status).elim []
        fun found => taken fmtMatch preferRemote multiple conn sdp more found.lines found.status

theorem findLine_spec {fmtMatch : FmtMatch} (hkeeps : KeepsRtpmaps fmtMatch) {preferRemote multiple bundleOnly : Bool}
    {conn : Option Conn} {offer : Media} {lines : List LocalLine} {status : Option Errno} {found : Found}
    (h : findLine fmtMatch preferRemote multiple bundleOnly conn offer lines status = some found) :
    Later lines found.lines ∧ ∀ answer, found.answer = some answer → ∃ (k : Nat) (m m' : Media),
      lines[k]? = some (m, false) ∧
      found.lines[k]? = some (m', true) ∧ offer.media = m.media ∧ profile offer.transport = profile m.transport ∧
      takenLine fmtMatch preferRemote multiple bundleOnly conn offer lines = some m ∧
      matchOffer fmtMatch ⟨preferRemote, multiple, offer, m⟩ bundleOnly conn = .answer answer m' := by
  induction lines generalizing status found with
  | nil =>
    obtain rfl := Option.some.inj h
    exact ⟨fun k m' hk => absurd hk (by rw [List.getElem?_nil]; exact (Option.some_ne_none _).symm),
      nofun⟩
  | cons line more ih =>
    obtain ⟨m, used⟩ := line
    -- another line is found, or none
    have hmore : ∀ {found' : Found} {m' : Media} {status' : Option Errno},
        findLine fmtMatch preferRemote multiple bundleOnly conn offer more status' = some found' →
        SameLine m m' → found = { found' with lines := (m', used) :: found'.lines } →
        takenLine fmtMatch preferRemote multiple bundleOnly conn offer ((m, used) :: more) =
          takenLine fmtMatch preferRemote multiple bundleOnly conn offer more →
        Later ((m, used) :: more) found.lines ∧ ∀ answer, found.answer = some answer →
          ∃ (k : Nat) (m1 m2 : Media), ((m, used) :: more)[k]? = some (m1, false) ∧ found.lines[k]? = some (m2, true) ∧
            offer.media = m1.media ∧ profile offer.transport = profile m1.transport ∧
            takenLine fmtMatch preferRemote multiple bundleOnly conn offer ((m, used) :: more) = some m1 ∧
            matchOffer fmtMatch ⟨preferRemote, multiple, offer, m1⟩ bundleOnly conn = .answer answer m2 := by
      intro found' m' status' hfound hsame heq htaken
      obtain ⟨hlater, hanswer⟩ := ih hfound
      rw [heq]
      refine ⟨hlater.cons fun hused => ⟨hused, hsame⟩, fun answer hsome => ?_⟩
      obtain ⟨k, m1, m2, hk, hk', hmedia, hprofile, hmem, hmatch⟩ := hanswer answer hsome
      exact ⟨k + 1, m1, m2, hk, hk', hmedia, hprofile, htaken.trans hmem, hmatch⟩
    rw [findLine] at h
    rw [takenLine] at hmore ⊢
    split at h
    case isTrue hfits =>
      rw [if_pos hfits] at hmore ⊢
      split at h
      · cases h
      case h_2 answer m' hmatch =>
        obtain rfl := Option.some.inj h
        refine ⟨?_, fun answer' hsome => ?_⟩
        · exact Later.cons (fun k m'' hk => ⟨m'', hk, SameLine.refl m''⟩) fun hused =>
            absurd hused.symm Bool.false_ne_true
        · obtain rfl := Option.some.inj hsome
          refine ⟨0, m, m', by rw [hfits.2.2]; rfl, rfl, hfits.1, hfits.2.1, ?_, hmatch⟩
          rw [hmatch]
      case h_3 error m' hmatch =>
        obtain ⟨found', hfound, rfl⟩ := Option.map_eq_some_iff.mp h
        rw [hmatch] at hmore ⊢
        exact hmore hfound (matchOffer_failed hkeeps hmatch) rfl rfl
    case isFalse hno =>
      rw [if_neg hno] at hmore ⊢
      obtain ⟨found', hfound, rfl⟩ := Option.map_eq_some_iff.mp h
      exact hmore hfound (SameLine.refl m) rfl rfl

def InUse (sdp : Session) (offer lcl : Media) : Prop :=
  (offer.port ≠ 0 ∨ isBundleOnlyOffer sdp offer) ∧ lcl.port ≠ 0

/-- What the lines of the answer come from: the local line for each line of the offer, if there is one, as it was when
the lines were matched. -/
structure Origin (fmtMatch : FmtMatch) (calls : List (Media × Media)) (preferRemote multiple : Bool) (sdp : Session)
    (offers answers : List Media) (lines : List LocalLine) (origin : List (Option Nat)) : Prop where
  length : answers.length = offers.length
  line : ∀ (i : Nat) (offer answer : Media), offers[i]? = some offer → answers[i]? = some answer →
    answer.media = offer.media ∧ (answer.port ≠ 0 → ∃ (k : Nat) (lcl m : Media), origin[i]? = some (some k) ∧
      lines[k]? = some (lcl, false) ∧ SameLine lcl m ∧ offer.media = m.media ∧
      profile offer.transport = profile m.transport ∧ (offer, m) ∈ calls ∧ InUse sdp offer m ∧
      Enabled fmtMatch ⟨preferRemote, multiple, offer, m⟩ answer)
  unused : ∀ (i k : Nat), origin[i]? = some (some k) → ∃ lcl : Media, lines[k]? = some (lcl, false)
  once : ∀ (i i' k : Nat), origin[i]? = some (some k) → origin[i']? = some (some k) → i = i'

theorem answerLines_origin {fmtMatch : FmtMatch} (hkeeps : KeepsRtpmaps fmtMatch) {preferRemote multiple : Bool}
    {conn : Option Conn} {sdp : Session} {offers answers : List Media} {lines : List LocalLine}
    {status status' : Option Errno}
    (h : answerLines fmtMatch preferRemote multiple conn sdp offers lines status = some (status', answers)) :
    ∃ origin, Origin fmtMatch (taken fmtMatch preferRemote multiple conn sdp offers lines status) preferRemote multiple sdp
      offers answers lines origin := by
  induction offers generalizing answers lines status with
  | nil =>
    obtain ⟨_, rfl⟩ := Prod.mk.inj (Option.some.inj h)
    refine ⟨[], rfl, fun i offer answer hoffer => ?_, fun i k hk => ?_, fun i i' k hk => ?_⟩
    · cases hoffer
    · cases hk
    · cases hk
  | cons offer more ih =>
    obtain ⟨found, hfound, hrest⟩ := Option.bind_eq_some_iff.mp h
    obtain ⟨⟨status'', answers'⟩, hanswers, heq⟩ := Option.bind_eq_some_iff.mp hrest
    obtain ⟨rfl, rfl⟩ := Prod.mk.inj (Option.some.inj heq)
    obtain ⟨hlater, hanswer⟩ := findLine_spec hkeeps hfound
    obtain ⟨origin, horigin⟩ := ih hanswers
    rw [taken, hfound, Option.elim_some]
    generalize hcalls : (takenLine fmtMatch preferRemote multiple (isBundleOnlyOffer sdp offer) conn offer lines).toList.map
      (offer, ·) ++ taken fmtMatch preferRemote multiple conn sdp more found.lines found.status = calls
    -- the rest of the lines, seen from the local lines as they are now
    have hline : ∀ (i : Nat) (offer answer : Media), more[i]? = some offer → answers'[i]? = some answer →
        answer.media = offer.media ∧ (answer.port ≠ 0 → ∃ (k : Nat) (lcl m : Media), origin[i]? = some (some k) ∧
          lines[k]? = some (lcl, false) ∧ SameLine lcl m ∧ offer.media = m.media ∧
          profile offer.transport = profile m.transport ∧ (offer, m) ∈ calls ∧ InUse sdp offer m ∧
          Enabled fmtMatch ⟨preferRemote, multiple, offer, m⟩ answer) := by
      intro i offer answer hoffer hans
      obtain ⟨hmedia, henabled⟩ := horigin.line i offer answer hoffer hans
      refine ⟨hmedia, fun hport => ?_⟩
      obtain ⟨k, lcl, m, hk, hlcl, hsame, htype, hprofile, hcall, hmatch⟩ := henabled hport
      obtain ⟨lcl', hlcl', hsame'⟩ := hlater k lcl hlcl
      exact ⟨k, lcl', m, hk, hlcl', hsame'.trans hsame, htype, hprofile, hcalls ▸ List.mem_append_right _ hcall, hmatch⟩
    have hunused : ∀ i k : Nat, origin[i]? = some (some k) → ∃ lcl : Media, lines[k]? = some (lcl, false) := by
      intro i k hk
      obtain ⟨lcl, hlcl⟩ := horigin.unused i k hk
      obtain ⟨lcl', hlcl', _⟩ := hlater k lcl hlcl
      exact ⟨lcl', hlcl'⟩
    rcases hsome : found.answer with _ | answer
    · have hclone := cloneDeactivate_spec offer offer conn
      refine ⟨none :: origin, by rw [List.length_cons, List.length_cons, horigin.length], ?_, ?_, ?_⟩
      · intro i offer' answer' hoffer' hanswer'
        cases i with
        | zero =>
          obtain rfl := Option.some.inj hoffer'
          rw [Option.getD_none] at hanswer'
          obtain rfl := Option.some.inj hanswer'
          exact ⟨hclone.2, fun hport => absurd hclone.1 hport⟩
        | succ i => exact hline i offer' answer' hoffer' hanswer'
      · intro i k hk
        cases i with
        | zero => cases hk
        | succ i => exact hunused i k hk
      · intro i i' k hk hk'
        cases i with
        | zero => cases hk
        | succ i =>
          cases i' with
          | zero => cases hk'
          | succ i' => rw [horigin.once i i' k hk hk']
    · obtain ⟨k0, m, m', hk0, hused, hmedia, hprofile, htaken, hmatch⟩ := hanswer answer hsome
      obtain ⟨hkept, henabled⟩ := matchOffer_answer hkeeps hmatch hmedia
      refine ⟨some k0 :: origin, by rw [List.length_cons, List.length_cons, horigin.length], ?_, ?_, ?_⟩
      · intro i offer' answer' hoffer' hanswer'
        cases i with
        | zero =>
          obtain rfl := Option.some.inj hoffer'
          rw [Option.getD_some] at hanswer'
          obtain rfl := Option.some.inj hanswer'
          refine ⟨hkept, fun hport => ?_⟩
          obtain ⟨hoffered, hlocal, hlines⟩ := henabled hport
          have hcall : (offer, m) ∈ calls := by
            rw [← hcalls, htaken]
            exact List.mem_append_left _ (List.mem_singleton_self _)
          exact ⟨k0, m, m, rfl, hk0, SameLine.refl m, hmedia, hprofile, hcall, ⟨hoffered, hlocal⟩, hlines⟩
        | succ i => exact hline i offer' answer' hoffer' hanswer'
      · intro i k hk
        cases i with
        | zero =>
          obtain rfl := Option.some.inj (Option.some.inj hk)
          exact ⟨m, hk0⟩
        | succ i => exact hunused i k hk
      · -- the local line that is used here is not used again
        have hagain : ∀ i k : Nat, some (some k0) = some (some k) → ¬origin[i]? = some (some k) := by
          intro i k hk hagain
          obtain rfl := Option.some.inj (Option.some.inj hk)
          obtain ⟨lcl, hlcl⟩ := horigin.unused i _ hagain
          exact Bool.false_ne_true (Prod.mk.inj (Option.some.inj (hlcl.symm.trans hused))).2
        intro i i' k hk hk'
        cases i with
        | zero =>
          cases i' with
          | zero => rfl
          | succ i' => exact absurd hk' (hagain i' k hk)
        | succ i =>
          cases i' with
          | zero => exact absurd hk (hagain i k hk')
          | succ i' => rw [horigin.once i i' k hk hk']

/-! Local lines that differ in attributes that are not compared. -/

section Same

variable {lcl m : Media}

theorem SameLine.rtpmap (h : SameLine lcl m) (fmt : Str) : m.rtpmap fmt = lcl.rtpmap fmt := by
  obtain ⟨attrs, rfl, hattrs⟩ := h
  rw [Media.rtpmap, Media.rtpmap, hattrs]

theorem SameLine.fmt (h : SameLine lcl m) : m.fmt = lcl.fmt := by
  obtain ⟨attrs, rfl, _⟩ := h
  rfl

theorem SameLine.formatsMatch (h : SameLine lcl m) {offer : Media} {f g : Str} (hmatch : FormatsMatch offer m f g) :
    FormatsMatch offer lcl f g := by
  unfold FormatsMatch at hmatch ⊢
  rw [h.rtpmap] at hmatch
  exact hmatch

end Same

/-! The answer. -/

/-- The answer has one line for each line of the offer, of the same type. An enabled line answers that line of the offer
from a local line, and no local line is there for two lines of the offer. -/
def Shape (initial offer answer : Session) : Prop :=
  answer.media.length = offer.media.length ∧ ∃ origin : List (Option Nat),
    (∀ (i : Nat) (o a : Media), offer.media[i]? = some o → answer.media[i]? = some a →
      a.media = o.media ∧ (a.port ≠ 0 → ∃ (k : Nat) (l : Media), origin[i]? = some (some k) ∧
        initial.media[k]? = some l ∧ AnswersLine offer o l a)) ∧
    ∀ (i i' k : Nat), origin[i]? = some (some k) → origin[i']? = some (some k) → i = i'

/-- A line with telephone events that has these formats. -/
def eventsMedia (port : Nat) (fmt : List String) : Media :=
  plainMedia "audio" port fmt [("rtpmap", "101 telephone-event/8000")]

def eventsOffer : Session := plainSession 1 [eventsMedia 5000 ["101"]]

def eventsLines : Session := plainSession 1 [eventsMedia 4000 ["0", "101"], plainMedia "audio" 4002 ["0"] []]

end PjProject.SdpNeg
