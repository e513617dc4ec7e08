import PjProject.SessionTimer
import PjProject.SipUri

/-! The headers that `pjsip_timer_update_resp` adds to a response. The `timer` tag of the Require header is looked for with
the comparison the other way: the search ends at the first tag that is not `timer`. -/

namespace PjProject.SessionTimer

open Xml (stricmp)

/-- `PJSIP_GENERIC_ARRAY_MAX_COUNT`, the size of the array of values. -/
def genericArrayMaxCount : Nat := 32

/-- `STR_TIMER`. -/
def strTimer : List UInt8 := [116, 105, 109, 101, 114]

/-- A response with the headers that the function adds or looks for; `require` has the values of the Require header. -/
structure Response where
  code : Nat
  seHdr : Option SessExpiresHdr
  minSeHdr : Option Nat
  require : Option (List (List UInt8))

/-- The search for `timer`: the value of `req_hdr_has_timer`. -/
def reqHdrHasTimer : List (List UInt8) → Bool
  | [] => false
  | value :: more => if stricmp value strTimer ≠ 0 then true else reqHdrHasTimer more

/-- The values of the Require header, which is created if there is none. -/
def requireTimer (reqHdr : Option (List (List UInt8))) : List (List UInt8) :=
  let values := reqHdr.getD []
  if reqHdrHasTimer values then values else values ++ [strTimer]

/-- `pjsip_timer_update_resp`. -/
def updateRespHdrs (supportTimer : Bool) (timer : Option Timer) (resp : Response) : Option Timer × Response :=
  if supportTimer = false then (timer, resp)
  else if resp.code / 100 = 2 then
    match timer with
    | none => (none, resp)
    | some t =>
      if t.active then
        (some (startTimer t),
          { resp with
            seHdr := some t.seHdr
            require := if t.refresher = .uac then some (requireTimer resp.require) else resp.require })
      else (some t, resp)
  else if resp.code = 422 then (timer, { resp with minSeHdr := timer.map Timer.minSe })
  else (timer, resp)

/-- The tag is `timer`, in letters of either case. -/
def IsTimer (value : List UInt8) : Prop := value.map toLower = strTimer

instance (value : List UInt8) : Decidable (IsTimer value) := inferInstanceAs (Decidable (_ = _))

structure TimerRequired (before after : List (List UInt8)) : Prop where
  kept : before <+: after
  once : before.countP IsTimer ≤ 1 → after.countP IsTimer = 1
  fits : after.length ≤ genericArrayMaxCount

/-- `pj_stricmp` finds the tag. -/
theorem stricmp_strTimer (value : List UInt8) : stricmp value strTimer = 0 ↔ IsTimer value := by
  have hlower : strTimer.map toLower = strTimer := by decide
  have hfolded : (strTimer.map toLower).takeWhile (· ≠ 0) = strTimer := by decide
  rw [SipUriCmp.stricmp_eq_zero_iff, SipUriCmp.folded, SipUriCmp.folded, Prod.mk.injEq, hfolded, IsTimer]
  constructor
  · rintro ⟨hlength, htext⟩
    have hmap : (value.map toLower).length = strTimer.length := by rw [List.length_map, hlength]
    have htake := List.takeWhile_prefix (l := value.map toLower) (· ≠ 0)
    rw [htext] at htake
    exact (htake.eq_of_length hmap.symm).symm
  · intro heq
    refine ⟨by rw [← heq, List.length_map], ?_⟩
    rw [heq]
    exact hlower ▸ hfolded

/-- The search is right about the tags only where it says that all of them are `timer`. -/
theorem reqHdrHasTimer_iff (values : List (List UInt8)) :
    reqHdrHasTimer values = true ↔ ∃ value ∈ values, ¬ IsTimer value := by
  induction values with
  | nil => simp [reqHdrHasTimer]
  | cons value more ih =>
    rw [reqHdrHasTimer, List.exists_mem_cons_iff, ← ih]
    by_cases htimer : IsTimer value
    · rw [if_neg (not_not.mpr ((stricmp_strTimer value).mpr htimer)), or_iff_right (not_not.mpr htimer)]
    · rw [if_pos fun hzero => htimer ((stricmp_strTimer value).mp hzero)]
      exact iff_of_true rfl (Or.inl htimer)

/-- There is no tag, or there is `timer` beside another tag, or nothing but `timer`, more than once and with room for one
more. -/
def TagsAllow (values : List (List UInt8)) : Prop :=
  values = [] ∨ (∃ value ∈ values, IsTimer value) ∧
    ((∃ value ∈ values, ¬ IsTimer value) ∨ 2 ≤ values.length ∧ values.length < genericArrayMaxCount)

theorem requireTimer_iff {reqHdr : Option (List (List UInt8))} (hfits : (reqHdr.getD []).length ≤ genericArrayMaxCount) :
    TimerRequired (reqHdr.getD []) (requireTimer reqHdr) ↔ TagsAllow (reqHdr.getD []) := by
  rw [requireTimer]
  generalize reqHdr.getD [] = values at hfits
  by_cases hother : ∃ value ∈ values, ¬ IsTimer value
  · -- the header is left as it is
    have hne : values ≠ [] := by
      rintro rfl
      obtain ⟨value, hmem, -⟩ := hother
      cases hmem
    rw [if_pos ((reqHdrHasTimer_iff values).mpr hother), TagsAllow, or_iff_right hne,
      and_iff_left (Or.inl hother)]
    have hcount : (∃ value ∈ values, IsTimer value) ↔ 0 < values.countP IsTimer := by
      rw [List.countP_pos_iff]
      simp only [decide_eq_true_eq]
    rw [hcount]
    constructor
    · intro h
      have honce := h.once
      omega
    · intro hpos
      exact ⟨List.prefix_refl _, fun hle => by omega, hfits⟩
  · -- every tag is `timer`, and there will be one more
    have hall : ∀ value ∈ values, IsTimer value := fun value hmem => not_not.mp fun hnot => hother ⟨value, hmem, hnot⟩
    have hcount : values.countP IsTimer = values.length :=
      List.countP_eq_length.mpr fun value hmem => decide_eq_true (hall value hmem)
    have hlast : [strTimer].countP IsTimer = 1 := by decide
    rw [if_neg fun h => hother ((reqHdrHasTimer_iff values).mp h), TagsAllow, or_iff_right hother]
    constructor
    · intro h
      have honce := h.once
      have hlength := h.fits
      rw [List.countP_append, hcount, hlast] at honce
      rw [List.length_append, List.length_singleton] at hlength
      cases values with
      | nil => exact Or.inl rfl
      | cons value more =>
        rw [List.length_cons] at honce hlength ⊢
        exact Or.inr ⟨⟨value, List.mem_cons_self, hall value List.mem_cons_self⟩, by omega, by omega⟩
    · intro h
      refine ⟨List.prefix_append _ _, ?_, ?_⟩
      · rw [List.countP_append, hcount, hlast]
        rcases h with rfl | ⟨-, htwo, -⟩
        · exact fun _ => rfl
        · omega
      · rw [List.length_append, List.length_singleton]
        rcases h with rfl | ⟨-, -, hroom⟩
        · decide
        · exact hroom

/-- The Require header of a 2xx response of an active timer whose refresher is the client. -/
theorem updateResp_require_iff {t : Timer} {resp : Response} (hcode : resp.code / 100 = 2) (hactive : t.active = true)
    (hrefresher : t.refresher = .uac) (hfits : (resp.require.getD []).length ≤ genericArrayMaxCount) :
    (∃ after, (updateRespHdrs true (some t) resp).2.require = some after ∧
      TimerRequired (resp.require.getD []) after) ↔ TagsAllow (resp.require.getD []) := by
  have hresp : (updateRespHdrs true (some t) resp).2.require = some (requireTimer resp.require) := by
    rw [updateRespHdrs, if_neg Bool.noConfusion, if_pos hcode, if_pos hactive]
    exact if_pos hrefresher
  rw [hresp, ← requireTimer_iff hfits]
  constructor
  · rintro ⟨after, heq, hrequired⟩
    obtain rfl := Option.some.inj heq
    exact hrequired
  · exact fun hrequired => ⟨_, rfl, hrequired⟩

/-- The timer of the server of an INVITE that has asked its client to refresh the session. -/
def refreshedByClient : Timer :=
  { sessExpires := 1800, minSe := 90, active := true, refresher := .uac, role := .uas, last422Cseq := 0, scheduled := none }

/-- An answer with the tag `100rel`, and with `timer` behind it. -/
def reliableAnswer : Response := ⟨200, none, none, some [[49, 48, 48, 114, 101, 108]]⟩
def timedAnswer : Response := ⟨200, none, none, some [[49, 48, 48, 114, 101, 108], strTimer]⟩

theorem updateResp_require_behind : ∃ after,
    (updateRespHdrs true (some refreshedByClient) timedAnswer).2.require = some after ∧
      TimerRequired [[49, 48, 48, 114, 101, 108], strTimer] after := by
  have hallow : TagsAllow [[49, 48, 48, 114, 101, 108], strTimer] := by
    refine Or.inr ⟨⟨strTimer, ?_, ?_⟩, Or.inl ⟨_, List.mem_cons_self, ?_⟩⟩
    · decide
    · decide
    · decide
  exact (updateResp_require_iff (by decide) rfl rfl (by decide)).mpr hallow

/-- `timer` is not added to `100rel`. -/
theorem updateResp_require_missing : ∃ after,
    (updateRespHdrs true (some refreshedByClient) reliableAnswer).2.require = some after ∧
      ¬ TimerRequired (reliableAnswer.require.getD []) after := by
  refine ⟨[[49, 48, 48, 114, 101, 108]], rfl, fun h => ?_⟩
  exact absurd (h.once (by decide)) (by decide)

end PjProject.SessionTimer
