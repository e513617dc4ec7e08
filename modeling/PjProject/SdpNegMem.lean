import PjProject.SdpNegVersions

/-! The negotiator with its descriptions in memory. `pjmedia_sdp_neg` holds pointers, some of them to one object; the
descriptions that come in are cloned, and an answer that is processed is edited where it lies. The negotiator of values
is what the pointers lead to. -/

namespace PjProject.SdpNeg

open Sdp

/-- What lies at an address, and the first address that is free. -/
structure Memory where
  sdp : Nat → Session
  top : Nat

/-- What a pointer leads to. -/
def Memory.content (mem : Memory) (p : Option Nat) : Option Session := p.map mem.sdp

/-- `pjmedia_sdp_session_clone`: the new object lies at the top. -/
def Memory.clone (mem : Memory) (sdp : Session) : Memory := ⟨Function.update mem.sdp mem.top sdp, mem.top + 1⟩

/-- The object is edited. -/
def Memory.write (mem : Memory) (p : Nat) (sdp : Session) : Memory := { mem with sdp := Function.update mem.sdp p sdp }

/-- `pjmedia_sdp_neg` and the memory it points to. -/
structure NegMem where
  state : NegState
  preferRemoteCodecOrder : Bool
  answerWithMultipleCodecs : Bool
  hasRemoteAnswer : Bool
  answerWasRemote : Bool
  maps : Nat → PtMap
  initialSdp : Option Nat
  initialSdpTmp : Option Nat
  activeLocalSdp : Option Nat
  activeRemoteSdp : Option Nat
  negLocalSdp : Option Nat
  negRemoteSdp : Option Nat
  lastSent : Option Nat
  mem : Memory

def NegMem.value (m : NegMem) : Neg :=
  ⟨m.state, m.preferRemoteCodecOrder, m.answerWithMultipleCodecs, m.hasRemoteAnswer, m.answerWasRemote, m.maps,
    m.mem.content m.initialSdp, m.mem.content m.initialSdpTmp, m.mem.content m.activeLocalSdp,
    m.mem.content m.activeRemoteSdp, m.mem.content m.negLocalSdp, m.mem.content m.negRemoteSdp,
    m.mem.content m.lastSent⟩

namespace NegMem

/-- A negotiator after `PJ_POOL_ZALLOC_T`, in a memory. -/
def init (mem : Memory) : NegMem :=
  ⟨.null, true, false, false, false, fun _ => .empty, none, none, none, none, none, none, none, mem⟩

/-- `pjmedia_sdp_neg_create_w_local_offer`. -/
def createWLocalOffer (mem : Memory) (sdp : Session) : Except Errno NegMem :=
  match validate sdp with
  | some error => .error error
  | none =>
    .ok { init ((mem.clone sdp).clone sdp) with
      state := .localOffer, initialSdp := some mem.top, negLocalSdp := some (mem.top + 1), lastSent := some mem.top }

/-- `pjmedia_sdp_neg_create_w_remote_offer`. -/
def createWRemoteOffer (mem : Memory) (initial : Option Session) (remote : Session) : Except Errno NegMem :=
  match validate2 false remote with
  | some error => .error error
  | none =>
    match initial with
    | none => .ok { init (mem.clone remote) with state := .remoteOffer, negRemoteSdp := some mem.top }
    | some sdp =>
      match validate sdp with
      | some error => .error error
      | none =>
        .ok { init (((mem.clone remote).clone sdp).clone sdp) with
          state := .waitNego, negRemoteSdp := some mem.top, initialSdp := some (mem.top + 1)
          negLocalSdp := some (mem.top + 2) }

theorem eq_of_createWLocalOffer {mem : Memory} {sdp : Session} {m : NegMem} (h : createWLocalOffer mem sdp = .ok m) :
    m = { init ((mem.clone sdp).clone sdp) with
      state := .localOffer, initialSdp := some mem.top, negLocalSdp := some (mem.top + 1), lastSent := some mem.top } := by
  unfold createWLocalOffer at h
  cases hvalid : validate sdp with
  | some error =>
    rw [hvalid] at h
    cases h
  | none =>
    rw [hvalid] at h
    exact (Except.ok.inj h).symm

theorem cases_of_createWRemoteOffer {mem : Memory} {initial : Option Session} {remote : Session} {m : NegMem}
    (h : createWRemoteOffer mem initial remote = .ok m) :
    m = { init (mem.clone remote) with state := .remoteOffer, negRemoteSdp := some mem.top } ∨
      ∃ sdp, m = { init (((mem.clone remote).clone sdp).clone sdp) with
        state := .waitNego, negRemoteSdp := some mem.top, initialSdp := some (mem.top + 1)
        negLocalSdp := some (mem.top + 2) } := by
  unfold createWRemoteOffer at h
  cases hvalid : validate2 false remote with
  | some error =>
    rw [hvalid] at h
    cases h
  | none =>
    rw [hvalid] at h
    cases initial with
    | none => exact .inl (Except.ok.inj h).symm
    | some sdp =>
      dsimp only at h
      cases hinitial : validate sdp with
      | some error =>
        rw [hinitial] at h
        cases h
      | none =>
        rw [hinitial] at h
        exact .inr ⟨sdp, (Except.ok.inj h).symm⟩

/-- `pjmedia_sdp_neg_modify_local_offer2`. -/
def modifyLocalOffer2 (cfg : Config) (allowMediaChange : Bool) (m : NegMem) (sdp : Session) :
    Option (Option Errno × NegMem) :=
  if m.state ≠ .done then some (some .einstate, m)
  else
    match validate sdp with
    | some error => some (some error, m)
    | none =>
      match m.mem.content m.activeLocalSdp with
      | none =>
        (assignSession cfg true m.maps sdp).map fun (maps, sdp) =>
          (none, { m with
            state := .localOffer, maps := maps, initialSdpTmp := none, initialSdp := some m.mem.top
            negLocalSdp := some (m.mem.top + 1), lastSent := some (m.mem.top + 1)
            mem := (m.mem.clone sdp).clone (versioned (m.mem.content m.lastSent) sdp) })
      | some old =>
        match modifiedMedia allowMediaChange old.media sdp with
        | none => some (some .etoomany, m)
        | some media =>
          (assignSession cfg true m.maps { sdp with origin := old.origin, media := media }).map fun (maps, sdp) =>
            let newOffer := versioned (m.mem.content m.lastSent) sdp
            (none, { m with
              state := .localOffer, maps := maps, initialSdpTmp := m.initialSdp, initialSdp := some m.mem.top
              negLocalSdp := some (m.mem.top + 1), lastSent := some (m.mem.top + 1)
              mem := (m.mem.clone newOffer).clone newOffer })

/-- The initial description is retained: its place is taken by a clone. -/
def retain (m : NegMem) : NegMem :=
  match m.mem.content m.initialSdp with
  | some initial =>
    { m with initialSdpTmp := m.initialSdp, initialSdp := some m.mem.top, mem := m.mem.clone initial }
  | none => m

/-- `pjmedia_sdp_neg_send_local_offer`. -/
def sendLocalOffer (m : NegMem) : Except Errno (Session × NegMem) :=
  if m.state = .done then
    match m.mem.content m.activeLocalSdp, m.mem.content m.lastSent with
    | some active, some last =>
      let m := m.retain
      let newOffer := versioned (some last) active
      .ok (newOffer, { m with
        state := .localOffer, negLocalSdp := some m.mem.top, lastSent := some m.mem.top, mem := m.mem.clone newOffer })
    | _, _ => .error .enoactive
  else if m.state = .localOffer then
    match m.mem.content m.negLocalSdp with
    | some sdp => .ok (sdp, m)
    | none => .error .ebug
  else .error .einstate

/-- `pjmedia_sdp_neg_set_remote_answer`. -/
def setRemoteAnswer (m : NegMem) (remote : Session) : Except Errno NegMem :=
  if m.state = .localOffer then
    .ok { m with
      state := .waitNego, hasRemoteAnswer := true, negRemoteSdp := some m.mem.top, mem := m.mem.clone remote }
  else .error .einstate

/-- `pjmedia_sdp_neg_set_remote_offer`. -/
def setRemoteOffer (m : NegMem) (remote : Session) : Except Errno NegMem :=
  if m.state = .done then
    .ok { m with state := .remoteOffer, negRemoteSdp := some m.mem.top, mem := m.mem.clone remote }
  else .error .einstate

/-- `pjmedia_sdp_neg_set_local_answer`. -/
def setLocalAnswer (m : NegMem) (sdp : Session) : Except Errno NegMem :=
  if m.state = .remoteOffer ∨ m.state = .waitNego then
    match m.mem.content m.initialSdp with
    | some initial =>
      let m := m.retain
      .ok { m with
        state := .waitNego, negLocalSdp := some m.mem.top
        mem := m.mem.clone { sdp with origin := { sdp.origin with id := initial.origin.id } } }
    | none =>
      .ok { m with
        state := .waitNego, negLocalSdp := some m.mem.top, initialSdp := some (m.mem.top + 1)
        mem := (m.mem.clone sdp).clone sdp }
  else .error .einstate

/-- `pjmedia_sdp_neg_cancel_offer`. -/
def cancelOffer (m : NegMem) : Except Errno NegMem :=
  if m.state = .localOffer then
    .ok { m with
      state := .done, lastSent := m.activeLocalSdp.or m.lastSent, initialSdp := m.initialSdpTmp
      initialSdpTmp := none, negLocalSdp := none, negRemoteSdp := none, hasRemoteAnswer := false }
  else if m.state = .remoteOffer then
    .ok { m with
      state := .done, initialSdpTmp := none, negLocalSdp := none, negRemoteSdp := none, hasRemoteAnswer := false }
  else .error .einstate

/-- The end of `pjmedia_sdp_neg_negotiate`. -/
def finish (m : NegMem) (status : Option Errno) : Option Errno × NegMem :=
  (status, { m with
    state := .done, answerWasRemote := m.hasRemoteAnswer
    initialSdp := if status = none then m.initialSdp else m.initialSdpTmp
    initialSdpTmp := none, negLocalSdp := none, negRemoteSdp := none, hasRemoteAnswer := false })

/-- What is left of an answer that is refused while it is processed, given the offer and the answer. -/
abbrev Spoil := Bool → Session → Session → Session

/-- The answer at `remote` is processed, and edited where it lies. -/
def negotiateAnswer (cfg : Config) (spoil : Spoil) (allowAsym : Bool) (m : NegMem) (offer answer : Session)
    (remote : Nat) : Option Errno × NegMem :=
  match processAnswer cfg.fmtMatch allowAsym offer answer with
  | .ok (active, answer) =>
    { m with
      activeLocalSdp := some m.mem.top, activeRemoteSdp := some remote
      mem := (m.mem.clone active).write remote answer }.finish none
  | .error error =>
    let mem := m.mem.write remote (spoil allowAsym offer answer)
    match mem.content m.lastSent with
    | some last => { m with lastSent := some mem.top, mem := mem.clone last }.finish (some error)
    | none => { m with mem := mem }.finish (some error)

/-- An answer to the offer at `remote` is created. -/
def negotiateOffer (cfg : Config) (m : NegMem) (initial offer : Session) (remote : Nat) :
    Option (Option Errno × NegMem) :=
  match createAnswer cfg.fmtMatch m.preferRemoteCodecOrder m.answerWithMultipleCodecs initial offer with
  | .assertion => none
  | .failed status => some (m.finish status)
  | .ok answer =>
    (answerToSend cfg m.value answer).map fun (maps, answer) =>
      { m with
        maps := maps, activeLocalSdp := some m.mem.top, activeRemoteSdp := some remote, lastSent := some m.mem.top
        mem := m.mem.clone answer }.finish none

/-- `pjmedia_sdp_neg_negotiate`. -/
def negotiate (cfg : Config) (spoil : Spoil) (allowAsym : Bool) (m : NegMem) : Option (Option Errno × NegMem) :=
  if m.state ≠ .waitNego then some (some .einstate, m)
  else
    match m.negRemoteSdp with
    | none => some (some .ebug, m)
    | some remote =>
      let offer := m.mem.sdp remote
      let m := { m with maps := if cfg.maintainRemotePtMap then noteSession cfg.codecs 0 m.maps offer.media else m.maps }
      match m.mem.content m.negLocalSdp with
      | none => some (m.finish (some .einval))
      | some sdp =>
        if m.hasRemoteAnswer then some (negotiateAnswer cfg spoil allowAsym m sdp offer remote)
        else negotiateOffer cfg m sdp offer remote

/-! Every pointer leads to an object, and nothing else points to the description from the remote side that is negotiated. -/

/-- The pointer is null or leads below the top. -/
def Has (mem : Memory) (p : Option Nat) : Prop := ∀ q ∈ p, q < mem.top

/-- The pointer leads below the top and not to the description at `remote`. -/
def Apart (mem : Memory) (remote p : Option Nat) : Prop := Has mem p ∧ ∀ q ∈ p, some q ≠ remote

structure Sound (m : NegMem) : Prop where
  initialSdp : Apart m.mem m.negRemoteSdp m.initialSdp
  initialSdpTmp : Apart m.mem m.negRemoteSdp m.initialSdpTmp
  activeLocalSdp : Apart m.mem m.negRemoteSdp m.activeLocalSdp
  activeRemoteSdp : Apart m.mem m.negRemoteSdp m.activeRemoteSdp
  negLocalSdp : Apart m.mem m.negRemoteSdp m.negLocalSdp
  negRemoteSdp : Has m.mem m.negRemoteSdp
  lastSent : Apart m.mem m.negRemoteSdp m.lastSent

section

variable {mem : Memory} {p remote : Option Nat} (sdp : Session)

theorem content_clone (h : Has mem p) : (mem.clone sdp).content p = mem.content p := by
  cases p with
  | none => rfl
  | some q => exact congrArg some (Function.update_of_ne (h q rfl).ne _ _)

theorem content_clone_top : (mem.clone sdp).content (some mem.top) = some sdp :=
  congrArg some (Function.update_self _ _ _)

theorem has_clone (h : Has mem p) : Has (mem.clone sdp) p := fun q hq => (h q hq).trans (Nat.lt_succ_self _)

theorem has_clone_top : Has (mem.clone sdp) (some mem.top) := by
  rintro q ⟨⟩
  exact Nat.lt_succ_self _

theorem apart_clone (h : Apart mem remote p) : Apart (mem.clone sdp) remote p := ⟨has_clone sdp h.1, h.2⟩

/-- A new object is not one that was there. -/
theorem apart_clone_top (h : Has mem remote) : Apart (mem.clone sdp) remote (some mem.top) := by
  refine ⟨has_clone_top sdp, ?_⟩
  rintro q ⟨⟩ hremote
  exact absurd (h mem.top hremote.symm) (Nat.lt_irrefl _)

/-- Nothing that was there points to a new object. -/
theorem apart_top (h : Has mem p) : Apart (mem.clone sdp) (some mem.top) p := by
  refine ⟨has_clone sdp h, fun q hq htop => ?_⟩
  rw [Option.some.inj htop] at hq
  exact absurd (h mem.top hq) (Nat.lt_irrefl _)

theorem content_write {r : Nat} (h : Apart mem (some r) p) : (mem.write r sdp).content p = mem.content p := by
  cases p with
  | none => rfl
  | some q => exact congrArg some (Function.update_of_ne (fun heq => h.2 q rfl (congrArg some heq)) _ _)

theorem apart_none_remote (h : Has mem p) : Apart mem none p := ⟨h, fun _ _ => Option.some_ne_none _⟩

theorem has_none : Has mem none := nofun

theorem apart_none : Apart mem remote none := ⟨nofun, nofun⟩

end

/-! Every function does with the values what the function of the negotiator of values does. -/

/-- The results agree, and the pointers are as they must be. -/
inductive Simulates : Option (Option Errno × NegMem) → Option (Option Errno × Neg) → Prop
  | none : Simulates none none
  | some {status : Option Errno} {m : NegMem} {neg : Neg} (hsound : Sound m) (hvalue : m.value = neg) :
    Simulates (some (status, m)) (some (status, neg))

/-- The same for the functions that change nothing when they fail. -/
inductive SimulatesOk : Except Errno NegMem → Except Errno Neg → Prop
  | error {error : Errno} : SimulatesOk (.error error) (.error error)
  | ok {m : NegMem} {neg : Neg} (hsound : Sound m) (hvalue : m.value = neg) : SimulatesOk (.ok m) (.ok neg)

section

variable {m : NegMem} (h : Sound m)
include h

theorem simulates_modifyLocalOffer2 (cfg : Config) (allowMediaChange : Bool) (sdp : Session) :
    Simulates (modifyLocalOffer2 cfg allowMediaChange m sdp)
      (SdpNeg.modifyLocalOffer2 cfg allowMediaChange m.value sdp) := by
  have hnew : ∀ (maps : Nat → PtMap) (tmp : Option Nat) (a b : Session), Apart m.mem m.negRemoteSdp tmp →
      Sound { m with
        state := .localOffer, maps := maps, initialSdpTmp := tmp, initialSdp := some m.mem.top
        negLocalSdp := some (m.mem.top + 1), lastSent := some (m.mem.top + 1), mem := (m.mem.clone a).clone b } := by
    intro maps tmp a b htmp
    have htop := apart_clone_top b (has_clone a h.negRemoteSdp)
    exact ⟨apart_clone b (apart_clone_top a h.negRemoteSdp), apart_clone b (apart_clone a htmp),
      apart_clone b (apart_clone a h.activeLocalSdp), apart_clone b (apart_clone a h.activeRemoteSdp), htop,
      has_clone b (has_clone a h.negRemoteSdp), htop⟩
  have hold : ∀ (a b : Session) {p : Option Nat}, Has m.mem p →
      ((m.mem.clone a).clone b).content p = m.mem.content p := fun a b p hp =>
    (content_clone b (has_clone a hp)).trans (content_clone a hp)
  have htop : ∀ a b : Session, ((m.mem.clone a).clone b).content (some m.mem.top) = some a := fun a b =>
    (content_clone b (has_clone_top a)).trans (content_clone_top a)
  have htop' : ∀ a b : Session, ((m.mem.clone a).clone b).content (some (m.mem.top + 1)) = some b := fun a b =>
    content_clone_top b
  have hvalue : ∀ (maps : Nat → PtMap) (tmp : Option Nat) (a b : Session) (active : Option Session), Has m.mem tmp →
      m.mem.content m.activeLocalSdp = active → NegMem.value { m with
        state := .localOffer, maps := maps, initialSdpTmp := tmp, initialSdp := some m.mem.top
        negLocalSdp := some (m.mem.top + 1), lastSent := some (m.mem.top + 1), mem := (m.mem.clone a).clone b } =
      { m.value with
        state := .localOffer, maps := maps, initialSdpTmp := m.mem.content tmp, initialSdp := some a
        negLocalSdp := some b, lastSent := some b, activeLocalSdp := active } := by
    intro maps tmp a b active htmp hactive
    simp only [NegMem.value, htop, htop', hold a b htmp, hold a b h.activeLocalSdp.1, hold a b h.activeRemoteSdp.1,
      hold a b h.negRemoteSdp, hactive]
  unfold modifyLocalOffer2 SdpNeg.modifyLocalOffer2
  by_cases hstate : m.state ≠ .done
  · rw [if_pos hstate, if_pos (by exact hstate)]
    exact .some h rfl
  rw [if_neg hstate, if_neg (by exact hstate)]
  cases hvalid : validate sdp with
  | some error => exact .some h rfl
  | none =>
    have hactive : m.value.activeLocalSdp = m.mem.content m.activeLocalSdp := rfl
    rw [hactive]
    cases hcontent : m.mem.content m.activeLocalSdp with
    | none =>
      have hmaps : m.value.maps = m.maps := rfl
      dsimp only
      rw [hmaps]
      cases assignSession cfg true m.maps sdp with
      | none => exact .none
      | some result => exact .some (hnew _ none _ _ apart_none) (hvalue _ none _ _ _ has_none hcontent)
    | some old =>
      dsimp only
      cases modifiedMedia allowMediaChange old.media sdp with
      | none => exact .some h rfl
      | some media =>
        have hmaps : m.value.maps = m.maps := rfl
        dsimp only
        rw [hmaps]
        cases assignSession cfg true m.maps { sdp with origin := old.origin, media := media } with
        | none => exact .none
        | some result =>
          exact .some (hnew _ m.initialSdp _ _ h.initialSdp) (hvalue _ m.initialSdp _ _ _ h.initialSdp.1 hcontent)

/-- The initial description is retained: the temporary one is what it was, and it is unchanged in content. -/
theorem retain_spec : Sound m.retain ∧ m.retain.state = m.state ∧
    m.retain.value = { m.value with initialSdpTmp := m.value.initialSdp.or m.value.initialSdpTmp } := by
  unfold retain
  cases hinitial : m.mem.content m.initialSdp with
  | none =>
    refine ⟨h, rfl, ?_⟩
    have hvalue : m.value.initialSdp = none := hinitial
    rw [hvalue]
    rfl
  | some initial =>
    refine ⟨⟨apart_clone_top _ h.negRemoteSdp, apart_clone _ h.initialSdp, apart_clone _ h.activeLocalSdp,
      apart_clone _ h.activeRemoteSdp, apart_clone _ h.negLocalSdp, has_clone _ h.negRemoteSdp,
      apart_clone _ h.lastSent⟩, rfl, ?_⟩
    have hor : m.value.initialSdp.or m.value.initialSdpTmp = some initial := by
      rw [show m.value.initialSdp = some initial from hinitial]
      rfl
    rw [hor]
    simp only [NegMem.value, content_clone_top, content_clone _ h.initialSdp.1, content_clone _ h.activeLocalSdp.1,
      content_clone _ h.activeRemoteSdp.1, content_clone _ h.negLocalSdp.1, content_clone _ h.negRemoteSdp,
      content_clone _ h.lastSent.1, hinitial]

/-- The local description of the exchange is a new object. -/
theorem clone_negLocal (state : NegState) (sdp : Session) :
    Sound { m with state := state, negLocalSdp := some m.mem.top, mem := m.mem.clone sdp } ∧
      NegMem.value { m with state := state, negLocalSdp := some m.mem.top, mem := m.mem.clone sdp } =
        { m.value with state := state, negLocalSdp := some sdp } := by
  refine ⟨⟨apart_clone _ h.initialSdp, apart_clone _ h.initialSdpTmp, apart_clone _ h.activeLocalSdp,
    apart_clone _ h.activeRemoteSdp, apart_clone_top _ h.negRemoteSdp, has_clone _ h.negRemoteSdp,
    apart_clone _ h.lastSent⟩, ?_⟩
  simp only [NegMem.value, content_clone_top, content_clone _ h.initialSdp.1, content_clone _ h.initialSdpTmp.1,
    content_clone _ h.activeLocalSdp.1, content_clone _ h.activeRemoteSdp.1, content_clone _ h.negRemoteSdp,
    content_clone _ h.lastSent.1]

/-- The description from the remote side is a new object. -/
theorem clone_negRemote (state : NegState) (hasRemoteAnswer : Bool) (sdp : Session) :
    Sound { m with
      state := state, hasRemoteAnswer := hasRemoteAnswer, negRemoteSdp := some m.mem.top, mem := m.mem.clone sdp } ∧
      NegMem.value { m with
        state := state, hasRemoteAnswer := hasRemoteAnswer, negRemoteSdp := some m.mem.top, mem := m.mem.clone sdp } =
        { m.value with state := state, hasRemoteAnswer := hasRemoteAnswer, negRemoteSdp := some sdp } := by
  refine ⟨⟨apart_top _ h.initialSdp.1, apart_top _ h.initialSdpTmp.1, apart_top _ h.activeLocalSdp.1,
    apart_top _ h.activeRemoteSdp.1, apart_top _ h.negLocalSdp.1, has_clone_top _, apart_top _ h.lastSent.1⟩, ?_⟩
  simp only [NegMem.value, content_clone_top, content_clone _ h.initialSdp.1, content_clone _ h.initialSdpTmp.1,
    content_clone _ h.activeLocalSdp.1, content_clone _ h.activeRemoteSdp.1, content_clone _ h.negLocalSdp.1,
    content_clone _ h.lastSent.1]

theorem simulates_setRemoteAnswer (remote : Session) :
    SimulatesOk (setRemoteAnswer m remote) (SdpNeg.setRemoteAnswer m.value remote) := by
  unfold setRemoteAnswer SdpNeg.setRemoteAnswer
  by_cases hstate : m.state = .localOffer
  · rw [if_pos hstate, if_pos (by exact hstate)]
    obtain ⟨hsound, hvalue⟩ := clone_negRemote h .waitNego true remote
    exact .ok hsound hvalue
  · rw [if_neg hstate, if_neg (by exact hstate)]
    exact .error

theorem simulates_setRemoteOffer (remote : Session) :
    SimulatesOk (setRemoteOffer m remote) (SdpNeg.setRemoteOffer m.value remote) := by
  unfold setRemoteOffer SdpNeg.setRemoteOffer
  by_cases hstate : m.state = .done
  · rw [if_pos hstate, if_pos (by exact hstate)]
    obtain ⟨hsound, hvalue⟩ := clone_negRemote h .remoteOffer m.hasRemoteAnswer remote
    exact .ok hsound hvalue
  · rw [if_neg hstate, if_neg (by exact hstate)]
    exact .error

theorem simulates_setLocalAnswer (sdp : Session) :
    SimulatesOk (setLocalAnswer m sdp) (SdpNeg.setLocalAnswer m.value sdp) := by
  unfold setLocalAnswer SdpNeg.setLocalAnswer
  by_cases hstate : m.state = .remoteOffer ∨ m.state = .waitNego
  · rw [if_pos hstate, if_pos (by exact hstate)]
    cases hinitial : m.mem.content m.initialSdp with
    | some initial =>
      have hvalueInitial : m.value.initialSdp = some initial := hinitial
      obtain ⟨hretain, -, hvalue⟩ := retain_spec h
      obtain ⟨hsound, hclone⟩ := clone_negLocal hretain .waitNego
        { sdp with origin := { sdp.origin with id := initial.origin.id } }
      rw [hvalueInitial]
      refine .ok hsound (hclone.trans ?_)
      rw [hvalue]
      simp only [hvalueInitial]
      rfl
    | none =>
      have hvalueInitial : m.value.initialSdp = none := hinitial
      rw [hvalueInitial]
      have hneg : Has (m.mem.clone sdp) m.negRemoteSdp := has_clone sdp h.negRemoteSdp
      refine .ok ⟨apart_clone_top _ hneg, apart_clone _ (apart_clone _ h.initialSdpTmp),
        apart_clone _ (apart_clone _ h.activeLocalSdp), apart_clone _ (apart_clone _ h.activeRemoteSdp),
        apart_clone _ (apart_clone_top _ h.negRemoteSdp), has_clone _ hneg, apart_clone _ (apart_clone _ h.lastSent)⟩ ?_
      have htop : ((m.mem.clone sdp).clone sdp).content (some (m.mem.top + 1)) = some sdp := content_clone_top sdp
      have hold : ∀ {p : Option Nat}, Has m.mem p → ((m.mem.clone sdp).clone sdp).content p = m.mem.content p :=
        fun hp => (content_clone sdp (has_clone sdp hp)).trans (content_clone sdp hp)
      simp only [NegMem.value, htop, hold h.initialSdpTmp.1, hold h.activeLocalSdp.1, hold h.activeRemoteSdp.1,
        hold h.negRemoteSdp, hold h.lastSent.1, content_clone sdp (has_clone_top sdp), content_clone_top]
  · rw [if_neg hstate, if_neg (by exact hstate)]
    exact .error

theorem simulates_cancelOffer : SimulatesOk (cancelOffer m) (SdpNeg.cancelOffer m.value) := by
  unfold cancelOffer SdpNeg.cancelOffer
  have hstate : m.value.state = m.state := rfl
  rw [hstate]
  have hnone : ∀ {p : Option Nat}, Apart m.mem m.negRemoteSdp p → Apart m.mem none p := fun hp => apart_none_remote hp.1
  have hor : Apart m.mem none (m.activeLocalSdp.or m.lastSent) ∧
      m.mem.content (m.activeLocalSdp.or m.lastSent) = (m.mem.content m.activeLocalSdp).or (m.mem.content m.lastSent) := by
    cases hactive : m.activeLocalSdp with
    | none => exact ⟨hnone h.lastSent, rfl⟩
    | some p =>
      have hp := hnone h.activeLocalSdp
      rw [hactive] at hp
      exact ⟨hp, rfl⟩
  by_cases hlocal : m.state = .localOffer
  · simp only [if_pos hlocal]
    refine .ok ⟨hnone h.initialSdpTmp, apart_none, hnone h.activeLocalSdp, hnone h.activeRemoteSdp, apart_none,
      has_none, hor.1⟩ ?_
    simp only [NegMem.value, hor.2]
    rfl
  simp only [if_neg hlocal]
  by_cases hremote : m.state = .remoteOffer
  · simp only [if_pos hremote]
    exact .ok ⟨hnone h.initialSdp, apart_none, hnone h.activeLocalSdp, hnone h.activeRemoteSdp, apart_none,
      has_none, hnone h.lastSent⟩ rfl
  · simp only [if_neg hremote]
    exact .error

theorem simulates_sendLocalOffer :
    (∃ error, sendLocalOffer m = .error error ∧ SdpNeg.sendLocalOffer m.value = .error error) ∨
      ∃ sdp m' neg, sendLocalOffer m = .ok (sdp, m') ∧ SdpNeg.sendLocalOffer m.value = .ok (sdp, neg) ∧ Sound m' ∧
        m'.value = neg := by
  unfold sendLocalOffer SdpNeg.sendLocalOffer
  have hstate : m.value.state = m.state := rfl
  rw [hstate]
  by_cases hdone : m.state = .done
  · simp only [if_pos hdone]
    cases hactive : m.mem.content m.activeLocalSdp with
    | none =>
      have hvalue : m.value.activeLocalSdp = none := hactive
      exact .inl ⟨.enoactive, rfl, by rw [hvalue]⟩
    | some active =>
      have hvalue : m.value.activeLocalSdp = some active := hactive
      cases hlast : m.mem.content m.lastSent with
      | none =>
        have hvalueLast : m.value.lastSent = none := hlast
        exact .inl ⟨.enoactive, rfl, by rw [hvalue, hvalueLast]⟩
      | some last =>
        have hvalueLast : m.value.lastSent = some last := hlast
        obtain ⟨hretain, -, hretainValue⟩ := retain_spec h
        rw [hvalue, hvalueLast]
        refine .inr ⟨_, _, _, rfl, rfl, ⟨apart_clone _ hretain.initialSdp, apart_clone _ hretain.initialSdpTmp,
          apart_clone _ hretain.activeLocalSdp, apart_clone _ hretain.activeRemoteSdp,
          apart_clone_top _ hretain.negRemoteSdp, has_clone _ hretain.negRemoteSdp,
          apart_clone_top _ hretain.negRemoteSdp⟩, ?_⟩
        have hparts := hretainValue
        simp only [NegMem.value, Neg.mk.injEq] at hparts
        simp only [NegMem.value, content_clone_top, content_clone _ hretain.initialSdp.1,
          content_clone _ hretain.initialSdpTmp.1, content_clone _ hretain.activeLocalSdp.1,
          content_clone _ hretain.activeRemoteSdp.1, content_clone _ hretain.negRemoteSdp, hparts, hactive]
  simp only [if_neg hdone]
  by_cases hlocal : m.state = .localOffer
  · simp only [if_pos hlocal]
    cases hneg : m.mem.content m.negLocalSdp with
    | none =>
      have hvalue : m.value.negLocalSdp = none := hneg
      exact .inl ⟨.ebug, rfl, by rw [hvalue]⟩
    | some sdp =>
      have hvalue : m.value.negLocalSdp = some sdp := hneg
      exact .inr ⟨sdp, m, m.value, rfl, by rw [hvalue], h, rfl⟩
  · simp only [if_neg hlocal]
    exact .inl ⟨.einstate, rfl, rfl⟩

end

/-- The end of a negotiation: nothing is negotiated any more. -/
theorem simulates_finish {m : NegMem} {neg : Neg} (status : Option Errno) (hinitial : Has m.mem m.initialSdp)
    (htmp : Has m.mem m.initialSdpTmp) (hlocal : Has m.mem m.activeLocalSdp) (hremote : Has m.mem m.activeRemoteSdp)
    (hlast : Has m.mem m.lastSent) (hvalue : m.value = neg) :
    Simulates (some (m.finish status)) (some (neg.finish status)) := by
  refine .some ⟨?_, apart_none, apart_none_remote hlocal, apart_none_remote hremote, apart_none, has_none,
    apart_none_remote hlast⟩ ?_
  · refine apart_none_remote ?_
    change Has m.mem (if status = none then m.initialSdp else m.initialSdpTmp)
    split
    · exact hinitial
    · exact htmp
  · rw [← hvalue]
    by_cases hstatus : status = none
    · simp only [if_pos hstatus]
      rfl
    · simp only [if_neg hstatus]
      rfl

section

variable {m : NegMem} (h : Sound m)
include h

theorem Sound.finish (status : Option Errno) {neg : Neg} (hvalue : m.value = neg) :
    Simulates (some (m.finish status)) (some (neg.finish status)) :=
  simulates_finish status h.initialSdp.1 h.initialSdpTmp.1 h.activeLocalSdp.1 h.activeRemoteSdp.1 h.lastSent.1 hvalue

/-- An answer is edited where it lies, and nothing else points to it. -/
theorem simulates_negotiateAnswer (cfg : Config) (spoil : Spoil) (allowAsym : Bool) {remote : Nat}
    (hremote : m.negRemoteSdp = some remote) (offer : Session) :
    Simulates (some (negotiateAnswer cfg spoil allowAsym m offer (m.mem.sdp remote) remote))
      (some (SdpNeg.negotiateAnswer cfg allowAsym m.value offer (m.mem.sdp remote))) := by
  have hhas : Has m.mem (some remote) := hremote ▸ h.negRemoteSdp
  have happart : ∀ {p : Option Nat}, Apart m.mem m.negRemoteSdp p → Apart m.mem (some remote) p := fun hp => hremote ▸ hp
  unfold negotiateAnswer SdpNeg.negotiateAnswer
  cases hprocess : processAnswer cfg.fmtMatch allowAsym offer (m.mem.sdp remote) with
  | ok result =>
    obtain ⟨active, answer⟩ := result
    have hwrite : ∀ {p : Option Nat}, Apart m.mem m.negRemoteSdp p →
        ((m.mem.clone active).write remote answer).content p = m.mem.content p := fun hp =>
      (content_write answer (apart_clone active (happart hp))).trans (content_clone active hp.1)
    have htop : ((m.mem.clone active).write remote answer).content (some m.mem.top) = some active :=
      (content_write answer (apart_clone_top active hhas)).trans (content_clone_top active)
    have hself : ((m.mem.clone active).write remote answer).content (some remote) = some answer :=
      congrArg some (Function.update_self _ _ _)
    -- the description from the remote side becomes the active one
    have hsame : ({ m.value with activeLocalSdp := some active, activeRemoteSdp := some answer } : Neg).finish none =
        ({ m.value with
          activeLocalSdp := some active, activeRemoteSdp := some answer, negRemoteSdp := some answer } : Neg).finish
            none := rfl
    dsimp only
    rw [hsame]
    refine simulates_finish none (has_clone active h.initialSdp.1) (has_clone active h.initialSdpTmp.1)
      (has_clone_top active) (has_clone active hhas) (has_clone active h.lastSent.1) ?_
    simp only [NegMem.value, htop, hself, hremote, hwrite h.initialSdp, hwrite h.initialSdpTmp, hwrite h.negLocalSdp,
      hwrite h.lastSent]
  | error error =>
    obtain ⟨left, hleft⟩ : ∃ left, left = spoil allowAsym offer (m.mem.sdp remote) := ⟨_, rfl⟩
    have hwrite : ∀ {p : Option Nat}, Apart m.mem m.negRemoteSdp p → (m.mem.write remote left).content p =
        m.mem.content p := fun hp => content_write left (happart hp)
    have hself : (m.mem.write remote left).content (some remote) = some left :=
      congrArg some (Function.update_self _ _ _)
    have hsame : m.value.finish (some error) =
        ({ m.value with negRemoteSdp := some left } : Neg).finish (some error) := rfl
    have hspoilt : Sound { m with mem := m.mem.write remote left } :=
      ⟨h.initialSdp, h.initialSdpTmp, h.activeLocalSdp, h.activeRemoteSdp, h.negLocalSdp, h.negRemoteSdp, h.lastSent⟩
    have hvalue : NegMem.value { m with mem := m.mem.write remote left } =
        { m.value with negRemoteSdp := some left } := by
      simp only [NegMem.value, hself, hremote, hwrite h.initialSdp, hwrite h.initialSdpTmp, hwrite h.activeLocalSdp,
        hwrite h.activeRemoteSdp, hwrite h.negLocalSdp, hwrite h.lastSent]
    dsimp only
    rw [← hleft, hsame]
    cases hlast : (m.mem.write remote left).content m.lastSent with
    | none => exact hspoilt.finish (some error) hvalue
    | some last =>
      refine simulates_finish (some error) (has_clone last h.initialSdp.1) (has_clone last h.initialSdpTmp.1)
        (has_clone last h.activeLocalSdp.1) (has_clone last h.activeRemoteSdp.1) (has_clone_top last) ?_
      rw [← hvalue]
      have htop : ((m.mem.write remote left).clone last).content (some (m.mem.write remote left).top) = some last :=
        content_clone_top last
      simp only [NegMem.value, htop, hlast, content_clone last hspoilt.initialSdp.1,
        content_clone last hspoilt.initialSdpTmp.1, content_clone last hspoilt.activeLocalSdp.1,
        content_clone last hspoilt.activeRemoteSdp.1, content_clone last hspoilt.negLocalSdp.1,
        content_clone last hspoilt.negRemoteSdp]

theorem simulates_negotiateOffer (cfg : Config) {remote : Nat} (hremote : m.negRemoteSdp = some remote)
    (initial : Session) :
    Simulates (negotiateOffer cfg m initial (m.mem.sdp remote) remote)
      (SdpNeg.negotiateOffer cfg m.value initial (m.mem.sdp remote)) := by
  have hhas : Has m.mem (some remote) := hremote ▸ h.negRemoteSdp
  have hcontent : m.mem.content m.negRemoteSdp = some (m.mem.sdp remote) := by
    rw [hremote]
    rfl
  have hflags : m.value.preferRemoteCodecOrder = m.preferRemoteCodecOrder ∧
      m.value.answerWithMultipleCodecs = m.answerWithMultipleCodecs := ⟨rfl, rfl⟩
  unfold negotiateOffer SdpNeg.negotiateOffer
  rw [hflags.1, hflags.2]
  cases hcreate : createAnswer cfg.fmtMatch m.preferRemoteCodecOrder m.answerWithMultipleCodecs initial
      (m.mem.sdp remote) with
  | assertion => exact .none
  | failed status => exact h.finish status rfl
  | ok answer =>
    dsimp only
    cases hsend : answerToSend cfg m.value answer with
    | none => exact .none
    | some result =>
      obtain ⟨maps, answer⟩ := result
      refine simulates_finish none (has_clone answer h.initialSdp.1) (has_clone answer h.initialSdpTmp.1)
        (has_clone_top answer) (has_clone answer hhas) (has_clone_top answer) ?_
      have hactive : (m.mem.clone answer).content (some remote) = some (m.mem.sdp remote) := content_clone answer hhas
      simp only [NegMem.value, hactive, content_clone_top, content_clone answer h.initialSdp.1,
        content_clone answer h.initialSdpTmp.1, content_clone answer h.negLocalSdp.1,
        content_clone answer h.negRemoteSdp]

theorem simulates_negotiate (cfg : Config) (spoil : Spoil) (allowAsym : Bool) :
    Simulates (negotiate cfg spoil allowAsym m) (SdpNeg.negotiate cfg allowAsym m.value) := by
  unfold negotiate SdpNeg.negotiate
  by_cases hstate : m.state ≠ .waitNego
  · rw [if_pos hstate, if_pos (by exact hstate)]
    exact .some h rfl
  rw [if_neg hstate, if_neg (by exact hstate)]
  cases hremote : m.negRemoteSdp with
  | none =>
    have hvalue : m.value.negRemoteSdp = none := by
      change m.mem.content m.negRemoteSdp = none
      rw [hremote]
      rfl
    rw [hvalue]
    exact .some h rfl
  | some remote =>
    have hvalue : m.value.negRemoteSdp = some (m.mem.sdp remote) := by
      change m.mem.content m.negRemoteSdp = _
      rw [hremote]
      rfl
    rw [hvalue]
    dsimp only
    -- the tables have nothing to do with the memory
    generalize hmaps : (if cfg.maintainRemotePtMap then
      noteSession cfg.codecs 0 m.maps (m.mem.sdp remote).media else m.maps) = maps
    have hmaps' : (if cfg.maintainRemotePtMap then
      noteSession cfg.codecs 0 m.value.maps (m.mem.sdp remote).media else m.value.maps) = maps := hmaps
    rw [hmaps']
    have hnoted : Sound { m with maps := maps } :=
      ⟨h.initialSdp, h.initialSdpTmp, h.activeLocalSdp, h.activeRemoteSdp, h.negLocalSdp, h.negRemoteSdp, h.lastSent⟩
    have hsame : ({ m.value with maps := maps } : Neg) = NegMem.value { m with maps := maps } := rfl
    cases hlocal : m.mem.content m.negLocalSdp with
    | none =>
      have hvalueLocal : m.value.negLocalSdp = none := hlocal
      rw [hvalueLocal]
      have hfinish := hnoted.finish (some .einval) hsame.symm
      exact hfinish
    | some sdp =>
      have hvalueLocal : m.value.negLocalSdp = some sdp := hlocal
      rw [hvalueLocal]
      dsimp only
      by_cases hanswer : m.hasRemoteAnswer = true
      · rw [if_pos hanswer, if_pos (by exact hanswer)]
        have hsimulates := simulates_negotiateAnswer hnoted cfg spoil allowAsym hremote sdp
        rw [← hsame] at hsimulates
        exact hsimulates
      · rw [if_neg hanswer, if_neg (by exact hanswer)]
        have hsimulates := simulates_negotiateOffer hnoted cfg hremote sdp
        rw [← hsame] at hsimulates
        exact hsimulates

end

end NegMem

end PjProject.SdpNeg
