import PjProject.WebSock

/-! Messages that arrive in fragments (`handle_frame` of `websock.c`). Whether a message is in progress is read off
`frag_len`, so that a first fragment without payload is forgotten, and with it the message. -/

namespace PjProject.WebSock

structure ControlFrame where
  fin : Bool
  opcode : Opcode
  isControl : 8 ≤ opcode
  payload : List UInt8

/-- What may stand between two fragments. -/
inductive Aside
  | control (frame : ControlFrame)
  | call (call : LocalCall)

/-- A fragment, with what arrives or happens in front of it. -/
structure Fragment where
  before : List Aside
  payload : List UInt8

/-- A message in fragments: all but the first are continuation frames, and the last one has the fin flag. -/
structure Message where
  opcode : Opcode
  isData : opcode = .text ∨ opcode = .bin
  first : Fragment
  more : List Fragment

def payloads (fragments : List Fragment) : List UInt8 := fragments.flatMap Fragment.payload

/-- The fragments put together. -/
def Message.content (m : Message) : List UInt8 := m.first.payload ++ payloads m.more

/-- The messages that `on_rx_msg` was called with. -/
def delivered (log : List Event) : List (Opcode × List UInt8) :=
  log.filterMap fun
    | .onRxMsg opcode data => some (opcode, data)
    | _ => none

section

variable (cfg : Config)

def aside (s : Session) : Aside → Session
  | .control frame => (handleFrame cfg s frame.fin frame.opcode frame.payload).1
  | .call call => localCall cfg s call

def Fragment.receive (s : Session) (fin : Bool) (opcode : Opcode) (f : Fragment) : Session :=
  (handleFrame cfg (f.before.foldl (aside cfg) s) fin opcode f.payload).1

def receiveMore (s : Session) : List Fragment → Session
  | [] => s
  | f :: rest => receiveMore (f.receive cfg s rest.isEmpty .cont) rest

/-- The frames of a message go to `handle_frame` one after the other. -/
def receive (s : Session) (m : Message) : Session :=
  receiveMore cfg (m.first.receive cfg s m.more.isEmpty m.opcode) m.more

end

/-- There is one fragment only, or the first one is not empty. -/
def Message.Kept (m : Message) : Prop := m.more = [] ∨ m.first.payload ≠ []

instance (m : Message) : Decidable m.Kept := by
  unfold Message.Kept
  cases m.more with
  | nil => exact isTrue (.inl rfl)
  | cons f rest => exact decidable_of_iff (m.first.payload ≠ []) (by simp)

/-- The two sessions have the same message in progress and have delivered the same messages. -/
structure SameMessages (s t : Session) : Prop where
  fragBuf : t.fragBuf = s.fragBuf
  fragOpcode : t.fragOpcode = s.fragOpcode
  delivered : delivered t.log = delivered s.log

section Aside

variable {cfg : Config}

theorem SameMessages.rfl {s : Session} : SameMessages s s := ⟨by trivial, by trivial, by trivial⟩

theorem SameMessages.trans {s t u : Session} (hst : SameMessages s t) (htu : SameMessages t u) : SameMessages s u :=
  ⟨htu.fragBuf.trans hst.fragBuf, htu.fragOpcode.trans hst.fragOpcode, htu.delivered.trans hst.delivered⟩

theorem delivered_append {log : List Event} {e : Event} (he : ∀ opcode data, e ≠ .onRxMsg opcode data) :
    delivered (log ++ [e]) = delivered log := by
  unfold delivered
  rw [List.filterMap_append]
  cases e with
  | onRxMsg opcode data => exact absurd rfl (he opcode data)
  | onConnect success => exact List.append_nil _
  | onClose code reason => exact List.append_nil _
  | ctlFrame opcode payload => exact List.append_nil _

theorem delivered_onRxMsg (log : List Event) (opcode : Opcode) (data : List UInt8) :
    delivered (log ++ [.onRxMsg opcode data]) = delivered log ++ [(opcode, data)] := by
  unfold delivered
  rw [List.filterMap_append]
  rfl

theorem sameMessages_sendRawCtl (s : Session) (opcode : Opcode) (payload : List UInt8) :
    SameMessages s (sendRawCtl cfg s opcode payload) := by
  unfold sendRawCtl
  split
  · exact .rfl
  · split
    · exact .rfl
    · exact ⟨rfl, rfl, delivered_append nofun⟩

theorem sameMessages_closed (s : Session) (code : Nat) (reason : List UInt8) :
    SameMessages s (if s.destroying then { s with state := .closed }
      else { s with state := .closed }.emit (.onClose code reason)) := by
  split
  · exact ⟨rfl, rfl, rfl⟩
  · exact ⟨rfl, rfl, delivered_append nofun⟩

theorem sameMessages_handleClose (s : Session) (payload : List UInt8) :
    SameMessages s (handleClose cfg s payload) := by
  have hsent (code : Nat) (reason : List UInt8) :
      SameMessages s (if s.state = .open then sendCloseFrame cfg s code reason else s) := by
    split
    · exact sameMessages_sendRawCtl s _ _
    · exact .rfl
  exact (hsent _ _).trans (sameMessages_closed _ _ _)

theorem sameMessages_localCall (s : Session) (call : LocalCall) : SameMessages s (localCall cfg s call) := by
  cases call with
  | close code reason =>
    have hclosing : SameMessages s { s with state := .closing } := ⟨rfl, rfl, rfl⟩
    rw [localCall]
    by_cases hopen : s.state = .open
    · rw [if_pos hopen]
      exact hclosing.trans (sameMessages_sendRawCtl _ _ _)
    · rw [if_neg hopen]
      exact .rfl
  | destroy => exact ⟨rfl, rfl, rfl⟩
  | timer =>
    rw [localCall]
    by_cases hopen : s.state = .open
    · rw [if_pos hopen]
      exact sameMessages_sendRawCtl s _ _
    · rw [if_neg hopen]
      exact .rfl
  | ctlSent => exact ⟨rfl, rfl, rfl⟩

theorem sameMessages_handleFrame {s : Session} {fin : Bool} {opcode : Opcode} {payload : List UInt8}
    (hcontrol : 8 ≤ opcode) : SameMessages s (handleFrame cfg s fin opcode payload).1 := by
  have hne : ∀ o : Opcode, o < 8 → opcode ≠ o := fun o ho h => absurd hcontrol (by rw [h]; exact Fin.not_le.mpr ho)
  unfold handleFrame
  split
  · split
    · exact .rfl
    · exact sameMessages_sendRawCtl s _ _
  · split
    · exact .rfl
    · split
      · exact sameMessages_handleClose s payload
      · rw [if_neg (not_or.mpr ⟨hne .text (by decide), hne .bin (by decide)⟩), if_neg (hne .cont (by decide))]
        exact .rfl

theorem sameMessages_asides (s : Session) (before : List Aside) : SameMessages s (before.foldl (aside cfg) s) := by
  induction before generalizing s with
  | nil => exact .rfl
  | cons a before ih =>
    refine SameMessages.trans ?_ (ih (aside cfg s a))
    cases a with
    | control frame => exact sameMessages_handleFrame frame.isControl
    | call call => exact sameMessages_localCall s call

end Aside

section Fragments

variable {cfg : Config}

theorem handleFrame_cont (s : Session) (fin : Bool) (payload : List UInt8) :
    (handleFrame cfg s fin .cont payload).1 = if s.fragBuf = [] then s else reassemble cfg s fin payload := by
  rw [handleFrame, if_neg (by decide), if_neg (by decide), if_neg (by decide), if_neg (by decide), if_pos rfl]
  split <;> rfl

/-- The first frame of a message when there is none in progress. -/
theorem handleFrame_data {s : Session} {opcode : Opcode} (hdata : opcode = .text ∨ opcode = .bin)
    (hnone : s.fragBuf = []) (fin : Bool) (payload : List UInt8) :
    (handleFrame cfg s fin opcode payload).1 =
      if fin then s.emit (.onRxMsg opcode payload)
      else reassemble cfg { s with fragOpcode := opcode } false payload := by
  have hne : ∀ o : Opcode, o ≠ .text → o ≠ .bin → opcode ≠ o := fun o ht hb h =>
    hdata.elim (fun h' => ht (h.symm.trans h')) fun h' => hb (h.symm.trans h')
  rw [handleFrame, if_neg (hne _ (by decide) (by decide)), if_neg (hne _ (by decide) (by decide)),
    if_neg (hne _ (by decide) (by decide)), if_pos hdata]
  cases fin with
  | true => rw [if_pos ⟨rfl, hnone⟩, if_pos rfl]
  | false => rw [if_neg (fun h => by cases h.1), if_pos hnone, if_neg Bool.false_ne_true]

theorem reassemble_of_fits {s : Session} {payload : List UInt8}
    (hfits : s.fragBuf.length + payload.length ≤ cfg.fragBufSize) (fin : Bool) :
    reassemble cfg s fin payload =
      if fin then { s with fragBuf := [] }.emit (.onRxMsg s.fragOpcode (s.fragBuf ++ payload))
      else { s with fragBuf := s.fragBuf ++ payload } := by
  rw [reassemble, if_neg (Nat.not_lt.mpr hfits)]

/-- Without a message in progress, continuation frames are ignored. -/
theorem receiveMore_of_nil {s : Session} (hnone : s.fragBuf = []) (more : List Fragment) :
    SameMessages s (receiveMore cfg s more) := by
  induction more generalizing s with
  | nil => exact .rfl
  | cons f rest ih =>
    have hasides : SameMessages s (f.before.foldl (aside cfg) s) := sameMessages_asides s f.before
    have hnil := hasides.fragBuf.trans hnone
    have hsame : SameMessages s (f.receive cfg s rest.isEmpty .cont) := by
      rw [Fragment.receive, handleFrame_cont, if_pos hnil]
      exact hasides
    exact hsame.trans (ih (hsame.fragBuf.trans hnone))

/-- With a message in progress, the continuation frames complete it. -/
theorem receiveMore_of_ne_nil {s : Session} {more : List Fragment} (hmore : more ≠ []) (hsome : s.fragBuf ≠ [])
    (hfits : s.fragBuf.length + (payloads more).length ≤ cfg.fragBufSize) :
    (receiveMore cfg s more).fragBuf = [] ∧
      delivered (receiveMore cfg s more).log = delivered s.log ++ [(s.fragOpcode, s.fragBuf ++ payloads more)] := by
  induction more generalizing s with
  | nil => exact absurd rfl hmore
  | cons f rest ih =>
    have hasides : SameMessages s (f.before.foldl (aside cfg) s) := sameMessages_asides s f.before
    have hpayloads : payloads (f :: rest) = f.payload ++ payloads rest := List.flatMap_cons
    rw [hpayloads, List.length_append] at hfits
    rw [receiveMore, Fragment.receive, handleFrame_cont, hpayloads]
    generalize f.before.foldl (aside cfg) s = t at hasides
    rw [← hasides.fragBuf] at hsome hfits ⊢
    rw [← hasides.fragOpcode, ← hasides.delivered, if_neg hsome, reassemble_of_fits (by omega)]
    cases rest with
    | nil =>
      rw [List.isEmpty_nil, if_pos rfl]
      refine ⟨rfl, (delivered_onRxMsg _ _ _).trans ?_⟩
      rw [payloads, List.flatMap_nil, List.append_nil]
    | cons g rest =>
      have hne : t.fragBuf ++ f.payload ≠ [] := List.append_ne_nil_of_left_ne_nil hsome f.payload
      rw [List.isEmpty_cons, if_neg Bool.false_ne_true, ← List.append_assoc]
      refine @ih { t with fragBuf := t.fragBuf ++ f.payload } (List.cons_ne_nil g rest) hne ?_
      rw [List.length_append]
      omega

/-- A message whose first fragment is not lost is delivered, another one is not; no message is in progress then. -/
theorem receive_spec {s : Session} (hnone : s.fragBuf = []) {m : Message}
    (hfits : m.content.length ≤ cfg.fragBufSize) :
    (receive cfg s m).fragBuf = [] ∧
      delivered (receive cfg s m).log =
        delivered s.log ++ if m.Kept then [(m.opcode, m.content)] else [] := by
  have hasides : SameMessages s (m.first.before.foldl (aside cfg) s) := sameMessages_asides s m.first.before
  have hlength : m.content.length = m.first.payload.length + (payloads m.more).length := List.length_append
  rw [receive, Fragment.receive]
  generalize m.first.before.foldl (aside cfg) s = t at hasides
  have hnil := hasides.fragBuf.trans hnone
  rw [handleFrame_data m.isData hnil, ← hasides.delivered]
  by_cases hmore : m.more = []
  · have hkept : m.Kept := .inl hmore
    have hcontent : m.content = m.first.payload := by
      rw [Message.content, hmore]
      exact List.append_nil _
    rw [if_pos hkept, hmore, List.isEmpty_nil, if_pos rfl, hcontent]
    exact ⟨hnil, delivered_onRxMsg _ _ _⟩
  · have hempty : m.more.isEmpty = false := List.isEmpty_eq_false_iff.mpr hmore
    rw [hempty, if_neg Bool.false_ne_true, reassemble_of_fits (by simp only [hnil, List.length_nil]; omega),
      if_neg Bool.false_ne_true]
    simp only [hnil, List.nil_append]
    by_cases hfirst : m.first.payload = []
    · have hlost : ¬m.Kept := not_or.mpr ⟨hmore, not_not.mpr hfirst⟩
      have hsame := @receiveMore_of_nil cfg { t with fragBuf := m.first.payload, fragOpcode := m.opcode } hfirst m.more
      rw [if_neg hlost, List.append_nil]
      exact ⟨hsame.fragBuf.trans hfirst, hsame.delivered⟩
    · have hkept : m.Kept := .inr hfirst
      rw [if_pos hkept]
      exact @receiveMore_of_ne_nil cfg { t with fragBuf := m.first.payload, fragOpcode := m.opcode } m.more hmore
        hfirst (by simp only; omega)

theorem delivered_receive {s : Session} (hnone : s.fragBuf = []) {ms : List Message}
    (hfits : ∀ m ∈ ms, m.content.length ≤ cfg.fragBufSize) :
    delivered (ms.foldl (receive cfg) s).log =
      delivered s.log ++ (ms.filter (decide ·.Kept)).map fun m => (m.opcode, m.content) := by
  induction ms generalizing s with
  | nil => exact (List.append_nil _).symm
  | cons m ms ih =>
    obtain ⟨hend, hlog⟩ := receive_spec hnone (hfits m List.mem_cons_self)
    rw [List.foldl_cons, ih hend fun m' hm' => hfits m' (List.mem_cons_of_mem m hm'), hlog, List.append_assoc]
    by_cases hkept : m.Kept
    · rw [if_pos hkept, List.filter_cons, if_pos (decide_eq_true hkept)]
      rfl
    · rw [if_neg hkept, List.filter_cons, if_neg fun h => hkept (of_decide_eq_true h)]
      rfl

/-- Every message is delivered, once and in order, with the opcode of its first fragment and the fragments put
together, if and only if none in more than one fragment begins with an empty one. -/
theorem fragments_delivered_iff (cfg : Config) {s : Session} (hnone : s.fragBuf = []) {ms : List Message}
    (hfits : ∀ m ∈ ms, m.content.length ≤ cfg.fragBufSize) :
    delivered (ms.foldl (receive cfg) s).log = delivered s.log ++ ms.map (fun m => (m.opcode, m.content)) ↔
      ∀ m ∈ ms, m.Kept := by
  rw [delivered_receive hnone hfits, List.append_cancel_left_eq]
  constructor
  · intro h
    have hlength := congrArg List.length h
    rw [List.length_map, List.length_map] at hlength
    exact fun m hm => of_decide_eq_true (List.length_filter_eq_length_iff.mp hlength m hm)
  · intro h
    rw [List.filter_eq_self.mpr fun m hm => decide_eq_true (h m hm)]

theorem control_ping : 8 ≤ Opcode.ping := by decide

/-- A text of two fragments with a ping between them, and one whose first fragment is empty. -/
def sampleMessage (first : List UInt8) : Message where
  opcode := .text
  isData := .inl rfl
  first := ⟨[], first⟩
  more := [⟨[.control ⟨true, .ping, control_ping, [1]⟩], [2, 3]⟩]

def idleSession : Session := ⟨.open, false, [], .cont, false, []⟩

theorem fragments_delivered_iff_sample :
    delivered ([sampleMessage [7]].foldl (receive ⟨false, 8, [], fun _ => false⟩) idleSession).log =
      [(.text, [7, 2, 3])] :=
  (fragments_delivered_iff ⟨false, 8, [], fun _ => false⟩ (s := idleSession) rfl (by decide)).mpr (by decide)

/-- Of a message with an empty first fragment nothing is delivered. -/
theorem empty_first_fragment_lost :
    (sampleMessage []).content = [2, 3] ∧
      delivered ([sampleMessage []].foldl (receive ⟨false, 8, [], fun _ => false⟩) idleSession).log = [] := by
  decide

end Fragments

end PjProject.WebSock
