import PjProject.WebSock
import PjProject.Runs

/-! How the cutting of the inbound stream into reads shows in what a connection delivers. The reference
hands the whole frames of the stream to the handler. A read agrees with it unless it ends in one of three
places: in a header behind bytes that the same read consumed, since `process_rx_frame` reports a
remainder that it did not move to the front of the buffer; in a masked payload, whose continuation is not
unmasked; and in a payload that is dropped for its size only when it spans reads. -/

namespace PjProject.WebSock

variable (cfg : Config) (calls : List Event → List LocalCall)

/-- A frame is handled, and then what else happens to the connection after the events so far. -/
def respond (s : Session) (fin : Bool) (opcode : Opcode) (payload : List UInt8) : Session × Bool :=
  let result := handleFrame cfg s fin opcode payload
  ((calls result.1.log).foldl (localCall cfg) result.1, result.2)

/-- `on_transport_data` with data, after the handshake. -/
def read (r : Rx) (bytes : List UInt8) : Option Rx :=
  processRxFrame cfg (respond cfg calls) r (r.kept ++ bytes)

/-- A connection without a partial frame and with an empty buffer. -/
def Rx.start (s : Session) : Rx := ⟨s, none, [], .idle⟩

def onFrame (handle : Session → Bool → Opcode → List UInt8 → Session × Bool) (s : Session)
    (x : Header × List UInt8) : Session × Bool := handle s x.1.fin x.1.opcode x.2

/-- The reference: the whole frames of a stream go to the handler, up to a CLOSE frame. -/
def deliverAll (s : Session) (stream : List UInt8) : Session × Option (List UInt8) :=
  (frameDecoder cfg.wide).deliver (onFrame (respond cfg calls)) s stream

/-- The bytes behind the last whole frame; none behind a CLOSE frame. -/
def leftover (wide : Bool) (data : List UInt8) : List UInt8 :=
  ((frameDecoder wide).deliver (fun _ x => ((), decide (x.1.opcode ≠ .close))) () data).2.getD []

/-- The bytes that the loop over the frames is given. -/
def Rx.unread (r : Rx) (bytes : List UInt8) : List UInt8 :=
  match r.rxPartial with
  | none => r.kept ++ bytes
  | some p => if p.op = .close then [] else bytes.drop (p.total - p.got)

/-- A read of `len` bytes may end with `rest` behind the last whole frame: in a header only when nothing
was consumed, in a payload only when it has no mask and is not too large. -/
def CutOk (rest : List UInt8) (len : Nat) : Prop :=
  match parseFrameHeader cfg.wide rest with
  | none => rest = [] ∨ rest.length = len
  | some h =>
    if rest.length ≤ h.hdrLen then rest.length = len else h.mask = none ∧ h.payloadLen ≤ cfg.fragBufSize

instance (rest : List UInt8) (len : Nat) : Decidable (CutOk cfg rest len) :=
  match hparse : parseFrameHeader cfg.wide rest with
  | none => decidable_of_iff (rest = [] ∨ rest.length = len) (by simp only [CutOk, hparse])
  | some h =>
    decidable_of_iff
      (if rest.length ≤ h.hdrLen then rest.length = len else h.mask = none ∧ h.payloadLen ≤ cfg.fragBufSize)
      (by simp only [CutOk, hparse])

/-- The WebSocket is not closed or destroyed, and the read ends where it may. -/
def CleanCut (r : Rx) (bytes : List UInt8) : Prop :=
  r.session.state ≠ .closed ∧ r.session.destroying = false ∧
    CutOk cfg (leftover cfg.wide (r.unread bytes)) (r.kept ++ bytes).length

instance (r : Rx) (bytes : List UInt8) : Decidable (CleanCut cfg r bytes) :=
  inferInstanceAs (Decidable (_ ∧ _ ∧ _))

section Handler

variable {cfg calls}

/-- Only a CLOSE frame stops the loop. -/
theorem respond_more (s : Session) (fin : Bool) (opcode : Opcode) (payload : List UInt8) :
    (respond cfg calls s fin opcode payload).2 = decide (opcode ≠ .close) :=
  handleFrame_more s fin opcode payload

theorem foldl_localCall_closed {s : Session} (h : s.state = .closed) (l : List LocalCall) :
    (l.foldl (localCall cfg) s).state = .closed := by
  induction l generalizing s with
  | nil => exact h
  | cons call rest ih => exact ih (localCall_closed h call)

/-- Where the loop stops, the WebSocket is closed. -/
theorem respond_closed {s : Session} {fin : Bool} {opcode : Opcode} {payload : List UInt8}
    (h : (respond cfg calls s fin opcode payload).2 = false) :
    (respond cfg calls s fin opcode payload).1.state = .closed := by
  rw [respond_more, decide_eq_false_iff_not, not_not] at h
  subst h
  exact foldl_localCall_closed (handleClose_state s payload) _

end Handler

section Loop

variable {cfg : Config} {calls : List Event → List LocalCall}

/-- How the loop over the frames ends when `front` was consumed and the reference gives `result`. -/
def finish (cfg : Config) (r : Rx) (front : List UInt8) (result : Session × Option (List UInt8)) : Rx :=
  let r := { r with session := result.1 }
  match result.2 with
  | none | some [] => { r with phase := .idle }
  | some rest =>
    match parseFrameHeader cfg.wide rest with
    | none => r.keep front rest
    | some h => if rest.length ≤ h.hdrLen then r.keep front rest else startPartial cfg r h rest

theorem frameDecoder_eq_none {wide : Bool} {data : List UInt8} :
    (frameDecoder wide).decode data = none ↔ decodeFrameHeader wide data = none := Option.map_eq_none_iff

theorem frameDecoder_eq_some {wide : Bool} {data : List UInt8} {x : Header × List UInt8} {n : Nat} :
    (frameDecoder wide).decode data = some (x, n) ↔
      decodeFrameHeader wide data = some x ∧ n = x.1.hdrLen + x.1.payloadLen := by
  constructor
  · intro h
    obtain ⟨y, hy, heq⟩ := Option.map_eq_some_iff.mp h
    cases heq
    exact ⟨hy, rfl⟩
  · rintro ⟨h, rfl⟩
    exact Option.map_eq_some_iff.mpr ⟨x, h, rfl⟩

theorem finish_phase (r : Rx) (front : List UInt8) (result : Session × Option (List UInt8)) :
    (finish cfg r front result).phase = .idle := by
  simp only [finish]
  split
  · rfl
  · rfl
  · split
    · rfl
    · split <;> rfl

theorem finish_handled (handle : Session → Bool → Opcode → List UInt8 → Session × Bool) (r : Rx)
    (fin : Bool) (opcode : Opcode) (payload front data front' : List UInt8) (result : Session × Option (List UInt8)) :
    finish cfg (r.handled handle fin opcode payload front data) front' result = finish cfg r front' result := by
  simp only [finish]
  split
  · rfl
  · rfl
  · split
    · rfl
    · split <;> rfl

theorem handled_of_stop {handle : Session → Bool → Opcode → List UInt8 → Session × Bool} {r : Rx}
    {fin : Bool} {opcode : Opcode} {payload front data : List UInt8}
    (hstop : ¬(handle r.session fin opcode payload).2 = true) :
    r.handled handle fin opcode payload front data =
      { r with session := (handle r.session fin opcode payload).1, phase := .idle } := by
  rw [Rx.handled, if_neg hstop]

theorem loop_last {handle : Session → Bool → Opcode → List UInt8 → Session × Bool} {r t : Rx} {bound : Nat}
    (hturn : rxTurn cfg handle r = some t) (hidle : t.phase = .idle) (hbound : 2 ≤ bound) :
    loop (rxTurn cfg handle) bound r = some t := by
  obtain ⟨bound, rfl⟩ : ∃ b, bound = b + 1 := ⟨bound - 1, by omega⟩
  rw [loop_of_some hturn, loop_of_none (rxTurn_idle hidle) (by omega)]

theorem rxTurn_frames (cfg : Config) (handle : Session → Bool → Opcode → List UInt8 → Session × Bool) {r : Rx}
    {front data : List UInt8} (hrx : r.rxPartial = none) (hphase : r.phase = .frames front data)
    (hdata : data ≠ []) : rxTurn cfg handle r = some (frameTurn cfg handle r front data) := by
  obtain ⟨b, rest, rfl⟩ := List.exists_cons_of_ne_nil hdata
  rw [rxTurn, hphase]
  simp only [hrx]

/-- Without a whole frame the loop ends. -/
theorem frameTurn_of_none {handle : Session → Bool → Opcode → List UInt8 → Session × Bool} {r : Rx}
    {front data : List UInt8} (hdata : data ≠ []) (hdecode : decodeFrameHeader cfg.wide data = none) :
    frameTurn cfg handle r front data = finish cfg r front (r.session, some data) := by
  obtain ⟨b, rest, rfl⟩ := List.exists_cons_of_ne_nil hdata
  rw [frameTurn, hdecode]
  rfl

/-- The loop over the frames of `data` follows the reference. The consumed bytes stay the same ones when
nothing more is consumed. -/
theorem loop_frames (cfg : Config) (calls : List Event → List LocalCall) (r : Rx) (front data : List UInt8)
    (hrx : r.rxPartial = none) (hphase : r.phase = .frames front data) {bound : Nat}
    (hbound : data.length + 2 ≤ bound) :
    ∃ front', loop (rxTurn cfg (respond cfg calls)) bound r =
        some (finish cfg r front' (deliverAll cfg calls r.session data)) ∧
      ∀ rest, (deliverAll cfg calls r.session data).2 = some rest → rest.length = data.length →
        front' = front := by
  induction data using (frameDecoder cfg.wide).frame_induction generalizing r front bound with
  | hnone data hdecode =>
    refine ⟨front, ?_, fun _ _ _ => rfl⟩
    rw [deliverAll, Decoder.deliver_of_none hdecode]
    by_cases hdata : data = []
    · subst hdata
      refine loop_last ?_ rfl (by omega)
      rw [rxTurn, hphase]
      rfl
    · refine loop_last ?_ (finish_phase r front _) (by omega)
      rw [rxTurn_frames _ _ hrx hphase hdata, frameTurn_of_none hdata (frameDecoder_eq_none.mp hdecode)]
  | hsome data x n hdecode ih =>
    have hpos := (frameDecoder cfg.wide).pos hdecode
    have hle := (frameDecoder cfg.wide).le hdecode
    have hdata : data ≠ [] := List.ne_nil_of_length_pos (by omega)
    have hturn := rxTurn_frames cfg (respond cfg calls) hrx hphase hdata
    obtain ⟨hframe, rfl⟩ := frameDecoder_eq_some.mp hdecode
    rw [deliverAll, Decoder.deliver_of_some hdecode, ← deliverAll]
    simp only [frameTurn, hframe] at hturn
    split
    · rename_i hmore
      have hrest : (data.drop (x.1.hdrLen + x.1.payloadLen)).length < data.length := by
        rw [List.length_drop]
        omega
      obtain ⟨bound, rfl⟩ : ∃ b, bound = b + 1 := ⟨bound - 1, by omega⟩
      obtain ⟨front', hloop, -⟩ := ih (r.handled (respond cfg calls) x.1.fin x.1.opcode x.2
        (front ++ (data.take x.1.hdrLen ++ x.2)) (data.drop (x.1.hdrLen + x.1.payloadLen))) _ hrx
        (if_pos hmore) (by omega : _ ≤ bound)
      refine ⟨front', ?_, fun rest heq hlen => ?_⟩
      · rw [loop_of_some hturn, hloop, finish_handled]
        rfl
      · have := Decoder.length_rest_le (Prod.ext rfl heq)
        omega
    · rename_i hstop
      refine ⟨front, ?_, fun _ heq _ => by cases heq⟩
      rw [loop_last hturn (if_neg hstop) (by omega), handled_of_stop hstop]
      rfl

/-- The partial frame of which `rest` was received. -/
def collected (h : Header) (rest : List UInt8) : Partial :=
  ⟨h.opcode, h.fin, h.payloadLen, rest.length - h.hdrLen, some (rest.drop h.hdrLen)⟩

/-- The bytes of an unfinished frame are kept, or its payload is collected. -/
def Holding (cfg : Config) (r : Rx) (rest : List UInt8) : Prop :=
  (r.rxPartial = none ∧ r.kept = rest) ∨
    ∃ h, parseFrameHeader cfg.wide rest = some h ∧ h.mask = none ∧ h.payloadLen ≤ cfg.fragBufSize ∧
      h.hdrLen < rest.length ∧ r.kept = [] ∧ r.rxPartial = some (collected h rest)

@[simp] theorem finish_session (r : Rx) (front : List UInt8) (result : Session × Option (List UInt8)) :
    (finish cfg r front result).session = result.1 := by
  simp only [finish]
  split
  · rfl
  · rfl
  · split
    · rfl
    · split <;> rfl

theorem keep_nil (r : Rx) (rest : List UInt8) : (r.keep [] rest).kept = rest := by
  rw [Rx.keep, List.nil_append, List.take_length]

/-- After a read that ends where it may, the rest is held. -/
theorem holding_finish {r : Rx} {front rest : List UInt8} {len : Nat} (s : Session)
    (hrx : r.rxPartial = none) (hkept : r.kept = []) (hok : CutOk cfg rest len)
    (hfront : rest ≠ [] → rest.length = len → front = []) : Holding cfg (finish cfg r front (s, some rest)) rest := by
  by_cases hrest : rest = []
  · subst hrest
    exact .inl ⟨hrx, hkept⟩
  · obtain ⟨b, more, rfl⟩ := List.exists_cons_of_ne_nil hrest
    simp only [CutOk] at hok
    simp only [finish]
    split at hok
    · have hlen := hok.resolve_left hrest
      rw [hfront hrest hlen]
      exact .inl ⟨hrx, keep_nil _ _⟩
    · rename_i h hparse
      split at hok
      · rw [if_pos ‹_›, hfront hrest hok]
        exact .inl ⟨hrx, keep_nil _ _⟩
      · rename_i hlong
        rw [if_neg hlong]
        refine .inr ⟨h, hparse, hok.1, hok.2, by omega, hkept, ?_⟩
        simp only [startPartial, collected, hok.1, unmask, List.length_drop]
        rw [if_neg (by omega)]

/-- The connection has delivered what the reference delivers of the stream so far. -/
structure Follows (cfg : Config) (calls : List Event → List LocalCall) (s : Session) (stream : List UInt8)
    (r : Rx) : Prop where
  idle : r.phase = .idle
  session : r.session = (deliverAll cfg calls s stream).1
  held : ∀ rest, (deliverAll cfg calls s stream).2 = some rest → Holding cfg r rest

theorem leftover_eq {s t : Session} {data rest : List UInt8}
    (h : deliverAll cfg calls s data = (t, some rest)) : leftover cfg.wide data = rest := by
  have hsame : (deliverAll cfg calls s data).2 =
      ((frameDecoder cfg.wide).deliver (fun _ x => ((), decide (x.1.opcode ≠ .close))) () data).2 :=
    Decoder.rest_eq (fun s _ x => respond_more s x.1.fin x.1.opcode x.2) s () data
  rw [leftover, ← hsame, h]
  rfl

theorem follows_frames (cfg : Config) (calls : List Event → List LocalCall) (r : Rx) {front data : List UInt8} {len bound : Nat} (hrx : r.rxPartial = none)
    (hkept : r.kept = []) (hphase : r.phase = .frames front data) (hbound : data.length + 2 ≤ bound)
    (hlen : len = front.length + data.length) (hok : CutOk cfg (leftover cfg.wide data) len) :
    ∃ t, loop (rxTurn cfg (respond cfg calls)) bound r = some t ∧ Follows cfg calls r.session data t := by
  obtain ⟨front', hloop, hfront⟩ := loop_frames cfg calls r front data hrx hphase hbound
  refine ⟨_, hloop, finish_phase r front' _, finish_session r front' _, fun rest hrest => ?_⟩
  have hdeliver : deliverAll cfg calls r.session data = ((deliverAll cfg calls r.session data).1, some rest) :=
    Prod.ext rfl hrest
  have hle := Decoder.length_rest_le hdeliver
  rw [leftover_eq hdeliver] at hok
  rw [hdeliver]
  refine holding_finish _ hrx hkept hok fun hne heq => ?_
  rw [hfront rest hrest (by omega)]
  exact List.length_eq_zero_iff.mp (by omega)

theorem Follows.append {s t : Session} {stream rest bytes : List UInt8} {r : Rx}
    (hdeliver : deliverAll cfg calls s stream = (t, some rest)) (h : Follows cfg calls t (rest ++ bytes) r) :
    Follows cfg calls s (stream ++ bytes) r := by
  have heq : deliverAll cfg calls s (stream ++ bytes) = deliverAll cfg calls t (rest ++ bytes) := by
    rw [deliverAll] at hdeliver
    rw [deliverAll, Decoder.deliver_append, hdeliver]
    rfl
  exact ⟨h.idle, heq ▸ h.session, heq ▸ h.held⟩

/-- The entry of `process_rx_frame` on a WebSocket that is not destroyed. -/
theorem processRxFrame_enter {handle : Session → Bool → Opcode → List UInt8 → Session × Bool} {r : Rx}
    (hlive : r.session.destroying = false) (data : List UInt8) :
    processRxFrame cfg handle r data =
      loop (rxTurn cfg handle) (data.length + 2) { r with kept := [], phase := .frames [] data } := by
  refine loop_of_some ?_ _
  simp only [rxTurn, hlive]
  rfl

theorem read_kept (calls : List Event → List LocalCall) {r : Rx} {bytes : List UInt8}
    (hrx : r.rxPartial = none) (hclean : CleanCut cfg r bytes) :
    ∃ t, read cfg calls r bytes = some t ∧ Follows cfg calls r.session (r.kept ++ bytes) t := by
  obtain ⟨-, hlive, hok⟩ := hclean
  simp only [Rx.unread, hrx] at hok
  rw [read, processRxFrame_enter hlive]
  exact follows_frames cfg calls { r with kept := [], phase := .frames [] (r.kept ++ bytes) } hrx rfl rfl
    le_rfl (by simp) hok

theorem decodeFrameHeader_of_short {wide : Bool} {data : List UInt8} {h : Header}
    (hparse : parseFrameHeader wide data = some h) (hshort : data.length < h.hdrLen + h.payloadLen) :
    decodeFrameHeader wide data = none := by
  rw [decodeFrameHeader, hparse, Option.bind_some, if_pos hshort]

theorem lt_of_decodeFrameHeader {wide : Bool} {data : List UInt8} {h : Header}
    (hparse : parseFrameHeader wide data = some h) (hnone : decodeFrameHeader wide data = none) :
    data.length < h.hdrLen + h.payloadLen := by
  by_contra hlong
  have hsome := decodeFrameHeader_eq_some.mpr ⟨hparse, Nat.not_lt.mp hlong, rfl⟩
  rw [hnone] at hsome
  cases hsome

/-- Nothing is delivered while the payload is not complete. -/
theorem follows_short {r : Rx} {s : Session} {data : List UInt8} {h : Header}
    (hparse : parseFrameHeader cfg.wide data = some h) (hshort : data.length < h.hdrLen + h.payloadLen)
    (hidle : r.phase = .idle) (hsession : r.session = s) (hheld : Holding cfg r data) :
    Follows cfg calls s data r := by
  have hdeliver : deliverAll cfg calls s data = (s, some data) :=
    Decoder.deliver_of_none (frameDecoder_eq_none.mpr (decodeFrameHeader_of_short hparse hshort))
  refine ⟨hidle, ?_, fun rest hrest => ?_⟩
  · rw [hdeliver, hsession]
  · rw [hdeliver] at hrest
    cases hrest
    exact hheld

theorem partialTurn_short (handle : Session → Bool → Opcode → List UInt8 → Session × Bool) (r : Rx)
    {h : Header} {rest bytes : List UInt8} (hlong : h.hdrLen ≤ rest.length)
    (hshort : (rest ++ bytes).length < h.hdrLen + h.payloadLen) :
    partialTurn handle r (collected h rest) [] bytes =
      { r with rxPartial := some (collected h (rest ++ bytes)), phase := .idle } := by
  rw [List.length_append] at hshort
  have hcopy : bytes.length < (collected h rest).total - (collected h rest).got := by
    simp only [collected]
    omega
  have hgot : (collected h rest).got + bytes.length < (collected h rest).total := by omega
  have hadded : rest.length - h.hdrLen + bytes.length = rest.length + bytes.length - h.hdrLen := by omega
  simp only [partialTurn, if_pos hcopy, if_pos hgot, List.take_length]
  simp only [collected, Option.map_some, hadded, List.length_append, List.drop_append_of_le_length hlong]

theorem partialTurn_full (handle : Session → Bool → Opcode → List UInt8 → Session × Bool) (r : Rx)
    {h : Header} {rest bytes : List UInt8} (hlong : h.hdrLen ≤ rest.length)
    (hpart : rest.length < h.hdrLen + h.payloadLen)
    (hfull : h.hdrLen + h.payloadLen ≤ (rest ++ bytes).length) :
    partialTurn handle r (collected h rest) [] bytes =
      { r with rxPartial := none }.handled handle h.fin h.opcode
        (slice (rest ++ bytes) h.hdrLen h.payloadLen)
        (bytes.take (h.hdrLen + h.payloadLen - rest.length))
        ((rest ++ bytes).drop (h.hdrLen + h.payloadLen)) := by
  rw [List.length_append] at hfull
  have hcopy : ¬bytes.length < h.hdrLen + h.payloadLen - rest.length := by omega
  have hneeded : h.payloadLen - (rest.length - h.hdrLen) = h.hdrLen + h.payloadLen - rest.length := by omega
  have hpayload : slice (rest ++ bytes) h.hdrLen h.payloadLen =
      rest.drop h.hdrLen ++ bytes.take (h.hdrLen + h.payloadLen - rest.length) := by
    rw [slice, List.drop_append_of_le_length hlong, List.take_append, List.take_of_length_le, List.length_drop,
      hneeded]
    rw [List.length_drop]
    omega
  have hdrop : (rest ++ bytes).drop (h.hdrLen + h.payloadLen) =
      bytes.drop (h.hdrLen + h.payloadLen - rest.length) := by
    rw [List.drop_append, List.drop_of_length_le (by omega), List.nil_append]
  simp only [partialTurn, collected, hneeded, if_neg hcopy, Option.map_some, hpayload, hdrop, List.nil_append]
  rw [if_neg (by omega)]

theorem follows_full {r : Rx} {rest bytes : List UInt8} {h : Header} {bound : Nat}
    (hparse : parseFrameHeader cfg.wide rest = some h) (hmask : h.mask = none)
    (hpart : rest.length < h.hdrLen + h.payloadLen) (hkept : r.kept = []) (hbound : bytes.length + 1 ≤ bound)
    (hfull : h.hdrLen + h.payloadLen ≤ (rest ++ bytes).length)
    (hok : h.opcode ≠ .close →
      CutOk cfg (leftover cfg.wide ((rest ++ bytes).drop (h.hdrLen + h.payloadLen))) bytes.length) :
    ∃ t, loop (rxTurn cfg (respond cfg calls)) bound
        ({ r with rxPartial := none }.handled (respond cfg calls) h.fin h.opcode
          (slice (rest ++ bytes) h.hdrLen h.payloadLen) (bytes.take (h.hdrLen + h.payloadLen - rest.length))
          ((rest ++ bytes).drop (h.hdrLen + h.payloadLen))) = some t ∧
      Follows cfg calls r.session (rest ++ bytes) t := by
  have hframe : decodeFrameHeader cfg.wide (rest ++ bytes) =
      some (h, slice (rest ++ bytes) h.hdrLen h.payloadLen) := by
    refine decodeFrameHeader_eq_some.mpr ⟨parseFrameHeader_append hparse bytes, hfull, ?_⟩
    rw [hmask, unmask]
  have hdeliver : deliverAll cfg calls r.session (rest ++ bytes) =
      if (respond cfg calls r.session h.fin h.opcode (slice (rest ++ bytes) h.hdrLen h.payloadLen)).2 = true then
        deliverAll cfg calls (respond cfg calls r.session h.fin h.opcode
          (slice (rest ++ bytes) h.hdrLen h.payloadLen)).1 ((rest ++ bytes).drop (h.hdrLen + h.payloadLen))
      else ((respond cfg calls r.session h.fin h.opcode
        (slice (rest ++ bytes) h.hdrLen h.payloadLen)).1, none) :=
    Decoder.deliver_of_some (frameDecoder_eq_some.mpr ⟨hframe, rfl⟩)
  rw [List.length_append] at hfull
  by_cases hmore : (respond cfg calls r.session h.fin h.opcode
      (slice (rest ++ bytes) h.hdrLen h.payloadLen)).2 = true
  · have hopcode : h.opcode ≠ .close := by
      rw [respond_more] at hmore
      exact of_decide_eq_true hmore
    have hdrop : ((rest ++ bytes).drop (h.hdrLen + h.payloadLen)).length =
        rest.length + bytes.length - (h.hdrLen + h.payloadLen) := by
      rw [List.length_drop, List.length_append]
    rw [if_pos hmore] at hdeliver
    obtain ⟨t, hloop, hfollows⟩ := follows_frames cfg calls
      ({ r with rxPartial := none }.handled (respond cfg calls) h.fin h.opcode
        (slice (rest ++ bytes) h.hdrLen h.payloadLen) (bytes.take (h.hdrLen + h.payloadLen - rest.length))
        ((rest ++ bytes).drop (h.hdrLen + h.payloadLen))) rfl hkept (if_pos hmore) (by omega : _ ≤ bound) (by rw [List.length_take, hdrop]; omega) (hok hopcode)
    exact ⟨t, hloop, hfollows.idle, hdeliver ▸ hfollows.session, hdeliver ▸ hfollows.held⟩
  · rw [if_neg hmore] at hdeliver
    refine ⟨_, loop_of_none (rxTurn_idle (if_neg hmore)) (by omega), if_neg hmore, ?_, fun rest hrest => ?_⟩
    · rw [hdeliver]
      rfl
    · rw [hdeliver] at hrest
      cases hrest

theorem read_continued (calls : List Event → List LocalCall) {r : Rx} {rest bytes : List UInt8} {h : Header}
    (hparse : parseFrameHeader cfg.wide rest = some h) (hmask : h.mask = none)
    (hsize : h.payloadLen ≤ cfg.fragBufSize) (hlong : h.hdrLen < rest.length)
    (hpart : rest.length < h.hdrLen + h.payloadLen) (hkept : r.kept = [])
    (hrx : r.rxPartial = some (collected h rest)) (hclean : CleanCut cfg r bytes) :
    ∃ t, read cfg calls r bytes = some t ∧ Follows cfg calls r.session (rest ++ bytes) t := by
  obtain ⟨-, hlive, hok⟩ := hclean
  simp only [Rx.unread, hrx, hkept, List.nil_append] at hok
  have hmore := parseFrameHeader_append hparse bytes
  rw [read, hkept, List.nil_append, processRxFrame_enter hlive]
  by_cases hbytes : bytes = []
  · subst hbytes
    refine ⟨_, loop_last rfl rfl (by omega), ?_⟩
    rw [List.append_nil]
    exact follows_short hparse hpart rfl rfl (.inr ⟨h, hparse, hmask, hsize, hlong, rfl, hrx⟩)
  · have hturn : rxTurn cfg (respond cfg calls) { r with kept := [], phase := .frames [] bytes } =
        some (partialTurn (respond cfg calls) { r with kept := [], phase := .frames [] bytes }
          (collected h rest) [] bytes) := by
      obtain ⟨b, more, rfl⟩ := List.exists_cons_of_ne_nil hbytes
      simp only [rxTurn, hrx]
    by_cases hfull : h.hdrLen + h.payloadLen ≤ (rest ++ bytes).length
    · rw [partialTurn_full _ _ (Nat.le_of_lt hlong) hpart hfull] at hturn
      rw [loop_of_some hturn]
      refine follows_full hparse hmask hpart rfl le_rfl hfull fun hopcode => ?_
      rw [if_neg (show (collected h rest).op ≠ .close from hopcode)] at hok
      convert hok using 2
      rw [List.drop_append, List.drop_of_length_le (by omega), List.nil_append]
      simp only [collected]
      congr 1
      omega
    · rw [partialTurn_short _ _ (Nat.le_of_lt hlong) (Nat.not_le.mp hfull)] at hturn
      refine ⟨_, loop_last hturn rfl (by omega), follows_short hmore (Nat.not_le.mp hfull) rfl rfl ?_⟩
      refine .inr ⟨h, hmore, hmask, hsize, ?_, rfl, rfl⟩
      rw [List.length_append]
      omega

theorem Follows.read {s : Session} {stream bytes : List UInt8} {r : Rx} (h : Follows cfg calls s stream r)
    (hclean : CleanCut cfg r bytes) :
    ∃ t, read cfg calls r bytes = some t ∧ Follows cfg calls s (stream ++ bytes) t := by
  cases hrest : (deliverAll cfg calls s stream).2 with
  | none =>
    have hclosed : (deliverAll cfg calls s stream).1.state = .closed :=
      Decoder.stopped (P := fun t => t.state = .closed) (fun _ _ => respond_closed) (Prod.ext rfl hrest)
    rw [← h.session] at hclosed
    exact absurd hclosed hclean.1
  | some rest =>
    have hdeliver : deliverAll cfg calls s stream = (r.session, some rest) := Prod.ext h.session.symm hrest
    rcases h.held rest hrest with ⟨hrx, rfl⟩ | ⟨hd, hparse, hmask, hsize, hlong, hkept, hrx⟩
    · obtain ⟨t, ht, hfollows⟩ := read_kept calls hrx hclean
      exact ⟨t, ht, hfollows.append hdeliver⟩
    · have hpart := lt_of_decodeFrameHeader hparse
        (frameDecoder_eq_none.mp (Decoder.decode_rest hdeliver))
      obtain ⟨t, ht, hfollows⟩ :=
        read_continued calls hparse hmask hsize hlong hpart hkept hrx hclean
      exact ⟨t, ht, hfollows.append hdeliver⟩

theorem follows_start (s : Session) : Follows cfg calls s [] (Rx.start s) := by
  have hdeliver : deliverAll cfg calls s [] = (s, some []) := Decoder.deliver_of_none Decoder.decode_nil
  refine ⟨rfl, by rw [hdeliver]; rfl, fun rest hrest => ?_⟩
  rw [hdeliver] at hrest
  cases hrest
  exact .inl ⟨rfl, rfl⟩

/-- A run of reads that end where they may follows the reference on the whole stream. -/
theorem follows_exec {s : Session} {reads : List (List UInt8)} {stream : List UInt8} {r : Rx}
    (h : Follows cfg calls s stream r) (hmeets : Meets (read cfg calls) (CleanCut cfg) r reads) :
    ∃ t, exec (read cfg calls) r reads = some t ∧ Follows cfg calls s (stream ++ reads.flatten) t := by
  induction reads generalizing stream r with
  | nil =>
    refine ⟨r, rfl, ?_⟩
    rw [List.flatten_nil, List.append_nil]
    exact h
  | cons bytes reads ih =>
    obtain ⟨t, ht, hfollows⟩ := h.read hmeets.1
    obtain ⟨u, hu, hend⟩ := ih hfollows (hmeets.2 t ht)
    refine ⟨u, exec_cons_eq_some.mpr ⟨t, ht, hu⟩, ?_⟩
    rw [List.flatten_cons, ← List.append_assoc]
    exact hend

end Loop

/-- Two ways of cutting a stream into reads that end where they may deliver the same events: those of the
whole frames of the stream, in order. -/
theorem reads_deliver_same (cfg : Config) (calls : List Event → List LocalCall) (s : Session)
    (reads reads' : List (List UInt8)) (hsame : reads.flatten = reads'.flatten)
    (hmeets : Meets (read cfg calls) (CleanCut cfg) (Rx.start s) reads)
    (hmeets' : Meets (read cfg calls) (CleanCut cfg) (Rx.start s) reads') :
    ∃ t t', exec (read cfg calls) (Rx.start s) reads = some t ∧
      exec (read cfg calls) (Rx.start s) reads' = some t' ∧
      t.session.log = (deliverAll cfg calls s reads.flatten).1.log ∧ t.session.log = t'.session.log := by
  obtain ⟨t, ht, hfollows⟩ := follows_exec (follows_start s) hmeets
  obtain ⟨t', ht', hfollows'⟩ := follows_exec (follows_start s) hmeets'
  refine ⟨t, t', ht, ht', ?_, ?_⟩
  · rw [hfollows.session, List.nil_append]
  · rw [hfollows.session, hfollows'.session, hsame]

/-- An open WebSocket on a 32-bit platform, for messages of up to eight bytes. -/
def openSession : Session := ⟨.open, false, [], .cont, false, [.onConnect true]⟩

def smallConfig : Config := ⟨false, 8, [], fun _ => false⟩

/-- A cut in a header and one in a payload. -/
theorem reads_deliver_same_text :
    ∃ t t', exec (read smallConfig fun _ => []) (Rx.start openSession)
        [[0x81], [0x03, 0x61], [0x62, 0x63, 0x82, 0x01, 0x64]] = some t ∧
      exec (read smallConfig fun _ => []) (Rx.start openSession)
        [[0x81, 0x03, 0x61, 0x62, 0x63, 0x82, 0x01, 0x64]] = some t' ∧
      t.session.log = t'.session.log := by
  obtain ⟨t, t', ht, ht', -, hlog⟩ := reads_deliver_same smallConfig (fun _ => []) openSession
    [[0x81], [0x03, 0x61], [0x62, 0x63, 0x82, 0x01, 0x64]] [[0x81, 0x03, 0x61, 0x62, 0x63, 0x82, 0x01, 0x64]]
    rfl (by decide) (by decide)
  exact ⟨t, t', ht, ht', hlog⟩

/-- A text and a binary message of one byte each: cut behind the first byte of the second header, the
second message arrives as text, since the byte in the front of the buffer is taken for the one kept. -/
theorem reads_deliver_other_opcode :
    ¬ ∀ (cfg : Config) (calls : List Event → List LocalCall) (reads reads' : List (List UInt8)),
      reads.flatten = reads'.flatten →
      (exec (read cfg calls) (Rx.start openSession) reads).map (·.session.log) =
        (exec (read cfg calls) (Rx.start openSession) reads').map (·.session.log) := by
  intro h
  exact absurd (h smallConfig (fun _ => []) [[0x81, 0x01, 0x61, 0x82], [0x01, 0x62]]
    [[0x81, 0x01, 0x61, 0x82, 0x01, 0x62]] rfl) (by decide)

end PjProject.WebSock
