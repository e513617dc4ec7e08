import PjProject.ActiveSock

/-! Whole-data sends do not mix as long as a partial send is recorded while no other operation relies
on the record: every send then puts its bytes on the wire once and in order, and its own length is
reported for it. -/

set_option linter.unusedSectionVars false

namespace PjProject.ActiveSock

variable {Op D : Type} [DecidableEq D]

/-- The bytes of a buffer on the wire, in the order in which they were sent. -/
def State.sentBytes (s : State Op D) (data : D) : List Nat :=
  (s.wire.filter fun b => b.1 = data).map Prod.snd

/-- What an application expects of its sends. -/
structure WholeData (s : State Op D) : Prop where
  in_order : ∀ data len, (data, len) ∈ s.sends → ∃ sent, sent ≤ len ∧ s.sentBytes data = List.range sent
  reported : ∀ data size, (data, size) ∈ s.reported →
    (data, size) ∈ s.sends ∧ s.sentBytes data = List.range size
  one_length : (s.sends.map Prod.fst).Nodup
  one_report : (s.reported.map Prod.fst).Nodup
  finished : ∀ data len, (data, len) ∈ s.sends → (∀ op, (s.call op).1 = data → s.pc op = .idle) →
    (data, len) ∈ s.reported

/-- The operation is going to read the shared record. -/
def State.Relies (s : State Op D) (op : Op) : Prop := s.pc op ≠ .idle ∧ s.activesockData op = true

/-- What concerns one operation: its send, its `write_operation`, whether it relies on the shared
record, the record, and the bytes of its buffer on the wire. -/
structure View (D : Type) where
  data : D
  len : Nat
  writeOp : WriteOp D
  relies : Bool
  record : SendData D
  bytes : List Nat

def State.view (s : State Op D) (op : Op) : View D where
  data := (s.call op).1
  len := (s.call op).2
  writeOp := s.writeOp op
  relies := s.activesockData op
  record := s.sendData
  bytes := s.sentBytes (s.call op).1

namespace View

/-- What is in flight starts at `off`: the whole buffer, or the rest that is recorded. -/
def StartsAt (v : View D) (off : Nat) : Prop :=
  (off = 0 ∧ v.relies = false) ∨ (v.relies = true ∧ v.record = ⟨v.data, v.len, off⟩)

/-- The caller of `send_remaining` knows the length of the whole buffer. -/
def Knows (v : View D) : Caller → Prop
  | .activesockSend whole => whole = v.len
  | .onWriteComplete => True

/-- A call of `pj_ioqueue_send` is for what is left to send. -/
def Fits (v : View D) (data : D) (off size : Nat) : SendCall → Prop
  | .first => data = v.data ∧ off = 0 ∧ size = v.len ∧ v.bytes = [] ∧ v.relies = false
  | .remaining caller => data = v.data ∧ off + size = v.len ∧ 0 < size ∧ v.bytes = List.range off ∧
    v.relies = true ∧ v.record = ⟨v.data, v.len, off⟩ ∧ v.Knows caller

/-- The operation has put a prefix of its buffer on the wire and its rest is accounted for. -/
def Ok (v : View D) : Pc D → Prop
  | .idle => True
  | .ioqueueSend call data off size | .fastTrack call data off size | .enqueue call data off size =>
    v.Fits data off size call
  | .record data whole sent =>
    data = v.data ∧ whole = v.len ∧ sent < whole ∧ v.bytes = List.range sent ∧ v.relies = false
  | .sendRemaining caller => v.Knows caller ∧ v.relies = true ∧
    ∃ off, off < v.len ∧ v.record = ⟨v.data, v.len, off⟩ ∧ v.bytes = List.range off
  | .pending => v.writeOp.data = v.data ∧ v.writeOp.off + v.writeOp.size = v.len ∧
    v.writeOp.written ≤ v.writeOp.size ∧ v.bytes = List.range (v.writeOp.off + v.writeOp.written) ∧
    v.StartsAt v.writeOp.off ∧ (v.relies = true → 0 < v.writeOp.size)
  | .dispatched bytesSent => v.bytes = List.range v.len ∧
    ∃ off, off + bytesSent = v.len ∧ v.StartsAt off ∧ (v.relies = true → 0 < bytesSent)

/-- The record does not matter to an operation that does not rely on it. -/
theorem Ok.of_record {v : View D} {pc : Pc D} (h : v.Ok pc) (hrelies : v.relies = false)
    (r : SendData D) : View.Ok { v with record := r } pc := by
  cases pc with
  | idle => trivial
  | ioqueueSend call data off size | fastTrack call data off size | enqueue call data off size =>
    cases call with
    | first => exact h
    | remaining caller => exact absurd (hrelies.symm.trans h.2.2.2.2.1) (by decide)
  | record data whole sent => exact h
  | sendRemaining caller => exact absurd (hrelies.symm.trans h.2.1) (by decide)
  | pending =>
    obtain ⟨hdata, hlen, hwritten, hbytes, hstart, hpos⟩ := h
    refine ⟨hdata, hlen, hwritten, hbytes, .inl ⟨?_, hrelies⟩, hpos⟩
    exact hstart.elim And.left fun hr => absurd (hrelies.symm.trans hr.1) (by decide)
  | dispatched bytesSent =>
    obtain ⟨hbytes, off, hlen, hstart, hpos⟩ := h
    refine ⟨hbytes, off, hlen, .inl ⟨?_, hrelies⟩, hpos⟩
    exact hstart.elim And.left fun hr => absurd (hrelies.symm.trans hr.1) (by decide)

end View

structure Inv (s : State Op D) : Prop where
  one_length : (s.sends.map Prod.fst).Nodup
  one_report : (s.reported.map Prod.fst).Nodup
  unsent : ∀ data, data ∉ s.sends.map Prod.fst → s.sentBytes data = []
  reported : ∀ data size, (data, size) ∈ s.reported →
    (data, size) ∈ s.sends ∧ s.sentBytes data = List.range size
  call_mem : ∀ op, s.pc op ≠ .idle → s.call op ∈ s.sends
  call_inj : ∀ op op', s.pc op ≠ .idle → s.pc op' ≠ .idle → (s.call op).1 = (s.call op').1 → op = op'
  unreported : ∀ op, s.pc op ≠ .idle → (s.call op).1 ∉ s.reported.map Prod.fst
  accounted : ∀ data len, (data, len) ∈ s.sends →
    (data, len) ∈ s.reported ∨ ∃ op, s.pc op ≠ .idle ∧ s.call op = (data, len)
  list_nodup : s.writeList.Nodup
  list_pending : ∀ op, op ∈ s.writeList ↔ s.pc op = .pending
  one_relies : ∀ op op', s.Relies op → s.Relies op' → op = op'
  ok : ∀ op, (s.view op).Ok (s.pc op)

variable {s s' : State Op D} {op : Op}

/-- An operation that is not the one taking a step keeps its account. -/
theorem Inv.ok_other (h : Inv s) {o : Op} (hpc : s'.pc o = s.pc o) (hcall : s'.call o = s.call o)
    (hwriteOp : s'.writeOp o = s.writeOp o) (hdata : s'.activesockData o = s.activesockData o)
    (hbytes : s.pc o ≠ .idle → s'.sentBytes (s.call o).1 = s.sentBytes (s.call o).1)
    (hrecord : s.Relies o → s'.sendData = s.sendData) : (s'.view o).Ok (s'.pc o) := by
  rw [hpc]
  by_cases hidle : s.pc o = .idle
  · rw [hidle]
    trivial
  · have hview : s'.view o = { s.view o with record := s'.sendData } := by
      simp only [State.view, hcall, hwriteOp, hdata, hbytes hidle]
    rw [hview]
    cases hrelies : s.activesockData o with
    | true =>
      rw [hrecord ⟨hidle, hrelies⟩]
      exact h.ok o
    | false => exact (h.ok o).of_record hrelies _

theorem Inv.call_ne (h : Inv s) (hbusy : s.pc op ≠ .idle) {o : Op} (ho : o ≠ op) (hb : s.pc o ≠ .idle) :
    (s.call o).1 ≠ (s.call op).1 := fun he => ho (h.call_inj o op hb hbusy he)

/-- Bytes that go out of a buffer in progress are not those of an unsent one. -/
theorem Inv.unsent_of_bytes (h : Inv s) (hbusy : s.pc op ≠ .idle) (hsends : s'.sends = s.sends)
    (hbytes : ∀ data, data ≠ (s.call op).1 → s'.sentBytes data = s.sentBytes data) (data : D)
    (hdata : data ∉ s'.sends.map Prod.fst) : s'.sentBytes data = [] := by
  rw [hsends] at hdata
  rw [hbytes data fun he => hdata (he ▸ List.mem_map_of_mem (h.call_mem op hbusy))]
  exact h.unsent data hdata

/-- An operation takes a step and is not finished. The record may change only while no other operation
relies on it. -/
theorem Inv.advance (h : Inv s) {x : Pc D} (hbusy : s.pc op ≠ .idle) (hx : x ≠ .idle)
    (hpc : s'.pc op = x) (hpcs : ∀ o, o ≠ op → s'.pc o = s.pc o) (hcall : s'.call = s.call)
    (hsends : s'.sends = s.sends) (hreported : s'.reported = s.reported)
    (hbytes : ∀ data, data ≠ (s.call op).1 → s'.sentBytes data = s.sentBytes data)
    (hwriteOp : ∀ o, o ≠ op → s'.writeOp o = s.writeOp o)
    (hdata : ∀ o, o ≠ op → s'.activesockData o = s.activesockData o)
    (hrecord : (s'.sendData = s.sendData ∧ (s'.activesockData op = true → s.activesockData op = true)) ∨
      ∀ o, o ≠ op → ¬ s.Relies o)
    (hnodup : s'.writeList.Nodup) (hpending : ∀ o, o ∈ s'.writeList ↔ s'.pc o = .pending)
    (hok : (s'.view op).Ok x) : Inv s' := by
  have hidle : ∀ o, s'.pc o = .idle ↔ s.pc o = .idle := by
    intro o
    by_cases ho : o = op
    · subst ho
      rw [hpc]
      exact ⟨fun hi => absurd hi hx, fun hi => absurd hi hbusy⟩
    · rw [hpcs o ho]
  have hrelies : ∀ o, o ≠ op → (s'.Relies o ↔ s.Relies o) := fun o ho => by
    rw [State.Relies, State.Relies, hpcs o ho, hdata o ho]
  constructor
  · exact hsends ▸ h.one_length
  · exact hreported ▸ h.one_report
  · exact h.unsent_of_bytes hbusy hsends hbytes
  · intro data size hmem
    rw [hreported] at hmem
    rw [hsends, hbytes data fun he => h.unreported op hbusy (he ▸ List.mem_map_of_mem hmem)]
    exact h.reported data size hmem
  · intro o ho
    rw [hcall, hsends]
    exact h.call_mem o (mt (hidle o).mpr ho)
  · intro o o' ho ho' he
    rw [hcall] at he
    exact h.call_inj o o' (mt (hidle o).mpr ho) (mt (hidle o').mpr ho') he
  · intro o ho
    rw [hcall, hreported]
    exact h.unreported o (mt (hidle o).mpr ho)
  · intro data len hmem
    rw [hsends] at hmem
    rw [hreported, hcall]
    exact (h.accounted data len hmem).imp_right fun ⟨o, hb, hc⟩ => ⟨o, mt (hidle o).mp hb, hc⟩
  · exact hnodup
  · exact hpending
  · intro o o' ho ho'
    by_cases hoop : o = op <;> by_cases hoop' : o' = op
    · rw [hoop, hoop']
    · rcases hrecord with ⟨-, hkeep⟩ | hnone
      · exact h.one_relies o o' ⟨hoop ▸ hbusy, hoop ▸ hkeep (hoop ▸ ho.2)⟩ ((hrelies o' hoop').mp ho')
      · exact absurd ((hrelies o' hoop').mp ho') (hnone o' hoop')
    · rcases hrecord with ⟨-, hkeep⟩ | hnone
      · exact h.one_relies o o' ((hrelies o hoop).mp ho) ⟨hoop' ▸ hbusy, hoop' ▸ hkeep (hoop' ▸ ho'.2)⟩
      · exact absurd ((hrelies o hoop).mp ho) (hnone o hoop)
    · exact h.one_relies o o' ((hrelies o hoop).mp ho) ((hrelies o' hoop').mp ho')
  · intro o
    by_cases ho : o = op
    · rw [ho, hpc]
      exact hok
    · refine h.ok_other (hpcs o ho) (congrFun hcall o) (hwriteOp o ho) (hdata o ho)
        (fun hb => hbytes _ (h.call_ne hbusy ho hb)) fun hr => ?_
      exact hrecord.elim And.left fun hnone => absurd hr (hnone o ho)

/-- A step of an operation that is not on `write_list` leaves the list. -/
theorem Inv.pending_of_pcs (h : Inv s) (hpcs : ∀ o, o ≠ op → s'.pc o = s.pc o)
    (hlist : s'.writeList = s.writeList) (hnot : s.pc op ≠ .pending) (hnot' : s'.pc op ≠ .pending) (o : Op) :
    o ∈ s'.writeList ↔ s'.pc o = .pending := by
  rw [hlist, h.list_pending o]
  by_cases ho : o = op
  · rw [ho]
    exact ⟨fun hp => absurd hp hnot, fun hp => absurd hp hnot'⟩
  · rw [hpcs o ho]

/-- An operation is finished: all of its buffer is on the wire and its length is reported. -/
theorem Inv.finish (h : Inv s) (hbusy : s.pc op ≠ .idle) (hpc : s'.pc op = .idle)
    (hpcs : ∀ o, o ≠ op → s'.pc o = s.pc o) (hcall : s'.call = s.call) (hsends : s'.sends = s.sends)
    (hreported : s'.reported = s.call op :: s.reported)
    (hbytes : ∀ data, data ≠ (s.call op).1 → s'.sentBytes data = s.sentBytes data)
    (hall : s'.sentBytes (s.call op).1 = List.range (s.call op).2)
    (hwriteOp : ∀ o, o ≠ op → s'.writeOp o = s.writeOp o)
    (hdata : ∀ o, o ≠ op → s'.activesockData o = s.activesockData o)
    (hrecord : s'.sendData = s.sendData ∨ ∀ o, o ≠ op → ¬ s.Relies o)
    (hlist : s'.writeList = s.writeList) (hnot : s.pc op ≠ .pending) : Inv s' := by
  have hbusy' : ∀ o, s'.pc o ≠ .idle → o ≠ op ∧ s.pc o ≠ .idle := by
    intro o ho
    have hne : o ≠ op := fun he => ho (he ▸ hpc)
    exact ⟨hne, hpcs o hne ▸ ho⟩
  have hrelies : ∀ o, s'.Relies o → o ≠ op ∧ s.Relies o := fun o ho =>
    have ⟨hoop, hb⟩ := hbusy' o ho.1
    ⟨hoop, hb, hdata o hoop ▸ ho.2⟩
  constructor
  · exact hsends ▸ h.one_length
  · rw [hreported, List.map_cons]
    exact List.nodup_cons.mpr ⟨h.unreported op hbusy, h.one_report⟩
  · exact h.unsent_of_bytes hbusy hsends hbytes
  · intro data size hmem
    rw [hreported] at hmem
    rw [hsends]
    rcases List.mem_cons.mp hmem with hcur | hmem
    · rw [show data = (s.call op).1 from congrArg Prod.fst hcur, hall,
        show size = (s.call op).2 from congrArg Prod.snd hcur]
      exact ⟨h.call_mem op hbusy, rfl⟩
    · rw [hbytes data fun he => h.unreported op hbusy (he ▸ List.mem_map_of_mem hmem)]
      exact h.reported data size hmem
  · intro o ho
    rw [hcall, hsends]
    exact h.call_mem o (hbusy' o ho).2
  · intro o o' ho ho' he
    rw [hcall] at he
    exact h.call_inj o o' (hbusy' o ho).2 (hbusy' o' ho').2 he
  · intro o ho
    obtain ⟨hoop, hb⟩ := hbusy' o ho
    rw [hcall, hreported, List.map_cons]
    exact List.not_mem_cons_of_ne_of_not_mem (h.call_ne hbusy hoop hb) (h.unreported o hb)
  · intro data len hmem
    rw [hsends] at hmem
    rw [hreported, hcall]
    rcases h.accounted data len hmem with hrep | ⟨o, hb, hc⟩
    · exact .inl (List.mem_cons_of_mem _ hrep)
    · by_cases ho : o = op
      · exact .inl (List.mem_cons.mpr (.inl (ho ▸ hc.symm)))
      · exact .inr ⟨o, (hpcs o ho).symm ▸ hb, hc⟩
  · exact hlist ▸ h.list_nodup
  · exact h.pending_of_pcs hpcs hlist hnot fun hp => by cases hpc.symm.trans hp
  · intro o o' ho ho'
    exact h.one_relies o o' (hrelies o ho).2 (hrelies o' ho').2
  · intro o
    by_cases ho : o = op
    · rw [ho, hpc]
      trivial
    · refine h.ok_other (hpcs o ho) (congrFun hcall o) (hwriteOp o ho) (hdata o ho)
        (fun hb => hbytes _ (h.call_ne hbusy ho hb)) fun hr => ?_
      exact hrecord.elim id fun hnone => absurd hr (hnone o ho)

theorem sentBytes_transmit_of_ne (s : State Op D) {data data' : D} (off n : Nat) (hne : data' ≠ data) :
    (s.transmit data off n).sentBytes data' = s.sentBytes data' := by
  simp [State.sentBytes, State.transmit, List.filter_append, List.filter_map, Function.comp_def, hne.symm]

/-- A buffer of which the first `off` bytes were sent has its next `n` sent. -/
theorem sentBytes_transmit {data : D} {off : Nat} (hbytes : s.sentBytes data = List.range off) (n : Nat) :
    (s.transmit data off n).sentBytes data = List.range (off + n) := by
  have hnew : (s.transmit data off n).sentBytes data = s.sentBytes data ++ List.range' off n := by
    simp [State.sentBytes, State.transmit, List.filter_append, List.filter_map, Function.comp_def]
  rw [hnew, hbytes, List.range_eq_range', List.range_eq_range']
  have happend : List.range' 0 off ++ List.range' (0 + off) n = List.range' 0 (off + n) :=
    List.range'_append_1
  rwa [Nat.zero_add] at happend

variable [DecidableEq Op]

theorem goto_of_ne (s : State Op D) (pc : Pc D) {o : Op} (ho : o ≠ op) : (s.goto op pc).pc o = s.pc o :=
  Function.update_of_ne ho ..

theorem goto_self (s : State Op D) (pc : Pc D) : (s.goto op pc).pc op = pc := Function.update_self ..

/-- The operation moves on within its thread. -/
theorem Inv.goto (h : Inv s) {x : Pc D} (hbusy : s.pc op ≠ .idle) (hnot : s.pc op ≠ .pending)
    (hx : x ≠ .idle) (hxp : x ≠ .pending) (hok : (s.view op).Ok x) : Inv (s.goto op x) :=
  have hpcs : ∀ o, o ≠ op → (s.goto op x).pc o = s.pc o := fun _ ho => goto_of_ne s x ho
  h.advance hbusy hx (goto_self s x) hpcs rfl rfl rfl (fun _ _ => rfl) (fun _ _ => rfl) (fun _ _ => rfl)
    (.inl ⟨rfl, id⟩) h.list_nodup (h.pending_of_pcs hpcs rfl hnot (by rwa [goto_self])) hok

/-- The first `pj_ioqueue_send` of an operation sends a part or all of the buffer. -/
theorem Inv.first_success (h : Inv s) {data : D} {off size n : Nat}
    (hpc : s.pc op = .fastTrack .first data off size) (hn : accepts size n) :
    Inv (sendSuccess (s.transmit data off n) op data size n .first) := by
  have hbusy : s.pc op ≠ .idle := by simp [hpc]
  have hnot : s.pc op ≠ .pending := by simp [hpc]
  have hok := h.ok op
  rw [hpc] at hok
  obtain ⟨rfl, rfl, rfl, hbytes, hrelies⟩ := hok
  have hsent : (s.transmit (s.call op).1 0 n).sentBytes (s.call op).1 = List.range n := by
    have hnone : s.sentBytes (s.call op).1 = List.range 0 := hbytes
    simpa using sentBytes_transmit hnone n
  simp only [sendSuccess]
  split
  · next hall =>
      refine h.finish hbusy (goto_self _ _) (fun o ho => goto_of_ne _ _ ho) rfl rfl ?_
        (fun _ hne => sentBytes_transmit_of_ne s 0 n hne) ?_ (fun _ _ => rfl) (fun _ _ => rfl) (.inl rfl) rfl hnot
      · exact congrArg (· :: s.reported) (Prod.ext rfl hall)
      · exact hall ▸ hsent
  · next hpart =>
      have hpcs : ∀ o, o ≠ op → ((s.transmit (s.call op).1 0 n).goto op
          (.record (s.call op).1 (s.call op).2 n)).pc o = s.pc o := fun _ ho => goto_of_ne _ _ ho
      refine h.advance hbusy (x := .record (s.call op).1 (s.call op).2 n) (by simp) (goto_self _ _) hpcs
        rfl rfl rfl (fun _ hne => sentBytes_transmit_of_ne s 0 n hne) (fun _ _ => rfl) (fun _ _ => rfl)
        (.inl ⟨rfl, id⟩) h.list_nodup (h.pending_of_pcs hpcs rfl hnot (by simp [goto_self])) ?_
      exact ⟨rfl, rfl, Nat.lt_of_le_of_ne hn.1 hpart, hsent, hrelies⟩

/-- A later `pj_ioqueue_send` of an operation, from the shared record. -/
theorem Inv.remaining_success (h : Inv s) {caller : Caller} {data : D} {off size n : Nat}
    (hpc : s.pc op = .fastTrack (.remaining caller) data off size) (hn : accepts size n) :
    Inv (sendSuccess (s.transmit data off n) op data size n (.remaining caller)) := by
  have hbusy : s.pc op ≠ .idle := by simp [hpc]
  have hnot : s.pc op ≠ .pending := by simp [hpc]
  have hok := h.ok op
  rw [hpc] at hok
  obtain ⟨hdata, hlen, hpos, hbytes, hrelies, hrecord, hknows⟩ := hok
  obtain rfl : data = (s.call op).1 := hdata
  have hlen : off + size = (s.call op).2 := hlen
  have hbytes : s.sentBytes (s.call op).1 = List.range off := hbytes
  have hrecord : s.sendData = ⟨(s.call op).1, (s.call op).2, off⟩ := hrecord
  have hsole : ∀ o, o ≠ op → ¬ s.Relies o := fun o ho hr => ho (h.one_relies o op hr ⟨hbusy, hrelies⟩)
  have hsent := sentBytes_transmit hbytes n
  have hmore : (s.transmit (s.call op).1 off n).sendData.sent + n = off + n := by
    rw [show (s.transmit (s.call op).1 off n).sendData = s.sendData from rfl, hrecord]
  have hwhole : (s.transmit (s.call op).1 off n).sendData.len = (s.call op).2 := by
    rw [show (s.transmit (s.call op).1 off n).sendData = s.sendData from rfl, hrecord]
  simp only [sendSuccess, hmore, hwhole]
  split
  · next hpart =>
      refine h.advance hbusy (x := .sendRemaining caller) (by simp) (goto_self _ _)
        (fun _ ho => goto_of_ne _ _ ho) rfl rfl rfl (fun _ hne => sentBytes_transmit_of_ne s off n hne)
        (fun _ _ => rfl) (fun _ _ => rfl) (.inr hsole) h.list_nodup
        (h.pending_of_pcs (fun _ ho => goto_of_ne _ _ ho) rfl hnot (by simp [goto_self])) ?_
      refine ⟨hknows, hrelies, off + n, hpart, ?_, hsent⟩
      simp [State.view, State.goto, State.transmit, hrecord]
  · next hall =>
      have hdone : off + n = (s.call op).2 := by
        have hle := hn.1
        omega
      cases caller with
      | activesockSend whole =>
        refine h.finish hbusy (goto_self _ _) (fun o ho => goto_of_ne _ _ ho) rfl rfl ?_
          (fun _ hne => sentBytes_transmit_of_ne s off n hne) (hdone ▸ hsent) (fun _ _ => rfl) (fun _ _ => rfl)
          (.inr hsole) rfl hnot
        exact congrArg (· :: s.reported) (Prod.ext rfl hknows)
      | onWriteComplete =>
        refine h.finish hbusy (goto_self _ _) (fun o ho => goto_of_ne _ _ ho) rfl rfl ?_
          (fun _ hne => sentBytes_transmit_of_ne s off n hne) (hdone ▸ hsent) (fun _ _ => rfl)
          (fun _ ho => Function.update_of_ne ho ..) (.inr hsole) rfl hnot
        exact congrArg (· :: s.reported) (Prod.ext rfl hdone)

/-- The operation is queued on `write_list`. -/
theorem Inv.enqueue (h : Inv s) {call : SendCall} {data : D} {off size : Nat}
    (hpc : s.pc op = .enqueue call data off size) :
    Inv { s.goto op .pending with
      writeList := s.writeList ++ [op]
      writeOp := Function.update s.writeOp op ⟨data, off, size, 0⟩ } := by
  have hbusy : s.pc op ≠ .idle := by simp [hpc]
  have hnot : op ∉ s.writeList := by simp [h.list_pending, hpc]
  have hok := h.ok op
  rw [hpc] at hok
  refine h.advance hbusy (x := .pending) (by simp) (goto_self _ _) (fun _ ho => goto_of_ne _ _ ho) rfl rfl
    rfl (fun _ _ => rfl) (fun _ ho => Function.update_of_ne ho ..) (fun _ _ => rfl) (.inl ⟨rfl, id⟩) ?_
    (fun o => ?_) ?_
  · exact List.nodup_append.mpr ⟨h.list_nodup, List.nodup_singleton op, by
      intro a ha b hb
      rw [List.mem_singleton.mp hb]
      exact fun he => hnot (he ▸ ha)⟩
  · by_cases ho : o = op
    · simp [ho, State.goto]
    · simp [ho, State.goto, h.list_pending]
  · have hview : State.view { s.goto op .pending with
        writeList := s.writeList ++ [op]
        writeOp := Function.update s.writeOp op ⟨data, off, size, 0⟩ } op =
        { s.view op with writeOp := ⟨data, off, size, 0⟩ } := by
      simp only [State.view, State.goto, Function.update_self]
      rfl
    rw [hview]
    cases call with
    | first =>
      obtain ⟨hdata, hoff, hsize, hbytes, hrelies⟩ := hok
      have hlen : off + size = (s.view op).len := by omega
      refine ⟨hdata, hlen, Nat.zero_le _, by simpa [hoff] using hbytes, .inl ⟨hoff, hrelies⟩, fun hr => ?_⟩
      exact absurd (hrelies.symm.trans hr) (by decide)
    | remaining caller =>
      obtain ⟨hdata, hlen, hpos, hbytes, hrelies, hrecord, -⟩ := hok
      exact ⟨hdata, hlen, Nat.zero_le _, hbytes, .inr ⟨hrelies, hrecord⟩, fun _ => hpos⟩

theorem Inv.record (h : Inv s) {data : D} {whole sent : Nat} (hpc : s.pc op = .record data whole sent)
    (hsole : ∀ o, o ≠ op → ¬ s.Relies o) :
    Inv { s.goto op (.sendRemaining (.activesockSend whole)) with
      sendData := ⟨data, whole, sent⟩
      activesockData := Function.update s.activesockData op true } := by
  have hbusy : s.pc op ≠ .idle := by simp [hpc]
  have hnot : s.pc op ≠ .pending := by simp [hpc]
  have hok := h.ok op
  rw [hpc] at hok
  obtain ⟨rfl, rfl, hpart, hbytes, -⟩ := hok
  refine h.advance hbusy (x := .sendRemaining (.activesockSend (s.view op).len)) (by simp) (goto_self _ _)
    (fun _ ho => goto_of_ne _ _ ho) rfl rfl rfl (fun _ _ => rfl) (fun _ _ => rfl)
    (fun _ ho => Function.update_of_ne ho ..) (.inr hsole) h.list_nodup
    (h.pending_of_pcs (fun _ ho => goto_of_ne _ _ ho) rfl hnot (by simp [goto_self])) ?_
  exact ⟨rfl, Function.update_self .., sent, hpart, rfl, hbytes⟩

/-- `ioqueue_on_write_complete`. -/
theorem Inv.onWriteComplete (h : Inv s) {bytesSent : Nat} (hpc : s.pc op = .dispatched bytesSent) :
    Inv (onWriteComplete s op bytesSent) := by
  have hbusy : s.pc op ≠ .idle := by simp [hpc]
  have hnot : s.pc op ≠ .pending := by simp [hpc]
  have hok := h.ok op
  rw [hpc] at hok
  obtain ⟨hbytes, off, hlen, ⟨hoff, hrelies⟩ | ⟨hrelies, hrecord⟩, hpos⟩ := hok
  · have hno : s.activesockData op = false := hrelies
    simp only [ActiveSock.onWriteComplete, hno, Bool.false_eq_true, and_false, if_false]
    refine h.finish hbusy (goto_self _ _) (fun o ho => goto_of_ne _ _ ho) rfl rfl ?_ (fun _ _ => rfl) hbytes
      (fun _ _ => rfl) (fun _ _ => rfl) (.inl rfl) rfl hnot
    have hall : bytesSent = (s.call op).2 := by
      rw [hoff, Nat.zero_add] at hlen
      exact hlen
    exact congrArg (· :: s.reported) (Prod.ext rfl hall)
  · have hyes : s.activesockData op = true := hrelies
    have hsole : ∀ o, o ≠ op → ¬ s.Relies o := fun o ho hr => ho (h.one_relies o op hr ⟨hbusy, hyes⟩)
    have hrec : s.sendData = ⟨(s.call op).1, (s.call op).2, off⟩ := hrecord
    have hall : off + bytesSent = (s.call op).2 := hlen
    simp only [ActiveSock.onWriteComplete, hyes, hpos hrelies, hrec, hall, and_self, if_true]
    exact h.finish hbusy (goto_self _ _) (fun o ho => goto_of_ne _ _ ho) rfl rfl rfl (fun _ _ => rfl) hbytes
      (fun _ _ => rfl) (fun _ ho => Function.update_of_ne ho ..) (.inr hsole) rfl hnot

/-- Poll sends for the first operation of `write_list`. -/
theorem Inv.dispatch (h : Inv s) {n : Nat} (hstep : dispatchWriteEvent s n = some s') : Inv s' := by
  cases hlist : s.writeList with
  | nil =>
    simp only [dispatchWriteEvent, hlist] at hstep
    cases hstep
  | cons op rest =>
    have hpc : s.pc op = .pending := (h.list_pending op).mp (hlist ▸ List.mem_cons_self)
    have hbusy : s.pc op ≠ .idle := by simp [hpc]
    have hok := h.ok op
    rw [hpc] at hok
    obtain ⟨hdata, hlen, hwritten, hbytes, hstart, hpos⟩ := hok
    have hdata : (s.writeOp op).data = (s.call op).1 := hdata
    have hlen : (s.writeOp op).off + (s.writeOp op).size = (s.call op).2 := hlen
    have hwritten : (s.writeOp op).written ≤ (s.writeOp op).size := hwritten
    have hsent : (s.write op n).sentBytes (s.call op).1 =
        List.range ((s.writeOp op).off + (s.writeOp op).written + n) := by
      rw [← hdata]
      exact sentBytes_transmit (hdata.symm ▸ hbytes) n
    have hother : ∀ data, data ≠ (s.call op).1 → (s.write op n).sentBytes data = s.sentBytes data :=
      fun data hne => sentBytes_transmit_of_ne s _ n (hdata ▸ hne)
    simp only [dispatchWriteEvent, hlist, Option.ite_none_right_eq_some] at hstep
    obtain ⟨hn, hstep⟩ := hstep
    have hle := hn.1
    split at hstep
    · next hall =>
        obtain rfl := Option.some.inj hstep
        obtain ⟨hnot, hnodup⟩ := List.nodup_cons.mp (hlist ▸ h.list_nodup)
        refine h.advance hbusy (x := .dispatched (s.writeOp op).size) (by simp) (goto_self _ _)
          (fun _ ho => goto_of_ne _ _ ho) rfl rfl rfl hother (fun _ ho => Function.update_of_ne ho ..)
          (fun _ _ => rfl) (.inl ⟨rfl, id⟩) hnodup (fun o => ?_) ?_
        · have hmem := h.list_pending o
          rw [hlist] at hmem
          by_cases ho : o = op
          · simp [ho, State.goto, hnot]
          · simpa [ho, State.goto, State.write, State.transmit] using hmem
        · refine ⟨?_, (s.writeOp op).off, hlen, hstart, hpos⟩
          have hwhole : (s.writeOp op).off + (s.writeOp op).written + n = (s.call op).2 := by omega
          exact hsent.trans (congrArg List.range hwhole)
    · next hpart =>
        obtain rfl := Option.some.inj hstep
        refine h.advance hbusy (x := .pending) (by simp) hpc (fun _ _ => rfl) rfl rfl rfl hother
          (fun _ ho => Function.update_of_ne ho ..) (fun _ _ => rfl) (.inl ⟨rfl, id⟩) h.list_nodup
          h.list_pending ?_
        have hview : (s.write op n).view op = { s.view op with
            writeOp := { s.writeOp op with written := (s.writeOp op).written + n }
            bytes := List.range ((s.writeOp op).off + (s.writeOp op).written + n) } := by
          rw [State.view, show (s.write op n).call = s.call from rfl, hsent]
          simp [State.view, State.write, State.transmit]
        rw [hview]
        have hfits : (s.writeOp op).written + n ≤ (s.writeOp op).size := by omega
        exact ⟨hdata, hlen, hfits, congrArg List.range (Nat.add_assoc ..), hstart, hpos⟩

/-- `pj_activesock_send` is called with a key that is not in use. -/
theorem Inv.send (h : Inv s) {data : D} {len : Nat} (hidle : s.pc op = .idle)
    (hnew : data ∉ s.sends.map Prod.fst) :
    Inv { s.goto op (.ioqueueSend .first data 0 len) with
      activesockData := Function.update s.activesockData op false
      call := Function.update s.call op (data, len)
      sends := (data, len) :: s.sends } := by
  have hbusy : ∀ o, s.pc o ≠ .idle → o ≠ op := fun o hb he => hb (he ▸ hidle)
  have hnewcall : ∀ o, s.pc o ≠ .idle → (s.call o).1 ≠ data := fun o hb he =>
    hnew (he ▸ List.mem_map_of_mem (h.call_mem o hb))
  constructor
  · exact List.nodup_cons.mpr ⟨hnew, h.one_length⟩
  · exact h.one_report
  · intro d hd
    exact h.unsent d fun hmem => hd (List.mem_cons_of_mem _ hmem)
  · intro d size hmem
    exact ⟨List.mem_cons_of_mem _ (h.reported d size hmem).1, (h.reported d size hmem).2⟩
  · intro o hb
    by_cases ho : o = op
    · simp [ho]
    · simp only [State.goto, Function.update_of_ne ho] at hb ⊢
      exact List.mem_cons_of_mem _ (h.call_mem o hb)
  · intro o o' hb hb' he
    by_cases ho : o = op <;> by_cases ho' : o' = op
    · rw [ho, ho']
    · simp only [State.goto, ho, Function.update_self, Function.update_of_ne ho'] at hb' he
      exact absurd he.symm (hnewcall o' hb')
    · simp only [State.goto, ho', Function.update_self, Function.update_of_ne ho] at hb he
      exact absurd he (hnewcall o hb)
    · simp only [State.goto, Function.update_of_ne ho, Function.update_of_ne ho'] at hb hb' he
      exact h.call_inj o o' hb hb' he
  · intro o hb
    by_cases ho : o = op
    · simp only [ho, Function.update_self]
      intro hmem
      obtain ⟨⟨d, size⟩, hrep, rfl⟩ := List.mem_map.mp hmem
      exact hnew (List.mem_map_of_mem (h.reported d size hrep).1)
    · simp only [State.goto, Function.update_of_ne ho] at hb ⊢
      exact h.unreported o hb
  · intro d l hmem
    rcases List.mem_cons.mp hmem with heq | hmem
    · exact .inr ⟨op, by simp [State.goto], (Function.update_self ..).trans heq.symm⟩
    · refine (h.accounted d l hmem).imp_right fun ⟨o, hb, hc⟩ => ⟨o, ?_, ?_⟩
      · simpa only [State.goto, Function.update_of_ne (hbusy o hb)] using hb
      · simpa only [Function.update_of_ne (hbusy o hb)] using hc
  · exact h.list_nodup
  · exact h.pending_of_pcs (fun o ho => goto_of_ne s _ ho) rfl (by simp [hidle]) (by simp [State.goto])
  · have hrelies : ∀ o, State.Relies { s.goto op (.ioqueueSend .first data 0 len) with
        activesockData := Function.update s.activesockData op false
        call := Function.update s.call op (data, len)
        sends := (data, len) :: s.sends } o → s.Relies o := by
      rintro o ⟨hb, hr⟩
      by_cases ho : o = op
      · simp [ho] at hr
      · exact ⟨by simpa [State.goto, ho] using hb, by simpa [ho] using hr⟩
    intro o o' ho ho'
    exact h.one_relies o o' (hrelies o ho) (hrelies o' ho')
  · intro o
    by_cases ho : o = op
    · subst ho
      have hbytes : s.sentBytes data = [] := h.unsent data hnew
      simp only [State.goto, Function.update_self, State.view]
      exact ⟨rfl, rfl, rfl, hbytes, rfl⟩
    · exact h.ok_other (Function.update_of_ne ho ..) (Function.update_of_ne ho ..) rfl
        (Function.update_of_ne ho ..) (fun _ => rfl) fun _ => rfl

/-- The condition under which sends do not mix: a partial send is recorded while no other operation in
progress points to the record. -/
def RecordFree (s : State Op D) : Action Op D → Prop
  | .run op _ => (∃ data whole sent, s.pc op = .record data whole sent) → ∀ o, o ≠ op → ¬ s.Relies o
  | .send .. | .dispatch _ => True

/-- Every step that meets the condition keeps the account of every send. -/
theorem Inv.step {a : Action Op D} (h : Inv s) (hcond : RecordFree s a) (hstep : step s a = some s') : Inv s' := by
  cases a with
  | send op data len =>
    simp only [ActiveSock.step, Option.ite_none_right_eq_some, Option.some.injEq] at hstep
    obtain ⟨⟨hidle, hnew⟩, rfl⟩ := hstep
    exact h.send hidle hnew
  | dispatch n => exact h.dispatch hstep
  | run op sock =>
    simp only [ActiveSock.step] at hstep
    have hok := h.ok op
    cases hpc : s.pc op with
    | idle =>
      rw [hpc] at hstep
      cases hstep
    | ioqueueSend call data off size =>
      rw [hpc] at hstep hok
      obtain rfl := Option.some.inj hstep
      split <;> exact h.goto (by simp [hpc]) (by simp [hpc]) (by simp) (by simp) hok
    | fastTrack call data off size =>
      rw [hpc] at hstep hok
      cases sock with
      | none =>
        obtain rfl := Option.some.inj hstep
        exact h.goto (by simp [hpc]) (by simp [hpc]) (by simp) (by simp) hok
      | some n =>
        simp only [runOp, Option.ite_none_right_eq_some, Option.some.injEq] at hstep
        obtain ⟨hn, rfl⟩ := hstep
        cases call with
        | first => exact h.first_success hpc hn
        | remaining caller => exact h.remaining_success hpc hn
    | enqueue call data off size =>
      rw [hpc] at hstep
      obtain rfl := Option.some.inj hstep
      exact h.enqueue hpc
    | record data whole sent =>
      rw [hpc] at hstep
      obtain rfl := Option.some.inj hstep
      exact h.record hpc (hcond ⟨data, whole, sent, hpc⟩)
    | sendRemaining caller =>
      rw [hpc] at hstep hok
      simp only [runOp, Option.ite_none_right_eq_some, Option.some.injEq] at hstep
      obtain ⟨-, rfl⟩ := hstep
      obtain ⟨hknows, hrelies, off, hlt, hrecord, hbytes⟩ := hok
      have hrecord : s.sendData = ⟨(s.call op).1, (s.call op).2, off⟩ := hrecord
      have hlt : off < (s.call op).2 := hlt
      rw [hrecord]
      refine h.goto (by simp [hpc]) (by simp [hpc]) (by simp) (by simp) ?_
      have hsize : off + ((s.call op).2 - off) = (s.call op).2 := by omega
      exact ⟨rfl, hsize, Nat.sub_pos_of_lt hlt, hbytes, hrelies, hrecord, hknows⟩
    | pending =>
      rw [hpc] at hstep
      cases hstep
    | dispatched bytesSent =>
      rw [hpc] at hstep
      obtain rfl := Option.some.inj hstep
      exact h.onWriteComplete hpc

theorem inv_start (sendData : SendData D) (writeOp : Op → WriteOp D) (call : Op → D × Nat) :
    Inv (start sendData writeOp call) where
  one_length := List.nodup_nil
  one_report := List.nodup_nil
  unsent _ _ := rfl
  reported := nofun
  call_mem _ hb := absurd rfl hb
  call_inj _ _ hb := absurd rfl hb
  unreported _ hb := absurd rfl hb
  accounted := nofun
  list_nodup := List.nodup_nil
  list_pending _ := ⟨nofun, nofun⟩
  one_relies _ _ hr := absurd rfl hr.1
  ok _ := trivial

/-- The bytes of an operation in progress are a beginning of its buffer. -/
theorem View.Ok.in_order {v : View D} {pc : Pc D} (h : v.Ok pc) (hbusy : pc ≠ .idle) :
    ∃ sent, sent ≤ v.len ∧ v.bytes = List.range sent := by
  cases pc with
  | idle => exact absurd rfl hbusy
  | ioqueueSend call data off size | fastTrack call data off size | enqueue call data off size =>
    cases call with
    | first => exact ⟨0, Nat.zero_le _, h.2.2.2.1⟩
    | remaining caller =>
      obtain ⟨-, hlen, -, hbytes, -⟩ := h
      exact ⟨off, by omega, hbytes⟩
  | record data whole sent =>
    obtain ⟨-, hwhole, hlt, hbytes, -⟩ := h
    exact ⟨sent, by omega, hbytes⟩
  | sendRemaining caller =>
    obtain ⟨-, -, off, hlt, -, hbytes⟩ := h
    exact ⟨off, Nat.le_of_lt hlt, hbytes⟩
  | pending =>
    obtain ⟨-, hlen, hwritten, hbytes, -⟩ := h
    exact ⟨_, by omega, hbytes⟩
  | dispatched bytesSent => exact ⟨v.len, le_rfl, h.1⟩

theorem Inv.wholeData (h : Inv s) : WholeData s where
  in_order data len hmem := by
    rcases h.accounted data len hmem with hrep | ⟨op, hbusy, hcall⟩
    · exact ⟨len, le_rfl, (h.reported data len hrep).2⟩
    · obtain ⟨sent, hle, hbytes⟩ := (h.ok op).in_order hbusy
      rw [show (s.view op).len = len from congrArg Prod.snd hcall] at hle
      have hdata : (s.call op).1 = data := congrArg Prod.fst hcall
      exact ⟨sent, hle, hdata ▸ hbytes⟩
  reported := h.reported
  one_length := h.one_length
  one_report := h.one_report
  finished data len hmem hidle :=
    (h.accounted data len hmem).resolve_right fun ⟨op, hbusy, hcall⟩ =>
      hbusy (hidle op (congrArg Prod.fst hcall))

instance [Fintype Op] (s : State Op D) (a : Action Op D) : Decidable (RecordFree s a) :=
  match a with
  | .run op _ =>
    match hpc : s.pc op with
    | .record data whole sent =>
      decidable_of_iff (∀ o, o ≠ op → ¬ (s.pc o ≠ .idle ∧ s.activesockData o = true))
        ⟨fun h _ => h, fun h => h ⟨data, whole, sent, hpc⟩⟩
    | .idle | .ioqueueSend .. | .fastTrack .. | .enqueue .. | .sendRemaining _ | .pending | .dispatched _ =>
      .isTrue fun ⟨_, _, _, h⟩ => by rw [hpc] at h; cases h
  | .send .. | .dispatch _ => .isTrue trivial

section Sample

def sampleStart : State Bool Nat := start ⟨0, 0, 0⟩ (fun _ => ⟨0, 0, 0, 0⟩) fun _ => (0, 0)

/-- Of ten bytes four are sent at once, the rest is queued and sent by poll. -/
def partialSend : List (Action Bool Nat) :=
  [.send true 1 10, .run true none, .run true (some 4), .run true none, .run true none, .run true none,
    .run true none, .run true none, .dispatch 6]

/-- A second send of eight bytes is made, of which two are sent at once. -/
def secondSend : List (Action Bool Nat) :=
  [.send false 2 8, .run false none, .run false (some 2), .run false none, .run false none,
    .run false none, .run false none, .run false none]

end Sample

end PjProject.ActiveSock
