import PjProject.ActiveSockRead
import Mathlib.Data.UInt

/-! What an application reads from a stream. While a read goes on, the front of the buffer holds what the last
call of `on_data_read` left, and the receive under way is for the rest of the buffer; a turn of the loop keeps
both. The end of the stream is reported rightly in every run in which no receive is served into a full buffer,
and wrongly in every other. -/

namespace PjProject.ActiveSockRead

section Buffer

theorem length_contents (pkt : Nat → UInt8) (n : Nat) : (contents pkt n).length = n := by
  rw [contents, List.length_map, List.length_range]

/-- Bytes stored behind the first `n` follow them. -/
theorem contents_store (pkt : Nat → UInt8) (n : Nat) (l : List UInt8) :
    contents (store pkt n l) (n + l.length) = contents pkt n ++ l := by
  apply List.ext_getElem
  · rw [length_contents, List.length_append, length_contents]
  · intro i hi hi'
    rw [length_contents] at hi
    simp only [contents, List.getElem_map, List.getElem_range, store]
    by_cases hn : i < n
    · rw [if_neg (by omega), List.getElem_append_left (by rw [List.length_map, List.length_range]; exact hn)]
      rw [List.getElem_map, List.getElem_range]
    · have hlen : i - n < l.length := by omega
      rw [if_pos (by omega), List.getElem_append_right (by rw [List.length_map, List.length_range]; omega),
        List.getD_eq_getElem?_getD, List.getElem?_eq_getElem hlen, Option.getD_some]
      simp only [List.length_map, List.length_range]

/-- The remainder, moved to the front, is the tail of what was shown. -/
theorem contents_moved {pkt pkt' : Nat → UInt8} {size left : Nat} (hle : left ≤ size)
    (h : ∀ i < left, pkt' i = pkt (size - left + i)) : contents pkt' left = (contents pkt size).drop (size - left) := by
  apply List.ext_getElem
  · rw [length_contents, List.length_drop, length_contents]
    omega
  · intro i hi hi'
    rw [length_contents] at hi
    simp only [contents, List.getElem_map, List.getElem_range, List.getElem_drop]
    exact h i hi

theorem Answer.left_le (ans : Answer) (streamOriented : Bool) (size : Nat) : ans.left streamOriented size ≤ size := by
  unfold Answer.left
  split
  · split <;> omega
  · omega

end Buffer

section Steps

variable {cfg : Config} {s t : State}

/-- The receive that is called for or pending is for the rest of the buffer. -/
def State.Rest (s : State) : Phase → Prop
  | .recv off len _ => off = s.size ∧ len = s.maxSize - s.size
  | .pending off len => off = s.size ∧ len = s.maxSize - s.size
  | .stopped => True

/-- While the read goes on, the front of the buffer has what the last call left. -/
structure Inv (cfg : Config) (s : State) : Prop where
  pos : 0 < s.maxSize
  size_le : s.phase ≠ .stopped → s.size ≤ s.maxSize
  rest : s.Rest s.phase
  unset : cfg.onDataRead = false → s.shown = [] ∧ (s.phase ≠ .stopped → s.size = 0)
  front : s.phase ≠ .stopped → contents s.pkt s.size = tailOf s.shown
  reassembled : Reassembled s.shown

/-- What a turn finds: the read goes on with what was received behind the tail of the last call. -/
structure Ready (cfg : Config) (s : State) (recv : Recv) : Prop where
  pos : 0 < s.maxSize
  size_le : s.size + recv.data.length ≤ s.maxSize
  unset : cfg.onDataRead = false → s.shown = [] ∧ s.size = 0
  front : contents s.pkt (s.size + recv.data.length) = tailOf s.shown ++ recv.data
  reassembled : Reassembled s.shown

/-- Only bytes change the size, and only behind it. -/
theorem Inv.ready (h : Inv cfg s) {off len : Nat} (hoff : off = s.size) (hlen : len = s.maxSize - s.size)
    (hgoes : s.phase ≠ .stopped) {recv : Recv} (hserves : Serves cfg len recv) : Ready cfg (deliver s off recv) recv := by
  have hle := h.size_le hgoes
  have hdata : recv.data.length ≤ s.maxSize - s.size := by
    cases recv with
    | bytes l => exact hlen ▸ hserves.1
    | closed => exact Nat.zero_le _
    | error e => exact Nat.zero_le _
  refine ⟨h.pos, ?_, fun hunset => ⟨(h.unset hunset).1, (h.unset hunset).2 hgoes⟩, ?_, h.reassembled⟩
  · unfold deliver
    simp only
    omega
  · rw [hoff]
    exact (contents_store s.pkt s.size recv.data).trans (congrArg (· ++ recv.data) (h.front hgoes))

/-- The read goes on from here: what a turn leaves when it does not stop. -/
structure Goes (cfg : Config) (s : State) : Prop where
  pos : 0 < s.maxSize
  size_le : s.size ≤ s.maxSize
  unset : cfg.onDataRead = false → s.shown = [] ∧ s.size = 0
  front : contents s.pkt s.size = tailOf s.shown
  reassembled : Reassembled s.shown

theorem Goes.readNext (h : Goes cfg s) : Inv cfg (readNext cfg s) where
  pos := h.pos
  size_le _ := h.size_le
  rest := ⟨rfl, rfl⟩
  unset hunset := ⟨(h.unset hunset).1, fun _ => (h.unset hunset).2⟩
  front _ := h.front
  reassembled := h.reassembled

theorem Goes.stop (h : Goes cfg s) : Inv cfg s.stop where
  pos := h.pos
  size_le hgoes := absurd rfl hgoes
  rest := trivial
  unset hunset := ⟨(h.unset hunset).1, fun hgoes => absurd rfl hgoes⟩
  front hgoes := absurd rfl hgoes
  reassembled := h.reassembled

/-- The callback is shown the tail of the last call and what was received; what it leaves is in front. -/
theorem Ready.notify {recv : Recv} (h : Ready cfg s recv) {ans : Answer} (hmoved : Moved cfg s recv ans)
    (status : Status) :
    Goes cfg (ActiveSockRead.notify cfg { s with size := s.size + recv.data.length } status recv ans).1 := by
  unfold ActiveSockRead.notify
  by_cases hset : cfg.onDataRead = true
  · rw [if_pos hset]
    have hleft := ans.left_le cfg.streamOriented (s.size + recv.data.length)
    refine ⟨h.pos, hleft.trans h.size_le, fun hunset => ?_, ?_, h.front, h.reassembled⟩
    · rw [hset] at hunset
      cases hunset
    · rw [tailOf]
      simp only [length_contents]
      exact contents_moved hleft hmoved
  · rw [if_neg hset]
    have hunset := h.unset ((Bool.not_eq_true _).mp hset)
    refine ⟨h.pos, Nat.zero_le _, fun _ => ⟨hunset.1, rfl⟩, ?_, h.reassembled⟩
    simp only [hunset.1]
    rfl

/-- An error that is not reported leaves the buffer as it was. -/
theorem Ready.goes {recv : Recv} (h : Ready cfg s recv) (hnone : recv.data = []) : Goes cfg s := by
  have hle := h.size_le
  have hfront := h.front
  rw [hnone] at hle hfront
  refine ⟨h.pos, hle, h.unset, ?_, h.reassembled⟩
  rw [List.append_nil] at hfront
  exact hfront

theorem Ready.readFailed {recv : Recv} (h : Ready cfg s recv) (hnone : recv.data = []) {ans : Answer}
    (hmoved : Moved cfg s recv ans) (status : Status) : Inv cfg (ActiveSockRead.readFailed cfg s status recv ans) := by
  have hgoes := h.notify hmoved status
  have hsize : ({ s with size := s.size + recv.data.length } : State) = s := by rw [hnone]; rfl
  rw [hsize] at hgoes
  unfold ActiveSockRead.readFailed
  generalize ActiveSockRead.notify cfg s status recv ans = r at hgoes
  obtain ⟨next, ret⟩ := r
  cases ret with
  | false => exact hgoes.stop
  | true =>
    simp only
    split
    · exact hgoes.stop
    · exact hgoes.readNext

theorem Ready.turn {recv : Recv} (h : Ready cfg s recv) {ans : Answer} (hmoved : Moved cfg s recv ans) :
    Inv cfg (ActiveSockRead.turn cfg s recv ans) := by
  have hdone : recv.data = [] ∨ 0 < recv.data.length := by
    cases hdata : recv.data with
    | nil => exact .inl rfl
    | cons b l => exact .inr (Nat.succ_pos _)
  cases recv with
  | error e =>
    rw [ActiveSockRead.turn]
    split
    · exact (h.goes rfl).readNext
    · exact h.readFailed rfl hmoved _
  | closed =>
    have hnot : ¬ 0 < Recv.closed.data.length := Nat.lt_irrefl 0
    rw [ActiveSockRead.turn, if_neg hnot]
    · exact h.readFailed rfl hmoved _
    · exact nofun
  | bytes l =>
    rw [ActiveSockRead.turn]
    · split
      · rename_i hpos
        have hgoes := h.notify hmoved .success
        generalize ActiveSockRead.notify cfg { s with size := s.size + (Recv.bytes l).data.length } .success (.bytes l)
          ans = r at hgoes
        obtain ⟨next, ret⟩ := r
        cases ret with
        | false => exact hgoes.stop
        | true => exact hgoes.readNext
      · rename_i hnot
        exact h.readFailed (hdone.resolve_right hnot) hmoved _
    · exact nofun

theorem Inv.start {mem : Nat → UInt8} {buffSize : Nat} (hbuff : 0 < buffSize) : Inv cfg (startRead mem buffSize) where
  pos := hbuff
  size_le _ := Nat.zero_le _
  rest := ⟨rfl, rfl⟩
  unset _ := ⟨rfl, fun _ => rfl⟩
  front _ := rfl
  reassembled := trivial

theorem Inv.received (h : Inv cfg s) {off len : Nat} (hoff : off = s.size) (hlen : len = s.maxSize - s.size)
    (hgoes : s.phase ≠ .stopped) {recv : Recv} {ans : Answer} (hserves : Serves cfg len recv)
    (hmoved : Moved cfg (deliver s off recv) recv ans) (loop : Nat) :
    Inv cfg (turn cfg { deliver s off recv with loop := loop } recv ans) := by
  have hready := h.ready hoff hlen hgoes hserves
  have hagain : Ready cfg { deliver s off recv with loop := loop } recv :=
    ⟨hready.pos, hready.size_le, hready.unset, hready.front, hready.reassembled⟩
  exact hagain.turn hmoved

theorem Inv.step (h : Inv cfg s) {a : Action} (hstep : ActiveSockRead.step cfg s a = some t) : Inv cfg t := by
  have hrest := h.rest
  cases a with
  | immediate recv ans =>
    rw [ActiveSockRead.step] at hstep
    split at hstep
    · rename_i off len hphase
      rw [hphase] at hrest
      obtain ⟨⟨hserves, hmoved⟩, hnext⟩ := Option.ite_none_right_eq_some.mp hstep
      rw [← Option.some.inj hnext]
      exact h.received hrest.1 hrest.2 (by rw [hphase]; exact nofun) hserves hmoved s.loop
    · cases hstep
  | pend =>
    rw [ActiveSockRead.step] at hstep
    split at hstep
    · rename_i off len _ hphase
      rw [hphase] at hrest
      have hgoes : s.phase ≠ .stopped := by
        rw [hphase]
        exact nofun
      rw [← Option.some.inj hstep]
      exact ⟨h.pos, fun _ => h.size_le hgoes, hrest, fun hunset => ⟨(h.unset hunset).1, fun _ => (h.unset hunset).2 hgoes⟩,
        fun _ => h.front hgoes, h.reassembled⟩
    · cases hstep
  | cancelled =>
    rw [ActiveSockRead.step] at hstep
    split at hstep
    · rename_i hphase
      have hgoes : s.phase ≠ .stopped := by
        rw [hphase]
        exact nofun
      have hgo : Goes cfg s := ⟨h.pos, h.size_le hgoes, fun hunset => ⟨(h.unset hunset).1, (h.unset hunset).2 hgoes⟩,
        h.front hgoes, h.reassembled⟩
      rw [← Option.some.inj hstep]
      exact hgo.stop
    · cases hstep
  | complete recv ans =>
    rw [ActiveSockRead.step] at hstep
    split at hstep
    · rename_i off len hphase
      rw [hphase] at hrest
      have hgoes : s.phase ≠ .stopped := by
        rw [hphase]
        exact nofun
      obtain ⟨⟨hserves, hmoved⟩, hnext⟩ := Option.ite_none_right_eq_some.mp hstep
      rw [← Option.some.inj hnext]
      split
      · exact ⟨h.pos, fun hgo => absurd rfl hgo, trivial,
          fun hunset => ⟨(h.unset hunset).1, fun hgo => absurd rfl hgo⟩,
          fun hgo => absurd rfl hgo, h.reassembled⟩
      · exact h.received hrest.1 hrest.2 hgoes hserves hmoved 0
    · cases hstep
  | shutdown =>
    rw [ActiveSockRead.step] at hstep
    rw [← Option.some.inj hstep]
    exact ⟨h.pos, h.size_le, hrest, h.unset, h.front, h.reassembled⟩

end Steps

section Ended

variable {cfg : Config} {s t : State}

/-- The end of the stream was reported only where a receive found it. -/
def Ended (shown : List Shown) : Prop := ∀ call ∈ shown, call.status = .eof → call.recv = .closed

theorem ended_cons {call : Shown} {shown : List Shown} :
    Ended (call :: shown) ↔ Ended shown ∧ (call.status = .eof → call.recv = .closed) := by
  unfold Ended
  rw [List.forall_mem_cons, and_comm]

theorem ended_notify (s : State) (status : Status) (recv : Recv) (ans : Answer) :
    Ended (notify cfg s status recv ans).1.shown ↔
      Ended s.shown ∧ (cfg.onDataRead = true → status = .eof → recv = .closed) := by
  unfold notify
  by_cases hset : cfg.onDataRead = true
  · rw [if_pos hset]
    exact ended_cons.trans (and_congr_right fun _ => ⟨fun h _ => h, fun h => h hset⟩)
  · rw [if_neg hset]
    exact (and_iff_left fun h => absurd h hset).symm

theorem readFailed_shown (s : State) (status : Status) (recv : Recv) (ans : Answer) :
    (readFailed cfg s status recv ans).shown = (notify cfg s status recv ans).1.shown := by
  unfold readFailed
  generalize notify cfg s status recv ans = r
  obtain ⟨next, ret⟩ := r
  cases ret with
  | false => rfl
  | true =>
    simp only
    split <;> rfl

/-- A turn on a stream reports its end falsely when it is given no bytes for a receive that found some. -/
theorem ended_turn (hstream : cfg.streamOriented = true) (s : State) (recv : Recv) (ans : Answer) :
    Ended (turn cfg s recv ans).shown ↔ Ended s.shown ∧ (cfg.onDataRead = true → recv ≠ .bytes []) := by
  cases recv with
  | error e =>
    have hne : cfg.onDataRead = true → Recv.error e ≠ .bytes [] := nofun
    rw [turn, and_iff_left hne]
    split
    · exact Iff.rfl
    · rw [readFailed_shown, ended_notify]
      exact and_iff_left nofun
  | closed =>
    have hnot : ¬ 0 < Recv.closed.data.length := Nat.lt_irrefl 0
    have hne : cfg.onDataRead = true → Recv.closed ≠ .bytes [] := nofun
    rw [turn, if_neg hnot, readFailed_shown, ended_notify, and_iff_left hne]
    · exact and_iff_left fun _ _ => rfl
    · exact nofun
  | bytes l =>
    rw [turn]
    swap
    · exact nofun
    cases l with
    | nil =>
      have hnot : ¬ 0 < (Recv.bytes []).data.length := Nat.lt_irrefl 0
      rw [if_neg hnot, readFailed_shown, ended_notify, if_pos hstream]
      refine and_congr_right fun _ => ⟨fun h hset => ?_, fun h hset => absurd rfl (h hset)⟩
      have hclosed := h hset rfl
      cases hclosed
    | cons b l =>
      have hpos : 0 < (Recv.bytes (b :: l)).data.length := Nat.succ_pos _
      have hne : cfg.onDataRead = true → Recv.bytes (b :: l) ≠ .bytes [] := nofun
      have hended := @ended_notify cfg { s with size := s.size + (Recv.bytes (b :: l)).data.length } .success
        (.bytes (b :: l)) ans
      rw [and_iff_left nofun] at hended
      rw [if_pos hpos, and_iff_left hne, ← hended]
      generalize notify cfg { s with size := s.size + (Recv.bytes (b :: l)).data.length } .success (.bytes (b :: l))
        ans = r
      obtain ⟨next, ret⟩ := r
      cases ret <;> exact Iff.rfl

/-- A receive brings no bytes exactly where it was for none. -/
theorem Inv.hasRoom_iff (h : Inv cfg s) (hstream : cfg.streamOriented = true) {len : Nat} (hlen : len = s.maxSize - s.size)
    (hgoes : s.phase ≠ .stopped) {recv : Recv} (hserves : Serves cfg len recv) :
    (cfg.onDataRead = true → recv ≠ .bytes []) ↔ ∀ l, recv = .bytes l → s.size < s.maxSize := by
  have hle := h.size_le hgoes
  constructor
  · intro hne l hl
    by_contra hfull
    rw [hl] at hserves hne
    have hnil : l = [] := List.eq_nil_of_length_eq_zero (by have := hserves.1; omega)
    have hset : cfg.onDataRead = true := by
      by_contra hunset
      have hzero := (h.unset ((Bool.not_eq_true _).mp hunset)).2 hgoes
      have hpos := h.pos
      omega
    exact hne hset (congrArg Recv.bytes hnil)
  · intro hroom _ hnil
    rw [hnil] at hserves
    have hlt := hroom [] hnil
    rcases hserves.2 rfl with hzero | hdatagram
    · omega
    · rw [hstream] at hdatagram
      cases hdatagram

theorem Inv.sound (h : Inv cfg s) (hended : Ended s.shown) : Sound s where
  inside off len hphase := by
    have hrest := h.rest
    have hbound : ∀ phase, s.phase = phase → s.Rest phase → phase ≠ .stopped → s.size ≤ s.maxSize :=
      fun phase hp _ hne => h.size_le (hp ▸ hne)
    rcases hphase with ⟨alwaysAsync, hphase⟩ | hphase
    · rw [hphase] at hrest
      have hle := hbound _ hphase hrest nofun
      obtain ⟨hoff, hlen⟩ := hrest
      omega
    · rw [hphase] at hrest
      have hle := hbound _ hphase hrest nofun
      obtain ⟨hoff, hlen⟩ := hrest
      omega
  reassembled := h.reassembled
  ended := hended

/-- A step from a sound state leads to a sound state exactly when it serves no receive into a full buffer. -/
theorem Inv.step_sound_iff (h : Inv cfg s) (hstream : cfg.streamOriented = true) (hsound : Sound s) {a : Action}
    (hstep : ActiveSockRead.step cfg s a = some t) : Sound t ↔ HasRoom s a := by
  have hnext := h.step hstep
  have hiff : Sound t ↔ Ended t.shown := ⟨Sound.ended, hnext.sound⟩
  have hrest := h.rest
  rw [hiff]
  cases a with
  | immediate recv ans =>
    rw [ActiveSockRead.step] at hstep
    split at hstep
    · rename_i off len hphase
      rw [hphase] at hrest
      obtain ⟨⟨hserves, hmoved⟩, hnext⟩ := Option.ite_none_right_eq_some.mp hstep
      have hroom := h.hasRoom_iff hstream hrest.2 (by rw [hphase]; exact nofun) hserves
      rw [← Option.some.inj hnext, ended_turn hstream, hroom]
      refine (and_iff_right hsound.ended).trans ?_
      cases recv with
      | bytes l => exact ⟨fun hall => hall l rfl, fun hlt _ _ => hlt⟩
      | closed => exact iff_of_true nofun trivial
      | error e => exact iff_of_true nofun trivial
    · cases hstep
  | pend =>
    rw [ActiveSockRead.step] at hstep
    split at hstep
    · rw [← Option.some.inj hstep]
      exact iff_of_true hsound.ended trivial
    · cases hstep
  | cancelled =>
    rw [ActiveSockRead.step] at hstep
    split at hstep
    · rw [← Option.some.inj hstep]
      exact iff_of_true hsound.ended trivial
    · cases hstep
  | complete recv ans =>
    rw [ActiveSockRead.step] at hstep
    split at hstep
    · rename_i off len hphase
      rw [hphase] at hrest
      obtain ⟨⟨hserves, hmoved⟩, hnext⟩ := Option.ite_none_right_eq_some.mp hstep
      have hroom := h.hasRoom_iff hstream hrest.2 (by rw [hphase]; exact nofun) hserves
      rw [← Option.some.inj hnext]
      by_cases hdown : s.shutdown = true
      · rw [if_pos hdown]
        refine iff_of_true hsound.ended ?_
        cases recv with
        | bytes l => exact .inr hdown
        | closed => trivial
        | error e => trivial
      · rw [if_neg hdown, ended_turn hstream, hroom]
        refine (and_iff_right hsound.ended).trans ?_
        cases recv with
        | bytes l => exact ⟨fun hall => .inl (hall l rfl), fun hlt _ _ => hlt.resolve_right hdown⟩
        | closed => exact iff_of_true nofun trivial
        | error e => exact iff_of_true nofun trivial
    · cases hstep
  | shutdown =>
    rw [ActiveSockRead.step] at hstep
    rw [← Option.some.inj hstep]
    exact iff_of_true hsound.ended trivial

end Ended

/-- In every run of a read from a stream, the application is shown the stream, and its end where it ends, in
every state reached, exactly when no receive is served while the buffer is full. -/
theorem stream_sound_iff {cfg : Config} (hstream : cfg.streamOriented = true) {mem : Nat → UInt8} {buffSize : Nat}
    (hbuff : 0 < buffSize) {acts : List Action} {s : State} (hrun : exec (step cfg) (startRead mem buffSize) acts = some s) :
    (∀ n v, exec (step cfg) (startRead mem buffSize) (acts.take n) = some v → Sound v) ↔
      Meets (step cfg) HasRoom (startRead mem buffSize) acts := by
  have hinv : Inv cfg (startRead mem buffSize) := Inv.start hbuff
  refine forall_take_iff_meets ?_ hinv (hinv.sound fun call hcall => by cases hcall) hrun
  intro s a t h hsound hstep
  exact ⟨h.step hstep, h.step_sound_iff hstream hsound hstep⟩

/-- A stream socket with its callback set. -/
def streamCfg : Config := ⟨true, true, 50, false⟩

/-- An answer that leaves so many bytes of what was shown, `a`, `b`, `c` in the buffer. -/
def leaves (remainder : Nat) (a b c : UInt8) : Answer := ⟨true, remainder, fun i => [a, b, c].getD i 0, false⟩

/-- Three bytes of which one is left, and two more behind it, in a buffer of four. -/
def readsOn : List Action :=
  [.pend, .complete (.bytes [7, 8, 9]) (leaves 1 9 0 0), .immediate (.bytes [10, 11]) (leaves 0 0 0 0), .pend,
    .complete .closed (leaves 0 0 0 0)]

theorem stream_sound_readsOn : ∃ s, exec (step streamCfg) (startRead 0 4) readsOn = some s ∧
    s.shown.map Shown.data = [[], [9, 10, 11], [7, 8, 9]] ∧ Sound s := by
  have hsome := Option.some_get (x := exec (step streamCfg) (startRead 0 4) readsOn) (by decide)
  refine ⟨_, hsome.symm, by decide, ?_⟩
  exact (stream_sound_iff (Eq.refl _) (by decide) hsome.symm).mpr (by decide) 5 _ hsome.symm

/-- The callback leaves all of a full buffer, and the next receive is taken for the end of the stream. -/
theorem full_buffer_taken_for_end : ∃ s,
    exec (step streamCfg) (startRead 0 3) [.pend, .complete (.bytes [7, 8, 9]) (leaves 3 7 8 9),
      .immediate (.bytes []) (leaves 0 0 0 0)] = some s ∧
    s.shown.map Shown.status = [.eof, .success] ∧ ¬Sound s := by
  have hsome := Option.some_get (x := exec (step streamCfg) (startRead 0 3) [.pend,
    .complete (.bytes [7, 8, 9]) (leaves 3 7 8 9), .immediate (.bytes []) (leaves 0 0 0 0)]) (by decide)
  refine ⟨_, hsome.symm, by decide, fun hsound => ?_⟩
  have hended : ∀ call ∈ ((exec (step streamCfg) (startRead 0 3) [.pend,
      .complete (.bytes [7, 8, 9]) (leaves 3 7 8 9), .immediate (.bytes []) (leaves 0 0 0 0)]).get (by decide)).shown,
      call.status = .eof → call.recv = .closed := hsound.ended
  revert hended
  decide

end PjProject.ActiveSockRead
