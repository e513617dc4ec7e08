import PjProject.IoqueueWrite

/-! No write completion is lost or given twice: what was accepted as pending is completed, still on
one of the lists, or in the hands of a thread that will call the callback. The clearing of the
callbacks at the end of `pj_ioqueue_unregister` is the one step that can break this. -/

set_option linter.unusedSectionVars false

namespace PjProject.IoqueueWrite

open Ioqueue

variable {Op T : Type}

/-- The frame is about to complete `op`. -/
def Frame.holds [DecidableEq Op] (op : Op) : Frame Op → Nat
  | .dispatch o | .noLockCall o | .post o | .drainOwnCall o _ | .drainListCall o => if o = op then 1 else 0
  | _ => 0

/-- The frame has an operation in hand and has yet to read the callback, without the lock. -/
def Frame.unread : Frame Op → Nat
  | .dispatch _ | .post _ => 1
  | _ => 0

/-- The frame will run the loop over `write_cb_list` in the thread of the write callback. -/
def Frame.dispatching : Frame Op → Nat
  | .dispatch _ | .noLock | .noLockCall _ => 1
  | _ => 0

/-- The frame belongs to `pj_ioqueue_unregister`. -/
def Frame.unregistering : Frame Op → Nat
  | .drain | .drainOwn | .drainOwnCall .. | .drainWait _ | .drainList | .drainListCall _ | .clear => 1
  | _ => 0

/-- The frame has found `write_list` drained. -/
def Frame.drained : Frame Op → Nat
  | .clear => 1
  | _ => 0

/-- The frame took a deferred operation while there was no callback. -/
def Frame.callbackless : Frame Op → Nat
  | .drainOwnCall _ false => 1
  | _ => 0

variable [DecidableEq Op] [Fintype T] [DecidableEq T]

def State.weigh (s : State Op T) (w : Frame Op → Nat) : Nat := ∑ t, ((s.stack t).map w).sum

/-- The operations accepted as pending that have not been completed. -/
def State.outstanding (s : State Op T) (op : Op) : Nat :=
  s.key.writeList.count op + s.key.writeCbList.count op + s.weigh (Frame.holds op)

theorem State.weigh_of_stack {s s' : State Op T} {t : T} {frames : List (Frame Op)}
    (hstack : s'.stack = Function.update s.stack t frames) (w : Frame Op → Nat) :
    s'.weigh w + ((s.stack t).map w).sum = s.weigh w + (frames.map w).sum := by
  unfold State.weigh
  rw [hstack]
  exact sum_update_add (fun stack : List (Frame Op) => (stack.map w).sum) s.stack t frames

structure Inv (s : State Op T) : Prop where
  accounted : ∀ op, s.returned.count (op, .pending) = s.completed.count op + s.outstanding op
  one_unregister : s.weigh Frame.unregistering + (if s.key.cb.onWriteComplete then 0 else 1) =
    if s.key.closing then 1 else 0
  cleared : s.key.cb.onWriteComplete = false →
    s.key.writeList = [] ∧ s.key.writeCbList = [] ∧ s.weigh Frame.unread = 0
  drained : 0 < s.weigh Frame.drained → s.key.writeList = []
  callbacks : s.weigh Frame.callbackless = 0
  concurrent : s.key.allowConcurrent = true →
    s.key.writeCallbackThread = none ∧ s.key.writeCbList = []
  one_thread : s.key.allowConcurrent = false →
    s.weigh Frame.dispatching = if s.key.writeCallbackThread.isSome then 1 else 0
  deferred : s.key.writeCbList ≠ [] → s.key.writeCallbackThread.isSome = true

theorem State.weigh_of_move {s s' : State Op T} {t : T} {rest : List (Frame Op)} (old new : List (Frame Op))
    (hold : s.stack t = old ++ rest) (hnew : s'.stack = Function.update s.stack t (new ++ rest))
    (w : Frame Op → Nat) : s'.weigh w + (old.map w).sum = s.weigh w + (new.map w).sum := by
  have hsum := State.weigh_of_stack hnew w
  rw [hold] at hsum
  simp only [List.map_append, List.sum_append] at hsum
  omega

theorem State.le_weigh {s : State Op T} {t : T} {frame : Frame Op} {rest : List (Frame Op)}
    (hs : s.stack t = frame :: rest) (w : Frame Op → Nat) : w frame ≤ s.weigh w := by
  have hpop : (s.goto t rest).stack = Function.update s.stack t rest := rfl
  have hsum := State.weigh_of_move [frame] [] hs hpop w
  simp only [List.map_cons, List.map_nil, List.sum_cons, List.sum_nil] at hsum
  omega

namespace Inv

variable {s : State Op T} {t : T} {frame : Frame Op} {rest : List (Frame Op)}

theorem callback_of_unread (h : Inv s) (hs : s.stack t = frame :: rest) (hunread : frame.unread = 1) :
    s.key.cb.onWriteComplete = true := by
  by_contra hcb
  have hle := State.le_weigh hs Frame.unread
  have hnone := (h.cleared (by simpa using hcb)).2.2
  omega

theorem callback_of_unregistering (h : Inv s) (hs : s.stack t = frame :: rest)
    (hun : frame.unregistering = 1) : s.key.cb.onWriteComplete = true ∧ s.key.closing = true := by
  have hle := State.le_weigh hs Frame.unregistering
  have hone := h.one_unregister
  constructor
  · by_contra hcb
    rw [if_neg hcb] at hone
    split at hone <;> omega
  · by_contra hclosing
    rw [if_neg hclosing] at hone
    omega

/-- A thread goes on without touching the key. -/
theorem of_move (h : Inv s) {s' : State Op T} (new : List (Frame Op)) (hs : s.stack t = frame :: rest)
    (hnew : s'.stack = Function.update s.stack t (new ++ rest)) (hkey : s'.key = s.key)
    (hreturned : s'.returned = s.returned) (hholds : ∀ op, s'.completed.count op + (new.map (Frame.holds op)).sum =
      s.completed.count op + frame.holds op)
    (hunregistering : (new.map Frame.unregistering).sum = frame.unregistering)
    (hunread : (new.map Frame.unread).sum ≤ frame.unread)
    (hdrained : (new.map Frame.drained).sum ≤ frame.drained ∨ s.key.writeList = [])
    (hcallbackless : (new.map Frame.callbackless).sum = 0)
    (hdispatching : (new.map Frame.dispatching).sum = frame.dispatching) : Inv s' := by
  have hweigh : ∀ w : Frame Op → Nat, s'.weigh w + w frame = s.weigh w + (new.map w).sum := fun w => by
    simpa using State.weigh_of_move [frame] new hs hnew w
  constructor
  · intro op
    have hbefore := h.accounted op
    have hsum := hweigh (Frame.holds op)
    have hdone := hholds op
    simp only [State.outstanding, hkey, hreturned] at hbefore ⊢
    omega
  · have hsum := hweigh Frame.unregistering
    rw [hkey, ← h.one_unregister]
    omega
  · intro hcb
    have hsum := hweigh Frame.unread
    rw [hkey] at hcb ⊢
    obtain ⟨hwrite, hdeferred, hnone⟩ := h.cleared hcb
    exact ⟨hwrite, hdeferred, by omega⟩
  · intro hpos
    have hsum := hweigh Frame.drained
    rw [hkey]
    exact hdrained.elim (fun hle => h.drained (by omega)) id
  · have hsum := hweigh Frame.callbackless
    have hnone := h.callbacks
    omega
  · rw [hkey]
    exact h.concurrent
  · intro hconc
    have hsum := hweigh Frame.dispatching
    rw [hkey] at hconc ⊢
    rw [← h.one_thread hconc]
    omega
  · rw [hkey]
    exact h.deferred

theorem count_complete (op : Op) (o : Op) (l : List Op) :
    (op :: l).count o = l.count o + Frame.holds o (.dispatch op) := by
  simp [Frame.holds, List.count_cons]

theorem run_callback (h : Inv s) (hs : s.stack t = .callback :: rest) : Inv (runFrame s t rest .callback) :=
  h.of_move [] hs rfl rfl rfl (fun _ => rfl) rfl le_rfl (.inl le_rfl) rfl rfl

theorem run_dispatch (h : Inv s) {op : Op} (hs : s.stack t = .dispatch op :: rest) :
    Inv (runFrame s t rest (.dispatch op)) := by
  simp only [runFrame, h.callback_of_unread hs rfl, if_true]
  exact h.of_move [.callback, .noLock] hs rfl rfl rfl (fun o => count_complete op o _) rfl
    (Nat.zero_le _) (.inl le_rfl) rfl rfl

theorem run_noLockCall (h : Inv s) {op : Op} (hs : s.stack t = .noLockCall op :: rest) :
    Inv (runFrame s t rest (.noLockCall op)) :=
  h.of_move [.callback, .noLock] hs rfl rfl rfl (fun o => count_complete op o _) rfl
    (Nat.zero_le _) (.inl le_rfl) rfl rfl

theorem run_post (h : Inv s) {op : Op} (hs : s.stack t = .post op :: rest) : Inv (runFrame s t rest (.post op)) := by
  simp only [runFrame, h.callback_of_unread hs rfl, if_true]
  exact h.of_move [.callback] hs rfl rfl rfl (fun o => count_complete op o _) rfl
    (Nat.zero_le _) (.inl le_rfl) rfl rfl

theorem run_drainListCall (h : Inv s) {op : Op} (hs : s.stack t = .drainListCall op :: rest) :
    Inv (runFrame s t rest (.drainListCall op)) := by
  simp only [runFrame, (h.callback_of_unregistering hs rfl).1, if_true]
  exact h.of_move [.callback, .drainList] hs rfl rfl rfl (fun o => count_complete op o _) rfl
    (Nat.zero_le _) (.inl le_rfl) rfl rfl

theorem run_drainOwnCall (h : Inv s) {op : Op} {cb : Bool} (hs : s.stack t = .drainOwnCall op cb :: rest) :
    Inv (runFrame s t rest (.drainOwnCall op cb)) := by
  have hcb : cb = true := by
    by_contra hcb
    have hle := State.le_weigh hs Frame.callbackless
    rw [h.callbacks, Bool.not_eq_true cb |>.mp hcb] at hle
    cases hle
  simp only [runFrame, hcb, if_true]
  exact h.of_move [.callback, .drainOwn] hs rfl rfl rfl (fun o => count_complete op o _) rfl
    (Nat.zero_le _) (.inl le_rfl) rfl rfl

/-- The unregistering thread goes from one of its loops to another. -/
theorem run_drain_goto (h : Inv s) (hs : s.stack t = frame :: rest) (next : Frame Op)
    (hholds : ∀ op, next.holds op = frame.holds op) (hunregistering : next.unregistering = frame.unregistering)
    (hunread : next.unread = 0) (hdrained : next.drained = 0 ∨ s.key.writeList = [])
    (hcallbackless : next.callbackless = 0) (hdispatching : next.dispatching = frame.dispatching) :
    Inv (s.goto t (next :: rest)) := by
  refine h.of_move [next] hs rfl rfl rfl (fun op => congrArg (s.completed.count op + ·) (hholds op))
    hunregistering ?_ ?_ hcallbackless hdispatching
  · exact Nat.le_trans (Nat.le_of_eq hunread) (Nat.zero_le _)
  · exact hdrained.imp_left fun hd => Nat.le_trans (Nat.le_of_eq hd) (Nat.zero_le _)

theorem of_take (h : Inv s) {s' : State Op T} {next : Frame Op} (op : Op) (hs : s.stack t = frame :: rest)
    (hstack : s'.stack = Function.update s.stack t (next :: rest)) (hreturned : s'.returned = s.returned)
    (hcompleted : s'.completed = s.completed) (hcb : s'.key.cb = s.key.cb)
    (hclosing : s'.key.closing = s.key.closing) (hconc : s'.key.allowConcurrent = s.key.allowConcurrent)
    (hthread : s'.key.writeCallbackThread = s.key.writeCallbackThread)
    (hlists : (s.key.writeList = op :: s'.key.writeList ∧ s'.key.writeCbList = s.key.writeCbList) ∨
      (s.key.writeCbList = op :: s'.key.writeCbList ∧ s'.key.writeList = s.key.writeList))
    (hcbset : s.key.cb.onWriteComplete = true) (hheld : ∀ o, frame.holds o = 0)
    (hnext : ∀ o, next.holds o = if op = o then 1 else 0)
    (hunregistering : next.unregistering = frame.unregistering) (hdrained : next.drained = 0)
    (hcallbackless : next.callbackless = 0) (hdispatching : next.dispatching = frame.dispatching) : Inv s' := by
  have hweigh : ∀ w : Frame Op → Nat, s'.weigh w + w frame = s.weigh w + w next := fun w => by
    simpa using State.weigh_of_move [frame] [next] hs hstack w
  constructor
  · intro o
    have hbefore := h.accounted o
    have hsum := hweigh (Frame.holds o)
    rw [hheld, hnext] at hsum
    simp only [State.outstanding, hreturned, hcompleted] at hbefore ⊢
    rcases hlists with ⟨hl, hl'⟩ | ⟨hl, hl'⟩ <;>
      simp only [hl, hl', List.count_cons, beq_iff_eq] at hbefore ⊢ <;> omega
  · have hsum := hweigh Frame.unregistering
    rw [hcb, hclosing, ← h.one_unregister]
    omega
  · intro hno
    rw [hcb, hcbset] at hno
    cases hno
  · intro hpos
    have hsum := hweigh Frame.drained
    have hnil := h.drained (by omega)
    rcases hlists with ⟨hl, -⟩ | ⟨-, hl⟩
    · exact absurd (hl.symm.trans hnil) (List.cons_ne_nil _ _)
    · exact hl.trans hnil
  · have hsum := hweigh Frame.callbackless
    have hnone := h.callbacks
    omega
  · intro hc
    rw [hconc] at hc
    obtain ⟨hnone, hnil⟩ := h.concurrent hc
    rcases hlists with ⟨-, hl⟩ | ⟨hl, -⟩
    · exact ⟨hthread.trans hnone, hl.trans hnil⟩
    · exact absurd (hl.symm.trans hnil) (List.cons_ne_nil _ _)
  · intro hc
    have hsum := hweigh Frame.dispatching
    rw [hconc] at hc
    rw [hthread, ← h.one_thread hc]
    omega
  · intro hne
    rw [hthread]
    rcases hlists with ⟨-, hl⟩ | ⟨hl, -⟩
    · exact h.deferred (hl ▸ hne)
    · exact h.deferred (hl ▸ List.cons_ne_nil _ _)

theorem run_drainList (h : Inv s) (hs : s.stack t = .drainList :: rest) : Inv (runFrame s t rest .drainList) := by
  simp only [runFrame]
  split
  · next hnil => exact h.run_drain_goto hs .clear (fun _ => rfl) rfl rfl (.inr hnil) rfl rfl
  · next op ops hcons =>
      exact h.of_take op hs rfl rfl rfl rfl rfl rfl rfl (.inl ⟨hcons, rfl⟩)
        (h.callback_of_unregistering hs rfl).1 (fun _ => rfl) (fun _ => rfl) rfl rfl rfl rfl

theorem drainOwn_inv (h : Inv s) (hs : s.stack t = frame :: rest) (hframe : frame = .drain ∨ frame = .drainOwn) :
    Inv (drainOwn s t rest) := by
  have hcb : s.key.cb.onWriteComplete = true :=
    (h.callback_of_unregistering hs (by rcases hframe with rfl | rfl <;> rfl)).1
  unfold drainOwn
  split
  · rcases hframe with rfl | rfl <;>
      exact h.run_drain_goto hs .drainList (fun _ => rfl) rfl rfl (.inl rfl) rfl rfl
  · next op ops hcons =>
      rw [hcb]
      rcases hframe with rfl | rfl <;>
        exact h.of_take op hs rfl rfl rfl rfl rfl rfl rfl (.inr ⟨hcons, rfl⟩) hcb (fun _ => rfl)
          (fun _ => rfl) rfl rfl rfl rfl

theorem run_drain (h : Inv s) (hs : s.stack t = .drain :: rest) : Inv (runFrame s t rest .drain) := by
  simp only [runFrame]
  split
  · exact h.run_drain_goto hs .drainList (fun _ => rfl) rfl rfl (.inl rfl) rfl rfl
  · split
    · exact h.drainOwn_inv hs (.inl rfl)
    · exact h.run_drain_goto hs (.drainWait 0) (fun _ => rfl) rfl rfl (.inl rfl) rfl rfl

theorem run_drainWait (h : Inv s) {counter : Nat} (hs : s.stack t = .drainWait counter :: rest) :
    Inv (runFrame s t rest (.drainWait counter)) := by
  simp only [runFrame]
  split
  · exact h.run_drain_goto hs .drainList (fun _ => rfl) rfl rfl (.inl rfl) rfl rfl
  · exact h.run_drain_goto hs (.drainWait (counter + 1)) (fun _ => rfl) rfl rfl (.inl rfl) rfl rfl

/-- The thread of the callback finds `write_cb_list` empty and leaves. -/
theorem of_leave (h : Inv s) {s' : State Op T} (hs : s.stack t = .noLock :: rest)
    (hstack : s'.stack = Function.update s.stack t rest) (hreturned : s'.returned = s.returned)
    (hcompleted : s'.completed = s.completed)
    (hkey : s'.key = { s.key with writeCallbackThread := none }) (hnil : s.key.writeCbList = []) :
    Inv s' := by
  have hweigh : ∀ w : Frame Op → Nat, s'.weigh w + w .noLock = s.weigh w := fun w => by
    simpa using State.weigh_of_move [.noLock] [] hs hstack w
  constructor
  · intro op
    have hsum := hweigh (Frame.holds op)
    have hbefore := h.accounted op
    simp only [State.outstanding, hreturned, hcompleted, hkey] at hbefore ⊢
    simp only [Frame.holds] at hsum
    omega
  · have hsum : s'.weigh Frame.unregistering = s.weigh Frame.unregistering := hweigh Frame.unregistering
    simpa only [hkey, hsum] using h.one_unregister
  · intro hcb
    rw [hkey] at hcb ⊢
    obtain ⟨hwrite, hdeferred, hnone⟩ := h.cleared hcb
    have hsum := hweigh Frame.unread
    exact ⟨hwrite, hdeferred, by omega⟩
  · intro hpos
    have hsum := hweigh Frame.drained
    rw [hkey]
    exact h.drained (by omega)
  · have hsum := hweigh Frame.callbackless
    have hnone := h.callbacks
    omega
  · intro hconc
    rw [hkey] at hconc ⊢
    exact ⟨rfl, hnil⟩
  · intro hconc
    rw [hkey] at hconc ⊢
    have hsum := hweigh Frame.dispatching
    have hone := h.one_thread hconc
    simp only [Frame.dispatching] at hsum
    simp only [Option.isSome_none, Bool.false_eq_true, if_false]
    split at hone <;> omega
  · intro hne
    rw [hkey] at hne
    exact absurd hnil hne

/-- The loop over `write_cb_list` in the thread of the callback. -/
theorem run_noLock (h : Inv s) (hs : s.stack t = .noLock :: rest) : Inv (runFrame s t rest .noLock) := by
  cases hlist : s.key.writeCbList with
  | cons op ops =>
    have hcb : s.key.cb.onWriteComplete = true := by
      by_contra hcb
      have hnil := (h.cleared (by simpa using hcb)).2.1
      rw [hlist] at hnil
      cases hnil
    simp only [runFrame, dispatchWriteEventNoLock, hlist, hcb, if_true]
    exact h.of_take op hs rfl rfl rfl rfl rfl rfl rfl (.inr ⟨hlist, rfl⟩) hcb (fun _ => rfl)
      (fun _ => rfl) rfl rfl rfl rfl
  | nil =>
    have heq : runFrame s t rest .noLock =
        { s.goto t rest with key := { s.key with writeCallbackThread := none } } := by
      simp only [runFrame, dispatchWriteEventNoLock, hlist, State.enter, State.goto]
    rw [heq]
    exact h.of_leave hs rfl rfl rfl rfl hlist

/-- The callbacks are cleared when no thread has one to read and nothing is deferred. -/
theorem run_clear (h : Inv s) (hs : s.stack t = .clear :: rest) (hunread : s.weigh Frame.unread = 0)
    (hnil : s.key.writeCbList = []) : Inv (runFrame s t rest .clear) := by
  obtain ⟨hcb, hclosing⟩ := h.callback_of_unregistering hs rfl
  have hwrite : s.key.writeList = [] :=
    h.drained (Nat.lt_of_lt_of_le Nat.zero_lt_one (State.le_weigh hs Frame.drained))
  have hweigh : ∀ w : Frame Op → Nat, (runFrame s t rest .clear).weigh w + w .clear = s.weigh w :=
    fun w => by
      have hpop : (runFrame s t rest .clear).stack = Function.update s.stack t rest := rfl
      simpa using State.weigh_of_move [.clear] [] hs hpop w
  constructor
  · intro op
    have hsum : (runFrame s t rest .clear).weigh (Frame.holds op) = s.weigh (Frame.holds op) :=
      hweigh (Frame.holds op)
    have hbefore := h.accounted op
    simp only [State.outstanding, hsum] at hbefore ⊢
    exact hbefore
  · have hsum : (runFrame s t rest .clear).weigh Frame.unregistering + 1 = s.weigh Frame.unregistering :=
      hweigh Frame.unregistering
    have hone := h.one_unregister
    simp only [hcb, hclosing, if_true] at hone
    simp only [runFrame, State.goto, hclosing, Bool.false_eq_true, if_true, if_false] at hsum ⊢
    omega
  · intro _
    have hsum := hweigh Frame.unread
    exact ⟨hwrite, hnil, by omega⟩
  · intro _
    exact hwrite
  · have hsum := hweigh Frame.callbackless
    have hnone := h.callbacks
    omega
  · exact h.concurrent
  · intro hconc
    have hsum : (runFrame s t rest .clear).weigh Frame.dispatching = s.weigh Frame.dispatching :=
      hweigh Frame.dispatching
    rw [hsum]
    exact h.one_thread hconc
  · exact h.deferred

end Inv

/-- The condition under which no completion is lost: when `pj_ioqueue_unregister` clears the callbacks,
no thread is between taking an operation off a list and reading the callback, and no operation is left
on `write_cb_list`. -/
def ClearsLast (s : State Op T) : Action Op T → Prop
  | .run t => (s.stack t).head? = some .clear →
    (∀ u, ∀ frame ∈ s.stack u, frame.unread = 0) ∧ s.key.writeCbList = []
  | _ => True

instance (s : State Op T) (a : Action Op T) : Decidable (ClearsLast s a) :=
  match a with
  | .run t => inferInstanceAs (Decidable ((s.stack t).head? = some .clear →
      (∀ u, ∀ frame ∈ s.stack u, frame.unread = 0) ∧ s.key.writeCbList = []))
  | .sendFast .. | .send .. | .connect _ | .dispatchWrite .. | .post .. | .unregister _ =>
    inferInstanceAs (Decidable True)

theorem State.weigh_eq_zero {s : State Op T} {w : Frame Op → Nat}
    (hzero : ∀ u, ∀ frame ∈ s.stack u, w frame = 0) : s.weigh w = 0 := by
  refine Finset.sum_eq_zero fun u _ => List.sum_eq_zero fun n hn => ?_
  obtain ⟨frame, hframe, rfl⟩ := List.mem_map.mp hn
  exact hzero u frame hframe

theorem Inv.run {s : State Op T} {t : T} {frame : Frame Op} {rest : List (Frame Op)} (h : Inv s)
    (hcond : ClearsLast s (.run t)) (hs : s.stack t = frame :: rest) : Inv (runFrame s t rest frame) := by
  cases frame with
  | callback => exact h.run_callback hs
  | dispatch op => exact h.run_dispatch hs
  | noLock => exact h.run_noLock hs
  | noLockCall op => exact h.run_noLockCall hs
  | post op => exact h.run_post hs
  | drain => exact h.run_drain hs
  | drainOwn => exact h.drainOwn_inv hs (.inr rfl)
  | drainOwnCall op cb => exact h.run_drainOwnCall hs
  | drainWait counter => exact h.run_drainWait hs
  | drainList => exact h.run_drainList hs
  | drainListCall op => exact h.run_drainListCall hs
  | clear =>
    obtain ⟨hunread, hnil⟩ := hcond (by rw [hs]; rfl)
    exact h.run_clear hs (State.weigh_eq_zero hunread) hnil

theorem State.weigh_mono {s : State Op T} {w w' : Frame Op → Nat} (hle : ∀ frame, w frame ≤ w' frame) :
    s.weigh w ≤ s.weigh w' :=
  Finset.sum_le_sum fun _ _ => List.sum_le_sum fun frame _ => hle frame

theorem State.weigh_of_call {s s' : State Op T} {t : T} {new : List (Frame Op)}
    (hstack : s'.stack = Function.update s.stack t (new ++ s.stack t)) (w : Frame Op → Nat) :
    s'.weigh w = s.weigh w + (new.map w).sum := by
  simpa using State.weigh_of_move [] new (List.nil_append (s.stack t)).symm hstack w

structure SameWrites (key key' : Key Op T) : Prop where
  writeList : key'.writeList = key.writeList
  writeCbList : key'.writeCbList = key.writeCbList
  cb : key'.cb = key.cb
  closing : key'.closing = key.closing
  allowConcurrent : key'.allowConcurrent = key.allowConcurrent
  writeCallbackThread : key'.writeCallbackThread = key.writeCallbackThread

theorem SameWrites.refl (key : Key Op T) : SameWrites key key := ⟨rfl, rfl, rfl, rfl, rfl, rfl⟩

namespace Inv

variable {s s' : State Op T} {t : T}

theorem callback_of_open (h : Inv s) (hopen : s.key.closing = false) :
    s.key.cb.onWriteComplete = true ∧ s.weigh Frame.unregistering = 0 := by
  have hone := h.one_unregister
  rw [hopen] at hone
  cases hcb : s.key.cb.onWriteComplete with
  | true => exact ⟨rfl, by simpa [hcb] using hone⟩
  | false => simp [hcb] at hone

theorem drained_of_open (h : Inv s) (hopen : s.key.closing = false) : s.weigh Frame.drained = 0 := by
  have hle : s.weigh Frame.drained ≤ s.weigh Frame.unregistering :=
    State.weigh_mono fun frame => by cases frame <;> simp [Frame.drained, Frame.unregistering]
  have hzero := (h.callback_of_open hopen).2
  omega

theorem of_idle (h : Inv s) (new : List (Frame Op))
    (hstack : s'.stack = Function.update s.stack t (new ++ s.stack t)) (hnew : new = [] ∨ new = [.callback])
    (hkey : SameWrites s.key s'.key)
    (hreturned : ∀ op, s'.returned.count (op, .pending) = s.returned.count (op, .pending))
    (hcompleted : s'.completed = s.completed) : Inv s' := by
  have hweigh : ∀ w : Frame Op → Nat, w .callback = 0 → s'.weigh w = s.weigh w := fun w hw => by
    rw [State.weigh_of_call hstack w]
    rcases hnew with rfl | rfl <;> simp [hw]
  constructor
  · intro op
    simp only [State.outstanding, hreturned, hcompleted, hkey.writeList, hkey.writeCbList,
      hweigh (Frame.holds op) rfl]
    exact h.accounted op
  · simpa only [hweigh Frame.unregistering rfl, hkey.cb, hkey.closing] using h.one_unregister
  · simpa only [hweigh Frame.unread rfl, hkey.cb, hkey.writeList, hkey.writeCbList] using h.cleared
  · simpa only [hweigh Frame.drained rfl, hkey.writeList] using h.drained
  · simpa only [hweigh Frame.callbackless rfl] using h.callbacks
  · simpa only [hkey.allowConcurrent, hkey.writeCallbackThread, hkey.writeCbList] using h.concurrent
  · simpa only [hweigh Frame.dispatching rfl, hkey.allowConcurrent, hkey.writeCallbackThread] using
      h.one_thread
  · simpa only [hkey.writeCallbackThread, hkey.writeCbList] using h.deferred

theorem of_pending (h : Inv s) {op : Op} (hopen : s.key.closing = false) (hstack : s'.stack = s.stack)
    (hreturned : s'.returned = (op, .pending) :: s.returned) (hcompleted : s'.completed = s.completed)
    (hkey : s'.key = { s.key with writeList := s.key.writeList ++ [op] }) : Inv s' := by
  have hweigh : ∀ w : Frame Op → Nat, s'.weigh w = s.weigh w := fun w => by
    simp only [State.weigh, hstack]
  have hcb := (h.callback_of_open hopen).1
  constructor
  · intro o
    have hbefore := h.accounted o
    simp only [State.outstanding, hreturned, hcompleted, hkey, hweigh, List.count_append, List.count_cons,
      List.count_nil, beq_iff_eq, Prod.mk.injEq, and_true] at hbefore ⊢
    omega
  · simpa only [hweigh, hkey] using h.one_unregister
  · intro hno
    simp only [hkey, hcb] at hno
    cases hno
  · intro hpos
    rw [hweigh, h.drained_of_open hopen] at hpos
    exact absurd hpos (Nat.lt_irrefl 0)
  · simpa only [hweigh] using h.callbacks
  · simpa only [hkey] using h.concurrent
  · simpa only [hweigh, hkey] using h.one_thread
  · simpa only [hkey] using h.deferred

/-- A thread takes a write off `write_list`; it has to complete it, or leaves it to the thread that is
in the callback. -/
theorem of_write_taken (h : Inv s) (new : List (Frame Op))
    (hmem : s.key.writeList ≠ []) (hstack : s'.stack = Function.update s.stack t (new ++ s.stack t))
    (hreturned : s'.returned = s.returned) (hcompleted : s'.completed = s.completed)
    (hcb : s'.key.cb = s.key.cb) (hclosing : s'.key.closing = s.key.closing)
    (hconc : s'.key.allowConcurrent = s.key.allowConcurrent)
    (hcount : ∀ o, s'.key.writeList.count o + s'.key.writeCbList.count o + (new.map (Frame.holds o)).sum =
      s.key.writeList.count o + s.key.writeCbList.count o) (hunregistering : (new.map Frame.unregistering).sum = 0)
    (hdrained : (new.map Frame.drained).sum = 0) (hcallbackless : (new.map Frame.callbackless).sum = 0)
    (hconcurrent : s.key.allowConcurrent = true →
      s'.key.writeCallbackThread = none ∧ s'.key.writeCbList = []) (hthread : s.key.allowConcurrent = false →
      (if s'.key.writeCallbackThread.isSome then 1 else 0) =
        (if s.key.writeCallbackThread.isSome then 1 else 0) + (new.map Frame.dispatching).sum)
    (hdeferred : s'.key.writeCbList ≠ [] → s'.key.writeCallbackThread.isSome = true) : Inv s' := by
  have hweigh := fun w => State.weigh_of_call hstack w
  constructor
  · intro o
    have hbefore := h.accounted o
    have hmoved := hcount o
    simp only [State.outstanding, hreturned, hcompleted, hweigh] at hbefore ⊢
    omega
  · simpa only [hweigh, hunregistering, hcb, hclosing, Nat.add_zero] using h.one_unregister
  · intro hno
    rw [hcb] at hno
    exact absurd (h.cleared hno).1 hmem
  · intro hpos
    rw [hweigh, hdrained] at hpos
    exact absurd (h.drained hpos) hmem
  · rw [hweigh, hcallbackless, h.callbacks]
  · simpa only [hconc] using hconcurrent
  · intro hc
    rw [hconc] at hc
    rw [hweigh, h.one_thread hc, hthread hc]
  · exact hdeferred

theorem unregister (h : Inv s) (hopen : s.key.closing = false)
    (hstack : s'.stack = Function.update s.stack t ([.drain] ++ s.stack t))
    (hreturned : s'.returned = s.returned) (hcompleted : s'.completed = s.completed)
    (hkey : s'.key = { s.key with fd := invalidSocket, closing := true }) : Inv s' := by
  have hweigh := fun w => State.weigh_of_call hstack w
  obtain ⟨hcb, hzero⟩ := h.callback_of_open hopen
  constructor
  · intro op
    simp only [State.outstanding, hreturned, hcompleted, hkey, hweigh]
    exact h.accounted op
  · simp only [hkey, hcb, hweigh, hzero, if_true]
    rfl
  · intro hno
    simp only [hkey, hcb] at hno
    cases hno
  · intro hpos
    rw [hweigh, h.drained_of_open hopen] at hpos
    exact absurd hpos (Nat.lt_irrefl 0)
  · rw [hweigh, h.callbacks]
    rfl
  · simpa only [hkey] using h.concurrent
  · intro hconc
    simp only [hkey] at hconc ⊢
    rw [hweigh, h.one_thread hconc]
    rfl
  · simpa only [hkey] using h.deferred

end Inv

/-- What a write event does to the writes of a key: nothing, or it takes the first write off the list,
for its thread to complete or for the thread that is in the callback. -/
theorem dispatchWriteEvent_cases (key : Key Op T) (ops : Op → OpRec) (t : T) (res : SendResult) :
    (SameWrites key (dispatchWriteEvent key ops t res).key ∧
      ((dispatchWriteEvent key ops t res).after = .idle ∨
        (dispatchWriteEvent key ops t res).after = .connectComplete)) ∨
    ∃ op rest, key.writeList = op :: rest ∧
      ((key.allowConcurrent = true ∧
          (dispatchWriteEvent key ops t res).key = { key with writeList := rest } ∧
          (dispatchWriteEvent key ops t res).after = .writeComplete op) ∨
        (key.allowConcurrent = false ∧ key.writeCallbackThread.isSome = true ∧
          (dispatchWriteEvent key ops t res).key =
            { key with writeList := rest, writeCbList := key.writeCbList ++ [op] } ∧
          (dispatchWriteEvent key ops t res).after = .deferred) ∨
        (key.allowConcurrent = false ∧ key.writeCallbackThread = none ∧
          (dispatchWriteEvent key ops t res).key =
            { key with writeList := rest, writeCallbackThread := some t } ∧
          (dispatchWriteEvent key ops t res).after = .writeComplete op)) := by
  cases hclosing : key.closing with
  | true => exact .inl (by simp [dispatchWriteEvent, hclosing, SameWrites.refl])
  | false =>
    cases hconnecting : key.connecting with
    | true =>
      refine .inl ⟨?_, ?_⟩
      · simp only [dispatchWriteEvent, hclosing, hconnecting, Bool.false_eq_true, if_false, if_true]
        exact ⟨rfl, rfl, rfl, hclosing.symm, rfl, rfl⟩
      · simp [dispatchWriteEvent, hclosing, hconnecting]
    | false =>
      cases hlist : key.writeList with
      | nil => exact .inl (by simp [dispatchWriteEvent, hclosing, hconnecting, hlist, SameWrites.refl])
      | cons op rest =>
        cases hfinished : writeFinished key.fdType (ops op) res with
        | false =>
          refine .inl ?_
          simp [dispatchWriteEvent, hclosing, hconnecting, hlist, hfinished, SameWrites.refl]
        | true =>
          refine .inr ⟨op, rest, rfl, ?_⟩
          cases hconc : key.allowConcurrent <;> cases hthread : key.writeCallbackThread <;>
            simp [dispatchWriteEvent, hclosing, hconnecting, hlist, hfinished, hconc, hthread]

namespace Inv

variable {s : State Op T} {t : T}

theorem send (h : Inv s) (op : Op) (kind : Operation) (size : Nat) :
    Inv { s.enter (sendSection s.key s.ops op kind size) t (s.stack t) with
      returned := (op, returnedStatus (sendSection s.key s.ops op kind size).after) :: s.returned } := by
  have hstack : Function.update s.stack t (s.stack t) = s.stack := Function.update_eq_self t s.stack
  unfold sendSection
  split_ifs with hclosing hbusy
  · exact h.of_idle (t := t) [] rfl (.inl rfl) ⟨rfl, rfl, rfl, rfl, rfl, rfl⟩
      (fun o => List.count_cons_of_ne (by simp [returnedStatus])) rfl
  · exact h.of_idle (t := t) [] rfl (.inl rfl) ⟨rfl, rfl, rfl, rfl, rfl, rfl⟩
      (fun o => List.count_cons_of_ne (by simp [returnedStatus])) rfl
  · exact h.of_pending (by simpa using hclosing) hstack rfl rfl rfl

theorem connect (h : Inv s) : Inv (s.enter (connectSection s.key s.ops) t (s.stack t)) := by
  unfold connectSection
  split_ifs <;>
    exact h.of_idle (t := t) [] rfl (.inl rfl) ⟨rfl, rfl, rfl, rfl, rfl, rfl⟩ (fun _ => rfl) rfl

theorem dispatchWrite (h : Inv s) (res : SendResult) :
    Inv (s.enter (dispatchWriteEvent s.key s.ops t res) t
      (afterDispatch (s.stack t) (dispatchWriteEvent s.key s.ops t res).after)) := by
  rcases dispatchWriteEvent_cases s.key s.ops t res with ⟨hkey, hafter | hafter⟩ | ⟨op, rest, hlist, htaken⟩
  · rw [hafter]
    exact h.of_idle (t := t) [] rfl (.inl rfl) hkey (fun _ => rfl) rfl
  · rw [hafter]
    exact h.of_idle (t := t) [.callback] rfl (.inr rfl) hkey (fun _ => rfl) rfl
  · have hmem : s.key.writeList ≠ [] := hlist ▸ List.cons_ne_nil _ _
    generalize dispatchWriteEvent s.key s.ops t res = sec at htaken ⊢
    obtain ⟨key, ops, change, after⟩ := sec
    rcases htaken with ⟨hconc, rfl, rfl⟩ | ⟨hconc, hthread, rfl, rfl⟩ | ⟨hconc, hthread, rfl, rfl⟩
    · refine h.of_write_taken (t := t) [.dispatch op] hmem rfl rfl rfl rfl rfl rfl
        (fun o => ?_) rfl rfl rfl h.concurrent (fun hc => ?_) h.deferred
      · simp only [State.enter, State.goto, hlist, List.count_cons, List.map_cons, List.map_nil,
          List.sum_cons, List.sum_nil, Frame.holds, beq_iff_eq]
        omega
      · exact absurd (hconc.symm.trans hc) (by decide)
    · refine h.of_write_taken (t := t) [] hmem rfl rfl rfl rfl rfl rfl (fun o => ?_) rfl rfl rfl
        (fun hc => absurd (hconc.symm.trans hc) (by decide)) (fun _ => rfl) fun _ => hthread
      simp only [State.enter, State.goto, hlist, List.count_cons, List.count_append, List.count_nil,
        List.map_nil, List.sum_nil, beq_iff_eq]
      omega
    · refine h.of_write_taken (t := t) [.dispatch op] hmem rfl rfl rfl rfl rfl rfl
        (fun o => ?_) rfl rfl rfl (fun hc => absurd (hconc.symm.trans hc) (by decide)) (fun _ => ?_)
        fun _ => rfl
      · simp only [State.enter, State.goto, hlist, List.count_cons, List.map_cons, List.map_nil,
          List.sum_cons, List.sum_nil, Frame.holds, beq_iff_eq]
        omega
      · simp only [State.enter, State.goto, hthread]
        rfl

theorem post (h : Inv s) (op : Op) :
    Inv (s.enter (postCompletion s.key s.ops op) t
      (afterPost (s.stack t) (postCompletion s.key s.ops op).after)) := by
  unfold postCompletion
  split_ifs with hread hwrite haccept hconnecting
  · exact h.of_idle (t := t) [.callback] rfl (.inr rfl) ⟨rfl, rfl, rfl, rfl, rfl, rfl⟩
      (fun _ => rfl) rfl
  · refine h.of_write_taken (t := t) [.post op] (List.ne_nil_of_mem hwrite) rfl rfl rfl rfl rfl rfl
      (fun o => ?_) rfl rfl rfl h.concurrent (fun _ => rfl) h.deferred
    have hperm := (List.perm_cons_erase hwrite).count_eq o
    simp only [State.enter, State.goto, hperm, List.count_cons, List.map_cons, List.map_nil,
      List.sum_cons, List.sum_nil, Frame.holds, beq_iff_eq]
    omega
  · exact h.of_idle (t := t) [.callback] rfl (.inr rfl) ⟨rfl, rfl, rfl, rfl, rfl, rfl⟩
      (fun _ => rfl) rfl
  · exact h.of_idle (t := t) [] rfl (.inl rfl) ⟨rfl, rfl, rfl, rfl, rfl, rfl⟩ (fun _ => rfl) rfl
  · exact h.of_idle (t := t) [] rfl (.inl rfl) ⟨rfl, rfl, rfl, rfl, rfl, rfl⟩ (fun _ => rfl) rfl

/-- Every step that meets the condition keeps the completions accounted for. -/
theorem step {s' : State Op T} {a : Action Op T} (h : Inv s) (hcond : ClearsLast s a)
    (hstep : IoqueueWrite.step s a = some s') : Inv s' := by
  cases a <;> simp only [IoqueueWrite.step, Option.ite_none_right_eq_some, Option.some.injEq] at hstep
  case sendFast t op error =>
    obtain ⟨-, rfl⟩ := hstep
    refine h.of_idle (t := t) [] (Function.update_eq_self t s.stack).symm (.inl rfl)
      ⟨rfl, rfl, rfl, rfl, rfl, rfl⟩ (fun o => List.count_cons_of_ne ?_) rfl
    cases error <;> simp [fastStatus]
  case send t op kind size =>
    obtain ⟨-, rfl⟩ := hstep
    exact h.send op kind size
  case connect t =>
    obtain ⟨-, rfl⟩ := hstep
    exact h.connect
  case dispatchWrite t res =>
    obtain ⟨-, rfl⟩ := hstep
    exact h.dispatchWrite res
  case post t op =>
    obtain ⟨-, rfl⟩ := hstep
    exact h.post op
  case unregister t =>
    obtain ⟨-, hstep⟩ := hstep
    split at hstep
    · obtain rfl := Option.some.inj hstep
      exact h
    · next hopen =>
        obtain rfl := Option.some.inj hstep
        exact h.unregister (by simpa using hopen) rfl rfl rfl rfl
  case run t =>
    split at hstep
    · cases hstep
    · next frame rest hs =>
        obtain rfl := Option.some.inj hstep
        exact h.run hcond hs

end Inv

theorem inv_start (q : Queue Op T) (raw : Key Op T) (args : RegisterArgs) (ops : Op → OpRec)
    (hcb : args.cb.onWriteComplete = true) : Inv (start q raw args ops) := by
  have hweigh : ∀ w : Frame Op → Nat, (start q raw args ops).weigh w = 0 := fun w =>
    State.weigh_eq_zero nofun
  constructor
  · intro op
    simp only [State.outstanding, hweigh]
    rfl
  · rw [hweigh]
    simp [start, ioqueueInitKey, hcb]
  · intro hno
    exact absurd (hcb.symm.trans hno) (by decide)
  · intro _
    rfl
  · exact hweigh _
  · intro _
    exact ⟨rfl, rfl⟩
  · intro _
    rw [hweigh]
    rfl
  · intro hne
    exact absurd rfl hne

/-- What the application can rely on. Every write that returned `PJ_EPENDING` is completed once or
still to be completed, and no other write is; when no thread is inside, what is to be completed waits
on `write_list` for the socket, and after the key was unregistered nothing is left. -/
structure CompletedOnce (s : State Op T) : Prop where
  accounted : ∀ op, s.returned.count (op, .pending) = s.completed.count op + s.outstanding op
  idle : (∀ t, s.stack t = []) → ∀ op,
    s.returned.count (op, .pending) = s.completed.count op + s.key.writeList.count op
  unregistered : (∀ t, s.stack t = []) → s.key.closing = true → ∀ op,
    s.returned.count (op, .pending) = s.completed.count op

theorem Inv.completedOnce {s : State Op T} (h : Inv s) : CompletedOnce s := by
  have hidle : (∀ t, s.stack t = []) → ∀ w : Frame Op → Nat, s.weigh w = 0 := fun hempty w =>
    State.weigh_eq_zero fun u frame hframe => absurd (hempty u ▸ hframe) List.not_mem_nil
  have hlist : (∀ t, s.stack t = []) → s.key.writeCbList = [] := by
    intro hempty
    by_contra hne
    cases hconc : s.key.allowConcurrent with
    | true => exact hne (h.concurrent hconc).2
    | false =>
      have hone := h.one_thread hconc
      rw [hidle hempty, if_pos (h.deferred hne)] at hone
      exact absurd hone (by decide)
  refine ⟨h.accounted, fun hempty op => ?_, fun hempty hclosing op => ?_⟩
  · have hall := h.accounted op
    simpa [State.outstanding, hidle hempty, hlist hempty] using hall
  · have hcb : s.key.cb.onWriteComplete = false := by
      have hone := h.one_unregister
      rw [hidle hempty, if_pos hclosing] at hone
      by_contra hcb
      rw [if_pos (by simpa using hcb)] at hone
      exact absurd hone (by decide)
    have hall := h.accounted op
    simpa [State.outstanding, hidle hempty, hlist hempty, (h.cleared hcb).1] using hall

section Sample

/-- A stream socket in a queue with the given concurrency. -/
def sampleStart (concurrency : Bool) : State Nat Bool :=
  start (ioqueueCreate 1 1024 concurrency (fun _ => blankKey) (fun _ => ⟨.none, 0, 0, 0⟩) fun _ => 1)
    blankKey ⟨5, none, ⟨true, true, true, true⟩, some .stream, true, ⟨0, 0⟩⟩ fun _ => ⟨.none, 0, 0, 0⟩

/-- Two writes are pending; the second completes while the first is in its callback, and the key is
unregistered from that callback. -/
def unregisterInCallback : List (Action Nat Bool) :=
  [.send false 1 .send 10, .send false 2 .send 10, .dispatchWrite true (.sent 10), .run true,
    .dispatchWrite false (.sent 10), .unregister true, .run true, .run true, .run true, .run true,
    .run true, .run true, .run true, .run true]

/-- A poll thread has taken the write off the list when another thread unregisters the key. -/
def unregisterBeforeCallback : List (Action Nat Bool) :=
  [.send false 1 .send 10, .dispatchWrite true (.sent 10), .unregister false, .run false, .run false,
    .run false, .run true, .run true]

end Sample

end PjProject.IoqueueWrite
