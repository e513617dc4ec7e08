import PjProject.IoqueueCallback
import PjProject.Slots

/-! When a completion callback is called for an operation key, the key is not pending. Every operation key the
ioqueue has is in one place: on the lists of a key, where it is pending; on the lists of deferred callbacks, or
in the hands of a thread about to call its callback, where it is not. Each locked section moves at most one
operation, and clears its code as it does. The drain of `write_list` is the one route to a callback that takes
an operation and leaves its code as it is. -/

set_option linter.unusedSectionVars false

namespace PjProject.IoqueueCallback

open Ioqueue

variable {Op T K : Type}

section Sections

def pendingOps (key : Key Op T) : List Op := key.readList ++ (key.acceptList ++ key.writeList)

def deferredOps (key : Key Op T) : List Op := key.readCbList ++ key.writeCbList

def callOf : After Op → Option Op
  | .acceptComplete op => some op
  | .readComplete op => some op
  | .writeComplete op => some op
  | _ => none

/-- An operation goes pending. -/
structure Submitted (key : Key Op T) (ops : Op → OpRec) (sec : Section Op T) (op : Op) : Prop where
  free : (ops op).op = .none
  pending : (pendingOps sec.key).Perm (op :: pendingOps key)
  deferred : deferredOps sec.key = deferredOps key
  code : (sec.ops op).op ≠ .none
  other : ∀ o, o ≠ op → (sec.ops o).op = (ops o).op

/-- What a locked section that starts no operation does with those of its key. -/
inductive Effect (key : Key Op T) (ops : Op → OpRec) (sec : Section Op T) : Prop
  | keep (hpending : pendingOps sec.key = pendingOps key) (hdeferred : deferredOps sec.key = deferredOps key)
      (hcode : ∀ o, (sec.ops o).op = (ops o).op) (hcall : callOf sec.after = none) : Effect key ops sec
  | complete (op : Op) (hpending : (pendingOps key).Perm (op :: pendingOps sec.key))
      (hdeferred : deferredOps sec.key = deferredOps key) (hcode : (sec.ops op).op = .none)
      (hother : ∀ o, o ≠ op → (sec.ops o).op = (ops o).op) (hcall : callOf sec.after = some op) : Effect key ops sec
  | defer (op : Op) (hpending : (pendingOps key).Perm (op :: pendingOps sec.key))
      (hdeferred : (deferredOps sec.key).Perm (op :: deferredOps key)) (hcode : (sec.ops op).op = .none)
      (hother : ∀ o, o ≠ op → (sec.ops o).op = (ops o).op) (hcall : callOf sec.after = none) : Effect key ops sec
  | deliver (op : Op) (hpending : pendingOps sec.key = pendingOps key)
      (hdeferred : (deferredOps key).Perm (op :: deferredOps sec.key)) (hcode : ∀ o, (sec.ops o).op = (ops o).op)
      (hcall : callOf sec.after = some op) : Effect key ops sec

variable {key : Key Op T} {ops : Op → OpRec}

/-- A section that returns a status without touching anything. -/
theorem effect_ret (change : SetChange) (status : Status) : Effect key ops ⟨key, ops, change, .ret status⟩ :=
  .keep rfl rfl (fun _ => rfl) rfl

theorem effect_idle (change : SetChange) : Effect key ops ⟨key, ops, change, .idle⟩ :=
  .keep rfl rfl (fun _ => rfl) rfl

theorem connectSection_effect : Effect key ops (connectSection key ops) := by
  unfold connectSection
  split
  · exact effect_ret _ _
  · exact .keep rfl rfl (fun _ => rfl) rfl

theorem dispatchReadEventNoLock_effect : Effect key ops (dispatchReadEventNoLock key ops) := by
  unfold dispatchReadEventNoLock
  split
  · exact .keep rfl rfl (fun _ => rfl) rfl
  cases hlist : key.readCbList with
  | nil => exact .keep rfl (by unfold deferredOps; rw [hlist]) (fun _ => rfl) rfl
  | cons op rest =>
    refine .deliver op rfl ?_ (fun _ => rfl) rfl
    unfold deferredOps
    rw [hlist]
    exact List.Perm.refl _

theorem dispatchWriteEventNoLock_effect : Effect key ops (dispatchWriteEventNoLock key ops) := by
  unfold dispatchWriteEventNoLock
  cases hlist : key.writeCbList with
  | nil => exact .keep rfl (by unfold deferredOps; rw [hlist]) (fun _ => rfl) rfl
  | cons op rest =>
    refine .deliver op rfl ?_ (fun _ => rfl) rfl
    unfold deferredOps
    rw [hlist]
    exact List.perm_middle

theorem dispatchExceptionEvent_effect : Effect key ops (dispatchExceptionEvent key ops) := by
  unfold dispatchExceptionEvent
  split
  · exact effect_idle _
  split
  · exact effect_idle _
  · exact .keep rfl rfl (fun _ => rfl) rfl

variable [DecidableEq Op]

theorem code_setOp_of_ne (ops : Op → OpRec) {op : Op} (r : OpRec) (o : Op) (ho : o ≠ op) :
    (setOp ops op r o).op = (ops o).op := congrArg OpRec.op (Function.update_of_ne ho _ _)

theorem code_setOp_self (ops : Op → OpRec) (op : Op) (r : OpRec) : (setOp ops op r op).op = r.op :=
  congrArg OpRec.op (Function.update_self ..)

theorem recvSection_cases (op : Op) {kind : Operation} (hkind : kind ≠ .none) (size : Nat) :
    ((recvSection key ops op kind size).key = key ∧ (recvSection key ops op kind size).ops = ops) ∨
      Submitted key ops (recvSection key ops op kind size) op := by
  unfold recvSection
  split
  · exact .inl ⟨rfl, rfl⟩
  split
  · exact .inl ⟨rfl, rfl⟩
  rename_i hfree
  refine .inr ⟨not_not.mp hfree, ?_, rfl, fun h => hkind ((code_setOp_self ops op _).symm.trans h),
    code_setOp_of_ne ops _⟩
  unfold pendingOps
  rw [List.append_assoc]
  exact List.perm_middle

theorem acceptSection_cases (op : Op) :
    ((acceptSection key ops op).key = key ∧ (acceptSection key ops op).ops = ops) ∨
      Submitted key ops (acceptSection key ops op) op := by
  unfold acceptSection
  split
  · exact .inl ⟨rfl, rfl⟩
  split
  · exact .inl ⟨rfl, rfl⟩
  rename_i hfree
  have hcode : (setOp ops op { ops op with op := .accept } op).op ≠ .none := by
    rw [code_setOp_self]
    exact nofun
  refine .inr ⟨not_not.mp hfree, ?_, rfl, hcode, code_setOp_of_ne ops _⟩
  unfold pendingOps
  simp only [List.append_assoc]
  rw [← List.append_assoc, ← List.append_assoc key.readList]
  exact List.perm_middle

theorem sendSection_cases (op : Op) {kind : Operation} (hkind : kind ≠ .none) (size : Nat) :
    ((sendSection key ops op kind size).key = key ∧ (sendSection key ops op kind size).ops = ops) ∨
      Submitted key ops (sendSection key ops op kind size) op := by
  unfold sendSection
  split
  · exact .inl ⟨rfl, rfl⟩
  split
  · exact .inl ⟨rfl, rfl⟩
  rename_i hfree
  refine .inr ⟨not_not.mp hfree, ?_, rfl, fun h => hkind ((code_setOp_self ops op _).symm.trans h),
    code_setOp_of_ne ops _⟩
  unfold pendingOps
  rw [← List.append_assoc, ← List.append_assoc, ← List.append_assoc]
  exact List.perm_append_singleton _ _

theorem dispatchReadEvent_effect (t : T) (bytes : Int) : Effect key ops (dispatchReadEvent key ops t bytes) := by
  unfold dispatchReadEvent
  split
  · exact effect_idle _
  cases haccept : key.acceptList with
  | cons op rest =>
    refine .complete op ?_ rfl (code_setOp_self ops op _)
      (code_setOp_of_ne ops _) rfl
    unfold pendingOps
    rw [haccept]
    exact List.perm_middle
  | nil =>
    cases hread : key.readList with
    | nil => exact effect_idle _
    | cons op rest =>
      have hpending : (pendingOps key).Perm (op :: (rest ++ ([] ++ key.writeList))) := by
        unfold pendingOps
        rw [hread, haccept]
        exact List.Perm.refl _
      have hother : ∀ o, o ≠ op →
          (setOp ops op { ops op with op := .none, bytesRead := bytes } o).op = (ops o).op :=
        code_setOp_of_ne ops _
      simp only
      split
      · exact .complete op hpending rfl (code_setOp_self ops op _) hother rfl
      · cases key.readCallbackThread with
        | some u =>
          refine .defer op hpending ?_ (code_setOp_self ops op _) hother rfl
          unfold deferredOps
          rw [List.append_assoc]
          exact List.perm_middle
        | none => exact .complete op hpending rfl (code_setOp_self ops op _) hother rfl

theorem dispatchWriteEvent_effect (t : T) (res : SendResult) : Effect key ops (dispatchWriteEvent key ops t res) := by
  unfold dispatchWriteEvent
  split
  · exact effect_idle _
  split
  · exact .keep rfl rfl (fun _ => rfl) rfl
  cases hwrite : key.writeList with
  | nil => exact effect_idle _
  | cons op rest =>
    have hpending : (pendingOps key).Perm (op :: (key.readList ++ (key.acceptList ++ rest))) := by
      unfold pendingOps
      rw [hwrite, ← List.append_assoc, ← List.append_assoc]
      exact List.perm_middle
    have hother : ∀ o, o ≠ op →
        (setOp ops op { ops op with op := .none, written := writtenAfter (ops op) res } o).op = (ops o).op :=
      code_setOp_of_ne ops _
    simp only
    split
    · split
      · exact .complete op hpending rfl (code_setOp_self ops op _) hother rfl
      · cases key.writeCallbackThread with
        | some u =>
          refine .defer op hpending ?_ (code_setOp_self ops op _) hother rfl
          unfold deferredOps
          rw [← List.append_assoc]
          exact List.perm_append_singleton _ _
        | none => exact .complete op hpending rfl (code_setOp_self ops op _) hother rfl
    · -- the rest of the operation is sent later
      refine .keep rfl rfl (fun o => ?_) rfl
      by_cases ho : o = op
      · rw [ho]
        exact code_setOp_self ops op _
      · exact code_setOp_of_ne ops _ o ho

theorem postCompletion_effect (op : Op) : Effect key ops (postCompletion key ops op) := by
  have hcode : (clearOp ops op op).op = .none := code_setOp_self ops op _
  have hother : ∀ o, o ≠ op → (clearOp ops op o).op = (ops o).op := code_setOp_of_ne ops _
  unfold postCompletion
  split
  · rename_i hmem
    refine .complete op ?_ rfl hcode hother rfl
    exact (List.perm_cons_erase hmem).append_right _
  split
  · rename_i hmem
    refine .complete op ?_ rfl hcode hother rfl
    unfold pendingOps
    rw [← List.append_assoc, ← List.append_assoc]
    exact ((List.perm_cons_erase hmem).append_left _).trans List.perm_middle
  split
  · rename_i hmem
    refine .complete op ?_ rfl hcode hother rfl
    exact (((List.perm_cons_erase hmem).append_right _).append_left _).trans List.perm_middle
  split
  · exact .keep rfl rfl (fun _ => rfl) rfl
  · exact effect_ret _ _

end Sections

section Placing

/-- Where the ioqueue has an operation key: on a list of a key, pending or deferred, or with a thread that is going
to call its callback. -/
inductive Slot (T K : Type)
  | pending (k : K)
  | deferred (k : K)
  | called (t : T)
  | drained (t : T)
  deriving DecidableEq

def Slot.busy : Slot T K → Bool
  | .pending _ => true
  | .drained _ => true
  | .deferred _ => false
  | .called _ => false

def Frame.called : Frame Op → Option Op
  | .dispatchRead op _ => some op
  | .dispatchAccept op => some op
  | .dispatchWrite op => some op
  | .readNoLockCall op => some op
  | .writeNoLockCall op => some op
  | .postRead op => some op
  | .postWrite op => some op
  | .postAccept op => some op
  | .drainOwnCall op _ => some op
  | _ => none

/-- The operation that the frame took off `write_list` as it was. -/
def Frame.drained : Frame Op → Option Op
  | .drainListCall op => some op
  | _ => none

def calledOps (frames : List (K × Frame Op)) : List Op := frames.filterMap fun f => f.2.called

def drainedOps (frames : List (K × Frame Op)) : List Op := frames.filterMap fun f => f.2.drained

def State.slots (s : State Op T K) : Slot T K → List Op
  | .pending k => pendingOps (s.keys k)
  | .deferred k => deferredOps (s.keys k)
  | .called t => calledOps (s.stack t)
  | .drained t => drainedOps (s.stack t)

variable [DecidableEq Op] [DecidableEq T] [DecidableEq K]

/-- Every operation key is in its place, pending as the place says, and one that is in a place went pending more
often than its callback was called. -/
structure Inv (s : State Op T K) (place : Op → Option (Slot T K)) : Prop where
  placed : Placed s.slots place
  code : ∀ op i, place op = some i → ((s.ops op).op ≠ .none ↔ i.busy = true)
  accounted : ∀ op, (s.entered.map Prod.fst).count op + (if place op = none then 0 else 1) ≤ s.submitted.count op

theorem calledOps_cons (f : K × Frame Op) (frames : List (K × Frame Op)) :
    calledOps (f :: frames) = f.2.called.toList ++ calledOps frames := by
  unfold calledOps
  rw [List.filterMap_cons]
  cases f.2.called with
  | none => rfl
  | some op => rfl

theorem drainedOps_cons (f : K × Frame Op) (frames : List (K × Frame Op)) :
    drainedOps (f :: frames) = f.2.drained.toList ++ drainedOps frames := by
  unfold drainedOps
  rw [List.filterMap_cons]
  cases f.2.drained with
  | none => rfl
  | some op => rfl

variable {s s' : State Op T K} {place : Op → Option (Slot T K)} {k : K} {t : T}

theorem slots_perm {key : Key Op T} {frames : List (K × Frame Op)} (hkeys : s'.keys = Function.update s.keys k key)
    (hstack : s'.stack = Function.update s.stack t frames) {i : Slot T K}
    (hpending : i = .pending k → (pendingOps key).Perm (pendingOps (s.keys k)))
    (hdeferred : i = .deferred k → (deferredOps key).Perm (deferredOps (s.keys k)))
    (hcalled : i = .called t → (calledOps frames).Perm (calledOps (s.stack t)))
    (hdrained : i = .drained t → (drainedOps frames).Perm (drainedOps (s.stack t))) :
    (s'.slots i).Perm (s.slots i) := by
  cases i with
  | pending j =>
    show (pendingOps (s'.keys j)).Perm (pendingOps (s.keys j))
    rw [hkeys]
    by_cases hj : j = k
    · rw [hj, Function.update_self]
      exact hpending (congrArg Slot.pending hj)
    · rw [Function.update_of_ne hj]
  | deferred j =>
    show (deferredOps (s'.keys j)).Perm (deferredOps (s.keys j))
    rw [hkeys]
    by_cases hj : j = k
    · rw [hj, Function.update_self]
      exact hdeferred (congrArg Slot.deferred hj)
    · rw [Function.update_of_ne hj]
  | called u =>
    show (calledOps (s'.stack u)).Perm (calledOps (s.stack u))
    rw [hstack]
    by_cases hu : u = t
    · rw [hu, Function.update_self]
      exact hcalled (congrArg Slot.called hu)
    · rw [Function.update_of_ne hu]
  | drained u =>
    show (drainedOps (s'.stack u)).Perm (drainedOps (s.stack u))
    rw [hstack]
    by_cases hu : u = t
    · rw [hu, Function.update_self]
      exact hdrained (congrArg Slot.drained hu)
    · rw [Function.update_of_ne hu]

theorem slots_pending {key : Key Op T} (hkeys : s'.keys = Function.update s.keys k key) :
    s'.slots (.pending k) = pendingOps key := by
  have hslot : pendingOps (s'.keys k) = pendingOps key := by rw [hkeys, Function.update_self]
  exact hslot

theorem slots_deferred {key : Key Op T} (hkeys : s'.keys = Function.update s.keys k key) :
    s'.slots (.deferred k) = deferredOps key := by
  have hslot : deferredOps (s'.keys k) = deferredOps key := by rw [hkeys, Function.update_self]
  exact hslot

theorem slots_called {frames : List (K × Frame Op)} (hstack : s'.stack = Function.update s.stack t frames) :
    s'.slots (.called t) = calledOps frames := by
  have hslot : calledOps (s'.stack t) = calledOps frames := by rw [hstack, Function.update_self]
  exact hslot

theorem slots_drained {frames : List (K × Frame Op)} (hstack : s'.stack = Function.update s.stack t frames) :
    s'.slots (.drained t) = drainedOps frames := by
  have hslot : drainedOps (s'.stack t) = drainedOps frames := by rw [hstack, Function.update_self]
  exact hslot

namespace Inv

/-- Nothing moves. -/
theorem of_same (h : Inv s place) (hslots : ∀ i, (s'.slots i).Perm (s.slots i))
    (hcode : ∀ o, (s'.ops o).op = (s.ops o).op) (hentered : s'.entered = s.entered)
    (hsubmitted : s'.submitted = s.submitted) : Inv s' place where
  placed := h.placed.congr hslots
  code op i hi := by
    rw [hcode]
    exact h.code op i hi
  accounted op := by
    rw [hentered, hsubmitted]
    exact h.accounted op

theorem of_move (h : Inv s place) {op : Op} {target : Option (Slot T K)}
    (hplaced : Placed s'.slots (Function.update place op target))
    (hcode : ∀ i, target = some i → ((s'.ops op).op ≠ .none ↔ i.busy = true))
    (hother : ∀ o, o ≠ op → (s'.ops o).op = (s.ops o).op)
    (hcount : (s'.entered.map Prod.fst).count op + (if target = none then 0 else 1) ≤ s'.submitted.count op)
    (hcountOther : ∀ o, o ≠ op → (s'.entered.map Prod.fst).count o = (s.entered.map Prod.fst).count o ∧
      s'.submitted.count o = s.submitted.count o) : Inv s' (Function.update place op target) where
  placed := hplaced
  code o i hi := by
    by_cases ho : o = op
    · rw [ho, Function.update_self] at hi
      rw [ho]
      exact hcode i hi
    · rw [Function.update_of_ne ho] at hi
      rw [hother o ho]
      exact h.code o i hi
  accounted o := by
    by_cases ho : o = op
    · rw [ho, Function.update_self]
      exact hcount
    · rw [Function.update_of_ne ho, (hcountOther o ho).1, (hcountOther o ho).2]
      exact h.accounted o

theorem of_cleared (h : Inv s place) (hsub : ∀ i, (s'.slots i).Sublist (s.slots i)) (hops : s'.ops = s.ops)
    (hentered : s'.entered = s.entered) (hsubmitted : s'.submitted = s.submitted) : ∃ place', Inv s' place' := by
  refine ⟨_, h.placed.shrink hsub, fun op i hi => ?_, fun op => ?_⟩
  · rw [hops]
    exact h.code op i (Option.filter_eq_some_iff.mp hi).1
  · rw [hentered, hsubmitted]
    refine Nat.le_trans ?_ (h.accounted op)
    by_cases hnone : place op = none
    · rw [hnone, Option.filter_none]
    · rw [if_neg hnone]
      split <;> omega

/-- An operation leaves a slot, cleared; a thread that is going to call its callback takes it, or it is dropped. -/
theorem taken (h : Inv s place) {op : Op} {i : Slot T K} (hne : Slot.called t ≠ i)
    (hleft : (s.slots i).Perm (op :: s'.slots i))
    (hright : (s'.slots (.called t)).Perm (s.slots (.called t)) ∨ (s'.slots (.called t)).Perm (op :: s.slots (.called t)))
    (hslots : ∀ j, j ≠ i → j ≠ .called t → (s'.slots j).Perm (s.slots j)) (hcode : (s'.ops op).op = .none)
    (hother : ∀ o, o ≠ op → (s'.ops o).op = (s.ops o).op) (hentered : s'.entered = s.entered)
    (hsubmitted : s'.submitted = s.submitted) : ∃ place', Inv s' place' := by
  have hcounts : ∀ o, o ≠ op → (s'.entered.map Prod.fst).count o = (s.entered.map Prod.fst).count o ∧
      s'.submitted.count o = s.submitted.count o := by
    rw [hentered, hsubmitted]
    exact fun o _ => ⟨rfl, rfl⟩
  have hacc := h.accounted op
  rw [← hentered, ← hsubmitted] at hacc
  rcases hright with hsame | hpush
  · obtain ⟨hplace, hplaced⟩ := h.placed.remove hleft fun j hj => by
      by_cases hjt : j = .called t
      · rw [hjt]
        exact hsame
      · exact hslots j hj hjt
    refine ⟨_, h.of_move hplaced nofun hother ?_ hcounts⟩
    rw [if_pos rfl]
    exact Nat.le_trans (Nat.add_le_add_left (Nat.zero_le _) _) hacc
  · obtain ⟨hplace, hplaced⟩ := h.placed.move hne hleft hpush hslots
    refine ⟨_, h.of_move hplaced (fun i hi => ?_) hother ?_ hcounts⟩
    · rw [← Option.some.inj hi]
      exact iff_of_false (fun hbusy => hbusy hcode) Bool.false_ne_true
    · rw [hplace] at hacc
      exact hacc

/-- A section that starts no operation; its thread takes the operation whose callback is to be called, or drops
it. -/
theorem enter (h : Inv s place) {sec : Section Op T} (heffect : Effect (s.keys k) s.ops sec)
    {frames : List (K × Frame Op)} (hcalled : calledOps frames = calledOps (s.stack t) ∨
      ∃ op, callOf sec.after = some op ∧ calledOps frames = op :: calledOps (s.stack t))
    (hdrained : drainedOps frames = drainedOps (s.stack t)) : ∃ place', Inv (s.enter k sec t frames) place' := by
  have hkeys : (s.enter k sec t frames).keys = Function.update s.keys k sec.key := rfl
  have hstack : (s.enter k sec t frames).stack = Function.update s.stack t frames := rfl
  have hdrain : (drainedOps frames).Perm (drainedOps (s.stack t)) := List.Perm.of_eq hdrained
  have hsame : callOf sec.after = none → (calledOps frames).Perm (calledOps (s.stack t)) := by
    intro hcall
    rcases hcalled with hsame | ⟨op, hop, -⟩
    · exact List.Perm.of_eq hsame
    · rw [hcall] at hop
      cases hop
  have hright : ∀ op, callOf sec.after = some op →
      ((s.enter k sec t frames).slots (.called t)).Perm (s.slots (.called t)) ∨
        ((s.enter k sec t frames).slots (.called t)).Perm (op :: s.slots (.called t)) := by
    intro op hcall
    rw [slots_called hstack]
    rcases hcalled with hsame | ⟨op', hop, hpush⟩
    · exact .inl (List.Perm.of_eq hsame)
    · have hop' : op' = op := Option.some.inj (hop.symm.trans hcall)
      rw [hop'] at hpush
      exact .inr (List.Perm.of_eq hpush)
  cases heffect with
  | keep hpending hdeferred hcode hcall =>
    exact ⟨place, h.of_same (fun i => slots_perm hkeys hstack (fun _ => List.Perm.of_eq hpending)
      (fun _ => List.Perm.of_eq hdeferred) (fun _ => hsame hcall) (fun _ => hdrain)) hcode rfl rfl⟩
  | complete op hpending hdeferred hcode hother hcall =>
    have hleft : (s.slots (.pending k)).Perm (op :: (s.enter k sec t frames).slots (.pending k)) := by
      rw [slots_pending hkeys]
      exact hpending
    refine h.taken (fun he => by cases he) hleft (hright op hcall) (fun j hj hj' => ?_) hcode hother rfl
      rfl
    exact slots_perm hkeys hstack (fun he => absurd he hj) (fun _ => List.Perm.of_eq hdeferred)
      (fun he => absurd he hj') fun _ => hdrain
  | defer op hpending hdeferred hcode hother hcall =>
    have hleft : (s.slots (.pending k)).Perm (op :: (s.enter k sec t frames).slots (.pending k)) := by
      rw [slots_pending hkeys]
      exact hpending
    have hdefer : ((s.enter k sec t frames).slots (.deferred k)).Perm (op :: s.slots (.deferred k)) := by
      rw [slots_deferred hkeys]
      exact hdeferred
    obtain ⟨hplace, hplaced⟩ := h.placed.move (fun he => by cases he) hleft hdefer fun i hi hi' =>
      slots_perm hkeys hstack (fun he => absurd he hi) (fun he => absurd he hi') (fun _ => hsame hcall) fun _ => hdrain
    refine ⟨_, h.of_move hplaced (fun i hi => ?_) hother ?_ fun o _ => ⟨rfl, rfl⟩⟩
    · rw [← Option.some.inj hi]
      exact iff_of_false (fun hbusy => hbusy hcode) Bool.false_ne_true
    · have hacc := h.accounted op
      rw [hplace] at hacc
      exact hacc
  | deliver op hpending hdeferred hcode hcall =>
    have hleft : (s.slots (.deferred k)).Perm (op :: (s.enter k sec t frames).slots (.deferred k)) := by
      rw [slots_deferred hkeys]
      exact hdeferred
    have hdone : (s.ops op).op = .none := by
      by_contra hbusy
      have hplace := (h.placed.mem_iff _ op).mp (hleft.mem_iff.mpr List.mem_cons_self)
      exact Bool.false_ne_true ((h.code op _ hplace).mp hbusy)
    refine h.taken (fun he => by cases he) hleft (hright op hcall) (fun j hj hj' => ?_) ((hcode op).trans hdone)
      (fun o _ => hcode o) rfl rfl
    exact slots_perm hkeys hstack (fun _ => List.Perm.of_eq hpending) (fun he => absurd he hj)
      (fun he => absurd he hj') fun _ => hdrain

/-- An operation key that may be used again is in no place, unless it is pending. -/
theorem free_of_count (h : Inv s place) {op : Op} (hcount : s.submitted.count op = (s.entered.map Prod.fst).count op) :
    place op = none := by
  by_contra hplace
  have hacc := h.accounted op
  rw [if_neg hplace] at hacc
  omega

theorem submit (h : Inv s place) (t : T) {op : Op} (hreusable : s.reusable op = true) {sec : Section Op T}
    (hcases : (sec.key = s.keys k ∧ sec.ops = s.ops) ∨ Submitted (s.keys k) s.ops sec op) :
    ∃ place', Inv (s.submit k sec op) place' := by
  have hkeys : (s.submit k sec op).keys = Function.update s.keys k sec.key := rfl
  have hstack : (s.submit k sec op).stack = Function.update s.stack t (s.stack t) := (Function.update_eq_self _ _).symm
  rcases hcases with ⟨hkey, hops⟩ | hsub
  · have hsubmitted : (s.submit k sec op).submitted = s.submitted := by
      unfold State.submit
      rw [hops]
      exact if_neg fun hno => hno.2 hno.1
    refine ⟨place, h.of_same (fun i => slots_perm hkeys hstack ?_ ?_ ?_ ?_) (fun o => ?_) rfl hsubmitted⟩
    · exact fun _ => by rw [hkey]
    · exact fun _ => by rw [hkey]
    · exact fun _ => List.Perm.refl _
    · exact fun _ => List.Perm.refl _
    · exact congrArg (fun ops : Op → OpRec => (ops o).op) hops
  · have hplace : place op = none := by
      apply h.free_of_count
      unfold State.reusable at hreusable
      rw [hsub.free, Bool.or_eq_true, beq_iff_eq] at hreusable
      exact hreusable.resolve_right nofun
    have hsubmitted : (s.submit k sec op).submitted = op :: s.submitted := if_pos ⟨hsub.free, hsub.code⟩
    have hinto : ((s.submit k sec op).slots (.pending k)).Perm (op :: s.slots (.pending k)) := by
      rw [slots_pending hkeys]
      exact hsub.pending
    have hplaced := h.placed.insert hplace hinto fun i hi => slots_perm hkeys hstack (fun he => absurd he hi)
      (fun _ => List.Perm.of_eq hsub.deferred) (fun _ => List.Perm.refl _) fun _ => List.Perm.refl _
    refine ⟨_, h.of_move hplaced (fun i hi => ?_) hsub.other ?_ fun o ho => ⟨rfl, ?_⟩⟩
    · rw [← Option.some.inj hi]
      exact iff_of_true hsub.code rfl
    · have hacc := h.accounted op
      rw [hplace] at hacc
      rw [hsubmitted, List.count_cons_self]
      exact Nat.add_le_add_right hacc 1
    · rw [hsubmitted, List.count_cons_of_ne (Ne.symm ho)]

/-- A thread is done with the operation it has, whether or not there was a callback to call. -/
theorem done (h : Inv s place) {op : Op} {i : Slot T K} (hleft : (s.slots i).Perm (op :: s'.slots i))
    (hslots : ∀ j, j ≠ i → (s'.slots j).Perm (s.slots j)) (hops : s'.ops = s.ops) (hsubmitted : s'.submitted = s.submitted)
    (hentered : s'.entered.map Prod.fst = s.entered.map Prod.fst ∨
      s'.entered.map Prod.fst = op :: s.entered.map Prod.fst) : ∃ place', Inv s' place' := by
  obtain ⟨hplace, hplaced⟩ := h.placed.remove hleft hslots
  have hacc := h.accounted op
  rw [hplace, if_neg nofun] at hacc
  refine ⟨_, h.of_move hplaced nofun (fun o _ => by rw [hops]) ?_ fun o ho => ?_⟩
  · rw [if_pos rfl, hsubmitted]
    rcases hentered with hsame | hcons
    · rw [hsame]
      omega
    · rw [hcons, List.count_cons_self]
      exact hacc
  · rw [hsubmitted]
    rcases hentered with hsame | hcons
    · rw [hsame]
      exact ⟨rfl, rfl⟩
    · rw [hcons, List.count_cons_of_ne (Ne.symm ho)]
      exact ⟨rfl, rfl⟩

section Frames

variable {frame : Frame Op} {rest frames : List (K × Frame Op)}

theorem goes (h : Inv s place) (hs : s.stack t = (k, frame) :: rest) (hcalled : frame.called = none)
    (hdrained : frame.drained = none) (hframes : calledOps frames = calledOps rest)
    (hframes' : drainedOps frames = drainedOps rest) {key : Key Op T} (hkeys : s'.keys = Function.update s.keys k key)
    (hpending : pendingOps key = pendingOps (s.keys k)) (hdeferred : deferredOps key = deferredOps (s.keys k))
    (hstack : s'.stack = Function.update s.stack t frames) (hops : s'.ops = s.ops)
    (hentered : s'.entered = s.entered) (hsubmitted : s'.submitted = s.submitted) : Inv s' place := by
  refine h.of_same (fun i => slots_perm hkeys hstack (fun _ => List.Perm.of_eq hpending)
    (fun _ => List.Perm.of_eq hdeferred) (fun _ => ?_) fun _ => ?_) (fun o => by rw [hops]) hentered hsubmitted
  · rw [hs, calledOps_cons, hcalled, hframes]
    exact List.Perm.refl _
  · rw [hs, drainedOps_cons, hdrained, hframes']
    exact List.Perm.refl _

/-- The operation in the hands of a thread is not pending, and the thread is done with it. -/
theorem call (h : Inv s place) {op : Op} (hs : s.stack t = (k, frame) :: rest) (hcalled : frame.called = some op)
    (hdrained : frame.drained = none) (hframes : calledOps frames = calledOps rest)
    (hframes' : drainedOps frames = drainedOps rest) : (s.ops op).op = .none ∧
      (∃ place', Inv (s.callback t k op frames) place') ∧ ∃ place', Inv (s.goto t frames) place' := by
  have hold : calledOps (s.stack t) = op :: calledOps rest := by
    rw [hs, calledOps_cons, hcalled]
    rfl
  have holdDrained : drainedOps (s.stack t) = drainedOps rest := by
    rw [hs, drainedOps_cons, hdrained]
    rfl
  have hleft : ∀ (next : State Op T K) (more : List (K × Frame Op)), next.stack = Function.update s.stack t more →
      calledOps more = calledOps rest → (s.slots (.called t)).Perm (op :: next.slots (.called t)) := by
    intro next more hstack hmore
    rw [slots_called hstack, hmore]
    exact List.Perm.of_eq hold
  have hslots : ∀ (next : State Op T K) (more : List (K × Frame Op)), next.keys = s.keys →
      next.stack = Function.update s.stack t more → drainedOps more = drainedOps rest →
        ∀ j, j ≠ .called t → (next.slots j).Perm (s.slots j) := by
    intro next more hkeys hstack hmore j hj
    refine slots_perm (hkeys.trans (Function.update_eq_self k s.keys).symm) hstack (fun _ => List.Perm.refl _)
      (fun _ => List.Perm.refl _) (fun he => absurd he hj) fun _ => ?_
    rw [hmore, holdDrained]
  refine ⟨?_, ?_, ?_⟩
  · by_contra hbusy
    have hplace := (h.placed.mem_iff (.called t) op).mp (by
      show op ∈ calledOps (s.stack t)
      rw [hold]
      exact List.mem_cons_self)
    exact Bool.false_ne_true ((h.code op _ hplace).mp hbusy)
  · exact h.done (hleft _ ((k, .callback) :: frames) rfl hframes)
      (hslots _ ((k, .callback) :: frames) rfl rfl hframes') rfl rfl (.inr rfl)
  · exact h.done (hleft _ frames rfl hframes) (hslots _ frames rfl rfl hframes') rfl
      rfl (.inl rfl)

/-- An operation taken off `write_list` by the drain is still pending. -/
theorem callDrained (h : Inv s place) (frames : List (K × Frame Op)) {op : Op}
    (hs : s.stack t = (k, .drainListCall op) :: rest)
    (hframes : calledOps frames = calledOps rest) (hframes' : drainedOps frames = drainedOps rest) :
    (s.ops op).op ≠ .none ∧ (∃ place', Inv (s.callback t k op frames) place') ∧
      ∃ place', Inv (s.goto t frames) place' := by
  have hold : drainedOps (s.stack t) = op :: drainedOps rest := by
    rw [hs, drainedOps_cons]
    rfl
  have holdCalled : calledOps (s.stack t) = calledOps rest := by
    rw [hs, calledOps_cons]
    rfl
  have hleft : ∀ (next : State Op T K) (more : List (K × Frame Op)), next.stack = Function.update s.stack t more →
      drainedOps more = drainedOps rest → (s.slots (.drained t)).Perm (op :: next.slots (.drained t)) := by
    intro next more hstack hmore
    rw [slots_drained hstack, hmore]
    exact List.Perm.of_eq hold
  have hslots : ∀ (next : State Op T K) (more : List (K × Frame Op)), next.keys = s.keys →
      next.stack = Function.update s.stack t more → calledOps more = calledOps rest →
        ∀ j, j ≠ .drained t → (next.slots j).Perm (s.slots j) := by
    intro next more hkeys hstack hmore j hj
    refine slots_perm (hkeys.trans (Function.update_eq_self k s.keys).symm) hstack (fun _ => List.Perm.refl _)
      (fun _ => List.Perm.refl _) (fun _ => ?_) fun he => absurd he hj
    rw [hmore, holdCalled]
  refine ⟨?_, ?_, ?_⟩
  · have hplace := (h.placed.mem_iff (.drained t) op).mp (by
      show op ∈ drainedOps (s.stack t)
      rw [hold]
      exact List.mem_cons_self)
    exact (h.code op _ hplace).mpr rfl
  · exact h.done (hleft _ ((k, .callback) :: frames) rfl hframes')
      (hslots _ ((k, .callback) :: frames) rfl rfl hframes) rfl rfl (.inr rfl)
  · exact h.done (hleft _ frames rfl hframes') (hslots _ frames rfl rfl hframes) rfl
      rfl (.inl rfl)

end Frames

/-- What a step of a thread leads to when no pending operation is given to a callback. -/
def Leads (s s' : State Op T K) : Prop := (∃ place', Inv s' place') ∧ (NotPending s → NotPending s')

theorem leads_of_entered (h : ∃ place', Inv s' place') (hentered : s'.entered = s.entered) : Leads s s' := by
  refine ⟨h, fun hnot call hcall => ?_⟩
  rw [hentered] at hcall
  exact hnot call hcall

section Frames

variable {frame : Frame Op} {rest frames : List (K × Frame Op)}

theorem leads_goto (h : Inv s place) (hs : s.stack t = (k, frame) :: rest) (hcalled : frame.called = none)
    (hdrained : frame.drained = none) (hframes : calledOps frames = calledOps rest)
    (hframes' : drainedOps frames = drainedOps rest) : Leads s (s.goto t frames) := by
  refine leads_of_entered ⟨place, ?_⟩ rfl
  exact h.goes hs hcalled hdrained hframes hframes' (Function.update_eq_self k s.keys).symm rfl rfl
    rfl rfl rfl rfl

theorem leads_call (h : Inv s place) (frames : List (K × Frame Op)) {op : Op} (hs : s.stack t = (k, frame) :: rest)
    (hcalled : frame.called = some op) (hdrained : frame.drained = none) (hframes : calledOps frames = calledOps rest)
    (hframes' : drainedOps frames = drainedOps rest) :
    Leads s (s.callback t k op frames) ∧ Leads s (s.goto t frames) := by
  obtain ⟨hcode, hcallback, hgoto⟩ := h.call hs hcalled hdrained hframes hframes'
  refine ⟨⟨hcallback, fun hnot call hcall => ?_⟩, leads_of_entered hgoto rfl⟩
  rcases List.mem_cons.mp hcall with rfl | hcall
  · exact hcode
  · exact hnot call hcall

/-- A pass of a loop over deferred callbacks. -/
theorem leads_noLock (h : Inv s place) (hs : s.stack t = (k, frame) :: rest) (hcalled : frame.called = none)
    (hdrained : frame.drained = none) {sec : Section Op T} (heffect : Effect (s.keys k) s.ops sec) :
    Leads s (s.enter k sec t (afterNoLock k rest (s.keys k).cb sec.after)) := by
  have hold : calledOps (s.stack t) = calledOps rest := by
    rw [hs, calledOps_cons, hcalled]
    rfl
  have holdDrained : drainedOps (s.stack t) = drainedOps rest := by
    rw [hs, drainedOps_cons, hdrained]
    rfl
  refine leads_of_entered (h.enter heffect ?_ ?_) rfl
  · rw [hold]
    generalize sec.after = after
    cases after with
    | readComplete op =>
      by_cases hcb : (s.keys k).cb.onReadComplete = true
      · have heq : afterNoLock k rest (s.keys k).cb (.readComplete op) = (k, .readNoLockCall op) :: rest := if_pos hcb
        rw [heq]
        exact .inr ⟨op, rfl, rfl⟩
      · have heq : afterNoLock k rest (s.keys k).cb (.readComplete op) = rest := if_neg hcb
        rw [heq]
        exact .inl rfl
    | writeComplete op =>
      by_cases hcb : (s.keys k).cb.onWriteComplete = true
      · have heq : afterNoLock k rest (s.keys k).cb (.writeComplete op) = (k, .writeNoLockCall op) :: rest := if_pos hcb
        rw [heq]
        exact .inr ⟨op, rfl, rfl⟩
      · have heq : afterNoLock k rest (s.keys k).cb (.writeComplete op) = rest := if_neg hcb
        rw [heq]
        exact .inl rfl
    | _ => exact .inl rfl
  · rw [holdDrained]
    generalize sec.after = after
    cases after with
    | readComplete op => exact (apply_ite drainedOps _ _ _).trans (ite_self _)
    | writeComplete op => exact (apply_ite drainedOps _ _ _).trans (ite_self _)
    | _ => rfl

/-- A pass of the drain over `write_cb_list`. -/
theorem leads_drainOwn (h : Inv s place) (hs : s.stack t = (k, frame) :: rest) (hcalled : frame.called = none)
    (hdrained : frame.drained = none) : Leads s (drainOwn s t k rest) := by
  unfold drainOwn
  cases hlist : (s.keys k).writeCbList with
  | nil => exact h.leads_goto hs hcalled hdrained rfl rfl
  | cons op more =>
    have hold : calledOps (s.stack t) = calledOps rest := by
      rw [hs, calledOps_cons, hcalled]
      rfl
    have holdDrained : drainedOps (s.stack t) = drainedOps rest := by
      rw [hs, drainedOps_cons, hdrained]
      rfl
    have hdeferred : (deferredOps (s.keys k)).Perm (op :: ((s.keys k).readCbList ++ more)) := by
      unfold deferredOps
      rw [hlist]
      exact List.perm_middle
    have hplace : place op = some (.deferred k) :=
      (h.placed.mem_iff (.deferred k) op).mp (hdeferred.mem_iff.mpr List.mem_cons_self)
    have hcode : (s.ops op).op = .none := by
      by_contra hbusy
      exact Bool.false_ne_true ((h.code op _ hplace).mp hbusy)
    simp only
    generalize hnext : (s.goto t ((k, .drainOwnCall op (s.keys k).cb.onWriteComplete) :: rest)).setKey k
      { s.keys k with writeCbList := more } = next
    have hkeys : next.keys = Function.update s.keys k { s.keys k with writeCbList := more } := by
      rw [← hnext]
      rfl
    have hstack : next.stack = Function.update s.stack t
        ((k, .drainOwnCall op (s.keys k).cb.onWriteComplete) :: rest) := by
      rw [← hnext]
      rfl
    have hops : next.ops = s.ops := by
      rw [← hnext]
      rfl
    have hentered : next.entered = s.entered := by
      rw [← hnext]
      rfl
    have hsubmitted : next.submitted = s.submitted := by
      rw [← hnext]
      rfl
    have hne : Slot.called t ≠ .deferred k := nofun
    refine leads_of_entered (h.taken hne ?_ (.inr ?_) (fun j hj hj' => ?_) (by rw [hops]; exact hcode)
      (fun o _ => by rw [hops]) hentered hsubmitted) hentered
    · rw [slots_deferred hkeys]
      exact hdeferred
    · rw [slots_called hstack, calledOps_cons]
      show (op :: calledOps rest).Perm (op :: calledOps (s.stack t))
      rw [hold]
    · refine slots_perm hkeys hstack (fun _ => List.Perm.refl _) (fun he => absurd he hj) (fun he => absurd he hj')
        fun _ => ?_
      rw [holdDrained]
      exact List.Perm.refl _

/-- A pass of the drain over `write_list`: the operation keeps its code. -/
theorem leads_drainList (h : Inv s place) (hs : s.stack t = (k, .drainList) :: rest) :
    Leads s (runFrame s t k rest .drainList) := by
  rw [runFrame]
  cases hlist : (s.keys k).writeList with
  | nil => exact h.leads_goto hs rfl rfl rfl rfl
  | cons op more =>
    have hold : calledOps (s.stack t) = calledOps rest := by
      rw [hs, calledOps_cons]
      rfl
    have holdDrained : drainedOps (s.stack t) = drainedOps rest := by
      rw [hs, drainedOps_cons]
      rfl
    have hpending : (pendingOps (s.keys k)).Perm
        (op :: ((s.keys k).readList ++ ((s.keys k).acceptList ++ more))) := by
      unfold pendingOps
      rw [hlist, ← List.append_assoc, ← List.append_assoc]
      exact List.perm_middle
    simp only
    generalize hnext : (s.goto t ((k, .drainListCall op) :: rest)).setKey k { s.keys k with writeList := more } = next
    have hkeys : next.keys = Function.update s.keys k { s.keys k with writeList := more } := by
      rw [← hnext]
      rfl
    have hstack : next.stack = Function.update s.stack t ((k, .drainListCall op) :: rest) := by
      rw [← hnext]
      rfl
    have hops : next.ops = s.ops := by
      rw [← hnext]
      rfl
    have hentered : next.entered = s.entered := by
      rw [← hnext]
      rfl
    have hsubmitted : next.submitted = s.submitted := by
      rw [← hnext]
      rfl
    have hleft : (s.slots (.pending k)).Perm (op :: next.slots (.pending k)) := by
      rw [slots_pending hkeys]
      exact hpending
    have hright : (next.slots (.drained t)).Perm (op :: s.slots (.drained t)) := by
      rw [slots_drained hstack, drainedOps_cons]
      show (op :: drainedOps rest).Perm (op :: drainedOps (s.stack t))
      rw [holdDrained]
    obtain ⟨hplace, hplaced⟩ := h.placed.move (fun he => by cases he) hleft hright fun i hi hi' =>
      slots_perm hkeys hstack (fun he => absurd he hi) (fun _ => List.Perm.refl _)
        (fun _ => List.Perm.of_eq (Eq.trans rfl hold.symm)) fun he => absurd he hi'
    refine leads_of_entered ⟨_, h.of_move hplaced (fun i hi => ?_) (fun o _ => by rw [hops]) ?_ fun o _ => ?_⟩ hentered
    · rw [← Option.some.inj hi, hops]
      exact iff_of_true ((h.code op _ hplace).mpr rfl) rfl
    · have hacc := h.accounted op
      rw [hplace] at hacc
      rw [hentered, hsubmitted]
      exact hacc
    · rw [hentered, hsubmitted]
      exact ⟨rfl, rfl⟩

/-- Every frame but the call of the drain goes on to where no pending operation is given to a callback. -/
theorem leads_run (h : Inv s place) (hs : s.stack t = (k, frame) :: rest) (hframe : frame.drained = none) :
    Leads s (runFrame s t k rest frame) := by
  cases frame with
  | callback => exact h.leads_goto hs rfl rfl rfl rfl
  | dispatchRead op onReadComplete =>
    obtain ⟨hcall, hgoto⟩ := h.leads_call ((k, .readNoLock) :: rest) hs rfl rfl rfl
      rfl
    rw [runFrame]
    split
    · exact hcall
    · exact hgoto
  | dispatchAccept op =>
    obtain ⟨hcall, hgoto⟩ := h.leads_call rest hs rfl rfl rfl rfl
    rw [runFrame]
    split
    · exact hcall
    · exact hgoto
  | dispatchWrite op =>
    obtain ⟨hcall, hgoto⟩ := h.leads_call ((k, .writeNoLock) :: rest) hs rfl rfl rfl
      rfl
    rw [runFrame]
    split
    · exact hcall
    · exact hgoto
  | dispatchConnect =>
    rw [runFrame]
    split
    · exact h.leads_goto hs rfl rfl rfl rfl
    · exact h.leads_goto hs rfl rfl rfl rfl
  | readNoLock => exact h.leads_noLock hs rfl rfl dispatchReadEventNoLock_effect
  | readNoLockCall op =>
    exact (h.leads_call ((k, .readNoLock) :: rest) hs rfl rfl rfl rfl).1
  | writeNoLock => exact h.leads_noLock hs rfl rfl dispatchWriteEventNoLock_effect
  | writeNoLockCall op =>
    exact (h.leads_call ((k, .writeNoLock) :: rest) hs rfl rfl rfl rfl).1
  | postRead op =>
    obtain ⟨hcall, hgoto⟩ := h.leads_call rest hs rfl rfl rfl rfl
    rw [runFrame]
    split
    · exact hcall
    · exact hgoto
  | postWrite op =>
    obtain ⟨hcall, hgoto⟩ := h.leads_call rest hs rfl rfl rfl rfl
    rw [runFrame]
    split
    · exact hcall
    · exact hgoto
  | postAccept op =>
    obtain ⟨hcall, hgoto⟩ := h.leads_call rest hs rfl rfl rfl rfl
    rw [runFrame]
    split
    · exact hcall
    · exact hgoto
  | drain =>
    rw [runFrame]
    cases (s.keys k).writeCallbackThread with
    | none => exact h.leads_goto hs rfl rfl rfl rfl
    | some u =>
      simp only
      split
      · exact h.leads_drainOwn hs rfl rfl
      · exact h.leads_goto hs rfl rfl rfl rfl
  | drainOwn => exact h.leads_drainOwn hs rfl rfl
  | drainOwnCall op onWriteComplete =>
    obtain ⟨hcall, hgoto⟩ := h.leads_call ((k, .drainOwn) :: rest) hs rfl rfl rfl
      rfl
    rw [runFrame]
    split
    · exact hcall
    · exact hgoto
  | drainWait counter =>
    rw [runFrame]
    split
    · exact h.leads_goto hs rfl rfl rfl rfl
    · exact h.leads_goto hs rfl rfl rfl rfl
  | drainList => exact h.leads_drainList hs
  | drainListCall op => cases hframe
  | clear =>
    refine leads_of_entered ⟨place, ?_⟩ rfl
    exact h.goes hs rfl rfl rfl rfl rfl rfl rfl rfl
      rfl rfl rfl

end Frames

theorem start (raw : K → Key Op T) (ops : Op → OpRec) : Inv (IoqueueCallback.start raw ops) fun _ => none where
  placed := Placed.empty fun i => by cases i <;> rfl
  code op i hi := by cases hi
  accounted op := le_rfl

theorem leads_setKey (h : Inv s place) {key : Key Op T} (hpending : (pendingOps key).Sublist (pendingOps (s.keys k)))
    (hdeferred : (deferredOps key).Sublist (deferredOps (s.keys k))) : Leads s (s.setKey k key) := by
  refine leads_of_entered (h.of_cleared (fun i => ?_) rfl rfl rfl) rfl
  cases i with
  | pending j =>
    show (pendingOps (Function.update s.keys k key j)).Sublist (pendingOps (s.keys j))
    by_cases hj : j = k
    · rw [hj, Function.update_self]
      exact hpending
    · rw [Function.update_of_ne hj]
  | deferred j =>
    show (deferredOps (Function.update s.keys k key j)).Sublist (deferredOps (s.keys j))
    by_cases hj : j = k
    · rw [hj, Function.update_self]
      exact hdeferred
    · rw [Function.update_of_ne hj]
  | called u => exact List.Sublist.refl _
  | drained u => exact List.Sublist.refl _

theorem leads_submit (h : Inv s place) (t : T) {op : Op} (hreusable : s.reusable op = true) {sec : Section Op T}
    (hcases : (sec.key = s.keys k ∧ sec.ops = s.ops) ∨ Submitted (s.keys k) s.ops sec op) :
    Leads s (s.submit k sec op) :=
  leads_of_entered (h.submit t hreusable hcases) rfl

/-- After a section the thread is in front of one call more at most, that of the operation the section completed. -/
theorem leads_enter (h : Inv s place) {sec : Section Op T} (heffect : Effect (s.keys k) s.ops sec)
    {frames : After Op → List (K × Frame Op)}
    (hcalled : ∀ after, calledOps (frames after) = (callOf after).toList ++ calledOps (s.stack t))
    (hdrained : ∀ after, drainedOps (frames after) = drainedOps (s.stack t)) :
    Leads s (s.enter k sec t (frames sec.after)) := by
  refine leads_of_entered (h.enter heffect ?_ (hdrained sec.after)) rfl
  rw [hcalled sec.after]
  cases callOf sec.after with
  | none => exact .inl rfl
  | some op => exact .inr ⟨op, rfl, rfl⟩

theorem leads_dispatch (h : Inv s place) {sec : Section Op T} (heffect : Effect (s.keys k) s.ops sec) :
    Leads s (s.enter k sec t (afterDispatch k (s.stack t) (s.keys k).cb sec.after)) :=
  h.leads_enter heffect (fun after => by cases after <;> rfl) fun after => by cases after <;> rfl

theorem leads_step (h : Inv s place) {a : Action Op T K} (ha : ∀ t, a ≠ .run t)
    (hstep : IoqueueCallback.step s a = some s') : Leads s s' := by
  cases a with
  | register k q args =>
    obtain ⟨-, hnext⟩ := Option.ite_none_right_eq_some.mp hstep
    rw [← Option.some.inj hnext]
    exact h.leads_setKey (List.nil_sublist _) (List.nil_sublist _)
  | recv t k op recvFrom size =>
    obtain ⟨hguard, hnext⟩ := Option.ite_none_right_eq_some.mp hstep
    rw [← Option.some.inj hnext]
    exact h.leads_submit t hguard.2 (recvSection_cases op (by split <;> exact nofun) size)
  | accept t k op =>
    obtain ⟨hguard, hnext⟩ := Option.ite_none_right_eq_some.mp hstep
    rw [← Option.some.inj hnext]
    exact h.leads_submit t hguard.2 (acceptSection_cases op)
  | send t k op sendTo size =>
    obtain ⟨hguard, hnext⟩ := Option.ite_none_right_eq_some.mp hstep
    rw [← Option.some.inj hnext]
    exact h.leads_submit t hguard.2 (sendSection_cases op (by split <;> exact nofun) size)
  | connect t k =>
    obtain ⟨-, hnext⟩ := Option.ite_none_right_eq_some.mp hstep
    rw [← Option.some.inj hnext]
    exact leads_of_entered (h.enter connectSection_effect (.inl rfl) rfl) rfl
  | dispatchRead t k bytes =>
    obtain ⟨-, hnext⟩ := Option.ite_none_right_eq_some.mp hstep
    rw [← Option.some.inj hnext]
    exact h.leads_dispatch (dispatchReadEvent_effect t bytes)
  | dispatchWrite t k res =>
    obtain ⟨-, hnext⟩ := Option.ite_none_right_eq_some.mp hstep
    rw [← Option.some.inj hnext]
    exact h.leads_dispatch (dispatchWriteEvent_effect t res)
  | dispatchException t k =>
    obtain ⟨-, hnext⟩ := Option.ite_none_right_eq_some.mp hstep
    rw [← Option.some.inj hnext]
    exact h.leads_dispatch dispatchExceptionEvent_effect
  | post t k op =>
    obtain ⟨-, hnext⟩ := Option.ite_none_right_eq_some.mp hstep
    rw [← Option.some.inj hnext]
    exact h.leads_enter (postCompletion_effect op) (fun after => by cases after <;> rfl) fun after => by cases after <;> rfl
  | unregister t k =>
    obtain ⟨-, hnext⟩ := Option.ite_none_right_eq_some.mp hstep
    split at hnext
    · rw [← Option.some.inj hnext]
      exact leads_of_entered ⟨place, h⟩ rfl
    · rw [← Option.some.inj hnext]
      generalize hkey : { s.keys k with fd := invalidSocket, closing := true } = key
      have hpending : pendingOps key = pendingOps (s.keys k) := by
        rw [← hkey]
        rfl
      have hdeferred : deferredOps key = deferredOps (s.keys k) := by
        rw [← hkey]
        rfl
      have hkeys : ((s.goto t ((k, .drain) :: s.stack t)).setKey k key).keys = Function.update s.keys k key := rfl
      have hstack : ((s.goto t ((k, .drain) :: s.stack t)).setKey k key).stack =
          Function.update s.stack t ((k, .drain) :: s.stack t) := rfl
      refine leads_of_entered ⟨place, h.of_same (fun i => ?_) (fun _ => rfl) rfl rfl⟩
        rfl
      exact slots_perm hkeys hstack (fun _ => List.Perm.of_eq hpending) (fun _ => List.Perm.of_eq hdeferred)
        (fun _ => List.Perm.refl _) fun _ => List.Perm.refl _
  | clearKey t k =>
    obtain ⟨-, hnext⟩ := Option.ite_none_right_eq_some.mp hstep
    rw [← Option.some.inj hnext]
    exact h.leads_setKey (List.nil_sublist _) (List.nil_sublist _)
  | opKeyInit t op =>
    obtain ⟨hguard, hnext⟩ := Option.ite_none_right_eq_some.mp hstep
    rw [← Option.some.inj hnext]
    have hplace := h.free_of_count hguard.2
    refine leads_of_entered ⟨place, h.placed, fun o i hi => ?_, h.accounted⟩ rfl
    have ho : o ≠ op := by
      intro he
      rw [he, hplace] at hi
      cases hi
    have hcode : (setOp s.ops op ⟨.none, 0, 0, 0⟩ o).op = (s.ops o).op := code_setOp_of_ne s.ops _ o ho
    exact (iff_of_eq (congrArg (· ≠ Operation.none) hcode)).trans (h.code o i hi)
  | setConcurrency t k allow =>
    obtain ⟨-, hnext⟩ := Option.ite_none_right_eq_some.mp hstep
    rw [← Option.some.inj hnext]
    exact h.leads_setKey (List.Sublist.refl _) (List.Sublist.refl _)
  | run t => exact absurd rfl (ha t)

theorem step (h : Inv s place) {a : Action Op T K} (hnot : NotPending s) (hstep : IoqueueCallback.step s a = some s') :
    (∃ place', Inv s' place') ∧ (NotPending s' ↔ NothingDrained s a) := by
  by_cases hrun : ∃ t, a = .run t
  swap
  · have ha : ∀ t, a ≠ .run t := fun t he => hrun ⟨t, he⟩
    obtain ⟨hinv, hkeeps⟩ := h.leads_step ha hstep
    refine ⟨hinv, iff_of_true (hkeeps hnot) ?_⟩
    cases a with
    | run t => exact absurd rfl (ha t)
    | _ => exact trivial
  obtain ⟨t, rfl⟩ := hrun
  rw [IoqueueCallback.step] at hstep
  cases hs : s.stack t with
  | nil =>
    rw [hs] at hstep
    cases hstep
  | cons f rest =>
    obtain ⟨k, frame⟩ := f
    rw [hs] at hstep
    rw [← Option.some.inj hstep]
    cases hdrained : frame.drained with
    | none =>
      obtain ⟨hinv, hkeeps⟩ := h.leads_run hs hdrained
      have hkey : drainedKey (s.stack t) = none := by
        rw [hs]
        cases frame with
        | drainListCall op => cases hdrained
        | _ => rfl
      refine ⟨hinv, iff_of_true (hkeeps hnot) fun k' hk' => ?_⟩
      rw [hkey] at hk'
      cases hk'
    | some op =>
      have hframe : frame = .drainListCall op := by
        cases frame with
        | drainListCall o => exact congrArg Frame.drainListCall (Option.some.inj hdrained)
        | _ => cases hdrained
      rw [hframe] at hs ⊢
      obtain ⟨hbusy, hcallback, hgoto⟩ := h.callDrained ((k, .drainList) :: rest) hs rfl rfl
      have hcond : NothingDrained s (.run t) ↔ (s.keys k).cb.onWriteComplete = false := by
        have hkey : drainedKey (s.stack t) = some k := by
          rw [hs]
          rfl
        rw [NothingDrained, hkey]
        constructor
        · intro hall
          exact hall k rfl
        · intro hcb k' hk'
          rw [← Option.some.inj hk']
          exact hcb
      rw [hcond, runFrame]
      by_cases hcb : (s.keys k).cb.onWriteComplete = true
      · rw [if_pos hcb, hcb]
        refine ⟨hcallback, iff_of_false (fun hall => ?_) nofun⟩
        exact hbusy (hall (op, (s.ops op).op) List.mem_cons_self)
      · rw [if_neg hcb]
        exact ⟨hgoto, iff_of_true hnot ((Bool.not_eq_true _).mp hcb)⟩

end Inv

end Placing

/-- In every run, the callbacks are called with operation keys that are not pending, in every state reached, exactly
when the drain of `pj_ioqueue_unregister` calls no callback for an operation of `write_list`. -/
theorem not_pending_iff [DecidableEq Op] [DecidableEq T] [DecidableEq K] {raw : K → Key Op T} {ops : Op → OpRec}
    {acts : List (Action Op T K)} {s : State Op T K} (hrun : exec step (start raw ops) acts = some s) :
    (∀ n v, exec step (start raw ops) (acts.take n) = some v → NotPending v) ↔
      Meets step NothingDrained (start raw ops) acts := by
  have hinv : ∃ place, Inv (start raw ops) place := ⟨_, Inv.start raw ops⟩
  refine forall_take_iff_meets (P := fun s => ∃ place, Inv s place) ?_ hinv (fun call hcall => by cases hcall) hrun
  rintro s a t ⟨place, h⟩ hnot hstep
  exact h.step hnot hstep

/-- A sample ioqueue with operation keys and threads `true` and `false`, and one key. -/
def sampleStart : State Bool Bool Unit := start (fun _ => blankKey) fun _ => ⟨.none, 0, 0, 0⟩

def sampleRegister : Action Bool Bool Unit :=
  .register () (ioqueueCreate 4 64 true (fun _ => blankKey) (fun _ => ⟨.none, 0, 0, 0⟩) fun _ => 0)
    ⟨5, none, ⟨true, true, true, true⟩, some .stream, true, ⟨0, 0⟩⟩

/-- A send goes pending and is dispatched, and the callback sends again with its operation key. -/
def sendsAgain : List (Action Bool Bool Unit) :=
  [sampleRegister, .send true () true false 8, .dispatchWrite false () (.sent 8), .run false,
    .send false () true false 3]

/-- Two sends are pending when the key is unregistered. -/
def drainsTwo : List (Action Bool Bool Unit) :=
  [sampleRegister, .send true () true false 8, .send true () false false 3, .unregister true (), .run true, .run true,
    .run true]

theorem not_pending_sendsAgain : ∃ s, exec step sampleStart sendsAgain = some s ∧ s.entered = [(true, .none)] ∧
    ioqueueIsPending s.ops true = true ∧
    ∀ n v, exec step sampleStart (sendsAgain.take n) = some v → NotPending v := by
  have hsome := Option.some_get (x := exec step sampleStart sendsAgain) (by decide)
  refine ⟨_, hsome.symm, by decide, by decide, ?_⟩
  exact (not_pending_iff hsome.symm).mpr (by decide)

/-- The callback is called for the first of them while it is marked as a pending send. -/
theorem pending_when_drained : ∃ s, exec step sampleStart drainsTwo = some s ∧ s.entered = [(true, .send)] ∧
    ioqueueIsPending s.ops true = true ∧ ¬NotPending s := by
  have hsome := Option.some_get (x := exec step sampleStart drainsTwo) (by decide)
  have hentered : ((exec step sampleStart drainsTwo).get (by decide)).entered = [(true, .send)] := by decide
  refine ⟨_, hsome.symm, hentered, by decide, fun hnot => ?_⟩
  have hcode := hnot (true, .send) (by rw [hentered]; exact List.mem_singleton_self _)
  cases hcode

end PjProject.IoqueueCallback
