import PjProject.IoqueueKeys

/-! The descriptor sets of the select ioqueue against the operations pending on its keys, as
`validate_sets` compares them. A section that clears a bit of its key is right only when nothing else
pending on the key needs the bit; with that, the law holds in every state reached. -/

namespace PjProject.Ioqueue

variable {Op T : Type}

/-- `validate_sets` for one key. -/
structure SetsAgree (sets : FdSets) (key : Key Op T) : Prop where
  read : key.fd ∈ sets.rfdset ↔ key.readList ≠ [] ∨ key.acceptList ≠ []
  write : key.fd ∈ sets.wfdset ↔ key.writeList ≠ [] ∨ key.connecting = true
  exception : key.fd ∈ sets.xfdset ↔ key.connecting = true

/-- `validate_sets` for the keys that are registered. -/
def ValidateSets (q : Queue Op T) : Prop := ∀ k, q.Registered k → SetsAgree q.sets (q.keys k)

/-- Nothing that stays pending on the key needs a bit that the section clears, and the section clears
the bit that nothing needs any more. -/
def Call.Sole [DecidableEq Op] (key : Key Op T) : Call Op T → Prop
  | .dispatchRead .. => ∀ op, key.acceptList = [op] → key.readList = []
  | .dispatchWrite .. | .dispatchException => key.connecting = true → key.writeList = []
  | .postCompletion op =>
    if op ∈ key.readList then key.readList.erase op = [] ∧ key.acceptList = []
    else if op ∈ key.writeList then key.writeList.erase op = [] ∧ key.connecting = false
    else if op ∈ key.acceptList then key.acceptList.erase op ≠ [] ∨ key.readList ≠ []
    else key.connecting = true → key.writeList = []
  | .recv .. | .accept .. | .send .. | .connect | .dispatchReadNoLock | .dispatchWriteNoLock => True

def FdSets.bits (sets : FdSets) (fd : Int) : Events :=
  ⟨decide (fd ∈ sets.rfdset), decide (fd ∈ sets.wfdset), decide (fd ∈ sets.xfdset)⟩

def Key.needs (key : Key Op T) : Events :=
  ⟨!key.readList.isEmpty || !key.acceptList.isEmpty, !key.writeList.isEmpty || key.connecting,
    key.connecting⟩

def SetChange.onBits (b : Events) : SetChange → Events
  | .keep => b
  | .add ev => ⟨b.readable || ev.readable, b.writeable || ev.writeable, b.exception || ev.exception⟩
  | .remove ev =>
    ⟨b.readable && !ev.readable, b.writeable && !ev.writeable, b.exception && !ev.exception⟩

theorem Events.eq_iff {a b : Events} : a = b ↔ (a.readable = true ↔ b.readable = true) ∧
    (a.writeable = true ↔ b.writeable = true) ∧ (a.exception = true ↔ b.exception = true) := by
  obtain ⟨ar, aw, ax⟩ := a
  obtain ⟨br, bw, bx⟩ := b
  simp

theorem setsAgree_iff {sets : FdSets} {key : Key Op T} : SetsAgree sets key ↔ sets.bits key.fd = key.needs := by
  have hbits : sets.bits key.fd = key.needs ↔
      (key.fd ∈ sets.rfdset ↔ key.readList ≠ [] ∨ key.acceptList ≠ []) ∧
      (key.fd ∈ sets.wfdset ↔ key.writeList ≠ [] ∨ key.connecting = true) ∧
      (key.fd ∈ sets.xfdset ↔ key.connecting = true) := by
    simp [Events.eq_iff, FdSets.bits, Key.needs]
  rw [hbits]
  exact ⟨fun h => ⟨h.read, h.write, h.exception⟩, fun h => ⟨h.1, h.2.1, h.2.2⟩⟩

theorem SetChange.bits_apply (c : SetChange) (sets : FdSets) (fd : Int) :
    (c.apply sets fd).bits fd = c.onBits (sets.bits fd) := by
  cases c with
  | keep => rfl
  | add ev =>
    obtain ⟨_ | _, _ | _, _ | _⟩ := ev <;>
      simp [SetChange.apply, ioqueueAddToSet, FdSets.bits, SetChange.onBits]
  | remove ev =>
    obtain ⟨_ | _, _ | _, _ | _⟩ := ev <;>
      simp [SetChange.apply, ioqueueRemoveFromSet, FdSets.bits, SetChange.onBits]

theorem SetChange.bits_apply_of_ne (c : SetChange) (sets : FdSets) {fd fd' : Int} (hne : fd' ≠ fd) :
    (c.apply sets fd).bits fd' = sets.bits fd' := by
  cases c with
  | keep => rfl
  | add ev =>
    obtain ⟨_ | _, _ | _, _ | _⟩ := ev <;>
      simp [SetChange.apply, ioqueueAddToSet, FdSets.bits, hne]
  | remove ev =>
    obtain ⟨_ | _, _ | _, _ | _⟩ := ev <;>
      simp [SetChange.apply, ioqueueRemoveFromSet, FdSets.bits, hne]

/-- A section of a registered key keeps the bits in line with what is pending exactly when it is alone
in needing what it clears. -/
theorem Call.run_needs_iff [DecidableEq Op] (key : Key Op T) (ops : Op → OpRec) (c : Call Op T)
    (hopen : key.closing = false) :
    (c.run key ops).change.onBits key.needs = (c.run key ops).key.needs ↔ c.Sole key := by
  cases c with
  | recv op kind size =>
    simp only [Call.run, recvSection, hopen, Call.Sole, iff_true, Bool.false_eq_true, if_false]
    split_ifs <;> simp [Events.eq_iff, SetChange.onBits, Key.needs, readableEvent]
  | accept op =>
    simp only [Call.run, acceptSection, hopen, Call.Sole, iff_true, Bool.false_eq_true, if_false]
    split_ifs <;> simp [Events.eq_iff, SetChange.onBits, Key.needs, readableEvent]
  | send op kind size =>
    simp only [Call.run, sendSection, hopen, Call.Sole, iff_true, Bool.false_eq_true, if_false]
    split_ifs <;> simp [Events.eq_iff, SetChange.onBits, Key.needs, writeableEvent]
  | connect =>
    simp [Call.run, connectSection, hopen, Call.Sole, SetChange.onBits, Key.needs, connectEvents]
  | postCompletion op =>
    simp only [Call.run, Ioqueue.postCompletion, Call.Sole]
    split_ifs with hread hwrite haccept hconnecting
    · have hne := List.ne_nil_of_mem hread
      simp [Events.eq_iff, SetChange.onBits, Key.needs, readableEvent, hne]
    · have hne := List.ne_nil_of_mem hwrite
      simp [Events.eq_iff, SetChange.onBits, Key.needs, writeableEvent, hne]
    · have hne := List.ne_nil_of_mem haccept
      simp [Events.eq_iff, SetChange.onBits, Key.needs, hne, or_comm]
    · simp [Events.eq_iff, SetChange.onBits, Key.needs, connectEvents, hconnecting]
    · simp [SetChange.onBits, Key.needs, hconnecting]
  | dispatchRead t bytes =>
    simp only [Call.run, dispatchReadEvent, hopen, Call.Sole, Bool.false_eq_true, if_false]
    cases haccept : key.acceptList with
    | cons acceptOp rest =>
      cases rest with
      | nil => simp [Events.eq_iff, SetChange.onBits, Key.needs, readableEvent, haccept]
      | cons next rest => simp [SetChange.onBits, Key.needs, haccept]
    | nil =>
      cases hread : key.readList with
      | nil => simp [SetChange.onBits]
      | cons readOp rest =>
        cases hconc : key.allowConcurrent <;> cases hthread : key.readCallbackThread <;> cases rest <;>
          simp [SetChange.onBits, Key.needs, readableEvent, haccept, hread]
  | dispatchReadNoLock =>
    simp only [Call.run, dispatchReadEventNoLock, hopen, Call.Sole, iff_true, Bool.false_eq_true, if_false]
    split <;> rfl
  | dispatchWrite t res =>
    simp only [Call.run, dispatchWriteEvent, hopen, Call.Sole, Bool.false_eq_true, if_false]
    cases hconnecting : key.connecting with
    | true => simp [Events.eq_iff, SetChange.onBits, Key.needs, connectEvents, hconnecting]
    | false =>
      cases hwrite : key.writeList with
      | nil => simp [SetChange.onBits]
      | cons writeOp rest =>
        simp only [Bool.false_eq_true, if_false, false_imp_iff, iff_true]
        split
        · cases hconc : key.allowConcurrent <;> cases hthread : key.writeCallbackThread <;>
            cases rest <;> simp [SetChange.onBits, Key.needs, writeableEvent, hconnecting, hwrite]
        · rfl
  | dispatchWriteNoLock =>
    simp only [Call.run, dispatchWriteEventNoLock, Call.Sole, iff_true]
    split <;> rfl
  | dispatchException =>
    simp only [Call.run, dispatchExceptionEvent, hopen, Call.Sole, Bool.false_eq_true, if_false]
    cases hconnecting : key.connecting <;>
      simp [Events.eq_iff, SetChange.onBits, Key.needs, connectEvents, hconnecting]

theorem Call.run_onBits_of_closing [DecidableEq Op] (key : Key Op T) (ops : Op → OpRec) (c : Call Op T)
    (hclosing : key.closing = true) :
    (c.run key ops).change.onBits ⟨false, false, false⟩ = ⟨false, false, false⟩ := by
  cases c with
  | recv op kind size => simp [Call.run, recvSection, hclosing, SetChange.onBits]
  | accept op => simp [Call.run, acceptSection, hclosing, SetChange.onBits]
  | send op kind size => simp [Call.run, sendSection, hclosing, SetChange.onBits]
  | connect => simp [Call.run, connectSection, hclosing, SetChange.onBits]
  | postCompletion op =>
    simp only [Call.run, Ioqueue.postCompletion]
    split_ifs <;> rfl
  | dispatchRead t bytes => simp [Call.run, dispatchReadEvent, hclosing, SetChange.onBits]
  | dispatchReadNoLock => simp [Call.run, dispatchReadEventNoLock, hclosing, SetChange.onBits]
  | dispatchWrite t res => simp [Call.run, dispatchWriteEvent, hclosing, SetChange.onBits]
  | dispatchWriteNoLock =>
    simp only [Call.run, dispatchWriteEventNoLock]
    split <;> rfl
  | dispatchException =>
    cases hconnecting : key.connecting <;>
      simp [Call.run, dispatchExceptionEvent, hclosing, hconnecting, SetChange.onBits]

/-- What the law for the whole queue rests on: sockets are registered once, and a descriptor of no
registered key has no bit. -/
structure SetsInv (q : Queue Op T) : Prop where
  agree : ∀ k, q.Registered k → q.sets.bits (q.keys k).fd = (q.keys k).needs
  unused : ∀ fd, (∀ k, q.Registered k → (q.keys k).fd ≠ fd) → q.sets.bits fd = ⟨false, false, false⟩
  distinct : ∀ j k, q.Registered j → q.Registered k → (q.keys j).fd = (q.keys k).fd → j = k
  valid : ∀ k, q.Registered k → (q.keys k).fd ≠ invalidSocket
  closed : ∀ k ∈ q.activeList, (q.keys k).closing = true → (q.keys k).fd = invalidSocket

theorem setsInv_create (maxFd fdSetSize : Nat) (concurrency : Bool) (raw : Nat → Key Op T)
    (ops : Op → OpRec) (grpRef : Nat → Int) :
    SetsInv (ioqueueCreate maxFd fdSetSize concurrency raw ops grpRef) where
  agree _ hk := absurd hk.1 List.not_mem_nil
  unused _ _ := rfl
  distinct _ _ hj := absurd hj.1 List.not_mem_nil
  valid _ hk := absurd hk.1 List.not_mem_nil
  closed := nofun

namespace SetsInv

variable {q q' : Queue Op T}

/-- Steps that neither touch the sets nor what is pending on a registered key. -/
theorem of_same (h : SetsInv q) (hsets : q'.sets = q.sets)
    (hactive : ∀ k ∈ q'.activeList, k ∈ q.activeList) (hback : ∀ k, q.Registered k → k ∈ q'.activeList)
    (hfd : ∀ k ∈ q'.activeList, (q'.keys k).fd = (q.keys k).fd)
    (hclosing : ∀ k ∈ q'.activeList, (q'.keys k).closing = (q.keys k).closing)
    (hneeds : ∀ k, q'.Registered k → (q'.keys k).needs = (q.keys k).needs) : SetsInv q' := by
  have hreg : ∀ k, q'.Registered k → q.Registered k := fun k hk =>
    ⟨hactive k hk.1, hclosing k hk.1 ▸ hk.2⟩
  have hreg' : ∀ k, q.Registered k → q'.Registered k := fun k hk =>
    ⟨hback k hk, (hclosing k (hback k hk)).trans hk.2⟩
  constructor
  · intro k hk
    rw [hsets, hfd k hk.1, hneeds k hk]
    exact h.agree k (hreg k hk)
  · intro fd hfree
    rw [hsets]
    refine h.unused fd fun k hk => ?_
    rw [← hfd k (hback k hk)]
    exact hfree k (hreg' k hk)
  · intro j k hj hk heq
    rw [hfd j hj.1, hfd k hk.1] at heq
    exact h.distinct j k (hreg j hj) (hreg k hk) heq
  · intro k hk
    rw [hfd k hk.1]
    exact h.valid k (hreg k hk)
  · intro k hk hc
    rw [hfd k hk]
    exact h.closed k (hactive k hk) (hclosing k hk ▸ hc)

theorem section_step [DecidableEq Op] (h : SetsInv q) {k : Nat} (hk : k ∈ q.activeList) (c : Call Op T)
    (hsole : q.Registered k → c.Sole (q.keys k)) : SetsInv (q.runSection k (c.run (q.keys k) q.ops)) := by
  have hbooks : ∀ j, SameBooks (q.keys j) ((q.runSection k (c.run (q.keys k) q.ops)).keys j) :=
    q.setKey_books (c.run_books (q.keys k) q.ops)
  have hreg : ∀ j, (q.runSection k (c.run (q.keys k) q.ops)).Registered j ↔ q.Registered j := fun j => by
    simp only [Queue.Registered, (hbooks j).closing]
    rfl
  have hbits : ∀ fd, fd ≠ (q.keys k).fd →
      (q.runSection k (c.run (q.keys k) q.ops)).sets.bits fd = q.sets.bits fd := fun fd hne =>
    SetChange.bits_apply_of_ne _ _ hne
  have hself : (q.runSection k (c.run (q.keys k) q.ops)).sets.bits (q.keys k).fd =
      (c.run (q.keys k) q.ops).change.onBits (q.sets.bits (q.keys k).fd) := SetChange.bits_apply ..
  have hother : ∀ j, q.Registered j → j ≠ k → (q.keys j).fd ≠ (q.keys k).fd := by
    intro j hj hjk heq
    cases hclosing : (q.keys k).closing with
    | true => exact h.valid j hj (heq.trans (h.closed k hk hclosing))
    | false => exact hjk (h.distinct j k hj ⟨hk, hclosing⟩ heq)
  constructor
  · intro j hj
    rw [hreg] at hj
    rw [(hbooks j).fd]
    by_cases hjk : j = k
    · subst hjk
      rw [hself, h.agree j hj]
      refine ((c.run_needs_iff (q.keys j) q.ops hj.2).mpr (hsole hj)).trans ?_
      simp [Queue.runSection]
    · rw [hbits _ (hother j hj hjk), h.agree j hj]
      simp [Queue.runSection, Queue.setKey, hjk]
  · intro fd hfree
    have hfree' : ∀ j, q.Registered j → (q.keys j).fd ≠ fd := fun j hj =>
      (hbooks j).fd ▸ hfree j ((hreg j).mpr hj)
    by_cases hfd : fd = (q.keys k).fd
    · subst hfd
      cases hclosing : (q.keys k).closing with
      | true => rw [hself, h.unused _ hfree', c.run_onBits_of_closing _ _ hclosing]
      | false => exact absurd rfl (hfree' k ⟨hk, hclosing⟩)
    · rw [hbits fd hfd, h.unused fd hfree']
  · intro i j hi hj heq
    rw [(hbooks i).fd, (hbooks j).fd] at heq
    exact h.distinct i j ((hreg i).mp hi) ((hreg j).mp hj) heq
  · intro j hj
    rw [(hbooks j).fd]
    exact h.valid j ((hreg j).mp hj)
  · intro j hj hclosing
    rw [(hbooks j).fd]
    exact h.closed j hj ((hbooks j).closing ▸ hclosing)

theorem scan (h : SetsInv q) (now : TimeVal) : SetsInv (scanClosingKeys q now) :=
  h.of_same rfl (fun _ hk => hk) (fun _ hk => hk.1) (fun _ _ => rfl) (fun _ _ => rfl) fun _ _ => rfl

theorem success (h : SetsInv q) {args : RegisterArgs} {k : Nat} (rest : List Nat)
    (hk : k ∉ q.activeList) (hsock : args.sock ≠ invalidSocket)
    (hnew : ∀ j, q.Registered j → (q.keys j).fd ≠ args.sock) : SetsInv (afterSuccess q args k rest) := by
  have hsets : (afterSuccess q args k rest).sets = q.sets := by
    cases hg : args.grpLock <;> simp [afterSuccess, hg, addRef, rescanFdset, Queue.setKey]
  have hactive : (afterSuccess q args k rest).activeList = q.activeList ++ [k] := by
    cases hg : args.grpLock <;> simp [afterSuccess, hg, addRef, rescanFdset, Queue.setKey]
  have hkeys : (afterSuccess q args k rest).keys =
      Function.update q.keys k (ioqueueInitKey q (q.keys k) args) := by
    cases hg : args.grpLock <;> simp [afterSuccess, hg, addRef, rescanFdset, Queue.setKey]
  have hself : (afterSuccess q args k rest).keys k = ioqueueInitKey q (q.keys k) args := by
    rw [hkeys, Function.update_self]
  have hother : ∀ j ∈ q.activeList, (afterSuccess q args k rest).keys j = q.keys j := by
    intro j hj
    have hjk : j ≠ k := fun he => hk (he ▸ hj)
    rw [hkeys, Function.update_of_ne hjk]
  have hreg : ∀ j, (afterSuccess q args k rest).Registered j → q.Registered j ∨ j = k := by
    rintro j ⟨hj, hopen⟩
    rw [hactive] at hj
    rcases List.mem_append.mp hj with hj | hj
    · exact .inl ⟨hj, hother j hj ▸ hopen⟩
    · exact .inr (List.mem_singleton.mp hj)
  have hnone : q.sets.bits args.sock = ⟨false, false, false⟩ := h.unused _ hnew
  constructor
  · intro j hj
    rw [hsets]
    rcases hreg j hj with hj | rfl
    · rw [hother j hj.1]
      exact h.agree j hj
    · rw [hself]
      exact hnone
  · intro fd hfree
    rw [hsets]
    refine h.unused fd fun j hj => ?_
    rw [← hother j hj.1]
    refine hfree j ⟨?_, ?_⟩
    · rw [hactive]
      exact List.mem_append_left _ hj.1
    · rw [hother j hj.1]
      exact hj.2
  · intro i j hi hj heq
    rcases hreg i hi with hiold | hik <;> rcases hreg j hj with hjold | hjk
    · rw [hother i hiold.1, hother j hjold.1] at heq
      exact h.distinct i j hiold hjold heq
    · rw [hother i hiold.1, hjk, hself] at heq
      exact absurd heq (hnew i hiold)
    · rw [hother j hjold.1, hik, hself] at heq
      exact absurd heq.symm (hnew j hjold)
    · rw [hik, hjk]
  · intro j hj
    rcases hreg j hj with hj | rfl
    · rw [hother j hj.1]
      exact h.valid j hj
    · rw [hself]
      exact hsock
  · intro j hj hclosing
    rw [hactive] at hj
    rcases List.mem_append.mp hj with hj | hj
    · rw [hother j hj] at hclosing ⊢
      exact h.closed j hj hclosing
    · rw [List.mem_singleton.mp hj, hself] at hclosing
      exact absurd hclosing (by simp [ioqueueInitKey])

theorem failure (h : SetsInv q) {args : RegisterArgs} {k : Nat} (rest : List Nat) (hk : k ∉ q.activeList) :
    SetsInv (afterFailure q args k rest) := by
  have hother : ∀ j ∈ q.activeList, (afterFailure q args k rest).keys j = q.keys j := fun j hj =>
    Queue.setKey_of_ne _ _ fun he => hk (he ▸ hj)
  exact h.of_same rfl (fun _ hj => hj) (fun _ hj => hj.1) (fun j hj => by rw [hother j hj])
    (fun j hj => by rw [hother j hj]) fun j hj => by rw [hother j hj.1]

/-- A socket is closed: its bits go, and its key has no descriptor any more. -/
theorem unregister (h : SetsInv q) {k : Nat} (hk : q.Registered k) : SetsInv (unregisterSection q k) := by
  have hself : (unregisterSection q k).keys k =
      { q.keys k with fd := invalidSocket, closing := true } := by
    rw [unregisterSection_eq hk.2]
    exact q.setKey_self ..
  have hother : ∀ j, j ≠ k → (unregisterSection q k).keys j = q.keys j := by
    intro j hj
    rw [unregisterSection_eq hk.2]
    exact q.setKey_of_ne _ hj
  have hactive : (unregisterSection q k).activeList = q.activeList := by
    rw [unregisterSection_eq hk.2]
    rfl
  have hsets : (unregisterSection q k).sets =
      (SetChange.remove ⟨true, true, true⟩).apply q.sets (q.keys k).fd := by
    rw [unregisterSection_eq hk.2]
    simp [h.valid k hk, SetChange.apply]
  have hreg : ∀ j, (unregisterSection q k).Registered j ↔ q.Registered j ∧ j ≠ k := by
    intro j
    by_cases hjk : j = k
    · simp [Queue.Registered, hjk, hself]
    · simp [Queue.Registered, hactive, hother j hjk, hjk]
  constructor
  · intro j hj
    obtain ⟨hj, hjk⟩ := (hreg j).mp hj
    rw [hother j hjk, hsets, SetChange.bits_apply_of_ne _ _ fun he => hjk (h.distinct j k hj hk he)]
    exact h.agree j hj
  · intro fd hfree
    rw [hsets]
    by_cases hfd : fd = (q.keys k).fd
    · rw [hfd, SetChange.bits_apply]
      simp [SetChange.onBits]
    · rw [SetChange.bits_apply_of_ne _ _ hfd]
      refine h.unused fd fun j hj => ?_
      by_cases hjk : j = k
      · exact hjk ▸ Ne.symm hfd
      · rw [← hother j hjk]
        exact hfree j ((hreg j).mpr ⟨hj, hjk⟩)
  · intro i j hi hj heq
    obtain ⟨hi, hik⟩ := (hreg i).mp hi
    obtain ⟨hj, hjk⟩ := (hreg j).mp hj
    rw [hother i hik, hother j hjk] at heq
    exact h.distinct i j hi hj heq
  · intro j hj
    obtain ⟨hj, hjk⟩ := (hreg j).mp hj
    rw [hother j hjk]
    exact h.valid j hj
  · intro j hj hclosing
    by_cases hjk : j = k
    · rw [hjk, hself]
    · rw [hother j hjk] at hclosing ⊢
      exact h.closed j (hactive ▸ hj) hclosing

/-- The counter and the callbacks of a key do not matter here, nor what is pending on a closing key or
its place on the lists. -/
theorem of_key (h : SetsInv q) {k : Nat} {key : Key Op T} (hkeys : q'.keys = (q.setKey k key).keys)
    (hsets : q'.sets = q.sets) (hfd : key.fd = (q.keys k).fd) (hclosing : key.closing = (q.keys k).closing)
    (hneeds : key.closing = false → key.needs = (q.keys k).needs) (hactive : q'.activeList = q.activeList ∨
      ((q.keys k).closing = true ∧ q'.activeList = q.activeList.erase k)) : SetsInv q' := by
  refine h.of_same hsets (fun j hj => ?_) (fun j hj => ?_) (fun j _ => ?_) (fun j _ => ?_) fun j hj => ?_
  · rcases hactive with hactive | ⟨-, hactive⟩
    · exact hactive ▸ hj
    · exact List.mem_of_mem_erase (hactive ▸ hj)
  · rcases hactive with hactive | ⟨hc, hactive⟩
    · exact hactive ▸ hj.1
    · have hjk : j ≠ k := by
        rintro rfl
        exact absurd (hj.2.symm.trans hc) (by decide)
      rw [hactive]
      exact (List.mem_erase_of_ne hjk).mpr hj.1
  · by_cases hjk : j = k
    · rw [hkeys, hjk, Queue.setKey_self, hfd]
    · rw [hkeys, Queue.setKey_of_ne _ _ hjk]
  · by_cases hjk : j = k
    · rw [hkeys, hjk, Queue.setKey_self, hclosing]
    · rw [hkeys, Queue.setKey_of_ne _ _ hjk]
  · have hopen := hj.2
    by_cases hjk : j = k
    · rw [hkeys, hjk, Queue.setKey_self] at hopen ⊢
      exact hneeds hopen
    · rw [hkeys, Queue.setKey_of_ne _ _ hjk]

theorem addRef (h : SetsInv q) (g : Option Nat) : SetsInv (Ioqueue.addRef q g) := by
  cases g <;> exact ⟨h.agree, h.unused, h.distinct, h.valid, h.closed⟩

theorem decRef (h : SetsInv q) (g : Option Nat) : SetsInv (Ioqueue.decRef q g) := by
  cases g <;> exact ⟨h.agree, h.unused, h.distinct, h.valid, h.closed⟩

theorem decrement {s : State Op T} (h : SetsInv s.queue) (hkeys : Conserved s) {k : Nat}
    (hheld : 0 < s.held k) (now : TimeVal) : SetsInv (decrementCounter s.queue k now) := by
  by_cases hlast : (s.queue.keys k).refCount - 1 = 0
  · rw [decrementCounter_last now hlast]
    exact h.of_key rfl rfl rfl rfl (fun _ => rfl) (.inr ⟨hkeys.closing_of_last hheld hlast, rfl⟩)
  · rw [decrementCounter_more now hlast]
    exact h.of_key rfl rfl rfl rfl (fun _ => rfl) (.inl rfl)

end SetsInv

/-- The condition under which a step keeps the law: a socket is registered while no registered key has
it, and a section finds nothing else pending that needs a bit it clears. -/
def SoleUse [DecidableEq Op] (s : State Op T) : Action Op T → Prop
  | .register args => ∀ j, s.queue.Registered j → (s.queue.keys j).fd ≠ args.sock
  | .call k c => s.queue.Registered k → c.Sole (s.queue.keys k)
  | .take _ | .drop .. | .unregister _ | .drain _ | .unregisterEnd .. | .scan _ => True

theorem SetsInv.step [DecidableEq Op] {s t : State Op T} {a : Action Op T} (h : SetsInv s.queue)
    (hkeys : Conserved s) (hcond : SoleUse s a) (hstep : step s a = some t) : SetsInv t.queue := by
  cases a <;> simp only [Ioqueue.step, Option.ite_none_right_eq_some, Option.some.injEq] at hstep
  case register args =>
    subst hstep
    have hscan := hkeys.scan args.now
    rcases registerSock_cases s.queue args with ⟨hq, -⟩ | ⟨-, hq, -⟩ |
      ⟨k, rest, hfree, ⟨hsock, hq, -⟩ | ⟨hq, -⟩⟩
    · rw [hq]
      exact h
    · rw [hq]
      exact h.scan args.now
    · rw [hq]
      exact (h.scan args.now).success rest (fun hk => hscan.ne_front_of_active hfree hk rfl) hsock hcond
    · rw [hq]
      exact (h.scan args.now).failure rest fun hk => hscan.ne_front_of_active hfree hk rfl
  case call k c =>
    obtain ⟨henabled, rfl⟩ := hstep
    exact h.section_step (hkeys.active_of_enabled henabled) c hcond
  case take k =>
    obtain ⟨-, rfl⟩ := hstep
    have hcounted : SetsInv (incrementCounter s.queue k) :=
      h.of_key rfl rfl rfl rfl (fun _ => rfl) (.inl rfl)
    exact hcounted.addRef _
  case drop k now =>
    obtain ⟨hheld, rfl⟩ := hstep
    exact (h.decrement hkeys hheld now).decRef _
  case unregister k =>
    obtain ⟨hk, rfl⟩ := hstep
    cases hclosing : (s.queue.keys k).closing with
    | true => simpa only [unregisterSection, hclosing, if_true] using h
    | false => exact h.unregister ⟨hk.resolve_right (by simp [hclosing]), hclosing⟩
  case drain k =>
    obtain ⟨⟨-, hclosing⟩, rfl⟩ := hstep
    have hbooks := drainPendingWrites_books (s.queue.keys k)
    refine h.of_key rfl rfl hbooks.fd hbooks.closing (fun hopen => ?_) (.inl rfl)
    exact absurd (hopen.symm.trans (hbooks.closing.trans hclosing)) (by decide)
  case unregisterEnd k now =>
    obtain ⟨hk, rfl⟩ := hstep
    have hbooks : SameBooks (s.queue.keys k)
        { s.queue.keys k with cb := ⟨false, false, false, false⟩ } := ⟨rfl, rfl, rfl, rfl, rfl⟩
    have hcleared : SetsInv
        (s.queue.setKey k { s.queue.keys k with cb := ⟨false, false, false, false⟩ }) :=
      h.of_key rfl rfl rfl rfl (fun _ => rfl) (.inl rfl)
    exact (hcleared.decrement (hkeys.setKey_books hbooks) hk.1 now).decRef _
  case scan now =>
    subst hstep
    exact h.scan now

/-- In every run whose steps meet the condition, the law of `validate_sets` holds in every state. -/
theorem validate_sets_of_run [DecidableEq Op] {maxFd fdSetSize : Nat} {concurrency : Bool}
    {raw : Nat → Key Op T} {ops : Op → OpRec} {grpRef : Nat → Int} {acts : List (Action Op T)}
    {s : State Op T}
    (hmeets : Meets step SoleUse (init (ioqueueCreate maxFd fdSetSize concurrency raw ops grpRef)) acts)
    (hrun : exec step (init (ioqueueCreate maxFd fdSetSize concurrency raw ops grpRef)) acts = some s) :
    ValidateSets s.queue := by
  have hinv : Conserved s ∧ SetsInv s.queue := by
    refine exec_invariant_of_meets (P := fun s => Conserved s ∧ SetsInv s.queue) ?_
      ⟨conserved_init .., setsInv_create ..⟩ hmeets hrun
    intro s a t hs hcond hstep
    exact ⟨hs.1.step hstep, hs.2.step hs.1 hcond hstep⟩
  intro k hk
  exact setsAgree_iff.mpr (hinv.2.agree k hk)

/-- Two receives are pending on a connecting socket, and poll has found it readable. -/
def pendingRun : List (Action Nat Nat) :=
  [.register (sampleArgs 5 true ⟨0, 0⟩), .call 0 (.recv 1 .recv 100), .call 0 (.recv 2 .recv 100),
    .call 0 .connect, .take 0]

/-- The first receive is dispatched, the second keeps its bit. -/
theorem validate_sets_dispatched :
    ∃ s, exec step (blankQueue 2) (pendingRun ++ [.call 0 (.dispatchRead 9 40)]) = some s ∧
      (s.queue.keys 0).readList = [2] ∧ s.queue.sets = ⟨{5}, {5}, {5}⟩ ∧ ValidateSets s.queue := by
  have hsome := Option.some_get
    (x := exec step (blankQueue 2) (pendingRun ++ [.call 0 (.dispatchRead 9 40)])) (by decide)
  refine ⟨_, hsome.symm, by decide, by decide, validate_sets_of_run ?_ hsome.symm⟩
  refine ⟨fun j hj => absurd hj.1 (by simp [init, ioqueueCreate]), fun s1 h1 =>
    ⟨fun _ => trivial, fun s2 h2 => ⟨fun _ => trivial, fun s3 h3 => ⟨fun _ => trivial, fun s4 h4 =>
      ⟨trivial, fun s5 h5 => ⟨fun _ => ?_, fun _ _ => trivial⟩⟩⟩⟩⟩⟩
  obtain rfl := Option.some.inj h1
  obtain rfl := Option.some.inj h2
  obtain rfl := Option.some.inj h3
  obtain rfl := Option.some.inj h4
  obtain rfl := Option.some.inj h5
  have hnone : ∀ op : Nat, ([] : List Nat) = [op] → [1, 2] = [] := fun op h => by cases h
  exact hnone

/-- Posting the completion of one of two receives clears the bit that the other waits for. -/
theorem post_completion_clears_pending :
    ∃ s, exec step (blankQueue 2) (pendingRun ++ [.call 0 (.postCompletion 1)]) = some s ∧
      s.queue.Registered 0 ∧ (s.queue.keys 0).readList = [2] ∧ ¬ ValidateSets s.queue := by
  have hsome := Option.some_get
    (x := exec step (blankQueue 2) (pendingRun ++ [.call 0 (.postCompletion 1)])) (by decide)
  refine ⟨_, hsome.symm, ⟨by decide, by decide⟩, by decide, fun h => ?_⟩
  exact absurd ((h 0 ⟨by decide, by decide⟩).read.mpr (.inl (by decide))) (by decide)

end PjProject.Ioqueue
