import PjProject.IcePriority
import PjProject.HashTable
import PjProject.SelectionSort

/-! The checklist of an ICE session (`ice_session.c`): an array of checks, of which the first `count` are in the list.
The slots behind them keep what was in them, and are written and read there. -/

namespace PjProject.Ice

open IceRoles (Role RoleAttr)
open IcePriority (Timestamp cmpTimestamp calcCheckPrio)

/-- `pj_ice_cand_type`. -/
inductive CandType
  | host
  | srflx
  | prflx
  | relayed
  deriving DecidableEq, Repr

/-- `pj_sockaddr`. `pj_sockaddr_cmp` compares the family, the bytes of the address and the port. -/
structure Addr where
  inet6 : Bool
  host : List UInt8
  port : Nat
  deriving DecidableEq, Repr

/-- `pj_ice_sess_cand`; the identifier is the index in its array. -/
structure Cand where
  type : CandType
  compId : Nat
  transportId : Nat
  foundation : List UInt8
  prio : UInt32
  addr : Addr
  baseAddr : Addr
  deriving DecidableEq, Repr

/-- An element of an array that was not written yet. -/
def zeroCand : Cand := ⟨.host, 0, 0, [], 0, ⟨false, [], 0⟩, ⟨false, [], 0⟩⟩

def candAt (cands : List Cand) (id : Nat) : Cand := cands.getD id zeroCand

/-- The values of `pj_status_t` other than `PJ_SUCCESS`. -/
inductive Error
  | etoomany
  | etoosmall
  | etoobig
  | enotfound
  | einval
  | einvalidop
  | ecancelled
  | eicenohostcand
  | eicefailed
  | eicenomtimeout
  | eiceinsrcaddr
  | estunnomappedaddr
  | other (code : Nat)
  deriving DecidableEq, Repr

/-- `pj_ice_sess_check_state`. -/
inductive CheckState
  | frozen
  | waiting
  | inProgress
  | succeeded
  | failed
  deriving DecidableEq, Repr

def CheckState.value : CheckState → Nat
  | frozen => 0
  | waiting => 1
  | inProgress => 2
  | succeeded => 3
  | failed => 4

/-- `pj_ice_sess_check`. The candidates are given by their indices, and `tdata` by the number of the pointer. -/
structure Check where
  lcand : Nat
  rcand : Nat
  foundationIdx : Int
  prio : Timestamp
  state : CheckState
  tdata : Option Nat
  nominated : Bool
  errCode : Option Error
  deriving DecidableEq, Repr

def Check.pair (c : Check) : Nat × Nat := (c.lcand, c.rcand)

/-- A slot that was not written yet. -/
def zeroCheck : Check := ⟨0, 0, 0, ⟨0, 0⟩, .frozen, none, false, none⟩

/-- `check_set_state`. -/
def Check.setState (st : CheckState) (errCode : Option Error) (c : Check) : Check :=
  { c with
    state := st
    errCode := errCode }

/-- `pj_ice_sess_checklist_state`. -/
inductive ChecklistState
  | idle
  | running
  | completed
  deriving DecidableEq, Repr

/-- `pj_ice_sess_checklist`: the checks of the list and the slots behind them. `timer` says whether the timer entry
runs. -/
structure Checklist where
  checks : List Check
  spare : List Check
  foundation : List (List UInt8)
  state : ChecklistState
  timer : Bool
  deriving DecidableEq, Repr

namespace Checklist

/-- `checks[k]`, in the list or behind it. -/
def slot (clist : Checklist) (k : Nat) : Check := (clist.checks ++ clist.spare).getD k zeroCheck

/-- What is written to `checks[k]`. -/
def modify (clist : Checklist) (k : Nat) (f : Check → Check) : Checklist :=
  if k < clist.checks.length then { clist with checks := clist.checks.modify k f }
  else { clist with spare := clist.spare.modify (k - clist.checks.length) f }

def writeNext (clist : Checklist) (f : Check → Check) : Checklist :=
  { clist with spare := f (clist.spare.headD zeroCheck) :: clist.spare.tail }

/-- `count++`. -/
def push (clist : Checklist) (f : Check → Check) : Checklist :=
  { clist with
    checks := clist.checks ++ [f (clist.spare.headD zeroCheck)]
    spare := clist.spare.tail }

/-- `remove_check`: the checks behind it move up, and the last one is also left where it was. -/
def remove (clist : Checklist) (k : Nat) : Checklist :=
  { clist with
    checks := clist.checks.eraseIdx k
    spare := clist.checks.getLastD zeroCheck :: clist.spare }

end Checklist

/-! Sorting. -/

/-- `CMP_CHECK_STATE`: Succeeded is higher than Failed, the other states compare as their values do. -/
def cmpCheckState (s t : CheckState) : Int :=
  if s = .succeeded ∧ t = .failed then 1
  else if t = .succeeded ∧ s = .failed then -1
  else (s.value : Int) - t.value

/-- The test of `sort_checklist`. -/
def higher (c best : Check) : Bool :=
  cmpCheckState c.state best.state > 0 ||
    (cmpCheckState c.state best.state = 0 && cmpTimestamp c.prio best.prio = .gt)

def sortChecks (checks : List Check) : List Check := SelectionSort.selectionSort higher (checks.length - 1) checks

/-- `sort_checklist`. -/
def sortChecklist (clist : Checklist) : Checklist := { clist with checks := sortChecks clist.checks }

/-- The loops of `sort_checklist` over the memory of the list, with the pointers `check_ptr` to checks of the list. -/
def sortInPlace (clist : Checklist) (checkPtr : List Nat) : (Nat → Check) × List Nat :=
  SelectionSort.sortInPlace higher clist.checks.length (clist.checks.length - 1) 0 clist.slot checkPtr

/-! Pruning. -/

def findBase (lcands : List Cand) (srflx : Cand) : Option Nat :=
  lcands.findIdx? fun host => host.type = .host && srflx.baseAddr = host.addr

/-- The first loop of `prune_checklist`, which ends at a reflexive candidate without a base. -/
def replaceBases (lcands : List Cand) : List Check → List Check × Option Error
  | [] => ([], none)
  | c :: more =>
    let srflx := candAt lcands c.lcand
    if srflx.type = .srflx ∨ srflx.type = .prflx then
      match findBase lcands srflx with
      | some host =>
        let (more, status) := replaceBases lcands more
        ({ c with lcand := host } :: more, status)
      | none => (c :: more, some .eicenohostcand)
    else
      let (more, status) := replaceBases lcands more
      (c :: more, status)

/-- Only Frozen and Waiting checks are discarded. -/
def redundant (lcands : List Cand) (ci cj : Check) : Bool :=
  (cj.state = .frozen || cj.state = .waiting) && cj.rcand = ci.rcand &&
    (cj.lcand = ci.lcand || (candAt lcands cj.lcand).baseAddr = (candAt lcands ci.lcand).baseAddr)

/-- The inner loop of `prune_checklist`, from the index `j` on; the count says how many checks are left. -/
def pruneAgainst (lcands : List Cand) (i : Nat) : Nat → Nat → Checklist → Checklist
  | 0, _, clist => clist
  | n + 1, j, clist =>
    if redundant lcands (clist.slot i) (clist.slot j) then pruneAgainst lcands i n j (clist.remove j)
    else pruneAgainst lcands i n (j + 1) clist

/-- The outer loop, from the index `i` on. -/
def pruneDuplicates (lcands : List Cand) : Nat → Nat → Checklist → Checklist
  | 0, _, clist => clist
  | n + 1, i, clist =>
    pruneDuplicates lcands n (i + 1) (pruneAgainst lcands i (clist.checks.length - (i + 1)) (i + 1) clist)

/-- `prune_checklist`. -/
def pruneChecklist (lcands : List Cand) (clist : Checklist) : Checklist × Option Error :=
  let (checks, status) := replaceBases lcands clist.checks
  let clist := { clist with checks := checks }
  match status with
  | some e => (clist, some e)
  | none => (pruneDuplicates lcands clist.checks.length 0 clist, none)

/-! Foundations. -/

/-- What `%.*s` prints. -/
def cString (s : List UInt8) : List UInt8 := s.takeWhile (· ≠ 0)

/-- `fnd_str`, a buffer of 65 characters. -/
def fndStr (lcand rcand : Cand) : List UInt8 := (cString lcand.foundation ++ 124 :: cString rcand.foundation).take 64

/-- `get_check_foundation_idx`: the index, and the foundations with a new one. -/
def getCheckFoundationIdx (maxChecks : Nat) (foundation : List (List UInt8)) (fnd : List UInt8) :
    Option (Nat × List (List UInt8)) :=
  match foundation.findIdx? (· = fnd) with
  | some i => some (i, foundation)
  | none => if foundation.length < maxChecks then some (foundation.length, foundation ++ [fnd]) else none

/-! Discarding. -/

def lastBelow (checks : List Check) (prioLowerThan : Timestamp) : Bool :=
  match checks.getLast? with
  | none => false
  | some c => cmpTimestamp c.prio prioLowerThan = .lt

/-- `discard_check`: a Failed check, or else the lowest. -/
def discardCheck (clist : Checklist) (prioLowerThan : Timestamp) : Checklist × Bool :=
  match clist.checks.findIdx? (·.state = .failed) with
  | some k => (clist.remove k, true)
  | none =>
    let sorted := sortChecklist clist
    if lastBelow sorted.checks prioLowerThan then (sorted.remove (sorted.checks.length - 1), true) else (sorted, false)

/-- The loop of `add_rcand_and_update_checklist` that looks for a reason not to unfreeze the new check. -/
def canUnfreeze (lcands : List Cand) (chk : Check) : List Check → Bool
  | [] => true
  | c :: more =>
    if c.foundationIdx ≠ chk.foundationIdx then canUnfreeze lcands chk more
    else if c.state = .succeeded then true
    else if c.state = .waiting ∨ c.state = .inProgress then false
    else if (candAt lcands c.lcand).compId < (candAt lcands chk.lcand).compId then false
    else if (candAt lcands c.lcand).compId = (candAt lcands chk.lcand).compId ∧
        cmpTimestamp c.prio chk.prio = .gt then false
    else canUnfreeze lcands chk more

/-! Lists that agree check by check. -/

theorem forall₂_modify {R : Check → Check → Prop} {l l' : List Check} (h : List.Forall₂ R l l') {k : Nat}
    {f : Check → Check} (hk : ∀ c d, l'[k]? = some d → R c d → R c (f d)) : List.Forall₂ R l (l'.modify k f) := by
  induction h generalizing k with
  | nil =>
    rw [List.modify_nil]
    exact .nil
  | cons hcd hrest ih =>
    cases k with
    | zero => exact .cons (hk _ _ rfl hcd) hrest
    | succ k => exact .cons hcd (ih hk)

/-- A write that changes nothing. -/
theorem modify_of_fixed {l : List Check} {k : Nat} {f : Check → Check} (h : ∀ c, l[k]? = some c → f c = c) :
    l.modify k f = l := by
  have hsame : List.Forall₂ Eq l l := List.forall₂_same.mpr fun c _ => rfl
  have hmodify : List.Forall₂ Eq l (l.modify k f) :=
    forall₂_modify hsame fun c d hd hcd => hcd.trans (h d hd).symm
  rw [List.forall₂_eq_eq_eq] at hmodify
  exact hmodify.symm

theorem forall₂_map {R : Check → Check → Prop} {f : Check → Check} (h : ∀ c, R c (f c)) (l : List Check) :
    List.Forall₂ R l (l.map f) :=
  List.forall₂_map_right_iff.mpr (List.forall₂_same.mpr fun c _ => h c)

end PjProject.Ice
