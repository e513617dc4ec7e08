import PjProject.IceRoles

/-! The priority of a pair of candidates (`CALC_CHECK_PRIO` of `ice_session.c`), which is calculated in two halves of
32 bits. -/

namespace PjProject.IcePriority

open IceRoles (Role)

/-- `pj_timestamp`, by its halves. -/
structure Timestamp where
  hi : UInt32
  lo : UInt32
  deriving DecidableEq, Repr

/-- `u64`, the number of 64 bits that the halves make. -/
def Timestamp.u64 (t : Timestamp) : Nat := 4294967296 * t.hi.toNat + t.lo.toNat

/-- `pj_cmp_timestamp`. -/
def cmpTimestamp (t t' : Timestamp) : Ordering := compare t.u64 t'.u64

/-- `MIN` and `MAX`. -/
def minPrio (a b : UInt32) : UInt32 := if a < b then a else b
def maxPrio (a b : UInt32) : UInt32 := if a > b then a else b

def controllingPrio (role : Role) (lprio rprio : UInt32) : UInt32 := if role = .controlling then lprio else rprio
def controlledPrio (role : Role) (lprio rprio : UInt32) : UInt32 := if role = .controlling then rprio else lprio

/-- `CALC_CHECK_PRIO`, with the priorities of the local and of the remote candidate. -/
def calcCheckPrio (role : Role) (lprio rprio : UInt32) : Timestamp :=
  let o := controllingPrio role lprio rprio
  let a := controlledPrio role lprio rprio
  ⟨minPrio o a, (maxPrio o a <<< 1) + if o > a then 1 else 0⟩

def peer : Role → Role
  | .controlling => .controlled
  | .controlled => .controlling
  | .unknown => .controlling

/-- The formula: `o` is the priority of the controlling agent's candidate, `a` that of the controlled one's. -/
def formula (o a : Nat) : Nat := 4294967296 * min o a + 2 * max o a + if o > a then 1 else 0

/-! The halves. -/

theorem toNat_minPrio (a b : UInt32) : (minPrio a b).toNat = min a.toNat b.toNat := by
  unfold minPrio
  split
  · rename_i hlt
    exact (Nat.min_eq_left (Nat.le_of_lt (UInt32.lt_iff_toNat_lt.mp hlt))).symm
  · rename_i hge
    exact (Nat.min_eq_right (Nat.le_of_not_lt fun h => hge (UInt32.lt_iff_toNat_lt.mpr h))).symm

theorem toNat_maxPrio (a b : UInt32) : (maxPrio a b).toNat = max a.toNat b.toNat := by
  unfold maxPrio
  split
  · rename_i hgt
    exact (Nat.max_eq_left (Nat.le_of_lt (UInt32.lt_iff_toNat_lt.mp hgt))).symm
  · rename_i hle
    exact (Nat.max_eq_right (Nat.le_of_not_lt fun h => hle (UInt32.lt_iff_toNat_lt.mpr h))).symm

/-- The lower half loses what does not fit in 32 bits. -/
theorem toNat_lo (o a : UInt32) :
    ((maxPrio o a <<< 1) + if o > a then 1 else 0).toNat =
      (2 * max o.toNat a.toNat + if o.toNat > a.toNat then 1 else 0) % 4294967296 := by
  have hshift : (maxPrio o a <<< 1).toNat = 2 * max o.toNat a.toNat % 4294967296 := by
    rw [UInt32.toNat_shiftLeft, toNat_maxPrio, Nat.shiftLeft_eq, Nat.mul_comm]
    rfl
  rw [UInt32.toNat_add, hshift]
  by_cases hgt : o > a
  · rw [if_pos hgt, if_pos (UInt32.lt_iff_toNat_lt.mp hgt)]
    exact Nat.mod_add_mod ..
  · rw [if_neg hgt, if_neg fun h => hgt (UInt32.lt_iff_toNat_lt.mpr h)]
    exact Nat.mod_add_mod ..

/-- The value is the one of the formula up to the carry from the lower half, which is lost. -/
theorem u64_calcCheckPrio (role : Role) (lprio rprio : UInt32) :
    (calcCheckPrio role lprio rprio).u64 +
        (if max lprio.toNat rprio.toNat < 2147483648 then 0 else 4294967296) =
      formula (controllingPrio role lprio rprio).toNat (controlledPrio role lprio rprio).toNat := by
  have hmax : max lprio.toNat rprio.toNat =
      max (controllingPrio role lprio rprio).toNat (controlledPrio role lprio rprio).toNat := by
    unfold controllingPrio controlledPrio
    split
    · rfl
    · exact Nat.max_comm ..
  have hval := (maxPrio (controllingPrio role lprio rprio) (controlledPrio role lprio rprio)).toNat_lt
  rw [toNat_maxPrio] at hval
  rw [hmax, Timestamp.u64, formula, calcCheckPrio, toNat_minPrio, toNat_lo]
  generalize max (controllingPrio role lprio rprio).toNat (controlledPrio role lprio rprio).toNat = m at hval ⊢
  have hbit : (if (controllingPrio role lprio rprio).toNat > (controlledPrio role lprio rprio).toNat then 1 else 0) ≤ 1 := by
    split <;> decide
  generalize (if (controllingPrio role lprio rprio).toNat > (controlledPrio role lprio rprio).toNat then 1 else 0) = bit
    at hbit ⊢
  split <;> omega

/-! The two agents. -/

theorem controllingPrio_peer (role : Role) (lprio rprio : UInt32) :
    controllingPrio (peer role) rprio lprio = controllingPrio role lprio rprio := by
  cases role <;> rfl

theorem controlledPrio_peer (role : Role) (lprio rprio : UInt32) :
    controlledPrio (peer role) rprio lprio = controlledPrio role lprio rprio := by
  cases role <;> rfl

theorem calcCheckPrio_peer (role : Role) (lprio rprio : UInt32) :
    calcCheckPrio (peer role) rprio lprio = calcCheckPrio role lprio rprio := by
  unfold calcCheckPrio
  rw [controllingPrio_peer, controlledPrio_peer]

/-- The priority is the one of the formula exactly when both priorities are below `2 ^ 31`, and two pairs compare in
the same way for both agents in any case. -/
theorem calcCheckPrio_formula_iff (role : Role) (lprio rprio : UInt32) :
    ((calcCheckPrio role lprio rprio).u64 =
        formula (controllingPrio role lprio rprio).toNat (controlledPrio role lprio rprio).toNat ↔
      max lprio.toNat rprio.toNat < 2147483648) ∧
      ∀ lprio' rprio' : UInt32,
        cmpTimestamp (calcCheckPrio (peer role) rprio lprio) (calcCheckPrio (peer role) rprio' lprio') =
          cmpTimestamp (calcCheckPrio role lprio rprio) (calcCheckPrio role lprio' rprio') := by
  refine ⟨?_, fun lprio' rprio' => by rw [calcCheckPrio_peer, calcCheckPrio_peer]⟩
  have hval := u64_calcCheckPrio role lprio rprio
  split at hval <;> omega

/-- The carry of a priority of `2 ^ 31` is lost. -/
theorem calcCheckPrio_not_formula :
    (calcCheckPrio .controlling 2147483648 1).u64 = 4294967297 ∧
      formula (controllingPrio .controlling 2147483648 1).toNat (controlledPrio .controlling 2147483648 1).toNat =
        8589934593 := by
  decide

end PjProject.IcePriority
