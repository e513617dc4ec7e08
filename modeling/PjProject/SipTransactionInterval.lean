import PjProject.SipTransactionStates

/-! The interval of the retransmission timer of a SIP transaction. It is computed in 32 bits, by a shift before it is
compared with T2. -/

namespace PjProject.SipTransaction

/-- The interval after `count` retransmissions: T1 doubled each time, up to T2. -/
def backoff (cfg : Cfg) (count : Nat) : Nat := min (2 ^ count * cfg.t1) cfg.t2

/-- The transactions that are retransmitted at growing intervals: a client transaction with another request than INVITE
that has no response, and a server transaction that has sent its final response. -/
def Tsx.BacksOff (tsx : Tsx) : Prop :=
  (tsx.role = .uac ∧ tsx.method ≠ .invite ∧ tsx.statusCode < 100) ∨ (tsx.role = .uas ∧ 200 ≤ tsx.statusCode)

theorem reschedRetransmission_of_backsOff (cfg : Cfg) {tsx : Tsx} (h : tsx.BacksOff) :
    reschedRetransmission cfg tsx =
      if min (2 ^ tsx.retransmitCount * cfg.t1 % 4294967296) cfg.t2 = 0 then tsx
      else tsx.scheduleRetransmit (min (2 ^ tsx.retransmitCount * cfg.t1 % 4294967296) cfg.t2) := by
  have hcap : ∀ n : Nat, (if cfg.t2 < n then cfg.t2 else n) = min n cfg.t2 := by
    intro n
    split <;> omega
  unfold reschedRetransmission
  rcases h with ⟨hrole, hmethod, hcode⟩ | ⟨hrole, hcode⟩
  · have hearly : ¬(tsx.role = .uac ∧ 100 ≤ tsx.statusCode) := fun hand => absurd hand.2 (Nat.not_le.mpr hcode)
    dsimp only
    rw [if_neg hearly]
    simp only [hrole, and_iff_left hmethod, hcap, ne_eq, ite_not]
  · have hserver : ¬(tsx.role = .uac ∧ 100 ≤ tsx.statusCode) := fun hand => Role.noConfusion (hrole.symm.trans hand.1)
    dsimp only
    rw [if_neg hserver]
    simp only [hrole, if_neg (Nat.not_lt.mpr hcode), hcap, ne_eq, ite_not]

/-- The timer is scheduled with the interval exactly when the product fits into 32 bits, or is at least T2 in its low
32 bits. -/
theorem retransmission_interval_iff (cfg : Cfg) (tsx : Tsx) (ht1 : 0 < cfg.t1) (ht2 : 0 < cfg.t2)
    (h : tsx.BacksOff) (hidle : tsx.retransmitTimer = none) :
    (reschedRetransmission cfg tsx).retransmitTimer = some (backoff cfg tsx.retransmitCount) ↔
      2 ^ tsx.retransmitCount * cfg.t1 < 4294967296 ∨
        cfg.t2 ≤ 2 ^ tsx.retransmitCount * cfg.t1 % 4294967296 := by
  have hpos : 0 < 2 ^ tsx.retransmitCount * cfg.t1 := Nat.mul_pos (Nat.two_pow_pos _) ht1
  rw [reschedRetransmission_of_backsOff cfg h, backoff]
  generalize 2 ^ tsx.retransmitCount * cfg.t1 = product at hpos ⊢
  by_cases hzero : min (product % 4294967296) cfg.t2 = 0
  · rw [if_pos hzero, hidle]
    refine iff_of_false (fun hnone => Option.some_ne_none _ hnone.symm) fun hor => ?_
    omega
  · rw [if_neg hzero, Tsx.scheduleRetransmit, hidle, Option.none_or, Option.some_inj]
    omega

def invitedUas : Tsx := createUas .invite (some ⟨0, false, false⟩) false false

/-- The transport takes each message at once. -/
def delivers (turns : Nat) : Inputs := ⟨List.replicate turns ⟨false, .sent, .tried [] none⟩, .error .eunknown⟩

/-- An INVITE is refused, and retransmitted again and again. -/
def floodedUas (count : Nat) : List Action :=
  .recvMsg (.request .invite) (delivers 0) :: .sendMsg (some ⟨1, .response 486 .invite⟩) (delivers 1) ::
    List.replicate count (.recvMsg (.request .invite) (delivers 1))

theorem retransmission_interval_flooded :
    ∃ tsx, exec (step rfcCfg) (some invitedUas) (floodedUas 4) = some (some tsx) ∧
      (reschedRetransmission rfcCfg { tsx with retransmitTimer := none }).retransmitTimer =
        some (backoff rfcCfg 4) := by
  refine ⟨_, rfl, ?_⟩
  exact (retransmission_interval_iff rfcCfg _ (by decide) (by decide) (.inr ⟨rfl, by decide⟩) rfl).mpr (.inl (by decide))

/-- The timer runs down after thirty retransmissions of the request, and is not scheduled again. -/
theorem retransmission_stops :
    ∃ tsx, exec (step rfcCfg) (some invitedUas) (floodedUas 29 ++ [.timer .retransmit (delivers 1)]) =
        some (some tsx) ∧ tsx.BacksOff ∧ tsx.state = .completed ∧ tsx.retransmitCount = 30 ∧
      tsx.retransmitTimer = none ∧ backoff rfcCfg 30 = 4000 := by
  have hrun : (exec (step rfcCfg) (some invitedUas) (floodedUas 29 ++ [.timer .retransmit (delivers 1)])).map
      (·.map fun tsx => decide (tsx.role = .uas ∧ tsx.statusCode = 486 ∧ tsx.state = .completed ∧
        tsx.retransmitCount = 30 ∧ tsx.retransmitTimer = none)) = some (some true) := by decide +kernel
  obtain ⟨_, hexec, hlast⟩ := Option.map_eq_some_iff.mp hrun
  obtain ⟨tsx, rfl, hparts⟩ := Option.map_eq_some_iff.mp hlast
  obtain ⟨hrole, hcode, hstate, hcount, htimer⟩ := of_decide_eq_true hparts
  exact ⟨tsx, hexec, .inr ⟨hrole, by omega⟩, hstate, hcount, htimer, by decide⟩

end PjProject.SipTransaction
