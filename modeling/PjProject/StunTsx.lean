import PjProject.Runs
import PjProject.StunAttrs

/-! The STUN client transaction (`stun_transaction.c`). One timer entry serves for the retransmissions and, where the
transport is reliable, for the timeout; what the timer heap and `on_send_msg` return is part of each call. A callback of
the timer runs when the heap takes its entry out. -/

namespace PjProject.StunTsx

/-- The status codes; `stunCode` is `PJ_STATUS_FROM_STUN_CODE` and `failure` stands for all the others. -/
inductive Status
  | success
  | einval
  | ebusy
  | epending
  | einvalidop
  | estundestroyed
  | estuntimedout
  | einstunmsgtype
  | stunCode (errCode : Int)
  | failure (code : Nat)
  deriving DecidableEq, Repr

/-- `PJ_STUN_MAX_TRANSMIT_COUNT` and `PJ_STUN_TIMEOUT_VALUE`. -/
def maxTransmitCount : Nat := 7
def timeoutValue : Nat := 16 * 100

/-- `pj_timer_entry`: its id, and whether it is in the heap. -/
structure TimerEntry where
  id : Nat
  scheduled : Bool
  deriving DecidableEq, Repr

/-- `pj_timer_heap_cancel_if_active`, with `TIMER_INACTIVE`. -/
def TimerEntry.cancelIfActive (entry : TimerEntry) : TimerEntry := if entry.scheduled then ⟨0, false⟩ else entry

/-- An entry that was scheduled with `TIMER_ACTIVE`. -/
def TimerEntry.active : TimerEntry := ⟨1, true⟩

/-- `pj_stun_client_tsx`. Of `cb` there is which of its optional functions are set; the times are in milliseconds. -/
structure Tsx where
  rtoMsec : Nat
  complete : Bool
  requireRetransmit : Bool
  retransmitTimer : TimerEntry
  transmitCount : Nat
  retransmitTime : Nat
  isDestroying : Bool
  destroyTimer : TimerEntry
  onComplete : Bool
  onDestroy : Bool
  lastPkt : List UInt8
  deriving DecidableEq, Repr

/-- What the others return: whether the heap takes the entry, and the status of `on_send_msg`. -/
structure Env where
  schedule : Bool
  sendMsg : Status
  deriving DecidableEq, Repr

def Tsx.clearTimer (tsx : Tsx) : Tsx := { tsx with retransmitTimer := ⟨0, tsx.retransmitTimer.scheduled⟩ }

def Tsx.cancelTimer (tsx : Tsx) : Tsx := { tsx with retransmitTimer := tsx.retransmitTimer.cancelIfActive }

/-- The heap has taken the timer out. -/
def Tsx.popTimer (tsx : Tsx) : Tsx := { tsx with retransmitTimer := ⟨tsx.retransmitTimer.id, false⟩ }

/-- `pj_stun_client_tsx_create`. -/
def create (rtoMsec : Nat) (onComplete onDestroy : Bool) : Tsx :=
  ⟨rtoMsec, false, false, ⟨0, false⟩, 0, 0, false, ⟨0, false⟩, onComplete, onDestroy, []⟩

def Tsx.nextTime (tsx : Tsx) : Nat :=
  if tsx.transmitCount = 0 then tsx.rtoMsec
  else if tsx.transmitCount < maxTransmitCount - 1 then tsx.retransmitTime * 2 % 2 ^ 32
  else timeoutValue

/-- The second half of `tsx_transmit_msg`. -/
def Tsx.transmit (tsx : Tsx) (modCount : Bool) (env : Env) : Tsx × Status :=
  let tsx := if modCount then { tsx with transmitCount := (tsx.transmitCount + 1) % 2 ^ 32 } else tsx
  let status := if env.sendMsg = .epending ∨ env.sendMsg = .ebusy then .success else env.sendMsg
  if status = .estundestroyed then (tsx, status)
  else if status ≠ .success ∧ (modCount = true ∨ status = .einvalidop) then
    (tsx.cancelTimer, status)
  else (tsx, status)

/-- `tsx_transmit_msg`. -/
def Tsx.transmitMsg (tsx : Tsx) (modCount : Bool) (env : Env) : Tsx × Status :=
  if tsx.retransmitTimer.id ≠ 0 ∧ tsx.requireRetransmit = true ∧ modCount = true then (tsx, .ebusy)
  else if tsx.requireRetransmit = true ∧ modCount = true then
    let tsx := { tsx with retransmitTime := tsx.nextTime }
    if env.schedule then { tsx with retransmitTimer := .active }.transmit modCount env
    else (tsx.clearTimer, .failure 1)
  else tsx.transmit modCount env

/-- The request is kept; where the transport is reliable there is a timeout in place of the retransmissions. -/
def Tsx.prepare (tsx : Tsx) (retransmit : Bool) (pkt : List UInt8) : Tsx :=
  if retransmit then
    { tsx with
      lastPkt := pkt
      requireRetransmit := true }
  else
    { tsx with
      lastPkt := pkt
      requireRetransmit := false
      transmitCount := maxTransmitCount
      retransmitTime := tsx.rtoMsec * 16 % 2 ^ 32 }

def Tsx.transmitFirst (tsx : Tsx) (env : Env) : Tsx × Status :=
  let (tsx, status) := tsx.transmitMsg true env
  if status ≠ .success then (tsx.cancelTimer, status)
  else (tsx, status)

/-- `pj_stun_client_tsx_send_msg`. -/
def Tsx.sendMsg (tsx : Tsx) (retransmit : Bool) (pkt : List UInt8) (env : Env) : Tsx × Status :=
  if pkt = [] then (tsx, .einval)
  else if tsx.retransmitTimer.id ≠ 0 then (tsx, .ebusy)
  else if tsx.isDestroying then (tsx, .success)
  else
    let tsx := tsx.prepare retransmit pkt
    if retransmit then tsx.transmitFirst env
    else if env.schedule then { tsx with retransmitTimer := .active }.transmitFirst env
    else (tsx.clearTimer, .failure 1)

/-- The transaction ends: the statuses that `on_complete` is called with. -/
def Tsx.finish (tsx : Tsx) (status : Status) : Tsx × List Status :=
  if tsx.complete then (tsx, []) else ({ tsx with complete := true }, if tsx.onComplete then [status] else [])

/-- `retransmit_timer_callback`, with the status of the transmission. -/
def Tsx.retransmitTimerCallback (tsx : Tsx) (env : Env) : Tsx × Status × List Status :=
  if tsx.isDestroying then (tsx, .success, [])
  else
    let tsx := tsx.clearTimer
    if maxTransmitCount ≤ tsx.transmitCount then
      let (tsx, completions) := tsx.finish .estuntimedout
      (tsx, .success, completions)
    else
      let (tsx, status) := tsx.transmitMsg true env
      if status = .estundestroyed then (tsx, status, [])
      else if status ≠ .success then
        let (tsx, completions) := tsx.clearTimer.finish status
        (tsx, status, completions)
      else (tsx, status, [])

/-- `pj_stun_client_tsx_retransmit`. -/
def Tsx.retransmit (tsx : Tsx) (modCount : Bool) (env : Env) : Tsx × Status :=
  if tsx.destroyTimer.id ≠ 0 ∨ tsx.isDestroying = true then (tsx, .success)
  else
    let tsx := if modCount then tsx.cancelTimer else tsx
    tsx.transmitMsg modCount env

/-- `PJ_STUN_IS_SUCCESS_RESPONSE` or `PJ_STUN_IS_ERROR_RESPONSE`. -/
def isResponse (type : UInt16) : Bool := type &&& 0x0110 = 0x0100 || type &&& 0x0110 = 0x0110

/-- The code in the first `PJ_STUN_ATTR_ERROR_CODE` of the message. -/
def errCode (msg : Stun.Msg) : Option Int :=
  match msg.attrs.find? fun a => a.hdr.type = 0x0009 with
  | some (.errcode _ errCode _) => some errCode
  | _ => none

/-- `pj_stun_client_tsx_on_rx_msg`. -/
def Tsx.onRxMsg (tsx : Tsx) (msg : Stun.Msg) : Tsx × Status × List Status :=
  if isResponse msg.hdr.type = false then (tsx, .einstunmsgtype, [])
  else
    let tsx := tsx.cancelTimer
    match errCode msg with
    | some errCode =>
      if errCode ≤ 200 then (tsx, .success, [])
      else
        let (tsx, completions) := tsx.finish (.stunCode errCode)
        (tsx, .success, completions)
    | none =>
      let (tsx, completions) := tsx.finish .success
      (tsx, .success, completions)

/-- `pj_stun_client_tsx_schedule_destroy`. -/
def Tsx.scheduleDestroy (tsx : Tsx) (schedule : Bool) : Tsx × Status :=
  if tsx.onDestroy = false then (tsx, .einval)
  else if tsx.isDestroying then (tsx, .success)
  else
    let tsx := { tsx with
      isDestroying := true
      destroyTimer := tsx.destroyTimer.cancelIfActive
      retransmitTimer := tsx.retransmitTimer.cancelIfActive }
    if schedule then ({ tsx with destroyTimer := .active, onComplete := false }, .success) else (tsx, .failure 1)

/-! The transaction and the calls that are made of it. -/

inductive Call
  | sendMsg (retransmit : Bool) (pkt : List UInt8) (env : Env)
  | expire (env : Env)
  | retransmit (modCount : Bool) (env : Env)
  | onRxMsg (msg : Stun.Msg)
  | scheduleDestroy (schedule : Bool)
  | destroyExpire
  deriving DecidableEq, Repr

/-- The transaction, whether a request was sent successfully, what `on_complete` was called with, and whether the
transaction has been destroyed. -/
structure State where
  tsx : Tsx
  sent : Bool
  completions : List Status
  gone : Bool
  deriving DecidableEq, Repr

/-- The next state; `none` where there is no transaction any more or the timer is not in the heap. -/
def step (s : State) (call : Call) : Option State :=
  if s.gone then none
  else
    match call with
    | .sendMsg retransmit pkt env =>
      let (tsx, status) := s.tsx.sendMsg retransmit pkt env
      some ⟨tsx, s.sent || (status = .success && !s.tsx.isDestroying), s.completions, status = .estundestroyed⟩
    | .expire env =>
      if s.tsx.retransmitTimer.scheduled then
        let (tsx, status, completions) :=
          s.tsx.popTimer.retransmitTimerCallback env
        some ⟨tsx, s.sent, s.completions ++ completions, status = .estundestroyed⟩
      else none
    | .retransmit modCount env =>
      let (tsx, status) := s.tsx.retransmit modCount env
      some ⟨tsx, s.sent, s.completions, status = .estundestroyed⟩
    | .onRxMsg msg =>
      let (tsx, _, completions) := s.tsx.onRxMsg msg
      some ⟨tsx, s.sent, s.completions ++ completions, false⟩
    | .scheduleDestroy schedule => some { s with tsx := (s.tsx.scheduleDestroy schedule).1 }
    | .destroyExpire =>
      if s.tsx.destroyTimer.scheduled then
        some ⟨{ s.tsx with destroyTimer := ⟨0, false⟩ }, s.sent, s.completions, true⟩
      else none

def start (rtoMsec : Nat) (onComplete onDestroy : Bool) : State := ⟨create rtoMsec onComplete onDestroy, false, [], false⟩

/-- The message goes out: `on_send_msg` reports success, or that it is under way. -/
def Env.goesOut (env : Env) : Prop := env.sendMsg = .success ∨ env.sendMsg = .epending ∨ env.sendMsg = .ebusy

instance (env : Env) : Decidable env.goesOut := inferInstanceAs (Decidable (_ ∨ _))

/-! One transmission. -/

/-- The rest of the transaction is as it was. -/
structure Tsx.Kept (tsx tsx' : Tsx) : Prop where
  complete : tsx'.complete = tsx.complete
  isDestroying : tsx'.isDestroying = tsx.isDestroying
  destroyTimer : tsx'.destroyTimer = tsx.destroyTimer

def TimerEntry.inactive : TimerEntry := ⟨0, false⟩

theorem clearTimer_of_scheduled {tsx : Tsx} (h : tsx.retransmitTimer.scheduled = false) :
    tsx.clearTimer.retransmitTimer = .inactive := by
  rw [Tsx.clearTimer, h]
  rfl

theorem clearTimer_of_inactive {tsx : Tsx} (h : tsx.retransmitTimer = .inactive) :
    tsx.clearTimer.retransmitTimer = .inactive := by
  apply clearTimer_of_scheduled
  rw [h]
  rfl

theorem cancelTimer_of_live {tsx : Tsx} (h : tsx.retransmitTimer = .inactive ∨ tsx.retransmitTimer = .active) :
    tsx.cancelTimer.retransmitTimer = .inactive := by
  unfold Tsx.cancelTimer
  rcases h with h | h <;> rw [h] <;> rfl

inductive Outcome (tsx : Tsx) (modCount : Bool) (env : Env) (tsx' : Tsx) : Status → Prop
  | destroyed (henv : env.sendMsg = .estundestroyed) : Outcome tsx modCount env tsx' .estundestroyed
  | sent (henv : env.goesOut) (htimer : tsx'.retransmitTimer = tsx.retransmitTimer) :
    Outcome tsx modCount env tsx' .success
  | failed {status : Status} (hstatus : status ≠ .success) (hgone : status ≠ .estundestroyed) (henv : env.sendMsg = status)
    (hout : ¬env.goesOut) (htimer : tsx'.retransmitTimer = if modCount = true ∨ status = .einvalidop then
      tsx.retransmitTimer.cancelIfActive else tsx.retransmitTimer) : Outcome tsx modCount env tsx' status

def Tsx.countOf (tsx : Tsx) (modCount : Bool) : Nat :=
  if modCount then (tsx.transmitCount + 1) % 2 ^ 32 else tsx.transmitCount

theorem transmit_spec (tsx : Tsx) (modCount : Bool) (env : Env) :
    tsx.Kept (tsx.transmit modCount env).1 ∧ (tsx.transmit modCount env).1.transmitCount = tsx.countOf modCount ∧
      (tsx.transmit modCount env).1.requireRetransmit = tsx.requireRetransmit ∧
      Outcome tsx modCount env (tsx.transmit modCount env).1 (tsx.transmit modCount env).2 := by
  obtain ⟨counted, hcounted⟩ : ∃ counted : Tsx, counted = (if modCount then
    { tsx with transmitCount := (tsx.transmitCount + 1) % 2 ^ 32 } else tsx) := ⟨_, rfl⟩
  have hkept : tsx.Kept counted ∧ counted.transmitCount = tsx.countOf modCount ∧
      counted.requireRetransmit = tsx.requireRetransmit ∧ counted.retransmitTimer = tsx.retransmitTimer := by
    rw [hcounted]
    cases modCount <;> exact ⟨⟨rfl, rfl, rfl⟩, rfl, rfl, rfl⟩
  obtain ⟨hkept, hcount, hretransmit, htimer⟩ := hkept
  unfold Tsx.transmit
  rw [← hcounted]
  by_cases hout : env.sendMsg = .epending ∨ env.sendMsg = .ebusy
  · simp only [if_pos hout]
    exact ⟨hkept, hcount, hretransmit, .sent (.inr hout) htimer⟩
  · simp only [if_neg hout]
    by_cases hgone : env.sendMsg = .estundestroyed
    · rw [if_pos hgone, hgone]
      exact ⟨hkept, hcount, hretransmit, .destroyed hgone⟩
    · rw [if_neg hgone]
      by_cases hsuccess : env.sendMsg = .success
      · rw [if_neg fun h => h.1 hsuccess, hsuccess]
        exact ⟨hkept, hcount, hretransmit, .sent (.inl hsuccess) htimer⟩
      · have hnot : ¬env.goesOut := fun h => h.elim hsuccess hout
        by_cases hstop : modCount = true ∨ env.sendMsg = .einvalidop
        · rw [if_pos ⟨hsuccess, hstop⟩]
          refine ⟨⟨hkept.1, hkept.2, hkept.3⟩, hcount, hretransmit, .failed hsuccess hgone rfl hnot ?_⟩
          rw [if_pos hstop, ← htimer]
          rfl
        · rw [if_neg fun h => hstop h.2]
          refine ⟨hkept, hcount, hretransmit, .failed hsuccess hgone rfl hnot ?_⟩
          rw [if_neg hstop, htimer]

/-- A transmission that is counted, of a transaction whose timer is not running or serves as the timeout. -/
inductive Counted (tsx : Tsx) (env : Env) (tsx' : Tsx) : Status → Prop
  | destroyed (henv : env.sendMsg = .estundestroyed) (hschedule : tsx.requireRetransmit = true → env.schedule = true) :
    Counted tsx env tsx' .estundestroyed
  | sent (henv : env.goesOut) (hschedule : tsx.requireRetransmit = true → env.schedule = true)
    (hcount : tsx'.transmitCount = tsx.countOf true) (hretransmit : tsx'.requireRetransmit = tsx.requireRetransmit)
    (htimer : tsx'.retransmitTimer = if tsx.requireRetransmit then .active else tsx.retransmitTimer) :
    Counted tsx env tsx' .success
  | failed {status : Status} (hstatus : status ≠ .success) (hgone : status ≠ .estundestroyed)
    (hwhy : tsx.requireRetransmit = true ∧ env.schedule = false ∨ env.sendMsg ≠ .estundestroyed ∧ ¬env.goesOut)
    (htimer : tsx'.retransmitTimer = .inactive) : Counted tsx env tsx' status

theorem transmitMsg_counted {tsx : Tsx} (htimer : tsx.retransmitTimer = .inactive ∨
    tsx.retransmitTimer = .active ∧ tsx.requireRetransmit = false) (env : Env) :
    tsx.Kept (tsx.transmitMsg true env).1 ∧ Counted tsx env (tsx.transmitMsg true env).1 (tsx.transmitMsg true env).2 := by
  unfold Tsx.transmitMsg
  by_cases hretransmit : tsx.requireRetransmit = true
  · have hinactive : tsx.retransmitTimer = .inactive := htimer.resolve_right fun h => by
      rw [hretransmit] at h
      exact Bool.false_ne_true h.2.symm
    rw [if_neg fun h => h.1 (by rw [hinactive]; rfl), if_pos ⟨hretransmit, rfl⟩]
    by_cases hschedule : env.schedule = true
    · simp only [if_pos hschedule]
      obtain ⟨next, hnext⟩ : ∃ next : Tsx, next =
        { tsx with
          retransmitTime := tsx.nextTime
          retransmitTimer := .active } := ⟨_, rfl⟩
      rw [← hnext]
      obtain ⟨hkept, hcount, hsameRetransmit, houtcome⟩ := transmit_spec next true env
      have hactive : next.retransmitTimer = .active := by rw [hnext]
      have hsame : next.countOf true = tsx.countOf true := by rw [hnext, Tsx.countOf, Tsx.countOf]
      refine ⟨?_, ?_⟩
      · rw [hnext] at hkept ⊢
        exact ⟨hkept.1, hkept.2, hkept.3⟩
      · generalize next.transmit true env = result at hcount hsameRetransmit houtcome
        obtain ⟨tsx', status⟩ := result
        dsimp only at hcount hsameRetransmit houtcome ⊢
        cases houtcome with
        | destroyed henv => exact .destroyed henv fun _ => hschedule
        | sent henv htimer' =>
          refine .sent henv (fun _ => hschedule) (hcount.trans hsame) (hsameRetransmit.trans (by rw [hnext])) ?_
          rw [htimer', if_pos hretransmit, hactive]
        | failed hstatus hgone henv hout htimer' =>
          refine .failed hstatus hgone (.inr ⟨henv ▸ hgone, hout⟩) ?_
          rw [htimer', if_pos (.inl rfl), hactive]
          rfl
    · simp only [if_neg hschedule]
      refine ⟨⟨rfl, rfl, rfl⟩, .failed (by decide) (by decide) (.inl ⟨hretransmit, Bool.eq_false_iff.mpr hschedule⟩) ?_⟩
      rw [hinactive]
      rfl
  · rw [if_neg fun h => hretransmit h.2.1, if_neg fun h => hretransmit h.1]
    obtain ⟨hkept, hcount, hsameRetransmit, houtcome⟩ := transmit_spec tsx true env
    refine ⟨hkept, ?_⟩
    generalize tsx.transmit true env = result at hkept hcount hsameRetransmit houtcome
    obtain ⟨tsx', status⟩ := result
    dsimp only at hkept hcount hsameRetransmit houtcome ⊢
    have hnot : tsx.requireRetransmit = true → env.schedule = true := fun h => absurd h hretransmit
    cases houtcome with
    | destroyed henv => exact .destroyed henv hnot
    | sent henv htimer' =>
      refine .sent henv hnot hcount hsameRetransmit ?_
      rw [htimer', if_neg hretransmit]
    | failed hstatus hgone henv hout htimer' =>
      refine .failed hstatus hgone (.inr ⟨henv ▸ hgone, hout⟩) ?_
      rw [htimer', if_pos (.inl rfl)]
      rcases htimer with h | ⟨h, -⟩ <;> rw [h] <;> rfl

theorem transmitFirst_spec {tsx : Tsx} (htimer : tsx.retransmitTimer = .inactive ∨
    tsx.retransmitTimer = .active ∧ tsx.requireRetransmit = false) (env : Env) :
    tsx.Kept (tsx.transmitFirst env).1 ∧ Counted tsx env (tsx.transmitFirst env).1 (tsx.transmitFirst env).2 := by
  obtain ⟨hkept, hcounted⟩ := transmitMsg_counted htimer env
  unfold Tsx.transmitFirst
  generalize tsx.transmitMsg true env = result at hkept hcounted
  obtain ⟨tsx', status⟩ := result
  dsimp only at hkept hcounted ⊢
  cases hcounted with
  | destroyed henv hschedule =>
    rw [if_pos (by decide)]
    exact ⟨⟨hkept.1, hkept.2, hkept.3⟩, .destroyed henv hschedule⟩
  | sent henv hschedule hcount hretransmit htimer' =>
    rw [if_neg (not_not.mpr rfl)]
    exact ⟨hkept, .sent henv hschedule hcount hretransmit htimer'⟩
  | failed hstatus hgone hwhy htimer' =>
    rw [if_pos hstatus]
    exact ⟨⟨hkept.1, hkept.2, hkept.3⟩, .failed hstatus hgone hwhy (cancelTimer_of_live (.inl htimer'))⟩

theorem prepare_spec (tsx : Tsx) (retransmit : Bool) (pkt : List UInt8) :
    tsx.Kept (tsx.prepare retransmit pkt) ∧ (tsx.prepare retransmit pkt).retransmitTimer = tsx.retransmitTimer ∧
      (tsx.prepare retransmit pkt).requireRetransmit = retransmit ∧
      (retransmit = false → (tsx.prepare retransmit pkt).transmitCount = maxTransmitCount) := by
  unfold Tsx.prepare
  cases retransmit with
  | true => exact ⟨⟨rfl, rfl, rfl⟩, rfl, rfl, nofun⟩
  | false => exact ⟨⟨rfl, rfl, rfl⟩, rfl, rfl, fun _ => rfl⟩

theorem Tsx.Kept.trans {tsx tsx' tsx'' : Tsx} (h : tsx.Kept tsx') (h' : tsx'.Kept tsx'') : tsx.Kept tsx'' :=
  ⟨h'.1.trans h.1, h'.2.trans h.2, h'.3.trans h.3⟩

inductive Sending (tsx tsx' : Tsx) : Status → Prop
  | refused {status : Status} (hstatus : status ≠ .success) (hgone : status ≠ .estundestroyed) (hsame : tsx' = tsx) :
    Sending tsx tsx' status
  | ignored (hdestroying : tsx.isDestroying = true) (hsame : tsx' = tsx) : Sending tsx tsx' .success
  | destroyed : Sending tsx tsx' .estundestroyed
  | sent (hdestroying : tsx.isDestroying = false) (hactive : tsx'.retransmitTimer = .active)
    (hreliable : tsx'.requireRetransmit = false → tsx'.transmitCount = maxTransmitCount + 1) : Sending tsx tsx' .success
  | failed {status : Status} (hstatus : status ≠ .success) (hgone : status ≠ .estundestroyed)
    (hbefore : tsx.retransmitTimer = .inactive) (htimer : tsx'.retransmitTimer = .inactive) : Sending tsx tsx' status

theorem sendMsg_spec {tsx : Tsx} (htimer : tsx.retransmitTimer = .inactive ∨ tsx.retransmitTimer = .active)
    (retransmit : Bool) (pkt : List UInt8) (env : Env) :
    tsx.Kept (tsx.sendMsg retransmit pkt env).1 ∧
      Sending tsx (tsx.sendMsg retransmit pkt env).1 (tsx.sendMsg retransmit pkt env).2 := by
  unfold Tsx.sendMsg
  by_cases hpkt : pkt = []
  · rw [if_pos hpkt]
    exact ⟨⟨rfl, rfl, rfl⟩, .refused Status.noConfusion Status.noConfusion rfl⟩
  rw [if_neg hpkt]
  by_cases hid : tsx.retransmitTimer.id ≠ 0
  · rw [if_pos hid]
    exact ⟨⟨rfl, rfl, rfl⟩, .refused Status.noConfusion Status.noConfusion rfl⟩
  rw [if_neg hid]
  by_cases hdestroying : tsx.isDestroying = true
  · rw [if_pos hdestroying]
    exact ⟨⟨rfl, rfl, rfl⟩, .ignored hdestroying rfl⟩
  rw [if_neg hdestroying]
  have hinactive : tsx.retransmitTimer = .inactive := htimer.resolve_right fun hactive => hid (by
    rw [hactive]
    exact Nat.one_ne_zero)
  obtain ⟨hprepare, htimer', hretransmit, hcount⟩ := prepare_spec tsx retransmit pkt
  generalize tsx.prepare retransmit pkt = next at hprepare htimer' hretransmit hcount
  have hgo : ∀ {before : Tsx}, tsx.Kept before → before.requireRetransmit = retransmit →
      (retransmit = true ∧ before.retransmitTimer = .inactive ∨
        retransmit = false ∧ before.retransmitTimer = .active ∧ before.transmitCount = maxTransmitCount) →
      tsx.Kept (before.transmitFirst env).1 ∧ Sending tsx (before.transmitFirst env).1 (before.transmitFirst env).2 := by
    intro before hkept hflag hcases
    have hbefore : before.retransmitTimer = .inactive ∨
        before.retransmitTimer = .active ∧ before.requireRetransmit = false :=
      hcases.imp And.right fun h => ⟨h.2.1, hflag.trans h.1⟩
    obtain ⟨hkept', hcounted⟩ := transmitFirst_spec hbefore env
    refine ⟨hkept.trans hkept', ?_⟩
    generalize before.transmitFirst env = result at hcounted
    obtain ⟨tsx', status⟩ := result
    dsimp only at hcounted ⊢
    cases hcounted with
    | destroyed henv hschedule => exact .destroyed
    | failed hstatus hgone hwhy hafter => exact .failed hstatus hgone hinactive hafter
    | sent henv hschedule hcount' hflag' hafter =>
      rw [hflag] at hafter
      refine .sent (Bool.eq_false_iff.mpr hdestroying) ?_ fun hfalse => ?_
      · rcases hcases with ⟨htrue, -⟩ | ⟨hfalse, hactive, -⟩
        · rw [hafter, if_pos htrue]
        · rw [hafter, if_neg (by rw [hfalse]; exact Bool.false_ne_true), hactive]
      · rw [hflag', hflag] at hfalse
        rcases hcases with ⟨htrue, -⟩ | ⟨-, -, hmax⟩
        · exact absurd (hfalse.symm.trans htrue) Bool.false_ne_true
        · rw [hcount', Tsx.countOf, if_pos rfl, hmax]
          rfl
  dsimp only
  by_cases hflag : retransmit = true
  · rw [if_pos hflag]
    exact hgo hprepare hretransmit (.inl ⟨hflag, htimer'.trans hinactive⟩)
  rw [if_neg hflag]
  have hfalse := Bool.eq_false_iff.mpr hflag
  by_cases hschedule : env.schedule = true
  · rw [if_pos hschedule]
    exact hgo ⟨hprepare.1, hprepare.2, hprepare.3⟩ hretransmit (.inr ⟨hfalse, rfl, hcount hfalse⟩)
  · rw [if_neg hschedule]
    exact ⟨⟨hprepare.1, hprepare.2, hprepare.3⟩, .failed Status.noConfusion Status.noConfusion hinactive
      (clearTimer_of_inactive (htimer'.trans hinactive))⟩

inductive Expiry (tsx : Tsx) : Tsx × Status × List Status → Prop
  | finished {tsx' : Tsx} {status status' : Status} (hkept : tsx.Kept tsx') (htimer : tsx'.retransmitTimer = .inactive)
    (hgone : status' ≠ .estundestroyed) : Expiry tsx ((tsx'.finish status).1, status', (tsx'.finish status).2)
  | destroyed {tsx' : Tsx} (hkept : tsx.Kept tsx') : Expiry tsx (tsx', .estundestroyed, [])
  | again {tsx' : Tsx} (hkept : tsx.Kept tsx') (hlow : tsx.transmitCount < maxTransmitCount)
    (hcount : tsx'.transmitCount = tsx.countOf true) (hretransmit : tsx'.requireRetransmit = tsx.requireRetransmit)
    (htimer : tsx'.retransmitTimer = if tsx.requireRetransmit then .active else .inactive) :
    Expiry tsx (tsx', .success, [])

theorem retransmitTimerCallback_spec {tsx : Tsx} (hdestroying : tsx.isDestroying = false)
    (htimer : tsx.retransmitTimer.scheduled = false) (env : Env) : Expiry tsx (tsx.retransmitTimerCallback env) := by
  unfold Tsx.retransmitTimerCallback
  rw [if_neg (by rw [hdestroying]; exact Bool.false_ne_true)]
  have hinactive := clearTimer_of_scheduled htimer
  have hkept : tsx.Kept tsx.clearTimer := ⟨rfl, rfl, rfl⟩
  dsimp only
  by_cases hmax : maxTransmitCount ≤ tsx.clearTimer.transmitCount
  · rw [if_pos hmax]
    exact .finished hkept hinactive Status.noConfusion
  · rw [if_neg hmax]
    obtain ⟨hkept', hcounted⟩ := transmitMsg_counted (.inl hinactive) env
    generalize tsx.clearTimer.transmitMsg true env = result at hkept' hcounted
    obtain ⟨tsx', status⟩ := result
    dsimp only at hkept' hcounted ⊢
    cases hcounted with
    | destroyed henv hschedule =>
      rw [if_pos rfl]
      exact .destroyed (hkept.trans hkept')
    | failed hstatus hgone hwhy hafter =>
      rw [if_neg hgone, if_pos hstatus]
      have hkept'' : tsx.Kept tsx'.clearTimer :=
        ⟨hkept'.1.trans hkept.1, hkept'.2.trans hkept.2, hkept'.3.trans hkept.3⟩
      exact .finished hkept'' (clearTimer_of_inactive hafter) hgone
    | sent henv hschedule hcount' hretransmit' hafter =>
      rw [if_neg Status.noConfusion, if_neg (not_not.mpr rfl)]
      rw [hinactive] at hafter
      exact .again (hkept.trans hkept') (Nat.not_le.mp hmax) hcount' hretransmit' hafter

end PjProject.StunTsx
