import PjProject.IceChecklist

/-! An ICE session (`ice_session.c`): candidates are paired, checks are sent and answered, and pairs are nominated. The
session is not destroyed. What a function calls last, and does nothing after, is returned as a `Call`. -/

namespace PjProject.Ice

open IceRoles (Role RoleAttr roleAttr conflictRole)
open IcePriority (Timestamp cmpTimestamp calcCheckPrio)

/-- What becomes of a request: whether it is created, whether it is sent, and the pointer `tdata`. -/
inductive Sent
  | sent (tdata : Nat)
  | notSent (status : Error)
  | notCreated (status : Error)
  deriving DecidableEq, Repr

/-- The user name fragment and the password of an agent. -/
structure Credentials where
  ufrag : List UInt8
  passwd : List UInt8
  deriving DecidableEq, Repr

/-- The settings of the build and the options of the session. `tx` says what becomes of the requests, one after
another, `fnd` is the text of the pointer that becomes the foundation of a remote candidate, and `synthesize` is
`pj_sockaddr_synthesize`. -/
structure Config where
  maxChecks : Nat
  maxCand : Nat
  cancelAll : Bool
  prefs : CandType → UInt8
  tieBreaker : UInt64
  rxUfrag : List UInt8
  trickle : Bool
  aggressive : Bool
  waitValidPair : Bool
  wantNomination : Bool
  synthesize : Addr → Option Addr
  fnd : Nat → List UInt8
  tx : Nat → Sent

/-- `cand_type_prefs`. -/
def candTypePrefs : CandType → UInt8
  | .host => 126
  | .srflx => 100
  | .prflx => 110
  | .relayed => 0

/-- The defaults of `config.h` and of `pj_ice_sess_options_default`, where every request is sent. -/
def defaultConfig : Config :=
  { maxChecks := 32
    maxCand := 16
    cancelAll := true
    prefs := candTypePrefs
    tieBreaker := 0
    rxUfrag := [97, 98, 99, 100]
    trickle := false
    aggressive := true
    waitValidPair := true
    wantNomination := true
    synthesize := fun _ => none
    fnd := fun _ => [102]
    tx := .sent }

/-- `pj_ice_sess_set_options` disables aggressive nomination when trickle ICE is active. -/
def Config.isAggressive (cfg : Config) : Bool := cfg.aggressive && !cfg.trickle

/-- `pj_ice_sess_comp`. The pointers into the valid list follow their checks when it is sorted, and no two of its
checks have the same candidates. -/
structure Comp where
  validCheck : Option (Nat × Nat)
  nominatedCheck : Option (Nat × Nat)
  deriving DecidableEq, Repr

/-- `timer_type`. -/
inductive TimerType
  | none
  | completionCallback
  | controlledWaitNom
  | waitValidPair
  | startNominatedCheck
  | keepAlive
  deriving DecidableEq, Repr

/-- `pj_ice_rx_check`. -/
structure RxCheck where
  compId : Nat
  transportId : Nat
  srcAddr : Addr
  useCandidate : Bool
  priority : UInt32
  deriving DecidableEq, Repr

/-- A Binding request: the transaction and the data that are attached to it. -/
structure Request where
  tdata : Nat
  ckid : Nat
  lcand : Nat
  rcand : Nat
  transportId : Nat
  attr : RoleAttr
  deriving DecidableEq, Repr

def Request.pair (req : Request) : Nat × Nat := (req.lcand, req.rcand)

/-- `pj_ice_sess`. `pending` are the requests of the STUN sessions, `attempts` counts those that were made. -/
structure Session where
  role : Role
  isTrickling : Bool
  isNominating : Bool
  isComplete : Bool
  iceStatus : Option Error
  remote : Option Credentials
  comps : List Comp
  lcand : List Cand
  rcand : List Cand
  lcandPaired : Nat
  rcandPaired : Nat
  clist : Checklist
  validList : List Check
  timer : TimerType
  endOfCand : Bool
  earlyCheck : List RxCheck
  pending : List Request
  attempts : Nat
  deriving DecidableEq, Repr

inductive Call
  | done
  | onCheckComplete (k : Nat)
  | checkIceComplete
  | startNominatedCheck
  deriving DecidableEq, Repr

namespace Session

def localCand (ice : Session) (id : Nat) : Cand := candAt ice.lcand id

def remoteCand (ice : Session) (id : Nat) : Cand := candAt ice.rcand id

def setClist (ice : Session) (clist : Checklist) : Session := { ice with clist := clist }

def setChecks (ice : Session) (checks : List Check) : Session := ice.setClist { ice.clist with checks := checks }

def modifyCheck (ice : Session) (k : Nat) (f : Check → Check) : Session := ice.setClist (ice.clist.modify k f)

/-- `check->tdata = NULL`. -/
def clearTdata (ice : Session) (k : Nat) : Session := ice.modifyCheck k fun c => { c with tdata := none }

def endRequest (ice : Session) (i : Nat) : Session := { ice with pending := ice.pending.eraseIdx i }

/-- Schedules the periodic check, if it is not scheduled. -/
def startTimer (ice : Session) : Session := ice.setClist { ice.clist with timer := true }

def setTimer (ice : Session) (timer : TimerType) : Session := { ice with timer := timer }

/-- `pj_ice_sess_change_role`. -/
def changeRole (ice : Session) (newRole : Role) : Session := { ice with role := newRole }

end Session

/-! Candidates. -/

/-- `CALC_CAND_PRIO`. -/
def calcCandPrio (cfg : Config) (type : CandType) (localPref compId : Nat) : UInt32 :=
  (UInt32.ofNat (cfg.prefs type).toNat <<< 24) + (UInt32.ofNat (localPref % 65536) <<< 8) +
    UInt32.ofNat ((256 - compId) % 256)

def typePrefix : CandType → UInt8
  | .host => 72
  | .srflx => 83
  | .prflx => 80
  | .relayed => 82

/-- `pj_ice_calc_foundation`. -/
def calcFoundation (type : CandType) (baseAddr : Addr) : List UInt8 :=
  let val := if baseAddr.inet6 then (HashTable.hashCalc false 0 baseAddr.host).toNat else ofBytes baseAddr.host
  typePrefix type :: (Nat.toDigits 16 val).map fun c => .ofNat c.toNat

/-- `pj_ice_sess_add_cand`: the identifier of the candidate. -/
def addCand (cfg : Config) (ice : Session) (compId transportId : Nat) (type : CandType) (localPref : Nat)
    (foundation : List UInt8) (addr baseAddr : Addr) : Session × Except Error Nat :=
  if compId = 0 ∨ ice.comps.length < compId then (ice, .error .einval)
  else if cfg.maxCand ≤ ice.lcand.length then (ice, .error .etoomany)
  else
    let same (c : Cand) : Bool := c.compId = compId && c.type = type && c.addr = addr && c.baseAddr = baseAddr
    match if cfg.trickle then ice.lcand.findIdx? same else none with
    | some i => (ice, .ok i)
    | none =>
      let cand := ⟨type, compId, transportId % 256, foundation, calcCandPrio cfg type localPref compId, addr, baseAddr⟩
      ({ ice with lcand := ice.lcand ++ [cand] }, .ok ice.lcand.length)

/-! Requests. -/

/-- `perform_check`. -/
def performCheck (cfg : Config) (ice : Session) (k : Nat) (nominate : Bool) : Session × Option Error :=
  let check := ice.clist.slot k
  let nominated := check.nominated || (ice.role = .controlling && nominate)
  let next := { ice with attempts := ice.attempts + 1 }
  match cfg.tx ice.attempts with
  | .notCreated status => (next, some status)
  | .notSent status =>
    (next.modifyCheck k fun c =>
      { c with
        tdata := none
        nominated := nominated }, some status)
  | .sent tdata =>
    let req := ⟨tdata, k, check.lcand, check.rcand, (ice.localCand check.lcand).transportId, roleAttr ice.role⟩
    let next := { next with pending := ice.pending ++ [req] }
    (next.modifyCheck k fun c =>
      { c with
        tdata := some tdata
        nominated := nominated
        state := .inProgress
        errCode := none }, none)

/-! Completion. -/

/-- `on_ice_complete`. -/
def onIceComplete (ice : Session) (status : Option Error) : Session :=
  if ice.isComplete then ice
  else
    { ice with
      isComplete := true
      iceStatus := status
      timer := .completionCallback }

def allValid (ice : Session) : Bool := ice.comps.all (·.validCheck.isSome)

def noPendingCheck (ice : Session) : Bool := !ice.isTrickling && ice.clist.checks.all fun c => 3 ≤ c.state.value

/-- `wait_valid_pair_or_fail`. -/
def waitValidPairOrFail (cfg : Config) (ice : Session) : Session :=
  if ice.timer = .waitValidPair then ice
  else if ice.timer = .none ∧ cfg.waitValidPair then ice.setTimer .waitValidPair
  else onIceComplete ice (some .eicefailed)

def waitNomination (cfg : Config) (ice : Session) : Session :=
  let ice := if ice.timer = .waitValidPair then ice.setTimer .none else ice
  if ice.timer = .none ∧ cfg.wantNomination then ice.setTimer .controlledWaitNom else ice

/-- The check with the remote candidate of the valid one and the transport of its local one. -/
def sameTransport (ice : Session) (pair : Nat × Nat) (c : Check) : Bool :=
  (ice.localCand c.lcand).transportId = (ice.localCand pair.1).transportId && c.rcand = pair.2

def checkOfValid (ice : Session) (comp : Comp) (checks : List Check) : Option Nat :=
  comp.validCheck.bind fun pair => checks.findIdx? (sameTransport ice pair)

/-- `start_nominated_check` for one component. -/
def restartValid (ice : Session) (checks : List Check) (comp : Comp) : List Check :=
  match checkOfValid ice comp checks with
  | some k => checks.modify k (·.setState .waiting none)
  | none => checks

/-- `start_nominated_check`. -/
def startNominatedCheck (ice : Session) : Session :=
  let next :=
    { ice with
      isTrickling := false
      timer := if ice.timer = TimerType.startNominatedCheck then TimerType.none else ice.timer
      isNominating := true }
  (next.setChecks (ice.comps.foldl (restartValid ice) ice.clist.checks)).startTimer

/-- What `check_ice_complete` decides. -/
inductive Completion
  | success
  | failed
  | waitValidPair
  | waitNomination
  | startNominated
  | scheduleNominated
  | pending
  deriving DecidableEq, Repr

def completion (ice : Session) : Completion :=
  if ice.comps.all (·.nominatedCheck.isSome) then .success
  else if noPendingCheck ice then
    if ice.role = .controlled then if allValid ice then .waitNomination else .waitValidPair
    else if ice.isNominating then .failed
    else if allValid ice then .startNominated
    else .waitValidPair
  else if ice.role = .controlling ∧ ice.isNominating = false ∧ ice.timer = .none ∧ allValid ice then .scheduleNominated
  else .pending

/-- `check_ice_complete`. -/
def checkIceComplete (cfg : Config) (ice : Session) : Session :=
  match completion ice with
  | .success => onIceComplete ice none
  | .failed => onIceComplete ice (some .eicefailed)
  | .waitValidPair => waitValidPairOrFail cfg ice
  | .waitNomination => waitNomination cfg ice
  | .startNominated => startNominatedCheck (if ice.timer = .waitValidPair then ice.setTimer .none else ice)
  | .scheduleNominated => ice.setTimer .startNominatedCheck
  | .pending => ice

def unfreeze (foundationIdx : Int) (c : Check) : Check :=
  if c.foundationIdx = foundationIdx ∧ c.state = .frozen then c.setState .waiting none else c

/-- In Progress, and to be cancelled when `own` is nominated. -/
def cancels (cfg : Config) (own c : Check) : Bool :=
  c.state = .inProgress && (cfg.cancelAll || cmpTimestamp c.prio own.prio = .lt) && c.tdata.isSome

/-- What the success of the nominated check `own` does to a check of the same component. -/
def giveUp (cfg : Config) (own c : Check) : Check :=
  if c.state.value < 2 then c.setState .failed (some .ecancelled)
  else if cancels cfg own c then { c.setState .failed (some .ecancelled) with tdata := none }
  else c

def sameComp (ice : Session) (own c : Check) : Bool :=
  (ice.localCand c.lcand).compId = (ice.localCand own.lcand).compId

/-- `on_check_complete` before the test for completion. -/
def updateStates (cfg : Config) (ice : Session) (k : Nat) : Session :=
  let own := ice.clist.slot k
  let unfrozen := if own.errCode = none then ice.clist.checks.map (unfreeze own.foundationIdx) else ice.clist.checks
  if own.errCode = none ∧ own.nominated then
    let cancelled := (unfrozen.filter fun c => sameComp ice own c && cancels cfg own c).filterMap (·.tdata)
    { ice.setChecks (unfrozen.map fun c => if sameComp ice own c then giveUp cfg own c else c) with
      pending := ice.pending.filter (·.tdata ∉ cancelled) }
  else ice.setChecks unfrozen

/-- `on_check_complete`. -/
def onCheckComplete (cfg : Config) (ice : Session) (k : Nat) : Session := checkIceComplete cfg (updateStates cfg ice k)

def Call.run (cfg : Config) (ice : Session) : Call → Session
  | .done => ice
  | .onCheckComplete k => Ice.onCheckComplete cfg ice k
  | .checkIceComplete => Ice.checkIceComplete cfg ice
  | .startNominatedCheck => Ice.startNominatedCheck ice

def finish (cfg : Config) (r : Session × Call) : Session := r.2.run cfg r.1

/-! The valid list. -/

def validPrio (ice : Session) (pair : Nat × Nat) : Timestamp :=
  match ice.validList.find? (·.pair = pair) with
  | some c => c.prio
  | none => zeroCheck.prio

def newValidCheck (ice : Session) (comp : Comp) (check : Check) : Option (Nat × Nat) :=
  match comp.validCheck with
  | none => some check.pair
  | some pair =>
    if comp.nominatedCheck = none ∧ check.nominated then some check.pair
    else if cmpTimestamp (validPrio ice pair) check.prio = .lt ∧ (comp.nominatedCheck = none ∨ check.nominated) then
      some check.pair
    else some pair

def newNominatedCheck (ice : Session) (comp : Comp) (check : Check) : Option (Nat × Nat) :=
  if check.nominated then
    match comp.nominatedCheck with
    | none => some check.pair
    | some pair => if cmpTimestamp (validPrio ice pair) check.prio = .lt then some check.pair else some pair
  else comp.nominatedCheck

/-- `update_comp_check`, for the component of the local candidate of the check. -/
def updateCompCheck (ice : Session) (check : Check) : Session :=
  { ice with
    comps := ice.comps.modify ((ice.localCand check.lcand).compId - 1) fun comp =>
      ⟨newValidCheck ice comp check, newNominatedCheck ice comp check⟩ }

/-! The update of the checklist. -/

def saveRcand (cfg : Config) (ice : Session) (cand : Cand) : Session :=
  let same (c : Cand) : Bool := cand.compId = c.compId && cand.type = c.type && cand.addr = c.addr
  if cand.compId = 0 ∨ ice.comps.length < cand.compId then ice
  else if cfg.trickle ∧ ice.rcand.any same then ice
  else if cfg.maxCand ≤ ice.rcand.length then ice
  else { ice with rcand := ice.rcand ++ [cand] }

/-- The candidates that the loops pair, one after another. -/
def pairs (ice : Session) : List (Nat × Nat) :=
  (List.range ice.lcand.length).flatMap fun i =>
    let rstart := if ice.lcandPaired ≤ i then 0 else ice.rcandPaired
    (List.range' rstart (ice.rcand.length - rstart)).map fun j => (i, j)

def pairPrio (ice : Session) (p : Nat × Nat) : Timestamp :=
  calcCheckPrio ice.role (ice.localCand p.1).prio (ice.remoteCand p.2).prio

/-- The same component and the same address family. -/
def pairable (ice : Session) (p : Nat × Nat) : Bool :=
  (ice.localCand p.1).compId = (ice.remoteCand p.2).compId &&
    (ice.localCand p.1).addr.inet6 = (ice.remoteCand p.2).addr.inet6

/-- What is written for a new pair. The other fields are those that the slot had. -/
def newCheck (ice : Session) (p : Nat × Nat) (foundationIdx : Int) (c : Check) : Check :=
  { c with
    lcand := p.1
    rcand := p.2
    prio := pairPrio ice p
    state := .frozen
    foundationIdx := foundationIdx }

/-- The new check, unfrozen while trickling when nothing speaks against it. -/
def trickled (ice : Session) (checks : List Check) (chk : Check) : Check :=
  if ice.isTrickling ∧ canUnfreeze ice.lcand chk checks then chk.setState .waiting none else chk

def addPair (cfg : Config) (ice : Session) (s : Checklist × Nat) (p : Nat × Nat) : Checklist × Nat :=
  if pairable ice p then
    match getCheckFoundationIdx cfg.maxChecks s.1.foundation (fndStr (ice.localCand p.1) (ice.remoteCand p.2)) with
    | none => (s.1.writeNext (newCheck ice p (-1)), s.2)
    | some (i, foundation) =>
      ({ s.1.push fun c => trickled ice s.1.checks (newCheck ice p i c) with foundation := foundation }, s.2 + 1)
  else s

/-- The body of the loops: the checklist and the number of new pairs. -/
def pairUp (cfg : Config) (ice : Session) (s : Checklist × Nat) (p : Nat × Nat) : Checklist × Nat :=
  if cfg.maxChecks ≤ s.1.checks.length then
    let (clist, discarded) := discardCheck s.1 (pairPrio ice p)
    if discarded then addPair cfg ice (clist, s.2) p else (clist, s.2)
  else addPair cfg ice s p

def disableComps (ice : Session) : Session :=
  let highestComp := ice.rcand.foldl (fun highest c => max highest c.compId) 0
  { ice with
    comps := ice.comps.take highestComp ++ List.replicate (highestComp - ice.comps.length) ⟨none, none⟩
    pending := ice.pending.filter fun req => (ice.localCand req.lcand).compId ≤ highestComp }

def endOfCandidates (cfg : Config) (ice : Session) : Session :=
  if cfg.trickle then checkIceComplete cfg (disableComps ice) else disableComps ice

def resumeChecks (cfg : Config) (ice : Session) : Session :=
  if cfg.trickle ∧ ice.clist.checks ≠ [] ∧ ice.isComplete = false ∧ ice.clist.state = .running then ice.startTimer
  else ice

/-- `add_rcand_and_update_checklist` behind the pruning. -/
def finishUpdate (cfg : Config) (ice : Session) (trickleDone : Bool) : Session :=
  if trickleDone then { resumeChecks cfg (endOfCandidates cfg ice) with endOfCand := false }
  else resumeChecks cfg ice

def sortAndPrune (ice : Session) (newPair : Nat) : Session × Option Error :=
  if newPair = 0 then (ice, none)
  else
    let (clist, status) := pruneChecklist ice.lcand (sortChecklist ice.clist)
    (ice.setClist clist, status)

def markPaired (ice : Session) : Session :=
  { ice with
    lcandPaired := ice.lcand.length
    rcandPaired := ice.rcand.length }

/-- `add_rcand_and_update_checklist`. -/
def addRcandAndUpdateChecklist (cfg : Config) (ice : Session) (cands : List Cand) (trickleDone : Bool) :
    Session × Option Error :=
  let ice := cands.foldl (saveRcand cfg) ice
  let (clist, newPair) := (pairs ice).foldl (pairUp cfg ice) (ice.clist, 0)
  let ice := ice.setClist clist
  if clist.checks = [] ∧ trickleDone then (ice, some .enotfound)
  else
    match sortAndPrune (markPaired ice) newPair with
    | (ice, some status) => (ice, some status)
    | (ice, none) => (finishUpdate cfg ice trickleDone, none)

def initChecklist (ice : Session) (remote : Credentials) : Session :=
  { ice with
    remote := some remote
    clist :=
      { ice.clist with
        checks := []
        spare := ice.clist.checks ++ ice.clist.spare
        timer := false }
    lcandPaired := 0
    rcandPaired := 0 }

/-- `pj_ice_sess_create_check_list`. -/
def createCheckList (cfg : Config) (ice : Session) (remote : Credentials) (cands : List Cand) :
    Session × Option Error :=
  if ice.remote.isSome then (ice, none)
  else if remote.ufrag.length < 4 ∨ remote.passwd.length < 22 then (ice, some .etoosmall)
  else if 512 ≤ remote.ufrag.length ∨ 512 - 1 - remote.ufrag.length < cfg.rxUfrag.length then (ice, some .etoobig)
  else
    let ice := initChecklist ice remote
    if ice.lcand ≠ [] ∧ cands ≠ [] then addRcandAndUpdateChecklist cfg ice cands !ice.isTrickling else (ice, none)

/-- `pj_ice_sess_update_check_list`. -/
def updateCheckList (cfg : Config) (ice : Session) (remote : Credentials) (cands : List Cand) (trickleDone : Bool) :
    Session × Option Error :=
  if ice.remote = none then (ice, some .einvalidop)
  else if ice.isTrickling = false ∧ cands ≠ [] then (ice, none)
  else
    let cands := if ice.remote = some remote then cands else []
    let (ice, status) := addRcandAndUpdateChecklist cfg ice cands trickleDone
    (if trickleDone then { ice with isTrickling := false } else ice, status)

/-! Incoming checks. -/

/-- The local candidate of the component and the transport, of the highest priority. -/
def bestLcand (ice : Session) (r : RxCheck) : Option Nat :=
  (List.range ice.lcand.length).foldl (fun best i =>
    let c := ice.localCand i
    if c.compId = r.compId ∧ c.transportId = r.transportId then
      match best with
      | none => some i
      | some b => if (ice.localCand b).prio < c.prio then some i else some b
    else best) none

/-- The remote candidate with the source address, which may be a new one. -/
def sourceRcand (cfg : Config) (ice : Session) (r : RxCheck) : Option (Session × Nat) :=
  match ice.rcand.findIdx? (r.srcAddr = ·.addr) with
  | some i => some (ice, i)
  | none =>
    if cfg.maxCand ≤ ice.rcand.length then none
    else
      let cand := ⟨.prflx, r.compId, 0, cfg.fnd ice.rcand.length, r.priority, r.srcAddr, zeroCand.baseAddr⟩
      some ({ ice with rcand := ice.rcand ++ [cand] }, ice.rcand.length)

def nominateValid (ice : Session) (c : Check) : Session :=
  ice.validList.foldl (fun ice vc =>
    if sameTransport ice c.pair vc then
      let nominated := { vc with nominated := true }
      let validList := ice.validList.map fun d => if d.pair = vc.pair then { d with nominated := true } else d
      updateCompCheck { ice with validList := validList } nominated
    else ice) ice

/-- Outside regular nomination, the check is performed at once. -/
def performTriggered (cfg : Config) (ice : Session) (k : Nat) : Session :=
  (performCheck cfg ice k ((ice.clist.slot k).nominated || ice.isNominating)).1

/-- `handle_incoming_check` for a pair that is on the checklist. -/
def incomingKnown (cfg : Config) (ice : Session) (r : RxCheck) (k : Nat) : Session × Call :=
  let ice := ice.modifyCheck k fun c => { c with nominated := r.useCandidate || c.nominated }
  let c := ice.clist.slot k
  match c.state with
  | .frozen | .waiting =>
    if ice.isNominating ∧ cfg.isAggressive = false then (ice, .done) else (performTriggered cfg ice k, .done)
  | .inProgress => (ice, .done)
  | .succeeded => (if r.useCandidate then nominateValid ice c else ice, .onCheckComplete k)
  | .failed => (ice, .done)

def triggeredCheck (ice : Session) (p : Nat × Nat) (useCandidate : Bool) (c : Check) : Check :=
  { c with
    lcand := p.1
    rcand := p.2
    prio := pairPrio ice p
    state := .waiting
    nominated := useCandidate
    errCode := none }

/-- `handle_incoming_check` for a pair that is not on the checklist. -/
def incomingNew (cfg : Config) (ice : Session) (r : RxCheck) (p : Nat × Nat) : Session :=
  if ice.clist.checks.length < cfg.maxChecks then
    let k := ice.clist.checks.length
    let ice := ice.setClist (ice.clist.push (triggeredCheck ice p r.useCandidate))
    let ice :=
      if ice.isNominating ∧ cfg.isAggressive = false then ice.startTimer else performTriggered cfg ice k
    ice.setClist (sortChecklist ice.clist)
  else ice

/-- `handle_incoming_check`. -/
def handleIncomingCheck (cfg : Config) (ice : Session) (r : RxCheck) : Session × Call :=
  if ice.isComplete then (ice, .done)
  else
    match sourceRcand cfg ice r with
    | none => (ice, .done)
    | some (ice, rcand) =>
      match bestLcand ice r with
      | none => (ice, .done)
      | some lcand =>
        match ice.clist.checks.findIdx? (·.pair = (lcand, rcand)) with
        | some k => incomingKnown cfg ice r k
        | none => (incomingNew cfg ice r (lcand, rcand), .done)

/-- What `on_stun_rx_request` reads of a Binding request; `responds` says whether the response could be created. -/
structure RxRequest where
  compId : Nat
  transportId : Nat
  srcAddr : Addr
  useCandidate : Bool
  priority : Option UInt32
  roleAttr : Option (RoleAttr × UInt64)
  responds : Bool
  deriving DecidableEq, Repr

def roleAfter (cfg : Config) (role : Role) (attr : Option (RoleAttr × UInt64)) : Option Role :=
  match role, attr with
  | .controlling, some (.iceControlling, value) => if cfg.tieBreaker < value then some .controlled else none
  | .controlled, some (.iceControlled, value) => if cfg.tieBreaker < value then none else some .controlling
  | role, _ => some role

/-- The source address; behind NAT64 the original address of a synthesized one. -/
def sourceAddr (cfg : Config) (ice : Session) (req : RxRequest) : Addr :=
  let lcand := (ice.clist.checks.map fun c => ice.localCand c.lcand).find? fun c =>
    c.compId = req.compId && c.transportId = req.transportId
  match req.srcAddr.inet6, lcand with
  | true, some lcand =>
    if lcand.addr.inet6 then req.srcAddr
    else
      match ice.rcand.find? fun c => !c.addr.inet6 && cfg.synthesize c.addr = some req.srcAddr with
      | some c => c.addr
      | none => req.srcAddr
  | _, _ => req.srcAddr

/-- `on_stun_rx_request`. -/
def onStunRxRequest (cfg : Config) (ice : Session) (req : RxRequest) : Session × Call :=
  match req.priority with
  | none => (ice, .done)
  | some priority =>
    match roleAfter cfg ice.role req.roleAttr with
    | none => (ice, .done)
    | some role =>
      let ice := ice.changeRole role
      if req.responds then
        let r := ⟨req.compId, req.transportId, sourceAddr cfg ice req, req.useCandidate, priority⟩
        if ice.remote = none then ({ ice with earlyCheck := ice.earlyCheck ++ [r] }, .done)
        else handleIncomingCheck cfg ice r
      else (ice, .done)

/-! The start of the checks. -/

/-- `c` is preferred to `chk` of the same foundation: a lower component, or a higher priority. -/
def wokenBefore (ice : Session) (c chk : Check) : Bool :=
  let compId := (ice.localCand c.lcand).compId
  let best := (ice.localCand chk.lcand).compId
  compId < best || (compId = best && cmpTimestamp c.prio chk.prio = .gt)

/-- The loop over the checks for the foundation `i`: the check that is unfrozen. -/
def wokenCheck (ice : Session) (i : Nat) (checks : List Check) : Option Nat :=
  (List.range checks.length).foldl (fun best k =>
    let c := checks.getD k zeroCheck
    if c.foundationIdx = i ∧ c.state = .frozen then
      match best with
      | none => some k
      | some b => if wokenBefore ice c (checks.getD b zeroCheck) then some k else some b
    else best) none

/-- The turn of the loop over the foundations. -/
def wakeFoundation (ice : Session) (checks : List Check) (i : Nat) : List Check :=
  match wokenCheck ice i checks with
  | some k => checks.modify k (·.setState .waiting none)
  | none => checks

/-- `pj_ice_sess_start_check` before the early checks. -/
def wakeFoundations (cfg : Config) (ice : Session) : Session :=
  let ice := if cfg.isAggressive then { ice with isNominating := true } else ice
  ice.setChecks ((List.range ice.clist.foundation.length).foldl (wakeFoundation ice) ice.clist.checks)

/-- `pj_ice_sess_start_check`. -/
def startCheck (cfg : Config) (ice : Session) : Session × Option Error :=
  if ice.clist.checks = [] ∧ ice.isTrickling = false then (ice, some .einvalidop)
  else
    let woken := wakeFoundations cfg ice
    let ice := woken.earlyCheck.foldl (fun ice r => finish cfg (handleIncomingCheck cfg ice r)) woken
    ({ ice.startTimer with
        earlyCheck := []
        endOfCand := ice.endOfCand || ice.isTrickling }, none)

/-! The periodic check. -/

/-- Regular nomination: the Waiting check of the first valid pair that has one. -/
def pickNominated (ice : Session) : Option Nat :=
  ice.comps.findSome? fun comp =>
    comp.validCheck.bind fun pair =>
      ice.clist.checks.findIdx? fun c => c.state = .waiting && sameTransport ice pair c

/-- The pair that `start_periodic_check` finds. -/
def pickCheck (cfg : Config) (ice : Session) : Option Nat :=
  if ice.isNominating ∧ cfg.isAggressive = false then pickNominated ice
  else
    match ice.clist.checks.findIdx? (·.state = .waiting) with
    | some k => some k
    | none => ice.clist.checks.findIdx? (·.state = .frozen)

/-- `start_periodic_check` up to the schedule of the next one. -/
def periodicCheck (cfg : Config) (ice : Session) : Session × Call :=
  match pickCheck cfg ice with
  | none => (ice, .done)
  | some k =>
    match performCheck cfg ice k ice.isNominating with
    | (next, none) => (next, .done)
    | (next, some status) => (next.modifyCheck k (·.setState .failed (some status)), .onCheckComplete k)

/-- The checklist runs, and its timer entry does not. -/
def runningChecklist (ice : Session) : Session :=
  ice.setClist
    { ice.clist with
      state := .running
      timer := false }

/-- `start_periodic_check`. -/
def startPeriodicCheck (cfg : Config) (ice : Session) : Session :=
  let ice := runningChecklist ice
  let next := finish cfg (periodicCheck cfg ice)
  if (pickCheck cfg ice).isSome then next.startTimer else next

/-! The completion of requests. -/

/-- The outcome of a request: a role conflict response, another failure, or a success response with its source and
its mapped address. -/
inductive Result
  | roleConflict
  | failed (status : Error)
  | response (srcAddr : Addr) (mapped : Option Addr)
  deriving DecidableEq, Repr

/-- The check of a completed request: the one at its index, if the transaction is its, or else the one with its
candidates. -/
def locate (ice : Session) (req : Request) : Option Nat :=
  if (ice.clist.slot req.ckid).tdata = some req.tdata then some req.ckid
  else ice.clist.checks.findIdx? (·.pair = req.pair)

/-- The source address of the response is the one that the request was sent to. -/
def fromDestination (cfg : Config) (dst src : Addr) : Bool :=
  if dst.inet6 = false ∧ src.inet6 = true ∧ cfg.synthesize dst = some src then true else dst = src

def mappedLcand (cfg : Config) (ice : Session) (lcand : Cand) (transportId : Nat) (mapped : Addr) :
    Session × Except Error Nat :=
  match ice.lcand.findIdx? fun c => mapped = c.addr && lcand.baseAddr = c.baseAddr with
  | some i => (ice, .ok i)
  | none =>
    addCand cfg ice lcand.compId transportId .prflx (65535 - ice.lcand.length) (calcFoundation .prflx lcand.baseAddr)
      mapped lcand.baseAddr

def validCheckOf (ice : Session) (p : Nat × Nat) (nominated : Bool) : Check :=
  { zeroCheck with
    lcand := p.1
    rcand := p.2
    prio := pairPrio ice p
    state := .succeeded
    nominated := nominated }

/-- The pair is added to the valid list, or its nominated flag updated. -/
def addValid (ice : Session) (p : Nat × Nat) (nominated : Bool) : Session × Check :=
  match ice.validList.find? (·.pair = p) with
  | some c =>
    let check := { c with nominated := nominated }
    ({ ice with validList := ice.validList.map fun d => if d.pair = p then { d with nominated := nominated } else d },
      check)
  | none =>
    let check := validCheckOf ice p nominated
    ({ ice with validList := ice.validList ++ [check] }, check)

def enterValid (ice : Session) (p : Nat × Nat) (nominated : Bool) : Session :=
  let (ice, check) := addValid ice p nominated
  let ice := updateCompCheck ice check
  { ice with validList := sortChecks ice.validList }

/-- The check with the index `k` has failed. -/
def failCheck (ice : Session) (k : Nat) (status : Error) : Session × Call :=
  (ice.modifyCheck k (·.setState .failed (some status)), .onCheckComplete k)

/-- A success response to the request of the check with the index `k`. -/
def onResponse (cfg : Config) (ice : Session) (k : Nat) (req : Request) (srcAddr : Addr) (mapped : Option Addr) :
    Session × Call :=
  let own := ice.clist.slot k
  if fromDestination cfg (ice.remoteCand own.rcand).addr srcAddr then
    match mapped with
    | none => failCheck ice k .estunnomappedaddr
    | some mapped =>
      match mappedLcand cfg ice (ice.localCand own.lcand) req.transportId mapped with
      | (ice, .error status) => failCheck ice k status
      | (ice, .ok lcand) =>
        ((enterValid ice (lcand, own.rcand) own.nominated).modifyCheck k (·.setState .succeeded none),
          .onCheckComplete k)
  else failCheck ice k .eiceinsrcaddr

/-- A role conflict response: the role is changed, and the request sent again. -/
def onRoleConflict (cfg : Config) (ice : Session) (k : Nat) (attr : RoleAttr) : Session :=
  let ice := ice.changeRole (conflictRole attr)
  let ice := ice.modifyCheck k (·.setState .waiting none)
  (performCheck cfg ice k ((ice.clist.slot k).nominated || ice.isNominating)).1

/-- `on_stun_request_complete`. -/
def onStunRequestComplete (cfg : Config) (ice : Session) (req : Request) (result : Result) : Session × Call :=
  if ice.isComplete then (ice, .done)
  else
    match locate ice req with
    | none => (ice.clearTdata req.ckid, .done)
    | some k =>
      let ice := ice.clearTdata k
      match result with
      | .roleConflict => (onRoleConflict cfg ice k req.attr, .done)
      | .failed status => failCheck ice k status
      | .response srcAddr mapped => onResponse cfg ice k req srcAddr mapped

/-! The timers. -/

/-- `on_timer`. -/
def onTimer (ice : Session) : Session × Call :=
  let idle := ice.setTimer .none
  match ice.timer with
  | .controlledWaitNom => (onIceComplete idle (some .eicenomtimeout), .done)
  | .waitValidPair =>
    if ice.clist.checks.all (fun c => 3 ≤ c.state.value) && !allValid ice then
      (onIceComplete idle (some .eicefailed), .done)
    else (idle, .checkIceComplete)
  | .completionCallback => (if ice.iceStatus = none then idle.setTimer .keepAlive else idle, .done)
  | .startNominatedCheck => (idle, .startNominatedCheck)
  | .keepAlive => (idle.setTimer .keepAlive, .done)
  | .none => (idle, .done)

/-- `end_of_cand_ind_timer`. -/
def endOfCandIndTimer (ice : Session) : Session × Call :=
  let ice := { ice with endOfCand := false }
  if ice.isTrickling ∧ ice.isComplete = false then ({ ice with isTrickling := false }, .checkIceComplete)
  else (ice, .done)

/-! The session as a system. -/

/-- What happens to the session. A request is completed by its place among the pending ones. -/
inductive Event
  | addCand (compId transportId : Nat) (type : CandType) (localPref : Nat) (foundation : List UInt8)
      (addr baseAddr : Addr)
  | createCheckList (remote : Credentials) (cands : List Cand)
  | updateCheckList (remote : Credentials) (cands : List Cand) (trickleDone : Bool)
  | startCheck
  | changeRole (role : Role)
  | periodicTimer
  | timer
  | endOfCandTimer
  | rxRequest (req : RxRequest)
  | requestComplete (i : Nat) (result : Result)
  deriving DecidableEq, Repr

def handle (cfg : Config) (ice : Session) : Event → Session
  | .addCand compId transportId type localPref foundation addr baseAddr =>
    (addCand cfg ice compId transportId type localPref foundation addr baseAddr).1
  | .createCheckList remote cands => (createCheckList cfg ice remote cands).1
  | .updateCheckList remote cands trickleDone => (updateCheckList cfg ice remote cands trickleDone).1
  | .startCheck => (startCheck cfg ice).1
  | .changeRole role => ice.changeRole role
  | .periodicTimer => startPeriodicCheck cfg ice
  | .timer => finish cfg (onTimer ice)
  | .endOfCandTimer => finish cfg (endOfCandIndTimer ice)
  | .rxRequest req => finish cfg (onStunRxRequest cfg ice req)
  | .requestComplete i result =>
    match ice.pending[i]? with
    | none => ice
    | some req => finish cfg (onStunRequestComplete cfg (ice.endRequest i) req result)

def enabled (ice : Session) : Event → Bool
  | .periodicTimer => ice.clist.timer
  | .timer => ice.timer ≠ .none
  | .endOfCandTimer => ice.endOfCand
  | .rxRequest req => 0 < req.compId && req.compId ≤ ice.comps.length
  | .requestComplete i _ => i < ice.pending.length
  | _ => true

def step (cfg : Config) (ice : Session) (e : Event) : Option Session :=
  if enabled ice e then some (handle cfg ice e) else none

/-- A session as `pj_ice_sess_create` and `pj_ice_sess_set_options` leave it. -/
def initial (cfg : Config) (role : Role) (compCnt : Nat) : Session :=
  { role := role
    isTrickling := cfg.trickle
    isNominating := false
    isComplete := false
    iceStatus := none
    remote := none
    comps := List.replicate compCnt ⟨none, none⟩
    lcand := []
    rcand := []
    lcandPaired := 0
    rcandPaired := 0
    clist := ⟨[], List.replicate cfg.maxChecks zeroCheck, [], .idle, false⟩
    validList := []
    timer := .none
    endOfCand := false
    earlyCheck := []
    pending := []
    attempts := 0 }

/-! What leaves the checklist alone. -/

def view (ice : Session) : Checklist × Bool := (ice.clist, ice.isNominating)

theorem clist_of_view {ice next : Session} (h : view next = view ice) : next.clist = ice.clist := congrArg Prod.fst h

section View

variable (cfg : Config) (ice : Session)

theorem view_ite {c : Prop} [Decidable c] {a b : Session} {v : Checklist × Bool} (ha : view a = v) (hb : view b = v) :
    view (if c then a else b) = v := by
  split
  · exact ha
  · exact hb

@[simp] theorem view_onIceComplete (status : Option Error) : view (onIceComplete ice status) = view ice :=
  view_ite rfl rfl

theorem view_checkIceComplete (h : completion ice ≠ .startNominated) : view (checkIceComplete cfg ice) = view ice := by
  unfold checkIceComplete
  split
  · exact view_onIceComplete _ _
  · exact view_onIceComplete _ _
  · exact view_ite rfl (view_ite rfl (view_onIceComplete _ _))
  · exact view_ite (view_ite rfl rfl) (view_ite rfl rfl)
  · rename_i hstart
    exact absurd hstart h
  · rfl
  · rfl

@[simp] theorem view_addCand (compId transportId : Nat) (type : CandType) (localPref : Nat) (foundation : List UInt8)
    (addr baseAddr : Addr) :
    view (addCand cfg ice compId transportId type localPref foundation addr baseAddr).1 = view ice := by
  unfold addCand
  split
  · rfl
  · split
    · rfl
    · dsimp only
      split
      · rfl
      · rfl

@[simp] theorem view_mappedLcand (lcand : Cand) (transportId : Nat) (mapped : Addr) :
    view (mappedLcand cfg ice lcand transportId mapped).1 = view ice := by
  unfold mappedLcand
  split
  · rfl
  · exact view_addCand _ _ _ _ _ _ _ _ _

theorem view_addValid (p : Nat × Nat) (nominated : Bool) : view (addValid ice p nominated).1 = view ice := by
  unfold addValid
  split
  · rfl
  · rfl

@[simp] theorem view_enterValid (p : Nat × Nat) (nominated : Bool) : view (enterValid ice p nominated) = view ice :=
  view_addValid ice p nominated

/-- What the completion of the check `own` makes of a check, before the test for completion. -/
def settled (own c : Check) : Check :=
  let c := if own.errCode = none then unfreeze own.foundationIdx c else c
  if own.errCode = none ∧ own.nominated then if sameComp ice own c then giveUp cfg own c else c else c

theorem checks_updateStates (k : Nat) :
    (updateStates cfg ice k).clist.checks = ice.clist.checks.map (settled cfg ice (ice.clist.slot k)) := by
  unfold updateStates settled
  dsimp only
  by_cases herr : (ice.clist.slot k).errCode = none
  · simp only [if_pos herr]
    by_cases hnominated : (ice.clist.slot k).errCode = none ∧ (ice.clist.slot k).nominated = true
    · simp only [if_pos hnominated]
      exact List.map_map
    · simp only [if_neg hnominated]
      rfl
  · have hnot : ¬ ((ice.clist.slot k).errCode = none ∧ (ice.clist.slot k).nominated = true) := fun h => herr h.1
    simp only [if_neg herr, if_neg hnot]
    exact (List.map_id' _).symm

theorem checks_startNominatedCheck :
    (startNominatedCheck ice).clist.checks = ice.comps.foldl (restartValid ice) ice.clist.checks := rfl

end View

end PjProject.Ice
