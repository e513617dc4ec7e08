import PjProject.Bytes
import PjProject.Runs

/-! The pending queries of the DNS resolver (`resolver.c`). The two hash tables are the maps that they
hold, and a query node is known by its number. A step is what one entry point does under the lock. A
timer that has expired waits for the lock as a callback; a query that was taken out of the tables has its
callbacks called without the lock before its nodes are recycled. The response cache and the name servers
are outside: whether a cached response answers a query, and how a transmission ends, come with the call. -/

namespace PjProject.DnsResolver

abbrev Node := Nat

/-- `PJ_MAX_HOSTNAME`. -/
def maxHostname : Nat := 254

structure ResKey where
  qtype : Nat
  name : List UInt8
  deriving DecidableEq, Repr

/-- `init_res_key`: the name in lower case, in a buffer that was cleared. -/
def initResKey (type : Nat) (name : List UInt8) : ResKey :=
  ⟨type % 2 ^ 16, ((name.take (maxHostname - 1)).map toLower).rightpad maxHostname 0⟩

/-- A `pj_dns_async_query`. The timer entry is `timerId`, set where its `id` is 1, and `scheduled`, whether
it is in the timer heap; `cb` is the callback with its user data. -/
structure Query where
  id : Nat
  transmitCnt : Nat
  key : ResKey
  timerId : Bool
  scheduled : Bool
  cb : Option Nat
  children : List Node
  deriving DecidableEq, Repr

inductive Status
  | answered
  | timedOut
  | cancelled
  deriving DecidableEq, Repr

/-- `waiting` are the nodes whose timeout callback has not got the lock yet, `finished` the queries whose
callbacks are to be called, and `log` the callbacks that were called. -/
structure Resolver where
  lastId : Nat
  nodes : Node → Query
  nextNode : Node
  freeNodes : List Node
  byId : Nat → Option Node
  byRes : ResKey → Option Node
  waiting : List Node
  finished : List (Node × Status)
  log : List (Nat × Status)

def blankQuery (cb : Option Nat) : Query := ⟨0, 0, ⟨0, List.replicate maxHostname 0⟩, false, false, cb, []⟩

/-- `pj_dns_resolver_create`. -/
def create : Resolver := ⟨1, fun _ => blankQuery none, 0, [], fun _ => none, fun _ => none, [], [], []⟩

def Resolver.setNode (s : Resolver) (n : Node) (q : Query) : Resolver :=
  { s with nodes := Function.update s.nodes n q }

/-- `alloc_qnode`: the node it takes. -/
def Resolver.nextQnode (s : Resolver) : Node := s.freeNodes.headD s.nextNode

def allocQnode (s : Resolver) (cb : Option Nat) : Resolver :=
  { s.setNode s.nextQnode (blankQuery cb) with
    freeNodes := s.freeNodes.tail
    nextNode := if s.freeNodes = [] then s.nextNode + 1 else s.nextNode }

/-- How `transmit_query` goes: no server is selected, the timer cannot be scheduled, the socket is busy,
the packet cannot be made, no server can be sent to, or the packet is sent. -/
inductive Transmit
  | noServers
  | notScheduled
  | busy
  | notMade
  | notSent
  | sent
  deriving DecidableEq, Repr

/-- `transmit_query`, with whether it succeeds. An entry that is in the heap is not scheduled again. -/
def transmitQuery (q : Query) (outcome : Transmit) : Query × Bool :=
  if outcome = .noServers then (q, false)
  else if outcome = .notScheduled ∨ q.scheduled = true then ({ q with timerId := true }, false)
  else if outcome = .busy ∨ outcome = .sent then
    ({ q with timerId := true, scheduled := true, transmitCnt := q.transmitCnt + 1 }, true)
  else ({ q with timerId := true, scheduled := false }, false)

/-- `last_id++`, and 1 after the last id of 16 bits. -/
def bumpId (id : Nat) : Nat := if (id + 1) % 2 ^ 16 = 0 then 1 else (id + 1) % 2 ^ 16

def Resolver.call (s : Resolver) (cb : Option Nat) (status : Status) : Resolver :=
  { s with log := s.log ++ (cb.map fun c => (c, status)).toList }

/-- The checks of the arguments of `pj_dns_resolver_start_query`. -/
def ValidArgs (type : Nat) (name : List UInt8) : Prop :=
  0 < name.length ∧ name.length < maxHostname ∧ 0 < type ∧ type < 0xFFFF

instance (type : Nat) (name : List UInt8) : Decidable (ValidArgs type name) :=
  inferInstanceAs (Decidable (_ ∧ _ ∧ _ ∧ _))

/-- A query for a name that is not pending. -/
def startNew (s : Resolver) (key : ResKey) (cb : Option Nat) (outcome : Transmit) : Resolver :=
  let n := s.nextQnode
  let t := { allocQnode s cb with lastId := bumpId s.lastId }
  let result := transmitQuery { blankQuery cb with id := s.lastId, key := key } outcome
  if result.2 then
    { t.setNode n result.1 with
      byId := Function.update s.byId s.lastId (some n)
      byRes := Function.update s.byRes key (some n) }
  else { t.setNode n result.1 with freeNodes := t.freeNodes ++ [n] }

/-- A query for a name that is pending as `p`. -/
def startChild (s : Resolver) (p : Node) (cb : Option Nat) : Resolver :=
  let t := allocQnode s cb
  t.setNode p { t.nodes p with children := (t.nodes p).children ++ [s.nextQnode] }

/-- `pj_dns_resolver_start_query`; `cached` says that the cache has a response that has not expired. -/
def startQuery (s : Resolver) (type : Nat) (name : List UInt8) (cb : Option Nat) (cached : Bool)
    (outcome : Transmit) : Resolver :=
  if ¬ValidArgs type name then s
  else if cached then s.call cb .answered
  else
    match s.byRes (initResKey type name) with
    | some p => startChild s p cb
    | none => startNew s (initResKey type name) cb outcome

/-- `pj_timer_heap_cancel_if_active` with 0, for a timer whose `id` is 1. -/
def Query.cancelIfActive (q : Query) : Query :=
  if q.timerId = true ∧ q.scheduled = true then { q with timerId := false, scheduled := false } else q

/-- `pj_dns_resolver_cancel_query`. -/
def cancelQuery (s : Resolver) (n : Node) (notify : Bool) : Resolver :=
  let t := s.setNode n { (s.nodes n).cancelIfActive with cb := none }
  if notify then t.call (s.nodes n).cb .cancelled else t

/-- The entries of the query are cleared in both tables, and its callbacks are to be called. -/
def takeOut (s : Resolver) (n : Node) (q : Query) (status : Status) : Resolver :=
  { s.setNode n q with
    byId := Function.update s.byId q.id none
    byRes := Function.update s.byRes q.key none
    finished := s.finished ++ [(n, status)] }

/-- `on_read_complete` for a response that was parsed, by the transaction id of its header. -/
def response (s : Resolver) (id : Nat) : Resolver :=
  match s.byId id with
  | none => s
  | some n => takeOut s n { s.nodes n with timerId := false, scheduled := false } .answered

/-- The timer heap takes the entry of the node out and starts its callback. -/
def expire (s : Resolver) (n : Node) : Resolver :=
  { s.setNode n { s.nodes n with scheduled := false } with waiting := n :: s.waiting }

/-- `on_timeout` once it has the lock. -/
def onTimeout (qretrCount : Nat) (s : Resolver) (n : Node) (outcome : Transmit) : Resolver :=
  let t := { s with waiting := s.waiting.erase n }
  if s.byId (s.nodes n).id = none then t
  else
    let q := { s.nodes n with timerId := false }
    if q.transmitCnt < qretrCount then
      let result := transmitQuery q outcome
      if result.2 then t.setNode n result.1 else takeOut t n result.1 .timedOut
    else takeOut t n q .timedOut

/-- The callbacks of a query that was taken out and of its children, and then their nodes are recycled. -/
def finish (s : Resolver) (n : Node) (status : Status) : Resolver :=
  let q := s.nodes n
  let nodes := n :: q.children
  { s.setNode n { q with timerId := false } with
    log := s.log ++ nodes.filterMap fun m => (s.nodes m).cb.map fun c => (c, status)
    finished := s.finished.erase (n, status)
    freeNodes := s.freeNodes ++ q.children ++ [n] }

/-- The queries that the loop of `pj_dns_resolver_destroy` finds by their ids. -/
def Resolver.listed (s : Resolver) : List Node :=
  (List.range s.nextNode).filter fun n => s.byId (s.nodes n).id = some n

/-- `pj_dns_resolver_destroy`. -/
def destroy (s : Resolver) (notify : Bool) : Resolver :=
  let called := s.listed.flatMap fun n => n :: (s.nodes n).children
  { s with
    nodes := fun n =>
      if n ∈ s.listed then { (s.nodes n).cancelIfActive with cb := none }
      else if n ∈ called then { s.nodes n with cb := none }
      else s.nodes n
    byId := fun _ => none
    byRes := fun key => if ∃ n ∈ s.listed, (s.nodes n).key = key then none else s.byRes key
    log := s.log ++
      if notify then called.filterMap fun m => (s.nodes m).cb.map fun c => (c, .cancelled) else [] }

inductive Action
  | startQuery (type : Nat) (name : List UInt8) (cb : Option Nat) (cached : Bool) (outcome : Transmit)
  | cancelQuery (n : Node) (notify : Bool)
  | response (id : Nat)
  | expire (n : Node)
  | onTimeout (n : Node) (outcome : Transmit)
  | finish (n : Node) (status : Status)
  | destroy (notify : Bool)
  deriving DecidableEq, Repr

/-- A timer expires when it is scheduled, a callback gets the lock when it waits for it, and callbacks are
called for the queries that were taken out. -/
def step (qretrCount : Nat) (s : Resolver) : Action → Option Resolver
  | .startQuery type name cb cached outcome => some (startQuery s type name cb cached outcome)
  | .cancelQuery n notify => some (cancelQuery s n notify)
  | .response id => some (response s id)
  | .expire n => if (s.nodes n).scheduled then some (expire s n) else none
  | .onTimeout n outcome => if n ∈ s.waiting then some (onTimeout qretrCount s n outcome) else none
  | .finish n status => if (n, status) ∈ s.finished then some (finish s n status) else none
  | .destroy notify => some (destroy s notify)

/-- A query that is in one of the tables. -/
def Resolver.Pending (s : Resolver) (n : Node) : Prop :=
  (∃ id, s.byId id = some n) ∨ ∃ key, s.byRes key = some n

end PjProject.DnsResolver
