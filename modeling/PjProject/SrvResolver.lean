import PjProject.DnsResolver
import PjProject.Dns
import PjProject.Xml

/-! What DNS SRV resolution (`srv_resolver.c`) makes of an SRV response: the targets, in the order of their priorities and
weights, with the addresses that the response has for them. -/

namespace PjProject.SrvResolver

open DnsResolver (maxHostname)
open Dns (Rr Rdata typeA typeAaaa typeSrv)

/-- `PJ_DNS_SRV_MAX_ADDR` and `PJ_DNS_MAX_IP_IN_A_REC`. -/
def srvMaxAddr : Nat := 8
def addrMaxCount : Nat := 8

/-- The errors; `resolver` is a status of the resolver. -/
inductive Error
  | eignored
  | einval
  | edns (rcode : Nat)
  | ednsinanswer
  | ednsnoanswerrec
  | enametoolong
  | resolver (status : Nat)
  deriving DecidableEq, Repr

/-- What is read of a `pj_dns_parsed_packet`: the flags, the names that were asked for and two sections. -/
structure Packet where
  flags : Nat
  q : List (List UInt8)
  ans : List Rr
  arr : List Rr
  deriving DecidableEq, Repr

/-- `pj_stricmp` is zero. -/
def sameName (a b : List UInt8) : Bool := Xml.stricmp a b = 0

def addressOf : Rdata → List UInt8
  | .a ipAddr | .aaaa ipAddr => ipAddr
  | _ => []

def srvOf : Rdata → Nat × Nat × Nat × List UInt8
  | .srv prio weight port target => (prio, weight, port, target)
  | _ => (0, 0, 0, [])

/-! The query job. -/

structure Addr where
  ipv6 : Bool
  ip : List UInt8
  port : Nat
  deriving DecidableEq, Repr

/-- What a query pointer of a target is: `NULL`, the marker `0x1`, or a query that is pending. -/
inductive QueryPtr
  | null
  | dummy
  | pending
  deriving DecidableEq, Repr

/-- `struct srv_target`. -/
structure Srv where
  targetName : List UInt8
  qA : QueryPtr
  qAaaa : QueryPtr
  cname : List UInt8
  port : Nat
  priority : Nat
  weight : Nat
  sum : Nat
  addr : List Addr
  deriving DecidableEq, Repr

/-- The bits of `option`: `PJ_DNS_SRV_FALLBACK_A`, `_FALLBACK_AAAA`, `_RESOLVE_AAAA` and `_RESOLVE_AAAA_ONLY`. -/
structure Options where
  fallbackA : Bool
  fallbackAaaa : Bool
  resolveAaaa : Bool
  resolveAaaaOnly : Bool
  deriving DecidableEq, Repr

/-- `dns_state`. -/
inductive Stage
  | srv
  | host
  deriving DecidableEq, Repr

/-- `pj_dns_srv_async_query`. All is done in one thread, so `busy_thread` is that thread where `busy` is not zero. -/
structure Job where
  dnsState : Stage
  qSrv : QueryPtr
  lastError : Option Error
  option : Options
  domainPart : List UInt8
  defPort : Nat
  srv : List Srv
  hostResolved : Nat
  busy : Nat
  deferredCb : Bool
  deferredStatus : Option Error
  deriving DecidableEq, Repr

/-! The targets of a response. -/

/-- `SWAP` of two elements. -/
def swapAt (l : List Srv) (i j : Nat) : List Srv :=
  match l[i]?, l[j]? with
  | some a, some b => (l.set i b).set j a
  | _, _ => l

/-- The index of the element with the least priority, from `i` on, the first of several. -/
def minPriority (l : List Srv) (i : Nat) : Nat :=
  ((List.range l.length).drop (i + 1)).foldl
    (fun min j => if (l[j]?.map Srv.priority).getD 0 < (l[min]?.map Srv.priority).getD 0 then j else min) i

def orderByPriority (l : List Srv) : List Srv :=
  (List.range (l.length - 1)).foldl (fun l i => swapAt l i (minPriority l i)) l

def runningSums (priority : Nat) : Nat → List Srv → List Srv
  | _, [] => []
  | sum, srv :: more =>
    if srv.priority = priority then { srv with sum := sum + srv.weight } :: runningSums priority (sum + srv.weight) more
    else srv :: more

/-- One turn of the second pass, with a random number. -/
def elect (rand : Nat → Nat) (l : List Srv) (i : Nat) : List Srv :=
  match l[i]? with
  | none => l
  | some first =>
    let group := (l.drop i).takeWhile fun srv => srv.priority = first.priority
    let l := l.take i ++ runningSums first.priority 0 (l.drop i)
    if 1 < group.length then
      let r := rand i % ((group.map Srv.weight).sum + 1)
      swapAt l i (i + ((l.drop i).takeWhile fun srv => srv.sum < r).length)
    else l

def orderByWeight (rand : Nat → Nat) (l : List Srv) : List Srv := (List.range l.length).foldl (elect rand) l

/-- The entry for a record of the answer section. -/
def newSrv (rdata : Rdata) : Srv :=
  let (prio, weight, port, target) := srvOf rdata
  ⟨target, .null, .null, [], port, prio, weight, 0, []⟩

def answerEntries (ans : List Rr) : List Srv :=
  ((ans.filter fun rr =>
    decide (rr.type = typeSrv ∧ (newSrv rr.rdata).targetName.length < maxHostname ∧
      (newSrv rr.rdata).targetName ≠ [])).map fun rr => newSrv rr.rdata).take srvMaxAddr

/-- The additional record is one of the kinds that are wanted. -/
def wanted (option : Options) (rr : Rr) : Bool :=
  (rr.type = typeA && !option.resolveAaaaOnly) || (rr.type = typeAaaa && option.resolveAaaa)

def takesRecord (rr : Rr) (srv : Srv) : Bool := sameName rr.name srv.targetName && srv.addr.length < addrMaxCount

/-- An additional record for all targets of its name; a target counts as resolved with its first address. -/
def addRecord (option : Options) (l : List Srv × Nat) (rr : Rr) : List Srv × Nat :=
  if wanted option rr then
    (l.1.map fun srv =>
      if takesRecord rr srv then
        { srv with addr := srv.addr ++ [⟨decide (rr.type = typeAaaa), addressOf rr.rdata, srv.port⟩] }
      else srv,
    l.2 + l.1.countP fun srv => takesRecord rr srv && srv.addr.isEmpty)
  else l

/-- `pj_inet_pton` for both families. -/
structure Inet where
  pton4 : List UInt8 → Option (List UInt8)
  pton6 : List UInt8 → Option (List UInt8)

def nameAddress (inet : Inet) (option : Options) (srv : Srv) : Option Addr :=
  if srv.addr ≠ [] then none
  else
    match if option.resolveAaaaOnly then none else inet.pton4 srv.targetName with
    | some ip => some ⟨false, ip, srv.port⟩
    | none =>
      if option.resolveAaaa then (inet.pton6 srv.targetName).map fun ip => ⟨true, ip, srv.port⟩ else none

def addNames (inet : Inet) (option : Options) (l : List Srv × Nat) : List Srv × Nat :=
  (l.1.map fun srv => { srv with addr := srv.addr ++ (nameAddress inet option srv).toList },
    l.2 + l.1.countP fun srv => (nameAddress inet option srv).isSome)

/-- `build_server_entries`. -/
def buildServerEntries (inet : Inet) (rand : Nat → Nat) (job : Job) (response : Packet) : Job :=
  let entries := answerEntries response.ans
  if entries = [] then { job with srv := [] }
  else
    let ordered := orderByWeight rand (orderByPriority entries)
    let (srv, hostResolved) :=
      addNames inet job.option (response.arr.foldl (addRecord job.option) (ordered, job.hostResolved))
    { job with srv := srv, hostResolved := hostResolved }

end PjProject.SrvResolver
