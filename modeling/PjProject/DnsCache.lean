import PjProject.DnsResolver
import PjProject.TimeVal

/-! The response cache of the DNS resolver (`resolver.c`). An entry is known by the number of its pool, and the table
holds the entries that are in it, each under the key it has. A step is what one entry point does under the lock; the
callback of a query that the cache answers runs between two of them, with the packet of the entry. -/

namespace PjProject.DnsCache

open DnsResolver (ResKey initResKey ValidArgs maxHostname)

abbrev Entry := Nat

structure Answer where
  name : List UInt8
  type : Nat
  ttl : Nat
  deriving DecidableEq, Repr

/-- The header flags and the two sections of a `pj_dns_parsed_packet` that the cache looks at and keeps. -/
structure Packet where
  flags : Nat
  q : List (List UInt8 × Nat)
  ans : List Answer
  deriving DecidableEq, Repr

/-- `struct cached_res`. The counter stays far from its end, since all but one of its references are held by callbacks
that run. -/
structure CachedRes where
  key : ResKey
  expiryTime : TimeVal
  pkt : Option Packet
  refCnt : Nat
  deriving DecidableEq

/-- What becomes of an entry: `free_entry` releases its pool, `reset_entry` empties it. -/
inductive Fate
  | released
  | emptied
  deriving DecidableEq, Repr

/-- A call of one of the two, with whether the entry is in the table then and how many callbacks use it. -/
structure Disposal where
  entry : Entry
  fate : Fate
  inTable : Bool
  users : Nat
  deriving DecidableEq, Repr

/-- `users` has the entry of every callback that runs. -/
structure Cache where
  entries : Entry → CachedRes
  nextEntry : Entry
  table : List Entry
  users : List Entry
  disposals : List Disposal
  cacheMaxTtl : Nat

/-- The memory of a new pool. -/
def blankEntry : CachedRes := ⟨⟨0, List.replicate maxHostname 0⟩, ⟨0, 0⟩, none, 0⟩

def create (cacheMaxTtl : Nat) : Cache := ⟨fun _ => blankEntry, 0, [], [], [], cacheMaxTtl⟩

def Cache.setEntry (s : Cache) (e : Entry) (c : CachedRes) : Cache :=
  { s with entries := Function.update s.entries e c }

def Cache.setRefCnt (s : Cache) (e : Entry) (n : Nat) : Cache := s.setEntry e { s.entries e with refCnt := n }

/-- `pj_hash_get`. -/
def Cache.find (s : Cache) (key : ResKey) : Option Entry := s.table.find? fun e => (s.entries e).key = key

/-- `pj_hash_set` with no value. -/
def Cache.remove (s : Cache) (key : ResKey) : Cache :=
  { s with table := s.table.eraseP fun e => (s.entries e).key = key }

def Cache.dispose (s : Cache) (e : Entry) (fate : Fate) : Cache :=
  { s with disposals := s.disposals ++ [⟨e, fate, s.table.contains e, s.users.count e⟩] }

/-- `alloc_entry`: the entry is the next one. -/
def allocEntry (s : Cache) : Cache :=
  { s.setEntry s.nextEntry { blankEntry with refCnt := 1 } with nextEntry := s.nextEntry + 1 }

/-- `reset_entry`. -/
def resetEntry (s : Cache) (e : Entry) : Cache :=
  (s.setEntry e { blankEntry with refCnt := (s.entries e).refCnt }).dispose e .emptied

/-- The counter of the entry goes down, and `free_entry` is called when it gets to zero. -/
def Cache.release (s : Cache) (e : Entry) : Cache :=
  let t := s.setRefCnt e ((s.entries e).refCnt - 1)
  if (t.entries e).refCnt = 0 then t.dispose e .released else t

/-- The entry under the key is taken out of the table, and its reference is given back. -/
def Cache.clear (s : Cache) (key : ResKey) : Cache :=
  match s.find key with
  | some e => (s.remove key).release e
  | none => s.remove key

/-- The first part of `pj_dns_resolver_start_query`, up to the callback or the search for a pending query. -/
def startQuery (s : Cache) (type : Nat) (name : List UInt8) (now : TimeVal) : Cache :=
  if ¬ValidArgs type name then s
  else
    match s.find (initResKey type name) with
    | none => s
    | some e =>
      if TimeVal.gt (s.entries e).expiryTime now then
        { s.setRefCnt e ((s.entries e).refCnt + 1) with users := e :: s.users }
      else (s.remove (initResKey type name)).release e

/-- What `pj_dns_resolver_start_query` does after the callback. -/
def callbackReturn (s : Cache) (e : Entry) : Cache := { s with users := s.users.erase e }.release e

/-- `PJ_DNS_RESOLVER_INVALID_TTL`. -/
def invalidTtl : Nat := 60

/-- The time to live of a response, before and after the maximum is applied. -/
def responseTtl (success setExpiry : Bool) (pkt : Packet) : Nat :=
  if setExpiry then
    if pkt.ans = [] ∨ success = false then invalidTtl else pkt.ans.foldl (fun ttl a => min ttl a.ttl) 0xFFFFFFFF
  else 0xFFFFFFFF

def Cache.ttl (s : Cache) (success setExpiry : Bool) (pkt : Packet) : Nat :=
  min (responseTtl success setExpiry pkt) s.cacheMaxTtl

def Cache.put (s : Cache) (e : Entry) (key : ResKey) (expiryTime : TimeVal) (pkt : Packet) : Cache :=
  { s.setEntry e { s.entries e with key := key, expiryTime := expiryTime, pkt := some pkt } with table := e :: s.table }

/-- The entry that a response is put into: a new one, or the one under its key where no callback uses it. -/
def takeEntry (s : Cache) (key : ResKey) : Cache × Entry :=
  match s.find key with
  | none => (allocEntry s, s.nextEntry)
  | some e =>
    let t := s.remove key
    if 1 < (t.entries e).refCnt then (allocEntry (t.setRefCnt e ((t.entries e).refCnt - 1)), t.nextEntry)
    else (resetEntry t e, e)

/-- `update_res_cache`. -/
def updateResCache (s : Cache) (key : ResKey) (success setExpiry : Bool) (pkt : Packet) (now : TimeVal) : Cache :=
  let s := if success then s else s.clear key
  let ttl := s.ttl success setExpiry pkt
  if ttl = 0 then s.clear key
  else
    let (t, e) := takeEntry s key
    t.put e key (if setExpiry then ⟨now.sec + ttl, now.msec⟩ else ⟨0x7FFFFFFF, 0⟩) pkt

/-- `PJ_DNS_GET_TC` and `PJ_DNS_GET_QR`. -/
def getTc (flags : Nat) : Nat := flags / 512 % 2
def getQr (flags : Nat) : Nat := flags / 32768 % 2

/-- What `on_read_complete` does with the response to a query after its callbacks. -/
def onResponse (s : Cache) (key : ResKey) (success : Bool) (pkt : Packet) (now : TimeVal) : Cache :=
  if getTc pkt.flags = 0 then updateResCache s key success true pkt now else s

/-- `pj_dns_resolver_add_entry`. -/
def addEntry (s : Cache) (pkt : Packet) (setTtl : Bool) (now : TimeVal) : Cache :=
  if getQr pkt.flags = 0 then s
  else
    match pkt.ans, pkt.q with
    | a :: _, _ =>
      if a.name.length < maxHostname then updateResCache s (initResKey a.type a.name) true setTtl pkt now else s
    | [], (name, type) :: _ =>
      if name.length < maxHostname then updateResCache s (initResKey type name) true setTtl pkt now else s
    | [], [] => s

inductive Action
  | startQuery (type : Nat) (name : List UInt8) (now : TimeVal)
  | callbackReturn (e : Entry)
  | response (key : ResKey) (success : Bool) (pkt : Packet) (now : TimeVal)
  | addEntry (pkt : Packet) (setTtl : Bool) (now : TimeVal)
  | setSettings (cacheMaxTtl : Nat)
  deriving DecidableEq

def step (s : Cache) : Action → Option Cache
  | .startQuery type name now => some (startQuery s type name now)
  | .callbackReturn e => if e ∈ s.users then some (callbackReturn s e) else none
  | .response key success pkt now => some (onResponse s key success pkt now)
  | .addEntry pkt setTtl now => some (addEntry s pkt setTtl now)
  | .setSettings cacheMaxTtl => some { s with cacheMaxTtl := cacheMaxTtl }

def Cache.released (s : Cache) (e : Entry) : Nat := s.disposals.countP fun d => d.entry = e ∧ d.fate = .released

end PjProject.DnsCache
