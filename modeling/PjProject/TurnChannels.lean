import PjProject.HashTableMap
import PjProject.Runs

/-! The channels of the TURN client session (`turn_session.c`), with the hash table of their descriptors: the same table has
the peer addresses and the channel numbers as keys. Addresses are their bytes, as the application gives them. A
descriptor is never freed, and a pointer to one is its index in the order of allocation. The rest of the session only
matters for its state and its keep-alive interval, which may change at any time. -/

namespace PjProject.TurnChannels

open HashTable

/-- `pj_turn_state_t`. -/
inductive State
  | null
  | resolving
  | resolved
  | allocating
  | ready
  | deallocating
  | deallocated
  | destroying
  deriving DecidableEq, Repr

/-- `pj_stun_session_create_req` and `pj_stun_session_send_msg`. -/
inductive Send
  | noRequest
  | failed
  | sent
  deriving DecidableEq, Repr

/-- How a request ends: without a response, with an ERROR-CODE, or with a success response. -/
inductive Completion
  | timeout
  | error (code : Option Nat)
  | success
  deriving DecidableEq, Repr

/-- `PJ_TURN_KEEP_ALIVE_SEC`. -/
def keepAliveSec : Int := 15

/-- `PJ_TURN_PERM_TIMEOUT`. -/
def permTimeout : Int := 300

/-- `PJ_TURN_CHANNEL_MIN`. -/
def channelMin : Nat := 0x4000

/-- `PJ_TURN_CHANNEL_MAX`. -/
def channelMax : Nat := 0x7FFF

/-- `PJ_STUN_SC_ALLOCATION_MISMATCH`. -/
def allocationMismatch : Nat := 437

/-- A socket address: the `pj_sockaddr_get_len` bytes of an IPv4 or an IPv6 address. -/
structure Addr where
  bytes : List UInt8
  len : bytes.length = 16 ∨ bytes.length = 28
  deriving DecidableEq

/-- `PJ_TURN_INVALID_CHANNEL`. -/
def invalidChannel : Nat := 0xFFFF

/-- `ch_t`. -/
structure Ch where
  num : Nat
  bound : Bool
  addr : Addr
  expiry : Int

/-- A ChannelBind request: its token, CHANNEL-NUMBER and XOR-PEER-ADDRESS. -/
structure Request where
  token : Nat
  num : Nat
  peer : Addr
  deriving DecidableEq

/-- `pj_turn_session`; `requests` are those created, of which `pending` are sent and not completed, and `confirmed` are those
with a success response. -/
structure Session where
  state : State
  kaInterval : Int
  now : Int
  ch : Nat → Ch
  chCnt : Nat
  chTable : Table Nat
  nextCh : Nat
  requests : List Request
  pending : List Request
  confirmed : List Request

inductive Status
  | success
  | invalidOp
  | tooMany
  | invalid
  | tooSmall
  | notFound
  | failed
  deriving DecidableEq, Repr

/-- `PJ_TURN_CHANNEL_HTABLE_SIZE`. -/
def channelHtableSize : Nat := 8

/-- `pj_turn_session_create`; memory without a descriptor has no meaning. -/
def create (blank : Nat → Ch) (now : Int) : Session where
  state := .null
  kaInterval := keepAliveSec
  now := now
  ch := blank
  chCnt := 0
  chTable := hashCreate Nat channelHtableSize
  nextCh := channelMin
  requests := []
  pending := []
  confirmed := []

def Addr.key (addr : Addr) : Key := ⟨addr.bytes, addr.bytes.length⟩

def numBytes (num : Nat) : List UInt8 := [UInt8.ofNat num, UInt8.ofNat (num / 256)]

def numKey (num : Nat) : Key := ⟨numBytes num, 2⟩

/-- A channel descriptor is written. -/
def Session.setCh (sess : Session) (p : Nat) (ch : Ch) : Session := { sess with ch := Function.update sess.ch p ch }

section Lookup

variable (build : Build)

/-- `lookup_ch_by_chnum`. -/
def lookupChByChnum (sess : Session) (chnum : Nat) : Option Nat := (hashGet build sess.chTable (numKey chnum) none false).1

/-- A channel is registered by its number, if the number is not a key. -/
def registerNum (sess : Session) (p : Nat) : Session :=
  match hashGet build sess.chTable (numKey (sess.ch p).num) (some 0) false with
  | (some _, _) => sess
  | (none, hval) =>
    { sess with chTable := hashSet build sess.chTable (numKey (sess.ch p).num) (hval.getD 0) (some p) false }

def newCh (sess : Session) (addr : Addr) (hval : UInt32) : Session :=
  { sess.setCh sess.chCnt ⟨invalidChannel, false, addr, 0⟩ with
      chCnt := sess.chCnt + 1
      chTable := hashSet build sess.chTable addr.key hval (some sess.chCnt) false }

/-- The expiry of a channel is set, and it may be registered by its number. -/
def renewCh (sess : Session) (p : Nat) (bind : Bool) : Session :=
  let sess := sess.setCh p { sess.ch p with expiry := sess.now + 1000 * (permTimeout - sess.kaInterval - 1) }
  if bind then registerNum build sess p else sess

/-- `lookup_ch_by_addr`. -/
def lookupChByAddr (sess : Session) (addr : Addr) (update bind : Bool) : Session × Option Nat :=
  match hashGet build sess.chTable addr.key (some 0) false, update with
  | (found, _), false => (sess, found)
  | (some p, _), true => (renewCh build sess p bind, some p)
  | (none, hval), true => (renewCh build (newCh build sess addr (hval.getD 0)) sess.chCnt bind, some sess.chCnt)

/-- A ChannelBind request is created for the channel and sent. -/
def sendBind (sess : Session) (p : Nat) (peer : Addr) (send : Send) : Session × Status :=
  let request := ⟨p, (sess.ch p).num, peer⟩
  let sess := { sess with requests := sess.requests ++ [request] }
  if send = .sent then ({ sess with pending := sess.pending ++ [request] }, .success) else (sess, .failed)

/-- `pj_turn_session_bind_channel`. -/
def bindChannel (sess : Session) (peer : Addr) (send : Send) : Session × Status :=
  if sess.state ≠ .ready then (sess, .invalidOp)
  else if send = .noRequest then (sess, .failed)
  else
    match lookupChByAddr build sess peer true false with
    | (sess, none) => (sess, .failed)
    | (sess, some p) =>
      if (sess.ch p).num ≠ invalidChannel then sendBind sess p peer send
      else if sess.nextCh ≤ channelMax then
        let sess := { sess.setCh p { sess.ch p with num := sess.nextCh } with nextCh := (sess.nextCh + 1) % 2 ^ 16 }
        sendBind sess p peer send
      else (sess, .tooMany)

/-- `stun_on_request_complete` for a ChannelBind request. -/
def onRequestComplete (sess : Session) (request : Request) (result : Completion) : Session :=
  match result with
  | .success =>
    let sess := { sess with confirmed := sess.confirmed ++ [request] }
    let sess := sess.setCh request.token { sess.ch request.token with bound := true }
    (lookupChByAddr build sess (sess.ch request.token).addr true true).1
  | .error code => if code = some allocationMismatch then { sess with state := .destroying } else sess
  | .timeout => sess

/-- The scan of the hash table in `on_timer_event`; there is one `send` for each turn. -/
def refreshChannels : Session → List Send → Option (Iterator Nat) → Option Session
  | sess, [], none => some sess
  | sess, send :: sends, some it =>
    match it.entry with
    | [] => none
    | entry :: _ =>
      let ch := sess.ch entry.value
      let sess := if ch.bound ∧ ch.expiry ≤ sess.now then (bindChannel build sess ch.addr send).1 else sess
      refreshChannels sess sends (hashNext sess.chTable it)
  | _, _, _ => none

/-- What the application gets of a packet, the status, and `parsed_len`, which is not set for all errors. -/
structure Rx where
  data : Option (List UInt8 × Addr)
  status : Status
  parsedLen : Option Nat

/-- A 16-bit field in network byte order. -/
def ntohs (hi lo : UInt8) : Nat := hi.toNat * 256 + lo.toNat

/-- `pj_turn_session_on_rx_pkt2` for a packet that is not for the STUN session, which has none. -/
def onRxPkt (sess : Session) (datagram : Bool) (pkt : List UInt8) : Option Rx :=
  match pkt with
  | [] => some ⟨none, .invalid, none⟩
  | b :: rest =>
    if b &&& 0xC0 = 0 then none
    else
      match rest with
      | c :: d :: e :: payload =>
        let length := ntohs d e
        if payload.length < length then some ⟨none, .tooSmall, some (if datagram then pkt.length else 0)⟩
        else
          let parsedLen := (length + 3) / 4 * 4 + 4
          match lookupChByChnum build sess (ntohs b c) with
          | none => some ⟨none, .notFound, some parsedLen⟩
          | some p =>
            if (sess.ch p).bound then some ⟨some (payload.take length, (sess.ch p).addr), .success, some parsedLen⟩
            else some ⟨none, .notFound, some parsedLen⟩
      | _ => some ⟨none, .tooSmall, some 0⟩

def numberOf (sess : Session) (peer : Addr) : Option Nat :=
  ((lookupChByAddr build sess peer false false).2.map fun p => (sess.ch p).num).filter (· ≠ invalidChannel)

end Lookup

/-! Runs. -/

inductive Action
  | wait (msec : Nat)
  | session (state : State) (kaInterval : Int)
  | bindChannel (peer : Addr) (send : Send)
  | complete (request : Request) (result : Completion)
  | keepAlive (sends : List Send)
  | rxPkt (datagram : Bool) (pkt : List UInt8)

def step (build : Build) (sess : Session) (act : Action) : Option Session :=
  match act with
  | .wait msec => some { sess with now := sess.now + msec }
  | .session state kaInterval =>
    some { sess with
      state := state
      kaInterval := kaInterval }
  | .bindChannel peer send => some (bindChannel build sess peer send).1
  | .complete request result =>
    if request ∈ sess.pending then
      some (onRequestComplete build { sess with pending := sess.pending.erase request } request result)
    else none
  | .keepAlive sends => refreshChannels build sess sends (hashFirst sess.chTable)
  | .rxPkt datagram pkt => (onRxPkt build sess datagram pkt).map fun _ => sess

end PjProject.TurnChannels
