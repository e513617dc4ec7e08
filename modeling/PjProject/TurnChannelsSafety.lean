import PjProject.TurnChannels

/-! Channel bindings are one to one. The hash table finds a channel by the bytes of its address, and once it is bound by
the two bytes of its number; an address has more bytes than that. Numbers are given out in increasing order, and a number
is written once. -/

namespace PjProject.TurnChannels

open HashTable

/-! The table with exact keys as a map of their bytes. -/

section Finds

variable {α : Type*} {build : Build} {ht : Table α} {find : List UInt8 → Option α}

def Finds (build : Build) (ht : Table α) (find : List UInt8 → Option α) : Prop :=
  ∃ m, Holds build false ht m ∧ ∀ k, (m k).map Prod.snd = find k

theorem finds_create (build : Build) (size : Nat) : Finds build (hashCreate α size) fun _ => none :=
  ⟨_, holds_create build false size, fun _ => rfl⟩

theorem Finds.get (h : Finds build ht find) (key : Key) : (hashGet build ht key none false).1 = find key.bytes := by
  obtain ⟨m, hm, hfind⟩ := h
  have hget := hm.hashGet key none
  rw [foldKey_false, hfind] at hget
  exact hget

theorem Finds.get_zero (h : Finds build ht find) (key : Key) :
    (hashGet build ht key (some 0) false).1 = find key.bytes := by
  obtain ⟨m, hm, hfind⟩ := h
  have hget := hm.hashGet key (some .zero)
  rw [foldKey_false, hfind] at hget
  exact hget

theorem hashGet_zero_snd (build : Build) (ht : Table α) (key : Key) :
    (hashGet build ht key (some 0) false).2 = some (Hval.reported.value build key.bytes false) := by
  cases build with
  | siphash k0 k1 => exact congrArg some (if_pos rfl)
  | djb2 => simp only [hashGet, findHash, ne_eq, not_true_eq_false, if_false, Hval.value]

theorem Finds.set (h : Finds build ht find) (key : Key) (v : α) :
    Finds build (hashSet build ht key (Hval.reported.value build key.bytes false) (some v) false)
      (Function.update find key.bytes (some v)) := by
  obtain ⟨m, hm, hfind⟩ := h
  refine ⟨_, hm.hashSet ⟨key, .reported, some v⟩ fun h => (by cases h), fun k => ?_⟩
  rw [mapSet, foldKey_false]
  by_cases hk : k = key.bytes
  · rw [hk, Function.update_self, Function.update_self]
    rfl
  · rw [Function.update_of_ne hk, Function.update_of_ne hk]
    exact hfind k

end Finds

/-! The keys. -/

theorem Addr.key_bytes (addr : Addr) : addr.key.bytes = addr.bytes := by
  have hlen : addr.key.keylen ≠ keyString := by
    have hkeylen : addr.key.keylen = addr.bytes.length := rfl
    have hstring : keyString = 4294967295 := rfl
    rcases addr.len with h | h <;> omega
  rw [Key.bytes, if_neg hlen]
  exact List.take_length

theorem numKey_bytes (num : Nat) : (numKey num).bytes = numBytes num := by
  have hlen : (numKey num).keylen ≠ keyString := (by decide : 2 ≠ keyString)
  rw [Key.bytes, if_neg hlen]
  exact List.take_length (l := numBytes num)

theorem numBytes_ne_bytes (num : Nat) (addr : Addr) : numBytes num ≠ addr.bytes := by
  intro h
  have hlen : (numBytes num).length = addr.bytes.length := congrArg List.length h
  have htwo : (numBytes num).length = 2 := rfl
  rcases addr.len with h | h <;> omega

theorem numBytes_inj {n m : Nat} (hn : n < 65536) (hm : m < 65536) : numBytes n = numBytes m ↔ n = m := by
  refine ⟨fun h => ?_, fun h => by rw [h]⟩
  rw [numBytes, numBytes, List.cons.injEq, List.cons.injEq] at h
  have hlo := congrArg UInt8.toNat h.1
  have hhi := congrArg UInt8.toNat h.2.1
  rw [UInt8.toNat_ofNat', UInt8.toNat_ofNat'] at hlo hhi
  omega

theorem Addr.ext_bytes {a b : Addr} (h : a.bytes = b.bytes) : a = b := by
  cases a
  cases b
  congr

/-! The invariant. -/

/-- What the hash table of a session finds: a channel by its address, and a bound channel by its number. -/
structure Keyed (build : Build) (sess : Session) (find : List UInt8 → Option Nat) : Prop where
  finds : Finds build sess.chTable find
  byAddr : ∀ (addr : Addr) p, find addr.bytes = some p ↔ p < sess.chCnt ∧ (sess.ch p).addr = addr
  byNum : ∀ n, n < 65536 → ∀ p, find (numBytes n) = some p ↔ p < sess.chCnt ∧ (sess.ch p).bound = true ∧ (sess.ch p).num = n

/-- The request is one of a channel: it has its number and the address of its peer. -/
structure Names (sess : Session) (request : Request) : Prop where
  token : request.token < sess.chCnt
  num : (sess.ch request.token).num = request.num
  addr : (sess.ch request.token).addr = request.peer
  valid : request.num ≠ invalidChannel

structure Inv (build : Build) (sess : Session) : Prop where
  keyed : ∃ find, Keyed build sess find
  next : channelMin ≤ sess.nextCh ∧ sess.nextCh ≤ channelMax + 1
  num : ∀ p, p < sess.chCnt → (sess.ch p).num = invalidChannel ∧ (sess.ch p).bound = false ∨
    channelMin ≤ (sess.ch p).num ∧ (sess.ch p).num < sess.nextCh
  distinct : ∀ p q, p < sess.chCnt → q < sess.chCnt → (sess.ch p).num = (sess.ch q).num →
    (sess.ch p).num ≠ invalidChannel → p = q
  requests : ∀ r ∈ sess.requests, Names sess r
  pending : ∀ r ∈ sess.pending, r ∈ sess.requests
  confirmed : ∀ r ∈ sess.confirmed, r ∈ sess.requests
  bound : ∀ p, p < sess.chCnt → ((sess.ch p).bound = true ↔ ∃ r ∈ sess.confirmed, r.token = p)

/-- No channel goes away, changes its address or loses its number. -/
structure Keeps (sess sess' : Session) : Prop where
  cnt : sess.chCnt ≤ sess'.chCnt
  addr : ∀ p, p < sess.chCnt → (sess'.ch p).addr = (sess.ch p).addr
  num : ∀ p, p < sess.chCnt → (sess.ch p).num ≠ invalidChannel → (sess'.ch p).num = (sess.ch p).num

theorem Keeps.refl (sess : Session) : Keeps sess sess := ⟨le_rfl, fun _ _ => rfl, fun _ _ _ => rfl⟩

theorem Keeps.trans {a b c : Session} (h : Keeps a b) (h' : Keeps b c) : Keeps a c where
  cnt := h.cnt.trans h'.cnt
  addr p hp := (h'.addr p (hp.trans_le h.cnt)).trans (h.addr p hp)
  num p hp hnum := by
    have hb := h.num p hp hnum
    rw [h'.num p (hp.trans_le h.cnt) (by rw [hb]; exact hnum), hb]

theorem Names.of_keeps {a b : Session} {r : Request} (h : Names a r) (hkeeps : Keeps a b) : Names b r where
  token := h.token.trans_le hkeeps.cnt
  num := by
    have hvalid := h.valid
    rw [← h.num] at hvalid
    rw [hkeeps.num r.token h.token hvalid, h.num]
  addr := (hkeeps.addr r.token h.token).trans h.addr
  valid := h.valid

section Steps

variable {build : Build} {sess : Session}

theorem invalid_lt : channelMax < invalidChannel := by decide

theorem Inv.num_lt (h : Inv build sess) {p : Nat} (hp : p < sess.chCnt) : (sess.ch p).num < 65536 := by
  have hmax : channelMax = 0x7FFF := rfl
  have hnext := h.next.2
  rcases h.num p hp with hnum | hnum
  · rw [hnum.1]; decide
  · omega

theorem Inv.create (build : Build) (blank : Nat → Ch) (now : Int) : Inv build (create blank now) where
  keyed := by
    refine ⟨_, finds_create build channelHtableSize, fun addr p => ?_, fun n _ p => ?_⟩
    · exact iff_of_false nofun fun h => absurd h.1 (Nat.not_lt_zero p)
    · exact iff_of_false nofun fun h => absurd h.1 (Nat.not_lt_zero p)
  next := ⟨le_rfl, (by decide : channelMin ≤ channelMax + 1)⟩
  num p hp := absurd hp (Nat.not_lt_zero p)
  distinct p _ hp := absurd hp (Nat.not_lt_zero p)
  requests := nofun
  pending := nofun
  confirmed := nofun
  bound p hp := absurd hp (Nat.not_lt_zero p)

theorem Inv.congr {sess' : Session} (h : Inv build sess) (htable : sess'.chTable = sess.chTable)
    (hcnt : sess'.chCnt = sess.chCnt) (hnext : sess'.nextCh = sess.nextCh) (hrequests : sess'.requests = sess.requests)
    (hpending : ∀ r ∈ sess'.pending, r ∈ sess.pending) (hconfirmed : sess'.confirmed = sess.confirmed)
    (hch : ∀ p, (sess'.ch p).num = (sess.ch p).num ∧ (sess'.ch p).bound = (sess.ch p).bound ∧
      (sess'.ch p).addr = (sess.ch p).addr) : Inv build sess' ∧ Keeps sess sess' := by
  have hnum : ∀ p, (sess'.ch p).num = (sess.ch p).num := fun p => (hch p).1
  have hbound : ∀ p, (sess'.ch p).bound = (sess.ch p).bound := fun p => (hch p).2.1
  have haddr : ∀ p, (sess'.ch p).addr = (sess.ch p).addr := fun p => (hch p).2.2
  have hkeeps : Keeps sess sess' := ⟨hcnt.ge, fun p _ => haddr p, fun p _ _ => hnum p⟩
  refine ⟨⟨?_, ?_, ?_, ?_, ?_, ?_, ?_, ?_⟩, hkeeps⟩
  · obtain ⟨find, hfinds, hbyAddr, hbyNum⟩ := h.keyed
    refine ⟨find, by rw [htable]; exact hfinds, fun addr p => ?_, fun n hn p => ?_⟩
    · rw [hcnt, haddr]
      exact hbyAddr addr p
    · rw [hcnt, hbound, hnum]
      exact hbyNum n hn p
  · rw [hnext]
    exact h.next
  · intro p hp
    rw [hcnt] at hp
    rw [hnum, hbound, hnext]
    exact h.num p hp
  · intro p q hp hq
    rw [hcnt] at hp hq
    rw [hnum, hnum]
    exact h.distinct p q hp hq
  · intro r hr
    rw [hrequests] at hr
    exact (h.requests r hr).of_keeps hkeeps
  · intro r hr
    rw [hrequests]
    exact h.pending r (hpending r hr)
  · intro r hr
    rw [hconfirmed] at hr
    rw [hrequests]
    exact h.confirmed r hr
  · intro p hp
    rw [hcnt] at hp
    rw [hbound, hconfirmed]
    exact h.bound p hp

theorem setCh_self (sess : Session) (p : Nat) (ch : Ch) : (sess.setCh p ch).ch p = ch := Function.update_self ..

theorem setCh_of_ne (sess : Session) {p q : Nat} (ch : Ch) (hq : q ≠ p) : (sess.setCh p ch).ch q = sess.ch q :=
  Function.update_of_ne hq ..

/-- The descriptor of a channel is written with what it had. -/
theorem setCh_same (sess : Session) {p : Nat} {ch : Ch} (hnum : ch.num = (sess.ch p).num)
    (hbound : ch.bound = (sess.ch p).bound) (haddr : ch.addr = (sess.ch p).addr) (q : Nat) :
    ((sess.setCh p ch).ch q).num = (sess.ch q).num ∧ ((sess.setCh p ch).ch q).bound = (sess.ch q).bound ∧
      ((sess.setCh p ch).ch q).addr = (sess.ch q).addr := by
  by_cases hq : q = p
  · rw [hq, setCh_self]
    exact ⟨hnum, hbound, haddr⟩
  · rw [setCh_of_ne sess ch hq]
    exact ⟨rfl, rfl, rfl⟩

theorem Inv.renewCh (h : Inv build sess) (p : Nat) :
    Inv build (renewCh build sess p false) ∧ Keeps sess (renewCh build sess p false) := by
  refine h.congr rfl rfl rfl rfl (fun _ hr => hr) rfl ?_
  exact setCh_same sess rfl rfl rfl

theorem Inv.newCh (h : Inv build sess) {find : List UInt8 → Option Nat} (hkeyed : Keyed build sess find) {addr : Addr}
    (hnone : find addr.bytes = none) :
    Inv build (newCh build sess addr (Hval.reported.value build addr.key.bytes false)) ∧
      Keeps sess (newCh build sess addr (Hval.reported.value build addr.key.bytes false)) ∧
      ((newCh build sess addr (Hval.reported.value build addr.key.bytes false)).ch sess.chCnt).addr = addr := by
  generalize hnext : TurnChannels.newCh build sess addr (Hval.reported.value build addr.key.bytes false) = next
  have hch : next.ch = Function.update sess.ch sess.chCnt ⟨invalidChannel, false, addr, 0⟩ := by
    rw [← hnext]
    rfl
  have hcnt : next.chCnt = sess.chCnt + 1 := by
    rw [← hnext]
    rfl
  have hnew : next.ch sess.chCnt = ⟨invalidChannel, false, addr, 0⟩ := by rw [hch, Function.update_self]
  have hold : ∀ p, p < sess.chCnt → next.ch p = sess.ch p := by
    intro p hp
    rw [hch, Function.update_of_ne (Nat.ne_of_lt hp)]
  have hkeeps : Keeps sess next :=
    ⟨by omega, fun p hp => by rw [hold p hp], fun p hp _ => by rw [hold p hp]⟩
  have hfinds : Finds build next.chTable (Function.update find addr.bytes (some sess.chCnt)) := by
    have hset := hkeyed.finds.set addr.key sess.chCnt
    rw [← hnext]
    rw [addr.key_bytes] at hset ⊢
    exact hset
  have hcases : ∀ p, p < next.chCnt → p < sess.chCnt ∨ p = sess.chCnt := by
    intro p hp
    omega
  have hnext' : next.nextCh = sess.nextCh ∧ next.requests = sess.requests ∧ next.pending = sess.pending ∧
      next.confirmed = sess.confirmed := by
    rw [← hnext]
    exact ⟨rfl, rfl, rfl, rfl⟩
  obtain ⟨hnextCh, hrequests, hpending, hconfirmed⟩ := hnext'
  refine ⟨⟨⟨_, hfinds, fun a p => ?_, fun n hn p => ?_⟩, ?_, ?_, ?_, ?_, ?_, ?_, ?_⟩, hkeeps, by rw [hnew]⟩
  · by_cases ha : a = addr
    · rw [ha, Function.update_self]
      constructor
      · intro hp
        rw [← Option.some.inj hp, hnew]
        exact ⟨by omega, rfl⟩
      · rintro ⟨hp, hpaddr⟩
        rcases hcases p hp with hlt | heq
        · rw [hold p hlt] at hpaddr
          rw [(hkeyed.byAddr addr p).mpr ⟨hlt, hpaddr⟩] at hnone
          cases hnone
        · rw [heq]
    · rw [Function.update_of_ne fun hb => ha (Addr.ext_bytes hb), hkeyed.byAddr]
      constructor
      · rintro ⟨hp, hpaddr⟩
        rw [hold p hp]
        exact ⟨by omega, hpaddr⟩
      · rintro ⟨hp, hpaddr⟩
        rcases hcases p hp with hlt | heq
        · rw [hold p hlt] at hpaddr
          exact ⟨hlt, hpaddr⟩
        · rw [heq, hnew] at hpaddr
          exact absurd hpaddr.symm ha
  · rw [Function.update_of_ne (numBytes_ne_bytes n addr), hkeyed.byNum n hn]
    constructor
    · rintro ⟨hp, hpbound⟩
      rw [hold p hp]
      exact ⟨by omega, hpbound⟩
    · rintro ⟨hp, hpbound⟩
      rcases hcases p hp with hlt | heq
      · rw [hold p hlt] at hpbound
        exact ⟨hlt, hpbound⟩
      · rw [heq, hnew] at hpbound
        cases hpbound.1
  · rw [hnextCh]
    exact h.next
  · intro p hp
    rcases hcases p hp with hlt | heq
    · rw [hold p hlt, hnextCh]
      exact h.num p hlt
    · rw [heq, hnew]
      exact Or.inl ⟨rfl, rfl⟩
  · intro p q hp hq hnum hvalid
    rcases hcases p hp with hlt | heq
    · rw [hold p hlt] at hnum hvalid
      rcases hcases q hq with hqlt | hqeq
      · rw [hold q hqlt] at hnum
        exact h.distinct p q hlt hqlt hnum hvalid
      · rw [hqeq, hnew] at hnum
        exact absurd hnum hvalid
    · rw [heq, hnew] at hvalid
      exact absurd rfl hvalid
  · intro r hr
    rw [hrequests] at hr
    exact (h.requests r hr).of_keeps hkeeps
  · rw [hpending, hrequests]
    exact h.pending
  · rw [hconfirmed, hrequests]
    exact h.confirmed
  · intro p hp
    rw [hconfirmed]
    rcases hcases p hp with hlt | heq
    · rw [hold p hlt]
      exact h.bound p hlt
    · rw [heq, hnew]
      refine iff_of_false nofun ?_
      rintro ⟨r, hr, htoken⟩
      have hlt := (h.requests r (h.confirmed r hr)).token
      omega

/-- `lookup_ch_by_addr` that updates gives the channel of the address. -/
theorem Inv.lookupChByAddr (h : Inv build sess) (addr : Addr) : ∃ sess' p,
    lookupChByAddr build sess addr true false = (sess', some p) ∧ Inv build sess' ∧ Keeps sess sess' ∧ p < sess'.chCnt ∧
      (sess'.ch p).addr = addr := by
  obtain ⟨find, hkeyed⟩ := h.keyed
  have hget := hkeyed.finds.get_zero addr.key
  have hsnd := hashGet_zero_snd build sess.chTable addr.key
  rw [addr.key_bytes] at hget
  generalize hpair : hashGet build sess.chTable addr.key (some 0) false = pair at hget hsnd
  obtain ⟨found, hval⟩ := pair
  unfold TurnChannels.lookupChByAddr
  rw [hpair]
  cases found with
  | some p =>
    obtain ⟨hp, haddr⟩ := (hkeyed.byAddr addr p).mp hget.symm
    obtain ⟨hinv, hkeeps⟩ := h.renewCh p
    exact ⟨_, p, rfl, hinv, hkeeps, hp, (hkeeps.addr p hp).trans haddr⟩
  | none =>
    rw [show hval = _ from hsnd]
    obtain ⟨hinv, hkeeps, haddr⟩ := h.newCh hkeyed hget.symm
    obtain ⟨hinv', hkeeps'⟩ := hinv.renewCh sess.chCnt
    refine ⟨_, sess.chCnt, rfl, hinv', hkeeps.trans hkeeps', Nat.lt_succ_self _, ?_⟩
    exact (hkeeps'.addr sess.chCnt (Nat.lt_succ_self _)).trans haddr

theorem Inv.request {sess' : Session} (h : Inv build sess) {r : Request} (hr : Names sess r)
    (hrequests : sess'.requests = sess.requests ++ [r]) (hpending : ∀ q ∈ sess'.pending, q ∈ sess.pending ∨ q = r)
    (hch : sess'.ch = sess.ch) (hcnt : sess'.chCnt = sess.chCnt) (htable : sess'.chTable = sess.chTable)
    (hnext : sess'.nextCh = sess.nextCh) (hconfirmed : sess'.confirmed = sess.confirmed) :
    Inv build sess' ∧ Keeps sess sess' := by
  have hkeeps : Keeps sess sess' := ⟨hcnt.ge, fun p _ => by rw [hch], fun p _ _ => by rw [hch]⟩
  have hmem : ∀ q, q ∈ sess.requests → q ∈ sess'.requests := by
    intro q hq
    rw [hrequests]
    exact List.mem_append_left _ hq
  refine ⟨⟨?_, by rw [hnext]; exact h.next, ?_, ?_, ?_, ?_, ?_, ?_⟩, hkeeps⟩
  · obtain ⟨find, hfinds, hbyAddr, hbyNum⟩ := h.keyed
    refine ⟨find, by rw [htable]; exact hfinds, ?_, ?_⟩
    · rw [hcnt, hch]
      exact hbyAddr
    · rw [hcnt, hch]
      exact hbyNum
  · rw [hcnt, hch, hnext]
    exact h.num
  · rw [hcnt, hch]
    exact h.distinct
  · intro q hq
    rw [hrequests, List.mem_append, List.mem_singleton] at hq
    rcases hq with hq | hq
    · exact (h.requests q hq).of_keeps hkeeps
    · rw [hq]
      exact hr.of_keeps hkeeps
  · intro q hq
    rcases hpending q hq with hq | hq
    · exact hmem q (h.pending q hq)
    · rw [hq, hrequests]
      exact List.mem_append_right _ (List.mem_singleton_self r)
  · rw [hconfirmed]
    exact fun q hq => hmem q (h.confirmed q hq)
  · rw [hcnt, hch, hconfirmed]
    exact h.bound

theorem Inv.sendBind (h : Inv build sess) {p : Nat} {peer : Addr} (hp : p < sess.chCnt) (haddr : (sess.ch p).addr = peer)
    (hnum : (sess.ch p).num ≠ invalidChannel) (send : Send) :
    Inv build (sendBind sess p peer send).1 ∧ Keeps sess (sendBind sess p peer send).1 := by
  have hnames : Names sess ⟨p, (sess.ch p).num, peer⟩ := ⟨hp, rfl, haddr, hnum⟩
  unfold TurnChannels.sendBind
  by_cases hsend : send = .sent
  · rw [if_pos hsend]
    refine h.request hnames rfl (fun q hq => ?_) rfl rfl rfl rfl rfl
    rw [List.mem_append, List.mem_singleton] at hq
    exact hq
  · rw [if_neg hsend]
    exact h.request hnames rfl (fun q hq => Or.inl hq) rfl rfl rfl rfl
      rfl

theorem Inv.assign {sess' : Session} (h : Inv build sess) {p : Nat} (hp : p < sess.chCnt)
    (hnum : (sess.ch p).num = invalidChannel) (hmax : sess.nextCh ≤ channelMax)
    (hsess' : sess' = { sess.setCh p { sess.ch p with num := sess.nextCh } with nextCh := (sess.nextCh + 1) % 2 ^ 16 }) :
    Inv build sess' ∧ Keeps sess sess' ∧ p < sess'.chCnt ∧ (sess'.ch p).num ≠ invalidChannel := by
  have hinvalid := invalid_lt
  have hmin : channelMin = 0x4000 := rfl
  have hmaxval : channelMax = 0x7FFF := rfl
  have hself : sess'.ch p = { sess.ch p with num := sess.nextCh } := by
    rw [hsess']
    exact setCh_self ..
  have hother : ∀ q, q ≠ p → sess'.ch q = sess.ch q := by
    intro q hq
    rw [hsess']
    exact setCh_of_ne sess _ hq
  have hsame : sess'.chCnt = sess.chCnt ∧ sess'.chTable = sess.chTable ∧ sess'.requests = sess.requests ∧
      sess'.pending = sess.pending ∧ sess'.confirmed = sess.confirmed ∧ sess'.nextCh = sess.nextCh + 1 := by
    rw [hsess']
    exact ⟨rfl, rfl, rfl, rfl, rfl, Nat.mod_eq_of_lt (by omega)⟩
  obtain ⟨hcnt, htable, hrequests, hpending, hconfirmed, hnext⟩ := hsame
  have haddr : ∀ q, (sess'.ch q).addr = (sess.ch q).addr := by
    intro q
    by_cases hq : q = p
    · rw [hq, hself]
    · rw [hother q hq]
  have hbound : ∀ q, (sess'.ch q).bound = (sess.ch q).bound := by
    intro q
    by_cases hq : q = p
    · rw [hq, hself]
    · rw [hother q hq]
  have hunbound : (sess.ch p).bound = false := by
    rcases h.num p hp with hb | hb
    · exact hb.2
    · have hlast := h.next.2
      omega
  have hkeeps : Keeps sess sess' := by
    refine ⟨hcnt.ge, fun q _ => haddr q, fun q _ hq => ?_⟩
    rw [hother q fun he => hq (by rw [he]; exact hnum)]
  have hvalid : (sess'.ch p).num ≠ invalidChannel := by
    rw [hself]
    exact Nat.ne_of_lt (hmax.trans_lt hinvalid)
  refine ⟨⟨?_, ?_, ?_, ?_, ?_, ?_, ?_, ?_⟩, hkeeps, by rw [hcnt]; exact hp, hvalid⟩
  · obtain ⟨find, hfinds, hbyAddr, hbyNum⟩ := h.keyed
    refine ⟨find, by rw [htable]; exact hfinds, fun a q => ?_, fun n hn q => ?_⟩
    · rw [hcnt, haddr]
      exact hbyAddr a q
    · rw [hcnt, hbound, hbyNum n hn q]
      by_cases hq : q = p
      · rw [hq, hunbound]
        exact iff_of_false (fun hb => by cases hb.2.1) fun hb => by cases hb.2.1
      · rw [hother q hq]
  · have hlast := h.next
    omega
  · intro q hq
    rw [hcnt] at hq
    by_cases hqp : q = p
    · have hlast := h.next
      rw [hqp, hself, hnext]
      exact Or.inr ⟨hlast.1, Nat.lt_succ_self _⟩
    · rw [hother q hqp, hnext]
      exact (h.num q hq).imp id fun hb => ⟨hb.1, Nat.lt_succ_of_lt hb.2⟩
  · have hfresh : ∀ q, q < sess.chCnt → q ≠ p → (sess'.ch q).num ≠ (sess'.ch p).num := by
      intro q hq hqp he
      rw [hother q hqp, hself] at he
      have he' : (sess.ch q).num = sess.nextCh := he
      rcases h.num q hq with hb | hb <;> omega
    intro q r hq hr he hqvalid
    rw [hcnt] at hq hr
    by_cases hqp : q = p
    · by_cases hrp : r = p
      · rw [hqp, hrp]
      · rw [hqp] at he
        exact absurd he.symm (hfresh r hr hrp)
    · by_cases hrp : r = p
      · rw [hrp] at he
        exact absurd he (hfresh q hq hqp)
      · rw [hother q hqp, hother r hrp] at he
        rw [hother q hqp] at hqvalid
        exact h.distinct q r hq hr he hqvalid
  · rw [hrequests]
    exact fun q hq => (h.requests q hq).of_keeps hkeeps
  · rw [hpending, hrequests]
    exact h.pending
  · rw [hconfirmed, hrequests]
    exact h.confirmed
  · intro q hq
    rw [hcnt] at hq
    rw [hbound, hconfirmed]
    exact h.bound q hq

theorem Inv.bindChannel (h : Inv build sess) (peer : Addr) (send : Send) :
    Inv build (bindChannel build sess peer send).1 ∧ Keeps sess (bindChannel build sess peer send).1 := by
  unfold TurnChannels.bindChannel
  by_cases hready : sess.state ≠ .ready
  · rw [if_pos hready]
    exact ⟨h, Keeps.refl sess⟩
  by_cases hrequest : send = .noRequest
  · rw [if_neg hready, if_pos hrequest]
    exact ⟨h, Keeps.refl sess⟩
  obtain ⟨next, p, hlookup, hinv, hkeeps, hp, haddr⟩ := h.lookupChByAddr peer
  rw [if_neg hready, if_neg hrequest, hlookup]
  by_cases hnum : (next.ch p).num ≠ invalidChannel
  · obtain ⟨hinv', hkeeps'⟩ := hinv.sendBind hp haddr hnum send
    simp only [if_pos hnum]
    exact ⟨hinv', hkeeps.trans hkeeps'⟩
  · by_cases hmax : next.nextCh ≤ channelMax
    · obtain ⟨hassigned, hkept, hp', hvalid⟩ := hinv.assign hp (not_not.mp hnum) hmax rfl
      obtain ⟨hinv', hkeeps'⟩ := hassigned.sendBind hp' ((hkept.addr p hp).trans haddr) hvalid send
      simp only [if_neg hnum, if_pos hmax]
      exact ⟨hinv', hkeeps.trans (hkept.trans hkeeps')⟩
    · simp only [if_neg hnum, if_neg hmax]
      exact ⟨hinv, hkeeps⟩

theorem Inv.refreshChannels {sends : List Send} : ∀ {sess sess' : Session} {it : Option (Iterator Nat)}, Inv build sess →
    refreshChannels build sess sends it = some sess' → Inv build sess' ∧ Keeps sess sess' := by
  induction sends with
  | nil =>
    intro sess sess' it h hscan
    cases it with
    | none =>
      rw [← Option.some.inj hscan]
      exact ⟨h, Keeps.refl sess⟩
    | some it => cases hscan
  | cons send sends ih =>
    intro sess sess' it h hscan
    cases it with
    | none => cases hscan
    | some it =>
      rw [TurnChannels.refreshChannels] at hscan
      cases hentry : it.entry with
      | nil =>
        rw [hentry] at hscan
        cases hscan
      | cons entry rest =>
        rw [hentry] at hscan
        by_cases hdue : (sess.ch entry.value).bound = true ∧ (sess.ch entry.value).expiry ≤ sess.now
        · obtain ⟨hinv, hkeeps⟩ := h.bindChannel (sess.ch entry.value).addr send
          simp only [if_pos hdue] at hscan
          obtain ⟨hinv', hkeeps'⟩ := ih hinv hscan
          exact ⟨hinv', hkeeps.trans hkeeps'⟩
        · simp only [if_neg hdue] at hscan
          exact ih h hscan

theorem finds_registerNum (sess : Session) {find : List UInt8 → Option Nat} (p : Nat)
    (hfinds : Finds build sess.chTable find) (hfree : ∀ q, find (numBytes (sess.ch p).num) = some q → q = p) : ∃ table,
    registerNum build sess p = { sess with chTable := table } ∧
      Finds build table (Function.update find (numBytes (sess.ch p).num) (some p)) := by
  have hget := hfinds.get_zero (numKey (sess.ch p).num)
  have hsnd := hashGet_zero_snd build sess.chTable (numKey (sess.ch p).num)
  rw [numKey_bytes] at hget
  unfold registerNum
  generalize hpair : hashGet build sess.chTable (numKey (sess.ch p).num) (some 0) false = pair at hget hsnd
  obtain ⟨found, hval⟩ := pair
  cases found with
  | some q =>
    have hq : q = p := hfree q hget.symm
    rw [hq] at hget
    refine ⟨sess.chTable, rfl, ?_⟩
    rw [Function.update_eq_self_iff.mpr hget]
    exact hfinds
  | none =>
    have hset := hfinds.set (numKey (sess.ch p).num) p
    rw [show hval = _ from hsnd]
    refine ⟨_, rfl, ?_⟩
    rw [numKey_bytes] at hset ⊢
    exact hset

/-- `lookup_ch_by_addr` for a channel that is bound. -/
theorem lookupChByAddr_registers (sess : Session) {find : List UInt8 → Option Nat} (p : Nat)
    (hfinds : Finds build sess.chTable find) (hbyAddr : find (sess.ch p).addr.bytes = some p)
    (hfree : ∀ q, find (numBytes (sess.ch p).num) = some q → q = p) : ∃ expiry table,
    (lookupChByAddr build sess (sess.ch p).addr true true).1 =
        { sess.setCh p { sess.ch p with expiry := expiry } with chTable := table } ∧
      Finds build table (Function.update find (numBytes (sess.ch p).num) (some p)) := by
  have hget := hfinds.get_zero (sess.ch p).addr.key
  rw [Addr.key_bytes, hbyAddr] at hget
  generalize hexpiry : sess.now + 1000 * (permTimeout - sess.kaInterval - 1) = expiry
  have hself : (sess.setCh p { sess.ch p with expiry := expiry }).ch p = { sess.ch p with expiry := expiry } :=
    setCh_self ..
  obtain ⟨table, hregister, htable⟩ :=
    finds_registerNum (sess.setCh p { sess.ch p with expiry := expiry }) p hfinds (by rw [hself]; exact hfree)
  rw [hself] at htable
  refine ⟨expiry, table, ?_, htable⟩
  unfold lookupChByAddr
  generalize hashGet build sess.chTable (sess.ch p).addr.key (some 0) false = pair at hget
  obtain ⟨found, hval⟩ := pair
  rw [show found = some p from hget, ← hregister, ← hexpiry]
  rfl

def Session.confirm (sess : Session) (r : Request) : Session :=
  Session.setCh { sess with confirmed := sess.confirmed ++ [r] } r.token { sess.ch r.token with bound := true }

theorem onRequestComplete_success (sess : Session) (r : Request) :
    onRequestComplete build sess r .success =
      (lookupChByAddr build (sess.confirm r) ((sess.confirm r).ch r.token).addr true true).1 := rfl

theorem Inv.confirm {sess' : Session} (h : Inv build sess) {find : List UInt8 → Option Nat}
    (hkeyed : Keyed build sess find) {r : Request} (hr : r ∈ sess.requests)
    (hfinds : Finds build sess'.chTable (Function.update find (numBytes r.num) (some r.token)))
    (hself : (sess'.ch r.token).num = r.num ∧ (sess'.ch r.token).bound = true ∧ (sess'.ch r.token).addr = r.peer)
    (hother : ∀ q, q ≠ r.token → sess'.ch q = sess.ch q) (hcnt : sess'.chCnt = sess.chCnt)
    (hnext : sess'.nextCh = sess.nextCh) (hrequests : sess'.requests = sess.requests)
    (hpending : sess'.pending = sess.pending) (hconfirmed : sess'.confirmed = sess.confirmed ++ [r]) :
    Inv build sess' ∧ Keeps sess sess' := by
  obtain ⟨htoken, hrnum, hraddr, hvalid⟩ := h.requests r hr
  have hnum : ∀ q, (sess'.ch q).num = (sess.ch q).num := by
    intro q
    by_cases hq : q = r.token
    · rw [hq, hself.1, hrnum]
    · rw [hother q hq]
  have haddr : ∀ q, (sess'.ch q).addr = (sess.ch q).addr := by
    intro q
    by_cases hq : q = r.token
    · rw [hq, hself.2.2, hraddr]
    · rw [hother q hq]
  have hkeeps : Keeps sess sess' := ⟨hcnt.ge, fun q _ => haddr q, fun q _ _ => hnum q⟩
  have hrlt : r.num < 65536 := by
    rw [← hrnum]
    exact h.num_lt htoken
  refine ⟨⟨⟨_, hfinds, fun a q => ?_, fun n hn q => ?_⟩, by rw [hnext]; exact h.next, fun q hq => ?_, fun q t hq ht => ?_,
    fun t ht => ?_, fun t ht => ?_, fun t ht => ?_, fun q hq => ?_⟩, hkeeps⟩
  · rw [Function.update_of_ne (numBytes_ne_bytes r.num a).symm, hcnt, haddr]
    exact hkeyed.byAddr a q
  · by_cases hnr : n = r.num
    · rw [hnr, Function.update_self, hcnt, hnum]
      constructor
      · intro he
        rw [← Option.some.inj he]
        exact ⟨htoken, hself.2.1, hrnum⟩
      · rintro ⟨hq, -, hqnum⟩
        rw [← h.distinct r.token q htoken hq (hrnum.trans hqnum.symm) (by rw [hrnum]; exact hvalid)]
    · rw [Function.update_of_ne (fun he => hnr ((numBytes_inj hn hrlt).mp he)), hkeyed.byNum n hn q, hcnt, hnum]
      by_cases hq : q = r.token
      · rw [hq, hrnum]
        exact iff_of_false (fun hb => hnr hb.2.2.symm) fun hb => hnr hb.2.2.symm
      · rw [hother q hq]
  · rw [hcnt] at hq
    rw [hnum, hnext]
    by_cases hqr : q = r.token
    · rw [hqr]
      refine Or.inr ((h.num r.token htoken).resolve_left fun hb => ?_)
      exact hvalid (hrnum.symm.trans hb.1)
    · rw [hother q hqr]
      exact h.num q hq
  · rw [hcnt] at hq ht
    rw [hnum, hnum]
    exact h.distinct q t hq ht
  · rw [hrequests] at ht
    exact (h.requests t ht).of_keeps hkeeps
  · rw [hpending] at ht
    rw [hrequests]
    exact h.pending t ht
  · rw [hconfirmed, List.mem_append, List.mem_singleton] at ht
    rw [hrequests]
    rcases ht with ht | ht
    · exact h.confirmed t ht
    · rw [ht]
      exact hr
  · rw [hcnt] at hq
    rw [hconfirmed]
    by_cases hqr : q = r.token
    · rw [hqr]
      exact iff_of_true hself.2.1 ⟨r, List.mem_append_right _ (List.mem_singleton_self r), rfl⟩
    · rw [hother q hqr, h.bound q hq]
      constructor
      · rintro ⟨t, ht, htq⟩
        exact ⟨t, List.mem_append_left _ ht, htq⟩
      · rintro ⟨t, ht, htq⟩
        rw [List.mem_append, List.mem_singleton] at ht
        rcases ht with ht | ht
        · exact ⟨t, ht, htq⟩
        · rw [ht] at htq
          exact absurd htq.symm hqr

theorem Inv.onRequestComplete (h : Inv build sess) {r : Request} (hr : r ∈ sess.requests) (result : Completion) :
    Inv build (onRequestComplete build sess r result) ∧ Keeps sess (onRequestComplete build sess r result) := by
  cases result with
  | timeout => exact ⟨h, Keeps.refl sess⟩
  | error code =>
    unfold TurnChannels.onRequestComplete
    by_cases hcode : code = some allocationMismatch
    · simp only [if_pos hcode]
      exact h.congr rfl rfl rfl rfl (fun _ hq => hq) rfl
        fun _ => ⟨rfl, rfl, rfl⟩
    · simp only [if_neg hcode]
      exact ⟨h, Keeps.refl sess⟩
  | success =>
    obtain ⟨find, hkeyed⟩ := h.keyed
    obtain ⟨htoken, hrnum, hraddr, hvalid⟩ := h.requests r hr
    have hrlt : r.num < 65536 := by
      rw [← hrnum]
      exact h.num_lt htoken
    have hself : (sess.confirm r).ch r.token = { sess.ch r.token with bound := true } := setCh_self ..
    have hbyAddr : find ((sess.confirm r).ch r.token).addr.bytes = some r.token := by
      rw [hself, hkeyed.byAddr]
      exact ⟨htoken, rfl⟩
    have hfree : ∀ q, find (numBytes ((sess.confirm r).ch r.token).num) = some q → q = r.token := by
      intro q hq
      rw [hself] at hq
      have hqr : find (numBytes r.num) = some q := by
        rw [← hrnum]
        exact hq
      obtain ⟨hq, -, hqnum⟩ := (hkeyed.byNum r.num hrlt q).mp hqr
      exact (h.distinct r.token q htoken hq (hrnum.trans hqnum.symm) (by rw [hrnum]; exact hvalid)).symm
    obtain ⟨expiry, table, hlookup, hfinds⟩ :=
      lookupChByAddr_registers (sess.confirm r) r.token hkeyed.finds hbyAddr hfree
    rw [onRequestComplete_success, hlookup]
    rw [hself] at hfinds
    refine h.confirm hkeyed hr ?_ ?_ (fun q hq => ?_) rfl rfl rfl rfl rfl
    · rw [← hrnum]
      exact hfinds
    · rw [setCh_self, hself]
      exact ⟨hrnum, rfl, hraddr⟩
    · exact (setCh_of_ne _ _ hq).trans (setCh_of_ne _ _ hq)

theorem Inv.step {sess' : Session} (h : Inv build sess) {act : Action} (hstep : step build sess act = some sess') :
    Inv build sess' ∧ Keeps sess sess' := by
  cases act with
  | wait msec =>
    rw [← Option.some.inj hstep]
    exact h.congr rfl rfl rfl rfl (fun _ hq => hq) rfl
      fun _ => ⟨rfl, rfl, rfl⟩
  | session state kaInterval =>
    rw [← Option.some.inj hstep]
    exact h.congr rfl rfl rfl rfl (fun _ hq => hq) rfl
      fun _ => ⟨rfl, rfl, rfl⟩
  | bindChannel peer send =>
    rw [← Option.some.inj hstep]
    exact h.bindChannel peer send
  | complete request result =>
    by_cases hpending : request ∈ sess.pending
    · rw [TurnChannels.step, if_pos hpending] at hstep
      have herase : Inv build { sess with pending := sess.pending.erase request } ∧
          Keeps sess { sess with pending := sess.pending.erase request } :=
        h.congr rfl rfl rfl rfl (fun _ hq => List.mem_of_mem_erase hq) rfl
          fun _ => ⟨rfl, rfl, rfl⟩
      obtain ⟨herased, hkeeps⟩ := herase
      obtain ⟨hinv, hkeeps'⟩ := herased.onRequestComplete (h.pending request hpending) result
      rw [← Option.some.inj hstep]
      exact ⟨hinv, hkeeps.trans hkeeps'⟩
    · rw [TurnChannels.step, if_neg hpending] at hstep
      cases hstep
  | keepAlive sends => exact h.refreshChannels hstep
  | rxPkt datagram pkt =>
    obtain ⟨rx, -, hsame⟩ := Option.map_eq_some_iff.mp hstep
    rw [← hsame]
    exact ⟨h, Keeps.refl sess⟩

theorem Inv.run {acts : List Action} {sess sess' : Session} (h : Inv build sess)
    (hrun : exec (TurnChannels.step build) sess acts = some sess') : Inv build sess' ∧ Keeps sess sess' := by
  refine exec_invariant (P := fun s => Inv build s ∧ Keeps sess s) (fun s act t hs hst => ?_) ⟨h, Keeps.refl sess⟩ hrun
  obtain ⟨hinv, hkeeps⟩ := hs.1.step hst
  exact ⟨hinv, hs.2.trans hkeeps⟩

/-! Numbers and packets. -/

theorem Inv.numberOf_eq_some (h : Inv build sess) {peer : Addr} {n : Nat} : numberOf build sess peer = some n ↔
    ∃ p, p < sess.chCnt ∧ (sess.ch p).addr = peer ∧ (sess.ch p).num = n ∧ n ≠ invalidChannel := by
  obtain ⟨find, hkeyed⟩ := h.keyed
  have hlookup : (TurnChannels.lookupChByAddr build sess peer false false).2 = find peer.bytes := by
    rw [← peer.key_bytes, ← hkeyed.finds.get_zero]
    unfold TurnChannels.lookupChByAddr
    rfl
  rw [numberOf, hlookup, Option.filter_eq_some_iff, Option.map_eq_some_iff]
  constructor
  · rintro ⟨⟨p, hp, hnum⟩, hvalid⟩
    obtain ⟨hp, haddr⟩ := (hkeyed.byAddr peer p).mp hp
    exact ⟨p, hp, haddr, hnum, of_decide_eq_true hvalid⟩
  · rintro ⟨p, hp, haddr, hnum, hvalid⟩
    exact ⟨⟨p, (hkeyed.byAddr peer p).mpr ⟨hp, haddr⟩, hnum⟩, decide_eq_true hvalid⟩

theorem ntohs_lt (hi lo : UInt8) : ntohs hi lo < 65536 := by
  have hhi := hi.toNat_lt
  have hlo := lo.toNat_lt
  rw [ntohs]
  omega

/-- A channel with the number `n` is found when it is bound. -/
theorem Inv.lookupChByChnum (h : Inv build sess) {n : Nat} (hn : n < 65536) (p : Nat) :
    lookupChByChnum build sess n = some p ↔ p < sess.chCnt ∧ (sess.ch p).bound = true ∧ (sess.ch p).num = n := by
  obtain ⟨find, hkeyed⟩ := h.keyed
  rw [TurnChannels.lookupChByChnum, hkeyed.finds.get, numKey_bytes]
  exact hkeyed.byNum n hn p

theorem Inv.confirmed_iff (h : Inv build sess) {n : Nat} {peer : Addr} :
    (∃ r ∈ sess.confirmed, r.num = n ∧ r.peer = peer) ↔
      ∃ p, p < sess.chCnt ∧ (sess.ch p).bound = true ∧ (sess.ch p).num = n ∧ (sess.ch p).addr = peer := by
  constructor
  · rintro ⟨r, hr, hnum, hpeer⟩
    obtain ⟨htoken, hrnum, hraddr, -⟩ := h.requests r (h.confirmed r hr)
    exact ⟨r.token, htoken, (h.bound r.token htoken).mpr ⟨r, hr, rfl⟩, hrnum.trans hnum, hraddr.trans hpeer⟩
  · rintro ⟨p, hp, hbound, hnum, haddr⟩
    obtain ⟨r, hr, htoken⟩ := (h.bound p hp).mp hbound
    obtain ⟨-, hrnum, hraddr, -⟩ := h.requests r (h.confirmed r hr)
    rw [htoken] at hrnum hraddr
    exact ⟨r, hr, hrnum.symm.trans hnum, hraddr.symm.trans haddr⟩

/-- The application gets a payload when the channel of its number is bound. -/
theorem Inv.onRxPkt (h : Inv build sess) (datagram : Bool) {b c d e : UInt8} {payload : List UInt8}
    (hstun : b &&& 0xC0 ≠ 0) (hlen : ntohs d e ≤ payload.length) (data : List UInt8) (peer : Addr) :
    (∃ rx ∈ onRxPkt build sess datagram (b :: c :: d :: e :: payload), rx.data = some (data, peer)) ↔
      data = payload.take (ntohs d e) ∧ ∃ r ∈ sess.confirmed, r.num = ntohs b c ∧ r.peer = peer := by
  rw [h.confirmed_iff, TurnChannels.onRxPkt, if_neg hstun, if_neg (Nat.not_lt.mpr hlen)]
  have hfound := h.lookupChByChnum (ntohs_lt b c)
  cases hlookup : TurnChannels.lookupChByChnum build sess (ntohs b c) with
  | none =>
    refine iff_of_false ?_ ?_
    · rintro ⟨rx, hrx, hdata⟩
      rw [← Option.some.inj hrx] at hdata
      cases hdata
    · rintro ⟨-, p, hp, hbound, hnum, -⟩
      rw [(hfound p).mpr ⟨hp, hbound, hnum⟩] at hlookup
      cases hlookup
  | some p =>
    obtain ⟨hp, hbound, hnum⟩ := (hfound p).mp hlookup
    simp only [if_pos hbound]
    constructor
    · rintro ⟨rx, hrx, hdata⟩
      rw [← Option.some.inj hrx] at hdata
      obtain ⟨hdata, hpeer⟩ := Prod.mk.inj (Option.some.inj hdata)
      exact ⟨hdata.symm, p, hp, hbound, hnum, hpeer⟩
    · rintro ⟨hdata, q, hq, hqbound, hqnum, hpeer⟩
      have hqp : q = p := by
        rw [(hfound q).mpr ⟨hq, hqbound, hqnum⟩] at hlookup
        exact Option.some.inj hlookup
      refine ⟨_, rfl, ?_⟩
      rw [hdata, ← hpeer, hqp]

end Steps

/-- The channel bindings of a session: every peer has a number of its own, its requests carry that number, and a payload
is given to the application with the peer of a confirmed request with the number of the packet, if there is one. -/
structure OneToOne (build : Build) (sess : Session) : Prop where
  range : ∀ peer n, numberOf build sess peer = some n → channelMin ≤ n ∧ n ≤ channelMax
  distinct : ∀ peer peer' n, numberOf build sess peer = some n → numberOf build sess peer' = some n → peer = peer'
  requests : ∀ r ∈ sess.requests, numberOf build sess r.peer = some r.num
  confirmed : ∀ r ∈ sess.confirmed, r ∈ sess.requests
  delivered : ∀ datagram (b c d e : UInt8) payload, b &&& 0xC0 ≠ 0 → ntohs d e ≤ payload.length → ∀ data peer,
    (∃ rx ∈ onRxPkt build sess datagram (b :: c :: d :: e :: payload), rx.data = some (data, peer)) ↔
      data = payload.take (ntohs d e) ∧ ∃ r ∈ sess.confirmed, r.num = ntohs b c ∧ r.peer = peer

theorem Inv.oneToOne {build : Build} {sess : Session} (h : Inv build sess) : OneToOne build sess where
  range peer n hn := by
    obtain ⟨p, hp, -, hnum, hvalid⟩ := h.numberOf_eq_some.mp hn
    have hnext := h.next.2
    rcases h.num p hp with hb | hb
    · exact absurd (hnum.symm.trans hb.1) hvalid
    · omega
  distinct peer peer' n hn hn' := by
    obtain ⟨p, hp, hpeer, hnum, hvalid⟩ := h.numberOf_eq_some.mp hn
    obtain ⟨q, hq, hpeer', hnum', -⟩ := h.numberOf_eq_some.mp hn'
    rw [← hpeer, ← hpeer', h.distinct p q hp hq (hnum.trans hnum'.symm) (by rw [hnum]; exact hvalid)]
  requests r hr := by
    obtain ⟨htoken, hnum, haddr, hvalid⟩ := h.requests r hr
    exact h.numberOf_eq_some.mpr ⟨r.token, htoken, haddr, hnum, hvalid⟩
  confirmed := h.confirmed
  delivered datagram _ _ _ _ _ hstun hlen := h.onRxPkt datagram hstun hlen

/-- In every run the channel bindings are one to one, and a peer keeps its number in whatever follows. -/
theorem channels_one_to_one (build : Build) (blank : Nat → Ch) (now : Int) {acts more : List Action}
    {sess later : Session} (hrun : exec (step build) (create blank now) acts = some sess)
    (hmore : exec (step build) sess more = some later) : OneToOne build sess ∧
      ∀ peer n, numberOf build sess peer = some n → numberOf build later peer = some n := by
  have h : Inv build sess := ((Inv.create build blank now).run hrun).1
  obtain ⟨hlater, hkeeps⟩ := h.run hmore
  refine ⟨h.oneToOne, fun peer n hn => ?_⟩
  obtain ⟨p, hp, hpeer, hnum, hvalid⟩ := h.numberOf_eq_some.mp hn
  refine hlater.numberOf_eq_some.mpr ⟨p, hp.trans_le hkeeps.cnt, (hkeeps.addr p hp).trans hpeer, ?_, hvalid⟩
  rw [hkeeps.num p hp (by rw [hnum]; exact hvalid), hnum]

def samplePeer (last : UInt8) : Addr := ⟨[2, 0, 15, 160, 10, 0, 0, last] ++ List.replicate 8 0, Or.inl (Eq.refl 16)⟩

/-- Two peers are bound, the first of them after a request that could not be sent. -/
def bindsTwo : List Action :=
  [.session .ready 15, .bindChannel (samplePeer 1) .failed, .bindChannel (samplePeer 2) .sent,
    .bindChannel (samplePeer 1) .sent, .complete ⟨1, 0x4001, samplePeer 2⟩ .success,
    .complete ⟨0, 0x4000, samplePeer 1⟩ (.error none)]

theorem channels_one_to_one_two : ∃ sess later,
    exec (step (.siphash 1 2)) (create (fun _ => ⟨0, false, samplePeer 0, 0⟩) 0) bindsTwo = some sess ∧
    exec (step (.siphash 1 2)) sess [.wait 400000, .keepAlive [.sent, .sent, .sent]] = some later ∧
    later.pending = [⟨1, 0x4001, samplePeer 2⟩] ∧ OneToOne (.siphash 1 2) sess ∧
    ∀ peer n, numberOf (.siphash 1 2) sess peer = some n → numberOf (.siphash 1 2) later peer = some n := by
  have hsome := Option.some_get (x := exec (step (.siphash 1 2)) (create (fun _ => ⟨0, false, samplePeer 0, 0⟩) 0)
    bindsTwo) (by decide +kernel)
  have hlater := Option.some_get (x := exec (step (.siphash 1 2))
    ((exec (step (.siphash 1 2)) (create (fun _ => ⟨0, false, samplePeer 0, 0⟩) 0) bindsTwo).get (by decide +kernel))
    [.wait 400000, .keepAlive [.sent, .sent, .sent]]) (by decide +kernel)
  exact ⟨_, _, hsome.symm, hlater.symm, by decide +kernel, channels_one_to_one (.siphash 1 2) _ 0 hsome.symm hlater.symm⟩

end PjProject.TurnChannels
