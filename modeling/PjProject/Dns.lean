import PjProject.Bytes

/-! DNS messages (`dns.c`): building a query, and the parser of packets with its two passes over names.
A packet is the list of its bytes and a pointer into it is an offset; `max` is the length of the packet.
Every read of the parser is behind a check that it is inside the packet. -/

namespace PjProject.Dns

/-- `PJ_EINVAL`, `PJLIB_UTIL_EDNSQRYTOOSMALL`, `PJLIB_UTIL_EDNSINSIZE`, `PJLIB_UTIL_EDNSINNAMEPTR`,
`PJLIB_UTIL_EDNSINCLASS` and `PJ_ETOOMANY`. -/
inductive Error
  | einval
  | qryTooSmall
  | inSize
  | inNamePtr
  | inClass
  | tooMany
  deriving DecidableEq, Repr

/-- The character `.`. -/
def dot : UInt8 := 46

/-- `sizeof(pj_dns_hdr)`. -/
def headerSize : Nat := 12

def write16 (val : Nat) : List UInt8 := toBytes 2 val

def read16 (pkt : List UInt8) (p : Nat) : Nat := ofBytes (slice pkt p 2)

def read32 (pkt : List UInt8) (p : Nat) : Nat := ofBytes (slice pkt p 4)

/-- The loop of `pj_dns_make_query` over the rest of the name: a length byte and a label, and the dot
behind it is skipped. Every turn takes a byte of the name. -/
def encodeName : Nat → List UInt8 → List UInt8
  | turns + 1, c :: rest =>
    let label := (c :: rest).takeWhile (· ≠ dot)
    .ofNat label.length :: (label ++ encodeName turns (((c :: rest).dropWhile (· ≠ dot)).drop 1))
  | _, _ => []

/-- `pj_dns_make_query` for a buffer of `size` bytes: the packet, whose length is left in `*size`. -/
def makeQuery (size : Nat) (id : UInt16) (qtype : Int) (name : List UInt8) : Except Error (List UInt8) :=
  if qtype = 0 then .error .einval
  else if size < headerSize + name.length + 4 then .error .qryTooSmall
  else
    .ok (write16 id.toNat ++ write16 (2 ^ 8) ++ write16 1 ++ write16 0 ++ write16 0 ++ write16 0 ++
      (encodeName name.length name ++ [0] ++ write16 (qtype % 2 ^ 16).toNat ++ write16 1))

/-- `(*p & 0xc0) == 0xc0`. -/
def isPointer (b : UInt8) : Bool := b &&& 0xc0 == 0xc0

def pointerOffset (pkt : List UInt8) (p : Nat) : Nat := read16 pkt p ^^^ 0xc000

/-- The loop of `get_name_len`; `target` is the call for the name a compression pointer leads to. The
result is `*parsed_len` and `*name_len`. A turn takes two bytes or more of the packet. -/
def nameLenLoop (pkt : List UInt8) (target : Nat → Except Error (Nat × Nat)) :
    Nat → Nat → Nat → Nat → Except Error (Nat × Nat)
  | 0, _, _, _ => .error .inNamePtr
  | turns + 1, p, parsedLen, nameLen =>
    if p < pkt.length ∧ byteAt pkt p ≠ 0 then
      if isPointer (byteAt pkt p) then
        if pkt.length ≤ p + 1 then .error .inNamePtr
        else if pkt.length ≤ pointerOffset pkt p then .error .inNamePtr
        else match target (pointerOffset pkt p) with
          | .error e => .error e
          | .ok (_, ptrLen) => .ok (parsedLen + 2, nameLen + ptrLen)
      else
        let labelLen := (byteAt pkt p).toNat
        if pkt.length < p + 1 + labelLen + 1 then .error .inNamePtr
        else
          let p := p + (labelLen + 1)
          nameLenLoop pkt target turns p (parsedLen + (labelLen + 1))
            (nameLen + if byteAt pkt p ≠ 0 then labelLen + 1 else labelLen)
    else .ok (parsedLen + 1, nameLen)

/-- `get_name_len`; `depth` is how many more levels of recursion are allowed. -/
def getNameLen (pkt : List UInt8) : Nat → Nat → Except Error (Nat × Nat)
  | 0, _ => .error .inNamePtr
  | depth + 1, start =>
    if pkt.length ≤ start then .error .inNamePtr
    else nameLenLoop pkt (getNameLen pkt depth) (pkt.length + 1) start 0 0

/-- The loop of `get_name`, which appends to the name. -/
def nameLoop (pkt : List UInt8) (target : Nat → List UInt8 → Except Error (List UInt8)) :
    Nat → Nat → List UInt8 → Except Error (List UInt8)
  | 0, _, _ => .error .inNamePtr
  | turns + 1, p, name =>
    if p < pkt.length ∧ byteAt pkt p ≠ 0 then
      if isPointer (byteAt pkt p) then
        if pkt.length ≤ p + 1 then .error .inNamePtr
        else if pkt.length ≤ pointerOffset pkt p then .error .inNamePtr
        else target (pointerOffset pkt p) name
      else
        let labelLen := (byteAt pkt p).toNat
        if pkt.length < p + 1 + labelLen + 1 then .error .inNamePtr
        else
          let name := name ++ slice pkt (p + 1) labelLen
          let p := p + (labelLen + 1)
          nameLoop pkt target turns p (if byteAt pkt p ≠ 0 then name ++ [dot] else name)
    else .ok name

/-- `get_name`. -/
def getName (pkt : List UInt8) : Nat → Nat → List UInt8 → Except Error (List UInt8)
  | 0, _, _ => .error .inNamePtr
  | depth + 1, start, name =>
    if pkt.length ≤ start then .error .inNamePtr
    else nameLoop pkt (getName pkt depth) (pkt.length + 1) start name

theorem toNat_pos_of_ne {b : UInt8} (h : b ≠ 0) : 0 < b.toNat := by
  refine Nat.pos_of_ne_zero fun hzero => h ?_
  exact UInt8.toNat_inj.mp hzero

/-- Calls with `rec_counter` from 0 to `MAX_NAME_RECURSION` are allowed. -/
def maxDepth : Nat := 6

/-- The two passes over a name: its length in the packet, and the name. -/
def parseName (pkt : List UInt8) (start : Nat) : Except Error (Nat × List UInt8) :=
  match getNameLen pkt maxDepth start with
  | .error e => .error e
  | .ok (partLen, _) =>
    match getName pkt maxDepth start [] with
    | .error e => .error e
    | .ok name => .ok (partLen, name)

/-- `pj_dns_parsed_query`. -/
structure Query where
  name : List UInt8
  type : Nat
  dnsclass : Nat
  deriving DecidableEq, Repr

/-- `parse_query`: the query and `*parsed_len`. -/
def parseQuery (pkt : List UInt8) (start : Nat) : Except Error (Query × Nat) :=
  match parseName pkt start with
  | .error e => .error e
  | .ok (partLen, name) =>
    let p := start + partLen
    if pkt.length < p + 4 then .error .inSize
    else .ok (⟨name, read16 pkt p, read16 pkt (p + 2)⟩, p + 4 - start)

/-- The record types with a branch of their own. -/
def typeA : Nat := 1
def typeNs : Nat := 2
def typeCname : Nat := 5
def typePtr : Nat := 12
def typeAaaa : Nat := 28
def typeSrv : Nat := 33

def isKnownType (type : Nat) : Bool :=
  type == typeA || type == typeAaaa || type == typeCname || type == typeNs || type == typePtr ||
    type == typeSrv

/-- The `rdata` union of a parsed record, and the raw data of other types. -/
inductive Rdata
  | a (ipAddr : List UInt8)
  | aaaa (ipAddr : List UInt8)
  | name (name : List UInt8)
  | srv (prio weight port : Nat) (target : List UInt8)
  | raw (data : List UInt8)
  deriving DecidableEq, Repr

/-- `pj_dns_parsed_rr`. -/
structure Rr where
  name : List UInt8
  type : Nat
  dnsclass : Nat
  ttl : Nat
  rdlength : Nat
  rdata : Rdata
  deriving DecidableEq, Repr

/-- The branches of `parse_rr` over the type, at the data of the record: the data and how far the cursor
moves. -/
def parseRdata (pkt : List UInt8) (type rdlength p : Nat) : Except Error (Rdata × Nat) :=
  if type = typeA then
    if pkt.length < p + 4 then .error .inSize else .ok (.a (slice pkt p 4), 4)
  else if type = typeAaaa then
    if pkt.length < p + 16 then .error .inSize else .ok (.aaaa (slice pkt p 16), 16)
  else if type = typeCname ∨ type = typeNs ∨ type = typePtr then
    match parseName pkt p with
    | .error e => .error e
    | .ok (partLen, name) => .ok (.name name, partLen)
  else if type = typeSrv then
    if pkt.length < p + 6 then .error .inSize
    else match parseName pkt (p + 6) with
      | .error e => .error e
      | .ok (partLen, target) =>
        .ok (.srv (read16 pkt p) (read16 pkt (p + 2)) (read16 pkt (p + 4)) target, 6 + partLen)
  else .ok (.raw (slice pkt p rdlength), rdlength)

/-- `parse_rr`: the record and `*parsed_len`. -/
def parseRr (pkt : List UInt8) (start : Nat) : Except Error (Rr × Nat) :=
  match parseName pkt start with
  | .error e => .error e
  | .ok (partLen, name) =>
    let p := start + partLen
    if pkt.length < p + 10 then .error .inSize
    else
      let type := read16 pkt p
      let dnsclass := read16 pkt (p + 2)
      if dnsclass ≠ 1 ∧ isKnownType type then .error .inClass
      else
        let rdlength := read16 pkt (p + 8)
        if pkt.length < p + 10 + rdlength then .error .inSize
        else match parseRdata pkt type rdlength (p + 10) with
          | .error e => .error e
          | .ok (rdata, dataLen) =>
            .ok (⟨name, type, dnsclass, read32 pkt (p + 4), rdlength, rdata⟩, p + 10 + dataLen - start)

/-- A loop over a section: the parsed items, each with where it starts and its `parsed_len`, and the
cursor behind them. -/
def parseSection {β : Type} (parse : Nat → Except Error (β × Nat)) :
    Nat → Nat → Except Error (List (β × Nat × Nat) × Nat)
  | 0, start => .ok ([], start)
  | count + 1, start =>
    match parse start with
    | .error e => .error e
    | .ok (item, parsedLen) =>
      match parseSection parse count (start + parsedLen) with
      | .error e => .error e
      | .ok (items, stop) => .ok ((item, start, parsedLen) :: items, stop)

/-- `pj_dns_hdr` in host byte order. -/
structure Header where
  id : Nat
  flags : Nat
  qdcount : Nat
  anscount : Nat
  nscount : Nat
  arcount : Nat
  deriving DecidableEq, Repr

/-- `pj_dns_parsed_packet`; the records with where they were read and their `parsed_len`. -/
structure Packet where
  hdr : Header
  q : List (Query × Nat × Nat)
  ans : List (Rr × Nat × Nat)
  ns : List (Rr × Nat × Nat)
  arr : List (Rr × Nat × Nat)
  deriving DecidableEq, Repr

/-- `PJ_DNS_MAX_SECTION_COUNT`. -/
def maxSectionCount : Nat := 256

def parseHeader (pkt : List UInt8) : Header :=
  ⟨read16 pkt 0, read16 pkt 2, read16 pkt 4, read16 pkt 6, read16 pkt 8, read16 pkt 10⟩

/-- `pj_dns_parse_packet`. -/
def parsePacket (pkt : List UInt8) : Except Error Packet :=
  if pkt.length = 0 then .error .einval
  else if pkt.length < headerSize then .error .inSize
  else
    let hdr := parseHeader pkt
    if maxSectionCount < hdr.qdcount ∨ maxSectionCount < hdr.anscount ∨ maxSectionCount < hdr.nscount ∨
        maxSectionCount < hdr.arcount then .error .tooMany
    else do
      let (q, start) ← parseSection (parseQuery pkt) hdr.qdcount headerSize
      let (ans, start) ← parseSection (parseRr pkt) hdr.anscount start
      let (ns, start) ← parseSection (parseRr pkt) hdr.nscount start
      let (arr, _) ← parseSection (parseRr pkt) hdr.arcount start
      .ok ⟨hdr, q, ans, ns, arr⟩

end PjProject.Dns
