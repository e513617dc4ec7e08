import PjProject.Bytes
import Mathlib.Data.List.TakeWhile

/-! Socket addresses as text (`sock_common.c`, with `pj_inet_aton` and `pj_inet_pton` of `sock_bsd.c` and
`pj_getaddrinfo` of `addr_resolv_sock.c`). The functions of the system are parameters. -/

namespace PjProject.Sock

inductive Family
  | inet
  | inet6
  deriving DecidableEq, Repr

/-- `pj_sockaddr`: the address and the port, in network byte order. -/
inductive Sockaddr
  | ipv4 (sinAddr : Vector UInt8 4) (sinPort : UInt16)
  | ipv6 (sin6Addr : Vector UInt8 16) (sin6Port : UInt16)
  deriving DecidableEq, Repr

def Sockaddr.family : Sockaddr → Family
  | .ipv4 _ _ => .inet
  | .ipv6 _ _ => .inet6

/-- `pj_htons` and `pj_ntohs` on a little-endian target. -/
def htons (n : UInt16) : UInt16 := .ofNat (n.toNat % 256 * 256 + n.toNat / 256)

theorem htons_htons (n : UInt16) : htons (htons n) = n := by
  have hn : n.toNat < 65536 := n.toNat_lt
  have hval : (htons n).toNat = n.toNat % 256 * 256 + n.toNat / 256 :=
    UInt16.toNat_ofNat_of_lt' (show _ < 65536 by omega)
  apply UInt16.toNat_inj.mp
  rw [htons, hval, UInt16.toNat_ofNat_of_lt' (show _ < 65536 by omega)]
  omega

/-- `pj_sockaddr_get_port`. -/
def Sockaddr.getPort : Sockaddr → UInt16
  | .ipv4 _ sinPort => htons sinPort
  | .ipv6 _ sin6Port => htons sin6Port

/-- `PJ_INADDR_NONE`. -/
def inaddrNone : Vector UInt8 4 := .replicate 4 255

inductive SockType
  | unspec
  | stream
  | dgram
  | other
  deriving DecidableEq

/-- The functions of the system: `inet_ntop`, `inet_addr`, `inet_pton` and `getaddrinfo`. -/
structure Inet where
  ntop4 : Vector UInt8 4 → Option (List UInt8)
  ntop6 : Vector UInt8 16 → Option (List UInt8)
  addr4 : List UInt8 → Vector UInt8 4
  pton6 : List UInt8 → Option (Vector UInt8 16)
  getaddrinfo : Family → List UInt8 → Option (List (SockType × Sockaddr))

inductive Status
  | einval
  | eresolve
  | enametoolong
  | eipv6notsup
  | netos
  deriving DecidableEq, Repr

def inetAddrstrlen : Nat := 16
def inet6Addrstrlen : Nat := 46
def maxHostname : Nat := 254

/-- The text of a buffer that ends with the first zero. -/
def cString (l : List UInt8) : List UInt8 := l.takeWhile (· != 0)

/-- `pj_ansi_snprintf` of a text into a buffer of `size` bytes. -/
def snprintf (size : Nat) (text : List UInt8) : List UInt8 := text.take (size - 1)

/-- `%d` of a number that is not negative. -/
def decimal (n : Nat) : List UInt8 := (Nat.toDigits 10 n).map fun c => .ofNat c.toNat

variable (inet : Inet)

def inetNtop : Sockaddr → Option (List UInt8)
  | .ipv4 sinAddr _ => inet.ntop4 sinAddr
  | .ipv6 sin6Addr _ => inet.ntop6 sin6Addr

/-- `pj_sockaddr_print`; `WITH_PORT` is 1 and `WITH_BRACKETS` is 2. -/
def sockaddrPrint (addr : Sockaddr) (size flags : Nat) : List UInt8 :=
  match inetNtop inet addr with
  | none => []
  | some txt =>
    let quoted := if addr.family ≠ .inet6 ∨ flags &&& 2 = 0 then txt else 91 :: (txt ++ [93])
    let port := if flags &&& 1 ≠ 0 then snprintf 32 (58 :: decimal addr.getPort.toNat) else []
    snprintf size (quoted ++ port)

/-- `pj_inet_aton` with `inet_addr`, as `pj_inet_addr` returns it. -/
def inetAddr (cp : List UInt8) : Vector UInt8 4 :=
  if cp.length ≥ inetAddrstrlen then inaddrNone else inet.addr4 (cString cp)

/-- `pj_inet_pton` for an IPv6 address. -/
def inetPton6 (src : List UInt8) : Except Status (Vector UInt8 16) :=
  if src.length ≥ inet6Addrstrlen then .error .enametoolong
  else
    match inet.pton6 (cString src) with
    | none => .error .netos
    | some addr => .ok addr

/-- `pj_getaddrinfo` for one address. -/
def pjGetaddrinfo (af : Family) (nodename : List UInt8) : Except Status Sockaddr :=
  if nodename.length ≥ maxHostname then .error .enametoolong
  else
    match inet.getaddrinfo af (cString nodename) with
    | none => .error .eresolve
    | some res =>
      match res.find? fun item => item.2.family = af ∧ item.1 ≠ .other with
      | none => .error .eresolve
      | some item => .ok item.2

/-- `pj_sockaddr_in_set_str_addr`. -/
def sockaddrInSetStrAddr (strAddr : List UInt8) : Except Status (Vector UInt8 4) :=
  if strAddr.length ≥ maxHostname then .error .einval
  else if strAddr = [] then .ok (.replicate 4 0)
  else if inetAddr inet strAddr = inaddrNone then
    match pjGetaddrinfo inet .inet strAddr with
    | .ok (.ipv4 sinAddr _) => .ok sinAddr
    | .ok (.ipv6 _ _) => .error .eresolve
    | .error status => .error status
  else .ok (inetAddr inet strAddr)

/-- `pj_sockaddr_set_str_addr` for an IPv6 address. -/
def sockaddrSetStrAddr6 (strAddr : List UInt8) : Except Status (Vector UInt8 16) :=
  if strAddr = [] then .ok (.replicate 16 0)
  else
    match inetPton6 inet strAddr with
    | .ok addr => .ok addr
    | .error _ =>
      match pjGetaddrinfo inet .inet6 strAddr with
      | .ok (.ipv6 sin6Addr _) => .ok sin6Addr
      | .ok (.ipv4 _ _) => .error .eresolve
      | .error status => .error status

/-- `pj_sockaddr_init`. -/
def sockaddrInit (af : Family) (cp : List UInt8) (port : Nat) : Except Status Sockaddr :=
  match af with
  | .inet => (sockaddrInSetStrAddr inet cp).map fun addr => .ipv4 addr (htons (.ofNat port))
  | .inet6 => (sockaddrSetStrAddr6 inet cp).map fun addr => .ipv6 addr (htons (.ofNat port))

def isDigit (c : UInt8) : Bool := 48 ≤ c && c ≤ 57

/-- `pj_strtoul`; an `unsigned long` has 32 bits. -/
def strtoul (str : List UInt8) : Nat :=
  (str.takeWhile isDigit).foldl (fun value c => (value * 10 + (c.toNat - 48)) % 0x100000000) 0

/-- A port number: digits only, and at most 65535. -/
def parsePort (portPart : List UInt8) : Option Nat :=
  if portPart.all isDigit ∧ strtoul portPart ≤ 65535 then some (strtoul portPart) else none

/-- `last_colon_pos`. -/
def lastColonPos : List UInt8 → Nat → Option Nat → Option Nat
  | [], _, last => last
  | c :: more, pos, last => lastColonPos more (pos + 1) (if c = 58 then some pos else last)

/-- `pj_sockaddr_parse2`: the host part, the port and the family. -/
def sockaddrParse2 (af : Option Family) (str : List UInt8) : Except Status (List UInt8 × Nat × Family) :=
  if str = [] then .ok ([], 0, .inet)
  else
    let colonCnt := str.count 58
    let lastColon := lastColonPos str 0 none
    if af = some .inet ∧ 1 < colonCnt then .error .einval
    else
      match af.getD (if 1 < colonCnt then .inet6 else .inet) with
      | .inet =>
        match lastColon with
        | some pos =>
          match parsePort (str.drop (pos + 1)) with
          | some port => .ok (str.take pos, port, .inet)
          | none => .error .einval
        | none => .ok (str, 0, .inet)
      | .inet6 =>
        if str.head? = some 91 then
          match lastColon, str.idxOf? 93 with
          | some pos, some endBracket =>
            match parsePort (if pos < endBracket then [] else str.drop (pos + 1)) with
            | some port => .ok ((str.take endBracket).drop 1, port, .inet6)
            | none => .error .einval
          | _, _ => .error .einval
        else .ok (str, 0, .inet6)

/-- The second try of `pj_sockaddr_parse`, with what follows the last colon as the port. -/
def parseTail (str : List UInt8) (status : Status) : Except Status Sockaddr :=
  match lastColonPos str 0 none with
  | none => .error status
  | some pos =>
    match parsePort (str.drop (pos + 1)) with
    | none => .error status
    | some port => sockaddrInit inet .inet6 (str.take pos) port

/-- `pj_sockaddr_parse`; `hasIpv6` is `PJ_HAS_IPV6`, and the family `none` is `PJ_AF_UNSPEC`. -/
def sockaddrParse (hasIpv6 : Bool) (af : Option Family) (str : List UInt8) : Except Status Sockaddr :=
  match sockaddrParse2 af str with
  | .error status => .error status
  | .ok (hostpart, port, af) =>
    if hasIpv6 = false ∧ af = .inet6 then .error .eipv6notsup
    else
      match sockaddrInit inet af hostpart port with
      | .ok addr => .ok addr
      | .error status => if hasIpv6 ∧ af = .inet6 then parseTail inet str status else .error status

end PjProject.Sock
