import PjProject.Sockaddr

/-! A socket address that is printed with its port and brackets is parsed back. What the system functions do is
assumed for the address at hand: its text has the usual form and is converted back. -/

namespace PjProject.Sock

/-! Port numbers. -/

theorem digit_range {d : Char} (h : d.isDigit = true) : 48 ≤ d.toNat ∧ d.toNat ≤ 57 := by
  rw [Char.isDigit, Bool.and_eq_true, decide_eq_true_iff, decide_eq_true_iff] at h
  exact ⟨UInt32.le_iff_toNat_le.mp h.1, UInt32.le_iff_toNat_le.mp h.2⟩

theorem toNat_digit {d : Char} (h : d.isDigit = true) : (UInt8.ofNat d.toNat).toNat = d.toNat := by
  have hrange := digit_range h
  exact UInt8.toNat_ofNat_of_lt' (show _ < 256 by omega)

theorem isDigit_of_mem_decimal {n : Nat} {c : UInt8} (h : c ∈ decimal n) : isDigit c = true := by
  obtain ⟨d, hd, rfl⟩ := List.mem_map.mp h
  have hdigit := Nat.isDigit_of_mem_toDigits (by decide) (by decide) hd
  simp only [isDigit, Bool.and_eq_true, decide_eq_true_eq, UInt8.le_iff_toNat_le, toNat_digit hdigit]
  exact digit_range hdigit

theorem takeWhile_of_all {p : UInt8 → Bool} {l : List UInt8} (h : ∀ c ∈ l, p c = true) : l.takeWhile p = l :=
  List.takeWhile_eq_self_iff.mpr h

theorem foldl_mod (l : List UInt8) (v : Nat) :
    l.foldl (fun value c => (value * 10 + (c.toNat - 48)) % 0x100000000) (v % 0x100000000) =
      l.foldl (fun value c => 10 * value + (c.toNat - 48)) v % 0x100000000 := by
  induction l generalizing v with
  | nil => rfl
  | cons c more ih =>
    rw [List.foldl_cons, List.foldl_cons, ← ih]
    congr 1
    omega

theorem foldl_decimal (n : Nat) : (decimal n).foldl (fun value c => 10 * value + (c.toNat - 48)) 0 = n := by
  have hchars : ∀ (l : List Char) (v : Nat), (∀ d ∈ l, d.isDigit = true) →
      (l.map fun c => UInt8.ofNat c.toNat).foldl (fun value c => 10 * value + (c.toNat - 48)) v =
        Nat.ofDigitChars 10 l v := by
    intro l
    induction l with
    | nil => intro v _; rfl
    | cons d more ih =>
      intro v hall
      rw [List.map_cons, List.foldl_cons, ih _ fun e he => hall e (List.mem_cons_of_mem d he),
        Nat.ofDigitChars_cons, toNat_digit (hall d List.mem_cons_self)]
      rfl
  rw [decimal, hchars _ _ fun d hd => Nat.isDigit_of_mem_toDigits (by decide) (by decide) hd]
  exact Nat.ofDigitChars_ten_toDigits

theorem strtoul_decimal {n : Nat} (h : n < 0x100000000) : strtoul (decimal n) = n := by
  rw [strtoul, takeWhile_of_all fun c hc => isDigit_of_mem_decimal hc]
  exact (foldl_mod (decimal n) 0).trans (by rw [foldl_decimal, Nat.mod_eq_of_lt h])

theorem parsePort_decimal (port : UInt16) : parsePort (decimal port.toNat) = some port.toNat := by
  have hlt := port.toNat_lt
  have hval : strtoul (decimal port.toNat) = port.toNat := strtoul_decimal (by omega)
  have hall : (decimal port.toNat).all isDigit = true := List.all_eq_true.mpr fun c hc => isDigit_of_mem_decimal hc
  rw [parsePort, hval, if_pos ⟨hall, by omega⟩]

theorem length_decimal (port : UInt16) : (decimal port.toNat).length ≤ 5 := by
  have hlt := port.toNat_lt
  rw [decimal, List.length_map, Nat.length_toDigits_le_iff (by decide) (by decide)]
  omega

theorem notMem_decimal (n : Nat) {c : UInt8} (hc : isDigit c = false) : c ∉ decimal n :=
  fun hmem => absurd (hc.symm.trans (isDigit_of_mem_decimal hmem)) Bool.false_ne_true

/-! The position of the last colon. -/

theorem lastColonPos_of_notMem {l : List UInt8} (h : 58 ∉ l) (pos : Nat) (last : Option Nat) :
    lastColonPos l pos last = last := by
  induction l generalizing pos with
  | nil => rfl
  | cons c more ih =>
    have hc : c ≠ 58 := fun heq => h (heq ▸ List.mem_cons_self)
    rw [lastColonPos, if_neg hc, ih fun hmem => h (List.mem_cons_of_mem c hmem)]

theorem lastColonPos_append (front : List UInt8) {rest : List UInt8} (h : 58 ∉ rest) (pos : Nat) (last : Option Nat) :
    lastColonPos (front ++ 58 :: rest) pos last = some (pos + front.length) := by
  induction front generalizing pos last with
  | nil =>
    rw [List.nil_append, lastColonPos, if_pos rfl, lastColonPos_of_notMem h]
    rfl
  | cons c more ih =>
    rw [List.cons_append, lastColonPos, ih, List.length_cons]
    congr 1
    omega

theorem idxOf?_append {front : List UInt8} {c : UInt8} (h : c ∉ front) (rest : List UInt8) :
    (front ++ c :: rest).idxOf? c = some front.length := by
  induction front with
  | nil => rw [List.nil_append, List.idxOf?_cons, beq_self_eq_true, if_pos rfl, List.length_nil]
  | cons d more ih =>
    have hd : d ≠ c := fun heq => h (heq ▸ List.mem_cons_self)
    rw [List.cons_append, List.idxOf?_cons, beq_eq_false_iff_ne.mpr hd, if_neg Bool.false_ne_true,
      ih fun hmem => h (List.mem_cons_of_mem d hmem)]
    rfl

theorem cString_of_notMem {l : List UInt8} (h : 0 ∉ l) : cString l = l :=
  takeWhile_of_all fun _ hc => bne_iff_ne.mpr fun heq => h (heq ▸ hc)

/-- The text of an IPv4 address: `ddd.ddd.ddd.ddd`. Only the broadcast address needs `getaddrinfo`, since
`inet_addr` cannot tell it from an error. -/
structure Text4 (inet : Inet) (sinAddr : Vector UInt8 4) (txt : List UInt8) : Prop where
  ntop : inet.ntop4 sinAddr = some txt
  ne : txt ≠ []
  length : txt.length < inetAddrstrlen
  chars : ∀ c ∈ txt, isDigit c = true ∨ c = 46
  addr : inet.addr4 txt = sinAddr
  resolve : sinAddr = inaddrNone → ∃ res, inet.getaddrinfo .inet txt = some res ∧
    (∃ item ∈ res, item.2.family = .inet ∧ item.1 ≠ .other) ∧
    ∀ item ∈ res, ∀ a port, item.2 = .ipv4 a port → a = sinAddr

/-- The text of an IPv6 address: hexadecimal digits, at least two colons, and dots. -/
structure Text6 (inet : Inet) (sin6Addr : Vector UInt8 16) (txt : List UInt8) : Prop where
  ntop : inet.ntop6 sin6Addr = some txt
  length : txt.length < inet6Addrstrlen
  chars : ∀ c ∈ txt, isDigit c = true ∨ (97 ≤ c ∧ c ≤ 102) ∨ (65 ≤ c ∧ c ≤ 70) ∨ c = 58 ∨ c = 46
  colons : 2 ≤ txt.count 58
  pton : inet.pton6 txt = some sin6Addr

/-- `inet_ntop` and its inverses work on this address. -/
def HasText (inet : Inet) : Sockaddr → Prop
  | .ipv4 sinAddr _ => ∃ txt, Text4 inet sinAddr txt
  | .ipv6 sin6Addr _ => ∃ txt, Text6 inet sin6Addr txt

section Texts

variable {inet : Inet}

theorem Text4.notMem {sinAddr : Vector UInt8 4} {txt : List UInt8} (h : Text4 inet sinAddr txt) {c : UInt8}
    (hdigit : isDigit c = false) (hdot : c ≠ 46) : c ∉ txt := by
  intro hmem
  rcases h.chars c hmem with hc | hc
  · exact absurd (hdigit.symm.trans hc) Bool.false_ne_true
  · exact hdot hc

theorem Text6.notMem {sin6Addr : Vector UInt8 16} {txt : List UInt8} (h : Text6 inet sin6Addr txt) {c : UInt8}
    (hc : c = 0 ∨ c = 91 ∨ c = 93) : c ∉ txt := by
  intro hmem
  have hchar := h.chars c hmem
  rcases hc with rfl | rfl | rfl <;> exact absurd hchar (by decide)

theorem sockaddrInSetStrAddr_text {sinAddr : Vector UInt8 4} {txt : List UInt8} (h : Text4 inet sinAddr txt) :
    sockaddrInSetStrAddr inet txt = .ok sinAddr := by
  have hlen : txt.length < 16 := h.length
  have hhost : ¬ txt.length ≥ maxHostname := by
    rw [maxHostname]
    omega
  have hstr : cString txt = txt := cString_of_notMem (h.notMem (by decide) (by decide))
  have haddr : inetAddr inet txt = sinAddr := by
    rw [inetAddr, if_neg (Nat.not_le.mpr h.length), hstr, h.addr]
  rw [sockaddrInSetStrAddr, if_neg hhost, if_neg h.ne, haddr]
  by_cases hnone : sinAddr = inaddrNone
  · obtain ⟨res, hres, ⟨item, hmem, hitem⟩, hall⟩ := h.resolve hnone
    have hfound : (res.find? fun item => item.2.family = .inet ∧ item.1 ≠ .other).isSome = true :=
      List.find?_isSome.mpr ⟨item, hmem, by simpa using hitem⟩
    obtain ⟨found, hfind⟩ := Option.isSome_iff_exists.mp hfound
    have hfamily : found.2.family = .inet ∧ found.1 ≠ .other := by simpa using List.find?_some hfind
    have hget : pjGetaddrinfo inet .inet txt = .ok found.2 := by
      simp only [pjGetaddrinfo, if_neg hhost, hstr, hres, hfind]
    rw [if_pos hnone, hget]
    cases hsock : found.2 with
    | ipv4 a port => exact congrArg Except.ok (hall found (List.mem_of_find?_eq_some hfind) a port hsock)
    | ipv6 a port =>
      rw [hsock] at hfamily
      exact absurd hfamily.1 (by simp [Sockaddr.family])
  · rw [if_neg hnone]

theorem sockaddrSetStrAddr6_text {sin6Addr : Vector UInt8 16} {txt : List UInt8} (h : Text6 inet sin6Addr txt) :
    sockaddrSetStrAddr6 inet txt = .ok sin6Addr := by
  have hne : txt ≠ [] := by
    rintro rfl
    exact absurd h.colons (by decide)
  have hstr : cString txt = txt := cString_of_notMem (h.notMem (Or.inl rfl))
  rw [sockaddrSetStrAddr6, if_neg hne, inetPton6, if_neg (Nat.not_le.mpr h.length), hstr, h.pton]

end Texts

theorem count_decimal (n : Nat) : (decimal n).count 58 = 0 := List.count_eq_zero.mpr (notMem_decimal n (by decide))

/-- `a.b.c.d:port`. -/
theorem sockaddrParse2_ipv4 {txt : List UInt8} (hcolon : 58 ∉ txt) (port : UInt16) :
    sockaddrParse2 none (txt ++ 58 :: decimal port.toNat) = .ok (txt, port.toNat, .inet) := by
  have hne : txt ++ 58 :: decimal port.toNat ≠ [] := by simp
  have hcount : (txt ++ 58 :: decimal port.toNat).count 58 = 1 := by
    rw [List.count_append, List.count_cons_self, count_decimal, List.count_eq_zero.mpr hcolon]
  have hlast : lastColonPos (txt ++ 58 :: decimal port.toNat) 0 none = some txt.length := by
    rw [lastColonPos_append txt (notMem_decimal _ (by decide)), Nat.zero_add]
  have hdrop : (txt ++ 58 :: decimal port.toNat).drop (txt.length + 1) = decimal port.toNat := by
    rw [← List.drop_drop, List.drop_left]
    rfl
  rw [sockaddrParse2, if_neg hne]
  simp only [hcount, hlast, hdrop, parsePort_decimal, List.take_left]
  rfl

/-- `[text]:port`. -/
theorem sockaddrParse2_ipv6 {txt : List UInt8} (hcolons : 2 ≤ txt.count 58) (hbracket : 93 ∉ txt) (port : UInt16) :
    sockaddrParse2 none (91 :: (txt ++ 93 :: 58 :: decimal port.toNat)) = .ok (txt, port.toNat, .inet6) := by
  have hcount : 1 < (91 :: (txt ++ 93 :: 58 :: decimal port.toNat)).count 58 := by
    rw [List.count_cons_of_ne (by decide), List.count_append]
    omega
  have hsplit : 91 :: (txt ++ 93 :: 58 :: decimal port.toNat) = (91 :: (txt ++ [93])) ++ 58 :: decimal port.toNat := by
    simp
  have hlast : lastColonPos (91 :: (txt ++ 93 :: 58 :: decimal port.toNat)) 0 none = some (txt.length + 2) := by
    rw [hsplit, lastColonPos_append _ (notMem_decimal _ (by decide))]
    simp
  have hend : (91 :: (txt ++ 93 :: 58 :: decimal port.toNat)).idxOf? 93 = some (txt.length + 1) :=
    idxOf?_append (by simpa using hbracket : (93 : UInt8) ∉ 91 :: txt) _
  have hdrop : (91 :: (txt ++ 93 :: 58 :: decimal port.toNat)).drop (txt.length + 2 + 1) = decimal port.toNat := by
    rw [hsplit, show txt.length + 2 + 1 = (91 :: (txt ++ [93])).length + 1 by simp, ← List.drop_drop, List.drop_left]
    rfl
  have htake : ((91 :: (txt ++ 93 :: 58 :: decimal port.toNat)).take (txt.length + 1)).drop 1 = txt := by
    simp
  have hafter : ¬ txt.length + 2 < txt.length + 1 := by omega
  rw [sockaddrParse2, if_neg (List.cons_ne_nil _ _)]
  simp only [hlast, hend, hcount, if_true, Option.getD_none, List.head?_cons]
  rw [if_neg hafter, hdrop, parsePort_decimal, htake]
  rfl

/-- The digits of a port with the colon fit in their buffer. -/
theorem snprintf_port (port : UInt16) : snprintf 32 (58 :: decimal port.toNat) = 58 :: decimal port.toNat := by
  have hlen := length_decimal port
  rw [snprintf, List.take_of_length_le]
  rw [List.length_cons]
  omega

theorem sockaddrPrint_ipv4 {inet : Inet} {sinAddr : Vector UInt8 4} {txt : List UInt8} (h : Text4 inet sinAddr txt)
    (sinPort : UInt16) {size : Nat} (hsize : 54 ≤ size) :
    sockaddrPrint inet (.ipv4 sinAddr sinPort) size 3 = txt ++ 58 :: decimal (htons sinPort).toNat := by
  have hlen : txt.length < 16 := h.length
  have hport := length_decimal (htons sinPort)
  have htext : inetNtop inet (.ipv4 sinAddr sinPort) = some txt := h.ntop
  have hfamily : (Sockaddr.ipv4 sinAddr sinPort).family ≠ .inet6 := by simp [Sockaddr.family]
  rw [sockaddrPrint, htext]
  simp only [Sockaddr.getPort]
  rw [if_pos (Or.inl hfamily), if_pos (by decide), snprintf_port, snprintf, List.take_of_length_le]
  rw [List.length_append, List.length_cons]
  omega

theorem sockaddrPrint_ipv6 {inet : Inet} {sin6Addr : Vector UInt8 16} {txt : List UInt8}
    (h : Text6 inet sin6Addr txt) (sin6Port : UInt16) {size : Nat} (hsize : 54 ≤ size) :
    sockaddrPrint inet (.ipv6 sin6Addr sin6Port) size 3 = 91 :: (txt ++ 93 :: 58 :: decimal (htons sin6Port).toNat) := by
  have hlen : txt.length < 46 := h.length
  have hport := length_decimal (htons sin6Port)
  have htext : inetNtop inet (.ipv6 sin6Addr sin6Port) = some txt := h.ntop
  have hcond : ¬ ((Sockaddr.ipv6 sin6Addr sin6Port).family ≠ .inet6 ∨ 3 &&& 2 = 0) := by simp [Sockaddr.family]
  have hsplit : 91 :: (txt ++ [93]) ++ 58 :: decimal (htons sin6Port).toNat =
      91 :: (txt ++ 93 :: 58 :: decimal (htons sin6Port).toNat) := by simp
  rw [sockaddrPrint, htext]
  simp only [Sockaddr.getPort]
  rw [if_neg hcond, if_pos (by decide), snprintf_port, hsplit, snprintf, List.take_of_length_le]
  simp only [List.length_append, List.length_cons]
  omega

theorem ofNat_toNat_port (port : UInt16) : htons (.ofNat (htons port).toNat) = port := by
  rw [UInt16.ofNat_toNat, htons_htons]

/-- The text with port and brackets is parsed to the same address, for IPv6 in a build with `PJ_HAS_IPV6`. The
longest text takes 54 bytes with its zero. -/
theorem sockaddrParse_sockaddrPrint {inet : Inet} {addr : Sockaddr} (htext : HasText inet addr) {hasIpv6 : Bool}
    (hipv6 : addr.family = .inet6 → hasIpv6 = true) {size : Nat} (hsize : 54 ≤ size) :
    sockaddrParse inet hasIpv6 none (sockaddrPrint inet addr size 3) = .ok addr := by
  cases addr with
  | ipv4 sinAddr sinPort =>
    obtain ⟨txt, h⟩ := htext
    have hinit : sockaddrInit inet .inet txt (htons sinPort).toNat = .ok (.ipv4 sinAddr sinPort) := by
      rw [sockaddrInit, sockaddrInSetStrAddr_text h]
      show Except.ok (Sockaddr.ipv4 sinAddr _) = _
      rw [ofNat_toNat_port]
    rw [sockaddrPrint_ipv4 h sinPort hsize, sockaddrParse, sockaddrParse2_ipv4 (h.notMem (by decide) (by decide))]
    show (if hasIpv6 = false ∧ Family.inet = .inet6 then _ else _) = _
    rw [if_neg (fun hand => absurd hand.2 (by decide)), hinit]
  | ipv6 sin6Addr sin6Port =>
    obtain ⟨txt, h⟩ := htext
    have hinit : sockaddrInit inet .inet6 txt (htons sin6Port).toNat = .ok (.ipv6 sin6Addr sin6Port) := by
      rw [sockaddrInit, sockaddrSetStrAddr6_text h]
      show Except.ok (Sockaddr.ipv6 sin6Addr _) = _
      rw [ofNat_toNat_port]
    rw [sockaddrPrint_ipv6 h sin6Port hsize, sockaddrParse,
      sockaddrParse2_ipv6 h.colons (h.notMem (Or.inr (Or.inr rfl)))]
    show (if hasIpv6 = false ∧ Family.inet6 = .inet6 then _ else _) = _
    rw [if_neg (fun hand => absurd (hand.1.symm.trans (hipv6 rfl)) Bool.false_ne_true), hinit]

/-! Functions of the system that do without `::` and its like. -/

def hexText (n : Nat) : List UInt8 := (Nat.toDigits 16 n).map fun c => .ofNat c.toNat

def hexValue (l : List UInt8) : Nat :=
  l.foldl (fun value c => 16 * value + (if isDigit c then c.toNat - 48 else c.toNat - 87)) 0

def groups (sin6Addr : Vector UInt8 16) : List Nat :=
  (List.range 8).map fun i => 256 * (sin6Addr.toList.getD (2 * i) 0).toNat + (sin6Addr.toList.getD (2 * i + 1) 0).toNat

def plainPton6 (l : List UInt8) : Option (Vector UInt8 16) :=
  let bytes := ((l.splitOn 58).map hexValue).flatMap fun n => [UInt8.ofNat (n / 256), UInt8.ofNat n]
  if h : bytes.length = 16 then some ⟨bytes.toArray, h⟩ else none

def plainAddr4 (l : List UInt8) : Vector UInt8 4 :=
  let bytes := (l.splitOn 46).map fun part => UInt8.ofNat (strtoul part)
  if h : bytes.length = 4 then ⟨bytes.toArray, h⟩ else inaddrNone

def plainInet : Inet where
  ntop4 a := some ([46].intercalate (a.toList.map fun b => decimal b.toNat))
  ntop6 a := some ([58].intercalate ((groups a).map hexText))
  addr4 := plainAddr4
  pton6 := plainPton6
  getaddrinfo af l :=
    match af with
    | .inet => some [(.stream, .ipv4 (plainAddr4 l) 0)]
    | .inet6 => (plainPton6 l).map fun a => [(.stream, .ipv6 a 0)]

/-- `2001:db8:1:2:3:4:5:6`, port 5060 as it is stored. -/
def sample6 : Sockaddr := .ipv6 #v[0x20, 0x01, 0x0d, 0xb8, 0, 1, 0, 2, 0, 3, 0, 4, 0, 5, 0, 6] 0xc413

/-- `255.255.255.255`, port 5060. -/
def sample4 : Sockaddr := .ipv4 #v[255, 255, 255, 255] 0xc413

theorem hasText_sample6 : HasText plainInet sample6 :=
  ⟨ascii "2001:db8:1:2:3:4:5:6", by decide +kernel, by decide +kernel, by decide +kernel, by decide +kernel,
    by decide⟩

theorem hasText_sample4 : HasText plainInet sample4 := by
  refine ⟨ascii "255.255.255.255", by decide +kernel, by decide +kernel, by decide +kernel, by decide +kernel,
    by decide, fun _ => ⟨[(.stream, .ipv4 #v[255, 255, 255, 255] 0)], by decide, ?_, ?_⟩⟩
  · exact ⟨_, List.mem_singleton_self _, by decide, by decide⟩
  · intro item hmem a port heq
    rw [List.mem_singleton.mp hmem] at heq
    exact (Sockaddr.ipv4.inj heq).1.symm

theorem sockaddrParse_samples :
    sockaddrParse plainInet true none (sockaddrPrint plainInet sample6 54 3) = .ok sample6 ∧
      sockaddrParse plainInet false none (sockaddrPrint plainInet sample4 54 3) = .ok sample4 :=
  ⟨sockaddrParse_sockaddrPrint hasText_sample6 (fun _ => rfl) (Nat.le_refl _),
    sockaddrParse_sockaddrPrint hasText_sample4 (fun h => absurd h (by decide)) (Nat.le_refl _)⟩

/-- A build without `PJ_HAS_IPV6` prints the address and refuses to parse it. -/
theorem sockaddrParse_without_ipv6 :
    sockaddrPrint plainInet sample6 54 3 = ascii "[2001:db8:1:2:3:4:5:6]:5060" ∧
      sockaddrParse plainInet false none (sockaddrPrint plainInet sample6 54 3) = .error .eipv6notsup := by
  decide

end PjProject.Sock
