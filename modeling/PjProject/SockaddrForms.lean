import PjProject.SockaddrRoundTrip

/-! The forms of an address text (`pj_sockaddr_parse2` of `sock_common.c`). The function looks for the last colon and,
behind an opening bracket, for the first closing one; what stands between them is not looked at, and a port is compared
with its limit when its value has already wrapped. -/

namespace PjProject.Sock

def number (digits : List UInt8) : Nat := digits.foldl (fun value c => 10 * value + (c.toNat - 48)) 0

/-- The text is taken for an IPv6 address. -/
def IsIpv6 (af : Option Family) (str : List UInt8) : Prop := af = some .inet6 ∨ af = none ∧ 1 < str.count 58

inductive Documented (af : Option Family) (str host : List UInt8) (port : Nat) (family : Family) : Prop
  | empty (hstr : str = []) (hhost : host = []) (hport : port = 0) (hfamily : family = .inet)
  | host (haf : af ≠ some .inet6) (hstr : str = host) (hne : host ≠ []) (hcolon : 58 ∉ host) (hport : port = 0)
      (hfamily : family = .inet)
  | hostPort (digits : List UInt8) (haf : af ≠ some .inet6) (hstr : str = host ++ 58 :: digits) (hcolon : 58 ∉ host)
      (hdigits : digits.all isDigit = true) (hport : port = number digits) (hmax : port ≤ 65535)
      (hfamily : family = .inet)
  | ipv6 (hipv6 : IsIpv6 af str) (hstr : str = host) (hne : host ≠ []) (hbracket : host.head? ≠ some 91)
      (hport : port = 0) (hfamily : family = .inet6)
  | bracket (hipv6 : IsIpv6 af str) (hstr : str = 91 :: (host ++ [93])) (hbracket : 93 ∉ host) (hcolon : 58 ∈ host)
      (hport : port = 0) (hfamily : family = .inet6)
  | bracketPort (digits : List UInt8) (hipv6 : IsIpv6 af str) (hstr : str = 91 :: (host ++ 93 :: 58 :: digits))
      (hbracket : 93 ∉ host) (hdigits : digits.all isDigit = true) (hport : port = number digits) (hmax : port ≤ 65535)
      (hfamily : family = .inet6)

/-- Nothing but a port stands behind the bracket, and the value of a port does not wrap below the limit. -/
structure Exact (af : Option Family) (str : List UInt8) : Prop where
  hostPort : ∀ host digits, af ≠ some .inet6 → str = host ++ 58 :: digits → 58 ∉ host → digits.all isDigit = true →
    number digits ≤ 65535 ∨ 65535 < number digits % 0x100000000
  bracket : ∀ host rest, IsIpv6 af str → str = 91 :: (host ++ 93 :: rest) → 93 ∉ host → 58 ∈ host → 58 ∉ rest → rest = []
  bracketPort : ∀ host gap digits, IsIpv6 af str → str = 91 :: (host ++ 93 :: (gap ++ 58 :: digits)) → 93 ∉ host →
    digits.all isDigit = true → gap = [] ∧ number digits ≤ 65535 ∨ 65535 < number digits % 0x100000000

theorem parsePort_eq (digits : List UInt8) :
    parsePort digits =
      if digits.all isDigit = true ∧ number digits % 0x100000000 ≤ 65535 then some (number digits % 0x100000000)
      else none := by
  have hvalue : digits.all isDigit = true → strtoul digits = number digits % 0x100000000 := by
    intro hall
    rw [strtoul, takeWhile_of_all (List.all_eq_true.mp hall)]
    exact foldl_mod digits 0
  unfold parsePort
  by_cases hall : digits.all isDigit = true
  · rw [hvalue hall]
  · rw [if_neg fun h => hall h.1, if_neg fun h => hall h.1]

theorem notMem_of_digits {digits : List UInt8} (h : digits.all isDigit = true) {c : UInt8} (hc : isDigit c = false) :
    c ∉ digits := fun hmem => absurd (hc.symm.trans (List.all_eq_true.mp h c hmem)) Bool.false_ne_true

theorem parsePort_some {digits : List UInt8} {port : Nat} (h : parsePort digits = some port) :
    digits.all isDigit = true ∧ port = number digits % 0x100000000 ∧ port ≤ 65535 := by
  rw [parsePort_eq] at h
  split at h
  case isTrue hport => exact ⟨hport.1, (Option.some.inj h).symm, Option.some.inj h ▸ hport.2⟩
  case isFalse => cases h

theorem parsePort_of_le {digits : List UInt8} (hdigits : digits.all isDigit = true) (hmax : number digits ≤ 65535) :
    parsePort digits = some (number digits) := by
  have hmod : number digits % 0x100000000 = number digits := Nat.mod_eq_of_lt (by omega)
  rw [parsePort_eq, hmod, if_pos ⟨hdigits, hmax⟩]

theorem eq_append_last {l : List UInt8} {c : UInt8} (h : c ∈ l) : ∃ front rest, l = front ++ c :: rest ∧ c ∉ rest := by
  obtain ⟨rest, front, heq, hnot⟩ := List.eq_append_cons_of_mem (List.mem_reverse.mpr h)
  refine ⟨front.reverse, rest.reverse, ?_, fun hmem => hnot (List.mem_reverse.mp hmem)⟩
  rw [← List.reverse_reverse l, heq, List.reverse_append, List.reverse_cons, List.append_assoc]
  rfl

/-! What the function gives, form by form. -/

section Forms

variable {af : Option Family} {str host : List UInt8}

theorem family_inet (haf : af ≠ some .inet6) (hcount : str.count 58 ≤ 1) :
    af.getD (if 1 < str.count 58 then .inet6 else .inet) = Family.inet := by
  cases af with
  | none => exact if_neg (Nat.not_lt.mpr hcount)
  | some f =>
    cases f with
    | inet => rfl
    | inet6 => exact absurd rfl haf

theorem family_inet6 (h : IsIpv6 af str) : af.getD (if 1 < str.count 58 then .inet6 else .inet) = Family.inet6 := by
  rcases h with rfl | ⟨rfl, hcount⟩
  · rfl
  · exact if_pos hcount

theorem not_refused (h : IsIpv6 af str) : ¬(af = some .inet ∧ 1 < str.count 58) := by
  rintro ⟨rfl, -⟩
  rcases h with h | ⟨h, -⟩ <;> cases h

theorem sockaddrParse2_host (haf : af ≠ some .inet6) (hne : host ≠ []) (hcolon : 58 ∉ host) :
    sockaddrParse2 af host = .ok (host, 0, .inet) := by
  have hcount : host.count 58 = 0 := List.count_eq_zero.mpr hcolon
  rw [sockaddrParse2, if_neg hne]
  simp only [lastColonPos_of_notMem hcolon, family_inet haf (by omega : host.count 58 ≤ 1)]
  rw [if_neg (by omega)]

theorem sockaddrParse2_hostPort {digits : List UInt8} (haf : af ≠ some .inet6) (hcolon : 58 ∉ host) (hdigits : 58 ∉ digits) :
    sockaddrParse2 af (host ++ 58 :: digits) =
      match parsePort digits with
      | some port => .ok (host, port, .inet)
      | none => .error .einval := by
  have hcount : (host ++ 58 :: digits).count 58 = 1 := by
    rw [List.count_append, List.count_cons_self, List.count_eq_zero.mpr hcolon, List.count_eq_zero.mpr hdigits]
  have hlast : lastColonPos (host ++ 58 :: digits) 0 none = some host.length := by
    rw [lastColonPos_append host hdigits, Nat.zero_add]
  have hdrop : (host ++ 58 :: digits).drop (host.length + 1) = digits := by
    rw [← List.drop_drop, List.drop_left]
    rfl
  rw [sockaddrParse2, if_neg (by simp)]
  simp only [hlast, hdrop, family_inet haf hcount.le, List.take_left]
  have hrefused : ¬(af = some .inet ∧ 1 < (host ++ 58 :: digits).count 58) := fun h => by omega
  cases parsePort digits <;> exact if_neg hrefused

theorem sockaddrParse2_whole (h : IsIpv6 af str) (hne : str ≠ []) (hbracket : str.head? ≠ some 91) :
    sockaddrParse2 af str = .ok (str, 0, .inet6) := by
  rw [sockaddrParse2, if_neg hne]
  simp only [family_inet6 h]
  rw [if_neg (not_refused h), if_neg hbracket]

theorem idxOf?_bracket {rest : List UInt8} (hbracket : 93 ∉ host) :
    (91 :: (host ++ 93 :: rest)).idxOf? 93 = some (host.length + 1) := by
  have hfront : (93 : UInt8) ∉ 91 :: host := by simpa using hbracket
  exact idxOf?_append hfront rest

theorem take_bracket (rest : List UInt8) : ((91 :: (host ++ 93 :: rest)).take (host.length + 1)).drop 1 = host := by
  rw [List.take_succ_cons, List.take_left, List.drop_one, List.tail_cons]

theorem sockaddrParse2_bracket {rest : List UInt8} (h : IsIpv6 af (91 :: (host ++ 93 :: rest))) (hbracket : 93 ∉ host)
    (hcolon : 58 ∈ host) (hrest : 58 ∉ rest) : sockaddrParse2 af (91 :: (host ++ 93 :: rest)) = .ok (host, 0, .inet6) := by
  obtain ⟨front, back, rfl, hback⟩ := eq_append_last hcolon
  have hsplit : 91 :: (front ++ 58 :: back ++ 93 :: rest) = (91 :: front) ++ 58 :: (back ++ 93 :: rest) := by simp
  have hnot : (58 : UInt8) ∉ back ++ 93 :: rest := by simpa using ⟨hback, hrest⟩
  have hlast : lastColonPos (91 :: (front ++ 58 :: back ++ 93 :: rest)) 0 none = some (front.length + 1) := by
    rw [hsplit, lastColonPos_append _ hnot, Nat.zero_add, List.length_cons]
  have hbefore : front.length + 1 < (front ++ 58 :: back).length + 1 := by
    rw [List.length_append, List.length_cons]
    omega
  have hport : parsePort [] = some 0 := rfl
  rw [sockaddrParse2, if_neg (List.cons_ne_nil _ _)]
  simp only [family_inet6 h, hlast, idxOf?_bracket hbracket, if_pos hbefore, hport, take_bracket]
  rw [if_neg (not_refused h)]
  rfl

/-- Nor is text in front of the last colon. -/
theorem sockaddrParse2_bracketPort {gap digits : List UInt8} (h : IsIpv6 af (91 :: (host ++ 93 :: (gap ++ 58 :: digits))))
    (hbracket : 93 ∉ host) (hdigits : 58 ∉ digits) :
    sockaddrParse2 af (91 :: (host ++ 93 :: (gap ++ 58 :: digits))) =
      match parsePort digits with
      | some port => .ok (host, port, .inet6)
      | none => .error .einval := by
  have hsplit : 91 :: (host ++ 93 :: (gap ++ 58 :: digits)) = (91 :: (host ++ 93 :: gap)) ++ 58 :: digits := by simp
  have hlast : lastColonPos (91 :: (host ++ 93 :: (gap ++ 58 :: digits))) 0 none =
      some (91 :: (host ++ 93 :: gap)).length := by
    rw [hsplit, lastColonPos_append _ hdigits, Nat.zero_add]
  have hdrop : (91 :: (host ++ 93 :: (gap ++ 58 :: digits))).drop ((91 :: (host ++ 93 :: gap)).length + 1) = digits := by
    rw [hsplit, ← List.drop_drop, List.drop_left]
    rfl
  have hbehind : ¬(91 :: (host ++ 93 :: gap)).length < host.length + 1 := by
    rw [List.length_cons, List.length_append]
    omega
  rw [sockaddrParse2, if_neg (List.cons_ne_nil _ _)]
  simp only [family_inet6 h, hlast, idxOf?_bracket hbracket, if_neg hbehind, hdrop, take_bracket]
  cases parsePort digits <;> exact if_neg (not_refused h)

/-- Without a colon or without a closing bracket the text is refused. -/
theorem sockaddrParse2_refused {tail : List UInt8} (h : IsIpv6 af (91 :: tail)) (hmissing : 58 ∉ tail ∨ 93 ∉ tail) :
    sockaddrParse2 af (91 :: tail) = .error .einval := by
  rw [sockaddrParse2, if_neg (List.cons_ne_nil _ _)]
  simp only [family_inet6 h]
  rw [if_neg (not_refused h), if_pos (List.head?_cons ..)]
  rcases hmissing with hcolon | hbracket
  · have hnot : (58 : UInt8) ∉ 91 :: tail := by simpa using hcolon
    rw [lastColonPos_of_notMem hnot]
  · have hnot : (93 : UInt8) ∉ 91 :: tail := by simpa using hbracket
    rw [List.idxOf?_eq_none_iff.mpr hnot]
    cases lastColonPos (91 :: tail) 0 none <;> rfl

end Forms

/-! The documented forms. -/

theorem sockaddrParse2_of_documented {af : Option Family} {str host : List UInt8} {port : Nat} {family : Family}
    (h : Documented af str host port family) : sockaddrParse2 af str = .ok (host, port, family) := by
  have hcolon {digits : List UInt8} (hdigits : digits.all isDigit = true) : 58 ∉ digits := notMem_of_digits hdigits rfl
  cases h with
  | empty hstr hhost hport hfamily =>
    rw [hstr, hhost, hport, hfamily]
    rfl
  | host haf hstr hne hnocolon hport hfamily =>
    rw [hstr, hport, hfamily, sockaddrParse2_host haf hne hnocolon]
  | hostPort digits haf hstr hnocolon hdigits hport hmax hfamily =>
    rw [hstr, sockaddrParse2_hostPort haf hnocolon (hcolon hdigits), parsePort_of_le hdigits (hport ▸ hmax), hport, hfamily]
  | ipv6 hipv6 hstr hne hbracket hport hfamily =>
    rw [hport, hfamily, ← hstr]
    rw [← hstr] at hne hbracket
    exact sockaddrParse2_whole hipv6 hne hbracket
  | bracket hipv6 hstr hbracket hhas hport hfamily =>
    rw [hstr] at hipv6 ⊢
    rw [hport, hfamily]
    exact sockaddrParse2_bracket hipv6 hbracket hhas List.not_mem_nil
  | bracketPort digits hipv6 hstr hbracket hdigits hport hmax hfamily =>
    rw [hstr] at hipv6 ⊢
    have hparse := @sockaddrParse2_bracketPort af host [] digits hipv6 hbracket (hcolon hdigits)
    rw [parsePort_of_le hdigits (hport ▸ hmax)] at hparse
    rw [hport, hfamily]
    exact hparse

theorem documented_inet {af : Option Family} {str host : List UInt8} {port : Nat} {family : Family} (h : Exact af str)
    (hne : str ≠ []) (haf : af ≠ some .inet6) (hcount : str.count 58 ≤ 1)
    (hparse : sockaddrParse2 af str = .ok (host, port, family)) : Documented af str host port family := by
  by_cases hcolon : 58 ∈ str
  · obtain ⟨front, digits, rfl, hfront⟩ := List.eq_append_cons_of_mem hcolon
    have hdigits : 58 ∉ digits := by
      rw [List.count_append, List.count_cons_self] at hcount
      exact List.count_eq_zero.mp (by omega)
    rw [sockaddrParse2_hostPort haf hfront hdigits] at hparse
    cases hport : parsePort digits with
    | none =>
      rw [hport] at hparse
      cases hparse
    | some value =>
      rw [hport] at hparse
      cases hparse
      obtain ⟨hall, hvalue, hmax⟩ := parsePort_some hport
      have hnumber : port = number digits := by
        rcases h.hostPort host digits haf rfl hfront hall with hle | hlarge
        · rw [hvalue]
          exact Nat.mod_eq_of_lt (by omega)
        · omega
      exact .hostPort digits haf rfl hfront hall hnumber hmax rfl
  · rw [sockaddrParse2_host haf hne hcolon] at hparse
    cases hparse
    exact .host haf rfl hne hcolon rfl rfl

theorem documented_inet6 {af : Option Family} {str host : List UInt8} {port : Nat} {family : Family} (h : Exact af str)
    (hne : str ≠ []) (hipv6 : IsIpv6 af str) (hparse : sockaddrParse2 af str = .ok (host, port, family)) :
    Documented af str host port family := by
  by_cases hhead : str.head? = some 91
  · obtain ⟨tail, rfl⟩ := List.head?_eq_some_iff.mp hhead
    by_cases hmissing : 58 ∉ tail ∨ 93 ∉ tail
    · rw [sockaddrParse2_refused hipv6 hmissing] at hparse
      cases hparse
    rw [not_or, not_not, not_not] at hmissing
    obtain ⟨hcolon, hclose⟩ := hmissing
    obtain ⟨text, rest, rfl, hbracket⟩ := List.eq_append_cons_of_mem hclose
    by_cases hrest : 58 ∈ rest
    · obtain ⟨gap, digits, rfl, hdigits⟩ := eq_append_last hrest
      rw [sockaddrParse2_bracketPort hipv6 hbracket hdigits] at hparse
      cases hport : parsePort digits with
      | none =>
        rw [hport] at hparse
        cases hparse
      | some value =>
        rw [hport] at hparse
        cases hparse
        obtain ⟨hall, hvalue, hmax⟩ := parsePort_some hport
        rcases h.bracketPort host gap digits hipv6 rfl hbracket hall with ⟨rfl, hle⟩ | hlarge
        · have hnumber : port = number digits := by
            rw [hvalue]
            exact Nat.mod_eq_of_lt (by omega)
          exact .bracketPort digits hipv6 rfl hbracket hall hnumber hmax rfl
        · omega
    · have hinside : 58 ∈ text := by
        rcases List.mem_append.mp hcolon with hmem | hmem
        · exact hmem
        · rcases List.mem_cons.mp hmem with heq | hmem
          · exact absurd heq (by decide)
          · exact absurd hmem hrest
      rw [sockaddrParse2_bracket hipv6 hbracket hinside hrest] at hparse
      cases hparse
      obtain rfl := h.bracket host rest hipv6 rfl hbracket hinside hrest
      exact .bracket hipv6 rfl hbracket hinside rfl rfl
  · rw [sockaddrParse2_whole hipv6 hne hhead] at hparse
    cases hparse
    exact .ipv6 hipv6 rfl hne hhead rfl rfl

theorem documented_of_exact {af : Option Family} {str host : List UInt8} {port : Nat} {family : Family} (h : Exact af str)
    (hparse : sockaddrParse2 af str = .ok (host, port, family)) : Documented af str host port family := by
  by_cases hempty : str = []
  · rw [sockaddrParse2, if_pos hempty] at hparse
    cases hparse
    exact .empty hempty rfl rfl rfl
  by_cases hipv6 : IsIpv6 af str
  · exact documented_inet6 h hempty hipv6 hparse
  have haf : af ≠ some .inet6 := fun haf => hipv6 (.inl haf)
  by_cases hcount : str.count 58 ≤ 1
  · exact documented_inet h hempty haf hcount hparse
  · have hinet : af = some .inet := by
      cases af with
      | none => exact absurd (.inr ⟨rfl, not_le.mp hcount⟩) hipv6
      | some f =>
        cases f with
        | inet => rfl
        | inet6 => exact absurd rfl haf
    rw [sockaddrParse2, if_neg hempty] at hparse
    simp only [hinet, not_le.mp hcount, true_and, if_true] at hparse
    cases hparse

/-! The other direction. Each clause is read off a text of its form that is accepted. -/

section Converse

variable {af : Option Family} {str : List UInt8}

/-- The text of an accepted address has one of the forms. -/
def Correct (af : Option Family) (str : List UInt8) : Prop :=
  ∀ host port family, sockaddrParse2 af str = .ok (host, port, family) → Documented af str host port family

theorem number_of_hostPort {host digits : List UInt8} {port : Nat}
    (h : Documented af (host ++ 58 :: digits) host port .inet) : port = number digits ∧ port ≤ 65535 := by
  cases h with
  | empty hstr hhost hport hfamily => exact absurd hstr (by simp)
  | host haf hstr hne hcolon hport hfamily => exact absurd (List.self_eq_append_right.mp hstr.symm) (List.cons_ne_nil _ _)
  | hostPort digits haf hstr hcolon hdigits hport hmax hfamily =>
    obtain rfl := (List.cons.inj (List.append_cancel_left hstr)).2
    exact ⟨hport, hmax⟩
  | ipv6 hipv6 hstr hne hbracket hport hfamily => cases hfamily
  | bracket hipv6 hstr hbracket hcolon hport hfamily => cases hfamily
  | bracketPort digits hipv6 hstr hbracket hdigits hport hmax hfamily => cases hfamily

theorem rest_of_bracket {host rest : List UInt8} {port : Nat}
    (h : Documented af (91 :: (host ++ 93 :: rest)) host port .inet6) :
    rest = [] ∨ ∃ digits, rest = 58 :: digits ∧ digits.all isDigit = true ∧ port = number digits ∧ port ≤ 65535 := by
  cases h with
  | empty hstr hhost hport hfamily => cases hfamily
  | host haf hstr hne hcolon hport hfamily => cases hfamily
  | hostPort digits haf hstr hcolon hdigits hport hmax hfamily => cases hfamily
  | ipv6 hipv6 hstr hne hbracket hport hfamily =>
    have hlength := congrArg List.length hstr
    rw [List.length_cons, List.length_append] at hlength
    omega
  | bracket hipv6 hstr hbracket hcolon hport hfamily =>
    exact .inl (List.cons.inj (List.append_cancel_left (List.cons.inj hstr).2)).2
  | bracketPort digits hipv6 hstr hbracket hdigits hport hmax hfamily =>
    exact .inr ⟨digits, (List.cons.inj (List.append_cancel_left (List.cons.inj hstr).2)).2, hdigits, hport, hmax⟩

theorem exact_of_documented (h : Correct af str) : Exact af str where
  hostPort host digits haf hstr hcolon hdigits := by
    by_cases hmax : number digits % 0x100000000 ≤ 65535
    · have hparse : sockaddrParse2 af str = .ok (host, number digits % 0x100000000, .inet) := by
        rw [hstr, sockaddrParse2_hostPort haf hcolon (notMem_of_digits hdigits rfl), parsePort_eq, if_pos ⟨hdigits, hmax⟩]
      have hdoc := h _ _ _ hparse
      rw [hstr] at hdoc
      obtain ⟨hport, hle⟩ := number_of_hostPort hdoc
      exact .inl (hport ▸ hle)
    · exact .inr (not_le.mp hmax)
  bracket host rest hipv6 hstr hbracket hcolon hrest := by
    have hparse : sockaddrParse2 af str = .ok (host, 0, .inet6) := by
      rw [hstr] at hipv6 ⊢
      exact sockaddrParse2_bracket hipv6 hbracket hcolon hrest
    have hdoc := h _ _ _ hparse
    rw [hstr] at hdoc
    rcases rest_of_bracket hdoc with hnil | ⟨digits, rfl, -⟩
    · exact hnil
    · exact absurd List.mem_cons_self hrest
  bracketPort host gap digits hipv6 hstr hbracket hdigits := by
    by_cases hmax : number digits % 0x100000000 ≤ 65535
    · have hnot : 58 ∉ digits := notMem_of_digits hdigits rfl
      have hparse : sockaddrParse2 af str = .ok (host, number digits % 0x100000000, .inet6) := by
        rw [hstr] at hipv6 ⊢
        rw [sockaddrParse2_bracketPort hipv6 hbracket hnot, parsePort_eq, if_pos ⟨hdigits, hmax⟩]
      have hdoc := h _ _ _ hparse
      rw [hstr] at hdoc
      rcases rest_of_bracket hdoc with hnil | ⟨tail, htail, htaildigits, hport, hle⟩
      · exact absurd hnil (by simp)
      · -- a colon in front of the last one would stand among the digits
        cases gap with
        | nil =>
          obtain rfl := (List.cons.inj htail).2
          exact .inl ⟨rfl, hport ▸ hle⟩
        | cons c gap =>
          obtain rfl := (List.cons.inj htail).2
          exact absurd (by simp) (notMem_of_digits htaildigits rfl : 58 ∉ gap ++ 58 :: digits)
    · exact .inr (not_le.mp hmax)

end Converse

/-- The function accepts every documented form with its parts, and nothing else exactly for the texts where nothing but a
port stands behind the bracket and the value of the port does not wrap below the limit. -/
theorem sockaddrParse2_documented_iff (af : Option Family) (str : List UInt8) :
    ((∀ host port family, sockaddrParse2 af str = .ok (host, port, family) ↔ Documented af str host port family) ↔
      Exact af str) :=
  ⟨fun h => exact_of_documented fun host port family => (h host port family).mp,
    fun h _ _ _ => ⟨documented_of_exact h, sockaddrParse2_of_documented⟩⟩

/-- `[::1]x:80` and `h:4294967376` both give port 80, and `[::1]x` is taken for `::1`. -/
theorem sockaddrParse2_undocumented :
    (sockaddrParse2 none (ascii "[::1]x:80") = .ok (ascii "::1", 80, .inet6) ∧
      ¬Documented none (ascii "[::1]x:80") (ascii "::1") 80 .inet6) ∧
    (sockaddrParse2 none (ascii "[::1]x") = .ok (ascii "::1", 0, .inet6) ∧
      ¬Documented none (ascii "[::1]x") (ascii "::1") 0 .inet6) ∧
    (sockaddrParse2 none (ascii "h:4294967376") = .ok (ascii "h", 80, .inet) ∧
      ¬Documented none (ascii "h:4294967376") (ascii "h") 80 .inet) := by
  refine ⟨⟨by decide +kernel, fun h => ?_⟩, ⟨by decide +kernel, fun h => ?_⟩, ⟨by decide +kernel, fun h => ?_⟩⟩
  · rcases @rest_of_bracket none (ascii "::1") (ascii "x:80") 80 h with hnil | ⟨digits, hcolon, -⟩
    · exact absurd hnil (by decide)
    · exact absurd (List.cons.inj hcolon).1 (by decide)
  · rcases @rest_of_bracket none (ascii "::1") (ascii "x") 0 h with hnil | ⟨digits, hcolon, -⟩
    · exact absurd hnil (by decide)
    · exact absurd (List.cons.inj hcolon).1 (by decide)
  · have hnumber := @number_of_hostPort none (ascii "h") (ascii "4294967376") 80 h
    exact absurd hnumber.1 (by decide)

end PjProject.Sock
