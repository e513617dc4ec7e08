import PjProject.Xml

/-! Comparison of SIP and SIPS URIs (`sip_uri.c`). Names and values of parameters are compared without case, and up to a NUL
byte; a parameter of one URI is looked up in the list of the other. -/

namespace PjProject.SipUriCmp

open Xml (stricmp)

abbrev Str := List UInt8

/-- `pj_memcmp`. -/
def memcmp : Nat → Str → Str → Int
  | 0, _, _ => 0
  | n + 1, a, b =>
    if a.headD 0 ≠ b.headD 0 then ((a.headD 0).toNat : Int) - (b.headD 0).toNat else memcmp n a.tail b.tail

/-- `pj_strcmp`. -/
def strcmp (str1 str2 : Str) : Int :=
  if str1 = [] then if str2 = [] then 0 else -1
  else if str2 = [] then 1
  else
    let res := memcmp (min str1.length str2.length) str1 str2
    if res = 0 then
      if str1.length < str2.length then -1 else if str1.length = str2.length then 0 else 1
    else res

/-- `pjsip_param`. -/
structure Param where
  name : Str
  value : Str
  deriving DecidableEq

/-- `pjsip_sip_uri`; `secure` is its `vptr`. -/
structure SipUri where
  secure : Bool
  user : Str
  passwd : Str
  host : Str
  port : Int
  userParam : Str
  methodParam : Str
  transportParam : Str
  ttlParam : Int
  maddrParam : Str
  otherParam : List Param
  headerParam : List Param
  deriving DecidableEq

/-- `pjsip_uri_context_e`. -/
inductive Context
  | inReqUri
  | inFromToHdr
  | inContactHdr
  | inRoutingHdr
  | inOther
  deriving DecidableEq

inductive Status
  | success
  | ecmpScheme
  | ecmpUser
  | ecmpPasswd
  | ecmpHost
  | ecmpPort
  | ecmpTransportPrm
  | ecmpTtlParam
  | ecmpUserParam
  | ecmpMethodParam
  | ecmpMaddrParam
  | ecmpOtherParam
  | ecmpHeaderParam
  deriving DecidableEq

/-- `pjsip_param_find`. -/
def paramFind (paramList : List Param) (name : Str) : Option Param :=
  paramList.find? fun p => stricmp p.name name = 0

/-- The loop of `pjsip_param_cmp`; `strict` is `(ig_nf & 1) == 0`. -/
def paramCmpLoop (strict : Bool) (paramList2 : List Param) : List Param → Int
  | [] => 0
  | p1 :: more =>
    match paramFind paramList2 p1.name with
    | some p2 =>
      if stricmp p1.value p2.value ≠ 0 then stricmp p1.value p2.value else paramCmpLoop strict paramList2 more
    | none => if strict then 1 else paramCmpLoop strict paramList2 more

/-- `pjsip_param_cmp`. -/
def paramCmp (paramList1 paramList2 : List Param) (igNf : Nat) : Int :=
  let strict := igNf &&& 1 = 0
  if strict ∧ paramList1.length ≠ paramList2.length then 1 else paramCmpLoop strict paramList2 paramList1

/-- The loop of `pjsip_url_compare` over the header components. -/
def headerCmp (headerParam2 : List Param) : List Param → Status
  | [] => .success
  | p1 :: more =>
    match paramFind headerParam2 p1.name with
    | some p2 => if stricmp p1.value p2.value ≠ 0 then .ecmpHeaderParam else headerCmp headerParam2 more
    | none => .ecmpHeaderParam

/-- `pjsip_url_compare`. -/
def urlCompare (context : Context) (url1 url2 : SipUri) : Status :=
  if url1.secure ≠ url2.secure then .ecmpScheme
  else if strcmp url1.user url2.user ≠ 0 then .ecmpUser
  else if strcmp url1.passwd url2.passwd ≠ 0 then .ecmpPasswd
  else if stricmp url1.host url2.host ≠ 0 then .ecmpHost
  else if context ≠ .inFromToHdr ∧ url1.port ≠ url2.port then .ecmpPort
  else if context ≠ .inFromToHdr ∧ stricmp url1.transportParam url2.transportParam ≠ 0 then .ecmpTransportPrm
  else if context ≠ .inFromToHdr ∧ context ≠ .inRoutingHdr ∧ url1.ttlParam ≠ url2.ttlParam then .ecmpTtlParam
  else if stricmp url1.userParam url2.userParam ≠ 0 then .ecmpUserParam
  else if context = .inOther ∧ stricmp url1.methodParam url2.methodParam ≠ 0 then .ecmpMethodParam
  else if context ≠ .inFromToHdr ∧ stricmp url1.maddrParam url2.maddrParam ≠ 0 then .ecmpMaddrParam
  else if paramCmp url1.otherParam url2.otherParam 1 ≠ 0 then .ecmpOtherParam
  else headerCmp url2.headerParam url1.headerParam

/-! What `pj_stricmp` and `pj_strcmp` compare. -/

/-- Two strings with the same length and the same text in lower case up to a NUL are equal for `pj_stricmp`. -/
def folded (str : Str) : Nat × Str := (str.length, (str.map toLower).takeWhile (· ≠ 0))

theorem compareN_eq_zero_iff_folded {n : Nat} {a b : Str} (ha : a.length = n) (hb : b.length = n) :
    Scan.Scanner.compareN toLower n a b = 0 ↔
      (a.map toLower).takeWhile (· ≠ 0) = (b.map toLower).takeWhile (· ≠ 0) := by
  induction n generalizing a b with
  | zero =>
    rw [List.length_eq_zero_iff.mp ha, List.length_eq_zero_iff.mp hb]
    exact iff_of_true rfl rfl
  | succ n ih =>
    obtain ⟨x, a, rfl⟩ := List.exists_cons_of_length_eq_add_one ha
    obtain ⟨y, b, rfl⟩ := List.exists_cons_of_length_eq_add_one hb
    have hmore := ih (Nat.succ.inj ha) (Nat.succ.inj hb)
    by_cases heq : toLower x = toLower y
    · by_cases hzero : toLower y = 0
      · simp [Scan.Scanner.compareN, heq, hzero]
      · simpa [Scan.Scanner.compareN, heq, hzero] using hmore
    · have hsub : ((toLower x).toNat : Int) - (toLower y).toNat ≠ 0 := fun hsub =>
        heq (UInt8.toNat_inj.mp (by omega))
      refine iff_of_false (by simpa [Scan.Scanner.compareN, heq] using hsub) fun htake => heq ?_
      by_cases hx : toLower x = 0 <;> by_cases hy : toLower y = 0 <;> simp_all

theorem stricmp_eq_zero_iff {a b : Str} : stricmp a b = 0 ↔ folded a = folded b := by
  unfold stricmp folded
  by_cases ha : a = []
  · subst ha
    cases b <;> simp
  · by_cases hb : b = []
    · subst hb
      simp [ha]
    · rw [if_neg ha, if_neg hb, Prod.mk.injEq]
      by_cases hlen : a.length = b.length
      · rw [hlen, Nat.min_self, ← compareN_eq_zero_iff_folded hlen rfl]
        simp
      · refine iff_of_false ?_ fun h => hlen h.1
        dsimp only
        split_ifs <;> simp_all

theorem equal_comm (a b : Str) : stricmp a b = 0 ↔ stricmp b a = 0 := by
  rw [stricmp_eq_zero_iff, stricmp_eq_zero_iff, eq_comm]

theorem memcmp_eq_zero_iff {n : Nat} {a b : Str} (ha : a.length = n) (hb : b.length = n) : memcmp n a b = 0 ↔ a = b := by
  induction n generalizing a b with
  | zero => simp [memcmp, List.length_eq_zero_iff.mp ha, List.length_eq_zero_iff.mp hb]
  | succ n ih =>
    obtain ⟨x, a, rfl⟩ := List.exists_cons_of_length_eq_add_one ha
    obtain ⟨y, b, rfl⟩ := List.exists_cons_of_length_eq_add_one hb
    by_cases heq : x = y
    · simpa [memcmp, heq] using ih (Nat.succ.inj ha) (Nat.succ.inj hb)
    · have hsub : ((x.toNat : Nat) : Int) - y.toNat ≠ 0 := fun hsub => heq (UInt8.toNat_inj.mp (by omega))
      exact iff_of_false (by simpa [memcmp, heq] using hsub) fun h => heq (List.cons.inj h).1

theorem strcmp_eq_zero_iff {a b : Str} : strcmp a b = 0 ↔ a = b := by
  unfold strcmp
  by_cases ha : a = []
  · subst ha
    cases b <;> simp
  · by_cases hb : b = []
    · subst hb
      simp [ha]
    · rw [if_neg ha, if_neg hb]
      by_cases hlen : a.length = b.length
      · rw [hlen, Nat.min_self, ← memcmp_eq_zero_iff hlen rfl]
        simp
      · refine iff_of_false ?_ fun h => hlen (congrArg List.length h)
        dsimp only
        split_ifs <;> simp_all

/-! Lists of parameters. -/

/-- Parameters with the same name have the same value. -/
def CommonMatch (l1 l2 : List Param) : Prop :=
  ∀ p1 ∈ l1, ∀ p2 ∈ l2, stricmp p1.name p2.name = 0 → stricmp p1.value p2.value = 0

/-- A name that is repeated has the same value every time. -/
def Consistent (l : List Param) : Prop := CommonMatch l l

def NamesIn (l1 l2 : List Param) : Prop := ∀ p1 ∈ l1, ∃ p2 ∈ l2, stricmp p1.name p2.name = 0

instance (l1 l2 : List Param) : Decidable (CommonMatch l1 l2) :=
  inferInstanceAs (Decidable (∀ p1 ∈ l1, ∀ p2 ∈ l2, stricmp p1.name p2.name = 0 → stricmp p1.value p2.value = 0))

instance (l1 l2 : List Param) : Decidable (NamesIn l1 l2) :=
  inferInstanceAs (Decidable (∀ p1 ∈ l1, ∃ p2 ∈ l2, stricmp p1.name p2.name = 0))

theorem commonMatch_symm {l1 l2 : List Param} (h : CommonMatch l1 l2) : CommonMatch l2 l1 := by
  intro p hp q hq hname
  exact (equal_comm _ _).mp (h q hq p hp ((equal_comm _ _).mp hname))

theorem value_of_paramFind {l : List Param} (hl : Consistent l) {name : Str} {p q : Param}
    (hfind : paramFind l name = some p) (hq : q ∈ l) (hname : stricmp q.name name = 0) :
    folded q.value = folded p.value := by
  have hp : stricmp p.name name = 0 := by simpa using List.find?_some hfind
  refine stricmp_eq_zero_iff.mp (hl q hq p (List.mem_of_find?_eq_some hfind) (stricmp_eq_zero_iff.mpr ?_))
  exact (stricmp_eq_zero_iff.mp hname).trans (stricmp_eq_zero_iff.mp hp).symm

/-- The value of `p1` is the one that is found under its name. -/
def ValueFound (l2 : List Param) (p1 : Param) : Prop :=
  ∀ p2, paramFind l2 p1.name = some p2 → stricmp p1.value p2.value = 0

theorem paramCmpLoop_eq_zero_iff (l1 l2 : List Param) :
    paramCmpLoop false l2 l1 = 0 ↔ ∀ p1 ∈ l1, ValueFound l2 p1 := by
  induction l1 with
  | nil => exact iff_of_true rfl (by simp)
  | cons p1 more ih =>
    rw [paramCmpLoop, List.forall_mem_cons, ← ih]
    cases hfind : paramFind l2 p1.name with
    | none => simp [ValueFound, hfind]
    | some p2 => by_cases hvalue : stricmp p1.value p2.value = 0 <;> simp [ValueFound, hfind, hvalue]

theorem headerCmp_eq_success_iff (l1 l2 : List Param) :
    headerCmp l2 l1 = .success ↔ NamesIn l1 l2 ∧ ∀ p1 ∈ l1, ValueFound l2 p1 := by
  induction l1 with
  | nil => exact iff_of_true rfl ⟨by simp [NamesIn], by simp⟩
  | cons p1 more ih =>
    have hnames : NamesIn (p1 :: more) l2 ↔ (paramFind l2 p1.name).isSome ∧ NamesIn more l2 := by
      simp [NamesIn, paramFind, equal_comm p1.name]
    rw [headerCmp, List.forall_mem_cons, hnames]
    cases hfind : paramFind l2 p1.name with
    | none => simp
    | some p2 => by_cases hvalue : stricmp p1.value p2.value = 0 <;> simp [ValueFound, hfind, hvalue, ih]

/-- In a list without different values for a name, every value with the name may be taken. -/
theorem valuesFound_iff (l1 : List Param) {l2 : List Param} (hl2 : Consistent l2) :
    (∀ p1 ∈ l1, ValueFound l2 p1) ↔ CommonMatch l1 l2 := by
  constructor
  · intro h p hp q hq hname
    have hsome : (paramFind l2 p.name).isSome :=
      List.find?_isSome.mpr ⟨q, hq, by simpa using (equal_comm _ _).mp hname⟩
    obtain ⟨r, hfind⟩ := Option.isSome_iff_exists.mp hsome
    have hq' := value_of_paramFind hl2 hfind hq ((equal_comm _ _).mp hname)
    exact stricmp_eq_zero_iff.mpr ((stricmp_eq_zero_iff.mp (h p hp r hfind)).trans hq'.symm)
  · intro h p hp q hfind
    have hname : stricmp q.name p.name = 0 := by simpa using List.find?_some hfind
    exact h p hp q (List.mem_of_find?_eq_some hfind) ((equal_comm _ _).mp hname)

theorem valuesFound_self_iff (l : List Param) : (∀ p ∈ l, ValueFound l p) ↔ Consistent l := by
  refine ⟨fun h p hp q hq hname => ?_, fun h => (valuesFound_iff l h).mpr h⟩
  have hnames : folded p.name = folded q.name := stricmp_eq_zero_iff.mp hname
  have hsame : paramFind l q.name = paramFind l p.name := by
    simp only [paramFind, stricmp_eq_zero_iff, hnames]
  obtain ⟨r, hfind⟩ := Option.isSome_iff_exists.mp
    (show (paramFind l p.name).isSome from List.find?_isSome.mpr ⟨p, hp, by simp [stricmp_eq_zero_iff]⟩)
  have hp' := stricmp_eq_zero_iff.mp (h p hp r hfind)
  have hq' := stricmp_eq_zero_iff.mp (h q hq r (hsame.trans hfind))
  exact stricmp_eq_zero_iff.mpr (hp'.trans hq'.symm)

theorem namesIn_self (l : List Param) : NamesIn l l := fun p hp => ⟨p, hp, stricmp_eq_zero_iff.mpr rfl⟩

/-! The URIs. -/

/-- The components that are compared by themselves are equal. -/
structure SameParts (context : Context) (url1 url2 : SipUri) : Prop where
  secure : url1.secure = url2.secure
  user : url1.user = url2.user
  passwd : url1.passwd = url2.passwd
  host : folded url1.host = folded url2.host
  port : context ≠ .inFromToHdr → url1.port = url2.port
  transport : context ≠ .inFromToHdr → folded url1.transportParam = folded url2.transportParam
  ttl : context ≠ .inFromToHdr → context ≠ .inRoutingHdr → url1.ttlParam = url2.ttlParam
  userParam : folded url1.userParam = folded url2.userParam
  method : context = .inOther → folded url1.methodParam = folded url2.methodParam
  maddr : context ≠ .inFromToHdr → folded url1.maddrParam = folded url2.maddrParam

theorem SameParts.refl (context : Context) (url : SipUri) : SameParts context url url :=
  ⟨rfl, rfl, rfl, rfl, fun _ => rfl, fun _ => rfl, fun _ _ => rfl, rfl, fun _ => rfl, fun _ => rfl⟩

theorem SameParts.symm {context : Context} {url1 url2 : SipUri} (h : SameParts context url1 url2) :
    SameParts context url2 url1 :=
  ⟨h.secure.symm, h.user.symm, h.passwd.symm, h.host.symm, fun hc => (h.port hc).symm, fun hc => (h.transport hc).symm,
    fun hc hr => (h.ttl hc hr).symm, h.userParam.symm, fun hc => (h.method hc).symm, fun hc => (h.maddr hc).symm⟩

theorem ite_eq_success_iff {c : Prop} [Decidable c] {e x : Status} (he : e ≠ .success) :
    (if c then e else x) = .success ↔ ¬ c ∧ x = .success := by
  split <;> simp_all

theorem urlCompare_eq_success_iff (context : Context) (url1 url2 : SipUri) :
    urlCompare context url1 url2 = .success ↔ SameParts context url1 url2 ∧
      (∀ p1 ∈ url1.otherParam, ValueFound url2.otherParam p1) ∧
      NamesIn url1.headerParam url2.headerParam ∧ ∀ p1 ∈ url1.headerParam, ValueFound url2.headerParam p1 := by
  have hother : paramCmp url1.otherParam url2.otherParam 1 = paramCmpLoop false url2.otherParam url1.otherParam := by
    simp [paramCmp]
  unfold urlCompare
  simp only [ite_eq_success_iff (show Status.ecmpScheme ≠ .success by decide),
    ite_eq_success_iff (show Status.ecmpUser ≠ .success by decide),
    ite_eq_success_iff (show Status.ecmpPasswd ≠ .success by decide),
    ite_eq_success_iff (show Status.ecmpHost ≠ .success by decide),
    ite_eq_success_iff (show Status.ecmpPort ≠ .success by decide),
    ite_eq_success_iff (show Status.ecmpTransportPrm ≠ .success by decide),
    ite_eq_success_iff (show Status.ecmpTtlParam ≠ .success by decide),
    ite_eq_success_iff (show Status.ecmpUserParam ≠ .success by decide),
    ite_eq_success_iff (show Status.ecmpMethodParam ≠ .success by decide),
    ite_eq_success_iff (show Status.ecmpMaddrParam ≠ .success by decide),
    ite_eq_success_iff (show Status.ecmpOtherParam ≠ .success by decide),
    headerCmp_eq_success_iff, hother, ne_eq, not_and, not_not, paramCmpLoop_eq_zero_iff, stricmp_eq_zero_iff,
    strcmp_eq_zero_iff]
  constructor
  · rintro ⟨hsecure, huser, hpasswd, hhost, hport, htransport, httl, huserParam, hmethod, hmaddr, hmore⟩
    exact ⟨⟨hsecure, huser, hpasswd, hhost, hport, htransport, httl, huserParam, hmethod, hmaddr⟩, hmore⟩
  · rintro ⟨⟨hsecure, huser, hpasswd, hhost, hport, htransport, httl, huserParam, hmethod, hmaddr⟩, hmore⟩
    exact ⟨hsecure, huser, hpasswd, hhost, hport, htransport, httl, huserParam, hmethod, hmaddr, hmore⟩

/-- No parameter and no header component is repeated with another value. -/
def SipUri.Plain (url : SipUri) : Prop := Consistent url.otherParam ∧ Consistent url.headerParam

/-- Everything that both have is the same. -/
def Agrees (context : Context) (url1 url2 : SipUri) : Prop :=
  SameParts context url1 url2 ∧ CommonMatch url1.otherParam url2.otherParam ∧
    CommonMatch url1.headerParam url2.headerParam

theorem urlCompare_self_iff (context : Context) (url : SipUri) : urlCompare context url url = .success ↔ url.Plain := by
  rw [urlCompare_eq_success_iff, valuesFound_self_iff, valuesFound_self_iff]
  exact ⟨fun h => ⟨h.2.1, h.2.2.2⟩, fun h => ⟨SameParts.refl context url, h.1, namesIn_self _, h.2⟩⟩

theorem urlCompare_plain_iff (context : Context) (url1 : SipUri) {url2 : SipUri} (h2 : url2.Plain) :
    urlCompare context url1 url2 = .success ↔
      Agrees context url1 url2 ∧ NamesIn url1.headerParam url2.headerParam := by
  rw [urlCompare_eq_success_iff, valuesFound_iff _ h2.1, valuesFound_iff _ h2.2]
  exact ⟨fun ⟨hparts, hother, hnames, hvalues⟩ => ⟨⟨hparts, hother, hvalues⟩, hnames⟩,
    fun ⟨⟨hparts, hother, hvalues⟩, hnames⟩ => ⟨hparts, hother, hnames, hvalues⟩⟩

theorem agrees_comm {context : Context} {url1 url2 : SipUri} (h : Agrees context url1 url2) : Agrees context url2 url1 :=
  ⟨h.1.symm, commonMatch_symm h.2.1, commonMatch_symm h.2.2⟩

/-- Comparison is reflexive at two URIs and symmetric between them exactly when both are plain and, if all that both have is
the same, neither or each of them has a header component that the other one lacks. -/
theorem urlCompare_refl_symm_iff (context : Context) (url1 url2 : SipUri) :
    (urlCompare context url1 url1 = .success ∧ urlCompare context url2 url2 = .success ∧
        (urlCompare context url1 url2 = .success ↔ urlCompare context url2 url1 = .success)) ↔
      url1.Plain ∧ url2.Plain ∧ (Agrees context url1 url2 →
        (NamesIn url1.headerParam url2.headerParam ↔ NamesIn url2.headerParam url1.headerParam)) := by
  rw [urlCompare_self_iff, urlCompare_self_iff]
  refine and_congr_right fun h1 => and_congr_right fun h2 => ?_
  rw [urlCompare_plain_iff context url1 h2, urlCompare_plain_iff context url2 h1]
  constructor
  · intro h hagrees
    exact ⟨fun hnames => (h.mp ⟨hagrees, hnames⟩).2, fun hnames => (h.mpr ⟨agrees_comm hagrees, hnames⟩).2⟩
  · intro h
    exact ⟨fun ⟨hagrees, hnames⟩ => ⟨agrees_comm hagrees, (h hagrees).mp hnames⟩,
      fun ⟨hagrees, hnames⟩ => ⟨agrees_comm hagrees, (h (agrees_comm hagrees)).mpr hnames⟩⟩

/-- `sip:h` with these header components. -/
def withHeaders (headerParam : List Param) : SipUri :=
  { secure := false, user := [], passwd := [], host := [104], port := 0, userParam := [], methodParam := []
    transportParam := [], ttlParam := -1, maddrParam := [], otherParam := [], headerParam }

/-- `sip:h` equals `sip:h?a=1` but not the other way round, and `sip:h?a=1&a=2` is not equal to itself. -/
theorem headers_break_equality :
    urlCompare .inOther (withHeaders []) (withHeaders [⟨[97], [49]⟩]) = .success ∧
      urlCompare .inOther (withHeaders [⟨[97], [49]⟩]) (withHeaders []) = .ecmpHeaderParam ∧
      urlCompare .inOther (withHeaders [⟨[97], [49]⟩, ⟨[97], [50]⟩]) (withHeaders [⟨[97], [49]⟩, ⟨[97], [50]⟩]) =
        .ecmpHeaderParam := by
  decide

end PjProject.SipUriCmp
