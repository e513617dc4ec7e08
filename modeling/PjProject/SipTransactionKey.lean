import PjProject.NumbersRoundTrip
import PjProject.ScanInput
import PjProject.SipUri

/-! The keys of SIP transactions (`sip_transaction.c`), for messages with the field contents that the parser lets through. The
fields are joined with `$`. A method, a From tag and an RFC 3261 branch show where they end; a Call-ID, which may have any
character of its line, and a host in brackets do not, and a method may look like a CSeq number. -/

namespace PjProject.TsxKey

open Numbers (utoa written lowDigits digitChar)
open Scan (Scanner)
open Scan.Input (peek getQuotes)
open SipUriCmp (Str strcmp strcmp_eq_zero_iff stricmp_eq_zero_iff)
open Xml (stricmp)

/-- `pjsip_role_e`. -/
inductive Role
  | uac
  | uas
  deriving DecidableEq

/-- `pjsip_method_e`. -/
inductive MethodId
  | invite
  | cancel
  | ack
  | bye
  | register
  | options
  | other
  deriving DecidableEq

/-- `pjsip_method`. -/
structure Method where
  id : MethodId
  name : Str
  deriving DecidableEq

/-- `method_names`. -/
def methodNames : List Method :=
  [⟨.invite, ascii "INVITE"⟩, ⟨.cancel, ascii "CANCEL"⟩, ⟨.ack, ascii "ACK"⟩, ⟨.bye, ascii "BYE"⟩,
    ⟨.register, ascii "REGISTER"⟩, ⟨.options, ascii "OPTIONS"⟩]

/-- `pjsip_method_init_np`. -/
def methodInit (str : Str) : Method :=
  (methodNames.find? fun m => stricmp str m.name = 0).getD ⟨.other, str⟩

/-- `pjsip_method_cmp`, where it is zero. -/
def methodEq (m1 m2 : Method) : Bool := m1.id = m2.id && (m1.id ≠ .other || strcmp m1.name m2.name = 0)

def isAlnum (c : UInt8) : Bool := 48 ≤ c && c ≤ 57 || 65 ≤ c && c ≤ 90 || 97 ≤ c && c ≤ 122

/-- `pjsip_TOKEN_SPEC`. -/
def tokenSpec (c : UInt8) : Bool := isAlnum c || (ascii "-.!%*_`'~+").contains c

/-- `pjsip_VIA_PARAM_SPEC`. -/
def viaParamSpec (c : UInt8) : Bool := tokenSpec c || (ascii "[:]").contains c

/-- `parse_param_imp` without unescaping: the value in the text behind the `=`. Quotes stay. -/
def parsePvalue (spec : UInt8 → Bool) (l : Str) : Option Str :=
  if l = [] then some []
  else if peek l = 34 then (getQuotes [(34, 34)] l).map Prod.fst
  else if spec (peek l) then (Scan.Input.get spec l).map Prod.fst
  else some []

structure Pvalue (spec : UInt8 → Bool) where
  text : Str
  parsed : ∃ l, parsePvalue spec l = some text

/-- What the key has of a received message; the parser checks the ranges of CSeq number and port. -/
structure RxData where
  cseq : Nat
  cseq_le : cseq ≤ 0x7fffffff
  token : Str
  token_spec : ∀ c ∈ token, tokenSpec c = true
  fromTag : Pvalue tokenSpec
  cid : Str
  branch : Pvalue viaParamSpec
  host : Str
  port : Nat
  port_le : port ≤ 0xffff

def RxData.method (rdata : RxData) : Method := methodInit rdata.token

def Method.inviteOrAck (m : Method) : Bool := m.id = .invite || m.id = .ack

def roleChar (role : Role) : UInt8 := if role = .uac then 99 else 115

/-- The method, except when it is INVITE or ACK. -/
def methodPart (method : Method) : Str := if method.inviteOrAck then [] else method.name ++ [36]

/-- `create_tsx_key_2543`: the key, and the length that is allocated for it. The terminating zero is counted. -/
def createTsxKey2543 (role : Role) (method : Method) (rdata : RxData) (includeVia : Bool) : Str × Nat :=
  (roleChar role :: 36 :: (methodPart method ++ (written (utoa rdata.cseq) ++ 36 :: (rdata.fromTag.text ++ 36 :: (rdata.cid ++
      36 :: (if includeVia then rdata.host ++ 58 :: (written (utoa rdata.port) ++ [36, 0]) else [0]))))),
    method.name.length + 11 + rdata.fromTag.text.length + rdata.cid.length + 16 +
      if includeVia then rdata.host.length + 11 else 0)

/-- `create_tsx_key_3261`. -/
def createTsxKey3261 (role : Role) (method : Method) (branch : Str) : Str × Nat :=
  (roleChar role :: 36 :: (methodPart method ++ branch), branch.length + method.name.length + 4)

/-- `pj_strnicmp`. -/
def strnicmp (str1 str2 : Str) (len : Nat) : Int :=
  stricmp (if len < str1.length then str1.take len else str1) (if len < str2.length then str2.take len else str2)

/-- The branch begins with `z9hG4bK`. -/
def RxData.isRfc3261 (rdata : RxData) : Bool := strnicmp rdata.branch.text (ascii "z9hG4bK") 7 = 0

/-- `pjsip_tsx_create_key`. -/
def tsxCreateKey (role : Role) (method : Method) (rdata : RxData) : Str × Nat :=
  if rdata.isRfc3261 then createTsxKey3261 role method rdata.branch.text else createTsxKey2543 role method rdata true

/-- Methods are equal, with INVITE and ACK counted as one. -/
def SameMethod (m1 m2 : Method) : Prop := methodEq m1 m2 = true ∨ m1.inviteOrAck = true ∧ m2.inviteOrAck = true

/-- What the key stands for. -/
def SameTsx (role1 role2 : Role) (x y : RxData) : Prop :=
  role1 = role2 ∧ SameMethod x.method y.method ∧
    (x.isRfc3261 = true ∧ y.isRfc3261 = true ∧ x.branch.text = y.branch.text ∨
      x.isRfc3261 = false ∧ y.isRfc3261 = false ∧ x.cseq = y.cseq ∧ x.fromTag.text = y.fromTag.text ∧ x.cid = y.cid ∧
        x.host = y.host ∧ x.port = y.port)

/-! Where a field ends. -/

theorem split_at {a : UInt8} {x y v w : Str} (hx : a ∉ x) (hy : a ∉ y) (h : x ++ a :: v = y ++ a :: w) : x = y ∧ v = w := by
  induction x generalizing y with
  | nil =>
    cases y with
    | nil => exact ⟨rfl, (List.cons.inj h).2⟩
    | cons b y => exact absurd (List.cons.inj h).1 fun heq => hy (heq ▸ List.mem_cons_self)
  | cons b x ih =>
    cases y with
    | nil => exact absurd (List.cons.inj h).1 fun heq => hx (heq ▸ List.mem_cons_self)
    | cons c y =>
      obtain ⟨heq, hmore⟩ := List.cons.inj h
      obtain ⟨hxy, hvw⟩ := ih (fun hm => hx (List.mem_cons_of_mem _ hm)) (fun hm => hy (List.mem_cons_of_mem _ hm)) hmore
      exact ⟨by rw [heq, hxy], hvw⟩

theorem split_at_last {a : UInt8} {x y v w : Str} (hv : a ∉ v) (hw : a ∉ w) (h : x ++ a :: v = y ++ a :: w) :
    x = y ∧ v = w := by
  have hreverse := congrArg List.reverse h
  simp only [List.reverse_append, List.reverse_cons, List.append_assoc, List.singleton_append] at hreverse
  obtain ⟨hvw, hxy⟩ := split_at (by simpa using hv) (by simpa using hw) hreverse
  exact ⟨List.reverse_injective hxy, List.reverse_injective hvw⟩

theorem token_ne {c : UInt8} (h : tokenSpec c = true) : c ≠ 34 ∧ c ≠ 36 := by
  constructor <;> (rintro rfl; revert h; decide)

theorem viaParam_ne {c : UInt8} (h : viaParamSpec c = true) : c ≠ 36 ∧ c ≠ 0 := by
  constructor <;> (rintro rfl; revert h; decide)

/-- The end quote is found with any text behind it. -/
theorem closeQuote_take {front l : Str} {n : Nat} (h : Scanner.closeQuote 34 front l = some n) (more : Str) :
    front.length ≤ n ∧ n - front.length < l.length ∧
      Scanner.closeQuote 34 front (l.take (n - front.length + 1) ++ more) = some n := by
  induction l generalizing front with
  | nil => cases h
  | cons c l ih =>
    have hstep (hmore : Scanner.closeQuote 34 (front ++ [c]) l = some n)
        (hskip : ∀ m, Scanner.closeQuote 34 front (c :: m) = Scanner.closeQuote 34 (front ++ [c]) m) :
        front.length ≤ n ∧ n - front.length < (c :: l).length ∧
          Scanner.closeQuote 34 front ((c :: l).take (n - front.length + 1) ++ more) = some n := by
      obtain ⟨hle, hlt, htake⟩ := ih hmore
      rw [List.length_append, List.length_singleton] at hle hlt htake
      refine ⟨by omega, by rw [List.length_cons]; omega, ?_⟩
      rw [List.take_succ_cons, List.cons_append, hskip, show n - front.length = n - (front.length + 1) + 1 by omega]
      exact htake
    rw [Scanner.closeQuote] at h
    split_ifs at h with hquote heven hnewline
    · obtain rfl : front.length = n := Option.some.inj h
      rw [Nat.sub_self]
      refine ⟨le_rfl, Nat.succ_pos _, ?_⟩
      rw [List.take_succ_cons, List.cons_append, Scanner.closeQuote, if_pos hquote, if_pos heven]
    · exact hstep h fun m => by rw [Scanner.closeQuote, if_pos hquote, if_neg heven]
    · exact hstep h fun m => by rw [Scanner.closeQuote, if_neg hquote, if_neg hnewline]

def Quoted (v : Str) : Prop := ∃ w, v = 34 :: w ∧ ∀ more, Scanner.closeQuote 34 [] (w ++ more) = some (w.length - 1)

theorem getQuotes_quote (l : Str) :
    getQuotes [(34, 34)] (34 :: l) = (Scanner.closeQuote 34 [] l).map fun n => Scan.Input.token (n + 2) (34 :: l) := by
  cases hclose : Scanner.closeQuote 34 [] l with
  | none => simp [getQuotes, peek, hclose]
  | some n => simp [getQuotes, peek, hclose]

theorem parsePvalue_cases {spec : UInt8 → Bool} {l text : Str} (hparsed : parsePvalue spec l = some text) :
    (∀ c ∈ text, spec c = true) ∨ Quoted text := by
  unfold parsePvalue at hparsed
  split_ifs at hparsed with hnil hquote hspec
  · obtain rfl := Option.some.inj hparsed
    exact Or.inl (by simp)
  · obtain ⟨c, l, rfl⟩ := List.exists_cons_of_ne_nil hnil
    obtain rfl : c = 34 := hquote
    rw [getQuotes_quote, Option.map_map] at hparsed
    obtain ⟨n, hclose, htext⟩ := Option.map_eq_some_iff.mp hparsed
    obtain ⟨-, hlt, -⟩ := closeQuote_take hclose []
    refine Or.inr ⟨l.take (n + 1), htext.symm, fun more => ?_⟩
    have hlen : (l.take (n + 1)).length - 1 = n := by
      rw [List.length_take]
      exact Nat.sub_eq_of_eq_add (Nat.min_eq_left hlt)
    rw [hlen]
    exact (closeQuote_take hclose more).2.2
  · rw [Scan.Input.get, if_neg (by simp [hnil, hspec])] at hparsed
    have htext : l.takeWhile spec = text :=
      (List.prefix_iff_eq_take.mp (List.takeWhile_prefix spec)).trans (Option.some.inj hparsed)
    rw [← htext]
    exact Or.inl fun c hc => List.mem_takeWhile_imp hc
  · obtain rfl := Option.some.inj hparsed
    exact Or.inl (by simp)

theorem Pvalue.cases {spec : UInt8 → Bool} (v : Pvalue spec) : (∀ c ∈ v.text, spec c = true) ∨ Quoted v.text :=
  v.parsed.elim fun _ => parsePvalue_cases

theorem quoted_inj {v w x y : Str} (hv : Quoted v) (hw : Quoted w) (h : v ++ x = w ++ y) : v = w ∧ x = y := by
  obtain ⟨v, rfl, hvclose⟩ := hv
  obtain ⟨w, rfl, hwclose⟩ := hw
  have htail : v ++ x = w ++ y := (List.cons.inj h).2
  have hend := (hvclose x).symm.trans ((congrArg _ htail).trans (hwclose y))
  have hpos {u : Str} (hclose : ∀ more, Scanner.closeQuote 34 [] (u ++ more) = some (u.length - 1)) : 0 < u.length := by
    refine List.length_pos_iff.mpr ?_
    rintro rfl
    cases hclose []
  have hlen : v.length = w.length := by
    have := hpos hvclose
    have := hpos hwclose
    have := Option.some.inj hend
    omega
  obtain ⟨hvw, hxy⟩ := List.append_inj htail hlen
  exact ⟨by rw [hvw], hxy⟩

/-- A tag, or another token, shows where it ends. -/
def Tag (v : Str) : Prop := (∀ c ∈ v, tokenSpec c = true) ∨ Quoted v

theorem not_quoted_of_token {v w x y : Str} (hv : ∀ c ∈ v, tokenSpec c = true) (hw : Quoted w) :
    v ++ 36 :: x ≠ w ++ 36 :: y := by
  obtain ⟨w, rfl, -⟩ := hw
  intro h
  cases v with
  | nil => exact absurd (List.cons.inj h).1 (by decide)
  | cons c v => exact (token_ne (hv c List.mem_cons_self)).1 (List.cons.inj h).1

theorem tag_inj {v w x y : Str} (hv : Tag v) (hw : Tag w) (h : v ++ 36 :: x = w ++ 36 :: y) : v = w ∧ x = y := by
  rcases hv with hv | hv <;> rcases hw with hw | hw
  · exact split_at (fun hm => (token_ne (hv _ hm)).2 rfl) (fun hm => (token_ne (hw _ hm)).2 rfl) h
  · exact absurd h (not_quoted_of_token hv hw)
  · exact absurd h.symm (not_quoted_of_token hw hv)
  · obtain ⟨hvw, hmore⟩ := quoted_inj hv hw h
    exact ⟨hvw, (List.cons.inj hmore).2⟩

/-! Decimal numbers. -/

theorem written_utoa (val : Nat) : written (utoa val) = (lowDigits val).reverse.map digitChar := by
  rw [utoa, Numbers.written_utoaPad]
  simp

theorem token_utoa (val : Nat) : ∀ c ∈ written (utoa val), tokenSpec c = true ∧ c ≠ 58 := by
  intro c hc
  rw [written_utoa] at hc
  obtain ⟨d, hd, rfl⟩ := List.mem_map.mp hc
  have hlt := Numbers.lowDigits_lt (List.mem_reverse.mp hd)
  interval_cases d <;> decide

theorem utoa_inj {m n : Nat} (h : written (utoa m) = written (utoa n)) : m = n := by
  have hvalue (k : Nat) : (written (utoa k)).map Numbers.digitValue = (lowDigits k).reverse.map some := by
    rw [written_utoa, List.map_map]
    exact List.map_congr_left fun d hd => Numbers.digitValue_digitChar (Numbers.lowDigits_lt (List.mem_reverse.mp hd))
  have hdigits : (lowDigits m).reverse = (lowDigits n).reverse :=
    List.map_injective_iff.mpr (Option.some_injective _) ((hvalue m).symm.trans (h ▸ hvalue n))
  rw [← Numbers.numeral_lowDigits m, hdigits, Numbers.numeral_lowDigits n]

theorem length_utoa_le (val : Nat) (hval : val < 10 ^ 10) : (written (utoa val)).length ≤ 10 := by
  rw [written_utoa, List.length_map, List.length_reverse, lowDigits]
  split_ifs with hzero
  · decide
  · exact (Nat.digits_length_le_iff (by decide) val).mpr hval

/-! Methods. -/

theorem methodInit_cases (str : Str) :
    methodInit str ∈ methodNames ∨ methodInit str = ⟨.other, str⟩ ∧ ∀ m ∈ methodNames, str ≠ m.name := by
  unfold methodInit
  cases hfind : methodNames.find? fun m => stricmp str m.name = 0 with
  | some m => exact Or.inl (List.mem_of_find?_eq_some hfind)
  | none =>
    refine Or.inr ⟨rfl, fun m hm heq => ?_⟩
    exact List.find?_eq_none.mp hfind m hm (by simp [stricmp_eq_zero_iff, heq])

theorem methodEq_iff (s t : Str) :
    methodEq (methodInit s) (methodInit t) = true ↔ (methodInit s).name = (methodInit t).name := by
  have htable : ∀ m ∈ methodNames, m.id ≠ .other ∧
      ∀ n ∈ methodNames, methodEq m n = true ↔ m.name = n.name := by decide
  rcases methodInit_cases s with hs | ⟨hs, hsname⟩ <;> rcases methodInit_cases t with ht | ⟨ht, htname⟩
  · exact (htable _ hs).2 _ ht
  · rw [ht]
    exact iff_of_false (by simp [methodEq, (htable _ hs).1]) (htname _ hs).symm
  · rw [hs]
    exact iff_of_false (by simp [methodEq, (htable _ ht).1.symm]) (hsname _ ht)
  · rw [hs, ht]
    simp [methodEq, strcmp_eq_zero_iff]

theorem name_token (x : RxData) : ∀ c ∈ x.method.name, tokenSpec c = true := by
  have htable : ∀ m ∈ methodNames, m.name.all tokenSpec = true := by decide
  rcases methodInit_cases x.token with hx | ⟨hx, -⟩
  · exact List.all_eq_true.mp (htable _ hx)
  · rw [RxData.method, hx]
    exact x.token_spec

theorem inviteOrAck_of_methodEq {m1 m2 : Method} (h : methodEq m1 m2 = true) : m1.inviteOrAck = m2.inviteOrAck := by
  simp only [methodEq, Bool.and_eq_true, decide_eq_true_eq] at h
  rw [Method.inviteOrAck, Method.inviteOrAck, h.1]

/-- Of two messages that both have the method in the key, or both have it left out. -/
theorem methodPart_eq_iff {x y : RxData} (hkind : x.method.inviteOrAck = y.method.inviteOrAck) (v w : Str) :
    methodPart x.method ++ v = methodPart y.method ++ w ↔ SameMethod x.method y.method ∧ v = w := by
  unfold methodPart
  cases hy : y.method.inviteOrAck with
  | true =>
    rw [if_pos (hkind.trans hy), if_pos rfl]
    exact ⟨fun h => ⟨Or.inr ⟨hkind.trans hy, hy⟩, h⟩, fun h => h.2⟩
  | false =>
    rw [if_neg (by simp [hkind, hy]), if_neg (by simp), List.append_assoc, List.append_assoc]
    constructor
    · intro h
      obtain ⟨hname, hmore⟩ := split_at (fun hm => (token_ne (name_token x _ hm)).2 rfl)
        (fun hm => (token_ne (name_token y _ hm)).2 rfl) h
      exact ⟨Or.inl ((methodEq_iff _ _).mpr hname), hmore⟩
    · rintro ⟨hsame | ⟨-, hsame⟩, rfl⟩
      · rw [show x.method.name = y.method.name from (methodEq_iff _ _).mp hsame]
      · rw [hy] at hsame
        cases hsame

theorem inviteOrAck_of_sameMethod {m1 m2 : Method} (h : SameMethod m1 m2) : m1.inviteOrAck = m2.inviteOrAck :=
  h.elim inviteOrAck_of_methodEq fun hboth => hboth.1.trans hboth.2.symm

/-! The keys. -/

theorem branch_token {x : RxData} (hx : x.isRfc3261 = true) : ∀ c ∈ x.branch.text, c ≠ 36 ∧ c ≠ 0 := by
  rcases x.branch.cases with htoken | ⟨w, hw, -⟩
  · exact fun c hc => viaParam_ne (htoken c hc)
  · exfalso
    rw [RxData.isRfc3261, strnicmp, decide_eq_true_eq, hw, stricmp_eq_zero_iff] at hx
    have hhead := congrArg (fun k => k.2.head?) hx
    have hz : (SipUriCmp.folded (if 7 < (ascii "z9hG4bK").length then (ascii "z9hG4bK").take 7 else ascii "z9hG4bK")).2.head? =
        some 122 := by decide
    have hquote : toLower 34 = 34 := by decide
    rw [hz] at hhead
    split_ifs at hhead <;> simp [SipUriCmp.folded, hquote] at hhead

theorem roleChar_inj {r1 r2 : Role} (h : roleChar r1 = roleChar r2) : r1 = r2 := by
  revert h
  cases r1 <;> cases r2 <;> decide

theorem cons_key_iff {r1 r2 : Role} {v w : Str} : roleChar r1 :: 36 :: v = roleChar r2 :: 36 :: w ↔ r1 = r2 ∧ v = w := by
  constructor
  · intro h
    obtain ⟨hrole, hmore⟩ := List.cons.inj h
    exact ⟨roleChar_inj hrole, (List.cons.inj hmore).2⟩
  · rintro ⟨rfl, rfl⟩
    rfl

/-- What follows the From tag. -/
def RxData.rest (x : RxData) : Str := x.cid ++ 36 :: (x.host ++ 58 :: (written (utoa x.port) ++ [36, 0]))

theorem port_inj {v w : Str} {m n : Nat}
    (h : v ++ 58 :: (written (utoa m) ++ [36, 0]) = w ++ 58 :: (written (utoa n) ++ [36, 0])) : v = w ∧ m = n := by
  have hcolon (k : Nat) : (58 : UInt8) ∉ written (utoa k) ++ [36, 0] := by
    rw [List.mem_append, not_or]
    exact ⟨fun hm => (token_utoa k _ hm).2 rfl, by decide⟩
  obtain ⟨hvw, hport⟩ := split_at_last (hcolon m) (hcolon n) h
  exact ⟨hvw, utoa_inj (List.append_cancel_right hport)⟩

/-- The Call-ID and the host with a `$` between them do not tell where the host begins. -/
def RxData.cidHost (x : RxData) : Str := x.cid ++ 36 :: x.host

theorem rest_eq (x : RxData) : x.rest = x.cidHost ++ 58 :: (written (utoa x.port) ++ [36, 0]) := by
  simp [RxData.rest, RxData.cidHost]

/-- An INVITE or ACK and a request with another method whose keys are the same: the method is the CSeq number, and the CSeq
number is the From tag. -/
def Numeric (x y : RxData) : Prop :=
  x.method.inviteOrAck = true ∧ y.method.inviteOrAck = false ∧ y.method.name = written (utoa x.cseq) ∧
    x.fromTag.text = written (utoa y.cseq) ∧ x.cidHost = y.fromTag.text ++ 36 :: y.cidHost

/-- The keys of two messages without an RFC 3261 branch that are the same although the messages are not: a `$` of one host
stands where the Call-ID of the other message ends, or a number is taken for a method. -/
def Collide (role1 role2 : Role) (x y : RxData) : Prop :=
  role1 = role2 ∧ x.isRfc3261 = false ∧ y.isRfc3261 = false ∧ x.port = y.port ∧
    (SameMethod x.method y.method ∧ x.cseq = y.cseq ∧ x.fromTag.text = y.fromTag.text ∧ x.cidHost = y.cidHost ∧
        x.cid ≠ y.cid ∨
      Numeric x y ∨ Numeric y x)

theorem tag_utoa (n : Nat) : Tag (written (utoa n)) := Or.inl fun c hc => (token_utoa n c hc).1

/-- The fields of an RFC 2543 key from the CSeq number on. -/
def RxData.fields (x : RxData) : Str := written (utoa x.cseq) ++ 36 :: (x.fromTag.text ++ 36 :: x.rest)

theorem fields_eq_iff (x y : RxData) : x.fields = y.fields ↔
    x.cseq = y.cseq ∧ x.fromTag.text = y.fromTag.text ∧ x.cidHost = y.cidHost ∧ x.port = y.port := by
  constructor
  · intro h
    obtain ⟨hcseq, hmore⟩ := tag_inj (tag_utoa _) (tag_utoa _) h
    obtain ⟨htag, hrest⟩ := tag_inj x.fromTag.cases y.fromTag.cases hmore
    rw [rest_eq, rest_eq] at hrest
    obtain ⟨hcid, hport⟩ := port_inj hrest
    exact ⟨utoa_inj hcseq, htag, hcid, hport⟩
  · rintro ⟨hcseq, htag, hcid, hport⟩
    rw [RxData.fields, RxData.fields, rest_eq, rest_eq, hcseq, htag, hcid, hport]

theorem fields_eq_name_iff {x y : RxData} (hx : x.method.inviteOrAck = true) (hy : y.method.inviteOrAck = false) :
    x.fields = y.method.name ++ 36 :: y.fields ↔ Numeric x y ∧ x.port = y.port := by
  constructor
  · intro h
    obtain ⟨hname, hmore⟩ := tag_inj (tag_utoa _) (Or.inl (name_token y)) h
    obtain ⟨htag, hrest⟩ := tag_inj x.fromTag.cases (tag_utoa _) hmore
    have hjoined : x.cidHost ++ 58 :: (written (utoa x.port) ++ [36, 0]) =
        (y.fromTag.text ++ 36 :: y.cidHost) ++ 58 :: (written (utoa y.port) ++ [36, 0]) := by
      simpa [rest_eq] using hrest
    obtain ⟨hcid, hport⟩ := port_inj hjoined
    exact ⟨⟨hx, hy, hname.symm, htag, hcid⟩, hport⟩
  · rintro ⟨⟨-, -, hname, htag, hcid⟩, hport⟩
    rw [RxData.fields, RxData.fields, rest_eq, rest_eq, hname, htag, hcid, hport]
    simp

theorem key_of_3261 (role : Role) {x : RxData} (hx : x.isRfc3261 = true) :
    (tsxCreateKey role x.method x).1 = roleChar role :: 36 :: (methodPart x.method ++ x.branch.text) := by
  rw [tsxCreateKey, if_pos hx]
  rfl

theorem key_of_2543 (role : Role) {x : RxData} (hx : x.isRfc3261 = false) :
    (tsxCreateKey role x.method x).1 = roleChar role :: 36 :: (methodPart x.method ++ x.fields) := by
  rw [tsxCreateKey, if_neg (by simp [hx])]
  rfl

theorem zero_notMem_key (role : Role) {x : RxData} (hx : x.isRfc3261 = true) :
    (0 : UInt8) ∉ (tsxCreateKey role x.method x).1 := by
  have hzero : tokenSpec 0 = false := by decide
  rw [key_of_3261 role hx]
  have hrole : (0 : UInt8) ≠ roleChar role := by cases role <;> decide
  have hbranch : (0 : UInt8) ∉ x.branch.text := fun hm => (branch_token hx _ hm).2 rfl
  have hname : (0 : UInt8) ∉ x.method.name := fun hm => by simpa [hzero] using name_token x _ hm
  unfold methodPart
  split <;> simp [hrole, hbranch, hname]

theorem zero_mem_key (role : Role) {x : RxData} (hx : x.isRfc3261 = false) : (0 : UInt8) ∈ (tsxCreateKey role x.method x).1 := by
  rw [key_of_2543 role hx]
  simp [RxData.fields, RxData.rest]

theorem cidHost_eq_iff (x y : RxData) : x.cidHost = y.cidHost ↔
    x.cid = y.cid ∧ x.host = y.host ∨ x.cidHost = y.cidHost ∧ x.cid ≠ y.cid := by
  by_cases hcid : x.cid = y.cid
  · simp [RxData.cidHost, hcid]
  · simp [hcid]

theorem methodPart_of_inviteOrAck {m : Method} (h : m.inviteOrAck = true) (v : Str) : methodPart m ++ v = v := by
  rw [methodPart, if_pos h, List.nil_append]

theorem methodPart_of_not {m : Method} (h : m.inviteOrAck = false) (v : Str) : methodPart m ++ v = m.name ++ 36 :: v := by
  rw [methodPart, if_neg (by simp [h]), List.append_assoc, List.singleton_append]

/-- The keys are the same for the same transaction, and where they collide. -/
theorem key_eq_iff (role1 role2 : Role) (x y : RxData) :
    (tsxCreateKey role1 x.method x).1 = (tsxCreateKey role2 y.method y).1 ↔
      SameTsx role1 role2 x y ∨ Collide role1 role2 x y := by
  unfold SameTsx Collide
  cases hx : x.isRfc3261 <;> cases hy : y.isRfc3261
  · rw [key_of_2543 role1 hx, key_of_2543 role2 hy, cons_key_iff]
    by_cases hkind : x.method.inviteOrAck = y.method.inviteOrAck
    · have hxy : ¬ Numeric x y := fun h => by simp [h.1, h.2.1] at hkind
      have hyx : ¬ Numeric y x := fun h => by simp [h.1, h.2.1] at hkind
      rw [methodPart_eq_iff hkind, fields_eq_iff]
      constructor
      · rintro ⟨hrole, hmethod, hcseq, htag, hcid, hport⟩
        rcases (cidHost_eq_iff x y).mp hcid with ⟨hsame, hhost⟩ | ⟨-, hne⟩
        · exact Or.inl ⟨hrole, hmethod, Or.inr ⟨rfl, rfl, hcseq, htag, hsame, hhost, hport⟩⟩
        · exact Or.inr ⟨hrole, rfl, rfl, hport, Or.inl ⟨hmethod, hcseq, htag, hcid, hne⟩⟩
      · rintro (⟨hrole, hmethod, ⟨⟨⟩, -⟩ | ⟨-, -, hcseq, htag, hcid, hhost, hport⟩⟩ |
          ⟨hrole, -, -, hport, ⟨hmethod, hcseq, htag, hcid, -⟩ | hnumeric | hnumeric⟩)
        · exact ⟨hrole, hmethod, hcseq, htag, (cidHost_eq_iff x y).mpr (Or.inl ⟨hcid, hhost⟩), hport⟩
        · exact ⟨hrole, hmethod, hcseq, htag, hcid, hport⟩
        · exact absurd hnumeric hxy
        · exact absurd hnumeric hyx
    · have hsame : ¬ SameMethod x.method y.method := fun h => hkind (inviteOrAck_of_sameMethod h)
      cases hxm : x.method.inviteOrAck <;> cases hym : y.method.inviteOrAck
      · exact absurd (hxm.trans hym.symm) hkind
      · have hxy : ¬ Numeric x y := fun h => by simp [h.1] at hxm
        rw [methodPart_of_inviteOrAck hym, methodPart_of_not hxm, @eq_comm Str, fields_eq_name_iff hym hxm]
        simp [hsame, hxy, and_comm, eq_comm]
      · have hyx : ¬ Numeric y x := fun h => by simp [h.1] at hym
        rw [methodPart_of_inviteOrAck hxm, methodPart_of_not hym, fields_eq_name_iff hxm hym]
        simp [hsame, hyx, and_comm]
      · exact absurd (hxm.trans hym.symm) hkind
  · refine iff_of_false (fun h => zero_notMem_key role2 hy (h ▸ zero_mem_key role1 hx)) ?_
    simp
  · refine iff_of_false (fun h => zero_notMem_key role1 hx (h ▸ zero_mem_key role2 hy)) ?_
    simp
  · rw [key_of_3261 role1 hx, key_of_3261 role2 hy, cons_key_iff]
    by_cases hkind : x.method.inviteOrAck = y.method.inviteOrAck
    · rw [methodPart_eq_iff hkind]
      simp
    · have hsame : ¬ SameMethod x.method y.method := fun h => hkind (inviteOrAck_of_sameMethod h)
      have hkeys : methodPart x.method ++ x.branch.text ≠ methodPart y.method ++ y.branch.text := by
        intro h
        cases hxm : x.method.inviteOrAck <;> cases hym : y.method.inviteOrAck
        · exact hkind (hxm.trans hym.symm)
        · rw [methodPart_of_inviteOrAck hym, methodPart_of_not hxm] at h
          exact (branch_token hy 36 (h ▸ List.mem_append_right _ List.mem_cons_self)).1 rfl
        · rw [methodPart_of_inviteOrAck hxm, methodPart_of_not hym] at h
          exact (branch_token hx 36 (h ▸ List.mem_append_right _ List.mem_cons_self)).1 rfl
        · exact hkind (hxm.trans hym.symm)
      simp [hsame, hkeys]

theorem not_collide_of_sameTsx {role1 role2 : Role} {x y : RxData} (h : SameTsx role1 role2 x y) :
    ¬ Collide role1 role2 x y := by
  obtain ⟨-, hmethod, hfields⟩ := h
  have hkind := inviteOrAck_of_sameMethod hmethod
  rintro ⟨-, hx, hy, -, hother | hnumeric | hnumeric⟩
  · rcases hfields with ⟨hx', -⟩ | ⟨-, -, -, -, hcid, -⟩
    · rw [hx] at hx'
      cases hx'
    · exact hother.2.2.2.2 hcid
  · rw [hnumeric.1, hnumeric.2.1] at hkind
    cases hkind
  · rw [hnumeric.1, hnumeric.2.1] at hkind
    cases hkind

theorem length_methodPart_le (m : Method) : (methodPart m).length ≤ m.name.length + 1 := by
  unfold methodPart
  split <;> simp

theorem length_key_le (role : Role) (x : RxData) :
    (tsxCreateKey role x.method x).1.length ≤ (tsxCreateKey role x.method x).2 := by
  have hmethod := length_methodPart_le x.method
  have hcseq := length_utoa_le x.cseq (by have := x.cseq_le; omega)
  have hport := length_utoa_le x.port (by have := x.port_le; omega)
  rw [tsxCreateKey]
  split
  · simp only [createTsxKey3261, List.length_cons, List.length_append]
    omega
  · simp only [createTsxKey2543, if_true, List.length_cons, List.length_append, List.length_nil]
    omega

/-- Keys are the same for the same transaction only, and fit, exactly for two messages whose fields do not collide. -/
theorem key_identifies_iff (role1 role2 : Role) (x y : RxData) :
    (((tsxCreateKey role1 x.method x).1 = (tsxCreateKey role2 y.method y).1 ↔ SameTsx role1 role2 x y) ∧
        (tsxCreateKey role1 x.method x).1.length ≤ (tsxCreateKey role1 x.method x).2 ∧
        (tsxCreateKey role2 y.method y).1.length ≤ (tsxCreateKey role2 y.method y).2) ↔
      ¬ Collide role1 role2 x y := by
  rw [key_eq_iff, and_iff_left ⟨length_key_le role1 x, length_key_le role2 y⟩]
  constructor
  · exact fun h hcollide => not_collide_of_sameTsx (h.mp (Or.inr hcollide)) hcollide
  · exact fun h => or_iff_left h

/-- An INVITE without branch, with the From tag `t`. -/
def invite (cid host : Str) : RxData where
  cseq := 1
  cseq_le := by decide
  token := ascii "INVITE"
  token_spec := List.all_eq_true.mp (by decide)
  fromTag := ⟨[116], [116], by decide⟩
  cid := cid
  branch := ⟨[], [], by decide⟩
  host := host
  port := 0
  port_le := by decide

/-- The Call-ID `a$b` at the host `c` and the Call-ID `a` at the host `[b$c]` have one key. -/
theorem keys_collide :
    (tsxCreateKey .uas (invite [97, 36, 98] [99]).method (invite [97, 36, 98] [99])).1 =
        (tsxCreateKey .uas (invite [97] [98, 36, 99]).method (invite [97] [98, 36, 99])).1 ∧
      ¬ SameTsx .uas .uas (invite [97, 36, 98] [99]) (invite [97] [98, 36, 99]) := by
  constructor
  · rw [key_of_2543 .uas (by decide), key_of_2543 .uas (by decide)]
    rfl
  · rintro ⟨-, -, ⟨hx, -⟩ | ⟨-, -, -, -, hcid, -⟩⟩
    · revert hx
      decide
    · cases hcid

end PjProject.TsxKey
