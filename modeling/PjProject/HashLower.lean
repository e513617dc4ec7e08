import PjProject.HashTableMap
import PjProject.Scanner

/-! The three loops of the hash table that hash a key (`hash.c`). `pj_hash_calc_tolower` reads plain `char`, which
is signed on some platforms, where `pj_hash_calc` and `find_entry` read `pj_uint8_t`; the argument of `pj_tolower` is
an `unsigned char`, so that they meet. -/

namespace PjProject.HashTable

/-- The bytes of a `pj_str_t`: `slen` is a signed word. -/
structure Str where
  bytes : List UInt8
  slen_lt : bytes.length < 2 ^ 31

def Str.toKey (s : Str) : Key := ⟨s.bytes, s.bytes.length⟩

/-- The value of a plain `char`. -/
def charInt (signedChar : Bool) (c : UInt8) : Int := if signedChar then Scan.charVal c else c.toNat

/-- `pj_tolower`: the argument is converted to `unsigned char`. -/
def pjTolower (c : Int) : Int := (toLower (UInt8.ofInt c)).toNat

/-- The loop of `pj_hash_calc_tolower`: the hash, and what it puts into `result`. -/
def hashCalcTolower (signedChar : Bool) : UInt32 → List UInt8 → UInt32 × List UInt8
  | hval, [] => (hval, [])
  | hval, c :: rest =>
    let lower := pjTolower (charInt signedChar c)
    let (hval, result) := hashCalcTolower signedChar (hval * 33 + UInt32.ofInt lower) rest
    (hval, UInt8.ofInt lower :: result)

/-- The loop of `pj_hash_calc` to the terminator. -/
def hashCalcString : UInt32 → List UInt8 → UInt32
  | hash, [] => hash
  | hash, c :: rest => if c = 0 then hash else hashCalcString (hash * 33 + UInt32.ofInt c.toNat) rest

/-- The loop of `pj_hash_calc` to `end`. -/
def hashCalcBytes : UInt32 → List UInt8 → Nat → UInt32
  | hash, c :: rest, n + 1 => hashCalcBytes (hash * 33 + UInt32.ofInt c.toNat) rest n
  | hash, _, _ => hash

/-- `pj_hash_calc`. -/
def pjHashCalc (hash : UInt32) (key : Key) : UInt32 :=
  if key.keylen = keyString then hashCalcString hash key.ptr else hashCalcBytes hash key.ptr key.keylen

/-- What the loops of `find_entry` add for a byte. -/
def addedByte (lower : Bool) (c : UInt8) : Int := if lower then pjTolower c.toNat else c.toNat

/-- The loop of `find_entry` to the terminator: the hash, and how far `p` went. -/
def findEntryString (lower : Bool) : UInt32 → List UInt8 → Nat → UInt32 × Nat
  | hash, [], p => (hash, p)
  | hash, c :: rest, p =>
    if c = 0 then (hash, p)
    else findEntryString lower (hash * 33 + UInt32.ofInt (addedByte lower c)) rest (p + 1)

/-- The loop of `find_entry` to `end`. -/
def findEntryBytes (lower : Bool) : UInt32 → List UInt8 → Nat → UInt32
  | hash, c :: rest, n + 1 => findEntryBytes lower (hash * 33 + UInt32.ofInt (addedByte lower c)) rest n
  | hash, _, _ => hash

/-- The hash that `find_entry` computes when it has none, and `keylen` behind it. -/
def findEntryHash (lower : Bool) (key : Key) : UInt32 × Nat :=
  if key.keylen = keyString then findEntryString lower 0 key.ptr 0
  else (findEntryBytes lower 0 key.ptr key.keylen, key.keylen)

/-! The character types. -/

theorem ofInt_toNat (c : UInt8) : UInt32.ofInt c.toNat = c.toUInt32 := by
  have hlt := c.toNat_lt
  have hmod : (c.toNat : Int) % 2 ^ 32 = c.toNat := by omega
  apply UInt32.toNat_inj.mp
  rw [UInt32.ofInt, hmod, Int.toNat_natCast, UInt8.toNat_toUInt32, UInt32.toNat_ofNat']
  omega

/-- The conversion to `unsigned char` gives the byte back, whether plain `char` is signed or not. -/
theorem ofInt_charInt (signedChar : Bool) (c : UInt8) : UInt8.ofInt (charInt signedChar c) = c := by
  have hlt := c.toNat_lt
  apply UInt8.toNat_inj.mp
  have hmod : charInt signedChar c % 2 ^ 8 = c.toNat := by
    unfold charInt Scan.charVal
    split
    · split <;> omega
    · omega
  rw [UInt8.ofInt, hmod, Int.toNat_natCast, UInt8.ofNat_toNat]

theorem pjTolower_charInt (signedChar : Bool) (c : UInt8) : pjTolower (charInt signedChar c) = (toLower c).toNat := by
  rw [pjTolower, ofInt_charInt]

theorem ofInt_addedByte (lower : Bool) (c : UInt8) : UInt32.ofInt (addedByte lower c) = (readByte lower c).toUInt32 := by
  cases lower with
  | false => exact ofInt_toNat c
  | true => rw [addedByte, if_pos rfl, ← ofInt_toNat]; exact congrArg _ (pjTolower_charInt false c)

theorem ofInt_lower (c : UInt8) : UInt8.ofInt ((toLower c).toNat : Int) = toLower c := ofInt_charInt false (toLower c)

/-! The loops. -/

theorem hashCalcTolower_eq (signedChar : Bool) (hval : UInt32) (key : List UInt8) :
    hashCalcTolower signedChar hval key = (hashCalc true hval key, foldKey true key) := by
  induction key generalizing hval with
  | nil => rfl
  | cons c rest ih =>
    rw [hashCalcTolower, pjTolower_charInt, ih, ofInt_lower, ofInt_toNat]
    rfl

theorem hashCalcString_eq (hash : UInt32) (l : List UInt8) :
    hashCalcString hash l = hashCalc false hash (l.takeWhile (· ≠ 0)) := by
  induction l generalizing hash with
  | nil => rfl
  | cons c rest ih =>
    rw [hashCalcString]
    by_cases hc : c = 0
    · rw [if_pos hc, List.takeWhile_cons_of_neg (by simpa using hc)]
      rfl
    · rw [if_neg hc, ih, ofInt_toNat, List.takeWhile_cons_of_pos (by simpa using hc)]
      rfl

theorem hashCalcBytes_eq (hash : UInt32) (l : List UInt8) (n : Nat) :
    hashCalcBytes hash l n = hashCalc false hash (l.take n) := by
  induction l generalizing hash n with
  | nil => rw [List.take_nil]; cases n <;> rfl
  | cons c rest ih =>
    cases n with
    | zero => rfl
    | succ n => rw [hashCalcBytes, ih, ofInt_toNat]; rfl

theorem pjHashCalc_eq (hash : UInt32) (key : Key) : pjHashCalc hash key = hashCalc false hash key.bytes := by
  unfold pjHashCalc Key.bytes
  split
  · exact hashCalcString_eq hash key.ptr
  · exact hashCalcBytes_eq hash key.ptr key.keylen

theorem findEntryString_eq (lower : Bool) (hash : UInt32) (l : List UInt8) (p : Nat) :
    findEntryString lower hash l p =
      (hashCalc lower hash (l.takeWhile (· ≠ 0)), p + (l.takeWhile (· ≠ 0)).length) := by
  induction l generalizing hash p with
  | nil => rfl
  | cons c rest ih =>
    rw [findEntryString]
    by_cases hc : c = 0
    · rw [if_pos hc, List.takeWhile_cons_of_neg (by simpa using hc)]
      rfl
    · rw [if_neg hc, ih, ofInt_addedByte, List.takeWhile_cons_of_pos (by simpa using hc), List.length_cons,
        Nat.add_assoc, Nat.add_comm 1]
      rfl

theorem findEntryBytes_eq (lower : Bool) (hash : UInt32) (l : List UInt8) (n : Nat) :
    findEntryBytes lower hash l n = hashCalc lower hash (l.take n) := by
  induction l generalizing hash n with
  | nil => rw [List.take_nil]; cases n <;> rfl
  | cons c rest ih =>
    cases n with
    | zero => rfl
    | succ n => rw [findEntryBytes, ih, ofInt_addedByte]; rfl

/-- What `find_entry` computes is the hash of the bytes of the key. -/
theorem findEntryHash_fst (lower : Bool) (key : Key) : (findEntryHash lower key).1 = hashCalc lower 0 key.bytes := by
  unfold findEntryHash Key.bytes
  split
  · rw [findEntryString_eq]
  · exact findEntryBytes_eq lower 0 key.ptr key.keylen

theorem Str.bytes_toKey (s : Str) : s.toKey.bytes = s.bytes := by
  have hlt := s.slen_lt
  have hne : s.bytes.length ≠ keyString := by
    unfold keyString
    omega
  rw [toKey, Key.bytes, if_neg hne, List.take_length]

/-! Keys with the same lower-cased bytes. -/

section Lookup

variable {α : Type*} {lower : Bool}

theorem strnicmpEq_congr (a : List UInt8) {b b' : List UInt8} (h : foldKey true b = foldKey true b') :
    strnicmpEq a b = strnicmpEq a b' := by
  induction a generalizing b b' with
  | nil => rfl
  | cons x a ih =>
    cases b with
    | nil => rw [List.map_eq_nil_iff.mp h.symm]
    | cons y b =>
      cases b' with
      | nil => cases h
      | cons y' b' =>
        obtain ⟨hy, hb⟩ := List.cons.inj h
        have hlower : toLower y = toLower y' := hy
        rw [strnicmpEq, strnicmpEq, hlower, ih hb]

theorem scanChain_congr (chain : List (Entry α)) (hash : UInt32) {key key' : List UInt8}
    (h : foldKey true key = foldKey true key') : scanChain chain hash key true = scanChain chain hash key' true := by
  have hlength : key.length = key'.length := by simpa [foldKey] using congrArg List.length h
  unfold scanChain
  congr 1
  funext entry
  rw [Entry.matches, Entry.matches, hlength, strnicmpEq_congr entry.key h]
  rfl

theorem strnicmpEq_self (a : List UInt8) : strnicmpEq a a = true := by
  induction a with
  | nil => rfl
  | cons x a ih => rw [strnicmpEq, ih, beq_self_eq_true, Bool.or_true, Bool.and_true]

theorem scanChain_append {front : List (Entry α)} (next : List (Entry α)) {entry : Entry α} {hash : UInt32}
    {key : List UInt8} (hfront : ∀ e ∈ front, e.matches hash key lower = false) (hentry : entry.matches hash key lower = true) :
    (scanChain (front ++ entry :: next) hash key lower).2 = entry :: next := by
  rw [scanChain, List.span_eq_takeWhile_dropWhile]
  rw [List.dropWhile_append_of_pos fun e he => by rw [hfront e he]; rfl]
  rw [List.dropWhile_cons_of_neg (by rw [hentry]; exact Bool.false_ne_true)]

theorem of_scanChain {chain front rest : List (Entry α)} {hash : UInt32} {key : List UInt8}
    (h : scanChain chain hash key lower = (front, rest)) :
    (∀ e ∈ front, e.matches hash key lower = false) ∧ ∀ e ∈ rest.head?, e.matches hash key lower = true := by
  rw [scanChain, List.span_eq_takeWhile_dropWhile, Prod.mk.injEq] at h
  obtain ⟨rfl, rfl⟩ := h
  refine ⟨fun e he => ?_, fun e he => ?_⟩
  · have hnot := List.mem_takeWhile_imp he
    rwa [Bool.not_eq_true'] at hnot
  · have hnot := List.head?_dropWhile_not (fun entry : Entry α => !entry.matches hash key lower) chain
    rw [Option.mem_def.mp he] at hnot
    simpa using hnot

/-- What is set through the `_lower` variant is found under the same key. -/
theorem hashGet_hashSet (build : Build) (ht : Table α) (key : Key) (v : α) (hval : UInt32) (hval' : Option UInt32)
    (hsame : (findHash build key.bytes hval' true).1 = (findHash build key.bytes (some hval) true).1) :
    (hashGet build (hashSet build ht key hval (some v) true) key hval' true).1 = some v := by
  simp only [hashGet, hashSet, hsame]
  generalize (findHash build key.bytes (some hval) true).1 = hash
  have hself : (⟨key.bytes, hash, key.bytes.length, v⟩ : Entry α).matches hash key.bytes true = true := by
    simp [Entry.matches, strnicmpEq_self]
  cases hscan : scanChain (ht.table (bucket ht hash)) hash key.bytes true with
  | mk front rest =>
    obtain ⟨hfront, hrest⟩ := of_scanChain hscan
    cases rest with
    | nil =>
      have hstop := scanChain_append [] hfront hself
      simp only [bucket, Function.update_self] at hstop ⊢
      rw [hstop]
      rfl
    | cons entry next =>
      have hentry : ({ entry with value := v } : Entry α).matches hash key.bytes true = true := hrest entry rfl
      have hstop := scanChain_append next hfront hentry
      simp only [bucket, Function.update_self] at hstop ⊢
      rw [hstop]
      rfl

theorem hashGet_congr (build : Build) (ht : Table α) {key key' : Key} {hval hval' : Option UInt32}
    (hkey : foldKey true key.bytes = foldKey true key'.bytes)
    (hhash : (findHash build key.bytes hval true).1 = (findHash build key'.bytes hval' true).1) :
    (hashGet build ht key hval true).1 = (hashGet build ht key' hval' true).1 := by
  simp only [hashGet]
  rw [hhash, scanChain_congr _ _ hkey]

/-- The three loops give the same hash, for a `char` of either sign, and a lookup with it is one without: it finds
what was stored without it, in any table. -/
theorem precomputed_hval (signedChar : Bool) (key : Str) :
    let hval := (hashCalcTolower signedChar 0 key.bytes).1
    let result := (hashCalcTolower signedChar 0 key.bytes).2
    (∀ arg : Key, arg.bytes = key.bytes → (findEntryHash true arg).1 = hval) ∧
      result = key.bytes.map toLower ∧ pjHashCalc 0 ⟨result, result.length⟩ = hval ∧
      (∀ build, (findHash build key.bytes (some 0) true).2 = some hval) ∧
      ∀ (build : Build) (ht : Table α),
        (hashGet build ht key.toKey (some hval) true).1 = (hashGet build ht key.toKey none true).1 ∧
          ∀ (stored : Key) (v : α), foldKey true stored.bytes = foldKey true key.bytes →
            (hashGet build (hashSet build ht stored 0 (some v) true) key.toKey (some hval) true).1 = some v := by
  intro hval result
  have hhval : hval = hashCalc true 0 key.bytes := by
    rw [show hval = (hashCalcTolower signedChar 0 key.bytes).1 from rfl, hashCalcTolower_eq]
  have hresult : result = foldKey true key.bytes := by
    rw [show result = (hashCalcTolower signedChar 0 key.bytes).2 from rfl, hashCalcTolower_eq]
  have hfind (build : Build) (given : Option Hval) :
      (findHash build key.bytes (given.map fun h => h.value build key.bytes true) true).1 =
        build.tableHash key.bytes true := findHash_fst build key.bytes given true
  have hreported (build : Build) : (findHash build key.bytes (some hval) true).1 = build.tableHash key.bytes true := by
    rw [hhval]
    exact hfind build (some .reported)
  refine ⟨fun arg harg => ?_, hresult, ?_, fun build => ?_, fun build ht => ⟨?_, fun stored v hstored => ?_⟩⟩
  · rw [findEntryHash_fst, harg, hhval]
  · have hlength : result.length = key.bytes.length := by rw [hresult, foldKey, List.length_map]
    have hlt := key.slen_lt
    have hbytes : Key.bytes ⟨result, result.length⟩ = result := Str.bytes_toKey ⟨result, by omega⟩
    rw [pjHashCalc_eq, hbytes, hresult, hhval, ← hashCalc_foldKey]
  · rw [hhval]
    cases build <;> rfl
  · refine hashGet_congr build ht rfl ?_
    rw [Str.bytes_toKey, hreported]
    exact (hfind build none).symm
  · have hkey : foldKey true key.toKey.bytes = foldKey true stored.bytes := by rw [Str.bytes_toKey, hstored]
    have hnone : (findHash build stored.bytes none true).1 = build.tableHash stored.bytes true :=
      findHash_fst build stored.bytes none true
    have hhash := hnone.trans (findHash_fst build stored.bytes (some .zero) true).symm
    refine (hashGet_congr build _ hkey ?_).trans (hashGet_hashSet build ht stored v 0 none hhash)
    rw [Str.bytes_toKey, hreported, hnone]
    exact tableHash_congr build hstored.symm

end Lookup

/-- Bytes behind the ASCII ones are negative as a signed `char`. -/
example : charInt true 0xC4 = -60 ∧ (hashCalcTolower true 0 [0xC4, 65]).1 = pjHashCalc 0 ⟨[0xC4, 97], 2⟩ := by decide

end PjProject.HashTable
