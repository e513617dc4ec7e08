import PjProject.Bytes
import Mathlib.Logic.Function.Basic

/-! The hash table (`hash.c`) in both builds: buckets are found with SipHash-2-4 under the process key,
or with the multiplicative hash of `pj_hash_calc`. A bucket is its chain of entries, and the pointer to a
pointer that `find_entry` returns is the split of a chain in front of what it points to. Keys that the
caller keeps (`_np`) are, as documented, not changed while they are in the table, so an entry holds the
bytes of its key. -/

namespace PjProject.HashTable

def readByte (lower : Bool) (c : UInt8) : UInt8 := if lower then toLower c else c

section SipHash

structure SipState where
  v0 : UInt64
  v1 : UInt64
  v2 : UInt64
  v3 : UInt64

/-- `SIP_ROTL`. -/
def sipRotl (x b : UInt64) : UInt64 := x <<< b ||| x >>> (64 - b)

/-- `SIP_ROUND`, its assignments in order. -/
def sipRound (s : SipState) : SipState :=
  let v0 := s.v0 + s.v1
  let v1 := sipRotl s.v1 13
  let v1 := v1 ^^^ v0
  let v0 := sipRotl v0 32
  let v2 := s.v2 + s.v3
  let v3 := sipRotl s.v3 16
  let v3 := v3 ^^^ v2
  let v0 := v0 + v3
  let v3 := sipRotl v3 21
  let v3 := v3 ^^^ v0
  let v2 := v2 + v1
  let v1 := sipRotl v1 17
  let v1 := v1 ^^^ v2
  let v2 := sipRotl v2 32
  ⟨v0, v1, v2, v3⟩

/-- The bytes or-ed into a word, the `i`-th shifted by `8*i`. -/
def sipWord (lower : Bool) : Nat → List UInt8 → UInt64 → UInt64
  | _, [], m => m
  | i, c :: rest, m => sipWord lower (i + 1) rest (m ||| (readByte lower c).toUInt64 <<< (8 * i).toUInt64)

/-- `v3 ^= m; SIP_ROUND; SIP_ROUND; v0 ^= m`. -/
def sipAbsorb (s : SipState) (m : UInt64) : SipState :=
  let s := sipRound (sipRound { s with v3 := s.v3 ^^^ m })
  { s with v0 := s.v0 ^^^ m }

/-- The loop over the whole words: `n` are left. -/
def sipWords (lower : Bool) : Nat → List UInt8 → SipState → SipState
  | 0, _, s => s
  | n + 1, data, s => sipWords lower n (data.drop 8) (sipAbsorb s (sipWord lower 0 (data.take 8) 0))

/-- `siphash24`. -/
def siphash24 (k0 k1 : UInt64) (data : List UInt8) (lower : Bool) : UInt64 :=
  let len := data.length
  let s : SipState :=
    { v0 := 0x736f6d6570736575 ^^^ k0
      v1 := 0x646f72616e646f6d ^^^ k1
      v2 := 0x6c7967656e657261 ^^^ k0
      v3 := 0x7465646279746573 ^^^ k1 }
  let s := sipWords lower (len / 8) data s
  let b := sipWord lower 0 (data.drop (len / 8 * 8)) (len.toUInt64 <<< 56)
  let s := sipAbsorb s b
  let s := { s with v2 := s.v2 ^^^ 0xff }
  let s := sipRound (sipRound (sipRound (sipRound s)))
  s.v0 ^^^ s.v1 ^^^ s.v2 ^^^ s.v3

/-- `calc_table_hash`: the 64 bits folded to 32. -/
def calcTableHash (k0 k1 : UInt64) (key : List UInt8) (lower : Bool) : UInt32 :=
  let b := siphash24 k0 k1 key lower
  b.toUInt32 ^^^ (b >>> 32).toUInt32

end SipHash

/-- `pj_hash_calc` with `lower` unset; with `lower` set the loops of `find_entry` and
`pj_hash_calc_tolower`. -/
def hashCalc (lower : Bool) (hash : UInt32) (key : List UInt8) : UInt32 :=
  key.foldl (fun hash c => hash * 33 + (readByte lower c).toUInt32) hash

/-- The build of the table: `HASH_USE_SIPHASH` with the process key, or without. -/
inductive Build
  | siphash (k0 k1 : UInt64)
  | djb2

def Build.tableHash (build : Build) (key : List UInt8) (lower : Bool) : UInt32 :=
  match build with
  | .siphash k0 k1 => calcTableHash k0 k1 key lower
  | .djb2 => hashCalc lower 0 key

/-- `PJ_HASH_KEY_STRING`. -/
def keyString : Nat := 2 ^ 32 - 1

/-- A key argument: the bytes readable at the pointer and `keylen`. -/
structure Key where
  ptr : List UInt8
  keylen : Nat
  deriving DecidableEq

/-- The bytes of the key: those in front of the terminator, or `keylen` of them. -/
def Key.bytes (key : Key) : List UInt8 :=
  if key.keylen = keyString then key.ptr.takeWhile (· ≠ 0) else key.ptr.take key.keylen

section Table

variable {α : Type*}

/-- `pj_hash_entry`; `next` is the rest of the chain. -/
structure Entry (α : Type*) where
  key : List UInt8
  hash : UInt32
  keylen : Nat
  value : α
  deriving DecidableEq

/-- `pj_hash_table_t`. An entry takes memory, so `count` does not wrap. -/
structure Table (α : Type*) where
  table : Nat → List (Entry α)
  count : Nat
  rows : Nat

/-- The loop of `pj_hash_create` that doubles the size. -/
def growTable (size : Nat) : Nat → Nat → Nat
  | 0, tableSize => tableSize
  | turns + 1, tableSize =>
    let tableSize := 2 * tableSize
    if tableSize < size ∧ tableSize ≤ 2 ^ 31 - 1 then growTable size turns tableSize else tableSize

/-- `pj_hash_create`; from 8 the size passes `2^31 - 1` after 28 turns. -/
def hashCreate (α : Type*) (size : Nat) : Table α := ⟨fun _ => [], 0, growTable size 28 8 - 1⟩

/-- `pj_ansi_strnicmp(a, b, n) == 0` on `n` bytes of either. -/
def strnicmpEq : List UInt8 → List UInt8 → Bool
  | a :: as, b :: bs => toLower a == toLower b && (a == 0 || strnicmpEq as bs)
  | _, _ => true

/-- The test of the scan of `find_entry`. -/
def Entry.matches (entry : Entry α) (hash : UInt32) (key : List UInt8) (lower : Bool) : Bool :=
  entry.hash == hash && entry.keylen == key.length &&
    (lower && strnicmpEq entry.key key || !lower && entry.key == key)

/-- The hash `find_entry` works with, and what it leaves in `*hval`. -/
def findHash (build : Build) (key : List UInt8) (hval : Option UInt32) (lower : Bool) :
    UInt32 × Option UInt32 :=
  match build with
  | .siphash k0 k1 =>
    (calcTableHash k0 k1 key lower, hval.map fun h => if h = 0 then hashCalc lower 0 key else h)
  | .djb2 =>
    match hval with
    | some h => if h ≠ 0 then (h, some h) else (hashCalc lower 0 key, some (hashCalc lower 0 key))
    | none => (hashCalc lower 0 key, none)

/-- `&ht->table[hash & ht->rows]`. -/
def bucket (ht : Table α) (hash : UInt32) : Nat := hash.toNat &&& ht.rows

/-- The scan of `find_entry`: the chain in front of `*p_entry`, and the chain from it on. -/
def scanChain (chain : List (Entry α)) (hash : UInt32) (key : List UInt8) (lower : Bool) :
    List (Entry α) × List (Entry α) :=
  chain.span fun entry => !entry.matches hash key lower

/-- `pj_hash_get` and `pj_hash_get_lower`: the value, and what is left in `*hval`. -/
def hashGet (build : Build) (ht : Table α) (key : Key) (hval : Option UInt32) (lower : Bool) :
    Option α × Option UInt32 :=
  let (hash, hval) := findHash build key.bytes hval lower
  let entry := (scanChain (ht.table (bucket ht hash)) hash key.bytes lower).2.head?
  (entry.map Entry.value, hval)

/-- `hash_set` with its call of `find_entry`; `NULL` is `none`. A new entry goes to the end of the
chain. -/
def hashSet (build : Build) (ht : Table α) (key : Key) (hval : UInt32) (value : Option α) (lower : Bool) :
    Table α :=
  let hash := (findHash build key.bytes (some hval) lower).1
  let i := bucket ht hash
  match scanChain (ht.table i) hash key.bytes lower, value with
  | (_, []), none => ht
  | (front, []), some v =>
    { ht with
      table := Function.update ht.table i (front ++ [⟨key.bytes, hash, key.bytes.length, v⟩])
      count := ht.count + 1 }
  | (front, _ :: next), none =>
    { ht with table := Function.update ht.table i (front ++ next), count := ht.count - 1 }
  | (front, entry :: next), some v =>
    { ht with table := Function.update ht.table i (front ++ { entry with value := v } :: next) }

/-- `pj_hash_iterator_t`: the row and the chain from the entry on. -/
structure Iterator (α : Type*) where
  index : Nat
  entry : List (Entry α)

/-- The loops of `pj_hash_first` and `pj_hash_next` over the rows from `index`, `n` of them left. -/
def scanRows (ht : Table α) : Nat → Nat → Iterator α
  | 0, index => ⟨index, []⟩
  | n + 1, index =>
    match ht.table index with
    | [] => scanRows ht n (index + 1)
    | entry :: next => ⟨index, entry :: next⟩

/-- `it->entry ? it : NULL`. -/
def Iterator.orNull (it : Iterator α) : Option (Iterator α) :=
  match it.entry with
  | [] => none
  | _ :: _ => some it

def hashFirst (ht : Table α) : Option (Iterator α) := (scanRows ht (ht.rows + 1) 0).orNull

def hashNext (ht : Table α) (it : Iterator α) : Option (Iterator α) :=
  match it.entry.tail with
  | [] => (scanRows ht (ht.rows - it.index) (it.index + 1)).orNull
  | entry :: next => some ⟨it.index, entry :: next⟩

/-- The entries a loop over the iterator visits in `n` turns, `pj_hash_this` at each. -/
def visit (ht : Table α) : Nat → Option (Iterator α) → List (Entry α)
  | n + 1, some it => it.entry.head?.toList ++ visit ht n (hashNext ht it)
  | _, _ => []

end Table

end PjProject.HashTable
