import PjProject.HashTable
import PjProject.FiniteMap
import Mathlib.Data.List.TakeWhile

/-! The hash table is a finite map. Keys are compared through `foldKey`, which lowers their bytes for the
`_lower` operations; both hash functions depend on that only, so that an entry lies in the bucket its
folded key leads to, and the entries of all buckets represent the map of the last values set. -/

namespace PjProject.HashTable

/-- What the operations compare of a key: its bytes, lowered by the `_lower` variants. -/
def foldKey (lower : Bool) (key : List UInt8) : List UInt8 := key.map (readByte lower)

section Hash

theorem foldKey_false (key : List UInt8) : foldKey false key = key := by
  have hid : readByte false = id := rfl
  rw [foldKey, hid, List.map_id]

theorem hashCalc_foldKey (lower : Bool) (hash : UInt32) (key : List UInt8) :
    hashCalc lower hash key = hashCalc false hash (foldKey lower key) := by
  rw [hashCalc, hashCalc, foldKey, List.foldl_map]
  rfl

theorem sipWord_foldKey (lower : Bool) (i : Nat) (key : List UInt8) (m : UInt64) :
    sipWord lower i key m = sipWord false i (foldKey lower key) m := by
  induction key generalizing i m with
  | nil => rfl
  | cons c rest ih => exact ih (i + 1) _

theorem sipWords_foldKey (lower : Bool) (n : Nat) (key : List UInt8) (s : SipState) :
    sipWords lower n key s = sipWords false n (foldKey lower key) s := by
  induction n generalizing key s with
  | zero => rfl
  | succ n ih =>
    rw [sipWords, sipWords, ih, sipWord_foldKey, foldKey, foldKey, foldKey, List.map_drop, List.map_take]

theorem siphash24_foldKey (k0 k1 : UInt64) (key : List UInt8) (lower : Bool) :
    siphash24 k0 k1 key lower = siphash24 k0 k1 (foldKey lower key) false := by
  have hlength : (foldKey lower key).length = key.length := List.length_map _
  have hdrop : ∀ n, foldKey lower (key.drop n) = (foldKey lower key).drop n := fun n => List.map_drop
  simp only [siphash24, hlength]
  rw [sipWords_foldKey, sipWord_foldKey, hdrop]

theorem tableHash_foldKey (build : Build) (key : List UInt8) (lower : Bool) :
    build.tableHash key lower = build.tableHash (foldKey lower key) false := by
  cases build with
  | siphash k0 k1 => rw [Build.tableHash, Build.tableHash, calcTableHash, calcTableHash, siphash24_foldKey]
  | djb2 => exact hashCalc_foldKey lower 0 key

theorem tableHash_congr (build : Build) {key key' : List UInt8} {lower : Bool}
    (h : foldKey lower key = foldKey lower key') : build.tableHash key lower = build.tableHash key' lower := by
  rw [tableHash_foldKey, h, ← tableHash_foldKey]

end Hash

section Compare

/-- The `_lower` operations compare keys as C strings: no byte of such a key is zero. -/
def NulFree (lower : Bool) (key : List UInt8) : Prop := lower = true → 0 ∉ key

instance (lower : Bool) (key : List UInt8) : Decidable (NulFree lower key) :=
  inferInstanceAs (Decidable (_ → _))

/-- On keys without a zero byte `strnicmp` compares the lowered bytes. -/
theorem strnicmpEq_iff {a b : List UInt8} (hlength : a.length = b.length) (ha : 0 ∉ a) :
    strnicmpEq a b = true ↔ foldKey true a = foldKey true b := by
  induction a generalizing b with
  | nil =>
    obtain rfl := List.eq_nil_of_length_eq_zero hlength.symm
    simp [strnicmpEq]
  | cons c a ih =>
    cases b with
    | nil => cases hlength
    | cons d b =>
      have hzero : (c == 0) = false := beq_eq_false_iff_ne.mpr fun hc => ha (hc ▸ List.mem_cons_self)
      have hrest := ih (Nat.succ.inj hlength) fun hmem => ha (List.mem_cons_of_mem c hmem)
      simp only [strnicmpEq, hzero, Bool.false_or, Bool.and_eq_true, beq_iff_eq, hrest]
      simp only [foldKey, List.map_cons, List.cons.injEq, readByte, if_true]

variable {α : Type*} {build : Build} {lower : Bool}

/-- An entry as `find_entry` makes it. -/
structure Entry.Owned (build : Build) (lower : Bool) (entry : Entry α) : Prop where
  hash : entry.hash = build.tableHash entry.key lower
  keylen : entry.keylen = entry.key.length
  nulFree : NulFree lower entry.key

/-- The test of the scan compares folded keys. -/
theorem Entry.Owned.matches_iff {entry : Entry α} (h : entry.Owned build lower) {key : List UInt8} :
    entry.matches (build.tableHash key lower) key lower = true ↔
      foldKey lower entry.key = foldKey lower key := by
  have hlength : ∀ k k' : List UInt8, foldKey lower k = foldKey lower k' → k.length = k'.length := by
    intro k k' hfold
    simpa [foldKey] using congrArg List.length hfold
  simp only [Entry.matches, Bool.and_eq_true, beq_iff_eq, h.hash, h.keylen]
  constructor
  · rintro ⟨⟨_, hlen⟩, hcompare⟩
    cases lower with
    | false => simpa [foldKey_false] using hcompare
    | true => exact (strnicmpEq_iff hlen (h.nulFree rfl)).mp (by simpa using hcompare)
  · intro hfold
    refine ⟨⟨tableHash_congr build hfold, hlength _ _ hfold⟩, ?_⟩
    cases lower with
    | false => simpa [foldKey_false] using hfold
    | true => simpa using (strnicmpEq_iff (hlength _ _ hfold) (h.nulFree rfl)).mpr hfold

theorem scanChain_spec {chain front rest : List (Entry α)} {key : List UInt8}
    (howned : ∀ e ∈ chain, e.Owned build lower)
    (h : scanChain chain (build.tableHash key lower) key lower = (front, rest)) :
    chain = front ++ rest ∧ (∀ e ∈ front, foldKey lower e.key ≠ foldKey lower key) ∧
      ∀ e ∈ rest.head?, foldKey lower e.key = foldKey lower key := by
  rw [scanChain, List.span_eq_takeWhile_dropWhile, Prod.mk.injEq] at h
  obtain ⟨hfront, hrest⟩ := h
  have hchain : chain = front ++ rest := by rw [← hfront, ← hrest, List.takeWhile_append_dropWhile]
  refine ⟨hchain, fun e he hfold => ?_, fun e he => ?_⟩
  · have hnot := List.mem_takeWhile_imp (hfront.symm ▸ he)
    have hmatch := (howned e (hchain ▸ List.mem_append_left rest he)).matches_iff.mpr hfold
    rw [hmatch] at hnot
    cases hnot
  · have hmem : e ∈ chain := hchain ▸ List.mem_append_right front (List.mem_of_mem_head? he)
    have hnot := List.head?_dropWhile_not
      (fun entry => !entry.matches (build.tableHash key lower) key lower) chain
    rw [hrest, Option.mem_def.mp he] at hnot
    exact (howned e hmem).matches_iff.mp (by simpa using hnot)

end Compare

section Entries

variable {α : Type*}

def entries (ht : Table α) : List (Entry α) := (List.range (ht.rows + 1)).flatMap ht.table

theorem bucket_le (ht : Table α) (hash : UInt32) : bucket ht hash ≤ ht.rows := Nat.and_le_right

theorem entries_update (ht : Table α) {i : Nat} (hi : i ≤ ht.rows) : ∃ others : List (Entry α),
    (entries ht).Perm (ht.table i ++ others) ∧
    ∀ chain count, (entries { ht with table := Function.update ht.table i chain, count := count }).Perm
      (chain ++ others) := by
  have hmem : i ∈ List.range (ht.rows + 1) := List.mem_range.mpr (by omega)
  have hnot : i ∉ (List.range (ht.rows + 1)).erase i := List.nodup_range.not_mem_erase
  have hsplit : ∀ table : Nat → List (Entry α), ((List.range (ht.rows + 1)).flatMap table).Perm
      (table i ++ ((List.range (ht.rows + 1)).erase i).flatMap table) :=
    fun table => (List.perm_cons_erase hmem).flatMap_right table
  refine ⟨((List.range (ht.rows + 1)).erase i).flatMap ht.table, hsplit ht.table, fun chain count => ?_⟩
  have hsame : ((List.range (ht.rows + 1)).erase i).flatMap (Function.update ht.table i chain) =
      ((List.range (ht.rows + 1)).erase i).flatMap ht.table := by
    refine List.flatMap_congr fun j hj => ?_
    exact Function.update_of_ne (fun (hji : j = i) => hnot (hji ▸ hj)) _ _
  have hperm := hsplit (Function.update ht.table i chain)
  rw [hsame, Function.update_self] at hperm
  exact hperm

def remaining (ht : Table α) : Option (Iterator α) → List (Entry α)
  | none => []
  | some it => it.entry ++ (List.range' (it.index + 1) (ht.rows - it.index)).flatMap ht.table

theorem remaining_scanRows (ht : Table α) {n index : Nat} (hn : n + index = ht.rows + 1) :
    remaining ht (scanRows ht n index).orNull = (List.range' index n).flatMap ht.table := by
  induction n generalizing index with
  | zero => rfl
  | succ n ih =>
    rw [scanRows, List.range'_succ, List.flatMap_cons]
    cases hrow : ht.table index with
    | nil => exact ih (by omega)
    | cons entry next =>
      have hrest : ht.rows - index = n := by omega
      simp only [Iterator.orNull, remaining, hrest]

theorem remaining_hashFirst (ht : Table α) : remaining ht (hashFirst ht) = entries ht := by
  rw [hashFirst, remaining_scanRows ht (Nat.add_zero _), entries, List.range_eq_range']

theorem remaining_hashNext (ht : Table α) {it : Iterator α} (hindex : it.index ≤ ht.rows)
    (hentry : it.entry ≠ []) : remaining ht (hashNext ht it) = (remaining ht (some it)).tail := by
  obtain ⟨entry, next, hcons⟩ := List.exists_cons_of_ne_nil hentry
  simp only [hashNext, remaining, hcons, List.tail_cons, List.cons_append]
  cases next with
  | nil => exact remaining_scanRows ht (by omega)
  | cons entry' next' => rfl

def InRow (ht : Table α) (it : Iterator α) : Prop := it.index ≤ ht.rows ∧ it.entry ≠ []

theorem inRow_scanRows (ht : Table α) {n index : Nat} (hn : n + index = ht.rows + 1) :
    ∀ it ∈ (scanRows ht n index).orNull, InRow ht it := by
  induction n generalizing index with
  | zero => exact nofun
  | succ n ih =>
    rw [scanRows]
    cases hrow : ht.table index with
    | nil => exact ih (by omega)
    | cons entry next =>
      intro it hit
      obtain rfl := Option.some.inj hit
      exact ⟨by simp only; omega, by simp⟩

theorem inRow_hashNext (ht : Table α) {it : Iterator α} (h : InRow ht it) : ∀ it' ∈ hashNext ht it, InRow ht it' := by
  obtain ⟨hindex, _⟩ := h
  rw [hashNext]
  split
  · exact inRow_scanRows ht (by omega)
  · intro it' hit
    obtain rfl := Option.some.inj hit
    exact ⟨hindex, by simp⟩

theorem visit_eq_take (ht : Table α) (n : Nat) {it : Option (Iterator α)} (h : ∀ i ∈ it, InRow ht i) :
    visit ht n it = (remaining ht it).take n := by
  induction n generalizing it with
  | zero => cases it <;> rfl
  | succ n ih =>
    cases it with
    | none => rfl
    | some it =>
      have hrow := h it rfl
      obtain ⟨entry, next, hcons⟩ := List.exists_cons_of_ne_nil hrow.2
      rw [visit, ih (inRow_hashNext ht hrow), remaining_hashNext ht hrow.1 hrow.2]
      simp only [remaining, hcons, List.head?_cons, Option.toList_some, List.cons_append, List.tail_cons,
        List.take_succ_cons, List.nil_append]

/-- A loop over the iterator visits the entries of the table in order, and ends. -/
theorem visit_hashFirst (ht : Table α) {n : Nat} (hn : (entries ht).length ≤ n) :
    visit ht n (hashFirst ht) = entries ht := by
  have hrow : ∀ it ∈ hashFirst ht, InRow ht it := inRow_scanRows ht (Nat.add_zero _)
  rw [visit_eq_take ht n hrow, remaining_hashFirst, List.take_of_length_le hn]

end Entries

section Map

variable {α : Type*}

/-- The hash value a caller passes: 0, the hash the table computes, or the value an earlier call has left
in `*hval`. -/
inductive Hval
  | zero
  | own
  | reported
  deriving DecidableEq

def Hval.value (hval : Hval) (build : Build) (key : List UInt8) (lower : Bool) : UInt32 :=
  match hval with
  | .zero => 0
  | .own => build.tableHash key lower
  | .reported => hashCalc lower 0 key

/-- With such a value, or with none, `find_entry` works with the table's own hash. -/
theorem findHash_fst (build : Build) (key : List UInt8) (hval : Option Hval) (lower : Bool) :
    (findHash build key (hval.map fun h => h.value build key lower) lower).1 = build.tableHash key lower := by
  cases build with
  | siphash k0 k1 => rfl
  | djb2 =>
    cases hval with
    | none => rfl
    | some h =>
      simp only [findHash, Option.map_some]
      split
      · rename_i hne
        cases h with
        | zero => exact absurd rfl hne
        | own => rfl
        | reported => rfl
      · rfl

/-- A call that sets the value of a key, or deletes the key. -/
structure Op (α : Type*) where
  key : Key
  hval : Hval
  value : Option α

/-- The table after the calls, all of the exact or all of the `_lower` variant. -/
def run (build : Build) (lower : Bool) (ht : Table α) (ops : List (Op α)) : Table α :=
  ops.foldl
    (fun ht op => hashSet build ht op.key (op.hval.value build op.key.bytes lower) op.value lower) ht

/-- The map of folded keys: the key bytes of the entry and the value. A value set again keeps the bytes
of the entry. -/
def mapSet (lower : Bool) (m : List UInt8 → Option (List UInt8 × α)) (op : Op α) :
    List UInt8 → Option (List UInt8 × α) :=
  let k := foldKey lower op.key.bytes
  Function.update m k (op.value.map fun v => (((m k).map Prod.fst).getD op.key.bytes, v))

/-- The value of the last call for the key. -/
def lastSet (lower : Bool) (ops : List (Op α)) (k : List UInt8) : Option α :=
  (ops.reverse.find? fun op => foldKey lower op.key.bytes == k).bind Op.value

theorem mapSet_eq_lastSet (lower : Bool) (ops : List (Op α)) (k : List UInt8) :
    ((ops.foldl (mapSet lower) fun _ => none) k).map Prod.snd = lastSet lower ops k := by
  induction ops using List.reverseRecOn with
  | nil => rfl
  | append_singleton ops op ih =>
    rw [List.foldl_append, List.foldl_cons, List.foldl_nil, mapSet, lastSet, List.reverse_append,
      List.reverse_singleton, List.singleton_append, List.find?_cons]
    by_cases hk : foldKey lower op.key.bytes = k
    · subst hk
      simp only [Function.update_self, beq_self_eq_true, Option.bind_some]
      cases op.value <;> rfl
    · have hbeq : (foldKey lower op.key.bytes == k) = false := beq_eq_false_iff_ne.mpr hk
      simp only [Function.update_of_ne (Ne.symm hk), hbeq]
      exact ih

/-- The table holds the map: an entry is in the row of its hash, and the entries represent the map. -/
structure Holds (build : Build) (lower : Bool) (ht : Table α)
    (m : List UInt8 → Option (List UInt8 × α)) : Prop where
  owned : ∀ i, ∀ e ∈ ht.table i, e.Owned build lower ∧ bucket ht e.hash = i
  represents : Represents (fun e => foldKey lower e.key) (fun e => (e.key, e.value)) (entries ht) m
  count : ht.count = (entries ht).length

theorem holds_create (build : Build) (lower : Bool) (size : Nat) :
    Holds build lower (hashCreate α size) fun _ => none := by
  have hnil : entries (hashCreate α size) = [] := List.flatMap_eq_nil_iff.mpr fun _ _ => rfl
  exact ⟨nofun, hnil ▸ Represents.nil, by rw [hnil]; rfl⟩

variable {build : Build} {lower : Bool} {ht : Table α} {m : List UInt8 → Option (List UInt8 × α)}

theorem Holds.mem_bucket (h : Holds build lower ht m) {e : Entry α} (he : e ∈ entries ht) {key : List UInt8}
    (hfold : foldKey lower e.key = foldKey lower key) : e ∈ ht.table (bucket ht (build.tableHash key lower)) := by
  obtain ⟨i, _, hi⟩ := List.mem_flatMap.mp he
  obtain ⟨howned, hbucket⟩ := h.owned i e hi
  rw [howned.hash, tableHash_congr build hfold] at hbucket
  exact hbucket ▸ hi

theorem Holds.scan (h : Holds build lower ht m) {key : List UInt8} {front rest : List (Entry α)}
    (hscan : scanChain (ht.table (bucket ht (build.tableHash key lower))) (build.tableHash key lower) key
      lower = (front, rest)) : m (foldKey lower key) = rest.head?.map fun e => (e.key, e.value) := by
  obtain ⟨hchain, hfront, hrest⟩ := scanChain_spec (fun e he => (h.owned _ e he).1) hscan
  cases rest with
  | nil =>
    refine h.represents.eq_none fun e he hfold => hfront e ?_ hfold
    have hmem := h.mem_bucket he hfold
    rwa [hchain, List.append_nil] at hmem
  | cons e next =>
    have hmem : e ∈ entries ht := by
      refine List.mem_flatMap.mpr ⟨bucket ht (build.tableHash key lower),
        List.mem_range.mpr (Nat.lt_succ_of_le (bucket_le ht _)), ?_⟩
      rw [hchain]
      exact List.mem_append_right front List.mem_cons_self
    have hsome := h.represents.eq_some hmem
    rwa [hrest e rfl] at hsome

theorem Holds.update (h : Holds build lower ht m) {i count : Nat} {chain : List (Entry α)}
    {m' : List UInt8 → Option (List UInt8 × α)} (hi : i ≤ ht.rows)
    (howned : ∀ e ∈ chain, e.Owned build lower ∧ bucket ht e.hash = i)
    (hmap : ∀ others, Represents (fun e => foldKey lower e.key) (fun e => (e.key, e.value))
        (ht.table i ++ others) m →
      Represents (fun e => foldKey lower e.key) (fun e => (e.key, e.value)) (chain ++ others) m')
    (hcount : count + (ht.table i).length = ht.count + chain.length) :
    Holds build lower { ht with table := Function.update ht.table i chain, count := count } m' := by
  obtain ⟨others, hold, hnew⟩ := entries_update ht hi
  refine ⟨fun j e he => ?_, ?_, ?_⟩
  · by_cases hj : j = i
    · subst hj
      exact howned e (by simpa using he)
    · exact h.owned j e (by simpa [Function.update_of_ne hj] using he)
  · exact (hmap others (h.represents.perm hold)).perm (hnew chain count).symm
  · have hlength := hold.length_eq
    have hlength' := (hnew chain count).length_eq
    have hht := h.count
    rw [List.length_append] at hlength hlength'
    rw [hlength']
    simp only
    omega

theorem Holds.append (h : Holds build lower ht m) {i : Nat} (hi : i ≤ ht.rows) {e : Entry α}
    (howned : e.Owned build lower ∧ bucket ht e.hash = i) (hfree : m (foldKey lower e.key) = none) :
    Holds build lower
      { ht with table := Function.update ht.table i (ht.table i ++ [e]), count := ht.count + 1 }
      (Function.update m (foldKey lower e.key) (some (e.key, e.value))) := by
  refine h.update hi (fun f hf => ?_) (fun others hothers => ?_) ?_
  · rcases List.mem_append.mp hf with hf | hf
    · exact h.owned i f hf
    · obtain rfl := List.mem_singleton.mp hf
      exact howned
  · refine (hothers.insert hfree).perm ?_
    rw [List.append_assoc, List.append_assoc]
    exact (List.perm_append_comm).append_left (ht.table i)
  · simp only [List.length_append, List.length_singleton]
    omega

theorem Holds.unlink (h : Holds build lower ht m) {i : Nat} (hi : i ≤ ht.rows) {e : Entry α}
    {front next : List (Entry α)} (hchain : ht.table i = front ++ e :: next) :
    Holds build lower { ht with table := Function.update ht.table i (front ++ next), count := ht.count - 1 }
      (Function.update m (foldKey lower e.key) none) := by
  refine h.update hi (fun f hf => h.owned i f ?_) (fun others hothers => ?_) ?_
  · rw [hchain]
    rcases List.mem_append.mp hf with hf | hf
    · exact List.mem_append_left _ hf
    · exact List.mem_append_right _ (List.mem_cons_of_mem e hf)
  · rw [hchain, List.append_assoc, List.cons_append] at hothers
    rw [List.append_assoc]
    exact hothers.remove
  · have hmem : e ∈ entries ht := by
      refine List.mem_flatMap.mpr ⟨i, List.mem_range.mpr (Nat.lt_succ_of_le hi), ?_⟩
      rw [hchain]
      exact List.mem_append_right front List.mem_cons_self
    have hpos : 0 < ht.count := h.count ▸ List.length_pos_of_mem hmem
    rw [hchain]
    simp only [List.length_append, List.length_cons]
    omega

theorem Holds.overwrite (h : Holds build lower ht m) {i : Nat} (hi : i ≤ ht.rows) {e : Entry α}
    {front next : List (Entry α)} (hchain : ht.table i = front ++ e :: next) (v : α) :
    Holds build lower
      { ht with table := Function.update ht.table i (front ++ { e with value := v } :: next) }
      (Function.update m (foldKey lower e.key) (some (e.key, v))) := by
  have howned : ∀ f ∈ front ++ e :: next, f.Owned build lower ∧ bucket ht f.hash = i :=
    fun f hf => h.owned i f (hchain ▸ hf)
  refine h.update hi (fun f hf => ?_) (fun others hothers => ?_) ?_
  · rcases List.mem_append.mp hf with hf | hf
    · exact howned f (List.mem_append_left _ hf)
    · rcases List.mem_cons.mp hf with rfl | hf
      · obtain ⟨he, hbucket⟩ := howned e (List.mem_append_right _ List.mem_cons_self)
        exact ⟨⟨he.hash, he.keylen, he.nulFree⟩, hbucket⟩
      · exact howned f (List.mem_append_right _ (List.mem_cons_of_mem e hf))
  · rw [hchain, List.append_assoc, List.cons_append] at hothers
    rw [List.append_assoc, List.cons_append]
    exact hothers.replace (f := { e with value := v }) rfl
  · rw [hchain]
    simp only [List.length_append, List.length_cons]

/-- A call of `hash_set` is an update of the map. -/
theorem Holds.hashSet (h : Holds build lower ht m) (op : Op α) (hnul : NulFree lower op.key.bytes) :
    Holds build lower
      (HashTable.hashSet build ht op.key (op.hval.value build op.key.bytes lower) op.value lower)
      (mapSet lower m op) := by
  have hhash := findHash_fst build op.key.bytes (some op.hval) lower
  simp only [HashTable.hashSet, mapSet]
  rw [Option.map_some] at hhash
  rw [hhash]
  generalize hkey : op.key.bytes = key at *
  have hi := bucket_le ht (build.tableHash key lower)
  cases hscan : scanChain (ht.table (bucket ht (build.tableHash key lower))) (build.tableHash key lower) key
      lower with
  | mk front rest =>
    obtain ⟨hchain, hfront, hrest⟩ := scanChain_spec (fun e he => (h.owned _ e he).1) hscan
    have hmap := h.scan hscan
    cases rest with
    | nil =>
      rw [List.append_nil] at hchain
      cases op.value with
      | none =>
        have hsame : Function.update m (foldKey lower key) none = m := by
          rw [Function.update_eq_self_iff, hmap]
          rfl
        simpa [hsame] using h
      | some v =>
        have happend := h.append (e := ⟨key, build.tableHash key lower, key.length, v⟩) hi
          ⟨⟨rfl, rfl, hnul⟩, rfl⟩ hmap
        rw [hchain] at happend
        rw [hmap]
        exact happend
    | cons e next =>
      have hfold := hrest e rfl
      cases op.value with
      | none =>
        have hunlink := h.unlink hi hchain
        rw [hfold] at hunlink
        exact hunlink
      | some v =>
        have hover := h.overwrite hi hchain v
        rw [hfold] at hover
        rw [hmap]
        exact hover

theorem Holds.run (h : Holds build lower ht m) {ops : List (Op α)} (hops : ∀ op ∈ ops, NulFree lower op.key.bytes) :
    Holds build lower (HashTable.run build lower ht ops) (ops.foldl (mapSet lower) m) := by
  induction ops generalizing ht m with
  | nil => exact h
  | cons op ops ih =>
    exact ih (h.hashSet op (hops op List.mem_cons_self)) fun o ho => hops o (List.mem_cons_of_mem op ho)

theorem Holds.hashGet (h : Holds build lower ht m) (key : Key) (hval : Option Hval) :
    (HashTable.hashGet build ht key (hval.map fun v => v.value build key.bytes lower) lower).1 =
      (m (foldKey lower key.bytes)).map Prod.snd := by
  simp only [HashTable.hashGet]
  rw [findHash_fst]
  cases hscan : scanChain (ht.table (bucket ht (build.tableHash key.bytes lower)))
      (build.tableHash key.bytes lower) key.bytes lower with
  | mk front rest =>
    rw [h.scan hscan, Option.map_map]
    rfl

/-- What a caller sees of the table after the calls: a lookup gives the value of the last call for the key,
the count is the number of keys present, and a loop over the iterator ends and visits the entry of every
key present once. -/
structure Observed (build : Build) (lower : Bool) (ops : List (Op α)) (ht : Table α) : Prop where
  get : ∀ key (hval : Option Hval),
    (HashTable.hashGet build ht key (hval.map fun v => v.value build key.bytes lower) lower).1 =
      lastSet lower ops (foldKey lower key.bytes)
  count : ht.count = Set.ncard {k | (lastSet lower ops k).isSome}
  ends : ∀ n, ht.count ≤ n → visit ht n (hashFirst ht) = visit ht ht.count (hashFirst ht)
  once : ((visit ht ht.count (hashFirst ht)).map fun e => foldKey lower e.key).Nodup
  visits : ∀ k v, lastSet lower ops k = some v ↔
    ∃ e ∈ visit ht ht.count (hashFirst ht), foldKey lower e.key = k ∧ e.value = v

theorem Holds.observed {ops : List (Op α)} (h : Holds build lower ht (ops.foldl (mapSet lower) fun _ => none)) :
    Observed build lower ops ht := by
  have hlast := mapSet_eq_lastSet lower ops
  have hsome : ∀ k, (lastSet lower ops k).isSome =
      ((ops.foldl (mapSet lower) fun _ => none) k).isSome := by
    intro k
    rw [← hlast, Option.isSome_map]
  have hvisit : ∀ n, ht.count ≤ n → visit ht n (hashFirst ht) = entries ht := fun n hn =>
    visit_hashFirst ht (h.count ▸ hn)
  refine ⟨fun key hval => (h.hashGet key hval).trans (hlast _), ?_, ?_, ?_, ?_⟩
  · simp only [hsome]
    exact h.count.trans h.represents.length_eq
  · exact fun n hn => (hvisit n hn).trans (hvisit _ le_rfl).symm
  · rw [hvisit _ le_rfl]
    exact h.represents.nodup
  · intro k v
    rw [hvisit _ le_rfl, ← hlast, Option.map_eq_some_iff]
    constructor
    · rintro ⟨b, hb, rfl⟩
      obtain ⟨e, he, hkey, rfl⟩ := (h.represents.mem k b).mp hb
      exact ⟨e, he, hkey, rfl⟩
    · rintro ⟨e, he, rfl, rfl⟩
      exact ⟨_, h.represents.eq_some he, rfl⟩

/-- After any calls of one variant the table is the map of the last values, in either build; the two
builds have the same count and visit the same keys and values. -/
theorem observed_of_run (build build' : Build) (lower : Bool) (size : Nat) (ops : List (Op α))
    (hops : ∀ op ∈ ops, NulFree lower op.key.bytes) :
    let ht := run build lower (hashCreate α size) ops
    let ht' := run build' lower (hashCreate α size) ops
    Observed build lower ops ht ∧ ht'.count = ht.count ∧
      ((visit ht' ht'.count (hashFirst ht')).map fun e => (e.key, e.value)).Perm
        ((visit ht ht.count (hashFirst ht)).map fun e => (e.key, e.value)) := by
  intro ht ht'
  have h : Holds build lower ht (ops.foldl (mapSet lower) fun _ => none) :=
    (holds_create build lower size).run hops
  have h' : Holds build' lower ht' (ops.foldl (mapSet lower) fun _ => none) :=
    (holds_create build' lower size).run hops
  refine ⟨h.observed, ?_, ?_⟩
  · rw [h.count, h'.count, h.represents.length_eq, h'.represents.length_eq]
  · rw [visit_hashFirst ht h.count.ge, visit_hashFirst ht' h'.count.ge]
    simpa [List.map_map, Function.comp_def] using (h'.represents.perm_of_same h.represents).map Prod.snd

end Map

/-- The string `ABC`, set through the `_lower` variant, overwritten as `abc` and read as `aBc`. -/
theorem observed_of_run_folded :
    let ops : List (Op Nat) := [⟨⟨[65, 66, 67, 0], keyString⟩, .zero, some 1⟩, ⟨⟨[65, 98], 1⟩, .own, some 2⟩,
      ⟨⟨[97, 98, 99, 0], keyString⟩, .reported, some 3⟩]
    let ht := run .djb2 true (hashCreate Nat 10) ops
    (hashGet .djb2 ht ⟨[97, 66, 99], 3⟩ none true).1 = some 3 ∧ ht.count = 2 ∧ Observed .djb2 true ops ht :=
  ⟨by decide, by decide, (observed_of_run .djb2 (.siphash 1 2) true 10 _ (by decide)).1⟩

/-- A key set through the exact variant is not found by the `_lower` one. -/
theorem lower_misses_exact :
    let ht := hashSet .djb2 (hashCreate Nat 10) ⟨[65, 66, 67, 0], keyString⟩ 0 (some 1) false
    (hashGet .djb2 ht ⟨[65, 66, 67, 0], keyString⟩ none true).1 = none := by decide

end PjProject.HashTable
