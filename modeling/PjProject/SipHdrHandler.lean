import PjProject.SortedSearch
import PjProject.HashLower
import Mathlib.Data.Prod.Lex
import Mathlib.Data.List.Lex
import Mathlib.Data.List.Nodup

/-! The table of header parsers (`sip_parser.c`). It is sorted by the hash of the name, its length and its bytes. A parser
is registered under the name of its header, its lower-cased name and its short name, one after the other; a name is looked
for as it is and then lower-cased. -/

namespace PjProject.SipHdrHandler

open HashTable (hashCalc hashCalcTolower)
open SortedSearch (insertPos insertAt search)

/-- `PJSIP_MAX_HNAME_LEN` and `PJSIP_MAX_HEADER_TYPES`. -/
def maxHnameLen : Nat := 64
def maxHeaderTypes : Nat := 72

inductive Error
  | etoomany
  | enametoolong
  | eexists
  deriving DecidableEq, Repr

variable {F : Type*}

/-- `handler_rec`; `hname_len` is the length of the name. -/
structure HandlerRec (F : Type*) where
  hname : List UInt8
  hnameHash : UInt32
  handler : F
  deriving DecidableEq

/-- `pj_memcmp` for strings of one length. -/
def memcmp : List UInt8 → List UInt8 → Ordering
  | a :: as, b :: bs => if a < b then .lt else if b < a then .gt else memcmp as bs
  | _, _ => .eq

/-- `compare_handler`. -/
def compareHandler (name : List UInt8) (hash : UInt32) (r1 : HandlerRec F) : Ordering :=
  if r1.hnameHash < hash then .lt
  else if hash < r1.hnameHash then .gt
  else if r1.hname.length < name.length then .lt
  else if name.length < r1.hname.length then .gt
  else memcmp r1.hname name

/-- `int_register_parser`. -/
def intRegisterParser (handlers : List (HandlerRec F)) (name : List UInt8) (fptr : F) :
    Except Error (List (HandlerRec F)) :=
  if maxHeaderTypes ≤ handlers.length then .error .etoomany
  else if maxHnameLen + 1 ≤ name.length then .error .enametoolong
  else
    let hash := hashCalc false 0 name
    match insertPos (compareHandler name hash) handlers with
    | none => .error .eexists
    | some pos => .ok (insertAt handlers pos ⟨name, hash, fptr⟩)

/-- The arguments of `pjsip_register_hdr_parser`, without the terminators of the names. -/
structure Call (F : Type*) where
  hname : List UInt8
  hshortname : Option (List UInt8)
  fptr : F

/-- `pjsip_register_hdr_parser`: the table, and the error. What was put into the table stays there. -/
def registerHdrParser (handlers : List (HandlerRec F)) (c : Call F) : List (HandlerRec F) × Option Error :=
  if maxHnameLen < c.hname.length then (handlers, some .enametoolong)
  else
    match intRegisterParser handlers c.hname c.fptr with
    | .error error => (handlers, some error)
    | .ok handlers =>
      match intRegisterParser handlers (c.hname.map toLower) c.fptr with
      | .error error => (handlers, some error)
      | .ok handlers =>
        match c.hshortname with
        | none => (handlers, none)
        | some short =>
          match intRegisterParser handlers short c.fptr with
          | .error error => (handlers, some error)
          | .ok handlers => (handlers, none)

/-- `find_handler_imp`. -/
def findHandlerImp (handlers : List (HandlerRec F)) (hash : UInt32) (hname : List UInt8) : Option F :=
  (search (compareHandler hname hash) handlers (handlers.length + 1) 0 handlers.length).map HandlerRec.handler

/-- `find_handler`. -/
def findHandler (signedChar : Bool) (handlers : List (HandlerRec F)) (hname : List UInt8) : Option F :=
  if maxHnameLen ≤ hname.length then none
  else
    match findHandlerImp handlers (hashCalc false 0 hname) hname with
    | some func => some func
    | none =>
      let (hash, hnameCopy) := hashCalcTolower signedChar 0 hname
      findHandlerImp handlers hash hnameCopy

/-! The order of the table. -/

def order (hash : UInt32) (name : List UInt8) : ℕ ×ₗ ℕ ×ₗ List ℕ :=
  toLex (hash.toNat, toLex (name.length, name.map UInt8.toNat))

def place (name : List UInt8) : ℕ ×ₗ ℕ ×ₗ List ℕ := order (hashCalc false 0 name) name

theorem place_injective {a b : List UInt8} (h : place a = place b) : a = b := by
  have hbytes : a.map UInt8.toNat = b.map UInt8.toNat := congrArg (fun k => (ofLex (ofLex k).2).2) h
  exact List.map_injective_iff.mpr (fun _ _ => UInt8.toNat_inj.mp) hbytes

theorem memcmp_cases {a b : List UInt8} (h : a.length = b.length) :
    (memcmp a b = .lt ∧ a.map UInt8.toNat < b.map UInt8.toNat) ∨ (memcmp a b = .eq ∧ a = b) ∨
      (memcmp a b = .gt ∧ b.map UInt8.toNat < a.map UInt8.toNat) := by
  induction a generalizing b with
  | nil => exact .inr (.inl ⟨rfl, (List.length_eq_zero_iff.mp h.symm).symm⟩)
  | cons x a ih =>
    cases b with
    | nil => cases h
    | cons y b =>
      rw [memcmp, List.map_cons, List.map_cons, List.cons_lt_cons_iff, List.cons_lt_cons_iff]
      split
      next hlt => exact .inl ⟨rfl, .inl hlt⟩
      next hge =>
        split
        next hgt => exact .inr (.inr ⟨rfl, .inl hgt⟩)
        next hle =>
          obtain rfl : x = y := UInt8.le_antisymm (UInt8.not_lt.mp hle) (UInt8.not_lt.mp hge)
          rcases ih (Nat.succ.inj h) with ⟨hcmp, hrest⟩ | ⟨hcmp, rfl⟩ | ⟨hcmp, hrest⟩
          · exact .inl ⟨hcmp, .inr ⟨rfl, hrest⟩⟩
          · exact .inr (.inl ⟨hcmp, rfl⟩)
          · exact .inr (.inr ⟨hcmp, .inr ⟨rfl, hrest⟩⟩)

theorem order_lt_iff {hash hash' : UInt32} {a b : List UInt8} :
    order hash a < order hash' b ↔ hash < hash' ∨ hash = hash' ∧ (a.length < b.length ∨
      a.length = b.length ∧ a.map UInt8.toNat < b.map UInt8.toNat) := by
  rw [order, order, Prod.Lex.toLex_lt_toLex, Prod.Lex.toLex_lt_toLex, UInt32.toNat_inj, UInt32.lt_iff_toNat_lt]

theorem compareHandler_eq (name : List UInt8) (hash : UInt32) (r1 : HandlerRec F) :
    compareHandler name hash r1 = cmp (order r1.hnameHash r1.hname) (order hash name) := by
  unfold compareHandler
  split_ifs with hlt hgt hshort hlong
  · exact ((cmp_eq_lt_iff _ _).mpr (order_lt_iff.mpr (.inl hlt))).symm
  · exact ((cmp_eq_gt_iff _ _).mpr (order_lt_iff.mpr (.inl hgt))).symm
  all_goals
    have heq : r1.hnameHash = hash := UInt32.le_antisymm (UInt32.not_lt.mp hgt) (UInt32.not_lt.mp hlt)
    rw [heq]
  · exact ((cmp_eq_lt_iff _ _).mpr (order_lt_iff.mpr (.inr ⟨rfl, .inl hshort⟩))).symm
  · exact ((cmp_eq_gt_iff _ _).mpr (order_lt_iff.mpr (.inr ⟨rfl, .inl hlong⟩))).symm
  · have hlength : r1.hname.length = name.length := by omega
    rcases memcmp_cases hlength with ⟨hcmp, hbytes⟩ | ⟨hcmp, hsame⟩ | ⟨hcmp, hbytes⟩
    · rw [hcmp]
      exact ((cmp_eq_lt_iff _ _).mpr (order_lt_iff.mpr (.inr ⟨rfl, .inr ⟨hlength, hbytes⟩⟩))).symm
    · rw [hcmp, hsame, cmp_self_eq_eq]
    · rw [hcmp]
      exact ((cmp_eq_gt_iff _ _).mpr (order_lt_iff.mpr (.inr ⟨rfl, .inr ⟨hlength.symm, hbytes⟩⟩))).symm

/-! Names in lower case. -/

theorem toLower_toLower (c : UInt8) : toLower (toLower c) = toLower c := by
  refine forall_uint8 (p := fun c => toLower (toLower c) = toLower c) ?_ c
  decide +kernel

theorem map_toLower_map (name : List UInt8) : (name.map toLower).map toLower = name.map toLower := by
  rw [List.map_map]
  exact List.map_congr_left fun c _ => toLower_toLower c

/-- `pj_hash_calc_tolower` gives the lower-cased name and its hash. -/
theorem hashCalcTolower_name (signedChar : Bool) (name : List UInt8) :
    hashCalcTolower signedChar 0 name = (hashCalc false 0 (name.map toLower), name.map toLower) := by
  rw [HashTable.hashCalcTolower_eq, hashCalc, hashCalc, List.foldl_map]
  rfl

/-! One name. -/

def HandlerRec.order (r : HandlerRec F) : ℕ ×ₗ ℕ ×ₗ List ℕ := SipHdrHandler.order r.hnameHash r.hname

/-- The table is sorted, and each record has the hash of its name. -/
structure Ordered (handlers : List (HandlerRec F)) : Prop where
  sorted : SortedSearch.Sorted HandlerRec.order handlers
  hashed : ∀ r ∈ handlers, r.hnameHash = hashCalc false 0 r.hname

theorem Ordered.order_eq_iff {handlers : List (HandlerRec F)} (h : Ordered handlers) {r : HandlerRec F}
    (hr : r ∈ handlers) {name : List UInt8} : r.order = place name ↔ r.hname = name := by
  rw [HandlerRec.order, h.hashed r hr]
  exact ⟨place_injective, congrArg place⟩

theorem findHandlerImp_eq_some_iff {handlers : List (HandlerRec F)} (h : Ordered handlers) {name : List UInt8}
    {func : F} : findHandlerImp handlers (hashCalc false 0 name) name = some func ↔
      ∃ r ∈ handlers, r.hname = name ∧ r.handler = func := by
  have hsearch (r : HandlerRec F) := SortedSearch.search_eq_some_iff (a := r)
    (compareHandler_eq name (hashCalc false 0 name)) h.sorted
  rw [findHandlerImp, Option.map_eq_some_iff]
  constructor
  · rintro ⟨r, hfound, hfunc⟩
    obtain ⟨hr, hplace⟩ := (hsearch r).mp hfound
    exact ⟨r, hr, (h.order_eq_iff hr).mp hplace, hfunc⟩
  · rintro ⟨r, hr, hname, hfunc⟩
    exact ⟨r, (hsearch r).mpr ⟨hr, (h.order_eq_iff hr).mpr hname⟩, hfunc⟩

theorem intRegisterParser_new {handlers : List (HandlerRec F)} (h : Ordered handlers) {name : List UInt8}
    (hroom : handlers.length < maxHeaderTypes) (hlength : name.length ≤ maxHnameLen)
    (hnew : ∀ r ∈ handlers, r.hname ≠ name) (fptr : F) :
    ∃ handlers', intRegisterParser handlers name fptr = .ok handlers' ∧ Ordered handlers' ∧
      handlers'.length = handlers.length + 1 ∧
      ∀ r, r ∈ handlers' ↔ r = ⟨name, hashCalc false 0 name, fptr⟩ ∨ r ∈ handlers := by
  have hcompare := compareHandler_eq (F := F) name (hashCalc false 0 name)
  cases hpos : insertPos (compareHandler name (hashCalc false 0 name)) handlers with
  | none =>
    obtain ⟨r, hr, hplace⟩ := (SortedSearch.insertPos_eq_none_iff hcompare h.sorted).mp hpos
    exact absurd ((h.order_eq_iff hr).mp hplace) (hnew r hr)
  | some pos =>
    obtain ⟨hle, hsorted⟩ := SortedSearch.sorted_insertAt hcompare h.sorted hpos
      ⟨name, hashCalc false 0 name, fptr⟩ rfl
    refine ⟨insertAt handlers pos ⟨name, hashCalc false 0 name, fptr⟩, ?_, ⟨hsorted, fun r hr => ?_⟩,
      SortedSearch.length_insertAt hle _, fun r => SortedSearch.mem_insertAt⟩
    · rw [intRegisterParser, if_neg (Nat.not_le.mpr hroom), if_neg (Nat.not_le.mpr (Nat.lt_succ_of_le hlength))]
      dsimp only
      rw [hpos]
    · rcases SortedSearch.mem_insertAt.mp hr with rfl | hr
      · rfl
      · exact h.hashed r hr

/-! The names of a header. -/

def Call.entries (c : Call F) : List (List UInt8) := c.hname :: c.hname.map toLower :: c.hshortname.toList

/-- The names of a call without their case. -/
def Call.folded (c : Call F) : List (List UInt8) := (c.hname :: c.hshortname.toList).map (List.map toLower)

theorem Call.folded_of_mem {c : Call F} {name : List UInt8} (h : name ∈ c.entries) : name.map toLower ∈ c.folded := by
  rw [entries, List.mem_cons, List.mem_cons] at h
  rw [folded, List.map_cons, List.mem_cons]
  rcases h with rfl | rfl | h
  · exact .inl rfl
  · exact .inl (map_toLower_map c.hname)
  · exact .inr (List.mem_map_of_mem h)

/-- Header names have no case, so distinct names are distinct without it. -/
def Distinct (calls : List (Call F)) : Prop := (calls.flatMap Call.folded).Nodup

theorem Distinct.unique {calls : List (Call F)} (h : Distinct calls) {c c' : Call F} (hc : c ∈ calls)
    (hc' : c' ∈ calls) {name : List UInt8} (hname : name ∈ c.folded) (hname' : name ∈ c'.folded) : c = c' := by
  by_contra hne
  have hsymm : Std.Symm fun c c' : Call F => c.folded.Disjoint c'.folded := ⟨fun _ _ => List.Disjoint.symm⟩
  have hdisjoint := (List.nodup_flatMap.mp h).2
  exact List.Pairwise.forall (R := fun c c' : Call F => c.folded.Disjoint c'.folded) hdisjoint hc hc' hne hname hname'

/-! Runs. -/

structure Resolves (handlers : List (HandlerRec F)) (accepted : List (Call F)) : Prop where
  long : ∀ signedChar, ∀ c ∈ accepted, ∀ name, name.map toLower = c.hname.map toLower →
    findHandler signedChar handlers name = some c.fptr
  short : ∀ signedChar, ∀ c ∈ accepted, ∀ name ∈ c.hshortname, findHandler signedChar handlers name = some c.fptr
  other : ∀ signedChar name, (∀ c ∈ accepted, name.map toLower ∉ c.folded) →
    findHandler signedChar handlers name = none

/-- The table is sorted and finds what was accepted after each call, and a call that fails leaves it as it was. -/
def Registers : List (HandlerRec F) → List (Call F) → List (Call F) → Prop
  | handlers, accepted, [] => SortedSearch.Sorted HandlerRec.order handlers ∧ Resolves handlers accepted
  | handlers, accepted, c :: more =>
    (SortedSearch.Sorted HandlerRec.order handlers ∧ Resolves handlers accepted) ∧
      ((registerHdrParser handlers c).2 ≠ none → (registerHdrParser handlers c).1 = handlers) ∧
      Registers (registerHdrParser handlers c).1
        (if (registerHdrParser handlers c).2 = none then accepted ++ [c] else accepted) more

/-- There is no room at all, or the long name is too long for the first test; or all names are shorter than
`PJSIP_MAX_HNAME_LEN`, the long one has a capital letter, and there is room for all of them. -/
def Fits (handlers : List (HandlerRec F)) (c : Call F) : Prop :=
  (maxHeaderTypes ≤ handlers.length ∨ maxHnameLen < c.hname.length) ∨
    (c.hname.length < maxHnameLen ∧ (∀ name ∈ c.hshortname, name.length < maxHnameLen) ∧
      c.hname.map toLower ≠ c.hname ∧ handlers.length + c.entries.length ≤ maxHeaderTypes)

def Permitted : List (HandlerRec F) → List (Call F) → Prop
  | _, [] => True
  | handlers, c :: more => Fits handlers c ∧ Permitted (registerHdrParser handlers c).1 more

/-- The table has the names of the calls that were accepted, which all are short enough to be found. -/
structure Table (handlers : List (HandlerRec F)) (accepted : List (Call F)) : Prop where
  ordered : Ordered handlers
  records : ∀ name func, (∃ r ∈ handlers, r.hname = name ∧ r.handler = func) ↔
    ∃ c ∈ accepted, c.fptr = func ∧ name ∈ c.entries
  fits : ∀ c ∈ accepted, ∀ name ∈ c.entries, name.length < maxHnameLen

theorem table_nil : Table ([] : List (HandlerRec F)) [] where
  ordered := ⟨List.Pairwise.nil, nofun⟩
  records _ _ := ⟨fun ⟨_, hr, _⟩ => absurd hr List.not_mem_nil, fun ⟨_, hc, _⟩ => absurd hc List.not_mem_nil⟩
  fits := nofun

/-- The two searches. -/
theorem Table.find {handlers : List (HandlerRec F)} {accepted : List (Call F)} (h : Table handlers accepted)
    (signedChar : Bool) {name : List UInt8} {func : F} (hfound : findHandler signedChar handlers name = some func) :
    ∃ c ∈ accepted, c.fptr = func ∧ (name ∈ c.entries ∨ name.map toLower ∈ c.entries) := by
  unfold findHandler at hfound
  rw [hashCalcTolower_name] at hfound
  split at hfound
  · cases hfound
  · split at hfound
    next first hfirst =>
      rw [findHandlerImp_eq_some_iff h.ordered, h.records] at hfirst
      obtain ⟨c, hc, hfunc, hname⟩ := hfirst
      exact ⟨c, hc, hfunc.trans (Option.some.inj hfound), .inl hname⟩
    · dsimp only at hfound
      rw [findHandlerImp_eq_some_iff h.ordered, h.records] at hfound
      obtain ⟨c, hc, hfunc, hname⟩ := hfound
      exact ⟨c, hc, hfunc, .inr hname⟩

theorem Table.isSome_find {handlers : List (HandlerRec F)} {accepted : List (Call F)} (h : Table handlers accepted)
    (signedChar : Bool) {name : List UInt8} {c : Call F} (hc : c ∈ accepted) (hlength : name.length < maxHnameLen)
    (hname : name ∈ c.entries ∨ name.map toLower ∈ c.entries) :
    ∃ func, findHandler signedChar handlers name = some func := by
  unfold findHandler
  rw [if_neg (Nat.not_le.mpr hlength), hashCalcTolower_name]
  cases hfirst : findHandlerImp handlers (hashCalc false 0 name) name with
  | some func => exact ⟨func, rfl⟩
  | none =>
    refine ⟨c.fptr, ?_⟩
    dsimp only
    rw [findHandlerImp_eq_some_iff h.ordered, h.records]
    refine ⟨c, hc, rfl, hname.resolve_left fun hmem => ?_⟩
    have hexact := (findHandlerImp_eq_some_iff h.ordered).mpr ((h.records name c.fptr).mpr ⟨c, hc, rfl, hmem⟩)
    rw [hfirst] at hexact
    cases hexact

theorem Table.resolves {handlers : List (HandlerRec F)} {accepted : List (Call F)} (h : Table handlers accepted)
    (hdistinct : Distinct accepted) : Resolves handlers accepted := by
  have hfolded {c : Call F} {name : List UInt8} (hname : name ∈ c.entries ∨ name.map toLower ∈ c.entries) :
      name.map toLower ∈ c.folded := by
    rcases hname with hname | hname
    · exact Call.folded_of_mem hname
    · rw [← map_toLower_map]
      exact Call.folded_of_mem hname
  have hmain (signedChar : Bool) {c : Call F} (hc : c ∈ accepted) {name : List UInt8} (hlength : name.length < maxHnameLen)
      (hname : name ∈ c.entries ∨ name.map toLower ∈ c.entries) :
      findHandler signedChar handlers name = some c.fptr := by
    obtain ⟨func, hfunc⟩ := h.isSome_find signedChar hc hlength hname
    obtain ⟨c', hc', rfl, hname'⟩ := h.find signedChar hfunc
    rw [hfunc, hdistinct.unique hc hc' (hfolded hname) (hfolded hname')]
  constructor
  · intro signedChar c hc name hname
    have hin : c.hname.map toLower ∈ c.entries := List.mem_cons_of_mem _ List.mem_cons_self
    refine hmain signedChar hc ?_ (.inr (hname ▸ hin))
    have hlength := h.fits c hc _ hin
    rw [← hname, List.length_map] at hlength
    exact hlength
  · intro signedChar c hc name hname
    have hin : name ∈ c.entries :=
      List.mem_cons_of_mem _ (List.mem_cons_of_mem _ (Option.mem_toList.mpr hname))
    exact hmain signedChar hc (h.fits c hc name hin) (.inl hin)
  · intro signedChar name hnone
    refine Option.eq_none_iff_forall_ne_some.mpr fun func hfunc => ?_
    obtain ⟨c, hc, -, hname⟩ := h.find signedChar hfunc
    exact hnone c hc (hfolded hname)

/-! One call. -/

def registerAll (fptr : F) : List (List UInt8) → List (HandlerRec F) → Except Error (List (HandlerRec F))
  | [], handlers => .ok handlers
  | name :: names, handlers => (intRegisterParser handlers name fptr).bind (registerAll fptr names)

theorem registerHdrParser_of_all {handlers handlers' : List (HandlerRec F)} {c : Call F}
    (hlength : c.hname.length ≤ maxHnameLen) (h : registerAll c.fptr c.entries handlers = .ok handlers') :
    registerHdrParser handlers c = (handlers', none) := by
  rw [Call.entries, registerAll] at h
  rw [registerHdrParser, if_neg (Nat.not_lt.mpr hlength)]
  cases hfirst : intRegisterParser handlers c.hname c.fptr with
  | error error =>
    rw [hfirst] at h
    cases h
  | ok first =>
    rw [hfirst, Except.bind, registerAll] at h
    dsimp only
    cases hsecond : intRegisterParser first (c.hname.map toLower) c.fptr with
    | error error =>
      rw [hsecond] at h
      cases h
    | ok second =>
      rw [hsecond, Except.bind] at h
      dsimp only
      cases hshort : c.hshortname with
      | none =>
        rw [hshort] at h
        obtain rfl := Except.ok.inj h
        rfl
      | some short =>
        rw [hshort, Option.toList_some, registerAll] at h
        dsimp only
        cases hthird : intRegisterParser second short c.fptr with
        | error error =>
          rw [hthird] at h
          cases h
        | ok third =>
          rw [hthird] at h
          obtain rfl := Except.ok.inj h
          rfl

theorem registerAll_new {handlers : List (HandlerRec F)} (h : Ordered handlers) {names : List (List UInt8)}
    (hnodup : names.Nodup) (hroom : handlers.length + names.length ≤ maxHeaderTypes)
    (hlength : ∀ name ∈ names, name.length ≤ maxHnameLen) (hnew : ∀ name ∈ names, ∀ r ∈ handlers, r.hname ≠ name)
    (fptr : F) : ∃ handlers', registerAll fptr names handlers = .ok handlers' ∧ Ordered handlers' ∧
      ∀ r, r ∈ handlers' ↔ r ∈ handlers ∨ ∃ name ∈ names, r = ⟨name, hashCalc false 0 name, fptr⟩ := by
  induction names generalizing handlers with
  | nil =>
    refine ⟨handlers, rfl, h, fun r => ⟨.inl, fun hr => hr.resolve_right ?_⟩⟩
    exact fun ⟨name, hname, _⟩ => List.not_mem_nil hname
  | cons name names ih =>
    obtain ⟨hfirst, hrest⟩ := List.nodup_cons.mp hnodup
    rw [List.length_cons] at hroom
    obtain ⟨next, hnext, hordered, hmore, hmem⟩ := intRegisterParser_new h (by omega)
      (hlength name List.mem_cons_self) (hnew name List.mem_cons_self) fptr
    have hnew' : ∀ other ∈ names, ∀ r ∈ next, r.hname ≠ other := by
      intro other hother r hr
      rcases (hmem r).mp hr with rfl | hr
      · rintro rfl
        exact hfirst hother
      · exact hnew other (List.mem_cons_of_mem _ hother) r hr
    obtain ⟨handlers', hall, hordered', hmem'⟩ := ih hordered hrest (by omega)
      (fun other hother => hlength other (List.mem_cons_of_mem _ hother)) hnew'
    refine ⟨handlers', ?_, hordered', fun r => ?_⟩
    · rw [registerAll, hnext]
      exact hall
    · rw [hmem', hmem, or_comm (b := r ∈ handlers), or_assoc]
      refine or_congr_right ?_
      constructor
      · rintro (rfl | ⟨other, hother, rfl⟩)
        · exact ⟨name, List.mem_cons_self, rfl⟩
        · exact ⟨other, List.mem_cons_of_mem _ hother, rfl⟩
      · rintro ⟨other, hother, rfl⟩
        rcases List.mem_cons.mp hother with rfl | hother
        · exact .inl rfl
        · exact .inr ⟨other, hother, rfl⟩

/-- A table that has no room, and a long name that is too long for the first test. -/
theorem registerHdrParser_rejected {handlers : List (HandlerRec F)} {c : Call F}
    (h : maxHeaderTypes ≤ handlers.length ∨ maxHnameLen < c.hname.length) :
    (registerHdrParser handlers c).1 = handlers ∧ (registerHdrParser handlers c).2 ≠ none := by
  unfold registerHdrParser
  split
  · exact ⟨rfl, Option.some_ne_none _⟩
  next hlong =>
    rw [intRegisterParser, if_pos (h.resolve_right hlong)]
    exact ⟨rfl, Option.some_ne_none _⟩

theorem Distinct.names {accepted : List (Call F)} {c : Call F} (h : Distinct (accepted ++ [c])) :
    c.folded.Nodup ∧ ∀ c' ∈ accepted, ∀ name ∈ c'.folded, name ∉ c.folded := by
  rw [Distinct, List.flatMap_append, List.flatMap_singleton, List.nodup_append] at h
  obtain ⟨-, hnodup, hdisjoint⟩ := h
  refine ⟨hnodup, fun c' hc' name hname hmem => ?_⟩
  exact hdisjoint name (List.mem_flatMap.mpr ⟨c', hc', hname⟩) name hmem rfl

theorem Call.nodup_entries {c : Call F} (h : c.folded.Nodup) (hcase : c.hname.map toLower ≠ c.hname) :
    c.entries.Nodup := by
  rw [folded, List.map_cons, List.nodup_cons] at h
  have hshort : ∀ name ∈ c.hshortname.toList, name.map toLower ≠ c.hname.map toLower := by
    rintro name hname heq
    exact h.1 (heq ▸ List.mem_map_of_mem hname)
  refine List.nodup_cons.mpr ⟨fun hmem => ?_, List.nodup_cons.mpr ⟨fun hmem => ?_, ?_⟩⟩
  · rcases List.mem_cons.mp hmem with heq | hmem
    · exact hcase heq.symm
    · exact hshort _ hmem rfl
  · exact hshort _ hmem (map_toLower_map c.hname)
  · exact List.Nodup.of_map _ h.2

theorem Table.register {handlers : List (HandlerRec F)} {accepted : List (Call F)} {c : Call F}
    (h : Table handlers accepted) (hdistinct : Distinct (accepted ++ [c])) (hlong : c.hname.length < maxHnameLen)
    (hshort : ∀ name ∈ c.hshortname, name.length < maxHnameLen) (hcase : c.hname.map toLower ≠ c.hname)
    (hroom : handlers.length + c.entries.length ≤ maxHeaderTypes) :
    (registerHdrParser handlers c).2 = none ∧ Table (registerHdrParser handlers c).1 (accepted ++ [c]) := by
  obtain ⟨hnodup, hfresh⟩ := hdistinct.names
  have hlength : ∀ name ∈ c.entries, name.length < maxHnameLen := by
    intro name hname
    rw [Call.entries, List.mem_cons, List.mem_cons, Option.mem_toList] at hname
    rcases hname with rfl | rfl | hname
    · exact hlong
    · rw [List.length_map]
      exact hlong
    · exact hshort name hname
  have hnew : ∀ name ∈ c.entries, ∀ r ∈ handlers, r.hname ≠ name := by
    rintro name hname r hr rfl
    obtain ⟨c', hc', -, hname'⟩ := (h.records r.hname r.handler).mp ⟨r, hr, rfl, rfl⟩
    exact hfresh c' hc' _ (Call.folded_of_mem hname') (Call.folded_of_mem hname)
  obtain ⟨handlers', hall, hordered, hmem⟩ := registerAll_new h.ordered (Call.nodup_entries hnodup hcase) hroom
    (fun name hname => (hlength name hname).le) hnew c.fptr
  rw [registerHdrParser_of_all hlong.le hall]
  refine ⟨rfl, hordered, fun name func => ?_, fun c' hc' name hname => ?_⟩
  · constructor
    · rintro ⟨r, hr, rfl, rfl⟩
      rcases (hmem r).mp hr with hr | ⟨name, hname, rfl⟩
      · obtain ⟨c', hc', hfunc, hname⟩ := (h.records r.hname r.handler).mp ⟨r, hr, rfl, rfl⟩
        exact ⟨c', List.mem_append_left _ hc', hfunc, hname⟩
      · exact ⟨c, List.mem_append_right _ List.mem_cons_self, rfl, hname⟩
    · rintro ⟨c', hc', rfl, hname⟩
      rcases List.mem_append.mp hc' with hc' | hc'
      · obtain ⟨r, hr, hsame⟩ := (h.records name c'.fptr).mpr ⟨c', hc', rfl, hname⟩
        exact ⟨r, (hmem r).mpr (.inl hr), hsame⟩
      · obtain rfl := List.mem_singleton.mp hc'
        exact ⟨⟨name, hashCalc false 0 name, c'.fptr⟩, (hmem _).mpr (.inr ⟨name, hname, rfl⟩), rfl, rfl⟩
  · rcases List.mem_append.mp hc' with hc' | hc'
    · exact h.fits c' hc' name hname
    · obtain rfl := List.mem_singleton.mp hc'
      exact hlength name hname

theorem Distinct.left {accepted calls : List (Call F)} (h : Distinct (accepted ++ calls)) : Distinct accepted := by
  rw [Distinct, List.flatMap_append] at h
  exact (List.nodup_append.mp h).1

theorem Table.registers {handlers : List (HandlerRec F)} {accepted calls : List (Call F)} (h : Table handlers accepted)
    (hdistinct : Distinct (accepted ++ calls)) (hpermitted : Permitted handlers calls) :
    Registers handlers accepted calls := by
  induction calls generalizing handlers accepted with
  | nil => exact ⟨h.ordered.sorted, h.resolves hdistinct.left⟩
  | cons c more ih =>
    obtain ⟨hfits, hmore⟩ := hpermitted
    refine ⟨⟨h.ordered.sorted, h.resolves hdistinct.left⟩, ?_⟩
    rcases hfits with hrejected | ⟨hlong, hshort, hcase, hroom⟩
    · obtain ⟨hsame, herror⟩ := registerHdrParser_rejected hrejected
      rw [hsame] at hmore ⊢
      rw [if_neg herror]
      refine ⟨fun _ => rfl, ih h ?_ hmore⟩
      rw [Distinct, List.flatMap_append, List.flatMap_cons] at hdistinct
      rw [Distinct, List.flatMap_append]
      exact hdistinct.sublist ((List.Sublist.refl _).append (List.sublist_append_right _ _))
    · rw [List.append_cons] at hdistinct
      obtain ⟨haccepted, hnext⟩ := h.register hdistinct.left hlong hshort hcase hroom
      rw [if_pos haccepted]
      exact ⟨fun herror => absurd haccepted herror, ih hnext hdistinct hmore⟩

/-- In every permitted run the table is as it should be. -/
theorem registers_distinct (calls : List (Call F)) (hdistinct : Distinct calls) (hpermitted : Permitted [] calls) :
    Registers [] [] calls := table_nil.registers hdistinct hpermitted

/-- `Via` with the short name `v`, and a header that has none. -/
theorem registers_via : Registers [] []
    [(⟨ascii "Via", some (ascii "v"), 1⟩ : Call Nat), ⟨ascii "Max-Forwards", none, 2⟩] := by
  refine registers_distinct _ (by unfold Distinct; decide +kernel) ⟨.inr (by decide +kernel), .inr (by decide +kernel), trivial⟩

/-- A name of 64 characters is registered and not found. -/
theorem not_registers_distinct : ¬ ∀ calls : List (Call Nat), Distinct calls → Registers [] [] calls := by
  intro h
  obtain ⟨-, -, -, hresolves⟩ := h [⟨List.replicate 64 88, none, 0⟩] (by unfold Distinct; decide +kernel)
  have haccepted : (registerHdrParser [] (⟨List.replicate 64 88, none, 0⟩ : Call Nat)).2 = none := by decide +kernel
  rw [if_pos haccepted] at hresolves
  have hfound := hresolves.long true _ List.mem_cons_self (List.replicate 64 88) rfl
  exact absurd hfound (by decide +kernel)

end PjProject.SipHdrHandler
