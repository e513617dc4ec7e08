import PjProject.DnsCache

/-! The counter of a cached entry is the number of its references: one for the table, one for every callback that uses
it, and those that the code has in hand between two of its statements. An entry is released when the last one goes. -/

namespace PjProject.DnsCache

open DnsResolver (ResKey initResKey ValidArgs)

/-- `held` are the references that the code has in hand. -/
structure Inv (s : Cache) (held : List Entry) : Prop where
  keys : (s.table.map fun e => (s.entries e).key).Nodup
  refs : ∀ e, (s.entries e).refCnt = s.table.count e + s.users.count e + held.count e
  known : ∀ e, s.nextEntry ≤ e → (s.entries e).refCnt = 0 ∧ s.released e = 0
  released : ∀ e < s.nextEntry, s.released e = if (s.entries e).refCnt = 0 then 1 else 0
  safe : ∀ d ∈ s.disposals, d.inTable = false ∧ d.users = 0

variable {s : Cache} {held : List Entry} {e : Entry} {key : ResKey}

theorem inv_create (cacheMaxTtl : Nat) : Inv (create cacheMaxTtl) [] where
  keys := List.nodup_nil
  refs _ := rfl
  known _ _ := ⟨rfl, rfl⟩
  released e he := absurd he (Nat.not_lt_zero e)
  safe := nofun

theorem Inv.nodup (h : Inv s held) : s.table.Nodup := List.Nodup.of_map _ h.keys

theorem Inv.lt_of_held (h : Inv s (e :: held)) : e < s.nextEntry := by
  by_contra hge
  have hzero := (h.known e (Nat.le_of_not_lt hge)).1
  rw [h.refs, List.count_cons_self] at hzero
  omega

theorem find_eq_some (h : s.find key = some e) : e ∈ s.table ∧ (s.entries e).key = key :=
  ⟨List.mem_of_find?_eq_some h, by simpa using List.find?_some h⟩

theorem table_remove (h : s.find key = some e) :
    ∃ front back, s.table = front ++ e :: back ∧ (s.remove key).table = front ++ back := by
  obtain ⟨hkey, front, back, htable, hfront⟩ := List.find?_eq_some_iff_append.mp h
  refine ⟨front, back, htable, ?_⟩
  have hnot : ∀ a ∈ front, ¬ decide ((s.entries a).key = key) = true := by
    intro a ha
    simpa using hfront a ha
  have herase : (front ++ e :: back).eraseP (fun a => decide ((s.entries a).key = key)) = front ++ back := by
    rw [List.eraseP_append_right _ hnot]
    exact congrArg (front ++ ·) (List.eraseP_cons_of_pos hkey)
  rw [← herase, ← htable]
  rfl

/-- The reference of the table is in hand once the entry is taken out. -/
theorem Inv.remove (h : Inv s held) (hfind : s.find key = some e) : Inv (s.remove key) (e :: held) := by
  obtain ⟨front, back, htable, hremove⟩ := table_remove hfind
  have hkeys := h.keys
  refine ⟨?_, fun a => ?_, h.known, h.released, h.safe⟩
  · rw [htable, List.map_append, List.map_cons] at hkeys
    rw [hremove, List.map_append]
    exact (List.nodup_middle.mp hkeys).of_cons
  · have hrefs := h.refs a
    rw [htable] at hrefs
    rw [hremove]
    simp only [List.count_append, List.count_cons, Cache.remove] at hrefs ⊢
    omega

theorem remove_of_find_none (h : s.find key = none) : s.remove key = s := by
  have hnone : ∀ a ∈ s.table, ¬ decide ((s.entries a).key = key) = true := List.find?_eq_none.mp h
  rw [Cache.remove, List.eraseP_of_forall_not hnone]

/-- After an entry is taken out, its key is not in the table. -/
theorem Inv.find_remove (h : Inv s held) : (s.remove key).find key = none := by
  cases hfind : s.find key with
  | none => rw [remove_of_find_none hfind, hfind]
  | some e =>
    obtain ⟨front, back, htable, hremove⟩ := table_remove hfind
    have hkeys := h.keys
    rw [htable, List.map_append, List.map_cons, (find_eq_some hfind).2] at hkeys
    obtain ⟨hnot, -⟩ := List.nodup_cons.mp (List.nodup_middle.mp hkeys)
    refine List.find?_eq_none.mpr fun a ha hkey => hnot ?_
    rw [hremove] at ha
    rw [← List.map_append]
    exact List.mem_map.mpr ⟨a, ha, of_decide_eq_true hkey⟩

theorem setEntry_of_ne {a : Entry} (c : CachedRes) (h : a ≠ e) : (s.setEntry e c).entries a = s.entries a := by
  show Function.update s.entries e c a = s.entries a
  rw [Function.update_of_ne h]

theorem setEntry_self (c : CachedRes) : (s.setEntry e c).entries e = c := by
  show Function.update s.entries e c e = c
  rw [Function.update_self]

/-- A change of the counter leaves every key as it is. -/
theorem key_setRefCnt (n : Nat) (a : Entry) : ((s.setRefCnt e n).entries a).key = (s.entries a).key := by
  by_cases ha : a = e
  · rw [ha, Cache.setRefCnt, setEntry_self]
  · rw [Cache.setRefCnt, setEntry_of_ne _ ha]

theorem refCnt_setRefCnt (n : Nat) (a : Entry) :
    ((s.setRefCnt e n).entries a).refCnt = if a = e then n else (s.entries a).refCnt := by
  by_cases ha : a = e
  · rw [if_pos ha, ha, Cache.setRefCnt, setEntry_self]
  · rw [if_neg ha, Cache.setRefCnt, setEntry_of_ne _ ha]

theorem released_dispose (fate : Fate) (a : Entry) :
    (s.dispose e fate).released a = s.released a + if e = a ∧ fate = .released then 1 else 0 := by
  simp only [Cache.released, Cache.dispose, List.countP_append, List.countP_singleton, decide_eq_true_eq]

theorem safe_dispose (h : ∀ d ∈ s.disposals, d.inTable = false ∧ d.users = 0) (htable : s.table.count e = 0)
    (husers : s.users.count e = 0) (fate : Fate) :
    ∀ d ∈ (s.dispose e fate).disposals, d.inTable = false ∧ d.users = 0 := by
  intro d hd
  rcases List.mem_append.mp hd with hd | hd
  · exact h d hd
  · rw [List.mem_singleton.mp hd]
    refine ⟨?_, husers⟩
    simpa using List.count_eq_zero.mp htable

/-- A reference that is in hand is given back, and the last one releases the entry. -/
theorem Inv.release (h : Inv s (e :: held)) : Inv (s.release e) held := by
  have hlt := h.lt_of_held
  have hrefs := h.refs e
  rw [List.count_cons_self] at hrefs
  have hreleased := h.released e hlt
  rw [if_neg (by omega)] at hreleased
  have hkeys : (s.table.map fun a => ((s.setRefCnt e ((s.entries e).refCnt - 1)).entries a).key).Nodup := by
    simp only [key_setRefCnt]
    exact h.keys
  have hothers : ∀ a, ((s.setRefCnt e ((s.entries e).refCnt - 1)).entries a).refCnt =
      s.table.count a + s.users.count a + held.count a := by
    intro a
    have ha := h.refs a
    rw [List.count_cons] at ha
    rw [refCnt_setRefCnt]
    by_cases hae : a = e
    · rw [if_pos hae, hae]
      omega
    · rw [if_neg hae, ha, if_neg (by simpa using Ne.symm hae), Nat.add_zero]
  have hknown : ∀ a, s.nextEntry ≤ a → ((s.setRefCnt e ((s.entries e).refCnt - 1)).entries a).refCnt = 0 := by
    intro a ha
    rw [refCnt_setRefCnt, if_neg (Nat.ne_of_gt (Nat.lt_of_lt_of_le hlt ha))]
    exact (h.known a ha).1
  rw [Cache.release]
  by_cases hlast : ((s.setRefCnt e ((s.entries e).refCnt - 1)).entries e).refCnt = 0
  · simp only [hlast, if_true]
    rw [hothers] at hlast
    refine ⟨hkeys, hothers, fun a ha => ⟨hknown a ha, ?_⟩, fun a ha => ?_, ?_⟩
    · rw [released_dispose, if_neg (fun hea : e = a ∧ _ => (hea.1 ▸ hlt : a < s.nextEntry).not_ge ha)]
      exact (h.known a ha).2
    · rw [released_dispose]
      by_cases hae : a = e
      · have hzero : ((s.setRefCnt e ((s.entries e).refCnt - 1)).entries a).refCnt = 0 := by
          rw [hothers, hae]
          exact hlast
        rw [hae, if_pos ⟨rfl, rfl⟩]
        rw [hae] at hzero
        exact (congrArg (· + 1) hreleased).trans (if_pos hzero).symm
      · have hsame : ((s.setRefCnt e ((s.entries e).refCnt - 1)).entries a).refCnt = (s.entries a).refCnt := by
          rw [refCnt_setRefCnt, if_neg hae]
        rw [if_neg (fun hea => hae hea.1.symm), Nat.add_zero]
        exact (h.released a ha).trans (by rw [← hsame]; rfl)
    · exact safe_dispose h.safe (by omega) (by omega) _
  · simp only [hlast, if_false]
    refine ⟨hkeys, hothers, fun a ha => ⟨hknown a ha, (h.known a ha).2⟩, fun a ha => ?_, h.safe⟩
    by_cases hae : a = e
    · rw [hae, if_neg hlast]
      exact hreleased
    · rw [refCnt_setRefCnt, if_neg hae]
      exact h.released a ha

theorem Inv.clear (h : Inv s held) : Inv (s.clear key) held := by
  rw [Cache.clear]
  cases hfind : s.find key with
  | none =>
    simp only [remove_of_find_none hfind]
    exact h
  | some e => exact (h.remove hfind).release

/-- A callback takes a reference of its own for as long as it runs. -/
theorem Inv.lend (h : Inv s []) (hmem : e ∈ s.table) :
    Inv { s.setRefCnt e ((s.entries e).refCnt + 1) with users := e :: s.users } [] := by
  have hpos : 0 < (s.entries e).refCnt := by
    have hcount := List.count_pos_iff.mpr hmem
    rw [h.refs]
    omega
  have hzero : ∀ a, ((s.setRefCnt e ((s.entries e).refCnt + 1)).entries a).refCnt = 0 ↔ (s.entries a).refCnt = 0 := by
    intro a
    rw [refCnt_setRefCnt]
    split
    · next hae =>
        rw [hae]
        omega
    · exact Iff.rfl
  refine ⟨?_, fun a => ?_, fun a ha => ?_, fun a ha => ?_, h.safe⟩
  · simp only [key_setRefCnt]
    exact h.keys
  · have hrefs := h.refs a
    simp only [refCnt_setRefCnt, List.count_cons]
    by_cases hae : a = e
    · rw [if_pos hae, ← hae, hrefs]
      simp [Cache.setRefCnt, Cache.setEntry]
      omega
    · rw [if_neg hae, if_neg (by simpa using Ne.symm hae)]
      exact hrefs
  · exact ⟨(hzero a).mpr (h.known a ha).1, (h.known a ha).2⟩
  · simp only [hzero]
    exact h.released a ha

theorem Inv.startQuery (h : Inv s []) (type : Nat) (name : List UInt8) (now : TimeVal) :
    Inv (startQuery s type name now) [] := by
  rw [DnsCache.startQuery]
  split
  · exact h
  · cases hfind : s.find (initResKey type name) with
    | none => exact h
    | some e =>
      by_cases hfresh : TimeVal.gt (s.entries e).expiryTime now = true
      · simp only [hfresh, if_true]
        exact h.lend (find_eq_some hfind).1
      · simp only [hfresh]
        exact (h.remove hfind).release

theorem Inv.callbackReturn (h : Inv s []) (hmem : e ∈ s.users) : Inv (callbackReturn s e) [] := by
  refine Inv.release ⟨h.keys, fun a => ?_, h.known, h.released, h.safe⟩
  have hcount := List.count_pos_iff.mpr hmem
  have hrefs := h.refs a
  simp only [List.count_erase, List.count_cons, List.count_nil] at hrefs ⊢
  by_cases hae : e = a
  · subst hae
    simp
    omega
  · simp [hae]
    omega

/-- An entry without references beside the one in hand is in no table and used by no callback. -/
theorem Inv.unused (h : Inv s held) (hall : (s.entries e).refCnt = held.count e) :
    s.table.count e = 0 ∧ s.users.count e = 0 := by
  have hrefs := h.refs e
  omega

theorem map_key_setEntry (hmem : e ∉ s.table) (c : CachedRes) :
    (s.table.map fun a => ((s.setEntry e c).entries a).key) = s.table.map fun a => (s.entries a).key := by
  apply List.map_congr_left
  intro a ha
  have hae : a ≠ e := fun hae => hmem (hae ▸ ha)
  rw [setEntry_of_ne _ hae]

theorem find_eq_none : s.find key = none ↔ key ∉ s.table.map fun a => (s.entries a).key := by
  rw [Cache.find, List.find?_eq_none]
  simp

theorem Inv.allocEntry (h : Inv s []) : Inv (allocEntry s) [s.nextEntry] := by
  obtain ⟨hfree, hnever⟩ := h.known s.nextEntry le_rfl
  obtain ⟨htable, husers⟩ := h.unused hfree
  have hself : ((DnsCache.allocEntry s).entries s.nextEntry).refCnt = 1 := by
    rw [DnsCache.allocEntry]
    simp only [setEntry_self]
  have hother : ∀ a, a ≠ s.nextEntry → (DnsCache.allocEntry s).entries a = s.entries a := by
    intro a ha
    rw [DnsCache.allocEntry]
    simp only [setEntry_of_ne _ ha]
  refine ⟨?_, fun a => ?_, fun a ha => ?_, fun a ha => ?_, h.safe⟩
  · exact (map_key_setEntry (List.count_eq_zero.mp htable) _).symm ▸ h.keys
  · by_cases hae : a = s.nextEntry
    · rw [hae, hself]
      simp only [DnsCache.allocEntry, Cache.setEntry, htable, husers, List.count_singleton_self]
    · have hrefs := h.refs a
      rw [hother a hae, hrefs]
      simp [DnsCache.allocEntry, Cache.setEntry, Ne.symm hae]
  · have hlt : s.nextEntry < a := ha
    rw [hother a (Nat.ne_of_gt hlt)]
    exact h.known a (Nat.le_of_lt hlt)
  · by_cases hae : a = s.nextEntry
    · rw [hae, hself]
      exact hnever
    · have hlt : a < s.nextEntry := Nat.lt_of_le_of_ne (Nat.le_of_lt_succ ha) hae
      rw [hother a hae]
      exact h.released a hlt

theorem Inv.resetEntry (h : Inv s [e]) (hone : (s.entries e).refCnt = 1) : Inv (resetEntry s e) [e] := by
  obtain ⟨htable, husers⟩ := h.unused (e := e) (by rw [hone, List.count_singleton_self])
  have hcnt : ∀ a, ((DnsCache.resetEntry s e).entries a).refCnt = (s.entries a).refCnt := by
    intro a
    by_cases hae : a = e
    · rw [DnsCache.resetEntry, Cache.dispose, hae, setEntry_self]
    · rw [DnsCache.resetEntry, Cache.dispose, setEntry_of_ne _ hae]
  have hreleased : ∀ a, (DnsCache.resetEntry s e).released a = s.released a := by
    intro a
    rw [DnsCache.resetEntry, released_dispose, if_neg (fun hfate => absurd hfate.2 (by decide))]
    rfl
  refine ⟨?_, fun a => ?_, fun a ha => ?_, fun a ha => ?_, ?_⟩
  · exact (map_key_setEntry (List.count_eq_zero.mp htable) _).symm ▸ h.keys
  · rw [hcnt]
    exact h.refs a
  · rw [hcnt, hreleased]
    exact h.known a ha
  · rw [hcnt, hreleased]
    exact h.released a ha
  · rw [DnsCache.resetEntry]
    exact safe_dispose h.safe htable husers _

theorem refCnt_allocEntry : ((allocEntry s).entries s.nextEntry).refCnt = 1 := by
  rw [DnsCache.allocEntry]
  simp only [setEntry_self]

theorem Inv.find_allocEntry (h : Inv s []) (hfind : s.find key = none) : (DnsCache.allocEntry s).find key = none := by
  obtain ⟨htable, -⟩ := h.unused (h.known s.nextEntry le_rfl).1
  have hkeys : ((DnsCache.allocEntry s).table.map fun a => ((DnsCache.allocEntry s).entries a).key) =
      s.table.map fun a => (s.entries a).key := map_key_setEntry (List.count_eq_zero.mp htable) _
  rw [find_eq_none] at hfind ⊢
  rw [hkeys]
  exact hfind

theorem Inv.find_resetEntry (h : Inv s [e]) (hone : (s.entries e).refCnt = 1) (hfind : s.find key = none) :
    (DnsCache.resetEntry s e).find key = none := by
  obtain ⟨htable, -⟩ := h.unused (e := e) (by rw [hone, List.count_singleton_self])
  have hkeys : ((DnsCache.resetEntry s e).table.map fun a => ((DnsCache.resetEntry s e).entries a).key) =
      s.table.map fun a => (s.entries a).key := map_key_setEntry (List.count_eq_zero.mp htable) _
  rw [find_eq_none] at hfind ⊢
  rw [hkeys]
  exact hfind

/-- The entry for a response is in hand, with no other reference, and its key is free. -/
theorem Inv.takeEntry (h : Inv s []) (key : ResKey) :
    Inv (takeEntry s key).1 [(takeEntry s key).2] ∧
      ((takeEntry s key).1.entries (takeEntry s key).2).refCnt = 1 ∧ (takeEntry s key).1.find key = none := by
  rw [DnsCache.takeEntry]
  cases hfind : s.find key with
  | none => exact ⟨h.allocEntry, refCnt_allocEntry, h.find_allocEntry hfind⟩
  | some e =>
    have hremove := h.remove hfind
    have hfree : (s.remove key).find key = none := h.find_remove
    have hrefs := hremove.refs e
    rw [List.count_singleton_self] at hrefs
    by_cases hused : 1 < ((s.remove key).entries e).refCnt
    · -- callbacks use the entry, and the last of them will release it
      have hkeep : (s.remove key).release e =
          (s.remove key).setRefCnt e (((s.remove key).entries e).refCnt - 1) := by
        have hmore : ¬ (((s.remove key).setRefCnt e (((s.remove key).entries e).refCnt - 1)).entries e).refCnt = 0 := by
          rw [refCnt_setRefCnt, if_pos rfl]
          omega
        rw [Cache.release]
        exact if_neg hmore
      have hrelease := hremove.release
      rw [hkeep] at hrelease
      have hnone : ((s.remove key).setRefCnt e (((s.remove key).entries e).refCnt - 1)).find key = none := by
        rw [find_eq_none] at hfree ⊢
        simp only [key_setRefCnt]
        exact hfree
      simp only [hused, if_true]
      exact ⟨hrelease.allocEntry, refCnt_allocEntry, hrelease.find_allocEntry hnone⟩
    · have hone : ((s.remove key).entries e).refCnt = 1 := by omega
      simp only [hused, if_false]
      refine ⟨hremove.resetEntry hone, ?_, hremove.find_resetEntry hone hfree⟩
      rw [DnsCache.resetEntry, Cache.dispose, setEntry_self]
      exact hone

/-- The reference in hand becomes the one of the table. -/
theorem Inv.put (h : Inv s [e]) (hone : (s.entries e).refCnt = 1) (hfind : s.find key = none) (expiryTime : TimeVal)
    (pkt : Packet) : Inv (s.put e key expiryTime pkt) [] := by
  obtain ⟨htable, -⟩ := h.unused (e := e) (by rw [hone, List.count_singleton_self])
  have hkeys := map_key_setEntry (List.count_eq_zero.mp htable)
    { s.entries e with key := key, expiryTime := expiryTime, pkt := some pkt }
  have hcnt : ∀ a, ((s.put e key expiryTime pkt).entries a).refCnt = (s.entries a).refCnt := by
    intro a
    by_cases hae : a = e
    · rw [Cache.put, hae, setEntry_self]
    · rw [Cache.put, setEntry_of_ne _ hae]
  refine ⟨?_, fun a => ?_, fun a ha => ?_, fun a ha => ?_, h.safe⟩
  · rw [Cache.put]
    simp only [List.map_cons, setEntry_self]
    rw [hkeys]
    exact List.nodup_cons.mpr ⟨find_eq_none.mp hfind, h.keys⟩
  · have hrefs := h.refs a
    rw [hcnt, hrefs]
    simp only [Cache.put, Cache.setEntry, List.count_cons, List.count_nil]
    omega
  · rw [hcnt]
    exact h.known a ha
  · rw [hcnt]
    exact h.released a ha

theorem Inv.updateResCache (h : Inv s []) (key : ResKey) (success setExpiry : Bool) (pkt : Packet) (now : TimeVal) :
    Inv (updateResCache s key success setExpiry pkt now) [] := by
  have hfirst : Inv (if success then s else s.clear key) [] := by
    split
    · exact h
    · exact h.clear
  rw [DnsCache.updateResCache]
  generalize (if success then s else s.clear key) = u at hfirst
  by_cases httl : u.ttl success setExpiry pkt = 0
  · simp only [httl, if_true]
    exact hfirst.clear
  · obtain ⟨hinv, hone, hfind⟩ := hfirst.takeEntry key
    simp only [httl, if_false]
    exact hinv.put hone hfind _ pkt

theorem Inv.addEntry (h : Inv s []) (pkt : Packet) (setTtl : Bool) (now : TimeVal) :
    Inv (addEntry s pkt setTtl now) [] := by
  rw [DnsCache.addEntry]
  split
  · exact h
  · split
    · split
      · exact h.updateResCache _ true setTtl pkt now
      · exact h
    · split
      · exact h.updateResCache _ true setTtl pkt now
      · exact h
    · exact h

theorem Inv.step {t : Cache} {a : Action} (h : Inv s []) (hstep : step s a = some t) : Inv t [] := by
  cases a with
  | startQuery type name now => exact Option.some.inj hstep ▸ h.startQuery type name now
  | callbackReturn e =>
    by_cases hmem : e ∈ s.users
    · rw [DnsCache.step, if_pos hmem] at hstep
      exact Option.some.inj hstep ▸ h.callbackReturn hmem
    · rw [DnsCache.step, if_neg hmem] at hstep
      cases hstep
  | response key success pkt now =>
    obtain rfl := Option.some.inj hstep
    rw [onResponse]
    split
    · exact h.updateResCache key success true pkt now
    · exact h
  | addEntry pkt setTtl now => exact Option.some.inj hstep ▸ h.addEntry pkt setTtl now
  | setSettings cacheMaxTtl => exact Option.some.inj hstep ▸ ⟨h.keys, h.refs, h.known, h.released, h.safe⟩

/-- What was allocated was released once, if nothing refers to it any more, and not at all otherwise. -/
theorem Inv.released_eq (h : Inv s []) (he : e < s.nextEntry) :
    s.released e = if e ∈ s.table ∨ e ∈ s.users then 0 else 1 := by
  have hrefs := h.refs e
  rw [h.released e he]
  by_cases hused : e ∈ s.table ∨ e ∈ s.users
  · have hpos : 0 < s.table.count e ∨ 0 < s.users.count e :=
      hused.imp List.count_pos_iff.mpr List.count_pos_iff.mpr
    rw [if_pos hused, if_neg (by omega)]
  · obtain ⟨htable, husers⟩ := not_or.mp hused
    rw [List.count_eq_zero.mpr htable, List.count_eq_zero.mpr husers, List.count_nil] at hrefs
    rw [if_neg hused, if_pos hrefs]

theorem returns_all (s : Cache) : ∃ t, exec step s (s.users.map .callbackReturn) = some t ∧ t.users = [] ∧
    t.table = s.table ∧ t.nextEntry = s.nextEntry := by
  obtain ⟨users, husers⟩ : ∃ users, users = s.users := ⟨_, rfl⟩
  rw [← husers]
  induction users generalizing s with
  | nil => exact ⟨s, rfl, husers.symm, rfl, rfl⟩
  | cons e rest ih =>
    have hmem : e ∈ s.users := husers ▸ List.mem_cons_self
    have hsame : (DnsCache.callbackReturn s e).users = s.users.erase e ∧
        (DnsCache.callbackReturn s e).table = s.table ∧ (DnsCache.callbackReturn s e).nextEntry = s.nextEntry := by
      rw [DnsCache.callbackReturn, Cache.release]
      split
      · exact ⟨rfl, rfl, rfl⟩
      · exact ⟨rfl, rfl, rfl⟩
    obtain ⟨huser, htable, hnext⟩ := hsame
    have hrest : rest = (DnsCache.callbackReturn s e).users := by rw [huser, ← husers, List.erase_cons_head]
    obtain ⟨t, hrun, hdone, htable', hnext'⟩ := ih (DnsCache.callbackReturn s e) hrest
    refine ⟨t, ?_, hdone, htable'.trans htable, hnext'.trans hnext⟩
    rw [List.map_cons, exec_cons_eq_some]
    exact ⟨_, if_pos hmem, hrun⟩

/-- In every state reached, the counter of an entry is one for the table and one for every callback that uses it.
Entries were released or emptied only outside the table and without a callback, and an entry that has left the table
has been released once as soon as the callbacks that use it have returned. -/
theorem cache_entry_lifetime {cacheMaxTtl : Nat} {acts : List Action} {s : Cache}
    (hrun : exec step (create cacheMaxTtl) acts = some s) :
    (∀ e, (s.entries e).refCnt = s.table.count e + s.users.count e ∧ s.table.count e ≤ 1) ∧
      (∀ d ∈ s.disposals, d.inTable = false ∧ d.users = 0) ∧
      (∀ e < s.nextEntry, s.released e = if e ∈ s.table ∨ e ∈ s.users then 0 else 1) ∧
      ∃ t, exec step s (s.users.map .callbackReturn) = some t ∧
        ∀ e < s.nextEntry, t.released e = if e ∈ s.table then 0 else 1 := by
  have hkeep : ∀ s a t, Inv s [] → step s a = some t → Inv t [] := fun _ _ _ h hstep => h.step hstep
  have hinv : Inv s [] := exec_invariant (P := fun s => Inv s []) hkeep (inv_create cacheMaxTtl) hrun
  refine ⟨fun e => ⟨?_, List.nodup_iff_count_le_one.mp hinv.nodup e⟩, hinv.safe, fun e he => hinv.released_eq he, ?_⟩
  · have hrefs := hinv.refs e
    rw [List.count_nil] at hrefs
    exact hrefs
  · obtain ⟨t, hreturn, husers, htable, hnext⟩ := returns_all s
    have ht : Inv t [] := exec_invariant (P := fun s => Inv s []) hkeep hinv hreturn
    refine ⟨t, hreturn, fun e he => ?_⟩
    rw [ht.released_eq (hnext ▸ he), htable, husers]
    simp only [List.not_mem_nil, or_false]

/-- A response is replaced by a newer one while a callback uses it, and the callback returns. -/
def replacedInUse : List Action :=
  let pkt : Packet := ⟨0x8000, [], [⟨ascii "a.b", 1, 30⟩]⟩
  [.addEntry pkt true ⟨10, 0⟩, .startQuery 1 (ascii "a.b") ⟨20, 0⟩, .addEntry pkt true ⟨25, 0⟩, .callbackReturn 0]

theorem cache_entry_lifetime_replaced : ∃ s, exec step (create 300) replacedInUse = some s ∧ s.table = [1] ∧
    s.released 0 = 1 ∧ s.released 1 = 0 ∧ (s.entries 1).refCnt = 1 := by
  have hsome : ((exec step (create 300) replacedInUse).map fun s => (s.table, s.users, s.nextEntry)) =
      some ([1], [], 2) := by decide +kernel
  obtain ⟨s, hrun, hs⟩ := Option.map_eq_some_iff.mp hsome
  obtain ⟨htable, husers, hnext⟩ : s.table = [1] ∧ s.users = [] ∧ s.nextEntry = 2 := by simpa using hs
  obtain ⟨hrefs, -, hreleased, -⟩ := cache_entry_lifetime hrun
  refine ⟨s, hrun, htable, ?_, ?_, ?_⟩
  · rw [hreleased 0 (by rw [hnext]; decide), htable, husers]
    rfl
  · rw [hreleased 1 (by rw [hnext]; decide), htable, husers]
    rfl
  · rw [(hrefs 1).1, htable, husers]
    rfl

end PjProject.DnsCache
