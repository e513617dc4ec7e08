import PjProject.Base64

/-! Foreign characters in a text that is decoded (`base64.c`). The loops pass over them and take one only where the text ends
with it, as if it were a character of the last group. -/

namespace PjProject.Base64

def isValid (url : Bool) (b : UInt8) : Bool := base256Char url b != inv

/-- The values that the loops take from a text, one after another. -/
def values (url : Bool) : List UInt8 → List UInt8
  | [] => []
  | b :: rest => if base256Char url b = inv ∧ rest ≠ [] then values url rest else base256Char url b :: values url rest

def decodeValues : List UInt8 → List UInt8
  | c0 :: c1 :: c2 :: c3 :: rest => decodeGroup [c0, c1, c2, c3] ++ decodeValues rest
  | c => decodeGroup c

theorem values_takeChar (url : Bool) {rest : List UInt8} (h : rest ≠ []) :
    values url rest = (takeChar url rest).1 :: values url (takeChar url rest).2 := by
  induction rest with
  | nil => exact absurd rfl h
  | cons b rest ih =>
    rw [values, takeChar]
    by_cases hskip : base256Char url b = inv ∧ rest ≠ []
    · rw [if_pos hskip, if_pos hskip]
      exact ih hskip.2
    · rw [if_neg hskip, if_neg hskip]

theorem values_fill (url : Bool) (n : Nat) (rest : List UInt8) :
    (fill url n rest).1 = (values url rest).take n ∧ values url (fill url n rest).2 = (values url rest).drop n := by
  induction n generalizing rest with
  | zero => exact ⟨rfl, rfl⟩
  | succ n ih =>
    rw [fill]
    by_cases hnil : rest = []
    · subst hnil
      exact ⟨rfl, rfl⟩
    · rw [if_neg hnil, values_takeChar url hnil]
      obtain ⟨htake, hdrop⟩ := ih (takeChar url rest).2
      exact ⟨congrArg _ htake, hdrop⟩

theorem decodeValues_of_lt {c : List UInt8} (h : c.length < 4) : decodeValues c = decodeGroup c := by
  rcases c with _ | ⟨c0, _ | ⟨c1, _ | ⟨c2, _ | ⟨c3, more⟩⟩⟩⟩
  · rfl
  · rfl
  · rfl
  · rfl
  · simp only [List.length_cons] at h
    omega

theorem decodeValues_of_le {c : List UInt8} (h : 4 ≤ c.length) :
    decodeValues c = decodeGroup (c.take 4) ++ decodeValues (c.drop 4) := by
  rcases c with _ | ⟨c0, _ | ⟨c1, _ | ⟨c2, _ | ⟨c3, more⟩⟩⟩⟩
  · exact absurd h (by simp)
  · exact absurd h (by simp)
  · exact absurd h (by simp)
  · exact absurd h (by simp)
  · rfl

theorem decodeGroups_eq (url : Bool) {bound : Nat} {rest : List UInt8} (h : rest.length ≤ bound) :
    decodeGroups url bound rest = decodeValues (values url rest) := by
  induction bound generalizing rest with
  | zero =>
    rw [List.length_eq_zero_iff.mp (Nat.le_zero.mp h)]
    rfl
  | succ bound ih =>
    rw [decodeGroups]
    by_cases hnil : rest = []
    · subst hnil
      exact if_pos rfl
    · rw [if_neg hnil]
      obtain ⟨htake, hdrop⟩ := values_fill url 4 rest
      have hlength := (length_fill url 4 rest).2
      dsimp only
      rw [htake] at hlength ⊢
      rw [List.length_take] at hlength ⊢
      by_cases hfour : 4 ≤ (values url rest).length
      · rw [if_neg (by omega), ih (by omega), hdrop, decodeValues_of_le hfour]
      · rw [if_pos (by omega), decodeValues_of_lt (by omega), List.take_of_length_le (by omega)]

/-- The values of the characters of the alphabet, and one more when the text ends with a foreign character. -/
theorem values_eq (url : Bool) (rest : List UInt8) :
    values url rest = (rest.filter (isValid url)).map (base256Char url) ++
      if rest.getLast?.all (isValid url) then [] else [inv] := by
  induction rest with
  | nil =>
    rfl
  | cons b rest ih =>
    have hlast (hne : rest ≠ []) : (b :: rest).getLast? = rest.getLast? := by
      rw [List.getLast?_cons, List.getLast?_eq_some_getLast hne]
      rfl
    rw [values]
    by_cases hinv : base256Char url b = inv
    · have hfilter : (b :: rest).filter (isValid url) = rest.filter (isValid url) :=
        List.filter_cons_of_neg (by simp [isValid, hinv])
      rw [hfilter]
      by_cases hne : rest = []
      · subst hne
        have hforeign : ¬[b].getLast?.all (isValid url) = true := by simp [isValid, hinv]
        rw [if_neg (by simp), if_neg hforeign, hinv]
        rfl
      · rw [if_pos ⟨hinv, hne⟩, ih, hlast hne]
    · have hfilter : (b :: rest).filter (isValid url) = b :: rest.filter (isValid url) :=
        List.filter_cons_of_pos (by simp [isValid, hinv])
      rw [hfilter, if_neg fun h => hinv h.1, ih, List.map_cons, List.cons_append]
      by_cases hne : rest = []
      · subst hne
        have hvalid : [b].getLast?.all (isValid url) = true := by simp [isValid, hinv]
        rw [if_pos hvalid]
        rfl
      · rw [hlast hne]

theorem length_decodeValues (c : List UInt8) : (decodeValues c).length = c.length * 3 / 4 := by
  fun_induction decodeValues c with
  | case1 c0 c1 c2 c3 rest ih =>
    simp only [List.length_append, List.length_cons, decodeGroup, ih, List.length_nil]
    omega
  | case2 c hfour =>
    rcases c with _ | ⟨c0, _ | ⟨c1, _ | ⟨c2, _ | ⟨c3, more⟩⟩⟩⟩
    · rfl
    · simp [decodeGroup]
    · simp [decodeGroup]
    · simp [decodeGroup]
    · exact absurd rfl (hfour c0 c1 c2 c3 more)

/-- One more value changes what is written, unless it is the first of its group. -/
theorem decodeValues_concat_iff (c : List UInt8) (v : UInt8) :
    decodeValues (c ++ [v]) = decodeValues c ↔ c.length % 4 = 0 := by
  constructor
  · intro heq
    have hlength := congrArg List.length heq
    rw [length_decodeValues, length_decodeValues, List.length_append, List.length_singleton] at hlength
    omega
  · intro hfour
    fun_induction decodeValues c with
    | case1 c0 c1 c2 c3 rest ih =>
      simp only [List.length_cons] at hfour
      exact congrArg _ (ih (by omega))
    | case2 c hshort =>
      rcases c with _ | ⟨c0, _ | ⟨c1, _ | ⟨c2, _ | ⟨c3, more⟩⟩⟩⟩
      · rfl
      · exact absurd hfour (by simp)
      · exact absurd hfour (by simp)
      · exact absurd hfour (by simp)
      · exact absurd rfl (hshort c0 c1 c2 c3 more)

theorem filter_stripPadding (url : Bool) (text : List UInt8) :
    (stripPadding text).filter (isValid url) = text.filter (isValid url) := by
  have hpadding : isValid url padding = false := by
    cases url <;> decide
  induction text using List.reverseRecOn with
  | nil => rfl
  | append_singleton text b ih =>
    by_cases hb : b == padding
    · rw [stripPadding, List.rdropWhile_concat_pos (· == padding) _ b hb, List.filter_append, beq_iff_eq.mp hb,
        List.filter_cons_of_neg (Bool.eq_false_iff.mp hpadding), List.filter_nil, List.append_nil]
      exact ih
    · rw [stripPadding, List.rdropWhile_concat_neg (· == padding) _ b hb]

theorem stripPadding_filter (url : Bool) (text : List UInt8) :
    stripPadding (text.filter (isValid url)) = text.filter (isValid url) := by
  refine List.rdropWhile_eq_self_iff.mpr fun hne heq => ?_
  have hvalid := (List.mem_filter.mp (List.getLast_mem hne)).2
  rw [beq_iff_eq.mp heq] at hvalid
  revert hvalid
  cases url <;> decide

/-- A text and its characters of the alphabet are decoded to the same bytes, in a buffer that is large enough for both. -/
def IgnoresForeign (url : Bool) (text : List UInt8) : Prop :=
  ∀ outLen, base64ToBase256Len (stripPadding text).length ≤ outLen →
    base64ToBase256Len (text.filter (isValid url)).length ≤ outLen →
      b64Decode url text outLen = b64Decode url (text.filter (isValid url)) outLen

/-- The foreign characters are ignored, unless they end the text in the middle of a group. -/
theorem ignoresForeign_iff (url : Bool) (text : List UInt8) :
    IgnoresForeign url text ↔ (text.filter (isValid url)).length % 4 = 0 ∨
      ∀ c ∈ (stripPadding text).getLast?, isValid url c = true := by
  have hall : ∀ c ∈ (text.filter (isValid url)).getLast?, isValid url c = true := by
    intro c hc
    exact (List.mem_filter.mp (List.mem_of_getLast? hc)).2
  have hdecode : IgnoresForeign url text ↔
      decodeValues (values url (stripPadding text)) = decodeValues (values url (text.filter (isValid url))) := by
    rw [← decodeGroups_eq url (Nat.le_refl _), ← decodeGroups_eq url (Nat.le_refl _)]
    constructor
    · intro h
      have heq := h _ (le_max_left _ _) (le_max_right _ _)
      rw [b64Decode, b64Decode, stripPadding_filter, if_pos (le_max_left _ _), if_pos (le_max_right _ _)] at heq
      exact Option.some.inj heq
    · intro heq outLen htext hfiltered
      rw [b64Decode, b64Decode, stripPadding_filter, if_pos htext, if_pos hfiltered, heq]
  rw [hdecode, values_eq, values_eq, filter_stripPadding, List.filter_filter]
  simp only [Bool.and_self]
  rw [if_pos ((Option.all_eq_true _ _).mpr hall), List.append_nil]
  have hends := Option.all_eq_true (isValid url) (stripPadding text).getLast?
  by_cases hlast : (stripPadding text).getLast?.all (isValid url) = true
  · rw [if_pos hlast, List.append_nil]
    exact iff_of_true rfl (.inr (hends.mp hlast))
  · rw [if_neg hlast, decodeValues_concat_iff, List.length_map]
    exact ⟨.inl, fun h => h.resolve_right (mt hends.mpr hlast)⟩

/-- `QUI` and a line feed: a third byte is written. -/
theorem not_ignoresForeign : ¬ IgnoresForeign false [81, 85, 73, 10] := by
  rw [ignoresForeign_iff]
  decide

end PjProject.Base64
