import NetworkDriver.Library.Separators
import NetworkDriver.Util.Format

/-! # Splitting and joining

The loop of `split_impl` as the source has it: it searches the delimiter in a view, keeps what is in
front of it and goes on behind it. Its rounds are counted: a run that is not done after some number
of rounds has no result. A character is searched like the string of that character.

* `splitImpl_eq_some`: the loop ends exactly with the parts between the delimiters.
* `splitImpl_char`: for a character these are the parts of `split`, after at most a round per
  character.
* `split_and_join`: splitting by a character and joining are inverse.
* `split_string_iff`: splitting by a string ends, with parts that join to the string, exactly if the
  delimiter is not empty. -/

namespace NetworkDriver.Util.Splitting

open NetworkDriver.Library.Separators
open NetworkDriver.Util.Format

/-- `std::string_view::find` for a character. -/
def findChar (delim : UInt8) (str : Bytes) : Option ℕ := str.findIdx? fun c => c = delim

/-- `std::string_view::find` for a string. -/
def findString (delim str : Bytes) : Option ℕ := firstAt delim str

/-- At most `rounds` rounds of the loop of `split_impl`, the last of which is the one that finds no
delimiter. -/
def splitImpl (find : Bytes → Option ℕ) (delimSize : ℕ) : ℕ → List Bytes → Bytes → Option (List Bytes)
  | 0, _, _ => none
  | rounds + 1, tokens, str =>
    match find str with
    | some pos => splitImpl find delimSize rounds (tokens ++ [str.take pos]) (str.drop (pos + delimSize))
    | none => some (tokens ++ [str])

/-- `split` for a string: what the loop ends with, if it does so within a round per character. -/
def splitString (str delim : Bytes) : Option (List Bytes) :=
  splitImpl (findString delim) delim.length (str.length + 1) [] str

/-- `join`: the first string, and each other one behind a delimiter. There has to be a first one. -/
def join (strings : List Bytes) (delim : UInt8) : Option Bytes :=
  match strings with
  | [] => none
  | first :: strings => some (strings.foldl (fun res s => res ++ [delim] ++ s) first)

/-! ### The loop -/

/-- The loop ends with the parts between the delimiters. -/
theorem splitImpl_sound {delim str : Bytes} {rounds : ℕ} {tokens result : List Bytes}
    (h : splitImpl (findString delim) delim.length rounds tokens str = some result) :
    ∃ parts, result = tokens ++ parts ∧ Parts delim str parts := by
  induction rounds generalizing tokens str with
  | zero => cases h
  | succ rounds ih =>
    unfold splitImpl findString at h
    cases hfind : firstAt delim str with
    | none =>
      rw [hfind] at h
      exact ⟨[str], (Option.some.inj h).symm, Parts.last hfind⟩
    | some pos =>
      rw [hfind] at h
      obtain ⟨parts, rfl, hparts⟩ := ih h
      exact ⟨str.take pos :: parts, by rw [List.append_assoc]; rfl, Parts.cut hfind hparts⟩

/-- The loop ends within a round per character, if the delimiter is not empty. -/
theorem splitImpl_complete {delim str : Bytes} {parts : List Bytes} (hdelim : delim ≠ [])
    (h : Parts delim str parts) {rounds : ℕ} (hrounds : str.length < rounds) (tokens : List Bytes) :
    splitImpl (findString delim) delim.length rounds tokens str = some (tokens ++ parts) := by
  induction h generalizing rounds tokens with
  | last hfind =>
    obtain ⟨rounds, rfl⟩ := Nat.exists_eq_add_of_lt hrounds
    unfold splitImpl findString
    rw [hfind]
  | cut hfind _ ih =>
    obtain ⟨rounds, rfl⟩ : ∃ n, rounds = n + 1 := Nat.exists_eq_succ_of_ne_zero (by omega)
    have hlt := firstAt_lt hdelim hfind
    unfold splitImpl
    unfold findString at ih ⊢
    rw [hfind]
    dsimp only
    rw [ih (by omega), List.append_assoc, List.singleton_append]

/-- **The loop ends with a list exactly if it is the list of the parts.** -/
theorem splitImpl_eq_some {delim str : Bytes} {parts : List Bytes} (hdelim : delim ≠ []) :
    (∃ rounds, splitImpl (findString delim) delim.length rounds [] str = some parts) ↔
      Parts delim str parts := by
  constructor
  · rintro ⟨rounds, h⟩
    obtain ⟨parts, rfl, hparts⟩ := splitImpl_sound h
    exact hparts
  · intro h
    exact ⟨str.length + 1, splitImpl_complete hdelim h (Nat.lt_succ_self _) []⟩

theorem splitString_eq_some {delim str : Bytes} {parts : List Bytes} (hdelim : delim ≠ []) :
    splitString str delim = some parts ↔ Parts delim str parts := by
  constructor
  · intro h
    exact (splitImpl_eq_some hdelim).mp ⟨_, h⟩
  · intro h
    exact splitImpl_complete hdelim h (Nat.lt_succ_self _) []

/-- The loop never ends with the empty string as delimiter. -/
theorem splitImpl_nil (rounds : ℕ) (tokens : List Bytes) (str : Bytes) :
    splitImpl (findString []) 0 rounds tokens str = none := by
  induction rounds generalizing tokens with
  | zero => rfl
  | succ rounds ih =>
    unfold splitImpl findString
    rw [firstAt_nil]
    exact ih _

/-! ### Characters -/

theorem headOnly_singleton (delim : UInt8) : HeadOnly [delim] := List.not_mem_nil

theorem singleton_infix_iff {delim : UInt8} {str : Bytes} : [delim] <:+: str ↔ delim ∈ str := by
  constructor
  · rintro ⟨a, b, rfl⟩
    simp
  · intro h
    obtain ⟨a, b, rfl⟩ := List.append_of_mem h
    exact ⟨a, b, by rw [List.append_assoc]; rfl⟩

/-- A character is found where the string of it stands. -/
theorem findChar_eq (delim : UInt8) : findChar delim = findString [delim] := by
  funext str
  induction str with
  | nil => rfl
  | cons c str ih =>
    unfold findChar findString at ih ⊢
    unfold firstAt
    rw [List.findIdx?_cons, ih]
    by_cases hc : c = delim
    · simp [hc]
    · have hc' : ¬ delim = c := Ne.symm hc
      simp [hc, hc']

/-- `split` gives the parts between the characters. -/
theorem parts_split (str : Bytes) (delim : UInt8) : Parts [delim] str (split str delim) := by
  induction hn : str.length using Nat.strong_induction_on generalizing str with
  | h n ih =>
    by_cases hmem : delim ∈ str
    · obtain ⟨part, rest, rfl, hpart⟩ := exists_append_of_mem hmem
      have hfirst := firstAt_append_sep (headOnly_singleton delim) (mt singleton_infix_iff.mp hpart) rest
      have hrest : Parts [delim] ((part ++ ([delim] ++ rest)).drop (part.length + [delim].length))
          (split rest delim) := by
        rw [← List.append_assoc, ← List.length_append, List.drop_left]
        exact ih rest.length (by simp at hn; omega) rest rfl
      have hcut := Parts.cut hfirst hrest
      rw [List.take_left] at hcut
      rw [split_append hpart]
      exact hcut
    · rw [split_of_notMem hmem]
      exact Parts.last (firstAt_eq_none.mpr (mt singleton_infix_iff.mp hmem))

/-- **The parts of `split` are the strings without the character that join to the string.** -/
theorem split_eq_iff {str : Bytes} {delim : UInt8} {parts : List Bytes} :
    split str delim = parts ↔
      parts ≠ [] ∧ [delim].intercalate parts = str ∧ ∀ part ∈ parts, delim ∉ part := by
  constructor
  · rintro rfl
    have hparts := parts_split str delim
    obtain ⟨hne, hjoin⟩ := hparts.intercalate_eq
    refine ⟨hne, hjoin, fun part hpart hmem => ?_⟩
    exact hparts.separator_free part hpart (singleton_infix_iff.mpr hmem)
  · rintro ⟨hne, rfl, hfree⟩
    have hparts := parts_intercalate (headOnly_singleton delim) hne
      fun part hpart => mt singleton_infix_iff.mp (hfree part hpart)
    exact (parts_split _ delim).unique hparts

/-- **For a character, the loop ends with the parts of `split`.** -/
theorem splitImpl_char (str : Bytes) (delim : UInt8) :
    splitImpl (findChar delim) 1 (str.length + 1) [] str = some (split str delim) := by
  rw [findChar_eq]
  exact splitImpl_complete (List.cons_ne_nil _ _) (parts_split str delim) (Nat.lt_succ_self _) []

theorem occurrences_singleton (delim : UInt8) (str : Bytes) :
    occurrences [delim] str = str.count delim := by
  induction str with
  | nil => rfl
  | cons c str ih =>
    rw [occurrences_cons, ih, List.count_cons]
    by_cases hc : c = delim
    · simp [hc]
    · have hc' : ¬ delim = c := Ne.symm hc
      simp [hc, hc']

/-! ### Joining -/

theorem intercalate_append (sep a b : Bytes) (parts : List Bytes) :
    sep.intercalate ((a ++ b) :: parts) = a ++ sep.intercalate (b :: parts) := by
  rcases parts with _ | ⟨part, parts⟩
  · rw [List.intercalate_singleton, List.intercalate_singleton]
  · rw [List.intercalate_cons_cons, List.intercalate_cons_cons]
    simp only [List.append_assoc]

theorem foldl_join (first : Bytes) (strings : List Bytes) (delim : UInt8) :
    strings.foldl (fun res s => res ++ [delim] ++ s) first = [delim].intercalate (first :: strings) := by
  induction strings generalizing first with
  | nil => exact List.intercalate_singleton.symm
  | cons s strings ih => rw [List.foldl_cons, ih, List.intercalate_cons_cons, intercalate_append]

/-- `join` puts the delimiter between the strings. -/
theorem join_of_ne_nil {strings : List Bytes} (h : strings ≠ []) (delim : UInt8) :
    join strings delim = some ([delim].intercalate strings) := by
  obtain ⟨first, strings, rfl⟩ := List.exists_cons_of_ne_nil h
  exact congrArg some (foldl_join first strings delim)

/-- **Splitting by a character and joining are inverse**: the loop ends, with one part more than
there are characters, none in a part, and the parts join to the string; strings without the
character are the parts of what they join to. -/
theorem split_and_join (delim : UInt8) :
    (∀ str, (∃ rounds, splitImpl (findChar delim) 1 rounds [] str = some (split str delim)) ∧
      (split str delim).length = str.count delim + 1 ∧ (∀ part ∈ split str delim, delim ∉ part) ∧
      join (split str delim) delim = some str) ∧
    ∀ strings : List Bytes, strings ≠ [] → (∀ s ∈ strings, delim ∉ s) →
      ∃ str, join strings delim = some str ∧ split str delim = strings := by
  constructor
  · intro str
    have hlen := (parts_split str delim).length_eq (headOnly_singleton delim)
    obtain ⟨hne, hjoin, hfree⟩ := split_eq_iff.mp (rfl : split str delim = split str delim)
    refine ⟨⟨_, splitImpl_char str delim⟩, ?_, hfree, ?_⟩
    · rw [hlen, occurrences_singleton]
    · rw [join_of_ne_nil hne, hjoin]
  · intro strings hne hfree
    exact ⟨_, join_of_ne_nil hne delim, split_eq_iff.mpr ⟨hne, rfl, hfree⟩⟩

/-- An empty string and one of three characters between two others. -/
theorem split_and_join_csv :
    ∃ str, join [[], [97, 98, 99], [100]] 44 = some str ∧ split str 44 = [[], [97, 98, 99], [100]] :=
  (split_and_join 44).2 _ (List.cons_ne_nil _ _) (by decide)

/-! ### Strings -/

/-- **Splitting by a string ends, with parts that join to the string, exactly if the delimiter is not
empty.** -/
theorem split_string_iff (str delim : Bytes) :
    (∃ parts, (∃ rounds, splitImpl (findString delim) delim.length rounds [] str = some parts) ∧
      delim.intercalate parts = str) ↔ delim ≠ [] := by
  constructor
  · rintro ⟨parts, ⟨rounds, hend⟩, _⟩ rfl
    rw [List.length_nil, splitImpl_nil] at hend
    cases hend
  · intro hdelim
    obtain ⟨parts, hparts⟩ := exists_parts hdelim str
    exact ⟨parts, (splitImpl_eq_some hdelim).mpr hparts, hparts.intercalate_eq.2⟩

/-- Splitting the empty string by the empty string does not end. -/
theorem split_string_empty_diverges :
    ¬ ∃ parts, (∃ rounds, splitImpl (findString []) ([] : Bytes).length rounds [] [] = some parts) ∧
      ([] : Bytes).intercalate parts = [] := by
  rintro ⟨parts, ⟨rounds, hend⟩, _⟩
  rw [List.length_nil, splitImpl_nil] at hend
  cases hend

end NetworkDriver.Util.Splitting
