import Mathlib.Algebra.Order.Ring.Int
import Mathlib.Data.List.Basic
import Mathlib.Data.List.TakeWhile

/-! # Strings: splitting, removing and parsing

A string is its bytes. The loop of `split_impl` goes from one delimiter to the next; here it goes
through the string, with the bytes since the last delimiter. `std::from_chars` is a function from a
string to the value at its start and the rest.

* `split_of_notMem`, `split_append`: what a string splits into.
* `split_eq_pair`: exactly when there are two parts.
* `parse_digits`, `parse_unsigned_eq_some`: a string of digits parses exactly if its value fits.
* `digitsValue_decimalDigits`: the decimal rendering of a number has its value. -/

namespace NetworkDriver.Util.Format

/-- A `std::string` or a view of one. -/
abbrev Bytes := List UInt8

/-- The loop of `split_impl`: `token` is the part begun. -/
def splitLoop (delim : UInt8) : Bytes → Bytes → List Bytes
  | token, [] => [token]
  | token, c :: str =>
    if c = delim then token :: splitLoop delim [] str else splitLoop delim (token ++ [c]) str

def split (str : Bytes) (delim : UInt8) : List Bytes := splitLoop delim [] str

def remove (str : Bytes) (unwanted : UInt8) : Bytes := str.filter fun c => c ≠ unwanted

/-! ### Numbers -/

/-- `'-'`. -/
def minus : UInt8 := 45

def isDigit (c : UInt8) : Bool := 48 ≤ c && c ≤ 57

def digitsValue (digits : Bytes) : ℕ := digits.foldl (fun n c => 10 * n + (c.toNat - 48)) 0

/-- `std::from_chars` for a `std::int64_t`: the longest number at the start, if there is one in
range. -/
def fromCharsInt64 (str : Bytes) : Option (Int64 × Bytes) :=
  let negative := str.head? = some minus
  let unsigned := if negative then str.tail else str
  let digits := unsigned.takeWhile isDigit
  let n : ℤ := if negative then -(digitsValue digits : ℤ) else digitsValue digits
  if digits = [] then none
  else if -2 ^ 63 ≤ n ∧ n < 2 ^ 63 then some (Int64.ofInt n, unsigned.dropWhile isDigit)
  else none

/-- `std::from_chars` for an unsigned type of `size` values. -/
def fromCharsUnsigned {α : Type} (size : ℕ) (ofNat : ℕ → α) (str : Bytes) : Option (α × Bytes) :=
  let digits := str.takeWhile isDigit
  if digits = [] then none
  else if digitsValue digits < size then some (ofNat (digitsValue digits), str.dropWhile isDigit)
  else none

/-- `util::parse`: the whole string has to be the value. -/
def parse {α : Type} (fromChars : Bytes → Option (α × Bytes)) (str : Bytes) : Option α :=
  match fromChars str with
  | some (t, []) => some t
  | _ => none

/-- The decimal rendering of a natural number. -/
def decimalDigits (n : ℕ) : Bytes := (Nat.toDigits 10 n).map Char.toUInt8

/-- The decimal rendering of an integer. -/
def decimal (n : ℤ) : Bytes := if n < 0 then minus :: decimalDigits n.natAbs else decimalDigits n.natAbs

/-! ### Splitting and removing -/

theorem splitLoop_of_notMem {delim : UInt8} {str : Bytes} (h : delim ∉ str) (token : Bytes) :
    splitLoop delim token str = [token ++ str] := by
  induction str generalizing token with
  | nil => rw [List.append_nil]; rfl
  | cons c str ih =>
    obtain ⟨hc, hstr⟩ := List.ne_and_not_mem_of_not_mem_cons h
    unfold splitLoop
    rw [if_neg (Ne.symm hc), ih hstr, List.append_assoc, List.singleton_append]

theorem splitLoop_append {delim : UInt8} {part : Bytes} (h : delim ∉ part) (token str : Bytes) :
    splitLoop delim token (part ++ delim :: str) = (token ++ part) :: split str delim := by
  induction part generalizing token with
  | nil =>
    rw [List.nil_append, List.append_nil]
    unfold splitLoop
    rw [if_pos rfl]
    rfl
  | cons c part ih =>
    obtain ⟨hc, hpart⟩ := List.ne_and_not_mem_of_not_mem_cons h
    rw [List.cons_append]
    unfold splitLoop
    rw [if_neg (Ne.symm hc), ih hpart, List.append_assoc, List.singleton_append]

/-- A string without a delimiter is one part. -/
theorem split_of_notMem {delim : UInt8} {str : Bytes} (h : delim ∉ str) : split str delim = [str] :=
  splitLoop_of_notMem h []

/-- What is before the first delimiter is the first part. -/
theorem split_append {delim : UInt8} {part : Bytes} (h : delim ∉ part) (str : Bytes) :
    split (part ++ delim :: str) delim = part :: split str delim :=
  splitLoop_append h [] str

/-- A string with a delimiter, cut at the first one. -/
theorem exists_append_of_mem {delim : UInt8} {str : Bytes} (h : delim ∈ str) :
    ∃ part rest, str = part ++ delim :: rest ∧ delim ∉ part := by
  obtain ⟨part, rest, hstr, hpart⟩ := List.eq_append_cons_of_mem h
  exact ⟨part, rest, hstr, hpart⟩

theorem split_ne_nil (str : Bytes) (delim : UInt8) : split str delim ≠ [] := by
  by_cases h : delim ∈ str
  · obtain ⟨part, rest, rfl, hpart⟩ := exists_append_of_mem h
    rw [split_append hpart]
    exact List.cons_ne_nil _ _
  · rw [split_of_notMem h]
    exact List.cons_ne_nil _ _

theorem split_eq_singleton {str part : Bytes} {delim : UInt8} (h : split str delim = [part]) :
    str = part ∧ delim ∉ str := by
  by_cases hmem : delim ∈ str
  · obtain ⟨first, rest, rfl, hfirst⟩ := exists_append_of_mem hmem
    rw [split_append hfirst] at h
    exact absurd (List.cons.inj h).2 (split_ne_nil rest delim)
  · rw [split_of_notMem hmem] at h
    exact ⟨(List.cons.inj h).1, hmem⟩

/-- **A string splits into two parts exactly if it has one delimiter, between them.** -/
theorem split_eq_pair {str a b : Bytes} {delim : UInt8} :
    split str delim = [a, b] ↔ str = a ++ delim :: b ∧ delim ∉ a ∧ delim ∉ b := by
  constructor
  · intro h
    by_cases hmem : delim ∈ str
    · obtain ⟨first, rest, rfl, hfirst⟩ := exists_append_of_mem hmem
      rw [split_append hfirst] at h
      obtain ⟨rfl, hrest⟩ := List.cons.inj h
      obtain ⟨rfl, hb⟩ := split_eq_singleton hrest
      exact ⟨rfl, hfirst, hb⟩
    · rw [split_of_notMem hmem] at h
      cases h
  · rintro ⟨rfl, ha, hb⟩
    rw [split_append ha, split_of_notMem hb]

theorem mem_remove {str : Bytes} {unwanted c : UInt8} :
    c ∈ remove str unwanted ↔ c ∈ str ∧ c ≠ unwanted := by
  unfold remove
  simp

theorem remove_of_notMem {str : Bytes} {unwanted : UInt8} (h : unwanted ∉ str) :
    remove str unwanted = str := by
  refine List.filter_eq_self.mpr fun c hc => ?_
  have hne : c ≠ unwanted := fun heq => h (heq ▸ hc)
  exact decide_eq_true hne

theorem remove_append (a b : Bytes) (unwanted : UInt8) :
    remove (a ++ b) unwanted = remove a unwanted ++ remove b unwanted :=
  List.filter_append ..

/-! ### Parsing numbers -/

theorem minus_not_digit {str : Bytes} (h : ∀ c ∈ str, isDigit c = true) : str.head? ≠ some minus := by
  intro hhead
  have hdigit := h minus (List.mem_of_head? hhead)
  exact absurd hdigit (by decide)

/-- **A string of digits parses exactly if its value fits.** -/
theorem parse_digits {str : Bytes} (h : ∀ c ∈ str, isDigit c = true) (hne : str ≠ []) :
    parse fromCharsInt64 str =
      if digitsValue str < 2 ^ 63 then some (Int64.ofInt (digitsValue str)) else none := by
  have htake : str.takeWhile isDigit = str := List.takeWhile_eq_self_iff.mpr h
  have hdrop : str.dropWhile isDigit = [] := List.dropWhile_eq_nil_iff.mpr h
  have hrange : (-2 ^ 63 ≤ (digitsValue str : ℤ) ∧ (digitsValue str : ℤ) < 2 ^ 63) ↔
      digitsValue str < 2 ^ 63 := by omega
  unfold parse fromCharsInt64
  simp only [minus_not_digit h, ↓reduceIte, htake, hdrop, hne, hrange]
  split_ifs <;> rfl

/-- **An unsigned number is a string of digits, not empty, whose value fits.** -/
theorem parse_unsigned_eq_some {α : Type} {size : ℕ} {ofNat : ℕ → α} {str : Bytes} {a : α} :
    parse (fromCharsUnsigned size ofNat) str = some a ↔
      str ≠ [] ∧ (∀ c ∈ str, isDigit c = true) ∧ digitsValue str < size ∧ ofNat (digitsValue str) = a := by
  unfold parse fromCharsUnsigned
  by_cases hdigits : ∀ c ∈ str, isDigit c = true
  · have htake : str.takeWhile isDigit = str := List.takeWhile_eq_self_iff.mpr hdigits
    have hdrop : str.dropWhile isDigit = [] := List.dropWhile_eq_nil_iff.mpr hdigits
    rw [htake, hdrop]
    by_cases hne : str = []
    · simp [hne]
    · by_cases hsize : digitsValue str < size
      · simpa [hne, hsize] using fun _ : ofNat (digitsValue str) = a => hdigits
      · simp [hne, hsize]
  · have hdrop : str.dropWhile isDigit ≠ [] := fun h => hdigits (List.dropWhile_eq_nil_iff.mp h)
    obtain ⟨c, rest, hrest⟩ := List.exists_cons_of_ne_nil hdrop
    rw [hrest]
    constructor
    · intro h
      dsimp only at h
      split_ifs at h
    · rintro ⟨_, h, _⟩
      exact absurd h hdigits

theorem digitsValue_append (digits : Bytes) (c : UInt8) :
    digitsValue (digits ++ [c]) = 10 * digitsValue digits + (c.toNat - 48) := by
  unfold digitsValue
  rw [List.foldl_append]
  rfl

theorem digitChar_toNat {d : ℕ} (hd : d < 10) : (Nat.digitChar d).toUInt8.toNat = 48 + d := by
  have hall : ∀ d : Fin 10, (Nat.digitChar d).toUInt8.toNat = 48 + d := by decide
  exact hall ⟨d, hd⟩

theorem digitChar_isDigit {d : ℕ} (hd : d < 10) : isDigit (Nat.digitChar d).toUInt8 = true := by
  have hall : ∀ d : Fin 10, isDigit (Nat.digitChar d).toUInt8 = true := by decide
  exact hall ⟨d, hd⟩

theorem decimalDigits_of_lt {n : ℕ} (hn : n < 10) : decimalDigits n = [(Nat.digitChar n).toUInt8] := by
  unfold decimalDigits
  rw [Nat.toDigits_of_lt_base hn]
  rfl

theorem decimalDigits_of_le {n : ℕ} (hn : 10 ≤ n) :
    decimalDigits n = decimalDigits (n / 10) ++ [(Nat.digitChar (n % 10)).toUInt8] := by
  unfold decimalDigits
  rw [Nat.toDigits_of_base_le (by decide) hn, List.map_append]
  rfl

theorem decimalDigits_ne_nil (n : ℕ) : decimalDigits n ≠ [] := by
  unfold decimalDigits
  intro h
  exact Nat.toDigits_ne_nil (List.map_eq_nil_iff.mp h)

theorem isDigit_of_mem (n : ℕ) : ∀ c ∈ decimalDigits n, isDigit c = true := by
  induction n using Nat.strong_induction_on with
  | h n ih =>
    intro c hc
    by_cases hn : n < 10
    · rw [decimalDigits_of_lt hn] at hc
      rw [List.mem_singleton.mp hc]
      exact digitChar_isDigit hn
    · have hmod : n % 10 < 10 := Nat.mod_lt n (by decide)
      rw [decimalDigits_of_le (not_lt.mp hn)] at hc
      rcases List.mem_append.mp hc with hc | hc
      · exact ih (n / 10) (by omega) c hc
      · rw [List.mem_singleton.mp hc]
        exact digitChar_isDigit hmod

/-- **The decimal rendering of a number has its value.** -/
theorem digitsValue_decimalDigits (n : ℕ) : digitsValue (decimalDigits n) = n := by
  induction n using Nat.strong_induction_on with
  | h n ih =>
    by_cases hn : n < 10
    · have hvalue := digitChar_toNat hn
      rw [decimalDigits_of_lt hn]
      change 10 * 0 + ((Nat.digitChar n).toUInt8.toNat - 48) = n
      omega
    · have hmod : n % 10 < 10 := Nat.mod_lt n (by decide)
      have hvalue := digitChar_toNat hmod
      rw [decimalDigits_of_le (not_lt.mp hn), digitsValue_append, ih (n / 10) (by omega)]
      omega

end NetworkDriver.Util.Format
