import NetworkDriver.Util.Configuration.Model

/-! # Classifiers

Which entry a value stands for, and that `is_bool`, `is_double` and `is_integer`, tried in this
order, come to the same.

* `isBool_eq`, `isDouble_eq`, `isInteger_eq`: what each of them accepts.
* `readValue_eq`: a representable value is read as the entry that it stands for.
* `readLine_isSome`: exactly which lines are read. -/

namespace NetworkDriver.Util.Configuration.Classifiers

open NetworkDriver.Util.Format NetworkDriver.Util.Configuration.Model

variable {δ : Type}

def AllDigits (value : Bytes) : Prop := ∀ c ∈ value, isDigit c = true

/-- Digits and one dot. -/
def Decimal (value : Bytes) : Prop := value.count dot = 1 ∧ ∀ c ∈ value, isDigit c = true ∨ c = dot

instance (value : Bytes) : Decidable (AllDigits value) := List.decidableBAll _ value

instance (value : Bytes) : Decidable (Decimal value) :=
  @instDecidableAnd _ _ (Nat.decEq _ _) (List.decidableBAll _ value)

/-- A number has to be in the range of its type. -/
def Representable (fromCharsDouble : FromCharsDouble δ) (value : Bytes) : Prop :=
  (AllDigits value → digitsValue value < 2 ^ 63) ∧
    (Decimal value → (Format.parse fromCharsDouble value).isSome = true)

/-- The entry that a value stands for. -/
def typedValue (fromCharsDouble : FromCharsDouble δ) (value : Bytes) : Option (Entry δ) :=
  if value = trueText then some (.bool true)
  else if value = falseText then some (.bool false)
  else if Decimal value then (Format.parse fromCharsDouble value).map .double
  else if AllDigits value then some (.int64 (Int64.ofInt (digitsValue value)))
  else some (.string value)

/-! ### The functions of the parser -/

theorem isBool_eq {value : Bytes} : isBool value = true ↔ value = trueText ∨ value = falseText := by
  unfold isBool
  simp

theorem isDouble_eq {value : Bytes} : isDouble value = true ↔ Decimal value := by
  unfold isDouble Decimal
  simp

theorem isInteger_eq {value : Bytes} : isInteger value = true ↔ AllDigits value := by
  have hdot : (∀ c ∈ value, isDigit c = true) → dot ∉ value := fun h hmem =>
    absurd (h dot hmem) (by decide)
  unfold isInteger AllDigits
  simp only [Bool.and_eq_true, beq_iff_eq, List.count_eq_zero, List.all_eq_true]
  exact ⟨And.right, fun h => ⟨hdot h, h⟩⟩

/-- A representable value is read as the entry that it stands for. -/
theorem readValue_eq {fromCharsDouble : FromCharsDouble δ} {value : Bytes} (hne : value ≠ [])
    (h : Representable fromCharsDouble value) :
    readValue fromCharsDouble value = typedValue fromCharsDouble value := by
  unfold readValue typedValue
  simp only [isBool_eq, isDouble_eq, isInteger_eq]
  by_cases htrue : value = trueText
  · simp [htrue]
  by_cases hfalse : value = falseText
  · subst hfalse
    rfl
  rw [if_neg (not_or.mpr ⟨htrue, hfalse⟩), if_neg htrue, if_neg hfalse]
  by_cases hdigits : AllDigits value
  · rw [parse_digits hdigits hne, if_pos (h.1 hdigits)]
    rfl
  · rw [if_neg hdigits, if_neg hdigits]

theorem typedValue_isSome {fromCharsDouble : FromCharsDouble δ} {value : Bytes}
    (h : Representable fromCharsDouble value) : ∃ e, typedValue fromCharsDouble value = some e := by
  unfold typedValue
  split_ifs with htrue hfalse hdecimal
  · exact ⟨_, rfl⟩
  · exact ⟨_, rfl⟩
  · obtain ⟨d, hd⟩ := Option.isSome_iff_exists.mp (h.2 hdecimal)
    exact ⟨.double d, by rw [hd]; rfl⟩
  · exact ⟨_, rfl⟩
  · exact ⟨_, rfl⟩

/-- Digits are no `bool` and no `double`. -/
theorem readValue_digits {fromCharsDouble : FromCharsDouble δ} {value : Bytes} (hne : value ≠ [])
    (h : AllDigits value) :
    readValue fromCharsDouble value =
      if digitsValue value < 2 ^ 63 then some (.int64 (Int64.ofInt (digitsValue value))) else none := by
  have htrue : value ≠ trueText := by
    rintro rfl
    revert h
    decide
  have hfalse : value ≠ falseText := by
    rintro rfl
    revert h
    decide
  have hdecimal : ¬ Decimal value := by
    intro hd
    have hdot : dot ∈ value := List.count_pos_iff.mp (hd.1 ▸ Nat.one_pos)
    exact absurd (h dot hdot) (by decide)
  unfold readValue
  simp only [isBool_eq, isDouble_eq, isInteger_eq]
  rw [if_neg (not_or.mpr ⟨htrue, hfalse⟩), if_neg hdecimal, if_pos h, parse_digits h hne]
  split_ifs <;> rfl

/-- **Exactly the representable values are read.** -/
theorem readValue_isSome {fromCharsDouble : FromCharsDouble δ} {value : Bytes} (hne : value ≠ []) :
    (readValue fromCharsDouble value).isSome = true ↔ Representable fromCharsDouble value := by
  constructor
  · intro h
    refine ⟨fun hdigits => ?_, fun hdecimal => ?_⟩
    · rw [readValue_digits hne hdigits] at h
      split_ifs at h with hrange
      · exact hrange
      · cases h
    · have hbool : ¬ (value = trueText ∨ value = falseText) := by
        rintro (rfl | rfl)
        · exact absurd hdecimal (by decide)
        · exact absurd hdecimal (by decide)
      unfold readValue at h
      simp only [isBool_eq, isDouble_eq] at h
      rw [if_neg hbool, if_pos hdecimal, Option.isSome_map] at h
      exact h
  · intro h
    obtain ⟨e, he⟩ := typedValue_isSome h
    rw [readValue_eq hne h, he]
    rfl

/-- A line with a key and a value that is in the range of its type. -/
def Readable (fromCharsDouble : FromCharsDouble δ) (line : Bytes) : Prop :=
  ∃ key value, line = key ++ equalsSign :: value ∧ key ≠ [] ∧ value ≠ [] ∧ equalsSign ∉ key ∧
    equalsSign ∉ value ∧ Representable fromCharsDouble value

/-- **Exactly the readable lines are read.** -/
theorem readLine_isSome {fromCharsDouble : FromCharsDouble δ} {line : Bytes} :
    (readLine fromCharsDouble line).isSome = true ↔ Readable fromCharsDouble line := by
  constructor
  · intro h
    unfold readLine at h
    split at h
    · rename_i key value hsplit
      obtain ⟨hline, hk, hv⟩ := split_eq_pair.mp hsplit
      split_ifs at h with hempty
      · cases h
      · obtain ⟨hkey, hvalue⟩ := not_or.mp hempty
        rw [Option.isSome_map] at h
        exact ⟨key, value, hline, hkey, hvalue, hk, hv, (readValue_isSome hvalue).mp h⟩
    · cases h
  · rintro ⟨key, value, rfl, hkey, hvalue, hk, hv, h⟩
    rw [readLine_pair hkey hvalue hk hv, Option.isSome_map]
    exact (readValue_isSome hvalue).mpr h

end NetworkDriver.Util.Configuration.Classifiers
