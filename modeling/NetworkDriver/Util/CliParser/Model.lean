import NetworkDriver.Library.RedBlack

/-! # The command-line parser: options

A `std::string` is its bytes, a `char` is a byte. The options registered are a
`std::set<option, std::not_equal_to<>>`: a red-black tree whose comparator is inequality. -/

namespace NetworkDriver.Util.CliParser.Model

open NetworkDriver.Library.RedBlack

def noLongform : List UInt8 := []

def noShortform : UInt8 := 0

/-- A command-line option, as the constructor lets it be. -/
structure CliOption where
  id : List UInt8
  longform : List UInt8
  shortform : UInt8
  hasValue : Bool
  named : ¬(longform = noLongform ∧ shortform = noShortform)
  deriving DecidableEq

def bytesOf (text : String) : List UInt8 := text.toUTF8.toList

/-- The constructor of `option`, which throws a `runtime_error` for one without a name. -/
def CliOption.create (id longform : List UInt8) (shortform : UInt8) (hasValue : Bool) :
    Except (List UInt8) CliOption :=
  if h : longform = noLongform ∧ shortform = noShortform then
    .error (bytesOf "No long or shortform option set for option \"" ++ id ++ bytesOf "\"")
  else .ok ⟨id, longform, shortform, hasValue, h⟩

/-- `operator==`. -/
def CliOption.equals (o other : CliOption) : Bool :=
  o.id = other.id || (o.longform ≠ noLongform && o.longform = other.longform) ||
    (o.shortform ≠ noShortform && o.shortform = other.shortform)

/-- `std::not_equal_to`, the comparator of the set. -/
def notEqualTo (o other : CliOption) : Bool := !o.equals other

/-- `option_set`. -/
abbrev OptionSet := ColorTree CliOption

/-- `register_option`: whether it throws, with what, and the options registered after it. -/
def registerOption (options : OptionSet) (opt : CliOption) : Except (List UInt8) Unit × OptionSet :=
  let (success, options) := emplace notEqualTo opt options
  if !success then (.error (bytesOf "Option already contained"), options) else (.ok (), options)

/-- The options registered after a call, whatever it threw. -/
def register (options : OptionSet) (opt : CliOption) : OptionSet := (registerOption options opt).2

/-- Whether the call throws. -/
def throws (options : OptionSet) (opt : CliOption) : Bool := !(registerOption options opt).1.isOk

theorem equals_comm (o other : CliOption) : o.equals other = other.equals o := by
  unfold CliOption.equals
  rw [Bool.eq_iff_iff]
  simp only [Bool.or_eq_true, Bool.and_eq_true, decide_eq_true_eq, ne_eq]
  constructor
  · rintro ((h | ⟨hne, h⟩) | ⟨hne, h⟩)
    · exact .inl (.inl h.symm)
    · exact .inl (.inr ⟨h ▸ hne, h.symm⟩)
    · exact .inr ⟨h ▸ hne, h.symm⟩
  · rintro ((h | ⟨hne, h⟩) | ⟨hne, h⟩)
    · exact .inl (.inl h.symm)
    · exact .inl (.inr ⟨h ▸ hne, h.symm⟩)
    · exact .inr ⟨h ▸ hne, h.symm⟩

theorem notEqualTo_comm (o other : CliOption) : notEqualTo o other = notEqualTo other o := by
  unfold notEqualTo
  rw [equals_comm]

@[simp] theorem notEqualTo_eq_false {o other : CliOption} :
    notEqualTo o other = false ↔ o.equals other = true := by simp [notEqualTo]

theorem throws_eq (options : OptionSet) (opt : CliOption) :
    throws options opt = !(emplace notEqualTo opt options).1 := by
  unfold throws registerOption
  cases emplace notEqualTo opt options with
  | mk success options => cases success <;> rfl

theorem register_eq (options : OptionSet) (opt : CliOption) :
    register options opt = (emplace notEqualTo opt options).2 := by
  unfold register registerOption
  cases emplace notEqualTo opt options with
  | mk success options => cases success <;> rfl

end NetworkDriver.Util.CliParser.Model
