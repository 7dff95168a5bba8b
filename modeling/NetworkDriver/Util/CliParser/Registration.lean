import NetworkDriver.Library.Run
import NetworkDriver.Util.CliParser.Model
import Mathlib.Data.Set.Basic
import Mathlib.Order.Defs.Unbundled

/-! # Which conflicts `register_option` finds

Inequality is symmetric, so the search for a place goes left from every option that the new one does
not conflict with, and stops at the first one on the leftmost path that it does conflict with. An
option off that path is never compared: after the rotation for the third option this is the one
registered first.

* `throws_iff`, `register_throws`, `register_ok`: what one call does, for any tree.
* `weakOrder_iff`: inequality orders the options only where any two of them conflict.
* `detects_iff`: exactly when a sequence of calls detects all conflicts. -/

namespace NetworkDriver.Util.CliParser.Registration

open NetworkDriver.Library.Run NetworkDriver.Library.RedBlack NetworkDriver.Util.CliParser.Model

/-- The call throws exactly if the new option conflicts with one registered before, and then leaves the
options as they are. -/
def Detects (options : OptionSet) (opt : CliOption) : Prop :=
  (throws options opt = true ↔ ∃ o ∈ options.toList, opt.equals o = true) ∧
    (throws options opt = true → register options opt = options)

/-- If the new option conflicts with one registered before, it conflicts with one on the leftmost
path. -/
def OnSpine (options : OptionSet) (opt : CliOption) : Prop :=
  (∃ o ∈ options.toList, opt.equals o = true) → ∃ o ∈ options.leftSpine, opt.equals o = true

instance (options : OptionSet) (opt : CliOption) : Decidable (OnSpine options opt) :=
  inferInstanceAs (Decidable ((∃ o ∈ options.toList, opt.equals o = true) →
    ∃ o ∈ options.leftSpine, opt.equals o = true))

instance (options : OptionSet) (opt : CliOption) : Decidable (Detects options opt) :=
  inferInstanceAs (Decidable ((throws options opt = true ↔ ∃ o ∈ options.toList, opt.equals o = true) ∧
    (throws options opt = true → register options opt = options)))

theorem throws_iff (options : OptionSet) (opt : CliOption) :
    throws options opt = true ↔ ∃ o ∈ options.leftSpine, opt.equals o = true := by
  have h := (emplace_symm notEqualTo_comm opt options).1
  rw [throws_eq, Bool.not_eq_true', ← Bool.not_eq_true, h]
  push Not
  simp only [← notEqualTo_eq_false, Bool.not_eq_true]

theorem register_throws {options : OptionSet} {opt : CliOption} (h : throws options opt = true) :
    register options opt = options := by
  rw [throws_eq, Bool.not_eq_true'] at h
  rw [register_eq]
  exact (emplace_symm notEqualTo_comm opt options).2.1 h

/-- A new option becomes the first one in the order of the tree. -/
theorem register_ok {options : OptionSet} {opt : CliOption} (h : throws options opt = false) :
    (register options opt).toList = opt :: options.toList := by
  rw [throws_eq, Bool.not_eq_false'] at h
  rw [register_eq]
  exact (emplace_symm notEqualTo_comm opt options).2.2 h

theorem detects_iff_onSpine (options : OptionSet) (opt : CliOption) :
    Detects options opt ↔ OnSpine options opt := by
  unfold Detects OnSpine
  rw [throws_iff]
  constructor
  · intro h hconflict
    exact h.1.mpr hconflict
  · intro h
    refine ⟨⟨?_, h⟩, fun hs => register_throws ((throws_iff options opt).mpr hs)⟩
    rintro ⟨o, ho, heq⟩
    exact ⟨o, options.leftSpine_subset ho, heq⟩

/-- **Inequality is a strict weak ordering only of options of which any two conflict.** -/
theorem weakOrder_iff (S : Set CliOption) :
    IsStrictWeakOrder S (fun a b => notEqualTo a b = true) ↔
      ∀ a ∈ S, ∀ b ∈ S, a.equals b = true := by
  constructor
  · intro h a ha b hb
    by_contra hne
    have hab : notEqualTo a b = true := by
      rw [← Bool.not_eq_false, notEqualTo_eq_false]
      exact hne
    have hba : notEqualTo b a = true := by rw [notEqualTo_comm, hab]
    have haa := h.trans ⟨a, ha⟩ ⟨b, hb⟩ ⟨a, ha⟩ hab hba
    exact h.irrefl ⟨a, ha⟩ haa
  · intro h
    have hnot : ∀ a b : S, ¬notEqualTo a b = true := fun a b => by
      rw [Bool.not_eq_true, notEqualTo_eq_false]
      exact h a a.2 b b.2
    exact {
      irrefl := fun a => hnot a a
      trans := fun a b _ hab => absurd hab (hnot a b)
      incomp_trans := fun a _ c _ _ => ⟨hnot a c, hnot c a⟩ }

/-- **A sequence of calls detects every conflict exactly if** each option that conflicts with a
registered one conflicts with one on the leftmost path; and the comparator is a strict weak ordering
of a set of options exactly if any two of them conflict. -/
theorem detects_iff (opts : List CliOption) (S : Set CliOption) :
    (Along register Detects ColorTree.nil opts ↔ Along register OnSpine ColorTree.nil opts) ∧
      (IsStrictWeakOrder S (fun a b => notEqualTo a b = true) ↔
        ∀ a ∈ S, ∀ b ∈ S, a.equals b = true) := by
  have h : Detects = OnSpine := funext₂ fun options opt => propext (detects_iff_onSpine options opt)
  rw [h]
  exact ⟨Iff.rfl, weakOrder_iff S⟩

/-- Four options, of which the last one has the longform of the first. -/
def sampleOptions : List CliOption :=
  [⟨[1], [11], 21, false, by decide⟩, ⟨[2], [12], 22, false, by decide⟩,
    ⟨[3], [13], 23, false, by decide⟩, ⟨[4], [11], 24, false, by decide⟩]

/-- The fourth call does not throw, and inequality orders not all options. -/
theorem duplicate_registered :
    ¬Along register Detects ColorTree.nil sampleOptions ∧
      ¬IsStrictWeakOrder (Set.univ : Set CliOption) (fun a b => notEqualTo a b = true) := by
  refine ⟨by decide +kernel, fun h => ?_⟩
  have hall := (weakOrder_iff Set.univ).mp h
  exact absurd (hall ⟨[1], [11], 21, false, by decide⟩ (Set.mem_univ _) ⟨[2], [12], 22, false, by decide⟩
    (Set.mem_univ _)) (by decide)

end NetworkDriver.Util.CliParser.Registration
