import Mathlib.Algebra.BigOperators.Fin
import Mathlib.Algebra.BigOperators.Ring.Finset

/-! # Tallies

How many members of a finite family have a value, and how that changes with the family.

* `tally_update`: a change of one member moves one count from its old value to its new one.
* `tally_exchange`: an exchange of two members moves none. -/

namespace NetworkDriver.Library.Tally

variable {ι α : Type*} [Fintype ι] [DecidableEq ι] [DecidableEq α]

/-- How many members have the value. -/
def tally (f : ι → α) (a : α) : ℕ := ∑ i, if f i = a then 1 else 0

/-- **A change of one member.** -/
theorem tally_update (f : ι → α) (i : ι) (x a : α) :
    tally (Function.update f i x) a + (if f i = a then 1 else 0) = tally f a + (if x = a then 1 else 0) := by
  have hrest : ∀ j ∈ Finset.univ.erase i,
      (if Function.update f i x j = a then 1 else 0) = if f j = a then 1 else 0 := by
    intro j hj
    rw [Function.update_of_ne (Finset.ne_of_mem_erase hj)]
  unfold tally
  rw [← Finset.add_sum_erase _ _ (Finset.mem_univ i), Finset.sum_congr rfl hrest,
    ← Finset.add_sum_erase _ (fun j => if f j = a then 1 else 0) (Finset.mem_univ i), Function.update_self]
  omega

/-- **An exchange of two members.** -/
theorem tally_exchange (f : ι → α) (i j : ι) (a : α) :
    tally (Function.update (Function.update f i (f j)) j (f i)) a = tally f a := by
  have hj : Function.update f i (f j) j = f j := by
    by_cases h : j = i
    · rw [h, Function.update_self]
    · rw [Function.update_of_ne h]
  have hinner := tally_update f i (f j) a
  have houter := tally_update (Function.update f i (f j)) j (f i) a
  rw [hj] at houter
  omega

theorem tally_pos {f : ι → α} {i : ι} {a : α} (h : f i = a) : 0 < tally f a := by
  unfold tally
  rw [← Finset.add_sum_erase _ _ (Finset.mem_univ i), if_pos h]
  omega

end NetworkDriver.Library.Tally
