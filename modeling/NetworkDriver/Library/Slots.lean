import Mathlib.Algebra.Order.Ring.Int
import Mathlib.Data.List.Basic

/-! # Deques whose elements know their places

A `std::deque` as a row of slots on a line: elements are constructed in place behind the last one, and
an erased element is replaced by the shorter side of the deque, moved by one slot. A slot is a stable
address, so that an element may hold pointers to itself; moving it leaves them behind.

* `placed_emplaceBack_iff`: what is constructed for its slot fits it, and nothing else moves.
* `placed_erase_iff`: an erasure leaves all elements in their slots if and only if it is at an end. -/

namespace NetworkDriver.Library.Slots

variable {α : Type*}

/-- The elements in order, and the slot of the first one. -/
structure Deque (α : Type*) where
  first : ℤ
  elems : List α
  deriving DecidableEq

namespace Deque

/-- The empty deque. -/
def empty : Deque α := ⟨0, []⟩

/-- The slot of the element at an index. -/
def slot (q : Deque α) (i : ℕ) : ℤ := q.first + i

/-- The element in a slot. -/
def at? (q : Deque α) (slot : ℤ) : Option α :=
  if q.first ≤ slot then q.elems[(slot - q.first).toNat]? else none

/-- `emplace_back`: an element is constructed in the slot behind the last one. -/
def emplaceBack (q : Deque α) (make : ℤ → α) : Deque α :=
  { q with elems := q.elems ++ [make (q.slot q.elems.length)] }

/-- `erase(it)`: the elements before an index in the first half move one slot up, the elements behind
one in the second half one slot down. -/
def erase (q : Deque α) (i : ℕ) : Deque α :=
  { first := if i < q.elems.length / 2 then q.first + 1 else q.first
    elems := q.elems.eraseIdx i }

/-- `erase(begin(), it)`. -/
def eraseFront (q : Deque α) (n : ℕ) : Deque α := ⟨q.first + n, q.elems.drop n⟩

/-- A change of one element in its slot. -/
def modify (q : Deque α) (i : ℕ) (f : α → α) : Deque α := { q with elems := q.elems.modify i f }

theorem at?_slot (q : Deque α) (i : ℕ) : q.at? (q.slot i) = q.elems[i]? := by
  unfold at? slot
  rw [if_pos (by omega), show (q.first + (i : ℤ) - q.first).toNat = i by omega]

/-- Every element fits the slot it is in. -/
def Placed (fits : ℤ → α → Prop) (q : Deque α) : Prop :=
  ∀ i a, q.elems[i]? = some a → fits (q.slot i) a

variable {fits : ℤ → α → Prop} {q : Deque α}

theorem placed_empty : Placed fits (empty : Deque α) := by
  intro i a h
  simp [empty] at h

/-- **Construction in place** puts one element in its slot and moves none. -/
theorem placed_emplaceBack_iff {make : ℤ → α} (hmake : ∀ slot, fits slot (make slot)) :
    Placed fits (q.emplaceBack make) ↔ Placed fits q := by
  constructor
  · intro h i a hi
    refine h i a ?_
    change (q.elems ++ [make (q.slot q.elems.length)])[i]? = some a
    rw [List.getElem?_append_left (List.getElem?_eq_some_iff.mp hi).1]
    exact hi
  · intro h i a hi
    change (q.elems ++ [make (q.slot q.elems.length)])[i]? = some a at hi
    rcases Nat.lt_trichotomy i q.elems.length with hlt | rfl | hgt
    · rw [List.getElem?_append_left hlt] at hi
      exact h i a hi
    · rw [List.getElem?_append_right le_rfl, Nat.sub_self] at hi
      obtain rfl := Option.some.inj hi
      exact hmake _
    · rw [List.getElem?_eq_none (by simp; omega)] at hi
      cases hi

/-- A change of an element in its slot that is nothing to what fits. -/
theorem placed_modify_iff {f : α → α} (i : ℕ) (hf : ∀ slot a, fits slot (f a) ↔ fits slot a) :
    Placed fits (q.modify i f) ↔ Placed fits q := by
  have helem (j : ℕ) : (q.modify i f).elems[j]? =
      (fun a => if i = j then f a else a) <$> q.elems[j]? := List.getElem?_modify ..
  have hfit (slot : ℤ) (j : ℕ) (a : α) : fits slot (if i = j then f a else a) ↔ fits slot a := by
    split_ifs
    · exact hf slot a
    · exact Iff.rfl
  constructor
  · intro h j a hj
    exact (hfit _ j a).mp (h j _ (by rw [helem, hj]; rfl))
  · intro h j a hj
    rw [helem] at hj
    obtain ⟨b, hb, rfl⟩ := Option.map_eq_some_iff.mp hj
    exact (hfit _ j b).mpr (h j b hb)

/-- The slot of an element that is behind the erased one, or before it. -/
theorem slot_erase (q : Deque α) (k i : ℕ) :
    (q.erase k).slot i = if k < q.elems.length / 2 then q.slot i + 1 else q.slot i := by
  unfold slot erase
  dsimp only
  split_ifs <;> omega

/-- **Erasure at an end moves nothing.** -/
theorem placed_erase_end {k : ℕ} (h : Placed fits q) (hend : k = 0 ∨ k + 1 = q.elems.length) :
    Placed fits (q.erase k) := by
  intro i a hi
  change (q.elems.eraseIdx k)[i]? = some a at hi
  rw [List.getElem?_eraseIdx] at hi
  rw [slot_erase]
  by_cases hik : i < k
  · -- the last element is erased, and the others stay
    rw [if_pos hik] at hi
    rw [if_neg (by omega)]
    exact h i a hi
  · rw [if_neg hik] at hi
    have hlen := (List.getElem?_eq_some_iff.mp hi).1
    -- the first element is erased, and there are others
    rw [if_pos (by omega)]
    have hslot : q.slot i + 1 = q.slot (i + 1) := by
      unfold slot
      omega
    rw [hslot]
    exact h (i + 1) a hi

/-- **Erasure in the middle moves an element**: if an element fits one slot at most, it is out of
place. -/
theorem not_placed_erase {k : ℕ} (hfits : ∀ slot slot' a, fits slot a → fits slot' a → slot = slot')
    (h : Placed fits q) (hk : 0 < k) (hk' : k + 1 < q.elems.length) : ¬ Placed fits (q.erase k) := by
  intro hp
  by_cases hhalf : k < q.elems.length / 2
  · -- the first element has moved up
    have ha : q.elems[0]? = some q.elems[0] := List.getElem?_eq_getElem _
    have hi : (q.erase k).elems[0]? = some q.elems[0] := by
      change (q.elems.eraseIdx k)[0]? = _
      rw [List.getElem?_eraseIdx, if_pos hk, ha]
    have hslot := hfits _ _ _ (hp 0 _ hi) (h 0 _ ha)
    rw [slot_erase, if_pos hhalf] at hslot
    omega
  · -- the element behind the erased one has moved down
    have ha : q.elems[k + 1]? = some q.elems[k + 1] := List.getElem?_eq_getElem _
    have hi : (q.erase k).elems[k]? = some q.elems[k + 1] := by
      change (q.elems.eraseIdx k)[k]? = _
      rw [List.getElem?_eraseIdx, if_neg (lt_irrefl k), ha]
    have hslot := hfits _ _ _ (hp k _ hi) (h (k + 1) _ ha)
    rw [slot_erase, if_neg hhalf] at hslot
    unfold slot at hslot
    omega

/-- **Erasure leaves all elements in place if and only if it is at an end.** -/
theorem placed_erase_iff {k : ℕ}
    (hfits : ∀ slot slot' a, fits slot a → fits slot' a → slot = slot') (h : Placed fits q)
    (hk : k < q.elems.length) :
    Placed fits (q.erase k) ↔ k = 0 ∨ k + 1 = q.elems.length := by
  refine ⟨fun hp => ?_, placed_erase_end h⟩
  by_contra hmid
  exact not_placed_erase hfits h (by omega) (by omega) hp

end Deque

end NetworkDriver.Library.Slots
