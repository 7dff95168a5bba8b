import Mathlib.Data.List.Nodup
import Mathlib.Data.List.Perm.Basic
import Mathlib.Data.List.Range

/-! # Allocation

A heap of objects of one type. Every allocation has an address of its own; an object is there until its
address is freed. An address that is not there cannot be freed, so no address is freed twice.

* `find?_alloc`, `find?_free`: what is found after an allocation and after a deletion.
* `count_freed`: an allocated address was freed once, or is there still. -/

namespace NetworkDriver.Library.Allocation

variable {α : Type*}

/-- The objects by their addresses, the addresses freed so far, and the next fresh one. -/
structure Heap (α : Type*) where
  live : List (ℕ × α)
  freed : List ℕ
  next : ℕ
  accounted : (live.map Prod.fst ++ freed).Perm (List.range next)

namespace Heap

/-- Nothing is allocated. -/
def empty : Heap α := ⟨[], [], 0, List.Perm.refl _⟩

/-- The addresses of the objects that are there. -/
def addresses (h : Heap α) : List ℕ := h.live.map Prod.fst

/-- The object at the address. -/
def find? (h : Heap α) (p : ℕ) : Option α := (h.live.find? fun x => x.1 = p).map Prod.snd

/-- `new`: the object is at the address `h.next`. -/
def alloc (h : Heap α) (a : α) : Heap α where
  live := (h.next, a) :: h.live
  freed := h.freed
  next := h.next + 1
  accounted := by
    rw [List.range_succ]
    exact (h.accounted.cons h.next).trans (List.perm_append_singleton h.next _).symm

theorem addresses_nodup (h : Heap α) : h.addresses.Nodup :=
  (List.nodup_append.mp (h.accounted.nodup_iff.mpr List.nodup_range)).1

theorem mem_addresses_iff {h : Heap α} {p : ℕ} : p ∈ h.addresses ↔ ∃ a, (p, a) ∈ h.live := by
  unfold addresses
  simp

/-- An object and what is there without it. -/
theorem perm_cons_filter {h : Heap α} {p : ℕ} {a : α} (ha : (p, a) ∈ h.live) :
    h.live.Perm ((p, a) :: h.live.filter fun x => x.1 ≠ p) := by
  have hnodup := List.Nodup.of_map Prod.fst h.addresses_nodup
  have hcons : ((p, a) :: h.live.filter fun x => x.1 ≠ p).Nodup :=
    List.nodup_cons.mpr ⟨by simp, hnodup.filter _⟩
  refine (List.perm_ext_iff_of_nodup hnodup hcons).mpr fun x => ?_
  rw [List.mem_cons, List.mem_filter]
  constructor
  · intro hx
    by_cases hp : x.1 = p
    · exact Or.inl (List.inj_on_of_nodup_map h.addresses_nodup hx ha hp)
    · exact Or.inr ⟨hx, decide_eq_true hp⟩
  · rintro (rfl | hx)
    · exact ha
    · exact hx.1

theorem accounted_filter {h : Heap α} {p : ℕ} (hp : p ∈ h.addresses) :
    ((h.live.filter fun x => x.1 ≠ p).map Prod.fst ++ p :: h.freed).Perm (List.range h.next) := by
  obtain ⟨a, ha⟩ := mem_addresses_iff.mp hp
  refine List.Perm.trans ?_ h.accounted
  have hlive := ((perm_cons_filter ha).map Prod.fst).append_right h.freed
  exact List.perm_middle.trans hlive.symm

/-- `delete`. -/
def free (h : Heap α) (p : ℕ) : Option (Heap α) :=
  if hp : p ∈ h.addresses then
    some ⟨h.live.filter fun x => x.1 ≠ p, p :: h.freed, h.next, accounted_filter hp⟩
  else none

/-- **A lookup finds the object at the address.** -/
theorem find?_eq_some {h : Heap α} {p : ℕ} {a : α} : h.find? p = some a ↔ (p, a) ∈ h.live := by
  unfold find?
  rw [Option.map_eq_some_iff]
  constructor
  · rintro ⟨⟨q, b⟩, hx, rfl⟩
    have hq := List.find?_some hx
    obtain rfl := of_decide_eq_true hq
    exact List.mem_of_find?_eq_some hx
  · intro ha
    cases hf : h.live.find? fun x => decide (x.1 = p) with
    | none =>
      have hne := List.find?_eq_none.mp hf _ ha
      exact absurd (decide_eq_true rfl) hne
    | some x =>
      have hx := List.mem_of_find?_eq_some hf
      have hp : x.1 = p := of_decide_eq_true (List.find?_some hf :)
      obtain rfl := List.inj_on_of_nodup_map h.addresses_nodup hx ha hp
      exact ⟨_, rfl, rfl⟩

theorem mem_addresses_of_find? {h : Heap α} {p : ℕ} {a : α} (ha : h.find? p = some a) :
    p ∈ h.addresses :=
  mem_addresses_iff.mpr ⟨a, find?_eq_some.mp ha⟩

theorem lt_next_of_mem {h : Heap α} {p : ℕ} (hp : p ∈ h.addresses) : p < h.next :=
  List.mem_range.mp (h.accounted.subset (List.mem_append_left _ hp))

theorem find?_alloc_self (h : Heap α) (a : α) : (h.alloc a).find? h.next = some a :=
  find?_eq_some.mpr List.mem_cons_self

/-- **An allocation leaves the other objects alone.** -/
theorem find?_alloc {h : Heap α} {p : ℕ} {a b : α} (hb : h.find? p = some b) :
    (h.alloc a).find? p = some b :=
  find?_eq_some.mpr (List.mem_cons_of_mem _ (find?_eq_some.mp hb))

theorem free_isSome {h : Heap α} {p : ℕ} (hp : p ∈ h.addresses) : ∃ h', h.free p = some h' := by
  unfold free
  rw [dif_pos hp]
  exact ⟨_, rfl⟩

/-- The objects without the one that is freed. -/
theorem live_free {h h' : Heap α} {p : ℕ} (hf : h.free p = some h') :
    h'.live = h.live.filter fun x => x.1 ≠ p := by
  unfold free at hf
  split_ifs at hf
  obtain rfl := Option.some.inj hf
  rfl

theorem mem_addresses_free {h h' : Heap α} {p q : ℕ} (hf : h.free p = some h') :
    q ∈ h'.addresses ↔ q ∈ h.addresses ∧ q ≠ p := by
  rw [mem_addresses_iff, mem_addresses_iff, live_free hf]
  simp only [List.mem_filter, decide_eq_true_eq]
  exact exists_and_right

/-- **A deletion leaves the other objects alone.** -/
theorem find?_free {h h' : Heap α} {p q : ℕ} {a : α} (hf : h.free p = some h')
    (ha : h.find? q = some a) (hq : q ≠ p) : h'.find? q = some a := by
  rw [find?_eq_some] at ha ⊢
  rw [live_free hf]
  exact List.mem_filter.mpr ⟨ha, decide_eq_true hq⟩

theorem find?_of_free {h h' : Heap α} {p q : ℕ} {a : α} (hf : h.free p = some h')
    (ha : h'.find? q = some a) : h.find? q = some a := by
  rw [find?_eq_some, live_free hf] at ha
  exact find?_eq_some.mpr (List.mem_filter.mp ha).1

/-- **Every allocated address was freed once, or is there still.** -/
theorem count_freed (h : Heap α) {p : ℕ} (hp : p < h.next) :
    h.freed.count p = if p ∈ h.addresses then 0 else 1 := by
  have hcount := h.accounted.count_eq p
  rw [List.count_append, List.count_eq_one_of_mem List.nodup_range (List.mem_range.mpr hp)] at hcount
  change h.addresses.count p + _ = 1 at hcount
  split_ifs with hmem
  · rw [List.count_eq_one_of_mem h.addresses_nodup hmem] at hcount
    omega
  · rw [List.count_eq_zero_of_not_mem hmem] at hcount
    omega

end Heap

end NetworkDriver.Library.Allocation
