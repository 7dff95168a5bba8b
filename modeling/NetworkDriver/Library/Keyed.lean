import Mathlib.Algebra.Order.Ring.Int
import Mathlib.Data.List.Perm.Subperm
import Mathlib.Data.List.Nodup

/-! # Keyed containers

Two containers whose elements are told apart by a key that each element carries. An `OrderedSet` is
the `std::set` of a comparison that looks at the key only: it is sorted by the key, holds at most one
element for a key, and an insertion that meets an equal key does nothing. A `KeyedMap` is an
unordered map from the key: it holds at most one element for a key, in an order that means nothing.

* `OrderedSet.insert_perm`: an insertion with a fresh key adds exactly its element.
* `OrderedSet.insertAll_perm`: so does the insertion of a range, when all keys differ.
* `OrderedSet.mem_of_mem_insertAll`: in any case nothing but the range is added.
* `KeyedMap.find?_eq_some`: a lookup finds the element that carries the key.
* `KeyedMap.perm_cons_erase`: an erasure takes out one element. -/

namespace NetworkDriver.Library.Keyed

variable {α κ : Type*}

/-! ### Ordered sets -/

/-- A set of elements sorted by their key, with at most one element for a key. -/
structure OrderedSet [LT κ] (key : α → κ) where
  elems : List α
  sorted : elems.Pairwise fun a b => key a < key b

/-- Puts `a` at its place in a sorted list, unless an element with an equal key is there. -/
def place [LinearOrder κ] (key : α → κ) (a : α) : List α → List α
  | [] => [a]
  | b :: l =>
    if key a < key b then a :: b :: l
    else if key b < key a then b :: place key a l
    else b :: l

section OrderedSet

variable [LinearOrder κ] {key : α → κ}

theorem mem_of_mem_place {a b : α} {l : List α} (h : b ∈ place key a l) : b = a ∨ b ∈ l := by
  induction l with
  | nil => exact Or.inl (List.mem_singleton.mp h)
  | cons c l ih =>
    unfold place at h
    split_ifs at h with hac hca
    · exact List.mem_cons.mp h
    · rcases List.mem_cons.mp h with rfl | h
      · exact Or.inr List.mem_cons_self
      · exact (ih h).imp_right (List.mem_cons_of_mem c)
    · exact Or.inr h

theorem mem_place_of_mem {a b : α} {l : List α} (h : b ∈ l) : b ∈ place key a l := by
  induction l with
  | nil => cases h
  | cons c l ih =>
    unfold place
    split_ifs
    · exact List.mem_cons_of_mem a h
    · rcases List.mem_cons.mp h with rfl | h
      · exact List.mem_cons_self
      · exact List.mem_cons_of_mem c (ih h)
    · exact h

/-- The key is there after an insertion, with the new element or with one that was there before. -/
theorem exists_mem_place (a : α) (l : List α) : ∃ b ∈ place key a l, key b = key a := by
  induction l with
  | nil => exact ⟨a, List.mem_singleton_self a, rfl⟩
  | cons c l ih =>
    unfold place
    split_ifs with hac hca
    · exact ⟨a, List.mem_cons_self, rfl⟩
    · obtain ⟨b, hb, hk⟩ := ih
      exact ⟨b, List.mem_cons_of_mem c hb, hk⟩
    · exact ⟨c, List.mem_cons_self, le_antisymm (not_lt.mp hac) (not_lt.mp hca)⟩

theorem place_sorted (a : α) {l : List α} (h : l.Pairwise fun a b => key a < key b) :
    (place key a l).Pairwise fun a b => key a < key b := by
  induction l with
  | nil => exact List.pairwise_singleton _ a
  | cons b l ih =>
    obtain ⟨hb, hl⟩ := List.pairwise_cons.mp h
    unfold place
    split_ifs with hab hba
    · refine List.pairwise_cons.mpr ⟨?_, h⟩
      intro c hc
      rcases List.mem_cons.mp hc with rfl | hc
      · exact hab
      · exact hab.trans (hb c hc)
    · refine List.pairwise_cons.mpr ⟨?_, ih hl⟩
      intro c hc
      rcases mem_of_mem_place hc with rfl | hc
      · exact hba
      · exact hb c hc
    · exact h

theorem place_perm {a : α} {l : List α} (h : ∀ b ∈ l, key b ≠ key a) :
    (place key a l).Perm (a :: l) := by
  induction l with
  | nil => exact List.Perm.refl _
  | cons b l ih =>
    obtain ⟨hb, hl⟩ := List.forall_mem_cons.mp h
    unfold place
    split_ifs with hab hba
    · exact List.Perm.refl _
    · exact ((ih hl).cons b).trans (List.Perm.swap a b l)
    · exact absurd (le_antisymm (not_lt.mp hab) (not_lt.mp hba)) hb

namespace OrderedSet

/-- The empty set. -/
def empty : OrderedSet key := ⟨[], List.Pairwise.nil⟩

/-- `emplace`: nothing happens where an element with an equal key is present. -/
def insert (s : OrderedSet key) (a : α) : OrderedSet key :=
  ⟨place key a s.elems, place_sorted a s.sorted⟩

/-- `insert(first, last)`. -/
def insertAll (s : OrderedSet key) (l : List α) : OrderedSet key := l.foldl insert s

@[simp] theorem elems_empty : (empty : OrderedSet key).elems = [] := rfl

@[simp] theorem insertAll_nil (s : OrderedSet key) : s.insertAll [] = s := rfl

@[simp] theorem insertAll_cons (s : OrderedSet key) (a : α) (l : List α) :
    s.insertAll (a :: l) = (s.insert a).insertAll l := rfl

theorem mem_of_mem_insert {s : OrderedSet key} {a b : α} (h : b ∈ (s.insert a).elems) :
    b = a ∨ b ∈ s.elems :=
  mem_of_mem_place h

theorem mem_insert_of_mem {s : OrderedSet key} {a b : α} (h : b ∈ s.elems) : b ∈ (s.insert a).elems :=
  mem_place_of_mem h

theorem exists_mem_insert (s : OrderedSet key) (a : α) : ∃ b ∈ (s.insert a).elems, key b = key a :=
  exists_mem_place a s.elems

/-- The first element has the least key. -/
theorem head_le {s : OrderedSet key} {a b : α} (ha : s.elems.head? = some a) (hb : b ∈ s.elems) :
    key a ≤ key b := by
  have hs := s.sorted
  obtain ⟨l, hl⟩ := List.head?_eq_some_iff.mp ha
  rw [hl] at hs hb
  rcases List.mem_cons.mp hb with rfl | hb
  · exact le_rfl
  · exact ((List.pairwise_cons.mp hs).1 b hb).le

/-- **Insertion with a fresh key.** -/
theorem insert_perm {s : OrderedSet key} {a : α} (h : key a ∉ s.elems.map key) :
    (s.insert a).elems.Perm (a :: s.elems) := by
  refine place_perm fun b hb he => h ?_
  rw [← he]
  exact List.mem_map_of_mem hb

theorem mem_of_mem_insertAll {s : OrderedSet key} {l : List α} {b : α}
    (h : b ∈ (s.insertAll l).elems) : b ∈ s.elems ∨ b ∈ l := by
  induction l generalizing s with
  | nil => exact Or.inl h
  | cons a l ih =>
    rcases ih h with h | h
    · rcases mem_of_mem_insert h with rfl | h
      · exact Or.inr List.mem_cons_self
      · exact Or.inl h
    · exact Or.inr (List.mem_cons_of_mem a h)

/-- **Insertion of a range with fresh keys.** -/
theorem insertAll_perm {s : OrderedSet key} {l : List α}
    (h : (s.elems.map key ++ l.map key).Nodup) : (s.insertAll l).elems.Perm (s.elems ++ l) := by
  induction l generalizing s with
  | nil => simp
  | cons a l ih =>
    have hp : (s.elems.map key ++ (a :: l).map key).Perm
        (key a :: (s.elems.map key ++ l.map key)) := List.perm_middle
    have hn := hp.nodup_iff.mp h
    have ha : key a ∉ s.elems.map key := fun hm =>
      (List.nodup_cons.mp hn).1 (List.mem_append_left _ hm)
    have hi := insert_perm ha
    have hn' : ((s.insert a).elems.map key ++ l.map key).Nodup := by
      refine (((hi.map key).append_right (l.map key)).nodup_iff).mpr ?_
      exact hn
    exact ((ih hn').trans (hi.append_right l)).trans List.perm_middle.symm

end OrderedSet

end OrderedSet

/-! ### Keyed maps -/

/-- A map from the key of its elements, as `std::unordered_map` holds it. -/
structure KeyedMap (key : α → κ) where
  elems : List α
  nodup : (elems.map key).Nodup

namespace KeyedMap

variable {key : α → κ}

/-- The empty map. -/
def empty : KeyedMap key := ⟨[], List.nodup_nil⟩

/-- Another order of the elements. -/
def rehash [DecidableEq α] (m : KeyedMap key) (order : List α) : KeyedMap key :=
  if h : order.Perm m.elems then ⟨order, (h.map key).nodup_iff.mpr m.nodup⟩ else m

theorem rehash_perm [DecidableEq α] (m : KeyedMap key) (order : List α) :
    (m.rehash order).elems.Perm m.elems := by
  unfold rehash
  by_cases h : order.Perm m.elems
  · rw [dif_pos h]
    exact h
  · rw [dif_neg h]

variable [DecidableEq κ]

/-- `find`, `at`: the element with the key. -/
def find? (m : KeyedMap key) (k : κ) : Option α := m.elems.find? fun a => key a = k

/-- `emplace`: nothing happens where the key is present. -/
def emplace (m : KeyedMap key) (a : α) : KeyedMap key :=
  if h : key a ∈ m.elems.map key then m
  else ⟨a :: m.elems, List.nodup_cons.mpr ⟨h, m.nodup⟩⟩

/-- `erase(key)`. -/
def erase (m : KeyedMap key) (k : κ) : KeyedMap key :=
  ⟨m.elems.filter fun a => key a ≠ k, m.nodup.sublist (List.filter_sublist.map key)⟩

theorem map_key_change (l : List α) (k : κ) {f : α → α} (hf : ∀ a, key (f a) = key a) :
    (l.map fun a => if key a = k then f a else a).map key = l.map key := by
  rw [List.map_map]
  refine List.map_congr_left fun a _ => ?_
  rw [Function.comp_apply]
  split_ifs
  · exact hf a
  · rfl

/-- A change of the element with the key that leaves its key alone. -/
def update (m : KeyedMap key) (k : κ) (f : α → α) (hf : ∀ a, key (f a) = key a) : KeyedMap key where
  elems := m.elems.map fun a => if key a = k then f a else a
  nodup := by
    rw [map_key_change m.elems k hf]
    exact m.nodup

/-- The keys and their order stay. -/
theorem map_key_update (m : KeyedMap key) (k : κ) (f : α → α) (hf : ∀ a, key (f a) = key a) :
    (m.update k f hf).elems.map key = m.elems.map key := map_key_change m.elems k hf

/-- **A lookup finds the element that carries the key.** -/
theorem find?_eq_some {m : KeyedMap key} {k : κ} {a : α} :
    m.find? k = some a ↔ a ∈ m.elems ∧ key a = k := by
  have found : ∀ b, m.find? k = some b → b ∈ m.elems ∧ key b = k := by
    intro b hb
    have hk := List.find?_some hb
    exact ⟨List.mem_of_find?_eq_some hb, of_decide_eq_true hk⟩
  refine ⟨found a, fun ⟨ha, hk⟩ => ?_⟩
  cases hf : m.find? k with
  | none =>
    have hne := List.find?_eq_none.mp hf a ha
    exact absurd (decide_eq_true hk) hne
  | some b =>
    obtain ⟨hb, hkb⟩ := found b hf
    rw [List.inj_on_of_nodup_map m.nodup hb ha (hkb.trans hk.symm)]

theorem mem_emplace {m : KeyedMap key} {a b : α} :
    b ∈ (m.emplace a).elems ↔ b ∈ m.elems ∨ (b = a ∧ key a ∉ m.elems.map key) := by
  unfold emplace
  by_cases h : key a ∈ m.elems.map key
  · simp [h]
  · simp only [h, ↓reduceDIte, List.mem_cons, not_false_eq_true, and_true]
    exact or_comm

theorem elems_emplace {m : KeyedMap key} {a : α} (h : key a ∉ m.elems.map key) :
    (m.emplace a).elems = a :: m.elems := by
  unfold emplace
  rw [dif_neg h]

theorem mem_erase {m : KeyedMap key} {k : κ} {a : α} :
    a ∈ (m.erase k).elems ↔ a ∈ m.elems ∧ key a ≠ k := by
  simp [erase, List.mem_filter]

/-- An element and what is left without its key. -/
theorem perm_cons_erase {m : KeyedMap key} {a : α} (h : a ∈ m.elems) :
    m.elems.Perm (a :: (m.erase (key a)).elems) := by
  have hnodup := List.Nodup.of_map key m.nodup
  have hcons : (a :: (m.erase (key a)).elems).Nodup :=
    List.nodup_cons.mpr ⟨fun ha => (mem_erase.mp ha).2 rfl, hnodup.filter _⟩
  refine (List.perm_ext_iff_of_nodup hnodup hcons).mpr fun b => ?_
  rw [List.mem_cons, mem_erase]
  constructor
  · intro hb
    by_cases hk : key b = key a
    · exact Or.inl (List.inj_on_of_nodup_map m.nodup hb h hk)
    · exact Or.inr ⟨hb, hk⟩
  · rintro (rfl | hb)
    · exact h
    · exact hb.1

/-- An element that is there stays there when another one is added. -/
theorem find?_emplace {m : KeyedMap key} {a b : α} {k : κ} (h : m.find? k = some b) :
    (m.emplace a).find? k = some b := by
  rw [find?_eq_some] at h ⊢
  exact ⟨mem_emplace.mpr (Or.inl h.1), h.2⟩

/-- An element stays there when another key is erased. -/
theorem find?_erase {m : KeyedMap key} {b : α} {k k' : κ} (h : m.find? k = some b) (hk : k ≠ k') :
    (m.erase k').find? k = some b := by
  rw [find?_eq_some] at h ⊢
  exact ⟨mem_erase.mpr ⟨h.1, h.2 ▸ hk⟩, h.2⟩

/-- **A lookup after an insertion.** -/
theorem find?_emplace_eq (m : KeyedMap key) (a : α) (k : κ) :
    (m.emplace a).find? k = (m.find? k).or (if key a = k then some a else none) := by
  cases hf : m.find? k with
  | some b => exact find?_emplace hf
  | none =>
    have hnone : ∀ b ∈ m.elems, key b ≠ k := fun b hb hk => by
      have := find?_eq_some.mpr ⟨hb, hk⟩
      rw [hf] at this
      cases this
    split_ifs with hk
    · refine find?_eq_some.mpr ⟨mem_emplace.mpr (Or.inr ⟨rfl, fun hm => ?_⟩), hk⟩
      obtain ⟨b, hb, hkb⟩ := List.mem_map.mp hm
      exact hnone b hb (hkb.trans hk)
    · cases hg : (m.emplace a).find? k with
      | none => rfl
      | some b =>
        obtain ⟨hb, hkb⟩ := find?_eq_some.mp hg
        rcases mem_emplace.mp hb with hb | ⟨rfl, -⟩
        · exact absurd hkb (hnone b hb)
        · exact absurd hkb hk

/-- **A lookup after a change.** -/
theorem find?_update (m : KeyedMap key) (k k' : κ) (f : α → α) (hf : ∀ a, key (f a) = key a) :
    (m.update k f hf).find? k' = (m.find? k').map fun a => if k' = k then f a else a := by
  unfold update find?
  dsimp only
  rw [List.find?_map]
  have hsame : (fun a => decide (key a = k')) ∘ (fun a => if key a = k then f a else a) =
      fun a => decide (key a = k') := by
    funext a
    rw [Function.comp_apply]
    split_ifs
    · rw [hf]
    · rfl
  rw [hsame]
  cases hg : m.elems.find? fun a => decide (key a = k') with
  | none => rfl
  | some a =>
    have hfound := List.find?_some hg
    have hk : key a = k' := of_decide_eq_true hfound
    rw [Option.map_some, Option.map_some, hk]

theorem find?_eq_none {m : KeyedMap key} {k : κ} : m.find? k = none ↔ k ∉ m.elems.map key := by
  unfold find?
  rw [List.find?_eq_none]
  simp

/-- A lookup depends on the elements only. -/
theorem find?_congr {m m' : KeyedMap key} (h : ∀ a, a ∈ m.elems ↔ a ∈ m'.elems) (k : κ) :
    m.find? k = m'.find? k := by
  refine Option.ext fun a => ?_
  rw [find?_eq_some, find?_eq_some, h]

/-- The elements in another order, given by their keys. -/
def arrange (m : KeyedMap key) (order : List κ) : KeyedMap key :=
  if h : order.Perm (m.elems.map key) then
    ⟨order.filterMap m.find?, by
      have hkeys : (order.filterMap m.find?).map key = order := by
        have hall : ∀ k ∈ order, (m.find? k).map key = some k := by
          intro k hk
          cases hf : m.find? k with
          | none => exact absurd (h.subset hk) (find?_eq_none.mp hf)
          | some a => rw [Option.map_some, (find?_eq_some.mp hf).2]
        rw [List.map_filterMap, List.filterMap_congr hall, List.filterMap_some]
      rw [hkeys]
      exact h.nodup_iff.mpr m.nodup⟩
  else m

theorem mem_arrange {m : KeyedMap key} {order : List κ} {a : α} :
    a ∈ (m.arrange order).elems ↔ a ∈ m.elems := by
  unfold arrange
  by_cases h : order.Perm (m.elems.map key)
  · rw [dif_pos h, List.mem_filterMap]
    constructor
    · rintro ⟨k, -, hf⟩
      exact (find?_eq_some.mp hf).1
    · intro ha
      exact ⟨key a, h.symm.subset (List.mem_map_of_mem ha), find?_eq_some.mpr ⟨ha, rfl⟩⟩
  · rw [dif_neg h]

@[simp] theorem find?_arrange (m : KeyedMap key) (order : List κ) (k : κ) :
    (m.arrange order).find? k = m.find? k := find?_congr (fun _ => mem_arrange) k

end KeyedMap

end NetworkDriver.Library.Keyed
