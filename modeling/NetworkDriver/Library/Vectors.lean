import Mathlib.Data.List.Basic
import Mathlib.Logic.Function.Basic

/-! # Byte vectors over a memory of blocks

A memory maps addresses to blocks of bytes; address `0` is the null pointer, whose block is empty. A
*vector* is an address and a size: its bytes are the first `size` bytes of the block, and what lies
behind them is spare capacity with whatever was left there. Shrinking a vector from the front moves
its bytes down inside the block and leaves the tail of the block as it was, so an older view of the
same block still reads `len` bytes, some of them stale.

* `Memory.Valid`: a vector lies inside its block.
* `Separate`: vectors of a list share no block, except the empty block at the null pointer. -/

namespace NetworkDriver.Library.Vectors

/-- Blocks of bytes by address. The addresses from `next` on were never handed out. -/
structure Memory where
  block : ℕ → List UInt8
  next : ℕ

/-- A contiguous vector of bytes: where its block is, and how many bytes of it are in use. -/
structure Vec where
  data : ℕ
  size : ℕ
  deriving DecidableEq, Repr

/-- The memory before any allocation. -/
def Memory.empty : Memory := ⟨fun _ => [], 1⟩

/-- The vector that never allocated, which is also what a vector is after being moved from. -/
def Vec.null : Vec := ⟨0, 0⟩

namespace Memory

/-- The bytes a raw view of `len` bytes at `base` describes. -/
def view (m : Memory) (base len : ℕ) : List UInt8 := (m.block base).take len

/-- The bytes of a vector. -/
def bytes (m : Memory) (v : Vec) : List UInt8 := m.view v.data v.size

/-- Replaces a block. -/
def store (m : Memory) (p : ℕ) (bs : List UInt8) : Memory :=
  { m with block := Function.update m.block p bs }

/-- A new vector holding `bs`, with the bytes `spare` behind them as capacity. -/
def alloc (m : Memory) (bs spare : List UInt8) : Memory × Vec :=
  if bs ++ spare = [] then (m, Vec.null)
  else ({ block := Function.update m.block m.next (bs ++ spare), next := m.next + 1 },
    ⟨m.next, bs.length⟩)

/-- Assignment of `bs`: in place if the capacity suffices, in a new block of the exact size if not. -/
def assign (m : Memory) (v : Vec) (bs : List UInt8) : Memory × Vec :=
  if bs.length ≤ (m.block v.data).length then
    (m.store v.data (bs ++ (m.block v.data).drop bs.length), ⟨v.data, bs.length⟩)
  else m.alloc bs []

/-- Erasure of the first `n` bytes: the others move to the front of the block. -/
def eraseFront (m : Memory) (v : Vec) (n : ℕ) : Memory × Vec :=
  (m.store v.data ((m.bytes v).drop n ++ (m.block v.data).drop (v.size - n)), ⟨v.data, v.size - n⟩)

/-- The memory is well formed: the null block is empty, and nothing is at addresses not handed out. -/
structure Wf (m : Memory) : Prop where
  pos : 0 < m.next
  null : m.block 0 = []

/-- The vector lies inside its block. -/
structure Valid (m : Memory) (v : Vec) : Prop where
  lt : v.data < m.next
  fits : v.size ≤ (m.block v.data).length

theorem wf_empty : Memory.empty.Wf := ⟨Nat.one_pos, rfl⟩

theorem valid_null {m : Memory} (h : m.Wf) : m.Valid Vec.null := ⟨h.pos, Nat.zero_le _⟩

theorem length_bytes {m : Memory} {v : Vec} (h : m.Valid v) : (m.bytes v).length = v.size := by
  rw [bytes, view, List.length_take, Nat.min_eq_left h.fits]

theorem bytes_null (m : Memory) : m.bytes Vec.null = [] := rfl

/-- A vector at the null pointer is empty. -/
theorem Valid.size_eq_zero {m : Memory} {v : Vec} (hm : m.Wf) (h : m.Valid v) (h0 : v.data = 0) :
    v.size = 0 := by
  have := h.fits
  rw [h0, hm.null] at this
  exact Nat.le_zero.mp this

theorem bytes_of_size_zero {m : Memory} {v : Vec} (h : v.size = 0) : m.bytes v = [] := by
  rw [bytes, view, h, List.take_zero]

theorem view_take (m : Memory) (base : ℕ) {k len : ℕ} (h : k ≤ len) :
    (m.view base len).take k = m.view base k := by
  rw [view, view, List.take_take, Nat.min_eq_left h]

/-! ### Stores -/

theorem store_block_self (m : Memory) (p : ℕ) (bs : List UInt8) : (m.store p bs).block p = bs := by
  simp [store]

theorem store_block_ne (m : Memory) {p q : ℕ} (bs : List UInt8) (h : q ≠ p) :
    (m.store p bs).block q = m.block q := by
  simp [store, h]

theorem wf_store {m : Memory} (h : m.Wf) {p : ℕ} {bs : List UInt8} (hp : p = 0 → bs = []) :
    (m.store p bs).Wf := by
  refine ⟨h.pos, ?_⟩
  by_cases h0 : p = 0
  · subst h0; rw [store_block_self, hp rfl]
  · rw [store_block_ne _ _ (Ne.symm h0), h.null]

/-- A store elsewhere leaves a vector alone. -/
theorem bytes_store_ne (m : Memory) {p : ℕ} {v : Vec} (bs : List UInt8) (h : v.data ≠ p) :
    (m.store p bs).bytes v = m.bytes v := by
  rw [bytes, view, store_block_ne _ _ h]; rfl

theorem valid_store_ne {m : Memory} {p : ℕ} {v : Vec} {bs : List UInt8} (h : v.data ≠ p)
    (hv : m.Valid v) : (m.store p bs).Valid v :=
  ⟨hv.lt, by rw [store_block_ne _ _ h]; exact hv.fits⟩

/-! ### Allocation -/

theorem wf_alloc {m : Memory} (h : m.Wf) (bs spare : List UInt8) : (m.alloc bs spare).1.Wf := by
  unfold alloc
  split_ifs
  · exact h
  · refine ⟨Nat.succ_pos _, ?_⟩
    have := h.pos
    simp only [Function.update_apply]
    rw [if_neg (by omega), h.null]

theorem bytes_alloc (m : Memory) (bs spare : List UInt8) :
    (m.alloc bs spare).1.bytes (m.alloc bs spare).2 = bs := by
  unfold alloc
  split_ifs with h
  · rw [bytes_null, (List.append_eq_nil_iff.mp h).1]
  · simp [bytes, view]

theorem valid_alloc {m : Memory} (h : m.Wf) (bs spare : List UInt8) :
    (m.alloc bs spare).1.Valid (m.alloc bs spare).2 := by
  unfold alloc
  split_ifs
  · exact valid_null h
  · exact ⟨Nat.lt_succ_self _, by simp⟩

theorem size_alloc (m : Memory) (bs spare : List UInt8) : (m.alloc bs spare).2.size = bs.length := by
  unfold alloc
  split_ifs with h
  · rw [(List.append_eq_nil_iff.mp h).1]; rfl
  · rfl

/-- Allocation leaves older vectors alone. -/
theorem bytes_alloc_of_valid {m : Memory} {v : Vec} (hv : m.Valid v) (bs spare : List UInt8) :
    (m.alloc bs spare).1.bytes v = m.bytes v := by
  unfold alloc
  split_ifs
  · rfl
  · have := hv.lt
    simp only [bytes, view]
    rw [Function.update_of_ne (by omega)]

theorem valid_alloc_of_valid {m : Memory} {v : Vec} (hv : m.Valid v) (bs spare : List UInt8) :
    (m.alloc bs spare).1.Valid v := by
  unfold alloc
  split_ifs
  · exact hv
  · have := hv.lt
    refine ⟨by simp only; omega, ?_⟩
    simp only
    rw [Function.update_of_ne (by omega)]
    exact hv.fits

/-- The new vector is at the null pointer, or where no older vector is. -/
theorem alloc_data (m : Memory) (bs spare : List UInt8) :
    (m.alloc bs spare).2.data = 0 ∨ (m.alloc bs spare).2.data = m.next := by
  unfold alloc
  split_ifs
  · exact Or.inl rfl
  · exact Or.inr rfl

/-! ### In-place changes -/

/-- Two vectors share no block but the null one. -/
def Apart (v w : Vec) : Prop := v.data = w.data → v.data = 0

theorem store_of_apart {m : Memory} {v w : Vec} (hm : m.Wf) (hw : m.Valid w) (h : Apart v w)
    (bs : List UInt8) :
    (m.store v.data bs).bytes w = m.bytes w ∧ (m.store v.data bs).Valid w := by
  by_cases hd : w.data = v.data
  · have h0 : w.data = 0 := by rw [hd]; exact h hd.symm
    have hs := hw.size_eq_zero hm h0
    exact ⟨by rw [bytes_of_size_zero hs, bytes_of_size_zero hs], hw.lt, by rw [hs]; exact Nat.zero_le _⟩
  · exact ⟨bytes_store_ne m bs hd, valid_store_ne hd hw⟩

theorem assign_null_store {m : Memory} {v : Vec} {bs : List UInt8} (hm : m.Wf)
    (hle : bs.length ≤ (m.block v.data).length) (h0 : v.data = 0) :
    bs ++ (m.block v.data).drop bs.length = [] := by
  rw [h0, hm.null] at hle ⊢
  simpa using hle

/-- **Assignment**: the vector holds the new bytes, in its block or in a new one. -/
theorem assign_self {m : Memory} {v : Vec} (hm : m.Wf) (hv : m.Valid v) (bs : List UInt8) :
    (m.assign v bs).1.Wf ∧ (m.assign v bs).1.Valid (m.assign v bs).2 ∧
      (m.assign v bs).1.bytes (m.assign v bs).2 = bs ∧ (m.assign v bs).2.size = bs.length ∧
      ((m.assign v bs).2.data = 0 ∨ (m.assign v bs).2.data = v.data ∨
        (m.assign v bs).2.data = m.next) := by
  unfold assign
  split_ifs with h
  · refine ⟨wf_store hm (assign_null_store hm h), ⟨hv.lt, ?_⟩, ?_, rfl, Or.inr (Or.inl rfl)⟩
    · simp [store_block_self]
    · simp [bytes, view, store_block_self]
  · exact ⟨wf_alloc hm _ _, valid_alloc hm _ _, bytes_alloc _ _ _, size_alloc _ _ _,
      (alloc_data m bs []).imp_right Or.inr⟩

theorem assign_of_apart {m : Memory} {v w : Vec} (hm : m.Wf) (hw : m.Valid w) (h : Apart v w)
    (bs : List UInt8) :
    (m.assign v bs).1.bytes w = m.bytes w ∧ (m.assign v bs).1.Valid w := by
  unfold assign
  split_ifs with hle
  · exact store_of_apart hm hw h _
  · exact ⟨bytes_alloc_of_valid hw _ _, valid_alloc_of_valid hw _ _⟩

theorem eraseFront_null_store {m : Memory} {v : Vec} {n : ℕ} (hm : m.Wf) (h0 : v.data = 0) :
    (m.bytes v).drop n ++ (m.block v.data).drop (v.size - n) = [] := by
  rw [bytes, view, h0, hm.null]
  simp

/-- **Erasing from the front** leaves the remaining bytes, at the same address. -/
theorem eraseFront_self {m : Memory} {v : Vec} (hm : m.Wf) (hv : m.Valid v) (n : ℕ) :
    (m.eraseFront v n).1.Wf ∧ (m.eraseFront v n).1.Valid (m.eraseFront v n).2 ∧
      (m.eraseFront v n).1.bytes (m.eraseFront v n).2 = (m.bytes v).drop n := by
  have hl := length_bytes hv
  refine ⟨wf_store hm (eraseFront_null_store hm), ⟨hv.lt, ?_⟩, ?_⟩
  · simp only [eraseFront, store_block_self, List.length_append, List.length_drop, hl]
    omega
  · have : ((m.bytes v).drop n).length = v.size - n := by rw [List.length_drop, hl]
    rw [bytes, view]
    simp only [eraseFront, store_block_self]
    rw [List.take_append_of_le_length (Nat.le_of_eq this.symm), List.take_of_length_le (Nat.le_of_eq this)]

theorem eraseFront_of_apart {m : Memory} {v w : Vec} (hm : m.Wf) (hw : m.Valid w) (h : Apart v w)
    (n : ℕ) : (m.eraseFront v n).1.bytes w = m.bytes w ∧ (m.eraseFront v n).1.Valid w :=
  store_of_apart hm hw h _

end Memory

/-! ### Separation -/

/-- Vectors of the list share no block but the null one. -/
def Separate (vs : List Vec) : Prop := vs.Pairwise Memory.Apart

theorem Separate.perm {vs ws : List Vec} (h : Separate vs) (hp : vs.Perm ws) : Separate ws :=
  List.Pairwise.perm h hp fun {_ _} hab he => by rw [he]; exact hab he.symm

theorem Separate.sublist {vs ws : List Vec} (h : Separate vs) (hs : ws.Sublist vs) : Separate ws :=
  List.Pairwise.sublist hs h

/-- Separation speaks about the blocks only, not about the sizes. -/
theorem Separate.of_data {vs ws : List Vec} (h : Separate vs) (he : vs.map Vec.data = ws.map Vec.data) :
    Separate ws := by
  have hm : (vs.map Vec.data).Pairwise fun a b => a = b → a = 0 := List.pairwise_map.mpr h
  rw [he, List.pairwise_map] at hm
  exact hm

end NetworkDriver.Library.Vectors
