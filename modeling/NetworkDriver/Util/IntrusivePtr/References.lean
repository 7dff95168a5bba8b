import NetworkDriver.Util.IntrusivePtr.Model

/-! # References to objects

What the functions of an object do to its count, and what a change of a pointer does to the references.
Both are said of counts: the same one is taken from, or given to, one object.

* `Counts`: the objects have given counts, and are destroyed where these are zero.
* `counts_construct`, `counts_deref`, `counts_ref_iff`: what the three functions of an object do to it.
* `references_update`: what a change of a pointer does to the references.
* `counts_derefHeld`, `counts_setPtr_iff`: what giving up and taking an object does to the counts. -/

namespace NetworkDriver.Util.IntrusivePtr.References

open NetworkDriver.Library.Tally NetworkDriver.Util.IntrusivePtr.Model

variable {ι : Type}

/-! ### Objects -/

/-- One more for an object. -/
def more (x : Option ℕ) (c : ℕ → ℕ) (o : ℕ) : ℕ := c o + if x = some o then 1 else 0

/-- One less for an object. -/
def less (x : Option ℕ) (c : ℕ → ℕ) (o : ℕ) : ℕ := c o - if x = some o then 1 else 0

theorem more_none (c : ℕ → ℕ) : more none c = c := by
  funext o
  simp [more]

theorem less_none (c : ℕ → ℕ) : less none c = c := by
  funext o
  simp [less]

/-- One more and one less for different reasons. -/
theorem more_less_comm {x y : Option ℕ} {c : ℕ → ℕ} (h : ∀ o, x = some o → 0 < c o) :
    more y (less x c) = less x (more y c) := by
  funext o
  unfold more less
  by_cases hx : x = some o
  · have hpos := h o hx
    simp only [if_pos hx]
    omega
  · simp only [if_neg hx]
    omega

theorem less_more (x : Option ℕ) (c : ℕ → ℕ) : less x (more x c) = c := by
  funext o
  exact Nat.add_sub_cancel ..

/-- The objects have the counts `c`, and are destroyed where these are zero. -/
structure Counts (m : Memory ι) (c : ℕ → ℕ) : Prop where
  counted : ∀ o, (m.objects o).refCount.toNat = c o
  destroyed : ∀ o, (m.objects o).deleted = if o < m.size ∧ c o = 0 then 1 else 0
  fresh : ∀ o, m.size ≤ o → c o = 0
  unused : m.misused = false

section Counts

variable {m : Memory ι} {c : ℕ → ℕ}

/-- Only the objects matter. -/
theorem Counts.congr {m' : Memory ι} (h : Counts m c) (hobjects : m'.objects = m.objects)
    (hsize : m'.size = m.size) (hmisused : m'.misused = m.misused) : Counts m' c := by
  refine ⟨?_, ?_, ?_, ?_⟩
  · rw [hobjects]
    exact h.counted
  · rw [hobjects, hsize]
    exact h.destroyed
  · rw [hsize]
    exact h.fresh
  · rw [hmisused]
    exact h.unused

theorem Counts.lt_size (h : Counts m c) {o : ℕ} (ho : 0 < c o) : o < m.size := by
  by_contra hlt
  have hzero := h.fresh o (not_lt.mp hlt)
  omega

theorem Counts.deleted_of_pos (h : Counts m c) {o : ℕ} (ho : 0 < c o) : (m.objects o).deleted = 0 := by
  rw [h.destroyed, if_neg (by omega)]

theorem Counts.lt_two_pow (h : Counts m c) (o : ℕ) : c o < 2 ^ 64 := by
  rw [← h.counted o]
  exact UInt64.toNat_lt _

/-- A `use` of an object is recorded exactly if it is destroyed. -/
theorem Counts.misused_use (h : Counts m c) {o : ℕ} (ho : o < m.size) :
    (use o m).misused = false ↔ 0 < c o := by
  have hdeleted := h.destroyed o
  change (m.misused || decide ((m.objects o).deleted ≠ 0)) = false ↔ 0 < c o
  rw [h.unused, Bool.false_or, decide_eq_false_iff_not, not_not, hdeleted]
  by_cases hzero : c o = 0
  · simp [ho, hzero]
  · simp [hzero, Nat.pos_of_ne_zero hzero]

/-- `make_intrusive` makes an object with one reference. -/
theorem counts_construct (h : Counts m c) : Counts (construct m) (more (some m.size) c) := by
  have hzero := h.fresh m.size le_rfl
  refine ⟨fun o => ?_, fun o => ?_, fun o ho => ?_, h.unused⟩
  · by_cases heq : o = m.size
    · subst heq
      simp [construct, more, hzero]
    · simp [construct, more, heq, Ne.symm heq, h.counted o]
  · by_cases heq : o = m.size
    · subst heq
      simp [construct, more, hzero]
    · have hlt : o < m.size + 1 ↔ o < m.size := by omega
      simp [construct, more, heq, Ne.symm heq, h.destroyed o, hlt]
  · change m.size + 1 ≤ o at ho
    have hne : m.size ≠ o := by omega
    have hold := h.fresh o (by omega)
    simp [more, hne, hold]

/-- **`deref` of an object with a reference** takes one, and destroys the object with the last one. -/
theorem counts_deref (h : Counts m c) {o : ℕ} (ho : 0 < c o) :
    Counts (deref o m) (less (some o) c) := by
  have hlt := h.lt_size ho
  have hdeleted := h.deleted_of_pos ho
  have hcount := h.counted o
  have hsub : ((m.objects o).refCount - 1).toNat = c o - 1 := by
    rw [UInt64.toNat_sub_of_le, hcount]
    · rfl
    · rw [UInt64.le_iff_toNat_le, hcount]
      exact ho
  have hlast : (m.objects o).refCount = 1 ↔ c o - 1 = 0 := by
    rw [← UInt64.toNat_inj, hcount]
    change c o = 1 ↔ c o - 1 = 0
    omega
  refine ⟨fun o' => ?_, fun o' => ?_, fun o' ho' => ?_, (h.misused_use hlt).mpr ho⟩
  · by_cases heq : o' = o
    · subst heq
      simp [deref, less, hsub]
    · simp [deref, less, heq, Ne.symm heq, h.counted o']
  · by_cases heq : o' = o
    · subst heq
      simp [deref, use, less, hdeleted, hlt, hlast]
    · simp [deref, use, less, heq, Ne.symm heq, h.destroyed o']
  · have hold := h.fresh o' ho'
    simp [less, hold]

/-- **`ref` adds a reference** exactly if the object is not destroyed and the count does not wrap
around. -/
theorem counts_ref_iff (h : Counts m c) {o : ℕ} (ho : o < m.size) :
    Counts (ref o m) (more (some o) c) ↔ 0 < c o ∧ c o + 1 < 2 ^ 64 := by
  constructor
  · intro hafter
    have hpos := (h.misused_use ho).mp hafter.unused
    have hroom := hafter.lt_two_pow o
    rw [more, if_pos rfl] at hroom
    exact ⟨hpos, hroom⟩
  · rintro ⟨hpos, hroom⟩
    have hdeleted := h.deleted_of_pos hpos
    have hadd : ((m.objects o).refCount + 1).toNat = c o + 1 := by
      rw [UInt64.toNat_add, h.counted o]
      exact Nat.mod_eq_of_lt hroom
    refine ⟨fun o' => ?_, fun o' => ?_, fun o' ho' => ?_, (h.misused_use ho).mpr hpos⟩
    · by_cases heq : o' = o
      · subst heq
        simp [ref, more, hadd]
      · simp [ref, more, heq, Ne.symm heq, h.counted o']
    · by_cases heq : o' = o
      · subst heq
        simp [ref, more, hdeleted]
      · simp [ref, use, more, heq, Ne.symm heq, h.destroyed o']
    · have hold := h.fresh o' ho'
      have hne : o ≠ o' := by
        rintro rfl
        exact absurd ho (not_lt.mpr ho')
      simp [more, hne, hold]

end Counts

/-! ### References -/

section References

variable [Fintype ι]

/-- The references depend on the pointers and on what was released. -/
theorem references_congr {m m' : Memory ι} (hptrs : m'.ptrs = m.ptrs)
    (hreleased : m'.released = m.released) :
    references m' = references m := by
  funext o
  unfold references
  rw [hptrs, hreleased]

/-- A reference from the released ones is adopted. -/
theorem references_adopt {m : Memory ι} {raw : ℕ} (h : raw ∈ m.released) :
    more (some raw) (references { m with released := m.released.erase raw }) = references m := by
  funext o
  have hcount := List.count_erase (a := o) (b := raw) (l := m.released)
  have hpos := List.count_pos_iff.mpr h
  change tally m.ptrs (some (some o)) + (m.released.erase raw).count o + _ = _
  unfold references
  by_cases heq : raw = o
  · subst heq
    simp only [beq_self_eq_true, ↓reduceIte] at hcount ⊢
    omega
  · have hne : (raw == o) = false := beq_eq_false_iff_ne.mpr heq
    simp only [hne, Bool.false_eq_true, ↓reduceIte, Option.some.injEq, heq] at hcount ⊢
    omega

variable [DecidableEq ι]

/-- A pointer that holds an object is a reference to it. -/
theorem references_pos {m : Memory ι} {v : ι} {o : ℕ} (h : get m v = some o) : 0 < references m o := by
  have htally := tally_pos (Option.join_eq_some_iff.mp h)
  unfold references
  omega

/-- **A change of a pointer** moves one reference. -/
theorem references_update (m : Memory ι) (v : ι) (x : Option (Option ℕ)) :
    references { m with ptrs := Function.update m.ptrs v x } =
      more x.join (less (get m v) (references m)) := by
  funext o
  have htally := tally_update m.ptrs v x (some (some o))
  have hold : get m v = some o ↔ m.ptrs v = some (some o) := Option.join_eq_some_iff
  simp only [← hold, ← Option.join_eq_some_iff (x := x)] at htally
  change tally (Function.update m.ptrs v x) (some (some o)) + m.released.count o = _
  unfold more less
  by_cases hheld : get m v = some o
  · have hpos := references_pos hheld
    simp only [if_pos hheld] at htally ⊢
    unfold references at hpos ⊢
    omega
  · simp only [if_neg hheld] at htally ⊢
    unfold references
    omega

/-! ### Pointers -/

variable {m : Memory ι} {v : ι}

omit [Fintype ι] [DecidableEq ι] in
@[simp] theorem ptrs_derefHeld (v : ι) (m : Memory ι) : (derefHeld v m).ptrs = m.ptrs := by
  unfold derefHeld
  cases get m v <;> rfl

omit [Fintype ι] [DecidableEq ι] in
@[simp] theorem released_derefHeld (v : ι) (m : Memory ι) : (derefHeld v m).released = m.released := by
  unfold derefHeld
  cases get m v <;> rfl

omit [Fintype ι] in
theorem ptrs_setPtr (v : ι) (raw : Option ℕ) (addRef : Bool) (m : Memory ι) :
    (setPtr v raw addRef m).ptrs = Function.update m.ptrs v (some raw) := by
  unfold setPtr
  cases raw with
  | none => rfl
  | some o => cases addRef <;> rfl

omit [Fintype ι] in
theorem released_setPtr (v : ι) (raw : Option ℕ) (addRef : Bool) (m : Memory ι) :
    (setPtr v raw addRef m).released = m.released := by
  unfold setPtr
  cases raw with
  | none => rfl
  | some o => cases addRef <;> rfl

theorem references_setRaw (v : ι) (raw : Option ℕ) (m : Memory ι) :
    references (setRaw v raw m) = more raw (less (get m v) (references m)) :=
  references_update m v (some raw)

theorem references_setPtr (v : ι) (raw : Option ℕ) (addRef : Bool) (m : Memory ι) :
    references (setPtr v raw addRef m) = more raw (less (get m v) (references m)) := by
  rw [← references_setRaw]
  exact references_congr (ptrs_setPtr v raw addRef m) (released_setPtr v raw addRef m)

theorem references_reset (v : ι) (raw : Option ℕ) (addRef : Bool) (m : Memory ι) :
    references (reset v raw addRef m) = more raw (less (get m v) (references m)) := by
  have hget : get (derefHeld v m) v = get m v := by
    unfold Model.get
    rw [ptrs_derefHeld]
  unfold reset
  rw [references_setPtr, hget, references_congr (ptrs_derefHeld v m) (released_derefHeld v m)]

omit [DecidableEq ι] [Fintype ι] in
/-- The object that a pointer gives up loses its reference. -/
theorem counts_derefHeld {c : ℕ → ℕ} (h : Counts m c) (hpos : ∀ o, get m v = some o → 0 < c o) :
    Counts (derefHeld v m) (less (get m v) c) := by
  unfold derefHeld
  cases hheld : get m v with
  | none =>
    rw [less_none]
    exact h
  | some o => exact counts_deref h (hpos o hheld)

omit [Fintype ι] in
/-- The object that a pointer takes gets a reference, exactly if it is not destroyed and there is
room. -/
theorem counts_setPtr_iff {c : ℕ → ℕ} {raw : Option ℕ} (h : Counts m c)
    (hsize : ∀ o, raw = some o → o < m.size) :
    Counts (setPtr v raw true m) (more raw c) ↔ ∀ o, raw = some o → 0 < c o ∧ c o + 1 < 2 ^ 64 := by
  have hset : Counts (setRaw v raw m) c := h.congr rfl rfl rfl
  cases raw with
  | none =>
    rw [more_none]
    refine ⟨fun _ o ho => ?_, fun _ => hset⟩
    cases ho
  | some o =>
    change Counts (ref o (setRaw v (some o) m)) _ ↔ _
    rw [counts_ref_iff hset (hsize o rfl)]
    constructor
    · rintro hboth o' ho'
      obtain rfl := Option.some.inj ho'
      exact hboth
    · intro hall
      exact hall o rfl

omit [Fintype ι] in
/-- A pointer that takes an object without a reference leaves the counts. -/
theorem counts_setPtr_false {c : ℕ → ℕ} (h : Counts m c) (raw : Option ℕ) :
    Counts (setPtr v raw false m) c := by
  cases raw with
  | none => exact h.congr rfl rfl rfl
  | some o => exact h.congr rfl rfl rfl

end References

end NetworkDriver.Util.IntrusivePtr.References
