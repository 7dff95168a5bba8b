import NetworkDriver.Library.Run
import NetworkDriver.Util.IntrusivePtr.References

/-! # Reference counting

`reset` gives up the old object before it takes the new one. Where both are the same object and no
other reference to it is there, it is destroyed in between.

* `counted_setPtr_iff`, `counted_reset_iff`: exactly when a new pointer, and a reset, keep the
  counting.
* `counted_step_iff`: exactly when one operation does.
* `counted_iff`: exactly when a program does. -/

namespace NetworkDriver.Util.IntrusivePtr.Counting

open NetworkDriver.Library.Run NetworkDriver.Library.Tally
open NetworkDriver.Util.IntrusivePtr.Model NetworkDriver.Util.IntrusivePtr.References

variable {ι : Type}

/-! ### Operations -/

section Operations

variable [Fintype ι]

/-- **The counting of references**: every count is the number of references, an object is destroyed
once, when that number is zero, and no destroyed object is used. -/
structure Counted (m : Memory ι) : Prop where
  counted : ∀ o, (m.objects o).refCount.toNat = references m o
  destroyed : ∀ o, (m.objects o).deleted = if o < m.size ∧ references m o = 0 then 1 else 0
  fresh : ∀ o, m.size ≤ o → references m o = 0
  unused : m.misused = false

theorem counted_iff_counts {m : Memory ι} : Counted m ↔ Counts m (references m) :=
  ⟨fun h => ⟨h.counted, h.destroyed, h.fresh, h.unused⟩,
    fun h => ⟨h.counted, h.destroyed, h.fresh, h.unused⟩⟩

/-- What moves references only, and none to or from an object, keeps the counting. -/
theorem Counted.congr {m m' : Memory ι} (h : Counted m) (hreferences : references m' = references m)
    (hobjects : m'.objects = m.objects) (hsize : m'.size = m.size) (hmisused : m'.misused = m.misused) :
    Counted m' := by
  rw [counted_iff_counts, hreferences]
  exact (counted_iff_counts.mp h).congr hobjects hsize hmisused

/-- A live object has a reference. -/
theorem Counted.pos_of_live {m : Memory ι} (h : Counted m) {o : ℕ} (ho : Live m o) : 0 < references m o := by
  have hdestroyed := h.destroyed o
  rw [ho.2] at hdestroyed
  by_contra hzero
  rw [if_pos ⟨ho.1, by omega⟩] at hdestroyed
  omega

/-- The raw pointer is null or to a live object. -/
def LiveRaw (m : Memory ι) : Option ℕ → Prop
  | some o => Live m o
  | none => True

/-- The variables of an operation exist, or do not where it makes one, and its raw pointers are to live
objects; a reference is adopted after it was released. -/
def Admissible (m : Memory ι) : Op ι → Prop
  | .makeNull v | .makeIntrusive v => m.ptrs v = none
  | .makeFromRaw v raw => m.ptrs v = none ∧ Live m raw
  | .makeAdopting v raw => m.ptrs v = none ∧ raw ∈ m.released
  | .copyConstruct v other | .moveConstruct v other => m.ptrs v = none ∧ m.ptrs other ≠ none
  | .copyAssign v other | .moveAssign v other | .swap v other => m.ptrs v ≠ none ∧ m.ptrs other ≠ none
  | .rawAssign v raw | .reset v raw => m.ptrs v ≠ none ∧ LiveRaw m raw
  | .resetAdopting v raw => m.ptrs v ≠ none ∧ raw ∈ m.released
  | .release v | .destroy v => m.ptrs v ≠ none

/-- There is room for one more reference to the object. -/
def Room (m : Memory ι) (raw : Option ℕ) : Prop :=
  ∀ o ∈ raw, (m.objects o).refCount.toNat + 1 < 2 ^ 64

/-- The new object is the held one, and there is another reference to it; or it is another one, with
room for one more reference. -/
def Spared (m : Memory ι) (v : ι) (newPtr : Option ℕ) : Prop :=
  if newPtr = get m v then ∀ o ∈ newPtr, (m.objects o).refCount.toNat ≠ 1 else Room m newPtr

/-- **The condition**: no pointer is reset to, or assigned, the object that it is the only reference
to. -/
def Kept (m : Memory ι) : Op ι → Prop
  | .makeFromRaw _ raw => Room m (some raw)
  | .copyConstruct _ other => Room m (get m other)
  | .copyAssign v other => Spared m v (get m other)
  | .rawAssign v raw | .reset v raw => Spared m v raw
  | _ => True

instance (m : Memory ι) : (raw : Option ℕ) → Decidable (LiveRaw m raw)
  | some o => inferInstanceAs (Decidable (Live m o))
  | none => .isTrue trivial

instance (m : Memory ι) : (op : Op ι) → Decidable (Admissible m op)
  | .makeNull v | .makeIntrusive v => inferInstanceAs (Decidable (m.ptrs v = none))
  | .makeFromRaw v raw => inferInstanceAs (Decidable (m.ptrs v = none ∧ Live m raw))
  | .makeAdopting v raw => inferInstanceAs (Decidable (m.ptrs v = none ∧ raw ∈ m.released))
  | .copyConstruct v other | .moveConstruct v other =>
    inferInstanceAs (Decidable (m.ptrs v = none ∧ m.ptrs other ≠ none))
  | .copyAssign v other | .moveAssign v other | .swap v other =>
    inferInstanceAs (Decidable (m.ptrs v ≠ none ∧ m.ptrs other ≠ none))
  | .rawAssign v raw | .reset v raw => inferInstanceAs (Decidable (m.ptrs v ≠ none ∧ LiveRaw m raw))
  | .resetAdopting v raw => inferInstanceAs (Decidable (m.ptrs v ≠ none ∧ raw ∈ m.released))
  | .release v | .destroy v => inferInstanceAs (Decidable (m.ptrs v ≠ none))

instance (m : Memory ι) (raw : Option ℕ) : Decidable (Room m raw) :=
  inferInstanceAs (Decidable (∀ o ∈ raw, (m.objects o).refCount.toNat + 1 < 2 ^ 64))

instance (m : Memory ι) (v : ι) (newPtr : Option ℕ) : Decidable (Spared m v newPtr) :=
  inferInstanceAs (Decidable (if newPtr = get m v then ∀ o ∈ newPtr, (m.objects o).refCount.toNat ≠ 1
    else Room m newPtr))

instance (m : Memory ι) : (op : Op ι) → Decidable (Kept m op)
  | .makeFromRaw _ raw => inferInstanceAs (Decidable (Room m (some raw)))
  | .copyConstruct _ other => inferInstanceAs (Decidable (Room m (get m other)))
  | .copyAssign v other => inferInstanceAs (Decidable (Spared m v (get m other)))
  | .rawAssign v raw | .reset v raw => inferInstanceAs (Decidable (Spared m v raw))
  | .makeNull _ | .makeIntrusive _ | .makeAdopting .. | .moveConstruct .. | .moveAssign .. |
    .resetAdopting .. | .swap .. | .release _ | .destroy _ => .isTrue trivial

variable [DecidableEq ι] {m : Memory ι} {v : ι}

omit [Fintype ι] [DecidableEq ι] in
theorem get_of_none (h : m.ptrs v = none) : get m v = none := by
  unfold Model.get
  rw [h]
  rfl

/-- A new pointer to an object that has a reference. -/
theorem counted_setPtr_iff {raw : Option ℕ} (h : Counted m) (hnew : m.ptrs v = none)
    (hraw : ∀ o, raw = some o → 0 < references m o) : Counted (setPtr v raw true m) ↔ Room m raw := by
  have hcounts := counted_iff_counts.mp h
  rw [counted_iff_counts, references_setPtr, get_of_none hnew, less_none,
    counts_setPtr_iff hcounts fun o ho => hcounts.lt_size (hraw o ho)]
  unfold Room
  refine forall_congr' fun o => forall_congr' fun ho => ?_
  rw [h.counted o, and_iff_right (hraw o ho)]

/-- **A pointer that is reset** to an object that has a reference. -/
theorem counted_reset_iff {raw : Option ℕ} (h : Counted m) (hraw : ∀ o, raw = some o → 0 < references m o) :
    Counted (reset v raw true m) ↔ Spared m v raw := by
  have hcounts := counted_iff_counts.mp h
  have hafter := counts_derefHeld (v := v) hcounts fun o ho => references_pos ho
  have hsize : (derefHeld v m).size = m.size := by
    unfold derefHeld
    cases get m v <;> rfl
  rw [counted_iff_counts, references_reset]
  unfold reset
  rw [counts_setPtr_iff hafter fun o ho => by rw [hsize]; exact hcounts.lt_size (hraw o ho)]
  unfold Spared Room less
  split_ifs with hsame
  · refine forall_congr' fun o => forall_congr' fun ho => ?_
    have hpos := hraw o ho
    have hlt := hcounts.lt_two_pow o
    rw [← hsame, if_pos ho, h.counted o]
    omega
  · refine forall_congr' fun o => forall_congr' fun ho => ?_
    have hpos := hraw o ho
    have hne : get m v ≠ some o := fun heq => hsame (ho.trans heq.symm)
    rw [if_neg hne, h.counted o]
    omega

/-- A new null pointer. -/
theorem counted_makeNull (h : Counted m) (hnew : m.ptrs v = none) : Counted (setRaw v none m) := by
  refine h.congr ?_ rfl rfl rfl
  rw [references_setRaw, get_of_none hnew, less_none, more_none]

/-- A new object in a new pointer. -/
theorem counted_makeIntrusive (h : Counted m) (hnew : m.ptrs v = none) :
    Counted (setPtr v (some m.size) false (construct m)) := by
  have hget : get (construct m) v = none := get_of_none hnew
  have hreferences : references (construct m) = references m := references_congr rfl rfl
  rw [counted_iff_counts, references_setPtr, hget, less_none, hreferences]
  exact counts_setPtr_false (counts_construct (counted_iff_counts.mp h)) _

/-- A released reference in a new pointer. -/
theorem counted_makeAdopting (h : Counted m) (hnew : m.ptrs v = none) {raw : ℕ} (hraw : raw ∈ m.released) :
    Counted { setPtr v (some raw) false m with released := m.released.erase raw } := by
  have hget : get { m with released := m.released.erase raw } v = none := get_of_none hnew
  have hreferences := references_setRaw v (some raw) { m with released := m.released.erase raw }
  rw [hget, less_none, references_adopt hraw] at hreferences
  exact h.congr hreferences rfl rfl rfl

/-- A pointer moved to a new one. -/
theorem counted_moveConstruct (h : Counted m) (hnew : m.ptrs v = none) {w : ι} (hw : m.ptrs w ≠ none) :
    Counted (moveConstruct v w m) := by
  have hne : v ≠ w := by
    rintro rfl
    exact hw hnew
  have hget : get (setRaw w none m) v = none := by
    refine get_of_none ?_
    change Function.update m.ptrs w (some none) v = none
    rw [Function.update_of_ne hne]
    exact hnew
  have hreferences : references (moveConstruct v w m) = references m := by
    change references (setRaw v (get m w) (setRaw w none m)) = _
    rw [references_setRaw, hget, less_none, references_setRaw, more_none,
      more_less_comm fun o ho => references_pos ho, less_more]
  exact h.congr hreferences rfl rfl rfl

/-- A pointer that is reset to a released reference. -/
theorem counted_resetAdopting (h : Counted m) {raw : ℕ} (hraw : raw ∈ m.released) :
    Counted { reset v (some raw) false m with released := m.released.erase raw } := by
  have hcounts := counted_iff_counts.mp h
  have hafter := counts_derefHeld (v := v) hcounts fun o ho => references_pos ho
  have hpos : ∀ o, get m v = some o → 0 < references { m with released := m.released.erase raw } o :=
    fun o ho => references_pos (m := { m with released := m.released.erase raw }) ho
  have hreferences := references_setRaw v (some raw) { m with released := m.released.erase raw }
  have hget : get { m with released := m.released.erase raw } v = get m v := rfl
  rw [hget, more_less_comm hpos, references_adopt hraw] at hreferences
  have hptrs : (reset v (some raw) false m).ptrs = Function.update m.ptrs v (some (some raw)) := by
    unfold reset
    rw [ptrs_setPtr, ptrs_derefHeld]
  have hsame : references { reset v (some raw) false m with released := m.released.erase raw } =
      references (setRaw v (some raw) { m with released := m.released.erase raw }) :=
    references_congr hptrs rfl
  rw [counted_iff_counts, hsame, hreferences]
  exact (counts_setPtr_false (v := v) hafter (some raw)).congr rfl rfl rfl

/-- A reference that is released stays a reference. -/
theorem counted_release (h : Counted m) (v : ι) :
    Counted { (release v m).2 with released := (release v m).1.toList ++ m.released } := by
  have hreferences : references { setRaw v none m with released := (get m v).toList ++ m.released } =
      references m := by
    have hset := references_setRaw v none m
    rw [more_none] at hset
    have hmore : references { setRaw v none m with released := (get m v).toList ++ m.released } =
        more (get m v) (references (setRaw v none m)) := by
      funext o
      change tally _ _ + ((get m v).toList ++ m.released).count o = tally _ _ + m.released.count o + _
      rw [List.count_append]
      cases get m v with
      | none => simp
      | some o' =>
        rw [Option.toList_some, List.count_singleton]
        by_cases heq : o' = o
        · simp only [heq, beq_self_eq_true, ↓reduceIte]
          omega
        · simp [heq]
    rw [hmore, hset, more_less_comm fun o ho => references_pos ho, less_more]
  exact h.congr hreferences rfl rfl rfl

/-- A pointer that goes away gives up its object. -/
theorem counted_destroy (h : Counted m) (v : ι) : Counted (destroy v m) := by
  have hafter := counts_derefHeld (v := v) (counted_iff_counts.mp h) fun o ho => references_pos ho
  have hreferences : references (destroy v m) = less (get m v) (references m) := by
    have hupdate := references_update m v none
    have hsame : references (destroy v m) = references { m with ptrs := Function.update m.ptrs v none } :=
      references_congr rfl (released_derefHeld v m)
    exact (hsame.trans hupdate).trans (more_none _)
  rw [counted_iff_counts, hreferences]
  exact hafter.congr rfl rfl rfl

/-- An exchange of the pointers. -/
theorem counted_swap (h : Counted m) (v w : ι) : Counted (swap v w m) := by
  have hsame : references (swap v w m) = references m := by
    funext o
    unfold references
    exact congrArg (· + _) (tally_exchange m.ptrs v w (some (some o)))
  exact h.congr hsame rfl rfl rfl

end Operations

/-! ### Programs -/

variable [Fintype ι]

theorem counted_start : Counted (Memory.start : Memory ι) := by
  have hnone : ∀ o, references (Memory.start : Memory ι) o = 0 := by
    intro o
    exact Finset.sum_eq_zero fun i _ => if_neg (by simp [Memory.start])
  refine ⟨fun o => (hnone o).symm, fun o => rfl, fun o _ => hnone o, rfl⟩

variable [DecidableEq ι]

/-- **One operation**: exactly when it keeps the counting. -/
theorem counted_step_iff {m : Memory ι} {op : Op ι} (h : Counted m) (hop : Admissible m op) :
    Counted (step m op) ↔ Kept m op := by
  have hlive : ∀ raw, LiveRaw m raw → ∀ o, raw = some o → 0 < references m o := by
    rintro raw hraw o rfl
    exact h.pos_of_live hraw
  cases op with
  | makeNull v => exact iff_of_true (counted_makeNull h hop) trivial
  | makeIntrusive v => exact iff_of_true (counted_makeIntrusive h hop) trivial
  | makeFromRaw v raw => exact counted_setPtr_iff h hop.1 (hlive (some raw) hop.2)
  | makeAdopting v raw => exact iff_of_true (counted_makeAdopting h hop.1 hop.2) trivial
  | copyConstruct v other => exact counted_setPtr_iff h hop.1 fun o ho => references_pos ho
  | moveConstruct v other => exact iff_of_true (counted_moveConstruct h hop.1 hop.2) trivial
  | copyAssign v other => exact counted_reset_iff h fun o ho => references_pos ho
  | moveAssign v other => exact iff_of_true (counted_swap h v other) trivial
  | rawAssign v raw => exact counted_reset_iff h (hlive raw hop.2)
  | reset v raw => exact counted_reset_iff h (hlive raw hop.2)
  | resetAdopting v raw => exact iff_of_true (counted_resetAdopting h hop.2) trivial
  | swap v other => exact iff_of_true (counted_swap h v other) trivial
  | release v => exact iff_of_true (counted_release h v) trivial
  | destroy v => exact iff_of_true (counted_destroy h v) trivial

/-- **A program counts references right exactly if no pointer is reset to, or assigned, the object that
it is the only reference to**, as long as the counts do not wrap around. -/
theorem counted_iff (ops : List (Op ι)) (hops : Along step Admissible Memory.start ops) :
    Always step Counted (Memory.start : Memory ι) ops ↔ Along step Kept Memory.start ops :=
  always_iff_along (fun _ _ h hop => counted_step_iff h hop) counted_start hops

/-- A shared object that is released and adopted, and a pointer that is assigned to itself with another
one to the same object. -/
def sharedProgram : List (Op Bool) :=
  [.makeIntrusive false, .copyConstruct true false, .copyAssign true true, .release false, .destroy false,
    .makeAdopting false 0, .reset false none, .destroy true]

theorem shared_object_counted : Always step Counted (Memory.start : Memory Bool) sharedProgram :=
  (counted_iff sharedProgram (by decide +kernel)).mpr (by decide +kernel)

/-- A pointer that is assigned to itself uses the object that it destroys. -/
theorem self_assignment_misused :
    ¬ Always step Counted (Memory.start : Memory Unit) [.makeIntrusive (), .copyAssign () ()] := by
  intro h
  have hlast := h.last
  exact absurd hlast.unused (by decide)

end NetworkDriver.Util.IntrusivePtr.Counting
