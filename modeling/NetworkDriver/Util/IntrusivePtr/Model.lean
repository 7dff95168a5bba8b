import NetworkDriver.Library.Tally

/-! # Intrusive pointers

Objects with a reference count, made by `make_intrusive` one after the other and told apart by their
number, and the `intrusive_ptr` variables of a program, which may exist or not, with their `ptr_`. A
destroyed object keeps its number and its count; a call of `ref` or `deref` on it is recorded.

* `Op`: what a program may do with its variables.
* `references`: the pointers that hold an object, and the references to it that were released. -/

namespace NetworkDriver.Util.IntrusivePtr.Model

open NetworkDriver.Library.Tally

/-- A `ref_counted`, with how often it was deleted. -/
structure Object where
  refCount : UInt64
  deleted : ℕ
  deriving DecidableEq

/-- The objects that were made are those below `size`. `released` are the references that `release`
gave to the program and that no pointer has adopted yet. -/
structure Memory (ι : Type) where
  objects : ℕ → Object
  size : ℕ
  ptrs : ι → Option (Option ℕ)
  released : List ℕ
  misused : Bool

variable {ι : Type}

/-- No object and no variable. -/
def Memory.start : Memory ι := ⟨fun _ => ⟨0, 0⟩, 0, fun _ => none, [], false⟩

/-! ### `ref_counted` -/

/-- `ref_count_{1}`, of a new object. -/
def construct (m : Memory ι) : Memory ι :=
  { m with objects := Function.update m.objects m.size ⟨1, 0⟩, size := m.size + 1 }

/-- A call on an object that is destroyed is recorded. -/
def use (o : ℕ) (m : Memory ι) : Memory ι :=
  { m with misused := m.misused || decide ((m.objects o).deleted ≠ 0) }

/-- `ref`; `fetch_add` wraps around. -/
def ref (o : ℕ) (m : Memory ι) : Memory ι :=
  { use o m with
    objects := Function.update m.objects o { m.objects o with refCount := (m.objects o).refCount + 1 } }

/-- `deref`; `fetch_sub` returns the old count. -/
def deref (o : ℕ) (m : Memory ι) : Memory ι :=
  { use o m with
    objects := Function.update m.objects o
      { refCount := (m.objects o).refCount - 1
        deleted := (m.objects o).deleted + if (m.objects o).refCount = 1 then 1 else 0 } }

/-! ### `intrusive_ptr` -/

variable [DecidableEq ι]

/-- `ptr_`, null for a variable that does not exist. -/
def get (m : Memory ι) (v : ι) : Option ℕ := (m.ptrs v).join

/-- `ptr_ = raw_ptr`. -/
def setRaw (v : ι) (raw : Option ℕ) (m : Memory ι) : Memory ι :=
  { m with ptrs := Function.update m.ptrs v (some raw) }

def setPtr (v : ι) (raw : Option ℕ) (addRef : Bool) (m : Memory ι) : Memory ι :=
  match raw with
  | some o => if addRef then ref o (setRaw v raw m) else setRaw v raw m
  | none => setRaw v raw m

/-- `if (ptr_) ptr_->deref();` -/
def derefHeld (v : ι) (m : Memory ι) : Memory ι :=
  match get m v with
  | some o => deref o m
  | none => m

/-- The old object is given up before the new one is taken. -/
def reset (v : ι) (newPtr : Option ℕ) (addRef : Bool) (m : Memory ι) : Memory ι :=
  setPtr v newPtr addRef (derefHeld v m)

/-- `swap`, of two variables that exist. -/
def swap (v w : ι) (m : Memory ι) : Memory ι :=
  { m with ptrs := Function.update (Function.update m.ptrs v (m.ptrs w)) w (m.ptrs v) }

def release (v : ι) (m : Memory ι) : Option ℕ × Memory ι := (get m v, setRaw v none m)

def destroy (v : ι) (m : Memory ι) : Memory ι :=
  { derefHeld v m with ptrs := Function.update m.ptrs v none }

/-- `intrusive_ptr(other.release())`, without a change of the count. -/
def moveConstruct (v w : ι) (m : Memory ι) : Memory ι :=
  setRaw v (release w m).1 (release w m).2

/-! ### Programs -/

/-- What a program does with its variables. -/
inductive Op (ι : Type) where
  | makeNull (v : ι)
  | makeIntrusive (v : ι)
  | makeFromRaw (v : ι) (raw : ℕ)
  | makeAdopting (v : ι) (raw : ℕ)
  | copyConstruct (v other : ι)
  | moveConstruct (v other : ι)
  | copyAssign (v other : ι)
  | moveAssign (v other : ι)
  | rawAssign (v : ι) (raw : Option ℕ)
  | reset (v : ι) (raw : Option ℕ)
  | resetAdopting (v : ι) (raw : ℕ)
  | swap (v other : ι)
  | release (v : ι)
  | destroy (v : ι)

def step (m : Memory ι) : Op ι → Memory ι
  | .makeNull v => setRaw v none m
  | .makeIntrusive v => setPtr v (some m.size) false (construct m)
  | .makeFromRaw v raw => setPtr v (some raw) true m
  | .makeAdopting v raw => { setPtr v (some raw) false m with released := m.released.erase raw }
  | .copyConstruct v other => setPtr v (get m other) true m
  | .moveConstruct v other => moveConstruct v other m
  | .copyAssign v other => reset v (get m other) true m
  | .moveAssign v other => swap v other m
  | .rawAssign v raw => reset v raw true m
  | .reset v raw => reset v raw true m
  | .resetAdopting v raw => { reset v (some raw) false m with released := m.released.erase raw }
  | .swap v other => swap v other m
  | .release v => { (release v m).2 with released := (release v m).1.toList ++ m.released }
  | .destroy v => destroy v m

/-! ### References -/

variable [Fintype ι]

/-- The pointers that hold an object, and the references to it that were released. -/
def references (m : Memory ι) (o : ℕ) : ℕ := tally m.ptrs (some (some o)) + m.released.count o

/-- An object that was made and is not destroyed. -/
def Live (m : Memory ι) (o : ℕ) : Prop := o < m.size ∧ (m.objects o).deleted = 0

instance (m : Memory ι) (o : ℕ) : Decidable (Live m o) :=
  inferInstanceAs (Decidable (o < m.size ∧ (m.objects o).deleted = 0))

end NetworkDriver.Util.IntrusivePtr.Model
