import Mathlib.Data.Nat.Basic
import Mathlib.Logic.Basic

/-! # Functions with a bound

A function that may not end is defined up to a bound on the steps or on the nesting it may take, and
is an error beyond it. It returns if there is a bound from which on it has the same result.

`Refines view f spec` says that `f` returns exactly if the specification has a value, which is then
what `view` shows of the result.

* `Refines.bind`: refinement composes along a sequence of calls.
* `Refines.returns_iff`: a function that refines a specification returns exactly if that has a
  value. -/

namespace NetworkDriver.Library.Bounded

universe u

variable {ε β δ : Type*} {α γ : Type u}

/-- From some bound on the result is `a`. -/
def Returns (f : ℕ → Except ε α) (a : α) : Prop := ∃ n, ∀ bound ≥ n, f bound = .ok a

/-- The function returns exactly if the specification has a value, and this is what it returns. -/
structure Refines (view : α → β) (f : ℕ → Except ε α) (spec : Option β) : Prop where
  sound : ∀ bound a, f bound = .ok a → spec = some (view a)
  complete : ∀ b, spec = some b → ∃ a, Returns f a

variable {view : α → β} {f : ℕ → Except ε α} {spec : Option β}

theorem Refines.ok (a : α) : Refines view (fun _ => (.ok a : Except ε α)) (some (view a)) where
  sound _ b h := by
    obtain rfl := Except.ok.inj h
    rfl
  complete _ _ := ⟨a, 0, fun _ _ => rfl⟩

theorem Refines.error (e : ε) : Refines view (fun _ => (.error e : Except ε α)) none where
  sound _ _ h := by cases h
  complete _ h := by cases h

/-- **Two calls in sequence.** -/
theorem Refines.bind {after : γ → δ} {g : ℕ → α → Except ε γ} {next : β → Option δ}
    (hf : Refines view f spec) (hg : ∀ a, Refines after (fun n => g n a) (next (view a))) :
    Refines after (fun n => f n >>= g n) (spec.bind next) where
  sound bound c h := by
    cases ha : f bound with
    | error e =>
      rw [ha] at h
      cases h
    | ok a =>
      rw [ha] at h
      rw [hf.sound bound a ha]
      exact (hg a).sound bound c h
  complete d h := by
    obtain ⟨b, hb, hd⟩ := Option.bind_eq_some_iff.mp h
    obtain ⟨a, n, ha⟩ := hf.complete b hb
    have hview : view a = b := by
      have h := hf.sound n a (ha n le_rfl)
      rw [hb] at h
      exact (Option.some.inj h).symm
    rw [← hview] at hd
    obtain ⟨c, m, hc⟩ := (hg a).complete d hd
    refine ⟨c, max n m, fun bound hbound => ?_⟩
    dsimp only
    rw [ha bound (le_trans (le_max_left n m) hbound)]
    exact hc bound (le_trans (le_max_right n m) hbound)

/-- **A function that refines a specification** returns exactly if that has a value. -/
theorem Refines.returns_iff (h : Refines view f spec) : (∃ a, Returns f a) ↔ spec.isSome = true := by
  constructor
  · rintro ⟨a, n, ha⟩
    rw [h.sound n a (ha n le_rfl)]
    rfl
  · intro hs
    obtain ⟨b, hb⟩ := Option.isSome_iff_exists.mp hs
    exact h.complete b hb

end NetworkDriver.Library.Bounded
