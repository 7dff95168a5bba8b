import Mathlib.Logic.Basic

/-! # Results of fallible code

* `bind_eq_ok`: a sequence of two calls succeeds with what the second one makes of the first.
* `map_eq_ok`: a result that is passed on changed comes from one of the call. -/

namespace NetworkDriver.Library.Results

universe u v

variable {ε : Type v} {α β : Type u}

/-- A call that ends regularly goes on from what the first part of it made. -/
theorem bind_eq_ok {x : Except ε α} {f : α → Except ε β} {b : β} :
    x >>= f = .ok b ↔ ∃ a, x = .ok a ∧ f a = .ok b := by
  cases x with
  | error e => exact iff_of_false (fun h => by cases h) fun ⟨_, h, _⟩ => by cases h
  | ok a => exact ⟨fun h => ⟨a, rfl, h⟩, fun ⟨_, h, h'⟩ => by cases h; exact h'⟩

theorem map_eq_ok {x : Except ε α} {f : α → β} {b : β} :
    x.map f = .ok b ↔ ∃ a, x = .ok a ∧ f a = b := by
  cases x with
  | error e => exact iff_of_false (fun h => by cases h) fun ⟨_, h, _⟩ => by cases h
  | ok a => exact ⟨fun h => ⟨a, rfl, Except.ok.inj h⟩, fun ⟨_, h, h'⟩ => by cases h; exact congrArg _ h'⟩

end NetworkDriver.Library.Results
