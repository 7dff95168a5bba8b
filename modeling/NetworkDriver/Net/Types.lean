import Mathlib.Algebra.Order.Ring.Int

/-! # Operations, results and policies

The enumerations and small records of `net`: `operation` is a byte of flags, so it is a `BitVec 8`
with the constants of the source and the bitwise operators; `manager_result` is what a handler
answers; `receive_policy` is what an application asks of the next read. -/

namespace NetworkDriver.Net.Types

/-! ### Operations -/

/-- `enum class operation : std::uint8_t`, with the operators `|`, `&` and `~` on it. -/
abbrev Operation := BitVec 8

namespace Operation

/-- No operation. -/
def none : Operation := 0x00#8
/-- Read readiness. -/
def read : Operation := 0x01#8
/-- Write readiness. -/
def write : Operation := 0x02#8
/-- Read and write readiness. -/
def readWrite : Operation := read ||| write
/-- Incoming connections. -/
def accept : Operation := 0x04#8
/-- Read and accept readiness. -/
def readAccept : Operation := read ||| accept
/-- The poll form of a read. -/
def pollRead : Operation := 0x08#8
/-- The poll form of a write. -/
def pollWrite : Operation := 0x10#8

/-- `contains(flag, op)`: every bit of `op` is set. -/
def contains (flag op : Operation) : Bool := flag &&& op == op

end Operation

/-! ### Results of handlers -/

/-- `enum class manager_result`. -/
inductive ManagerResult where
  | ok
  | done
  | error
  | temporaryError
  deriving DecidableEq, Repr

/-! ### Receive policies -/

/-- `receive_policy`: at least `minSize` bytes before they are consumed, room for `maxSize`. -/
structure ReceivePolicy where
  minSize : UInt32
  maxSize : UInt32
  deriving DecidableEq, Repr

namespace ReceivePolicy

/-- `between(min_size, max_size)`. -/
def between (minSize maxSize : UInt32) : ReceivePolicy := ⟨minSize, maxSize⟩

/-- `exactly(size)`. -/
def exactly (size : UInt32) : ReceivePolicy := ⟨size, size⟩

/-- `up_to(max_size)`. -/
def upTo (maxSize : UInt32) : ReceivePolicy := ⟨1, maxSize⟩

/-- `stop()`. -/
def stop : ReceivePolicy := ⟨0, 0⟩

/-- The policies with `0 < min_size <= max_size`. -/
def Proper (p : ReceivePolicy) : Prop := 0 < p.minSize ∧ p.minSize ≤ p.maxSize

instance (p : ReceivePolicy) : Decidable p.Proper := by unfold Proper; infer_instance

end ReceivePolicy

/-! ### Machine integers -/

/-- Subtraction of `std::size_t` values: it wraps below zero. -/
def subSize (a b : ℕ) : ℕ := if b ≤ a then a - b else a + 2 ^ 64 - b

/-- Conversion to `int`. -/
def toInt (x : ℤ) : ℤ := x.bmod (2 ^ 32)

theorem subSize_of_le {a b : ℕ} (h : b ≤ a) : subSize a b = a - b := if_pos h

theorem toInt_of_lt {n : ℕ} (h : n < 2 ^ 31) : toInt n = n := by
  unfold toInt
  rw [Int.bmod_eq_of_le (by omega) (by omega)]

end NetworkDriver.Net.Types
