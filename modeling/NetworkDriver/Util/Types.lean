import NetworkDriver.Library.Codec

/-! # The serializable types and their values

The types `binary_serializer`, `binary_deserializer` and `serialized_size` have overloads for, nested
to any depth, as syntax (`Ty`) with their values (`Val`). A scalar is its object representation,
little-endian; a floating point number is its bit pattern; a visitable class is the fields its `visit`
passes on, in one call.

An array in memory has a size in bytes below `2^63`, which the containers carry in their values; for
`std::array` it is a property of the type (`supported`). -/

namespace NetworkDriver.Util.Types

open NetworkDriver.Library.Codec

/-- The widths of the integral types. -/
inductive Width where
  | w8
  | w16
  | w32
  | w64
  deriving DecidableEq

def Width.bytes : Width → ℕ
  | .w8 => 1
  | .w16 => 2
  | .w32 => 4
  | .w64 => 8

/-- The types `memcpy` serializes. -/
inductive Scalar where
  | integral (w : Width)
  | enumeration (w : Width)
  | pointer
  | nullPtr
  deriving DecidableEq

/-- `sizeof` of a scalar. -/
def Scalar.size : Scalar → ℕ
  | .integral w => w.bytes
  | .enumeration w => w.bytes
  | .pointer => 8
  | .nullPtr => 8

mutual

/-- The types. `container` is a resizable container, `array` is `std::array`, `carray` is `T[n]`. -/
inductive Ty where
  | scalar (k : Scalar)
  | float
  | double
  | pair (t u : Ty)
  | tuple (ts : Tys)
  | visitable (ts : Tys)
  | carray (t : Ty) (n : ℕ)
  | array (t : Ty) (n : ℕ)
  | string
  | container (t : Ty)

/-- A pack of types. -/
inductive Tys where
  | nil
  | cons (t : Ty) (ts : Tys)

end

namespace Ty

/-- `meta::trivially_serializable`. -/
def triviallySerializable : Ty → Bool
  | .scalar _ => true
  | _ => false

/-- `meta::flat_type`. -/
def flatType : Ty → Bool
  | .scalar _ => true
  | .float => true
  | .double => true
  | _ => false

/-- `sizeof` of a flat type; other objects take at least a byte. -/
def objectSize : Ty → ℕ
  | .scalar k => k.size
  | .float => 4
  | .double => 8
  | _ => 1

end Ty

mutual

/-- The values of a type. -/
def Val : Ty → Type
  | .scalar k => BitVec (8 * k.size)
  | .float => BitVec (8 * 4)
  | .double => BitVec (8 * 8)
  | .pair t u => Val t × Val u
  | .tuple ts => Vals ts
  | .visitable ts => Vals ts
  | .carray t n => { l : List (Val t) // l.length = n }
  | .array t n => { l : List (Val t) // l.length = n }
  | .string => { l : List (BitVec (8 * 1)) // l.length * 1 < 2 ^ 63 }
  | .container t => { l : List (Val t) // l.length * t.objectSize < 2 ^ 63 }

/-- The values of a pack. -/
def Vals : Tys → Type
  | .nil => Unit
  | .cons t ts => Val t × Vals ts

end

mutual

/-- A value-initialized object. -/
def Val.default : (t : Ty) → Val t
  | .scalar k => (0 : BitVec (8 * k.size))
  | .float => (0 : BitVec (8 * 4))
  | .double => (0 : BitVec (8 * 8))
  | .pair t u => (Val.default t, Val.default u)
  | .tuple ts => Vals.default ts
  | .visitable ts => Vals.default ts
  | .carray t n => ⟨List.replicate n (Val.default t), List.length_replicate⟩
  | .array t n => ⟨List.replicate n (Val.default t), List.length_replicate⟩
  | .string => ⟨[], by decide⟩
  | .container _ => ⟨[], by simp⟩

def Vals.default : (ts : Tys) → Vals ts
  | .nil => ()
  | .cons t ts => (Val.default t, Vals.default ts)

end

/-- `char`. -/
abbrev char : Ty := .scalar (.integral .w8)

/-- The characters of a string, which is a container of `char`. -/
def chars (v : Val .string) : List (Val char) := v.1

/-- The object representation of a trivially serializable value. -/
def objectBytes : (t : Ty) → Val t → List UInt8
  | .scalar _, v => toBytes v
  | _, _ => []

/-- The objects an image in memory holds. -/
def ofObjectImage : (t : Ty) → ℕ → List UInt8 → List (Val t)
  | .scalar k, n, bs => ofImage k.size n bs
  | t, n, _ => List.replicate n (Val.default t)

theorem length_ofObjectImage (t : Ty) (n : ℕ) (bs : List UInt8) : (ofObjectImage t n bs).length = n := by
  cases t with
  | scalar k => exact length_ofImage k.size n bs
  | _ => exact List.length_replicate

mutual

/-- No C array occurs, and every `std::array` is smaller than `2^63` bytes. -/
def Ty.supported : Ty → Bool
  | .scalar _ => true
  | .float => true
  | .double => true
  | .pair t u => t.supported && u.supported
  | .tuple ts => ts.supported
  | .visitable ts => ts.supported
  | .carray _ _ => false
  | .array t n => n * t.objectSize < 2 ^ 63 && t.supported
  | .string => true
  | .container t => t.supported

def Tys.supported : Tys → Bool
  | .nil => true
  | .cons t ts => t.supported && ts.supported

end

mutual

/-- Every array type is smaller than `2^63` bytes, as a type has to be. -/
def Ty.sized : Ty → Bool
  | .scalar _ => true
  | .float => true
  | .double => true
  | .pair t u => t.sized && u.sized
  | .tuple ts => ts.sized
  | .visitable ts => ts.sized
  | .carray t n => n * t.objectSize < 2 ^ 63 && t.sized
  | .array t n => n * t.objectSize < 2 ^ 63 && t.sized
  | .string => true
  | .container t => t.sized

def Tys.sized : Tys → Bool
  | .nil => true
  | .cons t ts => t.sized && ts.sized

end

mutual

theorem Ty.sized_of_supported : ∀ t : Ty, t.supported = true → t.sized = true
  | .scalar _, _ => rfl
  | .float, _ => rfl
  | .double, _ => rfl
  | .pair t u, h => by
    obtain ⟨ht, hu⟩ := Bool.and_eq_true_iff.mp h
    exact Bool.and_eq_true_iff.mpr ⟨t.sized_of_supported ht, u.sized_of_supported hu⟩
  | .tuple ts, h => ts.sized_of_supported h
  | .visitable ts, h => ts.sized_of_supported h
  | .carray _ _, h => nomatch h
  | .array t _, h => by
    obtain ⟨hn, ht⟩ := Bool.and_eq_true_iff.mp h
    exact Bool.and_eq_true_iff.mpr ⟨hn, t.sized_of_supported ht⟩
  | .string, _ => rfl
  | .container t, h => t.sized_of_supported h

theorem Tys.sized_of_supported : ∀ ts : Tys, ts.supported = true → ts.sized = true
  | .nil, _ => rfl
  | .cons t ts, h => by
    obtain ⟨ht, hts⟩ := Bool.and_eq_true_iff.mp h
    exact Bool.and_eq_true_iff.mpr ⟨t.sized_of_supported ht, ts.sized_of_supported hts⟩

end

/-! ### The encoding -/

/-- The length prefix of a range. -/
def prefixBytes (n : ℕ) : List UInt8 := toLE 8 n

mutual

/-- **The encoding of a value**: fields one after another, and ranges with their element count in
front. -/
def enc : (t : Ty) → Val t → List UInt8
  | .scalar k, v => toBytes (show BitVec (8 * k.size) from v)
  | .float, v => toBytes (show BitVec (8 * 4) from v)
  | .double, v => toBytes (show BitVec (8 * 8) from v)
  | .pair t u, (a, b) => enc t a ++ enc u b
  | .tuple ts, vs => encs ts vs
  | .visitable ts, vs => encs ts vs
  | .carray t _, v => prefixBytes v.1.length ++ v.1.flatMap (enc t)
  | .array t _, v => prefixBytes v.1.length ++ v.1.flatMap (enc t)
  | .string, v => prefixBytes v.1.length ++ v.1.flatMap toBytes
  | .container t, v => prefixBytes v.1.length ++ v.1.flatMap (enc t)

def encs : (ts : Tys) → Vals ts → List UInt8
  | .nil, _ => []
  | .cons t ts, (v, vs) => enc t v ++ encs ts vs

end

/-- The arguments of an `operator()` call. -/
structure Args where
  types : Tys
  values : Vals types

def Args.encoding (a : Args) : List UInt8 := encs a.types a.values

end NetworkDriver.Util.Types
