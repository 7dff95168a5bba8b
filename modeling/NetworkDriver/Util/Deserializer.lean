import NetworkDriver.Util.Serializer

/-! # `binary_deserializer`

A reader of bytes that fills objects which exist already: `deserialize` gets the old value, since a
container keeps its elements when it is resized and a `std::array` those behind the elements read.
The source's exceptions are values of `Exception`; whether the allocations behind `resize` succeed
is up to the parameter `grants`.

* `deserialize_decodes`: the encoding of a value is read back, whatever the object held before.
* `deserialize_serialize`: what `binary_serializer` produced is read back. -/

namespace NetworkDriver.Util.Deserializer

open NetworkDriver.Library.Codec NetworkDriver.Util.Types NetworkDriver.Util.Serializer

/-- What the deserializer throws. `noOverload` is a call that does not compile: there is none for C
arrays. -/
inductive Exception where
  | runtimeError (what : String)
  | lengthError
  | badAlloc
  | noOverload
  deriving DecidableEq

/-- An operation on `bytes_`. -/
abbrev Deserialize (α : Type) := StateT (List UInt8) (Except Exception) α

/-- The check, the `memcpy` and the `subspan` for `n` bytes. -/
def takeBytes (n : ℕ) : Deserialize (List UInt8) := fun bytes =>
  if bytes.length < n then .error (.runtimeError "Not enough bytes to deserialize T")
  else .ok (bytes.take n, bytes.drop n)

/-- `deserialize` of a scalar. -/
def deserializeScalar (n : ℕ) : Deserialize (BitVec (8 * n)) := do
  let bytes ← takeBytes n
  return ofBytes n bytes

/-- `deserialize` of a `std::size_t`. -/
def deserializeSize : Deserialize ℕ := do
  let size ← deserializeScalar 8
  return size.toNat

theorem fits_of_length {t : Ty} {l l' : List (Val t)} (h : l'.length = l.length)
    (hl : l.length * t.objectSize < 2 ^ 63) : l'.length * t.objectSize < 2 ^ 63 := by
  rw [h]
  exact hl

/-- `resize`: kept elements, and value-initialized ones behind them. -/
def resize (grants : Ty → ℕ → Bool) (t : Ty) (size : ℕ) (l : List (Val t)) :
    Deserialize { l : List (Val t) // l.length * t.objectSize < 2 ^ 63 } :=
  if h : size * t.objectSize < 2 ^ 63 then
    if grants t size then
      return ⟨l.take size ++ List.replicate (size - l.length) (Val.default t), by
        have hlen : (l.take size ++ List.replicate (size - l.length) (Val.default t)).length = size := by
          rw [List.length_append, List.length_take, List.length_replicate]
          omega
        rwa [hlen]⟩
    else throw .badAlloc
  else throw .lengthError

/-- `deserialize(T*, size)` for a range within `l`. -/
def deserializeRange (t : Ty) (deserialize : Val t → Deserialize (Val t)) (size : ℕ) (l : List (Val t)) :
    Deserialize { l' : List (Val t) // l'.length = l.length } :=
  if t.triviallySerializable then do
    let bytes ← takeBytes (UInt64.ofNat size * UInt64.ofNat t.objectSize).toNat
    let image := l.flatMap (objectBytes t)
    return ⟨ofObjectImage t l.length (bytes ++ image.drop bytes.length), length_ofObjectImage t _ _⟩
  else do
    let front ← readAll deserialize (l.take size)
    return ⟨front.1 ++ l.drop size, by
      rw [List.length_append, front.2, ← List.length_append, List.take_append_drop]⟩

/-- `deserialize` of a container from its size on: it must have room for the elements. -/
def deserializeElements (t : Ty) (deserialize : Val t → Deserialize (Val t)) (size : ℕ)
    (l : List (Val t)) : Deserialize { l' : List (Val t) // l'.length = l.length } :=
  if l.length < size then throw (.runtimeError "Container does not have enough free space")
  else deserializeRange t deserialize size l

mutual

/-- `deserialize`, with the value the object holds before. -/
def deserialize (grants : Ty → ℕ → Bool) : (t : Ty) → Val t → Deserialize (Val t)
  | .scalar k, _ => deserializeScalar k.size
  | .float, _ => deserializeScalar 4
  | .double, _ => deserializeScalar 8
  | .pair t u, (a, b) => do
    let a ← deserialize grants t a
    let b ← deserialize grants u b
    return (a, b)
  | .tuple ts, vs => deserializeAll grants ts vs
  | .visitable ts, vs => deserializeAll grants ts vs
  | .carray _ _, _ => throw .noOverload
  | .array t _, v => do
    let size ← deserializeSize
    let l ← deserializeElements t (deserialize grants t) size v.1
    return ⟨l.1, l.2.trans v.2⟩
  | .string, v => do
    let size ← deserializeSize
    let l ← resize grants char size (chars v)
    let l' ← deserializeElements char (fun _ => deserializeScalar 1) size l.1
    return ⟨l'.1, fits_of_length l'.2 l.2⟩
  | .container t, v => do
    let size ← deserializeSize
    let l ← resize grants t size v.1
    let l' ← deserializeElements t (deserialize grants t) size l.1
    return ⟨l'.1, fits_of_length l'.2 l.2⟩

/-- `(deserialize(ts), ...)`, which is `operator()`. -/
def deserializeAll (grants : Ty → ℕ → Bool) : (ts : Tys) → Vals ts → Deserialize (Vals ts)
  | .nil, _ => return ()
  | .cons t ts, (v, vs) => do
    let v ← deserialize grants t v
    let vs ← deserializeAll grants ts vs
    return (v, vs)

end

mutual

/-- The allocator grants containers of the sizes in a value. -/
def granted (grants : Ty → ℕ → Bool) : (t : Ty) → Val t → Bool
  | .scalar _, _ => true
  | .float, _ => true
  | .double, _ => true
  | .pair t u, (a, b) => granted grants t a && granted grants u b
  | .tuple ts, vs => grantedAll grants ts vs
  | .visitable ts, vs => grantedAll grants ts vs
  | .carray t _, v => v.1.all (granted grants t)
  | .array t _, v => v.1.all (granted grants t)
  | .string, v => grants char (chars v).length
  | .container t, v => grants t v.1.length && v.1.all (granted grants t)

def grantedAll (grants : Ty → ℕ → Bool) : (ts : Tys) → Vals ts → Bool
  | .nil, _ => true
  | .cons t ts, (v, vs) => granted grants t v && grantedAll grants ts vs

end

/-! ### The parts -/

theorem decodes_takeBytes (bs : List UInt8) : Decodes (takeBytes bs.length) bs bs := by
  intro rest
  rw [takeBytes, if_neg (by rw [List.length_append]; omega), List.take_left, List.drop_left]

theorem decodes_scalar {n : ℕ} (v : BitVec (8 * n)) : Decodes (deserializeScalar n) (toBytes v) v := by
  have h := (decodes_takeBytes (toBytes v)).map (ofBytes n)
  rw [length_toBytes, ofBytes_toBytes] at h
  exact h

theorem decodes_size {n : ℕ} (h : n < 2 ^ 64) : Decodes deserializeSize (prefixBytes n) n := by
  have hv := (decodes_scalar (n := 8) (BitVec.ofNat _ n)).map BitVec.toNat
  have hn : (BitVec.ofNat (8 * 8) n).toNat = n := by
    rw [BitVec.toNat_ofNat]
    exact Nat.mod_eq_of_lt h
  rw [toBytes, hn] at hv
  exact hv

/-- A granted `resize` answers as many elements as asked for. -/
theorem decodes_resize {grants : Ty → ℕ → Bool} {t : Ty} {size : ℕ} (hsize : size * t.objectSize < 2 ^ 63)
    (hg : grants t size = true) (l : List (Val t)) :
    ∃ l', l'.1.length = size ∧ Decodes (resize grants t size l) [] l' := by
  refine ⟨⟨l.take size ++ List.replicate (size - l.length) (Val.default t), ?_⟩, ?_, ?_⟩
  · rw [List.length_append, List.length_take, List.length_replicate,
      show min size l.length + (size - l.length) = size by omega]
    exact hsize
  · rw [List.length_append, List.length_take, List.length_replicate]
    omega
  · intro rest
    rw [resize, dif_pos hsize, if_pos hg]
    rfl

theorem decodes_elements {t : Ty} {f : Val t → Deserialize (Val t)} {vs l : List (Val t)}
    (hl : vs.length = l.length) (hsize : vs.length * t.objectSize < 2 ^ 63)
    (hf : ∀ a, ∀ v ∈ vs, Decodes (f a) (enc t v) v) :
    Decodes (deserializeElements t f vs.length l) (vs.flatMap (enc t)) ⟨vs, hl⟩ := by
  unfold deserializeElements deserializeRange
  rw [if_neg (by omega)]
  split_ifs with ht
  · obtain ⟨he, hflat⟩ := BinarySerializer.flatMap_objectBytes ht vs
    have hlen : (vs.flatMap (enc t)).length = vs.length * t.objectSize :=
      length_flatMap_const fun v _ => length_enc_flat hflat v
    have hbytes : (UInt64.ofNat vs.length * UInt64.ofNat t.objectSize).toNat =
        (vs.flatMap (enc t)).length := by
      rw [← UInt64.ofNat_mul, hlen]
      exact UInt64.toNat_ofNat_of_lt' (Nat.lt_trans hsize (by decide))
    have himage : (l.flatMap (objectBytes t)).drop (vs.flatMap (enc t)).length = [] := by
      rw [(BinarySerializer.flatMap_objectBytes ht l).1, List.drop_eq_nil_iff, hlen, hl,
        length_flatMap_const fun v _ => length_enc_flat hflat v]
    have hread := (decodes_takeBytes (vs.flatMap (enc t))).map fun bytes =>
      (⟨ofObjectImage t l.length (bytes ++ (l.flatMap (objectBytes t)).drop bytes.length),
        length_ofObjectImage t _ _⟩ : { l' : List (Val t) // l'.length = l.length })
    have hvs : ofObjectImage t l.length (vs.flatMap (enc t)) = vs := by
      rw [← hl]
      cases t with
      | scalar k => exact ofImage_flatMap vs
      | _ => simp [Ty.triviallySerializable] at ht
    rw [hbytes]
    refine hread.of_eq (Subtype.ext ?_)
    show ofObjectImage t l.length (_ ++ _) = vs
    rw [himage, List.append_nil, hvs]
  · have hfront : vs.length = (l.take vs.length).length := by rw [hl, List.take_length]
    have hread := (decodes_readAll vs (l.take vs.length) hfront hf).map fun front =>
      (⟨front.1 ++ l.drop vs.length, by
        rw [List.length_append, front.2, ← List.length_append, List.take_append_drop]⟩ :
        { l' : List (Val t) // l'.length = l.length })
    have hback : l.drop vs.length = [] := by rw [hl, List.drop_length]
    refine hread.of_eq (Subtype.ext ?_)
    show vs ++ _ = vs
    rw [hback, List.append_nil]

/-! ### The round trip -/

variable {grants : Ty → ℕ → Bool}

/-- A container that is resized to the number of elements read. -/
theorem decodes_container {t : Ty} {f : Val t → Deserialize (Val t)} {vs : List (Val t)}
    (hsize : vs.length * t.objectSize < 2 ^ 63) (hlt : vs.length < 2 ^ 64)
    (hg : grants t vs.length = true) (old : List (Val t))
    (hf : ∀ a, ∀ v ∈ vs, Decodes (f a) (enc t v) v) :
    Decodes (do
      let size ← deserializeSize
      let l ← resize grants t size old
      let l' ← deserializeElements t f size l.1
      return (⟨l'.1, fits_of_length l'.2 l.2⟩ : { l : List (Val t) // l.length * t.objectSize < 2 ^ 63 }))
      (prefixBytes vs.length ++ vs.flatMap (enc t)) ⟨vs, hsize⟩ := by
  obtain ⟨l, hl, hresize⟩ := decodes_resize hsize hg old
  refine (decodes_size hlt).bind ?_
  rw [← List.nil_append (vs.flatMap (enc t))]
  refine hresize.bind ?_
  exact Decodes.bind_pure (decodes_elements hl.symm hsize hf) rfl

theorem objectSize_pos (t : Ty) : 0 < t.objectSize := by
  cases t with
  | scalar k => cases k with
    | integral w => cases w <;> decide
    | enumeration w => cases w <;> decide
    | pointer => decide
    | nullPtr => decide
  | float => decide
  | double => decide
  | _ => exact Nat.one_pos

theorem length_lt_of_fits {t : Ty} {l : List (Val t)} (h : l.length * t.objectSize < 2 ^ 63) :
    l.length < 2 ^ 64 := by
  have := Nat.le_mul_of_pos_right l.length (objectSize_pos t)
  omega

mutual

/-- **The encoding of a value is read back**, whatever the object held before. -/
theorem deserialize_decodes : ∀ (t : Ty) (old v : Val t), t.supported = true →
    granted grants t v = true → Decodes (deserialize grants t old) (enc t v) v
  | .scalar k, _, v, _, _ => decodes_scalar (n := k.size) v
  | .float, _, v, _, _ => decodes_scalar (n := 4) v
  | .double, _, v, _, _ => decodes_scalar (n := 8) v
  | .pair t u, (a, b), (v, w), hs, hg => by
    obtain ⟨hs₁, hs₂⟩ := Bool.and_eq_true_iff.mp hs
    obtain ⟨hg₁, hg₂⟩ := Bool.and_eq_true_iff.mp hg
    refine (deserialize_decodes t a v hs₁ hg₁).bind ?_
    exact Decodes.bind_pure (deserialize_decodes u b w hs₂ hg₂) rfl
  | .tuple ts, old, vs, hs, hg => deserializeAll_decodes ts old vs hs hg
  | .visitable ts, old, vs, hs, hg => deserializeAll_decodes ts old vs hs hg
  | .carray _ _, _, _, hs, _ => nomatch hs
  | .array t n, old, v, hs, hg => by
    obtain ⟨hn, hs⟩ := Bool.and_eq_true_iff.mp hs
    have hsize : v.1.length * t.objectSize < 2 ^ 63 := by
      rw [v.2]
      exact of_decide_eq_true hn
    refine (decodes_size (length_lt_of_fits hsize)).bind ?_
    exact Decodes.bind_pure (decodes_elements (v.2.trans old.2.symm) hsize fun a w hw =>
      deserialize_decodes t a w hs (List.all_eq_true.mp hg w hw)) rfl
  | .string, old, v, _, hg =>
    decodes_container (t := char) v.2 (length_lt_of_fits (t := char) v.2) hg (chars old) fun _ c _ =>
      decodes_scalar c
  | .container t, old, v, hs, hg => by
    obtain ⟨hg, hgv⟩ := Bool.and_eq_true_iff.mp hg
    exact decodes_container v.2 (length_lt_of_fits v.2) hg old.1 fun a w hw =>
      deserialize_decodes t a w hs (List.all_eq_true.mp hgv w hw)

theorem deserializeAll_decodes : ∀ (ts : Tys) (old vs : Vals ts), ts.supported = true →
    grantedAll grants ts vs = true → Decodes (deserializeAll grants ts old) (encs ts vs) vs
  | .nil, _, _, _, _ => Decodes.pure _
  | .cons t ts, (a, old), (v, vs), hs, hg => by
    obtain ⟨hs₁, hs₂⟩ := Bool.and_eq_true_iff.mp hs
    obtain ⟨hg₁, hg₂⟩ := Bool.and_eq_true_iff.mp hg
    refine (deserialize_decodes t a v hs₁ hg₁).bind ?_
    exact Decodes.bind_pure (deserializeAll_decodes ts old vs hs₂ hg₂) rfl

end

/-- **Round trip.** The bytes an `operator()` call of the serializer produced, with any bytes behind
them, are read back by the `operator()` of the deserializer for the same types: exactly the values,
and exactly the bytes behind are left. -/
theorem deserialize_serialize (allocates : ℕ → Bool) (grants : Ty → ℕ → Bool) (a : Args)
    (ha : a.types.supported = true) (hg : grantedAll grants a.types a.values = true) (s : BinarySerializer)
    (h : BinarySerializer.operator allocates a (BinarySerializer.new [] (by decide)) = .ok s)
    (old : Vals a.types) (rest : List UInt8) :
    deserializeAll grants a.types old (s.buf ++ rest) = .ok (a.values, rest) := by
  rw [BinarySerializer.buf_of_operator allocates ha h]
  exact deserializeAll_decodes a.types old a.values ha hg rest

theorem deserialize_serialize_sample :
    deserializeAll (fun _ _ => true) BinarySerializer.sampleArgs.types
        (Vals.default BinarySerializer.sampleArgs.types)
        ([1, 2, 1, 0, 0, 0, 0, 0, 0, 0, 2, 0, 0, 0, 0, 0, 0, 0, 0x61, 0x62, 0, 0, 0x80, 0x3f] ++ [9]) =
      .ok (BinarySerializer.sampleArgs.values, [9]) :=
  deserialize_serialize (fun _ => true) (fun _ _ => true) BinarySerializer.sampleArgs (by decide +kernel)
    (by decide +kernel)
    { buf := [1, 2, 1, 0, 0, 0, 0, 0, 0, 0, 2, 0, 0, 0, 0, 0, 0, 0, 0x61, 0x62, 0, 0, 0x80, 0x3f]
      pos := 24
      pos_le := by decide
      size_lt := by decide
      resizes := 1 }
    (by decide +kernel) _ [9]

end NetworkDriver.Util.Deserializer
