import NetworkDriver.Util.Deserializer

/-! # Deserializing untrusted bytes

What a run of `binary_deserializer` asks of the containers and of the input, as a log: each `resize`
with the number of elements and the bytes that remain, and each range that is copied by `memcpy`.

No run reads past its input, and no check of a range wraps: a `std::array` bounds the number of
elements, and a container that was resized to them is smaller than `2^63` bytes. But `resize` gets
the length prefix before the input is looked at.

* `uses_least`: every value takes at least `leastBytes` of the input.
* `safe_iff`: the runs that are safe are those whose length prefixes fit the input. -/

namespace NetworkDriver.Util.Untrusted

open NetworkDriver.Library.Codec NetworkDriver.Util.Types NetworkDriver.Util.Deserializer

/-! ### The log -/

/-- A call, with the element type, the number of elements and the bytes that remain. -/
inductive Call where
  | resize (t : Ty) (n remaining : ℕ)
  | range (t : Ty) (n remaining : ℕ)

/-- The log of a range within `l`. -/
def rangeCalls (t : Ty) (deserialize : Val t → Deserialize (Val t)) (calls : Val t → List UInt8 → List Call)
    (size : ℕ) (l : List (Val t)) (bytes : List UInt8) : List Call :=
  if t.triviallySerializable then [.range t size bytes.length]
  else logAll deserialize calls (l.take size) bytes

/-- The log of a container from its size on. -/
def elementsCalls (t : Ty) (deserialize : Val t → Deserialize (Val t))
    (calls : Val t → List UInt8 → List Call) (size : ℕ) (l : List (Val t)) (bytes : List UInt8) : List Call :=
  if l.length < size then [] else rangeCalls t deserialize calls size l bytes

variable (grants : Ty → ℕ → Bool)

/-- The log of a resizable container from its size on. -/
def containerCalls (t : Ty) (deserialize : Val t → Deserialize (Val t))
    (calls : Val t → List UInt8 → List Call) (old : List (Val t)) (size : ℕ) (bytes : List UInt8) :
    List Call :=
  .resize t size bytes.length :: andThen (resize grants t size old bytes) fun l =>
    elementsCalls t deserialize calls size l.1

mutual

/-- **The log of `deserialize`.** -/
def calls : (t : Ty) → Val t → List UInt8 → List Call
  | .scalar _, _, _ => []
  | .float, _, _ => []
  | .double, _, _ => []
  | .pair t u, (a, b), bytes =>
    calls t a bytes ++ andThen (deserialize grants t a bytes) fun _ => calls u b
  | .tuple ts, vs, bytes => callsAll ts vs bytes
  | .visitable ts, vs, bytes => callsAll ts vs bytes
  | .carray _ _, _, _ => []
  | .array t _, v, bytes =>
    andThen (deserializeSize bytes) fun size =>
      elementsCalls t (deserialize grants t) (calls t) size v.1
  | .string, v, bytes =>
    andThen (deserializeSize bytes) fun size =>
      containerCalls grants char (fun _ => deserializeScalar 1) (fun _ _ => []) (chars v) size
  | .container t, v, bytes =>
    andThen (deserializeSize bytes) fun size =>
      containerCalls grants t (deserialize grants t) (calls t) v.1 size

/-- The log of `operator()`. -/
def callsAll : (ts : Tys) → Vals ts → List UInt8 → List Call
  | .nil, _, _ => []
  | .cons t ts, (v, vs), bytes =>
    calls t v bytes ++ andThen (deserialize grants t v bytes) fun _ => callsAll ts vs

end

/-! ### The property -/

mutual

/-- The least number of bytes that reading a value takes. -/
def leastBytes : Ty → ℕ
  | .scalar k => k.size
  | .float => 4
  | .double => 8
  | .pair t u => leastBytes t + leastBytes u
  | .tuple ts => leastBytesAll ts
  | .visitable ts => leastBytesAll ts
  | .carray _ _ => 8
  | .array _ _ => 8
  | .string => 8
  | .container _ => 8

def leastBytesAll : Tys → ℕ
  | .nil => 0
  | .cons t ts => leastBytes t + leastBytesAll ts

end

/-- The input that remains could encode the elements that a container is resized to. -/
def Call.Encodable : Call → Prop
  | .resize t n remaining => n * leastBytes t ≤ remaining
  | .range _ _ _ => True

/-- A `resize` succeeds. -/
def Call.Succeeds : Call → Prop
  | .resize t n _ => n * t.objectSize < 2 ^ 63 ∧ grants t n = true
  | .range _ _ _ => True

instance (c : Call) : Decidable c.Encodable := by cases c <;> unfold Call.Encodable <;> infer_instance

instance (c : Call) : Decidable (c.Succeeds grants) := by cases c <;> unfold Call.Succeeds <;> infer_instance

/-- `size * sizeof(T)` is the number of bytes of the elements. -/
def Call.Exact : Call → Prop
  | .resize _ _ _ => True
  | .range t n _ => (UInt64.ofNat n * UInt64.ofNat t.objectSize).toNat = n * t.objectSize

/-- `std::runtime_error`. -/
def IsRuntimeError (e : Exception) : Prop := ∃ what, e = .runtimeError what

/-- **Deserializing is safe**: it throws `std::runtime_error` at most, takes its bytes from the
front of the input, checks what it copies, and resizes no container to more elements than could
follow. -/
structure Safe (ts : Tys) (old : Vals ts) (bytes : List UInt8) : Prop where
  throws : ∀ e, deserializeAll grants ts old bytes = .error e → IsRuntimeError e
  reads : ∀ vs rest, deserializeAll grants ts old bytes = .ok (vs, rest) → rest <:+ bytes
  checks : ∀ c ∈ callsAll grants ts old bytes, c.Exact
  resizes : ∀ c ∈ callsAll grants ts old bytes, c.Encodable

/-! ### What is read -/

theorem uses_takeBytes (n : ℕ) : Uses (takeBytes n) n := by
  intro bytes a rest h
  unfold takeBytes at h
  split_ifs at h with hn
  obtain ⟨-, rfl⟩ := Prod.mk.inj (Except.ok.inj h)
  refine ⟨List.drop_suffix n bytes, ?_⟩
  rw [List.length_drop]
  omega

theorem uses_scalar (n : ℕ) : Uses (deserializeScalar n) n :=
  (uses_takeBytes n).bind fun _ => Uses.pure _

theorem uses_size : Uses deserializeSize 8 := (uses_scalar 8).bind fun _ => Uses.pure _

theorem uses_resize (t : Ty) (size : ℕ) (l : List (Val t)) : Uses (resize grants t size l) 0 := by
  unfold resize
  split_ifs
  · exact Uses.pure _
  · exact Uses.throw _ _
  · exact Uses.throw _ _

theorem uses_elements {t : Ty} {f : Val t → Deserialize (Val t)} (hf : ∀ a, Uses (f a) 0) (size : ℕ)
    (l : List (Val t)) : Uses (deserializeElements t f size l) 0 := by
  unfold deserializeElements deserializeRange
  split_ifs
  · exact Uses.throw _ _
  · exact ((uses_takeBytes _).mono (Nat.zero_le _)).bind fun _ => Uses.pure _
  · exact (uses_readAll hf _).bind fun _ => Uses.pure _

mutual

/-- **Every value takes its least number of bytes**, from the front of the input. -/
theorem uses_least : ∀ (t : Ty) (v : Val t), Uses (deserialize grants t v) (leastBytes t)
  | .scalar k, _ => uses_scalar k.size
  | .float, _ => uses_scalar 4
  | .double, _ => uses_scalar 8
  | .pair t u, (a, b) => (uses_least t a).bind fun _ => (uses_least u b).bind fun _ => Uses.pure _
  | .tuple ts, vs => uses_leastAll ts vs
  | .visitable ts, vs => uses_leastAll ts vs
  | .carray _ _, _ => Uses.throw _ _
  | .array t _, _ => uses_size.bind fun _ =>
    (uses_elements (fun a => (uses_least t a).mono (Nat.zero_le _)) _ _).bind fun _ => Uses.pure _
  | .string, _ => uses_size.bind fun _ => (uses_resize grants _ _ _).bind fun _ =>
    (uses_elements (fun _ => (uses_scalar 1).mono (Nat.zero_le _)) _ _).bind fun _ => Uses.pure _
  | .container t, _ => uses_size.bind fun _ => (uses_resize grants _ _ _).bind fun _ =>
    (uses_elements (fun a => (uses_least t a).mono (Nat.zero_le _)) _ _).bind fun _ => Uses.pure _

theorem uses_leastAll : ∀ (ts : Tys) (vs : Vals ts), Uses (deserializeAll grants ts vs) (leastBytesAll ts)
  | .nil, _ => Uses.pure _
  | .cons t ts, (v, vs) => (uses_least t v).bind fun _ => (uses_leastAll ts vs).bind fun _ => Uses.pure _

end

/-! ### What is thrown -/

theorem throws_takeBytes (n : ℕ) {P : Call → Prop} :
    Throws IsRuntimeError P (takeBytes n) fun _ => [] := by
  intro bytes
  refine iff_of_true (fun e h => ?_) (by simp)
  unfold takeBytes at h
  split_ifs at h
  obtain rfl := Except.error.inj h
  exact ⟨_, rfl⟩

theorem throws_scalar (n : ℕ) {P : Call → Prop} :
    Throws IsRuntimeError P (deserializeScalar n) fun _ => [] :=
  (throws_takeBytes n).bind_pure _

theorem throws_size {P : Call → Prop} : Throws IsRuntimeError P deserializeSize fun _ => [] :=
  (throws_scalar 8).bind_pure _

/-- **A `resize` that does not succeed throws something else.** -/
theorem throws_resize (t : Ty) (size : ℕ) (l : List (Val t)) :
    Throws IsRuntimeError (Call.Succeeds grants) (resize grants t size l)
      fun bytes => [.resize t size bytes.length] := by
  intro bytes
  rw [List.forall_mem_singleton]
  unfold resize Call.Succeeds
  split_ifs with hsize hg
  · exact iff_of_true (fun _ h => by cases h) ⟨hsize, hg⟩
  · refine iff_of_false (fun h => ?_) fun h => hg h.2
    obtain ⟨what, hw⟩ := h .badAlloc rfl
    cases hw
  · refine iff_of_false (fun h => ?_) fun h => hsize h.1
    obtain ⟨what, hw⟩ := h .lengthError rfl
    cases hw

theorem throws_elements {t : Ty} {f : Val t → Deserialize (Val t)} {log : Val t → List UInt8 → List Call}
    (hf : ∀ a, Throws IsRuntimeError (Call.Succeeds grants) (f a) (log a)) (size : ℕ)
    (l : List (Val t)) :
    Throws IsRuntimeError (Call.Succeeds grants) (deserializeElements t f size l)
      (elementsCalls t f log size l) := by
  unfold deserializeElements elementsCalls deserializeRange rangeCalls
  intro bytes
  split_ifs
  · exact iff_of_true (fun e h => ⟨_, (Except.error.inj h).symm⟩) (by simp)
  · rw [List.forall_mem_singleton]
    exact iff_of_true (((throws_takeBytes (P := fun _ : Call => True) _).bind_pure _ bytes).mpr (by simp))
      trivial
  · exact (throws_readAll hf _).bind_pure _ bytes

theorem throws_container {t : Ty} {f : Val t → Deserialize (Val t)} {log : Val t → List UInt8 → List Call}
    (hf : ∀ a, Throws IsRuntimeError (Call.Succeeds grants) (f a) (log a)) (old : List (Val t)) :
    Throws IsRuntimeError (Call.Succeeds grants) (do
      let size ← deserializeSize
      let l ← resize grants t size old
      let l' ← deserializeElements t f size l.1
      return (⟨l'.1, fits_of_length l'.2 l.2⟩ : { l : List (Val t) // l.length * t.objectSize < 2 ^ 63 }))
      fun bytes => andThen (deserializeSize bytes) (containerCalls grants t f log old) := by
  have hsized : ∀ size, Throws IsRuntimeError (Call.Succeeds grants) (do
      let l ← resize grants t size old
      let l' ← deserializeElements t f size l.1
      return (⟨l'.1, fits_of_length l'.2 l.2⟩ : { l : List (Val t) // l.length * t.objectSize < 2 ^ 63 }))
      (containerCalls grants t f log old size) := fun size =>
    (throws_resize grants t size old).bind fun l => (throws_elements grants hf size l.1).bind_pure _
  exact throws_size.bind hsized

mutual

/-- **The exceptions are those of `resize`**, besides `std::runtime_error`. -/
theorem throws_calls : ∀ (t : Ty) (v : Val t), t.supported = true →
    Throws IsRuntimeError (Call.Succeeds grants) (deserialize grants t v) (calls grants t v)
  | .scalar k, _, _ => throws_scalar k.size
  | .float, _, _ => throws_scalar 4
  | .double, _, _ => throws_scalar 8
  | .pair t u, (a, b), hs =>
    have hs := Bool.and_eq_true_iff.mp hs
    (throws_calls t a hs.1).bind fun _ => (throws_calls u b hs.2).bind_pure _
  | .tuple ts, vs, hs => throws_callsAll ts vs hs
  | .visitable ts, vs, hs => throws_callsAll ts vs hs
  | .carray _ _, _, hs => nomatch hs
  | .array t _, v, hs =>
    have hs := Bool.and_eq_true_iff.mp hs
    throws_size.bind fun size =>
      (throws_elements grants (fun a => throws_calls t a hs.2) size v.1).bind_pure _
  | .string, v, _ => throws_container grants (fun _ => throws_scalar 1) (chars v)
  | .container t, v, hs => throws_container grants (fun a => throws_calls t a hs) v.1

theorem throws_callsAll : ∀ (ts : Tys) (vs : Vals ts), ts.supported = true →
    Throws IsRuntimeError (Call.Succeeds grants) (deserializeAll grants ts vs)
      (callsAll grants ts vs)
  | .nil, _, _ => Throws.pure _
  | .cons t ts, (v, vs), hs =>
    have hs := Bool.and_eq_true_iff.mp hs
    (throws_calls t v hs.1).bind fun _ => (throws_callsAll ts vs hs.2).bind_pure _

end

/-! ### What is copied -/

/-- A range within an array that is smaller than `2^63` bytes. -/
theorem exact_range {t : Ty} {n : ℕ} (h : n * t.objectSize < 2 ^ 63) (remaining : ℕ) :
    (Call.range t n remaining).Exact := by
  change (UInt64.ofNat n * UInt64.ofNat t.objectSize).toNat = n * t.objectSize
  rw [← UInt64.ofNat_mul]
  exact UInt64.toNat_ofNat_of_lt' (Nat.lt_trans h (by decide))

theorem exact_elements {t : Ty} {f : Val t → Deserialize (Val t)} {log : Val t → List UInt8 → List Call}
    (hlog : ∀ a bytes, ∀ c ∈ log a bytes, c.Exact) {l : List (Val t)}
    (hl : l.length * t.objectSize < 2 ^ 63) (size : ℕ) (bytes : List UInt8) :
    ∀ c ∈ elementsCalls t f log size l bytes, c.Exact := by
  unfold elementsCalls rangeCalls
  split_ifs with hroom
  · simp
  · rw [List.forall_mem_singleton]
    have hle := Nat.mul_le_mul_right t.objectSize (Nat.not_lt.mp hroom)
    exact exact_range (by omega) _
  · exact forall_mem_logAll hlog _ _

theorem exact_container {t : Ty} {f : Val t → Deserialize (Val t)} {log : Val t → List UInt8 → List Call}
    (hlog : ∀ a bytes, ∀ c ∈ log a bytes, c.Exact) (old : List (Val t)) (size : ℕ) (bytes : List UInt8) :
    ∀ c ∈ containerCalls grants t f log old size bytes, c.Exact := by
  unfold containerCalls
  refine List.forall_mem_cons.mpr ⟨trivial, forall_mem_andThen fun l rest => ?_⟩
  exact exact_elements hlog l.2 size rest

mutual

/-- **No check wraps.** -/
theorem exact_calls : ∀ (t : Ty) (v : Val t) (bytes : List UInt8), t.supported = true →
    ∀ c ∈ calls grants t v bytes, c.Exact
  | .scalar _, _, _, _ => by simp [calls]
  | .float, _, _, _ => by simp [calls]
  | .double, _, _, _ => by simp [calls]
  | .pair t u, (a, b), bytes, hs =>
    have hs := Bool.and_eq_true_iff.mp hs
    List.forall_mem_append.mpr ⟨exact_calls t a bytes hs.1,
      forall_mem_andThen fun _ rest => exact_calls u b rest hs.2⟩
  | .tuple ts, vs, bytes, hs => exact_callsAll ts vs bytes hs
  | .visitable ts, vs, bytes, hs => exact_callsAll ts vs bytes hs
  | .carray _ _, _, _, hs => nomatch hs
  | .array t n, v, bytes, hs =>
    have hs := Bool.and_eq_true_iff.mp hs
    have hsize : v.1.length * t.objectSize < 2 ^ 63 := v.2.symm ▸ of_decide_eq_true hs.1
    forall_mem_andThen fun size rest =>
      exact_elements (fun a bytes => exact_calls t a bytes hs.2) hsize size rest
  | .string, v, bytes, _ =>
    forall_mem_andThen fun size rest =>
      exact_container grants (fun _ _ => by simp) (chars v) size rest
  | .container t, v, bytes, hs =>
    forall_mem_andThen fun size rest =>
      exact_container grants (fun a bytes => exact_calls t a bytes hs) v.1 size rest

theorem exact_callsAll : ∀ (ts : Tys) (vs : Vals ts) (bytes : List UInt8), ts.supported = true →
    ∀ c ∈ callsAll grants ts vs bytes, c.Exact
  | .nil, _, _, _ => by simp [callsAll]
  | .cons t ts, (v, vs), bytes, hs =>
    have hs := Bool.and_eq_true_iff.mp hs
    List.forall_mem_append.mpr ⟨exact_calls t v bytes hs.1,
      forall_mem_andThen fun _ rest => exact_callsAll ts vs rest hs.2⟩

end

/-! ### Safety -/

/-- **When deserializing is safe.** For every list of types, whatever the objects hold before, every
input and every allocator: exactly if every length prefix that a container is resized to announces
no more elements than the remaining input could encode, and the `resize` succeeds. -/
theorem safe_iff (ts : Tys) (hts : ts.supported = true) (old : Vals ts) (bytes : List UInt8) :
    Safe grants ts old bytes ↔ ∀ c ∈ callsAll grants ts old bytes, c.Encodable ∧ c.Succeeds grants := by
  have hthrows := throws_callsAll grants ts old hts bytes
  constructor
  · intro h c hc
    exact ⟨h.resizes c hc, hthrows.mp h.throws c hc⟩
  · intro h
    exact {
      throws := hthrows.mpr fun c hc => (h c hc).2
      reads := fun vs rest hr => (uses_leastAll grants ts old bytes vs rest hr).1
      checks := exact_callsAll grants ts old bytes hts
      resizes := fun c hc => (h c hc).1 }

/-- A vector of two-byte numbers and a string, both with the elements that their prefixes announce. -/
def sampleTypes : Tys := .cons (.container (.scalar (.integral .w16))) (.cons .string .nil)

def sampleBytes : List UInt8 := [2, 0, 0, 0, 0, 0, 0, 0, 1, 0, 2, 0, 1, 0, 0, 0, 0, 0, 0, 0, 0x61]

theorem safe_sample : Safe (fun _ _ => true) sampleTypes (Vals.default sampleTypes) sampleBytes :=
  (safe_iff (fun _ _ => true) sampleTypes (by decide) _ sampleBytes).mpr (by decide +kernel)

/-- A length prefix of eight bytes `0xff`: the `resize` throws `std::length_error`. -/
theorem unsafe_prefix :
    ¬ ∀ (ts : Tys) (old : Vals ts) (bytes : List UInt8), ts.supported = true →
      Safe (fun _ _ => true) ts old bytes := by
  intro h
  have hsafe := h (.cons .string .nil) (Vals.default _) (List.replicate 8 0xff) (by decide)
  obtain ⟨what, hw⟩ := hsafe.throws .lengthError (by rfl)
  cases hw

end NetworkDriver.Util.Untrusted
