import NetworkDriver.Util.Types

/-! # `serialized_size` and `binary_serializer`

The size computation is in `UInt64`, so it wraps. The serializer is its target buffer and the place
where `free_space_` starts; `free_space_` always ends where the buffer ends. A `memcpy` or a `subspan`
beyond it, which the source does not check, is the fault `overrun`. Whether `buf_.resize` succeeds is
up to the parameter `grants`.

* `calculateSize_eq`: the size computed is the length of the encoding, modulo `2^64`.
* `serialize_writes`: with room for the encoding, a value is written exactly, and nothing is resized.
* `operator_spec`: an `operator()` call resizes once at most, at its start, and never overruns. -/

namespace NetworkDriver.Util.Serializer

open NetworkDriver.Library.Codec NetworkDriver.Util.Types

/-! ### `serialized_size` -/

/-- `calculate_size(const T*, size)`. -/
def calculateRange (t : Ty) (calculateSize : Val t → UInt64) (l : List (Val t)) : UInt64 :=
  if t.flatType then 8 + UInt64.ofNat l.length * UInt64.ofNat t.objectSize
  else l.foldl (fun numBytes v => numBytes + calculateSize v) 8

mutual

/-- `calculate_size`. -/
def calculateSize : (t : Ty) → Val t → UInt64
  | .scalar k, _ => UInt64.ofNat (Ty.scalar k).objectSize
  | .float, _ => UInt64.ofNat Ty.float.objectSize
  | .double, _ => UInt64.ofNat Ty.double.objectSize
  | .pair t u, (a, b) => calculateSize t a + calculateSize u b
  | .tuple ts, vs => calculate ts vs
  | .visitable ts, vs => calculate ts vs
  | .carray t _, v => calculateRange t (calculateSize t) v.1
  | .array t _, v => calculateRange t (calculateSize t) v.1
  | .string, v => 8 + UInt64.ofNat (chars v).length
  | .container t, v => calculateRange t (calculateSize t) v.1

/-- `calculate` and `operator()`. -/
def calculate : (ts : Tys) → Vals ts → UInt64
  | .nil, _ => 0
  | .cons t ts, (v, vs) => calculateSize t v + calculate ts vs

end

theorem length_enc_flat {t : Ty} (ht : t.flatType = true) (v : Val t) : (enc t v).length = t.objectSize := by
  cases t with
  | scalar k => exact length_toBytes (show BitVec (8 * k.size) from v)
  | float => exact length_toBytes (show BitVec (8 * 4) from v)
  | double => exact length_toBytes (show BitVec (8 * 8) from v)
  | _ => simp [Ty.flatType] at ht

theorem calculateRange_eq (t : Ty) {f : Val t → UInt64}
    (hf : ∀ v, f v = UInt64.ofNat (enc t v).length) (l : List (Val t)) :
    calculateRange t f l = UInt64.ofNat (prefixBytes l.length ++ l.flatMap (enc t)).length := by
  rw [List.length_append, prefixBytes, length_toLE, UInt64.ofNat_add]
  unfold calculateRange
  split_ifs with ht
  · rw [length_flatMap_const fun v _ => length_enc_flat ht v, UInt64.ofNat_mul]
    rfl
  · have hfold : ∀ n : UInt64, l.foldl (fun numBytes v => numBytes + f v) n =
        n + UInt64.ofNat (l.flatMap (enc t)).length := by
      induction l with
      | nil => simp
      | cons v l ih =>
        intro n
        rw [List.foldl_cons, ih, hf, List.flatMap_cons, List.length_append, UInt64.ofNat_add,
          UInt64.add_assoc]
    exact hfold 8

mutual

/-- **The size computed is the length of the encoding**, modulo `2^64`. -/
theorem calculateSize_eq : ∀ (t : Ty) (v : Val t), calculateSize t v = UInt64.ofNat (enc t v).length
  | .scalar k, v => by rw [calculateSize, length_enc_flat rfl]
  | .float, v => by rw [calculateSize, length_enc_flat rfl]
  | .double, v => by rw [calculateSize, length_enc_flat rfl]
  | .pair t u, (a, b) => by
    rw [calculateSize, calculateSize_eq t a, calculateSize_eq u b, enc, List.length_append,
      UInt64.ofNat_add]
  | .tuple ts, vs => by rw [calculateSize, calculate_eq ts vs, enc]
  | .visitable ts, vs => by rw [calculateSize, calculate_eq ts vs, enc]
  | .carray t _, v => calculateRange_eq t (calculateSize_eq t) v.1
  | .array t _, v => calculateRange_eq t (calculateSize_eq t) v.1
  | .string, v => by
    rw [calculateSize, enc, List.length_append, prefixBytes, length_toLE, length_flatMap_toBytes,
      UInt64.ofNat_add, Nat.mul_one]
    rfl
  | .container t, v => calculateRange_eq t (calculateSize_eq t) v.1

theorem calculate_eq : ∀ (ts : Tys) (vs : Vals ts), calculate ts vs = UInt64.ofNat (encs ts vs).length
  | .nil, _ => rfl
  | .cons t ts, (v, vs) => by
    rw [calculate, calculateSize_eq t v, calculate_eq ts vs, encs, List.length_append, UInt64.ofNat_add]

end

/-! ### The serializer -/

/-- `binary_serializer`: the bytes of `buf_`, and where `free_space_` starts in them. `resizes` counts
the calls of `buf_.resize`. -/
structure BinarySerializer where
  buf : List UInt8
  pos : ℕ
  pos_le : pos ≤ buf.length
  size_lt : buf.length < 2 ^ 64
  resizes : ℕ := 0
  deriving DecidableEq

/-- Why an operation does not return. -/
inductive Fault where
  | overrun
  | badSpan
  | resizeFailed
  deriving DecidableEq

namespace BinarySerializer

/-- The constructor. -/
def new (buf : List UInt8) (h : buf.length < 2 ^ 64) : BinarySerializer :=
  { buf := buf, pos := 0, pos_le := Nat.zero_le _, size_lt := h }

/-- `free_space_.size()`. -/
def freeSize (s : BinarySerializer) : UInt64 := UInt64.ofNat (s.buf.length - s.pos)

/-- The bytes are copied to the start of `free_space_`, which then starts behind them. -/
def put (s : BinarySerializer) (bs : List UInt8) (h : s.pos + bs.length ≤ s.buf.length) :
    BinarySerializer :=
  { s with
    buf := s.buf.take s.pos ++ bs ++ s.buf.drop (s.pos + bs.length)
    pos := s.pos + bs.length
    pos_le := by simp only [List.length_append, List.length_take, List.length_drop]; omega
    size_lt := by
      have := s.size_lt
      simp only [List.length_append, List.length_take, List.length_drop]
      omega }

/-- `memcpy` to `free_space_.data()`, and `subspan` behind the bytes. -/
def write (bs : List UInt8) (s : BinarySerializer) : Except Fault BinarySerializer :=
  if h : s.pos + bs.length ≤ s.buf.length then .ok (s.put bs h) else .error .overrun

variable (grants : ℕ → Bool)

/-- `realloc`. -/
def realloc (requiredFreeSpace : UInt64) (s : BinarySerializer) : Except Fault BinarySerializer :=
  if s.freeSize < requiredFreeSpace then
    let missing := requiredFreeSpace - s.freeSize
    let size := UInt64.ofNat s.buf.length + missing
    if !grants size.toNat then .error .resizeFailed
    else if h : requiredFreeSpace.toNat ≤ size.toNat then
      .ok
        { buf := s.buf.take size.toNat ++ List.replicate (size.toNat - s.buf.length) 0
          pos := size.toNat - requiredFreeSpace.toNat
          pos_le := by simp only [List.length_append, List.length_take, List.length_replicate]; omega
          size_lt := by
            have := size.toNat_lt
            simp only [List.length_append, List.length_take, List.length_replicate]
            omega
          resizes := s.resizes + 1 }
    else .error .badSpan
  else .ok s

/-- `serialize(const T*, size)`. -/
def serializeRange (t : Ty) (serialize : Val t → BinarySerializer → Except Fault BinarySerializer)
    (l : List (Val t)) (s : BinarySerializer) : Except Fault BinarySerializer := do
  let s ← s.write (prefixBytes l.length)
  if t.triviallySerializable then
    let numBytes := UInt64.ofNat l.length * UInt64.ofNat t.objectSize
    s.write ((l.flatMap (objectBytes t)).take numBytes.toNat)
  else
    l.foldlM (fun s v => serialize v s) s

mutual

/-- `serialize`. -/
def serialize : (t : Ty) → Val t → BinarySerializer → Except Fault BinarySerializer
  | .scalar k, v, s => s.write (objectBytes (.scalar k) v)
  | .float, v, s => s.write (toBytes (show BitVec (8 * 4) from v))
  | .double, v, s => s.write (toBytes (show BitVec (8 * 8) from v))
  | .pair t u, (a, b), s => do
    let s ← serialize t a s
    serialize u b s
  | .tuple ts, vs, s => serializeAll ts vs s
  | .visitable ts, vs, s => do
    -- `visit` calls `operator()`, which reallocates on its own
    let s ← s.realloc grants (calculate ts vs)
    serializeAll ts vs s
  | .carray t _, v, s => serializeRange t (serialize t) v.1 s
  | .array t _, v, s => serializeRange t (serialize t) v.1 s
  | .string, v, s => serializeRange char (fun c s => s.write (objectBytes char c)) (chars v) s
  | .container t, v, s => serializeRange t (serialize t) v.1 s

/-- `(serialize(ts), ...)`. -/
def serializeAll : (ts : Tys) → Vals ts → BinarySerializer → Except Fault BinarySerializer
  | .nil, _, s => .ok s
  | .cons t ts, (v, vs), s => do
    let s ← serialize t v s
    serializeAll ts vs s

end

/-- `operator()`. -/
def operator (a : Args) (s : BinarySerializer) : Except Fault BinarySerializer := do
  let s ← s.realloc grants (calculate a.types a.values)
  serializeAll grants a.types a.values s

/-- `operator()` calls, one after the other. -/
def operators (calls : List Args) (s : BinarySerializer) : Except Fault BinarySerializer :=
  calls.foldlM (fun s a => operator grants a s) s

/-! ### Writing the encoding -/

theorem length_put {s : BinarySerializer} {bs : List UInt8} (h : s.pos + bs.length ≤ s.buf.length) :
    (s.put bs h).buf.length = s.buf.length := by
  simp only [put, List.length_append, List.length_take, List.length_drop]
  omega

theorem put_put {s : BinarySerializer} {bs bs' : List UInt8} (h : s.pos + bs.length ≤ s.buf.length)
    (h' : (s.put bs h).pos + bs'.length ≤ (s.put bs h).buf.length)
    (h'' : s.pos + (bs ++ bs').length ≤ s.buf.length) :
    (s.put bs h).put bs' h' = s.put (bs ++ bs') h'' := by
  have hlen : (s.buf.take s.pos ++ bs).length = s.pos + bs.length := by
    rw [List.length_append, List.length_take, Nat.min_eq_left s.pos_le]
  simp only [put, BinarySerializer.mk.injEq, and_true]
  refine ⟨?_, by rw [List.length_append]; omega⟩
  rw [List.take_left' hlen, List.drop_append, hlen, List.drop_of_length_le (by omega),
    List.drop_drop, List.nil_append, List.length_append]
  simp only [List.append_assoc]
  congr 4
  omega

/-- **The action writes `bs`** wherever there is room for it, and does nothing else. -/
def Writes (f : BinarySerializer → Except Fault BinarySerializer) (bs : List UInt8) : Prop :=
  ∀ (s : BinarySerializer) (h : s.pos + bs.length ≤ s.buf.length), f s = .ok (s.put bs h)

theorem writes_write (bs : List UInt8) : Writes (write bs) bs := fun _ h => dif_pos h

theorem writes_nil : Writes .ok [] := by
  intro s h
  have : s.put [] h = s := by
    simp [put]
  rw [this]

/-- One action after the other. -/
theorem Writes.seq {f g : BinarySerializer → Except Fault BinarySerializer} {bs bs' : List UInt8}
    (hf : Writes f bs) (hg : Writes g bs') : Writes (fun s => f s >>= g) (bs ++ bs') := by
  intro s h
  have h₁ : s.pos + bs.length ≤ s.buf.length := by
    rw [List.length_append] at h
    omega
  have h₂ : (s.put bs h₁).pos + bs'.length ≤ (s.put bs h₁).buf.length := by
    rw [length_put, put]
    rw [List.length_append] at h
    show s.pos + bs.length + bs'.length ≤ _
    omega
  show f s >>= g = _
  rw [hf s h₁, ← put_put h₁ h₂ h]
  exact hg _ h₂

theorem writes_foldlM {α : Type} {f : α → BinarySerializer → Except Fault BinarySerializer}
    {e : α → List UInt8} (l : List α) (h : ∀ v ∈ l, Writes (f v) (e v)) :
    Writes (fun s => l.foldlM (fun s v => f v s) s) (l.flatMap e) := by
  induction l with
  | nil => exact writes_nil
  | cons v l ih =>
    have htail := ih fun w hw => h w (List.mem_cons_of_mem _ hw)
    exact (h v (by simp)).seq htail

theorem flatMap_objectBytes {t : Ty} (ht : t.triviallySerializable = true) (l : List (Val t)) :
    l.flatMap (objectBytes t) = l.flatMap (enc t) ∧ t.flatType = true := by
  cases t with
  | scalar k => exact ⟨rfl, rfl⟩
  | _ => simp [Ty.triviallySerializable] at ht

/-- A range of scalars is copied whole, as long as its size does not wrap. -/
theorem writes_range {t : Ty} {f : Val t → BinarySerializer → Except Fault BinarySerializer}
    {l : List (Val t)} (hlen : t.triviallySerializable = true → l.length * t.objectSize < 2 ^ 64)
    (h : t.triviallySerializable = false → ∀ v ∈ l, Writes (f v) (enc t v)) :
    Writes (serializeRange t f l) (prefixBytes l.length ++ l.flatMap (enc t)) := by
  refine (writes_write (prefixBytes l.length)).seq ?_
  by_cases ht : t.triviallySerializable = true
  · obtain ⟨he, hflat⟩ := flatMap_objectBytes ht l
    have hsize : (UInt64.ofNat l.length * UInt64.ofNat t.objectSize).toNat = l.length * t.objectSize := by
      rw [← UInt64.ofNat_mul, UInt64.toNat_ofNat_of_lt' (hlen ht)]
    simp only [ht, if_true, hsize, he]
    rw [List.take_of_length_le (Nat.le_of_eq (length_flatMap_const fun v _ => length_enc_flat hflat v))]
    exact writes_write _
  · rw [Bool.not_eq_true] at ht
    simp only [ht, Bool.false_eq_true, if_false]
    exact writes_foldlM l (h ht)

theorem length_range_le {t : Ty} (l : List (Val t)) {n : ℕ}
    (h : (prefixBytes l.length ++ l.flatMap (enc t)).length < n) :
    (t.triviallySerializable = true → l.length * t.objectSize < n) ∧ ∀ v ∈ l, (enc t v).length < n := by
  rw [List.length_append] at h
  refine ⟨fun ht => ?_, fun v hv => ?_⟩
  · obtain ⟨-, hflat⟩ := flatMap_objectBytes ht l
    rw [length_flatMap_const fun v _ => length_enc_flat hflat v] at h
    omega
  · obtain ⟨front, back, rfl⟩ := List.append_of_mem hv
    simp only [List.flatMap_append, List.flatMap_cons, List.length_append] at h
    omega

variable (grants : ℕ → Bool)

/-- With room for what is asked for, `realloc` does nothing. -/
theorem realloc_of_room {s : BinarySerializer} {bs : List UInt8} (h : s.pos + bs.length ≤ s.buf.length) :
    s.realloc grants (UInt64.ofNat bs.length) = .ok s := by
  have hlt := s.size_lt
  refine if_neg ?_
  rw [UInt64.not_lt, UInt64.le_iff_toNat_le, freeSize, UInt64.toNat_ofNat_of_lt' (by show _ < 2 ^ 64; omega),
    UInt64.toNat_ofNat_of_lt' (by show _ < 2 ^ 64; omega)]
  omega

mutual

/-- **A value is written as its encoding**, if that is short enough for its size to be computed. The
`operator()` calls of `visit` find the room their callers made. -/
theorem serialize_writes : ∀ (t : Ty) (v : Val t), (enc t v).length < 2 ^ 64 →
    Writes (serialize grants t v) (enc t v)
  | .scalar k, v, _ => writes_write _
  | .float, v, _ => writes_write _
  | .double, v, _ => writes_write _
  | .pair t u, (a, b), h => by
    rw [enc, List.length_append] at h
    exact (serialize_writes t a (by omega)).seq (serialize_writes u b (by omega))
  | .tuple ts, vs, h => serializeAll_writes ts vs h
  | .visitable ts, vs, h => by
    intro s hroom
    have hreq : s.realloc grants (calculate ts vs) = .ok s :=
      (congrArg (s.realloc grants) (calculate_eq ts vs)).trans (realloc_of_room grants hroom)
    show s.realloc grants (calculate ts vs) >>= serializeAll grants ts vs = _
    rw [hreq]
    exact serializeAll_writes ts vs h s hroom
  | .carray t _, v, h => by
    obtain ⟨hlen, hv⟩ := length_range_le v.1 h
    exact writes_range hlen fun _ w hw => serialize_writes t w (hv w hw)
  | .array t _, v, h => by
    obtain ⟨hlen, hv⟩ := length_range_le v.1 h
    exact writes_range hlen fun _ w hw => serialize_writes t w (hv w hw)
  | .string, v, h => by
    obtain ⟨hlen, -⟩ := length_range_le (chars v) h
    exact writes_range hlen fun _ w _ => writes_write _
  | .container t, v, h => by
    obtain ⟨hlen, hv⟩ := length_range_le v.1 h
    exact writes_range hlen fun _ w hw => serialize_writes t w (hv w hw)

theorem serializeAll_writes : ∀ (ts : Tys) (vs : Vals ts), (encs ts vs).length < 2 ^ 64 →
    Writes (serializeAll grants ts vs) (encs ts vs)
  | .nil, _, _ => writes_nil
  | .cons t ts, (v, vs), h => by
    rw [encs, List.length_append] at h
    exact (serialize_writes t v (by omega)).seq (serializeAll_writes ts vs (by omega))

end

/-! ### `operator()` -/

theorem toNat_freeSize (s : BinarySerializer) : s.freeSize.toNat = s.buf.length - s.pos := by
  have hlt := s.size_lt
  exact UInt64.toNat_ofNat_of_lt' (by show _ < 2 ^ 64; omega)

/-- `realloc` makes room behind what was written, if that does not wrap. -/
theorem realloc_spec (s : BinarySerializer) {n : UInt64} (h : s.pos + n.toNat < 2 ^ 64) :
    (∃ s', s.realloc grants n = .ok s' ∧ s'.pos = s.pos ∧ s'.buf.take s.pos = s.buf.take s.pos ∧
        s'.buf.length = max s.buf.length (s.pos + n.toNat) ∧
        s'.resizes = s.resizes + if s.freeSize < n then 1 else 0) ∨
      s.realloc grants n = .error .resizeFailed ∧ s.freeSize < n := by
  have hfree := toNat_freeSize s
  have hlen := s.size_lt
  have hpos := s.pos_le
  by_cases hlt : s.freeSize < n
  · have hlt' := UInt64.lt_iff_toNat_lt.mp hlt
    have hsize : (UInt64.ofNat s.buf.length + (n - s.freeSize)).toNat = s.pos + n.toNat := by
      rw [UInt64.toNat_add, UInt64.toNat_sub_of_le _ _ (UInt64.le_of_lt hlt),
        UInt64.toNat_ofNat_of_lt' hlen, hfree]
      omega
    unfold realloc
    simp only [if_pos hlt, hsize]
    split_ifs with hgrant hspan
    · exact Or.inr ⟨rfl, hlt⟩
    · refine Or.inl ⟨_, rfl, ?_, ?_, ?_, rfl⟩
      · exact Nat.add_sub_cancel s.pos n.toNat
      · show (s.buf.take (s.pos + n.toNat) ++ _).take s.pos = _
        rw [List.take_of_length_le (show s.buf.length ≤ s.pos + n.toNat by omega),
          List.take_append_of_le_length hpos]
      · simp only [List.length_append, List.length_take, List.length_replicate]
        omega
    · exact absurd (Nat.le_add_left n.toNat s.pos) hspan
  · have hge := UInt64.le_iff_toNat_le.mp (UInt64.not_lt.mp hlt)
    refine Or.inl ⟨s, if_neg hlt, rfl, rfl, (Nat.max_eq_left (by omega)).symm, ?_⟩
    rw [if_neg hlt, Nat.add_zero]

/-- What a call of `operator()` does: it writes as many bytes as were computed, and resizes once if
there is too little room; or that resize fails. -/
def WrittenExactly (a : Args) (s : BinarySerializer) : Except Fault BinarySerializer → Prop
  | .ok s' =>
    s'.pos = s.pos + (calculate a.types a.values).toNat ∧
      s'.buf.take s'.pos = s.buf.take s.pos ++ a.encoding ∧
      s'.buf.length = max s.buf.length s'.pos ∧
      s'.resizes = s.resizes + if s.freeSize < calculate a.types a.values then 1 else 0
  | .error e => e = .resizeFailed ∧ s.freeSize < calculate a.types a.values

theorem toNat_calculate {a : Args} (h : a.encoding.length < 2 ^ 64) :
    (calculate a.types a.values).toNat = a.encoding.length := by
  rw [calculate_eq]
  exact UInt64.toNat_ofNat_of_lt' h

/-- **One `operator()` call.** -/
theorem operator_spec (s : BinarySerializer) (a : Args) (h : s.pos + a.encoding.length < 2 ^ 64) :
    WrittenExactly a s (operator grants a s) := by
  have hlt : a.encoding.length < 2 ^ 64 := Nat.lt_of_le_of_lt (Nat.le_add_left _ _) h
  have hsize := toNat_calculate hlt
  unfold operator
  rcases realloc_spec grants s (n := calculate a.types a.values) (by omega) with
    ⟨s₁, he, hpos, htake, hbuf, hresizes⟩ | ⟨he, hfree⟩
  · rw [hsize, ← hpos] at hbuf
    have hroom : s₁.pos + a.encoding.length ≤ s₁.buf.length := by omega
    have hwritten := serializeAll_writes grants a.types a.values hlt s₁ hroom
    have hlen : (s₁.buf.take s₁.pos ++ a.encoding).length = s₁.pos + a.encoding.length := by
      rw [List.length_append, List.length_take, Nat.min_eq_left s₁.pos_le]
    rw [he]
    show WrittenExactly a s (serializeAll grants a.types a.values s₁)
    rw [hwritten]
    refine ⟨?_, ?_, ?_, hresizes⟩
    · rw [hsize, ← hpos]
      rfl
    · rw [← htake, ← hpos]
      exact List.take_left' hlen
    · exact (length_put hroom).trans hbuf
  · rw [he]
    exact ⟨rfl, hfree⟩

/-- The number of bytes a sequence of calls encodes. -/
def totalLength (calls : List Args) : ℕ := (calls.map fun a => a.encoding.length).sum

theorem pos_operators (calls : List Args) : ∀ (s s' : BinarySerializer), operators grants calls s = .ok s' →
    s.pos + totalLength calls < 2 ^ 64 → s'.pos = s.pos + totalLength calls := by
  induction calls with
  | nil =>
    intro s s' h _
    obtain rfl := Except.ok.inj h
    rfl
  | cons a calls ih =>
    intro s s' h hlt
    have htotal : totalLength (a :: calls) = a.encoding.length + totalLength calls := rfl
    have hspec := operator_spec grants s a (by omega)
    rw [operators, List.foldlM_cons] at h
    rcases ho : operator grants a s with e | s₁
    · rw [ho] at h
      cases h
    · rw [ho] at h hspec
      obtain ⟨hpos, -⟩ := hspec
      rw [toNat_calculate (by omega)] at hpos
      rw [ih s₁ s' h (by omega)]
      omega

/-- **Exact sizes.** Whatever the buffer held, and after any `operator()` calls that returned: as
long as all encodings together are shorter than `2^64` bytes, `serialized_size` of the next call is
the number of bytes that call writes, it resizes the buffer once at most, at its start, and nothing
is written beyond `free_space_`. -/
theorem serialized_size_exact (buf : List UInt8) (hbuf : buf.length < 2 ^ 64) (calls : List Args) (a : Args)
    (s : BinarySerializer) (hs : operators grants calls (new buf hbuf) = .ok s)
    (htotal : totalLength (calls ++ [a]) < 2 ^ 64) :
    (calculate a.types a.values).toNat = a.encoding.length ∧ WrittenExactly a s (operator grants a s) := by
  have hsum : totalLength (calls ++ [a]) = totalLength calls + a.encoding.length := by
    simp [totalLength]
  have hpos := pos_operators grants calls (new buf hbuf) s hs (by show 0 + _ < _; omega)
  have h0 : (new buf hbuf).pos = 0 := rfl
  exact ⟨toNat_calculate (by omega), operator_spec grants s a (by omega)⟩

/-- An integer, and a vector of visitable objects with a string and a `float`. -/
def sampleArgs : Args where
  types := .cons (.scalar (.integral .w16))
    (.cons (.container (.visitable (.cons .string (.cons .float .nil)))) .nil)
  values := ((0x0201#16 : BitVec (8 * 2)),
    ⟨[(⟨[0x61#8, 0x62#8], by decide⟩, ((0x3f800000#32 : BitVec (8 * 4)), ()))], by decide⟩, ())

theorem serialized_size_exact_sample :
    (calculate sampleArgs.types sampleArgs.values).toNat = sampleArgs.encoding.length ∧
      WrittenExactly sampleArgs
        { buf := [7, 8], pos := 2, pos_le := by decide, size_lt := by decide, resizes := 1 }
        (operator (fun _ => true) sampleArgs
          { buf := [7, 8], pos := 2, pos_le := by decide, size_lt := by decide, resizes := 1 }) :=
  serialized_size_exact (fun _ => true) [0] (by decide)
    [⟨.cons (.scalar (.enumeration .w16)) .nil, ((0x0807#16 : BitVec (8 * 2)), ())⟩] sampleArgs _
    (by decide +kernel) (by decide +kernel)

/-! ### What a call that returns has written -/

/-- Whenever the action returns, it has written `n` bytes. -/
def Advances (f : BinarySerializer → Except Fault BinarySerializer) (n : ℕ) : Prop :=
  ∀ s s', f s = .ok s' → s'.pos = s.pos + n

theorem advances_write (bs : List UInt8) : Advances (write bs) bs.length := by
  intro s s' h
  unfold write at h
  split_ifs at h
  obtain rfl := Except.ok.inj h
  rfl

theorem Advances.seq {f g : BinarySerializer → Except Fault BinarySerializer} {n k : ℕ}
    (hf : Advances f n) (hg : Advances g k) : Advances (fun s => f s >>= g) (n + k) := by
  intro s s' h
  replace h : f s >>= g = .ok s' := h
  rcases hfs : f s with e | s₁
  · rw [hfs] at h
    cases h
  · rw [hfs] at h
    rw [hg s₁ s' h, hf s s₁ hfs, Nat.add_assoc]

theorem advances_foldlM {α : Type} {f : α → BinarySerializer → Except Fault BinarySerializer}
    {e : α → List UInt8} (l : List α) (h : ∀ v ∈ l, Advances (f v) (e v).length) :
    Advances (fun s => l.foldlM (fun s v => f v s) s) (l.flatMap e).length := by
  induction l with
  | nil =>
    intro s s' h
    obtain rfl := Except.ok.inj h
    rfl
  | cons v l ih =>
    have htail := ih fun w hw => h w (List.mem_cons_of_mem _ hw)
    rw [List.flatMap_cons, List.length_append]
    exact (h v (by simp)).seq htail

/-- If `realloc` returns, it has not moved the place to write to: a size that wraps is too small for
the span to be taken. -/
theorem advances_realloc (n : UInt64) : Advances (realloc grants n) 0 := by
  intro s s' h
  have hfree := toNat_freeSize s
  have hlen := s.size_lt
  have hpos := s.pos_le
  have hn := n.toNat_lt
  unfold realloc at h
  by_cases hlt : s.freeSize < n
  · have hlt' := UInt64.lt_iff_toNat_lt.mp hlt
    have hsize : (UInt64.ofNat s.buf.length + (n - s.freeSize)).toNat = (s.pos + n.toNat) % 2 ^ 64 := by
      rw [UInt64.toNat_add, UInt64.toNat_sub_of_le _ _ (UInt64.le_of_lt hlt),
        UInt64.toNat_ofNat_of_lt' hlen, hfree]
      congr 1
      omega
    simp only [if_pos hlt] at h
    split_ifs at h with hgrant hspan
    obtain rfl := Except.ok.inj h
    rw [hsize] at hspan
    show (UInt64.ofNat s.buf.length + (n - s.freeSize)).toNat - n.toNat = s.pos + 0
    omega
  · rw [if_neg hlt] at h
    obtain rfl := Except.ok.inj h
    rfl

theorem advances_range {t : Ty} {f : Val t → BinarySerializer → Except Fault BinarySerializer}
    {l : List (Val t)} (hlen : l.length * t.objectSize < 2 ^ 63)
    (h : t.triviallySerializable = false → ∀ v ∈ l, Advances (f v) (enc t v).length) :
    Advances (serializeRange t f l) (prefixBytes l.length ++ l.flatMap (enc t)).length := by
  rw [List.length_append]
  refine (advances_write (prefixBytes l.length)).seq ?_
  by_cases ht : t.triviallySerializable = true
  · obtain ⟨he, hflat⟩ := flatMap_objectBytes ht l
    have hsize : (UInt64.ofNat l.length * UInt64.ofNat t.objectSize).toNat = l.length * t.objectSize := by
      rw [← UInt64.ofNat_mul, UInt64.toNat_ofNat_of_lt' (Nat.lt_trans hlen (by decide))]
    simp only [ht, if_true, hsize, he]
    rw [List.take_of_length_le (Nat.le_of_eq (length_flatMap_const fun v _ => length_enc_flat hflat v))]
    exact advances_write _
  · rw [Bool.not_eq_true] at ht
    simp only [ht, Bool.false_eq_true, if_false]
    exact advances_foldlM l (h ht)

mutual

theorem serialize_advances : ∀ (t : Ty) (v : Val t), t.sized = true →
    Advances (serialize grants t v) (enc t v).length
  | .scalar k, v, _ => advances_write (objectBytes (.scalar k) v)
  | .float, v, _ => advances_write (toBytes (show BitVec (8 * 4) from v))
  | .double, v, _ => advances_write (toBytes (show BitVec (8 * 8) from v))
  | .pair t u, (a, b), h => by
    obtain ⟨ht, hu⟩ := Bool.and_eq_true_iff.mp h
    rw [enc, List.length_append]
    exact (serialize_advances t a ht).seq (serialize_advances u b hu)
  | .tuple ts, vs, h => serializeAll_advances ts vs h
  | .visitable ts, vs, h => by
    have hseq := (advances_realloc grants (calculate ts vs)).seq (serializeAll_advances ts vs h)
    rw [Nat.zero_add] at hseq
    exact hseq
  | .carray t _, v, h => by
    obtain ⟨hn, ht⟩ := Bool.and_eq_true_iff.mp h
    refine advances_range ?_ fun _ w _ => serialize_advances t w ht
    rw [v.2]
    exact of_decide_eq_true hn
  | .array t _, v, h => by
    obtain ⟨hn, ht⟩ := Bool.and_eq_true_iff.mp h
    refine advances_range ?_ fun _ w _ => serialize_advances t w ht
    rw [v.2]
    exact of_decide_eq_true hn
  | .string, v, _ => advances_range (t := char) v.2 fun _ w _ => advances_write (objectBytes char w)
  | .container t, v, h => advances_range v.2 fun _ w _ => serialize_advances t w h

theorem serializeAll_advances : ∀ (ts : Tys) (vs : Vals ts), ts.sized = true →
    Advances (serializeAll grants ts vs) (encs ts vs).length
  | .nil, _, _ => fun _ _ h => by
    obtain rfl := Except.ok.inj h
    rfl
  | .cons t ts, (v, vs), h => by
    obtain ⟨ht, hts⟩ := Bool.and_eq_true_iff.mp h
    rw [encs, List.length_append]
    exact (serialize_advances t v ht).seq (serializeAll_advances ts vs hts)

end

/-- **The bytes produced are the encoding**, for a call on an empty buffer that returns. -/
theorem buf_of_operator {a : Args} (ha : a.types.supported = true) {s : BinarySerializer}
    (h : operator grants a (new [] (by decide)) = .ok s) : s.buf = a.encoding := by
  have hpos : s.pos = a.encoding.length := by
    have hadv := ((advances_realloc grants (calculate a.types a.values)).seq
      (serializeAll_advances grants a.types a.values (a.types.sized_of_supported ha))) _ _ h
    rw [hadv, Nat.zero_add]
    exact Nat.zero_add _
  have hlt : a.encoding.length < 2 ^ 64 := by
    have := s.pos_le
    have := s.size_lt
    omega
  have hspec := operator_spec grants (new [] (by decide)) a (by show 0 + _ < _; omega)
  rw [h] at hspec
  obtain ⟨-, htake, hlen, -⟩ := hspec
  rw [List.take_of_length_le (by rw [hlen]; exact Nat.le_of_eq (Nat.zero_max _))] at htake
  exact htake

end BinarySerializer

end NetworkDriver.Util.Serializer
