import NetworkDriver.Util.Deserializer

/-! # The wire format

What `binary_deserializer` accepts, for types all of whose containers can be resized: the bytes it
reads are the encoding of the value it returns, and it returns every value whose containers the
allocator grants. So the format is a bijection between values and the byte strings accepted, and the
object that a value is read into plays no part.

A message that is cut off is never accepted, whatever its types.

* `deserialize_ok_iff`: which input is accepted, with which answer.
* `truncated_refused`: what happens to a proper prefix of an encoding. -/

namespace NetworkDriver.Util.Canonical

open NetworkDriver.Library.Codec NetworkDriver.Util.Types NetworkDriver.Util.Deserializer

mutual

/-- Every range in the type is a container that can be resized: a `std::array` keeps its last
elements if the encoding has fewer. -/
def Ty.resizable : Ty → Bool
  | .scalar _ => true
  | .float => true
  | .double => true
  | .pair t u => Ty.resizable t && Ty.resizable u
  | .tuple ts => Tys.resizable ts
  | .visitable ts => Tys.resizable ts
  | .carray _ _ => false
  | .array _ _ => false
  | .string => true
  | .container t => Ty.resizable t

def Tys.resizable : Tys → Bool
  | .nil => true
  | .cons t ts => Ty.resizable t && Tys.resizable ts

end

mutual

theorem Ty.supported_of_resizable : ∀ t : Ty, Ty.resizable t = true → t.supported = true
  | .scalar _, _ => rfl
  | .float, _ => rfl
  | .double, _ => rfl
  | .pair t u, h => by
    obtain ⟨ht, hu⟩ := Bool.and_eq_true_iff.mp h
    exact Bool.and_eq_true_iff.mpr ⟨Ty.supported_of_resizable t ht, Ty.supported_of_resizable u hu⟩
  | .tuple ts, h => Tys.supported_of_resizable ts h
  | .visitable ts, h => Tys.supported_of_resizable ts h
  | .carray _ _, h => nomatch h
  | .array _ _, h => nomatch h
  | .string, _ => rfl
  | .container t, h => Ty.supported_of_resizable t h

theorem Tys.supported_of_resizable : ∀ ts : Tys, Tys.resizable ts = true → ts.supported = true
  | .nil, _ => rfl
  | .cons t ts, h => by
    obtain ⟨ht, hts⟩ := Bool.and_eq_true_iff.mp h
    exact Bool.and_eq_true_iff.mpr ⟨Ty.supported_of_resizable t ht, Tys.supported_of_resizable ts hts⟩

end

/-! ### The parts -/

variable {grants : Ty → ℕ → Bool}

theorem accepts_takeBytes (n : ℕ) : Accepts (takeBytes n) id fun bs => bs.length = n := by
  intro bytes bs rest h
  unfold takeBytes at h
  split_ifs at h with hshort
  obtain ⟨rfl, rfl⟩ := Prod.mk.inj (Except.ok.inj h)
  have hlen : (bytes.take n).length = n := by
    rw [List.length_take]
    omega
  exact ⟨(List.take_append_drop n bytes).symm, hlen⟩

theorem accepts_scalar (n : ℕ) : Accepts (deserializeScalar n) toBytes fun _ => True := by
  intro bytes v rest h
  obtain ⟨bs, mid, hbs, h⟩ := bind_ok h
  obtain ⟨rfl, rfl⟩ := Prod.mk.inj (Except.ok.inj h)
  obtain ⟨rfl, rfl⟩ := accepts_takeBytes n bytes bs mid hbs
  exact ⟨by rw [toBytes_ofBytes]; rfl, trivial⟩

theorem accepts_size : Accepts deserializeSize prefixBytes fun _ => True := by
  intro bytes size rest h
  obtain ⟨v, mid, hv, h⟩ := bind_ok h
  obtain ⟨rfl, rfl⟩ := Prod.mk.inj (Except.ok.inj h)
  exact accepts_scalar 8 bytes v mid hv

/-- A `resize` that succeeds was granted and answers as many elements as asked for. -/
theorem resize_ok {t : Ty} {size : ℕ} {l : List (Val t)} {bytes rest : List UInt8}
    {l' : { l : List (Val t) // l.length * t.objectSize < 2 ^ 63 }}
    (h : resize grants t size l bytes = .ok (l', rest)) :
    rest = bytes ∧ l'.1.length = size ∧ grants t size = true := by
  unfold resize at h
  split_ifs at h with hsize hgrant
  · obtain ⟨rfl, rfl⟩ := Prod.mk.inj (Except.ok.inj h)
    refine ⟨rfl, ?_, hgrant⟩
    rw [List.length_append, List.length_take, List.length_replicate]
    omega
  · cases h
  · cases h

/-- As many elements as there are. -/
theorem accepts_elements {t : Ty} {f : Val t → Deserialize (Val t)} {P : Val t → Prop}
    (hf : ∀ a, Accepts (f a) (enc t) P) (hP : t.triviallySerializable = true → ∀ v, P v)
    (l : List (Val t)) (hsize : l.length * t.objectSize < 2 ^ 63) :
    Accepts (deserializeElements t f l.length l) (fun l' => l'.1.flatMap (enc t))
      fun l' => ∀ v ∈ l'.1, P v := by
  intro bytes l' rest h
  unfold deserializeElements deserializeRange at h
  rw [if_neg (lt_irrefl _)] at h
  split_ifs at h with ht
  · refine ⟨?_, fun v _ => hP ht v⟩
    obtain ⟨bs, mid, hbs, h⟩ := bind_ok h
    obtain ⟨rfl, rfl⟩ := Prod.mk.inj (Except.ok.inj h)
    obtain ⟨rfl, hlen⟩ := accepts_takeBytes _ bytes bs mid hbs
    rw [← UInt64.ofNat_mul, UInt64.toNat_ofNat_of_lt' (Nat.lt_trans hsize (by decide))] at hlen
    cases t with
    | scalar k =>
      have himage : (l.flatMap (objectBytes (.scalar k))).drop bs.length = [] := by
        rw [List.drop_eq_nil_iff, hlen]
        exact (length_flatMap_toBytes (n := k.size) l).le
      have hflat : (ofImage k.size l.length bs).flatMap toBytes = bs := flatMap_ofImage hlen
      show bs ++ mid = (ofImage k.size l.length (bs ++ _)).flatMap toBytes ++ mid
      rw [himage, List.append_nil, hflat]
    | _ => simp [Ty.triviallySerializable] at ht
  · obtain ⟨front, mid, hfront, h⟩ := bind_ok h
    obtain ⟨rfl, rfl⟩ := Prod.mk.inj (Except.ok.inj h)
    obtain ⟨rfl, hall⟩ := accepts_readAll hf _ bytes front mid hfront
    have hback : l.drop l.length = [] := List.drop_length
    dsimp only
    rw [hback, List.append_nil]
    exact ⟨rfl, hall⟩

/-- A container that is resized to the number of elements read. -/
theorem accepts_container {t : Ty} {f : Val t → Deserialize (Val t)} {P : Val t → Prop}
    (hf : ∀ a, Accepts (f a) (enc t) P) (hP : t.triviallySerializable = true → ∀ v, P v)
    (old : List (Val t)) :
    Accepts (do
      let size ← deserializeSize
      let l ← resize grants t size old
      let l' ← deserializeElements t f size l.1
      return (⟨l'.1, fits_of_length l'.2 l.2⟩ : { l : List (Val t) // l.length * t.objectSize < 2 ^ 63 }))
      (fun v => prefixBytes v.1.length ++ v.1.flatMap (enc t))
      fun v => grants t v.1.length = true ∧ ∀ w ∈ v.1, P w := by
  intro bytes v rest h
  obtain ⟨size, mid, hsize, h⟩ := bind_ok h
  obtain ⟨l, mid', hl, h⟩ := bind_ok h
  obtain ⟨l', mid'', hl', h⟩ := bind_ok h
  obtain ⟨rfl, rfl⟩ := Prod.mk.inj (Except.ok.inj h)
  obtain ⟨rfl, -⟩ := accepts_size bytes size mid hsize
  obtain ⟨rfl, rfl, hgrant⟩ := resize_ok hl
  obtain ⟨rfl, hall⟩ := accepts_elements hf hP l.1 l.2 _ l' mid'' hl'
  dsimp only
  rw [l'.2, List.append_assoc]
  exact ⟨rfl, hgrant, hall⟩

/-! ### What is accepted -/

mutual

/-- **What is accepted is the encoding of the answer**, of which the allocator granted every
container. -/
theorem deserialize_accepts : ∀ (t : Ty) (old : Val t), Ty.resizable t = true →
    Accepts (deserialize grants t old) (enc t) fun v => granted grants t v = true
  | .scalar k, _, _ => fun bytes v rest h => ⟨(accepts_scalar k.size bytes v rest h).1, rfl⟩
  | .float, _, _ => fun bytes v rest h => ⟨(accepts_scalar 4 bytes v rest h).1, rfl⟩
  | .double, _, _ => fun bytes v rest h => ⟨(accepts_scalar 8 bytes v rest h).1, rfl⟩
  | .pair t u, (a, b), hr => by
    obtain ⟨ht, hu⟩ := Bool.and_eq_true_iff.mp hr
    intro bytes v rest h
    obtain ⟨a', mid, ha, h⟩ := bind_ok h
    obtain ⟨b', mid', hb, h⟩ := bind_ok h
    obtain ⟨rfl, rfl⟩ := Prod.mk.inj (Except.ok.inj h)
    obtain ⟨rfl, hga⟩ := deserialize_accepts t a ht bytes a' mid ha
    obtain ⟨rfl, hgb⟩ := deserialize_accepts u b hu mid b' mid' hb
    exact ⟨(List.append_assoc _ _ _).symm, Bool.and_eq_true_iff.mpr ⟨hga, hgb⟩⟩
  | .tuple ts, old, hr => deserializeAll_accepts ts old hr
  | .visitable ts, old, hr => deserializeAll_accepts ts old hr
  | .carray _ _, _, hr => nomatch hr
  | .array _ _, _, hr => nomatch hr
  | .string, old, _ => by
    intro bytes v rest h
    have hchars := accepts_container (t := char) (P := fun _ => True)
      (fun _ => accepts_scalar 1) (fun _ _ => trivial) (chars old) bytes v rest h
    exact ⟨hchars.1, hchars.2.1⟩
  | .container t, old, hr => by
    intro bytes v rest h
    have htrivial : t.triviallySerializable = true → ∀ w, granted grants t w = true := by
      intro ht w
      cases t with
      | scalar k => rfl
      | _ => simp [Ty.triviallySerializable] at ht
    obtain ⟨hbytes, hgrant, hall⟩ := accepts_container (fun a => deserialize_accepts t a hr) htrivial
      old.1 bytes v rest h
    exact ⟨hbytes, Bool.and_eq_true_iff.mpr ⟨hgrant, List.all_eq_true.mpr hall⟩⟩

theorem deserializeAll_accepts : ∀ (ts : Tys) (old : Vals ts), Tys.resizable ts = true →
    Accepts (deserializeAll grants ts old) (encs ts) fun vs => grantedAll grants ts vs = true
  | .nil, _, _ => by
    intro bytes vs rest h
    obtain ⟨rfl, rfl⟩ := Prod.mk.inj (Except.ok.inj h)
    exact ⟨rfl, rfl⟩
  | .cons t ts, (a, old), hr => by
    obtain ⟨ht, hts⟩ := Bool.and_eq_true_iff.mp hr
    intro bytes vs rest h
    obtain ⟨v, mid, hv, h⟩ := bind_ok h
    obtain ⟨vs', mid', hvs, h⟩ := bind_ok h
    obtain ⟨rfl, rfl⟩ := Prod.mk.inj (Except.ok.inj h)
    obtain ⟨rfl, hgv⟩ := deserialize_accepts t a ht bytes v mid hv
    obtain ⟨rfl, hgvs⟩ := deserializeAll_accepts ts old hts mid vs' mid' hvs
    exact ⟨(List.append_assoc _ _ _).symm, Bool.and_eq_true_iff.mpr ⟨hgv, hgvs⟩⟩

end

/-- **The format.** For types all of whose containers can be resized, an input is accepted if and only
if it starts with the encoding of a value whose containers the allocator grants; the answer is that
value, the rest of the input is left, and what the objects held before plays no part. -/
theorem deserialize_ok_iff (grants : Ty → ℕ → Bool) (ts : Tys) (hr : Tys.resizable ts = true)
    (old vs : Vals ts) (bytes rest : List UInt8) :
    deserializeAll grants ts old bytes = .ok (vs, rest) ↔
      bytes = encs ts vs ++ rest ∧ grantedAll grants ts vs = true := by
  constructor
  · intro h
    exact deserializeAll_accepts ts old hr bytes vs rest h
  · rintro ⟨rfl, hg⟩
    exact deserializeAll_decodes ts old vs (Tys.supported_of_resizable ts hr) hg rest

/-- A 16-bit number, and a container of pairs of a string and a `float`. -/
theorem deserialize_ok_iff_sample :
    deserializeAll (fun _ _ => true) Serializer.BinarySerializer.sampleArgs.types
        (Vals.default Serializer.BinarySerializer.sampleArgs.types)
        [1, 2, 1, 0, 0, 0, 0, 0, 0, 0, 2, 0, 0, 0, 0, 0, 0, 0, 0x61, 0x62, 0, 0, 0x80, 0x3f, 9] =
      .ok (Serializer.BinarySerializer.sampleArgs.values, [9]) :=
  (deserialize_ok_iff (fun _ _ => true) Serializer.BinarySerializer.sampleArgs.types (by decide +kernel)
    _ _ _ [9]).mpr ⟨by decide +kernel, by decide +kernel⟩

/-! ### Messages that are cut off -/

/-- The exception for an input that ends too early. -/
def notEnough : Exception := .runtimeError "Not enough bytes to deserialize T"

theorem refuses_takeBytes (bs : List UInt8) : Refuses (takeBytes bs.length) bs notEnough := by
  intro bytes hp hne
  have hlt : bytes.length < bs.length :=
    lt_of_le_of_ne hp.length_le fun hlen => hne (hp.eq_of_length hlen)
  unfold takeBytes
  rw [if_pos hlt]
  rfl

theorem refuses_scalar {n : ℕ} (v : BitVec (8 * n)) :
    Refuses (deserializeScalar n) (toBytes v) notEnough := by
  have h := (refuses_takeBytes (toBytes v)).map (ofBytes n)
  rw [length_toBytes] at h
  exact h

theorem refuses_size {n : ℕ} (h : n < 2 ^ 64) :
    Refuses deserializeSize (prefixBytes n) notEnough := by
  have hv := (refuses_scalar (n := 8) (BitVec.ofNat _ n)).map BitVec.toNat
  have hn : (BitVec.ofNat (8 * 8) n).toNat = n := by
    rw [BitVec.toNat_ofNat]
    exact Nat.mod_eq_of_lt h
  rw [toBytes, hn] at hv
  exact hv

theorem refuses_elements {t : Ty} {f : Val t → Deserialize (Val t)} {vs l : List (Val t)}
    (hl : vs.length = l.length) (hsize : vs.length * t.objectSize < 2 ^ 63)
    (hf : ∀ a, ∀ v ∈ vs, Decodes (f a) (enc t v) v ∧ Refuses (f a) (enc t v) notEnough) :
    Refuses (deserializeElements t f vs.length l) (vs.flatMap (enc t)) notEnough := by
  unfold deserializeElements deserializeRange
  rw [if_neg (by omega)]
  split_ifs with ht
  · obtain ⟨-, hflat⟩ := Serializer.BinarySerializer.flatMap_objectBytes ht vs
    have hlen : (UInt64.ofNat vs.length * UInt64.ofNat t.objectSize).toNat =
        (vs.flatMap (enc t)).length := by
      rw [← UInt64.ofNat_mul, length_flatMap_const fun v _ => Serializer.length_enc_flat hflat v]
      exact UInt64.toNat_ofNat_of_lt' (Nat.lt_trans hsize (by decide))
    rw [hlen]
    exact (refuses_takeBytes _).map _
  · have hfront : vs.length = (l.take vs.length).length := by rw [hl, List.take_length]
    exact (refuses_readAll vs _ hfront hf).map _

/-- A container that is resized to the number of elements announced. -/
theorem refuses_container {t : Ty} {f : Val t → Deserialize (Val t)} {vs : List (Val t)}
    (hsize : vs.length * t.objectSize < 2 ^ 63) (hlt : vs.length < 2 ^ 64)
    (hg : grants t vs.length = true) (old : List (Val t))
    (hf : ∀ a, ∀ v ∈ vs, Decodes (f a) (enc t v) v ∧ Refuses (f a) (enc t v) notEnough) :
    Refuses (do
      let size ← deserializeSize
      let l ← resize grants t size old
      let l' ← deserializeElements t f size l.1
      return (⟨l'.1, fits_of_length l'.2 l.2⟩ : { l : List (Val t) // l.length * t.objectSize < 2 ^ 63 }))
      (prefixBytes vs.length ++ vs.flatMap (enc t)) notEnough := by
  obtain ⟨l, hl, hresize⟩ := decodes_resize hsize hg old
  refine (refuses_size hlt).bind (decodes_size hlt) ?_
  rw [← List.nil_append (vs.flatMap (enc t))]
  refine (Refuses.nil _ notEnough).bind hresize ?_
  exact (refuses_elements hl.symm hsize hf).map _

mutual

/-- **A proper prefix of an encoding is refused**, at the place where it ends. -/
theorem deserialize_refuses : ∀ (t : Ty) (old v : Val t), t.supported = true →
    granted grants t v = true → Refuses (deserialize grants t old) (enc t v) notEnough
  | .scalar k, _, v, _, _ => refuses_scalar (n := k.size) v
  | .float, _, v, _, _ => refuses_scalar (n := 4) v
  | .double, _, v, _, _ => refuses_scalar (n := 8) v
  | .pair t u, (a, b), (v, w), hs, hg => by
    obtain ⟨hs₁, hs₂⟩ := Bool.and_eq_true_iff.mp hs
    obtain ⟨hg₁, hg₂⟩ := Bool.and_eq_true_iff.mp hg
    exact (deserialize_refuses t a v hs₁ hg₁).bind (deserialize_decodes t a v hs₁ hg₁)
      ((deserialize_refuses u b w hs₂ hg₂).map _)
  | .tuple ts, old, vs, hs, hg => deserializeAll_refuses ts old vs hs hg
  | .visitable ts, old, vs, hs, hg => deserializeAll_refuses ts old vs hs hg
  | .carray _ _, _, _, hs, _ => nomatch hs
  | .array t n, old, v, hs, hg => by
    obtain ⟨hn, hs⟩ := Bool.and_eq_true_iff.mp hs
    have hsize : v.1.length * t.objectSize < 2 ^ 63 := by
      rw [v.2]
      exact of_decide_eq_true hn
    have hlt := length_lt_of_fits hsize
    refine (refuses_size hlt).bind (decodes_size hlt) ?_
    exact (refuses_elements (v.2.trans old.2.symm) hsize fun a w hw =>
      ⟨deserialize_decodes t a w hs (List.all_eq_true.mp hg w hw),
        deserialize_refuses t a w hs (List.all_eq_true.mp hg w hw)⟩).map _
  | .string, old, v, _, hg =>
    refuses_container (t := char) v.2 (length_lt_of_fits (t := char) v.2) hg (chars old) fun _ c _ =>
      ⟨decodes_scalar c, refuses_scalar c⟩
  | .container t, old, v, hs, hg => by
    obtain ⟨hg, hgv⟩ := Bool.and_eq_true_iff.mp hg
    exact refuses_container v.2 (length_lt_of_fits v.2) hg old.1 fun a w hw =>
      ⟨deserialize_decodes t a w hs (List.all_eq_true.mp hgv w hw),
        deserialize_refuses t a w hs (List.all_eq_true.mp hgv w hw)⟩

theorem deserializeAll_refuses : ∀ (ts : Tys) (old vs : Vals ts), ts.supported = true →
    grantedAll grants ts vs = true → Refuses (deserializeAll grants ts old) (encs ts vs) notEnough
  | .nil, _, _, _, _ => Refuses.nil _ _
  | .cons t ts, (a, old), (v, vs), hs, hg => by
    obtain ⟨hs₁, hs₂⟩ := Bool.and_eq_true_iff.mp hs
    obtain ⟨hg₁, hg₂⟩ := Bool.and_eq_true_iff.mp hg
    exact (deserialize_refuses t a v hs₁ hg₁).bind (deserialize_decodes t a v hs₁ hg₁)
      ((deserializeAll_refuses ts old vs hs₂ hg₂).map _)

end

/-- **A message that is cut off is refused.** What a call of the serializer produced is read back only
if all of it has arrived: a proper prefix of it makes the deserializer throw a `std::runtime_error`,
whatever the objects hold. -/
theorem truncated_refused (allocates : ℕ → Bool) (grants : Ty → ℕ → Bool) (a : Args)
    (ha : a.types.supported = true) (hg : grantedAll grants a.types a.values = true)
    (s : Serializer.BinarySerializer)
    (h : Serializer.BinarySerializer.operator allocates a (Serializer.BinarySerializer.new [] (by decide)) =
      .ok s)
    (old : Vals a.types) (bytes : List UInt8) (hp : bytes <+: s.buf) (hne : bytes ≠ s.buf) :
    deserializeAll grants a.types old bytes =
      .error (.runtimeError "Not enough bytes to deserialize T") := by
  rw [Serializer.BinarySerializer.buf_of_operator allocates ha h] at hp hne
  exact deserializeAll_refuses a.types old a.values ha hg bytes hp hne

/-- The last byte is missing. -/
theorem truncated_refused_sample :
    deserializeAll (fun _ _ => true) Serializer.BinarySerializer.sampleArgs.types
        (Vals.default Serializer.BinarySerializer.sampleArgs.types)
        [1, 2, 1, 0, 0, 0, 0, 0, 0, 0, 2, 0, 0, 0, 0, 0, 0, 0, 0x61, 0x62, 0, 0, 0x80] =
      .error (.runtimeError "Not enough bytes to deserialize T") :=
  truncated_refused (fun _ => true) (fun _ _ => true) Serializer.BinarySerializer.sampleArgs
    (by decide +kernel) (by decide +kernel)
    { buf := [1, 2, 1, 0, 0, 0, 0, 0, 0, 0, 2, 0, 0, 0, 0, 0, 0, 0, 0x61, 0x62, 0, 0, 0x80, 0x3f]
      pos := 24
      pos_le := by decide
      size_lt := by decide
      resizes := 1 }
    (by decide +kernel) _ _ ⟨[0x3f], by decide⟩ (by decide)

end NetworkDriver.Util.Canonical
