import NetworkDriver.Util.Serializer

/-! # Serializer calls compose

Between two calls the buffer holds what was serialized so far, with what is left of its initial
contents behind it, and `free_space_` starts there (`Holds`). A call keeps that whether it
reallocates or not, so that only the values and their order matter, not how they were split into
calls.

* `operator_holds`: one call appends its encoding.
* `batches_compose`: what any sequence of calls leaves. -/

namespace NetworkDriver.Util.Batching

open NetworkDriver.Library.Codec NetworkDriver.Util.Types NetworkDriver.Util.Serializer
open BinarySerializer

/-! ### Batches -/

/-- A value of some type. -/
abbrev Value := (t : Ty) × Val t

/-- The arguments of a call with these values. -/
def argsOf : List Value → Args
  | [] => ⟨.nil, ()⟩
  | ⟨t, v⟩ :: vs => ⟨.cons t (argsOf vs).types, (v, (argsOf vs).values)⟩

/-- `enc(v1) ++ ... ++ enc(vn)`. -/
def encoding (vs : List Value) : List UInt8 := vs.flatMap fun v => enc v.1 v.2

theorem encoding_argsOf (vs : List Value) : (argsOf vs).encoding = encoding vs := by
  induction vs with
  | nil => rfl
  | cons v vs ih =>
    change enc v.1 v.2 ++ (argsOf vs).encoding = _
    rw [ih]
    rfl

theorem sized_argsOf {vs : List Value} (h : ∀ v ∈ vs, v.1.sized = true) :
    (argsOf vs).types.sized = true := by
  induction vs with
  | nil => rfl
  | cons v vs ih =>
    have htail := ih fun w hw => h w (List.mem_cons_of_mem _ hw)
    exact Bool.and_eq_true_iff.mpr ⟨h v (by simp), htail⟩

theorem encoding_append (vs ws : List Value) : encoding (vs ++ ws) = encoding vs ++ encoding ws :=
  List.flatMap_append

/-! ### One call -/

/-- **The invariant between two calls.** -/
structure Holds (init bytes : List UInt8) (s : BinarySerializer) : Prop where
  buf : s.buf = bytes ++ init.drop bytes.length
  pos : s.pos = bytes.length

theorem holds_new (buf : List UInt8) (h : buf.length < 2 ^ 64) : Holds buf [] (new buf h) := ⟨rfl, rfl⟩

variable (grants : ℕ → Bool)

/-- A reallocation keeps what was written, and what lies behind the room asked for. -/
theorem realloc_keeps {s s' : BinarySerializer} {n : UInt64} (hn : s.pos + n.toNat < 2 ^ 64)
    (h : s.realloc grants n = .ok s') :
    s'.pos = s.pos ∧ s'.buf.take s.pos = s.buf.take s.pos ∧ s.pos + n.toNat ≤ s'.buf.length ∧
      s'.buf.drop (s.pos + n.toNat) = s.buf.drop (s.pos + n.toNat) := by
  rcases realloc_spec grants s hn with ⟨s₁, he, hpos, htake, hlen, -⟩ | ⟨he, -⟩
  · rw [he] at h
    obtain rfl := Except.ok.inj h
    refine ⟨hpos, htake, by omega, ?_⟩
    by_cases hfree : s.freeSize < n
    · -- the buffer ends where the room does
      have hshort : s.buf.length ≤ s.pos + n.toNat := by
        have hlt := UInt64.lt_iff_toNat_lt.mp hfree
        rw [toNat_freeSize] at hlt
        omega
      rw [List.drop_of_length_le hshort, List.drop_of_length_le (by omega)]
    · unfold realloc at he
      rw [if_neg hfree] at he
      obtain rfl := Except.ok.inj he
      rfl
  · rw [he] at h
    cases h

/-- **A call that returns appends its encoding.** -/
theorem operator_holds {a : Args} (ha : a.types.sized = true) {init bytes : List UInt8}
    {s s' : BinarySerializer} (hs : Holds init bytes s) (h : operator grants a s = .ok s') :
    Holds init (bytes ++ a.encoding) s' := by
  have hpos : s'.pos = s.pos + a.encoding.length := by
    have hadv := ((advances_realloc grants (calculate a.types a.values)).seq
      (serializeAll_advances grants a.types a.values ha)) _ _ h
    rw [hadv, Nat.zero_add]
    rfl
  have hlt : s.pos + a.encoding.length < 2 ^ 64 := by
    have hle := s'.pos_le
    have hsize := s'.size_lt
    omega
  have hsize : (calculate a.types a.values).toNat = a.encoding.length := toNat_calculate (by omega)
  unfold operator at h
  cases hr : s.realloc grants (calculate a.types a.values) with
  | error e => rw [hr] at h; cases h
  | ok s₁ =>
    obtain ⟨hpos₁, htake, hroom, hdrop⟩ := realloc_keeps grants (by rw [hsize]; exact hlt) hr
    rw [hsize] at hroom hdrop
    rw [hr] at h
    have hfits : s₁.pos + a.encoding.length ≤ s₁.buf.length := by omega
    have hwritten := serializeAll_writes grants a.types a.values
      (by change a.encoding.length < _; omega) s₁ hfits
    change serializeAll grants a.types a.values s₁ = .ok s' at h
    rw [hwritten] at h
    obtain rfl := Except.ok.inj h
    have hbytes : s.buf.take s.pos = bytes := by rw [hs.buf, hs.pos, List.take_left]
    refine ⟨?_, ?_⟩
    · change s₁.buf.take s₁.pos ++ a.encoding ++ s₁.buf.drop (s₁.pos + a.encoding.length) = _
      have hbehind : s.buf.drop (s.pos + a.encoding.length) =
          init.drop (bytes.length + a.encoding.length) := by
        rw [hs.buf, hs.pos, List.drop_append, List.drop_of_length_le (Nat.le_add_right _ _),
          Nat.add_sub_cancel_left, List.drop_drop, List.nil_append]
      rw [hpos₁, htake, hdrop, hbytes, hbehind, List.length_append]
    · rw [hpos, hs.pos, List.length_append]

/-! ### Any number of calls -/

theorem operators_hold {batches : List (List Value)} (hb : ∀ v ∈ batches.flatten, v.1.sized = true)
    {init bytes : List UInt8} {s s' : BinarySerializer} (hs : Holds init bytes s)
    (h : operators grants (batches.map argsOf) s = .ok s') :
    Holds init (bytes ++ encoding batches.flatten) s' := by
  induction batches generalizing bytes s with
  | nil =>
    obtain rfl := Except.ok.inj h
    rw [List.flatten_nil, show encoding [] = [] from rfl, List.append_nil]
    exact hs
  | cons vs batches ih =>
    rw [List.flatten_cons] at hb ⊢
    obtain ⟨hvs, hrest⟩ := List.forall_mem_append.mp hb
    rw [operators, List.map_cons, List.foldlM_cons] at h
    cases ho : operator grants (argsOf vs) s with
    | error e => rw [ho] at h; cases h
    | ok s₁ =>
      rw [ho] at h
      have hstep := operator_holds grants (sized_argsOf hvs) hs ho
      rw [encoding_argsOf] at hstep
      rw [encoding_append, ← List.append_assoc]
      exact ih hrest hstep h

theorem realloc_granted (hg : ∀ n, grants n = true) (s : BinarySerializer) (n : UInt64) :
    s.realloc grants n ≠ .error .resizeFailed := by
  unfold realloc
  dsimp only
  split_ifs with hfree hgrant hspan
  · simp [hg] at hgrant
  · simp
  · simp
  · simp

theorem operator_returns (hg : ∀ n, grants n = true) (a : Args) {s : BinarySerializer}
    (h : s.pos + a.encoding.length < 2 ^ 64) : ∃ s', operator grants a s = .ok s' := by
  have hsize : (calculate a.types a.values).toNat = a.encoding.length := toNat_calculate (by omega)
  rcases realloc_spec grants s (n := calculate a.types a.values) (by omega) with
    ⟨s₁, he, hpos, -, hlen, -⟩ | ⟨he, -⟩
  · rw [hsize] at hlen
    have hwritten := serializeAll_writes grants a.types a.values (by change a.encoding.length < _; omega) s₁
      (by change s₁.pos + a.encoding.length ≤ _; omega)
    unfold operator
    rw [he]
    exact ⟨_, hwritten⟩
  · exact absurd he (realloc_granted grants hg s _)

/-- With an allocator that grants everything, all calls return as long as sizes do not wrap. -/
theorem operators_return {batches : List (List Value)} (hg : ∀ n, grants n = true) {s : BinarySerializer}
    (hlt : s.pos + (encoding batches.flatten).length < 2 ^ 64) :
    ∃ s', operators grants (batches.map argsOf) s = .ok s' := by
  induction batches generalizing s with
  | nil => exact ⟨s, rfl⟩
  | cons vs batches ih =>
    rw [List.flatten_cons, encoding_append, List.length_append] at hlt
    have hlen : (argsOf vs).encoding.length = (encoding vs).length := by rw [encoding_argsOf]
    have hspec := operator_spec grants s (argsOf vs) (by omega)
    rw [operators, List.map_cons, List.foldlM_cons]
    cases ho : operator grants (argsOf vs) s with
    | error e =>
      obtain ⟨s', hs'⟩ := operator_returns grants hg (argsOf vs) (s := s) (by omega)
      rw [ho] at hs'
      cases hs'
    | ok s₁ =>
      rw [ho] at hspec
      have hpos : s₁.pos = s.pos + (encoding vs).length := by
        rw [hspec.1, toNat_calculate (by omega), hlen]
      exact ih (s := s₁) (by omega)

/-- **Serializer calls compose.** Whatever the target buffer holds and however the values are split
into calls: if the calls return, the buffer is the encodings of the values in order, with what is
left of its initial contents behind them, and `free_space_` starts there. They do return if the
allocator grants every `resize`. -/
theorem batches_compose (buf : List UInt8) (hbuf : buf.length < 2 ^ 64) (batches : List (List Value))
    (hb : ∀ v ∈ batches.flatten, v.1.sized = true) :
    (∀ s, operators grants (batches.map argsOf) (new buf hbuf) = .ok s →
      s.buf = encoding batches.flatten ++ buf.drop (encoding batches.flatten).length ∧
        s.buf.length = max buf.length (encoding batches.flatten).length ∧
        s.pos = (encoding batches.flatten).length) ∧
      ((∀ n, grants n = true) → (encoding batches.flatten).length < 2 ^ 64 →
        ∃ s, operators grants (batches.map argsOf) (new buf hbuf) = .ok s) := by
  constructor
  · intro s h
    have hs := operators_hold grants hb (holds_new buf hbuf) h
    rw [List.nil_append] at hs
    refine ⟨hs.buf, ?_, hs.pos⟩
    rw [hs.buf, List.length_append, List.length_drop]
    omega
  · intro hg hlt
    exact operators_return grants hg (s := new buf hbuf) (by change 0 + _ < _; omega)

/-- A number and a string, in one call and in two, to a buffer of twelve bytes. -/
theorem batches_compose_sample :
    (operators (fun _ => true) ([[⟨.scalar (.integral .w16), (0x0201#16 : BitVec (8 * 2))⟩,
        ⟨.string, ⟨[0x61#8], by decide⟩⟩]].map argsOf) (new (List.replicate 12 7) (by decide))).map
        BinarySerializer.buf = .ok [1, 2, 1, 0, 0, 0, 0, 0, 0, 0, 0x61, 7] ∧
      ∃ s, operators (fun _ => true) ([[⟨.scalar (.integral .w16), (0x0201#16 : BitVec (8 * 2))⟩],
        [⟨.string, ⟨[0x61#8], by decide⟩⟩]].map argsOf) (new (List.replicate 12 7) (by decide)) = .ok s := by
  have hone := batches_compose (fun _ => true) (List.replicate 12 7) (by decide)
    [[⟨.scalar (.integral .w16), (0x0201#16 : BitVec (8 * 2))⟩, ⟨.string, ⟨[0x61#8], by decide⟩⟩]]
    (by decide)
  have htwo := batches_compose (fun _ => true) (List.replicate 12 7) (by decide)
    [[⟨.scalar (.integral .w16), (0x0201#16 : BitVec (8 * 2))⟩], [⟨.string, ⟨[0x61#8], by decide⟩⟩]]
    (by decide)
  obtain ⟨s, hs⟩ := hone.2 (fun _ => rfl) (by decide)
  refine ⟨?_, htwo.2 (fun _ => rfl) (by decide)⟩
  rw [hs]
  exact congrArg Except.ok ((hone.1 s hs).1.trans (by decide))

end NetworkDriver.Util.Batching
