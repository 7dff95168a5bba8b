import Mathlib.Algebra.Order.Ring.Nat
import Mathlib.Data.List.Basic
import Mathlib.Tactic.Ring
import NetworkDriver.Library.Results

/-! # Bytes and readers

Numbers as little-endian bytes (`toLE`, `ofLE`), words as bytes (`toBytes`, `ofBytes`) and the bytes
of an array of words (`ofImage`).

A reader consumes a front part of its input: `Decodes m bs a` says that `m` reads exactly `bs`,
whatever stands behind it, and answers `a`.

* `ofLE_toLE`, `ofBytes_toBytes`, `ofImage_flatMap`: what was written is read back.
* `Decodes.bind`: readers in sequence read the concatenation.

`Accepts m enc P` is the converse: what `m` reads is the encoding of its answer, which meets `P`; and
`Refuses m bs e` says that a proper prefix of `bs` is answered with the exception `e`.

`Uses m k` says that `m` takes at least `k` bytes, all from the front of its input, and `Throws`
that its exceptions are expected exactly if what it logs is. -/

namespace NetworkDriver.Library.Codec

open NetworkDriver.Library.Results

theorem length_flatMap_const {α β : Type*} {l : List α} {f : α → List β} {k : ℕ}
    (h : ∀ a ∈ l, (f a).length = k) : (l.flatMap f).length = l.length * k := by
  induction l with
  | nil => simp
  | cons a l ih =>
    have htail := ih fun b hb => h b (List.mem_cons_of_mem _ hb)
    rw [List.flatMap_cons, List.length_append, h a (by simp), htail, List.length_cons, Nat.succ_mul,
      Nat.add_comm]

/-- Blocks of one size can be told apart in their concatenation. -/
theorem prefix_of_flatten {α : Type*} {k : ℕ} (hk : 0 < k) {bs bs' : List (List α)}
    (hbs : ∀ b ∈ bs, b.length = k) (hbs' : ∀ b ∈ bs', b.length = k) (h : bs.flatten <+: bs'.flatten) :
    bs <+: bs' := by
  induction bs generalizing bs' with
  | nil => exact List.nil_prefix
  | cons b bs ih =>
    obtain ⟨hb, hbs⟩ := List.forall_mem_cons.mp hbs
    cases bs' with
    | nil =>
      have hnil : b ++ bs.flatten = [] := List.prefix_nil.mp h
      obtain ⟨rfl, -⟩ := List.append_eq_nil_iff.mp hnil
      exact absurd hb hk.ne
    | cons b' bs' =>
      obtain ⟨hb', hrest'⟩ := List.forall_mem_cons.mp hbs'
      obtain ⟨rest, hrest⟩ := h
      rw [List.flatten_cons, List.flatten_cons, List.append_assoc] at hrest
      obtain ⟨rfl, htail⟩ := List.append_inj hrest (hb.trans hb'.symm)
      exact List.cons_prefix_cons.mpr ⟨rfl, ih hbs hrest' ⟨rest, htail⟩⟩

/-! ### Little-endian numbers -/

/-- The `n` lowest bytes of a number, the lowest first. -/
def toLE : ℕ → ℕ → List UInt8
  | 0, _ => []
  | n + 1, x => UInt8.ofNat x :: toLE n (x / 256)

/-- The number some bytes stand for. -/
def ofLE : List UInt8 → ℕ
  | [] => 0
  | b :: bs => b.toNat + 256 * ofLE bs

@[simp] theorem length_toLE (n x : ℕ) : (toLE n x).length = n := by
  induction n generalizing x with
  | zero => rfl
  | succ n ih => rw [toLE, List.length_cons, ih]

theorem ofLE_toLE (n x : ℕ) : ofLE (toLE n x) = x % 256 ^ n := by
  induction n generalizing x with
  | zero => rw [pow_zero, Nat.mod_one]; rfl
  | succ n ih =>
    rw [toLE, ofLE, ih, pow_succ, Nat.mul_comm (256 ^ n) 256, Nat.mod_mul]
    rfl

theorem ofLE_toLE_of_lt {n x : ℕ} (h : x < 256 ^ n) : ofLE (toLE n x) = x := by
  rw [ofLE_toLE, Nat.mod_eq_of_lt h]

theorem ofLE_lt (bs : List UInt8) : ofLE bs < 256 ^ bs.length := by
  induction bs with
  | nil => exact Nat.one_pos
  | cons b bs ih =>
    have hb := b.toNat_lt
    rw [ofLE, List.length_cons, pow_succ]
    omega

theorem toLE_ofLE (bs : List UInt8) : toLE bs.length (ofLE bs) = bs := by
  induction bs with
  | nil => rfl
  | cons b bs ih =>
    have hb := b.toNat_lt
    have hdiv : (b.toNat + 256 * ofLE bs) / 256 = ofLE bs := by omega
    have hlow : UInt8.ofNat (b.toNat + 256 * ofLE bs) = b := by
      refine UInt8.toNat_inj.mp ?_
      rw [UInt8.toNat_ofNat']
      omega
    rw [List.length_cons, ofLE, toLE, hdiv, ih, hlow]

/-! ### Words -/

/-- The bytes of a word in memory. -/
def toBytes {n : ℕ} (v : BitVec (8 * n)) : List UInt8 := toLE n v.toNat

/-- The word in some bytes of memory. -/
def ofBytes (n : ℕ) (bs : List UInt8) : BitVec (8 * n) := BitVec.ofNat (8 * n) (ofLE bs)

@[simp] theorem length_toBytes {n : ℕ} (v : BitVec (8 * n)) : (toBytes v).length = n := length_toLE n _

theorem ofBytes_toBytes {n : ℕ} (v : BitVec (8 * n)) : ofBytes n (toBytes v) = v := by
  have hlt : v.toNat < 256 ^ n := by
    rw [show (256 : ℕ) = 2 ^ 8 from rfl, ← pow_mul]
    exact v.isLt
  rw [ofBytes, toBytes, ofLE_toLE_of_lt hlt, BitVec.ofNat_toNat, BitVec.setWidth_eq]

/-- The first `k` words of `n` bytes in some memory. -/
def ofImage (n : ℕ) : ℕ → List UInt8 → List (BitVec (8 * n))
  | 0, _ => []
  | k + 1, bs => ofBytes n (bs.take n) :: ofImage n k (bs.drop n)

@[simp] theorem length_ofImage (n k : ℕ) (bs : List UInt8) : (ofImage n k bs).length = k := by
  induction k generalizing bs with
  | zero => rfl
  | succ k ih => rw [ofImage, List.length_cons, ih]

theorem ofImage_flatMap {n : ℕ} (vs : List (BitVec (8 * n))) :
    ofImage n vs.length (vs.flatMap toBytes) = vs := by
  induction vs with
  | nil => rfl
  | cons v vs ih =>
    rw [List.length_cons, ofImage, List.flatMap_cons, List.take_left' (length_toBytes v),
      List.drop_left' (length_toBytes v), ofBytes_toBytes, ih]

theorem toBytes_ofBytes (bs : List UInt8) : toBytes (ofBytes bs.length bs) = bs := by
  have hlt := ofLE_lt bs
  rw [show (256 : ℕ) = 2 ^ 8 from rfl, ← pow_mul] at hlt
  rw [toBytes, ofBytes, BitVec.toNat_ofNat, Nat.mod_eq_of_lt hlt, toLE_ofLE]

theorem flatMap_ofImage {n k : ℕ} {bs : List UInt8} (h : bs.length = k * n) :
    (ofImage n k bs).flatMap toBytes = bs := by
  induction k generalizing bs with
  | zero =>
    rw [Nat.zero_mul] at h
    rw [List.eq_nil_of_length_eq_zero h]
    rfl
  | succ k ih =>
    rw [Nat.succ_mul] at h
    have hfront : (bs.take n).length = n := by
      rw [List.length_take]
      omega
    have hback : (bs.drop n).length = k * n := by
      rw [List.length_drop]
      omega
    have hword := toBytes_ofBytes (bs.take n)
    rw [hfront] at hword
    rw [ofImage, List.flatMap_cons, ih hback, hword, List.take_append_drop]

theorem length_flatMap_toBytes {n : ℕ} (vs : List (BitVec (8 * n))) :
    (vs.flatMap toBytes).length = vs.length * n := length_flatMap_const fun v _ => length_toBytes v

/-! ### Readers -/

section Readers

variable {ε α β : Type}

/-- `m` reads exactly `bs` and answers `a`. -/
def Decodes (m : StateT (List UInt8) (Except ε) α) (bs : List UInt8) (a : α) : Prop :=
  ∀ rest, m (bs ++ rest) = .ok (a, rest)

theorem Decodes.pure (a : α) : Decodes (Pure.pure a : StateT (List UInt8) (Except ε) α) [] a :=
  fun _ => rfl

theorem Decodes.of_eq {m : StateT (List UInt8) (Except ε) α} {bs : List UInt8} {a b : α}
    (h : Decodes m bs a) (e : a = b) : Decodes m bs b := e ▸ h

/-- **Readers in sequence.** -/
theorem Decodes.bind {m : StateT (List UInt8) (Except ε) α} {f : α → StateT (List UInt8) (Except ε) β}
    {bs bs' : List UInt8} {a : α} {b : β} (h : Decodes m bs a) (h' : Decodes (f a) bs' b) :
    Decodes (m >>= f) (bs ++ bs') b := by
  intro rest
  have hm := h (bs' ++ rest)
  rw [← List.append_assoc] at hm
  show (m (bs ++ bs' ++ rest) >>= fun p => f p.1 p.2) = _
  rw [hm]
  exact h' rest

theorem Decodes.map {m : StateT (List UInt8) (Except ε) α} {bs : List UInt8} {a : α} (f : α → β)
    (h : Decodes m bs a) : Decodes (f <$> m) bs (f a) := by
  intro rest
  show (m (bs ++ rest) >>= fun p => Except.ok (f p.1, p.2)) = _
  rw [h rest]
  rfl

theorem Decodes.bind_pure {m : StateT (List UInt8) (Except ε) α} {bs : List UInt8} {a : α} {f : α → β}
    {b : β} (h : Decodes m bs a) (e : f a = b) : Decodes (m >>= fun a => Pure.pure (f a)) bs b :=
  (h.map f).of_eq e

/-- A reader for each element of a list, in order: the list keeps its length. -/
def readAll (f : α → StateT (List UInt8) (Except ε) α) :
    (l : List α) → StateT (List UInt8) (Except ε) { l' : List α // l'.length = l.length }
  | [] => Pure.pure ⟨[], rfl⟩
  | a :: l => do
    let a' ← f a
    let l' ← readAll f l
    Pure.pure ⟨a' :: l'.1, by rw [List.length_cons, List.length_cons, l'.2]⟩

theorem decodes_readAll {f : α → StateT (List UInt8) (Except ε) α} {enc : α → List UInt8} (vs : List α) :
    ∀ (l : List α) (hl : vs.length = l.length), (∀ a, ∀ v ∈ vs, Decodes (f a) (enc v) v) →
      Decodes (readAll f l) (vs.flatMap enc) ⟨vs, hl⟩ := by
  induction vs with
  | nil =>
    intro l hl _
    obtain rfl := List.length_eq_zero_iff.mp hl.symm
    exact Decodes.pure _
  | cons v vs ih =>
    intro l hl h
    rcases l with _ | ⟨a, l⟩
    · simp at hl
    · have hrest := ih l (Nat.succ.inj hl) fun a v hv => h a v (List.mem_cons_of_mem _ hv)
      intro rest
      have hhead := h a v (by simp) (vs.flatMap enc ++ rest)
      have htail := hrest rest
      rw [List.flatMap_cons, List.append_assoc]
      simp only [readAll, bind, StateT.bind, Except.bind, hhead, htail]
      rfl

/-- `m` takes at least `k` bytes from the front of the input. -/
def Uses (m : StateT (List UInt8) (Except ε) α) (k : ℕ) : Prop :=
  ∀ bytes a rest, m bytes = .ok (a, rest) → rest <:+ bytes ∧ k + rest.length ≤ bytes.length

theorem bind_ok {m : StateT (List UInt8) (Except ε) α} {f : α → StateT (List UInt8) (Except ε) β}
    {bytes rest : List UInt8} {b : β} (h : (m >>= f) bytes = .ok (b, rest)) :
    ∃ a mid, m bytes = .ok (a, mid) ∧ f a mid = .ok (b, rest) := by
  obtain ⟨⟨a, mid⟩, hm, hf⟩ := bind_eq_ok.mp h
  exact ⟨a, mid, hm, hf⟩

theorem Uses.pure (a : α) : Uses (Pure.pure a : StateT (List UInt8) (Except ε) α) 0 := by
  intro bytes b rest h
  obtain ⟨-, rfl⟩ := Prod.mk.inj (Except.ok.inj h)
  exact ⟨List.suffix_rfl, by omega⟩

theorem Uses.throw (e : ε) (k : ℕ) : Uses (MonadExcept.throw e : StateT (List UInt8) (Except ε) α) k := by
  intro bytes b rest h
  cases h

theorem Uses.bind {m : StateT (List UInt8) (Except ε) α} {f : α → StateT (List UInt8) (Except ε) β}
    {k k' : ℕ} (h : Uses m k) (h' : ∀ a, Uses (f a) k') : Uses (m >>= f) (k + k') := by
  intro bytes b rest hb
  obtain ⟨a, mid, hm, hf⟩ := bind_ok hb
  obtain ⟨hmid, hk⟩ := h bytes a mid hm
  obtain ⟨hrest, hk'⟩ := h' a mid b rest hf
  exact ⟨hrest.trans hmid, by omega⟩

theorem Uses.mono {m : StateT (List UInt8) (Except ε) α} {k k' : ℕ} (h : Uses m k) (hk : k' ≤ k) :
    Uses m k' :=
  fun bytes a rest hb => ⟨(h bytes a rest hb).1, by have := (h bytes a rest hb).2; omega⟩

theorem uses_readAll {f : α → StateT (List UInt8) (Except ε) α} (h : ∀ a, Uses (f a) 0) (l : List α) :
    Uses (readAll f l) 0 := by
  induction l with
  | nil => exact Uses.pure _
  | cons a l ih => exact (h a).bind fun a' => ih.bind fun l' => Uses.pure _

/-! ### What is accepted -/

/-- What `m` reads is the encoding of its answer, and the answer meets `P`. -/
def Accepts (m : StateT (List UInt8) (Except ε) α) (enc : α → List UInt8) (P : α → Prop) : Prop :=
  ∀ bytes a rest, m bytes = .ok (a, rest) → bytes = enc a ++ rest ∧ P a

theorem Accepts.pure (a : α) : Accepts (Pure.pure a : StateT (List UInt8) (Except ε) α) (fun _ => [])
    fun b => b = a := by
  intro bytes b rest h
  obtain ⟨rfl, rfl⟩ := Prod.mk.inj (Except.ok.inj h)
  exact ⟨rfl, rfl⟩

theorem accepts_readAll {f : α → StateT (List UInt8) (Except ε) α} {enc : α → List UInt8}
    {P : α → Prop} (h : ∀ a, Accepts (f a) enc P) (l : List α) :
    Accepts (readAll f l) (fun l' => l'.1.flatMap enc) fun l' => ∀ a ∈ l'.1, P a := by
  induction l with
  | nil =>
    intro bytes l' rest hread
    obtain ⟨rfl, rfl⟩ := Prod.mk.inj (Except.ok.inj hread)
    exact ⟨rfl, fun a ha => absurd ha List.not_mem_nil⟩
  | cons a l ih =>
    intro bytes l' rest hread
    obtain ⟨a', mid, ha, hread⟩ := bind_ok hread
    obtain ⟨l₁, rest₁, hl, hread⟩ := bind_ok hread
    obtain ⟨rfl, rfl⟩ := Prod.mk.inj (Except.ok.inj hread)
    obtain ⟨rfl, hPa⟩ := h a bytes a' mid ha
    obtain ⟨rfl, hPl⟩ := ih mid l₁ rest₁ hl
    refine ⟨?_, List.forall_mem_cons.mpr ⟨hPa, hPl⟩⟩
    dsimp only
    rw [List.flatMap_cons, List.append_assoc]

/-- A proper prefix of `bs` is answered with the exception `e`. -/
def Refuses (m : StateT (List UInt8) (Except ε) α) (bs : List UInt8) (e : ε) : Prop :=
  ∀ bytes, bytes <+: bs → bytes ≠ bs → m bytes = .error e

theorem Refuses.nil (m : StateT (List UInt8) (Except ε) α) (e : ε) : Refuses m [] e :=
  fun _ hp hne => absurd (List.prefix_nil.mp hp) hne

/-- **Readers in sequence** refuse what ends in the first or in the second. -/
theorem Refuses.bind {m : StateT (List UInt8) (Except ε) α} {f : α → StateT (List UInt8) (Except ε) β}
    {bs bs' : List UInt8} {a : α} {e : ε} (hm : Refuses m bs e) (ha : Decodes m bs a)
    (hf : Refuses (f a) bs' e) : Refuses (m >>= f) (bs ++ bs') e := by
  rintro bytes ⟨r, hr⟩ hne
  show (m bytes >>= fun x => f x.1 x.2) = _
  rcases List.append_eq_append_iff.mp hr with ⟨q, rfl, rfl⟩ | ⟨q, rfl, rfl⟩
  · by_cases hq : q = []
    · -- the first reader has all it needs, and the second nothing at all
      subst hq
      rw [List.append_nil] at ha hne
      have hread := ha []
      rw [List.append_nil] at hread
      rw [hread]
      refine hf [] List.nil_prefix fun hnil => hne ?_
      rw [← hnil, List.append_nil]
    · rw [hm bytes (List.prefix_append bytes q) fun hall => hq (List.self_eq_append_right.mp hall)]
      rfl
  · rw [ha q]
    exact hf q (List.prefix_append q r) fun hall => hne (by rw [← hall])

theorem Refuses.map {m : StateT (List UInt8) (Except ε) α} {bs : List UInt8} {e : ε} (f : α → β)
    (h : Refuses m bs e) : Refuses (m >>= fun a => Pure.pure (f a)) bs e := by
  intro bytes hp hne
  show (m bytes >>= fun x => Except.ok (f x.1, x.2)) = _
  rw [h bytes hp hne]
  rfl

theorem refuses_readAll {f : α → StateT (List UInt8) (Except ε) α} {enc : α → List UInt8} {e : ε}
    (vs : List α) : ∀ (l : List α), vs.length = l.length →
      (∀ a, ∀ v ∈ vs, Decodes (f a) (enc v) v ∧ Refuses (f a) (enc v) e) →
        Refuses (readAll f l) (vs.flatMap enc) e := by
  induction vs with
  | nil => exact fun l _ _ => Refuses.nil _ e
  | cons v vs ih =>
    intro l hl h
    rcases l with _ | ⟨a, l⟩
    · simp at hl
    · have hhead := h a v (by simp)
      have htail := ih l (Nat.succ.inj hl) fun a v hv => h a v (List.mem_cons_of_mem _ hv)
      exact hhead.2.bind hhead.1 (htail.map _)

/-! ### Logs -/

variable {L : Type}

/-- What is logged after a reader that returned. -/
def andThen (r : Except ε (α × List UInt8)) (log : α → List UInt8 → List L) : List L :=
  match r with
  | .ok (a, rest) => log a rest
  | .error _ => []

/-- The log of a reader for each element of a list. -/
def logAll (f : α → StateT (List UInt8) (Except ε) α) (log : α → List UInt8 → List L) :
    List α → List UInt8 → List L
  | [], _ => []
  | a :: l, bytes => log a bytes ++ andThen (f a bytes) fun _ rest => logAll f log l rest

variable {Q : ε → Prop} {P : L → Prop}

/-- The exceptions of `m` are in `Q` exactly if what it logs is in `P`. -/
def Throws (Q : ε → Prop) (P : L → Prop) (m : StateT (List UInt8) (Except ε) α)
    (log : List UInt8 → List L) : Prop :=
  ∀ bytes, (∀ e, m bytes = .error e → Q e) ↔ ∀ x ∈ log bytes, P x

theorem Throws.pure (a : α) : Throws Q P (Pure.pure a) fun _ => [] :=
  fun _ => iff_of_true (fun _ h => by cases h) (by simp)

/-- **Readers in sequence** log one after the other. -/
theorem Throws.bind {m : StateT (List UInt8) (Except ε) α} {f : α → StateT (List UInt8) (Except ε) β}
    {log : List UInt8 → List L} {log' : α → List UInt8 → List L} (h : Throws Q P m log)
    (h' : ∀ a, Throws Q P (f a) (log' a)) :
    Throws Q P (m >>= f) fun bytes => log bytes ++ andThen (m bytes) log' := by
  intro bytes
  have hm := h bytes
  rw [List.forall_mem_append, ← hm]
  change (∀ e, (m bytes >>= fun p => f p.1 p.2) = .error e → Q e) ↔ _
  cases hr : m bytes with
  | error e =>
    change (∀ e', (Except.error e : Except ε (β × List UInt8)) = .error e' → Q e') ↔ _
    simp [andThen]
  | ok p =>
    change (∀ e', f p.1 p.2 = .error e' → Q e') ↔ _
    rw [h' p.1 p.2]
    simp [andThen]

theorem Throws.bind_pure {m : StateT (List UInt8) (Except ε) α} {log : List UInt8 → List L}
    (h : Throws Q P m log) (f : α → β) : Throws Q P (m >>= fun a => Pure.pure (f a)) log := by
  intro bytes
  rw [← h bytes]
  change (∀ e, (m bytes >>= fun p => Except.ok (f p.1, p.2)) = .error e → Q e) ↔ _
  cases m bytes with
  | error e =>
    change (∀ e', (Except.error e : Except ε (β × List UInt8)) = .error e' → Q e') ↔ _
    simp
  | ok p =>
    change (∀ e', (Except.ok (f p.1, p.2) : Except ε (β × List UInt8)) = .error e' → Q e') ↔ _
    simp

theorem throws_readAll {f : α → StateT (List UInt8) (Except ε) α} {log : α → List UInt8 → List L}
    (h : ∀ a, Throws Q P (f a) (log a)) (l : List α) : Throws Q P (readAll f l) (logAll f log l) := by
  induction l with
  | nil => exact Throws.pure _
  | cons a l ih => exact (h a).bind fun a' => ih.bind_pure _

/-- A log of which every entry is in `P`, whatever the input. -/
theorem forall_mem_andThen {r : Except ε (α × List UInt8)} {log : α → List UInt8 → List L}
    (h : ∀ a rest, ∀ x ∈ log a rest, P x) : ∀ x ∈ andThen r log, P x := by
  cases r with
  | error e => simp [andThen]
  | ok p => exact h p.1 p.2

theorem forall_mem_logAll {f : α → StateT (List UInt8) (Except ε) α} {log : α → List UInt8 → List L}
    (h : ∀ a bytes, ∀ x ∈ log a bytes, P x) (l : List α) (bytes : List UInt8) :
    ∀ x ∈ logAll f log l bytes, P x := by
  induction l generalizing bytes with
  | nil => simp [logAll]
  | cons a l ih =>
    exact List.forall_mem_append.mpr ⟨h a bytes, forall_mem_andThen fun _ rest => ih rest⟩

end Readers

end NetworkDriver.Library.Codec
