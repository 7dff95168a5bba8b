import NetworkDriver.Net.StreamTransport.Model
import Mathlib.Logic.Relation

/-! # What callbacks change

A callback of the next layer reaches its transport through few primitive changes: its own state, a
policy for the next read, a buffer pushed, and whatever registering does to the manager part. An
invariant of these changes is an invariant of callbacks, of `fetch_more_data` and of whatever a
multiplexer does on registration, as long as that consists of such changes too (`Registration`). The
predicate `P` says which policies may be configured. -/

namespace NetworkDriver.Net.StreamTransport.Callbacks

open NetworkDriver.Library.Vectors NetworkDriver.Net.Types NetworkDriver.Net.StreamTransport.Model
open StreamTransportBase

variable {M σ : Type} {P : ReceivePolicy → Prop}

/-- One primitive change. -/
inductive Change (P : ReceivePolicy → Prop) : StreamTransportBase M σ → StreamTransportBase M σ → Prop
  | manager (m : M) (t) : Change P t { t with manager := m }
  | nextLayer (s : σ) (t) : Change P t { t with nextLayer := s }
  | configureNextRead (p : ReceivePolicy) (t) : P p → Change P t (t.configureNextRead p)
  | pushNew (bytes spare : List UInt8) (t) : Change P t (t.pushNew bytes spare)
  | pushCopy (bytes : List UInt8) (t) : Change P t (t.pushCopy bytes)

/-- Both ways of enqueueing push a buffer, with the memory and the cache changed. -/
theorem pushNew_eq (bytes spare : List UInt8) (t : StreamTransportBase M σ) :
    t.pushNew bytes spare =
      push (t.memory.alloc bytes spare).2 { t with memory := (t.memory.alloc bytes spare).1 } := rfl

theorem pushCopy_eq (bytes : List UInt8) (t : StreamTransportBase M σ) :
    t.pushCopy bytes = push (t.memory.assign (t.bufferCache.headD Vec.null) bytes).2
      { t with
        memory := (t.memory.assign (t.bufferCache.headD Vec.null) bytes).1
        bufferCache := t.bufferCache.tail } := by
  cases hc : t.bufferCache <;> simp [pushCopy, getBuffer, hc]

/-- Finitely many primitive changes. -/
abbrev Changes (P : ReceivePolicy → Prop) :
    StreamTransportBase M σ → StreamTransportBase M σ → Prop := Relation.ReflTransGen (Change P)

/-- **An invariant of every change is an invariant of all of them.** -/
theorem Changes.keeps {I : StreamTransportBase M σ → Prop}
    (hI : ∀ t t', Change P t t' → I t → I t') {t t' : StreamTransportBase M σ} (h : Changes P t t')
    (ht : I t) : I t' := by
  induction h with
  | refl => exact ht
  | tail _ hc ih => exact hI _ _ hc ih

theorem Changes.mono {P Q : ReceivePolicy → Prop} (hPQ : ∀ p, P p → Q p)
    {t t' : StreamTransportBase M σ} (h : Changes P t t') : Changes Q t t' := by
  induction h with
  | refl => exact Relation.ReflTransGen.refl
  | tail _ hc ih =>
    refine ih.tail ?_
    cases hc with
    | manager m => exact Change.manager m _
    | nextLayer s => exact Change.nextLayer s _
    | configureNextRead p _ hp => exact Change.configureNextRead p _ (hPQ p hp)
    | pushNew bytes spare => exact Change.pushNew bytes spare _
    | pushCopy bytes => exact Change.pushCopy bytes _

/-- Registration with a multiplexer that touches the transport by primitive changes only. -/
structure Registration (P : ReceivePolicy → Prop) (M σ : Type) where
  register : Register M σ
  changes : ∀ op t, Changes P t (register op t)

def Registration.weaken {P Q : ReceivePolicy → Prop} (hPQ : ∀ p, P p → Q p)
    (r : Registration P M σ) : Registration Q M σ :=
  ⟨r.register, fun op t => (r.changes op t).mono hPQ⟩

/-- The registration of the readiness multiplexers. -/
def eventRegistration (σ : Type) : Registration P Operation σ where
  register := eventRegister
  changes op t := by
    unfold eventRegister
    split_ifs
    · exact Relation.ReflTransGen.single (Change.manager _ t)
    · exact Relation.ReflTransGen.refl

/-- The call configures no policy outside `P`. -/
def Call.Allowed (P : ReceivePolicy → Prop) : Call → Prop
  | .configureNextRead p => P p
  | _ => True

theorem Call.Allowed.mono {P Q : ReceivePolicy → Prop} (hPQ : ∀ p, P p → Q p) {c : Call}
    (h : Call.Allowed P c) : Call.Allowed Q c := by
  cases c with
  | configureNextRead p => exact hPQ p h
  | _ => trivial

/-- The calls of `produce` are allowed. -/
def NextLayer.Produces (P : ReceivePolicy → Prop) (app : NextLayer σ) : Prop :=
  ∀ s, ∀ c ∈ (app.produce s).2.1, Call.Allowed P c

variable (r : Registration P M σ)

theorem call_changes (t : StreamTransportBase M σ) {c : Call} (hc : Call.Allowed P c) :
    Changes P t (t.call r.register c) := by
  cases c with
  | configureNextRead p => exact Relation.ReflTransGen.single (Change.configureNextRead p t hc)
  | enqueue bytes => exact (r.changes .write _).head (Change.pushCopy bytes t)
  | enqueueBuffer bytes spare => exact (r.changes .write _).head (Change.pushNew bytes spare t)
  | registerReading => exact r.changes .read t
  | registerWriting => exact r.changes .write t

theorem calls_changes (cs : List Call) (hcs : ∀ c ∈ cs, Call.Allowed P c)
    (t : StreamTransportBase M σ) : Changes P t (cs.foldl (call r.register) t) := by
  induction cs generalizing t with
  | nil => exact Relation.ReflTransGen.refl
  | cons c cs ih =>
    have hc := call_changes r t (hcs c (by simp))
    exact hc.trans (ih (fun c' hc' => hcs c' (by simp [hc'])) _)

theorem callback_changes (answer : σ × List Call × ManagerResult)
    (ha : ∀ c ∈ answer.2.1, Call.Allowed P c) (t : StreamTransportBase M σ) :
    Changes P t (callback r.register answer t).2 :=
  (calls_changes r _ ha _).head (Change.nextLayer answer.1 t)

theorem fetchLoop_changes {app : NextLayer σ} (happ : NextLayer.Produces P app) (i : ℕ)
    (t : StreamTransportBase M σ) : Changes P t (fetchLoop r.register app i t) := by
  induction i generalizing t with
  | zero => exact Relation.ReflTransGen.refl
  | succ i ih =>
    unfold fetchLoop
    split_ifs
    · exact (callback_changes r _ (happ _) t).trans (ih _)
    · exact Relation.ReflTransGen.refl
    · exact Relation.ReflTransGen.refl

theorem fetchMoreData_changes {app : NextLayer σ} (happ : NextLayer.Produces P app)
    (t : StreamTransportBase M σ) : Changes P t (fetchMoreData r.register app t).2 :=
  fetchLoop_changes r happ _ t

/-- With every policy allowed, so is every call. -/
theorem Call.allowed_true (c : Call) : Call.Allowed (fun _ => True) c := by
  cases c <;> trivial

theorem NextLayer.produces_true (app : NextLayer σ) : NextLayer.Produces (fun _ => True) app :=
  fun _ c _ => Call.allowed_true c

/-! ### The loops of the handlers -/

section Loops

variable {reg : Register M σ} {app : NextLayer σ} {I : StreamTransportBase M σ → Prop}

/-- The rule for one read, if `I` does not speak about the read side. -/
theorem handleReadResult_keeps
    (hframe : ∀ t received buf delivered consumed verdicts, I t →
      I { t with
        received := received
        readBuffer := buf
        trace := { t.trace with delivered := delivered, consumed := consumed, verdicts := verdicts } })
    (hconsume : ∀ t span, I t → I (callback reg (app.consume t.nextLayer span) t).2)
    (t : StreamTransportBase M σ) (outcome : ReadOutcome) (h : I t) :
    I (handleReadResult reg app (toInt (t.recv outcome).1) outcome.temporary (t.recv outcome).2).2 := by
  have hrecv : I (t.recv outcome).2 := by
    cases outcome with
    | data bytes => exact hframe t _ _ _ t.trace.consumed t.trace.verdicts h
    | closed => exact h
    | failed temporary => exact h
  generalize (t.recv outcome).2 = t at hrecv
  generalize toInt _ = readRes
  have hcons : ∀ span, I (consume reg app span { t with received := t.received + readRes.toNat }).2 :=
    fun span => hconsume _ span
      (hframe t (t.received + readRes.toNat) t.readBuffer t.trace.delivered _ _ hrecv)
  unfold handleReadResult
  dsimp only
  split_ifs
  · exact hrecv
  · exact hrecv
  · exact hrecv
  · have h' := hcons (t.readBuffer.take (t.received + readRes.toNat))
    generalize consume reg app _ _ = o at h' ⊢
    obtain ⟨v, t'⟩ := o
    cases v with
    | error => exact h'
    | ok => exact hframe t' 0 t'.readBuffer t'.trace.delivered t'.trace.consumed t'.trace.verdicts h'
    | done => exact hframe t' 0 t'.readBuffer t'.trace.delivered t'.trace.consumed t'.trace.verdicts h'
    | temporaryError => exact hframe t' 0 t'.readBuffer t'.trace.delivered t'.trace.consumed t'.trace.verdicts h'
  · exact hframe t _ t.readBuffer t.trace.delivered t.trace.consumed t.trace.verdicts hrecv

/-- The rule for `handle_read_event`. -/
theorem readLoop_keeps (hread : ∀ t outcome, I t → I (handleReadResult reg app
      (toInt (t.recv outcome).1) outcome.temporary (t.recv outcome).2).2) (n : ℕ) :
    ∀ (kernel : List ReadOutcome) (t : StreamTransportBase M σ), I t →
      I (readLoop reg app n kernel t).2 := by
  induction n with
  | zero => exact fun _ _ h => h
  | succ n ih =>
    intro kernel t h
    have h' := hread t (kernel.headD (.failed true)) h
    unfold readLoop
    dsimp only
    generalize handleReadResult reg app _ _ _ = o at h' ⊢
    obtain ⟨v, t'⟩ := o
    cases v with
    | ok => exact ih kernel.tail t' h'
    | error => exact h'
    | done => exact h'
    | temporaryError => exact h'

theorem writePass_keeps (hfetch : ∀ t, I t → I (fetchMoreData reg app t).2)
    (hwrite : ∀ t outcome, I t → I ((t.writev outcome).2.handleWriteResult
      (toInt (t.writev outcome).1) outcome.temporary).2) (outcome : WriteOutcome)
    {t : StreamTransportBase M σ} (h : I t) : I (writePass reg app outcome t).2 := by
  have h₁ := hfetch t h
  unfold writePass
  generalize fetchMoreData reg app t = o at h₁ ⊢
  obtain ⟨v, t₁⟩ := o
  have h₂ := hwrite t₁ outcome h₁
  cases v with
  | done => exact h₁
  | ok | error | temporaryError =>
    dsimp only
    generalize (t₁.writev outcome).2.handleWriteResult _ _ = o at h₂ ⊢
    obtain ⟨v, t₂⟩ := o
    cases v <;> exact h₂

/-- The rule for `handle_write_event`. -/
theorem writeLoop_keeps (hfetch : ∀ t, I t → I (fetchMoreData reg app t).2)
    (hwrite : ∀ t outcome, I t → I ((t.writev outcome).2.handleWriteResult
      (toInt (t.writev outcome).1) outcome.temporary).2) (n : ℕ) :
    ∀ (kernel : List WriteOutcome) (t : StreamTransportBase M σ), I t →
      I (writeLoop reg app n kernel t).2 := by
  induction n with
  | zero =>
    intro kernel t h
    have h' := writePass_keeps hfetch hwrite (kernel.headD (.failed true)) h
    unfold writeLoop
    rcases hp : writePass reg app (kernel.headD (.failed true)) t with ⟨_ | verdict, t'⟩
    · rw [hp] at h'
      exact h'
    · rw [hp] at h'
      exact h'
  | succ n ih =>
    intro kernel t h
    have h' := writePass_keeps hfetch hwrite (kernel.headD (.failed true)) h
    unfold writeLoop
    rcases hp : writePass reg app (kernel.headD (.failed true)) t with ⟨_ | verdict, t'⟩
    · rw [hp] at h'
      exact ih kernel.tail t' h'
    · rw [hp] at h'
      exact h'

end Loops

/-! ### The manager part

A relation that every registration keeps between the manager part before and after it is kept by
whatever runs callbacks. -/

section Manager

variable {reg : Register M σ} {app : NextLayer σ} {R : M → M → Prop} [Std.Refl R]

theorem call_manager (hreg : ∀ op t, R t.manager (reg op t).manager) (t : StreamTransportBase M σ)
    (c : Call) : R t.manager (t.call reg c).manager := by
  cases c with
  | configureNextRead p => exact refl_of R _
  | enqueue bytes =>
    have hpush : (t.pushCopy bytes).manager = t.manager := by
      rw [pushCopy_eq]
      rfl
    have h := hreg .write (t.pushCopy bytes)
    rw [hpush] at h
    exact h
  | enqueueBuffer bytes spare => exact hreg .write (t.pushNew bytes spare)
  | registerReading => exact hreg .read t
  | registerWriting => exact hreg .write t

variable [IsTrans M R]

theorem calls_manager (hreg : ∀ op t, R t.manager (reg op t).manager) (cs : List Call)
    (t : StreamTransportBase M σ) : R t.manager (cs.foldl (call reg) t).manager := by
  induction cs generalizing t with
  | nil => exact refl_of R _
  | cons c cs ih => exact IsTrans.trans _ _ _ (call_manager hreg t c) (ih _)

theorem callback_manager (hreg : ∀ op t, R t.manager (reg op t).manager)
    (answer : σ × List Call × ManagerResult) (t : StreamTransportBase M σ) :
    R t.manager (callback reg answer t).2.manager :=
  calls_manager hreg answer.2.1 { t with nextLayer := answer.1 }

variable (app)

theorem fetchLoop_manager (hreg : ∀ op t, R t.manager (reg op t).manager) (i : ℕ)
    (t : StreamTransportBase M σ) : R t.manager (fetchLoop reg app i t).manager := by
  induction i generalizing t with
  | zero => exact refl_of R _
  | succ i ih =>
    unfold fetchLoop
    split_ifs
    · exact IsTrans.trans _ _ _ (callback_manager hreg _ t) (ih _)
    · exact refl_of R _
    · exact refl_of R _

theorem fetchMoreData_manager (hreg : ∀ op t, R t.manager (reg op t).manager)
    (t : StreamTransportBase M σ) : R t.manager (fetchMoreData reg app t).2.manager :=
  fetchLoop_manager app hreg _ t

theorem init_manager (hreg : ∀ op t, R t.manager (reg op t).manager) (config : TransportConfig)
    (t : StreamTransportBase M σ) : R t.manager (init reg app config t).2.manager := by
  have hcalls := calls_manager hreg (app.init t.nextLayer).2.1
    { t with config := config, nextLayer := (app.init t.nextLayer).1 }
  exact hcalls

theorem consume_manager (hreg : ∀ op t, R t.manager (reg op t).manager) (span : List UInt8)
    (t : StreamTransportBase M σ) : R t.manager (consume reg app span t).2.manager :=
  callback_manager hreg (app.consume t.nextLayer span)
    (t.recordSpan span (app.consume t.nextLayer span).2.2)

theorem handleReadResult_manager (hreg : ∀ op t, R t.manager (reg op t).manager) (readRes : ℤ)
    (temporary : Bool) (t : StreamTransportBase M σ) :
    R t.manager (handleReadResult reg app readRes temporary t).2.manager := by
  unfold handleReadResult
  by_cases hneg : readRes < 0
  · rw [if_pos hneg]
    exact refl_of R _
  · rw [if_neg hneg]
    by_cases hzero : readRes = 0
    · rw [if_pos hzero]
      exact refl_of R _
    · rw [if_neg hzero]
      dsimp only
      by_cases hmin : t.minReadSize ≤ t.received + readRes.toNat
      · rw [if_pos hmin]
        have hcons := consume_manager app hreg (t.readBuffer.take (t.received + readRes.toNat))
          { t with received := t.received + readRes.toNat }
        generalize consume reg app _ _ = o at hcons ⊢
        obtain ⟨v, t'⟩ := o
        cases v <;> exact hcons
      · rw [if_neg hmin]
        exact refl_of R _

end Manager

end NetworkDriver.Net.StreamTransport.Callbacks
