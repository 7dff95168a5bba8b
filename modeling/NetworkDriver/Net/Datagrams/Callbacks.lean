import NetworkDriver.Net.Datagrams.Model
import Mathlib.Logic.Relation

/-! # What callbacks change

A callback of the next layer reaches its transport through few primitive changes: its own state, a
policy for the next read, a datagram pushed, whatever registering does to the manager part, and, under
io_uring, a datagram submitted. An invariant of these changes is an invariant of callbacks, of
`fetch_more_data` and of registrations (`Registration`). The predicate `P` says which policies may be
configured.

* `eventRegistration`, `uringRegistration`: the registrations of both backends.
* `handleReadResult_keeps`, `readLoop_keeps`: the rules for invariants of the write side.
* `writeLoop_keeps`: the rule for `handle_write_event`. -/

namespace NetworkDriver.Net.Datagrams.Callbacks

open NetworkDriver.Net.Types NetworkDriver.Net.Datagrams.Model DatagramTransport
open NetworkDriver.Net.StreamTransport.Model (TransportConfig)

variable {M σ : Type} {P : ReceivePolicy → Prop}

/-! ### Changes -/

/-- One primitive change. -/
inductive Change (P : ReceivePolicy → Prop) : DatagramTransport M σ → DatagramTransport M σ → Prop
  | manager (m : M) (t) : Change P t { t with manager := m }
  | nextLayer (s : σ) (t) : Change P t { t with nextLayer := s }
  | configureNextRead (p : ReceivePolicy) (t) : P p → Change P t (t.configureNextRead p)
  | push (buf : Buffer) (ep : Endpoint) (heap : ℕ) (cache : List Buffer) (t) :
      Change P t (push buf ep { t with heap := heap, bufferCache := cache })
  | markSubmitted (i : ℕ) (d : Datagram) (id : UInt64) (t) :
      t.writeQueue.elems[i]? = some d → Change P t (t.markSubmitted i d id)

/-- Finitely many primitive changes. -/
abbrev Changes (P : ReceivePolicy → Prop) : DatagramTransport M σ → DatagramTransport M σ → Prop :=
  Relation.ReflTransGen (Change P)

/-- **An invariant of every change is an invariant of all of them.** -/
theorem Changes.keeps {I : DatagramTransport M σ → Prop} (hI : ∀ t t', Change P t t' → I t → I t')
    {t t' : DatagramTransport M σ} (h : Changes P t t') (ht : I t) : I t' := by
  induction h with
  | refl => exact ht
  | tail _ hc ih => exact hI _ _ hc ih

/-- Both ways of enqueueing push a buffer with the bytes, with the heap and the cache changed. -/
theorem alloc_eq (bytes : List UInt8) (capacity : ℕ) (t : DatagramTransport M σ) :
    ∃ buf heap, t.alloc bytes capacity = (buf, { t with heap := heap }) ∧ buf.bytes = bytes := by
  unfold alloc
  split_ifs with h
  · refine ⟨Buffer.null, t.heap, rfl, ?_⟩
    exact (List.eq_nil_of_length_eq_zero (by omega)).symm
  · exact ⟨_, _, rfl, rfl⟩

theorem pushNew_eq (bytes : List UInt8) (capacity : ℕ) (ep : Endpoint) (t : DatagramTransport M σ) :
    ∃ buf heap, t.pushNew bytes capacity ep = push buf ep { t with heap := heap } ∧
      buf.bytes = bytes := by
  obtain ⟨buf, heap, heq, hb⟩ := alloc_eq bytes capacity t
  refine ⟨buf, heap, ?_, hb⟩
  unfold pushNew
  rw [heq]

theorem pushCopy_eq (bytes : List UInt8) (ep : Endpoint) (t : DatagramTransport M σ) :
    ∃ buf heap cache, t.pushCopy bytes ep = push buf ep { t with heap := heap, bufferCache := cache } ∧
      buf.bytes = bytes := by
  have hassign : ∀ buf (t : DatagramTransport M σ), ∃ buf' heap,
      t.assign buf bytes = (buf', { t with heap := heap }) ∧ buf'.bytes = bytes := by
    intro buf t
    unfold assign
    split_ifs
    · exact ⟨_, t.heap, rfl, rfl⟩
    · exact alloc_eq bytes _ t
  unfold pushCopy getBuffer
  cases hc : t.bufferCache with
  | nil =>
    obtain ⟨buf, heap, heq, hb⟩ := hassign Buffer.null t
    refine ⟨buf, heap, t.bufferCache, ?_, hb⟩
    dsimp only
    rw [heq]
  | cons buf₀ rest =>
    obtain ⟨buf, heap, heq, hb⟩ := hassign buf₀ { t with bufferCache := rest }
    refine ⟨buf, heap, rest, ?_, hb⟩
    dsimp only
    rw [heq]

/-! ### Registrations and callbacks -/

/-- Registration with a multiplexer that touches the transport by primitive changes only. -/
structure Registration (P : ReceivePolicy → Prop) (M σ : Type) where
  register : Register M σ
  changes : ∀ op t, Changes P t (register op t)

/-- The registration of the readiness multiplexers. -/
def eventRegistration (σ : Type) : Registration P Operation σ where
  register := eventRegister
  changes op t := by
    unfold eventRegister
    split_ifs
    · exact Relation.ReflTransGen.single (Change.manager _ t)
    · exact Relation.ReflTransGen.refl

/-- The call configures no policy outside `P`. -/
def Call.Allowed (P : ReceivePolicy → Prop) : Call → Prop
  | .configureNextRead p => P p
  | _ => True

/-- The calls of `produce` are allowed. -/
def NextLayer.Produces (P : ReceivePolicy → Prop) (app : NextLayer σ) : Prop :=
  ∀ s, ∀ c ∈ (app.produce s).2.1, Call.Allowed P c

/-- With every policy allowed, so is every call. -/
theorem Call.allowed_true (c : Call) : Call.Allowed (fun _ => True) c := by
  cases c <;> trivial

theorem allowed_true (cs : List Call) : ∀ c ∈ cs, Call.Allowed (fun _ => True) c :=
  fun c _ => Call.allowed_true c

theorem NextLayer.produces_true (app : NextLayer σ) : NextLayer.Produces (fun _ => True) app :=
  fun _ => allowed_true _

variable (r : Registration P M σ)

theorem call_changes (t : DatagramTransport M σ) {c : Call} (hc : Call.Allowed P c) :
    Changes P t (t.call r.register c) := by
  cases c with
  | configureNextRead p => exact Relation.ReflTransGen.single (Change.configureNextRead p t hc)
  | enqueue bytes ep =>
    obtain ⟨buf, heap, cache, heq, -⟩ := pushCopy_eq bytes ep t
    have h := (r.changes .write _).head (Change.push buf ep heap cache t)
    rw [← heq] at h
    exact h
  | enqueueBuffer bytes capacity ep =>
    obtain ⟨buf, heap, heq, -⟩ := pushNew_eq bytes capacity ep t
    have h := (r.changes .write _).head (Change.push buf ep heap t.bufferCache t)
    rw [← heq] at h
    exact h
  | registerReading => exact r.changes .read t
  | registerWriting => exact r.changes .write t

theorem calls_changes (cs : List Call) (hcs : ∀ c ∈ cs, Call.Allowed P c) (t : DatagramTransport M σ) :
    Changes P t (cs.foldl (call r.register) t) := by
  induction cs generalizing t with
  | nil => exact Relation.ReflTransGen.refl
  | cons c cs ih =>
    have hc := call_changes r t (hcs c List.mem_cons_self)
    exact hc.trans (ih (fun c' hc' => hcs c' (List.mem_cons_of_mem c hc')) _)

theorem callback_changes (answer : σ × List Call × ManagerResult)
    (ha : ∀ c ∈ answer.2.1, Call.Allowed P c) (t : DatagramTransport M σ) :
    Changes P t (callback r.register answer t).2 :=
  (calls_changes r _ ha _).head (Change.nextLayer answer.1 t)

variable {app : NextLayer σ}

theorem fetchLoop_changes (happ : NextLayer.Produces P app) (i : ℕ) (t : DatagramTransport M σ) :
    Changes P t (fetchLoop r.register app i t) := by
  induction i generalizing t with
  | zero => exact Relation.ReflTransGen.refl
  | succ i ih =>
    unfold fetchLoop
    split_ifs
    · exact (callback_changes r _ (happ _) t).trans (ih _)
    · exact Relation.ReflTransGen.refl
    · exact Relation.ReflTransGen.refl

theorem fetchMoreData_changes (happ : NextLayer.Produces P app) (t : DatagramTransport M σ) :
    Changes P t (fetchMoreData r.register app t).2 :=
  fetchLoop_changes r happ _ t

/-- An invariant of the changes holds after `init`, if it does not depend on the settings. -/
theorem init_keeps {I : DatagramTransport M σ → Prop} (hI : ∀ t t', Change P t t' → I t → I t')
    (hinit : ∀ s, ∀ c ∈ (app.init s).2.1, Call.Allowed P c) (config : TransportConfig)
    {t : DatagramTransport M σ} (h : I { t with config := config }) :
    I (init r.register app config t).2 :=
  (calls_changes r (app.init t.nextLayer).2.1 (hinit _) _).keeps hI
    (hI _ _ (Change.nextLayer (app.init t.nextLayer).1 { t with config := config }) h)

/-! ### The registrations of io_uring -/

section Uring

variable (port : Port M)

theorem submitLoop_changes (is : List ℕ) (t : DatagramTransport M σ) :
    Changes P t (submitLoop port is t).2 := by
  induction is generalizing t with
  | nil => exact Relation.ReflTransGen.refl
  | cons i is ih =>
    unfold submitLoop
    cases hd : t.writeQueue.elems[i]? with
    | none => exact ih t
    | some d =>
      dsimp only
      by_cases hsub : d.currentlySubmitted = true
      · rw [if_pos hsub]
        exact ih t
      · rw [if_neg hsub]
        set m := (port.submit .write t.manager).2
        have hm : Change P t { t with manager := m } := Change.manager m t
        by_cases hok : (port.submit .write t.manager).1.1 = true
        · rw [if_pos hok]
          have hmark := Change.markSubmitted (P := P) i d (port.submit .write t.manager).1.2
            { t with manager := m } hd
          exact ((ih _).head hmark).head hm
        · rw [if_neg hok]
          exact Relation.ReflTransGen.single hm

theorem submitOther_changes (op : Operation) (t : DatagramTransport M σ) :
    Changes P t (submitOther port op t).2 :=
  Relation.ReflTransGen.single (Change.manager _ t)

theorem submitDatagrams_changes (happ : NextLayer.Produces P app) (t : DatagramTransport M σ) :
    Changes P t (submitDatagrams port r.register app t).2 := by
  have hfetch := fetchMoreData_changes r happ t
  unfold submitDatagrams
  dsimp only
  split_ifs
  · exact hfetch
  · exact hfetch.trans (submitLoop_changes port _ _)

/-- A registration runs `enable` of the transport and changes its mask. -/
theorem registerBy_changes
    {virt : Operation → DatagramTransport M σ → ManagerResult × DatagramTransport M σ}
    (hvirt : ∀ op t, Changes P t (virt op t).2) (op : Operation) (t : DatagramTransport M σ) :
    Changes P t (registerBy port virt op t) := by
  unfold registerBy Multiplexer.Uring.Model.enableWith
  by_cases hmask : port.mask t.manager &&& op = Operation.none
  · rw [if_pos hmask]
    cases Multiplexer.Base.maskAdd (port.mask t.manager) op with
    | none => exact Relation.ReflTransGen.refl
    | some new =>
      have hset : Changes P t { t with manager := port.maskSet new t.manager } :=
        Relation.ReflTransGen.single (Change.manager _ t)
      have hrun := hset.trans (hvirt op { t with manager := port.maskSet new t.manager })
      dsimp only [bind, pure]
      split_ifs
      · exact hrun
      · cases Multiplexer.Base.maskDel (port.mask
            (virt op { t with manager := port.maskSet new t.manager }).2.manager) op with
        | none => exact hrun
        | some old => exact hrun.tail (Change.manager _ _)
  · rw [if_neg hmask]

/-- The registrations inside an `enable`. -/
def innerRegistration : Registration P M σ where
  register := innerRegister port
  changes op t := by
    unfold innerRegister
    split_ifs
    · exact registerBy_changes port (fun _ t => submitOther_changes port .read t) _ t
    · exact Relation.ReflTransGen.refl

theorem uringEnable_changes (happ : NextLayer.Produces P app) (op : Operation)
    (t : DatagramTransport M σ) :
    Changes P t (uringEnable port r.register app op t).2 := by
  unfold uringEnable
  split_ifs
  · exact submitOther_changes port .read t
  · exact submitDatagrams_changes r port happ t
  · exact Relation.ReflTransGen.refl

/-- The registrations of the io_uring transport. -/
def uringRegistration (happ : NextLayer.Produces P app) : Registration P M σ where
  register := uringRegister port app
  changes op t :=
    registerBy_changes port (uringEnable_changes (innerRegistration port) port happ) op t

/-- The poll completions only submit. -/
theorem poll_changes (happ : NextLayer.Produces P app) (t : DatagramTransport M σ) {op : Operation}
    (hop : op = .pollRead ∨ op = .pollWrite) :
    Changes P t (t.handleCompletion port app op 0 false 0).2 := by
  unfold handleCompletion
  rcases hop with rfl | rfl
  · rw [if_neg (by decide), if_pos rfl]
    exact submitOther_changes port .read t
  · rw [if_neg (by decide), if_neg (by decide), if_neg (by decide), if_pos rfl]
    exact submitDatagrams_changes (uringRegistration port happ) port happ t

/-- The rule for the completion of a send. -/
theorem writeCompletion_keeps {I : DatagramTransport M σ → Prop} (happ : NextLayer.Produces P app)
    (hI : ∀ t t', Change P t t' → I t → I t')
    (hresult : ∀ t res temporary it d, I t → I (handleWriteResult res temporary it d t).2) (res : ℤ)
    (temporary : Bool) (id : UInt64) {t : DatagramTransport M σ} (h : I t) :
    I (t.handleCompletion port app .write res temporary id).2 := by
  unfold handleCompletion
  rw [if_neg (by decide), if_neg (by decide), if_pos rfl]
  cases t.writeQueue.elems.findIdx? (·.id = id) with
  | none => exact h
  | some it =>
    dsimp only
    cases t.writeQueue.elems[it]? with
    | none => exact h
    | some d =>
      have hwritten := hresult t res temporary it d h
      dsimp only
      generalize handleWriteResult res temporary it d t = o at hwritten ⊢
      obtain ⟨v, t'⟩ := o
      cases v with
      | ok => exact (submitDatagrams_changes (uringRegistration port happ) port happ t').keeps hI hwritten
      | temporaryError => exact (submitOther_changes port .pollWrite t').keeps hI hwritten
      | done | error => exact hwritten

end Uring

/-! ### The loops of the handlers -/

section Loops

variable {reg : Register M σ} {I : DatagramTransport M σ → Prop}

/-- The rule for `handle_read_result`, if `I` does not speak about the read side. -/
theorem handleReadResult_keeps
    (hconsume : ∀ t span ep, I t → I (callback reg (app.consume t.nextLayer span ep) t).2)
    (hframe : ∀ t received consumed answers, I t →
      I { t with
        received := received
        trace := { t.trace with consumed := consumed, answers := answers } })
    (ep : Endpoint) (readRes : ℤ) (temporary : Bool) {t : DatagramTransport M σ} (h : I t) :
    I (handleReadResult reg app ep readRes temporary t).2 := by
  unfold handleReadResult
  by_cases hneg : readRes < 0
  · rw [if_pos hneg]
    exact h
  · rw [if_neg hneg]
    dsimp only
    by_cases hmin : t.minReadSize ≤ t.received + readRes.toNat
    · rw [if_pos hmin]
      have hcons : I (consume reg app (span { t with received := t.received + readRes.toNat }) ep
          { t with received := t.received + readRes.toNat }).2 :=
        hconsume _ _ ep (hframe t (t.received + readRes.toNat) _ _ h)
      generalize consume reg app _ ep _ = o at hcons ⊢
      obtain ⟨v, t'⟩ := o
      cases v with
      | error => exact hcons
      | ok | done | temporaryError => exact hframe t' 0 t'.trace.consumed t'.trace.answers hcons
    · rw [if_neg hmin]
      exact hframe t _ t.trace.consumed t.trace.answers h

/-- The rule for `handle_read_event`. -/
theorem readLoop_keeps
    (hconsume : ∀ t span ep, I t → I (callback reg (app.consume t.nextLayer span ep) t).2)
    (hframe : ∀ t received consumed answers, I t →
      I { t with
        received := received
        trace := { t.trace with consumed := consumed, answers := answers } })
    (hbuffer : ∀ t buf arrived, I t →
      I { t with readBuffer := buf, trace := { t.trace with arrived := arrived } })
    (n : ℕ) (kernel : List ReadOutcome) {t : DatagramTransport M σ} (h : I t) :
    I (readLoop reg app n kernel t).2 := by
  induction n generalizing kernel t with
  | zero => exact h
  | succ n ih =>
    unfold readLoop
    by_cases hspace : t.readBufferSize = 0
    · rw [if_pos hspace]
      exact h
    · rw [if_neg hspace]
      have hrecv : I (t.recvfrom (kernel.headD (.failed true))).2.2 := by
        cases kernel.headD (.failed true) with
        | datagram source payload => exact hbuffer t _ _ h
        | failed temporary => exact h
      dsimp only
      have hread := handleReadResult_keeps hconsume hframe
        (t.recvfrom (kernel.headD (.failed true))).1 (t.recvfrom (kernel.headD (.failed true))).2.1
        (kernel.headD (.failed true)).temporary hrecv
      generalize handleReadResult reg app _ _ _ _ = o at hread ⊢
      obtain ⟨v, t'⟩ := o
      cases v with
      | ok => exact ih kernel.tail hread
      | error | done | temporaryError => exact hread

/-- The rule for the inner loop of `handle_write_event`: the iterator stays at the first datagram. -/
theorem sendLoop_keeps
    (hsend : ∀ t d outcome, t.writeQueue.elems[0]? = some d → I t →
      I ((t.sendto d outcome).2.2.handleWriteResult (toInt (t.sendto d outcome).1)
        (t.sendto d outcome).2.1 0 d).2)
    (n : ℕ) (kernel : List SendOutcome) {t : DatagramTransport M σ} (h : I t) :
    (sendLoop n 0 kernel t).2.1 = 0 ∧ I (sendLoop n 0 kernel t).2.2.2 := by
  induction n generalizing kernel t with
  | zero => exact ⟨rfl, h⟩
  | succ n ih =>
    unfold sendLoop
    cases hd : t.writeQueue.elems[0]? with
    | none => exact ⟨rfl, h⟩
    | some d =>
      have hstep := hsend t d (kernel.headD (.failed true)) hd h
      dsimp only
      generalize handleWriteResult _ _ _ _ _ = o at hstep ⊢
      obtain ⟨v, t'⟩ := o
      cases v with
      | ok => exact ih kernel.tail hstep
      | done => exact ih kernel.tail hstep
      | error => exact ⟨rfl, hstep⟩
      | temporaryError => exact ⟨rfl, hstep⟩

/-- The rule for one pass of `handle_write_event`. -/
theorem writePass_keeps (hfetch : ∀ t, I t → I (fetchMoreData reg app t).2)
    (hsend : ∀ t d outcome, t.writeQueue.elems[0]? = some d → I t →
      I ((t.sendto d outcome).2.2.handleWriteResult (toInt (t.sendto d outcome).1)
        (t.sendto d outcome).2.1 0 d).2)
    (kernel : List SendOutcome) {t : DatagramTransport M σ} (h : I t) :
    I (writePass reg app kernel t).2.2 := by
  have hfetched := hfetch t h
  unfold writePass
  generalize fetchMoreData reg app t = o at hfetched ⊢
  obtain ⟨v, t'⟩ := o
  have hloop := sendLoop_keeps hsend t'.writeQueue.elems.length kernel hfetched
  cases v with
  | done => exact hfetched
  | ok | error | temporaryError =>
    dsimp only
    generalize sendLoop t'.writeQueue.elems.length 0 kernel t' = o at hloop ⊢
    obtain ⟨_ | verdict, it, kernel', t''⟩ := o
    · obtain rfl : it = 0 := hloop.1
      -- nothing is erased
      have hsame : t''.writeQueue.eraseFront 0 = t''.writeQueue := by
        simp [Library.Slots.Deque.eraseFront]
      dsimp only
      rw [hsame]
      exact hloop.2
    · exact hloop.2

/-- **The rule for `handle_write_event`.** -/
theorem writeLoop_keeps (hfetch : ∀ t, I t → I (fetchMoreData reg app t).2)
    (hsend : ∀ t d outcome, t.writeQueue.elems[0]? = some d → I t →
      I ((t.sendto d outcome).2.2.handleWriteResult (toInt (t.sendto d outcome).1)
        (t.sendto d outcome).2.1 0 d).2)
    (n : ℕ) (kernel : List SendOutcome) {t : DatagramTransport M σ} (h : I t) :
    I (writeLoop reg app n kernel t).2 := by
  induction n generalizing kernel t with
  | zero =>
    have hpass := writePass_keeps hfetch hsend kernel h
    unfold writeLoop
    generalize writePass reg app kernel t = o at hpass ⊢
    obtain ⟨_ | verdict, kernel', t'⟩ := o
    · exact hpass
    · exact hpass
  | succ n ih =>
    have hpass := writePass_keeps hfetch hsend kernel h
    unfold writeLoop
    generalize writePass reg app kernel t = o at hpass ⊢
    obtain ⟨_ | verdict, kernel', t'⟩ := o
    · exact ih kernel' hpass
    · exact hpass

end Loops

end NetworkDriver.Net.Datagrams.Callbacks
