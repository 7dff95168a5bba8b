import NetworkDriver.Net.StreamTransport.Uring.Model

/-! # What callbacks change under io_uring

Under io_uring a registration submits, so that the manager part changes together with what the rest of
the transport is at that time (`Fresh`).

* `Callable`: what some calls keep, the callbacks that make them keep, and with them `fetch_more_data`
  and what follows the result of a read.
* `Rule`: an invariant of the primitive changes is one of registrations, and so of all calls; of a
  completion, if what the handler makes of the result keeps it (`Rule.dispatch`). -/

namespace NetworkDriver.Net.StreamTransport.Uring.Callbacks

open NetworkDriver.Net.Types NetworkDriver.Net.Multiplexer.Base
open NetworkDriver.Net.Multiplexer.Uring.Model NetworkDriver.Net.Multiplexer.Uring.Submissions
open NetworkDriver.Net.StreamTransport.Model hiding Event
open NetworkDriver.Net.StreamTransport.Callbacks NetworkDriver.Net.StreamTransport.Uring.Model
open StreamTransportBase

variable {σ : Type}

/-- The submissions that a transport makes. -/
inductive Fresh (t : Stream σ) : Entry → Prop
  | read : Fresh t (.read t.received t.readBufferSize)
  | writev : Fresh t (.prepared t.manager.array t.iovecs.length)
  | poll (op : Operation) : served op ≠ op → Fresh t (.poll op)

/-- One more entry. -/
def appended (entry : Entry) (t : Stream σ) : Stream σ :=
  { t with manager := { t.manager with entries := t.manager.entries ++ [entry] } }

/-! ### Calls -/

/-- **The calls in `A` keep `I`.** -/
structure Callable (reg : Register Line σ) (A : Call → Prop) (I : Stream σ → Prop) : Prop where
  nextLayer : ∀ s t, I t → I { t with nextLayer := s }
  call : ∀ c t, A c → I t → I (t.call reg c)

section Callable

variable {reg : Register Line σ} {A : Call → Prop} {I : Stream σ → Prop} (h : Callable reg A I)

include h

theorem Callable.calls {cs : List Call} (hcs : ∀ c ∈ cs, A c) {t : Stream σ} (ht : I t) :
    I (cs.foldl (StreamTransportBase.call reg) t) := by
  induction cs generalizing t with
  | nil => exact ht
  | cons c cs ih =>
    have hc : I (t.call reg c) := h.call c t (hcs c List.mem_cons_self) ht
    exact ih (fun c' hc' => hcs c' (List.mem_cons_of_mem c hc')) hc

theorem Callable.callback {answer : σ × List Call × ManagerResult} (ha : ∀ c ∈ answer.2.1, A c)
    {t : Stream σ} (ht : I t) : I (callback reg answer t).2 := h.calls ha (h.nextLayer answer.1 t ht)

variable {app : NextLayer σ}

theorem Callable.fetchMoreData (happ : ∀ s, ∀ c ∈ (app.produce s).2.1, A c) {t : Stream σ} (ht : I t) :
    I (fetchMoreData reg app t).2 := by
  have hloop : ∀ (i : ℕ) (t : Stream σ), I t → I (fetchLoop reg app i t) := by
    intro i
    induction i with
    | zero => exact fun _ ht => ht
    | succ i ih =>
      intro t ht
      unfold fetchLoop
      split_ifs
      · exact ih _ (h.callback (happ _) ht)
      · exact ht
      · exact ht
  exact hloop t.config.maxConsecutiveFetches t ht

/-- **The result of a read**, if `I` does not speak about the read side. -/
theorem Callable.afterRead (hframe : ∀ (t : Stream σ) received consumed verdicts, I t →
      I { t with
        received := received
        trace := { t.trace with consumed := consumed, verdicts := verdicts } })
    (happ : ∀ s span, ∀ c ∈ (app.consume s span).2.1, A c) (res : ℤ) (temporary : Bool) {t : Stream σ}
    (ht : I t) : I (handleReadResult reg app res temporary t).2 := by
  unfold handleReadResult
  dsimp only
  split_ifs
  · exact ht
  · exact ht
  · exact ht
  · have hconsume : I (consume reg app (t.readBuffer.take (t.received + res.toNat))
        { t with received := t.received + res.toNat }).2 := h.callback (happ _ _) (hframe t _ _ _ ht)
    generalize consume reg app _ _ = o at hconsume ⊢
    obtain ⟨v, t'⟩ := o
    cases v with
    | error => exact hconsume
    | ok => exact hframe t' 0 t'.trace.consumed t'.trace.verdicts hconsume
    | done => exact hframe t' 0 t'.trace.consumed t'.trace.verdicts hconsume
    | temporaryError => exact hframe t' 0 t'.trace.consumed t'.trace.verdicts hconsume
  · exact hframe t _ t.trace.consumed t.trace.verdicts ht

end Callable

/-! ### Submissions and registrations -/

section Port

variable {I : Stream σ → Prop} (hport : ∀ port t, I t → I { t with manager := { t.manager with port := port } })

include hport

theorem submitBy_keeps {f : Manager → Ring → (Bool × UInt64) × Ring} {entry : Entry} {t : Stream σ}
    (ht : I t) (hentry : I (appended entry t)) : I (submitBy f entry t).2 := by
  unfold submitBy
  dsimp only
  cases (f t.manager.port.mgr t.manager.port.ring).1.1 with
  | false => exact hport _ t ht
  | true => exact hport _ _ hentry

theorem enableBy_keeps {virt : Operation → Stream σ → ManagerResult × Stream σ} {op : Operation}
    {t : Stream σ} (ht : I t)
    (hvirt : ∀ new, maskAdd t.manager.port.mask op = some new → I (virt op (maskSet new t)).2) :
    I (enableBy virt op t) := by
  unfold enableBy enableWith
  cases hadd : maskAdd t.manager.port.mask op with
  | none => exact ht
  | some new =>
    have hrun := hvirt new hadd
    dsimp only [bind, pure]
    split_ifs
    · exact hrun
    · cases maskDel (virt op (maskSet new t)).2.manager.port.mask op with
      | none => exact hrun
      | some old => exact hport _ _ hrun

theorem settle_keeps (op : Operation) (v : ManagerResult) {t : Stream σ} (ht : I t) : I (settle op v t) := by
  cases v with
  | ok => exact ht
  | error => exact ht
  | done => exact hport _ t ht
  | temporaryError => exact hport _ t ht

end Port

theorem registerBy_keeps {I : Stream σ → Prop} {virt : Operation → Stream σ → ManagerResult × Stream σ}
    {op : Operation} {t : Stream σ} (ht : I t) (henable : I (enableBy virt op t)) :
    I (registerBy virt op t) := by
  unfold registerBy
  split_ifs
  · exact henable
  · exact ht

/-! ### Invariants of the primitive changes -/

/-- **An invariant of the primitive changes.** -/
structure Rule (P : ReceivePolicy → Prop) (I : Stream σ → Prop) : Prop where
  change : ∀ t t', Change P t t' → t'.manager = t.manager → I t → I t'
  port : ∀ port t, I t → I { t with manager := { t.manager with port := port } }
  grow : ∀ t, I t → I (grow t)
  submit : ∀ t entry, Fresh t entry → I t → I (appended entry t)

section Rule

variable {P : ReceivePolicy → Prop} {I : Stream σ → Prop} (h : Rule P I)

include h

theorem Rule.submitBy {f : Manager → Ring → (Bool × UInt64) × Ring} {entry : Entry} {t : Stream σ}
    (hfresh : Fresh t entry) (ht : I t) : I (submitBy f entry t).2 :=
  submitBy_keeps h.port ht (h.submit t entry hfresh ht)

theorem Rule.submitRead {t : Stream σ} (ht : I t) : I (submitRead t).2 := h.submitBy .read ht

theorem Rule.submitWritev {t : Stream σ} (ht : I t) : I (submitWritev t).2 := h.submitBy .writev ht

theorem Rule.emplaced (op : Operation) {t : Stream σ} (ht : I t) : I (emplaced op t) := by
  unfold Uring.Model.emplaced
  split_ifs
  · exact h.grow t ht
  · exact ht

theorem Rule.enableBy {virt : Operation → Stream σ → ManagerResult × Stream σ} {op : Operation}
    (hvirt : ∀ t, I t → I (virt op t).2) {t : Stream σ} (ht : I t) : I (enableBy virt op t) :=
  enableBy_keeps h.port ht fun _ _ => hvirt _ (h.port _ t ht)

theorem Rule.innerRegister (op : Operation) {t : Stream σ} (ht : I t) : I (innerRegister op t) := by
  unfold Uring.Model.innerRegister
  split_ifs
  · exact registerBy_keeps ht (h.enableBy (fun _ => h.submitRead) ht)
  · exact h.emplaced op ht

theorem Rule.callable {reg : Register Line σ} (hreg : ∀ op t, I t → I (reg op t)) :
    Callable reg (Call.Allowed P) I where
  nextLayer s t ht := h.change t _ (.nextLayer s t) rfl ht
  call c t hc ht := by
    cases c with
    | configureNextRead p => exact h.change _ _ (.configureNextRead p t hc) rfl ht
    | enqueue bytes =>
      refine hreg .write _ (h.change _ _ (.pushCopy bytes t) ?_ ht)
      rw [pushCopy_eq]
      rfl
    | enqueueBuffer bytes spare => exact hreg .write _ (h.change _ _ (.pushNew bytes spare t) rfl ht)
    | registerReading => exact hreg .read t ht
    | registerWriting => exact hreg .write t ht

variable {app : NextLayer σ} (happ : NextLayer.Produces P app)

include happ

theorem Rule.enable {reg : Register Line σ} (hreg : ∀ op t, I t → I (reg op t)) (op : Operation)
    {t : Stream σ} (ht : I t) : I (enable reg app op t).2 := by
  have hfetched := (h.callable hreg).fetchMoreData happ ht
  unfold Uring.Model.enable
  dsimp only
  split_ifs
  · exact h.submitRead ht
  · exact hfetched
  · exact h.submitWritev hfetched
  · exact ht

/-- **A registration.** -/
theorem Rule.register (op : Operation) (t : Stream σ) (ht : I t) : I (register app op t) := by
  have hgrown := h.emplaced op ht
  exact registerBy_keeps hgrown
    (h.enableBy (fun _ => h.enable happ (fun op _ => h.innerRegister op) op) hgrown)

theorem Rule.submitWriteAgain {t : Stream σ} (ht : I t) : I (submitWriteAgain app t).2 := by
  have hfetched := (h.callable (h.register happ)).fetchMoreData happ ht
  unfold Uring.Model.submitWriteAgain
  dsimp only
  split_ifs
  · exact hfetched
  · exact h.submitWritev hfetched

/-- **A completion**, by the handler that its operation has. -/
theorem Rule.dispatch {k : ℕ} {op : Operation} {res : ℤ} {bytes : List UInt8} {temporary : Bool}
    {t : Stream σ}
    (hread : op = Operation.read →
      I (handleReadResult (Uring.Model.register app) app res temporary (passed k op bytes t)).2)
    (hwritten : op = Operation.write → I (handleWriteResult res temporary (passed k op bytes t)).2)
    (hpassed : op ≠ Operation.read → op ≠ Operation.write → I (passed k op bytes t)) :
    I (dispatch app k op res bytes temporary t) := by
  suffices hdone : I (handleCompletion app op res temporary (passed k op bytes t)).2 from
    settle_keeps h.port op _ hdone
  unfold handleCompletion
  split_ifs with hr hpoll hw
  · have hresult := hread hr
    generalize handleReadResult (Uring.Model.register app) app res temporary (passed k op bytes t) = o at hresult
    obtain ⟨v, t'⟩ := o
    dsimp only at hresult
    cases v with
    | ok => exact h.submitRead hresult
    | done => exact hresult
    | error => exact hresult
    | temporaryError =>
      exact h.submitBy (f := Ring.submitPollRead) (.poll Operation.pollRead (by decide)) hresult
  · exact h.submitRead (hpassed hr (by rw [hpoll]; decide))
  · have hresult := hwritten hw
    generalize handleWriteResult res temporary (passed k op bytes t) = o at hresult
    obtain ⟨v, t'⟩ := o
    dsimp only at hresult
    cases v with
    | ok => exact h.submitWriteAgain happ hresult
    | done => exact hresult
    | error => exact hresult
    | temporaryError =>
      exact h.submitBy (f := Ring.submitPollWrite) (.poll Operation.pollWrite (by decide)) hresult
  · exact h.submitWriteAgain happ (hpassed hr hw)
  · exact hpassed hr hw

end Rule

end NetworkDriver.Net.StreamTransport.Uring.Callbacks
