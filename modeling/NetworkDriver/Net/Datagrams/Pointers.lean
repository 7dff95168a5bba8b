import NetworkDriver.Net.Datagrams.Callbacks

/-! # The pointers of the datagrams of the io_uring transport

A datagram points to its own address and to its own iovec. `Consistent`: every queued datagram is
where these pointers say, and every submitted `msghdr` described the datagram it was submitted for.
The datagrams are constructed in place, so that only an erasure can break this, and only one in the
middle of the queue does.

* `complete_consistent_iff`: one completion, exactly.
* `consistent_iff`: whole runs, exactly. -/

namespace NetworkDriver.Net.Datagrams.Pointers

open NetworkDriver.Library.Run NetworkDriver.Library.Slots
open NetworkDriver.Net.Types NetworkDriver.Net.Datagrams.Model NetworkDriver.Net.Datagrams.Callbacks
open NetworkDriver.Net.StreamTransport.Model (TransportConfig)
open DatagramTransport

variable {M σ : Type} {P : ReceivePolicy → Prop}

/-! ### Consistency -/

/-- The pointers of a datagram in a slot, and what they point to. -/
structure Fits (slot : ℤ) (d : Datagram) : Prop where
  msgName : d.msgName = slot
  msgIov : d.msgIov = slot
  iov : d.iov = ⟨d.buf.data, d.buf.bytes.length⟩
  addr : d.addr = d.ep

/-- **Every datagram points to itself**, and what was submitted was described by its `msghdr`. -/
structure Consistent (t : DatagramTransport M σ) : Prop where
  placed : Deque.Placed Fits t.writeQueue
  described : ∀ s ∈ t.trace.submissions, s.described = some s.message

theorem fits_makeDatagram (buf : Buffer) (ep : Endpoint) (slot : ℤ) :
    Fits slot (makeDatagram buf ep slot) := ⟨rfl, rfl, rfl, rfl⟩

/-- A datagram fits one slot at most. -/
theorem Fits.unique (slot slot' : ℤ) (d : Datagram) (h : Fits slot d) (h' : Fits slot' d) :
    slot = slot' := h.msgName.symm.trans h'.msgName

/-- The marks of a submission are no pointers. -/
theorem fits_mark (id : UInt64) (submitted : Bool) (slot : ℤ) (d : Datagram) :
    Fits slot { d with id := id, currentlySubmitted := submitted } ↔ Fits slot d :=
  ⟨fun h => ⟨h.msgName, h.msgIov, h.iov, h.addr⟩, fun h => ⟨h.msgName, h.msgIov, h.iov, h.addr⟩⟩

/-- A datagram in its place is described as it is. -/
theorem described_placed {q : Deque Datagram} (h : Deque.Placed Fits q) {i : ℕ} {d : Datagram}
    (hd : q.elems[i]? = some d) : described q d = some d.message := by
  have hfit := h i d hd
  have hself : q.at? (q.slot i) = some d := (Deque.at?_slot q i).trans hd
  unfold described Datagram.message
  rw [hfit.msgName, hfit.msgIov, hself]
  simp [hfit.iov, hfit.addr]

/-! ### Changes -/

/-- No primitive change moves a datagram. -/
theorem placed_change (t t' : DatagramTransport M σ) (hc : Change P t t') :
    Deque.Placed Fits t'.writeQueue ↔ Deque.Placed Fits t.writeQueue := by
  cases hc with
  | manager m => exact Iff.rfl
  | nextLayer s => exact Iff.rfl
  | configureNextRead p => exact Iff.rfl
  | push buf ep heap cache => exact Deque.placed_emplaceBack_iff (fits_makeDatagram buf ep)
  | markSubmitted i d id => exact Deque.placed_modify_iff i fun slot d => fits_mark id true slot d

theorem placed_changes {t t' : DatagramTransport M σ} (hc : Changes P t t') :
    Deque.Placed Fits t'.writeQueue ↔ Deque.Placed Fits t.writeQueue := by
  induction hc with
  | refl => exact Iff.rfl
  | tail _ hc ih => exact (placed_change _ _ hc).trans ih

theorem consistent_change (t t' : DatagramTransport M σ) (hc : Change P t t') (h : Consistent t) :
    Consistent t' := by
  refine ⟨(placed_change t t' hc).mpr h.placed, ?_⟩
  cases hc with
  | manager m => exact h.described
  | nextLayer s => exact h.described
  | configureNextRead p => exact h.described
  | push buf ep heap cache => exact h.described
  | markSubmitted i d id _ hd =>
    intro s hs
    rcases List.mem_append.mp hs with hs | hs
    · exact h.described s hs
    · rw [List.mem_singleton.mp hs]
      exact described_placed h.placed hd

/-- After changes, consistency is what it was. -/
theorem consistent_changes_iff {t t' : DatagramTransport M σ} (hc : Changes P t t')
    (h : ∀ s ∈ t.trace.submissions, s.described = some s.message) :
    Consistent t' ↔ Deque.Placed Fits t.writeQueue := by
  constructor
  · intro h'
    exact (placed_changes hc).mp h'.placed
  · intro hp
    exact hc.keeps consistent_change ⟨hp, h⟩

/-! ### Completions -/

variable (port : Port M) (app : NextLayer σ)

/-- The registrations of the io_uring transport, with any policies. -/
abbrev registration : Registration (fun _ => True) M σ :=
  uringRegistration port (NextLayer.produces_true app)

/-- A completion of a send that finds a datagram and says it was written completely. -/
def Completes (t : DatagramTransport M σ) (res : ℤ) (id : UInt64) (it : ℕ) (d : Datagram) : Prop :=
  t.writeQueue.elems.findIdx? (·.id = id) = some it ∧ t.writeQueue.elems[it]? = some d ∧
    (d.buf.bytes.length : ℤ) ≤ res

/-- The datagram that a completion takes out of the queue is the first or the last one. -/
def InOrder (t : DatagramTransport M σ) : Completion M → Prop
  | .write res _ id => ∀ it d, Completes t res id it d → it = 0 ∨ it + 1 = t.writeQueue.elems.length
  | _ => True

theorem written_writeQueue (t : DatagramTransport M σ) (it : ℕ) (d : Datagram) :
    (t.written it d).writeQueue = t.writeQueue.erase it ∧ (t.written it d).trace = t.trace := by
  unfold written returnBuffer
  dsimp only
  split_ifs <;> exact ⟨rfl, rfl⟩

/-- **A completion of a send** keeps the datagrams in place if and only if it is in order. -/
theorem write_consistent_iff (t : DatagramTransport M σ) (res : ℤ) (temporary : Bool) (id : UInt64)
    (h : Consistent t) :
    Consistent (t.handleCompletion port app .write res temporary id).2 ↔
      ∀ it d, Completes t res id it d → it = 0 ∨ it + 1 = t.writeQueue.elems.length := by
  unfold handleCompletion
  rw [if_neg (by decide), if_neg (by decide), if_pos rfl]
  cases hit : t.writeQueue.elems.findIdx? (·.id = id) with
  | none =>
    refine ⟨fun _ it d hc => ?_, fun _ => h⟩
    have := hit.symm.trans hc.1
    cases this
  | some it =>
    dsimp only
    cases hd : t.writeQueue.elems[it]? with
    | none =>
      refine ⟨fun _ it' d hc => ?_, fun _ => h⟩
      obtain rfl := Option.some.inj (hit.symm.trans hc.1)
      have := hd.symm.trans hc.2.1
      cases this
    | some d =>
      have hall : (∀ it' d', Completes t res id it' d' →
          it' = 0 ∨ it' + 1 = t.writeQueue.elems.length) ↔
          ((d.buf.bytes.length : ℤ) ≤ res → it = 0 ∨ it + 1 = t.writeQueue.elems.length) := by
        constructor
        · intro hin hres
          exact hin it d ⟨hit, hd, hres⟩
        · intro hin it' d' hc
          obtain rfl := Option.some.inj (hit.symm.trans hc.1)
          obtain rfl := Option.some.inj (hd.symm.trans hc.2.1)
          exact hin hc.2.2
      rw [hall]
      dsimp only
      unfold handleWriteResult
      by_cases hneg : res < 0
      · -- a failed send erases nothing
        rw [if_pos hneg]
        have hkeep : Consistent { t with
            writeQueue := t.writeQueue.modify it fun d => { d with currentlySubmitted := false } } :=
          ⟨(Deque.placed_modify_iff it fun slot d => fits_mark d.id false slot d).mpr h.placed,
            h.described⟩
        refine ⟨fun _ hres => by omega, fun _ => ?_⟩
        cases temporary with
        | true =>
          exact (submitOther_changes (P := fun _ => True) port .pollWrite _).keeps consistent_change hkeep
        | false => exact h
      · rw [if_neg hneg]
        by_cases hshort : res.toNat < d.buf.bytes.length
        · rw [if_pos hshort]
          exact ⟨fun _ hres => by omega, fun _ => h⟩
        · rw [if_neg hshort]
          have hlt := (List.getElem?_eq_some_iff.mp hd).1
          have hwritten := written_writeQueue t it d
          have hkeep := consistent_changes_iff
            (submitDatagrams_changes (registration port app) port (NextLayer.produces_true app)
              (t.written it d))
            (by rw [hwritten.2]; exact h.described)
          rw [hwritten.1, Deque.placed_erase_iff Fits.unique h.placed hlt] at hkeep
          exact hkeep.trans ⟨fun hin _ => hin, fun hin => hin (by omega)⟩

theorem recvmsg_consistent (t : DatagramTransport M σ) (outcome : ReadOutcome) (h : Consistent t) :
    Consistent (t.recvmsg outcome).2 := by
  cases outcome with
  | datagram source payload => exact ⟨h.placed, h.described⟩
  | failed temporary => exact h

theorem read_consistent (t : DatagramTransport M σ) (res : ℤ) (temporary : Bool) (h : Consistent t) :
    Consistent (t.handleCompletion port app .read res temporary 0).2 := by
  have hread : Consistent (handleReadResult (uringRegister port app) app t.readAddr res temporary t).2 :=
    handleReadResult_keeps
      (fun t _ _ ht => (callback_changes (registration port app) _ (allowed_true _) t).keeps
        consistent_change ht)
      (fun _ _ _ _ ht => ⟨ht.placed, ht.described⟩) t.readAddr res temporary h
  unfold handleCompletion
  rw [if_pos rfl]
  generalize handleReadResult (uringRegister port app) app _ _ _ _ = o at hread ⊢
  obtain ⟨v, t'⟩ := o
  cases v with
  | ok => exact (submitOther_changes (P := fun _ => True) port .read t').keeps consistent_change hread
  | temporaryError =>
    exact (submitOther_changes (P := fun _ => True) port .pollRead t').keeps consistent_change hread
  | done => exact hread
  | error => exact hread

/-- **One event** keeps consistency if and only if it is in order. -/
theorem complete_consistent_iff (t : DatagramTransport M σ) (e : Completion M) (h : Consistent t) :
    Consistent (t.complete port app e).2 ↔ InOrder t e := by
  have hkeeps {t' : DatagramTransport M σ} (hc : Changes (fun _ => True) t t') : Consistent t' ↔ True :=
    iff_true_intro (hc.keeps consistent_change h)
  cases e with
  | read outcome =>
    exact iff_of_true (read_consistent port app _ _ _ (recvmsg_consistent t outcome h)) trivial
  | pollRead => exact hkeeps (poll_changes port (NextLayer.produces_true app) t (.inl rfl))
  | write res temporary id => exact write_consistent_iff port app t res temporary id h
  | pollWrite => exact hkeeps (poll_changes port (NextLayer.produces_true app) t (.inr rfl))
  | timeout id => exact hkeeps (callback_changes (registration port app) _ (allowed_true _) t)
  | call c => exact hkeeps (call_changes (registration port app) t (Call.allowed_true c))
  | multiplexer m => exact iff_of_true ⟨h.placed, h.described⟩ trivial

/-! ### Runs -/

theorem consistent_start (m : M) (s : σ) (beyond : ℕ → UInt8) (config : TransportConfig) :
    Consistent (uringStart port app m s beyond config) :=
  init_keeps (registration port app) consistent_change (fun _ => allowed_true _) config
    (t := fresh m s beyond) ⟨Deque.placed_empty, fun _ hs => absurd hs List.not_mem_nil⟩

/-- **Self-referential datagrams.** In a run of the io_uring transport, every queued datagram points
to itself and every submission describes its datagram if and only if every datagram that is written
was the first or the last one of the queue then. -/
theorem consistent_iff (m : M) (s : σ) (beyond : ℕ → UInt8) (config : TransportConfig)
    (es : List (Completion M)) :
    Always (fun t e => (complete port app t e).2) Consistent (uringStart port app m s beyond config) es ↔
      Along (fun t e => (complete port app t e).2) InOrder (uringStart port app m s beyond config) es :=
  always_iff_along (D := fun _ _ => True) (fun t e h _ => complete_consistent_iff port app t e h)
    (consistent_start port app m s beyond config) (along_of_forall (fun _ _ => trivial) _ _)

/-- A next layer without data of its own. -/
def silentLayer : NextLayer Unit where
  init _ := ((), [], true)
  hasMoreData _ := false
  produce _ := ((), [], .ok)
  consume _ _ _ := ((), [], .ok)
  handleTimeout _ _ := ((), [], .ok)

/-- A port that numbers its submissions. -/
def numberingPort : Port (Operation × UInt64) where
  mask m := m.1
  maskSet op m := (op, m.2)
  submit _ m := ((true, m.2 + 1), (m.1, m.2 + 1))

/-- A run that submits the datagrams 2, 3 and 4 at once. 3 is written first, so that 4 moves to its
slot; then 5 is constructed where 4 was, and 4 is submitted again after a temporary error. -/
def overtaking : List (Completion (Operation × UInt64)) :=
  [.call (.enqueue [1] ⟨1, 1⟩), .call (.enqueue [2] ⟨2, 2⟩), .call (.enqueue [3] ⟨3, 3⟩),
    .call (.enqueue [4] ⟨4, 4⟩), .write 1 false 1, .write 1 false 3, .call (.enqueue [5] ⟨5, 5⟩),
    .write (-11) true 4, .pollWrite]

/-- The `msghdr` that is submitted for datagram 4 describes datagram 5. -/
theorem overtaken_misdescribed :
    ¬ Consistent (run (fun t e => (complete numberingPort silentLayer t e).2)
      (uringStart numberingPort silentLayer (Operation.none, 0) () (fun _ => 0) {}) overtaking) := by
  intro h
  have hall := h.described ⟨([4], ⟨4, 4⟩), some ([5], ⟨5, 5⟩)⟩ (by decide +kernel)
  cases hall

end NetworkDriver.Net.Datagrams.Pointers
