import NetworkDriver.Net.Datagrams.Callbacks

/-! # The outgoing datagrams of the event-driven transport

`Faithful`: the datagrams sent so far are a prefix of those enqueued, the queue holds exactly the
rest, and `num_enqueued_bytes_` is the size of what it holds. Every change keeps this
(`faithful_change`), and so does every `sendto`, whatever its outcome (`faithful_send`).

* `sent_in_order`: in every run; and what the answer `done` means.
* `writePass_drains`: a pass over the queue that answers nothing has emptied it. -/

namespace NetworkDriver.Net.Datagrams.Outgoing

open NetworkDriver.Library.Run NetworkDriver.Library.Slots
open NetworkDriver.Net.Types NetworkDriver.Net.Datagrams.Model NetworkDriver.Net.Datagrams.Callbacks
open NetworkDriver.Net.StreamTransport.Model (TransportConfig)
open DatagramTransport

variable {M σ : Type}

/-- The number of bytes of the datagrams in a queue. -/
def queuedBytes (q : Deque Datagram) : ℕ := (q.elems.map fun d => d.buf.bytes.length).sum

/-- **Nothing is lost, duplicated or reordered, and the bytes are counted.** -/
structure Faithful (t : DatagramTransport M σ) : Prop where
  sent : t.trace.sent <+: t.trace.enqueued
  rest : t.trace.sent ++ t.writeQueue.elems.map Datagram.message = t.trace.enqueued
  counted : t.numEnqueuedBytes = queuedBytes t.writeQueue

theorem faithful_of_rest {t : DatagramTransport M σ}
    (hrest : t.trace.sent ++ t.writeQueue.elems.map Datagram.message = t.trace.enqueued)
    (hcounted : t.numEnqueuedBytes = queuedBytes t.writeQueue) : Faithful t :=
  ⟨⟨_, hrest⟩, hrest, hcounted⟩

/-! ### Enqueueing -/

/-- Marks on a datagram are neither its message nor its size. -/
theorem map_modify {α β : Type*} (g : α → β) (f : α → α) (hf : ∀ a, g (f a) = g a) (l : List α) (i : ℕ) :
    (l.modify i f).map g = l.map g := by
  induction l generalizing i with
  | nil => simp
  | cons a l ih =>
    cases i with
    | zero => simp [hf]
    | succ i => simp [ih]

theorem faithful_modify {t : DatagramTransport M σ} (h : Faithful t) (i : ℕ) (f : Datagram → Datagram)
    (hf : ∀ d, (f d).buf = d.buf ∧ (f d).ep = d.ep) (submissions : List Submission) :
    Faithful { t with
      writeQueue := t.writeQueue.modify i f, trace := { t.trace with submissions := submissions } } := by
  refine faithful_of_rest ?_ ?_
  · change t.trace.sent ++ (t.writeQueue.elems.modify i f).map Datagram.message = t.trace.enqueued
    rw [map_modify _ _ (fun d => by simp [Datagram.message, hf d])]
    exact h.rest
  · change t.numEnqueuedBytes = ((t.writeQueue.elems.modify i f).map _).sum
    rw [map_modify _ _ (fun d => by rw [(hf d).1])]
    exact h.counted

theorem faithful_push {t : DatagramTransport M σ} (h : Faithful t) (buf : Buffer) (ep : Endpoint)
    (heap : ℕ) (cache : List Buffer) :
    Faithful (push buf ep { t with heap := heap, bufferCache := cache }) := by
  have hmessage (slot : ℤ) : (makeDatagram buf ep slot).message = (buf.bytes, ep) := rfl
  have hsize (slot : ℤ) : (makeDatagram buf ep slot).buf = buf := rfl
  refine faithful_of_rest ?_ ?_
  · simp only [push, Deque.emplaceBack, List.map_append, List.map_cons, List.map_nil, hmessage]
    rw [← List.append_assoc, h.rest]
  · have hcounted := h.counted
    simp only [queuedBytes] at hcounted
    simp only [push, Deque.emplaceBack, queuedBytes, List.map_append, List.map_cons, List.map_nil,
      List.sum_append, List.sum_cons, List.sum_nil, hsize, hcounted]
    omega

theorem faithful_change {P : ReceivePolicy → Prop} (t t' : DatagramTransport M σ) (hc : Change P t t')
    (h : Faithful t) : Faithful t' := by
  cases hc with
  | manager m => exact ⟨h.sent, h.rest, h.counted⟩
  | nextLayer s => exact ⟨h.sent, h.rest, h.counted⟩
  | configureNextRead p => exact ⟨h.sent, h.rest, h.counted⟩
  | push buf ep heap cache => exact faithful_push h buf ep heap cache
  | markSubmitted i d id =>
    exact faithful_modify h i (fun d => { d with id := id, currentlySubmitted := true })
      (fun _ => ⟨rfl, rfl⟩) _

/-! ### Sending -/

/-- A datagram that is sent goes from the front of the queue to the end of what was sent. -/
theorem faithful_written {t : DatagramTransport M σ} (h : Faithful t) {d : Datagram}
    (hd : t.writeQueue.elems[0]? = some d) :
    Faithful (written 0 d { t with trace := { t.trace with sent := t.trace.sent ++ [d.message] } }) := by
  obtain ⟨hrest, hcounted⟩ := And.intro h.rest h.counted
  obtain ⟨hsent, henq, hqueue, hbytes⟩ : ∃ q, t.writeQueue.elems = d :: q ∧
      t.trace.sent ++ d.message :: q.map Datagram.message = t.trace.enqueued ∧
      t.numEnqueuedBytes = d.buf.bytes.length + (q.map fun d => d.buf.bytes.length).sum := by
    cases hq : t.writeQueue.elems with
    | nil =>
      rw [hq] at hd
      cases hd
    | cons d' q =>
      rw [hq] at hd
      obtain rfl : d' = d := Option.some.inj hd
      refine ⟨q, rfl, ?_, ?_⟩
      · rw [← hrest, hq, List.map_cons]
      · rw [hcounted, queuedBytes, hq, List.map_cons, List.sum_cons]
  have hcache (buf : Buffer) (t : DatagramTransport M σ) :
      ∃ cache, t.returnBuffer buf = { t with bufferCache := cache } := by
    unfold returnBuffer
    split_ifs
    · exact ⟨_, rfl⟩
    · exact ⟨t.bufferCache, rfl⟩
  unfold written
  obtain ⟨cache, hreturn⟩ := hcache { d.buf with bytes := [] }
    { t with
      numEnqueuedBytes := subSize t.numEnqueuedBytes d.buf.bytes.length
      trace := { t.trace with sent := t.trace.sent ++ [d.message] } }
  dsimp only
  rw [hreturn]
  refine faithful_of_rest ?_ ?_
  · change (t.trace.sent ++ [d.message]) ++ (t.writeQueue.elems.eraseIdx 0).map _ = t.trace.enqueued
    rw [henq, List.eraseIdx_cons_zero, List.append_assoc]
    exact hqueue
  · change subSize t.numEnqueuedBytes d.buf.bytes.length = ((t.writeQueue.elems.eraseIdx 0).map _).sum
    rw [henq, List.eraseIdx_cons_zero, subSize_of_le (by omega)]
    omega

/-- **One `sendto` at the front of the queue**, with what `handle_write_result` makes of its result. -/
theorem faithful_send (t : DatagramTransport M σ) (d : Datagram) (outcome : SendOutcome)
    (hd : t.writeQueue.elems[0]? = some d) (h : Faithful t) :
    Faithful ((t.sendto d outcome).2.2.handleWriteResult (toInt (t.sendto d outcome).1)
      (t.sendto d outcome).2.1 0 d).2 := by
  have hfailed : toInt (-1) < 0 := by decide
  cases outcome with
  | failed temporary =>
    unfold sendto handleWriteResult
    dsimp only
    rw [if_pos hfailed]
    cases temporary with
    | true =>
      exact faithful_modify h 0 (fun d => { d with currentlySubmitted := false })
        (fun _ => ⟨rfl, rfl⟩) t.trace.submissions
    | false => exact h
  | sent =>
    unfold sendto
    by_cases hmax : d.buf.bytes.length ≤ maxPayload
    · rw [if_pos hmax]
      have hint : toInt (d.buf.bytes.length : ℤ) = d.buf.bytes.length := by
        unfold maxPayload at hmax
        exact toInt_of_lt (by omega)
      unfold handleWriteResult
      dsimp only
      rw [hint, if_neg (by omega), if_neg (by omega)]
      exact faithful_written h hd
    · rw [if_neg hmax]
      unfold handleWriteResult
      rw [if_pos hfailed]
      exact h

/-! ### Runs -/

variable (r : Registration (fun _ => True) M σ) (app : NextLayer σ)

theorem faithful_start (m : M) (s : σ) (beyond : ℕ → UInt8) (config : TransportConfig) :
    Faithful (Session.start r.register app m s beyond config).transport :=
  init_keeps r faithful_change (fun _ => allowed_true _) config (t := fresh m s beyond)
    (faithful_of_rest rfl rfl)

theorem faithful_step (s : Session M σ) (e : Event) (h : Faithful s.transport) :
    Faithful (s.step r.register app e).transport := by
  unfold Session.step
  by_cases hfailed : s.failed = true
  · rw [if_pos hfailed]
    exact h
  · rw [if_neg hfailed]
    cases e with
    | readEvent kernel =>
      refine readLoop_keeps ?_ ?_ ?_ _ kernel h
      · intro t span ep ht
        exact (callback_changes r _ (allowed_true _) t).keeps faithful_change ht
      · intro t received consumed answers ht
        exact ⟨ht.sent, ht.rest, ht.counted⟩
      · intro t buf arrived ht
        exact ⟨ht.sent, ht.rest, ht.counted⟩
    | writeEvent kernel =>
      refine writeLoop_keeps (fun t ht => ?_) faithful_send _ kernel h
      exact (fetchMoreData_changes r (NextLayer.produces_true app) t).keeps faithful_change ht
    | timeout id => exact (callback_changes r _ (allowed_true _) _).keeps faithful_change h
    | call c => exact (call_changes r _ (Call.allowed_true c)).keeps faithful_change h

/-! ### The answer `done` -/

/-- What `done` means after `fetch_more_data`. -/
theorem doneWriting_iff (t : DatagramTransport M σ) :
    t.doneWriting app = true ↔ t.writeQueue.elems = [] ∧ t.hasMoreData app = false := by
  unfold doneWriting
  rw [Bool.and_eq_true, List.isEmpty_iff, Bool.not_eq_true']

theorem sendLoop_not_done (n it : ℕ) (kernel : List SendOutcome) (t : DatagramTransport M σ) :
    (sendLoop n it kernel t).1 ≠ some .done := by
  induction n generalizing it kernel t with
  | zero => intro h; cases h
  | succ n ih =>
    unfold sendLoop
    cases t.writeQueue.elems[it]? with
    | none => intro h; cases h
    | some d =>
      dsimp only
      generalize handleWriteResult _ _ _ _ _ = o
      obtain ⟨v, t'⟩ := o
      cases v with
      | ok => exact ih _ _ _
      | done => exact ih _ _ _
      | error => intro h; cases h
      | temporaryError => intro h; cases h

theorem fetchMoreData_done (reg : Register M σ) (t : DatagramTransport M σ)
    (h : (fetchMoreData reg app t).1 = .done) : (fetchMoreData reg app t).2.doneWriting app = true := by
  unfold fetchMoreData at h ⊢
  dsimp only at h ⊢
  by_contra hne
  rw [if_neg hne] at h
  cases h

theorem writePass_done (reg : Register M σ) (kernel : List SendOutcome) (t : DatagramTransport M σ)
    (h : (writePass reg app kernel t).1 = some .done) :
    (writePass reg app kernel t).2.2.doneWriting app = true := by
  have hfetch := fetchMoreData_done app reg t
  unfold writePass at h ⊢
  generalize fetchMoreData reg app t = o at h hfetch ⊢
  obtain ⟨v, t'⟩ := o
  have hsend := sendLoop_not_done t'.writeQueue.elems.length 0 kernel t'
  cases v with
  | done => exact hfetch rfl
  | ok | error | temporaryError =>
    dsimp only at h hsend
    generalize sendLoop t'.writeQueue.elems.length 0 kernel t' = o at h hsend
    obtain ⟨_ | verdict, it, kernel', t''⟩ := o
    · cases h
    · exact absurd h hsend

/-- **`handle_write_event` answers `done` only when there is nothing left to write.** -/
theorem writeLoop_done (reg : Register M σ) (n : ℕ) (kernel : List SendOutcome)
    (t : DatagramTransport M σ) (h : (writeLoop reg app n kernel t).1 = .done) :
    (writeLoop reg app n kernel t).2.doneWriting app = true := by
  induction n generalizing kernel t with
  | zero =>
    have hpass := writePass_done app reg kernel t
    unfold writeLoop at h ⊢
    generalize writePass reg app kernel t = o at h hpass ⊢
    obtain ⟨_ | verdict, kernel', t'⟩ := o
    · dsimp only at h ⊢
      by_contra hne
      rw [if_neg hne] at h
      cases h
    · exact hpass (congrArg some h)
  | succ n ih =>
    have hpass := writePass_done app reg kernel t
    unfold writeLoop at h ⊢
    generalize writePass reg app kernel t = o at h hpass ⊢
    obtain ⟨_ | verdict, kernel', t'⟩ := o
    · exact ih kernel' t' h
    · exact hpass (congrArg some h)

/-! ### What is recorded as enqueued -/

theorem eventRegister_eq (op : Operation) (t : DatagramTransport Operation σ) :
    ∃ m, eventRegister op t = { t with manager := m } := by
  unfold eventRegister
  split_ifs
  · exact ⟨_, rfl⟩
  · exact ⟨t.manager, rfl⟩

/-- Calls on the transport enqueue their payloads and consume nothing. -/
theorem calls_trace (calls : List Call) (t : DatagramTransport Operation σ) :
    (calls.foldl (call eventRegister) t).trace.enqueued = t.trace.enqueued ++ calls.filterMap Call.payload? ∧
      (calls.foldl (call eventRegister) t).trace.consumed = t.trace.consumed := by
  induction calls generalizing t with
  | nil => exact ⟨(List.append_nil _).symm, rfl⟩
  | cons c calls ih =>
    have hone : (call eventRegister t c).trace.enqueued = t.trace.enqueued ++ c.payload?.toList ∧
        (call eventRegister t c).trace.consumed = t.trace.consumed := by
      cases c with
      | configureNextRead p => exact ⟨(List.append_nil _).symm, rfl⟩
      | enqueue bytes ep =>
        obtain ⟨buf, heap, cache, heq, rfl⟩ := pushCopy_eq bytes ep t
        obtain ⟨m, hm⟩ := eventRegister_eq .write (t.pushCopy buf.bytes ep)
        change (eventRegister .write (t.pushCopy buf.bytes ep)).trace.enqueued = _ ∧
          (eventRegister .write (t.pushCopy buf.bytes ep)).trace.consumed = _
        rw [hm, heq]
        exact ⟨rfl, rfl⟩
      | enqueueBuffer bytes capacity ep =>
        obtain ⟨buf, heap, heq, rfl⟩ := pushNew_eq bytes capacity ep t
        obtain ⟨m, hm⟩ := eventRegister_eq .write (t.pushNew buf.bytes capacity ep)
        change (eventRegister .write (t.pushNew buf.bytes capacity ep)).trace.enqueued = _ ∧
          (eventRegister .write (t.pushNew buf.bytes capacity ep)).trace.consumed = _
        rw [hm, heq]
        exact ⟨rfl, rfl⟩
      | registerReading =>
        obtain ⟨m, hm⟩ := eventRegister_eq .read t
        change (eventRegister .read t).trace.enqueued = _ ∧ (eventRegister .read t).trace.consumed = _
        rw [hm]
        exact ⟨(List.append_nil _).symm, rfl⟩
      | registerWriting =>
        obtain ⟨m, hm⟩ := eventRegister_eq .write t
        change (eventRegister .write t).trace.enqueued = _ ∧ (eventRegister .write t).trace.consumed = _
        rw [hm]
        exact ⟨(List.append_nil _).symm, rfl⟩
    obtain ⟨henqueued, hconsumed⟩ := ih (call eventRegister t c)
    rw [List.foldl_cons, henqueued, hconsumed, hone.1, hone.2]
    refine ⟨?_, rfl⟩
    rw [List.append_assoc, List.filterMap_cons]
    cases c.payload? <;> rfl

/-- **The outgoing datagrams.** Whatever is enqueued and whatever `sendto` answers: the datagrams sent
are a prefix of those enqueued, the rest is in the queue, in order and counted; `done` is answered only
when the queue is empty and the next layer has no more data; and what is recorded as enqueued are the
payloads of the calls that enqueue. -/
theorem sent_in_order (m : M) (s : σ) (beyond : ℕ → UInt8) (config : TransportConfig)
    (es : List Event) :
    Always (Session.step r.register app) (fun s => Faithful s.transport)
        (Session.start r.register app m s beyond config) es ∧
      (∀ (t : DatagramTransport M σ) (kernel : List SendOutcome),
        (t.handleWriteEvent r.register app kernel).1 = .done →
          (t.handleWriteEvent r.register app kernel).2.writeQueue.elems = [] ∧
            (t.handleWriteEvent r.register app kernel).2.hasMoreData app = false) ∧
      ∀ (calls : List Call) (t : DatagramTransport Operation σ),
        (calls.foldl (call eventRegister) t).trace.enqueued =
          t.trace.enqueued ++ calls.filterMap Call.payload? := by
  refine ⟨?_, ?_, fun calls t => (calls_trace calls t).1⟩
  · exact always_of_step (fun s e => faithful_step r app s e) es (faithful_start r app m s beyond config)
  · intro t kernel h
    exact (doneWriting_iff app _).mp (writeLoop_done app r.register _ kernel t h)

/-! ### Progress of a pass -/

/-- A datagram that was written leaves the queue. -/
theorem handleWriteResult_length (writeRes : ℤ) (temporary : Bool) {it : ℕ} (d : Datagram)
    {t : DatagramTransport M σ} (hit : it < t.writeQueue.elems.length) :
    (t.handleWriteResult writeRes temporary it d).1 = .error ∨
      (t.handleWriteResult writeRes temporary it d).1 = .temporaryError ∨
      (t.handleWriteResult writeRes temporary it d).2.writeQueue.elems.length + 1 =
        t.writeQueue.elems.length := by
  unfold handleWriteResult
  by_cases hneg : writeRes < 0
  · rw [if_pos hneg]
    cases temporary with
    | true => exact .inr (.inl rfl)
    | false => exact .inl rfl
  · rw [if_neg hneg]
    by_cases hshort : writeRes.toNat < d.buf.bytes.length
    · rw [if_pos hshort]
      exact .inl rfl
    · rw [if_neg hshort]
      have hq : (t.written it d).writeQueue = t.writeQueue.erase it := by
        unfold written returnBuffer
        dsimp only
        split_ifs <;> rfl
      right; right
      dsimp only
      rw [hq]
      exact List.length_eraseIdx_add_one hit

theorem sendto_writeQueue (t : DatagramTransport M σ) (d : Datagram) (outcome : SendOutcome) :
    (t.sendto d outcome).2.2.writeQueue = t.writeQueue := by
  cases outcome with
  | sent =>
    unfold sendto
    split_ifs <;> rfl
  | failed temporary => rfl

theorem sendLoop_drains (n : ℕ) (kernel : List SendOutcome) (t : DatagramTransport M σ)
    (hn : t.writeQueue.elems.length ≤ n) (h : (sendLoop n 0 kernel t).1 = none) :
    (sendLoop n 0 kernel t).2.2.2.writeQueue.elems = [] := by
  induction n generalizing kernel t with
  | zero => exact List.eq_nil_of_length_eq_zero (Nat.le_zero.mp hn)
  | succ n ih =>
    unfold sendLoop at h ⊢
    cases hd : t.writeQueue.elems[0]? with
    | none =>
      have hlen := List.getElem?_eq_none_iff.mp hd
      exact List.eq_nil_of_length_eq_zero (Nat.le_zero.mp hlen)
    | some d =>
      rw [hd] at h
      dsimp only at h ⊢
      have hlt := (List.getElem?_eq_some_iff.mp hd).1
      have hq := sendto_writeQueue t d (kernel.headD (.failed true))
      rw [← hq] at hlt hn
      have hres := handleWriteResult_length (toInt (t.sendto d (kernel.headD (.failed true))).1)
        (t.sendto d (kernel.headD (.failed true))).2.1 d hlt
      generalize handleWriteResult _ _ _ _ _ = o at h hres ⊢
      obtain ⟨v, t'⟩ := o
      cases v with
      | ok | done =>
        rcases hres with h' | h' | hlen
        · cases h'
        · cases h'
        · exact ih _ _ (by dsimp only at hlen; omega) h
      | error => cases h
      | temporaryError => cases h

/-- **A pass that answers nothing has sent the whole queue.** -/
theorem writePass_drains (reg : Register M σ) (kernel : List SendOutcome) (t : DatagramTransport M σ)
    (h : (writePass reg app kernel t).1 = none) :
    (writePass reg app kernel t).2.2.writeQueue.elems = [] := by
  unfold writePass at h ⊢
  generalize fetchMoreData reg app t = o at h ⊢
  obtain ⟨v, t'⟩ := o
  have hdrain := sendLoop_drains t'.writeQueue.elems.length kernel t' le_rfl
  cases v with
  | done => cases h
  | ok | error | temporaryError =>
    dsimp only at h hdrain ⊢
    generalize sendLoop t'.writeQueue.elems.length 0 kernel t' = o at h hdrain ⊢
    obtain ⟨_ | verdict, it, kernel', t''⟩ := o
    · change t''.writeQueue.elems.drop it = []
      rw [hdrain rfl, List.drop_nil]
    · cases h

end NetworkDriver.Net.Datagrams.Outgoing
