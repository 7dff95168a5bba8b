import NetworkDriver.Net.StreamTransport.Reads

/-! # Changing the receive policy

`configure_next_read` sets `received_` to 0. In `consume` the span has just been handed over, so
nothing is lost; in `produce` and `handle_timeout` the bytes that wait for `min_size` are. A
`consume` that fails leaves `received_` as it is, and the span counts as buffered still.

* `callback_lossless_iff`: what one callback outside `consume` does to the waiting bytes.
* `policies_lossless_iff`: the runs in which no byte is lost or counted twice, exactly. -/

namespace NetworkDriver.Net.StreamTransport.Policies

open NetworkDriver.Library.Run
open NetworkDriver.Net.Types NetworkDriver.Net.StreamTransport.Model
open NetworkDriver.Net.StreamTransport.Callbacks NetworkDriver.Net.StreamTransport.Queue
open NetworkDriver.Net.StreamTransport.Incoming NetworkDriver.Net.StreamTransport.Reads
open StreamTransportBase

variable {M σ : Type}

/-! ### The property -/

/-- The spans consumed, with the bytes that wait behind them, are the bytes delivered. -/
def Lossless (t : StreamTransportBase M σ) : Prop := consumedBytes t ++ pending t = t.trace.delivered

instance (t : StreamTransportBase M σ) : Decidable (Lossless t) := by unfold Lossless; infer_instance

/-- The received bytes are in the buffer. -/
def Room (t : StreamTransportBase M σ) : Prop := t.received ≤ t.readBuffer.length

/-- Bytes are missing, and none wait. -/
def Lost (t : StreamTransportBase M σ) : Prop := t.received = 0 ∧ consumedBytes t ≠ t.trace.delivered

/-- The read side is the same. -/
structure SameReads (t t' : StreamTransportBase M σ) : Prop where
  received : t'.received = t.received
  readBuffer : t'.readBuffer = t.readBuffer
  consumed : t'.trace.consumed = t.trace.consumed
  delivered : t'.trace.delivered = t.trace.delivered

/-- Nothing was read or handed over. -/
structure SameTrace (t t' : StreamTransportBase M σ) : Prop where
  consumed : t'.trace.consumed = t.trace.consumed
  delivered : t'.trace.delivered = t.trace.delivered

theorem SameReads.refl (t : StreamTransportBase M σ) : SameReads t t := ⟨rfl, rfl, rfl, rfl⟩

theorem SameReads.trans {t t' t'' : StreamTransportBase M σ} (h : SameReads t t') (h' : SameReads t' t'') :
    SameReads t t'' :=
  ⟨h'.received.trans h.received, h'.readBuffer.trans h.readBuffer, h'.consumed.trans h.consumed,
    h'.delivered.trans h.delivered⟩

theorem SameReads.lossless_iff {t t' : StreamTransportBase M σ} (h : SameReads t t') :
    Lossless t' ↔ Lossless t := by
  unfold Lossless consumedBytes pending
  rw [h.received, h.readBuffer, h.consumed, h.delivered]

theorem SameReads.room {t t' : StreamTransportBase M σ} (h : SameReads t t') (hr : Room t) : Room t' := by
  unfold Room at hr ⊢
  rwa [h.received, h.readBuffer]

theorem SameReads.lost {t t' : StreamTransportBase M σ} (h : SameReads t t') (hl : Lost t) : Lost t' := by
  unfold Lost consumedBytes at hl ⊢
  rwa [h.received, h.consumed, h.delivered]

theorem Lost.not_lossless {t : StreamTransportBase M σ} (h : Lost t) : ¬ Lossless t := by
  intro hl
  unfold Lossless pending at hl
  rw [h.1, List.take_zero, List.append_nil] at hl
  exact h.2 hl

/-- While bytes wait, the spans alone are not everything. -/
theorem Lossless.ne {t : StreamTransportBase M σ} (h : Lossless t) (hr : Room t) (h0 : t.received ≠ 0) :
    consumedBytes t ≠ t.trace.delivered := by
  intro he
  unfold Lossless at h
  rw [he] at h
  have hlen := length_pending hr
  rw [List.append_right_eq_self.mp h] at hlen
  exact h0 hlen.symm

/-! ### Callbacks -/

theorem sameReads_change (t t' : StreamTransportBase M σ) (hc : Change (fun _ => False) t t') :
    SameReads t t' := by
  cases hc with
  | configureNextRead p _ hp => exact hp.elim
  | pushCopy bytes => rw [pushCopy_eq]; exact ⟨rfl, rfl, rfl, rfl⟩
  | manager | nextLayer | pushNew => exact ⟨rfl, rfl, rfl, rfl⟩

theorem sameReads_changes {t t' : StreamTransportBase M σ} (hc : Changes (fun _ => False) t t') :
    SameReads t t' :=
  hc.keeps (I := SameReads t) (fun u u' hu h => h.trans (sameReads_change u u' hu)) (SameReads.refl t)

variable {P : ReceivePolicy → Prop}

theorem sameTrace_changes {t t' : StreamTransportBase M σ} (hc : Changes P t t') : SameTrace t t' := by
  refine hc.keeps (I := SameTrace t) (fun u u' hu h => ?_) ⟨rfl, rfl⟩
  cases hu with
  | pushCopy bytes => rw [pushCopy_eq]; exact ⟨h.consumed, h.delivered⟩
  | manager | nextLayer | pushNew | configureNextRead => exact ⟨h.consumed, h.delivered⟩

theorem room_change (t t' : StreamTransportBase M σ) (hc : Change P t t') (h : Room t) : Room t' := by
  cases hc with
  | configureNextRead p => exact Nat.zero_le _
  | pushCopy bytes => rw [pushCopy_eq]; exact h
  | manager | nextLayer | pushNew => exact h

theorem lost_changes {t t' : StreamTransportBase M σ} (hc : Changes P t t') (h : Lost t) : Lost t' := by
  have htrace := sameTrace_changes hc
  refine ⟨hc.keeps received_change h.1, ?_⟩
  unfold consumedBytes
  rw [htrace.consumed, htrace.delivered]
  exact h.2

/-- The calls configure the next read. -/
def Reconfigures (cs : List Call) : Prop := ∃ p, .configureNextRead p ∈ cs

/-- The same, of one call. -/
def Call.isConfigure : Call → Bool
  | .configureNextRead _ => true
  | _ => false

theorem reconfigures_iff (cs : List Call) : Reconfigures cs ↔ cs.any Call.isConfigure = true := by
  rw [List.any_eq_true]
  constructor
  · rintro ⟨p, hp⟩
    exact ⟨_, hp, rfl⟩
  · rintro ⟨c, hc, hp⟩
    cases c with
    | configureNextRead p => exact ⟨p, hc⟩
    | enqueue | enqueueBuffer | registerReading | registerWriting => cases hp

instance (cs : List Call) : Decidable (Reconfigures cs) := decidable_of_iff' _ (reconfigures_iff cs)

section Callback

variable (r : Registration (fun _ => False) M σ)

theorem calls_received {cs : List Call} (hcs : Reconfigures cs) (t : StreamTransportBase M σ) :
    (cs.foldl (call r.register) t).received = 0 := by
  obtain ⟨p, hp⟩ := hcs
  obtain ⟨before, after, rfl⟩ := List.append_of_mem hp
  rw [List.foldl_append, List.foldl_cons]
  refine (calls_changes (r.weaken (Q := fun _ => True) fun _ => False.elim) after (fun c _ => ?_) _).keeps
    received_change rfl
  exact Call.allowed_true c

theorem calls_sameReads {cs : List Call} (hcs : ¬ Reconfigures cs) (t : StreamTransportBase M σ) :
    SameReads t (cs.foldl (call r.register) t) := by
  refine sameReads_changes (calls_changes r cs (fun c hc => ?_) t)
  cases c with
  | configureNextRead p => exact hcs ⟨p, hc⟩
  | enqueue | enqueueBuffer | registerReading | registerWriting => trivial

theorem callback_any (answer : σ × List Call × ManagerResult) (t : StreamTransportBase M σ) :
    Changes (fun _ => True) t (callback r.register answer t).2 :=
  callback_changes (r.weaken fun _ => False.elim) answer (fun c _ => Call.allowed_true c) t

/-- A callback that configures the next read while bytes wait loses them. -/
theorem callback_lost {answer : σ × List Call × ManagerResult} (ha : Reconfigures answer.2.1)
    {t : StreamTransportBase M σ} (hr : Room t) (h : Lossless t) (h0 : t.received ≠ 0) :
    Lost (callback r.register answer t).2 := by
  have htrace := sameTrace_changes (callback_any r answer t)
  refine ⟨calls_received r ha _, ?_⟩
  unfold consumedBytes
  rw [htrace.consumed, htrace.delivered]
  exact h.ne hr h0

/-- The callback does not configure the next read while bytes wait. -/
def Calm (answer : σ × List Call × ManagerResult) (t : StreamTransportBase M σ) : Prop :=
  t.received = 0 ∨ ¬ Reconfigures answer.2.1

instance (answer : σ × List Call × ManagerResult) (t : StreamTransportBase M σ) :
    Decidable (Calm answer t) := by unfold Calm; infer_instance

theorem callback_calm {answer : σ × List Call × ManagerResult} {t : StreamTransportBase M σ}
    (hc : Calm answer t) (h : Lossless t) : Lossless (callback r.register answer t).2 := by
  by_cases ha : Reconfigures answer.2.1
  · have h0 := hc.resolve_right (not_not_intro ha)
    have htrace := sameTrace_changes (callback_any r answer t)
    have hconsumed : consumedBytes t = t.trace.delivered := by
      unfold Lossless pending at h
      rwa [h0, List.take_zero, List.append_nil] at h
    unfold Lossless pending consumedBytes
    rw [show (callback r.register answer t).2.received = 0 from calls_received r ha _, List.take_zero,
      List.append_nil, htrace.consumed, htrace.delivered]
    exact hconsumed
  · exact (calls_sameReads r ha { t with nextLayer := answer.1 }).lossless_iff.mpr h

/-- **One callback outside `consume`.** -/
theorem callback_lossless_iff (answer : σ × List Call × ManagerResult) {t : StreamTransportBase M σ}
    (hr : Room t) (h : Lossless t) : Lossless (callback r.register answer t).2 ↔ Calm answer t := by
  constructor
  · intro h'
    by_contra hc
    unfold Calm at hc
    push Not at hc
    exact (callback_lost r hc.2 hr h hc.1).not_lossless h'
  · exact fun hc => callback_calm r hc h

end Callback

/-! ### Writing -/

section Writes

variable (reg : Register M σ) (app : NextLayer σ)

/-- `C` holds whenever `fetch_more_data` calls `produce`. -/
def AlongFetches (C : StreamTransportBase M σ → Prop) : ℕ → StreamTransportBase M σ → Prop
  | 0, _ => True
  | i + 1, t => t.numEnqueuedBytes < t.config.maxEnqueuedBytes → t.hasMoreData app = true →
      C t ∧ AlongFetches C i (callback reg (app.produce t.nextLayer) t).2

/-- `C` holds whenever a write event calls `produce`. -/
def AlongWrites (C : StreamTransportBase M σ → Prop) :
    ℕ → List WriteOutcome → StreamTransportBase M σ → Prop
  | 0, _, t => AlongFetches reg app C t.config.maxConsecutiveFetches t
  | n + 1, kernel, t => AlongFetches reg app C t.config.maxConsecutiveFetches t ∧
      ((writePass reg app (kernel.headD (.failed true)) t).1 = none →
        AlongWrites C n kernel.tail (writePass reg app (kernel.headD (.failed true)) t).2)

instance AlongFetches.decidable {C : StreamTransportBase M σ → Prop} [DecidablePred C] :
    (i : ℕ) → (t : StreamTransportBase M σ) → Decidable (AlongFetches reg app C i t)
  | 0, _ => .isTrue trivial
  | i + 1, t =>
    have := AlongFetches.decidable (C := C) i (callback reg (app.produce t.nextLayer) t).2
    inferInstanceAs (Decidable (t.numEnqueuedBytes < t.config.maxEnqueuedBytes → t.hasMoreData app = true →
      C t ∧ AlongFetches reg app C i (callback reg (app.produce t.nextLayer) t).2))

instance AlongWrites.decidable {C : StreamTransportBase M σ → Prop} [DecidablePred C] :
    (n : ℕ) → (kernel : List WriteOutcome) → (t : StreamTransportBase M σ) →
      Decidable (AlongWrites reg app C n kernel t)
  | 0, _, t => inferInstanceAs (Decidable (AlongFetches reg app C t.config.maxConsecutiveFetches t))
  | n + 1, kernel, t =>
    have := AlongWrites.decidable (C := C) n kernel.tail
      (writePass reg app (kernel.headD (.failed true)) t).2
    inferInstanceAs (Decidable (AlongFetches reg app C t.config.maxConsecutiveFetches t ∧
      ((writePass reg app (kernel.headD (.failed true)) t).1 = none →
        AlongWrites reg app C n kernel.tail (writePass reg app (kernel.headD (.failed true)) t).2)))

/-- The passes after the first are made if that answers nothing. -/
theorem writeLoop_succ (n : ℕ) (kernel : List WriteOutcome) (t : StreamTransportBase M σ) :
    (writeLoop reg app (n + 1) kernel t).2 =
      if (writePass reg app (kernel.headD (.failed true)) t).1 = none then
        (writeLoop reg app n kernel.tail (writePass reg app (kernel.headD (.failed true)) t).2).2
      else (writePass reg app (kernel.headD (.failed true)) t).2 := by
  conv_lhs => unfold writeLoop
  rcases writePass reg app (kernel.headD (.failed true)) t with ⟨_ | verdict, t'⟩
  · rfl
  · rfl

theorem writeLoop_zero (kernel : List WriteOutcome) (t : StreamTransportBase M σ) :
    (writeLoop reg app 0 kernel t).2 = (writePass reg app (kernel.headD (.failed true)) t).2 := by
  unfold writeLoop
  rcases writePass reg app (kernel.headD (.failed true)) t with ⟨_ | verdict, t'⟩
  · rfl
  · rfl

end Writes

theorem sameReads_written (t : StreamTransportBase M σ) (outcome : WriteOutcome) :
    SameReads t ((t.writev outcome).2.handleWriteResult (toInt (t.writev outcome).1)
      outcome.temporary).2 := by
  obtain ⟨memory, cache, count, queue, iovecs, he⟩ :=
    handleWriteResult_frame (toInt (t.writev outcome).1) outcome.temporary (t.writev outcome).2
  rw [he]
  cases outcome <;> exact ⟨rfl, rfl, rfl, rfl⟩

/-- A pass touches the read side by its fetches only. -/
theorem sameReads_writePass (reg : Register M σ) (app : NextLayer σ) (outcome : WriteOutcome)
    (t : StreamTransportBase M σ) :
    SameReads (fetchMoreData reg app t).2 (writePass reg app outcome t).2 := by
  unfold writePass
  generalize fetchMoreData reg app t = o
  obtain ⟨v, t₁⟩ := o
  have hwritten := sameReads_written t₁ outcome
  cases v with
  | done => exact SameReads.refl t₁
  | ok | error | temporaryError =>
    dsimp only
    generalize (t₁.writev outcome).2.handleWriteResult _ _ = o at hwritten ⊢
    obtain ⟨v, t₂⟩ := o
    cases v <;> exact hwritten

section Events

variable (r : Registration (fun _ => False) M σ) (app : NextLayer σ)

/-- The condition on a call of `produce`. -/
def CalmProduce (t : StreamTransportBase M σ) : Prop := Calm (app.produce t.nextLayer) t

instance (t : StreamTransportBase M σ) : Decidable (CalmProduce app t) := by
  unfold CalmProduce; infer_instance

theorem fetchLoop_any (i : ℕ) (t : StreamTransportBase M σ) :
    Changes (fun _ => True) t (fetchLoop r.register app i t) :=
  fetchLoop_changes (r.weaken fun _ => False.elim) (NextLayer.produces_true app) i t

/-- `fetch_more_data` keeps what waits, or loses it. -/
theorem fetchLoop_lossless (i : ℕ) {t : StreamTransportBase M σ} (hr : Room t) (h : Lossless t) :
    (AlongFetches r.register app (CalmProduce app) i t → Lossless (fetchLoop r.register app i t)) ∧
      (¬ AlongFetches r.register app (CalmProduce app) i t → Lost (fetchLoop r.register app i t)) := by
  induction i generalizing t with
  | zero => exact ⟨fun _ => h, fun hn => absurd trivial hn⟩
  | succ i ih =>
    unfold fetchLoop AlongFetches
    split_ifs with hspace hmore
    · rw [imp_iff_right hspace, imp_iff_right hmore]
      by_cases hc : CalmProduce app t
      · rw [and_iff_right hc]
        refine ih ((callback_any r _ t).keeps room_change hr) (callback_calm r hc h)
      · refine ⟨fun hall => absurd hall.1 hc, fun _ => lost_changes (fetchLoop_any r app i _) ?_⟩
        unfold CalmProduce Calm at hc
        push Not at hc
        exact callback_lost r hc.2 hr h hc.1
    · exact ⟨fun _ => h, fun hn => absurd (fun _ hm => absurd hm hmore) hn⟩
    · exact ⟨fun _ => h, fun hn => absurd (fun hs => absurd hs hspace) hn⟩

theorem room_fetch {t : StreamTransportBase M σ} (hr : Room t) :
    Room (fetchMoreData r.register app t).2 :=
  (fetchLoop_any r app _ t).keeps room_change hr

theorem lost_writeLoop (n : ℕ) (kernel : List WriteOutcome) {t : StreamTransportBase M σ} (h : Lost t) :
    Lost (writeLoop r.register app n kernel t).2 :=
  writeLoop_keeps (fun t => lost_changes (fetchLoop_any r app _ t))
    (fun t outcome => (sameReads_written t outcome).lost) n kernel t h

/-- **A write event.** -/
theorem writeLoop_lossless_iff (n : ℕ) (kernel : List WriteOutcome) {t : StreamTransportBase M σ}
    (hr : Room t) (h : Lossless t) :
    Lossless (writeLoop r.register app n kernel t).2 ↔
      AlongWrites r.register app (CalmProduce app) n kernel t := by
  have hfetch := fetchLoop_lossless r app t.config.maxConsecutiveFetches hr h
  have hpass := sameReads_writePass r.register app (kernel.headD (.failed true)) t
  induction n generalizing kernel t with
  | zero =>
    rw [writeLoop_zero, hpass.lossless_iff, AlongWrites]
    refine ⟨fun hl => ?_, hfetch.1⟩
    by_contra hn
    exact (hfetch.2 hn).not_lossless hl
  | succ n ih =>
    rw [writeLoop_succ, AlongWrites]
    by_cases hc : AlongFetches r.register app (CalmProduce app) t.config.maxConsecutiveFetches t
    · rw [and_iff_right hc]
      have hl := hpass.lossless_iff.mpr (hfetch.1 hc)
      split_ifs with hnone
      · rw [imp_iff_right hnone]
        have hroom := hpass.room (room_fetch r app hr)
        exact ih kernel.tail hroom hl (fetchLoop_lossless r app _ hroom hl)
          (sameReads_writePass r.register app _ _)
      · exact iff_of_true hl fun hn => absurd hn hnone
    · refine iff_of_false (fun hl => ?_) fun hall => hc hall.1
      have hlost := hpass.lost (hfetch.2 hc)
      split_ifs at hl with hnone
      · exact (lost_writeLoop r app n kernel.tail hlost).not_lossless hl
      · exact hlost.not_lossless hl

/-! ### Reading -/

/-- A `consume` that fails on the span of this pass has configured the next read. -/
def KeepsSpan (t : StreamTransportBase M σ) : ReadOutcome → Prop
  | .data bytes => chunkOf t bytes ≠ [] → t.minReadSize ≤ t.received + (chunkOf t bytes).length →
      (app.consume t.nextLayer (pending t ++ chunkOf t bytes)).2.2 = .error →
        Reconfigures (app.consume t.nextLayer (pending t ++ chunkOf t bytes)).2.1
  | _ => True

instance (t : StreamTransportBase M σ) : (o : ReadOutcome) → Decidable (KeepsSpan app t o)
  | .data bytes => inferInstanceAs (Decidable (chunkOf t bytes ≠ [] →
      t.minReadSize ≤ t.received + (chunkOf t bytes).length →
      (app.consume t.nextLayer (pending t ++ chunkOf t bytes)).2.2 = .error →
        Reconfigures (app.consume t.nextLayer (pending t ++ chunkOf t bytes)).2.1))
  | .closed => .isTrue trivial
  | .failed _ => .isTrue trivial

/-- What one pass leaves. -/
structure Passed (answer : ManagerResult × StreamTransportBase M σ) (C : Prop) : Prop where
  room : Room answer.2
  lossless : Lossless answer.2 ↔ C
  failed : answer.1 ≠ .error → C

theorem Passed.of_true {answer : ManagerResult × StreamTransportBase M σ} {C : Prop} (hr : Room answer.2)
    (h : Lossless answer.2) (hC : C) : Passed answer C := ⟨hr, iff_of_true h hC, fun _ => hC⟩

/-- Nothing waits, and the spans are everything. -/
theorem lossless_of_zero {t : StreamTransportBase M σ} (h0 : t.received = 0)
    (h : consumedBytes t = t.trace.delivered) : Lossless t := by
  unfold Lossless pending
  rw [h0, List.take_zero, List.append_nil]
  exact h

/-- What waits is handed over. -/
theorem handed_passed {t : StreamTransportBase M σ} (hr : Room t) (h : Lossless t) (h0 : t.received ≠ 0) :
    Passed
      (match consume r.register app (pending t) t with
        | (.error, t) => (.error, t)
        | (_, t) => (.ok, { t with received := 0 }))
      ((app.consume t.nextLayer (pending t)).2.2 = .error →
        Reconfigures (app.consume t.nextLayer (pending t)).2.1) := by
  have hverdict : (consume r.register app (pending t) t).1 = (app.consume t.nextLayer (pending t)).2.2 := rfl
  have hroom : Room (consume r.register app (pending t) t).2 :=
    (callback_any r _ _).keeps room_change hr
  have hspans : consumedBytes (consume r.register app (pending t) t).2 =
      (consume r.register app (pending t) t).2.trace.delivered := by
    have htrace := sameTrace_changes (callback_any r (app.consume t.nextLayer (pending t))
      (t.recordSpan (pending t) (app.consume t.nextLayer (pending t)).2.2))
    unfold consumedBytes consume
    rw [htrace.consumed, htrace.delivered]
    exact (consumedBytes_recordSpan t _ _).trans h
  have hreceived : (consume r.register app (pending t) t).2.received = 0 ↔
      Reconfigures (app.consume t.nextLayer (pending t)).2.1 := by
    refine ⟨fun hz => ?_, fun ha => calls_received r ha _⟩
    by_contra ha
    have hsame := calls_sameReads r ha
      { t.recordSpan (pending t) (app.consume t.nextLayer (pending t)).2.2 with
        nextLayer := (app.consume t.nextLayer (pending t)).1 }
    exact h0 (hsame.received.symm.trans hz)
  rw [← hverdict, ← hreceived]
  generalize consume r.register app (pending t) t = o at hroom hspans
  obtain ⟨v, t'⟩ := o
  have hnext : Lossless { t' with received := 0 } := lossless_of_zero rfl hspans
  cases v with
  | error =>
    refine ⟨hroom, ⟨fun hl _ => ?_, fun hz => lossless_of_zero (hz rfl) hspans⟩, fun hne => absurd rfl hne⟩
    by_contra hz
    exact hl.ne hroom hz hspans
  | ok | done | temporaryError => exact Passed.of_true (Nat.zero_le _) hnext fun he => by cases he

/-- **One pass of a read event.** -/
theorem readOnce_passed {t : StreamTransportBase M σ} (hr : Room t) (h : Lossless t)
    (outcome : ReadOutcome) : Passed (readOnce r.register app outcome t) (KeepsSpan app t outcome) := by
  cases outcome with
  | closed => exact Passed.of_true hr h trivial
  | failed temporary =>
    have hneg : toInt (-1) < 0 := by decide
    have hread : (readOnce r.register app (.failed temporary) t).2 = t := by
      unfold readOnce
      rw [show (t.recv (.failed temporary)).1 = -1 from rfl, handleReadResult, if_pos hneg]
      rfl
    exact Passed.of_true (hread ▸ hr) (hread.symm ▸ h) trivial
  | data bytes =>
    obtain ⟨hle, -⟩ := length_chunkOf_le hr bytes
    unfold readOnce
    rw [handleReadResult_data r.register app hr]
    unfold KeepsSpan
    dsimp only
    generalize chunkOf t bytes = chunk at hle
    have hpend := pending_fill hle
    have hroom : Room (fill chunk t) := by
      unfold Room
      rw [length_fill hle]
      exact hle
    have hfill : Lossless (fill chunk t) := by
      unfold Lossless
      rw [hpend, ← List.append_assoc]
      change (consumedBytes t ++ pending t) ++ chunk = _
      rw [h]
      rfl
    split_ifs with h0 hmin
    · exact Passed.of_true hr h fun hn => absurd h0 hn
    · rw [imp_iff_right h0, imp_iff_right hmin, ← hpend]
      refine handed_passed r app hroom hfill fun hz => ?_
      have hsum : t.received + chunk.length = 0 := hz
      exact h0 (List.length_eq_zero_iff.mp (by omega))
    · exact Passed.of_true hroom hfill fun _ hm => absurd hm hmin

/-- **A read event.** -/
theorem readLoop_lossless_iff (n : ℕ) (kernel : List ReadOutcome) {t : StreamTransportBase M σ}
    (hr : Room t) (h : Lossless t) :
    Room (readLoop r.register app n kernel t).2 ∧
      (Lossless (readLoop r.register app n kernel t).2 ↔
        AlongReads r.register app (KeepsSpan app) n kernel t) := by
  induction n generalizing kernel t with
  | zero => exact ⟨hr, iff_of_true h trivial⟩
  | succ n ih =>
    have hpass := readOnce_passed r app hr h (kernel.headD (.failed true))
    rw [readLoop_succ, AlongReads]
    split_ifs with hok
    · have hkeeps := hpass.failed (by rw [hok]; simp)
      rw [and_iff_right hkeeps, imp_iff_right hok]
      exact ih kernel.tail hpass.room (hpass.lossless.mpr hkeeps)
    · rw [hpass.lossless, and_iff_left fun h => absurd h hok]
      exact ⟨hpass.room, Iff.rfl⟩

/-! ### Runs -/

/-- **The condition on an event**: outside `consume` the next read is configured only while nothing
waits, and a `consume` that fails has configured it. -/
def Meets (s : Session M σ) : Event → Prop
  | .readEvent kernel => s.failed = false →
      AlongReads r.register app (KeepsSpan app) s.transport.config.maxConsecutiveReads kernel s.transport
  | .writeEvent kernel => s.failed = false →
      AlongWrites r.register app (CalmProduce app) s.transport.config.maxConsecutiveWrites kernel s.transport
  | .timeout id => s.failed = false → Calm (app.handleTimeout s.transport.nextLayer id) s.transport
  | _ => True

instance Meets.decidable (s : Session M σ) : (e : Event) → Decidable (Meets r app s e)
  | .readEvent kernel => inferInstanceAs (Decidable (s.failed = false →
      AlongReads r.register app (KeepsSpan app) s.transport.config.maxConsecutiveReads kernel s.transport))
  | .writeEvent kernel => inferInstanceAs (Decidable (s.failed = false →
      AlongWrites r.register app (CalmProduce app) s.transport.config.maxConsecutiveWrites kernel s.transport))
  | .timeout id => inferInstanceAs (Decidable (s.failed = false →
      Calm (app.handleTimeout s.transport.nextLayer id) s.transport))
  | .enqueue _ => .isTrue trivial
  | .enqueueBuffer _ _ => .isTrue trivial

/-- **One event.** -/
theorem step_lossless_iff (s : Session M σ) (e : Event) (hr : Room s.transport) (h : Lossless s.transport) :
    Room (s.step r.register app e).transport ∧
      (Lossless (s.step r.register app e).transport ↔ Meets r app s e) := by
  unfold Session.step
  by_cases hfailed : s.failed = true
  · rw [if_pos hfailed]
    refine ⟨hr, iff_of_true h ?_⟩
    unfold Meets
    rw [hfailed]
    cases e <;> simp
  rw [if_neg hfailed]
  have hf := Bool.eq_false_of_not_eq_true hfailed
  have hkeep : ∀ {t : StreamTransportBase M σ} {c : Call}, (∀ p, c ≠ .configureNextRead p) →
      SameReads t (t.call r.register c) := by
    intro t c hc
    refine sameReads_changes (call_changes r t ?_)
    cases c with
    | configureNextRead p => exact absurd rfl (hc p)
    | enqueue | enqueueBuffer | registerReading | registerWriting => trivial
  cases e with
  | readEvent kernel =>
    have hread := readLoop_lossless_iff r app s.transport.config.maxConsecutiveReads kernel hr h
    exact ⟨hread.1, fun hl _ => hread.2.mp hl, fun hm => hread.2.mpr (hm hf)⟩
  | writeEvent kernel =>
    have hwrite := writeLoop_lossless_iff r app s.transport.config.maxConsecutiveWrites kernel hr h
    refine ⟨?_, fun hl _ => hwrite.mp hl, fun hm => hwrite.mpr (hm hf)⟩
    exact writeLoop_keeps (fun t => room_fetch r app) (fun t outcome => (sameReads_written t outcome).room)
      _ kernel s.transport hr
  | timeout id =>
    have htimeout := callback_lossless_iff r (app.handleTimeout s.transport.nextLayer id) hr h
    refine ⟨(callback_any r _ _).keeps room_change hr, ?_⟩
    exact ⟨fun hl _ => htimeout.mp hl, fun hm => htimeout.mpr (hm hf)⟩
  | enqueue bytes =>
    have hsame := hkeep (t := s.transport) (c := .enqueue bytes) (fun _ => by simp)
    exact ⟨hsame.room hr, iff_of_true (hsame.lossless_iff.mpr h) trivial⟩
  | enqueueBuffer bytes spare =>
    have hsame := hkeep (t := s.transport) (c := .enqueueBuffer bytes spare) (fun _ => by simp)
    exact ⟨hsame.room hr, iff_of_true (hsame.lossless_iff.mpr h) trivial⟩

theorem start_lossless (m : M) (s : σ) (config : TransportConfig) :
    Room (Session.start r.register app m s config).transport ∧
      Lossless (Session.start r.register app m s config).transport := by
  have hcalls := calls_changes (r.weaken (Q := fun _ => True) fun _ => False.elim) (app.init s).2.1
    (fun c _ => Call.allowed_true c) { fresh m (app.init s).1 config with config := config }
  have htrace := sameTrace_changes hcalls
  refine ⟨hcalls.keeps room_change (Nat.le_refl 0), ?_⟩
  refine lossless_of_zero (hcalls.keeps received_change rfl) ?_
  unfold consumedBytes
  exact (congrArg (List.flatMap Prod.snd) htrace.consumed).trans htrace.delivered.symm

end Events

/-- **Receive policies and the byte stream.** For every application and every run: in every state the
spans consumed and the bytes that wait are the bytes delivered, exactly if outside `consume` the next
read is configured only while nothing waits, and a `consume` that fails has configured it. -/
theorem policies_lossless_iff (app : NextLayer σ) (s : σ) (config : TransportConfig) (es : List Event) :
    Always (Session.step eventRegister app) (fun s => Lossless s.transport)
        (Session.start eventRegister app Operation.none s config) es ↔
      Along (Session.step eventRegister app) (Meets (eventRegistration σ) app)
        (Session.start eventRegister app Operation.none s config) es := by
  obtain ⟨hr, h⟩ := start_lossless (eventRegistration σ) app Operation.none s config
  change Room (Session.start eventRegister app Operation.none s config).transport at hr
  change Lossless (Session.start eventRegister app Operation.none s config).transport at h
  generalize Session.start eventRegister app Operation.none s config = x at hr h ⊢
  induction es generalizing x with
  | nil => exact iff_of_true h trivial
  | cons e es ih =>
    obtain ⟨hroom, hiff⟩ := step_lossless_iff (eventRegistration σ) app x e hr h
    constructor
    · intro hall
      have hnext := hall.2.head
      exact ⟨hiff.mp hnext, (ih _ hroom hnext).mp hall.2⟩
    · intro hall
      have hnext := hiff.mpr hall.1
      exact ⟨h, (ih _ hroom hnext).mpr hall.2⟩

/-- A next layer that reads pairs of bytes, and sets that policy again when its timeout passes. -/
def restartingLayer : NextLayer Unit where
  init s := (s, [.configureNextRead (.exactly 2)], true)
  hasMoreData _ := false
  produce s := (s, [], .ok)
  consume s _ := (s, [], .ok)
  handleTimeout s _ := (s, [.configureNextRead (.exactly 2)], .ok)

/-- A byte waits for another when the timeout passes: it is lost. -/
theorem timeout_discards :
    ¬ ∀ (app : NextLayer Unit), Restricted ReceivePolicy.Proper app → ∀ es : List Event,
      Always (Session.step eventRegister app) (fun s => Lossless s.transport)
        (Session.start eventRegister app Operation.none () {}) es := by
  intro h
  have hproper : Restricted ReceivePolicy.Proper restartingLayer := by
    refine ⟨fun s c hc => ?_, by simp [restartingLayer], by simp [NextLayer.Produces, restartingLayer],
      fun s id c hc => ?_⟩
    · obtain rfl := List.mem_singleton.mp hc
      exact ⟨by decide, by decide⟩
    · obtain rfl := List.mem_singleton.mp hc
      exact ⟨by decide, by decide⟩
  have hrun := h restartingLayer hproper [.readEvent [.data [1], .failed true], .timeout 0]
  revert hrun
  decide +kernel

end NetworkDriver.Net.StreamTransport.Policies
