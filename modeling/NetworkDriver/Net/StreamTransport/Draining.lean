import NetworkDriver.Net.StreamTransport.Queue

/-! # When everything has been sent

`remove_written_data_from_queue` stops at the buffer with which the count of written bytes reaches
0, and does nothing for a count of 0. Empty buffers at the end of the queue contribute nothing to
the count, so they stay, `done_writing` is false and the transport goes on waiting to write.

* `Covers`: the iovecs describe at least the bytes of their buffers. Every run keeps that.
* `sent_idle_iff`: a write event whose application has no more data and whose bytes are all taken
  leaves the transport idle exactly if the queue does not end in an empty buffer. -/

namespace NetworkDriver.Net.StreamTransport.Draining

open NetworkDriver.Library.Vectors NetworkDriver.Library.Run
open NetworkDriver.Net.Types NetworkDriver.Net.StreamTransport.Model
open NetworkDriver.Net.StreamTransport.Callbacks NetworkDriver.Net.StreamTransport.Queue
open StreamTransportBase

variable {M σ : Type}

/-! ### The iovecs cover the queue -/

/-- Every buffer of the queue has an iovec, which describes at least its bytes. -/
def Covers (t : StreamTransportBase M σ) : Prop :=
  List.Forall₂ (fun (buf : Vec) (v : IoVec) => buf.size ≤ v.len) t.writeQueue t.iovecs

theorem RepInv.covers {t : StreamTransportBase M σ} (h : RepInv t) : Covers t := by
  unfold Covers
  rw [h.iovecs, List.forall₂_map_right_iff]
  exact List.forall₂_same.mpr fun buf _ => Nat.le_refl buf.size

theorem Covers.length {t : StreamTransportBase M σ} (h : Covers t) :
    t.writeQueue.length = t.iovecs.length := List.Forall₂.length_eq h

/-- What is offered is at least what is queued. -/
theorem Covers.totalSize_le {t : StreamTransportBase M σ} (h : Covers t) :
    totalSize t.writeQueue ≤ t.offered := by
  unfold Covers at h
  unfold offered
  generalize t.writeQueue = q, t.iovecs = vs at h
  induction h with
  | nil => exact Nat.le_refl _
  | cons hv _ ih =>
    rw [totalSize_cons, List.map_cons, List.sum_cons]
    exact Nat.add_le_add hv ih

theorem covers_push {t : StreamTransportBase M σ} (h : Covers t) (buf : Vec) : Covers (t.push buf) :=
  List.rel_append (R := fun (buf : Vec) (v : IoVec) => buf.size ≤ v.len) h
    (List.Forall₂.cons (Nat.le_refl buf.size) List.Forall₂.nil)

theorem covers_change {P : ReceivePolicy → Prop} (t t' : StreamTransportBase M σ) (hc : Change P t t')
    (h : Covers t) : Covers t' := by
  cases hc with
  | manager | nextLayer | configureNextRead => exact h
  | pushNew bytes spare => rw [pushNew_eq]; exact covers_push h _
  | pushCopy bytes => rw [pushCopy_eq]; exact covers_push h _

theorem removeStep_size_le (n : ℕ) (v : Vec) (t : StreamTransportBase M σ) :
    (removeStep n v t).2.2.1.size ≤ v.size := by
  rcases Nat.lt_or_ge n v.size with h | h
  · rw [removeStep_cut h]
    exact Nat.sub_le _ _
  · unfold removeStep returnBuffer
    rw [if_pos h]
    dsimp only
    split_ifs <;> exact Nat.zero_le _

/-- The loop leaves no buffer larger than it was. -/
theorem removeLoop_covered {q : List Vec} {vs : List IoVec}
    (h : List.Forall₂ (fun (buf : Vec) (v : IoVec) => buf.size ≤ v.len) q vs) (n : ℕ)
    (t : StreamTransportBase M σ) :
    List.Forall₂ (fun (buf : Vec) (v : IoVec) => buf.size ≤ v.len) (removeLoop n q t).1 vs := by
  induction h generalizing n t with
  | nil => exact List.Forall₂.nil
  | cons hv hrest ih =>
    have hstep := (removeStep_size_le n _ t).trans hv
    unfold removeLoop
    dsimp only
    split_ifs
    · exact List.Forall₂.cons hstep hrest
    · exact List.Forall₂.cons hstep (ih _ _)

theorem covers_removeWritten {t : StreamTransportBase M σ} (h : Covers t) (n : ℕ) :
    Covers (t.removeWrittenDataFromQueue n) := by
  unfold removeWrittenDataFromQueue
  split_ifs
  · exact h
  · have hcover := removeLoop_covered h n { t with numEnqueuedBytes := subSize t.numEnqueuedBytes n }
    obtain ⟨memory, cache, hframe⟩ := removeLoop_frame t.writeQueue n
      { t with numEnqueuedBytes := subSize t.numEnqueuedBytes n }
    have hiovecs : (removeLoop n t.writeQueue
        { t with numEnqueuedBytes := subSize t.numEnqueuedBytes n }).2.2.iovecs = t.iovecs := by
      rw [hframe]
    unfold Covers
    dsimp only
    rw [hiovecs]
    exact List.forall₂_drop _ hcover

/-- **The iovecs cover the queue in every run** of enqueues, fetches and write results. -/
theorem covers_always (r : Registration (fun _ => True) M σ) (app : NextLayer σ) (m : M) (s : σ)
    (config : TransportConfig) (es : List WriteSideEvent) :
    Always (Queue.step r.register app) Covers (fresh m s config) es := by
  refine always_of_step (fun t e h => ?_) es List.Forall₂.nil
  have hkeeps : ∀ {t' : StreamTransportBase M σ}, Changes (fun _ => True) t t' → Covers t' :=
    fun hc => hc.keeps covers_change h
  cases e with
  | enqueue bytes => exact hkeeps (call_changes r t (Call.allowed_true (.enqueue bytes)))
  | enqueueBuffer bytes spare =>
    exact hkeeps (call_changes r t (Call.allowed_true (.enqueueBuffer bytes spare)))
  | fetchMoreData => exact hkeeps (fetchMoreData_changes r (NextLayer.produces_true app) t)
  | handleWriteResult writeRes temporary =>
    rw [Queue.step, handleWriteResult_snd]
    split_ifs
    · exact h
    · exact covers_removeWritten h _

/-! ### Everything is taken -/

/-- **The loop with a count that covers the queue**: it empties the buffers up to the one with which
the count reaches 0. -/
theorem removeLoop_all (q : List Vec) (n : ℕ) (t : StreamTransportBase M σ) (hn : 0 < n)
    (hq : totalSize q ≤ n) : ∃ bufs p r l, q = p ++ r ∧ (r = [] ∨ totalSize p = n) ∧
      totalSize p.dropLast < n ∧ bufs.drop p.length = r ∧
      removeLoop n q t = (bufs, p.length, { t with bufferCache := t.bufferCache ++ l }) := by
  induction q generalizing n t with
  | nil => exact ⟨[], [], [], [], rfl, Or.inl rfl, hn, rfl, by simp [removeLoop]⟩
  | cons v q ih =>
    rw [totalSize_cons] at hq
    obtain ⟨l, v', -, hs⟩ := removeStep_full (n := n) (v := v) (by omega) t
    rcases Nat.eq_zero_or_pos (n - v.size) with h0 | h0
    · refine ⟨v' :: q, [v], q, l, rfl, Or.inr (by simp; omega), hn, rfl, ?_⟩
      simp only [removeLoop, hs, h0, if_true, List.length_singleton]
    · obtain ⟨bufs, p, r, l', rfl, hr, hp, hd, hl⟩ :=
        ih (n - v.size) { t with bufferCache := t.bufferCache ++ l } h0 (by omega)
      refine ⟨v' :: bufs, v :: p, r, l ++ l', rfl, hr.imp_right fun h => ?_, ?_, by simpa using hd, ?_⟩
      · rw [totalSize_cons]
        omega
      · cases p with
        | nil => exact hn
        | cons w p =>
          rw [List.dropLast_cons_of_ne_nil (by simp), totalSize_cons]
          omega
      · simp only [removeLoop, hs, if_neg (Nat.ne_of_gt h0), hl, List.append_assoc, List.length_cons,
          Nat.add_comm 1 p.length]

/-- **The condition**: the queue is empty, or the bytes offered go beyond the buffers before its
last. -/
def EndsInData (t : StreamTransportBase M σ) : Prop :=
  t.writeQueue = [] ∨ totalSize t.writeQueue.dropLast < t.offered

instance (t : StreamTransportBase M σ) : Decidable (EndsInData t) := by unfold EndsInData; infer_instance

/-- If the iovecs describe the buffers, the last of them is not empty. -/
theorem endsInData_iff {t : StreamTransportBase M σ} (h : RepInv t) :
    EndsInData t ↔ ∀ buf ∈ t.writeQueue.getLast?, buf.size ≠ 0 := by
  unfold EndsInData
  rw [h.offered]
  rcases List.eq_nil_or_concat t.writeQueue with hq | ⟨q, buf, hq⟩
  · simp [hq]
  · rw [hq]
    simp
    omega

/-- What is left of the queue and the iovecs when more than nothing is offered and all of it taken. -/
theorem removeWritten_all {t : StreamTransportBase M σ} (hc : Covers t) (h0 : t.offered ≠ 0) :
    ∃ p r, t.writeQueue = p ++ r ∧ (r = [] ∨ totalSize p = t.offered) ∧
      totalSize p.dropLast < t.offered ∧ (t.removeWrittenDataFromQueue t.offered).writeQueue = r ∧
      (t.removeWrittenDataFromQueue t.offered).iovecs = t.iovecs.drop p.length := by
  obtain ⟨bufs, p, r, l, hq, hr, hp, hd, hl⟩ := removeLoop_all t.writeQueue t.offered
    { t with numEnqueuedBytes := subSize t.numEnqueuedBytes t.offered } (Nat.pos_of_ne_zero h0)
    hc.totalSize_le
  have heq : t.removeWrittenDataFromQueue t.offered =
      { t with
        numEnqueuedBytes := subSize t.numEnqueuedBytes t.offered
        bufferCache := t.bufferCache ++ l
        writeQueue := bufs.drop p.length
        iovecs := t.iovecs.drop p.length } := by
    unfold removeWrittenDataFromQueue
    rw [if_neg h0]
    dsimp only
    rw [hl]
  rw [heq]
  exact ⟨p, r, hq, hr, hp, hd, rfl⟩

/-- The iovecs behind buffers that are as large as everything offered are empty. -/
theorem offered_drop {t : StreamTransportBase M σ} (hc : Covers t) {p r : List Vec}
    (hq : t.writeQueue = p ++ r) (hp : totalSize p = t.offered) :
    ((t.iovecs.drop p.length).map IoVec.len).sum = 0 := by
  have htake : totalSize p ≤ ((t.iovecs.take p.length).map IoVec.len).sum := by
    have hfront := List.forall₂_take p.length hc
    rw [hq, List.take_left] at hfront
    exact Covers.totalSize_le (t := { t with writeQueue := p, iovecs := t.iovecs.take p.length }) hfront
  have hsum : ((t.iovecs.take p.length).map IoVec.len).sum +
      ((t.iovecs.drop p.length).map IoVec.len).sum = t.offered := by
    rw [← List.sum_append, ← List.map_append, List.take_append_drop]
    rfl
  omega

/-- **Everything offered is taken**: the queue empties, or nothing more is offered. -/
theorem removeWritten_offered {t : StreamTransportBase M σ} (hc : Covers t) :
    (EndsInData t → (t.removeWrittenDataFromQueue t.offered).writeQueue = []) ∧
      (¬ EndsInData t → (t.removeWrittenDataFromQueue t.offered).writeQueue ≠ [] ∧
        (t.removeWrittenDataFromQueue t.offered).offered = 0) := by
  unfold EndsInData
  by_cases h0 : t.offered = 0
  · have hsame : t.removeWrittenDataFromQueue t.offered = t := if_pos h0
    rw [hsame]
    refine ⟨fun h => h.resolve_right (by omega), fun h => ⟨fun hq => h (Or.inl hq), h0⟩⟩
  · obtain ⟨p, r, hq, hr, hp, hqueue, hiovecs⟩ := removeWritten_all hc h0
    rw [hqueue]
    by_cases hnil : r = []
    · rw [hnil, List.append_nil] at hq
      exact ⟨fun _ => hnil, fun hn => absurd (Or.inr (hq ▸ hp)) hn⟩
    · -- the count reaches 0 before the last buffer
      have hsum := hr.resolve_left hnil
      have hlast : t.offered ≤ totalSize t.writeQueue.dropLast := by
        rw [hq, List.dropLast_append_of_ne_nil hnil, totalSize_append]
        omega
      refine ⟨fun h => ?_, fun _ => ⟨hnil, ?_⟩⟩
      · rcases h with h | h
        · rw [hq] at h
          exact (List.append_eq_nil_iff.mp h).2
        · omega
      · change ((t.removeWrittenDataFromQueue t.offered).iovecs.map IoVec.len).sum = 0
        rw [hiovecs]
        exact offered_drop hc hq hsum

/-! ### A write event -/

section WriteEvent

variable (reg : Register M σ) (app : NextLayer σ)

/-- Without more data `fetch_more_data` does nothing. -/
theorem fetchMoreData_idle {t : StreamTransportBase M σ} (hmore : t.hasMoreData app = false) :
    fetchMoreData reg app t = (if t.writeQueue = [] then .done else .ok, t) := by
  have hloop : ∀ i, fetchLoop reg app i t = t := by
    intro i
    cases i with
    | zero => rfl
    | succ i =>
      unfold fetchLoop
      rw [hmore]
      simp
  unfold fetchMoreData doneWriting
  dsimp only
  rw [hloop, hmore]
  simp [List.isEmpty_iff]

/-- The first bytes offered are all of them. -/
def TakesAll (t : StreamTransportBase M σ) (outcome : WriteOutcome) : Prop :=
  ∃ k, outcome = .took k ∧ t.offered ≤ k ∧ k ≤ maxRwCount

/-- The transport when the kernel has taken everything. -/
def taken (t : StreamTransportBase M σ) : StreamTransportBase M σ :=
  { t with trace := { t.trace with taken := t.trace.taken ++ t.described.take t.offered } }

theorem writePass_empty {t : StreamTransportBase M σ} (hmore : t.hasMoreData app = false)
    (hq : t.writeQueue = []) (outcome : WriteOutcome) :
    writePass reg app outcome t = (some .done, t) := by
  unfold writePass
  rw [fetchMoreData_idle reg app hmore, if_pos hq]

theorem writev_all {t : StreamTransportBase M σ} {k : ℕ} (hk : t.offered ≤ k) :
    t.writev (.took k) = ((t.offered : ℤ), taken t) := by
  unfold writev taken
  dsimp only
  rw [Nat.min_eq_right hk]

theorem toInt_of_le {n : ℕ} (h : n ≤ maxRwCount) : toInt (n : ℤ) = n := by
  have hbound : maxRwCount < 2 ^ 31 := by decide
  exact toInt_of_lt (by omega)

theorem handleWriteResult_taken (t : StreamTransportBase M σ) (n : ℕ) (temporary : Bool) :
    t.handleWriteResult n temporary = (.ok, t.removeWrittenDataFromQueue n) := by
  unfold handleWriteResult
  rw [if_neg (by omega), Int.toNat_natCast]

theorem writePass_ok {outcome : WriteOutcome} {t t₁ t₂ : StreamTransportBase M σ} {res : ℤ}
    (hfetch : fetchMoreData reg app t = (.ok, t)) (hwritev : t.writev outcome = (res, t₁))
    (hres : t₁.handleWriteResult (toInt res) outcome.temporary = (.ok, t₂)) :
    writePass reg app outcome t = (none, t₂) := by
  unfold writePass
  rw [hfetch]
  simp only [hwritev, hres]

theorem writePass_all {t : StreamTransportBase M σ} (hmore : t.hasMoreData app = false)
    (hq : t.writeQueue ≠ []) {outcome : WriteOutcome} (ho : TakesAll t outcome) :
    writePass reg app outcome t = (none, (taken t).removeWrittenDataFromQueue t.offered) := by
  obtain ⟨k, rfl, hk, hmax⟩ := ho
  refine writePass_ok reg app ?_ (writev_all hk) ?_
  · rw [fetchMoreData_idle reg app hmore, if_neg hq]
  · rw [toInt_of_le (hk.trans hmax), handleWriteResult_taken]

/-- There are empty buffers in the queue, and nothing to write. -/
structure Stuck (t : StreamTransportBase M σ) : Prop where
  queue : t.writeQueue ≠ []
  offered : t.offered = 0
  more : t.hasMoreData app = false

/-- **Empty buffers are not removed**, whatever further writes answer. -/
theorem writeLoop_stuck (n : ℕ) (kernel : List WriteOutcome) {t : StreamTransportBase M σ}
    (h : Stuck app t) : Stuck app (writeLoop reg app n kernel t).2 := by
  refine writeLoop_keeps (fun t ht => ?_) (fun t outcome ht => ?_) n kernel t h
  · rw [fetchMoreData_idle reg app ht.more]
    exact ht
  · rw [handleWriteResult_snd]
    cases outcome with
    | took k =>
      have hzero : (t.writev (.took k)).1 = 0 := by
        simp only [writev, ht.offered, Nat.min_zero]
        rfl
      rw [hzero, if_neg (by decide)]
      exact ⟨ht.queue, ht.offered, ht.more⟩
    | failed temporary =>
      rw [if_pos (by simp [writev, toInt])]
      exact ht

/-- The verdict of the loop for a queue that empties in the first pass. -/
theorem handleWriteEvent_emptied {kernel : List WriteOutcome} {t t' : StreamTransportBase M σ}
    (hpass : writePass reg app (kernel.headD (.failed true)) t = (none, t'))
    (hmore : t'.hasMoreData app = false) (hq : t'.writeQueue = []) :
    t.handleWriteEvent reg app kernel = (.done, t') := by
  unfold handleWriteEvent
  cases hn : t.config.maxConsecutiveWrites with
  | zero =>
    unfold writeLoop
    rw [hpass]
    simp [doneWriting, hq, hmore]
  | succ n =>
    have hnext : writeLoop reg app n kernel.tail t' = (.done, t') := by
      unfold writeLoop
      rw [writePass_empty reg app hmore hq]
    unfold writeLoop
    rw [hpass]
    exact hnext

theorem handleWriteEvent_stuck {kernel : List WriteOutcome} {t t' : StreamTransportBase M σ}
    (hpass : writePass reg app (kernel.headD (.failed true)) t = (none, t')) (h : Stuck app t') :
    (t.handleWriteEvent reg app kernel).2.writeQueue ≠ [] := by
  unfold handleWriteEvent
  cases hn : t.config.maxConsecutiveWrites with
  | zero =>
    unfold writeLoop
    rw [hpass]
    exact h.queue
  | succ n =>
    unfold writeLoop
    rw [hpass]
    exact (writeLoop_stuck reg app n kernel.tail h).queue

/-- **When everything has been sent.** A write event of a transport whose application has no more data,
and of which the first `writev` takes all that is described, answers `done` and leaves nothing queued
exactly if the queue ends in data; while the iovecs describe the buffers, if its last buffer is not
empty. -/
theorem sent_idle_iff {t : StreamTransportBase M σ} (hc : Covers t) (hmore : t.hasMoreData app = false)
    (kernel : List WriteOutcome)
    (hk : t.writeQueue ≠ [] → TakesAll t (kernel.headD (.failed true))) :
    (((t.handleWriteEvent reg app kernel).1 = .done ∧
        (t.handleWriteEvent reg app kernel).2.writeQueue = [] ∧
        (t.handleWriteEvent reg app kernel).2.iovecs = []) ↔ EndsInData t) ∧
      (RepInv t → (EndsInData t ↔ ∀ buf ∈ t.writeQueue.getLast?, buf.size ≠ 0)) := by
  refine ⟨?_, endsInData_iff⟩
  have hleft := removeWritten_offered (t := taken t) hc
  change (EndsInData t → _) ∧ (¬ EndsInData t → _) at hleft
  by_cases hq : t.writeQueue = []
  · -- there is nothing to write
    refine iff_of_true ?_ (Or.inl hq)
    have hpass := writePass_empty reg app hmore hq (kernel.headD (.failed true))
    have hdone : t.handleWriteEvent reg app kernel = (.done, t) := by
      unfold handleWriteEvent writeLoop
      rw [hpass]
    have hlength := hc.length
    rw [hq] at hlength
    rw [hdone]
    exact ⟨rfl, hq, List.length_eq_zero_iff.mp hlength.symm⟩
  · have hpass := writePass_all reg app hmore hq (hk hq)
    have hafter : ((taken t).removeWrittenDataFromQueue t.offered).hasMoreData app = false := by
      obtain ⟨memory, cache, count, queue, iovecs, he⟩ :=
        handleWriteResult_frame (t.offered : ℤ) false (taken t)
      rw [handleWriteResult_taken] at he
      dsimp only at he
      rw [he]
      exact hmore
    by_cases he : EndsInData t
    · refine iff_of_true ?_ he
      have hqueue := hleft.1 he
      have hlength := (covers_removeWritten (t := taken t) hc t.offered).length
      rw [handleWriteEvent_emptied reg app hpass hafter hqueue]
      change ((taken t).removeWrittenDataFromQueue t.offered).writeQueue = [] at hqueue
      rw [hqueue] at hlength
      exact ⟨rfl, hqueue, List.length_eq_zero_iff.mp hlength.symm⟩
    · obtain ⟨hqueue, hoffered⟩ := hleft.2 he
      refine iff_of_false (fun h => ?_) he
      exact handleWriteEvent_stuck reg app hpass ⟨hqueue, hoffered, hafter⟩ h.2.1

end WriteEvent

/-- Two buffers are queued. -/
def twoQueued : StreamTransportBase Operation Unit :=
  run (Queue.step eventRegister idleLayer) (fresh Operation.none () {}) [.enqueue [1, 2], .enqueue [3]]

theorem idle_two_buffers :
    ((twoQueued.handleWriteEvent eventRegister idleLayer [.took 3]).1 = .done ∧
        (twoQueued.handleWriteEvent eventRegister idleLayer [.took 3]).2.writeQueue = [] ∧
        (twoQueued.handleWriteEvent eventRegister idleLayer [.took 3]).2.iovecs = []) ∧
      (RepInv twoQueued → (EndsInData twoQueued ↔ ∀ buf ∈ twoQueued.writeQueue.getLast?, buf.size ≠ 0)) :=
  have h := sent_idle_iff eventRegister idleLayer
    (covers_always (eventRegistration Unit) idleLayer Operation.none () {} [.enqueue [1, 2], .enqueue [3]]).last
    rfl [.took 3] fun _ => ⟨3, rfl, by decide, by decide⟩
  ⟨h.1.mpr (by decide), h.2⟩

/-- An empty buffer is queued: all writes answer 0, and the transport goes on waiting to write. -/
theorem empty_buffer_stays :
    ¬ ∀ (app : NextLayer Unit) (t : StreamTransportBase Operation Unit) (kernel : List WriteOutcome),
      RepInv t → t.hasMoreData app = false → (∀ outcome ∈ kernel, TakesAll t outcome) →
        t.config.maxConsecutiveWrites < kernel.length →
          (t.handleWriteEvent eventRegister app kernel).1 = .done ∧
            (t.handleWriteEvent eventRegister app kernel).2.writeQueue = [] ∧
            (t.handleWriteEvent eventRegister app kernel).2.iovecs = [] := by
  intro h
  have hevent := h idleLayer
    (run (Queue.step eventRegister idleLayer) (fresh Operation.none () {}) [.enqueue []])
    (List.replicate 21 (.took 0)) (by decide) rfl
    (fun outcome ho => ⟨0, List.eq_of_mem_replicate ho, by decide, by decide⟩) (by decide)
  revert hevent
  decide +kernel

end NetworkDriver.Net.StreamTransport.Draining
